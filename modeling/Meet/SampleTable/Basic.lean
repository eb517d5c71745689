import Mathlib.Algebra.GroupWithZero.Nat
import Mathlib.Data.List.Basic

/-! The tables of an MP4 track that say where its samples are and when they are shown, and the
iterator over them: `a14/SampleTable.cpp` and `a14/SampleIterator.cpp`. `uint32_t` and `size_t`
have 32 bits. A result of `none` stands for an abort by `CHECK` and for what the language leaves
undefined, a division by zero, an access outside an array, or an array that is larger than the
memory can be. -/
namespace Meet.SampleTable

inductive Status where
  | OK
  | ERROR_END_OF_STREAM
  | ERROR_MALFORMED
  | ERROR_OUT_OF_RANGE
  | ERROR_IO
deriving DecidableEq, Repr

/-- Arithmetic on `uint32_t`. -/
def u32 (n : Nat) : Nat := n % 2 ^ 32

def sub32 (m n : Nat) : Nat := u32 (m + (2 ^ 32 - n))

theorem u32_of_lt {n : Nat} (h : n < 2 ^ 32) : u32 n = n := Nat.mod_eq_of_lt h

theorem u32_add (m n : Nat) : u32 (m + u32 n) = u32 (m + n) := Nat.add_mod_mod m n (2 ^ 32)

theorem sub32_of_le {m n : Nat} (h : n ≤ m) (hLt : m < 2 ^ 32) : sub32 m n = m - n := by
  unfold sub32 u32
  omega

/-- A number in network byte order. -/
def ofBytes (bytes : List UInt8) : Nat :=
  bytes.foldl (fun n byte => 256 * n + byte.toNat) 0

def FOURCC (c1 c2 c3 c4 : Char) : Nat :=
  ofBytes ([c1, c2, c3, c4].map fun c => UInt8.ofNat c.toNat)

def kChunkOffsetType32 : Nat := FOURCC 's' 't' 'c' 'o'
def kChunkOffsetType64 : Nat := FOURCC 'c' 'o' '6' '4'

/-- What `readAt` delivers: at most the bytes asked for, and fewer at the end of the data and
where it fails. -/
structure DataSource where
  readAt : Int → Nat → List UInt8
  length_readAt : ∀ offset size, (readAt offset size).length ≤ size

/-- The bytes, if all of them are delivered. -/
def DataSource.read (source : DataSource) (offset : Int) (size : Nat) : Option (List UInt8) :=
  if (source.readAt offset size).length < size then none else some (source.readAt offset size)

/-- A number of the given width, or the error where it cannot be read. -/
def DataSource.number (source : DataSource) (offset : Int) (width : Nat) : Except Status Nat :=
  match source.read offset width with
  | none => .error Status.ERROR_IO
  | some bytes => .ok (ofBytes bytes)

/-- `startChunk` counts from 0. -/
structure SampleToChunkEntry where
  startChunk : Nat
  samplesPerChunk : Nat
  chunkDesc : Nat
deriving DecidableEq, Repr

structure SampleTimeEntry where
  mSampleIndex : Nat
  mCompositionTime : Nat
deriving DecidableEq, Repr

/-- The numbers in `deltaEntries` are a number of samples and their offset, in turn. -/
structure CompositionDeltaLookup where
  mDeltaEntries : Option (List Nat)
  mNumDeltaEntries : Nat
  mCurrentDeltaEntry : Nat
  mCurrentEntrySampleIndex : Nat
deriving DecidableEq, Repr

/-- The fields behind `mChunkDesc` have no value before they are set, as `mInitialized` tells for
those that are read. -/
structure SampleIterator where
  mInitialized : Bool
  mTimeToSampleIndex : Nat
  mTTSSampleIndex : Nat
  mTTSSampleTime : Nat
  mTTSCount : Nat
  mTTSDuration : Nat
  mSampleToChunkIndex : Nat
  mFirstChunk : Nat
  mFirstChunkSampleIndex : Nat
  mStopChunk : Nat
  mStopChunkSampleIndex : Nat
  mSamplesPerChunk : Nat
  mChunkDesc : Nat
  mCurrentChunkIndex : Nat
  mCurrentChunkOffset : Int
  mCurrentChunkSampleSizes : List Nat
  mCurrentSampleIndex : Nat
  mCurrentSampleOffset : Int
  mCurrentSampleSize : Nat
  mCurrentSampleTime : Nat
deriving DecidableEq, Repr

/-- What is read from the file once. An offset of -1 stands for a table that is missing. -/
structure Params where
  mChunkOffsetOffset : Int
  mChunkOffsetType : Nat
  mNumChunkOffsets : Nat
  mSampleToChunkOffset : Int
  mNumSampleToChunkOffsets : Nat
  mSampleToChunkEntries : List SampleToChunkEntry
  mSampleSizeOffset : Int
  mSampleSizeFieldSize : Nat
  mDefaultSampleSize : Nat
  mNumSampleSizes : Nat
  mTimeToSampleCount : Nat
  mTimeToSample : Option (List Nat)
  mCompositionTimeDeltaEntries : Option (List Nat)
  mNumCompositionTimeDeltaEntries : Nat
  mSyncSampleOffset : Int
  mNumSyncSamples : Nat
  mSyncSamples : List Nat
deriving DecidableEq, Repr

end SampleTable

open SampleTable in
/-- The table of a track, with what it remembers of the last look-ups. -/
structure SampleTable extends Params where
  mCompositionDeltaLookup : CompositionDeltaLookup
  mSampleTimeEntries : Option (List SampleTimeEntry)
  mLastSyncSampleIndex : Nat
  mSampleIterator : SampleIterator
deriving DecidableEq, Repr

namespace SampleTable

/-! ### Reading from the file -/

namespace Params

variable (p : Params)

/-- The chunk offset is 0 where there is an error. -/
def getChunkOffset (source : DataSource) (chunk : Nat) : Option (Except Status Int) :=
  if p.mNumChunkOffsets ≤ chunk then some (.error .ERROR_OUT_OF_RANGE)
  else if p.mChunkOffsetType = kChunkOffsetType32 then
    some ((source.number (p.mChunkOffsetOffset + 8 + u32 (4 * chunk)) 4).map Int.ofNat)
  else if p.mChunkOffsetType = kChunkOffsetType64 then
    some ((source.number (p.mChunkOffsetOffset + 8 + u32 (8 * chunk)) 8).map
      fun (offset64 : Nat) => Int.bmod offset64 (2 ^ 64))
  else none

def getSampleSizeDirect (source : DataSource) (sampleIndex : Nat) : Option (Except Status Nat) :=
  if p.mNumSampleSizes ≤ sampleIndex then some (.error .ERROR_OUT_OF_RANGE)
  else if 0 < p.mDefaultSampleSize then some (.ok p.mDefaultSampleSize)
  else if p.mSampleSizeFieldSize = 32 then
    some (source.number (p.mSampleSizeOffset + 12 + u32 (4 * sampleIndex)) 4)
  else if p.mSampleSizeFieldSize = 16 then
    some (source.number (p.mSampleSizeOffset + 12 + u32 (2 * sampleIndex)) 2)
  else if p.mSampleSizeFieldSize = 8 then
    some (source.number (p.mSampleSizeOffset + 12 + sampleIndex) 1)
  else if p.mSampleSizeFieldSize = 4 then
    some ((source.number (p.mSampleSizeOffset + 12 + (sampleIndex / 2 : Nat)) 1).map fun x =>
      if sampleIndex % 2 = 1 then x % 16 else x / 16)
  else none

end Params

/-! ### Composition time -/

/-- The loop of `getCompositionTimeOffset`, with `left` entries from the current one on. -/
def CompositionDeltaLookup.scan (deltaEntries : List Nat) (sampleIndex : Nat) :
    Nat → CompositionDeltaLookup → Option (Nat × CompositionDeltaLookup)
  | 0, lookup => some (0, lookup)
  | left + 1, lookup =>
      match deltaEntries[u32 (2 * lookup.mCurrentDeltaEntry)]?,
        deltaEntries[u32 (2 * lookup.mCurrentDeltaEntry + 1)]? with
      | some sampleCount, some delta =>
          if sampleIndex < u32 (lookup.mCurrentEntrySampleIndex + sampleCount) then
            some (delta, lookup)
          else
            scan deltaEntries sampleIndex left
              { lookup with
                mCurrentEntrySampleIndex := u32 (lookup.mCurrentEntrySampleIndex + sampleCount)
                mCurrentDeltaEntry := lookup.mCurrentDeltaEntry + 1 }
      | _, _ => none

def CompositionDeltaLookup.getCompositionTimeOffset (lookup : CompositionDeltaLookup)
    (sampleIndex : Nat) : Option (Nat × CompositionDeltaLookup) :=
  match lookup.mDeltaEntries with
  | none => some (0, lookup)
  | some deltaEntries =>
      let lookup := if sampleIndex < lookup.mCurrentEntrySampleIndex then
        { lookup with mCurrentDeltaEntry := 0, mCurrentEntrySampleIndex := 0 } else lookup
      CompositionDeltaLookup.scan deltaEntries sampleIndex
        (lookup.mNumDeltaEntries - lookup.mCurrentDeltaEntry) lookup

/-! ### The iterator -/

namespace SampleIterator

def reset (it : SampleIterator) : SampleIterator :=
  { it with
    mSampleToChunkIndex := 0
    mFirstChunk := 0
    mFirstChunkSampleIndex := 0
    mStopChunk := 0
    mStopChunkSampleIndex := 0
    mSamplesPerChunk := 0
    mChunkDesc := 0 }

/-- Go on to the range of an entry. -/
def enterRange (it : SampleIterator) (entry : SampleToChunkEntry)
    (stopChunk stopChunkSampleIndex : Nat) : SampleIterator :=
  { it with
    mFirstChunkSampleIndex := it.mStopChunkSampleIndex
    mFirstChunk := entry.startChunk
    mSamplesPerChunk := entry.samplesPerChunk
    mChunkDesc := entry.chunkDesc
    mStopChunk := stopChunk
    mStopChunkSampleIndex := stopChunkSampleIndex
    mSampleToChunkIndex := it.mSampleToChunkIndex + 1 }

/-- The body of the loop of `findChunkRange`. -/
def nextRange (p : Params) (it : SampleIterator) : Option SampleIterator :=
  match p.mSampleToChunkEntries[it.mSampleToChunkIndex]? with
  | none => none
  | some entry =>
      if it.mSampleToChunkIndex + 1 < p.mNumSampleToChunkOffsets then
        match p.mSampleToChunkEntries[it.mSampleToChunkIndex + 1]? with
        | none => none
        | some next =>
            some (it.enterRange entry next.startChunk (u32 (it.mStopChunkSampleIndex +
              u32 (sub32 next.startChunk entry.startChunk * entry.samplesPerChunk))))
      else some (it.enterRange entry 0xffffffff 0xffffffff)

/-- The loop of `findChunkRange`, with `left` entries not yet passed. -/
def scanRanges (p : Params) (sampleIndex : Nat) :
    Nat → SampleIterator → Option (Status × SampleIterator)
  | 0, it =>
      some (if it.mStopChunkSampleIndex ≤ sampleIndex then .ERROR_OUT_OF_RANGE else .OK, it)
  | left + 1, it =>
      if it.mStopChunkSampleIndex ≤ sampleIndex then
        match it.nextRange p with
        | none => none
        | some it => scanRanges p sampleIndex left it
      else some (.OK, it)

def findChunkRange (p : Params) (it : SampleIterator) (sampleIndex : Nat) :
    Option (Status × SampleIterator) :=
  if sampleIndex < it.mFirstChunkSampleIndex then none
  else scanRanges p sampleIndex (p.mNumSampleToChunkOffsets - it.mSampleToChunkIndex) it

/-- The loop over the samples of a chunk: the sizes of `left` of them go behind `sizes`. -/
def pushSizes (p : Params) (source : DataSource) :
    Nat → Nat → List Nat → Option (Status × List Nat)
  | 0, _, sizes => some (.OK, sizes)
  | left + 1, sampleIndex, sizes =>
      match p.getSampleSizeDirect source sampleIndex with
      | none => none
      | some (.error err) => some (err, sizes)
      | some (.ok sampleSize) =>
          pushSizes p source left (u32 (sampleIndex + 1)) (sizes ++ [sampleSize])

/-- `seekTo` where the chunk is not the current one. -/
def loadChunk (p : Params) (source : DataSource) (it : SampleIterator) (chunk : Nat) :
    Option (Status × SampleIterator) :=
  match p.getChunkOffset source chunk with
  | none => none
  | some (.error err) => some (err, { it with mCurrentChunkIndex := chunk, mCurrentChunkOffset := 0 })
  | some (.ok offset) =>
      match pushSizes p source it.mSamplesPerChunk (u32 (it.mFirstChunkSampleIndex +
        u32 (it.mSamplesPerChunk * sub32 chunk it.mFirstChunk))) [] with
      | none => none
      | some (err, sizes) =>
          some (err, { it with
            mCurrentChunkIndex := chunk
            mCurrentChunkOffset := offset
            mCurrentChunkSampleSizes := sizes })

/-- The offset and the size of the sample, from those of its chunk. -/
def enterSample (it : SampleIterator) (sampleIndex : Nat) : Option SampleIterator :=
  let chunkRelativeSampleIndex :=
    (sampleIndex - it.mFirstChunkSampleIndex) % it.mSamplesPerChunk
  match it.mCurrentChunkSampleSizes[chunkRelativeSampleIndex]? with
  | none => none
  | some sampleSize =>
      some { it with
        mCurrentSampleOffset := it.mCurrentChunkOffset +
          ((it.mCurrentChunkSampleSizes.take chunkRelativeSampleIndex).sum : Nat)
        mCurrentSampleSize := sampleSize }

/-- The body of the loop of `findSampleTime`. -/
def nextTime (p : Params) (it : SampleIterator) : Option SampleIterator :=
  match p.mTimeToSample with
  | none => none
  | some timeToSample =>
      match timeToSample[u32 (2 * it.mTimeToSampleIndex)]?,
        timeToSample[u32 (2 * it.mTimeToSampleIndex + 1)]? with
      | some count, some duration =>
          some { it with
            mTTSSampleIndex := u32 (it.mTTSSampleIndex + it.mTTSCount)
            mTTSSampleTime := u32 (it.mTTSSampleTime + it.mTTSCount * it.mTTSDuration)
            mTTSCount := count
            mTTSDuration := duration
            mTimeToSampleIndex := it.mTimeToSampleIndex + 1 }
      | _, _ => none

/-- The loop of `findSampleTime`, with `left` entries not yet passed. -/
def scanTimes (p : Params) (sampleIndex : Nat) :
    Nat → SampleIterator → Option (Status × SampleIterator)
  | 0, it =>
      some (if u32 (it.mTTSSampleIndex + it.mTTSCount) ≤ sampleIndex then .ERROR_OUT_OF_RANGE
        else .OK, it)
  | left + 1, it =>
      if u32 (it.mTTSSampleIndex + it.mTTSCount) ≤ sampleIndex then
        match it.nextTime p with
        | none => none
        | some it => scanTimes p sampleIndex left it
      else some (.OK, it)

/-- `seekTo` where the sample is before the current run of equal durations. -/
def resetTime (it : SampleIterator) : SampleIterator :=
  { it with
    mTimeToSampleIndex := 0
    mTTSSampleIndex := 0
    mTTSSampleTime := 0
    mTTSCount := 0
    mTTSDuration := 0 }

/-- `seekTo` up to the range of chunks. -/
def seekRange (p : Params) (it : SampleIterator) (sampleIndex : Nat) :
    Option (Status × SampleIterator) :=
  let it := if it.mInitialized = false ∨ sampleIndex < it.mFirstChunkSampleIndex then it.reset
    else it
  if it.mStopChunkSampleIndex ≤ sampleIndex then it.findChunkRange p sampleIndex
  else some (.OK, it)

/-- The chunk is loaded unless it is the current one. -/
def seekCurrent (p : Params) (source : DataSource) (it : SampleIterator) (chunk : Nat) :
    Option (Status × SampleIterator) :=
  if it.mInitialized = false ∨ chunk ≠ it.mCurrentChunkIndex then it.loadChunk p source chunk
  else some (.OK, it)

/-- `seekTo` from there to the offset and the size of the sample. -/
def seekInRange (p : Params) (source : DataSource) (it : SampleIterator) (sampleIndex : Nat) :
    Option (Status × SampleIterator) :=
  if it.mSamplesPerChunk = 0 then none
  else
    match it.seekCurrent p source (u32 ((sampleIndex - it.mFirstChunkSampleIndex) /
      it.mSamplesPerChunk + it.mFirstChunk)) with
    | some (.OK, it) => (it.enterSample sampleIndex).map fun it => (.OK, it)
    | other => other

def seekChunk (p : Params) (source : DataSource) (it : SampleIterator) (sampleIndex : Nat) :
    Option (Status × SampleIterator) :=
  match it.seekRange p sampleIndex with
  | some (.OK, it) => it.seekInRange p source sampleIndex
  | other => other

end SampleIterator

/-- The time goes into `mCurrentSampleTime`. -/
def findSampleTime (t : SampleTable) (sampleIndex : Nat) : Option (Status × SampleTable) :=
  if t.mNumSampleSizes ≤ sampleIndex then some (.ERROR_OUT_OF_RANGE, t)
  else
    match SampleIterator.scanTimes t.toParams sampleIndex
      (t.mTimeToSampleCount - t.mSampleIterator.mTimeToSampleIndex) t.mSampleIterator with
    | none => none
    | some (.OK, it) =>
        match t.mCompositionDeltaLookup.getCompositionTimeOffset sampleIndex with
        | none => none
        | some (offset, lookup) =>
            some (.OK, { t with
              mSampleIterator := { it with
                mCurrentSampleTime := u32 (u32 (it.mTTSSampleTime +
                  it.mTTSDuration * sub32 sampleIndex it.mTTSSampleIndex) + offset) }
              mCompositionDeltaLookup := lookup })
    | some (err, it) => some (err, { t with mSampleIterator := it })

/-- `seekTo` from there to the end. -/
def seekTime (t : SampleTable) (sampleIndex : Nat) : Option (Status × SampleTable) :=
  let it := if sampleIndex < t.mSampleIterator.mTTSSampleIndex then t.mSampleIterator.resetTime
    else t.mSampleIterator
  match findSampleTime { t with mSampleIterator := it } sampleIndex with
  | some (.OK, t) =>
      some (.OK, { t with
        mSampleIterator := { t.mSampleIterator with
          mCurrentSampleIndex := sampleIndex
          mInitialized := true } })
  | other => other

def seekTo (t : SampleTable) (source : DataSource) (sampleIndex : Nat) :
    Option (Status × SampleTable) :=
  if t.mNumSampleSizes ≤ sampleIndex then some (.ERROR_END_OF_STREAM, t)
  else if t.mSampleToChunkOffset < 0 ∨ t.mChunkOffsetOffset < 0 ∨ t.mSampleSizeOffset < 0 ∨
      t.mTimeToSampleCount = 0 then
    some (.ERROR_MALFORMED, t)
  else if t.mSampleIterator.mInitialized ∧ t.mSampleIterator.mCurrentSampleIndex = sampleIndex then
    some (.OK, t)
  else
    match t.mSampleIterator.seekChunk t.toParams source sampleIndex with
    | none => none
    | some (.OK, it) => seekTime { t with mSampleIterator := it } sampleIndex
    | some (err, it) => some (err, { t with mSampleIterator := it })

/-! ### Queries of the table -/

def isValid (p : Params) : Prop :=
  0 ≤ p.mChunkOffsetOffset ∧ 0 ≤ p.mSampleToChunkOffset ∧ 0 ≤ p.mSampleSizeOffset ∧
    p.mTimeToSample ≠ none

structure MetaData where
  offset : Int
  size : Nat
  compositionTime : Nat
  isSyncSample : Bool
deriving DecidableEq, Repr

/-- The first of the sync samples that is not before the given one, from number `i` on. -/
def firstSync (syncSamples : List Nat) (sampleIndex : Nat) (i : Nat) : Nat :=
  i + ((syncSamples.drop i).takeWhile (· < sampleIndex)).length

/-- What `getMetaDataForSample` says of sync samples, and the new `mLastSyncSampleIndex`. -/
def checkSync (t : SampleTable) (sampleIndex : Nat) : Bool × Nat :=
  if t.mSyncSampleOffset < 0 then (true, t.mLastSyncSampleIndex)
  else
    let begin :=
      match t.mSyncSamples[t.mLastSyncSampleIndex]? with
      | some last => if last ≤ sampleIndex then t.mLastSyncSampleIndex else 0
      | none => 0
    let i := firstSync t.mSyncSamples sampleIndex begin
    (t.mSyncSamples[i]? = some sampleIndex, i)

/-- `wantsSync` is whether the caller asks if it is a sync sample. -/
def getMetaDataForSample (t : SampleTable) (source : DataSource) (sampleIndex : Nat)
    (wantsSync : Bool) : Option (Status × MetaData × SampleTable) :=
  match t.seekTo source sampleIndex with
  | none => none
  | some (.OK, t) =>
      let (isSyncSample, i) := if wantsSync then t.checkSync sampleIndex
        else (false, t.mLastSyncSampleIndex)
      some (.OK, ⟨t.mSampleIterator.mCurrentSampleOffset, t.mSampleIterator.mCurrentSampleSize,
        t.mSampleIterator.mCurrentSampleTime, isSyncSample⟩, { t with mLastSyncSampleIndex := i })
  | some (err, t) => some (err, ⟨0, 0, 0, false⟩, t)

inductive Flag where
  | kFlagBefore
  | kFlagAfter
  | kFlagClosest
deriving DecidableEq, Repr

def abs_difference (time1 time2 : Nat) : Nat :=
  if time1 > time2 then time1 - time2 else time2 - time1

/-- The state of the loops of `buildSampleEntriesTable`. -/
structure Building where
  entries : List SampleTimeEntry
  lookup : CompositionDeltaLookup
  sampleIndex : Nat
  sampleTime : Nat

/-- The inner loop of `buildSampleEntriesTable`, with `left` of the samples of one run to go. -/
def Building.fillRun (delta : Nat) : Nat → Building → Option Building
  | 0, b => some b
  | left + 1, b =>
      if b.sampleIndex < b.entries.length then
        match b.lookup.getCompositionTimeOffset b.sampleIndex with
        | none => none
        | some (compTimeDelta, lookup) =>
            fillRun delta left
              { entries := b.entries.set b.sampleIndex
                  ⟨b.sampleIndex, u32 (b.sampleTime + compTimeDelta)⟩
                lookup := lookup
                sampleIndex := u32 (b.sampleIndex + 1)
                sampleTime := u32 (b.sampleTime + delta) }
      else
        fillRun delta left
          { b with
            sampleIndex := u32 (b.sampleIndex + 1)
            sampleTime := u32 (b.sampleTime + delta) }

/-- The outer loop, with `left` runs from number `i` on. -/
def Building.fillRuns (timeToSample : List Nat) : Nat → Nat → Building → Option Building
  | 0, _, b => some b
  | left + 1, i, b =>
      match timeToSample[u32 (2 * i)]?, timeToSample[u32 (2 * i + 1)]? with
      | some n, some delta =>
          match b.fillRun delta n with
          | none => none
          | some b => fillRuns timeToSample left (i + 1) b
      | _, _ => none

/-- `memory` is what the new array holds before it is filled. -/
def buildSampleEntriesTable (qsort : List SampleTimeEntry → List SampleTimeEntry)
    (memory : Nat → SampleTimeEntry) (t : SampleTable) : Option SampleTable :=
  match t.mSampleTimeEntries with
  | some _ => some t
  | none =>
      if 2 ^ 32 ≤ 8 * t.mNumSampleSizes then none
      else
        let b : Building :=
          ⟨(List.range t.mNumSampleSizes).map memory, t.mCompositionDeltaLookup, 0, 0⟩
        match b.fillRuns (t.mTimeToSample.getD []) t.mTimeToSampleCount 0 with
        | none => none
        | some b =>
            some { t with
              mSampleTimeEntries := some (qsort b.entries)
              mCompositionDeltaLookup := b.lookup }

/-- The binary search of `findSampleAtTime`. -/
def searchTime (entries : List SampleTimeEntry) (req_time : Nat) :
    Nat → Nat → Nat → Option Nat
  | 0, left, _ => some left
  | fuel + 1, left, right =>
      if left < right then
        let center := u32 (left + right) / 2
        match entries[center]? with
        | none => none
        | some entry =>
            if req_time < entry.mCompositionTime then
              searchTime entries req_time fuel left center
            else if entry.mCompositionTime < req_time then
              searchTime entries req_time fuel (center + 1) right
            else some center
      else some left

/-- Back to an entry that is not after the time. -/
def stepBack (entries : List SampleTimeEntry) (req_time : Nat) : Nat → Option Nat
  | 0 => some 0
  | closestIndex + 1 =>
      match entries[closestIndex + 1]? with
      | none => none
      | some entry =>
          if req_time < entry.mCompositionTime then stepBack entries req_time closestIndex
          else some (closestIndex + 1)

/-- On to an entry that is not before the time, with `left` entries behind this one. -/
def stepOn (entries : List SampleTimeEntry) (req_time : Nat) : Nat → Nat → Option Nat
  | 0, closestIndex => some closestIndex
  | left + 1, closestIndex =>
      match entries[closestIndex]? with
      | none => none
      | some entry =>
          if entry.mCompositionTime < req_time then
            stepOn entries req_time left (closestIndex + 1)
          else some closestIndex

/-- The neighbour on the left if it is closer. -/
def closer (entries : List SampleTimeEntry) (req_time : Nat) : Nat → Option Nat
  | 0 => some 0
  | closestIndex + 1 =>
      match entries[closestIndex + 1]?, entries[closestIndex]? with
      | some entry, some neighbour =>
          if abs_difference entry.mCompositionTime req_time >
              abs_difference neighbour.mCompositionTime req_time then some closestIndex
          else some (closestIndex + 1)
      | _, _ => none

/-- The `switch` of `findSampleAtTime`. -/
def closestEntry (entries : List SampleTimeEntry) (req_time numSampleSizes left : Nat) :
    Flag → Option Nat
  | .kFlagBefore => stepBack entries req_time left
  | .kFlagAfter => stepOn entries req_time (numSampleSizes - (left + 1)) left
  | .kFlagClosest => closer entries req_time left

def findSampleAtTime (qsort : List SampleTimeEntry → List SampleTimeEntry)
    (memory : Nat → SampleTimeEntry) (t : SampleTable) (req_time : Nat) (flags : Flag) :
    Option (Status × Nat × SampleTable) :=
  match t.buildSampleEntriesTable qsort memory with
  | none => none
  | some t =>
      let entries := t.mSampleTimeEntries.getD []
      match searchTime entries req_time t.mNumSampleSizes 0 t.mNumSampleSizes with
      | none => none
      | some left =>
          if left = t.mNumSampleSizes ∧ flags = .kFlagAfter then
            some (.ERROR_OUT_OF_RANGE, 0, t)
          else
            let left := if left = t.mNumSampleSizes then sub32 left 1 else left
            match closestEntry entries req_time t.mNumSampleSizes left flags with
            | none => none
            | some closestIndex =>
                match entries[closestIndex]? with
                | none => none
                | some entry => some (.OK, entry.mSampleIndex, t)

/-- The sync sample next to the start sample: the one before it, or the one behind that if it is
closer in time. -/
def closestSync (t : SampleTable) (source : DataSource) (start_sample_index left : Nat) (x : Nat) :
    Option (Status × Nat × SampleTable) :=
  match t.mSyncSamples[left + 1]? with
  | none => some (.OK, left, t)
  | some y =>
      match t.seekTo source start_sample_index with
      | some (.OK, t) =>
          let sample_time := t.mSampleIterator.mCurrentSampleTime
          match t.seekTo source x with
          | some (.OK, t) =>
              let x_time := t.mSampleIterator.mCurrentSampleTime
              match t.seekTo source y with
              | some (.OK, t) =>
                  let y_time := t.mSampleIterator.mCurrentSampleTime
                  some (.OK, if abs_difference x_time sample_time >
                    abs_difference y_time sample_time then left + 1 else left, t)
              | some (err, t) => some (err, left, t)
              | none => none
          | some (err, t) => some (err, left, t)
          | none => none
      | some (err, t) => some (err, left, t)
      | none => none

def findSyncSampleNear (t : SampleTable) (source : DataSource) (start_sample_index : Nat)
    (flags : Flag) : Option (Status × Nat × SampleTable) :=
  if t.mSyncSampleOffset < 0 then some (.OK, start_sample_index, t)
  else if t.mNumSyncSamples = 0 then some (.OK, 0, t)
  else
    let left := firstSync t.mSyncSamples start_sample_index 0
    if left = t.mNumSyncSamples ∧ flags = .kFlagAfter then some (.ERROR_OUT_OF_RANGE, 0, t)
    else
      let left := left - 1
      match t.mSyncSamples[left]? with
      | none => none
      | some x =>
          match t.closestSync source start_sample_index left x with
          | some (.OK, left, t) =>
              match t.mSyncSamples[left]? with
              | none => none
              | some x =>
                  match flags with
                  | .kFlagBefore =>
                      if x ≤ start_sample_index then some (.OK, x, t)
                      else if left = 0 then none
                      else
                        match t.mSyncSamples[left - 1]? with
                        | none => none
                        | some x =>
                            if x ≤ start_sample_index then some (.OK, x, t) else none
                  | .kFlagAfter =>
                      if start_sample_index ≤ x then some (.OK, x, t)
                      else
                        match t.mSyncSamples[left + 1]? with
                        | none => some (.ERROR_OUT_OF_RANGE, 0, t)
                        | some x =>
                            if start_sample_index ≤ x then some (.OK, x, t) else none
                  | .kFlagClosest => some (.OK, x, t)
          | some (err, _, t) => some (err, 0, t)
          | none => none

/-- The loop of `findThumbnailSample` over the sync samples to scan. -/
def scanSizes (p : Params) (source : DataSource) :
    List Nat → Nat × Nat → Option (Except Status Nat)
  | [], best => some (.ok best.1)
  | x :: rest, best =>
      match p.getSampleSizeDirect source x with
      | none => none
      | some (.error err) => some (.error err)
      | some (.ok sampleSize) =>
          scanSizes p source rest (if best.2 < sampleSize then (x, sampleSize) else best)

def kMaxNumSyncSamplesToScan : Nat := 20

def findThumbnailSample (t : SampleTable) (source : DataSource) : Option (Except Status Nat) :=
  if t.mSyncSampleOffset < 0 then some (.ok 0)
  else
    match t.mSyncSamples.take kMaxNumSyncSamplesToScan with
    | [] => some (.ok 0)
    | x :: rest =>
        match t.getSampleSizeDirect source x with
        | none => none
        | some (.error err) => some (.error err)
        | some (.ok sampleSize) => scanSizes t.toParams source rest (x, sampleSize)

/-- The loop of `getMaxSampleSize`, with `left` samples from number `i` on. -/
def maxSize (p : Params) (source : DataSource) : Nat → Nat → Nat → Option (Except Status Nat)
  | 0, _, max_size => some (.ok max_size)
  | left + 1, i, max_size =>
      match p.getSampleSizeDirect source i with
      | none => none
      | some (.error err) => some (.error err)
      | some (.ok sample_size) => maxSize p source left (i + 1) (max max_size sample_size)

def getMaxSampleSize (t : SampleTable) (source : DataSource) : Option (Except Status Nat) :=
  maxSize t.toParams source t.mNumSampleSizes 0 0

/-- A table whose iterator has not been used. -/
def new (p : Params) : SampleTable :=
  { toParams := p
    mCompositionDeltaLookup :=
      ⟨p.mCompositionTimeDeltaEntries, p.mNumCompositionTimeDeltaEntries, 0, 0⟩
    mSampleTimeEntries := none
    mLastSyncSampleIndex := 0
    mSampleIterator := ⟨false, 0, 0, 0, 0, 0, 0, 0, 0, 0, 0, 0, 0, 0, 0, [], 0, 0, 0, 0⟩ }

end Meet.SampleTable
