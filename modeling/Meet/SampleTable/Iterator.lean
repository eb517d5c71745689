import Meet.SampleTable.Layout

/-! The iterator is where the tables say, however it got there. Its place among the entries, the
runs of durations and those of offsets is kept by every call. -/
namespace Meet.SampleTable

open RunLength

/-- What the source delivers is what the file holds. It may fail to deliver it. -/
def DataSource.Delivers (source file : DataSource) : Prop :=
  ∀ offset size bytes, source.read offset size = some bytes → file.read offset size = some bytes

theorem DataSource.Delivers.refl (file : DataSource) : file.Delivers file :=
  fun _ _ _ hRead => hRead

theorem DataSource.number_delivers {source file : DataSource} (hSource : source.Delivers file)
    {offset : Int} {width n : Nat} (hNumber : source.number offset width = .ok n) :
    file.number offset width = .ok n := by
  unfold DataSource.number at hNumber ⊢
  cases hRead : source.read offset width with
  | none =>
      rw [hRead] at hNumber
      cases hNumber
  | some bytes =>
      rw [hRead] at hNumber
      rw [hSource _ _ _ hRead]
      exact hNumber

theorem DataSource.map_delivers {α : Type} {source file : DataSource}
    (hSource : source.Delivers file) {offset : Int} {width : Nat} {f : Nat → α} {a : α}
    (hNumber : some ((source.number offset width).map f) = some (.ok a)) :
    some ((file.number offset width).map f) = some (.ok a) := by
  cases hRead : source.number offset width with
  | error err =>
      rw [hRead] at hNumber
      cases hNumber
  | ok n =>
      rw [hRead] at hNumber
      rw [DataSource.number_delivers hSource hRead]
      exact hNumber

/-- A read that fails is out of range or cannot be done. -/
def Failed (status : Status) : Prop :=
  status = .ERROR_OUT_OF_RANGE ∨ status = Status.ERROR_IO

namespace Params

variable {p : Params} {source file : DataSource}

theorem getChunkOffset_delivers (hSource : source.Delivers file) {chunk : Nat} {offset : Int}
    (hGet : p.getChunkOffset source chunk = some (.ok offset)) :
    p.getChunkOffset file chunk = some (.ok offset) := by
  unfold getChunkOffset at hGet ⊢
  split_ifs at hGet ⊢
  · cases hGet
  · exact DataSource.map_delivers hSource hGet
  · exact DataSource.map_delivers hSource hGet

theorem getSampleSizeDirect_delivers (hSource : source.Delivers file) {i size : Nat}
    (hGet : p.getSampleSizeDirect source i = some (.ok size)) :
    p.getSampleSizeDirect file i = some (.ok size) := by
  have hNumber {offset : Int} {width : Nat}
      (h : some (source.number offset width) = some (.ok size)) :
      some (file.number offset width) = some (.ok size) :=
    congrArg some (DataSource.number_delivers hSource (Option.some.inj h))
  unfold getSampleSizeDirect at hGet ⊢
  split_ifs at hGet ⊢
  · cases hGet
  · exact hGet
  · exact hNumber hGet
  · exact hNumber hGet
  · exact hNumber hGet
  · exact DataSource.map_delivers hSource hGet
  · exact DataSource.map_delivers hSource hGet

theorem DataSource.number_failed {offset : Int} {width : Nat} {err : Status}
    (hNumber : source.number offset width = .error err) : err = Status.ERROR_IO := by
  unfold DataSource.number at hNumber
  cases hRead : source.read offset width with
  | none =>
      rw [hRead] at hNumber
      cases hNumber
      rfl
  | some bytes =>
      rw [hRead] at hNumber
      cases hNumber

theorem DataSource.map_failed {α : Type} {offset : Int} {width : Nat} {f : Nat → α} {err : Status}
    (hNumber : some ((source.number offset width).map f) = some (.error err)) :
    err = Status.ERROR_IO := by
  cases hRead : source.number offset width with
  | error err =>
      rw [hRead] at hNumber
      cases hNumber
      exact DataSource.number_failed hRead
  | ok n =>
      rw [hRead] at hNumber
      cases hNumber

theorem getChunkOffset_failed {chunk : Nat} {err : Status}
    (hGet : p.getChunkOffset source chunk = some (.error err)) : Failed err := by
  unfold getChunkOffset at hGet
  split_ifs at hGet
  · cases hGet
    exact Or.inl rfl
  · exact Or.inr (DataSource.map_failed hGet)
  · exact Or.inr (DataSource.map_failed hGet)

theorem getSampleSizeDirect_failed {i : Nat} {err : Status}
    (hGet : p.getSampleSizeDirect source i = some (.error err)) : Failed err := by
  unfold getSampleSizeDirect at hGet
  split_ifs at hGet
  · cases hGet
    exact Or.inl rfl
  · cases hGet
  · exact Or.inr (DataSource.number_failed (Option.some.inj hGet))
  · exact Or.inr (DataSource.number_failed (Option.some.inj hGet))
  · exact Or.inr (DataSource.number_failed (Option.some.inj hGet))
  · exact Or.inr (DataSource.map_failed hGet)
  · exact Or.inr (DataSource.map_failed hGet)

theorem lt_of_getSampleSizeDirect {i size : Nat}
    (hGet : p.getSampleSizeDirect file i = some (.ok size)) : i < p.mNumSampleSizes := by
  by_contra hNot
  rw [getSampleSizeDirect, if_pos (Nat.le_of_not_lt hNot)] at hGet
  cases hGet

end Params

namespace SampleIterator

variable {p : Params} {source file : DataSource} {it : SampleIterator} {i : Nat}

/-! ### Among the entries -/

/-- The iterator is before the first entry, or at one of them. -/
inductive RangeAt (p : Params) (it : SampleIterator) : Prop where
  | before (hIndex : it.mSampleToChunkIndex = 0) (hFirst : it.mFirstChunkSampleIndex = 0)
      (hStop : it.mStopChunkSampleIndex = 0)
  | entry (index : Nat) (entry : SampleToChunkEntry)
      (hEntry : p.mSampleToChunkEntries[index]? = some entry)
      (hIndex : it.mSampleToChunkIndex = index + 1)
      (hChunk : it.mFirstChunk = entry.startChunk)
      (hSamples : it.mSamplesPerChunk = entry.samplesPerChunk)
      (hFirst : it.mFirstChunkSampleIndex = p.firstSample entry.startChunk)
      (hNext : ∀ next, p.mSampleToChunkEntries[index + 1]? = some next →
        it.mStopChunkSampleIndex = p.firstSample next.startChunk)
      (hLast : p.mSampleToChunkEntries[index + 1]? = none →
        it.mStopChunkSampleIndex = 0xffffffff)

theorem rangeAt_reset (p : Params) (it : SampleIterator) : RangeAt p it.reset :=
  .before rfl rfl rfl

/-- The samples before the entry to be read next are those before the stop. -/
theorem RangeAt.stop (h : p.WellFormed) (hRange : RangeAt p it) {entry : SampleToChunkEntry}
    (hEntry : p.mSampleToChunkEntries[it.mSampleToChunkIndex]? = some entry) :
    it.mStopChunkSampleIndex = p.firstSample entry.startChunk := by
  cases hRange with
  | before hIndex hFirst hStop =>
      rw [hIndex] at hEntry
      rw [hStop, Params.firstSample_head h hEntry (Nat.le_refl _)]
  | entry index prior hPrior hIndex hChunk hSamples hFirst hNext hLast =>
      rw [hIndex] at hEntry
      exact hNext entry hEntry

/-- Nothing but the place among the entries differs. -/
def SameButRange (it it' : SampleIterator) : Prop := it'.reset = it.reset

theorem nextRange_spec (h : p.WellFormed) (hRange : RangeAt p it)
    (hMore : it.mSampleToChunkIndex < p.mNumSampleToChunkOffsets) :
    ∃ it', it.nextRange p = some it' ∧ RangeAt p it' ∧ SameButRange it it' ∧
      it'.mFirstChunkSampleIndex = it.mStopChunkSampleIndex ∧
      it'.mSampleToChunkIndex = it.mSampleToChunkIndex + 1 := by
  rw [← h.entries] at hMore
  have hEntry := List.getElem?_eq_getElem hMore
  have hStop := hRange.stop h hEntry
  cases hNext : p.mSampleToChunkEntries[it.mSampleToChunkIndex + 1]? with
  | none =>
      have hLast : ¬ it.mSampleToChunkIndex + 1 < p.mNumSampleToChunkOffsets :=
        h.entries ▸ Nat.not_lt_of_le (List.getElem?_eq_none_iff.mp hNext)
      refine ⟨it.enterRange p.mSampleToChunkEntries[it.mSampleToChunkIndex] 0xffffffff 0xffffffff,
        ?_, .entry _ _ hEntry rfl rfl rfl hStop ?_ fun _ => rfl, rfl, rfl, rfl⟩
      · rw [nextRange, hEntry]
        exact if_neg hLast
      · intro next hGet
        rw [hNext] at hGet
        cases hGet
  | some next =>
      obtain ⟨hTwo, hGetNext⟩ := List.getElem?_eq_some_iff.mp hNext
      have hMem : next ∈ p.mSampleToChunkEntries := List.mem_of_getElem? hNext
      have hLt := h.lt_next hEntry hNext
      have hBound := h.starts next hMem
      have hChunks := h.chunks next hMem
      have hAhead := Params.firstSample_next h hEntry hNext
      have hWrap : u32 (it.mStopChunkSampleIndex + u32 (sub32 next.startChunk
          p.mSampleToChunkEntries[it.mSampleToChunkIndex].startChunk *
            p.mSampleToChunkEntries[it.mSampleToChunkIndex].samplesPerChunk)) =
          p.firstSample next.startChunk := by
        rw [hStop, sub32_of_le (Nat.le_of_lt hLt) (by omega), u32_add, ← hAhead, u32_of_lt hBound]
      refine ⟨it.enterRange p.mSampleToChunkEntries[it.mSampleToChunkIndex] next.startChunk
        (p.firstSample next.startChunk), ?_, .entry _ _ hEntry rfl rfl rfl hStop ?_ ?_, rfl, rfl,
        rfl⟩
      · rw [nextRange, hEntry, hNext, ← hWrap]
        exact if_pos (h.entries ▸ hTwo)
      · intro other hGet
        rw [hNext] at hGet
        cases hGet
        rfl
      · intro hNone
        rw [hNext] at hNone
        cases hNone

/-- The search ends at the range of the sample. It fails only where there are no entries. -/
theorem scanRanges_spec (h : p.WellFormed) (hSample : i < p.mNumSampleSizes) {left : Nat}
    (hRange : RangeAt p it) (hLeft : left + it.mSampleToChunkIndex = p.mNumSampleToChunkOffsets)
    (hFrom : it.mFirstChunkSampleIndex ≤ i) :
    ∃ status it', scanRanges p i left it = some (status, it') ∧ RangeAt p it' ∧
      SameButRange it it' ∧ it'.mFirstChunkSampleIndex ≤ i ∧
      (status = .OK ∧ i < it'.mStopChunkSampleIndex ∨
        status = .ERROR_OUT_OF_RANGE ∧ p.mSampleToChunkEntries = []) := by
  induction left generalizing it with
  | zero =>
      refine ⟨_, it, rfl, hRange, rfl, hFrom, ?_⟩
      by_cases hStop : it.mStopChunkSampleIndex ≤ i
      · refine Or.inr ⟨if_pos hStop, ?_⟩
        cases hRange with
        | before hIndex hFirst hStop =>
            rw [hIndex, ← h.entries] at hLeft
            exact List.length_eq_zero_iff.mp hLeft.symm
        | entry index entry hEntry hIndex hChunk hSamples hFirst hNext hLast =>
            have hSamples := h.samples
            rw [hIndex, ← h.entries, Nat.zero_add] at hLeft
            rw [hLast (List.getElem?_eq_none (Nat.le_of_eq hLeft.symm))] at hStop
            omega
      · exact Or.inl ⟨if_neg hStop, Nat.lt_of_not_le hStop⟩
  | succ left ih =>
      by_cases hStop : it.mStopChunkSampleIndex ≤ i
      · obtain ⟨it', hBody, hRange', hSame, hFirst, hIndex⟩ :=
          nextRange_spec h hRange (by omega)
        obtain ⟨status, last, hScan, hRangeLast, hSameLast, hRest⟩ :=
          ih hRange' (by omega) (hFirst ▸ hStop)
        refine ⟨status, last, ?_, hRangeLast, hSameLast.trans hSame, hRest⟩
        rw [scanRanges, if_pos hStop, hBody]
        exact hScan
      · refine ⟨.OK, it, ?_, hRange, rfl, hFrom, Or.inl ⟨rfl, Nat.lt_of_not_le hStop⟩⟩
        rw [scanRanges, if_neg hStop]

/-- The chunk of a sample within the range of an entry. -/
theorem RangeAt.chunk (h : p.WellFormed) (hRange : RangeAt p it) (hSample : i < p.mNumSampleSizes)
    (hFrom : it.mFirstChunkSampleIndex ≤ i) (hUntil : i < it.mStopChunkSampleIndex)
    (hSome : it.mSamplesPerChunk ≠ 0) :
    ∃ chunk, u32 ((i - it.mFirstChunkSampleIndex) / it.mSamplesPerChunk + it.mFirstChunk) = chunk ∧
      u32 (it.mFirstChunkSampleIndex + u32 (it.mSamplesPerChunk * sub32 chunk it.mFirstChunk)) =
        p.firstSample chunk ∧
      p.samplesIn chunk = it.mSamplesPerChunk ∧ p.firstSample chunk ≤ i ∧
      i - p.firstSample chunk = (i - it.mFirstChunkSampleIndex) % it.mSamplesPerChunk := by
  cases hRange with
  | before hIndex hFirst hStop => omega
  | entry index entry hEntry hIndex hChunk hSamples hFirst hNext hLast =>
      have hChunks := h.chunks entry (List.mem_of_getElem? hEntry)
      have hLt := h.samples
      rw [hFirst] at hFrom
      rw [hSamples] at hSome
      rw [hFirst, hChunk, hSamples]
      have hDiv := Nat.div_add_mod (i - p.firstSample entry.startChunk) entry.samplesPerChunk
      have hMod := Nat.mod_lt (i - p.firstSample entry.startChunk) (Nat.pos_of_ne_zero hSome)
      have hQuotient := Nat.div_le_self (i - p.firstSample entry.startChunk) entry.samplesPerChunk
      generalize (i - p.firstSample entry.startChunk) / entry.samplesPerChunk = ahead at *
      have hInside (next) (hGet : p.mSampleToChunkEntries[index + 1]? = some next) :
          entry.startChunk + ahead < next.startChunk := by
        have hAll := Params.firstSample_next h hEntry hGet
        have hBefore := h.lt_next hEntry hGet
        rw [hNext next hGet, hAll] at hUntil
        have hAhead : ahead * entry.samplesPerChunk <
            (next.startChunk - entry.startChunk) * entry.samplesPerChunk := by
          rw [Nat.mul_comm ahead]
          omega
        have := Nat.lt_of_mul_lt_mul_right hAhead
        omega
      have hStart := Params.firstSample_eq h hEntry ahead fun next hGet =>
        Nat.le_of_lt (hInside next hGet)
      have hIn := Params.samplesIn_eq h hEntry (Nat.le_add_right _ ahead) hInside
      have hWide : entry.samplesPerChunk * ahead ≤ i := by omega
      refine ⟨entry.startChunk + ahead, ?_, ?_, hIn, ?_, ?_⟩
      · rw [u32_of_lt (by omega), Nat.add_comm]
      · rw [sub32_of_le (Nat.le_add_right _ _) (by omega), Nat.add_sub_cancel_left, u32_add,
          Nat.mul_comm, ← hStart, u32_of_lt]
        rw [hStart, Nat.mul_comm]
        omega
      · rw [hStart, Nat.mul_comm]
        omega
      · rw [hStart, Nat.mul_comm ahead]
        omega

/-! ### Within a chunk -/

theorem pushSizes_ok (hLt : p.mNumSampleSizes < 2 ^ 32) (hSource : source.Delivers file)
    {left first : Nat} {sizes sizes' : List Nat}
    (hPush : pushSizes p source left first sizes = some (.OK, sizes')) :
    ∃ more, sizes' = sizes ++ more ∧ more.length = left ∧ ∀ j size, more[j]? = some size →
      p.getSampleSizeDirect file (first + j) = some (.ok size) := by
  induction left generalizing first sizes with
  | zero =>
      cases hPush
      exact ⟨[], (List.append_nil _).symm, rfl, fun j size hGet => by cases hGet⟩
  | succ left ih =>
      rw [pushSizes] at hPush
      cases hSize : p.getSampleSizeDirect source first with
      | none =>
          rw [hSize] at hPush
          cases hPush
      | some result =>
          rw [hSize] at hPush
          cases result with
          | error err =>
              cases hPush
              cases Params.getSampleSizeDirect_failed hSize with
              | inl hEq => cases hEq
              | inr hEq => cases hEq
          | ok sampleSize =>
              have hFile := Params.getSampleSizeDirect_delivers hSource hSize
              have hInside := Params.lt_of_getSampleSizeDirect hFile
              obtain ⟨more, rfl, hLength, hMore⟩ := ih hPush
              rw [u32_of_lt (by omega)] at hMore
              refine ⟨sampleSize :: more, by simp, by simp [hLength], ?_⟩
              intro j size hGet
              cases j with
              | zero =>
                  cases hGet
                  exact hFile
              | succ j =>
                  rw [← hMore j size hGet, Nat.add_assoc, Nat.add_comm 1 j]

theorem pushSizes_failed {left first : Nat} {sizes sizes' : List Nat} {err : Status}
    (hPush : pushSizes p source left first sizes = some (err, sizes')) (hErr : err ≠ .OK) :
    Failed err := by
  induction left generalizing first sizes with
  | zero =>
      cases hPush
      exact absurd rfl hErr
  | succ left ih =>
      rw [pushSizes] at hPush
      cases hSize : p.getSampleSizeDirect source first with
      | none =>
          rw [hSize] at hPush
          cases hPush
      | some result =>
          rw [hSize] at hPush
          cases result with
          | error err =>
              cases hPush
              exact Params.getSampleSizeDirect_failed hSize
          | ok sampleSize => exact ih hPush

/-- The sizes can all be read from the file. -/
theorem pushSizes_complete (hLt : p.mNumSampleSizes < 2 ^ 32) {left first : Nat}
    {sizes more : List Nat} (hLength : more.length = left)
    (hMore : ∀ j size, more[j]? = some size →
      p.getSampleSizeDirect file (first + j) = some (.ok size)) :
    pushSizes p file left first sizes = some (.OK, sizes ++ more) := by
  induction left generalizing first sizes more with
  | zero =>
      rw [List.length_eq_zero_iff.mp hLength, List.append_nil]
      rfl
  | succ left ih =>
      cases more with
      | nil => cases hLength
      | cons size more =>
          have hSize := hMore 0 size rfl
          have hInside := Params.lt_of_getSampleSizeDirect hSize
          rw [Nat.add_zero] at hSize hInside
          have hRest (j size') (hGet : more[j]? = some size') :
              p.getSampleSizeDirect file (u32 (first + 1) + j) = some (.ok size') := by
            rw [u32_of_lt (by omega), ← hMore (j + 1) size' hGet, Nat.add_assoc, Nat.add_comm 1 j]
          have hPush : pushSizes p file left (u32 (first + 1)) (sizes ++ [size]) =
              some (.OK, sizes ++ [size] ++ more) := ih (Nat.succ.inj hLength) hRest
          rw [pushSizes, hSize]
          simpa using hPush

/-- The fields for the place among the entries. -/
def rangePart (it : SampleIterator) : Nat × Nat × Nat × Nat × Nat :=
  (it.mSampleToChunkIndex, it.mFirstChunk, it.mFirstChunkSampleIndex, it.mStopChunkSampleIndex,
    it.mSamplesPerChunk)

/-- The fields for the place among the runs of durations. -/
def runPart (it : SampleIterator) : Nat × Nat × Nat × Nat × Nat :=
  (it.mTimeToSampleIndex, it.mTTSSampleIndex, it.mTTSSampleTime, it.mTTSCount, it.mTTSDuration)

/-- Those, and the fields that are set last. -/
def timePart (it : SampleIterator) : (Nat × Nat × Nat × Nat × Nat) × Bool × Nat × Nat :=
  (it.runPart, it.mInitialized, it.mCurrentSampleIndex, it.mCurrentSampleTime)

theorem RangeAt.congr {it' : SampleIterator} (hRange : RangeAt p it)
    (hSame : it'.rangePart = it.rangePart) : RangeAt p it' := by
  simp only [rangePart, Prod.mk.injEq] at hSame
  obtain ⟨hIndex', hChunk', hFirst', hStop', hSamples'⟩ := hSame
  cases hRange with
  | before hIndex hFirst hStop =>
      exact .before (hIndex'.trans hIndex) (hFirst'.trans hFirst) (hStop'.trans hStop)
  | entry index entry hEntry hIndex hChunk hSamples hFirst hNext hLast =>
      exact .entry index entry hEntry (hIndex'.trans hIndex) (hChunk'.trans hChunk)
        (hSamples'.trans hSamples) (hFirst'.trans hFirst)
        (fun next hGet => hStop'.trans (hNext next hGet)) fun hNone => hStop'.trans (hLast hNone)

theorem SameButRange.timePart {it' : SampleIterator} (hSame : SameButRange it it') :
    it'.timePart = it.timePart := by
  have hPart : it'.reset.timePart = it.reset.timePart := congrArg SampleIterator.timePart hSame
  exact hPart

theorem SameButRange.mInitialized {it' : SampleIterator} (hSame : SameButRange it it') :
    it'.mInitialized = it.mInitialized := by
  have hInit : it'.reset.mInitialized = it.reset.mInitialized :=
    congrArg SampleIterator.mInitialized hSame
  exact hInit

/-- The current chunk is one of the file. -/
def HoldsChunk (p : Params) (file : DataSource) (it : SampleIterator) : Prop :=
  p.ChunkRead file it.mCurrentChunkIndex it.mCurrentChunkOffset it.mCurrentChunkSampleSizes

theorem SameButRange.holdsChunk {it' : SampleIterator} (hSame : SameButRange it it')
    (hHolds : it.HoldsChunk p file) : it'.HoldsChunk p file := by
  have hReset : it'.reset.HoldsChunk p file := hSame ▸ hHolds
  exact hReset

/-- What a chunk that is loaded holds. -/
theorem loadChunk_spec (hLt : p.mNumSampleSizes < 2 ^ 32) (hSource : source.Delivers file)
    {chunk : Nat} {status : Status} {it' : SampleIterator}
    (hFirst : u32 (it.mFirstChunkSampleIndex +
      u32 (it.mSamplesPerChunk * sub32 chunk it.mFirstChunk)) = p.firstSample chunk)
    (hIn : p.samplesIn chunk = it.mSamplesPerChunk)
    (hLoad : it.loadChunk p source chunk = some (status, it')) :
    it'.rangePart = it.rangePart ∧ it'.timePart = it.timePart ∧
      (status = .OK → it'.mCurrentChunkIndex = chunk ∧ it'.HoldsChunk p file) ∧
      (status ≠ .OK → Failed status) := by
  rw [loadChunk, hFirst] at hLoad
  cases hOffset : p.getChunkOffset source chunk with
  | none =>
      rw [hOffset] at hLoad
      cases hLoad
  | some result =>
      rw [hOffset] at hLoad
      cases result with
      | error err =>
          cases hLoad
          have hFailed := Params.getChunkOffset_failed hOffset
          refine ⟨rfl, rfl, fun hOK => ?_, fun _ => hFailed⟩
          rw [hOK] at hFailed
          cases hFailed with
          | inl hEq => cases hEq
          | inr hEq => cases hEq
      | ok offset =>
          cases hPush : pushSizes p source it.mSamplesPerChunk (p.firstSample chunk) [] with
          | none => simp [hPush] at hLoad
          | some pushed =>
              obtain ⟨err, sizes⟩ := pushed
              simp only [hPush] at hLoad
              cases hLoad
              refine ⟨rfl, rfl, fun hOK => ⟨rfl, ?_⟩, fun hErr => pushSizes_failed hPush hErr⟩
              rw [hOK] at hPush
              obtain ⟨more, hSizes, hLength, hMore⟩ := pushSizes_ok hLt hSource hPush
              rw [List.nil_append] at hSizes
              exact ⟨Params.getChunkOffset_delivers hSource hOffset,
                hSizes ▸ hLength.trans hIn.symm, hSizes ▸ hMore⟩

/-- In the chunk of a sample, the iterator finds where the sample is. -/
theorem enterSample_spec {chunk : Nat} (hChunk : it.mCurrentChunkIndex = chunk)
    (hHolds : it.HoldsChunk p file) (hFrom : p.firstSample chunk ≤ i)
    (hRelative : i - p.firstSample chunk = (i - it.mFirstChunkSampleIndex) % it.mSamplesPerChunk)
    {it' : SampleIterator} (hEnter : it.enterSample i = some it') :
    it'.rangePart = it.rangePart ∧ it'.timePart = it.timePart ∧ it'.HoldsChunk p file ∧
      p.Placed file i it'.mCurrentSampleOffset it'.mCurrentSampleSize := by
  rw [enterSample, ← hRelative] at hEnter
  cases hSize : it.mCurrentChunkSampleSizes[i - p.firstSample chunk]? with
  | none => simp [hSize] at hEnter
  | some sampleSize =>
      simp only [hSize] at hEnter
      cases hEnter
      exact ⟨rfl, rfl, hHolds, chunk, _, _, hChunk ▸ hHolds, hFrom, rfl, hSize⟩

theorem seekCurrent_spec (hLt : p.mNumSampleSizes < 2 ^ 32) (hSource : source.Delivers file)
    {chunk : Nat} {status : Status} {it' : SampleIterator}
    (hHolds : it.mInitialized = true → it.HoldsChunk p file)
    (hFirst : u32 (it.mFirstChunkSampleIndex +
      u32 (it.mSamplesPerChunk * sub32 chunk it.mFirstChunk)) = p.firstSample chunk)
    (hIn : p.samplesIn chunk = it.mSamplesPerChunk)
    (hSeek : it.seekCurrent p source chunk = some (status, it')) :
    it'.rangePart = it.rangePart ∧ it'.timePart = it.timePart ∧
      (status = .OK → it'.mCurrentChunkIndex = chunk ∧ it'.HoldsChunk p file) ∧
      (status ≠ .OK → Failed status) := by
  rw [seekCurrent] at hSeek
  split_ifs at hSeek with hLoad
  · exact loadChunk_spec hLt hSource hFirst hIn hSeek
  · cases hSeek
    rw [not_or, Bool.not_eq_false, not_not] at hLoad
    exact ⟨rfl, rfl, fun _ => ⟨hLoad.2.symm, hHolds hLoad.1⟩, fun hErr => absurd rfl hErr⟩

theorem seekInRange_spec (h : p.WellFormed) (hSample : i < p.mNumSampleSizes)
    (hSource : source.Delivers file) (hRange : RangeAt p it)
    (hFrom : it.mFirstChunkSampleIndex ≤ i) (hUntil : i < it.mStopChunkSampleIndex)
    (hHolds : it.mInitialized = true → it.HoldsChunk p file) {status : Status}
    {it' : SampleIterator} (hSeek : it.seekInRange p source i = some (status, it')) :
    it'.rangePart = it.rangePart ∧ it'.timePart = it.timePart ∧
      (status = .OK → it'.HoldsChunk p file ∧
        p.Placed file i it'.mCurrentSampleOffset it'.mCurrentSampleSize) ∧
      (status ≠ .OK → Failed status) := by
  unfold seekInRange at hSeek
  by_cases hNone : it.mSamplesPerChunk = 0
  · rw [if_pos hNone] at hSeek
    cases hSeek
  · rw [if_neg hNone] at hSeek
    obtain ⟨chunk, hChunk, hFirst, hIn, hBegin, hRelative⟩ :=
      hRange.chunk h hSample hFrom hUntil hNone
    rw [hChunk] at hSeek
    cases hCurrent : it.seekCurrent p source chunk with
    | none =>
        rw [hCurrent] at hSeek
        cases hSeek
    | some result =>
        obtain ⟨err, loaded⟩ := result
        obtain ⟨hRangePart, hTimePart, hOK, hFailed⟩ :=
          seekCurrent_spec h.samples hSource hHolds hFirst hIn hCurrent
        rw [hCurrent] at hSeek
        by_cases hErr : err = .OK
        · rw [hErr] at hSeek
          obtain ⟨hIndex, hLoaded⟩ := hOK hErr
          obtain ⟨entered, hEnter, hEq⟩ := Option.map_eq_some_iff.mp hSeek
          cases hEq
          have hSamples := hRangePart
          simp only [rangePart, Prod.mk.injEq] at hSamples
          obtain ⟨hRange', hTime', hHolds', hPlaced⟩ := enterSample_spec hIndex hLoaded hBegin
            (by rw [hSamples.2.2.1, hSamples.2.2.2.2, hRelative]) hEnter
          exact ⟨hRange'.trans hRangePart, hTime'.trans hTimePart, fun _ => ⟨hHolds', hPlaced⟩,
            fun hNot => absurd rfl hNot⟩
        · have hSame : (err, loaded) = (status, it') := by
            cases err with
            | OK => exact absurd rfl hErr
            | _ => exact Option.some.inj hSeek
          cases hSame
          exact ⟨hRangePart, hTimePart, fun hOK => absurd hOK hErr, hFailed⟩

theorem seekRange_spec (h : p.WellFormed) (hSample : i < p.mNumSampleSizes)
    (hRange : RangeAt p it) (hIndex : it.mSampleToChunkIndex ≤ p.mNumSampleToChunkOffsets) :
    ∃ status it', it.seekRange p i = some (status, it') ∧ RangeAt p it' ∧ SameButRange it it' ∧
      it'.mFirstChunkSampleIndex ≤ i ∧
      (status = .OK ∧ i < it'.mStopChunkSampleIndex ∨
        status = .ERROR_OUT_OF_RANGE ∧ p.mSampleToChunkEntries = []) := by
  have hScan {from_ : SampleIterator} (hAt : RangeAt p from_) (hSame : SameButRange it from_)
      (hLe : from_.mSampleToChunkIndex ≤ p.mNumSampleToChunkOffsets)
      (hFrom : from_.mFirstChunkSampleIndex ≤ i) :
      ∃ status it', (if from_.mStopChunkSampleIndex ≤ i then from_.findChunkRange p i
        else some (.OK, from_)) = some (status, it') ∧ RangeAt p it' ∧ SameButRange it it' ∧
        it'.mFirstChunkSampleIndex ≤ i ∧
        (status = .OK ∧ i < it'.mStopChunkSampleIndex ∨
          status = .ERROR_OUT_OF_RANGE ∧ p.mSampleToChunkEntries = []) := by
    by_cases hStop : from_.mStopChunkSampleIndex ≤ i
    · obtain ⟨status, it', hEq, hAt', hSame', hRest⟩ :=
        scanRanges_spec h hSample hAt (Nat.sub_add_cancel hLe) hFrom
      refine ⟨status, it', ?_, hAt', hSame'.trans hSame, hRest⟩
      rw [if_pos hStop, findChunkRange, if_neg (Nat.not_lt_of_le hFrom)]
      exact hEq
    · exact ⟨.OK, from_, if_neg hStop, hAt, hSame, hFrom, Or.inl ⟨rfl, Nat.lt_of_not_le hStop⟩⟩
  unfold seekRange
  by_cases hReset : it.mInitialized = false ∨ i < it.mFirstChunkSampleIndex
  · rw [if_pos hReset]
    exact hScan (rangeAt_reset p it) rfl (Nat.zero_le _) (Nat.zero_le _)
  · rw [if_neg hReset]
    rw [not_or, Nat.not_lt] at hReset
    exact hScan hRange rfl hIndex hReset.2

theorem RangeAt.index_le (h : p.WellFormed) (hRange : RangeAt p it) :
    it.mSampleToChunkIndex ≤ p.mNumSampleToChunkOffsets := by
  cases hRange with
  | before hIndex hFirst hStop => exact hIndex ▸ Nat.zero_le _
  | entry index entry hEntry hIndex hChunk hSamples hFirst hNext hLast =>
      rw [hIndex, ← h.entries]
      exact (List.getElem?_eq_some_iff.mp hEntry).1

/-- Up to the size of the sample, a seek keeps the place in the tables. If it succeeds, it has
found the sample in the file. -/
theorem seekChunk_spec (h : p.WellFormed) (hSample : i < p.mNumSampleSizes)
    (hSource : source.Delivers file) (hRange : RangeAt p it)
    (hHolds : it.mInitialized = true → it.HoldsChunk p file) {status : Status}
    {it' : SampleIterator} (hSeek : it.seekChunk p source i = some (status, it')) :
    RangeAt p it' ∧ it'.timePart = it.timePart ∧
      (status = .OK → it'.HoldsChunk p file ∧
        p.Placed file i it'.mCurrentSampleOffset it'.mCurrentSampleSize) ∧
      (status ≠ .OK → Failed status) := by
  obtain ⟨err, ranged, hFind, hAt, hSame, hFrom, hResult⟩ :=
    seekRange_spec h hSample hRange (hRange.index_le h)
  rw [seekChunk, hFind] at hSeek
  rcases hResult with ⟨rfl, hUntil⟩ | ⟨rfl, -⟩
  · obtain ⟨hRangePart, hTimePart, hRest⟩ := seekInRange_spec h hSample hSource hAt hFrom hUntil
      (fun hInit => hSame.holdsChunk (hHolds (hSame.mInitialized ▸ hInit))) hSeek
    exact ⟨hAt.congr hRangePart, hTimePart.trans hSame.timePart, hRest⟩
  · cases hSeek
    exact ⟨hAt, hSame.timePart, fun hOK => (by cases hOK), fun _ => Or.inl rfl⟩

/-! ### Completeness -/

theorem RangeAt.samples_pos (h : p.WellFormed) (hRange : RangeAt p it)
    (hFrom : it.mFirstChunkSampleIndex ≤ i) (hUntil : i < it.mStopChunkSampleIndex) {chunk : Nat}
    (hBegin : p.firstSample chunk ≤ i) (hEnd : i < p.firstSample chunk + p.samplesIn chunk) :
    it.mSamplesPerChunk ≠ 0 := by
  intro hZero
  cases hRange with
  | before hIndex hFirst hStop => omega
  | entry index entry hEntry hIndex hChunk hSamples hFirst hNext hLast =>
      rw [hSamples] at hZero
      have hInside : entry.startChunk ≤ chunk := by
        by_contra hBefore
        have hMono : p.firstSample (chunk + 1) ≤ p.firstSample entry.startChunk :=
          Params.firstSample_mono (Nat.lt_of_not_le hBefore)
        rw [Params.firstSample] at hMono
        omega
      cases hGet : p.mSampleToChunkEntries[index + 1]? with
      | some next =>
          have hAll := Params.firstSample_next h hEntry hGet
          rw [hZero, Nat.mul_zero] at hAll
          rw [hNext next hGet] at hUntil
          omega
      | none =>
          have hIn := Params.samplesIn_eq h hEntry hInside (fun next hNext' => by
            rw [hGet] at hNext'
            cases hNext')
          omega

theorem enterSample_complete
    (hInside : (i - it.mFirstChunkSampleIndex) % it.mSamplesPerChunk <
      it.mCurrentChunkSampleSizes.length) : ∃ it', it.enterSample i = some it' := by
  rw [enterSample, List.getElem?_eq_getElem hInside]
  exact ⟨_, rfl⟩

/-- The chunk of the file is loaded, or it is the current one. -/
theorem seekCurrent_complete (hLt : p.mNumSampleSizes < 2 ^ 32) {chunk : Nat} {base : Int}
    {sizes : List Nat} (hRead : p.ChunkRead file chunk base sizes)
    (hHolds : it.mInitialized = true → it.HoldsChunk p file)
    (hFirst : u32 (it.mFirstChunkSampleIndex +
      u32 (it.mSamplesPerChunk * sub32 chunk it.mFirstChunk)) = p.firstSample chunk)
    (hIn : p.samplesIn chunk = it.mSamplesPerChunk) :
    ∃ it', it.seekCurrent p file chunk = some (.OK, it') ∧ it'.rangePart = it.rangePart ∧
      it'.mCurrentChunkSampleSizes.length = it.mSamplesPerChunk := by
  unfold seekCurrent
  by_cases hLoad : it.mInitialized = false ∨ chunk ≠ it.mCurrentChunkIndex
  · have hPush : pushSizes p file it.mSamplesPerChunk (p.firstSample chunk) [] =
        some (.OK, [] ++ sizes) :=
      pushSizes_complete hLt (hRead.length.trans hIn) hRead.sizes
    rw [if_pos hLoad, loadChunk, hRead.base, hFirst]
    simp only [hPush]
    exact ⟨_, rfl, rfl, hRead.length.trans hIn⟩
  · rw [if_neg hLoad]
    rw [not_or, Bool.not_eq_false, not_not] at hLoad
    refine ⟨it, rfl, rfl, ?_⟩
    rw [(hHolds hLoad.1).length, ← hLoad.2, hIn]

/-- A sample that is in the file is found. -/
theorem seekChunk_complete (h : p.WellFormed) {offset : Int} {size : Nat}
    (hPlaced : p.Placed file i offset size) (hRange : RangeAt p it)
    (hHolds : it.mInitialized = true → it.HoldsChunk p file) :
    ∃ it', it.seekChunk p file i = some (.OK, it') := by
  obtain ⟨chunk, base, sizes, hRead, hBegin, -, hSize⟩ := hPlaced
  have hInside := (List.getElem?_eq_some_iff.mp hSize).1
  have hSample := Params.lt_of_getSampleSizeDirect (hRead.sizes _ size hSize)
  rw [Nat.add_sub_cancel' hBegin] at hSample
  rw [hRead.length] at hInside
  obtain ⟨err, ranged, hFind, hAt, hSame, hFrom, hResult⟩ :=
    seekRange_spec h hSample hRange (hRange.index_le h)
  rcases hResult with ⟨rfl, hUntil⟩ | ⟨-, hEmpty⟩
  · have hSome := hAt.samples_pos h hFrom hUntil hBegin (by omega)
    obtain ⟨found, hChunk, hFirst, hIn, hBegin', hRelative⟩ :=
      hAt.chunk h hSample hFrom hUntil hSome
    have hMod := Nat.mod_lt (i - ranged.mFirstChunkSampleIndex) (Nat.pos_of_ne_zero hSome)
    obtain rfl : found = chunk := Params.chunk_unique (i := i) hBegin'
      (by rw [Params.firstSample]; omega) hBegin (by rw [Params.firstSample]; omega)
    obtain ⟨loaded, hCurrent, hSamePart, hLength⟩ := seekCurrent_complete h.samples hRead
      (fun hInit => hSame.holdsChunk (hHolds (hSame.mInitialized ▸ hInit))) hFirst hIn
    simp only [rangePart, Prod.mk.injEq] at hSamePart
    have hInLoaded : (i - loaded.mFirstChunkSampleIndex) % loaded.mSamplesPerChunk <
        loaded.mCurrentChunkSampleSizes.length := by
      rw [hSamePart.2.2.1, hSamePart.2.2.2.2, hLength]
      exact hMod
    obtain ⟨entered, hEnter⟩ := enterSample_complete hInLoaded
    refine ⟨entered, ?_⟩
    rw [seekChunk, hFind]
    simp only [seekInRange, if_neg hSome, hChunk, hCurrent, hEnter]
    rfl
  · have hNone : p.samplesIn chunk = 0 := by
      rw [Params.samplesIn, hEmpty]
      rfl
    omega

end SampleIterator

end Meet.SampleTable
