import Meet.PPMediaBufferGroup.Basic

/-! The track table of `NuPPMediaExtractor.cpp` and the accessors over it. An
entry is generic in its source and its samples: here a source is a finite list
of samples, and the model with threads reads from the rings instead. -/
namespace Meet

inductive Status where
  | ok
  | errorEndOfStream
  | noMemory
  | invalid
  | range
  | other (code : Int)
deriving DecidableEq, Repr

/-- An entry of `mSelectedTracks`. -/
structure TrackInfo (Source Sample : Type) where
  mSource : Source
  mTrackIndex : Nat
  mFinalResult : Status
  mSample : Option Sample
  mSampleTimeUs : Int
deriving DecidableEq, Repr

namespace TrackInfo

variable {Source Sample : Type}

/-- The entry that `selectTrack` pushes. -/
def selected (source : Source) (index : Nat) : TrackInfo Source Sample :=
  ⟨source, index, .ok, none, -1⟩

/-- Release the held sample. -/
def drop (info : TrackInfo Source Sample) : TrackInfo Source Sample :=
  { info with mSample := none, mSampleTimeUs := -1 }

/-- A successful `read` of the source. -/
def hold (info : TrackInfo Source Sample) (sample : Sample) (kKeyTime : Int) :
    TrackInfo Source Sample :=
  { info with mSample := some sample, mSampleTimeUs := kKeyTime }

/-- A failed `read` of the source. -/
def fail (info : TrackInfo Source Sample) (err : Status) : TrackInfo Source Sample :=
  { info with mFinalResult := err, mSampleTimeUs := -1 }

/-- What a seek does to an entry. -/
def purge (info : TrackInfo Source Sample) : TrackInfo Source Sample :=
  if info.mSample.isSome then { info.drop with mFinalResult := .ok }
  else { info with mFinalResult := .ok }

/-- The comparison at the end of the loop body of `fetchTrackSamples`, on
`minIndex` and the time of `minInfo`. -/
def pickMin (min : Option (Nat × Int)) (i : Nat) (info : TrackInfo Source Sample) :
    Option (Nat × Int) :=
  match min with
  | none => some (i, info.mSampleTimeUs)
  | some (minIndex, minTime) =>
      if info.mSampleTimeUs < minTime then some (i, info.mSampleTimeUs)
      else some (minIndex, minTime)

end TrackInfo

/-- A source that delivers some samples and then fails. -/
structure TrackSource where
  samples : List Payload
  ending : Status
  ending_ne : ending ≠ .ok

def TrackSource.read (source : TrackSource) : Except Status (Payload × TrackSource) :=
  match source.samples with
  | [] => .error source.ending
  | sample :: rest => .ok (sample, { source with samples := rest })

/-- The extractor over the tracks of an opened stream; `mImpl` is null before
`setDataSource`. -/
structure NuPPMediaExtractor where
  mImpl : Option (List TrackSource)
  mSelectedTracks : List (TrackInfo TrackSource Payload)

namespace NuPPMediaExtractor

def selectTrack (n : NuPPMediaExtractor) (index : Nat) : Status × NuPPMediaExtractor :=
  match n.mImpl with
  | none => (.invalid, n)
  | some tracks =>
      match tracks[index]? with
      | none => (.range, n)
      | some source =>
          if n.mSelectedTracks.any fun info => info.mTrackIndex == index then (.ok, n)
          else (.ok, { n with
            mSelectedTracks := n.mSelectedTracks ++ [TrackInfo.selected source index] })

/-- The body of the loop of `fetchTrackSamples`, without a seek, up to the
comparison. -/
def readTrack (info : TrackInfo TrackSource Payload) : TrackInfo TrackSource Payload :=
  if info.mFinalResult ≠ .ok then info
  else match info.mSample with
    | some _ => info
    | none =>
        match info.mSource.read with
        | .ok (sample, source) => { info with mSource := source }.hold sample sample.frameTime
        | .error err => info.fail err

/-- The loop of `fetchTrackSamples` from entry `i` on. -/
def fetchFrom (i : Nat) (min : Option (Nat × Int)) :
    List (TrackInfo TrackSource Payload) →
      List (TrackInfo TrackSource Payload) × Option (Nat × Int)
  | [] => ([], min)
  | info :: rest =>
      let info := readTrack info
      let min := if info.mFinalResult = .ok then info.pickMin min i else min
      let (rest, min) := fetchFrom (i + 1) min rest
      (info :: rest, min)

def fetchTrackSamples (n : NuPPMediaExtractor) : Option Nat × NuPPMediaExtractor :=
  let (tracks, min) := fetchFrom 0 none n.mSelectedTracks
  (min.map Prod.fst, { n with mSelectedTracks := tracks })

/-- What a call gives its caller. For `advance` this is the sample it has
released. A null sample is never reached. -/
inductive Answer where
  | endOfStream
  | advanced (trackIndex : Nat) (sample : Payload)
  | trackIndex (index : Nat)
  | sampleTime (sampleTimeUs : Int)
  | sampleMeta (kKeyTime : Int) (kKeyIsSyncFrame : Bool)
  | sampleData (bytes : List UInt8)
  | noMemory
  | nullSample
deriving DecidableEq, Repr

/-- All accessors fetch first and then work on the entry of the least sample. -/
def withMinSample (n : NuPPMediaExtractor)
    (body : NuPPMediaExtractor → Nat → TrackInfo TrackSource Payload → Payload →
      Answer × NuPPMediaExtractor) : Answer × NuPPMediaExtractor :=
  match n.fetchTrackSamples with
  | (none, n) => (.endOfStream, n)
  | (some minIndex, n) =>
      match n.mSelectedTracks[minIndex]? with
      | none => (.nullSample, n)
      | some info =>
          match info.mSample with
          | none => (.nullSample, n)
          | some sample => body n minIndex info sample

def advance (n : NuPPMediaExtractor) : Answer × NuPPMediaExtractor :=
  n.withMinSample fun n minIndex info sample =>
    (.advanced info.mTrackIndex sample,
      { n with mSelectedTracks := n.mSelectedTracks.set minIndex info.drop })

def readSampleData (capacity : Nat) (n : NuPPMediaExtractor) : Answer × NuPPMediaExtractor :=
  n.withMinSample fun n _ _ sample =>
    if capacity < sample.data.length then (.noMemory, n) else (.sampleData sample.data, n)

def getSampleTrackIndex (n : NuPPMediaExtractor) : Answer × NuPPMediaExtractor :=
  n.withMinSample fun n _ info _ => (.trackIndex info.mTrackIndex, n)

def getSampleTime (n : NuPPMediaExtractor) : Answer × NuPPMediaExtractor :=
  n.withMinSample fun n _ info _ => (.sampleTime info.mSampleTimeUs, n)

def getSampleMeta (n : NuPPMediaExtractor) : Answer × NuPPMediaExtractor :=
  n.withMinSample fun n _ _ sample => (.sampleMeta sample.frameTime sample.isSync, n)

inductive Call where
  | advance
  | getSampleTrackIndex
  | getSampleTime
  | getSampleMeta
  | readSampleData (capacity : Nat)
deriving DecidableEq, Repr

def perform (n : NuPPMediaExtractor) : Call → Answer × NuPPMediaExtractor
  | .advance => n.advance
  | .getSampleTrackIndex => n.getSampleTrackIndex
  | .getSampleTime => n.getSampleTime
  | .getSampleMeta => n.getSampleMeta
  | .readSampleData capacity => n.readSampleData capacity

/-- The answers to a sequence of calls and the extractor after it. -/
def performAll (n : NuPPMediaExtractor) : List Call → List Answer × NuPPMediaExtractor
  | [] => ([], n)
  | call :: calls =>
      let (answer, n) := n.perform call
      let (answers, n) := n.performAll calls
      (answer :: answers, n)

/-- Select tracks in the given order. -/
def selectTracks (n : NuPPMediaExtractor) (selection : List Nat) : NuPPMediaExtractor :=
  selection.foldl (fun n index => (n.selectTrack index).2) n

/-- An opened stream with no track selected. -/
def opened (tracks : List TrackSource) : NuPPMediaExtractor := ⟨some tracks, []⟩

end NuPPMediaExtractor
end Meet
