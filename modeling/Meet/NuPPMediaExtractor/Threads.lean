import Meet.NuPPMediaExtractor.Basic
import Meet.PPExtractor.Threads

/-! One thread that drives `NuPPMediaExtractor` over the threads of
`PPExtractor`. Every step takes at most one step of the extractor, so whatever
holds in all runs of the extractor also holds here. -/
namespace Meet.NuPPMediaExtractor

open PPExtractor (Config Track ReadResult)

/-- What the driving thread can call. A seek runs the loop of
`fetchTrackSamples`, too. -/
inductive Request where
  | access (call : Call)
  | seekTo (timeUs : Int)
deriving DecidableEq, Repr

/-- The loop releases the samples instead of reading new ones. -/
def Request.purges : Request → Bool
  | .access _ => false
  | .seekTo timeUs => 0 ≤ timeUs

/-- Where the driving thread stands: at an entry of the loop of
`fetchTrackSamples` with the least sample so far, in the `read` of that entry,
in `seekTo` of the extractor, or in `unselectTrack` before and after the test in
`stop`. -/
inductive DriverPc where
  | idle
  | fetch (request : Request) (i : Nat) (min : Option (Nat × Int))
  | read (request : Request) (i : Nat) (min : Option (Nat × Int))
  | seek
  | stop (i : Nat)
  | stopping (i : Nat)
deriving DecidableEq, Repr

/-- A sample that a call has shown and the answer of the call. There is none where the
call reads from a ring that has been deleted. -/
structure Exposure where
  sample : MediaBuffer
  answer : Option Answer
deriving DecidableEq, Repr

/-- An opened extractor and the thread that drives it. The last two fields are
proof data: what calls have exposed since the last seek returned, and how often
`seekTo` of the extractor has been called. -/
structure Driven where
  mImpl : PPExtractor.State
  mSelectedTracks : List (TrackInfo Track MediaBuffer)
  driver : DriverPc
  exposed : List Exposure
  seeks : Nat

/-- The extractor after `setDataSource`, which starts it. -/
def Driven.opened (cfg : Config) : Driven where
  mImpl := (PPExtractor.step cfg PPExtractor.initial .start).getD PPExtractor.initial
  mSelectedTracks := []
  driver := .idle
  exposed := []
  seeks := 0

/-- `PPExtractor::getTrack`. -/
def getTrack (cfg : Config) (index : Nat) : Option Track :=
  if index = cfg.mAudioTrackID then some .audio
  else if index = cfg.mVideoTrackID then some .video
  else none

/-- Release the sample of an entry, if it has one. The group it was popped from
may have been deleted since. -/
def releaseSample (cfg : Config) (x : PPExtractor.State) (info : TrackInfo Track MediaBuffer) :
    Option PPExtractor.State :=
  match info.mSample with
  | none => some x
  | some b =>
      if b ∈ x.held info.mSource then
        PPExtractor.step cfg x (.release info.mSource ((x.held info.mSource).idxOf b))
      else PPExtractor.step cfg x (.releaseOrphan info.mSource ((x.orphans info.mSource).idxOf b))

/-- Take the result of `read` into the entry and go on, or stay in the read. -/
def settle (n : Driven) (request : Request) (i : Nat) (min : Option (Nat × Int))
    (info : TrackInfo Track MediaBuffer) (x : PPExtractor.State) : Driven :=
  let goOn (info : TrackInfo Track MediaBuffer) (min : Option (Nat × Int)) : Driven :=
    { n with
      mImpl := x
      mSelectedTracks := n.mSelectedTracks.set i info
      driver := .fetch request (i + 1) min }
  match x.reader info.mSource with
  | .returned (.frame b) =>
      let info := info.hold b b.kKeyTime
      goOn info (info.pickMin min i)
  | .returned .endOfStream => goOn (info.fail .errorEndOfStream) min
  | .returned .errorIo => goOn (info.fail (.other (-1004))) min
  | _ => { n with mImpl := x, driver := .read request i min }

/-- The loop body of `fetchTrackSamples` up to the `read`. -/
def fetchStep (cfg : Config) (n : Driven) (request : Request) (i : Nat)
    (min : Option (Nat × Int)) (info : TrackInfo Track MediaBuffer) : Option Driven :=
  if request.purges then
    (releaseSample cfg n.mImpl info).map fun x =>
      { n with
        mImpl := x
        mSelectedTracks := n.mSelectedTracks.set i info.purge
        driver := .fetch request (i + 1) min }
  else if info.mFinalResult ≠ .ok then some { n with driver := .fetch request (i + 1) min }
  else if info.mSample.isSome then
    some { n with driver := .fetch request (i + 1) (info.pickMin min i) }
  else (PPExtractor.step cfg n.mImpl (.read info.mSource)).map (settle n request i min info)

/-- The bytes of the sample of an entry, as long as the group it was popped from is
there. -/
def readFrame (x : PPExtractor.State) (info : TrackInfo Track MediaBuffer) (b : MediaBuffer) :
    Option (List UInt8) :=
  if b ∈ x.held info.mSource then (x.group info.mSource).map fun g => (g.view b).data else none

/-- What a call does with the least sample. -/
def accessStep (cfg : Config) (n : Driven) (call : Call) (minIndex : Nat)
    (info : TrackInfo Track MediaBuffer) (b : MediaBuffer) : Option Driven :=
  let shows (answer : Option Answer) : Option Driven :=
    some { n with driver := .idle, exposed := n.exposed ++ [⟨b, answer⟩] }
  match call with
  | .advance =>
      (releaseSample cfg n.mImpl info).map fun x =>
        { n with
          mImpl := x
          mSelectedTracks := n.mSelectedTracks.set minIndex info.drop
          driver := .idle }
  | .readSampleData capacity =>
      if capacity < b.size then some { n with driver := .idle }
      else shows ((readFrame n.mImpl info b).map .sampleData)
  | .getSampleTrackIndex => shows (some (.trackIndex info.mTrackIndex))
  | .getSampleTime => shows (some (.sampleTime info.mSampleTimeUs))
  | .getSampleMeta => shows (some (.sampleMeta b.kKeyTime b.kKeyIsSyncFrame))

/-- What follows the loop of `fetchTrackSamples`. A null sample is never
reached. -/
def finishStep (cfg : Config) (n : Driven) (request : Request) (min : Option (Nat × Int)) :
    Option Driven :=
  match request with
  | .seekTo timeUs =>
      (PPExtractor.step cfg n.mImpl (.seekTo timeUs)).map fun x =>
        { n with mImpl := x, driver := .seek, seeks := n.seeks + 1 }
  | .access call =>
      match min with
      | none => some { n with driver := .idle }
      | some (minIndex, _) =>
          (n.mSelectedTracks[minIndex]?).bind fun info =>
            info.mSample.bind (accessStep cfg n call minIndex info)

def driverStep (cfg : Config) (n : Driven) : Option Driven :=
  match n.driver with
  | .idle => none
  | .fetch request i min =>
      match n.mSelectedTracks[i]? with
      | none => finishStep cfg n request min
      | some info => fetchStep cfg n request i min info
  | .read request i min =>
      (n.mSelectedTracks[i]?).bind fun info =>
        (PPExtractor.step cfg n.mImpl (.reader info.mSource)).map (settle n request i min info)
  | .seek =>
      if n.mImpl.seeker = .idle then some { n with driver := .idle, exposed := [] }
      else (PPExtractor.step cfg n.mImpl .seeker).map fun x => { n with mImpl := x }
  | .stop i =>
      (PPExtractor.step cfg n.mImpl .stop).map fun x =>
        { n with mImpl := x, driver := .stopping i }
  | .stopping i =>
      if n.mImpl.control = .idle then
        some { n with mSelectedTracks := n.mSelectedTracks.eraseIdx i, driver := .idle }
      else (PPExtractor.step cfg n.mImpl .control).map fun x => { n with mImpl := x }

/-- Selecting starts the extractor. An index without a track leads to a null
source, and the process is gone. -/
def selectTrackStep (cfg : Config) (n : Driven) (index : Nat) : Option Driven :=
  if cfg.mTrackCount ≤ index then some n
  else if n.mSelectedTracks.any fun info => info.mTrackIndex == index then some n
  else (getTrack cfg index).bind fun t =>
    (PPExtractor.step cfg n.mImpl .start).map fun x =>
      { n with
        mImpl := x
        mSelectedTracks := n.mSelectedTracks ++ [TrackInfo.selected t index] }

/-- Unselecting releases the sample of the entry and stops the extractor, whatever
else is selected. -/
def unselectTrackStep (cfg : Config) (n : Driven) (index : Nat) : Option Driven :=
  if cfg.mTrackCount ≤ index then some n
  else match n.mSelectedTracks.findIdx? fun info => info.mTrackIndex == index with
    | none => some n
    | some i =>
        (n.mSelectedTracks[i]?).bind fun info =>
          (releaseSample cfg n.mImpl info).map fun x =>
            { n with
              mImpl := x
              mSelectedTracks :=
                n.mSelectedTracks.set i (if info.mSample.isSome then info.drop else info)
              driver := .stop i }

inductive Act where
  | producer
  | readSample (result : ReadResult) (fuel : Nat)
  | spuriousWake
  | selectTrack (index : Nat)
  | unselectTrack (index : Nat)
  | call (request : Request)
  | driver

/-- The acts of the producer thread, and those of the driving thread. -/
def Driven.step (cfg : Config) (n : Driven) (act : Act) : Option Driven :=
  let produces (act : PPExtractor.Act) : Option Driven :=
    (PPExtractor.step cfg n.mImpl act).map fun x => { n with mImpl := x }
  if n.mImpl.producer = .crashed then none
  else match act with
    | .producer => produces .producer
    | .readSample result fuel => produces (.readSample result fuel)
    | .spuriousWake => produces .spuriousWake
    | .selectTrack index => if n.driver = .idle then selectTrackStep cfg n index else none
    | .unselectTrack index => if n.driver = .idle then unselectTrackStep cfg n index else none
    | .call request =>
        if n.driver = .idle then some { n with driver := .fetch request 0 none } else none
    | .driver => driverStep cfg n

/-- The actions of the extractor that the producer thread takes. -/
def Act.produced : Act → Option PPExtractor.Act
  | .producer => some .producer
  | .readSample result fuel => some (.readSample result fuel)
  | .spuriousWake => some .spuriousWake
  | _ => none

/-- The answers that can be given about the sample of an entry. -/
inductive Answers (x : PPExtractor.State) (info : TrackInfo Track MediaBuffer) (b : MediaBuffer) :
    Option Answer → Prop where
  | trackIndex : Answers x info b (some (.trackIndex info.mTrackIndex))
  | sampleTime : Answers x info b (some (.sampleTime info.mSampleTimeUs))
  | sampleMeta : Answers x info b (some (.sampleMeta b.kKeyTime b.kKeyIsSyncFrame))
  | sampleData : Answers x info b ((readFrame x info b).map .sampleData)

/-- Everything a step can do, one constructor for each outcome. -/
inductive Moves (cfg : Config) (n : Driven) : Act → Driven → Prop where
  | produce {act : Act} {inner : PPExtractor.Act} {x : PPExtractor.State}
      (hAct : act.produced = some inner) (hStep : PPExtractor.step cfg n.mImpl inner = some x) :
      Moves cfg n act { n with mImpl := x }
  | selectNothing {index : Nat} (hIdle : n.driver = .idle) : Moves cfg n (.selectTrack index) n
  | select {index : Nat} {t : Track} {x : PPExtractor.State} (hIdle : n.driver = .idle)
      (hNew : ∀ info ∈ n.mSelectedTracks, info.mTrackIndex ≠ index)
      (hTrack : getTrack cfg index = some t)
      (hStep : PPExtractor.step cfg n.mImpl .start = some x) :
      Moves cfg n (.selectTrack index) { n with
        mImpl := x
        mSelectedTracks := n.mSelectedTracks ++ [TrackInfo.selected t index] }
  | unselectNothing {index : Nat} (hIdle : n.driver = .idle) : Moves cfg n (.unselectTrack index) n
  | unselect {index i : Nat} {info : TrackInfo Track MediaBuffer} {x : PPExtractor.State}
      (hIdle : n.driver = .idle) (hInfo : n.mSelectedTracks[i]? = some info)
      (hRelease : releaseSample cfg n.mImpl info = some x) :
      Moves cfg n (.unselectTrack index) { n with
        mImpl := x
        mSelectedTracks := n.mSelectedTracks.set i (if info.mSample.isSome then info.drop else info)
        driver := .stop i }
  | call {request : Request} (hIdle : n.driver = .idle) :
      Moves cfg n (.call request) { n with driver := .fetch request 0 none }
  | purge {request : Request} {i : Nat} {min : Option (Nat × Int)}
      {info : TrackInfo Track MediaBuffer} {x : PPExtractor.State}
      (hDriver : n.driver = .fetch request i min) (hInfo : n.mSelectedTracks[i]? = some info)
      (hPurges : request.purges = true) (hRelease : releaseSample cfg n.mImpl info = some x) :
      Moves cfg n .driver { n with
        mImpl := x
        mSelectedTracks := n.mSelectedTracks.set i info.purge
        driver := .fetch request (i + 1) min }
  | skip {request : Request} {i : Nat} {min min' : Option (Nat × Int)}
      {info : TrackInfo Track MediaBuffer} (hDriver : n.driver = .fetch request i min)
      (hInfo : n.mSelectedTracks[i]? = some info) (hPurges : request.purges = false)
      (hSkip : info.mFinalResult ≠ .ok ∨ info.mSample.isSome = true) :
      Moves cfg n .driver { n with driver := .fetch request (i + 1) min' }
  | reads {request : Request} {i : Nat} {min : Option (Nat × Int)}
      {info : TrackInfo Track MediaBuffer} {inner : PPExtractor.Act} {x : PPExtractor.State}
      (hDriver : (n.driver = .fetch request i min ∧ inner = .read info.mSource ∧
          request.purges = false ∧ info.mFinalResult = .ok ∧ info.mSample = none) ∨
        (n.driver = .read request i min ∧ inner = .reader info.mSource))
      (hInfo : n.mSelectedTracks[i]? = some info)
      (hStep : PPExtractor.step cfg n.mImpl inner = some x) :
      Moves cfg n .driver (settle n request i min info x)
  | seekStarts {timeUs : Int} {i : Nat} {min : Option (Nat × Int)} {x : PPExtractor.State}
      (hDriver : n.driver = .fetch (.seekTo timeUs) i min) (hEnd : n.mSelectedTracks[i]? = none)
      (hStep : PPExtractor.step cfg n.mImpl (.seekTo timeUs) = some x) :
      Moves cfg n .driver { n with mImpl := x, driver := .seek, seeks := n.seeks + 1 }
  | showsNothing {call : Call} {i : Nat} {min : Option (Nat × Int)}
      (hDriver : n.driver = .fetch (.access call) i min)
      (hEnd : n.mSelectedTracks[i]? = none) : Moves cfg n .driver { n with driver := .idle }
  | advances {i minIndex : Nat} {time : Int} {info : TrackInfo Track MediaBuffer}
      {x : PPExtractor.State}
      (hDriver : n.driver = .fetch (.access .advance) i (some (minIndex, time)))
      (hEnd : n.mSelectedTracks[i]? = none) (hInfo : n.mSelectedTracks[minIndex]? = some info)
      (hRelease : releaseSample cfg n.mImpl info = some x) :
      Moves cfg n .driver { n with
        mImpl := x
        mSelectedTracks := n.mSelectedTracks.set minIndex info.drop
        driver := .idle }
  | exposes {call : Call} {i minIndex : Nat} {time : Int} {info : TrackInfo Track MediaBuffer}
      {b : MediaBuffer} {answer : Option Answer}
      (hDriver : n.driver = .fetch (.access call) i (some (minIndex, time)))
      (hEnd : n.mSelectedTracks[i]? = none) (hInfo : n.mSelectedTracks[minIndex]? = some info)
      (hSample : info.mSample = some b) (hAnswer : Answers n.mImpl info b answer) :
      Moves cfg n .driver { n with driver := .idle, exposed := n.exposed ++ [⟨b, answer⟩] }
  | seekGoesOn {x : PPExtractor.State} (hDriver : n.driver = .seek)
      (hStep : PPExtractor.step cfg n.mImpl .seeker = some x) :
      Moves cfg n .driver { n with mImpl := x, driver := .seek }
  | seekReturns (hDriver : n.driver = .seek) (hIdle : n.mImpl.seeker = .idle) :
      Moves cfg n .driver { n with driver := .idle, exposed := [] }
  | stops {i : Nat} {inner : PPExtractor.Act} {x : PPExtractor.State}
      (hDriver : (n.driver = .stop i ∧ inner = .stop) ∨ (n.driver = .stopping i ∧ inner = .control))
      (hStep : PPExtractor.step cfg n.mImpl inner = some x) :
      Moves cfg n .driver { n with mImpl := x, driver := .stopping i }
  | stopReturns {i : Nat} (hDriver : n.driver = .stopping i) (hIdle : n.mImpl.control = .idle) :
      Moves cfg n .driver { n with
        mSelectedTracks := n.mSelectedTracks.eraseIdx i, driver := .idle }

section Inversion

variable {cfg : Config} {n n' : Driven}

theorem moves_finish {request : Request} {i : Nat} {min : Option (Nat × Int)}
    (hDriver : n.driver = .fetch request i min) (hEnd : n.mSelectedTracks[i]? = none)
    (hStep : finishStep cfg n request min = some n') : Moves cfg n .driver n' := by
  unfold finishStep at hStep
  cases request with
  | seekTo timeUs =>
      obtain ⟨x, hInner, rfl⟩ := Option.map_eq_some_iff.mp hStep
      exact .seekStarts hDriver hEnd hInner
  | access call =>
      cases min with
      | none =>
          obtain rfl := Option.some.inj hStep
          exact .showsNothing hDriver hEnd
      | some found =>
          obtain ⟨info, hInfo, hStep⟩ := Option.bind_eq_some_iff.mp hStep
          obtain ⟨b, hSample, hStep⟩ := Option.bind_eq_some_iff.mp hStep
          unfold accessStep at hStep
          cases call with
          | advance =>
              obtain ⟨x, hRelease, rfl⟩ := Option.map_eq_some_iff.mp hStep
              exact .advances hDriver hEnd hInfo hRelease
          | readSampleData capacity =>
              dsimp only at hStep
              split_ifs at hStep
              · obtain rfl := Option.some.inj hStep
                exact .showsNothing hDriver hEnd
              · obtain rfl := Option.some.inj hStep
                exact .exposes hDriver hEnd hInfo hSample .sampleData
          | getSampleTrackIndex =>
              obtain rfl := Option.some.inj hStep
              exact .exposes hDriver hEnd hInfo hSample .trackIndex
          | getSampleTime =>
              obtain rfl := Option.some.inj hStep
              exact .exposes hDriver hEnd hInfo hSample .sampleTime
          | getSampleMeta =>
              obtain rfl := Option.some.inj hStep
              exact .exposes hDriver hEnd hInfo hSample .sampleMeta

theorem moves_fetch {request : Request} {i : Nat} {min : Option (Nat × Int)}
    {info : TrackInfo Track MediaBuffer} (hDriver : n.driver = .fetch request i min)
    (hInfo : n.mSelectedTracks[i]? = some info)
    (hStep : fetchStep cfg n request i min info = some n') : Moves cfg n .driver n' := by
  unfold fetchStep at hStep
  split_ifs at hStep with hPurges hResult hSample
  · obtain ⟨x, hRelease, rfl⟩ := Option.map_eq_some_iff.mp hStep
    exact .purge hDriver hInfo hPurges hRelease
  · obtain rfl := Option.some.inj hStep
    exact .skip hDriver hInfo (by simpa using hPurges) (Or.inl hResult)
  · obtain rfl := Option.some.inj hStep
    exact .skip hDriver hInfo (by simpa using hPurges) (Or.inr hSample)
  · obtain ⟨x, hInner, rfl⟩ := Option.map_eq_some_iff.mp hStep
    refine .reads (Or.inl ⟨hDriver, rfl, by simpa using hPurges, ?_, ?_⟩) hInfo hInner
    · simpa using hResult
    · simpa using hSample

theorem moves_driver (hStep : driverStep cfg n = some n') : Moves cfg n .driver n' := by
  unfold driverStep at hStep
  cases hDriver : n.driver with
  | idle => simp [hDriver] at hStep
  | fetch request i min =>
      simp only [hDriver] at hStep
      cases hInfo : n.mSelectedTracks[i]? with
      | none =>
          simp only [hInfo] at hStep
          exact moves_finish hDriver hInfo hStep
      | some info =>
          simp only [hInfo] at hStep
          exact moves_fetch hDriver hInfo hStep
  | read request i min =>
      simp only [hDriver] at hStep
      obtain ⟨info, hInfo, hStep⟩ := Option.bind_eq_some_iff.mp hStep
      obtain ⟨x, hInner, rfl⟩ := Option.map_eq_some_iff.mp hStep
      exact .reads (Or.inr ⟨hDriver, rfl⟩) hInfo hInner
  | seek =>
      simp only [hDriver] at hStep
      split_ifs at hStep with hIdle
      · obtain rfl := Option.some.inj hStep
        exact .seekReturns hDriver hIdle
      · obtain ⟨x, hInner, rfl⟩ := Option.map_eq_some_iff.mp hStep
        exact .seekGoesOn hDriver hInner
  | stop i =>
      simp only [hDriver] at hStep
      obtain ⟨x, hInner, rfl⟩ := Option.map_eq_some_iff.mp hStep
      exact .stops (Or.inl ⟨hDriver, rfl⟩) hInner
  | stopping i =>
      simp only [hDriver] at hStep
      split_ifs at hStep with hIdle
      · obtain rfl := Option.some.inj hStep
        exact .stopReturns hDriver hIdle
      · obtain ⟨x, hInner, rfl⟩ := Option.map_eq_some_iff.mp hStep
        exact .stops (Or.inr ⟨hDriver, rfl⟩) hInner

theorem moves_select {index : Nat} (hIdle : n.driver = .idle)
    (hStep : selectTrackStep cfg n index = some n') : Moves cfg n (.selectTrack index) n' := by
  unfold selectTrackStep at hStep
  split_ifs at hStep with _ hKnown
  · obtain rfl := Option.some.inj hStep
    exact .selectNothing hIdle
  · obtain rfl := Option.some.inj hStep
    exact .selectNothing hIdle
  · obtain ⟨t, hTrack, hStep⟩ := Option.bind_eq_some_iff.mp hStep
    obtain ⟨x, hInner, rfl⟩ := Option.map_eq_some_iff.mp hStep
    exact .select hIdle (by simpa using hKnown) hTrack hInner

theorem moves_unselect {index : Nat} (hIdle : n.driver = .idle)
    (hStep : unselectTrackStep cfg n index = some n') : Moves cfg n (.unselectTrack index) n' := by
  unfold unselectTrackStep at hStep
  split_ifs at hStep
  · obtain rfl := Option.some.inj hStep
    exact .unselectNothing hIdle
  · split at hStep
    · obtain rfl := Option.some.inj hStep
      exact .unselectNothing hIdle
    · obtain ⟨info, hInfo, hStep⟩ := Option.bind_eq_some_iff.mp hStep
      obtain ⟨x, hRelease, rfl⟩ := Option.map_eq_some_iff.mp hStep
      exact .unselect hIdle hInfo hRelease

theorem moves_of_step {act : Act} (hStep : Driven.step cfg n act = some n') :
    Moves cfg n act n' := by
  unfold Driven.step at hStep
  dsimp only at hStep
  rw [if_neg (by rintro hCrashed; simp [hCrashed] at hStep)] at hStep
  cases act with
  | producer | readSample | spuriousWake =>
      obtain ⟨x, hInner, rfl⟩ := Option.map_eq_some_iff.mp hStep
      exact .produce rfl hInner
  | selectTrack index =>
      dsimp only at hStep
      split_ifs at hStep with hIdle
      exact moves_select hIdle hStep
  | unselectTrack index =>
      dsimp only at hStep
      split_ifs at hStep with hIdle
      exact moves_unselect hIdle hStep
  | call request =>
      dsimp only at hStep
      split_ifs at hStep with hIdle
      obtain rfl := Option.some.inj hStep
      exact .call hIdle
  | driver => exact moves_driver hStep

end Inversion

section Projection

variable {cfg : Config} {n n' : Driven}

/-- What a step of the driven extractor does to the extractor. -/
def StepsImpl (cfg : Config) (n n' : Driven) : Prop :=
  (n'.mImpl = n.mImpl ∧ n'.seeks = n.seeks) ∨
    ∃ inner, PPExtractor.step cfg n.mImpl inner = some n'.mImpl ∧
      n'.seeks = n.seeks + if inner.isSeekTo then 1 else 0

theorem releaseSample_cases {x x' : PPExtractor.State} {info : TrackInfo Track MediaBuffer}
    (h : releaseSample cfg x info = some x') :
    x' = x ∨ (∃ index, PPExtractor.step cfg x (.release info.mSource index) = some x') ∨
      ∃ index, PPExtractor.step cfg x (.releaseOrphan info.mSource index) = some x' := by
  unfold releaseSample at h
  split at h
  · exact Or.inl (Option.some.inj h).symm
  · split_ifs at h
    · exact Or.inr (Or.inl ⟨_, h⟩)
    · exact Or.inr (Or.inr ⟨_, h⟩)

theorem settle_impl (n : Driven) (request : Request) (i : Nat) (min : Option (Nat × Int))
    (info : TrackInfo Track MediaBuffer) (x : PPExtractor.State) :
    (settle n request i min info x).mImpl = x ∧ (settle n request i min info x).seeks = n.seeks ∧
      (settle n request i min info x).exposed = n.exposed := by
  unfold settle
  split <;> simp

theorem stepsImpl_release {x : PPExtractor.State} {info : TrackInfo Track MediaBuffer}
    (hRelease : releaseSample cfg n.mImpl info = some x) (hImpl : n'.mImpl = x)
    (hSeeks : n'.seeks = n.seeks) : StepsImpl cfg n n' := by
  subst hImpl
  rcases releaseSample_cases hRelease with hSame | ⟨index, hStep⟩ | ⟨index, hStep⟩
  · exact Or.inl ⟨hSame, hSeeks⟩
  · exact Or.inr ⟨_, hStep, hSeeks⟩
  · exact Or.inr ⟨_, hStep, hSeeks⟩

theorem Moves.stepsImpl {act : Act} (h : Moves cfg n act n') : StepsImpl cfg n n' := by
  cases h with
  | @produce act inner x hAct hStep =>
      refine Or.inr ⟨inner, hStep, ?_⟩
      cases act <;> simp only [Act.produced, Option.some.injEq, reduceCtorEq] at hAct <;>
        subst hAct <;> rfl
  | select _ _ _ hStep => exact Or.inr ⟨_, hStep, rfl⟩
  | unselect _ _ hRelease | purge _ _ _ hRelease | advances _ _ _ hRelease =>
      exact stepsImpl_release hRelease rfl rfl
  | @reads request i min info inner x hDriver _ hStep =>
      obtain ⟨hImpl, hSeeks, _⟩ := settle_impl n request i min info x
      refine Or.inr ⟨inner, hImpl.symm ▸ hStep, ?_⟩
      rcases hDriver with ⟨_, rfl, _⟩ | ⟨_, rfl⟩ <;> exact hSeeks
  | seekStarts _ _ hStep => exact Or.inr ⟨_, hStep, rfl⟩
  | seekGoesOn _ hStep => exact Or.inr ⟨_, hStep, rfl⟩
  | stops hDriver hStep =>
      refine Or.inr ⟨_, hStep, ?_⟩
      rcases hDriver with ⟨_, rfl⟩ | ⟨_, rfl⟩ <;> rfl
  | selectNothing | unselectNothing | call | skip | showsNothing | exposes | seekReturns
  | stopReturns => exact Or.inl ⟨rfl, rfl⟩

theorem opened_impl (cfg : Config) :
    PPExtractor.step cfg PPExtractor.initial .start = some (Driven.opened cfg).mImpl := by
  have hSome : (PPExtractor.step cfg PPExtractor.initial .start).isSome = true := by
    simp only [PPExtractor.step, PPExtractor.liveStep, PPExtractor.startStep]
    split_ifs <;> simp_all [PPExtractor.initial, PPExtractor.State.lockFree,
      PPExtractor.ProducerPc.holdsLock, PPExtractor.SeekerPc.holdsLock]
  obtain ⟨x, hStep⟩ := Option.isSome_iff_exists.mp hSome
  rw [Driven.opened, hStep]
  rfl

/-- The extractor inside a run makes a run of its own, with as many seeks. -/
theorem run_impl {guard : Driven → Act → Prop} {acts : List Act}
    (run : Run (Driven.step cfg) guard (Driven.opened cfg) acts n) :
    ∃ inner, Run (PPExtractor.step cfg) unguarded PPExtractor.initial inner n.mImpl ∧
      inner.countP PPExtractor.Act.isSeekTo = n.seeks := by
  induction run with
  | nil => exact ⟨[.start], Run.single trivial (opened_impl cfg), rfl⟩
  | @snoc before after acts act prior meets last ih =>
      obtain ⟨inner, hInner, hCount⟩ := ih
      rcases (moves_of_step last).stepsImpl with ⟨hSame, hSeeks⟩ | ⟨next, hStep, hSeeks⟩
      · exact ⟨inner, hSame ▸ hInner, hCount.trans hSeeks.symm⟩
      · refine ⟨inner ++ [next], Run.snoc hInner trivial hStep, ?_⟩
        rw [List.countP_append, List.countP_singleton, hCount, hSeeks]

theorem step_produce {act : Act} {inner : PPExtractor.Act} {x : PPExtractor.State}
    (hAct : act.produced = some inner) (hStep : PPExtractor.step cfg n.mImpl inner = some x) :
    Driven.step cfg n act = some { n with mImpl := x } := by
  have hAlive : n.mImpl.producer ≠ .crashed := by
    rintro hCrashed
    simp [PPExtractor.step, hCrashed] at hStep
  unfold Driven.step
  dsimp only
  rw [if_neg hAlive]
  cases act <;> simp only [Act.produced, Option.some.injEq, reduceCtorEq] at hAct <;>
    subst hAct <;> simp [hStep]

/-- A run of the producer alone is a run of the whole. -/
theorem run_produce {inner : List PPExtractor.Act} {acts : List Act} {x : PPExtractor.State}
    (run : Run (PPExtractor.step cfg) unguarded n.mImpl inner x)
    (hActs : acts.map Act.produced = inner.map some) :
    Run (Driven.step cfg) unguarded n acts { n with mImpl := x } := by
  induction run generalizing acts with
  | nil =>
      obtain rfl : acts = [] := by simpa using hActs
      exact Run.nil n
  | snoc prior meets last ih =>
      rw [List.map_append, List.map_eq_append_iff] at hActs
      obtain ⟨first, final, rfl, hFirst, hFinal⟩ := hActs
      obtain ⟨act, rfl, hAct⟩ : ∃ act, final = [act] ∧ act.produced = some _ := by
        simpa [List.map_eq_singleton_iff] using hFinal
      exact Run.snoc (ih hFirst) trivial (step_produce hAct last)

end Projection

end Meet.NuPPMediaExtractor
