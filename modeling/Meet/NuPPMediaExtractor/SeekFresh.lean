import Meet.NuPPMediaExtractor.Entries

/-! What the driving thread sees after `seekTo` has returned: samples read since
the seek that served this call, and nothing at all after a seek to the end. -/
namespace Meet.NuPPMediaExtractor

open PPExtractor (Config Track FrameFromRead Contents)

/-- The seek times that the Java interface can pass on. -/
def SeekRange (_ : Driven) : Act → Prop
  | .call (.seekTo timeUs) => 0 ≤ timeUs / 1000 ∧ timeUs / 1000 < 2 ^ 31
  | _ => True

instance (n : Driven) (act : Act) : Decidable (SeekRange n act) :=
  match act with
  | .call (.seekTo _) => inferInstanceAs (Decidable (_ ∧ _))
  | .call (.access _) | .producer | .readSample _ _ | .spuriousWake | .selectTrack _
  | .unselectTrack _ | .driver => .isTrue trivial

def Request.seekTime : Request → Option Int
  | .access _ => none
  | .seekTo timeUs => some timeUs

def Act.seekTime : Act → Option Int
  | .call request => request.seekTime
  | _ => none

/-- The times of all calls of `seekTo`, oldest first. -/
def seekTimes (acts : List Act) : List Int := acts.filterMap Act.seekTime

/-- The time of a call of `seekTo` that is still in its loop over the entries. -/
def DriverPc.asking : DriverPc → Option Int
  | .fetch request _ _ | .read request _ _ => request.seekTime
  | .idle | .seek | .stop _ | .stopping _ => none

/-- The calls of `seekTo` have all reached the extractor, but for one still in its loop, and the
last of these has a property. -/
def LastSeek (acts : List Act) (n : Driven) (holds : Int → Prop) : Prop :=
  ∃ passed, seekTimes acts = passed ++ n.driver.asking.toList ∧ n.seeks = passed.length ∧
    ∀ timeUs ∈ passed.getLast?, holds timeUs

/-- Outside of `seekTo` of the extractor, with as many seeks served as were asked for, and the
last one for the time asked for: all frames in the groups, in the entries and exposed since then
are among the results read after it, each call tells what the read of its frame has returned,
and after a seek to the end nothing is exposed. Only `unselectTrack` makes bytes unreadable. -/
structure NoStaleSample (cfg : Config) (acts : List Act) (n : Driven) : Prop where
  served : n.mImpl.seeksServed = n.seeks
  target : LastSeek acts n fun timeUs => (n.mImpl.servedTime : Int) = timeUs / 1000 ∧
    (n.mImpl.servedToEnd = true ↔ (cfg.mDurationTimeUs : Int) ≤ timeUs / 1000)
  rings : ∀ t g, n.mImpl.group t = some g → ∀ b ∈ g.frames,
    FrameFromRead n.mImpl.reads n.mImpl.seekMark b
  tracks : ∀ info ∈ n.mSelectedTracks, ∀ b ∈ info.mSample,
    FrameFromRead n.mImpl.reads n.mImpl.seekMark b
  exposed : ∀ e ∈ n.exposed, n.mImpl.seekMark ≤ e.sample.origin ∧
    e.Faithful cfg n.mImpl.reads
  whole : (∀ index, Act.unselectTrack index ∉ acts) → ∀ e ∈ n.exposed, e.answer.isSome = true
  atEnd : n.mImpl.servedToEnd = true → n.exposed = []

/-- The extractor moves on without a seek. -/
structure Stays (x x' : PPExtractor.State) : Prop where
  idle : x'.seeker = .idle
  time : x'.mSeekTimeUs = x.mSeekTimeUs
  frames : ∀ b, FrameFromRead x.reads x.seekMark b → FrameFromRead x'.reads x'.seekMark b

section Steps

variable {cfg : Config} {n n' : Driven} {x x' : PPExtractor.State}

theorem Stays.refl (hIdle : x.seeker = .idle) : Stays x x := ⟨hIdle, rfl, fun _ h => h⟩

theorem stays_step {inner : PPExtractor.Act} (hCoherent : PPExtractor.Coherent x)
    (hIdle : x.seeker = .idle) (hInner : inner.isSeekTo = false)
    (hStep : PPExtractor.step cfg x inner = some x') : Stays x x' := by
  obtain ⟨hIdle', hMark, hReads⟩ := PPExtractor.idle_step hCoherent hIdle hInner hStep
  refine ⟨hIdle', PPExtractor.mSeekTimeUs_step hInner hStep, fun b hFrame => ?_⟩
  rcases hReads with hSame | ⟨result, hMore⟩
  · rwa [hSame, hMark]
  · rw [hMore, hMark]
    exact PPExtractor.FromRead.append hFrame result

theorem stays_release {info : TrackInfo Track MediaBuffer} (hCoherent : PPExtractor.Coherent x)
    (hIdle : x.seeker = .idle) (hRelease : releaseSample cfg x info = some x') : Stays x x' := by
  rcases releaseSample_cases hRelease with rfl | ⟨index, hStep⟩ | ⟨index, hStep⟩
  · exact Stays.refl hIdle
  · exact stays_step hCoherent hIdle rfl hStep
  · exact stays_step hCoherent hIdle rfl hStep

/-- All entries hold samples with a property. -/
def Holds (tracks : List (TrackInfo Track MediaBuffer)) (good : MediaBuffer → Prop) : Prop :=
  ∀ info ∈ tracks, ∀ b ∈ info.mSample, good b

variable {tracks : List (TrackInfo Track MediaBuffer)} {good : MediaBuffer → Prop}

theorem Holds.set {i : Nat} {info : TrackInfo Track MediaBuffer} (h : Holds tracks good)
    (hInfo : ∀ b ∈ info.mSample, good b) : Holds (tracks.set i info) good := by
  intro other hMem
  rcases List.mem_or_eq_of_mem_set hMem with hOld | rfl
  · exact h other hOld
  · exact hInfo

theorem Holds.mono {better : MediaBuffer → Prop} (h : Holds tracks good)
    (hMono : ∀ b, good b → better b) : Holds tracks better :=
  fun info hInfo b hMem => hMono b (h info hInfo b hMem)

end Steps

/-- What the loop of a seek and the extractor below it keep. -/
structure Purging (n : Driven) : Prop where
  idle : n.driver ≠ .seek → n.mImpl.seeker = .idle
  time : 0 ≤ n.mImpl.mSeekTimeUs / 1000 ∧ n.mImpl.mSeekTimeUs / 1000 < 2 ^ 31
  range : ∀ timeUs i min, n.driver = .fetch (.seekTo timeUs) i min →
    0 ≤ timeUs / 1000 ∧ timeUs / 1000 < 2 ^ 31
  reading : ∀ timeUs i min, n.driver ≠ .read (.seekTo timeUs) i min
  purged : ∀ timeUs i min, n.driver = .fetch (.seekTo timeUs) i min →
    ∀ k info, k < i → n.mSelectedTracks[k]? = some info → info.mSample = none
  seeking : n.driver = .seek → ∀ info ∈ n.mSelectedTracks, info.mSample = none
  tracks : n.driver ≠ .seek →
    Holds n.mSelectedTracks (FrameFromRead n.mImpl.reads n.mImpl.seekMark)
  exposed : n.driver ≠ .seek →
    ∀ e ∈ n.exposed, FrameFromRead n.mImpl.reads n.mImpl.seekMark e.sample

theorem purging_opened (cfg : Config) : Purging (Driven.opened cfg) := by
  have hStays : Stays PPExtractor.initial (Driven.opened cfg).mImpl :=
    stays_step PPExtractor.coherent_initial rfl rfl (opened_impl cfg)
  have hTime : (Driven.opened cfg).mImpl.mSeekTimeUs = 0 := hStays.time
  refine ⟨fun _ => hStays.idle, ?_, ?_, ?_, ?_, ?_, ?_, ?_⟩
  · rw [hTime]
    omega
  all_goals simp [Driven.opened, Holds]

section Invariant

variable {cfg : Config} {n n' : Driven}

theorem purges_of_range {timeUs : Int} (h : 0 ≤ timeUs / 1000) :
    (Request.seekTo timeUs).purges = true := by
  simp only [Request.purges, decide_eq_true_eq]
  omega

/-- Steps outside of seeks: the extractor stays between two of them. -/
theorem Purging.stays (h : Purging n) {x : PPExtractor.State}
    (hStays : Stays n.mImpl x) (hImpl : n'.mImpl = x)
    (hDriver : ∀ timeUs, (∀ i min, n'.driver ≠ .fetch (.seekTo timeUs) i min) ∧
      (∀ i min, n'.driver ≠ .read (.seekTo timeUs) i min))
    (hSeek' : n'.driver ≠ .seek)
    (hTracks : Holds n'.mSelectedTracks (FrameFromRead x.reads x.seekMark))
    (hExposed : ∀ e ∈ n'.exposed, FrameFromRead x.reads x.seekMark e.sample) : Purging n' := by
  subst hImpl
  refine ⟨fun _ => hStays.idle, ?_, ?_, ?_, ?_, fun hSeeking => absurd hSeeking hSeek',
    fun _ => hTracks, fun _ => hExposed⟩
  · rw [hStays.time]
    exact h.time
  · exact fun timeUs i min hFetch => absurd hFetch ((hDriver timeUs).1 i min)
  · exact fun timeUs i min => (hDriver timeUs).2 i min
  · exact fun timeUs i min hFetch => absurd hFetch ((hDriver timeUs).1 i min)

/-- Such a step shows nothing new, and no entry comes to hold another sample. -/
theorem Purging.keeps (h : Purging n) {x : PPExtractor.State} (hSeek : n.driver ≠ .seek)
    (hStays : Stays n.mImpl x) (hImpl : n'.mImpl = x)
    (hDriver : ∀ timeUs, (∀ i min, n'.driver ≠ .fetch (.seekTo timeUs) i min) ∧
      (∀ i min, n'.driver ≠ .read (.seekTo timeUs) i min))
    (hSeek' : n'.driver ≠ .seek) (hExposed : n'.exposed = n.exposed)
    (hTracks : ∀ {good}, Holds n.mSelectedTracks good → Holds n'.mSelectedTracks good) :
    Purging n' := by
  refine h.stays hStays hImpl hDriver hSeek' ?_ ?_
  · exact hTracks ((h.tracks hSeek).mono hStays.frames)
  · rw [hExposed]
    exact fun e hMem => hStays.frames e.sample (h.exposed hSeek e hMem)

theorem Act.produced_isSeekTo {act : Act} {inner : PPExtractor.Act}
    (h : act.produced = some inner) : inner.isSeekTo = false := by
  cases act <;> simp only [Act.produced, Option.some.injEq, reduceCtorEq] at h <;> subst h <;> rfl

theorem purging_produce {x : PPExtractor.State} {inner : PPExtractor.Act}
    (hCoherent : PPExtractor.Coherent n.mImpl) (h : Purging n) (hInner : inner.isSeekTo = false)
    (hStep : PPExtractor.step cfg n.mImpl inner = some x) : Purging { n with mImpl := x } := by
  have hStays : n.driver ≠ .seek → Stays n.mImpl x := fun hSeek =>
    stays_step hCoherent (h.idle hSeek) hInner hStep
  refine ⟨fun hSeek => (hStays hSeek).idle, ?_, h.range, h.reading, h.purged, h.seeking,
    fun hSeek => (h.tracks hSeek).mono (hStays hSeek).frames,
    fun hSeek e hMem => (hStays hSeek).frames e.sample (h.exposed hSeek e hMem)⟩
  have hTime := PPExtractor.mSeekTimeUs_step hInner hStep
  simp only [hTime]
  exact h.time

theorem purging_purge {request : Request} {i : Nat} {min : Option (Nat × Int)}
    {info : TrackInfo Track MediaBuffer} {x : PPExtractor.State}
    (hCoherent : PPExtractor.Coherent n.mImpl) (h : Purging n)
    (hDriver : n.driver = .fetch request i min)
    (hRelease : releaseSample cfg n.mImpl info = some x) :
    Purging { n with
      mImpl := x
      mSelectedTracks := n.mSelectedTracks.set i info.purge
      driver := .fetch request (i + 1) min } := by
  have hSeek : n.driver ≠ .seek := by simp [hDriver]
  have hStays := stays_release hCoherent (h.idle hSeek) hRelease
  refine ⟨fun _ => hStays.idle, ?_, ?_, by simp, ?_, by simp, fun _ => ?_, fun _ e hMem => ?_⟩
  · simp only [hStays.time]
    exact h.time
  · intro timeUs j min' hFetch
    obtain ⟨rfl, rfl, rfl⟩ := DriverPc.fetch.inj hFetch
    exact h.range timeUs i min hDriver
  · intro timeUs j min' hFetch k other hLess hOther
    obtain ⟨rfl, rfl, rfl⟩ := DriverPc.fetch.inj hFetch
    dsimp only at hOther
    rw [List.getElem?_set] at hOther
    split_ifs at hOther with hHere hIn
    · obtain rfl := Option.some.inj hOther
      exact purge_mSample info
    · exact h.purged timeUs i min hDriver k other (by omega) hOther
  · refine ((h.tracks hSeek).mono hStays.frames).set ?_
    simp [purge_mSample]
  · exact hStays.frames e.sample (h.exposed hSeek e hMem)

/-- A read takes a frame out of its group, which holds no stale frame then. -/
theorem purging_reads {request : Request} {i : Nat} {min : Option (Nat × Int)}
    {info : TrackInfo Track MediaBuffer} {inner : PPExtractor.Act} {x : PPExtractor.State}
    (hCoherent : PPExtractor.Coherent n.mImpl) (hFresh : PPExtractor.Fresh n.mImpl)
    (h : Purging n) (hSeek : n.driver ≠ .seek) (hRequest : ∀ timeUs, request ≠ .seekTo timeUs)
    (hInner : inner = .read info.mSource ∨ inner = .reader info.mSource)
    (hInfo : info ∈ n.mSelectedTracks)
    (hStep : PPExtractor.step cfg n.mImpl inner = some x) :
    Purging (settle n request i min info x) := by
  have hIdle := h.idle hSeek
  have hStays : Stays n.mImpl x :=
    stays_step hCoherent hIdle (by rcases hInner with rfl | rfl <;> rfl) hStep
  have hHolds := (h.tracks hSeek).mono hStays.frames
  have hClean : n.mImpl.producer.dirty info.mSource = false := by
    by_contra hDirty
    have hHolds := n.mImpl.producer.holdsLock_of_dirty (by simpa using hDirty)
    simpa [hIdle] using hCoherent.exclusive hHolds
  obtain ⟨hImpl, _, hExposed⟩ := settle_impl n request i min info x
  have hSettled : (∀ timeUs, (∀ j min', (settle n request i min info x).driver ≠
        .fetch (.seekTo timeUs) j min') ∧
        (∀ j min', (settle n request i min info x).driver ≠ .read (.seekTo timeUs) j min')) ∧
      (settle n request i min info x).driver ≠ .seek := by
    unfold settle
    split <;> simp_all
  refine h.stays hStays hImpl hSettled.1 hSettled.2 ?_ ?_
  · unfold settle
    split
    case h_1 b hReturned =>
      obtain ⟨g, hGroup, hMem⟩ := PPExtractor.reader_frame hInner hStep hReturned
      refine hHolds.set fun c hFound => ?_
      obtain rfl : b = c := by simpa [TrackInfo.hold] using hFound
      exact hStays.frames b (hFresh.ring info.mSource hClean g hGroup b hMem)
    case h_4 => exact hHolds
    all_goals
      refine hHolds.set fun c hFound => ?_
      exact hHolds info hInfo c (by simpa [TrackInfo.fail] using hFound)
  · rw [hExposed]
    exact fun e hMem => hStays.frames e.sample (h.exposed hSeek e hMem)

/-- A call begins its loop with no entry purged. -/
theorem purging_call {request : Request} (h : Purging n) (hIdle : n.driver = .idle)
    (hGuard : SeekRange n (.call request)) :
    Purging { n with driver := .fetch request 0 none } := by
  have hSeek : n.driver ≠ .seek := by simp [hIdle]
  refine ⟨fun _ => h.idle hSeek, h.time, ?_, by simp, ?_, by simp, fun _ => h.tracks hSeek,
    fun _ => h.exposed hSeek⟩
  · intro timeUs i min hFetch
    obtain ⟨rfl, _⟩ := DriverPc.fetch.inj hFetch
    exact hGuard
  · intro timeUs i min hFetch k info hLess
    obtain ⟨_, rfl, _⟩ := DriverPc.fetch.inj hFetch
    omega

/-- At the end of its loop a seek has purged every entry. -/
theorem purging_seekStarts {timeUs : Int} {i : Nat} {min : Option (Nat × Int)}
    {x : PPExtractor.State} (h : Purging n) (hDriver : n.driver = .fetch (.seekTo timeUs) i min)
    (hEnd : n.mSelectedTracks[i]? = none)
    (hStep : PPExtractor.step cfg n.mImpl (.seekTo timeUs) = some x) :
    Purging { n with mImpl := x, driver := .seek, seeks := n.seeks + 1 } := by
  refine ⟨by simp, ?_, by simp, by simp, by simp, fun _ info hMem => ?_, by simp, by simp⟩
  · simp only [PPExtractor.mSeekTimeUs_seekTo hStep]
    exact h.range timeUs i min hDriver
  · obtain ⟨k, hInfo⟩ := List.mem_iff_getElem?.mp hMem
    have hInside : k < n.mSelectedTracks.length := (List.getElem?_eq_some_iff.mp hInfo).1
    have hPast := List.getElem?_eq_none_iff.mp hEnd
    exact h.purged timeUs i min hDriver k info (by omega) hInfo

theorem purging_moves {act : Act} (hCoherent : PPExtractor.Coherent n.mImpl)
    (hFresh : PPExtractor.Fresh n.mImpl) (h : Purging n) (hGuard : SeekRange n act)
    (hMoves : Moves cfg n act n') : Purging n' := by
  cases hMoves with
  | produce hAct hStep => exact purging_produce hCoherent h (Act.produced_isSeekTo hAct) hStep
  | selectNothing | unselectNothing => exact h
  | @select index t x hIdle _ hTrack hStep =>
      have hSeek : n.driver ≠ .seek := by simp [hIdle]
      have hStays := stays_step hCoherent (h.idle hSeek) rfl hStep
      refine h.keeps hSeek hStays rfl (by simp [hIdle]) hSeek rfl ?_
      intro good hHolds info hMem
      simp only [List.mem_append, List.mem_singleton] at hMem
      rcases hMem with hMem | rfl
      · exact hHolds info hMem
      · simp [TrackInfo.selected]
  | @unselect index i info x hIdle hInfo hRelease =>
      have hSeek : n.driver ≠ .seek := by simp [hIdle]
      have hStays := stays_release hCoherent (h.idle hSeek) hRelease
      refine h.keeps hSeek hStays rfl (by simp) (by simp) rfl ?_
      intro good hHolds
      refine hHolds.set ?_
      split_ifs with hSample
      · simp [TrackInfo.drop]
      · simp_all
  | call hIdle => exact purging_call h hIdle hGuard
  | purge hDriver hInfo hPurges hRelease => exact purging_purge hCoherent h hDriver hRelease
  | @skip request i min min' info hDriver hInfo hPurges hSkip =>
      have hSeek : n.driver ≠ .seek := by simp [hDriver]
      have hRequest : ∀ timeUs, request ≠ .seekTo timeUs := by
        rintro timeUs rfl
        simp [purges_of_range (h.range timeUs i min hDriver).1] at hPurges
      exact h.keeps hSeek (Stays.refl (h.idle hSeek)) rfl (by simp [hRequest]) (by simp) rfl id
  | @reads request i min info inner x hDriver hInfo hStep =>
      have hMem := List.mem_of_getElem? hInfo
      rcases hDriver with ⟨hDriver, hInner, hPurges, _⟩ | ⟨hDriver, hInner⟩
      · refine purging_reads hCoherent hFresh h (by simp [hDriver]) ?_ (Or.inl hInner) hMem hStep
        rintro timeUs rfl
        simp [purges_of_range (h.range timeUs i min hDriver).1] at hPurges
      · refine purging_reads hCoherent hFresh h (by simp [hDriver]) ?_ (Or.inr hInner) hMem hStep
        rintro timeUs rfl
        exact h.reading timeUs i min hDriver
  | seekStarts hDriver hEnd hStep => exact purging_seekStarts h hDriver hEnd hStep
  | @showsNothing call i min hDriver hEnd =>
      have hSeek : n.driver ≠ .seek := by simp [hDriver]
      exact h.keeps hSeek (Stays.refl (h.idle hSeek)) rfl (by simp) (by simp) rfl id
  | @advances i minIndex time info x hDriver hEnd hInfo hRelease =>
      have hSeek : n.driver ≠ .seek := by simp [hDriver]
      have hStays := stays_release hCoherent (h.idle hSeek) hRelease
      refine h.keeps hSeek hStays rfl (by simp) (by simp) rfl ?_
      exact fun hHolds => hHolds.set (by simp [TrackInfo.drop])
  | @exposes call i minIndex time info b answer hDriver hEnd hInfo hSample hAnswer =>
      have hSeek : n.driver ≠ .seek := by simp [hDriver]
      refine h.stays (Stays.refl (h.idle hSeek)) rfl (by simp) (by simp) (h.tracks hSeek) ?_
      have hFrame := h.tracks hSeek info (List.mem_of_getElem? hInfo) b hSample
      intro e hMem
      simp only [List.mem_append, List.mem_singleton] at hMem
      rcases hMem with hMem | rfl
      · exact h.exposed hSeek e hMem
      · exact hFrame
  | @seekGoesOn x hDriver hStep =>
      refine ⟨by simp, ?_, by simp, by simp, by simp, fun _ => h.seeking hDriver, by simp, by simp⟩
      have hTime := PPExtractor.mSeekTimeUs_step rfl hStep
      simp only [hTime]
      exact h.time
  | seekReturns hDriver hIdle =>
      refine ⟨fun _ => hIdle, h.time, by simp, by simp, by simp, by simp,
        fun _ info hMem b hFound => ?_, by simp⟩
      simp [h.seeking hDriver info hMem] at hFound
  | @stops i inner x hDriver hStep =>
      have hSeek : n.driver ≠ .seek := by
        rcases hDriver with ⟨hDriver, _⟩ | ⟨hDriver, _⟩ <;> simp [hDriver]
      have hStays : Stays n.mImpl x := stays_step hCoherent (h.idle hSeek)
        (by rcases hDriver with ⟨_, rfl⟩ | ⟨_, rfl⟩ <;> rfl) hStep
      exact h.keeps hSeek hStays rfl (by simp) (by simp) rfl id
  | @stopReturns i hDriver hIdle =>
      have hSeek : n.driver ≠ .seek := by simp [hDriver]
      refine h.keeps hSeek (Stays.refl (h.idle hSeek)) rfl (by simp) (by simp) rfl ?_
      exact fun hHolds info hMem => hHolds info (List.mem_of_mem_eraseIdx hMem)

theorem run_purging {acts : List Act}
    (run : Run (Driven.step cfg) SeekRange (Driven.opened cfg) acts n) : Purging n := by
  refine @Run.invariant_of _ _ _ _
    (fun n => PPExtractor.Coherent n.mImpl ∧ PPExtractor.Fresh n.mImpl) _ _ _ _ run
    (fun _ _ prior => ?_) (purging_opened cfg) fun _ _ _ hKnown h hGuard hStep =>
      purging_moves hKnown.1 hKnown.2 h hGuard (moves_of_step hStep)
  obtain ⟨inner, hInner, _⟩ := run_impl prior
  exact ⟨PPExtractor.run_coherent hInner, PPExtractor.run_fresh hInner⟩

/-- While a seek empties a ring, no entry has a sample and no frame is out. -/
theorem held_of_seekClear (hCoherent : PPExtractor.Coherent n.mImpl) (h : Purging n)
    (hLinked : Linked cfg n) (t : Track) (hPc : n.mImpl.producer = .seekClear t) :
    n.mImpl.held t = [] := by
  have hAsleep := hCoherent.exclusive (by rw [hPc]; rfl)
  have hSeek : n.driver = .seek := by
    by_contra hElse
    simp [h.idle hElse] at hAsleep
  refine List.eq_nil_iff_forall_not_mem.mpr fun b hMem => ?_
  obtain ⟨_, info, hInfo, _, hSample⟩ := hLinked.held t b hMem
  simp [h.seeking hSeek info hInfo] at hSample

theorem run_linked {acts : List Act}
    (run : Run (Driven.step cfg) SeekRange (Driven.opened cfg) acts n) :
    Linked cfg n ∧ Contents cfg n.mImpl := by
  refine @Run.invariant_of _ _ _ _ (fun n => PPExtractor.Coherent n.mImpl ∧ Purging n)
    (fun n => Linked cfg n ∧ Contents cfg n.mImpl) _ _ _ run
    (fun _ _ prior => ?_) ⟨linked_opened cfg, ?_⟩ fun _ _ _ hKnown h _ hStep => ?_
  · obtain ⟨inner, hInner, _⟩ := run_impl prior
    exact ⟨PPExtractor.run_coherent hInner, run_purging prior⟩
  · have hStart : PPExtractor.ReleasesInOrder PPExtractor.initial .start := trivial
    exact PPExtractor.contents_step PPExtractor.coherent_initial
      (PPExtractor.contents_initial cfg) hStart (opened_impl cfg)
  · have hMoves := moves_of_step hStep
    exact ⟨linked_moves h.2 h.1 hMoves,
      contents_moves hKnown.1 (held_of_seekClear hKnown.1 hKnown.2 h.1) h.1 h.2 hMoves⟩

theorem run_kept {acts : List Act}
    (run : Run (Driven.step cfg) SeekRange (Driven.opened cfg) acts n)
    (hNever : ∀ index, Act.unselectTrack index ∉ acts) : Kept n := by
  induction run with
  | nil => exact kept_opened cfg
  | snoc prior meets last ih =>
      obtain ⟨hLinked, hContents⟩ := run_linked prior
      refine kept_moves hLinked hContents (ih fun index hMem => ?_) ?_ (moves_of_step last)
      · exact hNever index (List.mem_append_left _ hMem)
      · rintro index rfl
        exact hNever index (by simp)

/-- In the range of the Java interface the seek time is not changed by the
conversions on its way. -/
theorem startTime_eq {x : PPExtractor.State}
    (hTime : 0 ≤ x.mSeekTimeUs / 1000 ∧ x.mSeekTimeUs / 1000 < 2 ^ 31) :
    (x.startTime : Int) = x.mSeekTimeUs / 1000 := by
  have hDiv : x.mSeekTimeUs.tdiv 1000 = x.mSeekTimeUs / 1000 :=
    Int.tdiv_eq_ediv_of_nonneg (by omega)
  rw [PPExtractor.State.startTime, hDiv]
  omega

end Invariant

section Asked

variable {cfg : Config} {acts : List Act} {n n' : Driven}

/-- The time of the last call of `seekTo` is the one that the extractor has stored. -/
def Asked (acts : List Act) (n : Driven) : Prop :=
  LastSeek acts n fun timeUs => n.mImpl.mSeekTimeUs = timeUs

theorem seekTimes_snoc (acts : List Act) (act : Act) :
    seekTimes (acts ++ [act]) = seekTimes acts ++ act.seekTime.toList := by
  cases hTime : act.seekTime <;> simp [seekTimes, hTime]

theorem Asked.keep {act : Act} (h : Asked acts n) (hSteps : StepsImpl cfg n n')
    (hAct : act.seekTime = none) (hSeeks : n'.seeks = n.seeks)
    (hAsking : n'.driver.asking = n.driver.asking) : Asked (acts ++ [act]) n' := by
  have hTime : n'.mImpl.mSeekTimeUs = n.mImpl.mSeekTimeUs := by
    rcases hSteps with ⟨hSame, _⟩ | ⟨inner, hStep, hCount⟩
    · rw [hSame]
    · refine PPExtractor.mSeekTimeUs_step ?_ hStep
      by_contra hInner
      simp [hSeeks, hInner] at hCount
  obtain ⟨passed, hTimes, hLength, hLast⟩ := h
  refine ⟨passed, ?_, hSeeks.trans hLength, ?_⟩
  · rw [seekTimes_snoc, hAct, hAsking, Option.toList_none, List.append_nil, hTimes]
  · rw [hTime]
    exact hLast

theorem settle_asking (n : Driven) (request : Request) (i : Nat) (min : Option (Nat × Int))
    (info : TrackInfo Track MediaBuffer) (x : PPExtractor.State) :
    (settle n request i min info x).driver.asking = request.seekTime := by
  unfold settle
  split <;> rfl

theorem asked_moves {act : Act} (h : Asked acts n) (hMoves : Moves cfg n act n') :
    Asked (acts ++ [act]) n' := by
  have hSteps := hMoves.stepsImpl
  cases hMoves with
  | @call request hIdle =>
      obtain ⟨passed, hTimes, hLength, hLast⟩ := h
      refine ⟨passed, ?_, hLength, hLast⟩
      rw [seekTimes_snoc, hTimes]
      simp [hIdle, DriverPc.asking, Act.seekTime]
  | @seekStarts timeUs i min x hDriver hEnd hStep =>
      obtain ⟨passed, hTimes, hLength, hLast⟩ := h
      refine ⟨passed ++ [timeUs], ?_, ?_, ?_⟩
      · rw [seekTimes_snoc, hTimes]
        simp [hDriver, DriverPc.asking, Request.seekTime, Act.seekTime]
      · simp [hLength]
      · simpa using PPExtractor.mSeekTimeUs_seekTo hStep
  | @produce act inner x hAct hStep =>
      refine h.keep hSteps ?_ rfl rfl
      cases act <;> simp [Act.produced] at hAct <;> rfl
  | selectNothing | unselectNothing | select =>
      exact h.keep hSteps rfl rfl rfl
  | unselect hIdle | seekReturns hIdle =>
      exact h.keep hSteps rfl rfl (by rw [hIdle]; rfl)
  | purge hDriver | skip hDriver | showsNothing hDriver | advances hDriver | exposes hDriver
  | stopReturns hDriver =>
      exact h.keep hSteps rfl rfl (by rw [hDriver]; rfl)
  | seekGoesOn hDriver => exact h.keep hSteps rfl rfl (by rw [hDriver])
  | @reads request i min info inner x hDriver hInfo hStep =>
      refine h.keep hSteps rfl (settle_impl n request i min info x).2.1 ?_
      rw [settle_asking]
      rcases hDriver with ⟨hDriver, _⟩ | ⟨hDriver, _⟩ <;> simp [hDriver, DriverPc.asking]
  | stops hDriver =>
      refine h.keep hSteps rfl rfl ?_
      rcases hDriver with ⟨hDriver, _⟩ | ⟨hDriver, _⟩ <;> simp [hDriver, DriverPc.asking]

theorem run_asked {guard : Driven → Act → Prop}
    (run : Run (Driven.step cfg) guard (Driven.opened cfg) acts n) : Asked acts n := by
  induction run with
  | nil => exact ⟨[], rfl, rfl, by simp⟩
  | snoc prior meets last ih => exact asked_moves ih (moves_of_step last)

end Asked

/-- No sample read before a seek is exposed after it. -/
theorem run_noStaleSample {cfg : Config} {acts : List Act} {n : Driven}
    (run : Run (Driven.step cfg) SeekRange (Driven.opened cfg) acts n)
    (hOutside : n.driver ≠ .seek) : NoStaleSample cfg acts n := by
  have hPurging := run_purging run
  have hLinked := (run_linked run).1
  obtain ⟨inner, hInner, hSeeks⟩ := run_impl run
  have hCoherent := PPExtractor.run_coherent hInner
  have hFresh := PPExtractor.run_fresh hInner
  have hServed := PPExtractor.run_servedFresh hInner
  rw [hSeeks] at hServed
  have hIdle := hPurging.idle hOutside
  have hUnserved : n.mImpl.unserved = 0 := by
    simp [PPExtractor.State.unserved, hIdle, PPExtractor.SeekerPc.underWay]
  have hExposed := hPurging.exposed hOutside
  refine ⟨?_, ?_, fun t g hGroup b hMem => ?_, hPurging.tracks hOutside,
    fun e hMem => ⟨(hExposed e hMem).1, hLinked.shown e hMem⟩, fun hNever => ?_, fun hEnd => ?_⟩
  · simpa [hUnserved] using hServed.count
  · obtain ⟨passed, hTimes, hLength, hLast⟩ := run_asked run
    refine ⟨passed, hTimes, hLength, fun timeUs hMem => ?_⟩
    have hSome : 0 < n.seeks := by
      rw [hLength, List.length_pos_iff]
      rintro rfl
      simp at hMem
    obtain ⟨hTime, hToEnd⟩ := hServed.target hUnserved hSome
    dsimp only
    have hStart := startTime_eq hPurging.time
    rw [hLast timeUs hMem] at hStart
    rw [hTime, hToEnd, PPExtractor.State.seeksToEnd, ← hStart]
    exact ⟨rfl, Int.ofNat_le.symm⟩
  · refine hFresh.ring t ?_ g hGroup b hMem
    by_contra hDirty
    have hHolds := n.mImpl.producer.holdsLock_of_dirty (by simpa using hDirty)
    simpa [hIdle] using hCoherent.exclusive hHolds
  · exact (run_kept run hNever).answered
  · refine List.eq_nil_iff_forall_not_mem.mpr fun e hMem => ?_
    have hFrame := hExposed e hMem
    have hBefore := hFrame.lt_length
    have hAfter := hFrame.1
    have hLength := (hFresh.atEnd hEnd).2.1
    omega

/-- Select the video track, seek, read a frame and ask for its time and its bytes. -/
def seekAndShow : List Act :=
  [Act.selectTrack 0, Act.call (.seekTo 5000000)] ++ List.replicate 6 Act.driver ++
    List.replicate 11 Act.producer ++
    [Act.driver, Act.driver, Act.readSample (.sample PPExtractor.keyFrame) 2] ++
    List.replicate 4 Act.producer ++ [Act.call (.access .getSampleTime)] ++
    List.replicate 6 Act.driver ++ [Act.call (.access (.readSampleData 5))] ++
    List.replicate 2 Act.driver

theorem run_noStaleSample_seekAndShow : ∃ n,
    Run (Driven.step PPExtractor.twoTracks) SeekRange (Driven.opened PPExtractor.twoTracks)
      seekAndShow n ∧
    (n.driver ≠ .seek ∧ n.seeks = 1 ∧ n.mImpl.servedTime = 5000 ∧
      n.exposed.map Exposure.answer =
        [some (.sampleTime 40), some (.sampleData [0, 0, 0, 1, 101])]) ∧
    NoStaleSample PPExtractor.twoTracks seekAndShow n := by
  obtain ⟨n, run, hState⟩ := Run.exists_of_execGuarded
    (fun n : Driven => n.driver ≠ .seek ∧ n.seeks = 1 ∧ n.mImpl.servedTime = 5000 ∧
      n.exposed.map Exposure.answer =
        [some (.sampleTime 40), some (.sampleData [0, 0, 0, 1, 101])])
    (show (execGuarded (Driven.step PPExtractor.twoTracks) SeekRange
      (Driven.opened PPExtractor.twoTracks) seekAndShow).any _ = true by decide)
  exact ⟨n, run, hState, run_noStaleSample run hState.1⟩

end Meet.NuPPMediaExtractor
