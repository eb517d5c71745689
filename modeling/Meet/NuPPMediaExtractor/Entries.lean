import Mathlib.Data.List.Nodup
import Meet.NuPPMediaExtractor.Threads
import Meet.PPExtractor.Contents

/-! The entries of `mSelectedTracks` and the rings below them. An entry has the only frame of its
track that is out, and what calls tell about it is what the read of this frame has returned. -/
namespace Meet.NuPPMediaExtractor

open PPExtractor (Config Track Contents FrameOf PayloadOf ReleasesInOrder)

/-- The entry that the driving thread works on, and that has no sample then. -/
def DriverPc.emptied : DriverPc → Option Nat
  | .read _ i _ | .stop i | .stopping i => some i
  | .idle | .fetch _ _ _ | .seek => none

/-- The answer of a call says what a sample says. -/
def Answer.Tells (cfg : Config) (sample : PPExtractor.Sample) : Answer → Prop
  | .trackIndex index => index = sample.streamIndex
  | .sampleTime sampleTimeUs => sampleTimeUs = sample.startTime
  | .sampleMeta kKeyTime kKeyIsSyncFrame =>
      kKeyTime = sample.startTime ∧ kKeyIsSyncFrame = sample.isSync
  | .sampleData bytes =>
      ∃ t, cfg.trackOf sample.streamIndex = some t ∧ sample.ConvertsTo cfg bytes t
  | .endOfStream | .advanced _ _ | .noMemory | .nullSample => False

/-- What has been shown of a frame is what its read has returned. -/
def Exposure.Faithful (cfg : Config) (reads : List PPExtractor.ReadResult) (e : Exposure) : Prop :=
  ∃ sample, reads[e.sample.origin]? = some (.sample sample) ∧
    ∀ answer ∈ e.answer, answer.Tells cfg sample

/-- The entries are of different tracks, hold all frames that are out, and tell the time, the
flag and the track of the read of their sample. -/
structure Linked (cfg : Config) (n : Driven) : Prop where
  track : ∀ info ∈ n.mSelectedTracks, getTrack cfg info.mTrackIndex = some info.mSource
  distinct : (n.mSelectedTracks.map TrackInfo.mSource).Nodup
  emptied : ∀ i info, n.driver.emptied = some i → n.mSelectedTracks[i]? = some info →
    info.mSample = none
  held : ∀ t, ∀ b ∈ n.mImpl.held t, n.mImpl.held t = [b] ∧
    ∃ info ∈ n.mSelectedTracks, info.mSource = t ∧ info.mSample = some b
  told : ∀ info ∈ n.mSelectedTracks, ∀ b ∈ info.mSample, info.mSampleTimeUs = b.kKeyTime ∧
    FrameOf cfg n.mImpl.reads info.mSource b
  shown : ∀ e ∈ n.exposed, e.Faithful cfg n.mImpl.reads

theorem purge_mSample (info : TrackInfo Track MediaBuffer) : info.purge.mSample = none := by
  cases hSample : info.mSample <;> simp [TrackInfo.purge, TrackInfo.drop, hSample]

theorem set_eq_self {α : Type} {xs : List α} {i : Nat} {x : α} (h : xs[i]? = some x) :
    xs.set i x = xs := by
  obtain ⟨hInside, rfl⟩ := List.getElem?_eq_some_iff.mp h
  exact List.set_getElem_self hInside

section Tracks

variable {cfg : Config}

theorem getTrack_inj {i j : Nat} {t : Track} (hFirst : getTrack cfg i = some t)
    (hSecond : getTrack cfg j = some t) : i = j := by
  unfold getTrack at hFirst hSecond
  grind

/-- The index of an entry is that of the stream whose samples it gets. -/
theorem eq_of_trackOf {index streamIndex : Nat} {t : Track}
    (hTrack : getTrack cfg index = some t) (hStream : cfg.trackOf streamIndex = some t) :
    index = streamIndex := by
  unfold getTrack at hTrack
  unfold PPExtractor.Config.trackOf at hStream
  grind

theorem Exposure.Faithful.mono {reads reads' : List PPExtractor.ReadResult} {e : Exposure}
    (h : e.Faithful cfg reads) (hReads : reads <+: reads') : e.Faithful cfg reads' := by
  obtain ⟨sample, hRead, hTells⟩ := h
  obtain ⟨more, rfl⟩ := hReads
  refine ⟨sample, ?_, hTells⟩
  rw [List.getElem?_append_left (List.getElem?_eq_some_iff.mp hRead).1]
  exact hRead

end Tracks

theorem linked_opened (cfg : Config) : Linked cfg (Driven.opened cfg) := by
  have hHeld : (Driven.opened cfg).mImpl.held = fun _ => [] :=
    PPExtractor.held_step rfl (opened_impl cfg)
  refine ⟨by simp [Driven.opened], by simp [Driven.opened], by simp [Driven.opened], ?_,
    by simp [Driven.opened], by simp [Driven.opened]⟩
  simp [hHeld]

section Invariant

variable {cfg : Config} {n n' : Driven}

/-- Two entries of one track are the same entry. -/
theorem Linked.eq_of_mSource (h : Linked cfg n) {first second : TrackInfo Track MediaBuffer}
    (hFirst : first ∈ n.mSelectedTracks) (hSecond : second ∈ n.mSelectedTracks)
    (hSame : first.mSource = second.mSource) : first = second :=
  List.inj_on_of_nodup_map h.distinct hFirst hSecond hSame

/-- No frame of the track of an entry without a sample is out. -/
theorem Linked.held_eq_nil (h : Linked cfg n) {info : TrackInfo Track MediaBuffer}
    (hInfo : info ∈ n.mSelectedTracks) (hSample : info.mSample = none) :
    n.mImpl.held info.mSource = [] := by
  refine List.eq_nil_iff_forall_not_mem.mpr fun b hMem => ?_
  obtain ⟨_, other, hOther, hSource, hHolds⟩ := h.held info.mSource b hMem
  obtain rfl := h.eq_of_mSource hOther hInfo hSource
  simp [hSample] at hHolds

/-- Steps that leave the entries alone. -/
theorem Linked.keep (h : Linked cfg n) (hTracks : n'.mSelectedTracks = n.mSelectedTracks)
    (hHeld : ∀ t, n'.mImpl.held t = n.mImpl.held t ∨ n'.mImpl.held t = [])
    (hReads : n.mImpl.reads <+: n'.mImpl.reads)
    (hEmptied : ∀ i info, n'.driver.emptied = some i → n.mSelectedTracks[i]? = some info →
      info.mSample = none)
    (hExposed : ∀ e ∈ n'.exposed, e ∈ n.exposed ∨ e.Faithful cfg n'.mImpl.reads) :
    Linked cfg n' := by
  refine ⟨?_, ?_, ?_, fun t b hMem => ?_, fun info hInfo b hSample => ?_, fun e hMem => ?_⟩
  · rw [hTracks]
    exact h.track
  · rw [hTracks]
    exact h.distinct
  · rw [hTracks]
    exact hEmptied
  · rcases hHeld t with hSame | hNone
    · rw [hSame, hTracks]
      exact h.held t b (hSame ▸ hMem)
    · simp [hNone] at hMem
  · rw [hTracks] at hInfo
    obtain ⟨hTime, hFrame⟩ := h.told info hInfo b hSample
    exact ⟨hTime, hFrame.mono hReads⟩
  · rcases hExposed e hMem with hOld | hNew
    · exact (h.shown e hOld).mono hReads
    · exact hNew

/-- A step that changes one entry together with what is out of its track. -/
theorem Linked.replace (h : Linked cfg n) {i : Nat} {info info' : TrackInfo Track MediaBuffer}
    (hInfo : n.mSelectedTracks[i]? = some info)
    (hTracks : n'.mSelectedTracks = n.mSelectedTracks.set i info')
    (hSource : info'.mSource = info.mSource) (hIndex : info'.mTrackIndex = info.mTrackIndex)
    (hHeld : n'.mImpl.held =
      Function.update n.mImpl.held info.mSource info'.mSample.toList)
    (hReads : n.mImpl.reads <+: n'.mImpl.reads)
    (hTold : ∀ b ∈ info'.mSample, info'.mSampleTimeUs = b.kKeyTime ∧
      FrameOf cfg n'.mImpl.reads info.mSource b)
    (hEmptied : ∀ k, n'.driver.emptied = some k → k = i ∧ info'.mSample = none)
    (hExposed : n'.exposed = n.exposed) : Linked cfg n' := by
  have hInside : i < n.mSelectedTracks.length := (List.getElem?_eq_some_iff.mp hInfo).1
  have hMem : info ∈ n.mSelectedTracks := List.mem_of_getElem? hInfo
  have hNew : info' ∈ n'.mSelectedTracks := by
    rw [hTracks]
    exact List.mem_set hInside info'
  have hSources : n'.mSelectedTracks.map TrackInfo.mSource =
      n.mSelectedTracks.map TrackInfo.mSource := by
    rw [hTracks, List.map_set, hSource]
    exact set_eq_self (by simp [hInfo])
  have hCases : ∀ other ∈ n'.mSelectedTracks, other = info' ∨ other ∈ n.mSelectedTracks := by
    intro other hOther
    rw [hTracks] at hOther
    exact (List.mem_or_eq_of_mem_set hOther).symm
  refine ⟨fun other hOther => ?_, hSources ▸ h.distinct, fun k other hHere hOther => ?_,
    fun t b hOut => ?_, fun other hOther b hSample => ?_, fun e hShown => ?_⟩
  · rcases hCases other hOther with rfl | hOld
    · rw [hIndex, hSource]
      exact h.track info hMem
    · exact h.track other hOld
  · obtain ⟨rfl, hNone⟩ := hEmptied k hHere
    rw [hTracks, List.getElem?_set_self hInside] at hOther
    obtain rfl := Option.some.inj hOther
    exact hNone
  · rw [hHeld] at hOut ⊢
    by_cases hHere : t = info.mSource
    · subst hHere
      rw [Function.update_self] at hOut ⊢
      have hSome : info'.mSample = some b := by simpa using hOut
      exact ⟨by simp [hSome], info', hNew, hSource, hSome⟩
    · rw [Function.update_of_ne hHere] at hOut ⊢
      obtain ⟨hOne, other, hOther, hTrack, hSample⟩ := h.held t b hOut
      refine ⟨hOne, other, ?_, hTrack, hSample⟩
      obtain ⟨k, hAt⟩ := List.mem_iff_getElem?.mp hOther
      have hElse : i ≠ k := by
        rintro rfl
        obtain rfl := Option.some.inj (hInfo.symm.trans hAt)
        exact hHere hTrack.symm
      rw [hTracks]
      exact List.mem_of_getElem? ((List.getElem?_set_ne hElse).trans hAt)
  · rcases hCases other hOther with rfl | hOld
    · rw [hSource]
      exact hTold b hSample
    · obtain ⟨hTime, hFrame⟩ := h.told other hOld b hSample
      exact ⟨hTime, hFrame.mono hReads⟩
  · rw [hExposed] at hShown
    exact (h.shown e hShown).mono hReads

/-- An entry gives back the only frame of its track that is out. -/
theorem Linked.releases (h : Linked cfg n) {i : Nat} {info : TrackInfo Track MediaBuffer}
    {x : PPExtractor.State} (hInfo : n.mSelectedTracks[i]? = some info)
    (hRelease : releaseSample cfg n.mImpl info = some x) :
    x.held = Function.update n.mImpl.held info.mSource [] ∧ n.mImpl.reads <+: x.reads ∧
      (x = n.mImpl ∨ ∃ inner, PPExtractor.step cfg n.mImpl inner = some x ∧
        ReleasesInOrder n.mImpl inner) := by
  have hMem : info ∈ n.mSelectedTracks := List.mem_of_getElem? hInfo
  unfold releaseSample at hRelease
  cases hSample : info.mSample with
  | none =>
      simp only [hSample] at hRelease
      obtain rfl := Option.some.inj hRelease
      refine ⟨?_, List.prefix_refl _, Or.inl rfl⟩
      rw [← h.held_eq_nil hMem hSample, Function.update_eq_self]
  | some b =>
      simp only [hSample] at hRelease
      split_ifs at hRelease with hOut
      · have hOne := (h.held info.mSource b hOut).1
        have hFirst : (n.mImpl.held info.mSource).idxOf b = 0 := by simp [hOne]
        rw [hFirst] at hRelease
        refine ⟨?_, PPExtractor.reads_step hRelease, Or.inr ⟨_, hRelease, rfl⟩⟩
        rw [PPExtractor.held_release hRelease, hOne]
        rfl
      · refine ⟨?_, PPExtractor.reads_step hRelease, Or.inr ⟨_, hRelease, trivial⟩⟩
        have hNone : n.mImpl.held info.mSource = [] := by
          refine List.eq_nil_iff_forall_not_mem.mpr fun c hThere => ?_
          obtain ⟨_, other, hOther, hSource, hHolds⟩ := h.held info.mSource c hThere
          obtain rfl := h.eq_of_mSource hOther hMem hSource
          obtain rfl := Option.some.inj (hSample.symm.trans hHolds)
          exact hOut hThere
        rw [PPExtractor.held_step rfl hRelease, ← hNone, Function.update_eq_self]

/-- A call that releases the sample of an entry. -/
theorem Linked.drops (h : Linked cfg n) {i : Nat} {info info' : TrackInfo Track MediaBuffer}
    {x : PPExtractor.State} {driver : DriverPc} (hInfo : n.mSelectedTracks[i]? = some info)
    (hRelease : releaseSample cfg n.mImpl info = some x)
    (hSource : info'.mSource = info.mSource) (hIndex : info'.mTrackIndex = info.mTrackIndex)
    (hSample : info'.mSample = none) (hEmptied : ∀ k, driver.emptied = some k → k = i) :
    Linked cfg { n with
      mImpl := x, mSelectedTracks := n.mSelectedTracks.set i info', driver := driver } := by
  obtain ⟨hHeld, hReads, -⟩ := h.releases hInfo hRelease
  refine h.replace hInfo rfl hSource hIndex ?_ hReads (by simp [hSample])
    (fun k hHere => ⟨hEmptied k hHere, hSample⟩) rfl
  rw [hSample]
  exact hHeld

theorem linked_select {index : Nat} {t : Track} {x : PPExtractor.State} (h : Linked cfg n)
    (hIdle : n.driver = .idle) (hNew : ∀ info ∈ n.mSelectedTracks, info.mTrackIndex ≠ index)
    (hTrack : getTrack cfg index = some t)
    (hStep : PPExtractor.step cfg n.mImpl .start = some x) :
    Linked cfg { n with
      mImpl := x, mSelectedTracks := n.mSelectedTracks ++ [TrackInfo.selected t index] } := by
  have hHeld := PPExtractor.held_step rfl hStep
  have hReads := PPExtractor.reads_step hStep
  refine ⟨fun info hInfo => ?_, ?_, by simp [hIdle, DriverPc.emptied], fun u b hOut => ?_,
    fun info hInfo b hSample => ?_, fun e hShown => (h.shown e hShown).mono hReads⟩
  · simp only [List.mem_append, List.mem_singleton] at hInfo
    rcases hInfo with hInfo | rfl
    · exact h.track info hInfo
    · exact hTrack
  · dsimp only
    rw [List.map_append, List.map_singleton, List.nodup_append]
    refine ⟨h.distinct, List.nodup_singleton _, ?_⟩
    intro u hOld v hLast hSame
    obtain rfl : v = t := by simpa [TrackInfo.selected] using hLast
    obtain ⟨info, hInfo, rfl⟩ := List.mem_map.mp hOld
    exact hNew info hInfo (getTrack_inj (h.track info hInfo) (hSame ▸ hTrack))
  · rw [hHeld] at hOut ⊢
    obtain ⟨hOne, info, hInfo, hBoth⟩ := h.held u b hOut
    exact ⟨hOne, info, List.mem_append_left _ hInfo, hBoth⟩
  · simp only [List.mem_append, List.mem_singleton] at hInfo
    rcases hInfo with hInfo | rfl
    · obtain ⟨hTime, hFrame⟩ := h.told info hInfo b hSample
      exact ⟨hTime, hFrame.mono hReads⟩
    · simp [TrackInfo.selected] at hSample

/-- What a read leaves of an entry without a sample: the frame that it has returned, taken from
the group, or still none. -/
structure Settles (n n' : Driven) (i : Nat) (info info' : TrackInfo Track MediaBuffer) :
    Prop where
  tracks : n'.mSelectedTracks = n.mSelectedTracks.set i info'
  source : info'.mSource = info.mSource
  index : info'.mTrackIndex = info.mTrackIndex
  held : n'.mImpl.held = Function.update n.mImpl.held info.mSource info'.mSample.toList
  taken : ∀ b ∈ info'.mSample, info'.mSampleTimeUs = b.kKeyTime ∧
    ∃ g, n.mImpl.group info.mSource = some g ∧ b ∈ g.frames
  emptied : ∀ k, n'.driver.emptied = some k → k = i ∧ info'.mSample = none
  stays : ∀ k, n'.driver ≠ .stop k ∧ n'.driver ≠ .stopping k
  exposed : n'.exposed = n.exposed

theorem Linked.settles {request : Request} {i : Nat} {min : Option (Nat × Int)}
    {info : TrackInfo Track MediaBuffer} {inner : PPExtractor.Act} {x : PPExtractor.State}
    (h : Linked cfg n) (hInfo : n.mSelectedTracks[i]? = some info) (hSample : info.mSample = none)
    (hInner : inner = .read info.mSource ∨ inner = .reader info.mSource)
    (hStep : PPExtractor.step cfg n.mImpl inner = some x) :
    ∃ info', Settles n (settle n request i min info x) i info info' := by
  have hFree := h.held_eq_nil (List.mem_of_getElem? hInfo) hSample
  have hCases : (x.held = n.mImpl.held ∧ ∀ b, x.reader info.mSource ≠ .returned (.frame b)) ∨
      ∃ g b, n.mImpl.group info.mSource = some g ∧ b ∈ g.frames ∧
        x.reader info.mSource = .returned (.frame b) ∧
        x.held = Function.update n.mImpl.held info.mSource (n.mImpl.held info.mSource ++ [b]) := by
    rcases hInner with rfl | rfl
    · exact Or.inl ⟨PPExtractor.held_step rfl hStep, PPExtractor.reader_read hStep⟩
    · exact PPExtractor.held_reader hStep
  rcases hCases with ⟨hHeld, hNone⟩ | ⟨g, b, hGroup, hMem, hTaken, hHeld⟩
  · have hSame : x.held = Function.update n.mImpl.held info.mSource info.mSample.toList := by
      rw [hHeld, hSample, Option.toList_none, ← hFree, Function.update_eq_self]
    have hNever : ∀ b ∈ info.mSample, info.mSampleTimeUs = b.kKeyTime ∧
        ∃ g, n.mImpl.group info.mSource = some g ∧ b ∈ g.frames := by simp [hSample]
    unfold settle
    split
    case h_1 b hReturned => exact absurd hReturned (hNone b)
    case h_2 =>
      refine ⟨info.fail .errorEndOfStream, rfl, rfl, rfl, hSame, ?_, ?_, by simp, rfl⟩ <;>
        simp [TrackInfo.fail, hSample, DriverPc.emptied]
    case h_3 =>
      refine ⟨info.fail (.other (-1004)), rfl, rfl, rfl, hSame, ?_, ?_, by simp, rfl⟩ <;>
        simp [TrackInfo.fail, hSample, DriverPc.emptied]
    case h_4 =>
      refine ⟨info, (set_eq_self hInfo).symm, rfl, rfl, hSame, hNever, ?_, by simp, rfl⟩
      rintro k hHere
      exact ⟨by simpa [DriverPc.emptied] using hHere.symm, hSample⟩
  · rw [hFree] at hHeld
    unfold settle
    rw [hTaken]
    refine ⟨info.hold b b.kKeyTime, rfl, rfl, rfl, hHeld, ?_, by simp [DriverPc.emptied], by simp,
      rfl⟩
    rintro c hHolds
    obtain rfl : b = c := by simpa [TrackInfo.hold] using hHolds
    exact ⟨rfl, g, hGroup, hMem⟩

theorem linked_reads {request : Request} {i : Nat} {min : Option (Nat × Int)}
    {info : TrackInfo Track MediaBuffer} {inner : PPExtractor.Act} {x : PPExtractor.State}
    (h : Linked cfg n) (hContents : Contents cfg n.mImpl)
    (hInfo : n.mSelectedTracks[i]? = some info) (hSample : info.mSample = none)
    (hInner : inner = .read info.mSource ∨ inner = .reader info.mSource)
    (hStep : PPExtractor.step cfg n.mImpl inner = some x) :
    Linked cfg (settle n request i min info x) := by
  obtain ⟨info', hSettles⟩ := h.settles hInfo hSample hInner hStep
  have hReads : n.mImpl.reads <+: (settle n request i min info x).mImpl.reads := by
    rw [(settle_impl n request i min info x).1]
    exact PPExtractor.reads_step hStep
  refine h.replace hInfo hSettles.tracks hSettles.source hSettles.index hSettles.held hReads
    (fun b hHolds => ?_) hSettles.emptied hSettles.exposed
  obtain ⟨hTime, g, hGroup, hMem⟩ := hSettles.taken b hHolds
  have hTold := (hContents.stored _ g hGroup).told b (List.mem_append_right _ hMem)
  exact ⟨hTime, hTold.frameOf.mono hReads⟩

/-- What a call tells about the sample of an entry is what its read has returned. -/
theorem Linked.faithful (h : Linked cfg n) (hContents : Contents cfg n.mImpl)
    {info : TrackInfo Track MediaBuffer} {b : MediaBuffer} {answer : Option Answer}
    (hInfo : info ∈ n.mSelectedTracks) (hSample : info.mSample = some b)
    (hAnswer : Answers n.mImpl info b answer) :
    Exposure.Faithful cfg n.mImpl.reads ⟨b, answer⟩ := by
  obtain ⟨hTime, sample, hRead⟩ := h.told info hInfo b hSample
  cases hAnswer with
  | trackIndex =>
      refine ⟨sample, hRead.read, ?_⟩
      rintro _ ⟨⟩
      exact eq_of_trackOf (h.track info hInfo) hRead.track
  | sampleTime =>
      refine ⟨sample, hRead.read, ?_⟩
      rintro _ ⟨⟩
      exact hTime.trans hRead.time.symm
  | sampleMeta =>
      refine ⟨sample, hRead.read, ?_⟩
      rintro _ ⟨⟩
      exact ⟨hRead.time.symm, hRead.sync.symm⟩
  | sampleData =>
      refine ⟨sample, hRead.read, fun answer hSome => ?_⟩
      obtain ⟨bytes, hBytes, rfl⟩ := Option.map_eq_some_iff.mp hSome
      unfold readFrame at hBytes
      split_ifs at hBytes with hOut
      obtain ⟨g, hGroup, rfl⟩ := Option.map_eq_some_iff.mp hBytes
      obtain ⟨copied, hCopied, hData⟩ :=
        (hContents.stored _ g hGroup).told b (List.mem_append_left _ hOut)
      obtain rfl : copied = sample := by
        simpa using hCopied.read.symm.trans hRead.read
      exact ⟨info.mSource, hRead.track, hData⟩

/-- At the end of `unselectTrack` the entry that goes has no sample. -/
theorem linked_stopReturns {i : Nat} (h : Linked cfg n) (hDriver : n.driver = .stopping i) :
    Linked cfg { n with
      mSelectedTracks := n.mSelectedTracks.eraseIdx i, driver := .idle } := by
  have hSub : ∀ info ∈ n.mSelectedTracks.eraseIdx i, info ∈ n.mSelectedTracks :=
    fun info hMem => List.mem_of_mem_eraseIdx hMem
  refine ⟨fun info hInfo => h.track info (hSub info hInfo), ?_, by simp [DriverPc.emptied],
    fun t b hOut => ?_, fun info hInfo => h.told info (hSub info hInfo), h.shown⟩
  · exact h.distinct.sublist ((List.eraseIdx_sublist _ _).map _)
  · obtain ⟨hOne, info, hInfo, hSource, hSample⟩ := h.held t b hOut
    refine ⟨hOne, info, ?_, hSource, hSample⟩
    obtain ⟨k, hAt⟩ := List.mem_iff_getElem?.mp hInfo
    refine List.mem_eraseIdx_iff_getElem?.mpr ⟨k, ?_, hAt⟩
    rintro rfl
    simp [h.emptied k info (by simp [hDriver, DriverPc.emptied]) hAt] at hSample

theorem linked_moves {act : Act} (hContents : Contents cfg n.mImpl) (h : Linked cfg n)
    (hMoves : Moves cfg n act n') : Linked cfg n' := by
  have hSteps : ∀ {inner x}, PPExtractor.Act.movesFrames inner = false →
      PPExtractor.step cfg n.mImpl inner = some x → ∀ {driver seeks exposed},
      (∀ i info, DriverPc.emptied driver = some i → n.mSelectedTracks[i]? = some info →
        info.mSample = none) → (∀ e ∈ exposed, e ∈ n.exposed) →
      Linked cfg ⟨x, n.mSelectedTracks, driver, exposed, seeks⟩ := by
    intro inner x hInner hStep driver seeks exposed hEmptied hExposed
    exact h.keep rfl (fun t => Or.inl (congrFun (PPExtractor.held_step hInner hStep) t))
      (PPExtractor.reads_step hStep) hEmptied fun e hMem => Or.inl (hExposed e hMem)
  have hSame : ∀ {driver exposed}, DriverPc.emptied driver = none →
      (∀ e ∈ exposed, e ∈ n.exposed ∨ Exposure.Faithful cfg n.mImpl.reads e) →
      Linked cfg ⟨n.mImpl, n.mSelectedTracks, driver, exposed, n.seeks⟩ := by
    intro driver exposed hNone hExposed
    exact h.keep rfl (fun _ => Or.inl rfl) (List.prefix_refl _) (by simp [hNone]) hExposed
  cases hMoves with
  | @produce act inner x hAct hStep =>
      refine hSteps ?_ hStep h.emptied fun _ => id
      cases act <;> simp only [Act.produced, Option.some.injEq, reduceCtorEq] at hAct <;>
        subst hAct <;> rfl
  | selectNothing | unselectNothing => exact h
  | select hIdle hNew hTrack hStep => exact linked_select h hIdle hNew hTrack hStep
  | @unselect index i info x hIdle hInfo hRelease =>
      refine h.drops hInfo hRelease ?_ ?_ ?_ (by simp [DriverPc.emptied])
      · split_ifs <;> rfl
      · split_ifs <;> rfl
      · split_ifs with hSample
        · rfl
        · simpa using hSample
  | call hIdle => exact hSame rfl fun _ => Or.inl
  | @purge request i min info x hDriver hInfo hPurges hRelease =>
      refine h.drops hInfo hRelease ?_ ?_ ?_ (by simp [DriverPc.emptied])
      · unfold TrackInfo.purge
        split_ifs <;> rfl
      · unfold TrackInfo.purge
        split_ifs <;> rfl
      · exact purge_mSample info
  | skip hDriver hInfo hPurges hSkip => exact hSame rfl fun _ => Or.inl
  | @reads request i min info inner x hDriver hInfo hStep =>
      rcases hDriver with ⟨-, hInner, -, -, hSample⟩ | ⟨hDriver, hInner⟩
      · exact linked_reads h hContents hInfo hSample (Or.inl hInner) hStep
      · have hSample := h.emptied i info (by simp [hDriver, DriverPc.emptied]) hInfo
        exact linked_reads h hContents hInfo hSample (Or.inr hInner) hStep
  | seekStarts hDriver hEnd hStep =>
      exact hSteps rfl hStep (by simp [DriverPc.emptied]) fun _ => id
  | showsNothing hDriver hEnd => exact hSame rfl fun _ => Or.inl
  | advances hDriver hEnd hInfo hRelease =>
      exact h.drops hInfo hRelease rfl rfl rfl (by simp [DriverPc.emptied])
  | @exposes call i minIndex time info b answer hDriver hEnd hInfo hSample hAnswer =>
      refine hSame rfl fun e hMem => ?_
      simp only [List.mem_append, List.mem_singleton] at hMem
      rcases hMem with hOld | rfl
      · exact Or.inl hOld
      · exact Or.inr (h.faithful hContents (List.mem_of_getElem? hInfo) hSample hAnswer)
  | seekGoesOn hDriver hStep =>
      exact hSteps rfl hStep (by simp [DriverPc.emptied]) fun _ => id
  | seekReturns hDriver hIdle => exact hSame rfl (by simp)
  | @stops i inner x hDriver hStep =>
      have hEmptied : ∀ k info, some i = some k → n.mSelectedTracks[k]? = some info →
          info.mSample = none := by
        rintro k info hHere
        refine h.emptied k info ?_
        rcases hDriver with ⟨hDriver, _⟩ | ⟨hDriver, _⟩ <;>
          simpa [hDriver, DriverPc.emptied] using hHere
      rcases hDriver with ⟨-, rfl⟩ | ⟨-, rfl⟩
      · exact hSteps rfl hStep hEmptied fun _ => id
      · exact h.keep rfl (PPExtractor.held_control hStep) (PPExtractor.reads_step hStep) hEmptied
          fun _ => Or.inl
  | stopReturns hDriver hIdle => exact linked_stopReturns h hDriver

/-- What the callers of the extractor have to promise, the driving thread does. -/
theorem contents_moves {act : Act} (hCoherent : PPExtractor.Coherent n.mImpl)
    (hCleared : ∀ t, n.mImpl.producer = .seekClear t → n.mImpl.held t = []) (h : Linked cfg n)
    (hContents : Contents cfg n.mImpl) (hMoves : Moves cfg n act n') : Contents cfg n'.mImpl := by
  have hSteps : ∀ {inner x}, PPExtractor.step cfg n.mImpl inner = some x →
      ReleasesInOrder n.mImpl inner → Contents cfg x := fun hStep hGuard =>
    PPExtractor.contents_step hCoherent hContents hGuard hStep
  have hReleases : ∀ {i : Nat} {info x}, n.mSelectedTracks[i]? = some info →
      releaseSample cfg n.mImpl info = some x → Contents cfg x := by
    intro i info x hInfo hRelease
    rcases (h.releases hInfo hRelease).2.2 with rfl | ⟨inner, hStep, hGuard⟩
    · exact hContents
    · exact hSteps hStep hGuard
  cases hMoves with
  | @produce act inner x hAct hStep =>
      refine hSteps hStep ?_
      cases act <;> simp only [Act.produced, Option.some.injEq, reduceCtorEq] at hAct <;> subst hAct
      · exact hCleared
      · trivial
      · trivial
  | select _ _ _ hStep => exact hSteps hStep trivial
  | unselect _ hInfo hRelease | purge _ hInfo _ hRelease | advances _ _ hInfo hRelease =>
      exact hReleases hInfo hRelease
  | @reads request i min info inner x hDriver hInfo hStep =>
      rw [(settle_impl n request i min info x).1]
      refine hSteps hStep ?_
      rcases hDriver with ⟨-, rfl, -⟩ | ⟨-, rfl⟩ <;> trivial
  | seekStarts _ _ hStep | seekGoesOn _ hStep => exact hSteps hStep trivial
  | stops hDriver hStep =>
      refine hSteps hStep ?_
      rcases hDriver with ⟨-, rfl⟩ | ⟨-, rfl⟩ <;> trivial
  | selectNothing | unselectNothing | call | skip | showsNothing | exposes | seekReturns
  | stopReturns => exact hContents

end Invariant

/-- Without `unselectTrack` the groups stay: every sample of an entry is still out of its ring, and
every call is answered. -/
structure Kept (n : Driven) : Prop where
  out : ∀ info ∈ n.mSelectedTracks, ∀ b ∈ info.mSample, b ∈ n.mImpl.held info.mSource
  stays : ∀ i, n.driver ≠ .stop i ∧ n.driver ≠ .stopping i
  answered : ∀ e ∈ n.exposed, e.answer.isSome = true

section Kept

variable {cfg : Config} {n n' : Driven}

theorem kept_opened (cfg : Config) : Kept (Driven.opened cfg) := by
  constructor <;> simp [Driven.opened]

/-- One entry changes together with what is out of its track. -/
theorem Kept.replace (h : Kept n) (hLinked : Linked cfg n) {i : Nat}
    {info info' : TrackInfo Track MediaBuffer} (hInfo : n.mSelectedTracks[i]? = some info)
    (hTracks : n'.mSelectedTracks = n.mSelectedTracks.set i info')
    (hSource : info'.mSource = info.mSource)
    (hHeld : n'.mImpl.held = Function.update n.mImpl.held info.mSource info'.mSample.toList)
    (hStays : ∀ k, n'.driver ≠ .stop k ∧ n'.driver ≠ .stopping k)
    (hExposed : n'.exposed = n.exposed) : Kept n' := by
  refine ⟨fun other hOther b hSample => ?_, hStays, hExposed ▸ h.answered⟩
  rw [hTracks] at hOther
  rw [hHeld]
  obtain ⟨k, hInside, hAt⟩ := List.mem_iff_getElem.mp hOther
  rw [List.getElem_set] at hAt
  split_ifs at hAt with hHere
  · subst hAt
    have hSome : info'.mSample = some b := hSample
    simp [hSource, hSome]
  · have hOld : n.mSelectedTracks[k]? = some other := by
      rw [List.length_set] at hInside
      exact List.getElem?_eq_some_iff.mpr ⟨hInside, hAt⟩
    have hElse : other.mSource ≠ info.mSource := by
      intro hSame
      have hFirst := (List.getElem?_eq_some_iff.mp hInfo).1
      have hSources : (n.mSelectedTracks.map TrackInfo.mSource)[i]? =
          (n.mSelectedTracks.map TrackInfo.mSource)[k]? := by
        simp [List.getElem?_map, hInfo, hOld, hSame]
      exact hHere ((List.getElem?_inj (by simpa using hFirst) hLinked.distinct).mp hSources)
    rw [Function.update_of_ne hElse]
    exact h.out other (List.mem_of_getElem? hOld) b hSample

/-- Steps that leave the entries and what is out alone. -/
theorem Kept.keep (h : Kept n) (hTracks : n'.mSelectedTracks = n.mSelectedTracks)
    (hHeld : n'.mImpl.held = n.mImpl.held)
    (hStays : ∀ k, n'.driver ≠ .stop k ∧ n'.driver ≠ .stopping k)
    (hExposed : ∀ e ∈ n'.exposed, e ∈ n.exposed ∨ e.answer.isSome = true) : Kept n' := by
  refine ⟨?_, hStays, fun e hMem => ?_⟩
  · rw [hTracks, hHeld]
    exact h.out
  · rcases hExposed e hMem with hOld | hSome
    · exact h.answered e hOld
    · exact hSome

theorem kept_drops (hLinked : Linked cfg n) (h : Kept n) {i : Nat}
    {info info' : TrackInfo Track MediaBuffer} {x : PPExtractor.State} {driver : DriverPc}
    (hInfo : n.mSelectedTracks[i]? = some info)
    (hRelease : releaseSample cfg n.mImpl info = some x)
    (hSource : info'.mSource = info.mSource) (hSample : info'.mSample = none)
    (hStays : ∀ k, driver ≠ .stop k ∧ driver ≠ .stopping k) :
    Kept { n with
      mImpl := x, mSelectedTracks := n.mSelectedTracks.set i info', driver := driver } := by
  refine h.replace hLinked hInfo rfl hSource ?_ hStays rfl
  rw [hSample]
  exact (hLinked.releases hInfo hRelease).1

/-- As long as the samples are out of their rings, every call is answered. -/
theorem Kept.answers (h : Kept n) (hContents : Contents cfg n.mImpl)
    {info : TrackInfo Track MediaBuffer} {b : MediaBuffer} {answer : Option Answer}
    (hInfo : info ∈ n.mSelectedTracks) (hSample : info.mSample = some b)
    (hAnswer : Answers n.mImpl info b answer) : answer.isSome = true := by
  cases hAnswer with
  | trackIndex | sampleTime | sampleMeta => rfl
  | sampleData =>
      have hOut := h.out info hInfo b hSample
      cases hGroup : n.mImpl.group info.mSource with
      | none => simp [hContents.absent _ hGroup] at hOut
      | some g => simp [readFrame, hOut, hGroup]

theorem kept_moves {act : Act} (hLinked : Linked cfg n) (hContents : Contents cfg n.mImpl)
    (h : Kept n) (hAct : ∀ index, act ≠ .unselectTrack index) (hMoves : Moves cfg n act n') :
    Kept n' := by
  have hSteps : ∀ {inner x}, PPExtractor.Act.movesFrames inner = false →
      PPExtractor.step cfg n.mImpl inner = some x → ∀ {driver seeks},
      (∀ k, driver ≠ .stop k ∧ driver ≠ .stopping k) →
      Kept ⟨x, n.mSelectedTracks, driver, n.exposed, seeks⟩ := by
    intro inner x hInner hStep driver seeks hStays
    exact h.keep rfl (PPExtractor.held_step hInner hStep) hStays fun _ => Or.inl
  cases hMoves with
  | @produce act inner x hProduced hStep =>
      refine hSteps ?_ hStep h.stays
      cases act <;> simp only [Act.produced, Option.some.injEq, reduceCtorEq] at hProduced <;>
        subst hProduced <;> rfl
  | selectNothing | unselectNothing => exact h
  | @select index t x hIdle hNew hTrack hStep =>
      refine ⟨fun info hInfo b hSample => ?_, h.stays, h.answered⟩
      simp only [List.mem_append, List.mem_singleton] at hInfo
      rw [PPExtractor.held_step rfl hStep]
      rcases hInfo with hInfo | rfl
      · exact h.out info hInfo b hSample
      · simp [TrackInfo.selected] at hSample
  | @unselect index => exact absurd rfl (hAct index)
  | call | skip | showsNothing => exact h.keep rfl rfl (by simp) fun _ => Or.inl
  | @purge request i min info x hDriver hInfo hPurges hRelease =>
      refine kept_drops hLinked h hInfo hRelease ?_ (purge_mSample info) (by simp)
      unfold TrackInfo.purge
      split_ifs <;> rfl
  | @reads request i min info inner x hDriver hInfo hStep =>
      have hBoth : info.mSample = none ∧
          (inner = .read info.mSource ∨ inner = .reader info.mSource) := by
        rcases hDriver with ⟨-, hInner, -, -, hSample⟩ | ⟨hDriver, hInner⟩
        · exact ⟨hSample, Or.inl hInner⟩
        · exact ⟨hLinked.emptied i info (by simp [hDriver, DriverPc.emptied]) hInfo, Or.inr hInner⟩
      obtain ⟨info', hSettles⟩ := hLinked.settles hInfo hBoth.1 hBoth.2 hStep
      exact h.replace hLinked hInfo hSettles.tracks hSettles.source hSettles.held hSettles.stays
        hSettles.exposed
  | seekStarts _ _ hStep | seekGoesOn _ hStep => exact hSteps rfl hStep (by simp)
  | advances hDriver hEnd hInfo hRelease =>
      exact kept_drops hLinked h hInfo hRelease rfl rfl (by simp)
  | @exposes call i minIndex time info b answer hDriver hEnd hInfo hSample hAnswer =>
      refine h.keep rfl rfl (by simp) fun e hMem => ?_
      simp only [List.mem_append, List.mem_singleton] at hMem
      rcases hMem with hOld | rfl
      · exact Or.inl hOld
      · exact Or.inr (h.answers hContents (List.mem_of_getElem? hInfo) hSample hAnswer)
  | seekReturns => exact h.keep rfl rfl (by simp) (by simp)
  | @stops i inner x hDriver =>
      rcases hDriver with ⟨hDriver, _⟩ | ⟨hDriver, _⟩
      · exact absurd hDriver (h.stays i).1
      · exact absurd hDriver (h.stays i).2
  | @stopReturns i hDriver => exact absurd hDriver (h.stays i).2

end Kept

end Meet.NuPPMediaExtractor
