import Meet.NuPPMediaExtractor.Threads
import Meet.PPExtractor.PreRoll
import Meet.PPExtractor.Pump

/-! The producer and the driving thread can wait for each other: one for room in
a group, the other for the pre-roll of the other group, which only the producer can
end. -/
namespace Meet.NuPPMediaExtractor

open PPExtractor (Config Track)

/-- The next call has to read from the track. -/
def Owes (tracks : List (TrackInfo Track MediaBuffer)) (t : Track) : Prop :=
  ∃ info ∈ tracks, info.mSource = t ∧ info.mFinalResult = .ok ∧ info.mSample = none

instance (tracks : List (TrackInfo Track MediaBuffer)) (t : Track) : Decidable (Owes tracks t) :=
  inferInstanceAs (Decidable (∃ info ∈ tracks, _ ∧ _ ∧ _))

/-- The next call has to read from the track and would wait for its pre-roll. -/
def Starving (n : Driven) (t : Track) : Prop :=
  Owes n.mSelectedTracks t ∧ n.mImpl.preRoll t = true

instance (n : Driven) (t : Track) : Decidable (Starving n t) := inferInstanceAs (Decidable (_ ∧ _))

/-- The producer waits for room in one group and the driving thread for the
pre-roll of the other. -/
def Deadlock (n : Driven) : Prop :=
  ∃ t : Track, n.mImpl.producer.waitsIn t = true ∧ n.mImpl.reader t.other = .asleep ∧
    n.mImpl.preRoll t.other = true

/-- The track whose sample the driving thread is about to release in `advance`. -/
def Driven.advancing (n : Driven) : Option Track :=
  match n.driver with
  | .fetch (.access .advance) i (some (minIndex, _)) =>
      if (n.mSelectedTracks[i]?).isNone then (n.mSelectedTracks[minIndex]?).map TrackInfo.mSource
      else none
  | _ => none

/-- Without seeks and stops: the producer runs out of room in a group only when
the next call need not wait for the pre-roll of the other group; and while it waits
there, a track in its pre-roll is neither selected nor advanced. -/
def RoomGuard (cfg : Config) (n : Driven) : Act → Prop
  | .call (.seekTo _) | .unselectTrack _ => False
  | .producer => ∀ t ∈ n.mImpl.outOfRoom, ¬ Starving n t.other
  | .selectTrack index => ∀ t ∈ getTrack cfg index,
      n.mImpl.producer.waitsIn t.other = true → n.mImpl.preRoll t = false
  | .driver => ∀ t ∈ n.advancing,
      n.mImpl.producer.waitsIn t.other = true → n.mImpl.preRoll t = false
  | .readSample _ _ | .spuriousWake | .call (.access _) => True

instance (cfg : Config) (n : Driven) (act : Act) : Decidable (RoomGuard cfg n act) :=
  match act with
  | .call (.seekTo _) | .unselectTrack _ => .isFalse id
  | .producer => inferInstanceAs (Decidable (∀ t ∈ n.mImpl.outOfRoom, _))
  | .selectTrack index => inferInstanceAs (Decidable (∀ t ∈ getTrack cfg index, _ → _))
  | .driver => inferInstanceAs (Decidable (∀ t ∈ n.advancing, _ → _))
  | .readSample _ _ | .spuriousWake | .call (.access _) => .isTrue trivial

/-- The entry that the driving thread reads. -/
def Reading (n : Driven) (t : Track) : Prop :=
  ∃ request i min info, n.driver = .read request i min ∧ n.mSelectedTracks[i]? = some info ∧
    info.mSource = t ∧ info.mFinalResult = .ok ∧ info.mSample = none

/-- The selected tracks are tracks of the extractor, each selected once. -/
structure Selected (cfg : Config) (tracks : List (TrackInfo Track MediaBuffer)) : Prop where
  tracked : ∀ info ∈ tracks, getTrack cfg info.mTrackIndex = some info.mSource
  distinct : (tracks.map TrackInfo.mTrackIndex).Nodup

structure Fed (cfg : Config) (n : Driven) : Prop where
  armed : PPExtractor.Armed n.mImpl
  accessing : n.driver = .idle ∨ ∃ call i min, n.driver = .fetch (.access call) i min ∨
    n.driver = .read (.access call) i min
  reading : ∀ t, (n.mImpl.reader t).active = true → Reading n t
  selected : Selected cfg n.mSelectedTracks
  fed : ∀ t : Track, n.mImpl.producer.waitsIn t = true → ¬ Starving n t.other

section Selected

variable {cfg : Config} {tracks : List (TrackInfo Track MediaBuffer)}

theorem getTrack_injective {i j : Nat} {t : Track} (hFirst : getTrack cfg i = some t)
    (hSecond : getTrack cfg j = some t) : i = j := by
  unfold getTrack at hFirst hSecond
  grind

/-- An entry is known by its track. -/
theorem Selected.unique (h : Selected cfg tracks) {i j : Nat}
    {info other : TrackInfo Track MediaBuffer} (hInfo : tracks[i]? = some info)
    (hOther : tracks[j]? = some other) (hSame : info.mSource = other.mSource) : i = j := by
  have hIndex : info.mTrackIndex = other.mTrackIndex := by
    refine getTrack_injective (h.tracked info (List.mem_of_getElem? hInfo)) ?_
    rw [hSame]
    exact h.tracked other (List.mem_of_getElem? hOther)
  have hBound := (List.getElem?_eq_some_iff.mp hInfo).1
  refine (List.getElem?_inj (by simpa using hBound) h.distinct).mp ?_
  simp [hInfo, hOther, hIndex]

theorem Selected.set (h : Selected cfg tracks) {i : Nat} {info new : TrackInfo Track MediaBuffer}
    (hInfo : tracks[i]? = some info) (hIndex : new.mTrackIndex = info.mTrackIndex)
    (hSource : new.mSource = info.mSource) : Selected cfg (tracks.set i new) := by
  refine ⟨fun other hMem => ?_, ?_⟩
  · rcases List.mem_or_eq_of_mem_set hMem with hOld | rfl
    · exact h.tracked other hOld
    · rw [hIndex, hSource]
      exact h.tracked info (List.mem_of_getElem? hInfo)
  · obtain ⟨hBound, rfl⟩ := List.getElem?_eq_some_iff.mp hInfo
    have hMapped : i < (tracks.map TrackInfo.mTrackIndex).length := by simpa using hBound
    have hSame := List.set_getElem_self hMapped
    rw [List.getElem_map] at hSame
    rw [List.map_set, hIndex, hSame]
    exact h.distinct

/-- Changing the entry of a track leaves what is owed on the other one. -/
theorem owes_set {t : Track} {i : Nat} {new : TrackInfo Track MediaBuffer}
    (hOwes : Owes (tracks.set i new) t) :
    (t = new.mSource ∧ new.mFinalResult = .ok ∧ new.mSample = none) ∨
      ∃ j other, j ≠ i ∧ tracks[j]? = some other ∧ other.mSource = t ∧
        other.mFinalResult = .ok ∧ other.mSample = none := by
  obtain ⟨other, hMem, hTrack, hResult, hSample⟩ := hOwes
  obtain ⟨j, hOther⟩ := List.mem_iff_getElem?.mp hMem
  rw [List.getElem?_set] at hOther
  split_ifs at hOther with hHere hIn
  · obtain rfl := Option.some.inj hOther
    exact Or.inl ⟨hTrack.symm, hResult, hSample⟩
  · exact Or.inr ⟨j, other, fun hSame => hHere hSame.symm, hOther, hTrack, hResult, hSample⟩

end Selected

section Steps

variable {cfg : Config} {n n' : Driven}

theorem Track.other_other (t : Track) : t.other.other = t := by
  cases t <;> rfl

/-- Outside of a read no reader is inside `pop_buffer`. -/
theorem Fed.inactive (h : Fed cfg n) (hDriver : ∀ request i min, n.driver ≠ .read request i min)
    (t : Track) : (n.mImpl.reader t).active = false := by
  by_contra hActive
  obtain ⟨request, i, min, info, hReading, _⟩ := h.reading t (by simpa using hActive)
  exact hDriver request i min hReading

/-- While an entry is read, only its reader is inside `pop_buffer`. -/
theorem Fed.inactive_other (h : Fed cfg n) {request : Request} {i : Nat}
    {min : Option (Nat × Int)} {info : TrackInfo Track MediaBuffer} {t : Track}
    (hDriver : n.driver = .read request i min) (hInfo : n.mSelectedTracks[i]? = some info)
    (hOther : t ≠ info.mSource) : (n.mImpl.reader t).active = false := by
  by_contra hActive
  obtain ⟨_, j, _, found, hReading, hFound, hSource, _⟩ := h.reading t (by simpa using hActive)
  obtain ⟨_, rfl, _⟩ := DriverPc.read.inj (hDriver.symm.trans hReading)
  obtain rfl := Option.some.inj (hInfo.symm.trans hFound)
  exact hOther hSource.symm

/-- Steps that leave the extractor and the entries alone and read nothing. -/
theorem Fed.calm (h : Fed cfg n) (hImpl : n'.mImpl = n.mImpl)
    (hTracks : n'.mSelectedTracks = n.mSelectedTracks)
    (hDriver : ∀ request i min, n.driver ≠ .read request i min)
    (hAccess : n'.driver = .idle ∨ ∃ call i min, n'.driver = .fetch (.access call) i min) :
    Fed cfg n' := by
  refine ⟨hImpl ▸ h.armed, ?_, fun t hActive => ?_, hTracks ▸ h.selected, fun t => ?_⟩
  · rcases hAccess with hIdle | ⟨call, i, min, hFetch⟩
    · exact Or.inl hIdle
    · exact Or.inr ⟨call, i, min, Or.inl hFetch⟩
  · rw [hImpl, h.inactive hDriver t] at hActive
    simp at hActive
  · rw [Starving, hImpl, hTracks]
    exact h.fed t

theorem Act.produced_cases {act : Act} {inner : PPExtractor.Act} (h : act.produced = some inner) :
    (act = .producer ∧ inner = .producer) ∨
      (∃ result fuel, inner = .readSample result fuel) ∨ inner = .spuriousWake := by
  cases act <;> simp only [Act.produced, Option.some.injEq, reduceCtorEq] at h <;> simp [← h]

/-- Only a step of `push_buffer` can fail the room test. -/
theorem noRoom_producer {x : PPExtractor.State} {act : Act} {inner : PPExtractor.Act} {t : Track}
    {p : Payload} {pc : PPExtractor.PushPc} {g : PPMediaBufferGroup}
    (hAct : act.produced = some inner) (hStep : PPExtractor.step cfg n.mImpl inner = some x)
    (hPc : n.mImpl.producer = .push t p pc) (hRoom : pc.noRoom g p.data.length = true) :
    act = .producer := by
  rcases Act.produced_cases hAct with ⟨hProducer, _⟩ | ⟨result, fuel, rfl⟩ | rfl
  · exact hProducer
  · simp [PPExtractor.step, PPExtractor.liveStep, PPExtractor.readSampleStep, hPc] at hStep
  · cases pc <;> simp [PPExtractor.step, PPExtractor.liveStep, hPc, PPExtractor.PushPc.noRoom]
      at hStep hRoom

theorem fed_produce {act : Act} {inner : PPExtractor.Act} {x : PPExtractor.State}
    (hCoherent : PPExtractor.Coherent n.mImpl) (h : Fed cfg n) (hGuard : RoomGuard cfg n act)
    (hAct : act.produced = some inner) (hStep : PPExtractor.step cfg n.mImpl inner = some x) :
    Fed cfg { n with mImpl := x } := by
  have hEffect : PPExtractor.ProducerEffect n.mImpl x := by
    refine PPExtractor.producerEffect_step hCoherent h.armed ?_ hStep
    rcases Act.produced_cases hAct with ⟨_, rfl⟩ | ⟨result, fuel, rfl⟩ | rfl <;> simp
  refine ⟨h.armed.produced hEffect, h.accessing, fun t hActive => ?_, h.selected, fun t hWaits => ?_⟩
  · exact h.reading t (by simpa [hEffect.reader] using hActive)
  · obtain ⟨hGroup, hBefore⟩ := hEffect.waits t hWaits
    rw [Starving, PPExtractor.State.preRoll, hGroup]
    rcases hBefore with hBefore | ⟨p, pc, g, hPc, hOld, hRoom⟩
    · exact h.fed t hBefore
    · obtain rfl := noRoom_producer hAct hStep hPc hRoom
      exact hGuard t (by simp [PPExtractor.State.outOfRoom, hPc, hOld, hRoom])

theorem fed_select {index : Nat} {t : Track} {x : PPExtractor.State} (h : Fed cfg n)
    (hGuard : RoomGuard cfg n (.selectTrack index)) (hIdle : n.driver = .idle)
    (hNew : ∀ info ∈ n.mSelectedTracks, info.mTrackIndex ≠ index)
    (hTrack : getTrack cfg index = some t)
    (hStep : PPExtractor.step cfg n.mImpl .start = some x) :
    Fed cfg { n with
      mImpl := x
      mSelectedTracks := n.mSelectedTracks ++ [TrackInfo.selected t index] } := by
  have hInactive := h.inactive (by simp [hIdle])
  have hSelected : Selected cfg (n.mSelectedTracks ++ [TrackInfo.selected t index]) := by
    refine ⟨fun info hMem => ?_, ?_⟩
    · simp only [List.mem_append, List.mem_singleton] at hMem
      rcases hMem with hMem | rfl
      · exact h.selected.tracked info hMem
      · exact hTrack
    · rw [List.map_append, List.nodup_append]
      refine ⟨h.selected.distinct, by simp, ?_⟩
      simpa [TrackInfo.selected] using hNew
  rcases PPExtractor.armed_start h.armed hInactive hStep with rfl | ⟨hArmed, hReader, hPc⟩
  · refine ⟨h.armed, Or.inl hIdle, fun u hActive => ?_, hSelected, fun u hWaits hStarving => ?_⟩
    · simp [hInactive u] at hActive
    · obtain ⟨⟨info, hMem, hSource, hOwed⟩, hPreRoll⟩ := hStarving
      simp only [List.mem_append, List.mem_singleton] at hMem
      rcases hMem with hMem | rfl
      · exact h.fed u hWaits ⟨⟨info, hMem, hSource, hOwed⟩, hPreRoll⟩
      · obtain rfl : t = u.other := hSource
        have hPassed := hGuard u.other hTrack (by rwa [Track.other_other])
        simp [hPassed] at hPreRoll
  · refine ⟨hArmed, Or.inl hIdle, fun u hActive => ?_, hSelected, ?_⟩
    · simp [hReader, hInactive u] at hActive
    · simp [hPc, PPExtractor.ProducerPc.waitsIn]

/-- Settling an entry from which nothing is owed any more. -/
theorem Fed.settled (h : Fed cfg n) {x : PPExtractor.State} {i : Nat} {call : Call}
    {min : Option (Nat × Int)} {info new : TrackInfo Track MediaBuffer}
    (hArmed : PPExtractor.Armed x) (hProducer : x.producer = n.mImpl.producer)
    (hInactive : ∀ t, (x.reader t).active = false)
    (hGroups : ∀ t, t ≠ info.mSource → x.group t = n.mImpl.group t)
    (hInfo : n.mSelectedTracks[i]? = some info) (hIndex : new.mTrackIndex = info.mTrackIndex)
    (hSource : new.mSource = info.mSource)
    (hPaid : new.mFinalResult ≠ .ok ∨ new.mSample ≠ none) :
    Fed cfg { n with
      mImpl := x
      mSelectedTracks := n.mSelectedTracks.set i new
      driver := .fetch (.access call) (i + 1) min } := by
  refine ⟨hArmed, Or.inr ⟨call, i + 1, min, Or.inl rfl⟩, fun t hActive => ?_,
    h.selected.set hInfo hIndex hSource, fun t hWaits hStarving => ?_⟩
  · simp [hInactive t] at hActive
  · obtain ⟨hOwes, hPreRoll⟩ := hStarving
    dsimp only at hWaits hPreRoll
    rw [hProducer] at hWaits
    rcases owes_set hOwes with ⟨_, hResult, hSample⟩ | ⟨j, other, hElse, hOther, hTrack, hOwed⟩
    · exact hPaid.elim (absurd hResult) (absurd hSample)
    · have hDifferent : t.other ≠ info.mSource := fun hSame =>
        hElse (h.selected.unique hOther hInfo (hTrack.trans hSame))
      refine h.fed t hWaits ⟨⟨other, List.mem_of_getElem? hOther, hTrack, hOwed⟩, ?_⟩
      rwa [PPExtractor.State.preRoll, hGroups _ hDifferent] at hPreRoll

theorem reader_active {x : PPExtractor.State} {t : Track}
    (hStep : PPExtractor.step cfg n.mImpl (.reader t) = some x) :
    (n.mImpl.reader t).active = true := by
  unfold PPExtractor.step at hStep
  split_ifs at hStep
  simp only [PPExtractor.liveStep, PPExtractor.readerStep] at hStep
  cases hReader : n.mImpl.reader t <;> cases hGroup : n.mImpl.group t <;>
    simp_all [PPExtractor.popStep, PPExtractor.ReaderPc.active]

/-- The first step of a read. -/
theorem fed_read {call : Call} {i : Nat} {min : Option (Nat × Int)}
    {info : TrackInfo Track MediaBuffer} {x : PPExtractor.State} (h : Fed cfg n)
    (hDriver : n.driver = .fetch (.access call) i min)
    (hInfo : n.mSelectedTracks[i]? = some info)
    (hOwed : info.mFinalResult = .ok ∧ info.mSample = none)
    (hStep : PPExtractor.step cfg n.mImpl (.read info.mSource) = some x) :
    Fed cfg (settle n (.access call) i min info x) := by
  obtain ⟨hArmed, hProducer, hGroup, hOthers, hReader⟩ := PPExtractor.armed_read h.armed hStep
  have hInactive := h.inactive (by simp [hDriver])
  rcases hReader with hEnter | hFailed
  · simp only [settle, hEnter]
    refine ⟨hArmed, Or.inr ⟨call, i, min, Or.inr rfl⟩, fun t hActive => ?_, h.selected, ?_⟩
    · by_cases hHere : t = info.mSource
      · exact ⟨_, i, min, info, rfl, hInfo, hHere.symm, hOwed⟩
      · simp [hOthers t hHere, hInactive t] at hActive
    · simp only [Starving, PPExtractor.State.preRoll, hProducer, hGroup]
      exact h.fed
  · simp only [settle, hFailed]
    refine h.settled hArmed hProducer (fun t => ?_) (fun _ _ => by rw [hGroup]) hInfo rfl rfl
      (Or.inl (by simp [TrackInfo.fail]))
    by_cases hHere : t = info.mSource
    · rw [hHere, hFailed]
      rfl
    · rw [hOthers t hHere]
      exact hInactive t

/-- The other steps of a read. -/
theorem fed_reader {call : Call} {i : Nat} {min : Option (Nat × Int)}
    {info : TrackInfo Track MediaBuffer} {x : PPExtractor.State} (h : Fed cfg n)
    (hDriver : n.driver = .read (.access call) i min)
    (hInfo : n.mSelectedTracks[i]? = some info)
    (hStep : PPExtractor.step cfg n.mImpl (.reader info.mSource) = some x) :
    Fed cfg (settle n (.access call) i min info x) := by
  obtain ⟨hArmed, hProducer, hOthers, hTaken⟩ := PPExtractor.armed_reader h.armed hStep
  have hGroups : ∀ t, t ≠ info.mSource → x.group t = n.mImpl.group t := fun t hOther =>
    (hOthers t hOther).1
  have hInactive : (x.reader info.mSource).active = false → ∀ t, (x.reader t).active = false := by
    intro hReturned t
    by_cases hHere : t = info.mSource
    · rw [hHere]
      exact hReturned
    · rw [(hOthers t hHere).2]
      exact h.inactive_other hDriver hInfo hHere
  unfold settle
  split
  case h_1 b hReader =>
    exact h.settled hArmed hProducer (hInactive (by rw [hReader]; rfl)) hGroups hInfo rfl rfl
      (Or.inr (by simp [TrackInfo.hold]))
  case h_2 hReader | h_3 hReader =>
    exact h.settled hArmed hProducer (hInactive (by rw [hReader]; rfl)) hGroups hInfo rfl rfl
      (Or.inl (by simp [TrackInfo.fail]))
  case h_4 hNoFrame _ _ =>
    have hGroup : x.group = n.mImpl.group :=
      hTaken.resolve_right fun ⟨b, hReader⟩ => hNoFrame b hReader
    refine ⟨hArmed, Or.inr ⟨call, i, min, Or.inr rfl⟩, fun t hActive => ?_, h.selected, ?_⟩
    · by_cases hHere : t = info.mSource
      · subst hHere
        obtain ⟨_, _, _, found, hReading, hFound, hSource, hOwed⟩ :=
          h.reading info.mSource (reader_active hStep)
        obtain ⟨_, rfl, _⟩ := DriverPc.read.inj (hDriver.symm.trans hReading)
        exact ⟨_, i, min, found, rfl, hFound, hSource, hOwed⟩
      · dsimp only at hActive
        rw [(hOthers t hHere).2, h.inactive_other hDriver hInfo hHere] at hActive
        simp at hActive
    · simp only [Starving, PPExtractor.State.preRoll, hProducer, hGroup]
      exact h.fed

theorem fed_advance {i minIndex : Nat} {time : Int} {info : TrackInfo Track MediaBuffer}
    {x : PPExtractor.State} (h : Fed cfg n) (hGuard : RoomGuard cfg n .driver)
    (hDriver : n.driver = .fetch (.access .advance) i (some (minIndex, time)))
    (hEnd : n.mSelectedTracks[i]? = none) (hInfo : n.mSelectedTracks[minIndex]? = some info)
    (hRelease : releaseSample cfg n.mImpl info = some x) :
    Fed cfg { n with
      mImpl := x
      mSelectedTracks := n.mSelectedTracks.set minIndex info.drop
      driver := .idle } := by
  have hInactive := h.inactive (by simp [hDriver])
  obtain ⟨hArmed, hReader, hPreRoll, hWaits⟩ : PPExtractor.Armed x ∧
      x.reader = n.mImpl.reader ∧ (∀ u, x.preRoll u = n.mImpl.preRoll u) ∧
      ∀ u, x.producer.waitsIn u = true → n.mImpl.producer.waitsIn u = true := by
    rcases releaseSample_cases hRelease with rfl | ⟨index, hStep⟩ | ⟨index, hStep⟩
    · exact ⟨h.armed, rfl, fun _ => rfl, fun _ hWaits => hWaits⟩
    · exact PPExtractor.armed_release h.armed (Or.inl rfl) hStep
    · exact PPExtractor.armed_release h.armed (Or.inr rfl) hStep
  refine ⟨hArmed, Or.inl rfl, fun t hActive => ?_, h.selected.set hInfo rfl rfl,
    fun t hWaiting hStarving => ?_⟩
  · simp [hReader, hInactive t] at hActive
  · obtain ⟨hOwes, hPre⟩ := hStarving
    have hPre : n.mImpl.preRoll t.other = true := (hPreRoll _).symm.trans hPre
    rcases owes_set hOwes with ⟨hTrack, _⟩ | ⟨j, other, _, hOther, hTrack, hOwed⟩
    · have hSource : info.mSource = t.other := hTrack.symm
      have hPassed := hGuard t.other (by simp [Driven.advancing, hDriver, hEnd, hInfo, hSource])
      rw [Track.other_other] at hPassed
      simp [hPassed (hWaits t hWaiting)] at hPre
    · exact h.fed t (hWaits t hWaiting)
        ⟨⟨other, List.mem_of_getElem? hOther, hTrack, hOwed⟩, hPre⟩

theorem fed_moves {act : Act} (hCoherent : PPExtractor.Coherent n.mImpl) (h : Fed cfg n)
    (hGuard : RoomGuard cfg n act) (hMoves : Moves cfg n act n') : Fed cfg n' := by
  have hAccessing := h.accessing
  cases hMoves with
  | produce hAct hStep => exact fed_produce hCoherent h hGuard hAct hStep
  | selectNothing => exact h
  | select hIdle hNew hTrack hStep => exact fed_select h hGuard hIdle hNew hTrack hStep
  | unselectNothing | unselect => exact hGuard.elim
  | @call request hIdle =>
      cases request with
      | seekTo timeUs => exact hGuard.elim
      | access call =>
          exact h.calm rfl rfl (by simp [hIdle]) (Or.inr ⟨call, 0, none, rfl⟩)
  | @purge request i min info x hDriver hInfo hPurges hRelease =>
      cases request with
      | seekTo timeUs => simp [hDriver] at hAccessing
      | access call => simp [Request.purges] at hPurges
  | @skip request i min min' info hDriver hInfo hPurges hSkip =>
      cases request with
      | seekTo timeUs => simp [hDriver] at hAccessing
      | access call =>
          exact h.calm rfl rfl (by simp [hDriver]) (Or.inr ⟨call, i + 1, min', rfl⟩)
  | @reads request i min info inner x hDriver hInfo hStep =>
      cases request with
      | seekTo timeUs => rcases hDriver with ⟨hDriver, _⟩ | ⟨hDriver, _⟩ <;> simp [hDriver] at hAccessing
      | access call =>
          rcases hDriver with ⟨hDriver, rfl, _, hOwed⟩ | ⟨hDriver, rfl⟩
          · exact fed_read h hDriver hInfo hOwed hStep
          · exact fed_reader h hDriver hInfo hStep
  | seekStarts hDriver => simp [hDriver] at hAccessing
  | showsNothing hDriver hEnd => exact h.calm rfl rfl (by simp [hDriver]) (Or.inl rfl)
  | advances hDriver hEnd hInfo hRelease => exact fed_advance h hGuard hDriver hEnd hInfo hRelease
  | exposes hDriver hEnd hInfo hSample hExposed =>
      exact h.calm rfl rfl (by simp [hDriver]) (Or.inl rfl)
  | seekGoesOn hDriver | seekReturns hDriver | stopReturns hDriver => simp [hDriver] at hAccessing
  | stops hDriver => rcases hDriver with ⟨hDriver, _⟩ | ⟨hDriver, _⟩ <;> simp [hDriver] at hAccessing

theorem fed_opened (cfg : Config) : Fed cfg (Driven.opened cfg) := by
  have hInitial : ∀ t, (PPExtractor.initial.reader t).active = false := fun _ => rfl
  have hImpl := PPExtractor.armed_start PPExtractor.armed_initial hInitial (opened_impl cfg)
  refine ⟨?_, Or.inl rfl, fun t hActive => ?_, ⟨by simp [Driven.opened], by simp [Driven.opened]⟩, ?_⟩
  · rcases hImpl with hSame | ⟨hArmed, _⟩
    · rw [hSame]
      exact PPExtractor.armed_initial
    · exact hArmed
  · rcases hImpl with hSame | ⟨_, hReader, _⟩
    · simp [hSame, hInitial] at hActive
    · simp [hReader, hInitial] at hActive
  · intro t _ hStarving
    obtain ⟨info, hMem, _⟩ := hStarving.1
    simp [Driven.opened] at hMem

end Steps

/-- Nobody waits for ever in a guarded run. -/
theorem run_not_deadlock {cfg : Config} {acts : List Act} {n : Driven}
    (run : Run (Driven.step cfg) (RoomGuard cfg) (Driven.opened cfg) acts n) : ¬ Deadlock n := by
  have hFed : Fed cfg n := by
    refine @Run.invariant_of _ _ _ _ (fun n => PPExtractor.Coherent n.mImpl) _ _ _ _ run
      (fun _ _ prior => ?_) (fed_opened cfg) fun _ _ _ hCoherent h hGuard hStep =>
        fed_moves hCoherent h hGuard (moves_of_step hStep)
    obtain ⟨inner, hInner, _⟩ := run_impl prior
    exact PPExtractor.run_coherent hInner
  rintro ⟨t, hWaits, hAsleep, hPreRoll⟩
  obtain ⟨_, i, _, info, _, hInfo, hSource, hOwed⟩ :=
    hFed.reading t.other (by rw [hAsleep]; rfl)
  exact hFed.fed t hWaits ⟨⟨info, List.mem_of_getElem? hInfo, hSource, hOwed⟩, hPreRoll⟩

/-- Select both tracks; a video frame is queued before the first call. -/
def videoFirst : List Act :=
  [Act.selectTrack 0, Act.selectTrack 1] ++ List.replicate 3 Act.producer ++
    [Act.readSample (.sample PPExtractor.keyFrame) 2] ++ List.replicate 4 Act.producer ++
    [Act.call (.access .getSampleTime)] ++ List.replicate 8 Act.driver

theorem run_not_deadlock_videoFirst : ∃ n,
    Run (Driven.step PPExtractor.twoTracks) (RoomGuard PPExtractor.twoTracks)
      (Driven.opened PPExtractor.twoTracks) videoFirst n ∧
    n.mImpl.reader .audio = .asleep ∧ ¬ Deadlock n := by
  obtain ⟨n, run, hAsleep⟩ := Run.exists_of_execGuarded
    (fun n : Driven => n.mImpl.reader .audio = .asleep)
    (show (execGuarded (Driven.step PPExtractor.twoTracks) (RoomGuard PPExtractor.twoTracks)
      (Driven.opened PPExtractor.twoTracks) videoFirst).any _ = true by decide)
  exact ⟨n, run, hAsleep, run_not_deadlock run⟩

/-- An audio sample that fills more than half of its ring. -/
def longAudio : PPExtractor.Sample where
  buffer := fun _ => 0
  bufferLength := 600000
  fits := by omega
  streamIndex := 1
  startTime := 0
  isSync := true

/-- Select both tracks and ask for a sample: the call waits for the first video
frame. -/
def callFirst : List Act :=
  [Act.selectTrack 0, Act.selectTrack 1, Act.call (.access .getSampleTime)] ++
    List.replicate 3 Act.driver

theorem run_callFirst : ∃ n,
    Run (Driven.step PPExtractor.twoTracks) unguarded (Driven.opened PPExtractor.twoTracks)
      callFirst n ∧
    n.mImpl.producer = .loopTest ∧ PPExtractor.Pumping n.mImpl ∧
    n.mImpl.group .audio = some (PPExtractor.newGroup .audio) ∧ n.mImpl.reader .audio = .idle ∧
    n.mImpl.reader .video = .asleep ∧ n.mImpl.preRoll .video = true :=
  ⟨_, Run.of_exec rfl, rfl, ⟨rfl, rfl, rfl⟩, rfl, rfl, rfl, rfl⟩

/-- The producer reads two long audio samples and finds no room for the second. -/
def twoLongAudio : List PPExtractor.Act :=
  List.replicate 3 PPExtractor.Act.producer ++
    [PPExtractor.Act.readSample (.sample longAudio) 0] ++
    List.replicate 4 PPExtractor.Act.producer ++ List.replicate 3 PPExtractor.Act.producer ++
    [PPExtractor.Act.readSample (.sample longAudio) 0] ++ List.replicate 5 PPExtractor.Act.producer

theorem run_twoLongAudio {s : PPExtractor.State} (hPc : s.producer = .loopTest)
    (hPumping : PPExtractor.Pumping s)
    (hGroup : s.group .audio = some (PPExtractor.newGroup .audio))
    (hReader : s.reader .audio = .idle) :
    ∃ s', Run (PPExtractor.step PPExtractor.twoTracks) unguarded s
      twoLongAudio s' ∧
      s'.producer.waitsIn .audio = true ∧ s'.reader = s.reader ∧
      s'.group .video = s.group .video := by
  have hFree : (s.reader .audio).holdsGroup = false := by rw [hReader]; rfl
  have hLength : longAudio.bufferLength = 600000 := rfl
  have hSize : (PPExtractor.newGroup .audio).mSize = 1048576 := rfl
  have hReading : (PPExtractor.newGroup .audio).mReadingAddr = 0 := rfl
  have hWriting : (PPExtractor.newGroup .audio).mWritingAddr = 1 := rfl
  obtain ⟨first, s₁, hFirst, toFirst, hPc₁, hPumping₁, hGroup₁, hVideo₁, hReader₁⟩ :=
    @PPExtractor.run_storeAudio PPExtractor.twoTracks s _ longAudio hPumping hPc (by decide) rfl
      (by omega) hGroup hFree ⟨rfl, rfl⟩ (by omega) (by omega)
  obtain ⟨second, reads, hSecond, toSecond, hEntering⟩ :=
    @PPExtractor.run_toPushAudio PPExtractor.twoTracks s₁ _ longAudio hPumping₁ hPc₁ (by decide) rfl
      (by omega) hGroup₁ (hReader₁ ▸ hFree) (by simp only [PPMediaBufferGroup.store]; omega)
      ⟨rfl, rfl⟩
  have waits := @PPExtractor.run_pushWaits PPExtractor.twoTracks _ _ _ _ hEntering
    (by simp only [PPMediaBufferGroup.store]; omega) (by simp only [PPMediaBufferGroup.store]; omega)
    (by simp only [PPMediaBufferGroup.store]; omega)
  refine ⟨{ s₁ with reads := reads, producer := .push .audio second (.asleep false) }, ?_, rfl,
    hReader₁, hVideo₁⟩
  simpa only [twoLongAudio, List.append_assoc] using (toFirst.trans toSecond).trans waits

/-- Two long audio samples before any video frame. -/
theorem exists_run_deadlock : ∃ acts n,
    Run (Driven.step PPExtractor.twoTracks) unguarded (Driven.opened PPExtractor.twoTracks) acts n ∧
    Deadlock n := by
  obtain ⟨n, hCall, hPc, hPumping, hGroup, hAudio, hVideo, hPreRoll⟩ := run_callFirst
  obtain ⟨x, hRun, hWaits, hReader, hSame⟩ := run_twoLongAudio hPc hPumping hGroup hAudio
  refine ⟨_, _, hCall.trans (@run_produce _ n _ (List.replicate 3 Act.producer ++
    [Act.readSample (.sample longAudio) 0] ++ List.replicate 7 Act.producer ++
    [Act.readSample (.sample longAudio) 0] ++ List.replicate 5 Act.producer) x hRun rfl),
    .audio, hWaits, ?_, ?_⟩
  · exact (congrFun hReader _).trans hVideo
  · rw [PPExtractor.State.preRoll]
    exact (congrArg _ hSame).trans hPreRoll

end Meet.NuPPMediaExtractor
