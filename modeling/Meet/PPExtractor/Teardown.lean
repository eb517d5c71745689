import Meet.PPExtractor.Coherence

/-! The end of `stop`. It joins the producer thread and then deletes the groups.
Nothing waits there for readers in `pop_buffer`, nor for frames that have been
popped and not yet released, so the callers have to see to both. -/
namespace Meet.PPExtractor

/-- No thread uses a deleted group or is about to be left in one. -/
structure NothingLeftBehind (s : State) : Prop where
  notDangling : ∀ t, s.reader t ≠ .dangling
  noOrphans : ∀ t, s.orphans t = []
  deleting : ∀ t, s.control = .delete t → (s.group t).isSome = true →
    (s.reader t).active = false ∧ s.held t = []

/-- When the producer thread has been joined, all reads have returned and all
frames have been released; no read of a group begins until it has been deleted. -/
def TeardownGuard (s : State) : Act → Prop
  | .control => s.control = .join → s.producer = .exited →
      ∀ t, (s.group t).isSome = true → (s.reader t).active = false ∧ s.held t = []
  | .read t => s.control = .delete .video ∨ s.control = .delete .audio → s.group t = none
  | _ => True

instance (s : State) (act : Act) : Decidable (TeardownGuard s act) :=
  match act with
  | .control =>
      haveI : Decidable (∀ t, (s.group t).isSome = true → (s.reader t).active = false ∧ s.held t = []) :=
        decidable_of_iff (_ ∧ _) Track.forall.symm
      inferInstanceAs (Decidable (_ → _ → _))
  | .read t => decidable_of_iff (_ → (s.group t).isNone = true)
      (by rw [Option.isNone_iff_eq_none]; rfl)
  | .producer | .readSample _ _ | .spuriousWake | .seekTo _ | .seeker | .start | .stop | .reader _
  | .release _ _ | .releaseOrphan _ _ => .isTrue trivial

/-- While the groups are deleted nobody is in one, and a track without a group has
no reader in it and no frame outside. -/
structure Vacated (s : State) : Prop where
  notDangling : ∀ t, s.reader t ≠ .dangling
  noOrphans : ∀ t, s.orphans t = []
  absent : ∀ t, s.group t = none → (s.reader t).active = false ∧ s.held t = []
  deleting : ∀ u, s.control = .delete u → ∀ t, (s.reader t).active = false ∧ s.held t = []

theorem vacated_initial : Vacated initial := by
  constructor <;> simp [initial, ReaderPc.active]

theorem Vacated.nothingLeftBehind {s : State} (h : Vacated s) : NothingLeftBehind s :=
  ⟨h.notDangling, h.noOrphans, fun t hDelete _ => h.deleting t hDelete t⟩

section Steps

variable {cfg : Config} {s s' : State}

/-- Steps of the producer and of the callers of `seekTo`. -/
theorem Vacated.same (h : Vacated s) (hSame : SameConsumers s s')
    (hControl : s'.control = s.control ∨ ∀ t, s'.control ≠ .delete t) : Vacated s' := by
  refine ⟨?_, ?_, ?_, ?_⟩
  · rw [hSame.reader]
    exact h.notDangling
  · rw [hSame.orphans]
    exact h.noOrphans
  · intro t hNone
    rw [hSame.reader, hSame.held]
    exact h.absent t ((hSame.groups t).mp hNone)
  · intro u hDelete
    rcases hControl with hControl | hControl
    · rw [hSame.reader, hSame.held]
      exact h.deleting u (hControl ▸ hDelete)
    · exact absurd hDelete (hControl u)

theorem vacated_control (h : Vacated s) (hGuard : TeardownGuard s .control)
    (hStep : controlStep s = some s') : Vacated s' := by
  cases controls_of_step hStep with
  | notifyStop hControl =>
      rename_i t
      refine h.same ⟨rfl, rfl, rfl, rfl, fun u => s.onGroup_eq_none t u _⟩ (Or.inr fun u => ?_)
      cases t <;> simp
  | join hControl hExited =>
      refine ⟨h.notDangling, h.noOrphans, h.absent, fun _ _ t => ?_⟩
      cases hGroup : s.group t with
      | none => exact h.absent t hGroup
      | some g => exact hGuard hControl hExited t (by simp [hGroup])
  | delete hControl hFree =>
      rename_i t
      have hVacant := h.deleting t hControl
      have hHeld : Function.update s.held t [] = s.held := by
        rw [← (hVacant t).2, Function.update_eq_self]
      refine ⟨h.notDangling, fun u => ?_, fun u _ => ?_, fun _ _ u => ?_⟩
      · by_cases hHere : u = t
        · subst hHere
          simp [h.noOrphans, (hVacant u).2]
        · simp [hHere, h.noOrphans]
      · rw [hHeld]
        exact hVacant u
      · rw [hHeld]
        exact hVacant u

/-- A reader goes into a group only while it is there to stay. -/
theorem Vacated.setReader (h : Vacated s) {t : Track} {pc : ReaderPc} (hPc : pc ≠ .dangling)
    (hActive : pc.active = true → s.group t ≠ none ∧ ∀ u, s.control ≠ .delete u) :
    Vacated (s.setReader t pc) := by
  have hOther : ∀ u, u ≠ t → (s.setReader t pc).reader u = s.reader u := by
    intro u hDifferent
    simp [State.setReader, hDifferent]
  have hHere : (s.setReader t pc).reader t = pc := by simp [State.setReader]
  have hOut : (s.group t = none ∨ ∃ u, s.control = .delete u) → pc.active = false := by
    intro hGone
    by_contra hIn
    obtain ⟨hSome, hControl⟩ := hActive (by simpa using hIn)
    rcases hGone with hNone | ⟨u, hDelete⟩
    · exact hSome hNone
    · exact hControl u hDelete
  refine ⟨fun u => ?_, h.noOrphans, fun u hNone => ?_, fun v hDelete u => ?_⟩
  · by_cases hSame : u = t
    · rw [hSame, hHere]
      exact hPc
    · rw [hOther u hSame]
      exact h.notDangling u
  · by_cases hSame : u = t
    · subst hSame
      rw [hHere]
      exact ⟨hOut (Or.inl hNone), (h.absent u hNone).2⟩
    · rw [hOther u hSame]
      exact h.absent u hNone
  · by_cases hSame : u = t
    · subst hSame
      rw [hHere]
      exact ⟨hOut (Or.inr ⟨v, hDelete⟩), (h.deleting v hDelete u).2⟩
    · rw [hOther u hSame]
      exact h.deleting v hDelete u

theorem vacated_read {t : Track} (h : Vacated s) (hGuard : TeardownGuard s (.read t))
    (hStep : readStep s t = some s') : Vacated s' := by
  have hGoes : s' = s.setReader t (if (s.group t).isSome then .enter else .returned .errorIo) := by
    unfold readStep at hStep
    cases hReader : s.reader t <;> simp_all
  subst hGoes
  cases hGroup : s.group t with
  | none => exact h.setReader (by simp) (by simp [ReaderPc.active])
  | some g =>
      refine h.setReader (by simp) fun _ => ⟨by simp [hGroup], fun u hDelete => ?_⟩
      have hNone := hGuard (by cases u <;> simp [hDelete])
      simp [hGroup] at hNone

/-- A reader inside `pop_buffer` has a group that is not being deleted. -/
theorem vacated_reader {t : Track} (h : Vacated s) (hStep : readerStep s t = some s') :
    Vacated s' := by
  unfold readerStep at hStep
  cases hGroup : s.group t with
  | none =>
      have hIdle := (h.absent t hGroup).1
      simp only [hGroup] at hStep
      cases hReader : s.reader t <;> simp_all [ReaderPc.active]
  | some g =>
      simp only [hGroup] at hStep
      obtain ⟨hQuiet, _⟩ := popStep_quiet hStep
      obtain ⟨hActive, hNext, hOrphans, hOther⟩ := popStep_local hStep
      have hNotDeleting : ∀ v, s.control ≠ .delete v := by
        intro v hDelete
        simp [(h.deleting v hDelete t).1] at hActive
      refine ⟨fun u => ?_, ?_, fun u hNone => ?_, fun v hDelete => ?_⟩
      · by_cases hHere : u = t
        · exact hHere ▸ hNext
        · rw [(hOther u hHere).1]
          exact h.notDangling u
      · rw [hOrphans]
        exact h.noOrphans
      · have hBefore : s.group u = none := by
          have hSome := hQuiet.isSome u
          rw [hNone] at hSome
          simpa using hSome.symm
        have hHere : u ≠ t := by
          rintro rfl
          simp [hGroup] at hBefore
        rw [(hOther u hHere).1, (hOther u hHere).2.1]
        exact h.absent u hBefore
      · rw [hQuiet.control] at hDelete
        exact absurd hDelete (hNotDeleting v)

theorem vacated_release {t : Track} {index : Nat} (h : Vacated s)
    (hStep : releaseStep s t index = some s') : Vacated s' := by
  obtain ⟨b, hHeld, rfl⟩ := Option.map_eq_some_iff.mp hStep
  have hFewer : ∀ u, s.held u = [] →
      Function.update s.held t ((s.held t).eraseIdx index) u = [] := by
    intro u hEmpty
    by_cases hHere : u = t
    · subst hHere
      simp [hEmpty]
    · simp [hHere, hEmpty]
  refine ⟨h.notDangling, h.noOrphans, fun u hNone => ?_, fun v hDelete u => ?_⟩
  · have hBefore := h.absent u ((s.onGroup_eq_none t u _).mp hNone)
    exact ⟨hBefore.1, hFewer u hBefore.2⟩
  · have hBefore := h.deleting v hDelete u
    exact ⟨hBefore.1, hFewer u hBefore.2⟩

theorem vacated_step {act : Act} (h : Vacated s) (hGuard : TeardownGuard s act)
    (hStep : step cfg s act = some s') : Vacated s' := by
  unfold step at hStep
  split_ifs at hStep
  cases act with
  | producer =>
      obtain ⟨hSame, hControl⟩ := producerStep_consumers hStep
      exact h.same hSame (Or.inl hControl)
  | readSample result fuel =>
      obtain ⟨hSame, hControl⟩ := readSampleStep_consumers hStep
      exact h.same hSame (Or.inl hControl)
  | seeker =>
      obtain ⟨hSame, hControl⟩ := seekerStep_consumers hStep
      exact h.same hSame (Or.inl hControl)
  | spuriousWake =>
      simp only [liveStep] at hStep
      split at hStep
      · obtain rfl := Option.some.inj hStep
        exact h.same ⟨rfl, rfl, rfl, rfl, fun _ => Iff.rfl⟩ (Or.inl rfl)
      · simp at hStep
  | seekTo seekTimeUs =>
      simp only [liveStep] at hStep
      split at hStep
      · obtain rfl := Option.some.inj hStep
        exact h.same ⟨rfl, rfl, rfl, rfl, fun _ => Iff.rfl⟩ (Or.inl rfl)
      · simp at hStep
  | start =>
      rcases startStep_cases hStep with rfl | ⟨_, hIdle, _, rfl⟩
      · exact h
      · refine ⟨h.notDangling, h.noOrphans, fun t hNone => ?_, fun u hDelete => ?_⟩
        · dsimp only at hNone
          split_ifs at hNone
          exact h.absent t hNone
        · simp [hIdle] at hDelete
  | stop =>
      rcases stopStep_cases hStep with rfl | ⟨_, _, rfl⟩
      · exact h
      · exact h.same ⟨rfl, rfl, rfl, rfl, fun _ => Iff.rfl⟩ (Or.inr (by simp))
  | control => exact vacated_control h hGuard hStep
  | read t => exact vacated_read h hGuard hStep
  | reader t => exact vacated_reader h hStep
  | release t index => exact vacated_release h hStep
  | releaseOrphan t index => simp [liveStep, h.noOrphans] at hStep

end Steps

section Runs

variable {cfg : Config} {acts : List Act} {s : State}

theorem vacated_run (run : Run (step cfg) TeardownGuard initial acts s) : Vacated s :=
  run.invariant vacated_initial fun _ _ _ h hGuard hStep => vacated_step h hGuard hStep

/-- As long as `stop` finds nobody in the groups once the producer has ended, no
run reaches a deleted group. -/
theorem run_nothingLeftBehind (run : Run (step cfg) TeardownGuard initial acts s) :
    NothingLeftBehind s :=
  (vacated_run run).nothingLeftBehind

/-- A key frame has been delivered, and the reader is in its next read. -/
def readAgain : List Act :=
  [Act.start] ++ List.replicate 3 Act.producer ++ [Act.readSample (.sample keyFrame) 2] ++
    List.replicate 4 Act.producer ++ [Act.read .video] ++ List.replicate 4 (Act.reader .video) ++
    [Act.read .video, Act.reader .video, Act.reader .video]

/-- `stop` up to the deletion of the first group. -/
def stopAll : List Act :=
  [Act.stop, Act.control, Act.control, Act.producer, Act.producer, Act.control]

/-- The reader wakes up, finds that the extractor stops, and the frame is released
before the producer thread is joined. -/
theorem run_nothingLeftBehind_leavesInTime : ∃ s,
    Run (step twoTracks) TeardownGuard initial
      (readAgain ++ [Act.stop, Act.control, Act.control, Act.reader .video, Act.reader .video,
        Act.reader .video, Act.release .video 0, Act.producer, Act.producer, Act.control,
        Act.control]) s ∧
    (s.control = .delete .audio ∧ (s.group .video).isNone = true) ∧ NothingLeftBehind s := by
  obtain ⟨s, run, hState⟩ := Run.exists_of_execGuarded
    (fun s => s.control = .delete .audio ∧ (s.group .video).isNone = true)
    (show (execGuarded (step twoTracks) TeardownGuard initial (readAgain ++ [Act.stop, Act.control,
      Act.control, Act.reader .video, Act.reader .video, Act.reader .video, Act.release .video 0,
      Act.producer, Act.producer, Act.control, Act.control])).any _ = true by decide)
  exact ⟨s, run, hState, run_nothingLeftBehind run⟩

/-- The reader sleeps in the group and a frame of it is held when `stop` is about
to delete it. -/
theorem exists_run_leftBehind : ∃ s,
    Run (step twoTracks) unguarded initial (readAgain ++ stopAll) s ∧ ¬ NothingLeftBehind s := by
  obtain ⟨s, run, hDelete, hGroup, hReader, _⟩ := Run.exists_of_exec
    (fun s => s.control = .delete .video ∧ (s.group .video).isSome = true ∧
      s.reader .video = .asleep ∧ (s.held .video).length = 1)
    (show (exec (step twoTracks) initial (readAgain ++ stopAll)).any _ = true by decide)
  refine ⟨s, run, fun hNothing => ?_⟩
  have hVacant := (hNothing.deleting .video hDelete hGroup).1
  simp [hReader, ReaderPc.active] at hVacant

end Runs

/-! ### What the callers can see to -/

/-- When `stop` is called, all reads have returned and all frames have been released. No
read of a group begins before `stop` is through. -/
def LeavesBeforeStop (s : State) : Act → Prop
  | .stop => ∀ t, (s.reader t).active = false ∧ s.held t = []
  | .read t => s.control = .idle ∨ s.group t = none
  | _ => True

instance (s : State) (act : Act) : Decidable (LeavesBeforeStop s act) :=
  match act with
  | .stop => decidable_of_iff (_ ∧ _) Track.forall.symm
  | .read t => decidable_of_iff (s.control = .idle ∨ (s.group t).isNone = true)
      (by rw [Option.isNone_iff_eq_none]; rfl)
  | .producer | .readSample _ _ | .spuriousWake | .seekTo _ | .seeker | .start | .control
  | .reader _ | .release _ _ | .releaseOrphan _ _ => .isTrue trivial

/-- While `stop` is under way, nobody is in a group and no frame is outside. -/
def Emptied (s : State) : Prop :=
  s.control ≠ .idle → ∀ t, (s.reader t).active = false ∧ s.held t = []

section Callers

variable {cfg : Config} {s s' : State}

theorem Emptied.same (h : Emptied s) (hSame : SameConsumers s s')
    (hControl : s'.control = s.control) : Emptied s' := by
  intro hStopping t
  rw [hSame.reader, hSame.held]
  exact h (hControl ▸ hStopping) t

theorem emptied_control (h : Emptied s) (hStep : controlStep s = some s') : Emptied s' := by
  cases controls_of_step hStep with
  | notifyStop hControl | join hControl hExited => exact fun _ => h (by simp [hControl])
  | @delete t hControl hFree =>
      have hEmpty := h (by simp [hControl])
      have hHeld : Function.update s.held t [] = s.held := by
        rw [← (hEmpty t).2, Function.update_eq_self]
      intro _ u
      rw [hHeld]
      exact hEmpty u

theorem emptied_read {t : Track} (h : Emptied s) (hDuty : LeavesBeforeStop s (.read t))
    (hStep : readStep s t = some s') : Emptied s' := by
  have hGoes : s' = s.setReader t (if (s.group t).isSome then .enter else .returned .errorIo) := by
    unfold readStep at hStep
    cases hReader : s.reader t <;> simp_all
  subst hGoes
  intro hStopping u
  rcases hDuty with hIdle | hNone
  · exact absurd hIdle hStopping
  · have hOut := h hStopping u
    by_cases hHere : u = t
    · subst hHere
      simp [State.setReader, hNone, ReaderPc.active, hOut.2]
    · simpa [State.setReader, hHere] using hOut

/-- Nobody who is in a group takes a step while `stop` is under way. -/
theorem emptied_reader {t : Track} (h : Emptied s) (hStep : readerStep s t = some s') :
    Emptied s' := by
  intro hStopping
  exfalso
  unfold readerStep at hStep
  cases hGroup : s.group t with
  | none =>
      simp only [hGroup] at hStep
      have hSame : s'.control = s.control := by
        cases hReader : s.reader t <;> simp [hReader] at hStep <;> simp [← hStep, State.setReader]
      have hOut := (h (hSame ▸ hStopping) t).1
      cases hReader : s.reader t <;> simp_all [ReaderPc.active]
  | some g =>
      simp only [hGroup] at hStep
      have hOut := (h ((popStep_quiet hStep).1.control ▸ hStopping) t).1
      simp [(popStep_local hStep).1] at hOut

theorem emptied_release {t : Track} {index : Nat} (h : Emptied s)
    (hStep : releaseStep s t index = some s') : Emptied s' := by
  obtain ⟨b, hHeld, rfl⟩ := Option.map_eq_some_iff.mp hStep
  intro hStopping
  have hEmpty := (h hStopping t).2
  simp [hEmpty] at hHeld

theorem emptied_step {act : Act} (h : Emptied s) (hDuty : LeavesBeforeStop s act)
    (hStep : step cfg s act = some s') : Emptied s' := by
  unfold step at hStep
  split_ifs at hStep
  cases act with
  | producer =>
      obtain ⟨hSame, hControl⟩ := producerStep_consumers hStep
      exact h.same hSame hControl
  | readSample result fuel =>
      obtain ⟨hSame, hControl⟩ := readSampleStep_consumers hStep
      exact h.same hSame hControl
  | seeker =>
      obtain ⟨hSame, hControl⟩ := seekerStep_consumers hStep
      exact h.same hSame hControl
  | spuriousWake | seekTo seekTimeUs =>
      simp only [liveStep] at hStep
      split at hStep
      · obtain rfl := Option.some.inj hStep
        exact h.same ⟨rfl, rfl, rfl, rfl, fun _ => Iff.rfl⟩ rfl
      · simp at hStep
  | start =>
      rcases startStep_cases hStep with rfl | ⟨_, hIdle, _, rfl⟩
      · exact h
      · exact fun hStopping => absurd hIdle hStopping
  | stop =>
      rcases stopStep_cases hStep with rfl | ⟨_, _, rfl⟩
      · exact h
      · exact fun _ => hDuty
  | control => exact emptied_control h hStep
  | read t => exact emptied_read h hDuty hStep
  | reader t => exact emptied_reader h hStep
  | release t index => exact emptied_release h hStep
  | releaseOrphan t index =>
      simp only [liveStep] at hStep
      split at hStep
      · obtain rfl := Option.some.inj hStep
        exact h
      · simp at hStep

/-- Callers that do this leave nobody in the groups when the producer thread has been
joined. -/
theorem teardownGuard_of_callers {acts : List Act}
    (run : Run (step cfg) LeavesBeforeStop initial acts s) :
    Run (step cfg) TeardownGuard initial acts s := by
  have hInitial : Emptied initial := fun hStopping => absurd rfl hStopping
  refine run.promote hInitial (fun _ _ _ h hDuty hStep => emptied_step h hDuty hStep)
    fun s act h hDuty => ?_
  cases act with
  | control => exact fun hJoin _ t _ => h (by simp [hJoin]) t
  | read t =>
      intro hDelete
      rcases hDuty with hIdle | hNone
      · simp [hIdle] at hDelete
      · exact hNone
  | _ => trivial

theorem nothingLeftBehind_of_callers {acts : List Act}
    (run : Run (step cfg) LeavesBeforeStop initial acts s) : NothingLeftBehind s :=
  (vacated_run (teardownGuard_of_callers run)).nothingLeftBehind

-- The frame is released, and then `stop` deletes both groups.
example : (execGuarded (step twoTracks) LeavesBeforeStop initial ([Act.start] ++
    List.replicate 3 Act.producer ++ [Act.readSample (.sample keyFrame) 2] ++
    List.replicate 4 Act.producer ++ [Act.read .video] ++ List.replicate 4 (Act.reader .video) ++
    [Act.release .video 0] ++ stopAll ++ [Act.control, Act.control])).any
      (fun s => s.control = .idle ∧ (s.group .video).isNone ∧ (s.group .audio).isNone) = true := by
  decide

end Callers

end Meet.PPExtractor
