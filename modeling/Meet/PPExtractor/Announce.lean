import Meet.PPExtractor.Coherence

/-! The first half of a seek: `notify_seekstart` takes the lock of each group,
so the producer is either outside the group or asleep in it, and whatever it
has in hand for that group is dropped. -/
namespace Meet.PPExtractor

/-- The producer has nothing in hand and is about to test for a seek. -/
def ProducerPc.fresh : ProducerPc → Bool
  | .off | .loopTest | .seekTest | .seekLock | .exiting | .exited => true
  | _ => false

/-- The seek under way has been announced to a group. -/
def SeekerPc.notified (t : Track) : SeekerPc → Bool
  | .notify .audio => t = .video
  | .wait | .asleep false => true
  | _ => false

theorem SeekerPc.notified_eq_false {pc : SeekerPc} (h : pc.pending = false) (t : Track) :
    pc.notified t = false := by
  cases pc with
  | asleep signalled => cases signalled <;> simp_all [pending, notified]
  | notify u => simp [pending] at h
  | idle | enter | wait => simp_all [pending, notified]

/-- The producer in `push_buffer` will still test for a seek. -/
def PushPc.early : PushPc → Bool
  | .enter | .acquiring | .asleep true => true
  | _ => false

/-- What an announced seek has done to a group and to the producer. -/
@[grind cases]
structure Announced (s : State) : Prop where
  seeking : s.producer.holdsLock = false → ∀ t, s.seeker.notified t = true →
    s.producer.fresh = true ∨ ∀ g, s.group t = some g → g.mIsSeeking = true
  woken : ∀ t p pc, s.seeker.notified t = true → s.producer = .push t p pc → pc.early = true

theorem announced_initial : Announced initial := by
  constructor <;> simp [initial, SeekerPc.notified]

section Steps

variable {cfg : Config} {s s' : State}

/-- The groups keep the flag of an announced seek. -/
theorem SameRequests.mIsSeeking (h : SameRequests s s') {t : Track}
    (hSeeking : ∀ g, s.group t = some g → g.mIsSeeking = true) :
    ∀ g, s'.group t = some g → g.mIsSeeking = true := by
  intro g' hGroup
  obtain ⟨g, hOld, hFlags⟩ := h.of_group hGroup
  rw [← hSeeking g hOld]
  exact (congrArg Prod.snd hFlags).symm

theorem seeking_onGroup {f : PPMediaBufferGroup → PPMediaBufferGroup} {t u : Track}
    (hKeeps : ∀ g, (f g).mIsSeeking = g.mIsSeeking)
    (hSeeking : ∀ g, s.group u = some g → g.mIsSeeking = true) :
    ∀ g, (s.onGroup t f).group u = some g → g.mIsSeeking = true := by
  intro g hGroup
  rw [State.onGroup_group] at hGroup
  split_ifs at hGroup with hHere
  · subst hHere
    obtain ⟨old, hOld, rfl⟩ := Option.map_eq_some_iff.mp hGroup
    rw [hKeeps, hSeeking old hOld]
  · exact hSeeking g hGroup

/-- Steps that leave the requests alone, and the producer in place, in the same
push or behind it. -/
theorem Announced.same (h : Announced s) (hSame : SameRequests s s')
    (hProducer : s'.producer = s.producer ∨ ∃ t p pc, s.producer = .push t p pc ∧
      (s'.producer = .loopTest ∨ ∃ pc', s'.producer = .push t p pc' ∧
        (s.seeker.notified t = true → pc.early = true → pc'.early = true))) : Announced s' := by
  constructor
  · intro hHolds t hNotified
    rw [hSame.seeker] at hNotified
    have hSeeking := h.seeking (by grind [ProducerPc.holdsLock]) t hNotified
    have hKept := @SameRequests.mIsSeeking _ _ hSame t
    grind [ProducerPc.fresh]
  · intro t p pc hNotified hPush
    rw [hSame.seeker] at hNotified
    have hWoken := h.woken
    grind

theorem announced_push {t : Track} {g : PPMediaBufferGroup} {p : Payload} {pc : PushPc}
    (h : Announced s) (hPc : s.producer = .push t p pc) (hGroup : s.group t = some g)
    (hStep : pushStep s t g p pc = some s') : Announced s' := by
  obtain ⟨hQuiet, hLeaves | ⟨pc', hNext⟩⟩ := pushStep_quiet hStep
  · exact h.same hQuiet.toSameRequests (Or.inr ⟨t, p, pc, hPc, Or.inl hLeaves⟩)
  · refine h.same hQuiet.toSameRequests (Or.inr ⟨t, p, pc, hPc, Or.inr ⟨pc', hNext, ?_⟩⟩)
    intro hNotified hEarly
    have hSeeking : g.mIsSeeking = true :=
      (h.seeking (by simp [hPc, ProducerPc.holdsLock]) t hNotified).resolve_left
        (by simp [hPc, ProducerPc.fresh]) g hGroup
    unfold pushStep at hStep
    cases pc with
    | enter | acquiring | asleep =>
        dsimp only at hStep
        split_ifs at hStep
        all_goals
          obtain rfl := Option.some.inj hStep
          grind [PushPc.early]
    | cmpAbove | frontTest | cmpBelow | middleTest | waiting | store =>
        simp [PushPc.early] at hEarly

/-- Steps that only move the producer, outside of `push_buffer`. -/
theorem Announced.move (h : Announced s) {pc : ProducerPc}
    (hPush : ∀ t p next, pc = .push t p next → next = .enter)
    (hHolds : pc.holdsLock = false → s.producer.holdsLock = false)
    (hFresh : pc.holdsLock = false → pc.fresh = true ∨ s.producer.fresh = false ∨
      ∀ t, s.seeker.notified t = false) : Announced { s with producer := pc } := by
  constructor
  · intro hPc t hNotified
    have hSeeking := h.seeking (hHolds hPc) t hNotified
    grind
  · intro t p next _ hNext
    rw [hPush t p next hNext]
    rfl

theorem announced_producer (hCoherent : Coherent s) (h : Announced s)
    (hStep : producerStep cfg s = some s') : Announced s' := by
  cases produces_of_step hStep with
  | push hPc hGroup hPush =>
      exact announced_push h hPc hGroup hPush
  | seekTest hPc =>
      refine h.move (by split_ifs <;> simp) (by simp [hPc, ProducerPc.holdsLock]) fun _ => ?_
      split_ifs with hSeeking
      · simp [ProducerPc.fresh]
      · exact Or.inr (Or.inr (SeekerPc.notified_eq_false (by simpa [hCoherent.pending] using hSeeking)))
  | seekLock hPc hFree =>
      exact h.move (by simp) (by simp [ProducerPc.holdsLock]) (by simp [ProducerPc.holdsLock])
  | seekFinish hPc =>
      have hAsleep := hCoherent.exclusive (by rw [hPc]; rfl)
      constructor <;> simp [hAsleep, SeekerPc.signal, SeekerPc.notified]
  | seekClear hPc hFree | seekDone hPc hFree =>
      rename_i t
      cases t <;> constructor <;> simp [ProducerPc.holdsLock]
  | seekEndVideo hPc | seekEndAudio hPc =>
      constructor <;> simp [ProducerPc.holdsLock]
  | seekEndFlag hPc | seekBox hPc =>
      constructor <;> simp [ProducerPc.holdsLock]
  | publishVideo hPc | publishAudio hPc =>
      refine ⟨fun _ u hNotified => Or.inr (seeking_onGroup (fun _ => rfl) ?_), by simp⟩
      exact (h.seeking (by simp [hPc, ProducerPc.holdsLock]) u hNotified).resolve_left
        (by simp [hPc, ProducerPc.fresh])
  | publishFlag hPc | exiting hPc =>
      constructor <;> simp [ProducerPc.fresh]
  | pushError hPc hGroup hPush =>
      unfold pushErrorStep at hPush
      split_ifs at hPush <;>
      · obtain rfl := Option.some.inj hPush
        exact h.move (by simp) (by simp [hPc, ProducerPc.holdsLock]) (by simp [hPc, ProducerPc.fresh])
  | loopTest hPc | seekBranch hPc | doneTest hPc =>
      refine h.move ?_ ?_ ?_ <;> split_ifs <;>
        simp [hPc, ProducerPc.holdsLock, ProducerPc.fresh]

theorem announced_readSample {result : ReadResult} {fuel : Nat} (h : Announced s)
    (hStep : readSampleStep cfg s result fuel = some s') : Announced s' := by
  obtain ⟨hPc, pc, hPc', rfl⟩ := readSampleStep_cases hStep
  have hCases := handleRead_cases hPc'
  have hSeeking := h.seeking (by simp [hPc, ProducerPc.holdsLock])
  constructor <;> grind [ProducerPc.fresh, PushPc.early]

/-- A signal reaches the producer asleep in the group, and no other. -/
theorem early_signal {producer : ProducerPc} {t t' : Track} {p : Payload} {pc : PushPc}
    (h : producer.signal t = .push t' p pc) :
    ∃ old, producer = .push t' p old ∧ (old.early = true → pc.early = true) ∧
      (t' = t → old.holdsGroup = false → pc.early = true) := by
  unfold ProducerPc.signal at h
  split at h
  case h_1 u q signalled =>
    obtain ⟨rfl, rfl, rfl⟩ := ProducerPc.push.inj h
    refine ⟨_, rfl, ?_⟩
    cases signalled <;> by_cases hHere : u = t <;> simp [PushPc.early, hHere]
  case h_2 hAwake =>
    refine ⟨pc, h, id, fun _ hFree => ?_⟩
    cases pc with
    | asleep signalled => exact absurd h (hAwake t' p signalled)
    | enter => rfl
    | acquiring | cmpAbove | frontTest | cmpBelow | middleTest | waiting | store =>
        simp [PushPc.holdsGroup] at hFree

theorem signal_notPush {producer : ProducerPc} (t : Track) :
    (producer.signal t).holdsLock = producer.holdsLock ∧
      (producer.signal t).fresh = producer.fresh := by
  rcases signal_cases producer t with hSame | ⟨t', p, signalled, rfl, hMoved⟩
  · simp [hSame]
  · simp [hMoved, ProducerPc.holdsLock, ProducerPc.fresh]

theorem announced_notify {t : Track} {next : SeekerPc} (h : Announced s)
    (hFree : s.groupFree t = true) (hHolds : s.producer.holdsLock = false)
    (hNext : ∀ u, next.notified u = true → u = t ∨ s.seeker.notified u = true) :
    Announced { s.onGroup t (·.notifySeekstart) with
      producer := s.producer.signal t, seeker := next } := by
  constructor
  · intro _ u hNotified
    rw [(signal_notPush t).2]
    by_cases hHere : u = t
    · subst hHere
      refine Or.inr fun g hGroup => ?_
      simp only [State.onGroup_group, if_pos, Option.map_eq_some_iff] at hGroup
      obtain ⟨old, _, rfl⟩ := hGroup
      rfl
    · refine (h.seeking hHolds u ((hNext u hNotified).resolve_left hHere)).imp_right ?_
      simp only [State.onGroup_group, if_neg hHere]
      exact id
  · intro u p pc hNotified hPush
    obtain ⟨old, hOld, hStays, hSignalled⟩ := early_signal hPush
    by_cases hHere : u = t
    · subst hHere
      refine hSignalled rfl ?_
      simp [State.groupFree, hOld, ProducerPc.holdsGroup] at hFree
      exact hFree.1
    · exact hStays (h.woken u p old ((hNext u hNotified).resolve_left hHere) hOld)

theorem announced_seeker (hCoherent : Coherent s) (h : Announced s)
    (hStep : seekerStep s = some s') : Announced s' := by
  cases seeks_of_step hStep with
  | enter hSeeker hFree =>
      constructor <;> simp [SeekerPc.notified]
  | notify hSeeker hFree =>
      rename_i t
      refine announced_notify h hFree ?_ ?_
      · by_contra hHolds
        simpa [hSeeker] using hCoherent.exclusive (by simpa using hHolds)
      · cases t <;> simp [hSeeker, SeekerPc.notified, Track.forall]
  | wait hSeeker =>
      have hAll : ∀ t, s.seeker.notified t = true := by simp [hSeeker, SeekerPc.notified]
      exact ⟨fun hHolds t _ => h.seeking hHolds t (hAll t), fun t p pc _ => h.woken t p pc (hAll t)⟩
  | wake hSeeker hFree =>
      constructor <;> simp [SeekerPc.notified]

/-- A signal of a group keeps the producer where it is or in its push. -/
theorem signal_push (producer : ProducerPc) (t : Track) :
    producer.signal t = producer ∨ ∃ t' p pc, producer = .push t' p pc ∧
      ∃ pc', producer.signal t = .push t' p pc' ∧ (pc.early = true → pc'.early = true) := by
  rcases signal_cases producer t with hSame | ⟨t', p, signalled, hPush, hMoved⟩
  · exact Or.inl hSame
  · refine Or.inr ⟨t', p, _, hPush, _, hMoved, ?_⟩
    cases signalled <;> simp [PushPc.early]

theorem announced_signal (h : Announced s) {t : Track} (hSame : SameRequests s s')
    (hSignal : s'.producer = s.producer.signal t) : Announced s' := by
  refine h.same hSame ?_
  rw [hSignal]
  rcases signal_push s.producer t with hSame | ⟨t', p, pc, hPush, pc', hMoved, hEarly⟩
  · exact Or.inl hSame
  · exact Or.inr ⟨t', p, pc, hPush, Or.inr ⟨pc', hMoved, fun _ => hEarly⟩⟩

theorem announced_control (hCoherent : Coherent s) (h : Announced s)
    (hStep : controlStep s = some s') : Announced s' := by
  cases controls_of_step hStep with
  | notifyStop hControl =>
      rename_i t
      refine @announced_signal s _ h t ⟨rfl, rfl, rfl, rfl, rfl, rfl, rfl, rfl, rfl, fun u => ?_⟩ rfl
      exact s.onGroup_flags t u fun _ => rfl
  | join hControl hExited =>
      exact ⟨h.seeking, h.woken⟩
  | delete hControl hFree =>
      rename_i t
      have hExited := hCoherent.deleting t hControl
      exact ⟨fun _ _ _ => Or.inl (by simp [hExited, ProducerPc.fresh]), by simp [hExited]⟩

theorem announced_step {act : Act} (hCoherent : Coherent s) (h : Announced s)
    (hStep : step cfg s act = some s') : Announced s' := by
  unfold step at hStep
  split_ifs at hStep
  cases act with
  | producer => exact announced_producer hCoherent h hStep
  | readSample result fuel => exact announced_readSample h hStep
  | seekTo seekTimeUs =>
      obtain ⟨hSeeker, rfl⟩ := seekTo_cases hStep
      constructor <;> simp [SeekerPc.notified]
  | seeker => exact announced_seeker hCoherent h hStep
  | start =>
      rcases startStep_cases hStep with rfl | ⟨_, _, _, rfl⟩
      · exact h
      · constructor <;> simp [ProducerPc.fresh]
  | stop =>
      rcases stopStep_cases hStep with rfl | ⟨_, _, rfl⟩
      · exact h
      · exact ⟨h.seeking, h.woken⟩
  | control => exact announced_control hCoherent h hStep
  | spuriousWake | read | reader | release | releaseOrphan =>
      obtain ⟨hQuiet, hSame | ⟨t, hSignal⟩ | ⟨t, p, signalled, hBefore, hAfter⟩⟩ :=
        quiet_of_consumer (by simp) hStep
      · exact h.same hQuiet.toSameRequests (Or.inl hSame)
      · exact announced_signal h hQuiet.toSameRequests hSignal
      · exact h.same hQuiet.toSameRequests
          (Or.inr ⟨t, p, _, hBefore, Or.inr ⟨_, hAfter, by simp [PushPc.early]⟩⟩)

/-- In every run the threads stand as `Coherent` and `Announced` say. -/
theorem run_announced {guard : State → Act → Prop} {acts : List Act} {s : State}
    (run : Run (step cfg) guard initial acts s) : Coherent s ∧ Announced s :=
  ⟨run_coherent run, run.invariant_of (fun _ _ => run_coherent) announced_initial
    fun _ _ _ hCoherent h _ hStep => announced_step hCoherent h hStep⟩

end Steps

end Meet.PPExtractor
