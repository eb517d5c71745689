import Meet.PPExtractor.Threads

/-! What holds in every reachable state of the threads, whatever the callers
do: who can stand where at the same time, and which groups exist. Steps of the
readers and of `push_buffer` are quiet: they leave the requests alone. -/
namespace Meet

/-- The flags of a group that seeks and the end of the stream set. -/
def PPMediaBufferGroup.flags (g : PPMediaBufferGroup) : Bool × Bool :=
  (g.mIsStreamDone, g.mIsSeeking)

namespace PPExtractor

theorem Track.forall {holds : Track → Prop} : (∀ t, holds t) ↔ holds .video ∧ holds .audio :=
  ⟨fun h => ⟨h _, h _⟩, fun h t => by cases t <;> simp [h]⟩

/-- A step that changes nothing about seeks and the end of the stream. -/
structure SameRequests (s s' : State) : Prop where
  isSeeking : s'.isSeeking = s.isSeeking
  isStreamDone : s'.isStreamDone = s.isStreamDone
  mSeekTimeUs : s'.mSeekTimeUs = s.mSeekTimeUs
  seeker : s'.seeker = s.seeker
  reads : s'.reads = s.reads
  seeksServed : s'.seeksServed = s.seeksServed
  seekMark : s'.seekMark = s.seekMark
  servedTime : s'.servedTime = s.servedTime
  servedToEnd : s'.servedToEnd = s.servedToEnd
  flags : ∀ t, (s'.group t).map PPMediaBufferGroup.flags = (s.group t).map PPMediaBufferGroup.flags

/-- A step that also leaves the start and the stop of the extractor alone. -/
structure Quiet (s s' : State) : Prop extends SameRequests s s' where
  mStarted : s'.mStarted = s.mStarted
  control : s'.control = s.control

theorem State.onGroup_group (s : State) (t u : Track) (f : PPMediaBufferGroup → PPMediaBufferGroup) :
    (s.onGroup t f).group u = if u = t then (s.group t).map f else s.group u := by
  simp [State.onGroup, Function.update_apply]

theorem State.onGroup_flags (s : State) (t u : Track) {f : PPMediaBufferGroup → PPMediaBufferGroup}
    (h : ∀ g, (f g).flags = g.flags) :
    ((s.onGroup t f).group u).map PPMediaBufferGroup.flags =
      (s.group u).map PPMediaBufferGroup.flags := by
  rw [State.onGroup_group]
  split_ifs with hu
  · subst hu
    cases s.group u <;> simp [h]
  · rfl

namespace SameRequests

variable {s s' : State}

theorem isSome (h : SameRequests s s') (t : Track) : (s'.group t).isSome = (s.group t).isSome := by
  have := congrArg Option.isSome (h.flags t)
  simpa using this

/-- A group after such a step is a group before it with the same flags. -/
theorem of_group (h : SameRequests s s') {t : Track} {g' : PPMediaBufferGroup}
    (hGroup : s'.group t = some g') : ∃ g, s.group t = some g ∧ g.flags = g'.flags := by
  have hFlags := h.flags t
  rw [hGroup] at hFlags
  cases hOld : s.group t with
  | none => simp [hOld] at hFlags
  | some g => exact ⟨g, rfl, by simpa [hOld] using hFlags.symm⟩

theorem seeksToEnd (h : SameRequests s s') (cfg : Config) :
    s'.seeksToEnd cfg ↔ s.seeksToEnd cfg := by
  rw [State.seeksToEnd, State.startTime, h.mSeekTimeUs, State.seeksToEnd, State.startTime]

end SameRequests

section Steps

variable {cfg : Config} {s s' : State}

theorem pushStep_quiet {t : Track} {g : PPMediaBufferGroup} {p : Payload} {pc : PushPc}
    (hStep : pushStep s t g p pc = some s') :
    Quiet s s' ∧ (s'.producer = .loopTest ∨ ∃ pc', s'.producer = .push t p pc') := by
  have hMove : ∀ pc', Quiet s { s with producer := pc' } := fun _ =>
    ⟨⟨rfl, rfl, rfl, rfl, rfl, rfl, rfl, rfl, rfl, fun _ => rfl⟩, rfl, rfl⟩
  unfold pushStep at hStep
  cases pc with
  | store addr =>
      obtain rfl := Option.some.inj hStep
      refine ⟨⟨⟨rfl, rfl, rfl, rfl, rfl, rfl, rfl, rfl, rfl, fun u => ?_⟩, rfl, rfl⟩, Or.inl rfl⟩
      exact s.onGroup_flags t u fun _ => rfl
  | waiting =>
      obtain rfl := Option.some.inj hStep
      exact ⟨hMove _, by simp⟩
  | enter | acquiring | cmpAbove | frontTest | cmpBelow | middleTest | asleep =>
      dsimp only at hStep
      split_ifs at hStep
      all_goals
        obtain rfl := Option.some.inj hStep
        exact ⟨hMove _, by simp⟩

/-- The end of a push that found the error value as its length. -/
theorem pushErrorStep_cases {g : PPMediaBufferGroup} (hStep : pushErrorStep s g = some s') :
    s' = { s with producer := .loopTest } ∨ s' = { s with producer := .crashed } := by
  unfold pushErrorStep at hStep
  split_ifs at hStep
  · exact Or.inl (Option.some.inj hStep).symm
  · exact Or.inr (Option.some.inj hStep).symm

theorem popStep_quiet {t : Track} {g : PPMediaBufferGroup} (hStep : popStep s t g = some s') :
    Quiet s s' ∧ s'.producer = s.producer := by
  have hMove : ∀ pc, Quiet s (s.setReader t pc) := fun _ =>
    ⟨⟨rfl, rfl, rfl, rfl, rfl, rfl, rfl, rfl, rfl, fun _ => rfl⟩, rfl, rfl⟩
  unfold popStep at hStep
  cases hReader : s.reader t with
  | idle | returned | dangling => simp [hReader] at hStep
  | headTest =>
      simp only [hReader] at hStep
      cases hFrames : g.frames with
      | nil =>
          simp only [hFrames, Option.some.injEq] at hStep
          subst hStep
          exact ⟨hMove _, rfl⟩
      | cons b rest =>
          simp only [hFrames, Option.some.injEq] at hStep
          subst hStep
          refine ⟨⟨⟨rfl, rfl, rfl, rfl, rfl, rfl, rfl, rfl, rfl, fun u => ?_⟩, rfl, rfl⟩, rfl⟩
          exact s.onGroup_flags t u fun _ => rfl
  | rearm =>
      simp only [hReader, Option.some.injEq] at hStep
      subst hStep
      refine ⟨⟨⟨rfl, rfl, rfl, rfl, rfl, rfl, rfl, rfl, rfl, fun u => ?_⟩, rfl, rfl⟩, rfl⟩
      exact s.onGroup_flags t u fun _ => rfl
  | enter | asleep | whileTest | stopTest | doneTest =>
      simp only [hReader] at hStep
      split_ifs at hStep
      all_goals
        obtain rfl := Option.some.inj hStep
        exact ⟨hMove _, rfl⟩

/-- A step inside `pop_buffer` touches its own track only. -/
theorem popStep_local {t : Track} {g : PPMediaBufferGroup} (hStep : popStep s t g = some s') :
    (s.reader t).active = true ∧ s'.reader t ≠ .dangling ∧ s'.orphans = s.orphans ∧
      ∀ u, u ≠ t → s'.reader u = s.reader u ∧ s'.held u = s.held u ∧
        s'.delivered u = s.delivered u ∧ s'.group u = s.group u := by
  have hMove : ∀ pc, pc ≠ .dangling → (s.setReader t pc).reader t ≠ .dangling ∧
      (s.setReader t pc).orphans = s.orphans ∧
      ∀ u, u ≠ t → (s.setReader t pc).reader u = s.reader u ∧
        (s.setReader t pc).held u = s.held u ∧ (s.setReader t pc).delivered u = s.delivered u ∧
        (s.setReader t pc).group u = s.group u := by
    intro pc hPc
    refine ⟨by simpa [State.setReader] using hPc, rfl, fun u hOther => ?_⟩
    simp [State.setReader, hOther]
  unfold popStep at hStep
  cases hReader : s.reader t with
  | idle | returned | dangling => simp [hReader] at hStep
  | headTest =>
      simp only [hReader] at hStep
      cases hFrames : g.frames with
      | nil =>
          simp only [hFrames, Option.some.injEq] at hStep
          subst hStep
          exact ⟨rfl, hMove _ (by simp)⟩
      | cons b rest =>
          simp only [hFrames, Option.some.injEq] at hStep
          subst hStep
          refine ⟨rfl, by simp [State.setReader], rfl, fun u hOther => ?_⟩
          simp [State.setReader, State.onGroup, hOther]
  | rearm =>
      simp only [hReader, Option.some.injEq] at hStep
      subst hStep
      refine ⟨rfl, by simp [State.setReader], rfl, fun u hOther => ?_⟩
      simp [State.setReader, State.onGroup, hOther]
  | enter | asleep | whileTest | stopTest | doneTest =>
      simp only [hReader] at hStep
      split_ifs at hStep
      all_goals
        obtain rfl := Option.some.inj hStep
        exact ⟨rfl, hMove _ (by simp)⟩

/-- The steps of readers and releases, with the signal a release sends. -/
theorem quiet_of_consumer {act : Act}
    (hAct : (∃ t, act = .read t) ∨ (∃ t, act = .reader t) ∨ (∃ t index, act = .release t index) ∨
      (∃ t index, act = .releaseOrphan t index) ∨ act = .spuriousWake)
    (hStep : liveStep cfg s act = some s') :
    Quiet s s' ∧ (s'.producer = s.producer ∨ (∃ t, s'.producer = s.producer.signal t) ∨
      ∃ t p signalled, s.producer = .push t p (.asleep signalled) ∧
        s'.producer = .push t p (.asleep true)) := by
  have hMove : ∀ t pc, Quiet s (s.setReader t pc) := fun _ _ =>
    ⟨⟨rfl, rfl, rfl, rfl, rfl, rfl, rfl, rfl, rfl, fun _ => rfl⟩, rfl, rfl⟩
  rcases hAct with ⟨t, rfl⟩ | ⟨t, rfl⟩ | ⟨t, index, rfl⟩ | ⟨t, index, rfl⟩ | rfl
  · simp only [liveStep, readStep] at hStep
    split at hStep
    all_goals first
      | obtain rfl := Option.some.inj hStep
        exact ⟨hMove t _, Or.inl rfl⟩
      | simp at hStep
  · simp only [liveStep, readerStep] at hStep
    cases hGroup : s.group t with
    | some g =>
        simp only [hGroup] at hStep
        exact ⟨(popStep_quiet hStep).1, Or.inl (popStep_quiet hStep).2⟩
    | none =>
        simp only [hGroup] at hStep
        split at hStep
        all_goals first
          | obtain rfl := Option.some.inj hStep
            exact ⟨hMove t _, Or.inl rfl⟩
          | simp at hStep
  · simp only [liveStep, releaseStep, Option.map_eq_some_iff] at hStep
    obtain ⟨b, _, rfl⟩ := hStep
    refine ⟨⟨⟨rfl, rfl, rfl, rfl, rfl, rfl, rfl, rfl, rfl, fun u => ?_⟩, rfl, rfl⟩, Or.inr (Or.inl ⟨t, rfl⟩)⟩
    exact s.onGroup_flags t u fun _ => rfl
  · simp only [liveStep] at hStep
    split_ifs at hStep
    obtain rfl := Option.some.inj hStep
    exact ⟨⟨⟨rfl, rfl, rfl, rfl, rfl, rfl, rfl, rfl, rfl, fun _ => rfl⟩, rfl, rfl⟩, Or.inl rfl⟩
  · simp only [liveStep] at hStep
    split at hStep
    case h_2 => simp at hStep
    case h_1 t p signalled hProducer =>
      obtain rfl := Option.some.inj hStep
      exact ⟨⟨⟨rfl, rfl, rfl, rfl, rfl, rfl, rfl, rfl, rfl, fun _ => rfl⟩, rfl, rfl⟩,
        Or.inr (Or.inr ⟨t, p, signalled, hProducer, rfl⟩)⟩

end Steps

/-- A step that the readers and the holders of frames do not take part in. -/
structure SameConsumers (s s' : State) : Prop where
  reader : s'.reader = s.reader
  held : s'.held = s.held
  orphans : s'.orphans = s.orphans
  delivered : s'.delivered = s.delivered
  groups : ∀ t, s'.group t = none ↔ s.group t = none

theorem State.onGroup_eq_none (s : State) (t u : Track)
    (f : PPMediaBufferGroup → PPMediaBufferGroup) :
    (s.onGroup t f).group u = none ↔ s.group u = none := by
  rw [State.onGroup_group]
  split_ifs with hHere
  · simp [hHere]
  · rfl

section Consumers

variable {cfg : Config} {s s' : State}

theorem producerStep_consumers (hStep : producerStep cfg s = some s') :
    SameConsumers s s' ∧ s'.control = s.control := by
  have hMove : ∀ pc, SameConsumers s { s with producer := pc } := fun _ =>
    ⟨rfl, rfl, rfl, rfl, fun _ => Iff.rfl⟩
  have hOn : ∀ t f pc, SameConsumers s { s.onGroup t f with producer := pc } := fun t f _ =>
    ⟨rfl, rfl, rfl, rfl, fun u => s.onGroup_eq_none t u f⟩
  cases produces_of_step hStep with
  | push hPc hGroup hPush =>
      rename_i t p pc g
      unfold pushStep at hPush
      cases pc with
      | store addr =>
          obtain rfl := Option.some.inj hPush
          exact ⟨hOn _ _ _, rfl⟩
      | waiting =>
          obtain rfl := Option.some.inj hPush
          exact ⟨hMove _, rfl⟩
      | enter | acquiring | cmpAbove | frontTest | cmpBelow | middleTest | asleep =>
          dsimp only at hPush
          split_ifs at hPush
          all_goals
            obtain rfl := Option.some.inj hPush
            exact ⟨hMove _, rfl⟩
  | pushError hPc hGroup hPush =>
      rcases pushErrorStep_cases hPush with rfl | rfl <;> exact ⟨hMove _, rfl⟩
  | seekEndVideo hPc | seekEndAudio hPc | publishVideo hPc | publishAudio hPc =>
      exact ⟨hOn _ _ _, rfl⟩
  | seekClear hPc hFree | seekDone hPc hFree => exact ⟨hOn _ _ _, rfl⟩
  | seekLock hPc hFree => exact ⟨hMove _, rfl⟩
  | loopTest hPc | seekTest hPc | seekBranch hPc | doneTest hPc => exact ⟨hMove _, rfl⟩
  | seekEndFlag hPc | seekBox hPc | seekFinish hPc | publishFlag hPc | exiting hPc =>
      exact ⟨⟨rfl, rfl, rfl, rfl, fun _ => Iff.rfl⟩, rfl⟩

theorem readSampleStep_consumers {result : ReadResult} {fuel : Nat}
    (hStep : readSampleStep cfg s result fuel = some s') :
    SameConsumers s s' ∧ s'.control = s.control := by
  obtain ⟨-, pc, _, rfl⟩ := readSampleStep_cases hStep
  exact ⟨⟨rfl, rfl, rfl, rfl, fun _ => Iff.rfl⟩, rfl⟩

theorem seekerStep_consumers (hStep : seekerStep s = some s') :
    SameConsumers s s' ∧ s'.control = s.control := by
  cases seeks_of_step hStep with
  | enter hSeeker hFree | notify hSeeker hFree | wake hSeeker hFree =>
      exact ⟨⟨rfl, rfl, rfl, rfl, fun u => by first | exact Iff.rfl | exact s.onGroup_eq_none _ u _⟩, rfl⟩
  | wait hSeeker =>
      exact ⟨⟨rfl, rfl, rfl, rfl, fun _ => Iff.rfl⟩, rfl⟩

end Consumers

/-- A seek has been requested and not yet served. -/
def SeekerPc.pending : SeekerPc → Bool
  | .notify _ | .wait | .asleep false => true
  | _ => false

theorem SeekerPc.eq_asleep {pc : SeekerPc} (hPending : pc.pending = true)
    (hHolds : pc.holdsLock = false) : pc = .asleep false := by
  cases pc with
  | asleep signalled => cases signalled <;> simp_all [pending]
  | idle | enter | notify | wait => simp_all [pending, holdsLock]

/-- The producer thread is not in its loop. -/
def ProducerPc.left : ProducerPc → Bool
  | .off | .exiting | .exited => true
  | _ => false

/-- Where the threads can stand at the same time. -/
@[grind cases]
structure Coherent (s : State) : Prop where
  pending : s.isSeeking = s.seeker.pending
  exclusive : s.producer.holdsLock = true → s.seeker = .asleep false
  seekLock : s.producer = .seekLock → s.isSeeking = true
  running : s.mStarted = true → s.producer.left = false ∧ s.control = .idle
  stopped : s.mStarted = false → s.control = .idle →
    (s.producer = .off ∨ s.producer = .exited) ∧ ∀ t, s.group t = none
  deleting : ∀ t, s.control = .delete t → s.producer = .exited
  deleted : s.control = .delete .audio → s.group .video = none
  pushing : ∀ t p pc, s.producer = .push t p pc → (s.group t).isSome = true
  pushingError : s.producer = .pushError → (s.group .video).isSome = true

theorem coherent_initial : Coherent initial := by
  constructor <;> simp [initial, SeekerPc.pending, ProducerPc.holdsLock]

section Invariant

variable {cfg : Config} {s s' : State}

theorem signal_eq_push {producer : ProducerPc} {t t' : Track} {p : Payload} {pc : PushPc}
    (h : producer.signal t = .push t' p pc) : ∃ pc', producer = .push t' p pc' := by
  unfold ProducerPc.signal at h
  split at h
  · obtain ⟨rfl, rfl, _⟩ := ProducerPc.push.inj h
    exact ⟨_, rfl⟩
  · exact ⟨pc, h⟩

theorem signal_cases (producer : ProducerPc) (t : Track) :
    producer.signal t = producer ∨
      ∃ t' p signalled, producer = .push t' p (.asleep signalled) ∧
        producer.signal t = .push t' p (.asleep (t' = t || signalled)) := by
  unfold ProducerPc.signal
  split
  · exact Or.inr ⟨_, _, _, rfl, rfl⟩
  · exact Or.inl rfl

/-- The producer stays where it is, or in the same push. -/
def ProducerPc.Stays (pc pc' : ProducerPc) : Prop :=
  pc' = pc ∨ ∃ t p next next', pc = .push t p next ∧ pc' = .push t p next'

theorem ProducerPc.stays_signal (pc : ProducerPc) (t : Track) : pc.Stays (pc.signal t) := by
  rcases signal_cases pc t with hSame | ⟨t', p, signalled, hBefore, hAfter⟩
  · exact Or.inl hSame
  · exact Or.inr ⟨t', p, _, _, hBefore, hAfter⟩

/-- A step of the producer that starts no push and leaves the seek, the start and
the groups where they are. -/
theorem Coherent.advance (h : Coherent s) (hLive : s.producer ≠ .off ∧ s.producer ≠ .exited)
    (hSeeking : s'.isSeeking = s.isSeeking ∧ s'.seeker = s.seeker)
    (hControl : s'.mStarted = s.mStarted ∧ s'.control = s.control)
    (hGroups : ∀ t, s'.group t = none ↔ s.group t = none)
    (hHolds : s'.producer.holdsLock = true → s.seeker = .asleep false)
    (hLock : s'.producer = .seekLock → s.isSeeking = true)
    (hLeft : s.mStarted = true → s'.producer.left = false)
    (hPush : s'.producer ≠ .pushError ∧ ∀ t p pc, s'.producer ≠ .push t p pc) : Coherent s' where
  pending := by rw [hSeeking.1, hSeeking.2, h.pending]
  exclusive := by
    rw [hSeeking.2]
    exact hHolds
  seekLock := by
    rw [hSeeking.1]
    exact hLock
  running := by
    rw [hControl.1, hControl.2]
    exact fun hStarted => ⟨hLeft hStarted, (h.running hStarted).2⟩
  stopped := by
    rw [hControl.1, hControl.2]
    exact fun hStopped hIdle => ((h.stopped hStopped hIdle).1.elim hLive.1 hLive.2).elim
  deleting := by
    rw [hControl.2]
    exact fun t hDelete => absurd (h.deleting t hDelete) hLive.2
  deleted := by
    rw [hControl.2, hGroups]
    exact h.deleted
  pushing := fun t p pc hPc => absurd hPc (hPush.2 t p pc)
  pushingError := fun hPc => absurd hPc hPush.1

/-- Steps that leave the seek, the start and the groups where they are, and the
producer in its place or in its push. -/
theorem Coherent.stays (h : Coherent s)
    (hSeeking : s'.isSeeking = s.isSeeking ∧ s'.seeker.pending = s.seeker.pending)
    (hSeeker : s.producer.holdsLock = true → s'.seeker = s.seeker)
    (hControl : s'.mStarted = s.mStarted ∧ s'.control = s.control)
    (hGroups : ∀ u, s'.group u = none ↔ s.group u = none)
    (hProducer : s.producer.Stays s'.producer) : Coherent s' := by
  have hSome : ∀ u, (s.group u).isSome = true → (s'.group u).isSome = true := by
    intro u
    rw [← Option.ne_none_iff_isSome, ← Option.ne_none_iff_isSome]
    exact fun hOld hNew => hOld ((hGroups u).mp hNew)
  have hHolds : s'.producer.holdsLock = s.producer.holdsLock := by
    rcases hProducer with hSame | ⟨_, _, _, _, hBefore, hAfter⟩
    · rw [hSame]
    · rw [hBefore, hAfter]
      rfl
  have hLeft : s'.producer.left = s.producer.left := by
    rcases hProducer with hSame | ⟨_, _, _, _, hBefore, hAfter⟩
    · rw [hSame]
    · rw [hBefore, hAfter]
      rfl
  have hAt : ∀ {pc}, (∀ t p next, pc ≠ .push t p next) → (s'.producer = pc ↔ s.producer = pc) := by
    intro pc hPc
    rcases hProducer with hSame | ⟨_, _, _, _, hBefore, hAfter⟩
    · rw [hSame]
    · rw [hBefore, hAfter]
      exact ⟨fun hHere => absurd hHere.symm (hPc _ _ _), fun hHere => absurd hHere.symm (hPc _ _ _)⟩
  refine ⟨?_, ?_, ?_, ?_, ?_, ?_, ?_, ?_, ?_⟩
  · rw [hSeeking.1, hSeeking.2, h.pending]
  · intro hLock
    rw [hHolds] at hLock
    rw [hSeeker hLock, h.exclusive hLock]
  · rw [hSeeking.1, hAt (by simp)]
    exact h.seekLock
  · rw [hControl.1, hControl.2, hLeft]
    exact h.running
  · rw [hControl.1, hControl.2, hAt (by simp), hAt (by simp)]
    exact fun hStopped hIdle => (h.stopped hStopped hIdle).imp_right fun hNone u =>
      (hGroups u).mpr (hNone u)
  · rw [hControl.2, hAt (by simp)]
    exact h.deleting
  · rw [hControl.2, hGroups]
    exact h.deleted
  · intro u p pc hPush
    rcases hProducer with hSame | ⟨t, q, next, _, hBefore, hAfter⟩
    · exact hSome u (h.pushing u p pc (hSame ▸ hPush))
    · obtain ⟨rfl, rfl, _⟩ := ProducerPc.push.inj (hAfter.symm.trans hPush)
      exact hSome t (h.pushing t q next hBefore)
  · rw [hAt (by simp)]
    exact fun hError => hSome _ (h.pushingError hError)

/-- Quiet steps leave the producer in place, within a push, or behind one. -/
theorem Coherent.quiet (h : Coherent s) (hQuiet : Quiet s s')
    (hProducer : s'.producer = s.producer ∨ ∃ t p pc, s.producer = .push t p pc ∧
      (s'.producer = .loopTest ∨ ∃ pc', s'.producer = .push t p pc')) : Coherent s' := by
  have hNone : ∀ t, s'.group t = none ↔ s.group t = none := by
    intro t
    rw [← Option.isNone_iff_eq_none, ← Option.isNone_iff_eq_none, ← Option.not_isSome,
      ← Option.not_isSome, hQuiet.isSome]
  have hStays : s.producer.Stays s'.producer → Coherent s' :=
    h.stays ⟨hQuiet.isSeeking, by rw [hQuiet.seeker]⟩ (fun _ => hQuiet.seeker)
      ⟨hQuiet.mStarted, hQuiet.control⟩ hNone
  rcases hProducer with hSame | ⟨t, p, pc, hBefore, hAfter | ⟨pc', hAfter⟩⟩
  · exact hStays (Or.inl hSame)
  · exact h.advance (by simp [hBefore]) ⟨hQuiet.isSeeking, hQuiet.seeker⟩
      ⟨hQuiet.mStarted, hQuiet.control⟩ hNone (by simp [hAfter, ProducerPc.holdsLock])
      (by simp [hAfter]) (by simp [hAfter, ProducerPc.left]) (by simp [hAfter])
  · exact hStays (Or.inr ⟨t, p, pc, pc', hBefore, hAfter⟩)

theorem coherent_producer (h : Coherent s) (hStep : producerStep cfg s = some s') :
    Coherent s' := by
  have hStarted := h.running
  have hExclusive := h.exclusive
  cases produces_of_step hStep with
  | push hPc hGroup hPush =>
      exact h.quiet (pushStep_quiet hPush).1 (Or.inr ⟨_, _, _, hPc, (pushStep_quiet hPush).2⟩)
  | seekLock hPc hFree =>
      have hAsleep : s.seeker = .asleep false :=
        SeekerPc.eq_asleep (h.pending.symm.trans (h.seekLock hPc)) hFree
      exact h.advance (by simp [hPc]) ⟨rfl, rfl⟩ ⟨rfl, rfl⟩ (fun _ => Iff.rfl) (fun _ => hAsleep)
        (by simp) (fun _ => rfl) (by simp)
  | seekClear hPc hFree | seekDone hPc hFree =>
      rename_i t
      exact h.advance (by simp [hPc]) ⟨rfl, rfl⟩ ⟨rfl, rfl⟩ (fun u => s.onGroup_eq_none t u _)
        (fun _ => hExclusive (by rw [hPc]; rfl)) (by cases t <;> simp) (fun _ => by cases t <;> rfl)
        (by cases t <;> simp)
  | seekEndVideo hPc | seekEndAudio hPc =>
      exact h.advance (by simp [hPc]) ⟨rfl, rfl⟩ ⟨rfl, rfl⟩ (fun u => s.onGroup_eq_none _ u _)
        (fun _ => hExclusive (by rw [hPc]; rfl)) (by simp) (fun _ => rfl) (by simp)
  | publishVideo hPc | publishAudio hPc =>
      exact h.advance (by simp [hPc]) ⟨rfl, rfl⟩ ⟨rfl, rfl⟩ (fun u => s.onGroup_eq_none _ u _)
        (by simp [ProducerPc.holdsLock]) (by simp) (fun _ => rfl) (by simp)
  | pushError hPc hGroup hPush =>
      rcases pushErrorStep_cases hPush with rfl | rfl <;>
        exact h.advance (by simp [hPc]) ⟨rfl, rfl⟩ ⟨rfl, rfl⟩ (fun _ => Iff.rfl)
          (by simp [ProducerPc.holdsLock]) (by simp) (fun _ => rfl) (by simp)
  | seekFinish hPc =>
      have hAsleep := hExclusive (by rw [hPc]; rfl)
      have hStopped := h.stopped
      have hDeleting := h.deleting
      refine ⟨by simp [hAsleep, SeekerPc.signal, SeekerPc.pending], by simp [ProducerPc.holdsLock],
        by simp, fun hFlag => ⟨rfl, (hStarted hFlag).2⟩, ?_, ?_, h.deleted, by simp, by simp⟩
      · intro hFlag hIdle
        simpa [hPc] using (hStopped hFlag hIdle).1
      · intro t hDelete
        simpa [hPc] using hDeleting t hDelete
  | exiting hPc =>
      have hFlag : s.mStarted = false := by
        by_contra hTrue
        simpa [hPc, ProducerPc.left] using (hStarted (by simpa using hTrue)).1
      refine ⟨h.pending, by simp [ProducerPc.holdsLock], by simp, by simp, fun _ hIdle => ?_,
        fun _ _ => rfl, h.deleted, by simp, by simp⟩
      simpa [hPc] using (h.stopped hFlag hIdle).1
  | loopTest hPc | seekTest hPc =>
      refine h.advance (by simp [hPc]) ⟨rfl, rfl⟩ ⟨rfl, rfl⟩ (fun _ => Iff.rfl) ?_ ?_ ?_ ?_ <;>
        split_ifs <;> simp_all [ProducerPc.holdsLock, ProducerPc.left]
  | seekBranch hPc =>
      refine h.advance (by simp [hPc]) ⟨rfl, rfl⟩ ⟨rfl, rfl⟩ (fun _ => Iff.rfl)
        (fun _ => hExclusive (by rw [hPc]; rfl)) ?_ ?_ ?_ <;>
        split_ifs <;> simp [ProducerPc.left]
  | seekEndFlag hPc | seekBox hPc =>
      exact h.advance (by simp [hPc]) ⟨rfl, rfl⟩ ⟨rfl, rfl⟩ (fun _ => Iff.rfl)
        (fun _ => hExclusive (by rw [hPc]; rfl)) (by simp) (fun _ => rfl) (by simp)
  | doneTest hPc | publishFlag hPc =>
      refine h.advance (by simp [hPc]) ⟨rfl, rfl⟩ ⟨rfl, rfl⟩ (fun _ => Iff.rfl) ?_ ?_ ?_ ?_ <;>
        (try split_ifs) <;> simp [ProducerPc.holdsLock, ProducerPc.left]

theorem enterPush_cases (s : State) (t : Track) (p : Payload) :
    enterPush s t p = .loopTest ∨
      (enterPush s t p = .push t p .enter ∧ p.data ≠ [] ∧ (s.group t).isSome = true) := by
  unfold enterPush
  by_cases hEmpty : p.data = [] <;> cases hGroup : s.group t <;> simp [hEmpty]

/-- Where a result can send the producer. -/
theorem handleRead_cases {fuel : Nat} {result : ReadResult} {pc : ProducerPc}
    (h : handleRead cfg s fuel result = some pc) :
    pc = .loopTest ∨ pc = .crashed ∨ pc = .publish .video ∨
      (pc = .pushError ∧ (s.group .video).isSome = true) ∨
      ∃ t p, pc = .push t p .enter ∧ p.data ≠ [] ∧ (s.group t).isSome = true ∧
        p.origin = s.reads.length := by
  have hPush : ∀ t p, p.origin = s.reads.length → pc = enterPush s t p →
      pc = .loopTest ∨ ∃ t p, pc = .push t p .enter ∧ p.data ≠ [] ∧ (s.group t).isSome = true ∧
        p.origin = s.reads.length := by
    rintro t p hOrigin rfl
    rcases enterPush_cases s t p with hLoop | ⟨hPush, hData, hGroup⟩
    · exact Or.inl hLoop
    · exact Or.inr ⟨t, p, hPush, hData, hGroup, hOrigin⟩
  cases result with
  | wouldBlock => simp_all [handleRead]
  | streamEnd | error => simp_all [handleRead]
  | sample sample =>
      simp only [handleRead] at h
      by_cases hVideo : sample.streamIndex = cfg.mVideoTrackID
      · rw [if_pos hVideo] at h
        obtain ⟨converted, _, rfl⟩ := Option.map_eq_some_iff.mp h
        cases converted with
        | written dst =>
            rcases hPush .video _ rfl rfl with hLoop | hPushed
            · exact Or.inl hLoop
            · exact Or.inr (Or.inr (Or.inr (Or.inr hPushed)))
        | error => cases hNone : s.group .video <;> simp [handleVideo, hNone]
        | checkFailed | fault => simp [handleVideo]
      · rw [if_neg hVideo] at h
        by_cases hAudio : sample.streamIndex = cfg.mAudioTrackID
        · rw [if_pos hAudio] at h
          rcases hPush .audio _ rfl (Option.some.inj h).symm with hLoop | hPushed
          · exact Or.inl hLoop
          · exact Or.inr (Or.inr (Or.inr (Or.inr hPushed)))
        · rw [if_neg hAudio] at h
          exact Or.inr (Or.inr (Or.inl (Option.some.inj h).symm))

theorem coherent_readSample {result : ReadResult} {fuel : Nat} (h : Coherent s)
    (hStep : readSampleStep cfg s result fuel = some s') : Coherent s' := by
  obtain ⟨hPc, pc, hHandled, rfl⟩ := readSampleStep_cases hStep
  have hAdvance : pc ≠ .pushError ∧ (∀ t p next, pc ≠ .push t p next) → pc.holdsLock = false →
      pc ≠ .seekLock → pc.left = false → Coherent
        { s with reads := s.reads ++ [result], producer := pc } :=
    fun hPush hHolds hLock hLeft => h.advance (by simp [hPc]) ⟨rfl, rfl⟩ ⟨rfl, rfl⟩
      (fun _ => Iff.rfl) (by simp [hHolds]) (fun hHere => absurd hHere hLock) (fun _ => hLeft) hPush
  rcases handleRead_cases hHandled with rfl | rfl | rfl | ⟨rfl, hGroup⟩ | ⟨t, p, rfl, _, hGroup, _⟩
  · exact hAdvance (by simp) rfl (by simp) rfl
  · exact hAdvance (by simp) rfl (by simp) rfl
  · exact hAdvance (by simp) rfl (by simp) rfl
  · exact ⟨h.pending, by simp [ProducerPc.holdsLock], by simp,
      fun hStarted => ⟨rfl, (h.running hStarted).2⟩,
      fun hStopped hIdle => by simpa [hPc] using (h.stopped hStopped hIdle).1,
      fun u hDelete => by simpa [hPc] using h.deleting u hDelete, h.deleted, by simp,
      fun _ => hGroup⟩
  · refine ⟨h.pending, by simp [ProducerPc.holdsLock], by simp,
      fun hStarted => ⟨rfl, (h.running hStarted).2⟩,
      fun hStopped hIdle => by simpa [hPc] using (h.stopped hStopped hIdle).1,
      fun u hDelete => by simpa [hPc] using h.deleting u hDelete, h.deleted, ?_, by simp⟩
    intro u q next hPush
    obtain ⟨rfl, _, _⟩ := ProducerPc.push.inj hPush
    exact hGroup

theorem coherent_seeker (h : Coherent s) (hStep : seekerStep s = some s') : Coherent s' := by
  have hFreeOf : s.seeker ≠ .asleep false → s.producer.holdsLock = false := by
    intro hAwake
    by_contra hHolds
    exact hAwake (h.exclusive (by simpa using hHolds))
  cases seeks_of_step hStep with
  | enter hSeeker hFree =>
      exact ⟨rfl, by simp [hFree], fun _ => rfl, h.running, h.stopped, h.deleting, h.deleted,
        h.pushing, h.pushingError⟩
  | notify hSeeker hGroupFree =>
      rename_i t
      have hFree := hFreeOf (by simp [hSeeker])
      refine h.stays ⟨rfl, ?_⟩ (by simp [hFree]) ⟨rfl, rfl⟩ (fun u => s.onGroup_eq_none t u _)
        (s.producer.stays_signal t)
      cases t <;> simp [hSeeker, SeekerPc.pending]
  | wait hSeeker =>
      have hFree := hFreeOf (by simp [hSeeker])
      exact h.stays ⟨rfl, by simp [hSeeker, SeekerPc.pending]⟩ (by simp [hFree]) ⟨rfl, rfl⟩
        (fun _ => Iff.rfl) (Or.inl rfl)
  | wake hSeeker hFree =>
      exact h.stays ⟨rfl, by simp [hSeeker, SeekerPc.pending]⟩ (by simp [hFree]) ⟨rfl, rfl⟩
        (fun _ => Iff.rfl) (Or.inl rfl)

theorem startStep_cases (hStep : startStep cfg s = some s') :
    s' = s ∨ (s.mStarted = false ∧ s.control = .idle ∧ s.lockFree = true ∧
      s' = { s with
        mStarted := true
        group := fun t => if cfg.present t then some (newGroup t) else s.group t
        producer := .loopTest }) := by
  unfold startStep at hStep
  split at hStep
  case h_2 => simp at hStep
  case h_1 hControl =>
    split_ifs at hStep with hFree hAlready
    · exact Or.inl (Option.some.inj hStep).symm
    · refine Or.inr ⟨by simp_all, hControl, by simpa using hFree, (Option.some.inj hStep).symm⟩

theorem coherent_start (h : Coherent s) (hStep : startStep cfg s = some s') : Coherent s' := by
  rcases startStep_cases hStep with rfl | ⟨hStopped, hIdle, hFree, rfl⟩
  · exact h
  · refine ⟨h.pending, by simp [ProducerPc.holdsLock], by simp, fun _ => ⟨rfl, hIdle⟩, by simp, ?_, ?_,
      by simp, by simp⟩
    · intro t hDelete
      simp [hIdle] at hDelete
    · intro hDelete
      simp [hIdle] at hDelete

theorem stopStep_cases (hStep : stopStep s = some s') :
    s' = s ∨ (s.mStarted = true ∧ s.control = .idle ∧
      s' = { s with mStarted := false, control := .notifyStop .video }) := by
  unfold stopStep at hStep
  split at hStep
  case h_2 => simp at hStep
  case h_1 hIdle =>
    obtain rfl := Option.some.inj hStep
    by_cases hStarted : s.mStarted = true
    · exact Or.inr ⟨hStarted, hIdle, if_pos hStarted⟩
    · exact Or.inl (if_neg hStarted)

/-- Steps of `stop` before the groups are deleted. -/
theorem Coherent.stopping (h : Coherent s)
    (hSeeking : s'.isSeeking = s.isSeeking ∧ s'.seeker = s.seeker)
    (hSame : s'.group = s.group ∧ s'.producer = s.producer) (hStopped : s'.mStarted = false)
    (hControl : (∃ t, s'.control = .notifyStop t) ∨ s'.control = .join) : Coherent s' := by
  have hBusy : s'.control ≠ .idle ∧ ∀ t, s'.control ≠ .delete t := by
    rcases hControl with ⟨t, hControl⟩ | hControl <;> simp [hControl]
  refine ⟨?_, ?_, ?_, by simp [hStopped], fun _ hIdle => absurd hIdle hBusy.1,
    fun t hDelete => absurd hDelete (hBusy.2 t), fun hDelete => absurd hDelete (hBusy.2 _), ?_, ?_⟩
  · rw [hSeeking.1, hSeeking.2, h.pending]
  · rw [hSame.2, hSeeking.2]
    exact h.exclusive
  · rw [hSame.2, hSeeking.1]
    exact h.seekLock
  · rw [hSame.1, hSame.2]
    exact h.pushing
  · rw [hSame.1, hSame.2]
    exact h.pushingError

theorem coherent_stop (h : Coherent s) (hStep : stopStep s = some s') : Coherent s' := by
  rcases stopStep_cases hStep with rfl | ⟨_, _, rfl⟩
  · exact h
  · exact h.stopping ⟨rfl, rfl⟩ ⟨rfl, rfl⟩ rfl (Or.inl ⟨_, rfl⟩)

theorem coherent_control (h : Coherent s) (hStep : controlStep s = some s') : Coherent s' := by
  have hStoppedOf : s.control ≠ .idle → s.mStarted = false := by
    intro hBusy
    by_contra hStarted
    exact hBusy (h.running (by simpa using hStarted)).2
  cases controls_of_step hStep with
  | notifyStop hControl =>
      rename_i t
      have hStopped := hStoppedOf (by simp [hControl])
      have hSignalled : Coherent
          { s.onGroup t (·.notifyStop) with producer := s.producer.signal t } :=
        h.stays ⟨rfl, rfl⟩ (fun _ => rfl) ⟨rfl, rfl⟩ (fun u => s.onGroup_eq_none t u _)
          (s.producer.stays_signal t)
      exact hSignalled.stopping ⟨rfl, rfl⟩ ⟨rfl, rfl⟩ hStopped (by cases t <;> simp)
  | join hControl hExited =>
      have hStopped := hStoppedOf (by simp [hControl])
      exact ⟨h.pending, h.exclusive, h.seekLock, by simp [hStopped], by simp, fun _ _ => hExited,
        by simp, h.pushing, h.pushingError⟩
  | delete hControl hFree =>
      rename_i t
      have hStopped := hStoppedOf (by simp [hControl])
      have hExited := h.deleting t hControl
      refine ⟨h.pending, h.exclusive, h.seekLock, by simp [hStopped], fun _ hIdle => ?_,
        fun _ _ => hExited, fun hDelete => ?_, by simp [hExited], by simp [hExited]⟩
      · cases t with
        | video => simp at hIdle
        | audio =>
            refine ⟨Or.inr hExited, Track.forall.mpr ⟨?_, by simp⟩⟩
            simpa using h.deleted hControl
      · cases t with
        | video => simp
        | audio => simp at hDelete

theorem coherent_step {act : Act} (h : Coherent s) (hStep : step cfg s act = some s') :
    Coherent s' := by
  unfold step at hStep
  split_ifs at hStep
  cases act with
  | producer => exact coherent_producer h hStep
  | readSample result fuel => exact coherent_readSample h hStep
  | seekTo seekTimeUs =>
      obtain ⟨hSeeker, rfl⟩ := seekTo_cases hStep
      have hFree : s.producer.holdsLock = false := by
        by_contra hHolds
        simpa [hSeeker] using h.exclusive (by simpa using hHolds)
      exact h.stays ⟨rfl, by simp [hSeeker, SeekerPc.pending]⟩ (by simp [hFree]) ⟨rfl, rfl⟩
        (fun _ => Iff.rfl) (Or.inl rfl)
  | seeker => exact coherent_seeker h hStep
  | start => exact coherent_start h hStep
  | stop => exact coherent_stop h hStep
  | control => exact coherent_control h hStep
  | spuriousWake | read | reader | release | releaseOrphan =>
      obtain ⟨hQuiet, hSame | ⟨t, hSignal⟩ | ⟨t, p, signalled, hBefore, hAfter⟩⟩ :=
        quiet_of_consumer (by simp) hStep
      · exact h.quiet hQuiet (Or.inl hSame)
      · rcases signal_cases s.producer t with hNone | ⟨t', p, signalled, hBefore, hMoved⟩
        · exact h.quiet hQuiet (Or.inl (hSignal.trans hNone))
        · exact h.quiet hQuiet
            (Or.inr ⟨t', p, _, hBefore, Or.inr ⟨_, hSignal.trans hMoved⟩⟩)
      · exact h.quiet hQuiet (Or.inr ⟨t, p, _, hBefore, Or.inr ⟨_, hAfter⟩⟩)

/-- In every run the threads stand as `Coherent` says. -/
theorem run_coherent {guard : State → Act → Prop} {acts : List Act} {s : State}
    (run : Run (step cfg) guard initial acts s) : Coherent s :=
  run.invariant coherent_initial fun _ _ _ h _ hStep => coherent_step h hStep

end Invariant

end PPExtractor
end Meet
