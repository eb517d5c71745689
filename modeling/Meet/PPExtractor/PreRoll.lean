import Meet.PPExtractor.Coherence

/-! The pre-roll of the groups, in runs without seeks and stops. A reader waits
while `mStartBuffering` is set; the producer clears it, and taking the last frame
sets it again. -/
namespace Meet.PPExtractor

/-- The producer has found no room in a group and does not know of a signal. -/
def ProducerPc.waitsIn (t : Track) : ProducerPc → Bool
  | .push t' _ .waiting | .push t' _ (.asleep false) => t' = t
  | _ => false

/-- The last room test that the producer makes fails. -/
def PushPc.noRoom (g : PPMediaBufferGroup) (len : Nat) : PushPc → Bool
  | .frontTest => !(len + 1 < g.mReadingAddr)
  | .middleTest => !(g.mWritingAddr + len + 1 < g.mReadingAddr)
  | _ => false

/-- The track in whose group the producer is about to run out of room. -/
def State.outOfRoom (s : State) : Option Track :=
  match s.producer with
  | .push t p pc => if (s.group t).any fun g => pc.noRoom g p.data.length then some t else none
  | _ => none

/-- A reader of the group has to wait. -/
def State.preRoll (s : State) (t : Track) : Bool := (s.group t).any (·.mStartBuffering)

/-- What a group and its reader keep without seeks and stops: an empty group is
in its pre-roll, and a reader that has passed the pre-roll finds a frame or the
end of the stream. -/
structure GroupArmed (g : PPMediaBufferGroup) (pc : ReaderPc) : Prop where
  running : g.mIsStopping = false
  empty : g.mIsStreamDone = false → g.frames = [] → g.mStartBuffering = true
  passed : pc = .stopTest ∨ pc = .headTest → g.mStartBuffering = false ∨ g.mIsStreamDone = true
  ended : pc = .doneTest → g.mIsStreamDone = true
  noRearm : pc ≠ .rearm

structure Armed (s : State) : Prop where
  seeker : s.seeker = .idle
  control : s.control = .idle
  groups : ∀ t g, s.group t = some g → GroupArmed g (s.reader t)

/-- How the producer changes the groups outside of seeks. -/
def Fills (before after : Track → Option PPMediaBufferGroup) : Prop :=
  ∀ t g', after t = some g' → ∃ g, before t = some g ∧
    (g' = g ∨ (∃ p addr, g' = g.store p addr) ∨ g' = g.notifyStreamdone)

section Producer

variable {cfg : Config} {s s' : State}

theorem fills_refl (group : Track → Option PPMediaBufferGroup) : Fills group group :=
  fun _ g hGroup => ⟨g, hGroup, Or.inl rfl⟩

theorem fills_onGroup {f : PPMediaBufferGroup → PPMediaBufferGroup} (t : Track)
    (h : ∀ g, (∃ p addr, f g = g.store p addr) ∨ f g = g.notifyStreamdone) :
    Fills s.group (s.onGroup t f).group := by
  intro u g' hGroup
  rw [State.onGroup_group] at hGroup
  split_ifs at hGroup with hHere
  · subst hHere
    obtain ⟨g, hOld, rfl⟩ := Option.map_eq_some_iff.mp hGroup
    exact ⟨g, hOld, Or.inr (h g)⟩
  · exact ⟨g', hGroup, Or.inl rfl⟩

/-- The end of a step of the producer: what has become of the groups, and how it
can have come to wait. -/
structure ProducerEffect (s s' : State) : Prop where
  fills : Fills s.group s'.group
  seeker : s'.seeker = s.seeker
  control : s'.control = s.control
  reader : s'.reader = s.reader
  waits : ∀ t, s'.producer.waitsIn t = true → s'.group = s.group ∧ (s.producer.waitsIn t = true ∨
    ∃ p pc g, s.producer = .push t p pc ∧ s.group t = some g ∧ pc.noRoom g p.data.length = true)

theorem producerEffect_push {t : Track} {g : PPMediaBufferGroup} {p : Payload} {pc : PushPc}
    (hPc : s.producer = .push t p pc) (hGroup : s.group t = some g)
    (hStep : pushStep s t g p pc = some s') : ProducerEffect s s' := by
  have hCalm : ∀ pc' : ProducerPc, (∀ u, pc'.waitsIn u = false) →
      ProducerEffect s { s with producer := pc' } := fun pc' hAwake =>
    ⟨fills_refl _, rfl, rfl, rfl, fun u hWaits => by simp [hAwake u] at hWaits⟩
  unfold pushStep at hStep
  cases pc with
  | store addr =>
      obtain rfl := Option.some.inj hStep
      exact ⟨fills_onGroup t fun _ => Or.inl ⟨p, addr, rfl⟩, rfl, rfl, rfl,
        by simp [ProducerPc.waitsIn]⟩
  | waiting =>
      obtain rfl := Option.some.inj hStep
      refine ⟨fills_refl _, rfl, rfl, rfl, fun u hWaits => ⟨rfl, Or.inl ?_⟩⟩
      simpa [hPc, ProducerPc.waitsIn] using hWaits
  | frontTest | middleTest =>
      dsimp only at hStep
      split_ifs at hStep with hRoom
      · obtain rfl := Option.some.inj hStep
        exact hCalm _ (by simp [ProducerPc.waitsIn])
      · obtain rfl := Option.some.inj hStep
        refine ⟨fills_refl _, rfl, rfl, rfl, fun u hWaits => ⟨rfl, Or.inr ?_⟩⟩
        obtain rfl : t = u := by simpa [ProducerPc.waitsIn] using hWaits
        exact ⟨p, _, g, hPc, hGroup, by simpa [PushPc.noRoom] using hRoom⟩
  | enter | acquiring | cmpAbove | cmpBelow | asleep =>
      dsimp only at hStep
      split_ifs at hStep
      all_goals
        obtain rfl := Option.some.inj hStep
        exact hCalm _ (by simp [ProducerPc.waitsIn])

theorem producerEffect (hHolds : s.producer.holdsLock = false) (hStep : producerStep cfg s = some s') :
    ProducerEffect s s' := by
  have hCalm : ∀ (mStarted isStreamDone : Bool) (pc : ProducerPc), (∀ u, pc.waitsIn u = false) →
      ProducerEffect s { s with
        mStarted := mStarted, isStreamDone := isStreamDone, producer := pc } :=
    fun _ _ _ hAwake => ⟨fills_refl _, rfl, rfl, rfl, fun u hWaits => by simp [hAwake u] at hWaits⟩
  cases produces_of_step hStep with
  | push hPc hGroup hPush =>
      exact producerEffect_push hPc hGroup hPush
  | pushError hPc hGroup hPush =>
      rcases pushErrorStep_cases hPush with rfl | rfl <;>
        exact hCalm _ _ _ (by simp [ProducerPc.waitsIn])
  | seekBranch hPc | seekEndVideo hPc | seekEndAudio hPc | seekEndFlag hPc | seekBox hPc
  | seekClear hPc hFree | seekDone hPc hFree | seekFinish hPc =>
      simp [hPc, ProducerPc.holdsLock] at hHolds
  | publishVideo hPc | publishAudio hPc =>
      exact ⟨fills_onGroup _ fun _ => Or.inr rfl, rfl, rfl, rfl, by simp [ProducerPc.waitsIn]⟩
  | seekLock hPc hFree =>
      exact hCalm _ _ _ (by simp [ProducerPc.waitsIn])
  | loopTest hPc | seekTest hPc | doneTest hPc | publishFlag hPc | exiting hPc =>
      refine hCalm _ _ _ fun u => ?_
      try split_ifs
      all_goals rfl

theorem producerEffect_readSample {result : ReadResult} {fuel : Nat}
    (hStep : readSampleStep cfg s result fuel = some s') : ProducerEffect s s' := by
  obtain ⟨hPc, pc, hPc', rfl⟩ := readSampleStep_cases hStep
  refine ⟨fills_refl _, rfl, rfl, rfl, fun u hWaits => ?_⟩
  rcases handleRead_cases hPc' with rfl | rfl | rfl | ⟨rfl, _⟩ | ⟨t, p, rfl, _⟩ <;>
    simp [ProducerPc.waitsIn] at hWaits

/-- Filling a group neither starts its pre-roll nor takes the end back. -/
theorem GroupArmed.fills {g g' : PPMediaBufferGroup} {pc : ReaderPc} (h : GroupArmed g pc)
    (hFills : g' = g ∨ (∃ p addr, g' = g.store p addr) ∨ g' = g.notifyStreamdone) :
    GroupArmed g' pc := by
  obtain ⟨hRunning, hEmpty, hPassed, hEnded, hRearm⟩ := h
  rcases hFills with rfl | ⟨p, addr, rfl⟩ | rfl
  · exact ⟨hRunning, hEmpty, hPassed, hEnded, hRearm⟩
  · refine ⟨hRunning, by simp [PPMediaBufferGroup.store], fun hPc => ?_, hEnded, hRearm⟩
    rcases hPassed hPc with hStart | hDone
    · exact Or.inl (by simp [PPMediaBufferGroup.store, hStart])
    · exact Or.inr hDone
  · exact ⟨hRunning, by simp [PPMediaBufferGroup.notifyStreamdone], fun _ => Or.inr rfl,
      fun _ => rfl, hRearm⟩

theorem Armed.produced (h : Armed s) (hEffect : ProducerEffect s s') : Armed s' := by
  refine ⟨hEffect.seeker.trans h.seeker, hEffect.control.trans h.control, fun t g' hGroup => ?_⟩
  obtain ⟨g, hOld, hFills⟩ := hEffect.fills t g' hGroup
  rw [hEffect.reader]
  exact (h.groups t g hOld).fills hFills

end Producer

section Consumer

variable {cfg : Config} {s s' : State}

/-- Moving a reader to a place where nothing is known of its group. -/
theorem Armed.setReader (h : Armed s) {t : Track} {pc : ReaderPc}
    (hPc : ∀ g, s.group t = some g → GroupArmed g pc) : Armed (s.setReader t pc) := by
  refine ⟨h.seeker, h.control, fun u g hGroup => ?_⟩
  simp only [State.setReader, Function.update_apply]
  split_ifs with hHere
  · subst hHere
    exact hPc g hGroup
  · exact h.groups u g hGroup

/-- What a step of a reader does: it moves alone, and only taking a frame changes
a group. -/
theorem armed_pop {t : Track} {g : PPMediaBufferGroup} (h : Armed s) (hGroup : s.group t = some g)
    (hStep : popStep s t g = some s') :
    Armed s' ∧ (∀ u, u ≠ t → s'.group u = s.group u ∧ s'.reader u = s.reader u) ∧
      (s'.group = s.group ∨ ∃ b, s'.reader t = .returned (.frame b)) := by
  have hArmed := h.groups t g hGroup
  have hMove : ∀ pc, GroupArmed g pc → Armed (s.setReader t pc) ∧
      (∀ u, u ≠ t → (s.setReader t pc).group u = s.group u ∧
        (s.setReader t pc).reader u = s.reader u) ∧
      ((s.setReader t pc).group = s.group ∨
        ∃ b, (s.setReader t pc).reader t = .returned (.frame b)) := by
    intro pc hPc
    refine ⟨h.setReader fun g' hGroup' => ?_, fun u hOther => ⟨rfl, ?_⟩, Or.inl rfl⟩
    · rwa [← Option.some.inj (hGroup.symm.trans hGroup')]
    · simp [State.setReader, hOther]
  obtain ⟨hRunning, hEmpty, hPassed, hEnded, hRearm⟩ := hArmed
  unfold popStep at hStep
  cases hReader : s.reader t with
  | idle | returned | dangling => simp [hReader] at hStep
  | rearm => exact absurd hReader hRearm
  | enter | asleep =>
      simp only [hReader] at hStep
      split_ifs at hStep
      obtain rfl := Option.some.inj hStep
      exact hMove _ ⟨hRunning, hEmpty, by simp, by simp, by simp⟩
  | whileTest =>
      simp only [hReader] at hStep
      split_ifs at hStep with hWait
      · obtain rfl := Option.some.inj hStep
        exact hMove _ ⟨hRunning, hEmpty, by simp, by simp, by simp⟩
      · obtain rfl := Option.some.inj hStep
        refine hMove _ ⟨hRunning, hEmpty, fun _ => ?_, by simp, by simp⟩
        simp only [hRunning, Bool.not_false, Bool.and_true, Bool.and_eq_true, Bool.not_eq_true',
          not_and, Bool.not_eq_false] at hWait
        cases hStart : g.mStartBuffering with
        | false => exact Or.inl rfl
        | true => exact Or.inr (hWait hStart)
  | stopTest =>
      simp only [hReader, hRunning, Bool.false_eq_true, ↓reduceIte] at hStep
      obtain rfl := Option.some.inj hStep
      exact hMove _ ⟨hRunning, hEmpty, fun _ => hPassed (Or.inl hReader), by simp, by simp⟩
  | headTest =>
      simp only [hReader] at hStep
      cases hFrames : g.frames with
      | nil =>
          simp only [hFrames, Option.some.injEq] at hStep
          subst hStep
          refine hMove _ ⟨hRunning, hEmpty, by simp, fun _ => ?_, by simp⟩
          rcases hPassed (Or.inr hReader) with hStart | hDone
          · by_contra hDone
            simp [hEmpty (by simpa using hDone) hFrames] at hStart
          · exact hDone
      | cons b rest =>
          simp only [hFrames, Option.some.injEq] at hStep
          subst hStep
          refine ⟨⟨h.seeker, h.control, fun u g' hGroup' => ?_⟩, fun u hOther => ⟨?_, ?_⟩,
            Or.inr ⟨b, by simp [State.setReader]⟩⟩
          · simp only [State.setReader, State.onGroup_group] at hGroup' ⊢
            split_ifs at hGroup' with hHere
            · subst hHere
              obtain ⟨old, hOld, rfl⟩ := Option.map_eq_some_iff.mp hGroup'
              obtain rfl := Option.some.inj (hGroup.symm.trans hOld)
              simp only [Function.update_self]
              refine ⟨hRunning, fun _ hRest => ?_, by simp, by simp, by simp⟩
              obtain rfl : rest = [] := hRest
              simp [PPMediaBufferGroup.takeFirst]
            · rw [Function.update_of_ne hHere]
              exact h.groups u g' hGroup'
          · simp only [State.setReader, State.onGroup_group, if_neg hOther]
          · simp [State.setReader, State.onGroup, hOther]
  | doneTest =>
      simp only [hReader, hEnded hReader, ↓reduceIte] at hStep
      obtain rfl := Option.some.inj hStep
      exact hMove _ ⟨hRunning, hEmpty, by simp, by simp, by simp⟩

theorem armed_reader {t : Track} (h : Armed s) (hStep : step cfg s (.reader t) = some s') :
    Armed s' ∧ s'.producer = s.producer ∧
      (∀ u, u ≠ t → s'.group u = s.group u ∧ s'.reader u = s.reader u) ∧
      (s'.group = s.group ∨ ∃ b, s'.reader t = .returned (.frame b)) := by
  unfold step at hStep
  split_ifs at hStep
  simp only [liveStep, readerStep] at hStep
  cases hGroup : s.group t with
  | some g =>
      simp only [hGroup] at hStep
      obtain ⟨hArmed, hOthers, hTaken⟩ := armed_pop h hGroup hStep
      exact ⟨hArmed, (popStep_quiet hStep).2, hOthers, hTaken⟩
  | none =>
      simp only [hGroup] at hStep
      split at hStep
      all_goals first
        | obtain rfl := Option.some.inj hStep
          refine ⟨h.setReader (by simp [hGroup]), rfl, fun u hOther => ⟨rfl, ?_⟩, Or.inl rfl⟩
          simp [State.setReader, hOther]
        | simp at hStep

theorem armed_read {t : Track} (h : Armed s) (hStep : step cfg s (.read t) = some s') :
    Armed s' ∧ s'.producer = s.producer ∧ s'.group = s.group ∧
      (∀ u, u ≠ t → s'.reader u = s.reader u) ∧
      (s'.reader t = .enter ∨ s'.reader t = .returned .errorIo) := by
  unfold step at hStep
  split_ifs at hStep
  simp only [liveStep, readStep] at hStep
  have hMoved : s' = s.setReader t (if (s.group t).isSome then .enter else .returned .errorIo) := by
    split at hStep
    all_goals first
      | exact (Option.some.inj hStep).symm
      | simp at hStep
  subst hMoved
  refine ⟨h.setReader fun g hGroup => ?_, rfl, rfl, fun u hOther => ?_, ?_⟩
  · obtain ⟨hRunning, hEmpty, _⟩ := h.groups t g hGroup
    refine ⟨hRunning, hEmpty, ?_, ?_, ?_⟩ <;> split_ifs <;> simp
  · simp [State.setReader, hOther]
  · simp only [State.setReader, Function.update_self]
    split_ifs <;> simp

theorem waitsIn_signal {producer : ProducerPc} {t u : Track}
    (h : (producer.signal t).waitsIn u = true) : producer.waitsIn u = true := by
  rcases signal_cases producer t with hSame | ⟨t', p, signalled, rfl, hMoved⟩
  · rwa [hSame] at h
  · rw [hMoved] at h
    cases signalled with
    | true => simp [ProducerPc.waitsIn] at h
    | false =>
        by_cases hHere : t' = t
        · simp [hHere, ProducerPc.waitsIn] at h
        · simpa [hHere, ProducerPc.waitsIn] using h

/-- A release changes the reading address and may wake the producer. -/
theorem armed_release {t : Track} {index : Nat} {act : Act} (h : Armed s)
    (hAct : act = .release t index ∨ act = .releaseOrphan t index)
    (hStep : step cfg s act = some s') :
    Armed s' ∧ s'.reader = s.reader ∧ (∀ u, s'.preRoll u = s.preRoll u) ∧
      ∀ u, s'.producer.waitsIn u = true → s.producer.waitsIn u = true := by
  unfold step at hStep
  split_ifs at hStep
  rcases hAct with rfl | rfl
  · simp only [liveStep, releaseStep, Option.map_eq_some_iff] at hStep
    obtain ⟨b, _, rfl⟩ := hStep
    refine ⟨⟨h.seeker, h.control, fun u g hGroup => ?_⟩, rfl, fun u => ?_,
      fun u hWaits => waitsIn_signal hWaits⟩
    · rw [State.onGroup_group] at hGroup
      split_ifs at hGroup with hHere
      · subst hHere
        obtain ⟨old, hOld, rfl⟩ := Option.map_eq_some_iff.mp hGroup
        obtain ⟨hRunning, hEmpty, hPassed, hEnded, hRearm⟩ := h.groups u old hOld
        exact ⟨hRunning, hEmpty, hPassed, hEnded, hRearm⟩
      · exact h.groups u g hGroup
    · simp only [State.preRoll, State.onGroup_group]
      split_ifs with hHere
      · subst hHere
        cases s.group u <;> rfl
      · rfl
  · simp only [liveStep] at hStep
    split_ifs at hStep
    obtain rfl := Option.some.inj hStep
    exact ⟨⟨h.seeker, h.control, h.groups⟩, rfl, fun _ => rfl, fun _ hWaits => hWaits⟩

/-- A start creates groups in their pre-roll, for a producer that has just begun. -/
theorem armed_start (h : Armed s) (hReaders : ∀ t, (s.reader t).active = false)
    (hStep : step cfg s .start = some s') :
    s' = s ∨ (Armed s' ∧ s'.reader = s.reader ∧ s'.producer = .loopTest) := by
  unfold step at hStep
  split_ifs at hStep
  rcases startStep_cases hStep with rfl | ⟨_, _, _, rfl⟩
  · exact Or.inl rfl
  · refine Or.inr ⟨⟨h.seeker, h.control, fun t g hGroup => ?_⟩, rfl, rfl⟩
    dsimp only at hGroup ⊢
    split_ifs at hGroup
    · obtain rfl := Option.some.inj hGroup
      have hReader := hReaders t
      refine ⟨?_, ?_, ?_, ?_, ?_⟩
      · cases t <;> rfl
      · cases t <;> exact fun _ _ => rfl
      all_goals grind [ReaderPc.active]
    · exact h.groups t g hGroup

theorem armed_initial : Armed initial := ⟨rfl, rfl, by simp [initial]⟩

/-- The steps of the producer thread. -/
theorem producerEffect_step {act : Act} (hCoherent : Coherent s) (h : Armed s)
    (hAct : act = .producer ∨ (∃ result fuel, act = .readSample result fuel) ∨
      act = .spuriousWake) (hStep : step cfg s act = some s') : ProducerEffect s s' := by
  unfold step at hStep
  split_ifs at hStep
  rcases hAct with rfl | ⟨result, fuel, rfl⟩ | rfl
  · refine producerEffect ?_ hStep
    by_contra hHolds
    simpa [h.seeker] using hCoherent.exclusive (by simpa using hHolds)
  · exact producerEffect_readSample hStep
  · simp only [liveStep] at hStep
    split at hStep
    case h_2 => simp at hStep
    case h_1 =>
      obtain rfl := Option.some.inj hStep
      exact ⟨fills_refl _, rfl, rfl, rfl, by simp [ProducerPc.waitsIn]⟩

end Consumer

end Meet.PPExtractor
