import Meet.PPExtractor.Announce

/-! The second half of a seek: the caller of `seekTo` sleeps on
`mPauseCondition` until the producer has served it. `stop` neither takes `mLock`
nor signals that condition, so it must not be called while a seek is under way,
unless the producer has found the request. -/
namespace Meet.PPExtractor

/-- A call of `seekTo` has not been served yet. -/
def SeekerPc.underWay : SeekerPc → Bool
  | .enter | .notify _ | .wait | .asleep false => true
  | .idle | .asleep true => false

/-- The producer stands between its loop test and the end of the seek branch. -/
def ProducerPc.serves : ProducerPc → Bool
  | .seekTest | .seekLock | .seekBranch | .seekEnd _ | .seekEndFlag | .seekBox | .seekClear _
  | .seekDone _ | .seekFinish => true
  | _ => false

/-- `seekTo` is called while the extractor is started, or before its first
start; `stop` stores its flag during a seek only when the producer is about to
serve it. -/
def SeekGuard (s : State) : Act → Prop
  | .seekTo _ => s.mStarted = true ∨ s.producer = .off
  | .stop => s.mStarted = true → s.seeker.underWay = true →
      s.isSeeking = true ∧ s.producer.serves = true
  | _ => True

instance (s : State) (act : Act) : Decidable (SeekGuard s act) :=
  match act with
  | .seekTo _ => inferInstanceAs (Decidable (_ ∨ _))
  | .stop => inferInstanceAs (Decidable (_ → _ → _))
  | .producer | .readSample _ _ | .spuriousWake | .seeker | .start | .control | .read _
  | .reader _ | .release _ _ | .releaseOrphan _ _ => .isTrue trivial

/-- A seek under way has a producer to serve it. -/
def SeekHeard (s : State) : Prop :=
  s.seeker.underWay = true → s.producer = .off ∨ s.mStarted = true ∨
    (s.isSeeking = true ∧ s.producer.serves = true)

section Steps

variable {cfg : Config} {s s' : State}

theorem signal_serves (producer : ProducerPc) (t : Track) :
    (producer.signal t).serves = producer.serves ∧ (producer.signal t = .off ↔ producer = .off) := by
  rcases signal_cases producer t with hSame | ⟨t', p, signalled, rfl, hMoved⟩
  · simp [hSame]
  · simp [hMoved, ProducerPc.serves]

/-- Quiet steps neither start nor end a seek. -/
theorem SeekHeard.quiet (h : SeekHeard s) (hQuiet : Quiet s s')
    (hProducer : s'.producer = s.producer ∨ ∃ t p pc, s.producer = .push t p pc) :
    SeekHeard s' := by
  unfold SeekHeard at h ⊢
  rw [hQuiet.seeker, hQuiet.mStarted, hQuiet.isSeeking]
  grind [ProducerPc.serves]

/-- The producer does not leave the seek branch while a seek is requested. -/
theorem SeekHeard.advance (h : SeekHeard s) (hOn : s.producer ≠ .off)
    (hSame : s'.seeker = s.seeker ∧ s'.mStarted = s.mStarted ∧ s'.isSeeking = s.isSeeking)
    (hServes : s.isSeeking = true → s.producer.serves = true → s'.producer.serves = true) :
    SeekHeard s' := by
  intro hUnderWay
  rw [hSame.1] at hUnderWay
  rw [hSame.2.1, hSame.2.2]
  rcases h hUnderWay with hOff | hStarted | ⟨hSeeking, hServing⟩
  · exact absurd hOff hOn
  · exact Or.inr (Or.inl hStarted)
  · exact Or.inr (Or.inr ⟨hSeeking, hServes hSeeking hServing⟩)

theorem seekHeard_producer (hCoherent : Coherent s) (h : SeekHeard s)
    (hStep : producerStep cfg s = some s') : SeekHeard s' := by
  cases produces_of_step hStep with
  | push hPc hGroup hPush =>
      rename_i t p pc g
      exact h.quiet (pushStep_quiet hPush).1 (Or.inr ⟨t, p, pc, hPc⟩)
  | seekLock hPc hFree =>
      exact h.advance (by simp [hPc]) ⟨rfl, rfl, rfl⟩ fun _ _ => rfl
  | seekClear hPc hFree | seekDone hPc hFree =>
      rename_i t
      exact h.advance (by simp [hPc]) ⟨rfl, rfl, rfl⟩ fun _ _ => by cases t <;> rfl
  | seekEndVideo hPc | seekEndAudio hPc =>
      exact h.advance (by simp [hPc]) ⟨rfl, rfl, rfl⟩ fun _ _ => rfl
  | publishVideo hPc | publishAudio hPc =>
      exact h.advance (by simp [hPc]) ⟨rfl, rfl, rfl⟩ (by simp [hPc, ProducerPc.serves])
  | pushError hPc hGroup hPush =>
      rcases pushErrorStep_cases hPush with rfl | rfl <;>
        exact h.advance (by simp [hPc]) ⟨rfl, rfl, rfl⟩ (by simp [hPc, ProducerPc.serves])
  | seekFinish hPc =>
      have hAsleep := hCoherent.exclusive (by rw [hPc]; rfl)
      simp [SeekHeard, hAsleep, SeekerPc.signal, SeekerPc.underWay]
  | exiting hPc =>
      intro hUnderWay
      rcases h hUnderWay with hOff | hStarted | ⟨_, hServing⟩
      · simp [hPc] at hOff
      · simpa [hPc, ProducerPc.left] using (hCoherent.running hStarted).1
      · simp [hPc, ProducerPc.serves] at hServing
  | seekTest hPc =>
      exact h.advance (by simp [hPc]) ⟨rfl, rfl, rfl⟩ fun hSeeking _ => by simp [hSeeking, ProducerPc.serves]
  | seekBranch hPc =>
      refine h.advance (by simp [hPc]) ⟨rfl, rfl, rfl⟩ fun _ _ => ?_
      split_ifs <;> rfl
  | seekEndFlag hPc | seekBox hPc =>
      exact h.advance (by simp [hPc]) ⟨rfl, rfl, rfl⟩ fun _ _ => rfl
  | loopTest hPc | doneTest hPc | publishFlag hPc =>
      exact h.advance (by simp [hPc]) ⟨rfl, rfl, rfl⟩ (by simp [hPc, ProducerPc.serves])

theorem seekHeard_seeker (h : SeekHeard s) (hStep : seekerStep s = some s') : SeekHeard s' := by
  unfold SeekHeard at h ⊢
  cases seeks_of_step hStep with
  | enter hSeeker hFree =>
      grind [SeekerPc.underWay]
  | notify hSeeker hFree =>
      rename_i t
      obtain ⟨hServes, hOff⟩ := signal_serves s.producer t
      intro _
      simp only [hServes, hOff]
      exact h (by simp [hSeeker, SeekerPc.underWay])
  | wait hSeeker =>
      exact fun _ => h (by simp [hSeeker, SeekerPc.underWay])
  | wake hSeeker hFree =>
      simp [SeekerPc.underWay]

theorem seekHeard_control (h : SeekHeard s) (hStep : controlStep s = some s') : SeekHeard s' := by
  unfold SeekHeard at h ⊢
  cases controls_of_step hStep with
  | notifyStop hControl =>
      rename_i t
      obtain ⟨hServes, hOff⟩ := signal_serves s.producer t
      simp only [hServes, hOff]
      exact h
  | join hControl hExited | delete hControl hFree =>
      exact h

theorem seekHeard_step {act : Act} (hCoherent : Coherent s) (h : SeekHeard s)
    (hGuard : SeekGuard s act) (hStep : step cfg s act = some s') : SeekHeard s' := by
  unfold step at hStep
  split_ifs at hStep
  cases act with
  | producer => exact seekHeard_producer hCoherent h hStep
  | readSample result fuel =>
      obtain ⟨hPc, pc, _, rfl⟩ := readSampleStep_cases hStep
      unfold SeekHeard at h ⊢
      grind [ProducerPc.serves]
  | seekTo seekTimeUs =>
      obtain ⟨hSeeker, rfl⟩ := seekTo_cases hStep
      exact fun _ => hGuard.symm.imp_right Or.inl
  | seeker => exact seekHeard_seeker h hStep
  | start =>
      rcases startStep_cases hStep with rfl | ⟨_, _, _, rfl⟩
      · exact h
      · exact fun _ => Or.inr (Or.inl rfl)
  | stop =>
      rcases stopStep_cases hStep with rfl | ⟨hStarted, _, rfl⟩
      · exact h
      · exact fun hUnderWay => Or.inr (Or.inr (hGuard hStarted hUnderWay))
  | control => exact seekHeard_control h hStep
  | spuriousWake | read | reader | release | releaseOrphan =>
      obtain ⟨hQuiet, hProducer⟩ := quiet_of_consumer (by simp) hStep
      refine h.quiet hQuiet ?_
      rcases hProducer with hSame | ⟨t, hSignal⟩ | ⟨t, p, signalled, hBefore, _⟩
      · exact Or.inl hSame
      · rw [hSignal]
        rcases signal_cases s.producer t with hSame | ⟨t', p, signalled, hPush, _⟩
        · exact Or.inl hSame
        · exact Or.inr ⟨t', p, _, hPush⟩
      · exact Or.inr ⟨t, p, _, hBefore⟩

theorem seekHeard_initial : SeekHeard initial := by
  simp [SeekHeard, initial, SeekerPc.underWay]

end Steps

/-- How many steps of the producer remain, at most, until it has served a seek
that has been announced to both groups. -/
def ProducerPc.rank : ProducerPc → Nat
  | .doneTest => 17
  | .reading => 16
  | .publish .video => 15
  | .publish .audio | .push _ _ .enter | .push _ _ (.asleep _) => 14
  | .publishFlag | .pushError | .push _ _ _ | .off => 13
  | .loopTest => 12
  | .seekTest => 11
  | .seekLock => 10
  | .seekBranch => 9
  | .seekEnd .video => 8
  | .seekEnd .audio => 7
  | .seekEndFlag | .seekBox => 6
  | .seekClear .video => 5
  | .seekDone .video => 4
  | .seekClear .audio => 3
  | .seekDone .audio => 2
  | .seekFinish => 1
  | .exiting | .exited | .crashed => 0

/-- The steps of the producer thread. -/
def Act.byProducer : Act → Bool
  | .producer | .readSample _ _ => true
  | _ => false

/-- A seek sleeps, with what is known of every state of a run. -/
structure Waiting (s : State) : Prop where
  asleep : s.seeker = .asleep false
  coherent : Coherent s
  announced : Announced s
  heard : SeekHeard s

section Waiting

variable {cfg : Config} {s s' : State}

theorem Waiting.isSeeking (h : Waiting s) : s.isSeeking = true := by
  rw [h.coherent.pending, h.asleep]
  rfl

theorem Waiting.notified (h : Waiting s) (t : Track) : s.seeker.notified t = true := by
  simp [h.asleep, SeekerPc.notified]

/-- A sleeping seek has a producer that has not left its loop. -/
theorem Waiting.not_left (h : Waiting s) : s.producer ≠ .exiting ∧ s.producer ≠ .exited := by
  have hHeard := h.heard (by simp [h.asleep, SeekerPc.underWay])
  have hRunning := h.coherent.running
  grind [ProducerPc.serves, ProducerPc.left]

theorem rank_signal (producer : ProducerPc) (t : Track) :
    (producer.signal t).rank = producer.rank := by
  rcases signal_cases producer t with hSame | ⟨t', p, signalled, rfl, hMoved⟩
  · rw [hSame]
  · rw [hMoved]
    rfl

/-- In `push_buffer` the producer only wakes up, sees the seek and leaves. -/
theorem rank_push {t : Track} {g : PPMediaBufferGroup} {p : Payload} {pc : PushPc}
    (h : Waiting s) (hPc : s.producer = .push t p pc) (hGroup : s.group t = some g)
    (hStep : pushStep s t g p pc = some s') : s'.producer.rank < s.producer.rank := by
  have hEarly := h.announced.woken t p pc (h.notified t) hPc
  have hSeeking : g.mIsSeeking = true :=
    (h.announced.seeking (by simp [hPc, ProducerPc.holdsLock]) t (h.notified t)).resolve_left
      (by simp [hPc, ProducerPc.fresh]) g hGroup
  unfold pushStep at hStep
  rw [hPc]
  cases pc with
  | enter | acquiring | asleep =>
      dsimp only at hStep
      split_ifs at hStep
      all_goals
        obtain rfl := Option.some.inj hStep
        simp_all [ProducerPc.rank]
  | cmpAbove | frontTest | cmpBelow | middleTest | waiting | store => simp [PushPc.early] at hEarly

theorem rank_producer (h : Waiting s) (h' : Waiting s') (hStep : producerStep cfg s = some s') :
    s'.producer.rank < s.producer.rank := by
  have hSeeking := h.isSeeking
  have hLeft := h'.not_left
  cases produces_of_step hStep with
  | push hPc hGroup hPush =>
      exact rank_push h hPc hGroup hPush
  | exiting hPc => exact absurd hPc h.not_left.1
  | seekFinish hPc =>
      simpa [h.asleep, SeekerPc.signal] using h'.asleep
  | seekLock hPc hFree =>
      simp [hPc, ProducerPc.rank]
  | seekClear hPc hFree | seekDone hPc hFree =>
      rename_i t
      cases t <;> simp [hPc, ProducerPc.rank]
  | seekEndVideo hPc | seekEndAudio hPc | publishVideo hPc | publishAudio hPc =>
      simp [hPc, ProducerPc.rank]
  | pushError hPc hGroup hPush =>
      unfold pushErrorStep at hPush
      split_ifs at hPush <;>
      · obtain rfl := Option.some.inj hPush
        simp [hPc, ProducerPc.rank]
  | loopTest hPc | seekTest hPc | seekBranch hPc | seekEndFlag hPc | seekBox hPc | doneTest hPc
  | publishFlag hPc =>
      grind [ProducerPc.rank]

theorem rank_readSample {result : ReadResult} {fuel : Nat}
    (hStep : readSampleStep cfg s result fuel = some s') :
    s'.producer.rank < s.producer.rank := by
  obtain ⟨hPc, pc, hPc', rfl⟩ := readSampleStep_cases hStep
  rw [hPc]
  rcases handleRead_cases hPc' with rfl | rfl | rfl | ⟨rfl, _⟩ | ⟨t, p, rfl, _⟩ <;>
    simp [ProducerPc.rank]

/-- While a seek sleeps, each step of the producer brings it closer to its end
and no other step takes it back. -/
theorem rank_step {act : Act} (h : Waiting s) (h' : Waiting s')
    (hStep : step cfg s act = some s') :
    s'.producer.rank + (if act.byProducer then 1 else 0) ≤ s.producer.rank := by
  unfold step at hStep
  split_ifs at hStep
  cases act with
  | producer => exact rank_producer h h' hStep
  | readSample result fuel => exact rank_readSample hStep
  | seekTo seekTimeUs => simp [liveStep, h.asleep] at hStep
  | seeker => simp [liveStep, seekerStep, h.asleep] at hStep
  | start =>
      rcases startStep_cases hStep with rfl | ⟨hStopped, hIdle, _, rfl⟩
      · exact Nat.le_refl _
      · have hOff := (h.coherent.stopped hStopped hIdle).1.resolve_right h.not_left.2
        simp [hOff, ProducerPc.rank, Act.byProducer]
  | stop =>
      rcases stopStep_cases hStep with rfl | ⟨_, _, rfl⟩ <;> exact Nat.le_refl _
  | control =>
      cases controls_of_step hStep with
      | notifyStop hControl => exact Nat.le_of_eq (rank_signal s.producer _)
      | join hControl hExited | delete hControl hFree => exact Nat.le_refl _
  | spuriousWake | read | reader | release | releaseOrphan =>
      obtain ⟨_, hSame | ⟨t, hSignal⟩ | ⟨t, p, signalled, hBefore, hAfter⟩⟩ :=
        quiet_of_consumer (by simp) hStep
      · rw [hSame]
        exact Nat.le_refl _
      · rw [hSignal, rank_signal]
        exact Nat.le_refl _
      · rw [hBefore, hAfter]
        exact Nat.le_refl _

/-- Nothing but a reader in its group keeps the producer from moving on, outside
of `readSampleEx2`. -/
theorem Waiting.enabled (h : Waiting s) (hProducer : s.producer ≠ .off ∧ s.producer ≠ .reading ∧
    s.producer ≠ .crashed) (hReaders : ∀ t, (s.reader t).holdsGroup = false) :
    (step cfg s .producer).isSome = true := by
  have hExists := h.coherent.pushing
  have hLeft := h.not_left
  rw [step, if_neg hProducer.2.2]
  simp only [liveStep]
  cases hPc : s.producer with
  | push t p pc =>
      obtain ⟨g, hGroup⟩ := Option.isSome_iff_exists.mp (h.coherent.pushing t p pc hPc)
      have hEarly := h.announced.woken t p pc (h.notified t) hPc
      simp only [producerStep, hPc, hGroup, Option.bind_some, pushStep, hReaders]
      cases pc with
      | asleep signalled => cases signalled <;> simp_all [PushPc.early]
      | enter | acquiring => simp only [Bool.false_eq_true, ↓reduceIte]; split_ifs <;> rfl
      | cmpAbove | frontTest | cmpBelow | middleTest | waiting | store =>
          simp [PushPc.early] at hEarly
  | pushError =>
      obtain ⟨g, hGroup⟩ := Option.isSome_iff_exists.mp (h.coherent.pushingError hPc)
      simp only [producerStep, hPc, hGroup, Option.bind_some, pushErrorStep, hReaders,
        Bool.false_eq_true, ↓reduceIte]
      split_ifs <;> rfl
  | seekEnd t | publish t => cases t <;> simp [producerStep, hPc]
  | seekLock => simp [producerStep, hPc, h.asleep, SeekerPc.holdsLock]
  | seekClear | seekDone => simp [producerStep, hPc, hReaders]
  | off | reading | crashed | exiting | exited => simp_all
  | loopTest | seekTest | seekBranch | seekEndFlag | seekBox | seekFinish | doneTest
  | publishFlag => simp [producerStep, hPc]

/-- A reader that holds the lock of its group goes on. -/
theorem reader_enabled {t : Track} (hAlive : s.producer ≠ .crashed)
    (hHolds : (s.reader t).holdsGroup = true) : (step cfg s (.reader t)).isSome = true := by
  rw [step, if_neg hAlive]
  simp only [liveStep, readerStep, popStep]
  cases hReader : s.reader t <;> simp [hReader, ReaderPc.holdsGroup] at hHolds <;>
    cases hGroup : s.group t <;> simp <;> split <;> simp

end Waiting

theorem run_waiting {cfg : Config} {acts : List Act} {s : State}
    (run : Run (step cfg) SeekGuard initial acts s) (hAsleep : s.seeker = .asleep false) :
    Waiting s where
  asleep := hAsleep
  coherent := (run_announced run).1
  announced := (run_announced run).2
  heard := run.invariant_of (fun _ _ => run_coherent) seekHeard_initial
    fun _ _ _ hCoherent h hGuard hStep => seekHeard_step hCoherent h hGuard hStep

/-- What a sleeping call of `seekTo` can rely on: the producer is in its loop,
it or a reader that holds the lock of a group can move, and after eighteen of its
steps the call has been woken. -/
structure SeekServed (cfg : Config) (s : State) : Prop where
  alive : s.producer ≠ .exiting ∧ s.producer ≠ .exited
  enabled : s.producer = .off ∨ s.producer = .crashed ∨ s.producer = .reading ∨
    (step cfg s .producer).isSome = true ∨ ∃ t, (step cfg s (.reader t)).isSome = true
  woken : ∀ later s', Run (step cfg) SeekGuard s later s' → 17 < later.countP Act.byProducer →
    ∃ first second middle, later = first ++ second ∧ Run (step cfg) SeekGuard s first middle ∧
      middle.seeker ≠ .asleep false

theorem Waiting.enabled_or_reader {cfg : Config} {s : State} (h : Waiting s) :
    s.producer = .off ∨ s.producer = .crashed ∨ s.producer = .reading ∨
      (step cfg s .producer).isSome = true ∨ ∃ t, (step cfg s (.reader t)).isSome = true := by
  by_contra hStuck
  simp only [not_or, not_exists] at hStuck
  obtain ⟨hOff, hCrashed, hReading, hProducer, hReader⟩ := hStuck
  refine hProducer (h.enabled ⟨hOff, hReading, hCrashed⟩ fun t => ?_)
  by_contra hHolds
  exact hReader t (reader_enabled hCrashed (by simpa using hHolds))

theorem rank_le (producer : ProducerPc) : producer.rank ≤ 17 := by
  unfold ProducerPc.rank
  split <;> omega

/-- In every guarded run a sleeping call of `seekTo` is served. -/
theorem run_seekServed {cfg : Config} {acts : List Act} {s : State}
    (run : Run (step cfg) SeekGuard initial acts s) (hAsleep : s.seeker = .asleep false) :
    SeekServed cfg s := by
  have hWaiting := run_waiting run hAsleep
  refine ⟨hWaiting.not_left, hWaiting.enabled_or_reader, fun later s' hLater hEnough => ?_⟩
  have hRank := rank_le s.producer
  obtain ⟨first, second, middle, rfl, hFirst, hLeft⟩ :=
    @Run.exists_leaves _ _ (step cfg) SeekGuard Waiting (fun s => s.producer.rank) Act.byProducer
      (fun _ _ _ h _ hStep h' => rank_step h h' hStep) s s' later hLater (by omega)
  exact ⟨first, second, middle, rfl, hFirst, fun hStill =>
    hLeft (run_waiting (run.trans hFirst) hStill)⟩

/-- A seek before the first sample. -/
def seekFirst : List Act := [.start, .seekTo 0, .seeker, .seeker, .seeker, .seeker]

theorem run_seekServed_seekFirst : ∃ s, Run (step twoTracks) SeekGuard initial seekFirst s ∧
    s.seeker = .asleep false ∧ SeekServed twoTracks s := by
  obtain ⟨s, run, hAsleep⟩ := Run.exists_of_execGuarded (fun s => s.seeker = .asleep false)
    (show (execGuarded (step twoTracks) SeekGuard initial seekFirst).any _ = true by decide)
  exact ⟨s, run, hAsleep, run_seekServed run hAsleep⟩

/-- `stop` stores its flag after `seekTo` has been entered, and the producer
leaves its loop before the seek takes the lock. -/
def stopDuringSeek : List Act :=
  [.start, .seekTo 0, .stop, .producer, .producer, .seeker, .seeker, .seeker, .seeker]

theorem exists_run_not_seekServed :
    ∃ s, Run (step twoTracks) unguarded initial stopDuringSeek s ∧ s.seeker = .asleep false ∧
      s.producer = .exited ∧ ¬ SeekServed twoTracks s := by
  obtain ⟨s, run, hAsleep, hExited⟩ := Run.exists_of_exec
    (fun s => s.seeker = .asleep false ∧ s.producer = .exited)
    (show (exec (step twoTracks) initial stopDuringSeek).any _ = true by decide)
  exact ⟨s, run, hAsleep, hExited, fun h => h.alive.2 hExited⟩

end Meet.PPExtractor
