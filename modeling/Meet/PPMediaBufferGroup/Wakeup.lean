import Meet.Common.Run
import Meet.PPMediaBufferGroup.Basic

/-! Sleeping and waking in `acquire_buffer`. The space test and the call of
`mCondition.wait` are two steps of the producer under `mLock`. A release and
`notify_stop` change the tested state and signal later, both without the
lock; the other calls below hold the lock from their change to their signal. -/
namespace Meet.PPMediaBufferGroup

/-- The producer holds `mLock` in `testing` and `blocked`, and only there. -/
inductive Producer where
  | outside
  | testing (p : Payload)
  | blocked (p : Payload)
  | asleep (p : Payload) (signalled : Bool)

namespace Producer

def holdsLock : Producer → Bool
  | .testing _ | .blocked _ => true
  | .outside | .asleep _ _ => false

/-- `mCondition.signal` reaches the producer only when it sleeps. -/
def signal : Producer → Producer
  | .asleep p _ => .asleep p true
  | other => other

end Producer

/-- `signals` counts the threads that have changed the group and have not yet
sent their signal. -/
structure Monitor where
  group : PPMediaBufferGroup
  producer : Producer
  popped : List MediaBuffer
  signals : Nat

namespace Monitor

inductive Act where
  | push (p : Payload)
  | test
  | wait
  | wake
  | pop
  | release (index : Nat)
  | notifyStop
  | signal
  | notifyStreamdone
  | notifySeekstart
  | notifySeekdone
  | clear

def new (size playBufferingCount : Nat) : Monitor :=
  ⟨PPMediaBufferGroup.new size playBufferingCount, .outside, [], 0⟩

/-- A call that takes `mLock` for its whole length. -/
def locked (m : Monitor) (next : Monitor) : Option Monitor :=
  if m.producer.holdsLock then none else some next

def step (m : Monitor) : Act → Option Monitor
  | .push p =>
      match m.producer with
      | .outside => some (if p.data = [] then m else { m with producer := .testing p })
      | _ => none
  | .test =>
      match m.producer with
      | .testing p =>
          match m.group.acquireBuffer p.data.length with
          | .buffer addr => some { m with group := m.group.store p addr, producer := .outside }
          | .wait => some { m with producer := .blocked p }
          | .tooLarge | .interrupted | .shouldNeverHappen => some { m with producer := .outside }
      | _ => none
  | .wait =>
      match m.producer with
      | .blocked p => some { m with producer := .asleep p false }
      | _ => none
  | .wake =>
      match m.producer with
      | .asleep p _ => some { m with producer := .testing p }
      | _ => none
  | .pop =>
      match m.group.popBuffer with
      | (.frame b, g) => m.locked { m with group := g, popped := m.popped ++ [b] }
      | (_, g) => m.locked { m with group := g }
  | .release index =>
      m.popped[index]?.map fun b =>
        { m with
          group := m.group.signalBufferReturned b
          popped := m.popped.eraseIdx index
          signals := m.signals + 1 }
  | .notifyStop => some { m with group := m.group.notifyStop, signals := m.signals + 1 }
  | .signal =>
      match m.signals with
      | 0 => none
      | rest + 1 => some { m with producer := m.producer.signal, signals := rest }
  | .notifyStreamdone => some { m with group := m.group.notifyStreamdone }
  | .notifySeekstart =>
      m.locked { m with group := m.group.notifySeekstart, producer := m.producer.signal }
  | .notifySeekdone => m.locked { m with group := m.group.notifySeekdone }
  | .clear => m.locked { m with group := m.group.clearAllBuffer, producer := m.producer.signal }

/-- What a producer that needs `len` bytes waits for is still false. -/
structure StillFull (g : PPMediaBufferGroup) (len : Nat) : Prop where
  seeking : g.mIsSeeking = false
  stopping : g.mIsStopping = false
  noRoom : ∀ addr, g.acquireBuffer len ≠ .buffer addr

/-- No wakeup of the producer is lost in this state. -/
def NoLostWakeup (m : Monitor) : Prop :=
  ∀ p, m.producer = .asleep p false → m.signals = 0 → StillFull m.group p.data.length

/-- A signal that is sent between the space test and the wait comes while the
ring is still full, or is not the last one under way. -/
def Guard (m : Monitor) : Act → Prop
  | .signal => ∀ p, m.producer = .blocked p → StillFull m.group p.data.length ∨ 1 < m.signals
  | _ => True

/-- Before and during its sleep, the producer either waits for something that
is false or a signal is under way. -/
structure Inv (m : Monitor) : Prop where
  blocked : ∀ p, m.producer = .blocked p → m.signals = 0 → StillFull m.group p.data.length
  asleep : NoLostWakeup m

theorem stillFull_of_wait {g : PPMediaBufferGroup} {len : Nat} (h : g.acquireBuffer len = .wait) :
    StillFull g len := by
  have hFlags : g.mIsSeeking = false ∧ g.mIsStopping = false := by
    unfold acquireBuffer at h
    split_ifs at h with hLarge hInterrupted
    all_goals simpa using hInterrupted
  exact ⟨hFlags.1, hFlags.2, fun addr hAddr => by simp [h] at hAddr⟩

/-- The space test reads the two addresses, the size and two flags only. -/
theorem acquireBuffer_congr {g g' : PPMediaBufferGroup} (len : Nat)
    (hSize : g'.mSize = g.mSize) (hReading : g'.mReadingAddr = g.mReadingAddr)
    (hWriting : g'.mWritingAddr = g.mWritingAddr) (hSeeking : g'.mIsSeeking = g.mIsSeeking)
    (hStopping : g'.mIsStopping = g.mIsStopping) : g'.acquireBuffer len = g.acquireBuffer len := by
  simp only [acquireBuffer, hSize, hReading, hWriting, hSeeking, hStopping]

theorem StillFull.congr {g g' : PPMediaBufferGroup} {len : Nat} (h : StillFull g len)
    (hSize : g'.mSize = g.mSize) (hReading : g'.mReadingAddr = g.mReadingAddr)
    (hWriting : g'.mWritingAddr = g.mWritingAddr) (hSeeking : g'.mIsSeeking = g.mIsSeeking)
    (hStopping : g'.mIsStopping = g.mIsStopping) : StillFull g' len := by
  refine ⟨hSeeking.trans h.seeking, hStopping.trans h.stopping, fun addr => ?_⟩
  rw [acquireBuffer_congr len hSize hReading hWriting hSeeking hStopping]
  exact h.noRoom addr

theorem inv_new (size playBufferingCount : Nat) : Inv (new size playBufferingCount) :=
  ⟨by simp [new], by simp [NoLostWakeup, new]⟩

/-- A producer that neither sleeps unsignalled nor stands before its wait
makes the invariant hold. -/
theorem Inv.of_awake {m : Monitor} (hBlocked : ∀ p, m.producer ≠ .blocked p)
    (hAsleep : ∀ p, m.producer ≠ .asleep p false) : Inv m :=
  ⟨fun p hp => absurd hp (hBlocked p), fun p hp => absurd hp (hAsleep p)⟩

/-- While a signal is under way there is nothing to show. -/
theorem Inv.of_signal {m : Monitor} (h : 0 < m.signals) : Inv m :=
  ⟨fun _ _ hNone => absurd hNone (by omega), fun _ _ hNone => absurd hNone (by omega)⟩

/-- A change that the space test does not see keeps the invariant. -/
theorem Inv.congr {m m' : Monitor} (h : Inv m) (hProducer : m'.producer = m.producer)
    (hSignals : m'.signals = m.signals)
    (hFull : ∀ len, StillFull m.group len → StillFull m'.group len) : Inv m' :=
  ⟨fun p hp hNone => hFull _ (h.blocked p (hProducer ▸ hp) (hSignals ▸ hNone)),
    fun p hp hNone => hFull _ (h.asleep p (hProducer ▸ hp) (hSignals ▸ hNone))⟩

theorem signal_ne_asleep (producer : Producer) (p : Payload) :
    producer.signal ≠ .asleep p false := by
  cases producer <;> simp [Producer.signal]

theorem signal_blocked {producer : Producer} {p : Payload}
    (h : producer.signal = .blocked p) : producer = .blocked p := by
  cases producer <;> simp_all [Producer.signal]

theorem inv_test {m m' : Monitor} (hStep : m.step .test = some m') : Inv m' := by
  simp only [step] at hStep
  split at hStep
  case h_2 => simp at hStep
  case h_1 p _ =>
    cases hAcquire : m.group.acquireBuffer p.data.length with
    | wait =>
        simp only [hAcquire, Option.some.injEq] at hStep
        subst hStep
        refine ⟨fun q hq _ => ?_, by simp [NoLostWakeup]⟩
        obtain rfl := Producer.blocked.inj hq
        exact stillFull_of_wait hAcquire
    | buffer addr =>
        simp only [hAcquire, Option.some.injEq] at hStep
        subst hStep
        exact Inv.of_awake (by simp) (by simp)
    | tooLarge | interrupted | shouldNeverHappen =>
        simp only [hAcquire, Option.some.injEq] at hStep
        subst hStep
        exact Inv.of_awake (by simp) (by simp)

theorem inv_pop {m m' : Monitor} (h : Inv m) (hStep : m.step .pop = some m') : Inv m' := by
  have hSame : ∀ result g, m.group.popBuffer = (result, g) →
      ∀ len, StillFull m.group len → StillFull g len := by
    intro result g hPop len hFull
    rcases popBufferWith_cases hPop with ⟨_, _, _, rfl⟩ | ⟨_, rfl, _⟩ | ⟨_, _, _, _, _, _, rfl⟩ <;>
      exact hFull.congr rfl rfl rfl rfl rfl
  simp only [step, locked] at hStep
  split at hStep <;> rename_i hPop <;> split_ifs at hStep <;>
    obtain rfl := Option.some.inj hStep <;> exact h.congr rfl rfl (hSame _ _ hPop)

theorem inv_signal {m m' : Monitor} (hGuard : Guard m .signal)
    (hStep : m.step .signal = some m') : Inv m' := by
  simp only [step] at hStep
  cases hCount : m.signals with
  | zero => simp [hCount] at hStep
  | succ rest =>
      simp only [hCount, Option.some.injEq] at hStep
      subst hStep
      refine ⟨fun p hp hNone => ?_, fun p hp => absurd hp (signal_ne_asleep _ _)⟩
      rcases hGuard p (signal_blocked hp) with hFull | hMore
      · exact hFull
      · simp only at hNone
        omega

/-- A locked call that signals finds the producer asleep or outside. -/
theorem inv_locked_signal {m m' : Monitor} {g : PPMediaBufferGroup}
    (hStep : m.locked { m with group := g, producer := m.producer.signal } = some m') : Inv m' := by
  simp only [locked] at hStep
  split_ifs at hStep with hLock
  obtain rfl := Option.some.inj hStep
  refine Inv.of_awake (fun p hp => ?_) (fun p => signal_ne_asleep _ _)
  simp [signal_blocked hp, Producer.holdsLock] at hLock

theorem inv_step {m m' : Monitor} {act : Act} (h : Inv m) (hGuard : Guard m act)
    (hStep : m.step act = some m') : Inv m' := by
  cases act with
  | push p =>
      cases hProducer : m.producer <;> simp only [step, hProducer, Option.some.injEq,
        reduceCtorEq] at hStep
      subst hStep
      split_ifs
      · exact h
      · exact Inv.of_awake (by simp) (by simp)
  | test => exact inv_test hStep
  | wait =>
      cases hProducer : m.producer <;> simp only [step, hProducer, Option.some.injEq,
        reduceCtorEq] at hStep
      rename_i p
      subst hStep
      refine ⟨by simp, fun q hq hNone => ?_⟩
      obtain ⟨rfl, _⟩ := Producer.asleep.inj hq
      exact h.blocked p hProducer hNone
  | wake =>
      cases hProducer : m.producer <;> simp only [step, hProducer, Option.some.injEq,
        reduceCtorEq] at hStep
      subst hStep
      exact Inv.of_awake (by simp) (by simp)
  | pop => exact inv_pop h hStep
  | release index =>
      simp only [step, Option.map_eq_some_iff] at hStep
      obtain ⟨b, _, rfl⟩ := hStep
      exact Inv.of_signal (Nat.succ_pos _)
  | notifyStop =>
      obtain rfl := Option.some.inj hStep
      exact Inv.of_signal (Nat.succ_pos _)
  | signal => exact inv_signal hGuard hStep
  | notifyStreamdone =>
      obtain rfl := Option.some.inj hStep
      exact h.congr rfl rfl fun len hFull => hFull.congr rfl rfl rfl rfl rfl
  | notifySeekstart => exact inv_locked_signal hStep
  | notifySeekdone =>
      simp only [step, locked] at hStep
      split_ifs at hStep
      obtain rfl := Option.some.inj hStep
      exact h.congr rfl rfl fun len hFull => hFull.congr rfl rfl rfl hFull.seeking.symm rfl
  | clear => exact inv_locked_signal hStep

/-- In every run whose signals meet the guard, no wakeup is ever lost. -/
theorem run_noLostWakeup {size playBufferingCount : Nat} {acts : List Act} {m : Monitor}
    (run : Run step Guard (new size playBufferingCount) acts m) : NoLostWakeup m :=
  (run.invariant (inv_new size playBufferingCount)
    fun _ _ _ h hGuard hStep => inv_step h hGuard hStep).asleep

open Classical in
/-- The first of two frames is given back between the test for a third one
and the wait, and the third one still does not fit. -/
theorem exists_stillFull {size : Nat} {a b q : Payload} (hFirst : a.data ≠ [])
    (hSecond : a.data.length + b.data.length + 3 < size)
    (hFull : size ≤ a.data.length + b.data.length + q.data.length + 4)
    (hLonger : a.data.length ≤ q.data.length) (hThird : q.data.length < b.data.length) :
    ∃ m, Run step Guard (new size 1)
      [.push a, .test, .push b, .test, .pop, .pop, .push q, .test, .release 0] m ∧
      m.producer = .blocked q ∧ m.signals = 1 ∧ m.group.acquireBuffer q.data.length = .wait := by
  have hNonempty : b.data ≠ [] ∧ q.data ≠ [] := by
    have := List.length_pos_iff.mpr hFirst
    exact ⟨List.length_pos_iff.mp (by omega), List.length_pos_iff.mp (by omega)⟩
  have hFits : ¬ size < a.data.length + 2 ∧ ¬ size < b.data.length + 2 ∧
      ¬ size < q.data.length + 2 := by omega
  have hEnd : 1 + a.data.length + 1 < size ∧ 1 + a.data.length + 1 + b.data.length + 1 < size ∧
      ¬ 1 + a.data.length + 1 + b.data.length + 1 + q.data.length + 1 < size := by omega
  have hFront : ¬ q.data.length + 1 < 1 + a.data.length := by omega
  have hAbove : 1 + a.data.length < 1 + a.data.length + 1 + b.data.length + 1 := by omega
  have hExec : ∃ m, execGuarded step Guard (new size 1)
      [.push a, .test, .push b, .test, .pop, .pop, .push q, .test, .release 0] = some m ∧
      m.producer = .blocked q ∧ m.signals = 1 ∧ m.group.acquireBuffer q.data.length = .wait := by
    simp [execGuarded, Guard, step, new, PPMediaBufferGroup.new, acquireBuffer, store, frameAt,
      popBuffer, popBufferWith, takeFirst, signalBufferReturned, locked, Producer.holdsLock, hFirst,
      hNonempty, hFits, hEnd, hFront, hAbove]
  obtain ⟨m, hExec, hState⟩ := hExec
  exact ⟨m, Run.of_execGuarded hExec, hState⟩

/-- With the video ring's size, a signal between the test and the wait that
meets the guard, after which the producer sleeps with good reason. -/
theorem run_noLostWakeup_stillFull : ∃ acts m p,
    Run step Guard (new 6291456 1) acts m ∧ m.producer = .asleep p false ∧ m.signals = 0 ∧
    NoLostWakeup m := by
  let a : Payload := ⟨List.replicate 1000000 0, 0, true, 0⟩
  let b : Payload := ⟨List.replicate 4000000 0, 40, false, 1⟩
  let q : Payload := ⟨List.replicate 3000000 0, 80, false, 2⟩
  have ha : a.data.length = 1000000 := List.length_replicate
  have hb : b.data.length = 4000000 := List.length_replicate
  have hq : q.data.length = 3000000 := List.length_replicate
  obtain ⟨m, run, hBlocked, hSignals, hWait⟩ := @exists_stillFull 6291456 a b q
    (List.length_pos_iff.mp (by omega)) (by omega) (by omega) (by omega) (by omega)
  have hGuard : Guard m .signal := by
    intro p hp
    obtain rfl := Producer.blocked.inj (hBlocked.symm.trans hp)
    exact Or.inl (stillFull_of_wait hWait)
  let sent : Monitor := { m with signals := 0 }
  let slept : Monitor := { m with producer := .asleep q false, signals := 0 }
  have hSent : m.step .signal = some sent := by
    simp [step, hSignals, hBlocked, Producer.signal, sent]
  have hSlept : sent.step .wait = some slept := by
    simp [step, hBlocked, sent, slept]
  have hWaits : Guard sent .wait := trivial
  have run' := (run.snoc hGuard hSent).snoc hWaits hSlept
  exact ⟨_, slept, q, run', rfl, rfl, run_noLostWakeup run'⟩

/-- The release of the only frame, sent between the test for a shorter second
frame and the wait, leaves the producer asleep beside a free ring. -/
theorem exists_lostWakeup {size : Nat} {p q : Payload}
    (hFirst : p.data.length + 2 < size) (hFull : size ≤ p.data.length + q.data.length + 3)
    (hShorter : q.data.length < p.data.length) (hData : q.data ≠ []) :
    ∃ m, exec step (new size 1)
      [.push p, .test, .pop, .push q, .test, .release 0, .signal, .wait] = some m ∧
      m.producer = .asleep q false ∧ m.signals = 0 ∧
      m.group.acquireBuffer q.data.length = .buffer 0 := by
  have hpData : p.data ≠ [] := List.length_pos_iff.mp (by omega)
  have hFits : ¬ size < p.data.length + 2 ∧ ¬ size < q.data.length + 2 := by omega
  have hEnd : 1 + p.data.length + 1 < size ∧
      ¬ 1 + p.data.length + 1 + q.data.length + 1 < size := by omega
  have hFront : q.data.length + 1 < 1 + p.data.length := by omega
  simp [exec, step, new, PPMediaBufferGroup.new, acquireBuffer, store, frameAt, popBuffer,
    popBufferWith, takeFirst, signalBufferReturned, locked, Producer.holdsLock, Producer.signal,
    hpData, hData, hFits, hEnd, hFront]

/-- With the video ring's size, a frame of 4000000 bytes given back while the
producer is about to wait for 3000000 bytes is a lost wakeup. -/
theorem exists_run_lostWakeup : ∃ acts m,
    Run step unguarded (new 6291456 1) acts m ∧ ¬ NoLostWakeup m := by
  let p : Payload := ⟨List.replicate 4000000 0, 0, true, 0⟩
  let q : Payload := ⟨List.replicate 3000000 0, 40, false, 1⟩
  have hp : p.data.length = 4000000 := List.length_replicate
  have hq : q.data.length = 3000000 := List.length_replicate
  obtain ⟨m, hExec, hAsleep, hNone, hRoom⟩ := @exists_lostWakeup 6291456 p q
    (by omega) (by omega) (by omega) (List.length_pos_iff.mp (by omega))
  exact ⟨_, m, Run.of_exec hExec, fun h => (h q hAsleep hNone).noRoom 0 hRoom⟩

end Monitor
end Meet.PPMediaBufferGroup
