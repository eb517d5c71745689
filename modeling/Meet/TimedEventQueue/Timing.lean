import Meet.TimedEventQueue.Order

/-! No event is fired before it is due, and the thread does not sleep while one is due. -/
namespace Meet.TimedEventQueue

variable {ε : Type} [DecidableEq ε]

/-- A time that has come, or one of those that stand for no time. -/
def Due (realtime_us now_us : Int) : Prop :=
  realtime_us < 0 ∨ realtime_us = INT64_MAX ∨ realtime_us ≤ now_us

/-- The thread goes on by itself: it does not wait, or its wait was signalled. -/
def Thread.goesOn {ε : Type} : Thread ε → Bool
  | .running => true
  | .notEmpty signalled => signalled
  | .headChanged _ _ _ signalled => signalled
  | _ => false

omit [DecidableEq ε] in
theorem delay_le_zero {q : Queue ε} {item : QueueItem ε} :
    q.delay item ≤ 0 ↔ Due item.realtime_us q.now := by
  unfold Queue.delay Due
  split <;> omega

omit [DecidableEq ε] in
theorem delay_eq {q : Queue ε} {item : QueueItem ε} (hDelay : 0 < q.delay item) :
    0 ≤ item.realtime_us ∧ item.realtime_us ≠ INT64_MAX ∧
      q.delay item = item.realtime_us - q.now := by
  unfold Queue.delay at hDelay ⊢
  split at hDelay
  · exact absurd hDelay (Int.lt_irrefl 0)
  · rename_i hTimed
    rw [if_neg hTimed]
    omega

namespace Thread

omit [DecidableEq ε] in
theorem of_signalNotEmpty {thread : Thread ε} {id : Nat} {wakeAt : Int} {capped signalled : Bool}
    (h : thread.signalNotEmpty = .headChanged id wakeAt capped signalled) :
    thread = .headChanged id wakeAt capped signalled := by
  cases thread with
  | headChanged => exact h
  | _ => cases h

omit [DecidableEq ε] in
theorem of_signalHeadChanged {thread : Thread ε} {id : Nat} {wakeAt : Int}
    {capped signalled : Bool}
    (h : thread.signalHeadChanged = .headChanged id wakeAt capped signalled) :
    signalled = true ∧ ∃ before, thread = .headChanged id wakeAt capped before := by
  cases thread with
  | headChanged =>
      cases h
      exact ⟨rfl, _, rfl⟩
  | _ => cases h

omit [DecidableEq ε] in
theorem signalNotEmpty_ne (thread : Thread ε) : thread.signalNotEmpty ≠ .notEmpty false := by
  cases thread <;> simp [signalNotEmpty]

omit [DecidableEq ε] in
theorem of_signalHeadChanged_notEmpty {thread : Thread ε} {signalled : Bool}
    (h : thread.signalHeadChanged = .notEmpty signalled) : thread = .notEmpty signalled := by
  cases thread with
  | notEmpty => exact h
  | _ => cases h

end Thread

/-- What the thread knows while it waits. A wait that was not signalled is for the head, and
ends before any event is due. -/
structure Timed (q : Queue ε) : Prop where
  empty : q.thread = .notEmpty false → q.mQueue = []
  head : ∀ id wakeAt capped, q.thread = .headChanged id wakeAt capped false →
    ∃ item rest, q.mQueue = item :: rest ∧ q.mEventID item.event = id ∧
      wakeAt ≤ item.realtime_us ∧ 0 ≤ item.realtime_us ∧ item.realtime_us ≠ INT64_MAX
  due : ∀ id wakeAt signalled, q.thread = .headChanged id wakeAt false signalled →
    id < q.mNextEventID ∧
      ∀ item ∈ q.mQueue, q.mEventID item.event = id → item.realtime_us ≤ wakeAt
  fired : ∀ fired ∈ q.fired, Due fired.realtime_us fired.now_us

omit [DecidableEq ε] in
theorem timed_new (now : Int) : Timed (Queue.new (ε := ε) now) where
  empty := by simp [Queue.new]
  head := by simp [Queue.new]
  due := by simp [Queue.new]
  fired := by simp [Queue.new]

omit [DecidableEq ε] in
/-- Nothing is known while the thread does not wait. -/
theorem Timed.awake {q : Queue ε} (hEmpty : q.thread ≠ .notEmpty false)
    (hWaits : q.thread.waitsFor = none)
    (hFired : ∀ fired ∈ q.fired, Due fired.realtime_us fired.now_us) : Timed q where
  empty := fun hThread => absurd hThread hEmpty
  head := fun id wakeAt capped hThread => by rw [hThread] at hWaits; cases hWaits
  due := fun id wakeAt signalled hThread => by rw [hThread] at hWaits; cases hWaits
  fired := hFired

theorem timed_changed {q r : Queue ε} (h : Ordered q) (hTimed : Timed q)
    (hChanged : Changed q r) : Timed r := by
  cases hChanged with
  | quiet hSame hWaits hEmpty hStopping =>
      refine ⟨?_, ?_, ?_, hSame.fired ▸ hTimed.fired⟩
      · intro hThread
        rw [hSame.mQueue]
        cases hEmpty false hThread with
        | inl hBefore => exact hTimed.empty hBefore
        | inr hNothing => exact hNothing
      · intro id wakeAt capped hThread
        rw [hSame.mQueue, hSame.mEventID]
        exact hTimed.head id wakeAt capped (hWaits id wakeAt capped false hThread)
      · intro id wakeAt signalled hThread
        rw [hSame.mQueue, hSame.mEventID, hSame.mNextEventID]
        exact hTimed.due id wakeAt signalled (hWaits id wakeAt false signalled hThread)
  | @waiting item rest hQueue hDelay hWait =>
      obtain ⟨hPos, hTimedOut, hEq⟩ := delay_eq hDelay
      have hMem : item ∈ q.mQueue := hQueue ▸ List.mem_cons_self
      rw [hWait]
      refine ⟨by simp, ?_, ?_, hTimed.fired⟩
      · intro id wakeAt capped hThread
        injection hThread with hID hWake
        exact ⟨item, rest, hQueue, hID, by omega, hPos, hTimedOut⟩
      · intro id wakeAt signalled hThread
        injection hThread with hID hWake hCapped
        refine ⟨hID ▸ (h.id_lt (List.mem_append_left _ (List.mem_map_of_mem hMem))).2, ?_⟩
        intro other hOther hSame
        have hIDs := (List.nodup_append.mp h.nodup).1
        have hItem : other = item :=
          List.inj_on_of_nodup_map hIDs hOther hMem (hSame.trans hID.symm)
        rw [decide_eq_false_iff_not] at hCapped
        rw [hItem]
        omega
  | posted event realtime_us hNew hRange stopping hStopping hPost =>
      have hThread : r.thread =
          if q.mQueue.head?.all fun head => realtime_us < head.realtime_us then
            q.thread.signalHeadChanged.signalNotEmpty
          else q.thread.signalNotEmpty := by rw [hPost]; rfl
      have hItems : r.mQueue = q.mQueue.orderedInsert
          (fun a b => a.realtime_us < b.realtime_us) ⟨event, realtime_us⟩ := by rw [hPost]; rfl
      have hID : r.mEventID = Function.update q.mEventID event q.mNextEventID := by rw [hPost]; rfl
      refine ⟨?_, ?_, ?_, hPost ▸ hTimed.fired⟩
      · intro hEmpty
        rw [hThread] at hEmpty
        split at hEmpty <;> exact absurd hEmpty (Thread.signalNotEmpty_ne _)
      · intro id wakeAt capped hWait
        rw [hThread] at hWait
        split at hWait
        · have hSignalled := (Thread.of_signalHeadChanged (Thread.of_signalNotEmpty hWait)).1
          cases hSignalled
        · rename_i hBehind
          obtain ⟨item, rest, hQueue, hSame, hWake⟩ :=
            hTimed.head id wakeAt capped (Thread.of_signalNotEmpty hWait)
          have hLater : ¬ realtime_us < item.realtime_us := by simpa [hQueue] using hBehind
          rw [hItems, hQueue, List.orderedInsert_cons, if_neg hLater]
          refine ⟨item, _, rfl, ?_, hWake⟩
          rw [hID, Function.update_of_ne (hNew item (hQueue ▸ List.mem_cons_self)), hSame]
      · intro id wakeAt signalled hWait
        have hBefore : ∃ before, q.thread = .headChanged id wakeAt false before := by
          rw [hThread] at hWait
          split at hWait
          · exact (Thread.of_signalHeadChanged (Thread.of_signalNotEmpty hWait)).2
          · exact ⟨signalled, Thread.of_signalNotEmpty hWait⟩
        obtain ⟨before, hBefore⟩ := hBefore
        obtain ⟨hLess, hDue⟩ := hTimed.due id wakeAt before hBefore
        refine ⟨hPost ▸ Nat.lt_succ_of_lt hLess, ?_⟩
        intro item hMem hSame
        rw [hItems] at hMem
        rw [hID] at hSame
        cases List.mem_cons.mp ((List.perm_orderedInsert _ _ _).subset hMem) with
        | inl hNewest =>
            rw [hNewest, Function.update_self] at hSame
            omega
        | inr hOld =>
            rw [Function.update_of_ne (hNew item hOld)] at hSame
            exact hDue item hOld hSame
  | @cancelled front item back hQueue hCancel =>
      have hThread : r.thread =
          if front = [] then q.thread.signalHeadChanged else q.thread := by rw [hCancel]
      have hItems : r.mQueue = front ++ back := by rw [hCancel]; rfl
      have hOthers : ∀ other ∈ front ++ back,
          other ∈ q.mQueue ∧ r.mEventID other.event = q.mEventID other.event := by
        intro other hMem
        refine ⟨hQueue ▸ (List.Sublist.append_left (List.sublist_cons_self item back)
          front).subset hMem, ?_⟩
        rw [hCancel]
        exact h.id_without hQueue other hMem
      refine ⟨?_, ?_, ?_, hCancel ▸ hTimed.fired⟩
      · intro hEmpty
        have hBefore : q.thread = .notEmpty false := by
          rw [hThread] at hEmpty
          split at hEmpty
          · exact Thread.of_signalHeadChanged_notEmpty hEmpty
          · exact hEmpty
        have hNothing := hTimed.empty hBefore
        simp [hQueue] at hNothing
      · intro id wakeAt capped hWait
        rw [hThread] at hWait
        split at hWait
        · cases (Thread.of_signalHeadChanged hWait).1
        · rename_i hFront
          obtain ⟨first, rest, hFirst, hSame, hWake⟩ := hTimed.head id wakeAt capped hWait
          cases front with
          | nil => exact absurd rfl hFront
          | cons head front =>
              obtain ⟨rfl, -⟩ := List.cons.inj (hQueue.symm.trans hFirst)
              refine ⟨head, front ++ back, hItems, ?_, hWake⟩
              rw [(hOthers head List.mem_cons_self).2, hSame]
      · intro id wakeAt signalled hWait
        have hBefore : ∃ before, q.thread = .headChanged id wakeAt false before := by
          rw [hThread] at hWait
          split at hWait
          · exact (Thread.of_signalHeadChanged hWait).2
          · exact ⟨signalled, hWait⟩
        obtain ⟨before, hBefore⟩ := hBefore
        obtain ⟨hLess, hDue⟩ := hTimed.due id wakeAt before hBefore
        refine ⟨hCancel ▸ hLess, ?_⟩
        intro other hMem hSame
        rw [hItems] at hMem
        rw [(hOthers other hMem).2] at hSame
        exact hDue other (hOthers other hMem).1 hSame
  | @fired front item back hQueue hDue hFire =>
      rw [hFire]
      apply Timed.awake
      · simp [Queue.fire]
      · simp [Queue.fire, Thread.waitsFor]
      · intro fired hMem
        rw [Queue.fire, List.mem_append, List.mem_singleton] at hMem
        rcases hMem with hOld | rfl
        · exact hTimed.fired fired hOld
        · rcases hDue with ⟨-, hDelay⟩ | ⟨wakeAt, signalled, hWake, hThread⟩
          · exact delay_le_zero.mp hDelay
          · have hMem : item ∈ q.mQueue := hQueue ▸ by simp
            have hTime := (hTimed.due _ wakeAt signalled hThread).2 item hMem rfl
            exact Or.inr (Or.inr (Int.le_trans hTime hWake))
  | discarded hQueue hSame hNext hThread hDiscarded =>
      refine Timed.awake (by rw [hThread]; simp) (by rw [hThread]; rfl) ?_
      rw [hSame.1]
      exact hTimed.fired

theorem timed_run {now : Int} {acts : List (Act ε)} {q : Queue ε}
    (run : Run step Proper (.new now) acts q) : Ordered q ∧ Timed q := by
  apply run.invariant
  · exact ⟨ordered_new now, timed_new now⟩
  · intro before act after h hProper hStep
    have hChanged := changed_step hProper h.1.stopEvent hStep
    exact ⟨ordered_changed h.1 hChanged, timed_changed h.1 h.2 hChanged⟩

/-- No event is fired early. -/
theorem fired_due {now : Int} {acts : List (Act ε)} {q : Queue ε}
    (run : Run step Proper (.new now) acts q) :
    ∀ fired ∈ q.fired, Due fired.realtime_us fired.now_us :=
  (timed_run run).2.fired

theorem fired_due_twoPosted :
    ∃ fired ∈ (twoPosted.fire [] ⟨.user 7, INT64_MIN + 1⟩ [⟨.user 8, INT64_MIN + 1⟩]).fired,
      Due fired.realtime_us fired.now_us := by
  have hFires : step twoPosted .resume =
      some (twoPosted.fire [] ⟨.user 7, INT64_MIN + 1⟩ [⟨.user 8, INT64_MIN + 1⟩]) := rfl
  have hProper : Proper twoPosted .resume := trivial
  have hMem := List.mem_singleton_self (⟨.user 7, 1, INT64_MIN + 1, 0⟩ : Fired Nat)
  exact ⟨_, hMem, fired_due (run_twoPosted.snoc hProper hFires) _ hMem⟩

/-- What the thread does when its wait for an event is over that is not the head: it fires the
event, or goes back to its loop if the event was cancelled. -/
inductive TakesAwaited (q r : Queue ε) (headID : Nat) : Prop where
  | fires {front back : List (QueueItem ε)} {item : QueueItem ε} {wakeAt : Int} {signalled : Bool}
      (hQueue : q.mQueue = front ++ item :: back) (hOther : q.mEventID item.event ≠ headID)
      (hThread : q.thread = .headChanged (q.mEventID item.event) wakeAt false signalled)
      (hWake : wakeAt ≤ q.now) (hFire : r = q.fire front item back)
  | misses {id : Nat} {wakeAt : Int} {signalled : Bool} (hCancelled : id ∉ q.ids)
      (hThread : q.thread = .headChanged id wakeAt false signalled) (hWake : wakeAt ≤ q.now)
      (hMiss : r = { q with thread := .running })

/-- Whatever woke the thread, it takes a head that is due, unless its wait for another event is
over. -/
theorem own_due {q r : Queue ε} {item : QueueItem ε} {rest : List (QueueItem ε)}
    (hQueue : q.mQueue = item :: rest) (hDue : Due item.realtime_us q.now) (hLooking : q.Looking)
    {act : Act ε} (hOwn : act.own = true) (hStep : step q act = some r) :
    r = q.fire [] item rest ∨ (act = .timeout ∧ TakesAwaited q r (q.mEventID item.event)) := by
  have hDelay := delay_le_zero.mpr hDue
  have hLook (id : Nat) : q.lookAtHead id = q.fire [] item rest :=
    Queue.lookAtHead_due hQueue hDelay id
  have hSome : q.mQueue.isEmpty = false := by rw [hQueue]; rfl
  cases act with
  | resume =>
      simp only [step, Queue.resume] at hStep
      refine Or.inl ?_
      split at hStep
      · rename_i hThread
        have hGoes : q.mStopped = false := by
          simpa [Queue.Looking, hThread, Thread.waitsFor] using hLooking
        simpa [hGoes, hSome, hLook, eq_comm] using hStep
      · simpa [hSome, hLook, eq_comm] using hStep
      · simpa [hLook, eq_comm] using hStep
      · cases hStep
  | timeout =>
      simp only [step, Queue.timeout] at hStep
      split at hStep
      · rename_i id wakeAt capped signalled hThread
        rw [Option.ite_none_right_eq_some] at hStep
        obtain ⟨hWake, hStep⟩ := hStep
        cases capped with
        | true => exact Or.inl (by simpa [hLook, eq_comm] using hStep)
        | false =>
            have hTake : q.take id = r := by simpa using hStep
            by_cases hHead : q.mEventID item.event = id
            · exact Or.inl (hTake ▸ Queue.take_head hQueue hHead)
            · refine Or.inr ⟨rfl, ?_⟩
              rcases q.take_cases id with
                ⟨hNone, hMiss⟩ | ⟨front, other, back, hSplit, rfl, -, hFire⟩
              · exact .misses hNone hThread hWake (hTake ▸ hMiss)
              · exact .fires hSplit (Ne.symm hHead) hThread hWake (hTake ▸ hFire)
      · cases hStep
  | fireReturns =>
      simp only [step, Queue.fireReturns] at hStep
      split at hStep
      · rename_i event hThread
        simp [Queue.Looking, hThread, Thread.waitsFor] at hLooking
      · cases hStep
  | _ => cases hOwn

/-- While the head of the queue is due, the thread does not sleep: where it is not about to go
on by itself, its wait is over, and it takes the head to fire it. No other step that it may take
leaves the head, but for the end of a wait for another event. -/
theorem due_taken {now : Int} {acts : List (Act ε)} {q : Queue ε}
    (run : Run step Proper (.new now) acts q) {item : QueueItem ε} {rest : List (QueueItem ε)}
    (hQueue : q.mQueue = item :: rest) (hDue : Due item.realtime_us q.now)
    (hLooking : q.Looking) :
    step q (if q.thread.goesOn then .resume else .timeout) = some (q.fire [] item rest) ∧
      ∀ act r, act.own = true → step q act = some r →
        r = q.fire [] item rest ∨
          (act = .timeout ∧ TakesAwaited q r (q.mEventID item.event)) := by
  refine ⟨?_, fun act r hOwn hStep => own_due hQueue hDue hLooking hOwn hStep⟩
  obtain ⟨h, hTimed⟩ := timed_run run
  have hDelay := delay_le_zero.mpr hDue
  unfold Queue.Looking at hLooking
  have hLook (id : Nat) : q.lookAtHead id = q.fire [] item rest :=
    Queue.lookAtHead_due hQueue hDelay id
  cases hThread : q.thread with
  | running =>
      have hGoes : q.mStopped = false := by simpa [hThread, Thread.waitsFor] using hLooking
      rw [Thread.goesOn, if_pos rfl, step, Queue.resume, hThread]
      simp [hGoes, hQueue, hLook]
  | notEmpty signalled =>
      cases signalled with
      | false =>
          have hEmpty := hTimed.empty hThread
          rw [hQueue] at hEmpty
          cases hEmpty
      | true =>
          rw [Thread.goesOn, if_pos rfl, step, Queue.resume, hThread]
          simp [hQueue, hLook]
  | headChanged id wakeAt capped signalled =>
      cases signalled with
      | true =>
          rw [Thread.goesOn, if_pos rfl, step, Queue.resume, hThread]
          exact congrArg some (hLook id)
      | false =>
          obtain ⟨head, others, hHead, hID, hWake, hPos, hMax⟩ :=
            hTimed.head id wakeAt capped hThread
          obtain ⟨rfl, rfl⟩ := List.cons.inj (hQueue.symm.trans hHead)
          have hNow : wakeAt ≤ q.now := by
            unfold Due at hDue
            omega
          rw [Thread.goesOn, if_neg Bool.false_ne_true, step, Queue.timeout, hThread]
          dsimp only
          rw [if_pos hNow]
          cases capped with
          | true => exact congrArg some (hLook id)
          | false => exact congrArg some (Queue.take_head hQueue hID)
  | none => simp [hThread, Thread.waitsFor] at hLooking
  | firing event => simp [hThread, Thread.waitsFor] at hLooking
  | ended => simp [hThread, Thread.waitsFor] at hLooking

/-- The thread waits for an event at 100, its time has come, and another one is posted to the
front. -/
def overtaken : Queue Nat :=
  { ((Queue.new 0).start.postTimedEvent (.user 7) 100).lookAtHead 0 with now := 100 }.postEvent 8

theorem run_overtaken : Run step Proper (.new 0)
    [.start, .post 7 100, .resume, .tick 100, .post 8 (INT64_MIN + 1)] overtaken := by
  have hFirst : Proper (Queue.new 0).start (.post 7 100) := ⟨by decide, by decide, by decide⟩
  have hSecond : Proper
      { ((Queue.new 0).start.postTimedEvent (.user 7) 100).lookAtHead 0 with now := 100 }
      (.post 8 (INT64_MIN + 1)) := ⟨by decide, by decide, by decide⟩
  exact Run.cons trivial rfl (Run.cons hFirst rfl (Run.cons trivial rfl
    (Run.cons trivial rfl (Run.single hSecond rfl))))

/-- The thread has been signalled, so that it takes the new head; but its wait is over too, and
the end of the wait fires the event at 100. -/
theorem due_taken_overtaken :
    step overtaken .resume = some (overtaken.fire [] ⟨.user 8, INT64_MIN + 1⟩ [⟨.user 7, 100⟩]) ∧
      step overtaken .timeout =
        some (overtaken.fire [⟨.user 8, INT64_MIN + 1⟩] ⟨.user 7, 100⟩ []) ∧
      ∀ act r, act.own = true → step overtaken act = some r →
        r = overtaken.fire [] ⟨.user 8, INT64_MIN + 1⟩ [⟨.user 7, 100⟩] ∨
          (act = .timeout ∧ TakesAwaited overtaken r 2) := by
  have hDue : Due (INT64_MIN + 1) overtaken.now := Or.inl (by decide)
  have hLooking : overtaken.Looking := Or.inr (Or.inr (by decide))
  obtain ⟨hTaken, hOthers⟩ := due_taken run_overtaken rfl hDue hLooking
  exact ⟨hTaken, rfl, hOthers⟩

end Meet.TimedEventQueue
