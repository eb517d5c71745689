import Meet.TimedEventQueue.Timing

/-! What `stop` does with the events that are queued. -/
namespace Meet.TimedEventQueue

variable {ε : Type} [DecidableEq ε]

/-- A step while `stop` waits for the thread. Only IDs that a call has returned are
cancelled, which that of the `StopEvent` is not. -/
def Stopping (q : Queue ε) (act : Act ε) : Prop :=
  Proper q act ∧
    match act with
    | .cancel id => ∀ item ∈ q.mQueue, item.event = .StopEvent → q.mEventID item.event ≠ id
    | .joined => False
    | _ => True

/-- The events of users that were fired. -/
def Queue.userFired (q : Queue ε) : List (Fired ε) :=
  q.fired.filter fun fired => fired.event ≠ .StopEvent

/-- The item that `stop` posts. -/
def stopItem (realtime_us : Int) : QueueItem ε := ⟨.StopEvent, realtime_us⟩

/-- The end of the thread has come: it fires the `StopEvent`, or has fired it. -/
def Queue.Ending (q : Queue ε) : Prop :=
  q.thread = .firing .StopEvent ∨ (q.mStopped = true ∧ (q.thread = .running ∨ q.thread = .ended))

/-- At most one event is fired while the `StopEvent` is at the head: one whose wait is over.
`awaited` is what the thread waited for when `stop` was called. -/
inductive Halting (before : List (Fired ε)) (awaited : Option Nat) (q : Queue ε) : Prop where
  | queued {rest : List (QueueItem ε)} {late : List (Fired ε)}
      (hQueue : q.mQueue = stopItem INT64_MIN :: rest) (hFired : q.userFired = before ++ late)
      (hOne : late.length ≤ 1) (hAwaited : ∀ fired ∈ late, awaited = some fired.eventID)
      (hThread : q.thread.waitsFor = none ∨ (late = [] ∧ q.thread.waitsFor = awaited))
  | ending {late : List (Fired ε)} (hEnding : q.Ending)
      (hFired : q.userFired = before ++ late) (hOne : late.length ≤ 1)
      (hAwaited : ∀ fired ∈ late, awaited = some fired.eventID)

omit [DecidableEq ε] in
theorem Queue.Ending.of_eq {q r : Queue ε} (h : q.Ending) (hThread : r.thread = q.thread)
    (hStopped : q.mStopped = true → r.mStopped = true) : r.Ending := by
  unfold Ending at h ⊢
  rw [hThread]
  cases h with
  | inl hFiring => exact Or.inl hFiring
  | inr hStop => exact Or.inr ⟨hStopped hStop.1, hStop.2⟩

omit [DecidableEq ε] in
/-- Signals do nothing to a thread that does not wait. -/
theorem Queue.Ending.signal {q : Queue ε} (h : q.Ending) :
    q.thread.signalNotEmpty = q.thread ∧ q.thread.signalHeadChanged = q.thread := by
  rcases h with hThread | ⟨-, hThread | hThread⟩ <;> rw [hThread] <;> exact ⟨rfl, rfl⟩

section Halting

variable {before late : List (Fired ε)} {awaited : Option Nat} {q r : Queue ε}
  {rest : List (QueueItem ε)}

/-- What others do leaves the `StopEvent` at the head and the thread where it is. -/
theorem Halting.frame (h : Halting before awaited q)
    (hQueue : ∀ rest, q.mQueue = stopItem INT64_MIN :: rest →
      ∃ others, r.mQueue = stopItem INT64_MIN :: others)
    (hFired : r.fired = q.fired) (hWaits : r.thread.waitsFor = q.thread.waitsFor)
    (hEnding : q.Ending → r.Ending) : Halting before awaited r := by
  have hUsers : r.userFired = q.userFired := by rw [Queue.userFired, hFired, Queue.userFired]
  cases h with
  | queued hHead hBefore hOne hAwaited hThread =>
      obtain ⟨others, hOthers⟩ := hQueue _ hHead
      exact .queued hOthers (hUsers.trans hBefore) hOne hAwaited (by rw [hWaits]; exact hThread)
  | ending hEnds hBefore hOne hAwaited =>
      exact .ending (hEnding hEnds) (hUsers.trans hBefore) hOne hAwaited

end Halting

/-- The thread ends, and a `StopEvent` is fired, for a reason. -/
structure Alive (q : Queue ε) : Prop where
  ended : q.thread = .ended → q.mStopped = true
  stopEvent : q.thread = .firing .StopEvent → q.stopping = true

omit [DecidableEq ε] in
theorem Alive.of_ne {q : Queue ε} (hEnded : q.thread ≠ .ended)
    (hFires : q.thread ≠ .firing .StopEvent) : Alive q :=
  ⟨fun hThread => absurd hThread hEnded, fun hThread => absurd hThread hFires⟩

/-- The thread is as it was but for signals. -/
def Thread.Signalled {ε : Type} (before after : Thread ε) : Prop :=
  after = before ∨ after = before.signalNotEmpty ∨ after = before.signalHeadChanged ∨
    after = before.signalHeadChanged.signalNotEmpty

omit [DecidableEq ε] in
/-- A signal neither ends the thread nor fires an event. -/
theorem Thread.Signalled.same {before after : Thread ε} (h : before.Signalled after)
    (hPlain : after = .ended ∨ after = .firing .StopEvent) : before = after := by
  unfold Thread.Signalled at h
  cases before <;> rcases hPlain with rfl | rfl <;>
    simp_all [Thread.signalNotEmpty, Thread.signalHeadChanged]

omit [DecidableEq ε] in
theorem Thread.Signalled.waits {before after : Thread ε} (h : before.Signalled after) {id : Nat}
    {wakeAt : Int} {capped signalled : Bool}
    (hAfter : after = .headChanged id wakeAt capped signalled) :
    ∃ first, before = .headChanged id wakeAt capped first := by
  subst hAfter
  rcases h with hSame | hSame | hSame | hSame
  · exact ⟨signalled, hSame.symm⟩
  · exact ⟨signalled, Thread.of_signalNotEmpty hSame.symm⟩
  · exact (Thread.of_signalHeadChanged hSame.symm).2
  · exact (Thread.of_signalHeadChanged (Thread.of_signalNotEmpty hSame.symm)).2

theorem signalled_post (q : Queue ε) (event : Event ε) (realtime_us : Int) :
    q.thread.Signalled (q.postTimedEvent event realtime_us).thread := by
  rcases q.thread_post event realtime_us with hThread | hThread
  · exact Or.inr (Or.inl hThread)
  · exact Or.inr (Or.inr (Or.inr hThread))

omit [DecidableEq ε] in
theorem Alive.signal {q r : Queue ε} (h : Alive q) (hThread : q.thread.Signalled r.thread)
    (hStopped : q.mStopped = true → r.mStopped = true)
    (hStopping : q.stopping = true → r.stopping = true) : Alive r where
  ended hEnded := hStopped (h.ended ((hThread.same (Or.inl hEnded)).trans hEnded))
  stopEvent hFires := hStopping (h.stopEvent ((hThread.same (Or.inr hFires)).trans hFires))

theorem alive_step {q r : Queue ε} {act : Act ε} (h : Ordered q) (hAlive : Alive q)
    (hStep : step q act = some r) : Alive r := by
  cases hOwn : act.own with
  | true =>
      cases own_step hOwn hStep with
      | ends _ hStopped hEnd =>
          rw [hEnd]
          exact ⟨fun _ => hStopped, by simp⟩
      | sleeps _ _ hSleep =>
          rw [hSleep]
          exact .of_ne (by simp) (by simp)
      | waits _ _ _ hWait =>
          rw [hWait]
          exact .of_ne (by simp) (by simp)
      | misses _ hMiss =>
          rw [hMiss]
          exact .of_ne (by simp) (by simp)
      | @fires _ front item back hQueue _ hFire =>
          rw [hFire]
          refine ⟨by simp [Queue.fire], fun hFires => ?_⟩
          exact h.stopEvent ⟨item, by rw [hQueue]; simp, Thread.firing.inj hFires⟩
      | returns _ hReturn =>
          rw [hReturn]
          exact .of_ne (by simp) (by simp)
  | false =>
      cases act with
      | tick now =>
          rw [step] at hStep
          split at hStep <;> cases hStep
          exact hAlive.signal (Or.inl rfl) (fun hKept => hKept) fun hKept => hKept
      | start =>
          cases hStep
          unfold Queue.start
          split
          · exact hAlive
          · exact .of_ne (by simp) (by simp)
      | post event realtime_us =>
          cases hStep
          exact hAlive.signal (signalled_post q (.user event) realtime_us) (fun hKept => hKept)
            fun hKept => hKept
      | cancel id =>
          cases hStep
          rcases q.cancelEvent_cases id with ⟨-, hSame⟩ | ⟨front, item, back, -, -, -, -, hCancel⟩
          · rw [hSame]
            exact hAlive
          · rw [hCancel]
            refine hAlive.signal ?_ (fun hKept => hKept) fun hKept => hKept
            dsimp only
            split
            · exact Or.inr (Or.inr (Or.inl rfl))
            · exact Or.inl rfl
      | stop flush =>
          rw [step, Queue.stop] at hStep
          split at hStep
          · split at hStep <;> cases hStep
            exact hAlive.signal (signalled_post q .StopEvent _) (fun hKept => hKept) fun _ => rfl
          · cases hStep
            exact hAlive
      | joined =>
          rw [step, Queue.joined] at hStep
          split at hStep <;> cases hStep
          exact .of_ne (by simp) (by simp)
      | forceStop =>
          cases hStep
          exact hAlive.signal (Or.inl rfl) (fun _ => rfl) fun hKept => hKept
      | resume => cases hOwn
      | timeout => cases hOwn
      | fireReturns => cases hOwn

/-- The event was fired or cancelled. -/
def Queue.Handled (q : Queue ε) (id : Nat) : Prop :=
  id ∈ q.fired.map Fired.eventID ∨ id ∈ q.cancelled

theorem handled_changed {q r : Queue ε} (hChanged : Changed q r) {id : Nat} (h : q.Handled id) :
    r.Handled id := by
  cases h with
  | inr hCancelled => exact Or.inr (cancelled_changed hChanged hCancelled)
  | inl hFired =>
      refine Or.inl ?_
      cases hChanged with
      | quiet hSame => rwa [hSame.fired]
      | waiting _ _ hWait => rwa [hWait]
      | posted _ _ _ _ _ _ hPost => rwa [hPost]
      | cancelled _ hCancel => rwa [hCancel]
      | fired _ _ hFire =>
          rw [hFire, Queue.fire, List.map_append]
          exact List.mem_append_left _ hFired
      | discarded _ hSame => rwa [hSame.1]

/-- The events are ahead of the `StopEvent`, or none of them is queued. -/
inductive Flushing (ids : List Nat) (q : Queue ε) : Prop where
  | queued {front back : List (QueueItem ε)}
      (hQueue : q.mQueue = front ++ stopItem INT64_MAX :: back)
      (hIDs : ∀ id ∈ ids, q.Handled id ∨ id ∈ front.map fun item => q.mEventID item.event)
      (hStopped : q.mStopped = false) (hEnded : q.thread ≠ .ended)
      (hFires : q.thread ≠ .firing .StopEvent)
      (hAwaited : ∀ wakeAt signalled,
        q.thread ≠ .headChanged (q.mEventID .StopEvent) wakeAt false signalled)
  | done (hAll : ∀ id ∈ ids, q.Handled id)

section Flushing

variable {ids : List Nat} {q r : Queue ε} {front back : List (QueueItem ε)}

/-- An event of a user leaves the queue. Those ahead of the `StopEvent` stay there. -/
theorem flushing_leave (h : Ordered q) (hQueue : q.mQueue = front ++ stopItem INT64_MAX :: back)
    {before : List (QueueItem ε)} {item : QueueItem ε} {behind : List (QueueItem ε)}
    (hItem : q.mQueue = before ++ item :: behind) (hUser : item.event ≠ .StopEvent) :
    ∃ first last, before ++ behind = first ++ stopItem INT64_MAX :: last ∧
      ∀ id ∈ front.map fun other => q.mEventID other.event, id = q.mEventID item.event ∨
        id ∈ first.map fun other => (q.without before item behind).mEventID other.event := by
  have hID := h.id_without hItem
  rcases List.append_eq_append_iff.mp (hItem.symm.trans hQueue) with
    ⟨middle, rfl, hMiddle⟩ | ⟨middle, rfl, hMiddle⟩
  · cases middle with
    | nil =>
        obtain ⟨rfl, -⟩ := List.cons.inj hMiddle
        exact absurd rfl hUser
    | cons first middle =>
        obtain rfl : item = first := (List.cons.inj hMiddle).1
        obtain rfl : behind = middle ++ stopItem INT64_MAX :: back := (List.cons.inj hMiddle).2
        refine ⟨before ++ middle, back, by simp, ?_⟩
        intro id hMem
        obtain ⟨other, hOther, rfl⟩ := List.mem_map.mp hMem
        rw [List.mem_append, List.mem_cons] at hOther
        have hStays (hKept : other ∈ before ++ middle) : q.mEventID other.event ∈
            (before ++ middle).map fun other =>
              (q.without before item (middle ++ stopItem INT64_MAX :: back)).mEventID
                other.event := by
          refine List.mem_map.mpr ⟨other, hKept, hID other ?_⟩
          rw [← List.append_assoc]
          exact List.mem_append_left _ hKept
        rcases hOther with hBefore | rfl | hMiddle
        · exact Or.inr (hStays (List.mem_append_left _ hBefore))
        · exact Or.inl rfl
        · exact Or.inr (hStays (List.mem_append_right _ hMiddle))
  · cases middle with
    | nil =>
        obtain ⟨rfl, -⟩ := List.cons.inj hMiddle
        exact absurd rfl hUser
    | cons stop middle =>
        obtain ⟨rfl, rfl⟩ := List.cons.inj hMiddle
        refine ⟨front, middle ++ behind, by simp, ?_⟩
        intro id hMem
        obtain ⟨other, hOther, rfl⟩ := List.mem_map.mp hMem
        refine Or.inr (List.mem_map.mpr ⟨other, hOther, hID other ?_⟩)
        simp [hOther]

theorem flushing_own (h : Ordered q) (hFlushing : Flushing ids q) (hOwn : Own q r) :
    Flushing ids r := by
  have hKept {id : Nat} (hHandled : q.Handled id) : r.Handled id :=
    handled_changed (changed_own hOwn) hHandled
  cases hFlushing with
  | done hAll => exact .done fun id hMem => hKept (hAll id hMem)
  | @queued front back hQueue hIDs hStopped hEnded hFires hAwaited =>
      have hOthers := h.event_ne hQueue
      cases hOwn with
      | ends _ hStop _ =>
          rw [hStopped] at hStop
          cases hStop
      | sleeps _ hEmpty _ =>
          rw [hQueue] at hEmpty
          simp at hEmpty
      | @waits _ item rest hHead hDelay hWait =>
          have hUser : item.event ≠ .StopEvent := by
            cases front with
            | nil =>
                obtain ⟨rfl, -⟩ := List.cons.inj (hHead.symm.trans hQueue)
                simp [Queue.delay, stopItem] at hDelay
            | cons first front =>
                obtain ⟨rfl, -⟩ := List.cons.inj (hHead.symm.trans hQueue)
                exact hOthers item (by simp)
          rw [hWait]
          refine .queued hQueue hIDs hStopped (by simp) (by simp) ?_
          intro wakeAt signalled hThread
          injection hThread with hSame
          have hStop : stopItem INT64_MAX ∈ q.mQueue := by rw [hQueue]; simp
          have hItem : item ∈ q.mQueue := by rw [hHead]; simp
          have hEq : item = stopItem INT64_MAX :=
            List.inj_on_of_nodup_map (List.nodup_append.mp h.nodup).1 hItem hStop hSame
          exact hUser (by rw [hEq]; rfl)
      | misses _ hMiss =>
          rw [hMiss]
          exact .queued hQueue hIDs hStopped (by simp) (by simp) (by simp)
      | @fires _ before item behind hItem hDue hFire =>
          by_cases hStop : item.event = .StopEvent
          · rcases hDue with ⟨rfl, -⟩ | ⟨wakeAt, signalled, -, hThread⟩
            · cases front with
              | nil => exact .done fun id hMem => hKept ((hIDs id hMem).resolve_right (by simp))
              | cons first front =>
                  obtain ⟨rfl, -⟩ := List.cons.inj (hItem.symm.trans hQueue)
                  exact absurd hStop (hOthers item (by simp))
            · rw [hStop] at hThread
              exact absurd hThread (hAwaited wakeAt signalled)
          · obtain ⟨first, last, hRest, hFirst⟩ := flushing_leave h hQueue hItem hStop
            have hFired : r.Handled (q.mEventID item.event) := by
              rw [hFire]
              exact Or.inl (by simp [Queue.fire])
            refine .queued (by rw [hFire]; exact hRest) ?_ (hFire ▸ hStopped) (hFire ▸ by simp [Queue.fire])
              (hFire ▸ by simpa [Queue.fire] using hStop) (hFire ▸ by simp [Queue.fire])
            intro id hMem
            rcases hIDs id hMem with hHandled | hAhead
            · exact Or.inl (hKept hHandled)
            · rcases hFirst id hAhead with rfl | hStays
              · exact Or.inl hFired
              · exact Or.inr (hFire ▸ hStays)
      | @returns event hThread hReturn =>
          have hUser : event ≠ .StopEvent := fun hStop => hFires (hStop ▸ hThread)
          rw [hReturn]
          exact .queued hQueue hIDs (by simp [hStopped, hUser]) (by simp) (by simp) (by simp)

theorem flushing_step (h : Ordered q) (hFlushing : Flushing ids q)
    (hCalled : q.stopping = true ∧ q.mRunning = true) {act : Act ε} (hStopping : Stopping q act)
    (hForce : act ≠ .forceStop) (hStep : step q act = some r) :
    Flushing ids r ∧ r.stopping = true ∧ r.mRunning = true := by
  have hKept {id : Nat} (hHandled : q.Handled id) : r.Handled id :=
    handled_changed (changed_step hStopping.1 h.stopEvent hStep) hHandled
  cases hOwn : act.own with
  | true =>
      have hOwn := own_step hOwn hStep
      exact ⟨flushing_own h hFlushing hOwn, hOwn.flags.2.trans hCalled.1,
        hOwn.flags.1.trans hCalled.2⟩
  | false =>
      cases act with
      | tick now =>
          rw [step] at hStep
          split at hStep <;> cases hStep
          refine ⟨?_, hCalled⟩
          cases hFlushing with
          | queued hQueue hIDs hStopped hEnded hFires hAwaited =>
              exact .queued hQueue hIDs hStopped hEnded hFires hAwaited
          | done hAll => exact .done hAll
      | start =>
          cases hStep
          rw [Queue.start, if_pos hCalled.2]
          exact ⟨hFlushing, hCalled⟩
      | post event realtime_us =>
          cases hStep
          refine ⟨?_, hCalled⟩
          cases hFlushing with
          | done hAll => exact .done fun id hMem => hKept (hAll id hMem)
          | @queued front back hQueue hIDs hStopped hEnded hFires hAwaited =>
              have hSignalled := signalled_post q (.user event) realtime_us
              obtain ⟨first, last, hInsert, hFront⟩ := MessageQueue.orderedInsert_around
                (fun a b : QueueItem ε => a.realtime_us < b.realtime_us)
                ⟨.user event, realtime_us⟩ (stopItem INT64_MAX) front back
              rw [← hQueue] at hInsert
              refine .queued hInsert ?_ hStopped ?_ ?_ ?_
              · intro id hMem
                rcases hIDs id hMem with hHandled | hAhead
                · exact Or.inl (hKept hHandled)
                · obtain ⟨other, hOther, rfl⟩ := List.mem_map.mp hAhead
                  have hNew : other.event ≠ .user event :=
                    hStopping.1.1 other (by rw [hQueue]; exact List.mem_append_left _ hOther)
                  exact Or.inr (List.mem_map.mpr
                    ⟨other, hFront hOther, Function.update_of_ne hNew _ _⟩)
              · exact fun hEnds => hEnded ((hSignalled.same (Or.inl hEnds)).trans hEnds)
              · exact fun hFire => hFires ((hSignalled.same (Or.inr hFire)).trans hFire)
              · intro wakeAt signalled hWaits
                obtain ⟨before, hBefore⟩ := hSignalled.waits hWaits
                exact hAwaited wakeAt before hBefore
      | cancel id =>
          cases hStep
          rcases q.cancelEvent_cases id with
            ⟨-, hSame⟩ | ⟨before, item, behind, hItem, hID, -, -, hCancel⟩
          · rw [hSame]
            exact ⟨hFlushing, hCalled⟩
          · have hUser : item.event ≠ .StopEvent := fun hStop =>
              hStopping.2 item (by rw [hItem]; simp) hStop hID
            have hCancelled : (q.cancelEvent id).1.Handled id := by
              rw [hCancel]
              exact Or.inr (by simp)
            rw [hCancel] at hKept hCancelled ⊢
            refine ⟨?_, hCalled⟩
            cases hFlushing with
            | done hAll => exact .done fun id hMem => hKept (hAll id hMem)
            | @queued front back hQueue hIDs hStopped hEnded hFires hAwaited =>
                have hSignalled : q.thread.Signalled
                    (if before = [] then q.thread.signalHeadChanged else q.thread) := by
                  split
                  · exact Or.inr (Or.inr (Or.inl rfl))
                  · exact Or.inl rfl
                obtain ⟨first, last, hRest, hFirst⟩ := flushing_leave h hQueue hItem hUser
                refine .queued hRest ?_ hStopped ?_ ?_ ?_
                · intro other hMem
                  rcases hIDs other hMem with hHandled | hAhead
                  · exact Or.inl (hKept hHandled)
                  · rcases hFirst other hAhead with hIt | hStays
                    · rw [hIt, hID]
                      exact Or.inl hCancelled
                    · exact Or.inr hStays
                · exact fun hEnds => hEnded ((hSignalled.same (Or.inl hEnds)).trans hEnds)
                · exact fun hFire => hFires ((hSignalled.same (Or.inr hFire)).trans hFire)
                · intro wakeAt signalled hWaits
                  obtain ⟨earlier, hEarlier⟩ := hSignalled.waits hWaits
                  apply hAwaited wakeAt earlier
                  rw [hEarlier]
                  have hStop : (q.without before item behind).mEventID .StopEvent =
                      q.mEventID .StopEvent := Function.update_of_ne hUser.symm _ _
                  exact congrArg (fun id => Thread.headChanged id wakeAt false earlier) hStop
      | stop flush =>
          rw [step, Queue.stop, if_pos hCalled.2, if_pos hCalled.1] at hStep
          cases hStep
      | joined => exact hStopping.2.elim
      | forceStop => exact absurd rfl hForce
      | resume => cases hOwn
      | timeout => cases hOwn
      | fireReturns => cases hOwn

end Flushing

/-- Where the thread was not stopped otherwise, each event that is queued when `stop(true)` is
called is fired or cancelled before the thread ends. -/
theorem stop_flushes {now : Int} {acts : List (Act ε)} {q called : Queue ε}
    (run : Run step Proper (.new now) acts q) (hRunning : q.mRunning = true)
    (hStopped : q.mStopped = false) (hStop : q.stop true = some called)
    {later : List (Act ε)} {r : Queue ε}
    (hLater : Run step (fun q act => Stopping q act ∧ act ≠ .forceStop) called later r)
    (hEnded : r.thread = .ended) : ∀ id ∈ q.ids, r.Handled id := by
  obtain ⟨h, hTimed⟩ := timed_run run
  have hRanged := ranged_run run
  have hAlive : Ordered q ∧ Alive q := by
    apply run.invariant
    · exact ⟨ordered_new now, .of_ne (by simp [Queue.new]) (by simp [Queue.new])⟩
    · exact fun before act after hHolds hProper hStep =>
        ⟨ordered_step hHolds.1 hProper hStep, alive_step hHolds.1 hHolds.2 hStep⟩
  rw [Queue.stop, if_pos hRunning] at hStop
  split at hStop
  · cases hStop
  · rename_i hIdle
    cases hStop
    have hUsers : ∀ item ∈ q.mQueue, item.event ≠ .StopEvent := fun item hMem hStop =>
      hIdle (h.stopEvent ⟨item, hMem, hStop⟩)
    have hSignalled := signalled_post q .StopEvent INT64_MAX
    obtain ⟨front, back, hSplit, hInsert, -, -, hBack⟩ := h.post INT64_MAX hUsers
    have hNone : back = [] := by
      cases back with
      | nil => rfl
      | cons item others =>
          have hMem : item ∈ q.mQueue := by rw [hSplit]; simp
          have hLate := hBack item List.mem_cons_self
          exact absurd hLate (Int.not_lt.mpr (hRanged item hMem (hUsers item hMem)).2)
    subst hNone
    rw [List.append_nil] at hSplit
    have hStart : Flushing q.ids
        { q.postTimedEvent .StopEvent INT64_MAX with stopping := true } := by
      refine .queued hInsert ?_ hStopped ?_ ?_ ?_
      · intro id hMem
        obtain ⟨item, hItem, rfl⟩ := List.mem_map.mp hMem
        refine Or.inr (List.mem_map.mpr ⟨item, hSplit ▸ hItem, ?_⟩)
        exact Function.update_of_ne (hUsers item hItem) _ _
      · intro hEnds
        have hStop := hAlive.2.ended ((hSignalled.same (Or.inl hEnds)).trans hEnds)
        rw [hStopped] at hStop
        cases hStop
      · exact fun hFires =>
          hIdle (hAlive.2.stopEvent ((hSignalled.same (Or.inr hFires)).trans hFires))
      · intro wakeAt signalled hWaits
        obtain ⟨before, hBefore⟩ := hSignalled.waits hWaits
        have hLess := (hTimed.due _ wakeAt before hBefore).1
        simp [Queue.postTimedEvent] at hLess
    have hEnd : Ordered r ∧ Flushing q.ids r ∧ r.stopping = true ∧ r.mRunning = true := by
      apply hLater.invariant
      · exact ⟨h.posted INT64_MAX hUsers fun _ => rfl, hStart, rfl, hRunning⟩
      · exact fun before act after hHolds hGuard hStep =>
          ⟨ordered_step hHolds.1 hGuard.1.1 hStep,
            flushing_step hHolds.1 hHolds.2.1 hHolds.2.2 hGuard.1 hGuard.2 hStep⟩
    cases hEnd.2.1 with
    | queued _ _ _ hNotEnded => exact absurd hEnded hNotEnded
    | done hAll => exact hAll

theorem stop_flushes_twoPosted :
    ∃ r : Queue Nat, r.thread = .ended ∧ ∀ id ∈ twoPosted.ids, r.Handled id := by
  have hOwn (q : Queue Nat) (act : Act Nat) (hAct : act = .resume ∨ act = .fireReturns) :
      Stopping q act ∧ act ≠ .forceStop := by
    rcases hAct with rfl | rfl <;> exact ⟨⟨trivial, trivial⟩, by simp⟩
  have hAll := stop_flushes run_twoPosted rfl rfl rfl
    (Run.cons (hOwn _ .resume (Or.inl rfl)) rfl (Run.cons (hOwn _ .fireReturns (Or.inr rfl)) rfl
      (Run.cons (hOwn _ .resume (Or.inl rfl)) rfl (Run.cons (hOwn _ .fireReturns (Or.inr rfl)) rfl
        (Run.cons (hOwn _ .resume (Or.inl rfl)) rfl (Run.cons (hOwn _ .fireReturns (Or.inr rfl)) rfl
          (Run.single (hOwn _ .resume (Or.inl rfl)) rfl)))))))
  exact ⟨_, rfl, hAll rfl⟩

end Meet.TimedEventQueue
