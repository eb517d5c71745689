import Mathlib.Data.List.Sort
import Meet.Common.Run

/-! `TimedEventQueue.cpp`: events that any thread posts and cancels, and a thread that fires
each when its time has come. A step is what one thread does while it holds `mLock`, or the
return of a call that is made without it. Event IDs are `int32_t`; a run posts fewer events
than they count. -/
namespace Meet.TimedEventQueue

def INT64_MIN : Int := -9223372036854775808

def INT64_MAX : Int := 9223372036854775807

/-- A wait is no longer than 10 seconds. -/
def kMaxTimeoutUs : Int := 10000000

/-- An event of a user of the queue, or the one that `stop` makes. -/
inductive Event (ε : Type) where
  | user (event : ε)
  | StopEvent
deriving DecidableEq, Repr

structure QueueItem (ε : Type) where
  event : Event ε
  realtime_us : Int
deriving DecidableEq, Repr

/-- Where the thread of the queue is: not started or joined, before it takes the lock, in one
of the two waits, in `fire` without the lock, or at its end. A wait with a timeout knows the
event that was at the head and when it ends, whether that is earlier than the event is due,
and whether it was signalled. -/
inductive Thread (ε : Type) where
  | none
  | running
  | notEmpty (signalled : Bool)
  | headChanged (eventID : Nat) (wakeAt : Int) (timeoutCapped signalled : Bool)
  | firing (event : Event ε)
  | ended
deriving DecidableEq, Repr

/-- An event that was taken from the queue to be fired. -/
structure Fired (ε : Type) where
  event : Event ε
  eventID : Nat
  realtime_us : Int
  now_us : Int
deriving DecidableEq, Repr

/-- `mEventID` is a field of each event, and 0 for one that is not in the queue. `stopping` is
a call of `stop` that waits for the thread, and `now` the clock. The last fields are proof
data: what was fired, and the IDs of what was cancelled and of what `stop` has discarded. -/
structure Queue (ε : Type) where
  mQueue : List (QueueItem ε)
  mEventID : Event ε → Nat
  mNextEventID : Nat
  mRunning : Bool
  mStopped : Bool
  thread : Thread ε
  stopping : Bool
  now : Int
  fired : List (Fired ε)
  cancelled : List Nat
  discarded : List Nat

/-- A signal of `mQueueNotEmptyCondition`. -/
def Thread.signalNotEmpty {ε : Type} : Thread ε → Thread ε
  | .notEmpty _ => .notEmpty true
  | thread => thread

/-- A signal of `mQueueHeadChangedCondition`. -/
def Thread.signalHeadChanged {ε : Type} : Thread ε → Thread ε
  | .headChanged eventID wakeAt timeoutCapped _ => .headChanged eventID wakeAt timeoutCapped true
  | thread => thread

/-- The event that a wait is for. -/
def Thread.waitsFor {ε : Type} : Thread ε → Option Nat
  | .headChanged eventID _ _ _ => some eventID
  | _ => Option.none

@[simp]
theorem Thread.waitsFor_signalNotEmpty {ε : Type} (thread : Thread ε) :
    thread.signalNotEmpty.waitsFor = thread.waitsFor := by
  cases thread <;> rfl

@[simp]
theorem Thread.waitsFor_signalHeadChanged {ε : Type} (thread : Thread ε) :
    thread.signalHeadChanged.waitsFor = thread.waitsFor := by
  cases thread <;> rfl

section Queue

variable {ε : Type} [DecidableEq ε]

namespace Queue

def new (now : Int) : Queue ε :=
  ⟨[], fun _ => 0, 1, false, false, .none, false, now, [], [], []⟩

/-- The event goes behind those that are due no later. -/
def postTimedEvent (q : Queue ε) (event : Event ε) (realtime_us : Int) : Queue ε :=
  { q with
    mEventID := Function.update q.mEventID event q.mNextEventID
    mNextEventID := q.mNextEventID + 1
    mQueue := q.mQueue.orderedInsert (fun a b => a.realtime_us < b.realtime_us) ⟨event, realtime_us⟩
    thread :=
      if q.mQueue.head?.all fun head => realtime_us < head.realtime_us then
        q.thread.signalHeadChanged.signalNotEmpty
      else q.thread.signalNotEmpty }

def postEvent (q : Queue ε) (event : ε) : Queue ε := q.postTimedEvent (.user event) (INT64_MIN + 1)

def postEventToBack (q : Queue ε) (event : ε) : Queue ε := q.postTimedEvent (.user event) INT64_MAX

def postEventWithDelay (q : Queue ε) (event : ε) (delay_us : Int) : Queue ε :=
  q.postTimedEvent (.user event) (q.now + delay_us)

/-- The first item in the queue whose event has the ID, and the queue without it. The ID of the
event is cleared. -/
def remove (q : Queue ε) (id : Nat) : Option (QueueItem ε × Queue ε) :=
  match q.mQueue.find? fun item => q.mEventID item.event = id with
  | none => none
  | some item =>
      some (item, { q with
        mQueue := q.mQueue.eraseP fun item => q.mEventID item.event = id
        mEventID := Function.update q.mEventID item.event 0 })

/-- `cancelEvent`: `cancelEvents` with `MatchesEventID` and `stopAfterFirstMatch`. -/
def cancelEvent (q : Queue ε) (id : Nat) : Queue ε × Bool :=
  if id = 0 then (q, false)
  else
    match q.remove id with
    | none => (q, false)
    | some (_, rest) =>
        ({ rest with
            thread :=
              if (q.mQueue.head?.map fun head => q.mEventID head.event) = some id then
                q.thread.signalHeadChanged
              else q.thread
            cancelled := q.cancelled ++ [id] }, true)

/-- `removeEventFromQueue_l`, and the lock is given up. An event that was cancelled is not
found. -/
def take (q : Queue ε) (eventID : Nat) : Queue ε :=
  match q.remove eventID with
  | none => { q with thread := .running }
  | some (item, rest) =>
      { rest with
        thread := .firing item.event
        fired := q.fired ++ [⟨item.event, eventID, item.realtime_us, q.now⟩] }

/-- How long it takes until the item is due. -/
def delay (q : Queue ε) (item : QueueItem ε) : Int :=
  if item.realtime_us < 0 ∨ item.realtime_us = INT64_MAX then 0 else item.realtime_us - q.now

/-- One turn of the inner loop, which waits for the head to be due. -/
def lookAtHead (q : Queue ε) (eventID : Nat) : Queue ε :=
  match q.mQueue with
  | [] => q.take eventID
  | item :: _ =>
      let delay_us := q.delay item
      if delay_us ≤ 0 then q.take (q.mEventID item.event)
      else
        { q with
          thread := .headChanged (q.mEventID item.event) (q.now + min delay_us kMaxTimeoutUs)
            (decide (kMaxTimeoutUs < delay_us)) false }

/-- The thread goes on with the lock. A wait may end without a signal. -/
def resume (q : Queue ε) : Option (Queue ε) :=
  match q.thread with
  | .running =>
      if q.mStopped then some { q with thread := .ended }
      else if q.mQueue.isEmpty then some { q with thread := .notEmpty false }
      else some (q.lookAtHead 0)
  | .notEmpty _ =>
      if q.mQueue.isEmpty then some { q with thread := .notEmpty false }
      else some (q.lookAtHead 0)
  | .headChanged eventID _ _ _ => some (q.lookAtHead eventID)
  | _ => none

/-- A wait ends because its time is over. -/
def timeout (q : Queue ε) : Option (Queue ε) :=
  match q.thread with
  | .headChanged eventID wakeAt timeoutCapped _ =>
      if wakeAt ≤ q.now then
        some (if timeoutCapped then q.lookAtHead eventID else q.take eventID)
      else none
  | _ => none

/-- `fire` returns. What it does to the queue are steps of their own. -/
def fireReturns (q : Queue ε) : Option (Queue ε) :=
  match q.thread with
  | .firing event =>
      some { q with thread := .running, mStopped := q.mStopped || decide (event = .StopEvent) }
  | _ => none

def start (q : Queue ε) : Queue ε :=
  if q.mRunning then q else { q with mStopped := false, thread := .running, mRunning := true }

/-- `stop`, up to the call that waits for the thread. It is not called while another call of it
waits. -/
def stop (q : Queue ε) (flush : Bool) : Option (Queue ε) :=
  if q.mRunning then
    if q.stopping then none
    else
      some { q.postTimedEvent .StopEvent (if flush then INT64_MAX else INT64_MIN) with
        stopping := true }
  else some q

/-- The rest of `stop`. -/
def joined (q : Queue ε) : Option (Queue ε) :=
  if q.stopping = true ∧ q.thread = .ended then
    some { q with
      mQueue := []
      mRunning := false
      thread := .none
      stopping := false
      discarded := q.discarded ++ q.mQueue.map fun item => q.mEventID item.event }
  else none

def forceStop (q : Queue ε) : Queue ε := { q with mStopped := true }

end Queue

inductive Act (ε : Type) where
  | tick (now : Int)
  | start
  | post (event : ε) (realtime_us : Int)
  | cancel (id : Nat)
  | stop (flush : Bool)
  | joined
  | forceStop
  | resume
  | timeout
  | fireReturns

/-- The clock does not go back. -/
def step (q : Queue ε) : Act ε → Option (Queue ε)
  | .tick now => if q.now ≤ now then some { q with now := now } else none
  | .start => some q.start
  | .post event realtime_us => some (q.postTimedEvent (.user event) realtime_us)
  | .cancel id => some (q.cancelEvent id).1
  | .stop flush => q.stop flush
  | .joined => q.joined
  | .forceStop => some q.forceStop
  | .resume => q.resume
  | .timeout => q.timeout
  | .fireReturns => q.fireReturns

/-- An event is not posted again while it is in the queue, and is posted for a time between
those of `stop`. -/
def Proper (q : Queue ε) : Act ε → Prop
  | .post event realtime_us =>
      (∀ item ∈ q.mQueue, item.event ≠ .user event) ∧
        INT64_MIN < realtime_us ∧ realtime_us ≤ INT64_MAX
  | _ => True

/-! ### What the functions do -/

namespace Queue

/-- The IDs of the queued events, in the order of the queue. -/
def ids (q : Queue ε) : List Nat := q.mQueue.map fun item => q.mEventID item.event

/-- The queue without an item of it. -/
def without (q : Queue ε) (front : List (QueueItem ε)) (item : QueueItem ε)
    (back : List (QueueItem ε)) : Queue ε :=
  { q with
    mQueue := front ++ back
    mEventID := Function.update q.mEventID item.event 0 }

/-- The queue when the thread leaves it to fire an item. -/
def fire (q : Queue ε) (front : List (QueueItem ε)) (item : QueueItem ε)
    (back : List (QueueItem ε)) : Queue ε :=
  { q.without front item back with
    thread := .firing item.event
    fired := q.fired ++ [⟨item.event, q.mEventID item.event, item.realtime_us, q.now⟩] }

theorem remove_cases (q : Queue ε) (id : Nat) :
    (id ∉ q.ids ∧ q.remove id = none) ∨
      ∃ front item back, q.mQueue = front ++ item :: back ∧ q.mEventID item.event = id ∧
        (∀ other ∈ front, q.mEventID other.event ≠ id) ∧
        q.remove id = some (item, q.without front item back) := by
  unfold remove
  cases hFind : q.mQueue.find? fun item => q.mEventID item.event = id with
  | none =>
      refine Or.inl ⟨?_, rfl⟩
      intro hMem
      obtain ⟨item, hItem, hID⟩ := List.mem_map.mp hMem
      exact absurd hID (by simpa using List.find?_eq_none.mp hFind item hItem)
  | some item =>
      obtain ⟨hID, front, back, hQueue, hFront⟩ := List.find?_eq_some_iff_append.mp hFind
      have hID : q.mEventID item.event = id := by simpa using hID
      have hFront : ∀ other ∈ front, q.mEventID other.event ≠ id := by simpa using hFront
      refine Or.inr ⟨front, item, back, hQueue, hID, hFront, ?_⟩
      have hErase : (q.mQueue.eraseP fun item => q.mEventID item.event = id) = front ++ back := by
        rw [hQueue, List.eraseP_append_right _ (by simpa using hFront),
          List.eraseP_cons_of_pos (by simpa using hID)]
      simp only [hErase, without]

theorem take_cases (q : Queue ε) (id : Nat) :
    (id ∉ q.ids ∧ q.take id = { q with thread := .running }) ∨
      ∃ front item back, q.mQueue = front ++ item :: back ∧ q.mEventID item.event = id ∧
        (∀ other ∈ front, q.mEventID other.event ≠ id) ∧ q.take id = q.fire front item back := by
  rcases q.remove_cases id with ⟨hNone, hRemove⟩ | ⟨front, item, back, hQueue, hID, hFront, hRemove⟩
  · exact Or.inl ⟨hNone, by rw [take, hRemove]⟩
  · refine Or.inr ⟨front, item, back, hQueue, hID, hFront, ?_⟩
    rw [take, hRemove, fire, hID]

theorem lookAtHead_nil {q : Queue ε} (hQueue : q.mQueue = []) (id : Nat) :
    q.lookAtHead id = { q with thread := .running } := by
  have hNone : id ∉ q.ids := by simp [ids, hQueue]
  rcases q.take_cases id with ⟨-, hTake⟩ | ⟨front, item, back, hItem, -⟩
  · rw [← hTake, lookAtHead, hQueue]
  · rw [hQueue] at hItem
    simp at hItem

theorem take_head {q : Queue ε} {item : QueueItem ε} {rest : List (QueueItem ε)}
    (hQueue : q.mQueue = item :: rest) {id : Nat} (hID : q.mEventID item.event = id) :
    q.take id = q.fire [] item rest := by
  rcases q.take_cases id with ⟨hNone, -⟩ | ⟨front, other, back, hOther, -, hFront, hTake⟩
  · exact absurd (by simp [ids, hQueue, hID]) hNone
  · cases front with
    | nil =>
        obtain ⟨rfl, rfl⟩ := List.cons.inj (hQueue.symm.trans hOther)
        exact hTake
    | cons first front =>
        obtain ⟨rfl, -⟩ := List.cons.inj (hQueue.symm.trans hOther)
        exact absurd hID (hFront item List.mem_cons_self)

theorem lookAtHead_due {q : Queue ε} {item : QueueItem ε} {rest : List (QueueItem ε)}
    (hQueue : q.mQueue = item :: rest) (hDelay : q.delay item ≤ 0) (id : Nat) :
    q.lookAtHead id = q.fire [] item rest := by
  rw [lookAtHead, hQueue]
  dsimp only
  rw [if_pos hDelay]
  exact take_head hQueue rfl

theorem lookAtHead_early {q : Queue ε} {item : QueueItem ε} {rest : List (QueueItem ε)}
    (hQueue : q.mQueue = item :: rest) (hDelay : 0 < q.delay item) (id : Nat) :
    q.lookAtHead id =
      { q with
        thread := .headChanged (q.mEventID item.event) (q.now + min (q.delay item) kMaxTimeoutUs)
          (decide (kMaxTimeoutUs < q.delay item)) false } := by
  rw [lookAtHead, hQueue]
  dsimp only
  rw [if_neg (by omega)]

/-- A post does no more to the thread than signal it. -/
theorem thread_post (q : Queue ε) (event : Event ε) (realtime_us : Int) :
    (q.postTimedEvent event realtime_us).thread = q.thread.signalNotEmpty ∨
      (q.postTimedEvent event realtime_us).thread = q.thread.signalHeadChanged.signalNotEmpty := by
  unfold postTimedEvent
  dsimp only
  split
  · exact Or.inr rfl
  · exact Or.inl rfl

theorem waitsFor_post (q : Queue ε) (event : Event ε) (realtime_us : Int) :
    (q.postTimedEvent event realtime_us).thread.waitsFor = q.thread.waitsFor := by
  rcases q.thread_post event realtime_us with hThread | hThread <;> rw [hThread] <;> simp

theorem cancelEvent_cases (q : Queue ε) (id : Nat) :
    ((id = 0 ∨ id ∉ q.ids) ∧ q.cancelEvent id = (q, false)) ∨
      ∃ front item back, q.mQueue = front ++ item :: back ∧ q.mEventID item.event = id ∧
        (∀ other ∈ front, q.mEventID other.event ≠ id) ∧ id ≠ 0 ∧
        q.cancelEvent id =
          ({ q.without front item back with
              thread := if front = [] then q.thread.signalHeadChanged else q.thread
              cancelled := q.cancelled ++ [id] }, true) := by
  unfold cancelEvent
  by_cases hZero : id = 0
  · exact Or.inl ⟨Or.inl hZero, by rw [if_pos hZero]⟩
  rw [if_neg hZero]
  rcases q.remove_cases id with ⟨hNone, hRemove⟩ | ⟨front, item, back, hQueue, hID, hFront, hRemove⟩
  · exact Or.inl ⟨Or.inr hNone, by rw [hRemove]⟩
  · refine Or.inr ⟨front, item, back, hQueue, hID, hFront, hZero, ?_⟩
    rw [hRemove, hQueue]
    cases front with
    | nil => simp [hID]
    | cons first front =>
        have hFirst : q.mEventID first.event ≠ id := hFront first List.mem_cons_self
        simp [hFirst]

end Queue

/-- The steps of the thread of the queue. -/
def Act.own {ε : Type} : Act ε → Bool
  | .resume | .timeout | .fireReturns => true
  | _ => false

/-- The thread is about to look at the queue. -/
def Queue.Looking {ε : Type} (q : Queue ε) : Prop :=
  (q.thread = .running ∧ q.mStopped = false) ∨ (∃ signalled, q.thread = .notEmpty signalled) ∨
    q.thread.waitsFor ≠ none

/-- What a step of the thread does. -/
inductive Own (q r : Queue ε) : Prop where
  | ends (hThread : q.thread = .running) (hStopped : q.mStopped = true)
      (hEnd : r = { q with thread := .ended })
  | sleeps (hLooking : q.Looking) (hQueue : q.mQueue = [])
      (hSleep : r = { q with thread := .notEmpty false })
  | waits (hLooking : q.Looking) {item : QueueItem ε} {rest : List (QueueItem ε)}
      (hQueue : q.mQueue = item :: rest) (hDelay : 0 < q.delay item)
      (hWait : r = { q with
        thread := .headChanged (q.mEventID item.event) (q.now + min (q.delay item) kMaxTimeoutUs)
          (decide (kMaxTimeoutUs < q.delay item)) false })
  | misses (hLooking : q.Looking) (hMiss : r = { q with thread := .running })
  | fires (hLooking : q.Looking) {front : List (QueueItem ε)} {item : QueueItem ε}
      {back : List (QueueItem ε)} (hQueue : q.mQueue = front ++ item :: back)
      (hDue : (front = [] ∧ q.delay item ≤ 0) ∨ ∃ wakeAt signalled, wakeAt ≤ q.now ∧
        q.thread = .headChanged (q.mEventID item.event) wakeAt false signalled)
      (hFire : r = q.fire front item back)
  | returns {event : Event ε} (hThread : q.thread = .firing event)
      (hReturn : r =
        { q with thread := .running, mStopped := q.mStopped || decide (event = .StopEvent) })

theorem own_lookAtHead {q : Queue ε} (hLooking : q.Looking) (id : Nat) :
    Own q (q.lookAtHead id) := by
  cases hQueue : q.mQueue with
  | nil => exact .misses hLooking (Queue.lookAtHead_nil hQueue id)
  | cons item rest =>
      by_cases hDelay : q.delay item ≤ 0
      · exact .fires hLooking hQueue (Or.inl ⟨rfl, hDelay⟩) (Queue.lookAtHead_due hQueue hDelay id)
      · have hEarly : 0 < q.delay item := by omega
        exact .waits hLooking hQueue hEarly (Queue.lookAtHead_early hQueue hEarly id)

theorem own_resume {q r : Queue ε} (hStep : q.resume = some r) : Own q r := by
  rw [Queue.resume] at hStep
  split at hStep
  · rename_i hThread
    split at hStep
    · rename_i hStopped
      cases hStep
      exact .ends hThread hStopped rfl
    · rename_i hStopped
      have hLooking : q.Looking := Or.inl ⟨hThread, by simpa using hStopped⟩
      split at hStep <;> cases hStep
      · rename_i hEmpty
        exact .sleeps hLooking (List.isEmpty_iff.mp hEmpty) rfl
      · exact own_lookAtHead hLooking 0
  · rename_i signalled hThread
    have hLooking : q.Looking := Or.inr (Or.inl ⟨signalled, hThread⟩)
    split at hStep <;> cases hStep
    · rename_i hEmpty
      exact .sleeps hLooking (List.isEmpty_iff.mp hEmpty) rfl
    · exact own_lookAtHead hLooking 0
  · rename_i hThread
    cases hStep
    exact own_lookAtHead (Or.inr (Or.inr (by rw [hThread]; exact Option.some_ne_none _))) _
  · cases hStep

theorem own_timeout {q r : Queue ε} (hStep : q.timeout = some r) : Own q r := by
  rw [Queue.timeout] at hStep
  split at hStep
  · rename_i id wakeAt capped signalled hThread
    have hLooking : q.Looking := Or.inr (Or.inr (by rw [hThread]; exact Option.some_ne_none _))
    split at hStep <;> cases hStep
    rename_i hWake
    cases capped with
    | true => exact own_lookAtHead hLooking id
    | false =>
        rcases q.take_cases id with ⟨-, hTake⟩ | ⟨front, item, back, hQueue, rfl, -, hTake⟩
        · exact .misses hLooking hTake
        · exact .fires hLooking hQueue (Or.inr ⟨wakeAt, signalled, hWake, hThread⟩) hTake
  · cases hStep

theorem own_fireReturns {q r : Queue ε} (hStep : q.fireReturns = some r) : Own q r := by
  rw [Queue.fireReturns] at hStep
  split at hStep
  · rename_i hThread
    cases hStep
    exact .returns hThread rfl
  · cases hStep

theorem own_step {q r : Queue ε} {act : Act ε} (hOwn : act.own = true)
    (hStep : step q act = some r) : Own q r := by
  cases act with
  | resume => exact own_resume hStep
  | timeout => exact own_timeout hStep
  | fireReturns => exact own_fireReturns hStep
  | _ => cases hOwn

theorem Own.flags {q r : Queue ε} (h : Own q r) :
    r.mRunning = q.mRunning ∧ r.stopping = q.stopping := by
  cases h with
  | ends _ _ hEnd => rw [hEnd]; exact ⟨rfl, rfl⟩
  | sleeps _ _ hSleep => rw [hSleep]; exact ⟨rfl, rfl⟩
  | waits _ _ _ hWait => rw [hWait]; exact ⟨rfl, rfl⟩
  | misses _ hMiss => rw [hMiss]; exact ⟨rfl, rfl⟩
  | fires _ _ _ hFire => rw [hFire]; exact ⟨rfl, rfl⟩
  | returns _ hReturn => rw [hReturn]; exact ⟨rfl, rfl⟩

end Queue

end Meet.TimedEventQueue
