import Meet.Common.MessageQueue
import Meet.TimedEventQueue.Basic

/-! What becomes of the events that are posted, and in which order they are fired. -/
namespace Meet.TimedEventQueue

section Keys

variable {ε : Type}

/-- When an item is due, and its ID. -/
def Queue.key (q : Queue ε) (item : QueueItem ε) : Int × Nat :=
  (item.realtime_us, q.mEventID item.event)

def Queue.keys (q : Queue ε) : List (Int × Nat) := q.mQueue.map q.key

/-- Due earlier, or at the same time and posted earlier. -/
def Before (a b : Int × Nat) : Prop := a.1 < b.1 ∨ (a.1 = b.1 ∧ a.2 < b.2)

theorem Before.asymm {a b : Int × Nat} (h : Before a b) : ¬ Before b a := by
  unfold Before at h ⊢
  omega

theorem Queue.ids_eq (q : Queue ε) : q.ids = q.keys.map Prod.snd := by
  simp [Queue.ids, Queue.keys, Queue.key]

theorem keys_split {q : Queue ε} {front : List (QueueItem ε)} {item : QueueItem ε}
    {back : List (QueueItem ε)} (hQueue : q.mQueue = front ++ item :: back) :
    q.keys = front.map q.key ++ q.key item :: back.map q.key := by
  rw [Queue.keys, hQueue, List.map_append, List.map_cons]

/-- The IDs of the events that have left the queue. -/
def Queue.gone (q : Queue ε) : List Nat := q.fired.map Fired.eventID ++ q.cancelled ++ q.discarded

/-- An event is in one place: queued, fired, cancelled or discarded. The queue is in order. -/
structure Ordered (q : Queue ε) : Prop where
  sorted : q.keys.Pairwise Before
  distinct : (q.mQueue.map QueueItem.event).Nodup
  accounted : (q.ids ++ q.gone).Perm (List.range' 1 (q.mNextEventID - 1))
  next : 0 < q.mNextEventID
  stopEvent : (∃ item ∈ q.mQueue, item.event = .StopEvent) → q.stopping = true

theorem ordered_new (now : Int) : Ordered (Queue.new (ε := ε) now) where
  sorted := List.Pairwise.nil
  distinct := List.nodup_nil
  accounted := List.Perm.refl _
  next := Nat.one_pos
  stopEvent := by simp [Queue.new]

theorem Ordered.due_le {q : Queue ε} (h : Ordered q) :
    q.mQueue.Pairwise fun a b => a.realtime_us ≤ b.realtime_us := by
  have hKeys := List.pairwise_map.mp h.sorted
  apply hKeys.imp
  intro a b hBefore
  cases hBefore with
  | inl hEarlier => exact Int.le_of_lt hEarlier
  | inr hSame => exact Int.le_of_eq hSame.1

theorem Ordered.id_lt {q : Queue ε} (h : Ordered q) {id : Nat} (hMem : id ∈ q.ids ++ q.gone) :
    0 < id ∧ id < q.mNextEventID := by
  have hRange := List.mem_range'_1.mp (h.accounted.subset hMem)
  have hNext := h.next
  omega

theorem Ordered.nodup {q : Queue ε} (h : Ordered q) : (q.ids ++ q.gone).Nodup :=
  h.accounted.nodup_iff.mpr List.nodup_range'

end Keys

variable {ε : Type} [DecidableEq ε]

/-- The events and their IDs are as before, and so is what has become of the others. -/
structure Same (q r : Queue ε) : Prop where
  mQueue : r.mQueue = q.mQueue
  mEventID : r.mEventID = q.mEventID
  mNextEventID : r.mNextEventID = q.mNextEventID
  fired : r.fired = q.fired
  cancelled : r.cancelled = q.cancelled
  discarded : r.discarded = q.discarded

/-- What a step does to the queue, and to a wait of its thread. -/
inductive Changed (q r : Queue ε) : Prop where
  | quiet (hSame : Same q r)
      (hWaits : ∀ id wakeAt capped signalled, r.thread = .headChanged id wakeAt capped signalled →
        q.thread = .headChanged id wakeAt capped signalled)
      (hEmpty : ∀ signalled, r.thread = .notEmpty signalled →
        q.thread = .notEmpty signalled ∨ q.mQueue = [])
      (hStopping : q.stopping = true → r.stopping = true)
  | waiting {item : QueueItem ε} {rest : List (QueueItem ε)} (hQueue : q.mQueue = item :: rest)
      (hDelay : 0 < q.delay item)
      (hWait : r = { q with
        thread := .headChanged (q.mEventID item.event) (q.now + min (q.delay item) kMaxTimeoutUs)
          (decide (kMaxTimeoutUs < q.delay item)) false })
  | posted (event : Event ε) (realtime_us : Int) (hNew : ∀ item ∈ q.mQueue, item.event ≠ event)
      (hRange : event ≠ .StopEvent → INT64_MIN < realtime_us ∧ realtime_us ≤ INT64_MAX)
      (stopping : Bool) (hStopping : event = .StopEvent ∨ q.stopping = true → stopping = true)
      (hPost : r = { q.postTimedEvent event realtime_us with stopping := stopping })
  | cancelled {front : List (QueueItem ε)} {item : QueueItem ε} {back : List (QueueItem ε)}
      (hQueue : q.mQueue = front ++ item :: back)
      (hCancel : r = { q.without front item back with
        thread := if front = [] then q.thread.signalHeadChanged else q.thread
        cancelled := q.cancelled ++ [q.mEventID item.event] })
  | fired {front : List (QueueItem ε)} {item : QueueItem ε} {back : List (QueueItem ε)}
      (hQueue : q.mQueue = front ++ item :: back)
      (hDue : (front = [] ∧ q.delay item ≤ 0) ∨ ∃ wakeAt signalled, wakeAt ≤ q.now ∧
        q.thread = .headChanged (q.mEventID item.event) wakeAt false signalled)
      (hFire : r = q.fire front item back)
  | discarded (hQueue : r.mQueue = []) (hSame : r.fired = q.fired ∧ r.cancelled = q.cancelled)
      (hNext : r.mNextEventID = q.mNextEventID) (hThread : r.thread = .none)
      (hDiscarded : r.discarded = q.discarded ++ q.ids)

theorem Changed.withThread {q : Queue ε} {thread : Thread ε} (mStopped mRunning : Bool)
    (hWaits : ∀ id wakeAt capped signalled, thread ≠ .headChanged id wakeAt capped signalled)
    (hEmpty : ∀ signalled, thread = .notEmpty signalled → q.mQueue = []) :
    Changed q { q with thread := thread, mStopped := mStopped, mRunning := mRunning } :=
  .quiet ⟨rfl, rfl, rfl, rfl, rfl, rfl⟩
    (fun id wakeAt capped signalled hThread => absurd hThread (hWaits id wakeAt capped signalled))
    (fun signalled hThread => Or.inr (hEmpty signalled hThread)) id

theorem changed_own {q r : Queue ε} (h : Own q r) : Changed q r := by
  cases h with
  | ends hThread hStopped hEnd =>
      rw [hEnd]
      exact .withThread q.mStopped q.mRunning (by simp) (by simp)
  | sleeps hLooking hQueue hSleep =>
      rw [hSleep]
      exact .withThread q.mStopped q.mRunning (by simp) fun _ _ => hQueue
  | waits hLooking hQueue hDelay hWait => exact .waiting hQueue hDelay hWait
  | misses hLooking hMiss =>
      rw [hMiss]
      exact .withThread q.mStopped q.mRunning (by simp) (by simp)
  | fires hLooking hQueue hDue hFire => exact .fired hQueue hDue hFire
  | returns hThread hReturn =>
      rw [hReturn]
      exact .withThread _ q.mRunning (by simp) (by simp)

/-- A step in which events are posted as they should be changes the queue in one of these
ways. -/
theorem changed_step {q r : Queue ε} {act : Act ε} (hProper : Proper q act)
    (hStopEvent : (∃ item ∈ q.mQueue, item.event = .StopEvent) → q.stopping = true)
    (hStep : step q act = some r) : Changed q r := by
  cases act with
  | tick now =>
      rw [step] at hStep
      split at hStep
      · cases hStep
        exact .quiet ⟨rfl, rfl, rfl, rfl, rfl, rfl⟩ (fun _ _ _ _ h => h) (fun _ h => Or.inl h) id
      · cases hStep
  | start =>
      cases hStep
      unfold Queue.start
      split
      · exact .quiet ⟨rfl, rfl, rfl, rfl, rfl, rfl⟩ (fun _ _ _ _ h => h) (fun _ h => Or.inl h) id
      · exact .withThread false true (by simp) (by simp)
  | post event realtime_us =>
      cases hStep
      exact .posted (.user event) realtime_us hProper.1 (fun _ => hProper.2) q.stopping (by simp)
        rfl
  | cancel id =>
      cases hStep
      rcases q.cancelEvent_cases id with
        ⟨-, hSame⟩ | ⟨front, item, back, hQueue, rfl, -, -, hCancel⟩
      · rw [hSame]
        exact .quiet ⟨rfl, rfl, rfl, rfl, rfl, rfl⟩ (fun _ _ _ _ h => h) (fun _ h => Or.inl h)
          fun h => h
      · rw [hCancel]
        exact .cancelled hQueue rfl
  | stop flush =>
      rw [step, Queue.stop] at hStep
      split at hStep
      · split at hStep
        · cases hStep
        · rename_i hStopping
          cases hStep
          refine .posted .StopEvent _ ?_ (fun hUser => absurd rfl hUser) true (by simp) rfl
          intro item hMem hEvent
          exact hStopping (hStopEvent ⟨item, hMem, hEvent⟩)
      · cases hStep
        exact .quiet ⟨rfl, rfl, rfl, rfl, rfl, rfl⟩ (fun _ _ _ _ h => h) (fun _ h => Or.inl h) id
  | joined =>
      rw [step, Queue.joined] at hStep
      split at hStep
      · cases hStep
        exact .discarded rfl ⟨rfl, rfl⟩ rfl rfl rfl
      · cases hStep
  | forceStop =>
      cases hStep
      exact .quiet ⟨rfl, rfl, rfl, rfl, rfl, rfl⟩ (fun _ _ _ _ h => h) (fun _ h => Or.inl h) id
  | resume => exact changed_own (own_resume hStep)
  | timeout => exact changed_own (own_timeout hStep)
  | fireReturns => exact changed_own (own_fireReturns hStep)

/-! ### The invariant -/

/-- Another event's ID does not change the keys. -/
theorem map_key_update (q r : Queue ε) {event : Event ε} {id : Nat}
    (hID : r.mEventID = Function.update q.mEventID event id) {items : List (QueueItem ε)}
    (hOther : ∀ item ∈ items, item.event ≠ event) : items.map r.key = items.map q.key := by
  apply List.map_congr_left
  intro item hMem
  rw [Queue.key, Queue.key, hID, Function.update_of_ne (hOther item hMem)]

/-- Where a new event goes. -/
theorem Ordered.post {q : Queue ε} (h : Ordered q) {event : Event ε} (realtime_us : Int)
    (hNew : ∀ item ∈ q.mQueue, item.event ≠ event) :
    ∃ front back, q.mQueue = front ++ back ∧
      (q.postTimedEvent event realtime_us).mQueue = front ++ ⟨event, realtime_us⟩ :: back ∧
      (q.postTimedEvent event realtime_us).keys =
        front.map q.key ++ (realtime_us, q.mNextEventID) :: back.map q.key ∧
      (∀ a ∈ front, a.realtime_us ≤ realtime_us) ∧ ∀ b ∈ back, realtime_us < b.realtime_us := by
  obtain ⟨front, back, hSplit, hInsert, hFront, hBack⟩ :=
    MessageQueue.orderedInsert_cases QueueItem.realtime_us ⟨event, realtime_us⟩ h.due_le
  refine ⟨front, back, hSplit, hInsert, ?_, hFront, hBack⟩
  have hOther (items : List (QueueItem ε)) (hItems : items ⊆ front ++ back) :
      items.map (q.postTimedEvent event realtime_us).key = items.map q.key := by
    apply map_key_update q _ rfl
    exact fun item hMem => hNew item (hSplit ▸ hItems hMem)
  rw [Queue.keys, show (q.postTimedEvent event realtime_us).mQueue = _ from hInsert,
    List.map_append, List.map_cons, hOther front (List.subset_append_left _ _),
    hOther back (List.subset_append_right _ _)]
  simp [Queue.key, Queue.postTimedEvent]

omit [DecidableEq ε] in
/-- No event is queued twice. -/
theorem Ordered.event_ne {q : Queue ε} (h : Ordered q) {front : List (QueueItem ε)}
    {item : QueueItem ε} {back : List (QueueItem ε)} (hQueue : q.mQueue = front ++ item :: back) :
    ∀ other ∈ front ++ back, other.event ≠ item.event := by
  have hDistinct := h.distinct
  rw [hQueue, List.map_append, List.map_cons, List.nodup_middle, ← List.map_append,
    List.nodup_cons] at hDistinct
  intro other hMem hEvent
  exact hDistinct.1 (hEvent ▸ List.mem_map_of_mem hMem)

/-- The other events keep their IDs. -/
theorem Ordered.id_without {q : Queue ε} (h : Ordered q) {front : List (QueueItem ε)}
    {item : QueueItem ε} {back : List (QueueItem ε)} (hQueue : q.mQueue = front ++ item :: back) :
    ∀ other ∈ front ++ back,
      (q.without front item back).mEventID other.event = q.mEventID other.event :=
  fun other hMem => Function.update_of_ne (h.event_ne hQueue other hMem) _ _

/-- The keys of the other events stay. -/
theorem Ordered.keys_without {q : Queue ε} (h : Ordered q) {front : List (QueueItem ε)}
    {item : QueueItem ε} {back : List (QueueItem ε)} (hQueue : q.mQueue = front ++ item :: back) :
    (q.without front item back).keys = front.map q.key ++ back.map q.key := by
  rw [← List.map_append]
  exact map_key_update q _ rfl (h.event_ne hQueue)

omit [DecidableEq ε] in
/-- An item leaves the queue. -/
theorem Ordered.leave {q r : Queue ε} (h : Ordered q) {front : List (QueueItem ε)}
    {item : QueueItem ε} {back : List (QueueItem ε)} (hQueue : q.mQueue = front ++ item :: back)
    (hRest : r.mQueue = front ++ back) (hKeys : r.keys = front.map q.key ++ back.map q.key)
    (hGone : r.gone.Perm (q.mEventID item.event :: q.gone))
    (hNext : r.mNextEventID = q.mNextEventID) (hStopping : r.stopping = q.stopping) :
    Ordered r where
  sorted := by
    rw [hKeys]
    have hSorted := h.sorted
    rw [keys_split hQueue] at hSorted
    exact hSorted.sublist (List.Sublist.append_left (List.sublist_cons_self _ _) _)
  distinct := by
    have hDistinct := h.distinct
    rw [hQueue] at hDistinct
    rw [hRest]
    exact hDistinct.sublist ((List.Sublist.append_left (List.sublist_cons_self _ _) _).map _)
  accounted := by
    have hBefore : q.ids = (front.map q.key).map Prod.snd ++
        q.mEventID item.event :: (back.map q.key).map Prod.snd := by
      rw [Queue.ids_eq, keys_split hQueue, List.map_append, List.map_cons, Queue.key]
    have hAfter : r.ids = (front.map q.key).map Prod.snd ++ (back.map q.key).map Prod.snd := by
      rw [Queue.ids_eq, hKeys, List.map_append]
    rw [hNext]
    refine List.Perm.trans ?_ h.accounted
    rw [hBefore, hAfter]
    exact ((hGone.append_left _).trans List.perm_middle).trans
      (List.perm_middle.append_right q.gone).symm
  next := hNext ▸ h.next
  stopEvent := by
    rintro ⟨other, hMem, hEvent⟩
    rw [hStopping]
    refine h.stopEvent ⟨other, ?_, hEvent⟩
    rw [hRest] at hMem
    rw [hQueue]
    exact (List.Sublist.append_left (List.sublist_cons_self item back) front).subset hMem

theorem Ordered.posted {q : Queue ε} (h : Ordered q) {event : Event ε} (realtime_us : Int)
    (hNew : ∀ item ∈ q.mQueue, item.event ≠ event) {stopping : Bool}
    (hStopping : event = .StopEvent ∨ q.stopping = true → stopping = true) :
    Ordered { q.postTimedEvent event realtime_us with stopping := stopping } := by
  obtain ⟨front, back, hSplit, hInsert, hKeys, hFront, hBack⟩ := h.post realtime_us hNew
  have hOld : q.keys = front.map q.key ++ back.map q.key := by
    rw [Queue.keys, hSplit, List.map_append]
  refine ⟨?_, ?_, ?_, Nat.succ_pos _, ?_⟩
  · have hSorted := h.sorted
    rw [hOld, List.pairwise_append] at hSorted
    obtain ⟨hSortedFront, hSortedBack, hCross⟩ := hSorted
    have hBefore : ∀ a ∈ front.map q.key, Before a (realtime_us, q.mNextEventID) := by
      intro a hMem
      obtain ⟨item, hItem, rfl⟩ := List.mem_map.mp hMem
      have hID : q.mEventID item.event ∈ q.ids :=
        List.mem_map_of_mem (hSplit ▸ List.mem_append_left back hItem)
      have hDue := hFront item hItem
      have hLess := (h.id_lt (List.mem_append_left q.gone hID)).2
      rw [Before, Queue.key]
      dsimp only
      omega
    show List.Pairwise Before (q.postTimedEvent event realtime_us).keys
    rw [hKeys, List.pairwise_append, List.pairwise_cons]
    refine ⟨hSortedFront, ⟨?_, hSortedBack⟩, ?_⟩
    · intro b hMem
      obtain ⟨item, hItem, rfl⟩ := List.mem_map.mp hMem
      exact Or.inl (hBack item hItem)
    · intro a hA b hB
      cases List.mem_cons.mp hB with
      | inl hNewest => exact hNewest ▸ hBefore a hA
      | inr hB => exact hCross a hA b hB
  · show ((q.postTimedEvent event realtime_us).mQueue.map QueueItem.event).Nodup
    have hDistinct := h.distinct
    rw [hSplit] at hDistinct
    rw [hInsert, List.map_append, List.map_cons, List.nodup_middle, ← List.map_append,
      List.nodup_cons]
    refine ⟨?_, hDistinct⟩
    intro hMem
    obtain ⟨item, hItem, hEvent⟩ := List.mem_map.mp hMem
    exact hNew item (hSplit ▸ hItem) hEvent
  · show ((q.postTimedEvent event realtime_us).ids ++ q.gone).Perm
      (List.range' 1 (q.mNextEventID + 1 - 1))
    have hNext := h.next
    have hAccounted := h.accounted
    rw [Queue.ids_eq, hOld] at hAccounted
    rw [Queue.ids_eq, hKeys, show q.mNextEventID + 1 - 1 = q.mNextEventID - 1 + 1 by omega,
      List.range'_1_concat, show 1 + (q.mNextEventID - 1) = q.mNextEventID by omega]
    have hFirst : ((front.map q.key ++ (realtime_us, q.mNextEventID) :: back.map q.key).map
        Prod.snd ++ q.gone).Perm
        (q.mNextEventID :: ((front.map q.key ++ back.map q.key).map Prod.snd ++ q.gone)) :=
      (List.perm_middle.map Prod.snd).append_right q.gone
    exact (hFirst.trans (hAccounted.cons _)).trans (List.perm_append_singleton _ _).symm
  · rintro ⟨item, hMem, hEvent⟩
    change item ∈ (q.postTimedEvent event realtime_us).mQueue at hMem
    rw [hInsert, List.mem_append, List.mem_cons] at hMem
    apply hStopping
    rcases hMem with hItem | rfl | hItem
    · exact Or.inr (h.stopEvent ⟨item, hSplit ▸ List.mem_append_left back hItem, hEvent⟩)
    · exact Or.inl hEvent
    · exact Or.inr (h.stopEvent ⟨item, hSplit ▸ List.mem_append_right front hItem, hEvent⟩)

theorem ordered_changed {q r : Queue ε} (h : Ordered q) (hChanged : Changed q r) : Ordered r := by
  cases hChanged with
  | quiet hSame hWaits hEmpty hStopping =>
      have hKey : r.key = q.key := by
        funext item
        rw [Queue.key, Queue.key, hSame.mEventID]
      have hKeys : r.keys = q.keys := by rw [Queue.keys, Queue.keys, hSame.mQueue, hKey]
      refine ⟨hKeys ▸ h.sorted, hSame.mQueue ▸ h.distinct, ?_, hSame.mNextEventID ▸ h.next, ?_⟩
      · rw [Queue.ids_eq, hKeys, ← Queue.ids_eq, Queue.gone, hSame.fired, hSame.cancelled,
          hSame.discarded, hSame.mNextEventID]
        exact h.accounted
      · rw [hSame.mQueue]
        exact fun hStop => hStopping (h.stopEvent hStop)
  | waiting hQueue hDelay hWait =>
      rw [hWait]
      exact ⟨h.sorted, h.distinct, h.accounted, h.next, h.stopEvent⟩
  | posted event realtime_us hNew hRange stopping hStopping hPost =>
      rw [hPost]
      exact h.posted realtime_us hNew hStopping
  | @cancelled front item back hQueue hCancel =>
      refine h.leave hQueue (hCancel ▸ rfl) (hCancel ▸ h.keys_without hQueue) ?_ (hCancel ▸ rfl)
        (hCancel ▸ rfl)
      rw [hCancel, Queue.gone, Queue.gone]
      simp only [Queue.without, List.append_assoc, List.singleton_append]
      exact (List.perm_middle.append_left _).trans List.perm_middle
  | @fired front item back hQueue hDue hFire =>
      refine h.leave hQueue (hFire ▸ rfl) (hFire ▸ h.keys_without hQueue) ?_ (hFire ▸ rfl)
        (hFire ▸ rfl)
      rw [hFire, Queue.gone, Queue.gone]
      simp only [Queue.fire, Queue.without, List.map_append, List.map_cons, List.map_nil,
        List.append_assoc, List.singleton_append]
      exact List.perm_middle
  | discarded hQueue hSame hNext hThread hDiscarded =>
      have hKeys : r.keys = [] := by rw [Queue.keys, hQueue, List.map_nil]
      refine ⟨hKeys ▸ .nil, by rw [hQueue]; exact .nil, ?_, hNext ▸ h.next, ?_⟩
      · rw [Queue.ids_eq, hKeys, List.map_nil, List.nil_append, hNext, Queue.gone, hSame.1, hSame.2,
          hDiscarded, ← List.append_assoc]
        exact List.perm_append_comm.trans h.accounted
      · rw [hQueue]
        rintro ⟨item, hMem, -⟩
        cases hMem

theorem ordered_step {q r : Queue ε} {act : Act ε} (h : Ordered q) (hProper : Proper q act)
    (hStep : step q act = some r) : Ordered r :=
  ordered_changed h (changed_step hProper h.stopEvent hStep)

theorem ordered_run {now : Int} {acts : List (Act ε)} {q : Queue ε}
    (run : Run step Proper (.new now) acts q) : Ordered q :=
  run.invariant (ordered_new now) fun _ _ _ h hProper hStep => ordered_step h hProper hStep

/-- The events of users are due between the times of `stop`. -/
def Ranged (q : Queue ε) : Prop :=
  ∀ item ∈ q.mQueue, item.event ≠ .StopEvent →
    INT64_MIN < item.realtime_us ∧ item.realtime_us ≤ INT64_MAX

theorem ranged_changed {q r : Queue ε} (h : Ranged q) (hChanged : Changed q r) : Ranged r := by
  have hWithout {front : List (QueueItem ε)} {item : QueueItem ε} {back : List (QueueItem ε)}
      (hQueue : q.mQueue = front ++ item :: back) (hRest : r.mQueue = front ++ back) : Ranged r := by
    intro other hMem
    rw [hRest] at hMem
    exact h other (hQueue ▸ (List.Sublist.append_left (List.sublist_cons_self item back)
      front).subset hMem)
  cases hChanged with
  | quiet hSame hWaits hEmpty hStopping => exact fun item hMem => h item (hSame.mQueue ▸ hMem)
  | waiting hQueue hDelay hWait => rw [hWait]; exact h
  | posted event realtime_us hNew hRange stopping hStopping hPost =>
      intro item hMem hUser
      rw [hPost] at hMem
      cases List.mem_cons.mp ((List.perm_orderedInsert _ _ _).subset hMem) with
      | inl hNewest =>
          rw [hNewest] at hUser ⊢
          exact hRange hUser
      | inr hOld => exact h item hOld hUser
  | cancelled hQueue hCancel => exact hWithout hQueue (by rw [hCancel]; rfl)
  | fired hQueue hDue hFire => exact hWithout hQueue (by rw [hFire]; rfl)
  | discarded hQueue hSame hNext hThread hDiscarded =>
      intro item hMem
      rw [hQueue] at hMem
      cases hMem

theorem ranged_run {now : Int} {acts : List (Act ε)} {q : Queue ε}
    (run : Run step Proper (.new now) acts q) : Ranged q := by
  have hBoth : Ordered q ∧ Ranged q := by
    apply run.invariant
    · exact ⟨ordered_new now, fun item hMem => by cases hMem⟩
    · intro before act after h hProper hStep
      have hChanged := changed_step hProper h.1.stopEvent hStep
      exact ⟨ordered_changed h.1 hChanged, ranged_changed h.2 hChanged⟩
  exact hBoth.2

/-! ### What becomes of the events -/

theorem cancelled_changed {q r : Queue ε} (hChanged : Changed q r) : q.cancelled ⊆ r.cancelled := by
  cases hChanged with
  | quiet hSame hWaits hEmpty hStopping => rw [hSame.cancelled]; exact List.Subset.refl _
  | waiting hQueue hDelay hWait => rw [hWait]; exact List.Subset.refl _
  | posted event realtime_us hNew hRange stopping hStopping hPost => rw [hPost]; exact List.Subset.refl _
  | cancelled hQueue hCancel => rw [hCancel]; exact List.subset_append_left _ _
  | fired hQueue hDue hFire => rw [hFire]; exact List.Subset.refl _
  | discarded hQueue hSame hNext hThread hDiscarded => rw [hSame.2]; exact List.Subset.refl _

/-- Every event that was posted is in exactly one place: it is queued, or was fired, cancelled
or discarded by `stop`. `cancelEvent` returns true just for a queued event, which is not fired
after that. -/
theorem events_accounted {now : Int} {acts : List (Act ε)} {q : Queue ε}
    (run : Run step Proper (.new now) acts q) :
    (q.ids ++ q.gone).Perm (List.range' 1 (q.mNextEventID - 1)) ∧
      ∀ id, ((q.cancelEvent id).2 = true ↔ id ∈ q.ids) ∧
        ((q.cancelEvent id).2 = true → ∀ later r,
          Run step Proper (q.cancelEvent id).1 later r → id ∉ r.fired.map Fired.eventID) := by
  have h := ordered_run run
  refine ⟨h.accounted, fun id => ⟨?_, ?_⟩⟩
  · rcases q.cancelEvent_cases id with
      ⟨hNone, hSame⟩ | ⟨front, item, back, hQueue, rfl, -, -, hCancel⟩
    · have hAbsent : id ∉ q.ids := by
        intro hMem
        have hPos := (h.id_lt (List.mem_append_left q.gone hMem)).1
        cases hNone with
        | inl hZero => omega
        | inr hNone => exact hNone hMem
      simp [hSame, hAbsent]
    · have hMem : q.mEventID item.event ∈ q.ids := by
        rw [Queue.ids, hQueue]
        simp
      simp [hCancel, hMem]
  · intro hTrue later r hLater
    have hStep : step q (.cancel id) = some (q.cancelEvent id).1 := rfl
    have hProper : Proper q (.cancel id) := trivial
    have hAfter : Ordered (q.cancelEvent id).1 := ordered_step h hProper hStep
    have hCancelled : id ∈ (q.cancelEvent id).1.cancelled := by
      rcases q.cancelEvent_cases id with
        ⟨-, hSame⟩ | ⟨front, item, back, hQueue, -, -, -, hCancel⟩
      · rw [hSame] at hTrue
        cases hTrue
      · rw [hCancel]
        exact List.mem_append_right _ (List.mem_singleton_self id)
    have hKept : Ordered r ∧ id ∈ r.cancelled := by
      apply hLater.invariant
      · exact ⟨hAfter, hCancelled⟩
      · intro before act after hBefore hProper hStep
        exact ⟨ordered_step hBefore.1 hProper hStep,
          cancelled_changed (changed_step hProper hBefore.1.stopEvent hStep) hBefore.2⟩
    intro hFired
    have hNodup := (List.nodup_append.mp hKept.1.nodup).2.1
    rw [Queue.gone, List.append_assoc, List.nodup_append] at hNodup
    exact hNodup.2.2 id hFired id (List.mem_append_left _ hKept.2) rfl

/-- A queue that was started, with two events. -/
def twoPosted : Queue Nat := ((Queue.new 0).start.postEvent 7).postEvent 8

theorem run_twoPosted : Run step Proper (.new 0)
    [.start, .post 7 (INT64_MIN + 1), .post 8 (INT64_MIN + 1)] twoPosted := by
  have hRange : INT64_MIN < INT64_MIN + 1 ∧ INT64_MIN + 1 ≤ INT64_MAX := by decide
  have hFirst : Proper (Queue.new 0).start (.post 7 (INT64_MIN + 1)) := ⟨by decide, hRange⟩
  have hSecond : Proper ((Queue.new 0).start.postEvent 7) (.post 8 (INT64_MIN + 1)) :=
    ⟨by decide, hRange⟩
  exact Run.cons trivial rfl (Run.cons hFirst rfl (Run.single hSecond rfl))

theorem events_accounted_twoPosted :
    (twoPosted.ids ++ twoPosted.gone).Perm (List.range' 1 (twoPosted.mNextEventID - 1)) ∧
      ∀ id, ((twoPosted.cancelEvent id).2 = true ↔ id ∈ twoPosted.ids) ∧
        ((twoPosted.cancelEvent id).2 = true → ∀ later r,
          Run step Proper (twoPosted.cancelEvent id).1 later r →
            id ∉ r.fired.map Fired.eventID) :=
  events_accounted run_twoPosted

/-! ### Order -/

section InOrder

variable {q r : Queue ε} {first second : Int × Nat}

omit [DecidableEq ε] in
/-- What is before another key is not behind it. -/
theorem Ordered.head_ne (h : Ordered q) {item : QueueItem ε} {rest : List (QueueItem ε)}
    (hQueue : q.mQueue = item :: rest) (hFirst : first ∈ q.keys) (hBefore : Before first second) :
    q.key item ≠ second := by
  rintro rfl
  have hSorted := h.sorted
  rw [Queue.keys, hQueue, List.map_cons] at hSorted hFirst
  cases List.mem_cons.mp hFirst with
  | inl hSame => exact (hSame ▸ hBefore.asymm) (hSame ▸ hBefore)
  | inr hRest => exact hBefore.asymm ((List.pairwise_cons.mp hSorted).1 first hRest)

/-- While the first is queued, the second was not fired and is not waited for. -/
structure Held (first second : Int × Nat) (q : Queue ε) : Prop where
  posted : first.2 < q.mNextEventID ∧ second.2 < q.mNextEventID
  notFired : first ∈ q.keys → second.2 ∉ q.fired.map Fired.eventID
  notAwaited : first ∈ q.keys → q.thread.waitsFor ≠ some second.2
  unique : first ∈ q.keys → ∀ key ∈ q.keys, key.2 = second.2 → key = second

omit [DecidableEq ε] in
theorem Held.mono (h : Held first second q) (hKeys : r.keys ⊆ q.keys) (hFired : r.fired = q.fired)
    (hNext : r.mNextEventID = q.mNextEventID)
    (hThread : first ∈ q.keys → r.thread.waitsFor ≠ some second.2) : Held first second r where
  posted := hNext ▸ h.posted
  notFired := fun hFirst => hFired ▸ h.notFired (hKeys hFirst)
  notAwaited := fun hFirst => hThread (hKeys hFirst)
  unique := fun hFirst key hMem => h.unique (hKeys hFirst) key (hKeys hMem)

/-- The keys that a removal leaves were there before. -/
theorem Ordered.keys_without_subset (h : Ordered q) {front : List (QueueItem ε)}
    {item : QueueItem ε} {back : List (QueueItem ε)} (hQueue : q.mQueue = front ++ item :: back) :
    (q.without front item back).keys ⊆ q.keys := by
  rw [h.keys_without hQueue, keys_split hQueue]
  exact (List.Sublist.append_left (List.sublist_cons_self _ _) _).subset

theorem held_changed (h : Ordered q) (hBefore : Before first second) (hHeld : Held first second q)
    (hChanged : Changed q r) : Held first second r := by
  have hHead {item : QueueItem ε} {rest : List (QueueItem ε)} (hQueue : q.mQueue = item :: rest)
      (hFirst : first ∈ q.keys) : q.mEventID item.event ≠ second.2 := by
    intro hSame
    have hMem : q.key item ∈ q.keys := List.mem_map_of_mem (hQueue ▸ List.mem_cons_self)
    exact h.head_ne hQueue hFirst hBefore (hHeld.unique hFirst _ hMem hSame)
  cases hChanged with
  | quiet hSame hWaits hEmpty hStopping =>
      have hKey : r.key = q.key := by
        funext item
        rw [Queue.key, Queue.key, hSame.mEventID]
      have hKeys : r.keys = q.keys := by rw [Queue.keys, Queue.keys, hSame.mQueue, hKey]
      refine hHeld.mono (hKeys ▸ List.Subset.refl _) hSame.fired hSame.mNextEventID ?_
      intro hFirst hWait
      cases hThread : r.thread with
      | headChanged id wakeAt capped signalled =>
          apply hHeld.notAwaited hFirst
          rw [hWaits id wakeAt capped signalled hThread, ← hThread, hWait]
      | _ =>
          rw [hThread] at hWait
          cases hWait
  | waiting hQueue hDelay hWait =>
      refine hHeld.mono (hWait ▸ List.Subset.refl _) (hWait ▸ rfl) (hWait ▸ rfl) ?_
      intro hFirst hAwaited
      rw [hWait] at hAwaited
      exact hHead hQueue hFirst (Option.some.inj hAwaited)
  | posted event realtime_us hNew hRange stopping hStopping hPost =>
      obtain ⟨front, back, hSplit, hInsert, hKeys, -, -⟩ := h.post realtime_us hNew
      have hOld : ∀ key ∈ r.keys, key.2 < q.mNextEventID → key ∈ q.keys := by
        intro key hMem hLess
        rw [hPost] at hMem
        change key ∈ (q.postTimedEvent event realtime_us).keys at hMem
        rw [hKeys] at hMem
        rw [Queue.keys, hSplit, List.map_append]
        rcases List.mem_append.mp hMem with hFront | hRest
        · exact List.mem_append_left _ hFront
        · cases List.mem_cons.mp hRest with
          | inl hNewest =>
              rw [hNewest] at hLess
              exact absurd hLess (Nat.lt_irrefl _)
          | inr hBack => exact List.mem_append_right _ hBack
      have hFirst : first ∈ r.keys → first ∈ q.keys := fun hMem => hOld first hMem hHeld.posted.1
      have hNext : r.mNextEventID = q.mNextEventID + 1 := by rw [hPost]; rfl
      have hWaits : r.thread.waitsFor = q.thread.waitsFor := by
        rw [hPost]
        exact q.waitsFor_post event realtime_us
      have hPosted := hHeld.posted
      refine ⟨⟨by omega, by omega⟩, ?_, ?_, ?_⟩
      · exact fun hMem => hPost ▸ hHeld.notFired (hFirst hMem)
      · exact fun hMem => hWaits ▸ hHeld.notAwaited (hFirst hMem)
      · intro hMem key hKey hSame
        exact hHeld.unique (hFirst hMem) key (hOld key hKey (hSame ▸ hHeld.posted.2)) hSame
  | @cancelled front item back hQueue hCancel =>
      refine hHeld.mono (hCancel ▸ h.keys_without_subset hQueue) (hCancel ▸ rfl) (hCancel ▸ rfl) ?_
      intro hFirst
      have hWaits : r.thread.waitsFor = q.thread.waitsFor := by
        rw [hCancel]
        dsimp only
        split <;> simp
      exact hWaits ▸ hHeld.notAwaited hFirst
  | @fired front item back hQueue hDue hFire =>
      have hKeys : r.keys ⊆ q.keys := hFire ▸ h.keys_without_subset hQueue
      refine ⟨hFire ▸ hHeld.posted, ?_, ?_, ?_⟩
      · intro hMem hFired
        rw [hFire, Queue.fire, List.map_append, List.mem_append] at hFired
        cases hFired with
        | inl hOld => exact hHeld.notFired (hKeys hMem) hOld
        | inr hNewest =>
            have hSame : second.2 = q.mEventID item.event := by simpa using hNewest
            rcases hDue with ⟨rfl, -⟩ | ⟨wakeAt, signalled, -, hThread⟩
            · exact hHead hQueue (hKeys hMem) hSame.symm
            · apply hHeld.notAwaited (hKeys hMem)
              rw [hThread, hSame]
              rfl
      · intro _ hAwaited
        rw [hFire] at hAwaited
        cases hAwaited
      · exact fun hMem key hKey => hHeld.unique (hKeys hMem) key (hKeys hKey)
  | discarded hQueue hSame hNext hThread hDiscarded =>
      have hEmpty : first ∉ r.keys := by
        rw [Queue.keys, hQueue]
        exact List.not_mem_nil
      exact ⟨hNext ▸ hHeld.posted, fun hMem => absurd hMem hEmpty, fun hMem => absurd hMem hEmpty,
        fun hMem => absurd hMem hEmpty⟩

end InOrder

/-- An event is not fired while one is queued that is due earlier, or at the same time and was
posted earlier. Only the event for which the thread waits already may be fired before it. -/
theorem fired_in_order {now : Int} {acts : List (Act ε)} {q : Queue ε}
    (run : Run step Proper (.new now) acts q) {first second : Int × Nat}
    (hFirst : first ∈ q.keys) (hSecond : second ∈ q.keys) (hBefore : Before first second)
    (hWaits : q.thread.waitsFor ≠ some second.2)
    {later : List (Act ε)} {r : Queue ε} (hLater : Run step Proper q later r)
    (hQueued : first ∈ r.keys) : second.2 ∉ r.fired.map Fired.eventID := by
  have h := ordered_run run
  have hHeld : Held first second q := by
    have hID {key : Int × Nat} (hMem : key ∈ q.keys) : key.2 ∈ q.ids := by
      rw [Queue.ids_eq]
      exact List.mem_map_of_mem hMem
    have hNodup := (List.nodup_append.mp h.nodup)
    refine ⟨⟨(h.id_lt (List.mem_append_left _ (hID hFirst))).2,
      (h.id_lt (List.mem_append_left _ (hID hSecond))).2⟩, ?_, fun _ => hWaits, ?_⟩
    · intro _ hFired
      have hGone : second.2 ∈ q.gone :=
        List.mem_append_left _ (List.mem_append_left _ hFired)
      exact hNodup.2.2 second.2 (hID hSecond) second.2 hGone rfl
    · intro _ key hMem hSame
      have hKeys := hNodup.1
      rw [Queue.ids_eq] at hKeys
      exact List.inj_on_of_nodup_map hKeys hMem hSecond hSame
  have hAll : Ordered r ∧ Held first second r := by
    apply hLater.invariant
    · exact ⟨h, hHeld⟩
    · intro before act after hHolds hProper hStep
      have hChanged := changed_step hProper hHolds.1.stopEvent hStep
      exact ⟨ordered_changed hHolds.1 hChanged, held_changed hHolds.1 hBefore hHolds.2 hChanged⟩
  exact hAll.2.notFired hQueued

/-- A queue with one event at 100 and one at 200. -/
def twoTimed : Queue Nat :=
  ((Queue.new 0).start.postTimedEvent (.user 7) 100).postTimedEvent (.user 8) 200

theorem run_twoTimed :
    Run step Proper (.new 0) [.start, .post 7 100, .post 8 200] twoTimed := by
  have hFirst : Proper (Queue.new 0).start (.post 7 100) := ⟨by decide, by decide, by decide⟩
  have hSecond : Proper ((Queue.new 0).start.postTimedEvent (.user 7) 100) (.post 8 200) :=
    ⟨by decide, by decide, by decide⟩
  exact Run.cons trivial rfl (Run.cons hFirst rfl (Run.single hSecond rfl))

/-- A third event was posted to the front and fired, and the clock has gone on behind the times
of the others. -/
def thirdFired : Queue Nat :=
  { (twoTimed.postEvent 9).fire [] ⟨.user 9, INT64_MIN + 1⟩ [⟨.user 7, 100⟩, ⟨.user 8, 200⟩] with
    thread := .running
    now := 300 }

theorem run_thirdFired : Run step Proper twoTimed
    [.post 9 (INT64_MIN + 1), .resume, .fireReturns, .tick 300] thirdFired := by
  have hPost : Proper twoTimed (.post 9 (INT64_MIN + 1)) := ⟨by decide, by decide, by decide⟩
  exact Run.cons hPost rfl (Run.cons trivial rfl (Run.cons trivial rfl (Run.single trivial rfl)))

theorem fired_in_order_thirdFired :
    thirdFired.fired.map Fired.eventID = [3] ∧ 2 ∉ thirdFired.fired.map Fired.eventID := by
  have hFirst : (100, 1) ∈ twoTimed.keys := by decide
  have hSecond : (200, 2) ∈ twoTimed.keys := by decide
  have hBefore : Before (100, 1) (200, 2) := Or.inl (by decide)
  have hQueued : (100, 1) ∈ thirdFired.keys := by decide
  exact ⟨by decide,
    fired_in_order run_twoTimed hFirst hSecond hBefore (by decide) run_thirdFired hQueued⟩

end Meet.TimedEventQueue
