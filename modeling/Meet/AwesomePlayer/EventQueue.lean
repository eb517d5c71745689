import Meet.AwesomePlayer.Events
import Meet.TimedEventQueue.Order

/-! The queue of events that the model of the player uses is that of `TimedEventQueue`, without
times and order. -/
namespace Meet.AwesomePlayer
open TimedEventQueue (Queue QueueItem Ordered Proper)

/-- The events of the player in the queue. -/
def users (items : List (QueueItem Event)) : List Event :=
  items.filterMap fun item =>
    match item.event with
    | .user event => some event
    | .StopEvent => none

/-- The player's queue holds the events of the queue, and knows which have an ID. -/
structure Bag (q : Queue Event) (p : Player) : Prop where
  events : (users q.mQueue).Perm p.mQueue
  ids : ∀ event, p.eventID event = decide (q.mEventID (.user event) ≠ 0)
  queued : ∀ event, q.mEventID (.user event) ≠ 0 ↔ event ∈ p.mQueue

theorem mem_users {items : List (QueueItem Event)} {event : Event} :
    event ∈ users items ↔ ∃ item ∈ items, item.event = .user event := by
  simp only [users, List.mem_filterMap]
  constructor
  · rintro ⟨item, hMem, hEvent⟩
    refine ⟨item, hMem, ?_⟩
    cases hUser : item.event with
    | user other =>
        rw [hUser] at hEvent
        rw [Option.some.inj hEvent]
    | StopEvent =>
        rw [hUser] at hEvent
        cases hEvent
  · rintro ⟨item, hMem, hEvent⟩
    exact ⟨item, hMem, by rw [hEvent]⟩

theorem users_split (front back : List (QueueItem Event)) {item : QueueItem Event} {event : Event}
    (hEvent : item.event = .user event) :
    users (front ++ item :: back) = users front ++ event :: users back := by
  simp [users, List.filterMap_append, hEvent]

theorem users_split_stop (front back : List (QueueItem Event)) {item : QueueItem Event}
    (hStop : item.event = .StopEvent) : users (front ++ item :: back) = users (front ++ back) := by
  simp [users, List.filterMap_append, hStop]

section Bag

variable {q r : Queue Event} {p p' : Player}

/-- No event is queued twice. -/
theorem Bag.nodup (h : Ordered q) (hBag : Bag q p) : p.mQueue.Nodup := by
  apply hBag.events.nodup_iff.mp
  have hUsers : users q.mQueue = (q.mQueue.map QueueItem.event).filterMap fun event =>
      match event with
      | .user event => some event
      | .StopEvent => none := by
    rw [List.filterMap_map]
    rfl
  rw [hUsers]
  apply List.Nodup.filterMap _ h.distinct
  intro first second event hFirst hSecond
  cases first <;> cases second <;> simp_all

/-- Nothing changes for the events of the player. -/
theorem Bag.same (hBag : Bag q p) (hUsers : (users r.mQueue).Perm (users q.mQueue))
    (hID : ∀ event, r.mEventID (.user event) = q.mEventID (.user event)) : Bag r p where
  events := hUsers.trans hBag.events
  ids event := by rw [hBag.ids, hID]
  queued event := by rw [hID, hBag.queued]

/-- An event of the player leaves the queue. -/
theorem Bag.without (hBag : Bag q p) (h : Ordered q) {front : List (QueueItem Event)}
    {item : QueueItem Event} {back : List (QueueItem Event)}
    (hQueue : q.mQueue = front ++ item :: back) {event : Event} (hEvent : item.event = .user event)
    (hRest : r.mQueue = front ++ back)
    (hID : r.mEventID = Function.update q.mEventID item.event 0)
    (hErase : p'.mQueue = p.mQueue.erase event)
    (hCleared : p'.eventID = Function.update p.eventID event false) : Bag r p' where
  events := by
    have hEvents := hBag.events
    rw [hQueue, users_split front back hEvent] at hEvents
    have hRemoved := (List.perm_middle.symm.trans hEvents).erase event
    rw [List.erase_cons_head] at hRemoved
    rw [hRest, hErase, users, List.filterMap_append]
    exact hRemoved
  ids := by
    intro other
    rw [hCleared, hID, hEvent]
    by_cases hOther : other = event
    · simp [hOther]
    · rw [Function.update_of_ne hOther, Function.update_of_ne (by simpa using hOther), hBag.ids]
  queued := by
    intro other
    rw [hErase, hID, hEvent, (hBag.nodup h).mem_erase_iff]
    by_cases hOther : other = event
    · simp [hOther]
    · rw [Function.update_of_ne (by simpa using hOther), hBag.queued]
      simp [hOther]

theorem Bag.post (hBag : Bag q p) (h : Ordered q) (event : Event) (realtime_us : Int) :
    Bag (q.postTimedEvent (.user event) realtime_us) (p.post event) where
  events := by
    have hInsert := List.perm_orderedInsert
      (fun a b : QueueItem Event => a.realtime_us < b.realtime_us)
      ⟨.user event, realtime_us⟩ q.mQueue
    have hUsers : (users (q.postTimedEvent (.user event) realtime_us).mQueue).Perm
        (event :: users q.mQueue) := hInsert.filterMap _
    exact hUsers.trans ((hBag.events.cons event).trans (List.perm_append_singleton event _).symm)
  ids := by
    intro other
    have hNext := h.next
    by_cases hOther : other = event
    · simp [Queue.postTimedEvent, Player.post, hOther]
      omega
    · simp [Queue.postTimedEvent, Player.post, hOther, hBag.ids]
  queued := by
    intro other
    have hNext := h.next
    have hQueued := hBag.queued other
    by_cases hOther : other = event
    · simp [Queue.postTimedEvent, Player.post, hOther]
      omega
    · simpa [Queue.postTimedEvent, Player.post, hOther] using hQueued

/-- An event is cancelled by the ID that it has. -/
theorem Bag.cancel (hBag : Bag q p) (h : Ordered q) (event : Event) :
    Bag (q.cancelEvent (q.mEventID (.user event))).1 (p.cancel event) := by
  have hID := hBag.ids event
  rcases q.cancelEvent_cases (q.mEventID (.user event)) with
    ⟨hNone, hSame⟩ | ⟨front, item, back, hQueue, hItem, -, hNonzero, hCancel⟩
  · have hZero : q.mEventID (.user event) = 0 := by
      by_contra hNonzero
      obtain ⟨item, hMem, hEvent⟩ :=
        mem_users.mp (hBag.events.mem_iff.mpr ((hBag.queued event).mp hNonzero))
      refine hNone.resolve_left hNonzero (List.mem_map.mpr ⟨item, hMem, ?_⟩)
      rw [hEvent]
    rw [hSame]
    have hClear : p.eventID event = false := by simpa [hZero] using hID
    refine ⟨?_, ?_, ?_⟩
    · simpa [Player.cancel, hClear] using hBag.events
    · intro other
      by_cases hOther : other = event
      · simp [Player.cancel, hOther, hZero]
      · simp [Player.cancel, hOther, hBag.ids]
    · simpa [Player.cancel, hClear] using hBag.queued
  · have hSet : p.eventID event = true := by simpa [hNonzero] using hID
    obtain ⟨other, hMem, hOther⟩ :=
      mem_users.mp (hBag.events.mem_iff.mpr ((hBag.queued event).mp hNonzero))
    have hSameItem : item = other :=
      List.inj_on_of_nodup_map (List.nodup_append.mp h.nodup).1 (by rw [hQueue]; simp) hMem
        (by rw [hItem, hOther])
    rw [hCancel]
    exact hBag.without h hQueue (hSameItem ▸ hOther) rfl rfl (by simp [Player.cancel, hSet]) rfl

/-- The events of the player that are queued are those whose IDs are in the queue. -/
theorem Bag.mem_ids (hBag : Bag q p) (h : Ordered q) (event : Event) :
    q.mEventID (.user event) ∈ q.ids ↔ event ∈ p.mQueue := by
  constructor
  · intro hMem
    have hPos := (h.id_lt (List.mem_append_left q.gone hMem)).1
    exact (hBag.queued event).mp (by omega)
  · intro hQueued
    obtain ⟨item, hMem, hEvent⟩ := mem_users.mp (hBag.events.mem_iff.mpr hQueued)
    exact List.mem_map.mpr ⟨item, hMem, by rw [hEvent]⟩

/-- What the thread of the queue does to the events of the player. -/
theorem Bag.own (hBag : Bag q p) (h : Ordered q) (hOwn : TimedEventQueue.Own q r) :
    Bag r p ∨ ∃ event p', r.thread = .firing (.user event) ∧ Bag r p' ∧
      ∀ statics, playerStep statics { p with thread := .idle } (.fire event) =
        some (statics, p') := by
  cases hOwn with
  | ends _ _ hEnd => exact Or.inl (hEnd ▸ hBag.same (.refl _) fun _ => rfl)
  | sleeps _ _ hSleep => exact Or.inl (hSleep ▸ hBag.same (.refl _) fun _ => rfl)
  | waits _ _ _ hWait => exact Or.inl (hWait ▸ hBag.same (.refl _) fun _ => rfl)
  | misses _ hMiss => exact Or.inl (hMiss ▸ hBag.same (.refl _) fun _ => rfl)
  | returns _ hReturn => exact Or.inl (hReturn ▸ hBag.same (.refl _) fun _ => rfl)
  | @fires _ front item back hQueue _ hFire =>
      rw [hFire]
      cases hEvent : item.event with
      | StopEvent =>
          refine Or.inl (hBag.same ?_ ?_)
          · rw [hQueue, users_split_stop front back hEvent]
            exact .refl _
          · intro event
            exact Function.update_of_ne (by simp [hEvent]) _ _
      | user event =>
          have hMem : event ∈ p.mQueue :=
            hBag.events.subset (mem_users.mpr ⟨item, by rw [hQueue]; simp, hEvent⟩)
          refine Or.inr ⟨event, { p with
              mQueue := p.mQueue.erase event
              eventID := Function.update p.eventID event false
              thread := .fired event }, by rw [Queue.fire, hEvent],
            hBag.without h hQueue hEvent rfl rfl rfl rfl, fun statics => ?_⟩
          exact if_pos ⟨rfl, hMem⟩

end Bag

/-- A step of the queue is a step of the player's queue: a post, the cancelling of an event by
its ID, or the firing of any event in it. Otherwise nothing changes for the player, except that
the rest of `stop` discards all its queued events and fires none. -/
theorem queue_refines_bag {now : Int} {acts : List (TimedEventQueue.Act Event)} {q r : Queue Event}
    (run : Run TimedEventQueue.step Proper (.new now) acts q) {p : Player} (hBag : Bag q p)
    {act : TimedEventQueue.Act Event} (hProper : Proper q act)
    (hStep : TimedEventQueue.step q act = some r) :
    match act with
    | .post event _ => Bag r (p.post event)
    | .cancel id => ∀ event, id = q.mEventID (.user event) → Bag r (p.cancel event)
    | .joined => r.mQueue = [] ∧ r.fired = q.fired ∧
        ∃ ids, r.discarded = q.discarded ++ ids ∧
          ∀ event, q.mEventID (.user event) ∈ ids ↔ event ∈ p.mQueue
    | _ => Bag r p ∨ ∃ event p', r.thread = .firing (.user event) ∧ Bag r p' ∧
        ∀ statics, playerStep statics { p with thread := .idle } (.fire event) =
          some (statics, p') := by
  have h := TimedEventQueue.ordered_run run
  cases act with
  | post event realtime_us =>
      cases hStep
      exact hBag.post h event realtime_us
  | cancel id =>
      cases hStep
      rintro event rfl
      exact hBag.cancel h event
  | joined =>
      rw [TimedEventQueue.step, Queue.joined] at hStep
      split at hStep <;> cases hStep
      exact ⟨rfl, rfl, q.ids, rfl, hBag.mem_ids h⟩
  | tick now =>
      rw [TimedEventQueue.step] at hStep
      split at hStep <;> cases hStep
      exact Or.inl (hBag.same (.refl _) fun _ => rfl)
  | start =>
      cases hStep
      refine Or.inl ?_
      unfold Queue.start
      split
      · exact hBag
      · exact hBag.same (.refl _) fun _ => rfl
  | stop flush =>
      rw [TimedEventQueue.step, Queue.stop] at hStep
      refine Or.inl ?_
      split at hStep
      · split at hStep <;> cases hStep
        refine hBag.same ?_ fun event => by simp [Queue.postTimedEvent]
        exact (List.perm_orderedInsert _ _ _).filterMap _
      · cases hStep
        exact hBag
  | forceStop =>
      cases hStep
      exact Or.inl (hBag.same (.refl _) fun _ => rfl)
  | resume => exact hBag.own h (TimedEventQueue.own_resume hStep)
  | timeout => exact hBag.own h (TimedEventQueue.own_timeout hStep)
  | fireReturns => exact hBag.own h (TimedEventQueue.own_fireReturns hStep)

theorem queue_refines_bag_post :
    Bag ((Queue.new 0).postTimedEvent (.user .video) 5)
      ((constructed false false false).post .video) := by
  have hBag : Bag (Queue.new 0) (constructed false false false) :=
    ⟨.refl _, fun _ => rfl, fun event => by simp [Queue.new, constructed]⟩
  have hProper : Proper (Queue.new 0) (TimedEventQueue.Act.post Event.video 5) :=
    ⟨by simp [Queue.new], by decide, by decide⟩
  exact queue_refines_bag (.nil _) hBag hProper rfl

end Meet.AwesomePlayer
