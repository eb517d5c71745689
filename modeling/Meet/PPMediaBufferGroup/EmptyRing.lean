import Meet.PPMediaBufferGroup.StaleRelease

/-! Whether a frame fits into a ring that holds none. `acquire_buffer` admits a frame by the
size of the ring alone, and then looks for room behind the frame stored last or in front of
the one released last, wherever these have left the two addresses. -/
namespace Meet.PPMediaBufferGroup

/-- A ring with the ends of the frames that were stored and released last since it was
cleared, or zero where there is none. -/
structure Trail where
  ring : Crossing
  stored : Nat
  released : Nat

namespace Trail

open Crossing (Op)

def new (size playBufferingCount : Nat) : Trail := ⟨Crossing.new size playBufferingCount, 0, 0⟩

/-- The end of the frame at the back of the queue. -/
def backEnd (g : PPMediaBufferGroup) : Nat := (g.frames.getLast?.map (·.region.stop)).getD 0

def storedAfter (t : Trail) : Op → Nat
  | .push p =>
      match t.ring.group.pushBuffer p with
      | (.ok, g) => backEnd g
      | _ => t.stored
  | .clear => 0
  | _ => t.stored

def releasedAfter (t : Trail) : Op → Nat
  | .release index =>
      ((t.ring.stale ++ t.ring.popped)[index]?.map (·.region.stop)).getD t.released
  | .clear => 0
  | _ => t.released

def step (rearm : Bool) (t : Trail) (op : Op) : Option Trail :=
  (t.ring.step rearm op).map fun ring => ⟨ring, t.storedAfter op, t.releasedAfter op⟩

/-- No frame is queued or in use, and nothing interrupts `acquire_buffer`. -/
structure Resting (t : Trail) : Prop where
  unused : t.ring.inUse = []
  seeking : t.ring.group.mIsSeeking = false
  stopping : t.ring.group.mIsStopping = false

/-- `acquire_buffer` returns a buffer without waiting. -/
def Acquires (t : Trail) (len : Nat) : Prop :=
  ∃ addr, t.ring.group.acquireBuffer len = .buffer addr

/-- There is room for the frame: behind the frame stored last, up to the end of the memory or
to the frame released last, or in front of the latter. -/
def HasRoom (size stored released len : Nat) : Prop :=
  (released ≤ stored ∧ (stored + len + 2 < size ∨ len + 1 < released)) ∨
    stored + 1 < released ∧ stored + len + 2 < released

/-- Frames are released in the order they were popped, and none outlives a clear. -/
def InOrder (t : Trail) : Op → Prop
  | .release index => index = 0
  | .clear => t.ring.stale ++ t.ring.popped = []
  | _ => True

instance (t : Trail) : (op : Op) → Decidable (InOrder t op)
  | .release index => inferInstanceAs (Decidable (index = 0))
  | .clear => inferInstanceAs (Decidable (t.ring.stale ++ t.ring.popped = []))
  | .push _ | .pop | .notifyStreamdone | .notifyStop | .notifySeekstart | .notifySeekdone =>
      isTrue trivial

/-! ### Where the addresses rest -/

/-- The addresses are those of the frames stored and released last. -/
structure Marks (size : Nat) (t : Trail) : Prop where
  size_eq : t.ring.group.mSize = size
  writing : t.ring.group.mWritingAddr = t.stored + 1
  reading : t.ring.group.mReadingAddr = t.released

section
variable {rearm : Bool} {size : Nat} {t t' : Trail} {op : Op}

/-- What a step does to the ring. A pop and the notifications leave the addresses alone. -/
inductive Moves (t : Trail) : Op → Trail → Prop where
  | rejected {p : Payload} : Moves t (.push p) t
  | stored {p : Payload} {addr : Nat} :
      Moves t (.push p)
        ⟨{ t.ring with group := t.ring.group.store p addr }, addr + p.data.length, t.released⟩
  | popped {b : MediaBuffer} {rest : List MediaBuffer} {count : Nat} {started : Bool}
      (hFrames : t.ring.group.frames = b :: rest) :
      Moves t .pop
        { t with ring := { t.ring with
            group := { t.ring.group with
              frames := rest, mBufferingCount := count, mStartBuffering := started }
            popped := t.ring.popped ++ [b] } }
  | released {index : Nat} {b : MediaBuffer} {stale popped : List MediaBuffer}
      (hFrame : (t.ring.stale ++ t.ring.popped)[index]? = some b)
      (hStale : stale ++ popped = (t.ring.stale ++ t.ring.popped).eraseIdx index) :
      Moves t (.release index)
        ⟨⟨t.ring.group.signalBufferReturned b, stale, popped⟩, t.stored, b.region.stop⟩
  | cleared :
      Moves t .clear ⟨⟨t.ring.group.clearAllBuffer, t.ring.stale ++ t.ring.popped, []⟩, 0, 0⟩
  | flags {op : Op} {g : PPMediaBufferGroup} (hSize : g.mSize = t.ring.group.mSize)
      (hWriting : g.mWritingAddr = t.ring.group.mWritingAddr)
      (hReading : g.mReadingAddr = t.ring.group.mReadingAddr)
      (hFrames : g.frames = t.ring.group.frames) :
      Moves t op { t with ring := { t.ring with group := g } }

theorem moves_push {p : Payload} (hStep : t.step rearm (.push p) = some t') :
    Moves t (.push p) t' := by
  cases hPush : t.ring.group.pushBuffer p with
  | mk result g =>
      simp only [step, Crossing.step, Option.map_some, Option.some.injEq, storedAfter,
        releasedAfter, hPush] at hStep
      rcases pushBuffer_cases hPush with ⟨hResult, rfl⟩ | ⟨rfl, _, addr, _, rfl⟩
      · have hKept : t' = t := by
          cases result with
          | ok => exact absurd rfl hResult
          | errorIo | wait => exact hStep.symm
        rw [hKept]
        exact .rejected
      · rw [← hStep]
        have hBack : backEnd (t.ring.group.store p addr) = addr + p.data.length := by
          simp [backEnd, PPMediaBufferGroup.store, frameAt, MediaBuffer.region, Region.stop]
        simp only [hBack]
        exact .stored

theorem moves_pop (hStep : t.step rearm .pop = some t') : Moves t .pop t' := by
  cases hPop : popBufferWith rearm t.ring.group with
  | mk result g =>
      simp only [step, Crossing.step, hPop] at hStep
      rcases popBufferWith_cases hPop with
        ⟨rfl, _, _, rfl⟩ | ⟨rfl, rfl, _⟩ | ⟨b, rest, started, hFrames, _, rfl, rfl⟩
      · obtain rfl := Option.some.inj hStep
        exact .flags rfl rfl rfl rfl
      · obtain rfl := Option.some.inj hStep
        exact .flags rfl rfl rfl rfl
      · obtain rfl := Option.some.inj hStep
        exact .popped hFrames

theorem moves_release {index : Nat} (hStep : t.step rearm (.release index) = some t') :
    Moves t (.release index) t' := by
  obtain ⟨ring, hRing, rfl⟩ := Option.map_eq_some_iff.mp hStep
  simp only [Crossing.step] at hRing
  split_ifs at hRing with hStale
  · obtain ⟨b, hFound, rfl⟩ := Option.map_eq_some_iff.mp hRing
    have hFrame : (t.ring.stale ++ t.ring.popped)[index]? = some b := by
      rwa [List.getElem?_append_left hStale]
    simp only [storedAfter, releasedAfter, hFrame, Option.map_some, Option.getD_some]
    refine .released hFrame ?_
    rw [List.eraseIdx_append_of_lt_length hStale]
  · obtain ⟨b, hFound, rfl⟩ := Option.map_eq_some_iff.mp hRing
    have hFrame : (t.ring.stale ++ t.ring.popped)[index]? = some b := by
      rwa [List.getElem?_append_right (by omega)]
    simp only [storedAfter, releasedAfter, hFrame, Option.map_some, Option.getD_some]
    refine .released hFrame ?_
    rw [List.eraseIdx_append_of_length_le (by omega)]

theorem moves_of_step (hStep : t.step rearm op = some t') : Moves t op t' := by
  cases op with
  | push p => exact moves_push hStep
  | pop => exact moves_pop hStep
  | release index => exact moves_release hStep
  | clear =>
      obtain rfl := Option.some.inj hStep
      exact .cleared
  | notifyStreamdone | notifyStop | notifySeekstart | notifySeekdone =>
      obtain rfl := Option.some.inj hStep
      exact .flags rfl rfl rfl rfl

theorem marks_new (size playBufferingCount : Nat) : Marks size (new size playBufferingCount) :=
  ⟨rfl, rfl, rfl⟩

theorem marks_step (h : Marks size t) (hStep : t.step rearm op = some t') : Marks size t' := by
  cases moves_of_step hStep with
  | rejected => exact h
  | stored => exact ⟨h.size_eq, rfl, h.reading⟩
  | popped hFrames => exact ⟨h.size_eq, h.writing, h.reading⟩
  | released hFrame hStale => exact ⟨h.size_eq, h.writing, rfl⟩
  | cleared => exact ⟨h.size_eq, rfl, rfl⟩
  | flags hSize hWriting hReading hFrames =>
      exact ⟨hSize.trans h.size_eq, hWriting.trans h.writing, hReading.trans h.reading⟩

theorem Marks.acquires_iff {len : Nat} (h : Marks size t) (hResting : t.Resting)
    (hAdmitted : len + 2 ≤ size) : t.Acquires len ↔ HasRoom size t.stored t.released len := by
  unfold Acquires acquireBuffer HasRoom
  rw [h.size_eq, h.writing, h.reading, hResting.seeking, hResting.stopping]
  split_ifs with hLarge hFlags hAbove hEnd hFront hBelow hMiddle
  · omega
  · simp at hFlags
  · simp only [Acquired.buffer.injEq, exists_eq', true_iff]
    omega
  · simp only [Acquired.buffer.injEq, exists_eq', true_iff]
    omega
  · simp only [exists_false, false_iff]
    omega
  · simp only [Acquired.buffer.injEq, exists_eq', true_iff]
    omega
  · simp only [exists_false, false_iff]
    omega
  · simp only [exists_false, false_iff]
    omega

/-! ### Frames released in order -/

/-- The frame stored last is the last one in use, or the one released last. -/
def Behind (t : Trail) : Prop :=
  t.stored = (t.ring.inUse.getLast?.map (·.region.stop)).getD t.released

theorem behind_step (h : Behind t) (hOrder : InOrder t op) (hStep : t.step rearm op = some t') :
    Behind t' := by
  unfold Behind Crossing.inUse Crossing.live at h ⊢
  cases moves_of_step hStep with
  | rejected => exact h
  | stored =>
      simp [PPMediaBufferGroup.store, frameAt, MediaBuffer.region, Region.stop,
        ← List.append_assoc]
  | popped hFrames => simpa [hFrames] using h
  | released hFrame hStale =>
      obtain rfl : _ = 0 := hOrder
      rename_i b stale popped
      obtain ⟨rest, hRest⟩ : ∃ rest, t.ring.stale ++ t.ring.popped = b :: rest := by
        cases hHeld : t.ring.stale ++ t.ring.popped with
        | nil => simp [hHeld] at hFrame
        | cons c rest => exact ⟨rest, by simpa [hHeld] using hFrame⟩
      rw [hRest] at hStale
      rw [← List.append_assoc, hRest, List.cons_append] at h
      rw [← List.append_assoc, hStale]
      simp only [List.eraseIdx_zero, List.tail_cons, signalBufferReturned]
      rw [h]
      cases hUsed : rest ++ t.ring.group.frames with
      | nil => rfl
      | cons c used =>
          have hLast := List.getLast?_eq_some_getLast (List.cons_ne_nil c used)
          simp only [List.getLast?_cons_cons, hLast, Option.map_some, Option.getD_some]
  | cleared =>
      have hNone : t.ring.stale ++ t.ring.popped = [] := hOrder
      simp [hNone, clearAllBuffer]
  | flags hSize hWriting hReading hFrames => simpa [hFrames] using h

variable {playBufferingCount len : Nat} {ops : List Op}

theorem run_marks {guard : Trail → Op → Prop}
    (run : Run (step rearm) guard (new size playBufferingCount) ops t) : Marks size t :=
  run.invariant (marks_new size playBufferingCount) fun _ _ _ h _ hStep => marks_step h hStep

/-- At rest, frames that were released in order leave the two addresses side by side. -/
theorem stored_eq_released (run : Run (step rearm) InOrder (new size playBufferingCount) ops t)
    (hResting : t.Resting) : t.stored = t.released := by
  have hBehind : Behind t := by
    refine run.invariant rfl ?_
    intro before op after hBefore hOrder hStep
    exact behind_step hBefore hOrder hStep
  unfold Behind at hBehind
  rw [hResting.unused] at hBehind
  exact hBehind

end

/-- A frame of the given length is stored, popped and released. -/
def onceThrough (len : Nat) : List Op :=
  [.push ⟨List.replicate len 0, 0, true, 0⟩, .notifyStreamdone, .pop, .release 0]

theorem exec_onceThrough (rearm : Bool) (playBufferingCount : Nat) {size len : Nat}
    (hPos : 0 < len) (hRoom : len + 2 < size) :
    ∃ t, execGuarded (step rearm) InOrder (new size playBufferingCount) (onceThrough len) = some t ∧
      t.Resting ∧ t.stored = len + 1 ∧ t.released = len + 1 := by
  have hData : (List.replicate len (0 : UInt8)) ≠ [] := by
    simp only [ne_eq, List.replicate_eq_nil_iff]
    omega
  have hFits : 1 + len + 1 < size := by omega
  have hAdmitted : ¬ size < len + 2 := by omega
  have hAcquire : (PPMediaBufferGroup.new size playBufferingCount).acquireBuffer len = .buffer 1 := by
    simp [acquireBuffer, PPMediaBufferGroup.new, hFits, hAdmitted]
  have hPush : (PPMediaBufferGroup.new size playBufferingCount).pushBuffer
      ⟨List.replicate len 0, 0, true, 0⟩ =
      (.ok, (PPMediaBufferGroup.new size playBufferingCount).store
        ⟨List.replicate len 0, 0, true, 0⟩ 1) := by
    simp only [pushBuffer, if_neg hData, List.length_replicate, hAcquire]
  have hExec : (execGuarded (step rearm) InOrder (new size playBufferingCount) (onceThrough len)).any
      (fun t => t.ring.inUse = [] ∧ t.ring.group.mIsSeeking = false ∧
        t.ring.group.mIsStopping = false ∧ t.stored = len + 1 ∧ t.released = len + 1) = true := by
    simp only [onceThrough, execGuarded, InOrder, new, Crossing.new, step, Crossing.step, hPush,
      storedAfter]
    simp [releasedAfter, popBufferWith, takeFirst, notifyStreamdone, backEnd,
      PPMediaBufferGroup.store, PPMediaBufferGroup.new, frameAt, signalBufferReturned,
      Crossing.inUse, Crossing.live, MediaBuffer.region, Region.stop, Nat.add_comm 1 len]
  obtain ⟨t, hFound, hUnused, hSeeking, hStopping, hStored, hReleased⟩ := exists_of_any _ hExec
  exact ⟨t, hFound, ⟨hUnused, hSeeking, hStopping⟩, hStored, hReleased⟩

/-- Where a frame of some length has been, it does not fit again unless the ring is more than
twice as large. -/
theorem exists_not_acquires (rearm : Bool) (playBufferingCount : Nat) {size len : Nat}
    (hPos : 0 < len) (hAdmitted : len + 2 ≤ size) (hSmall : size ≤ 2 * len + 3) :
    ∃ ops t, Run (step rearm) InOrder (new size playBufferingCount) ops t ∧ t.Resting ∧
      ¬ t.Acquires len := by
  by_cases hFull : size = len + 2
  · have hResting : (new size playBufferingCount).Resting := ⟨rfl, rfl, rfl⟩
    refine ⟨[], _, .nil _, hResting, ?_⟩
    rw [(marks_new size playBufferingCount).acquires_iff hResting hAdmitted]
    simp only [HasRoom, new]
    omega
  · obtain ⟨t, hExec, hResting, hStored, hReleased⟩ :=
      exec_onceThrough rearm playBufferingCount hPos (show len + 2 < size by omega)
    have run := Run.of_execGuarded hExec
    refine ⟨_, t, run, hResting, ?_⟩
    rw [(run_marks run).acquires_iff hResting hAdmitted, hStored, hReleased]
    simp only [HasRoom]
    omega

/-- In every ring at rest a frame finds a buffer exactly where the last frames have left room
for it. If frames are released in order, that is so wherever the ring comes to rest exactly
for frames of less than half its size. -/
theorem resting_acquires_iff (rearm : Bool) (playBufferingCount : Nat) {size len : Nat}
    (hPos : 0 < len) (hAdmitted : len + 2 ≤ size) :
    (∀ ops t, Run (step rearm) unguarded (new size playBufferingCount) ops t → t.Resting →
      (t.Acquires len ↔ HasRoom size t.stored t.released len)) ∧
    ((∀ ops t, Run (step rearm) InOrder (new size playBufferingCount) ops t → t.Resting →
      t.Acquires len) ↔ 2 * len + 3 < size) := by
  refine ⟨fun ops t run hResting => (run_marks run).acquires_iff hResting hAdmitted, ?_, ?_⟩
  · intro hAlways
    by_contra hSmall
    obtain ⟨ops, t, run, hResting, hNot⟩ :=
      exists_not_acquires rearm playBufferingCount hPos hAdmitted (by omega)
    exact hNot (hAlways ops t run hResting)
  · intro hLarge ops t run hResting
    rw [(run_marks run).acquires_iff hResting hAdmitted, stored_eq_released run hResting]
    unfold HasRoom
    omega

/-- A frame of two bytes has gone through a ring of eight, and another one finds a buffer. -/
theorem resting_acquires_iff_eight :
    ∃ t, Run (step true) unguarded (new 8 1) (onceThrough 2) t ∧ t.Resting ∧ t.Acquires 2 := by
  obtain ⟨t, hExec, hResting, hStored, hReleased⟩ :=
    exec_onceThrough true 1 (show 0 < 2 by decide) (show 2 + 2 < 8 by decide)
  have run : Run (step true) unguarded (new 8 1) (onceThrough 2) t :=
    (Run.of_execGuarded hExec).mono fun _ _ _ => trivial
  have hIff := (resting_acquires_iff true 1 (show 0 < 2 by decide) (show 2 + 2 ≤ 8 by decide)).1
  refine ⟨t, run, hResting, (hIff _ t run hResting).mpr ?_⟩
  rw [hStored, hReleased]
  exact Or.inl ⟨by decide, Or.inl (by decide)⟩

/-- The frame of three bytes that has gone through a ring of eight has no room again, and a
frame of six bytes is admitted by the same ring but has no room in it at all. -/
theorem exists_resting_waits :
    (∃ t, Run (step true) unguarded (new 8 1) (onceThrough 3) t ∧ t.Resting ∧
      t.ring.group.acquireBuffer 3 = .wait) ∧
    (new 8 1).Resting ∧ (new 8 1).ring.group.acquireBuffer 6 = .wait := by
  refine ⟨⟨_, Run.of_exec rfl, ⟨rfl, rfl, rfl⟩, by decide⟩, ⟨rfl, rfl, rfl⟩, by decide⟩

end Trail
end Meet.PPMediaBufferGroup
