import Meet.Common.Run
import Meet.PPMediaBufferGroup.Basic

/-! The ring as a first-in-first-out queue. A session runs completed calls on
one group and records what was pushed and what was returned since the last
clear. A call of `pop_buffer` that has to wait appears as passes that return
nothing, between which other calls complete. -/
namespace Meet.PPMediaBufferGroup

/-- The frames in `popped` are in use by the consumer, in pop order. The two
lists of payloads are proof data. -/
structure Session where
  group : PPMediaBufferGroup
  popped : List MediaBuffer
  accepted : List Payload
  returned : List Payload

namespace Session

inductive Op where
  | push (p : Payload)
  | pop
  | release
  | clear

def new (size playBufferingCount : Nat) : Session :=
  ⟨PPMediaBufferGroup.new size playBufferingCount, [], [], []⟩

/-- One completed call. A push that fails or waits, a release with nothing to
release and a clear with frames still in use are not calls of a session. -/
def step (s : Session) : Op → Option Session
  | .push p =>
      if p.data ≠ [] ∧ p.data.length + 2 ≤ s.group.mSize then
        match s.group.pushBuffer p with
        | (.ok, g) => some { s with group := g, accepted := s.accepted ++ [p] }
        | _ => none
      else none
  | .pop =>
      match s.group.popBuffer with
      | (.frame b, g) => some { s with
          group := g
          popped := s.popped ++ [b]
          returned := s.returned ++ [g.view b] }
      | (_, g) => some { s with group := g }
  | .release =>
      match s.popped with
      | b :: rest => some { s with group := s.group.signalBufferReturned b, popped := rest }
      | [] => none
  | .clear =>
      if s.popped = [] then some ⟨s.group.clearAllBuffer, [], [], []⟩ else none

/-- The frames that are queued or in use, oldest first. -/
def live (s : Session) : List MediaBuffer := s.popped ++ s.group.frames

structure Inv (s : Session) : Prop where
  layout : s.group.Layout s.live
  counted : s.group.mBufferingCount = s.group.frames.length
  running : s.group.mIsStreamDone = false ∧ s.group.mIsStopping = false
  returned : ∃ released, s.returned = released ++ s.popped.map s.group.view
  accepted : s.accepted = s.returned ++ s.group.frames.map s.group.view

theorem inv_new {size : Nat} (playBufferingCount : Nat) (hSize : 3 ≤ size) :
    Inv (new size playBufferingCount) where
  layout := Layout.new playBufferingCount (by omega)
  counted := rfl
  running := ⟨rfl, rfl⟩
  returned := ⟨[], rfl⟩
  accepted := rfl

theorem inv_push {s s' : Session} {p : Payload} (h : Inv s) (hStep : s.step (.push p) = some s') :
    Inv s' := by
  simp only [step] at hStep
  split_ifs at hStep with hSize
  cases hPush : s.group.pushBuffer p with
  | mk result g =>
      rcases pushBuffer_cases hPush with ⟨hResult, rfl⟩ | ⟨rfl, _, addr, hAcquire, rfl⟩
      · cases result <;> simp_all
      · simp only [hPush, Option.some.injEq] at hStep
        subst hStep
        have hRoom := acquireBuffer_room h.layout.reading_lt hAcquire
        have hViews := h.layout.map_view_store hRoom
        have hPopped : s.popped.map (s.group.store p addr).view = s.popped.map s.group.view := by
          apply List.map_congr_left
          intro b hb
          exact view_store_of_disjoint
            (h.layout.store_disjoint hRoom (List.mem_append_left _ hb))
        simp only [live, List.map_append, List.append_assoc, hPopped,
          List.append_cancel_left_eq] at hViews
        refine ⟨?_, ?_, h.running, ?_, ?_⟩
        · simpa [live, PPMediaBufferGroup.store] using h.layout.store hRoom
        · simp [PPMediaBufferGroup.store, h.counted]
        · simpa only [hPopped] using h.returned
        · change s.accepted ++ [p] = s.returned ++
            (s.group.frames ++ [frameAt p addr]).map (s.group.store p addr).view
          rw [List.map_append, hViews, h.accepted, List.append_assoc]

theorem inv_pop {s s' : Session} (h : Inv s) (hStep : s.step .pop = some s') : Inv s' := by
  simp only [step] at hStep
  cases hPop : s.group.popBuffer with
  | mk result g =>
      rcases popBufferWith_cases hPop with
        ⟨rfl, _, _, rfl⟩ | ⟨rfl, rfl, _⟩ | ⟨b, rest, started, hFrames, _, rfl, rfl⟩
      · simp only [hPop, Option.some.injEq] at hStep
        subst hStep
        exact ⟨h.layout, h.counted, h.running, h.returned, h.accepted⟩
      · simp only [hPop, Option.some.injEq] at hStep
        subst hStep
        exact h
      · simp only [hPop, Option.some.injEq] at hStep
        subst hStep
        obtain ⟨released, hReturned⟩ := h.returned
        refine ⟨?_, ?_, h.running, ⟨released, ?_⟩, ?_⟩
        · simpa [live, hFrames, Layout] using h.layout
        · have hCount := h.counted
          simp only [hFrames, List.length_cons] at hCount
          simp [hCount]
        · simp only [hReturned, List.map_append, List.append_assoc]
          rfl
        · change s.accepted = (s.returned ++ [s.group.view b]) ++ rest.map s.group.view
          rw [h.accepted, hFrames]
          simp

theorem inv_release {s s' : Session} (h : Inv s) (hStep : s.step .release = some s') :
    Inv s' := by
  simp only [step] at hStep
  cases hPopped : s.popped with
  | nil => simp [hPopped] at hStep
  | cons b rest =>
      simp only [hPopped, Option.some.injEq] at hStep
      subst hStep
      have hLayout := h.layout
      obtain ⟨released, hReturned⟩ := h.returned
      simp only [live, hPopped, List.cons_append] at hLayout
      refine ⟨hLayout.release, h.counted, h.running,
        ⟨released ++ [s.group.view b], ?_⟩, h.accepted⟩
      rw [hReturned, hPopped]
      simp only [List.map_cons, List.append_assoc, List.cons_append, List.nil_append]
      rfl

theorem inv_clear {s s' : Session} (h : Inv s) (hStep : s.step .clear = some s') : Inv s' := by
  simp only [step] at hStep
  split_ifs at hStep with hPopped
  obtain rfl := Option.some.inj hStep
  exact ⟨h.layout.clear, rfl, h.running, ⟨[], rfl⟩, rfl⟩

theorem inv_step {s s' : Session} {op : Op} (h : Inv s) (hStep : s.step op = some s') :
    Inv s' := by
  cases op with
  | push p => exact inv_push h hStep
  | pop => exact inv_pop h hStep
  | release => exact inv_release h hStep
  | clear => exact inv_clear h hStep

/-- What a ring has to provide to be a queue of payloads over shared memory.
The four groups of fields are separation, integrity, order and the state of
the two addresses. -/
structure RefinesFifo (s : Session) : Prop where
  disjoint : s.live.Pairwise fun a b => a.region.Disjoint b.region
  inside : ∀ b ∈ s.live, b.region.stop ≤ s.group.mSize
  kept : ∃ released, s.accepted = released ++ s.live.map s.group.view
  returnedKept : ∃ released, s.returned = released ++ s.popped.map s.group.view
  inOrder : s.accepted = s.returned ++ s.group.frames.map s.group.view
  apart : s.group.mWritingAddr ≠ s.group.mReadingAddr
  reachable : ∀ len, s.group.acquireBuffer len ≠ .shouldNeverHappen
  counted : s.group.mBufferingCount = s.group.frames.length

theorem Inv.refinesFifo {s : Session} (h : Inv s) : RefinesFifo s := by
  obtain ⟨released, hReturned⟩ := h.returned
  refine ⟨h.layout.pairwise, fun b hb => Nat.le_of_lt (h.layout.inside hb), ⟨released, ?_⟩,
    ⟨released, hReturned⟩, h.accepted, h.layout.cursors_ne,
    fun len => acquireBuffer_ne_shouldNeverHappen len h.layout.cursors_ne, h.counted⟩
  rw [h.accepted, hReturned, live, List.map_append, List.append_assoc]

/-- Every session of a ring of at least three bytes refines the queue. -/
theorem run_refinesFifo {size : Nat} (playBufferingCount : Nat) (hSize : 3 ≤ size)
    {ops : List Op} {s : Session}
    (run : Run step unguarded (new size playBufferingCount) ops s) : RefinesFifo s :=
  Inv.refinesFifo (run.invariant (inv_new playBufferingCount hSize)
    fun _ _ _ h _ hStep => inv_step h hStep)

/-- A session that places its third frame at the front of the ring. -/
def wrapped : List Op :=
  [.push ⟨[1, 2], 0, true, 0⟩, .pop, .release, .push ⟨[3, 4], 40, false, 1⟩, .pop, .release,
    .push ⟨[5, 6], 80, false, 2⟩]

theorem run_refinesFifo_wrapped :
    ∃ s, Run step unguarded (new 8 1) wrapped s ∧
      s.group.mWritingAddr < s.group.mReadingAddr ∧ RefinesFifo s := by
  obtain ⟨s, hExec, hWrapped⟩ : ∃ s, exec step (new 8 1) wrapped = some s ∧
      s.group.mWritingAddr < s.group.mReadingAddr := ⟨_, rfl, by decide⟩
  have run := Run.of_exec hExec
  exact ⟨s, run, hWrapped, run_refinesFifo 1 (by decide) run⟩

end Session
end Meet.PPMediaBufferGroup
