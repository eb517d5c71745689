import Meet.Common.Run
import Meet.PPMediaBufferGroup.Basic

/-! Frames that are popped before `clear_all_buffer` and released after it.
The clear hands the whole memory back although such frames are still in use,
and their release later overwrites the reading address. -/
namespace Meet.PPMediaBufferGroup

/-- The frames in `stale` were popped before the last clear, those in `popped`
after it. Neither have been released, and both lists are in pop order. -/
structure Crossing where
  group : PPMediaBufferGroup
  stale : List MediaBuffer
  popped : List MediaBuffer

namespace Crossing

inductive Op where
  | push (p : Payload)
  | pop
  | release (index : Nat)
  | clear
  | notifyStreamdone
  | notifyStop
  | notifySeekstart
  | notifySeekdone

def new (size playBufferingCount : Nat) : Crossing :=
  ⟨PPMediaBufferGroup.new size playBufferingCount, [], []⟩

/-- One pass of a call. A release names any frame that is still in use; the
index counts from the frame that was popped first. -/
def step (rearm : Bool) (s : Crossing) : Op → Option Crossing
  | .push p => some { s with group := (s.group.pushBuffer p).2 }
  | .pop =>
      match popBufferWith rearm s.group with
      | (.frame b, g) => some { s with group := g, popped := s.popped ++ [b] }
      | (_, g) => some { s with group := g }
  | .release index =>
      if index < s.stale.length then
        s.stale[index]?.map fun b =>
          { s with group := s.group.signalBufferReturned b, stale := s.stale.eraseIdx index }
      else
        s.popped[index - s.stale.length]?.map fun b =>
          { s with
            group := s.group.signalBufferReturned b
            popped := s.popped.eraseIdx (index - s.stale.length) }
  | .clear => some ⟨s.group.clearAllBuffer, s.stale ++ s.popped, []⟩
  | .notifyStreamdone => some { s with group := s.group.notifyStreamdone }
  | .notifyStop => some { s with group := s.group.notifyStop }
  | .notifySeekstart => some { s with group := s.group.notifySeekstart }
  | .notifySeekdone => some { s with group := s.group.notifySeekdone }

/-- The frames placed since the last clear that are not yet released. -/
def live (s : Crossing) : List MediaBuffer := s.popped ++ s.group.frames

/-- Every frame whose bytes somebody may still read. -/
def inUse (s : Crossing) : List MediaBuffer := s.stale ++ s.live

/-- No push of `p` in this state writes into a frame in use, and no pass of
`acquire_buffer` sees its two addresses meet. -/
structure Harmless (s : Crossing) (p : Payload) : Prop where
  writes : ∀ addr, s.group.acquireBuffer p.data.length = .buffer addr →
    ∀ b ∈ s.inUse, Region.Disjoint ⟨addr, p.data.length⟩ b.region
  apart : ∀ len, s.group.acquireBuffer len ≠ .shouldNeverHappen

/-- Frames are released in pop order. While a frame popped before the last
clear is in use, new frames stay below it, and it is not released when it
ends exactly at the writing address. -/
def Guard (s : Crossing) : Op → Prop
  | .push p => ∀ b ∈ s.stale, s.group.mWritingAddr + p.data.length ≤ b.data
  | .release index => index = 0 ∧ ∀ b ∈ s.stale.head?, b.region.stop ≠ s.group.mWritingAddr
  | _ => True

instance (s : Crossing) : (op : Op) → Decidable (Guard s op)
  | .push p => inferInstanceAs
      (Decidable (∀ b ∈ s.stale, s.group.mWritingAddr + p.data.length ≤ b.data))
  | .release index => inferInstanceAs
      (Decidable (index = 0 ∧ ∀ b ∈ s.stale.head?, b.region.stop ≠ s.group.mWritingAddr))
  | .pop | .clear | .notifyStreamdone | .notifyStop | .notifySeekstart | .notifySeekdone =>
      isTrue trivial

/-- While stale frames exist, everything placed since the clear is packed from
the front of the memory and lies below each of them. -/
structure Inv (s : Crossing) : Prop where
  layout : s.group.Layout s.live
  positive : ∀ b ∈ s.inUse, 0 < b.size
  below : ∀ b ∈ s.stale, s.group.mWritingAddr ≤ b.region.stop ∧ b.region.stop < s.group.mSize ∧
    ∀ c ∈ s.live, c.region.stop ≤ b.data
  front : s.stale ≠ [] → Region.Packed 0 s.group.mWritingAddr (s.live.map MediaBuffer.region) ∧
    (s.group.mReadingAddr = 0 ∨ s.group.mWritingAddr < s.group.mReadingAddr)

theorem inv_new {size : Nat} (playBufferingCount : Nat) (hSize : 3 ≤ size) :
    Inv (new size playBufferingCount) where
  layout := Layout.new playBufferingCount (by omega)
  positive := by simp [new, inUse, live, PPMediaBufferGroup.new]
  below := by simp [new]
  front := by simp [new]

/-- The invariant looks at the two addresses, the size and the frames only. -/
theorem Inv.congr {s s' : Crossing} (h : Inv s) (hLive : s'.live = s.live)
    (hStale : s'.stale = s.stale) (hSize : s'.group.mSize = s.group.mSize)
    (hReading : s'.group.mReadingAddr = s.group.mReadingAddr)
    (hWriting : s'.group.mWritingAddr = s.group.mWritingAddr) : Inv s' := by
  obtain ⟨layout, positive, below, front⟩ := h
  refine ⟨?_, ?_, ?_, ?_⟩
  · rwa [Layout, hLive, hSize, hReading, hWriting]
  · rwa [inUse, hLive, hStale]
  · rwa [hStale, hLive, hSize, hWriting]
  · rwa [hStale, hLive, hReading, hWriting]

/-- With a stale frame about, the front of the memory is never chosen. -/
theorem Inv.addr_eq {s : Crossing} (h : Inv s) {p : Payload} {addr : Nat}
    (hRoom : RingRoom s.group.mSize s.group.mReadingAddr s.group.mWritingAddr p.data.length addr)
    (hStale : s.stale ≠ []) : addr = s.group.mWritingAddr := by
  have hFront := (h.front hStale).2
  rcases hRoom with ⟨rfl, _⟩ | ⟨_, hAbove, hRoom⟩
  · rfl
  · omega

theorem inv_store {s : Crossing} (h : Inv s) {p : Payload} {addr : Nat}
    (hGuard : Guard s (.push p)) (hData : p.data ≠ [])
    (hRoom : RingRoom s.group.mSize s.group.mReadingAddr s.group.mWritingAddr p.data.length addr) :
    Inv { s with group := s.group.store p addr } := by
  have hPos : 0 < p.data.length := List.length_pos_iff.mpr hData
  have hLive : live { s with group := s.group.store p addr } = s.live ++ [frameAt p addr] := by
    simp [live, PPMediaBufferGroup.store]
  refine ⟨?_, ?_, ?_, ?_⟩
  · rw [hLive]
    exact h.layout.store hRoom
  · intro b hb
    rw [inUse, hLive, ← List.append_assoc, List.mem_append, List.mem_singleton] at hb
    rcases hb with hOld | rfl
    · exact h.positive b hOld
    · exact hPos
  · intro b hb
    obtain rfl := h.addr_eq hRoom (List.ne_nil_of_mem hb)
    have hBelow := hGuard b hb
    have hSize := h.positive b (List.mem_append_left _ hb)
    obtain ⟨_, hInside, hOthers⟩ := h.below b hb
    refine ⟨?_, hInside, fun c hc => ?_⟩
    · simp only [PPMediaBufferGroup.store, Region.stop, MediaBuffer.region]
      omega
    · rw [hLive, List.mem_append, List.mem_singleton] at hc
      rcases hc with hOld | rfl
      · exact hOthers c hOld
      · exact hBelow
  · intro hStale
    obtain rfl := h.addr_eq hRoom hStale
    obtain ⟨hPacked, hReading⟩ := h.front hStale
    rw [hLive, List.map_append]
    refine ⟨hPacked.snoc ⟨_, _⟩ (Nat.le_refl _), ?_⟩
    rcases hReading with hZero | hAbove
    · exact Or.inl hZero
    · rcases hRoom with ⟨_, _, hMiddle⟩ | ⟨_, hBelow, _⟩
      · exact Or.inr (hMiddle hAbove)
      · exact absurd hAbove (by omega)

theorem inv_pop {rearm : Bool} {s s' : Crossing} (h : Inv s) (hStep : s.step rearm .pop = some s') :
    Inv s' := by
  simp only [step] at hStep
  cases hPop : popBufferWith rearm s.group with
  | mk result g =>
      rcases popBufferWith_cases hPop with
        ⟨rfl, _, _, rfl⟩ | ⟨rfl, rfl, _⟩ | ⟨b, rest, started, hFrames, _, rfl, rfl⟩
      · simp only [hPop, Option.some.injEq] at hStep
        subst hStep
        exact h.congr rfl rfl rfl rfl rfl
      · simp only [hPop, Option.some.injEq] at hStep
        subst hStep
        exact h
      · simp only [hPop, Option.some.injEq] at hStep
        subst hStep
        exact h.congr (by simp [live, hFrames]) rfl rfl rfl rfl

/-- Releasing a stale frame moves the reading address above everything that
was placed since the clear. -/
theorem inv_release_stale {s : Crossing} {b : MediaBuffer} {rest : List MediaBuffer} (h : Inv s)
    (hStale : s.stale = b :: rest) (hEnd : b.region.stop ≠ s.group.mWritingAddr) :
    Inv { s with group := s.group.signalBufferReturned b, stale := rest } := by
  have hMem : b ∈ s.stale := by simp [hStale]
  obtain ⟨hWriting, hInside, _⟩ := h.below b hMem
  obtain ⟨hPacked, _⟩ := h.front (by simp [hStale])
  have hLt : s.group.mWritingAddr < b.region.stop := by omega
  refine ⟨⟨hInside, h.layout.writing_lt, Or.inr ⟨hLt, [], _, rfl, hInside, hPacked⟩⟩, ?_, ?_, ?_⟩
  · intro c hc
    apply h.positive c
    rw [inUse, hStale]
    exact List.mem_cons_of_mem _ hc
  · intro c hc
    exact h.below c (by simp [hStale, hc])
  · intro _
    exact ⟨hPacked, Or.inr hLt⟩

theorem inv_release {rearm : Bool} {s s' : Crossing} {index : Nat} (h : Inv s)
    (hGuard : Guard s (.release index)) (hStep : s.step rearm (.release index) = some s') :
    Inv s' := by
  obtain ⟨rfl, hEnd⟩ := hGuard
  cases hStale : s.stale with
  | cons b rest =>
      simp only [step, hStale, List.length_cons, Nat.zero_lt_succ, ↓reduceIte,
        List.getElem?_cons_zero, Option.map_some, List.eraseIdx_zero, List.tail_cons,
        Option.some.injEq] at hStep
      subst hStep
      exact inv_release_stale h hStale (hEnd b (by simp [hStale]))
  | nil =>
      cases hPopped : s.popped with
      | nil => simp [step, hStale, hPopped] at hStep
      | cons b rest =>
          simp only [step, hStale, hPopped, List.length_nil, Nat.lt_irrefl, ↓reduceIte,
            Nat.sub_zero, List.getElem?_cons_zero, Option.map_some, List.eraseIdx_zero,
            List.tail_cons, Option.some.injEq] at hStep
          subst hStep
          have hLayout := h.layout
          simp only [live, hPopped, List.cons_append] at hLayout
          refine ⟨hLayout.release, ?_, by simp, by simp⟩
          intro c hc
          apply h.positive c
          simp only [inUse, live, hStale, hPopped, List.nil_append] at hc ⊢
          exact List.mem_cons_of_mem _ hc

/-- After a clear every frame still in use is stale, and nothing is placed. -/
theorem inv_clear {rearm : Bool} {s s' : Crossing} (h : Inv s)
    (hStep : s.step rearm .clear = some s') : Inv s' := by
  simp only [step, Option.some.injEq] at hStep
  subst hStep
  have hSplit : ∀ b ∈ s.stale ++ s.popped, b ∈ s.inUse ∧ b.region.stop < s.group.mSize := by
    intro b hb
    rcases List.mem_append.mp hb with hOld | hNew
    · exact ⟨List.mem_append_left _ hOld, (h.below b hOld).2.1⟩
    · have hLive : b ∈ s.live := List.mem_append_left _ hNew
      exact ⟨List.mem_append_right _ hLive, h.layout.inside hLive⟩
  refine ⟨h.layout.clear, ?_, ?_, ?_⟩
  · intro b hb
    simp only [inUse, live, clearAllBuffer, List.append_nil] at hb
    exact h.positive b (hSplit b hb).1
  · intro b hb
    obtain ⟨hUse, hInside⟩ := hSplit b hb
    have hPos := h.positive b hUse
    refine ⟨?_, hInside, by simp [live, clearAllBuffer]⟩
    simp only [clearAllBuffer, Region.stop, MediaBuffer.region]
    omega
  · intro _
    exact ⟨Nat.zero_le _, Or.inl rfl⟩

theorem inv_step {rearm : Bool} {s s' : Crossing} {op : Op} (h : Inv s) (hGuard : Guard s op)
    (hStep : s.step rearm op = some s') : Inv s' := by
  cases op with
  | push p =>
      simp only [step, Option.some.injEq] at hStep
      subst hStep
      cases hPush : s.group.pushBuffer p with
      | mk result g =>
          rcases pushBuffer_cases hPush with ⟨_, rfl⟩ | ⟨_, hData, addr, hAcquire, rfl⟩
          · exact h
          · exact inv_store h hGuard hData (acquireBuffer_room h.layout.reading_lt hAcquire)
  | pop => exact inv_pop h hStep
  | release index => exact inv_release h hGuard hStep
  | clear => exact inv_clear h hStep
  | notifyStreamdone | notifyStop | notifySeekstart | notifySeekdone =>
      simp only [step, Option.some.injEq] at hStep
      subst hStep
      exact h.congr rfl rfl rfl rfl rfl

theorem Inv.harmless {s : Crossing} (h : Inv s) {p : Payload} (hGuard : Guard s (.push p)) :
    Harmless s p := by
  refine ⟨?_, fun len => acquireBuffer_ne_shouldNeverHappen len h.layout.cursors_ne⟩
  intro addr hAcquire b hb
  have hRoom := acquireBuffer_room h.layout.reading_lt hAcquire
  rcases List.mem_append.mp hb with hStale | hLive
  · obtain rfl := h.addr_eq hRoom (List.ne_nil_of_mem hStale)
    exact Or.inl (hGuard b hStale)
  · exact h.layout.store_disjoint hRoom hLive

/-- In every run whose steps meet the guard, every push that meets it is
harmless, whichever copy of `pop_buffer` is used. -/
theorem run_harmless (rearm : Bool) {size : Nat} (playBufferingCount : Nat) (hSize : 3 ≤ size)
    {ops : List Op} {s : Crossing}
    (run : Run (step rearm) Guard (new size playBufferingCount) ops s)
    {p : Payload} (hGuard : Guard s (.push p)) : Harmless s p :=
  Inv.harmless (run.invariant (inv_new playBufferingCount hSize)
    fun _ _ _ h hMeets hStep => inv_step h hMeets hStep) hGuard

/-- A run that meets the guard although a frame is released after a clear: it
ends at offset six, well above what has been written since. -/
def releasedLate : List Op :=
  [.push ⟨[1, 2], 0, true, 0⟩, .push ⟨[3, 4], 40, false, 1⟩, .pop, .release 0, .pop, .clear,
    .push ⟨[5], 80, true, 2⟩, .release 0]

theorem run_harmless_releasedLate :
    ∃ s, Run (step false) Guard (new 6291456 1) releasedLate s ∧
      s.stale = [] ∧ s.group.mReadingAddr = 6 ∧ Harmless s ⟨[6], 120, false, 3⟩ := by
  obtain ⟨s, hExec, hStale, hReading, hGuard⟩ :
      ∃ s, execGuarded (step false) Guard (new 6291456 1) releasedLate = some s ∧
        s.stale = [] ∧ s.group.mReadingAddr = 6 ∧ Guard s (.push ⟨[6], 120, false, 3⟩) :=
    ⟨_, rfl, rfl, rfl, by decide⟩
  have run := Run.of_execGuarded hExec
  exact ⟨s, run, hStale, hReading, run_harmless false 1 (by decide) run hGuard⟩

/-- A frame popped before a clear is overwritten by the first push after it,
and a release after the clear can make the two addresses meet. -/
theorem crossing_not_harmless :
    (∃ s, Run (step false) unguarded (new 6291456 1)
      [.push ⟨[1, 2, 3, 4], 0, true, 0⟩, .pop, .clear] s ∧ ¬ Harmless s ⟨[9], 80, true, 1⟩) ∧
    (∃ s, Run (step false) unguarded (new 6291456 1)
      [.push ⟨[1, 2, 3], 0, true, 0⟩, .push ⟨[4], 40, false, 1⟩, .pop, .release 0, .pop, .clear,
        .push ⟨[5, 6, 7, 8], 80, true, 2⟩, .release 0] s ∧
      s.group.acquireBuffer 1 = .shouldNeverHappen) := by
  refine ⟨⟨_, Run.of_exec rfl, ?_⟩, ⟨_, Run.of_exec rfl, by decide⟩⟩
  intro h
  have hOverlap := h.writes 1 (by decide) ⟨1, 4, 0, true, 0⟩ (by decide)
  exact absurd hOverlap (by decide)

end Crossing
end Meet.PPMediaBufferGroup
