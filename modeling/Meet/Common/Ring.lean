import Meet.Common.Memory

/-! The geometry of a ring that is described by two cursors only. Regions are
used in order. The reading cursor is the end of the last region given back;
the writing cursor is one past the spare byte of the last region placed. -/
namespace Meet

/-- Where the regions in use may lie. With the writing cursor above, they are
packed between the cursors. With it below, the older ones are packed above
the reading cursor and the newer ones below the writing cursor. -/
structure RingLayout (size reading writing : Nat) (used : List Region) : Prop where
  reading_lt : reading < size
  writing_lt : writing < size
  placed : (reading < writing ∧ Region.Packed (reading + 1) writing used) ∨
    (writing < reading ∧ ∃ upper lower, used = upper ++ lower ∧
      Region.Packed (reading + 1) size upper ∧ Region.Packed 0 writing lower)

/-- Where a region of `length` bytes and its spare byte may be placed: at the
writing cursor, or at the front of the memory below the reading cursor. -/
def RingRoom (size reading writing length addr : Nat) : Prop :=
  (addr = writing ∧ writing + length + 1 < size ∧
    (writing < reading → writing + length + 1 < reading)) ∨
  (addr = 0 ∧ reading < writing ∧ length + 1 < reading)

namespace RingLayout

variable {size reading writing length addr : Nat} {used : List Region} {r : Region}

/-- The ring before anything was placed. -/
theorem empty (hSize : 1 < size) : RingLayout size 0 1 [] :=
  ⟨by omega, hSize, Or.inl ⟨by omega, Nat.le_refl _⟩⟩

theorem cursors_ne (h : RingLayout size reading writing used) : writing ≠ reading := by
  rcases h.placed with ⟨hLt, _⟩ | ⟨hLt, _⟩ <;> omega

/-- Every region in use ends before the last byte of the memory. -/
theorem stop_lt (h : RingLayout size reading writing used) (hMem : r ∈ used) : r.stop < size := by
  have hWriting := h.writing_lt
  rcases h.placed with ⟨_, hPacked⟩ | ⟨_, upper, lower, rfl, hUpper, hLower⟩
  · have hBounds := hPacked.bounds hMem
    omega
  · rcases List.mem_append.mp hMem with hIn | hIn
    · exact (hUpper.bounds hIn).2
    · have hBounds := hLower.bounds hIn
      omega

theorem pairwise (h : RingLayout size reading writing used) :
    used.Pairwise Region.Disjoint := by
  rcases h.placed with ⟨_, hPacked⟩ | ⟨hLt, upper, lower, rfl, hUpper, hLower⟩
  · exact hPacked.pairwise
  · refine List.pairwise_append.mpr ⟨hUpper.pairwise, hLower.pairwise, ?_⟩
    intro a ha b hb
    have hAbove := hUpper.bounds ha
    have hBelow := hLower.bounds hb
    exact Or.inr (by omega)

/-- A place with room touches no region in use. -/
theorem room_disjoint (h : RingLayout size reading writing used)
    (hRoom : RingRoom size reading writing length addr) (hMem : r ∈ used) :
    Region.Disjoint ⟨addr, length⟩ r := by
  unfold Region.Disjoint
  simp only [Region.stop]
  rcases h.placed with ⟨hLt, hPacked⟩ | ⟨hLt, upper, lower, rfl, hUpper, hLower⟩
  · have hBounds := hPacked.bounds hMem
    simp only [Region.stop] at hBounds
    rcases hRoom with ⟨rfl, _, _⟩ | ⟨rfl, _, hFront⟩ <;> omega
  · rcases hRoom with ⟨rfl, _, hMiddle⟩ | ⟨_, hAbove, _⟩
    · have hMiddle := hMiddle hLt
      rcases List.mem_append.mp hMem with hIn | hIn
      · have hBounds := hUpper.bounds hIn
        omega
      · have hBounds := hLower.bounds hIn
        simp only [Region.stop] at hBounds
        omega
    · omega

/-- Placing a region where there is room moves the writing cursor past it. -/
theorem place (h : RingLayout size reading writing used)
    (hRoom : RingRoom size reading writing length addr) :
    RingLayout size reading (addr + length + 1) (used ++ [⟨addr, length⟩]) := by
  have hReading := h.reading_lt
  rcases h.placed with ⟨hLt, hPacked⟩ | ⟨hLt, upper, lower, rfl, hUpper, hLower⟩
  · rcases hRoom with ⟨rfl, hEnd, _⟩ | ⟨rfl, _, hFront⟩
    · exact ⟨hReading, hEnd, Or.inl ⟨by omega, hPacked.snoc ⟨_, _⟩ (Nat.le_refl _)⟩⟩
    · refine ⟨hReading, by omega, Or.inr ⟨by omega, used, [⟨0, length⟩], rfl, ?_, ?_⟩⟩
      · exact hPacked.mono (Nat.le_refl _) (Nat.le_of_lt h.writing_lt)
      · exact ⟨Nat.le_refl _, Nat.le_refl _⟩
  · rcases hRoom with ⟨rfl, hEnd, hMiddle⟩ | ⟨_, hAbove, _⟩
    · have hMiddle := hMiddle hLt
      refine ⟨hReading, hEnd, Or.inr ⟨hMiddle, upper, lower ++ [⟨addr, length⟩], ?_, hUpper, ?_⟩⟩
      · simp
      · exact hLower.snoc ⟨_, _⟩ (Nat.le_refl _)
    · omega

/-- Giving back the oldest region moves the reading cursor to its end. This
is the only place where the reading cursor crosses the wrap. -/
theorem giveBack (h : RingLayout size reading writing (r :: used)) :
    RingLayout size r.stop writing used := by
  have hStop := h.stop_lt (r := r) (List.mem_cons_self ..)
  rcases h.placed with ⟨hLt, hPacked⟩ | ⟨hLt, upper, lower, hSplit, hUpper, hLower⟩
  · exact ⟨hStop, h.writing_lt, Or.inl ⟨hPacked.2.le, hPacked.2⟩⟩
  · cases upper with
    | nil =>
        obtain rfl : r :: used = lower := by simpa using hSplit
        exact ⟨hStop, h.writing_lt, Or.inl ⟨hLower.2.le, hLower.2⟩⟩
    | cons q upper =>
        obtain ⟨rfl, rfl⟩ : r = q ∧ used = upper ++ lower := by simpa using hSplit
        have hAbove := hUpper.1
        refine ⟨hStop, h.writing_lt, Or.inr ⟨?_, upper, lower, rfl, hUpper.2, hLower⟩⟩
        simp only [Region.stop]
        omega

/-- With the writing cursor above, the reading cursor stays below it. -/
theorem giveBack_below (h : RingLayout size reading writing (r :: used))
    (hAbove : reading < writing) : r.stop < writing := by
  rcases h.placed with ⟨_, hPacked⟩ | ⟨hBelow, _⟩
  · exact hPacked.2.le
  · omega

/-- Room that was found stays when older regions are given back. -/
theorem room_giveBack (h : RingLayout size reading writing (r :: used))
    (hRoom : RingRoom size reading writing length addr) :
    RingRoom size r.stop writing length addr := by
  have hStop := h.stop_lt (r := r) (List.mem_cons_self ..)
  rcases h.placed with ⟨hLt, hPacked⟩ | ⟨hLt, upper, lower, hSplit, hUpper, hLower⟩
  · have hFirst := hPacked.1
    have hRest := hPacked.2.le
    simp only [Region.stop] at hStop hRest ⊢
    rcases hRoom with ⟨rfl, hEnd, _⟩ | ⟨rfl, _, hFront⟩
    · exact Or.inl ⟨rfl, hEnd, fun _ => by omega⟩
    · exact Or.inr ⟨rfl, by omega, by omega⟩
  · rcases hRoom with ⟨rfl, hEnd, hMiddle⟩ | ⟨_, hAbove, _⟩
    · refine Or.inl ⟨rfl, hEnd, fun hBelow => ?_⟩
      have hMiddle := hMiddle hLt
      cases upper with
      | nil =>
          obtain rfl : r :: used = lower := by simpa using hSplit
          have hRest := hLower.2.le
          omega
      | cons q upper =>
          obtain ⟨rfl, rfl⟩ : r = q ∧ used = upper ++ lower := by simpa using hSplit
          have hFirst := hUpper.1
          simp only [Region.stop]
          omega
    · omega

end RingLayout
end Meet
