import Mathlib.Data.List.Basic

/-! Lists of two values that follow each other in turn. -/
namespace Meet

variable {α : Type}

/-- The values take turns, beginning with `first`. -/
def Alternates (first second : α) : List α → Prop
  | [] => True
  | value :: rest => value = first ∧ Alternates second first rest

instance Alternates.decidable [DecidableEq α] (first second : α) :
    (values : List α) → Decidable (Alternates first second values)
  | [] => .isTrue trivial
  | value :: rest =>
      haveI := Alternates.decidable second first rest
      inferInstanceAs (Decidable (value = first ∧ Alternates second first rest))

/-- The value whose turn is next. -/
def turn (first second : α) : List α → α
  | [] => first
  | _ :: rest => turn second first rest

theorem Alternates.append {first second : α} {values more : List α}
    (h : Alternates first second (values ++ more)) : Alternates first second values := by
  induction values generalizing first second with
  | nil => trivial
  | cons value rest ih => exact ⟨h.1, ih h.2⟩

theorem Alternates.snoc {first second : α} {values : List α} (h : Alternates first second values) :
    Alternates first second (values ++ [turn first second values]) := by
  induction values generalizing first second with
  | nil => exact ⟨rfl, trivial⟩
  | cons value rest ih => exact ⟨h.1, ih h.2⟩

/-- The turns change with every value. -/
theorem turn_snoc (first second : α) (values : List α) (value : α) :
    turn first second (values ++ [value]) = turn second first values := by
  induction values generalizing first second with
  | nil => rfl
  | cons _ rest ih => exact ih second first

theorem turn_cases (first second : α) (values : List α) :
    turn first second values = first ∧ turn second first values = second ∨
      turn first second values = second ∧ turn second first values = first := by
  induction values generalizing first second with
  | nil => exact Or.inl ⟨rfl, rfl⟩
  | cons _ rest ih =>
      rcases ih second first with hSame | hOther
      · exact Or.inr hSame
      · exact Or.inl hOther

/-- When it is the turn of `first`, that of `second` comes next. -/
theorem turn_first_snoc {first second : α} (hNe : first ≠ second) {values : List α}
    (hTurn : turn first second values = first) :
    turn first second (values ++ [first]) = second := by
  rw [turn_snoc]
  rcases turn_cases first second values with hSame | hOther
  · exact hSame.2
  · exact absurd (hTurn.symm.trans hOther.1) hNe

theorem turn_second_snoc {first second : α} (hNe : first ≠ second) {values : List α}
    (hTurn : turn first second values = second) :
    turn first second (values ++ [second]) = first := by
  rw [turn_snoc]
  rcases turn_cases first second values with hSame | hOther
  · exact absurd (hSame.1.symm.trans hTurn) hNe
  · exact hOther.2

/-- The last value had its turn. -/
theorem Alternates.last {first second : α} {values : List α} {value : α}
    (h : Alternates first second (values ++ [value])) : value = turn first second values := by
  induction values generalizing first second with
  | nil => exact h.1
  | cons _ rest ih => exact ih h.2

theorem Alternates.start {first second : α} {values : List α} (h : Alternates first second values)
    (hLast : values.getLast? ≠ some first) : Alternates first second (values ++ [first]) := by
  have hTurn : turn first second values = first := by
    rcases List.eq_nil_or_concat' values with rfl | ⟨before, value, rfl⟩
    · rfl
    · have hValue := h.last
      rw [turn_snoc]
      rcases turn_cases first second before with hSame | hOther
      · simp [hValue, hSame.1] at hLast
      · exact hOther.2
  have hNext := h.snoc
  rwa [hTurn] at hNext

theorem Alternates.stop {first second : α} {values : List α} (h : Alternates first second values)
    (hLast : values.getLast? = some first) : Alternates first second (values ++ [second]) := by
  have hTurn : turn first second values = second := by
    rcases List.eq_nil_or_concat' values with rfl | ⟨before, value, rfl⟩
    · simp at hLast
    · obtain rfl : value = first := by simpa using hLast
      have hValue := h.last
      rw [turn_snoc]
      rcases turn_cases value second before with hSame | hOther
      · exact hSame.2
      · exact hOther.2.trans (hValue.trans hOther.1)
  have hNext := h.snoc
  rwa [hTurn] at hNext

end Meet
