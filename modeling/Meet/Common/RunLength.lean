import Mathlib.Algebra.GroupWithZero.Nat
import Mathlib.Data.List.Basic

/-! Sequences in run-length form: a list of runs, each a number of repetitions and the value
that is repeated. A run begins behind the runs before it, and a position belongs to the run
between whose ends it lies. -/
namespace Meet.RunLength

variable {α : Type}

/-- The sequence the runs stand for. -/
def expand (runs : List (Nat × α)) : List α :=
  runs.flatMap fun run => List.replicate run.1 run.2

/-- The length of the sequence. -/
def total (runs : List (Nat × α)) : Nat :=
  (runs.map Prod.fst).sum

/-- Where the run of the given number begins. -/
def start (runs : List (Nat × α)) (index : Nat) : Nat :=
  total (runs.take index)

@[simp] theorem expand_nil : expand ([] : List (Nat × α)) = [] := rfl

@[simp] theorem total_nil : total ([] : List (Nat × α)) = 0 := rfl

@[simp] theorem expand_cons (run : Nat × α) (rest : List (Nat × α)) :
    expand (run :: rest) = List.replicate run.1 run.2 ++ expand rest := by
  simp [expand]

@[simp] theorem total_cons (run : Nat × α) (rest : List (Nat × α)) :
    total (run :: rest) = run.1 + total rest := by
  simp [total]

theorem expand_append (front back : List (Nat × α)) :
    expand (front ++ back) = expand front ++ expand back :=
  List.flatMap_append

theorem length_expand (runs : List (Nat × α)) : (expand runs).length = total runs := by
  induction runs with
  | nil => rfl
  | cons run rest ih => simp [ih]

@[simp] theorem start_zero (runs : List (Nat × α)) : start runs 0 = 0 := by
  simp [start]

theorem start_length (runs : List (Nat × α)) : start runs runs.length = total runs := by
  simp [start]

theorem start_succ {runs : List (Nat × α)} {index : Nat} {run : Nat × α}
    (hRun : runs[index]? = some run) : start runs (index + 1) = start runs index + run.1 := by
  induction runs generalizing index with
  | nil => cases hRun
  | cons first rest ih =>
      cases index with
      | zero =>
          obtain rfl : first = run := by simpa using hRun
          simp [start]
      | succ index =>
          have hGet : rest[index]? = some run := by simpa using hRun
          have hRest := ih hGet
          simp only [start, List.take_succ_cons, total_cons] at hRest ⊢
          omega

theorem start_mono (runs : List (Nat × α)) {first second : Nat} (h : first ≤ second) :
    start runs first ≤ start runs second := by
  induction runs generalizing first second with
  | nil => simp [start]
  | cons run rest ih =>
      cases first with
      | zero => simp
      | succ first =>
          cases second with
          | zero => omega
          | succ second =>
              have hRest := ih (Nat.le_of_succ_le_succ h)
              simp only [start, List.take_succ_cons, total_cons] at hRest ⊢
              omega

theorem start_le_total (runs : List (Nat × α)) (index : Nat) : start runs index ≤ total runs := by
  cases Nat.le_total index runs.length with
  | inl hInside => exact start_length runs ▸ start_mono runs hInside
  | inr hBehind => exact Nat.le_of_eq (congrArg total (List.take_of_length_le hBehind))

theorem split_at {items : List α} {index : Nat} {item : α} (hItem : items[index]? = some item) :
    items = items.take index ++ item :: items.drop (index + 1) := by
  obtain ⟨hIndex, hGet⟩ := List.getElem?_eq_some_iff.mp hItem
  rw [← hGet, ← List.drop_eq_getElem_cons hIndex, List.take_append_drop]

/-- A position between the ends of a run holds the value of the run. -/
theorem getElem?_expand {runs : List (Nat × α)} {index : Nat} {run : Nat × α}
    (hRun : runs[index]? = some run) {i : Nat} (hFrom : start runs index ≤ i)
    (hUntil : i < start runs (index + 1)) : (expand runs)[i]? = some run.2 := by
  rw [start_succ hRun] at hUntil
  rw [start, ← length_expand] at hFrom hUntil
  rw [split_at hRun, expand_append, List.getElem?_append_right hFrom, expand_cons,
    List.getElem?_append_left (by rw [List.length_replicate]; omega),
    List.getElem?_replicate_of_lt (by omega)]

theorem getElem?_expand_eq_none {runs : List (Nat × α)} {i : Nat} (h : total runs ≤ i) :
    (expand runs)[i]? = none :=
  List.getElem?_eq_none (length_expand runs ▸ h)

/-- The sum of the values of the runs before the given one. -/
def sumBefore (runs : List (Nat × Nat)) (index : Nat) : Nat :=
  ((runs.take index).map fun run => run.1 * run.2).sum

@[simp] theorem sumBefore_zero (runs : List (Nat × Nat)) : sumBefore runs 0 = 0 := by
  simp [sumBefore]

theorem sum_expand (runs : List (Nat × Nat)) :
    (expand runs).sum = (runs.map fun run => run.1 * run.2).sum := by
  induction runs with
  | nil => rfl
  | cons run rest ih => simp [ih]

theorem sumBefore_succ {runs : List (Nat × Nat)} {index : Nat} {run : Nat × Nat}
    (hRun : runs[index]? = some run) :
    sumBefore runs (index + 1) = sumBefore runs index + run.1 * run.2 := by
  rw [sumBefore, List.take_add_one, hRun, List.map_append, List.sum_append]
  simp [sumBefore]

/-- The sum up to a position between the ends of a run. -/
theorem sum_take_expand {runs : List (Nat × Nat)} {index : Nat} {run : Nat × Nat}
    (hRun : runs[index]? = some run) {i : Nat} (hFrom : start runs index ≤ i)
    (hUntil : i ≤ start runs (index + 1)) :
    ((expand runs).take i).sum = sumBefore runs index + (i - start runs index) * run.2 := by
  rw [start_succ hRun] at hUntil
  have hFront : (expand (runs.take index)).length = start runs index := length_expand _
  conv_lhs => rw [split_at hRun, expand_append, List.take_append, hFront, expand_cons]
  rw [List.take_of_length_le (hFront ▸ hFrom), List.take_append_of_le_length
    (by rw [List.length_replicate]; omega), List.take_replicate, Nat.min_eq_left (by omega),
    List.sum_append, sum_expand, List.sum_replicate_nat, sumBefore]

end Meet.RunLength
