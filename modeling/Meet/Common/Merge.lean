import Mathlib.Data.List.Sort

/-! Merging several queues by time. At each step the head with the least time
is taken, and among equal heads the one of the earliest queue. -/
namespace Meet.Merge

universe u v
variable {α : Type u} {β : Type v} [LinearOrder β]

/-- The least head with the position of its queue. -/
def minHead? (time : α → β) : List (List α) → Option (Nat × α)
  | [] => none
  | [] :: queues => (minHead? time queues).map fun found => (found.1 + 1, found.2)
  | (x :: _) :: queues =>
      match minHead? time queues with
      | none => some (0, x)
      | some found => if time found.2 < time x then some (found.1 + 1, found.2) else some (0, x)

def dropMin (time : α → β) (queues : List (List α)) : List (List α) :=
  match minHead? time queues with
  | none => queues
  | some found => queues.modify found.1 List.tail

/-- The queues after a number of steps. -/
def after (time : α → β) (queues : List (List α)) : Nat → List (List α)
  | 0 => queues
  | n + 1 => dropMin time (after time queues n)

/-- The heads taken by a number of steps. -/
def taken (time : α → β) (queues : List (List α)) : Nat → List (Nat × α)
  | 0 => []
  | n + 1 => taken time queues n ++ (minHead? time (after time queues n)).toList

/-- The first step can be split off instead of the last one. -/
theorem after_dropMin (time : α → β) (queues : List (List α)) (n : Nat) :
    after time (dropMin time queues) n = after time queues (n + 1) := by
  induction n with
  | zero => rfl
  | succ n ih => rw [after, ih, ← after]

theorem taken_dropMin (time : α → β) (queues : List (List α)) (n : Nat) :
    (minHead? time queues).toList ++ taken time (dropMin time queues) n =
      taken time queues (n + 1) := by
  induction n with
  | zero => simp [taken, after]
  | succ n ih => rw [taken, after_dropMin, ← List.append_assoc, ih, ← taken]

/-- A least head and the place it stands at. -/
structure IsMinHead (time : α → β) (queues : List (List α)) (found : Nat × α) : Prop where
  head : ∃ rest, queues[found.1]? = some (found.2 :: rest)
  least : ∀ (i : Nat) x rest, queues[i]? = some (x :: rest) → time found.2 ≤ time x
  first : ∀ (i : Nat) x rest, queues[i]? = some (x :: rest) → i < found.1 → time found.2 < time x

theorem IsMinHead.skip {time : α → β} {queues : List (List α)} {found : Nat × α}
    (h : IsMinHead time queues found) : IsMinHead time ([] :: queues) (found.1 + 1, found.2) := by
  refine ⟨by simpa using h.head, fun i x rest hHead => ?_, fun i x rest hHead hBefore => ?_⟩
  · cases i with
    | zero => simp at hHead
    | succ i => exact h.least i x rest (by simpa using hHead)
  · cases i with
    | zero => simp at hHead
    | succ i => exact h.first i x rest (by simpa using hHead) (by simpa using hBefore)

theorem IsMinHead.pass {time : α → β} {queues : List (List α)} {found : Nat × α} {x : α}
    {tail : List α} (h : IsMinHead time queues found) (hLess : time found.2 < time x) :
    IsMinHead time ((x :: tail) :: queues) (found.1 + 1, found.2) := by
  refine ⟨by simpa using h.head, fun i y rest hHead => ?_, fun i y rest hHead hBefore => ?_⟩
  · cases i with
    | zero =>
        obtain ⟨rfl, _⟩ : x = y ∧ tail = rest := by simpa using hHead
        exact hLess.le
    | succ i => exact h.least i y rest (by simpa using hHead)
  · cases i with
    | zero =>
        obtain ⟨rfl, _⟩ : x = y ∧ tail = rest := by simpa using hHead
        exact hLess
    | succ i => exact h.first i y rest (by simpa using hHead) (by simpa using hBefore)

theorem IsMinHead.here {time : α → β} {queues : List (List α)} {x : α} {tail : List α}
    (h : ∀ (i : Nat) y rest, queues[i]? = some (y :: rest) → time x ≤ time y) :
    IsMinHead time ((x :: tail) :: queues) (0, x) := by
  refine ⟨⟨tail, rfl⟩, fun i y rest hHead => ?_, by simp⟩
  cases i with
  | zero =>
      obtain ⟨rfl, _⟩ : x = y ∧ tail = rest := by simpa using hHead
      exact le_rfl
  | succ i => exact h i y rest (by simpa using hHead)

/-- The search finds a least head, or every queue is empty. -/
theorem minHead?_spec (time : α → β) (queues : List (List α)) :
    match minHead? time queues with
    | none => ∀ queue ∈ queues, queue = []
    | some found => IsMinHead time queues found := by
  induction queues with
  | nil => simp [minHead?]
  | cons queue queues ih =>
      cases queue with
      | nil =>
          cases hFound : minHead? time queues with
          | none => simpa [minHead?, hFound] using ih
          | some found =>
              simp only [hFound] at ih
              simpa [minHead?, hFound] using ih.skip
      | cons x tail =>
          cases hFound : minHead? time queues with
          | none =>
              simp only [hFound] at ih
              simp only [minHead?, hFound]
              refine IsMinHead.here fun i y rest hHead => ?_
              simpa using ih _ (List.mem_of_getElem? hHead)
          | some found =>
              simp only [hFound] at ih
              simp only [minHead?, hFound]
              by_cases hLess : time found.2 < time x
              · simpa [hLess] using ih.pass hLess
              · simp only [hLess, if_false]
                exact IsMinHead.here fun i y rest hHead =>
                  (not_lt.mp hLess).trans (ih.least i y rest hHead)

theorem minHead?_isMinHead {time : α → β} {queues : List (List α)} {found : Nat × α}
    (h : minHead? time queues = some found) : IsMinHead time queues found := by
  simpa [h] using minHead?_spec time queues

theorem minHead?_eq_none_iff {time : α → β} {queues : List (List α)} :
    minHead? time queues = none ↔ ∀ queue ∈ queues, queue = [] := by
  constructor
  · intro h
    simpa [h] using minHead?_spec time queues
  · intro h
    cases hFound : minHead? time queues with
    | none => rfl
    | some found =>
        obtain ⟨rest, hHead⟩ := (minHead?_isMinHead hFound).head
        simpa using h _ (List.mem_of_getElem? hHead)

/-- The heads taken from one queue, in order. -/
def takenFrom (time : α → β) (queues : List (List α)) (n i : Nat) : List α :=
  ((taken time queues n).filter fun found => found.1 == i).map Prod.snd

/-- Taking heads keeps the order of every queue, and loses and repeats
nothing: what was taken from a queue and what is left of it is the queue. -/
theorem takenFrom_append_after (time : α → β) (queues : List (List α)) (n i : Nat) :
    (after time queues n)[i]?.map (takenFrom time queues n i ++ ·) = queues[i]? := by
  induction n with
  | zero => simp [after, takenFrom, taken]
  | succ n ih =>
      simp only [after, dropMin, takenFrom, taken]
      cases hFound : minHead? time (after time queues n) with
      | none => simpa [takenFrom] using ih
      | some found =>
          obtain ⟨rest, hHead⟩ := (minHead?_isMinHead hFound).head
          by_cases hHere : found.1 = i
          · subst hHere
            rw [hHead] at ih
            simpa [takenFrom, List.getElem?_modify, hHead] using ih
          · simpa [takenFrom, List.getElem?_modify, hHere] using ih

section Sorting

/-- Sorting brings an element to the front when it is less than everything
before it and at most everything after it. -/
theorem insertionSort_of_first_min {r : α → α → Prop} [DecidableRel r] (front back : List α)
    (x : α) (hFront : ∀ y ∈ front, ¬ r y x) (hBack : ∀ y ∈ front ++ back, r x y) :
    (front ++ x :: back).insertionSort r = x :: (front ++ back).insertionSort r := by
  induction front with
  | nil => exact List.insertionSort_cons_of_forall_rel r fun y hy => hBack y (by simpa using hy)
  | cons y front ih =>
      rw [List.cons_append, List.insertionSort_cons, ih (fun z hz => hFront z (by simp [hz]))
        (fun z hz => hBack z (by simp at hz ⊢; tauto)),
        List.orderedInsert_of_not_le _ _ (hFront y (by simp))]
      rfl

variable {time : α → β}

/-- In queues sorted by time the least head is least among all elements. -/
theorem IsMinHead.least_mem {queues : List (List α)} {found : Nat × α}
    (h : IsMinHead time queues found)
    (hSorted : ∀ queue ∈ queues, queue.Pairwise fun a b => time a ≤ time b)
    {i : Nat} {queue : List α} (hQueue : queues[i]? = some queue) {y : α} (hy : y ∈ queue) :
    time found.2 ≤ time y ∧ (i < found.1 → time found.2 < time y) := by
  cases queue with
  | nil => simp at hy
  | cons x rest =>
      have hHead : time x ≤ time y := by
        rcases List.mem_cons.mp hy with rfl | hRest
        · exact le_rfl
        · exact List.rel_of_pairwise_cons (hSorted _ (List.mem_of_getElem? hQueue)) hRest
      exact ⟨(h.least i x rest hQueue).trans hHead,
        fun hBefore => (h.first i x rest hQueue hBefore).trans_le hHead⟩

/-- Taking one least head from sorted queues takes the first element of the
sorted whole. -/
theorem insertionSort_flatten_of_minHead? {queues : List (List α)} {found : Nat × α}
    (h : minHead? time queues = some found)
    (hSorted : ∀ queue ∈ queues, queue.Pairwise fun a b => time a ≤ time b) :
    queues.flatten.insertionSort (fun a b => time a ≤ time b) =
      found.2 :: (dropMin time queues).flatten.insertionSort fun a b => time a ≤ time b := by
  have hMin := minHead?_isMinHead h
  obtain ⟨rest, hHead⟩ := hMin.head
  obtain ⟨hBound, hElem⟩ := List.getElem?_eq_some_iff.mp hHead
  have hSplit : queues.flatten = (queues.take found.1).flatten ++
      found.2 :: (rest ++ (queues.drop (found.1 + 1)).flatten) := by
    conv_lhs => rw [← List.take_append_drop found.1 queues, List.drop_eq_getElem_cons hBound, hElem]
    simp
  have hDrop : (dropMin time queues).flatten = (queues.take found.1).flatten ++
      (rest ++ (queues.drop (found.1 + 1)).flatten) := by
    simp [dropMin, h, List.modify_eq_take_cons_drop hBound, hElem]
  have hLeast : ∀ y ∈ queues.flatten, time found.2 ≤ time y := by
    intro y hy
    obtain ⟨queue, hQueue, hy⟩ := List.mem_flatten.mp hy
    obtain ⟨i, hi⟩ := List.mem_iff_getElem?.mp hQueue
    exact (hMin.least_mem hSorted hi hy).1
  have hFirst : ∀ y ∈ (queues.take found.1).flatten, ¬ time y ≤ time found.2 := by
    intro y hy
    obtain ⟨queue, hQueue, hy⟩ := List.mem_flatten.mp hy
    obtain ⟨i, hi⟩ := List.mem_iff_getElem?.mp hQueue
    rw [List.getElem?_take] at hi
    split_ifs at hi with hBefore
    exact not_le.mpr ((hMin.least_mem hSorted hi hy).2 hBefore)
  rw [hDrop, hSplit]
  refine insertionSort_of_first_min _ _ _ hFirst fun y hy => hLeast y ?_
  rw [hSplit]
  simp only [List.mem_append, List.mem_cons] at hy ⊢
  tauto

theorem sorted_dropMin {queues : List (List α)}
    (hSorted : ∀ queue ∈ queues, queue.Pairwise fun a b => time a ≤ time b) :
    ∀ queue ∈ dropMin time queues, queue.Pairwise fun a b => time a ≤ time b := by
  unfold dropMin
  cases minHead? time queues with
  | none => exact hSorted
  | some found =>
      intro queue hQueue
      obtain ⟨i, hi⟩ := List.mem_iff_getElem?.mp hQueue
      rw [List.getElem?_modify] at hi
      obtain ⟨old, hOld, rfl⟩ := Option.map_eq_some_iff.mp hi
      have hOldSorted := hSorted old (List.mem_of_getElem? hOld)
      split_ifs
      · exact hOldSorted.sublist (List.tail_sublist old)
      · exact hOldSorted

/-- From queues sorted by time, the heads taken are the first elements of the
stably sorted whole. -/
theorem taken_sorted {queues : List (List α)}
    (hSorted : ∀ queue ∈ queues, queue.Pairwise fun a b => time a ≤ time b) (n : Nat) :
    (∀ queue ∈ after time queues n, queue.Pairwise fun a b => time a ≤ time b) ∧
    queues.flatten.insertionSort (fun a b => time a ≤ time b) =
      (taken time queues n).map Prod.snd ++
        (after time queues n).flatten.insertionSort fun a b => time a ≤ time b := by
  induction n with
  | zero => exact ⟨hSorted, by simp [taken, after]⟩
  | succ n ih =>
      refine ⟨sorted_dropMin ih.1, ?_⟩
      rw [ih.2, taken, after]
      cases hFound : minHead? time (after time queues n) with
      | none => simp [dropMin, hFound]
      | some found =>
          rw [insertionSort_flatten_of_minHead? hFound ih.1]
          simp

end Sorting

end Meet.Merge
