import Mathlib.Logic.Relation

/-! A walk with a stack. What is taken from the stack is visited, and what hangs on it is put
on the stack in its place. The walk has no memory, so it ends only where nothing hangs below
itself. -/
namespace Meet.Walk

variable {α : Type} (push : α → List α)

/-- What is visited, in order, as long as the fuel lasts. -/
def walk : Nat → List α → List α
  | fuel + 1, a :: stack => a :: walk fuel (push a ++ stack)
  | _, _ => []

/-- The stack is empty before the fuel is used up. -/
def ends : Nat → List α → Bool
  | _, [] => true
  | 0, _ :: _ => false
  | fuel + 1, a :: stack => ends fuel (push a ++ stack)

/-- What hangs directly on something. -/
def Hangs (child parent : α) : Prop := child ∈ push parent

/-- What is visited sooner or later once something is on the stack. -/
def Below : α → α → Prop := Relation.ReflTransGen fun parent child => Hangs push child parent

variable {push}

theorem ends_mono {fuel more : Nat} {stack : List α} (hEnds : ends push fuel stack = true)
    (hMore : fuel ≤ more) : ends push more stack = true := by
  induction fuel generalizing more stack with
  | zero =>
      cases stack with
      | nil => cases more <;> rfl
      | cons a stack => cases hEnds
  | succ fuel ih =>
      cases stack with
      | nil => cases more <;> rfl
      | cons a stack =>
          obtain ⟨more, rfl⟩ : ∃ n, more = n + 1 := ⟨more - 1, by omega⟩
          have hRest : ends push fuel (push a ++ stack) = true := hEnds
          change ends push more (push a ++ stack) = true
          exact ih hRest (by omega)

/-- More fuel does not change a walk that has ended. -/
theorem walk_of_ends {fuel more : Nat} {stack : List α} (hEnds : ends push fuel stack = true)
    (hMore : fuel ≤ more) : walk push more stack = walk push fuel stack := by
  induction fuel generalizing more stack with
  | zero =>
      cases stack with
      | nil => simp [walk]
      | cons a stack => cases hEnds
  | succ fuel ih =>
      cases stack with
      | nil => simp [walk]
      | cons a stack =>
          obtain ⟨more, rfl⟩ : ∃ n, more = n + 1 := ⟨more - 1, by omega⟩
          have hRest : ends push fuel (push a ++ stack) = true := hEnds
          rw [walk, walk, ih hRest (by omega)]

theorem exists_ends_append {first stack : List α}
    (hFirst : ∀ a ∈ first, ∀ stack, (∃ n, ends push n stack = true) →
      ∃ n, ends push n (a :: stack) = true)
    (hStack : ∃ n, ends push n stack = true) : ∃ n, ends push n (first ++ stack) = true := by
  induction first with
  | nil => exact hStack
  | cons a first ih =>
      exact hFirst a (by simp) _ (ih fun b hMem => hFirst b (by simp [hMem]))

theorem exists_ends_cons {a : α} (hAcc : Acc (Hangs push) a) (stack : List α)
    (hStack : ∃ n, ends push n stack = true) : ∃ n, ends push n (a :: stack) = true := by
  induction hAcc generalizing stack with
  | intro a _ ih =>
      obtain ⟨n, hEnds⟩ := exists_ends_append (fun child hMem => ih child hMem) hStack
      exact ⟨n + 1, hEnds⟩

/-- The walk ends where nothing on the stack hangs below itself. -/
theorem exists_ends {stack : List α} (hAcc : ∀ a ∈ stack, Acc (Hangs push) a) :
    ∃ n, ends push n stack = true := by
  induction stack with
  | nil => exact ⟨0, rfl⟩
  | cons a stack ih =>
      exact exists_ends_cons (hAcc a (by simp)) stack (ih fun b hMem => hAcc b (by simp [hMem]))

/-- A walk that has ended has visited what hangs below the stack, and nothing else. -/
theorem mem_walk {fuel : Nat} {stack : List α} (hEnds : ends push fuel stack = true) {b : α} :
    b ∈ walk push fuel stack ↔ ∃ a ∈ stack, Below push a b := by
  induction fuel generalizing stack with
  | zero =>
      cases stack with
      | nil => simp [walk]
      | cons a stack => cases hEnds
  | succ fuel ih =>
      cases stack with
      | nil => simp [walk]
      | cons a stack =>
          have hRest : ends push fuel (push a ++ stack) = true := hEnds
          have hBelow : Below push a b ↔ b = a ∨ ∃ c ∈ push a, Below push c b := by
            rw [Below, Relation.ReflTransGen.cases_head_iff, eq_comm]
            rfl
          simp only [walk, List.mem_cons, ih hRest, List.mem_append, or_and_right, exists_or,
            exists_eq_left, hBelow, or_assoc]

/-! ### Each once -/

/-- Nothing on the stack is found below something else on it. -/
def Apart (push : α → List α) (stack : List α) : Prop :=
  stack.Pairwise fun a b => ¬ Below push a b ∧ ¬ Below push b a

/-- Nothing is listed twice, neither by one nor by two. -/
structure Forest (push : α → List α) : Prop where
  nodup : ∀ a, (push a).Nodup
  parent : ∀ a b child, child ∈ push a → child ∈ push b → a = b

theorem not_below_of_hangs {a child : α} (hAcc : Acc (Hangs push) a)
    (hHangs : Hangs push child a) : ¬ Below push child a := by
  induction hAcc generalizing child with
  | intro a _ ih =>
      intro hBelow
      rcases hBelow.cases_head with rfl | ⟨next, hNext, hRest⟩
      · exact ih child hHangs hHangs .refl
      · exact ih child hHangs hNext (hRest.tail hHangs)

/-- A walk that puts less on the stack finds less. -/
theorem Below.mono {less : α → List α} (hLess : ∀ a, less a ⊆ push a) {a b : α}
    (hBelow : Below less a b) : Below push a b :=
  Relation.ReflTransGen.mono (fun parent _ hHangs => hLess parent hHangs) _ _ hBelow

theorem Apart.mono {less : α → List α} {stack : List α} (hLess : ∀ a, less a ⊆ push a)
    (hApart : Apart push stack) : Apart less stack :=
  hApart.imp fun hNone => ⟨fun hBelow => hNone.1 (hBelow.mono hLess),
    fun hBelow => hNone.2 (hBelow.mono hLess)⟩

theorem Apart.reverse {stack : List α} (hApart : Apart push stack) : Apart push stack.reverse :=
  List.pairwise_reverse.mpr (hApart.imp And.symm)

/-- What is found below something hangs on it or is found through what it hangs on. -/
theorem Forest.below_parent (hForest : Forest push) {a b child : α} (hHangs : Hangs push child a)
    (hBelow : Below push b child) : b = child ∨ Below push b a := by
  rcases hBelow.cases_tail with hSame | ⟨parent, hParent, hLast⟩
  · exact Or.inl hSame.symm
  · obtain rfl := hForest.parent parent a child hLast hHangs
    exact Or.inr hParent

theorem Forest.apart_push (hForest : Forest push) {a : α} {stack : List α}
    (hAcc : Acc (Hangs push) a) (hApart : Apart push (a :: stack)) :
    Apart push (push a ++ stack) := by
  obtain ⟨hFirst, hStack⟩ := List.pairwise_cons.mp hApart
  have hSiblings : ∀ child ∈ push a, ∀ other ∈ push a, child ≠ other →
      ¬ Below push child other := by
    intro child hChild other hOther hNe hBelow
    rcases hForest.below_parent hOther hBelow with hSame | hParent
    · exact hNe hSame
    · exact not_below_of_hangs hAcc hChild hParent
  refine List.pairwise_append.mpr ⟨?_, hStack, ?_⟩
  · refine (hForest.nodup a).imp_of_mem fun hChild hOther hNe => ?_
    exact ⟨hSiblings _ hChild _ hOther hNe, hSiblings _ hOther _ hChild hNe.symm⟩
  · intro child hChild b hMem
    obtain ⟨hBelow, hAbove⟩ := hFirst b hMem
    refine ⟨fun hFound => hBelow (.head hChild hFound), fun hFound => ?_⟩
    rcases hForest.below_parent hChild hFound with rfl | hParent
    · exact hBelow (.single hChild)
    · exact hAbove hParent

/-- A walk that has ended has visited nothing twice. -/
theorem Forest.nodup_walk (hForest : Forest push) {fuel : Nat} {stack : List α}
    (hEnds : ends push fuel stack = true) (hAcc : ∀ a ∈ stack, Acc (Hangs push) a)
    (hApart : Apart push stack) : (walk push fuel stack).Nodup := by
  induction fuel generalizing stack with
  | zero => exact List.nodup_nil
  | succ fuel ih =>
      cases stack with
      | nil => exact List.nodup_nil
      | cons a stack =>
          have hRest : ends push fuel (push a ++ stack) = true := hEnds
          have hFirst : Acc (Hangs push) a := hAcc a List.mem_cons_self
          refine List.nodup_cons.mpr ⟨?_, ih hRest ?_ (hForest.apart_push hFirst hApart)⟩
          · rw [mem_walk hRest]
            rintro ⟨b, hMem, hBelow⟩
            rcases List.mem_append.mp hMem with hChild | hStack
            · exact not_below_of_hangs hFirst hChild hBelow
            · exact ((List.pairwise_cons.mp hApart).1 b hStack).2 hBelow
          · intro b hMem
            rcases List.mem_append.mp hMem with hChild | hStack
            · exact hFirst.inv hChild
            · exact hAcc b (List.mem_cons_of_mem a hStack)

end Meet.Walk
