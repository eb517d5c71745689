import Mathlib.Algebra.BigOperators.Group.List.Basic
import Mathlib.Algebra.GroupWithZero.Nat

/-! The code of a thread as a tree of operations and tests. A thread that has run some of
its code has one of the parts of that tree left, so what holds of every part holds
wherever the thread stands. -/
namespace Meet

/-- Operations in order, with two ways to go on at every test. -/
inductive Code (Op Cond : Type) where
  | done
  | op (operation : Op) (next : Code Op Cond)
  | test (cond : Cond) (yes no : Code Op Cond)
deriving DecidableEq, Repr

namespace Code

variable {Op Cond : Type}

def isDone : Code Op Cond → Bool
  | .done => true
  | _ => false

/-- Run the first code and then the second. -/
def andThen : Code Op Cond → Code Op Cond → Code Op Cond
  | .done, second => second
  | .op operation next, second => .op operation (next.andThen second)
  | .test cond yes no, second => .test cond (yes.andThen second) (no.andThen second)

instance : Append (Code Op Cond) := ⟨andThen⟩

/-- The code that runs the operations one after the other. -/
def ofList (operations : List Op) : Code Op Cond := operations.foldr .op .done

/-- What can be left of the code, from all of it to nothing. -/
def parts : Code Op Cond → List (Code Op Cond)
  | .done => [.done]
  | .op operation next => .op operation next :: next.parts
  | .test cond yes no => .test cond yes no :: (yes.parts ++ no.parts)

/-- Some operation of the code, on whatever branch, satisfies the test. -/
def anyOp (test : Op → Bool) : Code Op Cond → Bool
  | .done => false
  | .op operation next => test operation || next.anyOp test
  | .test _ yes no => yes.anyOp test || no.anyOp test

/-- Every way through the code performs an operation that satisfies the test. -/
def mustOp (test : Op → Bool) : Code Op Cond → Bool
  | .done => false
  | .op operation next => test operation || next.mustOp test
  | .test _ yes no => yes.mustOp test && no.mustOp test

theorem mem_parts_self (code : Code Op Cond) : code ∈ code.parts := by
  cases code <;> simp [parts]

/-- A part of a part is a part. -/
theorem mem_parts_trans {inner part code : Code Op Cond} (hInner : inner ∈ part.parts)
    (hPart : part ∈ code.parts) : inner ∈ code.parts := by
  induction code with
  | done =>
      obtain rfl : part = .done := by simpa [parts] using hPart
      exact hInner
  | op operation next ih =>
      rcases List.mem_cons.mp hPart with rfl | hNext
      · exact hInner
      · exact List.mem_cons_of_mem _ (ih hNext)
  | test cond yes no ihYes ihNo =>
      rcases List.mem_cons.mp hPart with rfl | hBranch
      · exact hInner
      · apply List.mem_cons_of_mem
        rcases List.mem_append.mp hBranch with hYes | hNo
        · exact List.mem_append_left _ (ihYes hYes)
        · exact List.mem_append_right _ (ihNo hNo)

theorem next_mem_parts {operation : Op} {next code : Code Op Cond}
    (hPart : .op operation next ∈ code.parts) : next ∈ code.parts := by
  apply mem_parts_trans _ hPart
  exact List.mem_cons_of_mem _ next.mem_parts_self

theorem branch_mem_parts {cond : Cond} {yes no code : Code Op Cond} (taken : Bool)
    (hPart : .test cond yes no ∈ code.parts) : (if taken then yes else no) ∈ code.parts := by
  apply mem_parts_trans _ hPart
  cases taken
  · exact List.mem_cons_of_mem _ (List.mem_append_right _ no.mem_parts_self)
  · exact List.mem_cons_of_mem _ (List.mem_append_left _ yes.mem_parts_self)

/-- What no operation of the code does, none of its parts does. -/
theorem anyOp_of_mem_parts {test : Op → Bool} {part code : Code Op Cond} (hPart : part ∈ code.parts)
    (hNone : code.anyOp test = false) : part.anyOp test = false := by
  induction code with
  | done =>
      obtain rfl : part = .done := by simpa [parts] using hPart
      rfl
  | op operation next ih =>
      rcases List.mem_cons.mp hPart with rfl | hNext
      · exact hNone
      · exact ih hNext (Bool.or_eq_false_iff.mp hNone).2
  | test cond yes no ihYes ihNo =>
      obtain ⟨hYes, hNo⟩ := Bool.or_eq_false_iff.mp hNone
      rcases List.mem_cons.mp hPart with rfl | hBranch
      · exact hNone
      · rcases List.mem_append.mp hBranch with hMem | hMem
        · exact ihYes hMem hYes
        · exact ihNo hMem hNo

end Code

/-- Replacing one entry of a list changes a sum over it by the difference of the two
entries. -/
theorem sum_map_set {α : Type} (weight : α → Nat) {entries : List α} {i : Nat} {old : α}
    (hOld : entries[i]? = some old) (new : α) :
    ((entries.set i new).map weight).sum + weight old =
      (entries.map weight).sum + weight new := by
  induction entries generalizing i with
  | nil => simp at hOld
  | cons first rest ih =>
      cases i with
      | zero =>
          obtain rfl : first = old := by simpa using hOld
          simp only [List.set_cons_zero, List.map_cons, List.sum_cons]
          omega
      | succ i =>
          have hRest := ih (by simpa using hOld)
          simp only [List.set_cons_succ, List.map_cons, List.sum_cons]
          omega

end Meet
