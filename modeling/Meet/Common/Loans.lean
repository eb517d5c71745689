import Mathlib.Data.List.Basic
import Mathlib.Tactic.SplitIfs

/-! Things that are lent and given back. A history of loans is settled when each thing was
given back once for each time it was lent, after it was lent. -/
namespace Meet.Loans

inductive Move (α : Type) where
  | take (thing : α)
  | give (thing : α)
deriving DecidableEq, Repr

variable {α : Type} [DecidableEq α]

/-- What is on loan after the moves; there is no answer when something is given back that is
not on loan. -/
def outstanding : List α → List (Move α) → Option (List α)
  | held, [] => some held
  | held, .take thing :: rest => outstanding (thing :: held) rest
  | held, .give thing :: rest =>
      if thing ∈ held then outstanding (held.erase thing) rest else none

def Settled (moves : List (Move α)) : Prop := outstanding [] moves = some []

instance (moves : List (Move α)) : Decidable (Settled moves) :=
  inferInstanceAs (Decidable (_ = _))

theorem outstanding_append (held : List α) (first second : List (Move α)) :
    outstanding held (first ++ second) = (outstanding held first).bind (outstanding · second) := by
  induction first generalizing held with
  | nil => rfl
  | cons move rest ih =>
      cases move with
      | take thing => exact ih _
      | give thing =>
          simp only [List.cons_append, outstanding]
          split_ifs
          · exact ih _
          · rfl

theorem Settled.append {first second : List (Move α)} (hFirst : Settled first)
    (hSecond : Settled second) : Settled (first ++ second) := by
  rw [Settled, outstanding_append, hFirst]
  exact hSecond

theorem Settled.of_append {first second : List (Move α)} (hFirst : Settled first)
    (hBoth : Settled (first ++ second)) : Settled second := by
  rwa [Settled, outstanding_append, hFirst] at hBoth

end Meet.Loans
