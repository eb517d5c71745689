import Mathlib.Data.List.Sort

/-! A queue of messages that become due at given times. It is kept in order of the due
times, with messages of one time in the order they were sent. -/
namespace Meet

/-- A message and the time it is due. Time 0 is before all others. -/
structure Timed (α : Type) where
  what : α
  due : Nat
deriving DecidableEq, Repr

namespace MessageQueue

variable {α : Type}

/-- An item that is inserted behind those due no later splits a queue that is in order. -/
theorem orderedInsert_cases (due : α → Int) (item : α) {queue : List α}
    (hSorted : queue.Pairwise fun a b => due a ≤ due b) :
    ∃ front back, queue = front ++ back ∧
      queue.orderedInsert (fun a b => due a < due b) item = front ++ item :: back ∧
      (∀ a ∈ front, due a ≤ due item) ∧ ∀ b ∈ back, due item < due b := by
  induction queue with
  | nil => exact ⟨[], [], rfl, rfl, by simp, by simp⟩
  | cons first rest ih =>
      obtain ⟨hFirst, hRest⟩ := List.pairwise_cons.mp hSorted
      by_cases hBefore : due item < due first
      · refine ⟨[], first :: rest, rfl, by simp [List.orderedInsert, hBefore], by simp, ?_⟩
        intro b hMem
        cases List.mem_cons.mp hMem with
        | inl hHead => exact hHead ▸ hBefore
        | inr hTail => exact Int.lt_of_lt_of_le hBefore (hFirst b hTail)
      · obtain ⟨front, back, hSplit, hInsert, hFront, hBack⟩ := ih hRest
        refine ⟨first :: front, back, by rw [hSplit]; rfl, ?_, ?_, hBack⟩
        · rw [List.orderedInsert_cons, if_neg hBefore, hInsert]
          rfl
        · intro a hMem
          cases List.mem_cons.mp hMem with
          | inl hHead => exact hHead ▸ Int.not_lt.mp hBefore
          | inr hTail => exact hFront a hTail

/-- An item that is inserted leaves those around another item where they are. -/
theorem orderedInsert_around (before : α → α → Prop) [DecidableRel before] (item middle : α)
    (front back : List α) :
    ∃ first last, (front ++ middle :: back).orderedInsert before item = first ++ middle :: last ∧
      front ⊆ first := by
  induction front with
  | nil =>
      by_cases hBefore : before item middle
      · exact ⟨[item], back, if_pos hBefore, List.nil_subset _⟩
      · exact ⟨[], back.orderedInsert before item, if_neg hBefore, List.Subset.refl _⟩
  | cons a front ih =>
      by_cases hBefore : before item a
      · refine ⟨item :: a :: front, back, if_pos hBefore, List.subset_cons_self _ _⟩
      · obtain ⟨first, last, hInsert, hFront⟩ := ih
        refine ⟨a :: first, last, ?_, List.cons_subset_cons a hFront⟩
        rw [List.cons_append, List.orderedInsert_cons, if_neg hBefore, hInsert]
        rfl

/-- A message goes behind those that are due no later. One with time 0 goes to the head. -/
def enqueue (message : Timed α) (queue : List (Timed α)) : List (Timed α) :=
  if message.due = 0 then message :: queue
  else queue.orderedInsert (fun a b => a.due < b.due) message

theorem enqueue_perm (message : Timed α) (queue : List (Timed α)) :
    (enqueue message queue).Perm (message :: queue) := by
  unfold enqueue
  split
  · exact List.Perm.refl _
  · exact List.perm_orderedInsert _ _ _

variable [DecidableEq α]

/-- How many messages of one kind there are. -/
def count (what : α) (queue : List (Timed α)) : Nat := queue.countP (·.what = what)

@[simp] theorem count_nil (what : α) : count what [] = 0 := rfl

theorem count_cons (what : α) (message : Timed α) (queue : List (Timed α)) :
    count what (message :: queue) =
      count what queue + if message.what = what then 1 else 0 := by
  simp [count, List.countP_cons]

theorem count_enqueue (what : α) (message : Timed α) (queue : List (Timed α)) :
    count what (enqueue message queue) =
      count what queue + if message.what = what then 1 else 0 := by
  rw [← count_cons]
  exact (enqueue_perm message queue).countP_eq _

/-- Removing the messages that fail a test leaves no more of any kind. -/
theorem count_filter_le (what : α) (keep : Timed α → Bool) (queue : List (Timed α)) :
    count what (queue.filter keep) ≤ count what queue :=
  List.filter_sublist.countP_le

end MessageQueue
end Meet
