import Mathlib.Data.List.Basic
import Mathlib.Tactic.SplitIfs

/-! Finite runs of a partial step function. Each step of a run meets a guard,
which states what the environment promises or which branch is not taken.
Nothing here depends on the program that supplies the step function. -/
namespace Meet

universe u v
variable {State : Type u} {Act : Type v}

/-- A finite run from the first state to the last, with the actions taken in
order. Every step meets `guard` in the state before it. -/
inductive Run (step : State → Act → Option State) (guard : State → Act → Prop) :
    State → List Act → State → Prop where
  | nil (s : State) : Run step guard s [] s
  | snoc {s t u : State} {acts : List Act} {act : Act}
      (prior : Run step guard s acts t) (meets : guard t act) (last : step t act = some u) :
      Run step guard s (acts ++ [act]) u

/-- The guard that every step meets. -/
def unguarded (_ : State) (_ : Act) : Prop := True

namespace Run

variable {step : State → Act → Option State} {guard weaker : State → Act → Prop}

/-- A property that holds at the start and is kept by every guarded step
holds at the end of every guarded run. -/
theorem invariant {holds : State → Prop} {s t : State} {acts : List Act}
    (run : Run step guard s acts t) (hStart : holds s)
    (hStep : ∀ before act after, holds before → guard before act →
      step before act = some after → holds after) : holds t := by
  induction run with
  | nil => exact hStart
  | snoc prior meets last ih => exact hStep _ _ _ ih meets last

/-- An invariant whose steps may use what is known of every state of a run. -/
theorem invariant_of {known holds : State → Prop} {s t : State} {acts : List Act}
    (run : Run step guard s acts t)
    (hKnown : ∀ acts t, Run step guard s acts t → known t) (hStart : holds s)
    (hStep : ∀ before act after, known before → holds before → guard before act →
      step before act = some after → holds after) : holds t := by
  induction run with
  | nil => exact hStart
  | snoc prior meets last ih => exact hStep _ _ _ (hKnown _ _ prior) ih meets last

/-- Weakening the guard keeps every run. -/
theorem mono {s t : State} {acts : List Act} (run : Run step guard s acts t)
    (hWeaker : ∀ state act, guard state act → weaker state act) : Run step weaker s acts t := by
  induction run with
  | nil => exact nil _
  | snoc prior meets last ih => exact snoc ih (hWeaker _ _ meets) last

/-- Where an invariant turns one guard into another, a run under the first is one under the
other. -/
theorem promote {holds : State → Prop} {other : State → Act → Prop} {s t : State}
    {acts : List Act} (run : Run step guard s acts t) (hStart : holds s)
    (hStep : ∀ before act after, holds before → guard before act →
      step before act = some after → holds after)
    (hMeets : ∀ state act, holds state → guard state act → other state act) :
    Run step other s acts t := by
  induction run with
  | nil => exact nil _
  | snoc prior meets last ih =>
      exact snoc ih (hMeets _ _ (prior.invariant hStart hStep) meets) last

/-- Actions that meet another guard in every state may be taken under it. -/
theorem strengthen {stronger : State → Act → Prop} {s t : State} {acts : List Act}
    (run : Run step guard s acts t) (hMeets : ∀ state, ∀ act ∈ acts, stronger state act) :
    Run step stronger s acts t := by
  induction run with
  | nil => exact nil _
  | snoc prior meets last ih =>
      refine snoc (ih fun state act hMem => ?_) (hMeets _ _ (by simp)) last
      exact hMeets state act (List.mem_append_left _ hMem)

theorem single {s t : State} {act : Act} (meets : guard s act) (last : step s act = some t) :
    Run step guard s [act] t := by
  simpa using snoc (nil s) meets last

theorem trans {s t u : State} {first second : List Act}
    (left : Run step guard s first t) (right : Run step guard t second u) :
    Run step guard s (first ++ second) u := by
  induction right with
  | nil => simpa using left
  | snoc prior meets last ih =>
      rw [← List.append_assoc]
      exact snoc ih meets last

theorem cons {s t u : State} {act : Act} {acts : List Act}
    (meets : guard s act) (first : step s act = some t) (rest : Run step guard t acts u) :
    Run step guard s (act :: acts) u :=
  trans (single meets first) rest

/-- The step function leaves no choice: the actions determine the last state. -/
theorem unique {s t u : State} {acts : List Act} (left : Run step guard s acts t)
    (right : Run step weaker s acts u) : t = u := by
  induction left generalizing u with
  | nil =>
      generalize hActs : ([] : List Act) = acts at right
      cases right with
      | nil => rfl
      | snoc => simp at hActs
  | @snoc t t' acts act prior meets last ih =>
      generalize hActs : acts ++ [act] = all at right
      cases right with
      | nil => simp at hActs
      | snoc prior' _ last' =>
          obtain ⟨rfl, hAct⟩ := List.append_inj' hActs rfl
          obtain rfl : act = _ := by simpa using hAct
          obtain rfl := ih prior'
          exact Option.some.inj (last.symm.trans last')

/-- One more step meets a guard, and the run before it does, exactly when the longer run does. -/
theorem snoc_iff {s t u : State} {acts : List Act} {act : Act} (prior : Run step weaker s acts t)
    (last : step t act = some u) :
    Run step guard s (acts ++ [act]) u ↔ Run step guard s acts t ∧ guard t act := by
  constructor
  · intro run
    generalize hActs : acts ++ [act] = all at run
    cases run with
    | nil => simp at hActs
    | snoc prior' meets last' =>
        obtain ⟨rfl, hAct⟩ := List.append_inj' hActs rfl
        obtain rfl : act = _ := by simpa using hAct
        obtain rfl := unique prior' prior
        exact ⟨prior', meets⟩
  · rintro ⟨hPrior, hMeets⟩
    exact .snoc hPrior hMeets last

/-- The first actions of a run are a run. -/
theorem first {s u : State} {before after : List Act}
    (run : Run step guard s (before ++ after) u) : ∃ t, Run step guard s before t := by
  generalize hActs : before ++ after = acts at run
  induction run generalizing after with
  | nil =>
      obtain ⟨rfl, -⟩ := List.append_eq_nil_iff.mp hActs
      exact ⟨s, .nil s⟩
  | @snoc t u acts act prior meets last ih =>
      rcases List.eq_nil_or_concat after with rfl | ⟨rest, final, rfl⟩
      · obtain rfl : before = acts ++ [act] := by simpa using hActs
        exact ⟨u, .snoc prior meets last⟩
      · rw [List.concat_eq_append, ← List.append_assoc] at hActs
        exact ih (List.append_inj' hActs rfl).1

/-- A run takes its first action and goes on from there. -/
theorem uncons {s u : State} {act : Act} {acts : List Act}
    (run : Run step guard s (act :: acts) u) :
    ∃ t, guard s act ∧ step s act = some t ∧ Run step guard t acts u := by
  generalize hActs : act :: acts = all at run
  induction run generalizing acts with
  | nil => cases hActs
  | @snoc t u before last prior meets hLast ih =>
      cases before with
      | nil =>
          obtain ⟨rfl, rfl⟩ := List.cons.inj hActs
          generalize hNil : ([] : List Act) = none at prior
          cases prior with
          | nil => exact ⟨u, meets, hLast, .nil u⟩
          | snoc => simp at hNil
      | cons first rest =>
          obtain ⟨rfl, rfl⟩ := List.cons.inj hActs
          obtain ⟨middle, hMeets, hFirst, hRest⟩ := ih rfl
          exact ⟨middle, hMeets, hFirst, .snoc hRest meets hLast⟩

/-- While `waiting` holds, marked actions lower `rank` and no action raises
it. A run with more marked actions than the initial rank therefore passes
through a state where `waiting` has ended. -/
theorem exists_leaves {waiting : State → Prop} (rank : State → Nat) (marked : Act → Bool)
    (hStep : ∀ before act after, waiting before → guard before act →
      step before act = some after → waiting after →
      rank after + (if marked act then 1 else 0) ≤ rank before)
    {s t : State} {acts : List Act} (run : Run step guard s acts t)
    (hEnough : rank s < acts.countP marked) :
    ∃ first second middle, acts = first ++ second ∧
      Run step guard s first middle ∧ ¬ waiting middle := by
  have hBound : (∃ first second middle, acts = first ++ second ∧
      Run step guard s first middle ∧ ¬ waiting middle) ∨
      (waiting t ∧ rank t + acts.countP marked ≤ rank s) := by
    clear hEnough
    induction run with
    | nil =>
        by_cases hs : waiting s
        · exact Or.inr ⟨hs, by simp⟩
        · exact Or.inl ⟨[], [], s, rfl, nil s, hs⟩
    | @snoc t u acts act prior meets last ih =>
        rcases ih with ⟨first, second, middle, rfl, hFirst, hLeft⟩ | ⟨ht, hRank⟩
        · exact Or.inl ⟨first, second ++ [act], middle, by simp, hFirst, hLeft⟩
        · by_cases hu : waiting u
          · have hOne := hStep t act u ht meets last hu
            refine Or.inr ⟨hu, ?_⟩
            simp only [List.countP_append, List.countP_singleton]
            omega
          · exact Or.inl ⟨acts ++ [act], [], u, by simp, snoc prior meets last, hu⟩
  rcases hBound with hFound | ⟨_, hRank⟩
  · exact hFound
  · omega

end Run

/-- Execute a list of actions; `none` records the first disabled action. -/
def exec (step : State → Act → Option State) : State → List Act → Option State
  | s, [] => some s
  | s, act :: acts => (step s act).bind fun t => exec step t acts

/-- Execute a list of actions and check the guard before each of them. -/
def execGuarded (step : State → Act → Option State) (guard : State → Act → Prop)
    [∀ s act, Decidable (guard s act)] : State → List Act → Option State
  | s, [] => some s
  | s, act :: acts =>
      if guard s act then (step s act).bind fun t => execGuarded step guard t acts else none

theorem Run.of_execGuarded {step : State → Act → Option State} {guard : State → Act → Prop}
    [∀ s act, Decidable (guard s act)] {s t : State} {acts : List Act}
    (hExec : execGuarded step guard s acts = some t) : Run step guard s acts t := by
  induction acts generalizing s with
  | nil =>
      obtain rfl : s = t := by simpa [execGuarded] using hExec
      exact Run.nil s
  | cons act acts ih =>
      simp only [execGuarded] at hExec
      split_ifs at hExec with hGuard
      cases hStep : step s act with
      | none => simp [hStep] at hExec
      | some u =>
          simp only [hStep, Option.bind_some] at hExec
          exact Run.cons hGuard hStep (ih hExec)

/-- An executed list of actions is a run without a guard. -/
theorem Run.of_exec {step : State → Act → Option State} {s t : State} {acts : List Act}
    (hExec : exec step s acts = some t) : Run step unguarded s acts t := by
  induction acts generalizing s with
  | nil =>
      obtain rfl : s = t := by simpa [exec] using hExec
      exact Run.nil s
  | cons act acts ih =>
      cases hStep : step s act with
      | none => simp [exec, hStep] at hExec
      | some u =>
          simp only [exec, hStep, Option.bind_some] at hExec
          exact Run.cons trivial hStep (ih hExec)

theorem exists_of_any {found : Option State} (holds : State → Prop) [DecidablePred holds]
    (hAny : found.any (fun t => decide (holds t)) = true) : ∃ t, found = some t ∧ holds t := by
  cases found with
  | none => simp at hAny
  | some t => exact ⟨t, rfl, by simpa using hAny⟩

/-- A run found by evaluation, with what its last state satisfies. -/
theorem Run.exists_of_exec {step : State → Act → Option State} {s : State} {acts : List Act}
    (holds : State → Prop) [DecidablePred holds]
    (hAny : (exec step s acts).any (fun t => decide (holds t)) = true) :
    ∃ t, Run step unguarded s acts t ∧ holds t := by
  obtain ⟨t, hExec, hHolds⟩ := exists_of_any holds hAny
  exact ⟨t, Run.of_exec hExec, hHolds⟩

theorem Run.exists_of_execGuarded {step : State → Act → Option State}
    {guard : State → Act → Prop} [∀ s act, Decidable (guard s act)] {s : State} {acts : List Act}
    (holds : State → Prop) [DecidablePred holds]
    (hAny : (execGuarded step guard s acts).any (fun t => decide (holds t)) = true) :
    ∃ t, Run step guard s acts t ∧ holds t := by
  obtain ⟨t, hExec, hHolds⟩ := exists_of_any holds hAny
  exact ⟨t, Run.of_execGuarded hExec, hHolds⟩

end Meet
