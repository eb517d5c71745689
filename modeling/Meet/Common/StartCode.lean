import Mathlib.Data.List.Infix

/-! Byte streams in which every unit follows a start code, `00 00 00 01` for the first
unit and `00 00 01` for the others. Nothing escapes a start code inside a unit, so the
units can be told apart only where they hold none. -/
namespace Meet.StartCode

/-- The stream of the units, in order. -/
def join : List (List UInt8) → List UInt8
  | [] => []
  | first :: rest => [0, 0, 0, 1] ++ first ++ rest.flatMap fun unit => [0, 0, 1] ++ unit

/-- The bytes before the first start code, and the units behind each. -/
def split : List UInt8 → List UInt8 × List (List UInt8)
  | [] => ([], [])
  | 0 :: 0 :: 0 :: 1 :: rest => ([], (split rest).1 :: (split rest).2)
  | 0 :: 0 :: 1 :: rest => ([], (split rest).1 :: (split rest).2)
  | byte :: rest => (byte :: (split rest).1, (split rest).2)

/-- A unit that holds no start code, nor the begin of one at its end. -/
structure Escaped (unit : List UInt8) : Prop where
  noZeros : ¬ [0, 0, 0] <:+: unit
  noCode : ¬ [0, 0, 1] <:+: unit
  last : unit.getLast? ≠ some 0

theorem join_snoc {units : List (List UInt8)} (unit : List UInt8) :
    join (units ++ [unit]) =
      join units ++ (if units = [] then [0, 0, 0, 1] else [0, 0, 1]) ++ unit := by
  cases units with
  | nil => simp [join]
  | cons first rest => simp [join]

theorem length_join (units : List (List UInt8)) :
    (join units).length =
      units.flatten.length + 3 * units.length + (if units = [] then 0 else 1) := by
  induction units using List.reverseRecOn with
  | nil => rfl
  | append_singleton units unit ih =>
      rw [join_snoc, List.length_append, List.length_append, ih]
      by_cases hFirst : units = []
      · simp [hFirst]
        omega
      · simp [hFirst]
        omega

theorem Escaped.tail {byte : UInt8} {unit : List UInt8} (h : Escaped (byte :: unit)) :
    Escaped unit := by
  refine ⟨fun hInfix => h.noZeros (hInfix.trans (List.suffix_cons _ _).isInfix),
    fun hInfix => h.noCode (hInfix.trans (List.suffix_cons _ _).isInfix), ?_⟩
  intro hLast
  cases unit with
  | nil => cases hLast
  | cons next rest => exact h.last (by simpa using hLast)

theorem split_code (rest : List UInt8) :
    split (0 :: 0 :: 1 :: rest) = ([], (split rest).1 :: (split rest).2) := by
  rw [split]

/-- Bytes that begin no start code. -/
theorem split_cons {byte : UInt8} {rest : List UInt8} (hLong : ¬ [0, 0, 0, 1] <+: byte :: rest)
    (hShort : ¬ [0, 0, 1] <+: byte :: rest) :
    split (byte :: rest) = (byte :: (split rest).1, (split rest).2) := by
  rw [split]
  · rintro more rfl rfl
    exact hLong ⟨more, rfl⟩
  · rintro more rfl rfl
    exact hShort ⟨more, rfl⟩

theorem Escaped.not_code {byte : UInt8} {unit stream : List UInt8} (h : Escaped (byte :: unit)) :
    ¬ [0, 0, 1] <+: byte :: unit ++ stream := by
  rintro ⟨more, hMore⟩
  match unit with
  | [] =>
      obtain ⟨rfl, -⟩ : byte = 0 ∧ _ := by simpa using hMore.symm
      exact h.last rfl
  | [second] =>
      obtain ⟨-, rfl, -⟩ : byte = 0 ∧ second = 0 ∧ _ := by simpa using hMore.symm
      exact h.last rfl
  | second :: third :: rest =>
      obtain ⟨rfl, rfl, rfl, -⟩ : byte = 0 ∧ second = 0 ∧ third = 1 ∧ _ := by
        simpa using hMore.symm
      exact h.noCode ⟨[], rest, rfl⟩

theorem Escaped.not_longCode {byte : UInt8} {unit stream : List UInt8}
    (h : Escaped (byte :: unit)) : ¬ [0, 0, 0, 1] <+: byte :: unit ++ stream := by
  rintro ⟨more, hMore⟩
  match unit with
  | [] =>
      obtain ⟨rfl, -⟩ : byte = 0 ∧ _ := by simpa using hMore.symm
      exact h.last rfl
  | [second] =>
      obtain ⟨-, rfl, -⟩ : byte = 0 ∧ second = 0 ∧ _ := by simpa using hMore.symm
      exact h.last rfl
  | second :: third :: rest =>
      obtain ⟨rfl, rfl, rfl, -⟩ : byte = 0 ∧ second = 0 ∧ third = 0 ∧ _ := by
        simpa using hMore.symm
      exact h.noZeros ⟨[], rest, rfl⟩

/-- A unit without start codes is split off whole. -/
theorem split_append {unit : List UInt8} (h : Escaped unit) (stream : List UInt8) :
    split (unit ++ stream) = (unit ++ (split stream).1, (split stream).2) := by
  induction unit with
  | nil => rfl
  | cons byte unit ih =>
      have hByte : split (byte :: (unit ++ stream)) =
          (byte :: (split (unit ++ stream)).1, (split (unit ++ stream)).2) :=
        split_cons h.not_longCode h.not_code
      rw [List.cons_append, hByte, ih h.tail]
      rfl

theorem split_flatMap {units : List (List UInt8)} (h : ∀ unit ∈ units, Escaped unit) :
    split (units.flatMap fun unit => [0, 0, 1] ++ unit) = ([], units) := by
  induction units with
  | nil => rfl
  | cons unit rest ih =>
      have hRest := ih fun other hMem => h other (List.mem_cons_of_mem _ hMem)
      have hUnit := split_append (h unit List.mem_cons_self)
        (rest.flatMap fun unit => [0, 0, 1] ++ unit)
      rw [hRest, List.append_nil] at hUnit
      simp only [List.flatMap_cons, List.cons_append, List.nil_append]
      rw [split_code]
      simp only [List.cons_append, List.nil_append] at hUnit
      rw [hUnit]

/-- Splitting at the start codes gives the units back. -/
theorem split_join {units : List (List UInt8)} (h : ∀ unit ∈ units, Escaped unit) :
    split (join units) = ([], units) := by
  cases units with
  | nil => rfl
  | cons first rest =>
      have hRest := split_flatMap fun other hMem => h other (List.mem_cons_of_mem first hMem)
      have hFirst := split_append (h first List.mem_cons_self)
        (rest.flatMap fun unit => [0, 0, 1] ++ unit)
      rw [hRest, List.append_nil] at hFirst
      simp only [join, List.cons_append, List.nil_append] at hFirst ⊢
      rw [split, hFirst]

end Meet.StartCode
