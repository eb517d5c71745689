import Mathlib.Data.List.Basic

/-! Texts of lines that end with a stop. What follows the last stop is no line. Nothing here
depends on what the lines say. -/
namespace Meet.Lines

variable {α : Type} [DecidableEq α] (stop : α)

/-- The lines of a text, each without its stop. -/
def complete (text : List α) : List (List α) := (text.splitOn stop).dropLast

/-- Lines written one behind the other. -/
def join (lines : List (List α)) : List α := lines.flatMap fun line => line ++ [stop]

variable {stop}

theorem complete_of_notMem {text : List α} (hOpen : stop ∉ text) : complete stop text = [] := by
  rw [complete, List.splitOn_eq_singleton hOpen]
  rfl

theorem complete_line {line : List α} (hLine : stop ∉ line) (rest : List α) :
    complete stop (line ++ stop :: rest) = line :: complete stop rest := by
  rw [complete, List.splitOn_append_cons_self_of_not_mem hLine, List.dropLast_cons_of_ne_nil]
  · rfl
  · exact List.splitOn_ne_nil stop rest

omit [DecidableEq α] in
/-- The first stop of a text lies behind any text that has none. -/
theorem line_cases {head text line rest : List α} (hHead : stop ∉ head)
    (hText : head ++ text = line ++ stop :: rest) :
    ∃ more, line = head ++ more ∧ text = more ++ stop :: rest := by
  cases List.append_eq_append_iff.mp hText with
  | inl hLonger => exact hLonger
  | inr hShorter =>
      obtain ⟨more, hEq, hCons⟩ := hShorter
      cases more with
      | nil => exact ⟨[], by simpa using hEq.symm, by simpa using hCons.symm⟩
      | cons first more =>
          rw [List.cons_append, List.cons.injEq] at hCons
          exact absurd (by simp [hEq, hCons.1]) hHead

omit [DecidableEq α] in
theorem line_unique {head tail line rest : List α} (hHead : stop ∉ head) (hLine : stop ∉ line)
    (hText : head ++ stop :: tail = line ++ stop :: rest) : head = line ∧ tail = rest := by
  obtain ⟨more, rfl, hMore⟩ := line_cases hHead hText
  cases more with
  | nil => exact ⟨by simp, by simpa using hMore⟩
  | cons first more =>
      rw [List.cons_append, List.cons.injEq] at hMore
      exact absurd (by simp [hMore.1]) hLine

variable (stop) in
/-- A text is a rest without a stop, or a line before a shorter text. -/
theorem induction_lines {motive : List α → Prop}
    (hOpen : ∀ text, stop ∉ text → motive text)
    (hLine : ∀ line rest, stop ∉ line → motive rest → motive (line ++ stop :: rest))
    (text : List α) : motive text := by
  induction hLength : text.length using Nat.strongRecOn generalizing text with
  | ind n ih =>
      by_cases hMem : stop ∈ text
      · obtain ⟨line, rest, rfl, hLine'⟩ := List.eq_append_cons_of_mem hMem
        apply hLine line rest hLine'
        apply ih rest.length _ rest rfl
        simp only [List.length_append, List.length_cons] at hLength
        omega
      · exact hOpen text hMem

theorem complete_join_append {lines : List (List α)} (hLines : ∀ line ∈ lines, stop ∉ line)
    (rest : List α) :
    complete stop (join stop lines ++ rest) = lines ++ complete stop rest := by
  induction lines with
  | nil => rfl
  | cons line more ih =>
      have hMore := ih fun l hMem => hLines l (List.mem_cons_of_mem line hMem)
      have hText : join stop (line :: more) ++ rest =
          line ++ stop :: (join stop more ++ rest) := by
        simp [join]
      rw [hText, complete_line (hLines line List.mem_cons_self), hMore]
      rfl

omit [DecidableEq α] in
/-- What is left of lines after a cut: the first of them, and the beginning of the next. -/
theorem join_cut {lines : List (List α)} (hLines : ∀ line ∈ lines, stop ∉ line) {text : List α}
    (hCut : text <+: join stop lines) :
    ∃ kept torn, kept <+: lines ∧ text = join stop kept ++ torn ∧ stop ∉ torn := by
  induction lines generalizing text with
  | nil =>
      obtain rfl : text = [] := List.prefix_nil.mp hCut
      exact ⟨[], [], List.nil_prefix, rfl, List.not_mem_nil⟩
  | cons line more ih =>
      have hJoin : join stop (line :: more) = (line ++ [stop]) ++ join stop more := by
        simp [join]
      rw [hJoin] at hCut
      rcases List.prefix_or_prefix_of_prefix hCut (List.prefix_append _ _) with hShort | hLong
      · rcases List.prefix_concat_iff.mp hShort with rfl | hInside
        · exact ⟨[line], [], by simp, by simp [join], List.not_mem_nil⟩
        · refine ⟨[], text, List.nil_prefix, rfl, ?_⟩
          intro hMem
          exact hLines line List.mem_cons_self (hInside.subset hMem)
      · obtain ⟨rest, rfl⟩ := hLong
        have hRest : rest <+: join stop more := (List.prefix_append_right_inj _).mp hCut
        obtain ⟨kept, torn, hKept, rfl, hTorn⟩ :=
          ih (fun l hMem => hLines l (List.mem_cons_of_mem line hMem)) hRest
        refine ⟨line :: kept, torn, (List.prefix_cons_inj line).mpr hKept, ?_, hTorn⟩
        simp [join]

omit [DecidableEq α] in
theorem join_append (lines more : List (List α)) :
    join stop (lines ++ more) = join stop lines ++ join stop more := by
  simp [join]

end Meet.Lines
