import Mathlib.Algebra.GroupWithZero.Nat
import Mathlib.Data.List.Basic

/-! String literals of SQL and lists of them. A literal ends at the first apostrophe that is
not doubled, so a text without apostrophes can be quoted as it is. -/
namespace Meet.SqlText

abbrev Text := List Char

def apostrophe : Char := Char.ofNat 39

/-- A text between apostrophes, as it is. -/
def quote (text : Text) : Text := apostrophe :: (text ++ [apostrophe])

/-- Literals with a comma and a blank between them. -/
def quoteAll : List Text → Text
  | [] => []
  | [text] => quote text
  | text :: rest => quote text ++ [',', ' '] ++ quoteAll rest

/-- Read a literal from behind its first apostrophe on. The result is its value and the
text behind it. -/
def literal : Text → Option (Text × Text)
  | [] => none
  | [c] => if c = apostrophe then some ([], []) else none
  | c :: d :: rest =>
      if c = apostrophe then
        if d = apostrophe then (literal rest).map fun read => (apostrophe :: read.1, read.2)
        else some ([], d :: rest)
      else (literal (d :: rest)).map fun read => (c :: read.1, read.2)

/-- Read literals up to the closing bracket of the list. -/
def literals : Nat → Text → Option (List Text)
  | fuel + 1, c :: rest =>
      if c = apostrophe then
        match literal rest with
        | some (value, [')']) => some [value]
        | some (value, ',' :: ' ' :: more) => (literals fuel more).map (value :: ·)
        | _ => none
      else none
  | _, _ => none

/-- A list of literals behind `head`, which ends with the opening bracket. A zero character
ends the text early, so a text with one is no such list. -/
def readList (head text : Text) : Option (List Text) :=
  if head.isPrefixOf text ∧ Char.ofNat 0 ∉ text then literals text.length (text.drop head.length)
  else none

/-- No apostrophe ends the literal early, and no zero character ends the statement. -/
def Plain (text : Text) : Prop := apostrophe ∉ text ∧ Char.ofNat 0 ∉ text

instance (text : Text) : Decidable (Plain text) := inferInstanceAs (Decidable (_ ∧ _))

theorem literal_plain {text : Text} (hPlain : Plain text) {d : Char} (hNext : d ≠ apostrophe)
    (after : Text) :
    literal (text ++ apostrophe :: d :: after) = some (text, d :: after) := by
  induction text with
  | nil => simp [literal, hNext]
  | cons c rest ih =>
      have hFirst : c ≠ apostrophe := fun hEq => hPlain.1 (by simp [hEq])
      have hRest : Plain rest :=
        ⟨fun hMem => hPlain.1 (by simp [hMem]), fun hMem => hPlain.2 (by simp [hMem])⟩
      have hRead := ih hRest
      cases rest with
      | nil => simp [literal, hFirst, hNext]
      | cons e more =>
          simp only [List.cons_append] at hRead ⊢
          simp only [literal, hFirst, if_false, hRead, Option.map_some]

/-- Plain texts are read back. -/
theorem literals_quoteAll {texts : List Text} (hPlain : ∀ text ∈ texts, Plain text)
    (hSome : texts ≠ []) {fuel : Nat} (hFuel : texts.length ≤ fuel) :
    literals fuel (quoteAll texts ++ [')']) = some texts := by
  induction texts generalizing fuel with
  | nil => exact absurd rfl hSome
  | cons text rest ih =>
      obtain ⟨fuel, rfl⟩ : ∃ n, fuel = n + 1 :=
        ⟨fuel - 1, by simp only [List.length_cons] at hFuel; omega⟩
      have hText := hPlain text List.mem_cons_self
      cases rest with
      | nil =>
          have hRead := literal_plain hText (show ')' ≠ apostrophe by decide) []
          simp [quoteAll, quote, literals, hRead]
      | cons next more =>
          have hLength : (next :: more).length ≤ fuel := by
            simp only [List.length_cons] at hFuel ⊢
            omega
          have hRest := ih (fun t ht => hPlain t (List.mem_cons_of_mem text ht)) (by simp) hLength
          have hRead := literal_plain hText (show ',' ≠ apostrophe by decide)
            (' ' :: (quoteAll (next :: more) ++ [')']))
          have hShape : quoteAll (text :: next :: more) ++ [')'] =
              apostrophe :: (text ++ apostrophe :: ',' :: ' ' :: (quoteAll (next :: more) ++ [')'])) := by
            simp [quoteAll, quote]
          rw [hShape]
          simp only [literals, if_true, hRead, hRest, Option.map_some]

theorem length_le_quoteAll (texts : List Text) : texts.length ≤ (quoteAll texts).length := by
  induction texts with
  | nil => exact Nat.le_refl 0
  | cons text rest ih =>
      cases rest with
      | nil => simp [quoteAll, quote]
      | cons next more =>
          simp only [quoteAll, quote, List.length_append, List.length_cons] at ih ⊢
          omega

theorem zero_notMem_quoteAll {texts : List Text} :
    Char.ofNat 0 ∉ quoteAll texts ↔ ∀ text ∈ texts, Char.ofNat 0 ∉ text := by
  have hQuote : Char.ofNat 0 ≠ apostrophe := by decide
  have hComma : Char.ofNat 0 ≠ ',' := by decide
  have hBlank : Char.ofNat 0 ≠ ' ' := by decide
  induction texts with
  | nil => simp [quoteAll]
  | cons text rest ih =>
      cases rest with
      | nil => simp [quoteAll, quote, hQuote]
      | cons next more =>
          rw [List.forall_mem_cons]
          refine Iff.trans ?_ (and_congr Iff.rfl ih)
          simp [quoteAll, quote, hQuote, hComma, hBlank]

theorem zero_notMem_list {head : Text} (hHead : Char.ofNat 0 ∉ head) (texts : List Text) :
    Char.ofNat 0 ∉ head ++ (quoteAll texts ++ [')']) ↔ ∀ text ∈ texts, Char.ofNat 0 ∉ text := by
  have hBracket : Char.ofNat 0 ≠ ')' := by decide
  rw [← zero_notMem_quoteAll]
  simp [hHead, hBracket]

/-- A list of plain literals is read back behind its head. -/
theorem readList_quoteAll (head : Text) {texts : List Text} (hPlain : ∀ text ∈ texts, Plain text)
    (hHead : Char.ofNat 0 ∉ head) (hSome : texts ≠ []) :
    readList head (head ++ (quoteAll texts ++ [')'])) = some texts := by
  have hLength := length_le_quoteAll texts
  have hZero := (zero_notMem_list hHead texts).mpr fun text hText => (hPlain text hText).2
  simp only [readList, List.isPrefixOf_iff_prefix.mpr (List.prefix_append _ _), hZero, if_true,
    List.drop_left, not_false_eq_true, and_self]
  apply literals_quoteAll hPlain hSome
  simp only [List.length_append]
  omega

/-- The characters that a literal takes: its value with the apostrophes doubled, the two that
enclose it, and the two between it and the next. -/
def size (text : Text) : Nat := text.length + text.count apostrophe + 4

theorem length_literal {text value rest : Text} (hRead : literal text = some (value, rest)) :
    text.length + 3 = size value + rest.length := by
  fun_induction literal text generalizing value rest with
  | case1 => cases hRead
  | case2 => cases hRead; simp [size]
  | case3 => cases hRead
  | case4 rest' ih =>
      obtain ⟨read, hRest, hEq⟩ := Option.map_eq_some_iff.mp hRead
      cases hEq
      have hLength := ih hRest
      simp [size] at hLength ⊢
      omega
  | case5 => cases hRead; simp [size]; omega
  | case6 c d rest' hFirst ih =>
      obtain ⟨read, hRest, hEq⟩ := Option.map_eq_some_iff.mp hRead
      cases hEq
      have hLength := ih hRest
      simp [size, hFirst] at hLength ⊢
      omega

theorem length_literals {fuel : Nat} {text : Text} {values : List Text}
    (hRead : literals fuel text = some values) : text.length + 1 = (values.map size).sum := by
  induction fuel generalizing text values with
  | zero => cases hRead
  | succ fuel ih =>
      cases text with
      | nil => cases hRead
      | cons c rest =>
          simp only [literals] at hRead
          split at hRead
          · split at hRead
            next value hLiteral =>
                cases hRead
                have hLength := length_literal hLiteral
                simp only [List.length_cons, List.length_nil, List.map_cons, List.map_nil,
                  List.sum_cons, List.sum_nil] at hLength ⊢
                omega
            next value more hLiteral =>
                obtain ⟨others, hMore, rfl⟩ := Option.map_eq_some_iff.mp hRead
                have hLength := length_literal hLiteral
                have hRest := ih hMore
                simp only [List.length_cons, List.map_cons, List.sum_cons] at hLength ⊢
                omega
            next => cases hRead
          · cases hRead

theorem length_quoteAll {texts : List Text} (hSome : texts ≠ []) :
    (quoteAll texts).length + 2 + (texts.map (List.count apostrophe)).sum =
      (texts.map size).sum := by
  induction texts with
  | nil => exact absurd rfl hSome
  | cons text rest ih =>
      cases rest with
      | nil =>
          simp [quoteAll, quote, size]
          omega
      | cons next more =>
          have hRest := ih (by simp)
          simp only [quoteAll, quote, List.map_cons, List.sum_cons, List.length_append,
            List.length_cons, List.length_nil] at hRest ⊢
          rw [← hRest, size]
          omega

theorem sum_size_le {texts values : List Text} (hNodup : texts.Nodup) (hCover : texts ⊆ values) :
    (texts.map size).sum ≤ (values.map size).sum := by
  induction texts generalizing values with
  | nil => simp
  | cons text rest ih =>
      obtain ⟨hFresh, hRest⟩ := List.nodup_cons.mp hNodup
      have hPerm := List.perm_cons_erase (hCover (List.mem_cons_self))
      have hLess : (rest.map size).sum ≤ ((values.erase text).map size).sum := by
        refine ih hRest fun other hOther => ?_
        have hOthers : other ∈ text :: values.erase text :=
          hPerm.subset (hCover (List.mem_cons_of_mem text hOther))
        refine (List.mem_cons.mp hOthers).resolve_left fun hSame => ?_
        exact hFresh (hSame ▸ hOther)
      rw [(hPerm.map size).sum_nat]
      simp only [List.map_cons, List.sum_cons]
      omega

/-- A list of texts quoted as they are is read as a list with all of them only if they are plain:
an apostrophe in a value takes two characters of the text. -/
theorem plain_of_readList {head : Text} {texts values : List Text} (hHead : Char.ofNat 0 ∉ head)
    (hSome : texts ≠ []) (hNodup : texts.Nodup) (hCover : texts ⊆ values)
    (hRead : readList head (head ++ (quoteAll texts ++ [')'])) = some values) :
    ∀ text ∈ texts, Plain text := by
  unfold readList at hRead
  split at hRead
  next hList =>
      have hLength := length_literals hRead
      have hQuoted := length_quoteAll hSome
      have hLess := sum_size_le hNodup hCover
      simp only [List.drop_left, List.length_append, List.length_singleton] at hLength
      have hNone : (texts.map (List.count apostrophe)).sum = 0 := by omega
      intro text hText
      have hCount : text.count apostrophe = 0 :=
        List.sum_eq_zero_iff_forall_eq_nat.mp hNone _ (List.mem_map_of_mem hText)
      exact ⟨List.count_eq_zero.mp hCount, (zero_notMem_list hHead texts).mp hList.2 text hText⟩
  next => cases hRead

/-- One more literal at the end. -/
theorem quoteAll_snoc {texts : List Text} (hSome : texts ≠ []) (text : Text) :
    quoteAll (texts ++ [text]) = quoteAll texts ++ [',', ' '] ++ quote text := by
  induction texts with
  | nil => exact absurd rfl hSome
  | cons first rest ih =>
      cases rest with
      | nil => rfl
      | cons next more =>
          have hRest := ih (by simp)
          simp only [List.cons_append] at hRest ⊢
          simp only [quoteAll, hRest, List.append_assoc]

theorem quoteAll_eq_nil {texts : List Text} : quoteAll texts = [] ↔ texts = [] := by
  constructor
  · intro hEmpty
    have hLength := length_le_quoteAll texts
    rw [hEmpty] at hLength
    exact List.eq_nil_of_length_eq_zero (Nat.le_zero.mp hLength)
  · rintro rfl
    rfl

end Meet.SqlText
