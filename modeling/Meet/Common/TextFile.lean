import Mathlib.Data.List.Basic
import Mathlib.Tactic.SplitIfs

/-! Files that are read and written at positions, and texts of UTF-16 code units that are
written to them as UTF-8. -/
namespace Meet.TextFile

/-! ### Positions -/

section
variable {α β : Type} (blank : α)

/-- Write at a position. A position beyond the end first extends the file with blanks. -/
def overwrite (content : List α) (pos : Nat) (text : List α) : List α :=
  content.take pos ++ List.replicate (pos - content.length) blank ++ text
    ++ content.drop (pos + text.length)

/-- Read at a position into an array of blanks. -/
def readAt (content : List α) (pos size : Nat) : List α :=
  (content.drop pos).take size ++
    List.replicate (size - ((content.drop pos).take size).length) blank

theorem length_overwrite (content : List α) (pos : Nat) (text : List α) :
    (overwrite blank content pos text).length = max content.length (pos + text.length) := by
  simp only [overwrite, List.length_append, List.length_take, List.length_replicate,
    List.length_drop]
  omega

theorem length_readAt (content : List α) (pos size : Nat) :
    (readAt blank content pos size).length = size := by
  simp only [readAt, List.length_append, List.length_take, List.length_replicate, List.length_drop]
  omega

theorem mem_overwrite {content text : List α} {pos : Nat} {a : α}
    (hMem : a ∈ overwrite blank content pos text) (hInside : pos ≤ content.length) :
    a ∈ content ∨ a ∈ text := by
  simp only [overwrite, Nat.sub_eq_zero_of_le hInside, List.replicate_zero, List.append_nil,
    List.mem_append] at hMem
  rcases hMem with (hFront | hText) | hBack
  · exact Or.inl (List.mem_of_mem_take hFront)
  · exact Or.inr hText
  · exact Or.inl (List.mem_of_mem_drop hBack)

/-- A position beyond the end leaves a gap. -/
theorem blank_mem_overwrite {content text : List α} {pos : Nat} (hBeyond : content.length < pos) :
    blank ∈ overwrite blank content pos text := by
  have hGap : blank ∈ List.replicate (pos - content.length) blank :=
    List.mem_replicate.mpr ⟨by omega, rfl⟩
  simp only [overwrite, List.mem_append]
  exact Or.inl (Or.inl (Or.inr hGap))

theorem mem_readAt {content : List α} {pos size : Nat} {a : α}
    (hMem : a ∈ readAt blank content pos size) : a ∈ content ∨ a = blank := by
  rcases List.mem_append.mp hMem with hRead | hBlank
  · exact Or.inl (List.mem_of_mem_drop (List.mem_of_mem_take hRead))
  · exact Or.inr (List.eq_of_mem_replicate hBlank)

theorem map_overwrite (f : α → β) (content : List α) (pos : Nat) (text : List α) :
    (overwrite blank content pos text).map f =
      overwrite (f blank) (content.map f) pos (text.map f) := by
  simp [overwrite, List.map_take, List.map_drop]

theorem map_readAt (f : α → β) (content : List α) (pos size : Nat) :
    (readAt blank content pos size).map f = readAt (f blank) (content.map f) pos size := by
  simp [readAt, List.map_take, List.map_drop]

end

/-! ### Texts -/

/-- A code unit that is half of a pair. -/
def isHigh (u : UInt16) : Bool := 0xD800 ≤ u && u < 0xDC00

def isLow (u : UInt16) : Bool := 0xDC00 ≤ u && u < 0xE000

def byte (n : Nat) : UInt8 := UInt8.ofNat n

/-- The bytes of a code point above the basic plane. -/
def encodePair (high low : UInt16) : List UInt8 :=
  let n := 0x10000 + (high.toNat - 0xD800) * 0x400 + (low.toNat - 0xDC00)
  [byte (0xF0 + n / 0x40000), byte (0x80 + n / 0x1000 % 0x40), byte (0x80 + n / 0x40 % 0x40),
    byte (0x80 + n % 0x40)]

/-- The bytes of a single unit. Half a pair on its own becomes a question mark. -/
def encodeUnit (u : UInt16) : List UInt8 :=
  if isHigh u || isLow u then [0x3F]
  else if u.toNat < 0x80 then [byte u.toNat]
  else if u.toNat < 0x800 then [byte (0xC0 + u.toNat / 0x40), byte (0x80 + u.toNat % 0x40)]
  else [byte (0xE0 + u.toNat / 0x1000), byte (0x80 + u.toNat / 0x40 % 0x40),
    byte (0x80 + u.toNat % 0x40)]

/-- A text as UTF-8. -/
def encode : List UInt16 → List UInt8
  | [] => []
  | [u] => encodeUnit u
  | u :: v :: rest =>
      if isHigh u && isLow v then encodePair u v ++ encode rest
      else encodeUnit u ++ encode (v :: rest)

def Ascii (text : List UInt16) : Prop := ∀ u ∈ text, u.toNat < 0x80

theorem isHigh_of_ascii {u : UInt16} (hUnit : u.toNat < 0x80) : isHigh u = false := by
  simp only [isHigh, Bool.and_eq_false_iff, decide_eq_false_iff_not, UInt16.le_iff_toNat_le]
  left
  simp only [UInt16.toNat_ofNat]
  omega

theorem isLow_of_ascii {u : UInt16} (hUnit : u.toNat < 0x80) : isLow u = false := by
  simp only [isLow, Bool.and_eq_false_iff, decide_eq_false_iff_not, UInt16.le_iff_toNat_le]
  left
  simp only [UInt16.toNat_ofNat]
  omega

theorem encodeUnit_of_ascii {u : UInt16} (hUnit : u.toNat < 0x80) :
    encodeUnit u = [byte u.toNat] := by
  simp [encodeUnit, isHigh_of_ascii hUnit, isLow_of_ascii hUnit, hUnit]

/-- A text of ASCII characters has a byte for each of them. -/
theorem encode_of_ascii {text : List UInt16} (hText : Ascii text) :
    encode text = text.map fun u => byte u.toNat := by
  induction text with
  | nil => rfl
  | cons u rest ih =>
      have hUnit := hText u (by simp)
      have hRest := ih fun v hMem => hText v (by simp [hMem])
      cases rest with
      | nil => simp [encode, encodeUnit_of_ascii hUnit]
      | cons v rest =>
          simp only [encode, isHigh_of_ascii hUnit, Bool.false_and, Bool.false_eq_true, if_false,
            encodeUnit_of_ascii hUnit, hRest]
          rfl

end Meet.TextFile
