import Meet.Common.Lines

/-! `StrictLineReader` of `DiskLruCache.java`. What the stream returns for each read is a
parameter, so a line and its end may lie in any number of reads. -/
namespace Meet.DiskLruCache

def CR : UInt8 := 13

def LF : UInt8 := 10

/-- `new String` in US-ASCII. A byte that is no character of it is replaced. -/
def decode (bytes : List UInt8) : List Char :=
  bytes.map fun b => if b.toNat < 128 then Char.ofNat b.toNat else Char.ofNat 0xFFFD

/-- `buf` are the bytes of the buffer before `end`. The reads to come are in `source`, and
the end of the stream follows them. -/
structure StrictLineReader where
  buf : List UInt8
  pos : Nat
  source : List (List UInt8)
deriving DecidableEq, Repr

namespace StrictLineReader

/-- A new reader has an empty buffer. -/
def new (source : List (List UInt8)) : StrictLineReader := ⟨[], 0, source⟩

/-- `fillBuf`, which throws at the end of the stream. -/
def fillBuf (r : StrictLineReader) : Option StrictLineReader :=
  match r.source with
  | [] => none
  | result :: source => some ⟨result, 0, source⟩

/-- The index of the first line feed, from the first of the bytes on. -/
def findLF (bytes : List UInt8) : Option Nat := bytes.findIdx? fun b => b = LF

def stripCR (bytes : List UInt8) : List UInt8 :=
  if bytes.getLast? = some CR then bytes.dropLast else bytes

/-- The second loop: `out` holds what was read of the line so far. -/
def readOn (out : List UInt8) : List (List UInt8) → Option (List Char × StrictLineReader)
  | [] => none
  | result :: source =>
      match findLF result with
      | some i => some (decode (stripCR (out ++ result.take i)), ⟨result, i + 1, source⟩)
      | none => readOn (out ++ result) source

/-- `readLine`, or `none` where it throws the `EOFException`. -/
def readLine (r : StrictLineReader) : Option (List Char × StrictLineReader) :=
  match if r.buf.length ≤ r.pos then r.fillBuf else some r with
  | none => none
  | some r =>
      match findLF (r.buf.drop r.pos) with
      | some i =>
          some (decode (stripCR ((r.buf.drop r.pos).take i)), { r with pos := r.pos + i + 1 })
      | none => readOn (r.buf.drop r.pos) r.source

/-- The bytes that were not returned yet. -/
def remaining (r : StrictLineReader) : List UInt8 := r.buf.drop r.pos ++ r.source.flatten

/-- Lines until the `EOFException`. -/
def readLines : Nat → StrictLineReader → List (List Char)
  | 0, _ => []
  | fuel + 1, r =>
      match r.readLine with
      | none => []
      | some (line, r) => line :: readLines fuel r

/-- All lines of the stream. Each line takes a byte or more of it. -/
def allLines (r : StrictLineReader) : List (List Char) := r.readLines (r.remaining.length + 1)

/-! ### A line -/

/-- The first line feed parts the bytes before it from the bytes behind it. -/
theorem findLF_eq_some {bytes : List UInt8} {i : Nat} (hFound : findLF bytes = some i) :
    bytes = bytes.take i ++ LF :: bytes.drop (i + 1) ∧ LF ∉ bytes.take i := by
  obtain ⟨hLt, hStop, hBefore⟩ := List.findIdx?_eq_some_iff_getElem.mp hFound
  have hAt : bytes[i] = LF := by simpa using hStop
  constructor
  · rw [← hAt, ← List.drop_eq_getElem_cons hLt, List.take_append_drop]
  · intro hMem
    obtain ⟨j, hj, hEq⟩ := List.getElem_of_mem hMem
    simp only [List.length_take] at hj
    rw [List.getElem_take] at hEq
    exact hBefore j (by omega) (by simpa using hEq)

theorem findLF_eq_none {bytes : List UInt8} (hNone : findLF bytes = none) : LF ∉ bytes := by
  intro hMem
  have hAll := List.findIdx?_eq_none_iff.mp hNone LF hMem
  simp at hAll

/-- A reader that has returned all of its buffer fills it first. -/
theorem fill_cases (r : StrictLineReader) :
    ((if r.buf.length ≤ r.pos then r.fillBuf else some r) = none ∧ r.remaining = []) ∨
      ∃ filled, (if r.buf.length ≤ r.pos then r.fillBuf else some r) = some filled ∧
        filled.remaining = r.remaining := by
  split
  · rename_i hEnd
    have hBuffer : r.buf.drop r.pos = [] := List.drop_eq_nil_of_le hEnd
    cases hSource : r.source with
    | nil => exact Or.inl ⟨by simp only [fillBuf, hSource], by simp [remaining, hBuffer, hSource]⟩
    | cons result source =>
        refine Or.inr ⟨⟨result, 0, source⟩, by simp only [fillBuf, hSource], ?_⟩
        simp [remaining, hBuffer, hSource]
  · exact Or.inr ⟨r, rfl, rfl⟩

section Line

variable {line rest : List UInt8} (hLine : LF ∉ line)
include hLine

/-- Where the bytes before a line feed are the rest of a line, the loop returns the line. -/
theorem readOn_line (out : List UInt8) {source : List (List UInt8)}
    (hSource : source.flatten = line ++ LF :: rest) :
    ∃ r, readOn out source = some (decode (stripCR (out ++ line)), r) ∧ r.remaining = rest := by
  induction source generalizing out line with
  | nil => simp at hSource
  | cons result source ih =>
      rw [List.flatten_cons] at hSource
      cases hFound : findLF result with
      | some i =>
          obtain ⟨hParts, hBefore⟩ := findLF_eq_some hFound
          rw [hParts, List.append_assoc, List.cons_append] at hSource
          obtain ⟨hTake, hRest⟩ := Lines.line_unique hBefore hLine hSource
          refine ⟨⟨result, i + 1, source⟩, ?_, hRest⟩
          simp only [readOn, hFound, hTake]
      | none =>
          obtain ⟨more, hMore, hFlatten⟩ := Lines.line_cases (findLF_eq_none hFound) hSource
          have hMoreLine : LF ∉ more := fun hMem => hLine (by simp [hMore, hMem])
          obtain ⟨r, hRead, hRemaining⟩ := ih hMoreLine (out ++ result) hFlatten
          refine ⟨r, ?_, hRemaining⟩
          simp only [readOn, hFound, hRead, hMore, List.append_assoc]

theorem readLine_line {r : StrictLineReader} (hText : r.remaining = line ++ LF :: rest) :
    ∃ r', r.readLine = some (decode (stripCR line), r') ∧ r'.remaining = rest := by
  rcases r.fill_cases with ⟨-, hEmpty⟩ | ⟨filled, hFilled, hSame⟩
  · simp [hText] at hEmpty
  rw [← hSame, remaining] at hText
  simp only [readLine, hFilled]
  cases hFound : findLF (filled.buf.drop filled.pos) with
  | some i =>
      obtain ⟨hParts, hBefore⟩ := findLF_eq_some hFound
      rw [hParts, List.append_assoc, List.cons_append] at hText
      obtain ⟨hTake, hRest⟩ := Lines.line_unique hBefore hLine hText
      rw [List.drop_drop] at hRest
      exact ⟨{ filled with pos := filled.pos + i + 1 }, by simp only [hTake], hRest⟩
  | none =>
      obtain ⟨more, hMore, hFlatten⟩ := Lines.line_cases (findLF_eq_none hFound) hText
      have hMoreLine : LF ∉ more := fun hMem => hLine (by simp [hMore, hMem])
      rw [hMore]
      exact readOn_line hMoreLine _ hFlatten

end Line

theorem findLF_of_notMem {bytes : List UInt8} (hOpen : LF ∉ bytes) : findLF bytes = none := by
  cases hFound : findLF bytes with
  | none => rfl
  | some i => exact absurd (by rw [(findLF_eq_some hFound).1]; simp) hOpen

theorem readOn_none {source : List (List UInt8)} (hOpen : LF ∉ source.flatten)
    (out : List UInt8) : readOn out source = none := by
  induction source generalizing out with
  | nil => rfl
  | cons result source ih =>
      rw [List.flatten_cons, List.mem_append, not_or] at hOpen
      simp only [readOn, findLF_of_notMem hOpen.1]
      exact ih hOpen.2 (out ++ result)

/-- Bytes without a line feed are no line. -/
theorem readLine_none {r : StrictLineReader} (hOpen : LF ∉ r.remaining) : r.readLine = none := by
  rcases r.fill_cases with ⟨hNone, -⟩ | ⟨filled, hFilled, hSame⟩
  · simp only [readLine, hNone]
  · rw [← hSame, remaining, List.mem_append, not_or] at hOpen
    simp only [readLine, hFilled, findLF_of_notMem hOpen.1]
    exact readOn_none hOpen.2 _

/-! ### All lines -/

theorem readLines_eq (r : StrictLineReader) {fuel : Nat} (hFuel : r.remaining.length < fuel) :
    r.readLines fuel =
      (Lines.complete LF r.remaining).map fun line => decode (stripCR line) := by
  generalize hText : r.remaining = text at hFuel
  induction text using Lines.induction_lines LF generalizing r fuel with
  | hOpen text hOpen =>
      cases fuel with
      | zero => omega
      | succ fuel =>
          rw [Lines.complete_of_notMem hOpen]
          simp only [readLines, readLine_none (hText ▸ hOpen), List.map_nil]
  | hLine line rest hLine ih =>
      cases fuel with
      | zero => omega
      | succ fuel =>
          obtain ⟨r', hRead, hRemaining⟩ := readLine_line hLine hText
          simp only [List.length_append, List.length_cons] at hFuel
          rw [Lines.complete_line hLine]
          simp only [readLines, hRead, List.map_cons]
          rw [ih r' hRemaining (by omega)]

/-- However the reads cut the bytes, the lines are those of the text, each up to its line feed
and without the carriage return before it. Bytes behind the last line feed are dropped. -/
theorem allLines_new (source : List (List UInt8)) :
    (new source).allLines =
      (Lines.complete LF source.flatten).map fun line => decode (stripCR line) := by
  have hRemaining : (new source).remaining = source.flatten := rfl
  rw [allLines, readLines_eq _ (Nat.lt_succ_self _), hRemaining]

end StrictLineReader

end Meet.DiskLruCache
