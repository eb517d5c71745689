import Meet.Common.LinkedMap
import Meet.DiskLruCache.Basic
import Meet.DiskLruCache.StrictLineReader

/-! The journal of `DiskLruCache.java`: its lines, how they are written, and how they are
read when a cache is opened. -/
namespace Meet.DiskLruCache.Journal
open LinkedMap

/-! ### Numbers -/

/-- `Long.toString`. -/
def longText (n : Int) : List Char :=
  if n < 0 then '-' :: Nat.toDigits 10 n.natAbs else Nat.toDigits 10 n.natAbs

def parseDigits (digits : List Char) : Option Nat :=
  if digits ≠ [] ∧ digits.all Char.isDigit then some (Nat.ofDigitChars 10 digits 0) else none

/-- A number that a `long` holds. -/
def toLong (value : Int) : Option Int64 :=
  if Int64.minValue.toInt ≤ value ∧ value ≤ Int64.maxValue.toInt then some (Int64.ofInt value)
  else none

/-- `Long.parseLong`, or `none` where it throws. -/
def parseLong : List Char → Option Int64
  | '-' :: digits => (parseDigits digits).bind fun n => toLong (-n)
  | '+' :: digits => (parseDigits digits).bind fun n => toLong n
  | digits => (parseDigits digits).bind fun n => toLong n

theorem parseDigits_toDigits (n : Nat) : parseDigits (Nat.toDigits 10 n) = some n := by
  have hDigits : (Nat.toDigits 10 n).all Char.isDigit = true := by
    apply List.all_eq_true.mpr
    intro c hMem
    exact Nat.isDigit_of_mem_toDigits (by decide) (by decide) hMem
  rw [parseDigits, if_pos ⟨Nat.toDigits_ne_nil, hDigits⟩, Nat.ofDigitChars_ten_toDigits]

theorem toLong_toInt (n : Int64) : toLong n.toInt = some n := by
  have hLow : Int64.minValue.toInt ≤ n.toInt := n.minValue_le_toInt
  have hHigh : n.toInt ≤ Int64.maxValue.toInt := n.toInt_le
  rw [toLong, if_pos ⟨hLow, hHigh⟩, Int64.ofInt_toInt]

/-- A text of digits has no sign. -/
theorem parseLong_toDigits (n : Nat) : parseLong (Nat.toDigits 10 n) = toLong n := by
  have hDigit : ∀ c ∈ Nat.toDigits 10 n, c.isDigit = true := fun c hMem =>
    Nat.isDigit_of_mem_toDigits (by decide) (by decide) hMem
  have hParsed := parseDigits_toDigits n
  unfold parseLong
  split
  · rename_i digits hText
    exact absurd (hDigit '-' (by simp [hText])) (by decide)
  · rename_i digits hText
    exact absurd (hDigit '+' (by simp [hText])) (by decide)
  · rw [hParsed, Option.bind_some]

theorem parseLong_longText (n : Int64) : parseLong (longText n.toInt) = some n := by
  by_cases hSign : n.toInt < 0
  · rw [longText, if_pos hSign, parseLong, parseDigits_toDigits, Option.bind_some]
    rw [show -(n.toInt.natAbs : Int) = n.toInt by omega, toLong_toInt]
  · rw [longText, if_neg hSign, parseLong_toDigits]
    rw [show (n.toInt.natAbs : Int) = n.toInt by omega, toLong_toInt]

theorem mem_longText {n : Int} {c : Char} (hMem : c ∈ longText n) : c = '-' ∨ c.isDigit = true := by
  have hDigit : ∀ c ∈ Nat.toDigits 10 n.natAbs, c.isDigit = true := fun c hMem =>
    Nat.isDigit_of_mem_toDigits (by decide) (by decide) hMem
  unfold longText at hMem
  split at hMem
  · cases List.mem_cons.mp hMem with
    | inl hMinus => exact Or.inl hMinus
    | inr hMem => exact Or.inr (hDigit c hMem)
  · exact Or.inr (hDigit c hMem)

theorem longText_ne_nil (n : Int) : longText n ≠ [] := by
  unfold longText
  split
  · simp
  · exact Nat.toDigits_ne_nil

/-! ### Lines -/

/-- An edit in progress. Its number tells it from the other edits of the cache. -/
structure Editor where
  number : Nat
  written : Option (List Bool)
  hasErrors : Bool
deriving DecidableEq, Repr

/-- The key of an entry is that of the map. -/
structure Entry where
  lengths : List Int64
  readable : Bool
  currentEditor : Option Editor
  sequenceNumber : Nat
deriving DecidableEq, Repr

abbrev Entries := List (Key × Entry)

/-- `new Entry`. -/
def Entry.new (valueCount : Nat) : Entry := ⟨List.replicate valueCount 0, false, none, 0⟩

/-- `new Editor` of an entry. -/
def Editor.new (valueCount : Nat) (number : Nat) (entry : Entry) : Editor :=
  ⟨number, if entry.readable then none else some (List.replicate valueCount false), false⟩

def CLEAN : List Char := ['C', 'L', 'E', 'A', 'N']

def DIRTY : List Char := ['D', 'I', 'R', 'T', 'Y']

def REMOVE : List Char := ['R', 'E', 'M', 'O', 'V', 'E']

def READ : List Char := ['R', 'E', 'A', 'D']

inductive Line where
  | clean (key : Key) (lengths : List Int64)
  | dirty (key : Key)
  | remove (key : Key)
  | read (key : Key)
deriving DecidableEq, Repr

/-- `getLengths`. -/
def getLengths (lengths : List Int64) : List Char :=
  lengths.flatMap fun n => ' ' :: longText n.toInt

/-- What is written of a line before the line end. -/
def Line.text : Line → List Char
  | .clean key lengths => CLEAN ++ ' ' :: key ++ getLengths lengths
  | .dirty key => DIRTY ++ ' ' :: key
  | .remove key => REMOVE ++ ' ' :: key
  | .read key => READ ++ ' ' :: key

/-- `String.split` at blanks. Empty parts at the end are dropped, unless there is no blank. -/
def split (text : List Char) : List (List Char) :=
  if ' ' ∈ text then ((text.splitOn ' ').reverse.dropWhile List.isEmpty).reverse else [text]

/-- `setLengths`. -/
def setLengths (valueCount : Nat) (strings : List (List Char)) : Option (List Int64) :=
  if strings.length ≠ valueCount then none else strings.mapM parseLong

/-- `lruEntries.get`, and the `put` of a new entry where there is none. -/
def getOrPut (valueCount : Nat) (entries : Entries) (key : Key) : Entries :=
  match find entries key with
  | some _ => touch entries key
  | none => put entries key (Entry.new valueCount)

/-- `readJournalLine`, or `none` where it throws. -/
def readJournalLine (valueCount : Nat) (entries : Entries) (line : List Char) : Option Entries :=
  match line.findIdx? fun c => c = ' ' with
  | none => none
  | some firstSpace =>
      let behind := line.drop (firstSpace + 1)
      let secondSpace := behind.findIdx? fun c => c = ' '
      let key := match secondSpace with
        | none => behind
        | some n => behind.take n
      if secondSpace = none ∧ firstSpace = REMOVE.length ∧ REMOVE.isPrefixOf line then
        some (erase entries key)
      else
        let entries := getOrPut valueCount entries key
        match secondSpace with
        | some n =>
            if firstSpace = CLEAN.length ∧ CLEAN.isPrefixOf line then
              (setLengths valueCount (split (behind.drop (n + 1)))).map fun lengths =>
                modify entries key fun e =>
                  { e with readable := true, currentEditor := none, lengths := lengths }
            else none
        | none =>
            if firstSpace = DIRTY.length ∧ DIRTY.isPrefixOf line then
              some (modify entries key fun e =>
                { e with currentEditor := some (Editor.new valueCount 0 e) })
            else if firstSpace = READ.length ∧ READ.isPrefixOf line then some entries
            else none

/-- What a line says of the entries. -/
def Line.apply (valueCount : Nat) (entries : Entries) : Line → Entries
  | .clean key lengths =>
      modify (getOrPut valueCount entries key) key fun e =>
        { e with readable := true, currentEditor := none, lengths := lengths }
  | .dirty key =>
      modify (getOrPut valueCount entries key) key fun e =>
        { e with currentEditor := some (Editor.new valueCount 0 e) }
  | .remove key => erase entries key
  | .read key => getOrPut valueCount entries key

/-- `validateKey` throws for other keys. -/
def validateKey (key : Key) : Bool := !(key.contains ' ' || key.contains '\n' || key.contains '\r')

/-- A text of ASCII characters. -/
def Ascii (text : List Char) : Prop := ∀ c ∈ text, c.toNat < 128

instance (text : List Char) : Decidable (Ascii text) :=
  List.decidableBAll (fun c : Char => c.toNat < 128) text

def Line.key : Line → Key
  | .clean key _ | .dirty key | .remove key | .read key => key

/-- A line with a plain key, and with the lengths of all values of it. -/
structure Line.Plain (valueCount : Nat) (line : Line) : Prop where
  valid : validateKey line.key = true
  ascii : Ascii line.key
  count : ∀ key lengths, line = .clean key lengths → lengths.length = valueCount

/-! ### Lines are read back -/

theorem findIdx_blank {word : List Char} (hWord : ' ' ∉ word) (rest : List Char) :
    (word ++ ' ' :: rest).findIdx? (fun c => decide (c = ' ')) = some word.length := by
  induction word with
  | nil => rfl
  | cons c word ih =>
      rw [List.mem_cons, not_or] at hWord
      have hNe : c ≠ ' ' := fun hEq => hWord.1 hEq.symm
      rw [List.cons_append, List.findIdx?_cons, if_neg (by simpa using hNe), ih hWord.2]
      rfl

theorem findIdx_of_notMem {word : List Char} (hWord : ' ' ∉ word) :
    word.findIdx? (fun c => decide (c = ' ')) = none := by
  apply List.findIdx?_eq_none_iff.mpr
  intro c hMem
  have hNe : c ≠ ' ' := fun hEq => hWord (hEq ▸ hMem)
  simpa using hNe

theorem validateKey_iff {key : Key} :
    validateKey key = true ↔ ' ' ∉ key ∧ '\n' ∉ key ∧ '\r' ∉ key := by
  simp [validateKey, and_assoc]

/-- A text of a word and a key with no blank in them. -/
theorem drop_word (word rest : List Char) : (word ++ ' ' :: rest).drop (word.length + 1) = rest := by
  have hFirst : (word ++ ' ' :: rest).drop word.length = ' ' :: rest := List.drop_left
  rw [← List.drop_drop, hFirst]
  rfl

theorem blank_notMem_longText (n : Int) : ' ' ∉ longText n := by
  intro hMem
  cases mem_longText hMem with
  | inl hMinus => exact absurd hMinus (by decide)
  | inr hDigit => exact absurd hDigit (by decide)

/-- The lengths behind the blank, as `split` parts them. -/
theorem splitOn_lengths (n : Int64) (ns : List Int64) :
    (longText n.toInt ++ getLengths ns).splitOn ' ' = (n :: ns).map fun n => longText n.toInt := by
  induction ns generalizing n with
  | nil =>
      rw [getLengths, List.flatMap_nil, List.append_nil]
      exact List.splitOn_eq_singleton (blank_notMem_longText _)
  | cons m ns ih =>
      rw [getLengths, List.flatMap_cons, List.cons_append]
      rw [List.splitOn_append_cons_self_of_not_mem (blank_notMem_longText _)]
      have hRest := ih m
      rw [getLengths] at hRest
      rw [hRest]
      rfl

/-- Nothing is dropped where the last part is not empty. -/
theorem split_eq_splitOn {text : List Char}
    (hLast : ∀ part, (text.splitOn ' ').getLast? = some part → part ≠ []) :
    split text = text.splitOn ' ' := by
  unfold split
  split
  · have hNone : (text.splitOn ' ').reverse.dropWhile List.isEmpty =
        (text.splitOn ' ').reverse := by
      cases hReverse : (text.splitOn ' ').reverse with
      | nil => rfl
      | cons part parts =>
          have hPart : (text.splitOn ' ').getLast? = some part := by
            rw [← List.head?_reverse, hReverse]
            rfl
          rw [List.dropWhile_cons_of_neg]
          simpa using hLast part hPart
    rw [hNone, List.reverse_reverse]
  · rename_i hBlank
    exact (List.splitOn_eq_singleton hBlank).symm

theorem setLengths_text (n : Int64) (ns : List Int64) :
    setLengths (n :: ns).length (split (longText n.toInt ++ getLengths ns)) = some (n :: ns) := by
  have hParts := splitOn_lengths n ns
  rw [split_eq_splitOn, hParts, setLengths, if_neg (by simp)]
  · generalize n :: ns = all
    induction all with
    | nil => rfl
    | cons m all ih =>
        rw [List.map_cons, List.mapM_cons, parseLong_longText, ih]
        rfl
  · rw [hParts]
    intro part hLast
    obtain ⟨m, -, rfl⟩ := List.mem_map.mp (List.mem_of_getLast? hLast)
    exact longText_ne_nil _

/-- A written line is read as what it says. -/
theorem readJournalLine_text {valueCount : Nat} (hCount : 0 < valueCount) {line : Line}
    (hLine : line.Plain valueCount) (entries : Entries) :
    readJournalLine valueCount entries line.text = some (line.apply valueCount entries) := by
  cases line with
  | clean key lengths =>
      have hKey : ' ' ∉ key := (validateKey_iff.mp hLine.valid).1
      have hLength := hLine.count key lengths rfl
      cases lengths with
      | nil => simp at hLength; omega
      | cons n ns =>
          have hText : (Line.clean key (n :: ns)).text =
              CLEAN ++ ' ' :: (key ++ ' ' :: (longText n.toInt ++ getLengths ns)) := by
            simp [Line.text, getLengths]
          have hTake : (key ++ ' ' :: (longText n.toInt ++ getLengths ns)).take key.length = key :=
            List.take_left
          simp only [readJournalLine, hText, findIdx_blank (show ' ' ∉ CLEAN by decide), drop_word,
            findIdx_blank hKey, hTake, ← hLength, setLengths_text]
          simp [CLEAN, Line.apply]
  | dirty key =>
      have hKey : ' ' ∉ key := (validateKey_iff.mp hLine.valid).1
      simp only [readJournalLine, Line.text, findIdx_blank (show ' ' ∉ DIRTY by decide), drop_word,
        findIdx_of_notMem hKey]
      simp [DIRTY, REMOVE, Line.apply]
  | remove key =>
      have hKey : ' ' ∉ key := (validateKey_iff.mp hLine.valid).1
      simp only [readJournalLine, Line.text, findIdx_blank (show ' ' ∉ REMOVE by decide), drop_word,
        findIdx_of_notMem hKey]
      simp [REMOVE, Line.apply]
  | read key =>
      have hKey : ' ' ∉ key := (validateKey_iff.mp hLine.valid).1
      simp only [readJournalLine, Line.text, findIdx_blank (show ' ' ∉ READ by decide), drop_word,
        findIdx_of_notMem hKey]
      simp [READ, REMOVE, DIRTY, Line.apply]

end Meet.DiskLruCache.Journal
