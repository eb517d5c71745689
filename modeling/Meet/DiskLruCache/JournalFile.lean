import Meet.DiskLruCache.Journal

/-! The journal file: its header and its lines, written in UTF-8 and read as ASCII. -/
namespace Meet.DiskLruCache.Journal
open LinkedMap

/-- What a cache is opened with. `open` throws where one of the last two fields fails. -/
structure Config where
  appVersion : Int
  valueCount : Nat
  maxSize : Int
  valueCount_pos : 0 < valueCount
  maxSize_pos : 0 < maxSize

/-- How `MeetSDK.java` opens the cache of its thumbnails. -/
def thumbnails : Config := ⟨1, 1, 4 * 1024 * 1024, by decide, by decide⟩

def MAGIC : List Char :=
  ['l', 'i', 'b', 'c', 'o', 'r', 'e', '.', 'i', 'o', '.', 'D', 'i', 's', 'k', 'L', 'r', 'u',
    'C', 'a', 'c', 'h', 'e']

def VERSION_1 : List Char := ['1']

def header (cfg : Config) : List (List Char) :=
  [MAGIC, VERSION_1, longText cfg.appVersion, longText cfg.valueCount, []]

/-- The text that is written of a journal. -/
def text (cfg : Config) (lines : List Line) : List Char :=
  Lines.join '\n' (header cfg ++ lines.map Line.text)

/-- The bytes of a `FileWriter`. -/
def encode (text : List Char) : List UInt8 := text.flatMap String.utf8EncodeChar

/-- `readJournal`, with the entries and the `redundantOpCount`, or `none` where it throws. -/
def readJournal (cfg : Config) (reader : StrictLineReader) : Option (Entries × Int) :=
  match reader.allLines with
  | magic :: version :: appVersionString :: valueCountString :: blank :: lines =>
      if magic ≠ MAGIC ∨ version ≠ VERSION_1 ∨ appVersionString ≠ longText cfg.appVersion
          ∨ valueCountString ≠ longText cfg.valueCount ∨ blank ≠ [] then none
      else
        (lines.foldlM (readJournalLine cfg.valueCount) []).map fun entries =>
          (entries, lines.length - entries.length)
  | _ => none

/-- The lengths of an entry together. -/
def lengthOf (lengths : List Int64) : Int := lengths.foldr (fun n sum => n.toInt + sum) 0

def sizeOf (entries : Entries) : Int := entries.foldr (fun e sum => lengthOf e.2.lengths + sum) 0

/-- `processJournal` drops the entries that were being edited. -/
def processJournal (entries : Entries) : Entries × Int :=
  let kept := entries.filter fun e => e.2.currentEditor.isNone
  (kept, sizeOf kept)

/-- What the lines say one after the other. -/
def replay (cfg : Config) (lines : List Line) : Entries :=
  lines.foldl (fun entries line => line.apply cfg.valueCount entries) []

/-! ### Characters and bytes -/

theorem utf8EncodeChar_ascii {c : Char} (hAscii : c.toNat < 128) :
    String.utf8EncodeChar c = [UInt8.ofNat c.toNat] := by
  have hSize : c.utf8Size = 1 := by
    apply Char.utf8Size_eq_one_iff.mpr
    exact Nat.le_of_lt_succ hAscii
  rw [String.utf8EncodeChar_eq_singleton hSize]
  rfl

theorem toNat_byte {c : Char} (hAscii : c.toNat < 128) : (UInt8.ofNat c.toNat).toNat = c.toNat := by
  rw [UInt8.toNat_ofNat', Nat.mod_eq_of_lt (by omega)]

theorem encode_ascii {text : List Char} (hText : Ascii text) :
    encode text = text.map fun c => UInt8.ofNat c.toNat := by
  induction text with
  | nil => rfl
  | cons c text ih =>
      have hRest := ih fun d hMem => hText d (List.mem_cons_of_mem c hMem)
      rw [encode] at hRest ⊢
      rw [List.flatMap_cons, hRest, utf8EncodeChar_ascii (hText c List.mem_cons_self)]
      rfl

theorem decode_encode {text : List Char} (hText : Ascii text) : decode (encode text) = text := by
  rw [encode_ascii hText, decode, List.map_map]
  conv_rhs => rw [← List.map_id text]
  apply List.map_congr_left
  intro c hMem
  have hLt := hText c hMem
  simp only [Function.comp, toNat_byte hLt, hLt, if_true, Char.ofNat_toNat, id]

/-- An ASCII character is found in the bytes just where it stands in the text. -/
theorem mem_encode {text : List Char} (hText : Ascii text) {c : Char} (hAscii : c.toNat < 128) :
    UInt8.ofNat c.toNat ∈ encode text ↔ c ∈ text := by
  rw [encode_ascii hText, List.mem_map]
  constructor
  · rintro ⟨d, hMem, hEq⟩
    have hNat := congrArg UInt8.toNat hEq
    rw [toNat_byte (hText d hMem), toNat_byte hAscii] at hNat
    rwa [← Char.toNat_inj.mp hNat]
  · exact fun hMem => ⟨c, hMem, rfl⟩

/-- Lines that the reader returns as they were written. -/
structure Readable (line : List Char) : Prop where
  ascii : Ascii line
  oneLine : '\n' ∉ line
  noReturn : '\r' ∉ line

theorem Readable.stop {line : List Char} (h : Readable line) : LF ∉ encode line :=
  fun hMem => h.oneLine ((mem_encode h.ascii (show '\n'.toNat < 128 by decide)).mp hMem)

theorem Readable.decode_strip {line : List Char} (h : Readable line) :
    decode (StrictLineReader.stripCR (encode line)) = line := by
  have hNone : (encode line).getLast? ≠ some CR := fun hLast =>
    h.noReturn ((mem_encode h.ascii (show '\r'.toNat < 128 by decide)).mp (List.mem_of_getLast? hLast))
  rw [StrictLineReader.stripCR, if_neg hNone, decode_encode h.ascii]

theorem encode_join (lines : List (List Char)) :
    encode (Lines.join '\n' lines) = Lines.join LF (lines.map encode) := by
  induction lines with
  | nil => rfl
  | cons line lines ih =>
      simp only [encode, Lines.join, List.flatMap_cons, List.flatMap_append, List.map_cons] at ih ⊢
      rw [ih]
      rfl

/-- Written lines are read first, whatever stands behind them. -/
theorem allLines_append {lines : List (List Char)} (hLines : ∀ line ∈ lines, Readable line)
    {source : List (List UInt8)} {behind : List UInt8}
    (hSource : source.flatten = encode (Lines.join '\n' lines) ++ behind) :
    (StrictLineReader.new source).allLines =
      lines ++ (Lines.complete LF behind).map fun line =>
        decode (StrictLineReader.stripCR line) := by
  have hStops : ∀ bytes ∈ lines.map encode, LF ∉ bytes := by
    intro bytes hMem
    obtain ⟨line, hLine, rfl⟩ := List.mem_map.mp hMem
    exact (hLines line hLine).stop
  have hRemaining : (StrictLineReader.new source).remaining = source.flatten := rfl
  rw [StrictLineReader.allLines, StrictLineReader.readLines_eq _ (Nat.lt_succ_self _), hRemaining,
    hSource, encode_join, Lines.complete_join_append hStops, List.map_append, List.map_map]
  congr 1
  conv_rhs => rw [← List.map_id lines]
  apply List.map_congr_left
  intro line hMem
  exact (hLines line hMem).decode_strip

/-! ### Journals are read back -/

theorem ascii_append {first second : List Char} :
    Ascii (first ++ second) ↔ Ascii first ∧ Ascii second := by
  simp only [Ascii, List.mem_append, or_imp, forall_and]

theorem readable_append {first second : List Char} (hFirst : Readable first)
    (hSecond : Readable second) : Readable (first ++ second) where
  ascii := ascii_append.mpr ⟨hFirst.ascii, hSecond.ascii⟩
  oneLine := by simp [hFirst.oneLine, hSecond.oneLine]
  noReturn := by simp [hFirst.noReturn, hSecond.noReturn]

theorem readable_longText (n : Int) : Readable (longText n) where
  ascii := by
    intro c hMem
    cases mem_longText hMem with
    | inl hMinus => rw [hMinus]; decide
    | inr hDigit =>
        simp only [Char.isDigit, Bool.and_eq_true, decide_eq_true_eq] at hDigit
        have hLe : c.toNat ≤ 57 := hDigit.2
        omega
  oneLine := fun hMem => by
    cases mem_longText hMem with
    | inl hMinus => exact absurd hMinus (by decide)
    | inr hDigit => exact absurd hDigit (by decide)
  noReturn := fun hMem => by
    cases mem_longText hMem with
    | inl hMinus => exact absurd hMinus (by decide)
    | inr hDigit => exact absurd hDigit (by decide)

theorem readable_blank {line : List Char} (h : Readable line) : Readable (' ' :: line) := by
  have hBlank : Readable [' '] := ⟨by decide, by decide, by decide⟩
  exact readable_append hBlank h

theorem readable_getLengths (lengths : List Int64) : Readable (getLengths lengths) := by
  induction lengths with
  | nil => exact ⟨by decide, by decide, by decide⟩
  | cons n lengths ih =>
      rw [getLengths, List.flatMap_cons]
      exact readable_append (readable_blank (readable_longText _)) ih

theorem Line.Plain.readable {valueCount : Nat} {line : Line} (h : line.Plain valueCount) :
    Readable line.text := by
  have hKey : Readable (' ' :: line.key) :=
    readable_blank ⟨h.ascii, (validateKey_iff.mp h.valid).2.1, (validateKey_iff.mp h.valid).2.2⟩
  cases line with
  | clean key lengths =>
      exact readable_append (readable_append ⟨by decide, by decide, by decide⟩ hKey)
        (readable_getLengths lengths)
  | dirty key => exact readable_append ⟨by decide, by decide, by decide⟩ hKey
  | remove key => exact readable_append ⟨by decide, by decide, by decide⟩ hKey
  | read key => exact readable_append ⟨by decide, by decide, by decide⟩ hKey

theorem readable_header (cfg : Config) : ∀ line ∈ header cfg, Readable line := by
  intro line hMem
  simp only [header, List.mem_cons, List.not_mem_nil, or_false] at hMem
  rcases hMem with rfl | rfl | rfl | rfl | rfl
  · exact ⟨by decide, by decide, by decide⟩
  · exact ⟨by decide, by decide, by decide⟩
  · exact readable_longText _
  · exact readable_longText _
  · exact ⟨by decide, by decide, by decide⟩

theorem readable_text {cfg : Config} {lines : List Line}
    (hLines : ∀ line ∈ lines, line.Plain cfg.valueCount) :
    ∀ line ∈ header cfg ++ lines.map Line.text, Readable line := by
  intro line hMem
  cases List.mem_append.mp hMem with
  | inl hHeader => exact readable_header cfg line hHeader
  | inr hLine =>
      obtain ⟨written, hWritten, rfl⟩ := List.mem_map.mp hLine
      exact (hLines written hWritten).readable

theorem foldlM_readJournalLine {valueCount : Nat} (hCount : 0 < valueCount) {lines : List Line}
    (hLines : ∀ line ∈ lines, line.Plain valueCount) (entries : Entries) :
    (lines.map Line.text).foldlM (readJournalLine valueCount) entries =
      some (lines.foldl (fun entries line => line.apply valueCount entries) entries) := by
  induction lines generalizing entries with
  | nil => rfl
  | cons line lines ih =>
      rw [List.map_cons, List.foldlM_cons, readJournalLine_text hCount (hLines line (by simp))]
      exact ih (fun l hMem => hLines l (List.mem_cons_of_mem line hMem)) _

/-- A journal with a torn line at its end is read as its complete lines. -/
theorem readJournal_torn {cfg : Config} {lines : List Line}
    (hLines : ∀ line ∈ lines, line.Plain cfg.valueCount) {source : List (List UInt8)}
    {torn : List UInt8} (hTorn : LF ∉ torn)
    (hSource : source.flatten = encode (text cfg lines) ++ torn) :
    readJournal cfg (.new source) =
      some (replay cfg lines, (lines.length : Int) - (replay cfg lines).length) := by
  have hRead := allLines_append (readable_text hLines) hSource
  rw [Lines.complete_of_notMem hTorn, List.map_nil, List.append_nil] at hRead
  unfold readJournal
  rw [hRead]
  simp only [header, List.cons_append, List.nil_append, ne_eq, not_true_eq_false, or_self,
    if_false, foldlM_readJournalLine cfg.valueCount_pos hLines, Option.map_some, List.length_map]
  rfl

theorem readJournal_text {cfg : Config} {lines : List Line}
    (hLines : ∀ line ∈ lines, line.Plain cfg.valueCount) {source : List (List UInt8)}
    (hSource : source.flatten = encode (text cfg lines)) :
    readJournal cfg (.new source) =
      some (replay cfg lines, (lines.length : Int) - (replay cfg lines).length) :=
  readJournal_torn hLines List.not_mem_nil (hSource.trans (List.append_nil _).symm)

end Meet.DiskLruCache.Journal
