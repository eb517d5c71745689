import Meet.DiskLruCache.Replay

/-! A journal that is cut off anywhere behind its header, and what becomes of it when the next
process goes on writing behind the cut. -/
namespace Meet.DiskLruCache.Journal
open LinkedMap

/-! ### The cut -/

theorem encode_append (first second : List Char) :
    encode (first ++ second) = encode first ++ encode second := by
  simp [encode]

theorem text_append (cfg : Config) (lines more : List Line) :
    text cfg (lines ++ more) = text cfg lines ++ Lines.join '\n' (more.map Line.text) := by
  simp [text, Lines.join]

/-- The whole lines before a cut, and what is left of the next. -/
theorem cut_cases {cfg : Config} {lines : List Line}
    (hLines : ∀ line ∈ lines, line.Plain cfg.valueCount) {bytes : List UInt8}
    (hHeader : encode (text cfg []) <+: bytes) (hCut : bytes <+: encode (text cfg lines)) :
    ∃ kept torn, kept <+: lines ∧ bytes = encode (text cfg kept) ++ torn ∧ LF ∉ torn := by
  obtain ⟨rest, rfl⟩ := hHeader
  have hText : text cfg lines = text cfg [] ++ Lines.join '\n' (lines.map Line.text) :=
    text_append cfg [] lines
  rw [hText, encode_append, List.prefix_append_right_inj, encode_join] at hCut
  have hStops : ∀ line ∈ (lines.map Line.text).map encode, LF ∉ line := by
    intro line hMem
    simp only [List.map_map, List.mem_map] at hMem
    obtain ⟨written, hWritten, rfl⟩ := hMem
    exact (hLines written hWritten).readable.stop
  obtain ⟨kept, torn, hKept, rfl, hTorn⟩ := Lines.join_cut hStops hCut
  rw [List.map_map] at hKept
  obtain ⟨front, hFront, rfl⟩ := List.prefix_map_iff.mp hKept
  refine ⟨front, torn, hFront, ?_, hTorn⟩
  have hFrontText : text cfg front = text cfg [] ++ Lines.join '\n' (front.map Line.text) :=
    text_append cfg [] front
  rw [hFrontText, encode_append, encode_join, List.map_map, List.append_assoc]

/-- A journal of which only some first bytes are left is not corrupt. What can be read of it
is settled by the whole lines that are left. -/
theorem journal_cut (cfg : Config) {c : Cache} {events : List Event}
    (run : Run (runEvent cfg) (Event.Careful cfg) .empty events c) {source : List (List UInt8)}
    (hHeader : encode (text cfg []) <+: source.flatten)
    (hCut : source.flatten <+: encode (text cfg c.journal)) :
    ∃ kept torn entries redundantOpCount,
      kept <+: c.journal ∧ source.flatten = encode (text cfg kept) ++ torn ∧ LF ∉ torn ∧
      readJournal cfg (.new source) = some (entries, redundantOpCount) ∧
      ∀ key, published (processJournal entries).1 key = settled kept key := by
  have h := recorded_run run
  obtain ⟨kept, torn, hKept, hSource, hTorn⟩ := cut_cases h.plain hHeader hCut
  have hPlain : ∀ line ∈ kept, line.Plain cfg.valueCount :=
    fun line hMem => h.plain line (hKept.subset hMem)
  refine ⟨kept, torn, _, _, hKept, hSource, hTorn, readJournal_torn hPlain hTorn hSource, ?_⟩
  intro key
  rw [published_processJournal (keyed_replay cfg kept), published_replay]

/-- The file ends in the middle of a word, and its last piece arrives alone. -/
theorem journal_cut_published :
    ∃ kept torn entries redundantOpCount,
      kept <+: [.dirty ['k'], .clean ['k'] [5]] ∧
      [encode (text thumbnails [.dirty ['k']]), encode ['C', 'L']].flatten =
        encode (text thumbnails kept) ++ torn ∧
      LF ∉ torn ∧
      readJournal thumbnails (.new [encode (text thumbnails [.dirty ['k']]), encode ['C', 'L']]) =
        some (entries, redundantOpCount) ∧
      ∀ key, published (processJournal entries).1 key = settled kept key :=
  journal_cut thumbnails run_published (by decide) (by decide)

/-! ### Writing behind a torn line -/

def Line.word : Line → List Char
  | .clean _ _ => CLEAN
  | .dirty _ => DIRTY
  | .remove _ => REMOVE
  | .read _ => READ

/-- What stands behind the first blank. -/
def Line.behind : Line → List Char
  | .clean key lengths => key ++ getLengths lengths
  | .dirty key | .remove key | .read key => key

theorem Line.text_eq (line : Line) : line.text = line.word ++ ' ' :: line.behind := by
  cases line <;> simp [Line.text, Line.word, Line.behind]

def words : List (List Char) := [CLEAN, DIRTY, REMOVE, READ]

theorem Line.word_mem (line : Line) : line.word ∈ words := by
  cases line <;> simp [Line.word, words]

theorem blank_notMem_words : ∀ word ∈ words, ' ' ∉ word := by decide

/-- A piece of a word before a word is no word. -/
theorem pieces_notMem_words :
    ∀ first ∈ words, ∀ second ∈ words, ∀ n < 6, (first.take (n + 1)) ++ second ∉ words := by
  decide

/-- A line whose first word is none of the four is corrupt. -/
theorem readJournalLine_word {valueCount : Nat} {entries : Entries} {word rest : List Char}
    (hBlank : ' ' ∉ word) (hWord : word ∉ words) :
    readJournalLine valueCount entries (word ++ ' ' :: rest) = none := by
  have hNo : ∀ other ∈ words,
      ¬(word.length = other.length ∧ other.isPrefixOf (word ++ ' ' :: rest) = true) := by
    rintro other hOther ⟨hLength, hPrefix⟩
    have hFront : other <+: word :=
      List.prefix_of_prefix_length_le (List.isPrefixOf_iff_prefix.mp hPrefix)
        (List.prefix_append word _) (Nat.le_of_eq hLength.symm)
    exact hWord (hFront.eq_of_length hLength.symm ▸ hOther)
  have hClean := hNo CLEAN (by simp [words])
  have hDirty := hNo DIRTY (by simp [words])
  have hRemove := hNo REMOVE (by simp [words])
  have hRead := hNo READ (by simp [words])
  simp only [readJournalLine, findIdx_blank hBlank]
  split
  · rename_i h
    exact absurd h.2 hRemove
  · split
    · rfl
    · rfl

/-- A line with a second blank that is no `CLEAN` line is corrupt. -/
theorem readJournalLine_blank {valueCount : Nat} {entries : Entries} {word behind : List Char}
    (hWord : word ∈ words) (hClean : word ≠ CLEAN) (hBlank : ' ' ∈ behind) :
    readJournalLine valueCount entries (word ++ ' ' :: behind) = none := by
  obtain ⟨key, values, rfl, hKey⟩ := List.eq_append_cons_of_mem hBlank
  simp only [readJournalLine, findIdx_blank (blank_notMem_words word hWord), drop_word,
    findIdx_blank hKey]
  rw [if_neg (by simp), if_neg]
  rintro ⟨hLength, hPrefix⟩
  have hFront : CLEAN <+: word :=
    List.prefix_of_prefix_length_le (List.isPrefixOf_iff_prefix.mp hPrefix)
      (List.prefix_append word _) (Nat.le_of_eq hLength.symm)
  exact hClean (hFront.eq_of_length hLength.symm).symm

/-- A `CLEAN` line with other values than lengths is corrupt. -/
theorem readJournalLine_values {valueCount : Nat} {entries : Entries} {key values : List Char}
    (hKey : ' ' ∉ key) (hValues : setLengths valueCount (split values) = none) :
    readJournalLine valueCount entries (CLEAN ++ ' ' :: (key ++ ' ' :: values)) = none := by
  simp only [readJournalLine, findIdx_blank (show ' ' ∉ CLEAN by decide), drop_word,
    findIdx_blank hKey, hValues]
  simp

theorem mapM_parseLong_none {parts : List (List Char)} {part : List Char} (hMem : part ∈ parts)
    (hPart : parseLong part = none) : parts.mapM parseLong = none := by
  induction parts with
  | nil => simp at hMem
  | cons first parts ih =>
      rw [List.mapM_cons]
      cases List.mem_cons.mp hMem with
      | inl hFirst =>
          rw [← hFirst, hPart]
          rfl
      | inr hRest =>
          rw [ih hRest]
          cases parseLong first <;> rfl

theorem setLengths_none {valueCount : Nat} {parts : List (List Char)} {part : List Char}
    (hMem : part ∈ parts) (hPart : parseLong part = none) : setLengths valueCount parts = none := by
  unfold setLengths
  split
  · rfl
  · exact mapM_parseLong_none hMem hPart

/-- Only empty parts are dropped. -/
theorem mem_split {text part : List Char} (hMem : part ∈ text.splitOn ' ') (hPart : part ≠ []) :
    part ∈ split text := by
  unfold split
  split
  · rw [List.mem_reverse]
    have hReverse : part ∈ (text.splitOn ' ').reverse := List.mem_reverse.mpr hMem
    generalize (text.splitOn ' ').reverse = parts at hReverse
    induction parts with
    | nil => exact hReverse
    | cons first parts ih =>
        rw [List.dropWhile_cons]
        split
        · rename_i hEmpty
          cases List.mem_cons.mp hReverse with
          | inl hFirst =>
              rw [← hFirst] at hEmpty
              exact absurd (List.isEmpty_iff.mp hEmpty) hPart
          | inr hRest => exact ih hRest
        · exact hReverse
  · rename_i hBlank
    rwa [List.splitOn_eq_singleton hBlank] at hMem

/-- A part that ends with a word. -/
theorem exists_part (values : List Char) {word : List Char} (hWord : ' ' ∉ word)
    (rest : List Char) :
    ∃ front, front ++ word ∈ (values ++ word ++ ' ' :: rest).splitOn ' ' := by
  rw [List.splitOn_append_cons_self]
  induction values using Lines.induction_lines ' ' with
  | hOpen values hOpen =>
      have hWhole : ' ' ∉ values ++ word := by simp [hOpen, hWord]
      rw [List.splitOn_eq_singleton hWhole]
      exact ⟨values, by simp⟩
  | hLine part values hPart ih =>
      obtain ⟨front, hFront⟩ := ih
      refine ⟨front, ?_⟩
      rw [List.append_assoc, List.cons_append, List.splitOn_append_cons_self_of_not_mem hPart,
        List.cons_append]
      exact List.mem_cons_of_mem part hFront

theorem parseDigits_none {digits : List Char} {c : Char} (hMem : c ∈ digits)
    (hDigit : c.isDigit = false) : parseDigits digits = none := by
  rw [parseDigits, if_neg]
  rintro ⟨-, hAll⟩
  rw [List.all_eq_true.mp hAll c hMem] at hDigit
  cases hDigit

/-- A letter makes a part no number. -/
theorem parseLong_none {part : List Char} {c : Char} (hMem : c ∈ part) (hDigit : c.isDigit = false)
    (hMinus : c ≠ '-') (hPlus : c ≠ '+') : parseLong part = none := by
  unfold parseLong
  split
  · have hRest := (List.mem_cons.mp hMem).resolve_left hMinus
    rw [parseDigits_none hRest hDigit, Option.bind_none]
  · have hRest := (List.mem_cons.mp hMem).resolve_left hPlus
    rw [parseDigits_none hRest hDigit, Option.bind_none]
  · rw [parseDigits_none hMem hDigit, Option.bind_none]

theorem letter_mem_words : ∀ word ∈ words,
    ∃ c ∈ word, c.isDigit = false ∧ c ≠ '-' ∧ c ≠ '+' := by
  intro word hMem
  simp only [words, List.mem_cons, List.not_mem_nil, or_false] at hMem
  rcases hMem with rfl | rfl | rfl | rfl
  · exact ⟨'C', by decide, by decide, by decide, by decide⟩
  · exact ⟨'D', by decide, by decide, by decide, by decide⟩
  · exact ⟨'R', by decide, by decide, by decide, by decide⟩
  · exact ⟨'R', by decide, by decide, by decide, by decide⟩

theorem parseLong_word {word : List Char} (hWord : word ∈ words) (front : List Char) :
    parseLong (front ++ word) = none := by
  obtain ⟨c, hMem, hDigit, hMinus, hPlus⟩ := letter_mem_words word hWord
  exact parseLong_none (List.mem_append_right front hMem) hDigit hMinus hPlus

/-- The values behind a torn key: the key of the next line stands first. -/
theorem setLengths_behind {valueCount : Nat} {next : Line} (hNext : next.Plain valueCount)
    (hKey : parseLong next.key = none) : setLengths valueCount (split next.behind) = none := by
  have hBlank : ' ' ∉ next.key := (validateKey_iff.mp hNext.valid).1
  have hSingle : setLengths valueCount (split next.key) = none := by
    rw [split, if_neg hBlank]
    exact setLengths_none List.mem_cons_self hKey
  cases next with
  | clean key lengths =>
      have hOpen : ' ' ∉ key := hBlank
      have hAlone : setLengths valueCount (split key) = none := hSingle
      cases lengths with
      | nil => simpa [Line.behind, getLengths] using hAlone
      | cons n ns =>
          have hText : (Line.clean key (n :: ns)).behind =
              key ++ ' ' :: (longText n.toInt ++ getLengths ns) := by
            simp [Line.behind, getLengths]
          have hParts : (key ++ ' ' :: (longText n.toInt ++ getLengths ns)).splitOn ' ' =
              key :: (n :: ns).map fun n => longText n.toInt := by
            rw [List.splitOn_append_cons_self_of_not_mem hOpen, splitOn_lengths]
          have hSplit : split (key ++ ' ' :: (longText n.toInt ++ getLengths ns)) =
              key :: (n :: ns).map fun n => longText n.toInt := by
            rw [split_eq_splitOn, hParts]
            intro part hLast
            rw [hParts, List.getLast?_cons_of_ne_nil (by simp)] at hLast
            obtain ⟨m, -, rfl⟩ := List.mem_map.mp (List.mem_of_getLast? hLast)
            exact longText_ne_nil _
          rw [hText, hSplit]
          exact setLengths_none List.mem_cons_self hKey
  | dirty key => exact hSingle
  | remove key => exact hSingle
  | read key => exact hSingle

/-- A torn line and a line behind it are one line, and it is corrupt unless the key of the
second could be a length. -/
theorem readJournalLine_torn {valueCount : Nat} {torn next : Line}
    (hTorn : torn.Plain valueCount) (hNext : next.Plain valueCount)
    (hKey : parseLong next.key = none) {head : List Char} (hHead : head <+: torn.text)
    (hSome : head ≠ []) (entries : Entries) :
    readJournalLine valueCount entries (head ++ next.text) = none := by
  have hTornWord := blank_notMem_words torn.word torn.word_mem
  have hNextWord := blank_notMem_words next.word next.word_mem
  rw [torn.text_eq] at hHead
  rw [next.text_eq]
  by_cases hBlank : ' ' ∈ head
  · -- The cut lies behind the first word.
    obtain ⟨word, rest, rfl, hWord⟩ := List.eq_append_cons_of_mem hBlank
    obtain ⟨more, hMore⟩ := hHead
    rw [List.append_assoc, List.cons_append] at hMore
    obtain ⟨rfl, -⟩ := Lines.line_unique hWord hTornWord hMore
    rw [List.append_assoc, List.cons_append]
    by_cases hClean : torn.word = CLEAN
    · rw [hClean]
      by_cases hRest : ' ' ∈ rest
      · obtain ⟨key, values, rfl, hTornKey⟩ := List.eq_append_cons_of_mem hRest
        obtain ⟨front, hFront⟩ := exists_part values hNextWord next.behind
        have hValues : setLengths valueCount
            (split (values ++ next.word ++ ' ' :: next.behind)) = none := by
          refine setLengths_none (mem_split hFront ?_) (parseLong_word next.word_mem front)
          intro hNil
          rw [List.append_eq_nil_iff] at hNil
          exact absurd (hNil.2 ▸ next.word_mem) (by decide)
        have hRead : readJournalLine valueCount entries _ = none :=
          readJournalLine_values hTornKey hValues
        simpa [List.append_assoc] using hRead
      · have hWhole : ' ' ∉ rest ++ next.word := by simp [hRest, hNextWord]
        have hRead : readJournalLine valueCount entries _ = none :=
          readJournalLine_values hWhole (setLengths_behind hNext hKey)
        simpa [List.append_assoc] using hRead
    · exact readJournalLine_blank torn.word_mem hClean (by simp)
  · -- The cut lies in the first word.
    have hPiece : head <+: torn.word := by
      rcases List.prefix_or_prefix_of_prefix hHead (List.prefix_append torn.word _) with h | h
      · exact h
      · obtain ⟨more, rfl⟩ := h
        cases more with
        | nil => simp
        | cons c more =>
            rw [List.prefix_append_right_inj, List.cons_prefix_cons] at hHead
            exact absurd (by simp [hHead.1]) hBlank
    have hLength : torn.word.length ≤ 6 := by
      cases torn <;> simp [Line.word, CLEAN, DIRTY, REMOVE, READ]
    have hPositive : 0 < head.length := List.length_pos_iff.mpr hSome
    have hTake : head = torn.word.take (head.length - 1 + 1) := by
      rw [Nat.sub_add_cancel hPositive]
      exact List.prefix_iff_eq_take.mp hPiece
    have hBound := hPiece.length_le
    have hNoWord : head ++ next.word ∉ words := by
      rw [hTake]
      exact pieces_notMem_words _ torn.word_mem _ next.word_mem _ (by omega)
    have hNoBlank : ' ' ∉ head ++ next.word := by simp [hBlank, hNextWord]
    rw [← List.append_assoc]
    exact readJournalLine_word hNoBlank hNoWord

theorem foldlM_none {valueCount : Nat} {bad : List Char}
    (hBad : ∀ entries, readJournalLine valueCount entries bad = none)
    (lines behind : List (List Char)) (entries : Entries) :
    (lines ++ bad :: behind).foldlM (readJournalLine valueCount) entries = none := by
  induction lines generalizing entries with
  | nil =>
      rw [List.nil_append, List.foldlM_cons, hBad]
      rfl
  | cons line lines ih =>
      rw [List.cons_append, List.foldlM_cons]
      cases readJournalLine valueCount entries line with
      | none => rfl
      | some read => exact ih read

theorem Readable.of_prefix {line head : List Char} (h : Readable line) (hHead : head <+: line) :
    Readable head where
  ascii := fun c hMem => h.ascii c (hHead.subset hMem)
  oneLine := fun hMem => h.oneLine (hHead.subset hMem)
  noReturn := fun hMem => h.noReturn (hHead.subset hMem)

/-- A line that goes on behind a torn one makes the journal corrupt, whatever follows. -/
theorem readJournal_behind (cfg : Config) {kept : List Line}
    (hKept : ∀ line ∈ kept, line.Plain cfg.valueCount) {torn next : Line}
    (hTorn : torn.Plain cfg.valueCount) (hNext : next.Plain cfg.valueCount)
    (hKey : parseLong next.key = none) {head : List Char} (hHead : head <+: torn.text)
    (hSome : head ≠ []) {behind : List UInt8} {source : List (List UInt8)}
    (hSource : source.flatten =
      encode (text cfg kept) ++ encode head ++ encode (next.text ++ ['\n']) ++ behind) :
    readJournal cfg (.new source) = none := by
  have hGlued : Readable (head ++ next.text) :=
    readable_append (hTorn.readable.of_prefix hHead) hNext.readable
  have hLines : ∀ line ∈ header cfg ++ kept.map Line.text ++ [head ++ next.text],
      Readable line := by
    intro line hMem
    cases List.mem_append.mp hMem with
    | inl hFront => exact readable_text hKept line hFront
    | inr hLast => exact List.mem_singleton.mp hLast ▸ hGlued
  have hText : source.flatten =
      encode (Lines.join '\n' (header cfg ++ kept.map Line.text ++ [head ++ next.text])) ++
        behind := by
    rw [hSource, Lines.join_append, encode_append]
    simp [text, Lines.join, encode]
  have hRead := allLines_append hLines hText
  have hNone := foldlM_none (readJournalLine_torn hTorn hNext hKey hHead hSome)
    (kept.map Line.text)
  unfold readJournal
  rw [hRead]
  simp only [header, List.append_assoc, List.cons_append, List.nil_append, ne_eq,
    not_true_eq_false, or_self, if_false, hNone, Option.map_none]

/-- `open` on the bytes of a journal. It gives the entries and the bytes behind which the next
lines are written: a journal that can be read is left as it is, and a corrupt one is deleted with
all values and begun anew. -/
def openFile (cfg : Config) (source : List (List UInt8)) : Entries × List UInt8 :=
  match readJournal cfg (.new source) with
  | some (entries, _) => ((processJournal entries).1, source.flatten)
  | none => ([], encode (text cfg []))

/-- `open` appends to the journal as it is. So a line that was torn and the first line of the
next process are one line, and the start after that finds the journal corrupt, whatever was
written behind, and deletes all values. -/
theorem journal_behind_torn (cfg : Config) {kept : List Line}
    (hKept : ∀ line ∈ kept, line.Plain cfg.valueCount) {torn next : Line}
    (hTorn : torn.Plain cfg.valueCount) (hNext : next.Plain cfg.valueCount)
    (hKey : parseLong next.key = none) {head : List Char} (hHead : head <+: torn.text)
    (hSome : head ≠ []) {source again : List (List UInt8)}
    (hSource : source.flatten = encode (text cfg kept) ++ encode head) (behind : List UInt8)
    (hAgain : again.flatten =
      (openFile cfg source).2 ++ encode (next.text ++ ['\n']) ++ behind) :
    openFile cfg source = ((processJournal (replay cfg kept)).1, source.flatten) ∧
      readJournal cfg (.new again) = none ∧ openFile cfg again = ([], encode (text cfg [])) := by
  have hOpened : openFile cfg source = ((processJournal (replay cfg kept)).1, source.flatten) := by
    rw [openFile, readJournal_torn hKept (hTorn.readable.of_prefix hHead).stop hSource]
  rw [hOpened, hSource] at hAgain
  have hCorrupt : readJournal cfg (.new again) = none :=
    readJournal_behind cfg hKept hTorn hNext hKey hHead hSome hAgain
  exact ⟨hOpened, hCorrupt, by rw [openFile, hCorrupt]⟩

theorem journal_behind_torn_read :
    openFile thumbnails [encode (text thumbnails [.dirty ['k'], .clean ['k'] [5]]),
        encode ['R', 'E']] =
        ((processJournal (replay thumbnails [.dirty ['k'], .clean ['k'] [5]])).1,
          encode (text thumbnails [.dirty ['k'], .clean ['k'] [5]]) ++ encode ['R', 'E']) ∧
      readJournal thumbnails (.new [encode (text thumbnails [.dirty ['k'], .clean ['k'] [5]]) ++
        encode ['R', 'E'], encode ((Line.dirty ['a']).text ++ ['\n'])]) = none ∧
      openFile thumbnails [encode (text thumbnails [.dirty ['k'], .clean ['k'] [5]]) ++
        encode ['R', 'E'], encode ((Line.dirty ['a']).text ++ ['\n'])] =
        ([], encode (text thumbnails [])) := by
  have hPlain : ∀ line ∈ [Line.dirty ['k'], .clean ['k'] [5]], line.Plain 1 := by
    intro line hMem
    rcases List.mem_pair.mp hMem with rfl | rfl
    · exact ⟨by decide, by decide, by simp⟩
    · exact ⟨by decide, by decide, by simp⟩
  have hTorn : (Line.read ['k']).Plain 1 := ⟨by decide, by decide, by simp⟩
  have hNext : (Line.dirty ['a']).Plain 1 := ⟨by decide, by decide, by simp⟩
  have hHead : ['R', 'E'] <+: (Line.read ['k']).text := by decide
  exact journal_behind_torn thumbnails hPlain hTorn hNext (by decide) hHead (by decide) rfl
    [] rfl

end Meet.DiskLruCache.Journal
