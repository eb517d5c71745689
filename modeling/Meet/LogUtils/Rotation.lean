import Meet.Common.TextFile
import Meet.LogUtils.Sequential

/-! `writeFile` of `LogUtils.java` on texts of any characters. `offset` counts characters and
the file holds bytes; the branch for a full file empties the file before it has made up what
the file is to hold. -/
namespace Meet.LogUtils

open TextFile

/-- How `new String(byte[])` reads bytes. What it makes of bytes that are no UTF-8 is not
specified. -/
structure Charset where
  decode : List UInt8 → List UInt16
  decode_ascii : ∀ bytes : List UInt8, (∀ b ∈ bytes, b.toNat < 0x80) →
    decode bytes = bytes.map fun b => UInt16.ofNat b.toNat

/-- The file, and the static fields `offset` and `buffer`. -/
structure FileLog where
  content : List UInt8
  offset : Nat
  buffer : List UInt16
deriving DecidableEq, Repr

/-- How a write ends. A write of nothing at all leaves the file alone. -/
inductive Outcome where
  | kept
  | written
  | wrapped
  | failed
deriving DecidableEq, Repr

def newline : UInt16 := 10

namespace FileLog

/-- The branch for a buffer that passes the end of the file. `substring`, `new byte[]` and
`substring` once more can throw, the last one behind `setLength(0)`. -/
def wrap (charset : Charset) (log : FileLog) (off : Nat) : Outcome × FileLog :=
  let subBufferEnd := log.buffer.take (fileLength - off) ++ [newline]
  let subBufferStart := (log.buffer.take (log.buffer.length - 1)).drop (fileLength - off)
  if fileLength < off then (.failed, log)
  else if fileLength < log.buffer.length then (.failed, log)
  else
    let exist := charset.decode
      (readAt 0 log.content subBufferStart.length (fileLength - log.buffer.length))
    if newline ∈ exist then
      (.wrapped, { log with
        content := overwrite 0
          (encode subBufferStart ++ encode (exist.dropWhile (· ≠ newline))) off (encode subBufferEnd)
        offset := subBufferStart.length })
    else (.failed, { log with content := encode subBufferStart })

def put (log : FileLog) (off : Nat) : FileLog :=
  { log with
    content := overwrite 0 log.content off (encode log.buffer)
    offset := off + log.buffer.length }

def settle (log : FileLog) : FileLog :=
  { log with buffer := log.buffer.drop (log.buffer.length - 1) ++ [newline] }

def writeFile (charset : Charset) (log : FileLog) (message : List UInt16) (off : Nat) :
    Outcome × FileLog :=
  let log := { log with buffer := log.buffer ++ message }
  if bufferLength < log.buffer.length then
    if fileLength < log.buffer.length + off then
      ((log.wrap charset off).1, (log.wrap charset off).2.settle)
    else (.written, (log.put off).settle)
  else (.kept, { log with buffer := log.buffer ++ [newline] })

/-- One thread writes a message at the offset that stands. -/
def write (charset : Charset) (log : FileLog) (message : List UInt16) : Outcome × FileLog :=
  log.writeFile charset message log.offset

/-- The log file that was found, before the first message. -/
def opened (existing : List UInt8) : FileLog := ⟨existing, 0, []⟩

/-- Something holds of each of the messages and of the log that it finds. -/
def Throughout (charset : Charset) (holds : FileLog → List UInt16 → Prop) :
    FileLog → List (List UInt16) → Prop
  | _, [] => True
  | log, message :: rest =>
      holds log message ∧ Throughout charset holds (log.write charset message).2 rest

/-- After a wrap the file holds the text of the buffer, its end in front and its beginning
behind, with old text between them and no zero byte that was not there before. -/
structure Rotated (before : FileLog) (message : List UInt16) (after : FileLog) : Prop where
  whole : ∃ older rest, after.content =
      encode ((before.buffer ++ message).drop (fileLength - before.offset)) ++ older ++
        encode ((before.buffer ++ message).take (fileLength - before.offset)) ++ rest ∧
    older <:+: before.content ∧ (rest = [] ∨ rest = encode [newline])
  noGap : 0 ∉ before.content → 0 ∉ encode (before.buffer ++ message) → 0 ∉ after.content

/-- A write keeps the log within its bounds. If it wraps, the file is rotated, and if it fails,
nothing has changed. -/
structure Sound (charset : Charset) (log : FileLog) (message : List UInt16) : Prop where
  offset : (log.write charset message).2.offset ≤ fileLength
  length : (log.write charset message).2.content.length ≤ fileLength + 1
  wrapped : (log.write charset message).1 = .wrapped →
    Rotated log message (log.write charset message).2
  failed : (log.write charset message).1 = .failed →
    (log.write charset message).2.content = log.content ∧
      (log.write charset message).2.offset = log.offset

/-- The text is longer than any log file, or there is room for it behind the offset, in
characters and in bytes. -/
def Fits (log : FileLog) (message : List UInt16) : Prop :=
  fileLength < (log.buffer ++ message).length ∨
    log.offset + (log.buffer ++ message).length ≤ fileLength ∧
      log.offset + (encode (log.buffer ++ message)).length ≤ fileLength + 1

/-! ### Texts with room -/

/-- The bounds of the log. -/
structure Bounded (log : FileLog) : Prop where
  offset : log.offset ≤ fileLength
  length : log.content.length ≤ fileLength + 1

section
variable {charset : Charset} {log : FileLog} {message : List UInt16}

/-- What a write with room does. -/
theorem write_of_fits (hBounded : log.Bounded) (hFits : log.Fits message) :
    (log.write charset message).1 ≠ .wrapped ∧
    (((log.write charset message).2.content = log.content ∧
        (log.write charset message).2.offset = log.offset) ∨
      (log.write charset message).1 = .written ∧
      (log.write charset message).2.content =
        overwrite 0 log.content log.offset (encode (log.buffer ++ message)) ∧
      (log.write charset message).2.offset = log.offset + (log.buffer ++ message).length ∧
      log.offset + (log.buffer ++ message).length ≤ fileLength ∧
      log.offset + (encode (log.buffer ++ message)).length ≤ fileLength + 1) := by
  unfold write writeFile
  dsimp only
  by_cases hSome : bufferLength < (log.buffer ++ message).length
  · rw [if_pos hSome]
    rcases hFits with hLong | ⟨hRoom, hBytes⟩
    · rw [if_pos (by omega)]
      have hWrap : wrap charset { log with buffer := log.buffer ++ message } log.offset =
          (.failed, { log with buffer := log.buffer ++ message }) := by
        simp only [wrap, if_neg (Nat.not_lt.mpr hBounded.offset), if_pos hLong]
      rw [hWrap]
      exact ⟨by simp, Or.inl ⟨rfl, rfl⟩⟩
    · rw [if_neg (by omega)]
      exact ⟨by simp, Or.inr ⟨rfl, rfl, rfl, hRoom, hBytes⟩⟩
  · rw [if_neg hSome]
    exact ⟨by simp, Or.inl ⟨rfl, rfl⟩⟩

theorem bounded_write (hBounded : log.Bounded) (hFits : log.Fits message) :
    (log.write charset message).2.Bounded := by
  rcases (@write_of_fits charset _ _ hBounded hFits).2 with
    ⟨hContent, hOffset⟩ | ⟨-, hContent, hOffset, hRoom, hBytes⟩
  · exact ⟨hOffset ▸ hBounded.offset, hContent ▸ hBounded.length⟩
  · refine ⟨hOffset ▸ hRoom, ?_⟩
    rw [hContent, length_overwrite]
    exact Nat.max_le.mpr ⟨hBounded.length, hBytes⟩

theorem sound_of_fits (hBounded : log.Bounded) (hFits : log.Fits message) :
    log.Sound charset message := by
  have hAfter := @bounded_write charset _ _ hBounded hFits
  obtain ⟨hNot, hCases⟩ := @write_of_fits charset _ _ hBounded hFits
  refine ⟨hAfter.offset, hAfter.length, fun hWrapped => absurd hWrapped hNot, fun hFailed => ?_⟩
  rcases hCases with hSame | ⟨hWritten, -⟩
  · exact hSame
  · rw [hWritten] at hFailed
    cases hFailed

theorem throughout_sound {messages : List (List UInt16)} (hBounded : log.Bounded)
    (hFits : Throughout charset Fits log messages) :
    Throughout charset (Sound charset) log messages := by
  induction messages generalizing log with
  | nil => trivial
  | cons message rest ih =>
      exact ⟨sound_of_fits hBounded hFits.1, ih (bounded_write hBounded hFits.1) hFits.2⟩

end

/-! ### Plain texts without room -/

/-- A text of ASCII characters other than zero. -/
def PlainText (text : List UInt16) : Prop := ∀ u ∈ text, 0 < u.toNat ∧ u.toNat < 0x80

/-- A log that has only been given plain texts, and has put them one behind the other. -/
structure Plain (log : FileLog) : Prop where
  content : ∀ b ∈ log.content, 0 < b.toNat ∧ b.toNat < 0x80
  buffer : PlainText log.buffer
  inside : log.offset ≤ log.content.length

section
variable {charset : Charset} {log : FileLog} {message text : List UInt16}

theorem PlainText.ascii (h : PlainText text) : Ascii text := fun u hMem => (h u hMem).2

theorem PlainText.append {other : List UInt16} (h : PlainText text) (hOther : PlainText other) :
    PlainText (text ++ other) := by
  intro u hMem
  rcases List.mem_append.mp hMem with hFirst | hSecond
  · exact h u hFirst
  · exact hOther u hSecond

theorem length_encode (hText : Ascii text) : (encode text).length = text.length := by
  rw [encode_of_ascii hText, List.length_map]

theorem byte_toNat {n : Nat} (hByte : n < 0x80) : (byte n).toNat = n := by
  simp only [byte, UInt8.toNat_ofNat']
  omega

theorem PlainText.mem_encode (h : PlainText text) {b : UInt8} (hMem : b ∈ encode text) :
    0 < b.toNat ∧ b.toNat < 0x80 := by
  rw [encode_of_ascii h.ascii] at hMem
  obtain ⟨u, hUnit, rfl⟩ := List.mem_map.mp hMem
  rw [byte_toNat (h u hUnit).2]
  exact h u hUnit

theorem PlainText.zero_not_mem_encode (h : PlainText text) : 0 ∉ encode text := by
  intro hMem
  exact absurd (h.mem_encode hMem).1 (by decide)

/-- Whatever a write does, the buffer holds an old character or two and a line end. -/
theorem mem_buffer_write {u : UInt16} (hMem : u ∈ (log.write charset message).2.buffer) :
    u ∈ log.buffer ++ message ∨ u = newline := by
  have hSettle : ∀ other : FileLog, other.buffer = log.buffer ++ message →
      u ∈ other.settle.buffer → u ∈ log.buffer ++ message ∨ u = newline := by
    intro other hBuffer hIn
    rcases List.mem_append.mp hIn with hOld | hNew
    · exact Or.inl (hBuffer ▸ List.mem_of_mem_drop hOld)
    · exact Or.inr (List.mem_singleton.mp hNew)
  unfold write writeFile at hMem
  dsimp only at hMem
  split_ifs at hMem with hSome hFull
  · refine hSettle _ ?_ hMem
    unfold wrap
    dsimp only
    split_ifs <;> rfl
  · exact hSettle _ rfl hMem
  · rcases List.mem_append.mp hMem with hOld | hNew
    · exact Or.inl hOld
    · exact Or.inr (List.mem_singleton.mp hNew)

theorem plain_write (hBounded : log.Bounded) (hPlain : log.Plain) (hMessage : PlainText message)
    (hFits : log.Fits message) : (log.write charset message).2.Plain := by
  have hText := hPlain.buffer.append hMessage
  have hBuffer : PlainText (log.write charset message).2.buffer := by
    intro u hMem
    rcases mem_buffer_write hMem with hOld | rfl
    · exact hText u hOld
    · decide
  rcases (@write_of_fits charset _ _ hBounded hFits).2 with
    ⟨hContent, hOffset⟩ | ⟨-, hContent, hOffset, -, -⟩
  · exact ⟨hContent ▸ hPlain.content, hBuffer, by rw [hContent, hOffset]; exact hPlain.inside⟩
  · refine ⟨?_, hBuffer, ?_⟩
    · rw [hContent]
      intro b hMem
      rcases mem_overwrite 0 hMem hPlain.inside with hOld | hNew
      · exact hPlain.content b hOld
      · exact hText.mem_encode hNew
    · rw [hContent, hOffset, length_overwrite, length_encode hText.ascii]
      exact Nat.le_max_right _ _

/-- What a write that wraps puts at the start of the file. -/
def startOf (log : FileLog) (message : List UInt16) : List UInt16 :=
  ((log.buffer ++ message).take ((log.buffer ++ message).length - 1)).drop (fileLength - log.offset)

/-- What a write that wraps reads of the old text. -/
def existOf (charset : Charset) (log : FileLog) (message : List UInt16) : List UInt16 :=
  charset.decode (readAt 0 log.content (log.startOf message).length
    (fileLength - (log.buffer ++ message).length))

/-- A write to a full file rotates it, or it has emptied the file and finds no line in what it
has read. -/
theorem write_of_full (hOffset : log.offset ≤ fileLength)
    (hShort : (log.buffer ++ message).length ≤ fileLength)
    (hFull : fileLength < (log.buffer ++ message).length + log.offset) :
    ((log.write charset message).1 = .wrapped ∧
      (log.write charset message).2.content = overwrite 0
        (encode (log.startOf message) ++
          encode ((log.existOf charset message).dropWhile (· ≠ newline))) log.offset
        (encode ((log.buffer ++ message).take (fileLength - log.offset) ++ [newline]))) ∨
    ((log.write charset message).1 = .failed ∧
      (log.write charset message).2.content = encode (log.startOf message)) := by
  have hSome : bufferLength < (log.buffer ++ message).length := by
    simp only [bufferLength]
    omega
  unfold write writeFile
  simp only [if_pos hSome, if_pos hFull, wrap, if_neg (Nat.not_lt.mpr hOffset),
    if_neg (Nat.not_lt.mpr hShort)]
  by_cases hLine : newline ∈ log.existOf charset message
  · left
    rw [existOf, startOf] at hLine
    simp only [if_pos hLine]
    exact ⟨trivial, rfl⟩
  · right
    rw [existOf, startOf] at hLine
    simp only [if_neg hLine]
    exact ⟨trivial, rfl⟩

theorem length_startOf (hOffset : log.offset ≤ fileLength)
    (hFull : fileLength < (log.buffer ++ message).length + log.offset) :
    (log.startOf message).length = (log.buffer ++ message).length + log.offset - (fileLength + 1) := by
  simp only [startOf, List.length_drop, List.length_take]
  omega

/-- Plain old text is read as it is. -/
theorem existOf_of_plain (hPlain : log.Plain) :
    Ascii (log.existOf charset message) ∧
      (log.existOf charset message).length = fileLength - (log.buffer ++ message).length := by
  have hBytes : ∀ b ∈ readAt 0 log.content (log.startOf message).length
      (fileLength - (log.buffer ++ message).length), b.toNat < 0x80 := by
    intro b hMem
    rcases mem_readAt 0 hMem with hOld | rfl
    · exact (hPlain.content b hOld).2
    · decide
  rw [existOf, charset.decode_ascii _ hBytes]
  refine ⟨?_, by rw [List.length_map, length_readAt]⟩
  intro u hMem
  obtain ⟨b, hByte, rfl⟩ := List.mem_map.mp hMem
  have hSmall := hBytes b hByte
  simp only [UInt16.toNat_ofNat']
  omega

/-- A wrap of plain texts writes the beginning of the buffer beyond what it has just written,
and leaves a gap there. -/
theorem not_sound_of_not_fits (hBounded : log.Bounded) (hPlain : log.Plain)
    (hMessage : PlainText message) (hFits : ¬ log.Fits message) : ¬ log.Sound charset message := by
  intro hSound
  have hText := hPlain.buffer.append hMessage
  have hOffset := hBounded.offset
  have hInside := hPlain.inside
  have hBytes := length_encode hText.ascii
  unfold Fits at hFits
  have hShort : (log.buffer ++ message).length ≤ fileLength := by omega
  have hFull : fileLength < (log.buffer ++ message).length + log.offset := by omega
  have hStart := length_startOf hOffset hFull
  have hStartAscii : Ascii (log.startOf message) := by
    intro u hMem
    exact hText.ascii u (List.mem_of_mem_take (List.mem_of_mem_drop hMem))
  rcases @write_of_full charset _ _ hOffset hShort hFull with
    ⟨hOutcome, hContent⟩ | ⟨hOutcome, hContent⟩
  · obtain ⟨hAscii, hLength⟩ := @existOf_of_plain charset _ message hPlain
    generalize log.existOf charset message = exist at hAscii hLength hContent
    have hOldAscii : Ascii (exist.dropWhile (· ≠ newline)) := fun u hMem =>
      hAscii u ((List.dropWhile_sublist _).subset hMem)
    have hOld := (List.dropWhile_sublist (· ≠ newline) (l := exist)).length_le
    refine (hSound.wrapped hOutcome).noGap ?_ hText.zero_not_mem_encode ?_
    · intro hZero
      exact absurd (hPlain.content 0 hZero).1 (by decide)
    · rw [hContent]
      apply blank_mem_overwrite
      rw [List.length_append, length_encode hStartAscii, length_encode hOldAscii]
      omega
  · have hSame := congrArg List.length ((hSound.failed hOutcome).1.symm.trans hContent)
    rw [length_encode hStartAscii] at hSame
    omega

theorem throughout_fits {messages : List (List UInt16)} (hBounded : log.Bounded)
    (hPlain : log.Plain) (hMessages : ∀ message ∈ messages, PlainText message)
    (hSound : Throughout charset (Sound charset) log messages) :
    Throughout charset Fits log messages := by
  induction messages generalizing log with
  | nil => trivial
  | cons message rest ih =>
      have hMessage := hMessages message (by simp)
      have hFits : log.Fits message := by
        by_contra hNot
        exact not_sound_of_not_fits hBounded hPlain hMessage hNot hSound.1
      exact ⟨hFits, ih (bounded_write hBounded hFits) (plain_write hBounded hPlain hMessage hFits)
        (fun other hMem => hMessages other (by simp [hMem])) hSound.2⟩

end

/-- As long as every text has room, every write is sound. Plain texts without room are never
written soundly. -/
theorem throughout_sound_iff (charset : Charset) {existing : List UInt8}
    {messages : List (List UInt16)} (hExisting : existing.length ≤ fileLength + 1) :
    (Throughout charset Fits (opened existing) messages →
      Throughout charset (Sound charset) (opened existing) messages) ∧
    ((∀ b ∈ existing, 0 < b.toNat ∧ b.toNat < 0x80) →
      (∀ message ∈ messages, PlainText message) →
      Throughout charset (Sound charset) (opened existing) messages →
      Throughout charset Fits (opened existing) messages) := by
  have hBounded : (opened existing).Bounded := ⟨Nat.zero_le _, hExisting⟩
  refine ⟨throughout_sound hBounded, ?_⟩
  intro hPlain hMessages hSound
  have hOpened : (opened existing).Plain := ⟨hPlain, by simp [opened, PlainText], Nat.zero_le _⟩
  exact throughout_fits hBounded hOpened hMessages hSound

/-- Bytes that are no ASCII are read as replacement characters. -/
def replacing : Charset where
  decode bytes := bytes.map fun b => if b.toNat < 0x80 then UInt16.ofNat b.toNat else 0xFFFD
  decode_ascii := by
    intro bytes hBytes
    apply List.map_congr_left
    intro b hMem
    simp [hBytes b hMem]

/-- Two texts, one of them beyond ASCII, with room for both. -/
theorem throughout_sound_iff_short :
    Throughout replacing (Sound replacing) (opened []) [[0x65, 0x4E2D], [0x66]] := by
  refine (throughout_sound_iff replacing (by decide)).1 ⟨?_, ?_, trivial⟩
  · exact Or.inr (by decide)
  · exact Or.inr (by decide)

/-- A message that fills the file and holds no line end. -/
def fullFile : List UInt16 := List.replicate fileLength 97

/-- The first message, where it is written at once. -/
theorem write_opened {charset : Charset} {message : List UInt16}
    (hSome : bufferLength < message.length) (hRoom : message.length ≤ fileLength) :
    (opened []).write charset message = (.written, ⟨encode message, message.length,
      message.drop (message.length - 1) ++ [newline]⟩) := by
  have hNot : ¬ fileLength < message.length + 0 := by omega
  simp only [write, writeFile, opened, List.nil_append, if_pos hSome, if_neg hNot, settle, put,
    overwrite, List.take_nil, List.drop_nil, List.append_nil, Nat.zero_add, List.length_nil,
    Nat.sub_self, List.replicate_zero]

theorem write_fullFile : ((opened []).write replacing fullFile).2 =
    ⟨List.replicate fileLength 97, fileLength, [97, newline]⟩ := by
  have hAscii : Ascii fullFile := by
    intro u hMem
    rw [List.eq_of_mem_replicate hMem]
    decide
  have hBytes : encode fullFile = List.replicate fileLength 97 := by
    have hByte : byte (97 : UInt16).toNat = 97 := by decide
    rw [encode_of_ascii hAscii, fullFile, List.map_replicate, hByte]
  have hLength : fullFile.length = fileLength := List.length_replicate
  have hSome : bufferLength < fullFile.length := by
    rw [hLength]
    decide
  have hLast : fileLength - (fileLength - 1) = 1 := by decide
  have hDrop : fullFile.drop (fileLength - 1) = [97] := by
    rw [fullFile, List.drop_replicate, hLast, List.replicate_one]
  rw [write_opened hSome (Nat.le_of_eq hLength), hLength, hBytes, hDrop, List.singleton_append]

theorem readAt_fullFile : readAt 0 (List.replicate fileLength (97 : UInt8)) 2 (fileLength - 3) =
    List.replicate (fileLength - 3) 97 := by
  have hMin : min (fileLength - 3) (fileLength - 2) = fileLength - 3 := by
    apply Nat.min_eq_left
    omega
  rw [readAt, List.drop_replicate, List.take_replicate, hMin, List.length_replicate, Nat.sub_self,
    List.replicate_zero, List.append_nil]

theorem write_fullFile_next :
    FileLog.write replacing ⟨List.replicate fileLength 97, fileLength, [97, newline]⟩ [98] =
      (.failed, ⟨[97, 10], fileLength, [98, newline]⟩) := by
  have hNot : newline ∉ replacing.decode (List.replicate (fileLength - 3) 97) := by
    simp only [replacing, List.map_replicate]
    intro hMem
    exact absurd (List.eq_of_mem_replicate hMem) (by decide)
  have hSome : bufferLength < 3 := by decide
  have hFull : fileLength < 3 + fileLength := by omega
  have hShort : ¬ fileLength < 3 := by decide
  have hEncode : encode [97, newline] = [97, 10] := by decide
  simp only [write, writeFile, wrap, List.cons_append, List.nil_append, List.length_cons,
    List.length_nil, Nat.zero_add, Nat.reduceAdd, Nat.reduceSub, Nat.sub_self, List.drop_zero,
    List.take_succ_cons, List.take_zero, if_pos hSome, if_pos hFull, if_neg hShort,
    Nat.lt_irrefl, if_false, readAt_fullFile, if_neg hNot, hEncode, settle, List.drop_succ_cons]

/-- The next message finds no old line. The write fails, and nothing is left of the file but
two characters of the buffer. -/
theorem exists_not_sound :
    ∃ log, ((opened []).write replacing fullFile).2 = log ∧ log.content.length = fileLength ∧
      (log.write replacing [98]).1 = .failed ∧
      (log.write replacing [98]).2.content = [97, 10] ∧
      ¬ Throughout replacing (Sound replacing) (opened []) [fullFile, [98]] := by
  refine ⟨_, write_fullFile, List.length_replicate, ?_, ?_, ?_⟩
  · rw [write_fullFile_next]
  · rw [write_fullFile_next]
  · rintro ⟨-, hSecond, -⟩
    rw [write_fullFile] at hSecond
    have hSame := (hSecond.failed (by rw [write_fullFile_next])).1
    rw [write_fullFile_next] at hSame
    have hLength := congrArg List.length hSame
    rw [List.length_replicate] at hLength
    exact absurd hLength (by decide)

end FileLog

/-! ### The log of ASCII texts -/

def unitOf (c : Char) : UInt16 := UInt16.ofNat c.toNat

def byteOf (c : Char) : UInt8 := byte c.toNat

def AsciiText (text : Text) : Prop := ∀ c ∈ text, c.toNat < 0x80

def FileLog.ofLog (log : Log) : FileLog :=
  ⟨log.content.map byteOf, log.offset, log.buffer.map unitOf⟩

section
variable {text : Text}

theorem unitOf_toNat {c : Char} (hChar : c.toNat < 0x80) : (unitOf c).toNat = c.toNat := by
  simp only [unitOf, UInt16.toNat_ofNat']
  omega

theorem encode_unitOf (hText : AsciiText text) : encode (text.map unitOf) = text.map byteOf := by
  have hAscii : Ascii (text.map unitOf) := by
    intro u hMem
    obtain ⟨c, hChar, rfl⟩ := List.mem_map.mp hMem
    rw [unitOf_toNat (hText c hChar)]
    exact hText c hChar
  rw [encode_of_ascii hAscii, List.map_map]
  apply List.map_congr_left
  intro c hMem
  simp [byteOf, unitOf_toNat (hText c hMem)]

theorem decode_byteOf (charset : Charset) (hText : AsciiText text) :
    charset.decode (text.map byteOf) = text.map unitOf := by
  have hBytes : ∀ b ∈ text.map byteOf, b.toNat < 0x80 := by
    intro b hMem
    obtain ⟨c, hChar, rfl⟩ := List.mem_map.mp hMem
    rw [byteOf, FileLog.byte_toNat (hText c hChar)]
    exact hText c hChar
  rw [charset.decode_ascii _ hBytes, List.map_map]
  apply List.map_congr_left
  intro c hMem
  simp only [Function.comp_apply, byteOf, unitOf, FileLog.byte_toNat (hText c hMem)]

theorem unitOf_eq_newline {c : Char} (hChar : c.toNat < 0x80) : unitOf c = newline ↔ c = '\n' := by
  constructor
  · intro hUnit
    have hNat := congrArg UInt16.toNat hUnit
    rw [unitOf_toNat hChar] at hNat
    exact Char.toNat_inj.mp hNat
  · rintro rfl
    rfl

theorem newline_mem_map (hText : AsciiText text) : newline ∈ text.map unitOf ↔ '\n' ∈ text := by
  constructor
  · intro hMem
    obtain ⟨c, hChar, hUnit⟩ := List.mem_map.mp hMem
    rwa [← (unitOf_eq_newline (hText c hChar)).mp hUnit]
  · intro hMem
    exact List.mem_map.mpr ⟨'\n', hMem, rfl⟩

theorem dropWhile_map_unitOf (hText : AsciiText text) :
    (text.map unitOf).dropWhile (· ≠ newline) = (text.dropWhile (· ≠ '\n')).map unitOf := by
  induction text with
  | nil => rfl
  | cons c rest ih =>
      have hIff := unitOf_eq_newline (hText c (by simp))
      have hRest := ih fun d hMem => hText d (by simp [hMem])
      rw [List.map_cons, List.dropWhile_cons, List.dropWhile_cons]
      by_cases hLine : c = '\n'
      · simp only [hLine]
        rfl
      · have hUnit : unitOf c ≠ newline := fun hSame => hLine (hIff.mp hSame)
        simpa only [decide_eq_true hLine, decide_eq_true hUnit, if_true] using hRest

theorem AsciiText.of_subset {other : Text} (h : AsciiText text) (hSubset : other ⊆ text) :
    AsciiText other := fun c hMem => h c (hSubset hMem)

end

namespace FileLog

variable {charset : Charset} {log : Log} {message : Text} {off : Nat}

theorem put_ofLog (hBuffer : AsciiText log.buffer) :
    (ofLog log).put off = ofLog (log.put off) := by
  simp only [put, ofLog, encode_unitOf hBuffer, Log.put, List.length_map, mk.injEq, and_true]
  exact (map_overwrite (Char.ofNat 0) byteOf log.content off log.buffer).symm

theorem asciiText_load {content : Text} (hContent : AsciiText content) (pos size : Nat) :
    AsciiText (load content pos size) := by
  intro c hMem
  rcases @mem_readAt _ (Char.ofNat 0) content pos size _ hMem with
    hOld | rfl
  · exact hContent c hOld
  · decide

theorem decode_readAt {content : Text} (hContent : AsciiText content) (pos size : Nat) :
    charset.decode (readAt 0 (content.map byteOf) pos size) = (load content pos size).map unitOf := by
  have hRead : readAt 0 (content.map byteOf) pos size = (load content pos size).map byteOf :=
    (map_readAt (Char.ofNat 0) byteOf content pos size).symm
  rw [hRead]
  exact decode_byteOf charset (asciiText_load hContent pos size)

theorem wrap_ofLog (hOff : off ≤ fileLength) (hContent : AsciiText log.content)
    (hBuffer : AsciiText log.buffer) :
    ((ofLog log).wrap charset off).2 = ofLog (log.wrap off) := by
  have hStart : AsciiText ((log.buffer.take (log.buffer.length - 1)).drop (fileLength - off)) :=
    hBuffer.of_subset fun c hMem => List.mem_of_mem_take (List.mem_of_mem_drop hMem)
  have hEnd : AsciiText (log.buffer.take (fileLength - off) ++ ['\n']) := by
    intro c hMem
    rcases List.mem_append.mp hMem with hText | hLine
    · exact hBuffer c (List.mem_of_mem_take hText)
    · rw [List.mem_singleton.mp hLine]
      decide
  have hLine : [newline] = ['\n'].map unitOf := rfl
  unfold wrap Log.wrap
  simp only [ofLog, if_neg (Nat.not_lt.mpr hOff), List.length_map, ← List.map_take,
    ← List.map_drop, hLine, ← List.map_append, encode_unitOf hStart, encode_unitOf hEnd,
    decode_readAt hContent]
  by_cases hLong : fileLength < log.buffer.length
  · simp only [if_pos hLong]
  · simp only [if_neg hLong]
    generalize hRead : load log.content
      ((log.buffer.take (log.buffer.length - 1)).drop (fileLength - off)).length
      (fileLength - log.buffer.length) = b
    have hOld : AsciiText b := hRead ▸ asciiText_load hContent _ _
    have hKept : AsciiText (b.dropWhile (· ≠ '\n')) :=
      hOld.of_subset (List.dropWhile_sublist _).subset
    by_cases hIn : '\n' ∈ b
    · rw [if_pos ((newline_mem_map hOld).mpr hIn), if_pos hIn]
      simp only [dropWhile_map_unitOf hOld, encode_unitOf hKept, mk.injEq, and_true]
      rw [← List.map_append]
      exact (map_overwrite (Char.ofNat 0) byteOf _ off _).symm
    · rw [if_neg fun hFound => hIn ((newline_mem_map hOld).mp hFound), if_neg hIn]

theorem settle_ofLog : (ofLog log).settle = ofLog log.settle := by
  simp only [settle, ofLog, Log.settle, List.length_map, List.map_append, List.map_drop, mk.injEq,
    true_and]
  rfl

/-- On ASCII texts the file of bytes is the file of characters. -/
theorem writeFile_ofLog (hOff : off ≤ fileLength) (hContent : AsciiText log.content)
    (hText : AsciiText (log.buffer ++ message)) :
    ((ofLog log).writeFile charset (message.map unitOf) off).2 = ofLog (log.writeFile message off) := by
  have hAppend : { ofLog log with buffer := (ofLog log).buffer ++ message.map unitOf } =
      ofLog { log with buffer := log.buffer ++ message } := by
    simp [ofLog]
  unfold writeFile Log.writeFile
  simp only [hAppend]
  rw [show ((ofLog log).buffer ++ message.map unitOf).length = (log.buffer ++ message).length by
    simp [ofLog]]
  by_cases hSome : bufferLength < (log.buffer ++ message).length
  · rw [if_pos hSome, if_pos hSome]
    by_cases hFull : fileLength < (log.buffer ++ message).length + off
    · rw [if_pos hFull, if_pos hFull,
        @wrap_ofLog _ { log with buffer := log.buffer ++ message } _ hOff hContent hText,
        settle_ofLog]
    · rw [if_neg hFull, if_neg hFull,
        @put_ofLog { log with buffer := log.buffer ++ message } _ hText, settle_ofLog]
  · rw [if_neg hSome, if_neg hSome]
    simp [ofLog, newline, unitOf]

end FileLog

end Meet.LogUtils
