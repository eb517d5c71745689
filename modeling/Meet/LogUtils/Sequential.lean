import Mathlib.Data.List.Induction
import Meet.LogUtils.WriteFile

/-! One thread that logs message after message. What the `finally` block leaves in the buffer
is written once more in front of the next message. -/
namespace Meet.LogUtils

def fresh : Log := ⟨[], 0, []⟩

/-- The messages are written in order, each at the offset that stands. -/
def Log.writeAll (log : Log) (messages : List Text) : Log :=
  messages.foldl (fun log message => log.writeFile message log.offset) log

/-- The messages with a single line end between each two of them. -/
def joined (messages : List Text) : Text := ['\n'].intercalate messages

/-- The file holds the joined messages, and `offset` is its length. -/
def InSequence (messages : List Text) (log : Log) : Prop :=
  log.content = joined messages ∧ log.offset = (joined messages).length

theorem joined_snoc {messages : List Text} (hSome : messages ≠ []) (message : Text) :
    joined (messages ++ [message]) = joined messages ++ '\n' :: message := by
  induction messages with
  | nil => exact absurd rfl hSome
  | cons first rest ih =>
      cases rest with
      | nil => simp [joined, List.intercalate_cons_cons]
      | cons second rest =>
          have hRest := ih (List.cons_ne_nil _ _)
          simp only [joined, List.cons_append, List.intercalate_cons_cons] at hRest ⊢
          rw [hRest]
          simp

theorem Log.writeAll_snoc (log : Log) (messages : List Text) (message : Text) :
    log.writeAll (messages ++ [message]) =
      (log.writeAll messages).writeFile message (log.writeAll messages).offset := by
  simp [writeAll]

/-! ### One message -/

namespace Log

variable {log : Log} {message : Text}

/-- The buffer keeps one character of the message, with a line end behind it. -/
theorem settle_buffer (hSome : log.buffer ≠ []) : ∃ last, log.settle.buffer = [last, '\n'] := by
  have hLength : (log.buffer.drop (log.buffer.length - 1)).length = 1 := by
    have hPos := List.length_pos_iff.mpr hSome
    simp only [List.length_drop]
    omega
  obtain ⟨last, hLast⟩ := List.length_eq_one_iff.mp hLength
  exact ⟨last, by simp [settle, hLast]⟩

theorem writeFile_eq (hSome : message ≠ []) (off : Nat) :
    log.writeFile message off =
      (if fileLength < (log.buffer ++ message).length + off then
        wrap { log with buffer := log.buffer ++ message } off
      else put { log with buffer := log.buffer ++ message } off).settle := by
  have hPos : bufferLength < (log.buffer ++ message).length := by
    have := List.length_pos_iff.mpr hSome
    simp only [bufferLength, List.length_append]
    omega
  simp only [writeFile, hPos, if_true]

theorem wrap_buffer (log : Log) (off : Nat) : (log.wrap off).buffer = log.buffer := by
  unfold wrap
  dsimp only
  split_ifs <;> rfl

theorem writeFile_buffer (hSome : message ≠ []) (off : Nat) :
    ∃ last, (log.writeFile message off).buffer = [last, '\n'] := by
  rw [writeFile_eq hSome]
  apply settle_buffer
  split_ifs <;> simp [wrap_buffer, put, hSome]

/-- The part of the buffer that a wrap writes at the start of the file. -/
theorem wrap_start_length {off : Nat} (hOff : off ≤ fileLength)
    (hPasses : fileLength < log.buffer.length + off) :
    ((log.buffer.take (log.buffer.length - 1)).drop (fileLength - off)).length =
      log.buffer.length + off - (fileLength + 1) := by
  simp only [List.length_drop, List.length_take]
  omega

/-- A wrap that finds an old line takes the length of the file and its last line end from the
offset. -/
theorem wrap_offset {off : Nat} (hOff : off ≤ fileLength)
    (hPasses : fileLength < log.buffer.length + off) (hShort : log.buffer.length ≤ fileLength)
    (hLine : '\n' ∈ load log.content (log.buffer.length + off - (fileLength + 1))
      (fileLength - log.buffer.length)) :
    (log.wrap off).offset + (fileLength + 1) = log.buffer.length + off := by
  unfold wrap
  simp only [wrap_start_length hOff hPasses, hLine, if_true, if_neg (Nat.not_lt.mpr hShort)]
  omega

/-- A wrap that finds no old line leaves the offset as it is. -/
theorem wrap_offset_of_not_mem {off : Nat} (hOff : off ≤ fileLength)
    (hPasses : fileLength < log.buffer.length + off)
    (hLine : '\n' ∉ load log.content (log.buffer.length + off - (fileLength + 1))
      (fileLength - log.buffer.length)) : (log.wrap off).offset = log.offset := by
  unfold wrap
  simp only [wrap_start_length hOff hPasses, hLine, if_false]
  split_ifs <;> rfl

end Log

theorem mem_load_of_getElem? {content : Text} {pos size k : Nat} {c : Char}
    (hFound : content[k]? = some c) (hPos : pos ≤ k) (hSize : k < pos + size) :
    c ∈ load content pos size := by
  refine List.mem_append_left _ (List.mem_of_getElem? (i := k - pos) ?_)
  rw [List.getElem?_take_of_lt (by omega), List.getElem?_drop, Nat.add_sub_cancel' hPos]
  exact hFound

/-! ### Message after message -/

/-- Up to the first wrap the file grows by each message and two characters. -/
structure Straight (messages : List Text) (log : Log) : Prop where
  length : log.content.length = log.offset
  offset : log.offset = (joined messages).length + (messages.length - 1)
  room : log.offset ≤ fileLength
  buffer : ∃ last, log.buffer = [last, '\n']
  line : 2 ≤ messages.length →
    ∃ k, log.content[k]? = some '\n' ∧ messages.length ≤ k ∧ k + 1 < log.offset

/-- After a wrap the offset is behind by the length of the file and its last line end. -/
structure Wrapped (messages : List Text) (log : Log) : Prop where
  offset : log.offset + (fileLength + 1) = (joined messages).length + (messages.length - 1)
  buffer : ∃ last, log.buffer = [last, '\n']

/-- A second message that finds no room and no old line is not written. -/
structure Lost (messages : List Text) (log : Log) : Prop where
  count : messages.length = 2
  full : fileLength < (joined messages).length + 1
  offset : log.offset < (joined messages).length

section
variable {messages : List Text} {message : Text} {log : Log}

theorem length_le_joined (hSome : ∀ message ∈ messages, message ≠ []) :
    messages.length ≤ (joined messages).length := by
  induction messages using List.reverseRecOn with
  | nil => simp [joined]
  | append_singleton messages message ih =>
      have hPos := List.length_pos_iff.mpr (hSome message (by simp))
      by_cases hNone : messages = []
      · simp only [hNone, joined, List.nil_append, List.length_singleton, List.intercalate_singleton]
        omega
      · have hRest := ih fun other hMem => hSome other (by simp [hMem])
        rw [joined_snoc hNone]
        simp only [List.length_append, List.length_cons, List.length_nil]
        omega

theorem straight_first (hSome : message ≠ []) (hRoom : message.length ≤ fileLength) :
    Straight [message] (fresh.writeFile message fresh.offset) := by
  have hPut : ¬ fileLength < (fresh.buffer ++ message).length + fresh.offset := by
    simp only [fresh, List.nil_append]
    omega
  have hBuffer := @Log.writeFile_buffer fresh _ hSome fresh.offset
  rw [Log.writeFile_eq hSome, if_neg hPut] at hBuffer ⊢
  refine ⟨?_, ?_, ?_, hBuffer, by simp⟩
  · simp [Log.settle, Log.put, fresh, store]
  · simp [Log.settle, Log.put, fresh, joined]
  · simpa [Log.settle, Log.put, fresh] using hRoom

/-- The next message is written behind what the buffer holds. -/
theorem Straight.put (h : Straight messages log) (hMessages : messages ≠ [])
    (hTexts : messages.length ≤ (joined messages).length) (hSome : message ≠ [])
    (hPut : log.offset + 2 + message.length ≤ fileLength) :
    Straight (messages ++ [message]) (log.writeFile message log.offset) := by
  obtain ⟨last, hBuffer⟩ := h.buffer
  have hCount := List.length_pos_iff.mpr hMessages
  have hRoom : log.buffer.length + message.length + log.offset ≤ fileLength := by
    simp only [hBuffer, List.length_cons, List.length_nil]
    omega
  obtain ⟨hContent, hOffset, -⟩ := Log.writeFile_end h.length.symm hRoom
  have hLong : (log.content ++ log.buffer ++ message).length = log.offset + 2 + message.length := by
    simp only [List.length_append, h.length, hBuffer, List.length_cons, List.length_nil]
  refine ⟨by rw [hContent, hOffset], ?_, by omega, Log.writeFile_buffer hSome _, fun _ => ?_⟩
  · have hBefore := h.offset
    rw [hOffset, hLong, joined_snoc hMessages]
    simp only [List.length_append, List.length_cons, List.length_nil]
    omega
  · refine ⟨log.offset + 1, ?_, ?_, ?_⟩
    · have hEnd := h.length
      rw [hContent, hBuffer, List.append_assoc, List.getElem?_append_right (by omega)]
      simp [h.length]
    · have hBefore := h.offset
      simp only [List.length_append, List.length_cons, List.length_nil]
      omega
    · have hPos := List.length_pos_iff.mpr hSome
      rw [hOffset, hLong]
      omega

/-- A message without room finds an old line, unless it is the second one. -/
theorem Straight.wrap (h : Straight messages log) (hMessages : messages ≠ [])
    (hTexts : messages.length ≤ (joined messages).length) (hSome : message ≠ [])
    (hTotal : (joined (messages ++ [message])).length < fileLength)
    (hFull : fileLength < log.offset + 2 + message.length) :
    Wrapped (messages ++ [message]) (log.writeFile message log.offset) ∨
      Lost (messages ++ [message]) (log.writeFile message log.offset) := by
  obtain ⟨last, hBuffer⟩ := h.buffer
  have hCount := List.length_pos_iff.mpr hMessages
  have hPos := List.length_pos_iff.mpr hSome
  have hBefore := h.offset
  have hJoined : (joined (messages ++ [message])).length =
      (joined messages).length + 1 + message.length := by
    rw [joined_snoc hMessages]
    simp only [List.length_append, List.length_cons]
    omega
  have hLength : (log.buffer ++ message).length = 2 + message.length := by
    simp only [hBuffer, List.length_append, List.length_cons, List.length_nil]
  have hPasses : fileLength < (log.buffer ++ message).length + log.offset := by omega
  have hShort : (log.buffer ++ message).length ≤ fileLength := by omega
  have hLeft := @Log.writeFile_buffer log _ hSome log.offset
  rw [Log.writeFile_eq hSome, if_pos hPasses] at hLeft ⊢
  by_cases hLine : '\n' ∈ load log.content
      ((log.buffer ++ message).length + log.offset - (fileLength + 1))
      (fileLength - (log.buffer ++ message).length)
  · left
    have hOffset := @Log.wrap_offset { log with buffer := log.buffer ++ message } _
      h.room hPasses hShort hLine
    refine ⟨?_, hLeft⟩
    simp only [Log.settle] at hOffset ⊢
    simp only [List.length_append, List.length_cons, List.length_nil] at hJoined ⊢
    omega
  · right
    have hCountLe : ¬ 2 ≤ messages.length := by
      intro hTwo
      obtain ⟨k, hFound, hAfter, hInside⟩ := h.line hTwo
      exact hLine (mem_load_of_getElem? hFound (by omega) (by omega))
    have hOffset : (Log.wrap { log with buffer := log.buffer ++ message } log.offset).offset =
        log.offset :=
      @Log.wrap_offset_of_not_mem { log with buffer := log.buffer ++ message } _ h.room hPasses hLine
    refine ⟨?_, by omega, ?_⟩
    · simp only [List.length_append, List.length_cons, List.length_nil]
      omega
    · simp only [Log.settle, hOffset]
      omega

/-- Behind a wrap there is room for all that is to come. -/
theorem Wrapped.put (h : Wrapped messages log) (hMessages : messages ≠ [])
    (hTexts : messages.length ≤ (joined messages).length) (hSome : message ≠ [])
    (hTotal : (joined (messages ++ [message])).length < fileLength) :
    Wrapped (messages ++ [message]) (log.writeFile message log.offset) := by
  obtain ⟨last, hBuffer⟩ := h.buffer
  have hCount := List.length_pos_iff.mpr hMessages
  have hBefore := h.offset
  rw [joined_snoc hMessages] at hTotal
  have hLength : (log.buffer ++ message).length = 2 + message.length := by
    simp only [hBuffer, List.length_append, List.length_cons, List.length_nil]
  simp only [List.length_append, List.length_cons] at hTotal
  have hPut : ¬ fileLength < (log.buffer ++ message).length + log.offset := by omega
  refine ⟨?_, Log.writeFile_buffer hSome _⟩
  rw [Log.writeFile_eq hSome, if_neg hPut, joined_snoc hMessages]
  simp only [Log.settle, Log.put, hLength, List.length_append, List.length_cons, List.length_nil]
  omega

end

theorem writeAll_cases {messages : List Text} (hMessages : messages ≠ [])
    (hSome : ∀ message ∈ messages, message ≠ [])
    (hTotal : (joined messages).length < fileLength) :
    Straight messages (fresh.writeAll messages) ∨ Wrapped messages (fresh.writeAll messages) ∨
      Lost messages (fresh.writeAll messages) := by
  induction messages using List.reverseRecOn with
  | nil => exact absurd rfl hMessages
  | append_singleton messages message ih =>
      have hLast := hSome message (by simp)
      by_cases hNone : messages = []
      · subst hNone
        refine Or.inl (straight_first hLast ?_)
        simpa [joined] using Nat.le_of_lt hTotal
      · have hOthers : ∀ other ∈ messages, other ≠ [] := fun other hMem => hSome other (by simp [hMem])
        have hTexts := length_le_joined hOthers
        have hPos := List.length_pos_iff.mpr hLast
        have hJoined : (joined (messages ++ [message])).length =
            (joined messages).length + 1 + message.length := by
          rw [joined_snoc hNone]
          simp only [List.length_append, List.length_cons]
          omega
        rw [Log.writeAll_snoc]
        rcases ih hNone hOthers (by omega) with hStraight | hWrapped | hLost
        · by_cases hPut : (fresh.writeAll messages).offset + 2 + message.length ≤ fileLength
          · exact Or.inl (hStraight.put hNone hTexts hLast hPut)
          · exact Or.inr (hStraight.wrap hNone hTexts hLast hTotal (by omega))
        · exact Or.inr (Or.inl (hWrapped.put hNone hTexts hLast hTotal))
        · -- What was lost filled the file but for two characters.
          have hFull := hLost.full
          omega

/-- One thread leaves its messages in the file, one in a line, exactly if there is no more
than one of them. -/
theorem inSequence_iff {messages : List Text} (hSome : ∀ message ∈ messages, message ≠ [])
    (hTotal : (joined messages).length < fileLength) :
    InSequence messages (fresh.writeAll messages) ↔ messages.length ≤ 1 := by
  cases messages with
  | nil => exact ⟨fun _ => by simp, fun _ => ⟨rfl, rfl⟩⟩
  | cons first rest =>
      have hTexts := length_le_joined hSome
      constructor
      · rintro ⟨-, hOffset⟩
        by_contra hMore
        rcases writeAll_cases (List.cons_ne_nil _ _) hSome hTotal with hStraight | hWrapped | hLost
        · have hThere := hStraight.offset
          omega
        · have hThere := hWrapped.offset
          omega
        · have hThere := hLost.offset
          omega
      · intro hOne
        obtain rfl : rest = [] := by simpa using hOne
        have hPut : ¬ fileLength < (fresh.buffer ++ first).length + fresh.offset := by
          simp only [joined, List.intercalate_singleton] at hTotal
          simp only [fresh, List.nil_append]
          omega
        simp only [InSequence, Log.writeAll, List.foldl_cons, List.foldl_nil]
        rw [Log.writeFile_eq (hSome first (by simp)), if_neg hPut]
        simp [Log.settle, Log.put, fresh, joined, store]

theorem inSequence_iff_once :
    InSequence [['s', 't', 'a', 'r', 't']] (fresh.writeAll [['s', 't', 'a', 'r', 't']]) :=
  (inSequence_iff (by decide) (by decide)).mpr (by decide)

/-- Of two messages the last character of the first one is written twice. -/
theorem not_inSequence_two :
    (joined [['a', 'b'], ['c']]).length < fileLength ∧
    (fresh.writeAll [['a', 'b'], ['c']]).content = ['a', 'b', 'b', '\n', 'c'] ∧
    ¬ InSequence [['a', 'b'], ['c']] (fresh.writeAll [['a', 'b'], ['c']]) := by
  refine ⟨by decide, by decide, ?_⟩
  rintro ⟨hContent, -⟩
  revert hContent
  decide

end Meet.LogUtils
