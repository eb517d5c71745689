import Meet.Common.Run
import Meet.Common.Memory

/-! `LogUtils.java`. A logging call reads the static `offset` as an argument and only then
enters the synchronized `writeFile`. Any number of threads log to one file. Texts are
ASCII, so a character is a byte of the file. -/
namespace Meet.LogUtils

abbrev Text := List Char

def fileLength : Nat := 100 * 1024

def bufferLength : Nat := 0

/-- Write at a position of a random access file. A position beyond the end first extends
the file with zero bytes. -/
def store (content : Text) (pos : Nat) (text : Text) : Text :=
  content.take pos ++ List.replicate (pos - content.length) (Char.ofNat 0) ++ text
    ++ content.drop (pos + text.length)

/-- Read `size` bytes from a position into a fresh array. What the file does not fill stays
zero. -/
def load (content : Text) (pos size : Nat) : Text :=
  let found := (content.drop pos).take size
  found ++ List.replicate (size - found.length) (Char.ofNat 0)

/-- The file, and the static fields `offset` and `buffer`. -/
structure Log where
  content : Text
  offset : Nat
  buffer : Text
deriving DecidableEq, Repr

namespace Log

/-- The branch of `writeFile` for a buffer that passes the end of the file. The end of the
buffer replaces the oldest lines. The array size and the search for a line end can throw;
the fields then stay as they are at that point. -/
def wrap (log : Log) (off : Nat) : Log :=
  let subBufferEnd := log.buffer.take (fileLength - off) ++ ['\n']
  let subBufferStart := (log.buffer.take (log.buffer.length - 1)).drop (fileLength - off)
  if fileLength < log.buffer.length then log
  else
    let b := load log.content subBufferStart.length (fileLength - log.buffer.length)
    if '\n' ∈ b then
      let exist := b.dropWhile (· ≠ '\n')
      { log with
        content := store (subBufferStart ++ exist) off subBufferEnd
        offset := subBufferStart.length }
    else { log with content := subBufferStart }

/-- The branch of `writeFile` that writes the whole buffer at `off`. -/
def put (log : Log) (off : Nat) : Log :=
  { log with
    content := store log.content off log.buffer
    offset := off + log.buffer.length }

/-- The `finally` block: the last character of the buffer stays in it. -/
def settle (log : Log) : Log :=
  { log with buffer := log.buffer.drop (log.buffer.length - 1) ++ ['\n'] }

def writeFile (log : Log) (msg : Text) (off : Nat) : Log :=
  let log := { log with buffer := log.buffer ++ msg }
  if bufferLength < log.buffer.length then
    (if fileLength < log.buffer.length + off then log.wrap off else log.put off).settle
  else { log with buffer := log.buffer ++ ['\n'] }

end Log

/-- The levels of `android.util.Log`. -/
inductive Level where
  | verbose
  | debug
  | info
  | warn
  | error
  | assert
deriving DecidableEq, Repr

/-- The letter of a level; `nativeLog` writes no other level. -/
def Level.letter : Level → Option Char
  | .error => some 'E'
  | .warn => some 'W'
  | .info => some 'I'
  | _ => none

/-- What every line begins with: the time, the process and the thread. -/
structure Stamp where
  time : Text
  pid : Text
  tid : Text
deriving DecidableEq, Repr

/-- `TAG` of the class, which `nativeLog` uses. -/
def nativeTag : Text :=
  ['M', 'e', 'e', 't', 'S', 'D', 'K', '_', 'L', 'o', 'g', 'U', 't', 'i', 'l', 's']

def Stamp.line (stamp : Stamp) (letter : Char) (rest : Text) : Text :=
  stamp.time ++ [' '] ++ stamp.pid ++ [' '] ++ stamp.tid ++ [' ', letter, ' '] ++ rest

/-- The logging calls that reach `writeFile`. -/
inductive Call where
  | info (stamp : Stamp) (tag msg : Text)
  | warn (stamp : Stamp) (tag msg : Text)
  | error (stamp : Stamp) (tag msg : Text)
  | errorThrowable (stamp : Stamp) (tag msg trace : Text)
  | nativeLog (stamp : Stamp) (level : Level) (text : Text)
deriving DecidableEq, Repr

/-- The first argument of `writeFile`, where the call makes one. -/
def Call.text : Call → Option Text
  | .info stamp tag msg => some (stamp.line 'I' (tag ++ [':', ' '] ++ msg))
  | .warn stamp tag msg => some (stamp.line 'W' (tag ++ [':', ' '] ++ msg))
  | .error stamp tag msg => some (stamp.line 'E' (tag ++ [':', ' '] ++ msg))
  | .errorThrowable stamp tag msg trace =>
      some (stamp.line 'E' (tag ++ [':'] ++ msg ++ [':'] ++ trace))
  | .nativeLog stamp level text =>
      level.letter.map fun letter => stamp.line letter (nativeTag ++ [':', ' '] ++ text)

/-- A thread that has evaluated the arguments of `writeFile` and waits for the monitor. -/
structure Waiting where
  text : Text
  off : Nat
deriving DecidableEq, Repr

/-- `written` is proof data: the texts of the calls that have returned from `writeFile`, in
the order of the monitor. -/
structure State where
  log : Log
  threads : List (Option Waiting)
  written : List Text
deriving DecidableEq, Repr

/-- Before the first call. The log file of an earlier process is opened without truncation. -/
def initial (existing : Text) (threads : Nat) : State where
  log := ⟨existing, 0, []⟩
  threads := List.replicate threads none
  written := []

inductive Act where
  | call (number : Nat) (call : Call)
  | write (number : Nat)
deriving DecidableEq, Repr

def step (s : State) : Act → Option State
  | .call number call =>
      match s.threads[number]? with
      | some none =>
          match call.text with
          | some text =>
              some { s with threads := s.threads.set number (some ⟨text, s.log.offset⟩) }
          | none => some s
      | _ => none
  | .write number =>
      match s.threads[number]? with
      | some (some waiting) =>
          some { s with
            log := s.log.writeFile waiting.text waiting.off
            threads := s.threads.set number none
            written := s.written ++ [waiting.text] }
      | _ => none

/-- The characters of a region of the file. -/
def block (content : Text) (r : Region) : Text :=
  (content.drop r.start).take r.length

/-- Every text is a block of the file, the blocks do not overlap, and `offset` is the
length of the file. -/
def State.Intact (s : State) : Prop :=
  (∃ blocks : List Region, blocks.map (block s.log.content) = s.written ∧
    (∀ r ∈ blocks, r.stop ≤ s.log.content.length) ∧ blocks.Pairwise Region.Disjoint) ∧
  s.log.offset = s.log.content.length

/-- A thread enters `writeFile` with the offset that stands when it enters, and the buffer
does not pass the end of the file. -/
def upToDate (s : State) : Act → Prop
  | .call _ _ => True
  | .write number => ∀ waiting ∈ s.threads[number]?.join,
      waiting.off = s.log.offset ∧
        s.log.buffer.length + waiting.text.length + waiting.off ≤ fileLength

instance (s : State) (act : Act) : Decidable (upToDate s act) :=
  match act with
  | .call _ _ => inferInstanceAs (Decidable True)
  | .write number => inferInstanceAs (Decidable (∀ waiting ∈ s.threads[number]?.join, _ ∧ _))

/-! ### Writing at the end -/

theorem store_length (content text : Text) : store content content.length text = content ++ text := by
  simp [store]

theorem block_append {content : Text} {r : Region} (hStop : r.stop ≤ content.length)
    (text : Text) : block (content ++ text) r = block content r := by
  unfold Region.stop at hStop
  simp only [block]
  rw [List.drop_append_of_le_length (by omega), List.take_append_of_le_length]
  simp only [List.length_drop]
  omega

theorem block_end (content text : Text) :
    block (content ++ text) ⟨content.length, text.length⟩ = text := by
  simp [block]

/-- `writeFile` at the end of a file with room for the buffer. -/
theorem Log.writeFile_end {log : Log} {msg : Text} (hOffset : log.offset = log.content.length)
    (hRoom : log.buffer.length + msg.length + log.offset ≤ fileLength) :
    (log.writeFile msg log.offset).content = log.content ++ log.buffer ++ msg ∧
    (log.writeFile msg log.offset).offset = (log.content ++ log.buffer ++ msg).length ∧
    0 < (log.writeFile msg log.offset).buffer.length := by
  have hPut : ¬ fileLength < (log.buffer ++ msg).length + log.offset := by
    simp only [List.length_append]
    omega
  unfold writeFile
  by_cases hBuffer : bufferLength < (log.buffer ++ msg).length
  · simp only [hBuffer, hPut, if_true, if_false]
    refine ⟨?_, ?_, ?_⟩
    · simp [settle, put, hOffset, store_length]
    · simp [settle, put, hOffset]
    · simp [settle]
  · simp only [hBuffer, if_false]
    have hEmpty : log.buffer = [] ∧ msg = [] := by
      simpa [bufferLength] using hBuffer
    simp [hEmpty.1, hEmpty.2, hOffset]

/-- The blocks lie in the order of the monitor, and the next one begins where the buffer
ends. -/
structure Laid (s : State) : Prop where
  blocks : ∃ blocks : List Region, blocks.map (block s.log.content) = s.written ∧
    (∀ r ∈ blocks, r.stop ≤ s.log.content.length) ∧
    Region.Packed 0 (s.log.content.length + s.log.buffer.length) blocks
  offset : s.log.offset = s.log.content.length

theorem Laid.intact {s : State} (h : Laid s) : s.Intact := by
  obtain ⟨blocks, hTexts, hInside, hPacked⟩ := h.blocks
  exact ⟨⟨blocks, hTexts, hInside, hPacked.pairwise⟩, h.offset⟩

theorem laid_initial (threads : Nat) : Laid (initial [] threads) where
  blocks := ⟨[], by simp [initial, Region.Packed]⟩
  offset := rfl

/-- One more text at the end of the file is one more block. -/
theorem Laid.write {s : State} (h : Laid s) {waiting : Waiting}
    (hOff : waiting.off = s.log.offset)
    (hRoom : s.log.buffer.length + waiting.text.length + waiting.off ≤ fileLength)
    (threads : List (Option Waiting)) :
    Laid ⟨s.log.writeFile waiting.text waiting.off, threads, s.written ++ [waiting.text]⟩ := by
  rw [hOff] at hRoom ⊢
  obtain ⟨hContent, hOffset, hBuffer⟩ := Log.writeFile_end h.offset hRoom
  obtain ⟨blocks, hTexts, hInside, hPacked⟩ := h.blocks
  let last : Region := ⟨(s.log.content ++ s.log.buffer).length, waiting.text.length⟩
  have hLast : last.stop = (s.log.content ++ s.log.buffer ++ waiting.text).length := by
    simp [last, Region.stop, Nat.add_assoc]
  refine ⟨⟨blocks ++ [last], ?_, ?_, ?_⟩, ?_⟩
  · have hKept : blocks.map (block (s.log.content ++ s.log.buffer ++ waiting.text)) = s.written := by
      rw [← hTexts]
      apply List.map_congr_left
      intro r hr
      rw [List.append_assoc]
      exact block_append (hInside r hr) _
    simp only [hContent, List.map_append, hKept, List.map_cons, List.map_nil]
    rw [block_end]
  · intro r hr
    rw [hContent]
    rcases List.mem_append.mp hr with hOld | hNew
    · have hOldStop := hInside r hOld
      simp only [List.length_append]
      omega
    · rw [List.mem_singleton.mp hNew]
      exact Nat.le_of_eq hLast
  · have hAll := hPacked.snoc last (by simp [last])
    refine hAll.mono (Nat.le_refl 0) ?_
    rw [hLast, hContent]
    exact Nat.add_le_add_left hBuffer _
  · rw [hOffset, hContent]

theorem laid_step {before after : State} {act : Act} (hBefore : Laid before)
    (hGuard : upToDate before act) (hStep : step before act = some after) : Laid after := by
  cases act with
  | call number call =>
      simp only [step] at hStep
      split at hStep
      · split at hStep
        · obtain rfl := Option.some.inj hStep
          exact ⟨hBefore.blocks, hBefore.offset⟩
        · obtain rfl := Option.some.inj hStep
          exact hBefore
      · simp at hStep
  | write number =>
      simp only [step] at hStep
      split at hStep
      · rename_i waiting hThread
        obtain ⟨hOff, hRoom⟩ := hGuard waiting (by simp [hThread])
        obtain rfl := Option.some.inj hStep
        exact hBefore.write hOff hRoom _
      · simp at hStep

/-- While every thread writes at the offset that stands, the log is intact. -/
theorem run_intact {threads : Nat} {acts : List Act} {s : State}
    (run : Run step upToDate (initial [] threads) acts s) : s.Intact := by
  have hLaid : Laid s := by
    refine run.invariant (laid_initial threads) ?_
    intro before act after hBefore hGuard hStep
    exact laid_step hBefore hGuard hStep
  exact hLaid.intact

def firstCall : Call := .info ⟨['1', '2'], ['7'], ['8']⟩ ['A'] ['s', 't', 'a', 'r', 't']

def secondCall : Call := .nativeLog ⟨['1', '2'], ['7'], ['9']⟩ .error ['e', 'n', 'd']

/-- The second thread reads the offset after the first has written. -/
theorem run_intact_inTurn : ∃ s, Run step upToDate (initial [] 2)
    [.call 0 firstCall, .write 0, .call 1 secondCall, .write 1] s ∧
    s.written = [firstCall, secondCall].filterMap Call.text ∧ s.Intact := by
  obtain ⟨s, run, hWritten⟩ := Run.exists_of_execGuarded
    (fun s : State => s.written = [firstCall, secondCall].filterMap Call.text)
    (show (execGuarded step upToDate (initial [] 2)
      [.call 0 firstCall, .write 0, .call 1 secondCall, .write 1]).any _ = true by decide +kernel)
  exact ⟨s, run, hWritten, run_intact run⟩

/-- No region of the file holds the text. -/
theorem not_intact_of_missing {s : State} (text : Text) (hWritten : text ∈ s.written)
    (hMissing : ∀ start ≤ s.log.content.length,
      (s.log.content.drop start).take text.length ≠ text) : ¬ s.Intact := by
  rintro ⟨⟨blocks, hTexts, hInside, -⟩, -⟩
  rw [← hTexts] at hWritten
  obtain ⟨r, hr, hText⟩ := List.mem_map.mp hWritten
  have hStop : r.start + r.length ≤ s.log.content.length := hInside r hr
  have hLength : text.length = r.length := by
    rw [← hText]
    simp only [block, List.length_take, List.length_drop]
    omega
  apply hMissing r.start (by omega)
  rw [hLength]
  exact hText

/-- Two threads read the same offset, and the second text is written over the first. -/
theorem exists_not_intact : ∃ s, Run step unguarded (initial [] 2)
    [.call 0 firstCall, .call 1 secondCall, .write 0, .write 1] s ∧
    s.written.flatten.length < fileLength ∧ ¬ s.Intact := by
  obtain ⟨text, hText⟩ : ∃ text, firstCall.text = some text := ⟨_, rfl⟩
  obtain ⟨s, run, hTotal, hWritten, hMissing⟩ := Run.exists_of_exec
    (fun s : State => s.written.flatten.length < fileLength ∧
      firstCall.text.all (fun text => text ∈ s.written) = true ∧
      ∀ start ≤ s.log.content.length, firstCall.text.all (fun text =>
        (s.log.content.drop start).take text.length ≠ text) = true)
    (show (exec step (initial [] 2)
      [.call 0 firstCall, .call 1 secondCall, .write 0, .write 1]).any _ = true by decide +kernel)
  refine ⟨s, run, hTotal, not_intact_of_missing text ?_ ?_⟩
  · simpa [hText] using hWritten
  · simpa [hText] using hMissing

end Meet.LogUtils
