import Meet.Common.Memory
import Mathlib.Algebra.Group.Nat.Defs
import Mathlib.Tactic.SplitIfs

/-! The conversion of a video sample, `PPExtractor::constructNalus`, with
`size_t` of 32 bits. A sample is a memory and a length, so that a read past
the end of the sample meets whatever lies there. -/
namespace Meet

/-- Addition of `size_t` values on the 32-bit target. -/
def addSize (a b : Nat) : Nat := (a + b) % 2 ^ 32

theorem addSize_of_lt {a b : Nat} (h : a + b < 2 ^ 32) : addSize a b = a + b :=
  Nat.mod_eq_of_lt h

namespace PPExtractor

/-- What the constructor reads from the stream headers and never changes
afterwards. An absent track has the index `(uint32_t)-1`. -/
structure Config where
  mTrackCount : Nat
  mVideoTrackID : Nat
  mAudioTrackID : Nat
  mNALLengthSize : Nat
  mDurationTimeUs : Nat
deriving DecidableEq, Repr

/-- The bytes of a sample whose packet could be allocated: both lie in the
address space beside the ring of `video_buffer_size` bytes, below the kernel's
addresses. -/
structure SampleBuffer where
  buffer : Memory
  bufferLength : Nat
  fits : 2 * bufferLength + 100 + 6291456 ≤ 0xC0000000

/-- The most significant byte comes first. -/
def bigEndian (bytes : List UInt8) : Nat :=
  bytes.foldl (fun value byte => value * 256 + byte.toNat) 0

/-- The value is `none` where the source says that it cannot happen. -/
def parseNALSize (cfg : Config) (src : Memory) (srcOffset : Nat) : Option Nat :=
  match cfg.mNALLengthSize with
  | 1 | 2 | 3 | 4 => some (bigEndian (src.read srcOffset cfg.mNALLengthSize))
  | _ => none

/-- A unit that the conversion leaves out of a broadcast stream. -/
def ignored (cfg : Config) (first : UInt8) : Bool :=
  cfg.mDurationTimeUs == 0 && [6, 7, 8, 9].contains (first &&& 31)

/-- The bytes written so far are `dst`; their number is `dstOffset` and
`totalWrittenLen` of the source. -/
structure NaluLoop where
  srcOffset : Nat
  dst : List UInt8
  startFrame : Bool
deriving DecidableEq, Repr

/-- How a call of `constructNalus` ends. A copy that runs over the end of the
address space is a `fault`. -/
inductive Converted where
  | written (dst : List UInt8)
  | error (dst : List UInt8)
  | checkFailed
  | fault
deriving DecidableEq, Repr

inductive NaluPass where
  | again (s : NaluLoop)
  | leave (outcome : Converted)
deriving DecidableEq, Repr

/-- The start code of the first unit of a frame is one byte longer. -/
def startCode (startFrame : Bool) : List UInt8 :=
  if startFrame then [0, 0, 0, 1] else [0, 0, 1]

/-- Write one unit with its start code. -/
def writeNalu (src : Memory) (size : Nat) (s : NaluLoop) (srcOffset nalLength : Nat) : NaluPass :=
  if size < addSize s.dst.length (startCode s.startFrame).length then .leave .checkFailed
  else if 2 ^ 32 ≤ srcOffset + nalLength then .leave .fault
  else .again
    { srcOffset := srcOffset + nalLength
      dst := s.dst ++ startCode s.startFrame ++ src.read srcOffset nalLength
      startFrame := false }

/-- What follows the length field: the bounds test, the two cases that write
nothing, and the copy. -/
def handleNalu (cfg : Config) (src : Memory) (size : Nat) (s : NaluLoop)
    (srcOffset nalLength : Nat) : NaluPass :=
  if size < addSize srcOffset nalLength then .leave (.error s.dst)
  else if nalLength = 0 then .again { s with srcOffset }
  else if ignored cfg (src srcOffset) then
    .again { s with srcOffset := addSize srcOffset nalLength }
  else writeNalu src size s srcOffset nalLength

/-- One pass of the `while` loop. -/
def naluPass (cfg : Config) (src : Memory) (size : Nat) (s : NaluLoop) : NaluPass :=
  if s.srcOffset < size then
    if size < addSize s.srcOffset cfg.mNALLengthSize then .leave .checkFailed
    else match parseNALSize cfg src s.srcOffset with
      | none => .leave .checkFailed
      | some nalLength =>
          handleNalu cfg src size s (addSize s.srcOffset cfg.mNALLengthSize) nalLength
  else .leave (.written s.dst)

/-- The loop, cut off after `fuel` passes. -/
def naluPasses (cfg : Config) (src : Memory) (size : Nat) : Nat → NaluLoop → Option Converted
  | 0, _ => none
  | fuel + 1, s =>
      match naluPass cfg src size s with
      | .again next => naluPasses cfg src size fuel next
      | .leave outcome => some outcome

def constructNalus (cfg : Config) (src : Memory) (size fuel : Nat) : Option Converted :=
  naluPasses cfg src size fuel ⟨0, [], true⟩

/-- The value of the length field at an offset. -/
def field (cfg : Config) (src : Memory) (offset : Nat) : Nat :=
  bigEndian (src.read offset cfg.mNALLengthSize)

/-- What a unit adds to the bytes written so far before its own bytes. -/
def startCodeLength (dstOffset : Nat) : Nat := if dstOffset = 0 then 4 else 3

/-- The places where a walk along the sample meets a length field, with the
number of bytes the units before it convert to. Lengths are added in 32 bits,
so that a left out unit can lead back into the sample. -/
inductive FieldAt (cfg : Config) (src : Memory) (size : Nat) : Nat → Nat → Prop where
  | first : FieldAt cfg src size 0 0
  | empty {offset dstOffset : Nat} (prior : FieldAt cfg src size offset dstOffset)
      (hWhole : offset + cfg.mNALLengthSize ≤ size) (hEmpty : field cfg src offset = 0) :
      FieldAt cfg src size (offset + cfg.mNALLengthSize) dstOffset
  | leftOut {offset dstOffset : Nat} (prior : FieldAt cfg src size offset dstOffset)
      (hWhole : offset + cfg.mNALLengthSize ≤ size) (hUnit : field cfg src offset ≠ 0)
      (hInside : addSize (offset + cfg.mNALLengthSize) (field cfg src offset) ≤ size)
      (hIgnored : ignored cfg (src (offset + cfg.mNALLengthSize)) = true) :
      FieldAt cfg src size
        (addSize (offset + cfg.mNALLengthSize) (field cfg src offset)) dstOffset
  | kept {offset dstOffset : Nat} (prior : FieldAt cfg src size offset dstOffset)
      (hUnit : field cfg src offset ≠ 0)
      (hInside : offset + cfg.mNALLengthSize + field cfg src offset ≤ size)
      (hKept : ignored cfg (src (offset + cfg.mNALLengthSize)) = false)
      (hCode : dstOffset + startCodeLength dstOffset ≤ size) :
      FieldAt cfg src size (offset + cfg.mNALLengthSize + field cfg src offset)
        (dstOffset + startCodeLength dstOffset + field cfg src offset)

/-- The walk meets a length field, inside the sample, that announces more
bytes than are left. -/
def FieldOverrun (cfg : Config) (src : Memory) (size : Nat) : Prop :=
  ∃ offset dstOffset, FieldAt cfg src size offset dstOffset ∧
    offset + cfg.mNALLengthSize ≤ size ∧
    size < addSize (offset + cfg.mNALLengthSize) (field cfg src offset)

theorem FieldAt.bounds {cfg : Config} {src : Memory} {size offset dstOffset : Nat}
    (h : FieldAt cfg src size offset dstOffset) : offset ≤ size ∧ dstOffset ≤ 2 * size := by
  induction h with
  | first => exact ⟨Nat.zero_le _, Nat.zero_le _⟩
  | empty prior hWhole hEmpty ih => exact ⟨hWhole, ih.2⟩
  | leftOut prior hWhole hUnit hInside hIgnored ih => exact ⟨hInside, ih.2⟩
  | kept prior hUnit hInside hKept hCode ih => exact ⟨hInside, by omega⟩

section Passes

variable {cfg : Config} {src : Memory} {size : Nat}
    (hWidth : 1 ≤ cfg.mNALLengthSize ∧ cfg.mNALLengthSize ≤ 4) (hSize : 2 * size + 4 < 2 ^ 32)

/-- The loop stands at a place of the walk. -/
structure Walks (cfg : Config) (src : Memory) (size : Nat) (s : NaluLoop) : Prop where
  at_field : FieldAt cfg src size s.srcOffset s.dst.length
  startFrame_eq : s.startFrame = decide (s.dst.length = 0)

theorem Walks.first : Walks cfg src size ⟨0, [], true⟩ :=
  ⟨FieldAt.first, rfl⟩

theorem Walks.startCode_length {s : NaluLoop} (h : Walks cfg src size s) :
    (startCode s.startFrame).length = startCodeLength s.dst.length := by
  rw [h.startFrame_eq]
  by_cases hZero : s.dst.length = 0 <;> simp [hZero, startCode, startCodeLength]

theorem startCodeLength_bounds (dstOffset : Nat) :
    3 ≤ startCodeLength dstOffset ∧ startCodeLength dstOffset ≤ 4 := by
  unfold startCodeLength
  split_ifs <;> omega

/-- The call comes through `s`: what the loop gives from there it gives from
the start. -/
def Reached (cfg : Config) (src : Memory) (size : Nat) (s : NaluLoop) : Prop :=
  ∀ fuel outcome, naluPasses cfg src size fuel s = some outcome →
    ∃ fuel', constructNalus cfg src size fuel' = some outcome

/-- The states the loop comes through. -/
inductive Loops (cfg : Config) (src : Memory) (size : Nat) : NaluLoop → Prop where
  | first : Loops cfg src size ⟨0, [], true⟩
  | again {s s' : NaluLoop} (prior : Loops cfg src size s)
      (hPass : naluPass cfg src size s = .again s') : Loops cfg src size s'

theorem Loops.reached {s : NaluLoop} (h : Loops cfg src size s) : Reached cfg src size s := by
  induction h with
  | first => exact fun fuel _ hRun => ⟨fuel, hRun⟩
  | again prior hPass ih =>
      intro fuel outcome hRun
      exact ih (fuel + 1) outcome (by simpa [naluPasses, hPass] using hRun)

section
include hWidth

theorem parseNALSize_eq (offset : Nat) :
    parseNALSize cfg src offset = some (field cfg src offset) := by
  have hFour : cfg.mNALLengthSize = 1 ∨ cfg.mNALLengthSize = 2 ∨ cfg.mNALLengthSize = 3 ∨
      cfg.mNALLengthSize = 4 := by omega
  rcases hFour with h | h | h | h <;> simp [parseNALSize, field, h]

end

section
include hSize

/-- Writing a unit stays on the walk unless a check or the copy stops it. -/
theorem Walks.writeNalu {s : NaluLoop} (h : Walks cfg src size s)
    (hUnit : field cfg src s.srcOffset ≠ 0)
    (hInside : ¬ size < addSize (s.srcOffset + cfg.mNALLengthSize) (field cfg src s.srcOffset))
    (hKept : ignored cfg (src (s.srcOffset + cfg.mNALLengthSize)) = false) :
    PPExtractor.writeNalu src size s (s.srcOffset + cfg.mNALLengthSize)
        (field cfg src s.srcOffset) = .leave .checkFailed ∨
    PPExtractor.writeNalu src size s (s.srcOffset + cfg.mNALLengthSize)
        (field cfg src s.srcOffset) = .leave .fault ∨
    ∃ s', PPExtractor.writeNalu src size s (s.srcOffset + cfg.mNALLengthSize)
        (field cfg src s.srcOffset) = .again s' ∧ Walks cfg src size s' := by
  obtain ⟨_, hDst⟩ := h.at_field.bounds
  obtain ⟨hPositive, hFour⟩ := startCodeLength_bounds s.dst.length
  unfold PPExtractor.writeNalu
  rw [h.startCode_length, addSize_of_lt (by omega)]
  split_ifs with hCode hWrap
  · exact Or.inl rfl
  · exact Or.inr (Or.inl rfl)
  · rw [addSize_of_lt (by omega)] at hInside
    have hNext := h.at_field.kept hUnit (by omega) hKept (by omega)
    refine Or.inr (Or.inr ⟨_, rfl, ?_, ?_⟩)
    · simpa [h.startCode_length, Nat.add_assoc] using hNext
    · simp only [List.length_append, h.startCode_length, Memory.read_length]
      exact (decide_eq_false (by omega)).symm

include hWidth

/-- A pass that finds a whole length field. -/
theorem naluPass_eq {s : NaluLoop} (hMore : s.srcOffset < size)
    (hWhole : s.srcOffset + cfg.mNALLengthSize ≤ size) :
    naluPass cfg src size s = handleNalu cfg src size s (s.srcOffset + cfg.mNALLengthSize)
      (field cfg src s.srcOffset) := by
  have hEnd : addSize s.srcOffset cfg.mNALLengthSize = s.srcOffset + cfg.mNALLengthSize :=
    addSize_of_lt (by omega)
  simp [naluPass, hMore, hEnd, parseNALSize_eq hWidth, Nat.not_lt.mpr hWhole]

/-- What one pass can do from a place of the walk. -/
theorem naluPass_cases {s : NaluLoop} (h : Walks cfg src size s) :
    (∃ s', naluPass cfg src size s = .again s' ∧ Walks cfg src size s') ∨
    naluPass cfg src size s = .leave (.written s.dst) ∨
    (naluPass cfg src size s = .leave (.error s.dst) ∧ FieldOverrun cfg src size) ∨
    naluPass cfg src size s = .leave .checkFailed ∨ naluPass cfg src size s = .leave .fault := by
  by_cases hMore : s.srcOffset < size
  swap
  · exact Or.inr (Or.inl (by simp [naluPass, hMore]))
  by_cases hWhole : s.srcOffset + cfg.mNALLengthSize ≤ size
  swap
  · have hEnd : addSize s.srcOffset cfg.mNALLengthSize = s.srcOffset + cfg.mNALLengthSize :=
      addSize_of_lt (by omega)
    exact Or.inr (Or.inr (Or.inr (Or.inl (by simp [naluPass, hMore, hEnd, Nat.not_le.mp hWhole]))))
  rw [naluPass_eq hWidth hSize hMore hWhole]
  unfold handleNalu
  split_ifs with hOver hEmpty hIgnored
  · exact Or.inr (Or.inr (Or.inl ⟨rfl, _, _, h.at_field, hWhole, hOver⟩))
  · exact Or.inl ⟨_, rfl, h.at_field.empty hWhole hEmpty, h.startFrame_eq⟩
  · exact Or.inl ⟨_, rfl, h.at_field.leftOut hWhole hEmpty (by omega) hIgnored, h.startFrame_eq⟩
  · rcases h.writeNalu hSize hEmpty hOver (by simpa using hIgnored) with hCheck | hFault | hNext
    · exact Or.inr (Or.inr (Or.inr (Or.inl hCheck)))
    · exact Or.inr (Or.inr (Or.inr (Or.inr hFault)))
    · exact Or.inl hNext

/-- Every outcome of the loop, from a place of the walk. -/
theorem naluPasses_cases {fuel : Nat} {s : NaluLoop} {outcome : Converted}
    (h : Walks cfg src size s) (hRun : naluPasses cfg src size fuel s = some outcome) :
    (∃ dst, outcome = .written dst ∧ dst.length ≤ 2 * size) ∨
    (∃ dst, outcome = .error dst ∧ FieldOverrun cfg src size) ∨
    outcome = .checkFailed ∨ outcome = .fault := by
  induction fuel generalizing s with
  | zero => simp [naluPasses] at hRun
  | succ fuel ih =>
      rcases naluPass_cases hWidth hSize h with
        ⟨s', hPass, hNext⟩ | hPass | ⟨hPass, hOverrun⟩ | hPass | hPass <;>
        simp only [naluPasses, hPass, Option.some.injEq] at hRun
      · exact ih hNext hRun
      · exact Or.inl ⟨s.dst, hRun.symm, h.at_field.bounds.2⟩
      · exact Or.inr (Or.inl ⟨s.dst, hRun.symm, hOverrun⟩)
      · exact Or.inr (Or.inr (Or.inl hRun.symm))
      · exact Or.inr (Or.inr (Or.inr hRun.symm))

/-- The loop comes to every place of the walk. -/
theorem FieldAt.reached {offset dstOffset : Nat} (h : FieldAt cfg src size offset dstOffset) :
    ∃ s, s.srcOffset = offset ∧ s.dst.length = dstOffset ∧ Walks cfg src size s ∧
      Loops cfg src size s := by
  induction h with
  | first => exact ⟨⟨0, [], true⟩, rfl, rfl, Walks.first, Loops.first⟩
  | empty prior hWhole hEmpty ih =>
      obtain ⟨s, rfl, rfl, hWalks, hLoops⟩ := ih
      refine ⟨{ s with srcOffset := s.srcOffset + cfg.mNALLengthSize }, rfl, rfl,
        ⟨prior.empty hWhole hEmpty, hWalks.startFrame_eq⟩, hLoops.again ?_⟩
      rw [naluPass_eq hWidth hSize (by omega) hWhole, handleNalu, hEmpty,
        addSize_of_lt (by omega), if_neg (by omega), if_pos rfl]
  | leftOut prior hWhole hUnit hInside hIgnored ih =>
      obtain ⟨s, rfl, rfl, hWalks, hLoops⟩ := ih
      refine ⟨{ s with srcOffset := addSize (s.srcOffset + cfg.mNALLengthSize) _ }, rfl, rfl,
        ⟨prior.leftOut hWhole hUnit hInside hIgnored, hWalks.startFrame_eq⟩, hLoops.again ?_⟩
      rw [naluPass_eq hWidth hSize (by omega) hWhole, handleNalu, if_neg (by omega),
        if_neg hUnit, if_pos hIgnored]
  | kept prior hUnit hInside hKept hCode ih =>
      obtain ⟨s, rfl, rfl, hWalks, hLoops⟩ := ih
      have hOver : ¬ size < addSize (s.srcOffset + cfg.mNALLengthSize)
          (field cfg src s.srcOffset) := by
        rw [addSize_of_lt (by omega)]
        omega
      have hPass : naluPass cfg src size s = .again
          { srcOffset := s.srcOffset + cfg.mNALLengthSize + field cfg src s.srcOffset
            dst := s.dst ++ startCode s.startFrame ++
              src.read (s.srcOffset + cfg.mNALLengthSize) (field cfg src s.srcOffset)
            startFrame := false } := by
        rw [naluPass_eq hWidth hSize (by omega) (by omega), handleNalu, if_neg hOver,
          if_neg hUnit, if_neg (by simp [hKept]), PPExtractor.writeNalu,
          hWalks.startCode_length, addSize_of_lt (by omega), if_neg (by omega),
          if_neg (by omega)]
      have hLength := hWalks.startCode_length
      refine ⟨_, rfl, by simp [hLength, Nat.add_assoc], ⟨?_, ?_⟩, hLoops.again hPass⟩
      · simpa [hLength, Nat.add_assoc] using prior.kept hUnit hInside hKept hCode
      · have hPositive := startCodeLength_bounds s.dst.length
        simp only [List.length_append, hLength, Memory.read_length]
        exact (decide_eq_false (by omega)).symm

/-- The error value is returned exactly for the samples whose walk meets an
overrunning length field. -/
theorem constructNalus_error_iff :
    (∃ fuel dst, constructNalus cfg src size fuel = some (.error dst)) ↔
      FieldOverrun cfg src size := by
  constructor
  · rintro ⟨fuel, dst, hRun⟩
    rcases naluPasses_cases hWidth hSize Walks.first hRun with
      ⟨_, h, _⟩ | ⟨_, _, hOverrun⟩ | h | h
    · simp at h
    · exact hOverrun
    · simp at h
    · simp at h
  · rintro ⟨offset, dstOffset, hField, hWhole, hOver⟩
    obtain ⟨s, rfl, rfl, hWalks, hLoops⟩ := hField.reached hWidth hSize
    have hPass : naluPass cfg src size s = .leave (.error s.dst) := by
      rw [naluPass_eq hWidth hSize (by omega) hWhole, handleNalu, if_pos hOver]
    obtain ⟨fuel, hRun⟩ := hLoops.reached 1 (.error s.dst) (by simp [naluPasses, hPass])
    exact ⟨fuel, s.dst, hRun⟩

end

end Passes

/-- The length fields from `offset` on, at most `fuel` of them, tile the rest of
the sample exactly. -/
def tiles (cfg : Config) (src : Memory) (size : Nat) : Nat → Nat → Bool
  | 0, _ => false
  | fuel + 1, offset =>
      offset == size ||
        (offset + cfg.mNALLengthSize + field cfg src offset ≤ size &&
          tiles cfg src size fuel (offset + cfg.mNALLengthSize + field cfg src offset))

/-- The sample is well formed. A field is at least one byte long, so there are
fewer fields than one more than the sample has bytes. -/
def SampleBuffer.wellFormed (cfg : Config) (sample : SampleBuffer) : Bool :=
  tiles cfg sample.buffer sample.bufferLength (sample.bufferLength + 1) 0

section Tiled

variable {cfg : Config} {src : Memory} {size : Nat}

/-- The outcome does not depend on how many passes are allowed. -/
theorem naluPasses_unique {fuel fuel' : Nat} {s : NaluLoop} {outcome outcome' : Converted}
    (h : naluPasses cfg src size fuel s = some outcome)
    (h' : naluPasses cfg src size fuel' s = some outcome') : outcome = outcome' := by
  induction fuel generalizing s fuel' with
  | zero => simp [naluPasses] at h
  | succ fuel ih =>
      cases fuel' with
      | zero => simp [naluPasses] at h'
      | succ fuel' =>
          cases hPass : naluPass cfg src size s with
          | again next =>
              simp only [naluPasses, hPass] at h h'
              exact ih h h'
          | leave last =>
              simp only [naluPasses, hPass, Option.some.injEq] at h h'
              exact h.symm.trans h'

/-- A sample of one unit is well formed. -/
theorem tiles_oneUnit (hWide : 0 < cfg.mNALLengthSize)
    (hWhole : cfg.mNALLengthSize + field cfg src 0 = size) :
    tiles cfg src size (size + 1) 0 = true := by
  obtain ⟨rest, rfl⟩ : ∃ rest, size = rest + 1 := ⟨size - 1, by omega⟩
  simp [tiles, hWhole]

/-- The output is at most one byte ahead of the input, and empty before the first
unit is written. -/
structure Abreast (s : NaluLoop) : Prop where
  ahead : s.dst.length ≤ s.srcOffset + 1
  fresh : s.startFrame = true → s.dst = []

theorem Abreast.startCode_fits {s : NaluLoop} (h : Abreast s) {width : Nat} (hWide : 3 ≤ width) :
    s.dst.length + (startCode s.startFrame).length ≤ s.srcOffset + width + 1 := by
  have hAhead := h.ahead
  cases hFirst : s.startFrame with
  | true =>
      simp only [h.fresh hFirst, startCode, List.length_nil, if_true, List.length_cons]
      omega
  | false =>
      simp only [startCode, List.length_cons, List.length_nil, Bool.false_eq_true, if_false]
      omega

section
variable (hWide : 3 ≤ cfg.mNALLengthSize ∧ cfg.mNALLengthSize ≤ 4)
    (hSize : 2 * size + 4 < 2 ^ 32)
include hWide hSize

/-- A pass at a unit that lies inside the sample goes on behind it. -/
theorem Abreast.naluPass {s : NaluLoop} (h : Abreast s)
    (hInside : s.srcOffset + cfg.mNALLengthSize + field cfg src s.srcOffset ≤ size) :
    ∃ s', PPExtractor.naluPass cfg src size s = .again s' ∧
      s'.srcOffset = s.srcOffset + cfg.mNALLengthSize + field cfg src s.srcOffset ∧
      Abreast s' := by
  have hAhead := h.ahead
  rw [naluPass_eq (by omega) hSize (by omega) (by omega), handleNalu, addSize_of_lt (by omega),
    if_neg (by omega)]
  by_cases hEmpty : field cfg src s.srcOffset = 0
  · refine ⟨_, if_pos hEmpty, by simp [hEmpty], ⟨?_, h.fresh⟩⟩
    simp only
    omega
  rw [if_neg hEmpty]
  by_cases hIgnored : ignored cfg (src (s.srcOffset + cfg.mNALLengthSize)) = true
  · refine ⟨_, if_pos hIgnored, rfl, ⟨?_, h.fresh⟩⟩
    simp only
    omega
  have hCode := h.startCode_fits hWide.1
  rw [if_neg hIgnored, writeNalu, addSize_of_lt (by omega), if_neg (by omega), if_neg (by omega)]
  refine ⟨_, rfl, rfl, ⟨?_, by simp⟩⟩
  simp only [List.length_append, Memory.read_length]
  omega

theorem naluPasses_of_tiles {fuel : Nat} {s : NaluLoop} (h : Abreast s)
    (hTiles : tiles cfg src size fuel s.srcOffset = true) :
    ∃ dst, naluPasses cfg src size fuel s = some (.written dst) := by
  induction fuel generalizing s with
  | zero => simp [tiles] at hTiles
  | succ fuel ih =>
      by_cases hEnd : s.srcOffset = size
      · exact ⟨s.dst, by simp [naluPasses, PPExtractor.naluPass, hEnd]⟩
      · simp only [tiles, Bool.or_eq_true, beq_iff_eq, hEnd, false_or, Bool.and_eq_true,
          decide_eq_true_eq] at hTiles
        obtain ⟨s', hPass, hNext, hAbreast⟩ := h.naluPass hWide hSize hTiles.1
        simp only [naluPasses, hPass]
        exact ih hAbreast (hNext ▸ hTiles.2)

/-- A sample of one unit is converted in two passes. -/
theorem constructNalus_oneUnit (hUnit : field cfg src 0 ≠ 0)
    (hWhole : cfg.mNALLengthSize + field cfg src 0 = size)
    (hKept : ignored cfg (src cfg.mNALLengthSize) = false) :
    constructNalus cfg src size 2 =
      some (.written ([0, 0, 0, 1] ++ src.read cfg.mNALLengthSize (field cfg src 0))) := by
  have hFirst : PPExtractor.naluPass cfg src size ⟨0, [], true⟩ = .again
      ⟨size, [0, 0, 0, 1] ++ src.read cfg.mNALLengthSize (field cfg src 0), false⟩ := by
    rw [naluPass_eq (by omega) hSize (by simp only; omega) (by simp only; omega)]
    simp only [Nat.zero_add]
    rw [handleNalu, addSize_of_lt (by omega), if_neg (by omega), if_neg hUnit,
      if_neg (by simp [hKept]), writeNalu, addSize_of_lt (by simp [startCode]),
      if_neg (by simp [startCode]; omega), if_neg (by omega), hWhole]
    rfl
  have hLast : ∀ dst, PPExtractor.naluPass cfg src size ⟨size, dst, false⟩ =
      .leave (.written dst) := by simp [PPExtractor.naluPass]
  simp only [constructNalus, naluPasses, hFirst, hLast]

end

/-- A well-formed sample is converted, whatever its units are. -/
theorem constructNalus_of_wellFormed {sample : SampleBuffer}
    (hWide : 3 ≤ cfg.mNALLengthSize ∧ cfg.mNALLengthSize ≤ 4)
    (hFormed : sample.wellFormed cfg = true) :
    ∃ dst, constructNalus cfg sample.buffer sample.bufferLength (sample.bufferLength + 1) =
      some (.written dst) := by
  have hFits := sample.fits
  exact naluPasses_of_tiles hWide (by omega) ⟨Nat.zero_le _, fun _ => rfl⟩ hFormed

end Tiled

end PPExtractor
end Meet
