import Meet.PPExtractor.ConstructNalus
import Meet.PPMediaBufferGroup.Basic

/-! What `threadEntry` does with a video sample whose bytes are arbitrary,
down to the 32-bit address arithmetic of `acquire_buffer`. -/
namespace Meet

namespace PPMediaBufferGroup

/-- `acquire_buffer` with `mBuffer` at a real address and sums of 32 bits. -/
def acquireBuffer32 (g : PPMediaBufferGroup) (mBuffer len : Nat) : Acquired :=
  if g.mSize < addSize len 2 then .tooLarge
  else if g.mIsSeeking || g.mIsStopping then .interrupted
  else if mBuffer + g.mWritingAddr > mBuffer + g.mReadingAddr then
    if addSize (addSize (mBuffer + g.mWritingAddr) len) 1 < mBuffer + g.mSize then
      .buffer g.mWritingAddr
    else if addSize (addSize mBuffer len) 1 < mBuffer + g.mReadingAddr then .buffer 0
    else .wait
  else if mBuffer + g.mWritingAddr < mBuffer + g.mReadingAddr then
    if addSize (addSize (mBuffer + g.mWritingAddr) len) 1 < mBuffer + g.mReadingAddr then
      .buffer g.mWritingAddr
    else .wait
  else .shouldNeverHappen

/-- A group in the address space of a process, which ends where the kernel's
addresses begin. -/
structure Placed where
  group : PPMediaBufferGroup
  mBuffer : Nat
  reading_lt : group.mReadingAddr < group.mSize
  writing_lt : group.mWritingAddr < group.mSize
  size_le : group.mSize ≤ 0x40000000
  below : mBuffer + group.mSize ≤ 0xC0000000

namespace Placed

/-- Every ring layout can be placed. -/
def ofLayout (g : PPMediaBufferGroup) (live : List MediaBuffer) (h : g.Layout live)
    (mBuffer : Nat) (size_le : g.mSize ≤ 0x40000000)
    (below : mBuffer + g.mSize ≤ 0xC0000000) : Placed :=
  ⟨g, mBuffer, h.reading_lt, h.writing_lt, size_le, below⟩

def acquireBuffer (placed : Placed) (len : Nat) : Acquired :=
  placed.group.acquireBuffer32 placed.mBuffer len

variable (placed : Placed) {len : Nat}

/-- Without the wrap in its size test, the 32-bit function is the function
over offsets. -/
theorem acquireBuffer_eq (hLen : len + 2 < 2 ^ 32) :
    placed.acquireBuffer len = placed.group.acquireBuffer len := by
  have hWriting := placed.writing_lt
  have hSize := placed.size_le
  have hBelow := placed.below
  unfold acquireBuffer acquireBuffer32 PPMediaBufferGroup.acquireBuffer
  rw [addSize_of_lt hLen]
  by_cases hLarge : placed.group.mSize < len + 2
  · simp [hLarge]
  · have hEnd : addSize (addSize (placed.mBuffer + placed.group.mWritingAddr) len) 1 =
        placed.mBuffer + placed.group.mWritingAddr + len + 1 := by
      unfold addSize
      omega
    have hFront : addSize (addSize placed.mBuffer len) 1 = placed.mBuffer + len + 1 := by
      unfold addSize
      omega
    simp only [hEnd, hFront, Nat.add_assoc, Nat.add_lt_add_iff_left, gt_iff_lt]

/-- A buffer for a length that passes the size test without wrapping lies
inside the ring. -/
theorem acquireBuffer_inside (hLen : len + 2 < 2 ^ 32) {addr : Nat}
    (h : placed.acquireBuffer len = .buffer addr) : addr + len ≤ placed.group.mSize := by
  rw [placed.acquireBuffer_eq hLen] at h
  have hRoom := acquireBuffer_room placed.reading_lt h
  have hReading := placed.reading_lt
  unfold RingRoom at hRoom
  omega

end Placed
end PPMediaBufferGroup

namespace PPExtractor

/-- The value returned by `constructNalus`, unless the process is gone. -/
def Converted.length : Converted → Option Nat
  | .written dst => some (dst.length % 2 ^ 32)
  | .error _ => some (2 ^ 32 - 1)
  | .checkFailed | .fault => none

/-- The bytes written into the packet. -/
def Converted.dst : Converted → List UInt8
  | .written dst | .error dst => dst
  | .checkFailed | .fault => []

/-- The length with which `threadEntry` calls `push_buffer`, if it does. -/
def pushedLength (videoGroup : Option PPMediaBufferGroup.Placed) (converted : Converted) :
    Option Nat :=
  match videoGroup, converted.length with
  | some _, some length => if 0 < length then some length else none
  | _, _ => none

/-- No frame is pushed, or its length is the number of bytes written and it
lies inside the ring; the error value is never passed on as a length. -/
structure SafeHandling (videoGroup : Option PPMediaBufferGroup.Placed) (converted : Converted) :
    Prop where
  noError : ∀ dst, converted = .error dst → pushedLength videoGroup converted = none
  frame : ∀ group ∈ videoGroup, ∀ length ∈ pushedLength videoGroup converted, ∀ addr,
    group.acquireBuffer length = .buffer addr →
      length = converted.dst.length ∧ addr + length ≤ group.group.mSize

theorem safeHandling_written {videoGroup : Option PPMediaBufferGroup.Placed} {dst : List UInt8}
    (hLength : dst.length + 2 < 2 ^ 32) : SafeHandling videoGroup (.written dst) := by
  refine ⟨by simp, fun group _ length hPushed addr hAcquired => ?_⟩
  obtain rfl : length = dst.length := by
    unfold pushedLength at hPushed
    rw [Converted.length, Nat.mod_eq_of_lt (by omega)] at hPushed
    split at hPushed
    · split_ifs at hPushed <;> simp_all
    · simp at hPushed
  exact ⟨rfl, group.acquireBuffer_inside hLength hAcquired⟩

theorem safeHandling_gone {videoGroup : Option PPMediaBufferGroup.Placed} {converted : Converted}
    (h : converted.length = none) : SafeHandling videoGroup converted := by
  have hNone : pushedLength videoGroup converted = none := by
    unfold pushedLength
    rw [h]
    cases videoGroup <;> rfl
  exact ⟨fun _ _ => hNone, by simp [hNone]⟩

/-- The error value is passed on whenever there is a group. -/
theorem safeHandling_error_iff {videoGroup : Option PPMediaBufferGroup.Placed} {dst : List UInt8} :
    SafeHandling videoGroup (.error dst) ↔ videoGroup = none := by
  constructor
  · intro h
    cases videoGroup with
    | none => rfl
    | some group => exact absurd (h.noError dst rfl) (by simp [pushedLength, Converted.length])
  · rintro rfl
    exact ⟨fun _ _ => rfl, by simp⟩

/-- Whatever bytes a video sample has, `threadEntry` handles it safely exactly
when no length field met on the walk along it announces more bytes than are
left, or there is no video group. -/
theorem handling_safe_iff (cfg : Config)
    (hWidth : 1 ≤ cfg.mNALLengthSize ∧ cfg.mNALLengthSize ≤ 4)
    (sample : SampleBuffer) (videoGroup : Option PPMediaBufferGroup.Placed) :
    (∀ fuel converted, constructNalus cfg sample.buffer sample.bufferLength fuel = some converted →
      SafeHandling videoGroup converted) ↔
    (videoGroup = none ∨ ¬ FieldOverrun cfg sample.buffer sample.bufferLength) := by
  have hFits := sample.fits
  have hSize : 2 * sample.bufferLength + 4 < 2 ^ 32 := by omega
  rw [← constructNalus_error_iff hWidth hSize]
  constructor
  · intro h
    by_cases hNone : videoGroup = none
    · exact Or.inl hNone
    · refine Or.inr ?_
      rintro ⟨fuel, dst, hRun⟩
      exact hNone (safeHandling_error_iff.mp (h fuel _ hRun))
  · intro h fuel converted hRun
    rcases naluPasses_cases hWidth hSize Walks.first hRun with
      ⟨dst, rfl, hLength⟩ | ⟨dst, rfl, _⟩ | rfl | rfl
    · exact safeHandling_written (by omega)
    · refine safeHandling_error_iff.mpr ?_
      rcases h with hNone | hNever
      · exact hNone
      · exact absurd ⟨fuel, dst, hRun⟩ hNever
    · exact safeHandling_gone rfl
    · exact safeHandling_gone rfl

/-- The video group as `start` creates it, at some address. -/
def freshVideoGroup : PPMediaBufferGroup.Placed :=
  .ofLayout (.new 6291456 1) [] (.new 1 (by decide)) 0x40000000 (by decide) (by decide)

/-- A stream with length fields of four bytes. -/
def fourByteLengths : Config := ⟨2, 0, 1, 4, 60000⟩

def videoSample (bytes : List UInt8) (h : bytes.length ≤ 1000) : SampleBuffer :=
  ⟨fun i => bytes.getD i 0, bytes.length, by omega⟩

/-- One unit of one byte. -/
theorem handling_safe_iff_oneUnit :
    constructNalus fourByteLengths (videoSample [0, 0, 0, 1, 101] (by decide)).buffer 5 2 =
      some (.written [0, 0, 0, 1, 101]) ∧
    SafeHandling (some freshVideoGroup) (.written [0, 0, 0, 1, 101]) := by
  have hSafe := (handling_safe_iff fourByteLengths (by decide)
    (videoSample [0, 0, 0, 1, 101] (by decide)) (some freshVideoGroup)).mpr (Or.inr ?_)
  · exact ⟨by decide, hSafe 2 _ (by decide)⟩
  · rw [← constructNalus_error_iff (by decide) (by decide)]
    rintro ⟨fuel, dst, hRun⟩
    match fuel with
    | 0 => cases hRun
    | 1 => cases hRun
    | _ + 2 => cases hRun

/-- A unit that is announced with five bytes and has one. -/
theorem handling_not_safe : ∃ converted,
    constructNalus fourByteLengths (videoSample [0, 0, 0, 5, 101] (by decide)).buffer 5 1 =
      some converted ∧ pushedLength (some freshVideoGroup) converted = some (2 ^ 32 - 1) ∧
    freshVideoGroup.acquireBuffer (2 ^ 32 - 1) = .buffer 1 ∧
    ¬ SafeHandling (some freshVideoGroup) converted := by
  refine ⟨.error [], by decide, by decide, by decide, ?_⟩
  rw [safeHandling_error_iff]
  simp

end PPExtractor
end Meet
