import Meet.PPExtractor.AnyBytes

/-! The part of `convertMetaDataToMessage` that takes the `AVCDecoderConfigurationRecord`
under `kKeyAVCC` apart. The parameter sets go to the buffers `csd-0` and `csd-1`, each behind a
start code. -/
namespace Meet.NuPPMediaExtractor

open PPExtractor (bigEndian bigEndianBytes lengthPrefixed)

/-- An `ABuffer` whose range begins at the begin of its data. -/
structure ABuffer where
  capacity : Nat
  data : Memory
  size : Nat

def ABuffer.content (buffer : ABuffer) : List UInt8 := buffer.data.read 0 buffer.size

/-- Where the code stands in the record, the buffer it fills, and what it has read of the
record and written to its buffers. -/
structure Walk where
  ptr : Nat
  size : Nat
  buffer : ABuffer
  reads : List Region
  writes : List Region

/-- The `CHECK` that ends the process: one of the function itself, or the one of
`ABuffer::setRange`. -/
inductive Cause where
  | check
  | setRange
deriving DecidableEq, Repr

/-- A value, or the walk that a failed check has ended. -/
abbrev Walked := Except (Cause × Walk)

def u16At (record : Memory) (ptr : Nat) : Nat :=
  (record ptr).toNat <<< 8 ||| (record (ptr + 1)).toNat

namespace Walk

def look (s : Walk) (start length : Nat) : Walk := { s with reads := s.reads ++ [⟨start, length⟩] }

def skip (s : Walk) (length : Nat) : Walk :=
  { s with ptr := s.ptr + length, size := s.size - length }

def memcpy (s : Walk) (start : Nat) (bytes : List UInt8) : Walk :=
  { s with
    buffer := { s.buffer with data := s.buffer.data.write start bytes }
    writes := s.writes ++ [⟨start, bytes.length⟩] }

def setRange (s : Walk) (size : Nat) : Walked Walk :=
  if s.buffer.capacity < size then .error (.setRange, s)
  else .ok { s with buffer := { s.buffer with size := size } }

/-- A new buffer. What its memory holds is not known. -/
def newBuffer (s : Walk) (capacity : Nat) (fresh : Memory) : Walk :=
  { s with buffer := ⟨capacity, fresh, 0⟩ }

/-- A parameter set of a known length: both copies are made before the range is set. -/
def copySet (record : Memory) (s : Walk) (length : Nat) : Walked Walk :=
  let size := s.buffer.size
  let s := (s.memcpy size [0, 0, 0, 1]).look s.ptr length
  let s := s.memcpy (size + 4) (record.read s.ptr length)
  (s.setRange (size + 4 + length)).map (·.skip length)

def addSet (record : Memory) (s : Walk) : Walked Walk :=
  if s.size < 2 then .error (.check, s)
  else
    let length := u16At record s.ptr
    let s := (s.look s.ptr 2).skip 2
    if s.size < length then .error (.check, s)
    else copySet record s length

def addSets (record : Memory) : Nat → Walk → Walked Walk
  | 0, s => .ok s
  | count + 1, s => (addSet record s).bind (addSets record count)

end Walk

/-- `csd-0` and `csd-1`. -/
structure CodecData where
  csd0 : List UInt8
  csd1 : List UInt8
deriving DecidableEq, Repr

section
variable (fresh : Memory) (capacity : Nat) (record : Memory)

/-- The picture parameter sets, behind `csd-0`. -/
def convertPictures (csd0 : List UInt8) (s : Walk) : Walked (CodecData × Walk) :=
  if s.size < 1 then .error (.check, s)
  else
    let numPictureParameterSets := (record s.ptr).toNat
    ((((s.look s.ptr 1).skip 1).addSets record numPictureParameterSets).map
      fun s => (⟨csd0, s.buffer.content⟩, s))

/-- `ptr[1]`, `ptr[3]` and `ptr[4]` are read for values that nothing uses. -/
def convertRecord (size : Nat) : Walked (CodecData × Walk) :=
  let s : Walk := ⟨0, size, ⟨capacity, fresh, 0⟩, [], []⟩
  if size < 7 then .error (.check, s)
  else
    let s := s.look 0 1
    if record 0 ≠ 1 then .error (.check, s)
    else
      let s := (((s.look 1 1).look 3 1).look 4 1).look 5 1
      let numSeqParameterSets := (record 5 &&& 31).toNat
      (((s.skip 6).newBuffer capacity fresh).addSets record numSeqParameterSets).bind fun s =>
        convertPictures record s.buffer.content (s.newBuffer capacity fresh)

end

/-- The walk that a conversion has made, whether a check has ended it or not. -/
def walkOf : Walked (CodecData × Walk) → Walk
  | .ok (_, s) => s
  | .error (_, s) => s

/-- The buffers that the source allocates. -/
def csdCapacity : Nat := 1024

/-- The units, each behind a start code. -/
def annexB (sets : List (List UInt8)) : List UInt8 := sets.flatMap fun set => [0, 0, 0, 1] ++ set

/-- The record holds these parameter sets, each behind its length in two bytes. -/
structure Carries (record : Memory) (size : Nat) (sps pps : List (List UInt8)) : Prop where
  long : 7 ≤ size
  version : record 0 = 1
  spsCount : sps.length = (record 5 &&& 31).toNat
  spsLengths : ∀ set ∈ sps, set.length < 65536
  ppsLengths : ∀ set ∈ pps, set.length < 65536
  bytes : ∃ ppsCount rest, pps.length = UInt8.toNat ppsCount ∧
    record.read 6 (size - 6) =
      lengthPrefixed 2 sps ++ ppsCount :: (lengthPrefixed 2 pps ++ rest)

/-- No check of the function itself fails, whatever room there is in the buffers. -/
def PassesChecks (record : Memory) (size : Nat) : Prop :=
  ∃ fresh capacity result, convertRecord fresh capacity record size = .ok result

/-- The codec gets the parameter sets of the record, and no byte outside the record or the
buffers is touched on the way. -/
structure Converted (fresh record : Memory) (size : Nat) : Prop where
  contents : ∃ sps pps s, Carries record size sps pps ∧
    convertRecord fresh csdCapacity record size = .ok (⟨annexB sps, annexB pps⟩, s)
  reads : ∀ r ∈ (walkOf (convertRecord fresh csdCapacity record size)).reads, r.stop ≤ size
  writes : ∀ r ∈ (walkOf (convertRecord fresh csdCapacity record size)).writes,
    r.stop ≤ csdCapacity

/-- There is room for the sequence parameter sets and for the picture parameter sets. -/
def Room (record : Memory) (size : Nat) : Prop :=
  ∀ sps pps, Carries record size sps pps →
    (annexB sps).length ≤ csdCapacity ∧ (annexB pps).length ≤ csdCapacity

theorem u16At_eq (record : Memory) (ptr : Nat) :
    u16At record ptr = bigEndian (record.read ptr 2) := by
  have hLow : (record (ptr + 1)).toNat < 2 ^ 8 := (record (ptr + 1)).toNat_lt
  rw [u16At, ← Nat.shiftLeft_add_eq_or_of_lt hLow, Nat.shiftLeft_eq]
  simp [bigEndian, Memory.read, List.range_succ]

theorem u16At_lt (record : Memory) (ptr : Nat) : u16At record ptr < 65536 := by
  have hValue := PPExtractor.bigEndian_lt (record.read ptr 2)
  rw [Memory.read_length] at hValue
  rw [u16At_eq]
  exact hValue

/-- The bytes of a parameter set behind its length. -/
def setAt (record : Memory) (ptr : Nat) : List UInt8 := record.read (ptr + 2) (u16At record ptr)

@[simp] theorem length_setAt (record : Memory) (ptr : Nat) :
    (setAt record ptr).length = u16At record ptr := Memory.read_length _ _ _

/-- The length and the set are what the record has at that place. -/
theorem read_setAt (record : Memory) (ptr : Nat) :
    record.read ptr (2 + u16At record ptr) =
      bigEndianBytes 2 (setAt record ptr).length ++ setAt record ptr := by
  have hField := PPExtractor.bigEndianBytes_bigEndian (record.read ptr 2)
  rw [Memory.read_length, ← u16At_eq] at hField
  rw [Memory.read_add, length_setAt, hField]
  rfl

namespace Walk

/-- The walk behind a parameter set. -/
def added (record : Memory) (s : Walk) : Walk where
  ptr := s.ptr + 2 + u16At record s.ptr
  size := s.size - 2 - u16At record s.ptr
  buffer :=
    { capacity := s.buffer.capacity
      data := (s.buffer.data.write s.buffer.size [0, 0, 0, 1]).write (s.buffer.size + 4)
        (setAt record s.ptr)
      size := s.buffer.size + 4 + u16At record s.ptr }
  reads := s.reads ++ [⟨s.ptr, 2⟩] ++ [⟨s.ptr + 2, u16At record s.ptr⟩]
  writes := s.writes ++ [⟨s.buffer.size, 4⟩] ++ [⟨s.buffer.size + 4, u16At record s.ptr⟩]

section
variable {record : Memory} {s t : Walk}

theorem addSet_short (hShort : s.size < 2 + u16At record s.ptr) :
    ∃ t, addSet record s = .error (.check, t) ∧
      (t.reads = s.reads ∨ 2 ≤ s.size ∧ t.reads = s.reads ++ [⟨s.ptr, 2⟩]) := by
  unfold addSet
  by_cases hTwo : s.size < 2
  · rw [if_pos hTwo]
    exact ⟨s, rfl, Or.inl rfl⟩
  · have hLess : ((s.look s.ptr 2).skip 2).size < u16At record s.ptr := by
      simp only [skip, look]
      omega
    rw [if_neg hTwo, if_pos hLess]
    exact ⟨_, rfl, Or.inr ⟨by omega, rfl⟩⟩

theorem addSet_whole (hWhole : 2 + u16At record s.ptr ≤ s.size) :
    addSet record s =
      if s.buffer.capacity < s.buffer.size + 4 + u16At record s.ptr then
        .error (.setRange, { added record s with
          ptr := s.ptr + 2
          size := s.size - 2
          buffer := { (added record s).buffer with size := s.buffer.size } })
      else .ok (added record s) := by
  have hTwo : ¬ s.size < 2 := by omega
  have hEnough : ¬ ((s.look s.ptr 2).skip 2).size < u16At record s.ptr := by
    simp only [skip, look]
    omega
  rw [addSet, if_neg hTwo]
  simp only [if_neg hEnough, copySet, setRange]
  by_cases hRange : s.buffer.capacity < s.buffer.size + 4 + u16At record s.ptr
  · rw [if_pos hRange, if_pos (by exact hRange)]
    simp only [Except.map, memcpy, look, skip, Memory.read_length, added, setAt,
      List.length_cons, List.length_nil]
  · rw [if_neg hRange, if_neg (by exact hRange)]
    simp only [Except.map, memcpy, look, skip, Memory.read_length, added, setAt,
      List.length_cons, List.length_nil]

/-- What a step of the walk does, if no check fails. -/
theorem addSet_ok (hStep : addSet record s = .ok t) :
    2 + u16At record s.ptr ≤ s.size ∧
      s.buffer.size + 4 + u16At record s.ptr ≤ s.buffer.capacity ∧ t = added record s := by
  by_cases hWhole : 2 + u16At record s.ptr ≤ s.size
  · rw [addSet_whole hWhole] at hStep
    split_ifs at hStep with hRange
    cases hStep
    exact ⟨hWhole, by omega, rfl⟩
  · obtain ⟨t, hShort, -⟩ := addSet_short (by omega : s.size < 2 + u16At record s.ptr)
    rw [hShort] at hStep
    cases hStep

end

end Walk

/-! ### Reads -/

/-- The rest of the record lies inside it, and so does what has been read. -/
structure Walk.Within (size : Nat) (s : Walk) : Prop where
  rest : s.ptr + s.size ≤ size
  reads : ∀ r ∈ s.reads, r.stop ≤ size

/-- The walk keeps a property, whether a check ends it or not. -/
def Walked.Keeps (holds : Walk → Prop) : Walked Walk → Prop
  | .ok s => holds s
  | .error (_, s) => holds s

namespace Walk

section
variable {record : Memory} {size : Nat} {s : Walk}

theorem Within.look (h : s.Within size) {start length : Nat} (hInside : start + length ≤ size) :
    (s.look start length).Within size := by
  refine ⟨h.rest, ?_⟩
  simp only [Walk.look, List.forall_mem_append, List.forall_mem_singleton]
  exact ⟨h.reads, hInside⟩

theorem Within.skip (h : s.Within size) {length : Nat} (hLength : length ≤ s.size) :
    (s.skip length).Within size := by
  refine ⟨?_, h.reads⟩
  have hRest := h.rest
  simp only [Walk.skip]
  omega

theorem addSet_within (h : s.Within size) :
    Walked.Keeps (fun s => ∀ r ∈ s.reads, r.stop ≤ size) (addSet record s) ∧
      ∀ t, addSet record s = .ok t → t.Within size := by
  have hRest := h.rest
  by_cases hWhole : 2 + u16At record s.ptr ≤ s.size
  · have hReads : ∀ r ∈ (added record s).reads, r.stop ≤ size := by
      simp only [added, List.forall_mem_append, List.forall_mem_singleton, Region.stop]
      exact ⟨⟨h.reads, by omega⟩, by omega⟩
    constructor
    · rw [addSet_whole hWhole]
      split_ifs
      · exact hReads
      · exact hReads
    · intro t hStep
      obtain ⟨-, -, rfl⟩ := addSet_ok hStep
      refine ⟨?_, hReads⟩
      simp only [added]
      omega
  · obtain ⟨t, hStep, hReads⟩ := addSet_short (by omega : s.size < 2 + u16At record s.ptr)
    rw [hStep]
    constructor
    · rcases hReads with hSame | ⟨hTwo, hField⟩
      · simp only [Walked.Keeps, hSame]
        exact h.reads
      · simp only [Walked.Keeps, hField, List.forall_mem_append, List.forall_mem_singleton,
          Region.stop]
        exact ⟨h.reads, by omega⟩
    · intro u hOk
      cases hOk

theorem addSets_within {count : Nat} (h : s.Within size) :
    Walked.Keeps (fun s => ∀ r ∈ s.reads, r.stop ≤ size) (addSets record count s) ∧
      ∀ t, addSets record count s = .ok t → t.Within size := by
  induction count generalizing s with
  | zero =>
      refine ⟨h.reads, ?_⟩
      intro t hOk
      cases hOk
      exact h
  | succ count ih =>
      have hStep := @addSet_within record size s h
      rw [addSets]
      cases hSet : addSet record s with
      | error stopped =>
          rw [hSet] at hStep
          refine ⟨hStep.1, ?_⟩
          intro t hOk
          cases hOk
      | ok t => exact ih (hStep.2 t hSet)

end

end Walk

theorem convertPictures_reads {record : Memory} {size : Nat} {csd0 : List UInt8} {s : Walk}
    (h : s.Within size) :
    ∀ r ∈ (walkOf (convertPictures record csd0 s)).reads, r.stop ≤ size := by
  unfold convertPictures
  by_cases hEnd : s.size < 1
  · rw [if_pos hEnd]
    exact h.reads
  · rw [if_neg hEnd]
    have hRest := h.rest
    have hSets := (h.look (show s.ptr + 1 ≤ size by omega)).skip (show 1 ≤ s.size by omega)
    have hReads := (@Walk.addSets_within record size _ (record s.ptr).toNat hSets).1
    dsimp only
    generalize Walk.addSets record (record s.ptr).toNat _ = walked at hReads ⊢
    cases walked with
    | error stopped => exact hReads
    | ok t => exact hReads

/-- No byte outside the record is read, whatever it holds. -/
theorem convertRecord_reads (fresh : Memory) (capacity : Nat) (record : Memory) (size : Nat) :
    ∀ r ∈ (walkOf (convertRecord fresh capacity record size)).reads, r.stop ≤ size := by
  have hStart : Walk.Within size ⟨0, size, ⟨capacity, fresh, 0⟩, [], []⟩ := ⟨by simp, by simp⟩
  unfold convertRecord
  dsimp only
  by_cases hLong : size < 7
  · rw [if_pos hLong]
    exact hStart.reads
  · rw [if_neg hLong]
    have hVersion := hStart.look (show 0 + 1 ≤ size by omega)
    by_cases hOne : record 0 ≠ 1
    · rw [if_pos hOne]
      exact hVersion.reads
    · rw [if_neg hOne]
      have hHeader := (((hVersion.look (show 1 + 1 ≤ size by omega)).look
        (show 3 + 1 ≤ size by omega)).look (show 4 + 1 ≤ size by omega)).look
          (show 5 + 1 ≤ size by omega)
      have hSets : Walk.Within size (Walk.newBuffer (Walk.skip _ 6) capacity fresh) :=
        ⟨(hHeader.skip (show 6 ≤ size by omega)).rest, hHeader.reads⟩
      obtain ⟨hReads, hWithin⟩ :=
        @Walk.addSets_within record size _ (record 5 &&& 31).toNat hSets
      generalize Walk.addSets record (record 5 &&& 31).toNat _ = walked at hReads hWithin
      cases walked with
      | error stopped => exact hReads
      | ok s =>
          apply convertPictures_reads
          exact ⟨(hWithin s rfl).rest, (hWithin s rfl).reads⟩

/-! ### The parameter sets -/

theorem annexB_cons (set : List UInt8) (rest : List (List UInt8)) :
    annexB (set :: rest) = [0, 0, 0, 1] ++ set ++ annexB rest := rfl

theorem length_annexB_cons (set : List UInt8) (rest : List (List UInt8)) :
    (annexB (set :: rest)).length = 4 + set.length + (annexB rest).length := by
  simp only [annexB_cons, List.length_append, List.length_cons, List.length_nil]

/-- A set at the place where the walk stands. -/
theorem setAt_of_read {record : Memory} {ptr size : Nat} {set rest : List UInt8}
    (hSet : set.length < 65536)
    (hBytes : record.read ptr size = bigEndianBytes 2 set.length ++ set ++ rest) :
    2 + set.length ≤ size ∧ u16At record ptr = set.length ∧ setAt record ptr = set ∧
      record.read (ptr + 2 + set.length) (size - 2 - set.length) = rest := by
  have hLength := congrArg List.length hBytes
  simp only [Memory.read_length, List.length_append, PPExtractor.length_bigEndianBytes] at hLength
  obtain ⟨more, rfl⟩ := Nat.le.dest (show 2 + set.length ≤ size by omega)
  rw [Memory.read_add, Memory.read_add] at hBytes
  obtain ⟨hFront, hRest⟩ := List.append_inj hBytes (by simp)
  obtain ⟨hField, hRead⟩ := List.append_inj hFront (by simp)
  have hValue : u16At record ptr = set.length := by
    rw [u16At_eq, hField, PPExtractor.bigEndian_bigEndianBytes hSet]
  have hMore : 2 + set.length + more - 2 - set.length = more := by omega
  refine ⟨by omega, hValue, ?_, ?_⟩
  · rw [setAt, hValue, hRead]
  · rw [hMore, Nat.add_assoc, hRest]

/-- The same bytes cannot be taken apart in two ways. -/
theorem lengthPrefixed_append_inj {sets others : List (List UInt8)} {rest more : List UInt8}
    (hSets : ∀ set ∈ sets, set.length < 65536) (hOthers : ∀ set ∈ others, set.length < 65536)
    (hCount : sets.length = others.length)
    (hSame : lengthPrefixed 2 sets ++ rest = lengthPrefixed 2 others ++ more) :
    sets = others ∧ rest = more := by
  induction sets generalizing others with
  | nil =>
      obtain rfl := List.length_eq_zero_iff.mp hCount.symm
      exact ⟨rfl, hSame⟩
  | cons set sets ih =>
      cases others with
      | nil => cases hCount
      | cons other others =>
          obtain ⟨hSet, hSetsRest⟩ := List.forall_mem_cons.mp hSets
          obtain ⟨hOther, hOthersRest⟩ := List.forall_mem_cons.mp hOthers
          simp only [PPExtractor.lengthPrefixed_cons, List.append_assoc] at hSame
          obtain ⟨hField, hBehind⟩ := List.append_inj hSame (by simp)
          have hLength : set.length = other.length := by
            rw [← @PPExtractor.bigEndian_bigEndianBytes 2 _ hSet, hField,
              PPExtractor.bigEndian_bigEndianBytes hOther]
          obtain ⟨rfl, hTail⟩ := List.append_inj hBehind hLength
          obtain ⟨rfl, rfl⟩ := ih hSetsRest hOthersRest (Nat.succ.inj hCount) hTail
          exact ⟨rfl, rfl⟩

theorem Carries.unique {record : Memory} {size : Nat} {sps pps sps' pps' : List (List UInt8)}
    (h : Carries record size sps pps) (h' : Carries record size sps' pps') :
    sps = sps' ∧ pps = pps' := by
  obtain ⟨count, rest, hCount, hBytes⟩ := h.bytes
  obtain ⟨count', rest', hCount', hBytes'⟩ := h'.bytes
  obtain ⟨rfl, hPictures⟩ := lengthPrefixed_append_inj h.spsLengths h'.spsLengths
    (h.spsCount.trans h'.spsCount.symm) (hBytes.symm.trans hBytes')
  obtain ⟨rfl, hSets⟩ := List.cons.inj hPictures
  obtain ⟨rfl, -⟩ := lengthPrefixed_append_inj h.ppsLengths h'.ppsLengths
    (hCount.trans hCount'.symm) hSets
  exact ⟨rfl, rfl⟩

namespace Walk

/-- The range of the buffer and all that has been written lie within a capacity. -/
structure Filled (room : Nat) (s : Walk) : Prop where
  capacity : s.buffer.capacity = room
  size : s.buffer.size ≤ room
  writes : ∀ r ∈ s.writes, r.stop ≤ room

section
variable {record : Memory} {room : Nat} {s t : Walk}

theorem added_content :
    (added record s).buffer.content =
      s.buffer.content ++ [0, 0, 0, 1] ++ setAt record s.ptr := by
  have hCode := Memory.read_write s.buffer.data s.buffer.size [0, 0, 0, 1]
  have hSet := Memory.read_write (s.buffer.data.write s.buffer.size [0, 0, 0, 1])
    (s.buffer.size + 4) (setAt record s.ptr)
  rw [length_setAt] at hSet
  simp only [added, ABuffer.content, Memory.read_add, Nat.zero_add]
  rw [hSet, Memory.read_write_of_disjoint _ _ _ _ _ (Or.inl (by omega)),
    Memory.read_write_of_disjoint _ _ _ _ _ (Or.inl (by omega)),
    Memory.read_write_of_disjoint _ _ _ _ _ (Or.inl (by omega))]
  exact congrArg (fun code => s.buffer.data.read 0 s.buffer.size ++ code ++ _) hCode

/-- Behind the sets that the walk has passed. -/
structure Passed (record : Memory) (s : Walk) (sets : List (List UInt8)) (t : Walk) : Prop where
  lengths : ∀ set ∈ sets, set.length < 65536
  bytes : record.read s.ptr s.size = lengthPrefixed 2 sets ++ record.read t.ptr t.size
  content : t.buffer.content = s.buffer.content ++ annexB sets

theorem addSet_passed (hStep : addSet record s = .ok t) :
    Passed record s [setAt record s.ptr] t := by
  obtain ⟨hWhole, -, rfl⟩ := addSet_ok hStep
  refine ⟨?_, ?_, ?_⟩
  · rw [List.forall_mem_singleton, length_setAt]
    exact u16At_lt record s.ptr
  · obtain ⟨more, hSize⟩ := Nat.le.dest hWhole
    have hMore : s.size - 2 - u16At record s.ptr = more := by omega
    rw [← hSize, Memory.read_add, read_setAt]
    simp only [lengthPrefixed, List.flatMap_cons, List.flatMap_nil, List.append_nil, added, hMore,
      Nat.add_assoc]
  · rw [added_content, annexB_cons, List.append_assoc, List.append_assoc]
    simp [annexB]

theorem Passed.trans {u : Walk} {sets more : List (List UInt8)} (h : Passed record s sets t)
    (hMore : Passed record t more u) : Passed record s (sets ++ more) u := by
  refine ⟨List.forall_mem_append.mpr ⟨h.lengths, hMore.lengths⟩, ?_, ?_⟩
  · rw [h.bytes, hMore.bytes, lengthPrefixed, lengthPrefixed, lengthPrefixed, List.flatMap_append,
      List.append_assoc]
  · rw [hMore.content, h.content, annexB, annexB, annexB, List.flatMap_append, List.append_assoc]

theorem addSets_passed {count : Nat} (hRun : addSets record count s = .ok t) :
    ∃ sets, sets.length = count ∧ Passed record s sets t := by
  induction count generalizing s with
  | zero =>
      cases hRun
      exact ⟨[], rfl, by simp, rfl, by simp [annexB]⟩
  | succ count ih =>
      rw [addSets] at hRun
      cases hSet : addSet record s with
      | error stopped =>
          rw [hSet] at hRun
          cases hRun
      | ok middle =>
          rw [hSet] at hRun
          obtain ⟨sets, hCount, hSets⟩ := ih hRun
          exact ⟨setAt record s.ptr :: sets, by simp [hCount], (addSet_passed hSet).trans hSets⟩

theorem addSet_filled (h : s.Filled room) (hStep : addSet record s = .ok t) : t.Filled room := by
  obtain ⟨-, hRange, rfl⟩ := addSet_ok hStep
  rw [h.capacity] at hRange
  refine ⟨h.capacity, hRange, ?_⟩
  simp only [added, List.forall_mem_append, List.forall_mem_singleton, Region.stop]
  exact ⟨⟨h.writes, by omega⟩, hRange⟩

theorem addSets_filled {count : Nat} (h : s.Filled room)
    (hRun : addSets record count s = .ok t) : t.Filled room := by
  induction count generalizing s with
  | zero =>
      cases hRun
      exact h
  | succ count ih =>
      rw [addSets] at hRun
      cases hSet : addSet record s with
      | error stopped =>
          rw [hSet] at hRun
          cases hRun
      | ok middle =>
          rw [hSet] at hRun
          exact ih (addSet_filled h hSet) hRun

/-- Sets for which there is room are passed. -/
theorem addSets_of_room {sets : List (List UInt8)} {rest : List UInt8}
    (hSets : ∀ set ∈ sets, set.length < 65536)
    (hBytes : record.read s.ptr s.size = lengthPrefixed 2 sets ++ rest)
    (hRoom : s.buffer.size + (annexB sets).length ≤ s.buffer.capacity) :
    ∃ t, addSets record sets.length s = .ok t ∧ record.read t.ptr t.size = rest := by
  induction sets generalizing s with
  | nil => exact ⟨s, rfl, hBytes⟩
  | cons set sets ih =>
      obtain ⟨hSet, hSets⟩ := List.forall_mem_cons.mp hSets
      rw [PPExtractor.lengthPrefixed_cons, List.append_assoc] at hBytes
      obtain ⟨hWhole, hLength, -, hRest⟩ := setAt_of_read hSet hBytes
      rw [length_annexB_cons] at hRoom
      have hStep : addSet record s = .ok (added record s) := by
        rw [addSet_whole (by omega), if_neg (by omega)]
      rw [List.length_cons, addSets, hStep]
      apply ih hSets
      · simp only [added, hLength]
        exact hRest
      · simp only [added, hLength]
        omega

end

end Walk

/-! ### The conversion -/

section
variable {fresh record : Memory} {capacity size : Nat}

/-- The walk behind the header. -/
def header (fresh : Memory) (capacity size : Nat) : Walk :=
  ⟨6, size - 6, ⟨capacity, fresh, 0⟩, [⟨0, 1⟩, ⟨1, 1⟩, ⟨3, 1⟩, ⟨4, 1⟩, ⟨5, 1⟩], []⟩

theorem convertRecord_eq (hLong : 7 ≤ size) (hVersion : record 0 = 1) :
    convertRecord fresh capacity record size =
      ((header fresh capacity size).addSets record (record 5 &&& 31).toNat).bind fun s =>
        convertPictures record s.buffer.content (s.newBuffer capacity fresh) := by
  have hShort : ¬ size < 7 := by omega
  have hOne : ¬ record 0 ≠ 1 := not_not.mpr hVersion
  rw [convertRecord, if_neg hShort]
  dsimp only
  rw [if_neg hOne]
  rfl

theorem newBuffer_filled (s : Walk) (hWrites : ∀ r ∈ s.writes, r.stop ≤ capacity) :
    (s.newBuffer capacity fresh).Filled capacity :=
  ⟨rfl, Nat.zero_le _, hWrites⟩

theorem convertPictures_ok {csd0 : List UInt8} {data : CodecData} {s t : Walk}
    (hFilled : s.Filled capacity) (hEmpty : s.buffer.size = 0)
    (hRun : convertPictures record csd0 s = .ok (data, t)) :
    ∃ pps ppsCount rest, pps.length = UInt8.toNat ppsCount ∧
      (∀ set ∈ pps, set.length < 65536) ∧
      record.read s.ptr s.size = ppsCount :: (lengthPrefixed 2 pps ++ rest) ∧
      data = ⟨csd0, annexB pps⟩ ∧ (annexB pps).length ≤ capacity ∧ t.Filled capacity := by
  unfold convertPictures at hRun
  by_cases hEnd : s.size < 1
  · rw [if_pos hEnd] at hRun
    cases hRun
  · rw [if_neg hEnd] at hRun
    dsimp only at hRun
    cases hSets : ((s.look s.ptr 1).skip 1).addSets record (record s.ptr).toNat with
    | error stopped =>
        rw [hSets] at hRun
        cases hRun
    | ok last =>
        rw [hSets] at hRun
        cases hRun
        obtain ⟨pps, hCount, hPassed⟩ := Walk.addSets_passed hSets
        have hStart : ((s.look s.ptr 1).skip 1).Filled capacity :=
          ⟨hFilled.capacity, hFilled.size, hFilled.writes⟩
        have hLast := Walk.addSets_filled hStart hSets
        have hContent : t.buffer.content = annexB pps := by
          rw [hPassed.content]
          simp [ABuffer.content, Walk.skip, Walk.look, hEmpty, Memory.read]
        have hSize : s.size = 1 + (s.size - 1) := by omega
        refine ⟨pps, record s.ptr, record.read t.ptr t.size, hCount, hPassed.lengths, ?_, ?_, ?_,
          hLast⟩
        · rw [hSize, Memory.read_add]
          exact congrArg _ hPassed.bytes
        · rw [hContent]
        · rw [← hContent, ABuffer.content, Memory.read_length]
          exact hLast.size

/-- What a conversion that ends without a failed check has found and made. -/
theorem convertRecord_ok {data : CodecData} {t : Walk}
    (hRun : convertRecord fresh capacity record size = .ok (data, t)) :
    ∃ sps pps, Carries record size sps pps ∧ data = ⟨annexB sps, annexB pps⟩ ∧
      (annexB sps).length ≤ capacity ∧ (annexB pps).length ≤ capacity ∧
      ∀ r ∈ t.writes, r.stop ≤ capacity := by
  have hLong : 7 ≤ size := by
    by_contra hShort
    rw [convertRecord, if_pos (by omega)] at hRun
    cases hRun
  have hVersion : record 0 = 1 := by
    by_contra hOther
    rw [convertRecord, if_neg (by omega)] at hRun
    dsimp only at hRun
    rw [if_pos hOther] at hRun
    cases hRun
  rw [convertRecord_eq hLong hVersion] at hRun
  cases hSets : (header fresh capacity size).addSets record (record 5 &&& 31).toNat with
  | error stopped =>
      rw [hSets] at hRun
      cases hRun
  | ok middle =>
      rw [hSets] at hRun
      obtain ⟨sps, hCount, hPassed⟩ := Walk.addSets_passed hSets
      have hStart : (header fresh capacity size).Filled capacity :=
        newBuffer_filled (header fresh capacity size) (by simp [header])
      have hMiddle := Walk.addSets_filled hStart hSets
      have hContent : middle.buffer.content = annexB sps := by
        rw [hPassed.content]
        simp [ABuffer.content, header, Memory.read]
      obtain ⟨pps, ppsCount, rest, hPpsCount, hLengths, hBytes, rfl, hPps, hLast⟩ :=
        convertPictures_ok (newBuffer_filled middle hMiddle.writes) rfl hRun
      refine ⟨sps, pps, ⟨hLong, hVersion, hCount, hPassed.lengths, hLengths, ?_⟩, ?_, ?_, hPps,
        hLast.writes⟩
      · refine ⟨ppsCount, rest, hPpsCount, ?_⟩
        exact hPassed.bytes.trans (congrArg _ hBytes)
      · rw [hContent]
      · rw [← hContent, ABuffer.content, Memory.read_length]
        exact hMiddle.size

/-- Parameter sets for which there is room are converted. -/
theorem convertRecord_of_room {sps pps : List (List UInt8)} (h : Carries record size sps pps)
    (hSps : (annexB sps).length ≤ capacity) (hPps : (annexB pps).length ≤ capacity) :
    ∃ result, convertRecord fresh capacity record size = .ok result := by
  obtain ⟨ppsCount, rest, hCount, hBytes⟩ := h.bytes
  have hSpsRoom : 0 + (annexB sps).length ≤ capacity := by omega
  have hPpsRoom : 0 + (annexB pps).length ≤ capacity := by omega
  obtain ⟨middle, hSets, hMiddle⟩ :=
    @Walk.addSets_of_room record (header fresh capacity size) sps _ h.spsLengths hBytes hSpsRoom
  have hSome : ¬ middle.size < 1 := by
    have hLength := congrArg List.length hMiddle
    simp only [Memory.read_length, List.length_cons] at hLength
    omega
  have hSize : middle.size = 1 + (middle.size - 1) := by omega
  rw [hSize, Memory.read_add] at hMiddle
  obtain ⟨hFirst, hPictures⟩ := List.cons.inj hMiddle
  obtain ⟨last, hLast, -⟩ :=
    @Walk.addSets_of_room record (((middle.newBuffer capacity fresh).look middle.ptr 1).skip 1)
      pps _ h.ppsLengths hPictures hPpsRoom
  rw [hCount, ← hFirst] at hLast
  rw [convertRecord_eq h.long h.version, ← h.spsCount, hSets]
  refine ⟨(⟨middle.buffer.content, last.buffer.content⟩, last), ?_⟩
  simp only [Except.bind, convertPictures]
  rw [if_neg (by exact hSome)]
  exact congrArg (Except.map _) hLast

end

theorem passesChecks_iff {record : Memory} {size : Nat} :
    PassesChecks record size ↔ ∃ sps pps, Carries record size sps pps := by
  constructor
  · rintro ⟨fresh, capacity, ⟨data, last⟩, hRun⟩
    obtain ⟨sps, pps, hCarries, -⟩ := convertRecord_ok hRun
    exact ⟨sps, pps, hCarries⟩
  · rintro ⟨sps, pps, hCarries⟩
    obtain ⟨result, hRun⟩ := @convertRecord_of_room (fun _ => 0) record
      ((annexB sps).length + (annexB pps).length) size sps pps hCarries (by omega) (by omega)
    exact ⟨_, _, result, hRun⟩

theorem Converted.room {fresh record : Memory} {size : Nat} (h : Converted fresh record size) :
    Room record size := by
  intro sps pps hCarries
  obtain ⟨sps', pps', last, hSets, hRun⟩ := h.contents
  obtain ⟨sps'', pps'', hSets', -, hSps, hPps, -⟩ := convertRecord_ok hRun
  obtain ⟨rfl, rfl⟩ := hCarries.unique hSets'
  exact ⟨hSps, hPps⟩

/-- A record that passes the checks is converted as it should be where the sets and their start
codes fit into the buffers, and only there. -/
theorem converted_iff (fresh record : Memory) (size : Nat) (hChecks : PassesChecks record size) :
    Converted fresh record size ↔ Room record size := by
  constructor
  · exact Converted.room
  · intro hRoom
    obtain ⟨sps, pps, hCarries⟩ := passesChecks_iff.mp hChecks
    obtain ⟨hSps, hPps⟩ := hRoom sps pps hCarries
    obtain ⟨⟨data, last⟩, hRun⟩ :=
      @convertRecord_of_room fresh record csdCapacity size sps pps hCarries hSps hPps
    obtain ⟨sps', pps', hSets, rfl, -, -, hWrites⟩ := convertRecord_ok hRun
    refine ⟨⟨sps', pps', last, hSets, hRun⟩, convertRecord_reads _ _ _ _, ?_⟩
    rw [hRun]
    exact hWrites

/-- The memory that begins with the bytes. -/
def memoryOf (bytes : List UInt8) : Memory := fun i => bytes.getD i 0

theorem read_memoryOf (front rest : List UInt8) :
    (memoryOf (front ++ rest)).read front.length rest.length = rest := by
  apply List.ext_getElem
  · simp
  · intro i hRead hRest
    simp only [Memory.read, memoryOf, List.getElem_map, List.getElem_range,
      List.getD_eq_getElem?_getD, List.getElem?_append_right (Nat.le_add_right _ _),
      Nat.add_sub_cancel_left, List.getElem?_eq_getElem hRest, Option.getD_some]

/-- The first bytes of a record with one sequence parameter set. -/
def sampleHeader : List UInt8 := [1, 0x64, 0, 0x1f, 0xff, 0xe1]

/-- A record with one set of either kind. -/
def sampleRecord (sps pps : List UInt8) : List UInt8 :=
  sampleHeader ++ (lengthPrefixed 2 [sps] ++ 1 :: (lengthPrefixed 2 [pps] ++ []))

theorem carries_sampleRecord {sps pps : List UInt8} (hSps : sps.length < 65536)
    (hPps : pps.length < 65536) :
    Carries (memoryOf (sampleRecord sps pps)) (sampleRecord sps pps).length [sps] [pps] := by
  refine ⟨?_, rfl, ?_, by simpa using hSps, by simpa using hPps, 1, [], rfl, ?_⟩
  · simp only [sampleRecord, sampleHeader, List.length_append, List.length_cons]
    omega
  · have hCount : memoryOf (sampleRecord sps pps) 5 = 0xe1 := rfl
    rw [hCount]
    rfl
  · have hRead := read_memoryOf sampleHeader
      (lengthPrefixed 2 [sps] ++ 1 :: (lengthPrefixed 2 [pps] ++ []))
    have hSize : (sampleRecord sps pps).length - 6 =
        (lengthPrefixed 2 [sps] ++ 1 :: (lengthPrefixed 2 [pps] ++ [])).length := by
      rw [sampleRecord, List.length_append]
      exact Nat.add_sub_cancel_left 6 _
    rw [hSize]
    exact hRead

theorem converted_iff_short :
    Converted (fun _ => 0) (memoryOf (sampleRecord [0x67, 0x64] [0x68])) 14 := by
  have hCarries := @carries_sampleRecord [0x67, 0x64] [0x68] (by decide) (by decide)
  apply (converted_iff _ _ _ (passesChecks_iff.mpr ⟨_, _, hCarries⟩)).mpr
  intro sps pps hSets
  obtain ⟨rfl, rfl⟩ := hCarries.unique hSets
  decide

/-- A sequence parameter set that does not fit behind its start code. -/
def longRecord : List UInt8 := sampleRecord (List.replicate 1021 0x67) [0x68]

theorem not_converted_long :
    PassesChecks (memoryOf longRecord) longRecord.length ∧
      ¬ Converted (fun _ => 0) (memoryOf longRecord) longRecord.length := by
  have hLength : (List.replicate 1021 (0x67 : UInt8)).length = 1021 := List.length_replicate
  have hCarries := @carries_sampleRecord (List.replicate 1021 0x67) [0x68]
    (by rw [hLength]; decide) (by decide)
  refine ⟨passesChecks_iff.mpr ⟨_, _, hCarries⟩, ?_⟩
  intro hConverted
  have hRoom := (hConverted.room _ _ hCarries).1
  rw [length_annexB_cons, hLength] at hRoom
  exact absurd hRoom (by decide)

end Meet.NuPPMediaExtractor
