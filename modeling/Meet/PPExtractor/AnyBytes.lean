import Meet.PPExtractor.NalUnits

/-! `PPExtractor::constructNalus` on arbitrary bytes: which of them it reads, and when it
returns the error value. -/
namespace Meet.PPExtractor

theorem bigEndian_snoc (bytes : List UInt8) (byte : UInt8) :
    bigEndian (bytes ++ [byte]) = bigEndian bytes * 256 + byte.toNat := by
  simp [bigEndian]

theorem bigEndian_lt (bytes : List UInt8) : bigEndian bytes < 256 ^ bytes.length := by
  induction bytes using List.reverseRecOn with
  | nil => decide
  | append_singleton bytes byte ih =>
      have hByte := byte.toNat_lt
      rw [bigEndian_snoc, List.length_append, List.length_singleton, Nat.pow_succ]
      omega

theorem bigEndianBytes_bigEndian (bytes : List UInt8) :
    bigEndianBytes bytes.length (bigEndian bytes) = bytes := by
  induction bytes using List.reverseRecOn with
  | nil => rfl
  | append_singleton bytes byte ih =>
      have hByte := byte.toNat_lt
      have hDiv : (bigEndian bytes * 256 + byte.toNat) / 256 = bigEndian bytes := by omega
      rw [bigEndian_snoc, List.length_append, List.length_singleton, bigEndianBytes, hDiv, ih]
      congr 2
      apply UInt8.toNat_inj.mp
      rw [UInt8.toNat_ofNat']
      omega

/-- The bytes before an offset are units, each behind its length. -/
def UnitsEnd (cfg : Config) (src : Memory) (offset : Nat) : Prop :=
  ∃ units : List (List UInt8), (∀ unit ∈ units, unit.length < 256 ^ cfg.mNALLengthSize) ∧
    src.read 0 offset = lengthPrefixed cfg.mNALLengthSize units

/-- Behind some units there is a length field that is truncated or announces more bytes
than remain. -/
def Malformed (cfg : Config) (src : Memory) (size : Nat) : Prop :=
  ∃ offset < size, UnitsEnd cfg src offset ∧
    (size < offset + cfg.mNALLengthSize ∨
      size < offset + cfg.mNALLengthSize + field cfg src offset)

/-- What a pass reads of the sample, in order: the length field, the first byte of the
unit in a broadcast stream, and the unit that is copied. -/
def passReads (cfg : Config) (src : Memory) (size : Nat) (s : NaluLoop) : List Region :=
  if s.srcOffset < size ∧ addSize s.srcOffset cfg.mNALLengthSize ≤ size then
    ⟨s.srcOffset, cfg.mNALLengthSize⟩ ::
      unitReads (addSize s.srcOffset cfg.mNALLengthSize) (field cfg src s.srcOffset)
  else []
where
  unitReads (srcOffset nalLength : Nat) : List Region :=
    if size < addSize srcOffset nalLength ∨ nalLength = 0 then []
    else
      (if cfg.mDurationTimeUs = 0 then [⟨srcOffset, 1⟩] else []) ++
        if ignored cfg (src srcOffset) = true ∨
            size < addSize s.dst.length (startCode s.startFrame).length then []
        else [⟨srcOffset, nalLength⟩]

/-- The conversion returns, trips no check, reads only the sample, and gives the error
value exactly for a malformed sample. -/
structure SafeOn (cfg : Config) (src : Memory) (size : Nat) : Prop where
  returns : ∃ fuel converted, constructNalus cfg src size fuel = some converted ∧
    converted ≠ .checkFailed ∧ converted ≠ .fault ∧
    ((∃ dst, converted = .error dst) ↔ Malformed cfg src size)
  inside : ∀ s, Loops cfg src size s → ∀ r ∈ passReads cfg src size s, r.stop ≤ size

/-- The sample consists of units whose start codes find room. -/
def Convertible (cfg : Config) (src : Memory) (size : Nat) : Prop :=
  ∃ units : List (List UInt8), (∀ unit ∈ units, unit.length < 256 ^ cfg.mNALLengthSize) ∧
    src.read 0 size = lengthPrefixed cfg.mNALLengthSize units ∧
    HasRoom size (units.filter (keeps cfg))

/-- In a broadcast stream, no length field at the very end of the sample is accepted with
a length that leads back into it. -/
def TypeInside (cfg : Config) (src : Memory) (size : Nat) : Prop :=
  cfg.mDurationTimeUs = 0 → ∀ offset dstOffset, FieldAt cfg src size offset dstOffset →
    offset + cfg.mNALLengthSize = size → field cfg src offset ≠ 0 →
      size < addSize size (field cfg src offset)

section
variable {cfg : Config} {src : Memory} {size : Nat}

theorem field_lt (offset : Nat) : field cfg src offset < 256 ^ cfg.mNALLengthSize := by
  have hLt := bigEndian_lt (src.read offset cfg.mNALLengthSize)
  rwa [Memory.read_length] at hLt

theorem UnitsEnd.zero : UnitsEnd cfg src 0 := ⟨[], by simp, rfl⟩

/-- A unit behind others. -/
theorem UnitsEnd.next {offset : Nat} (h : UnitsEnd cfg src offset) :
    UnitsEnd cfg src (offset + cfg.mNALLengthSize + field cfg src offset) := by
  obtain ⟨units, hUnits, hBytes⟩ := h
  refine ⟨units ++ [src.read (offset + cfg.mNALLengthSize) (field cfg src offset)], ?_, ?_⟩
  · intro unit hMem
    rcases List.mem_append.mp hMem with hOld | hNew
    · exact hUnits unit hOld
    · obtain rfl := List.mem_singleton.mp hNew
      rw [Memory.read_length]
      exact field_lt offset
  · have hField : src.read offset cfg.mNALLengthSize =
        bigEndianBytes cfg.mNALLengthSize (field cfg src offset) := by
      have hBack := bigEndianBytes_bigEndian (src.read offset cfg.mNALLengthSize)
      rw [Memory.read_length] at hBack
      exact hBack.symm
    rw [Memory.read_add, Memory.read_add, hBytes, Nat.zero_add, hField]
    simp [lengthPrefixed]

/-- Every sample is a list of units or malformed. -/
theorem UnitsEnd.whole_or_malformed (hWidth : 1 ≤ cfg.mNALLengthSize) {offset : Nat}
    (h : UnitsEnd cfg src offset) (hInside : offset ≤ size) :
    UnitsEnd cfg src size ∨ Malformed cfg src size := by
  induction hLeft : size - offset using Nat.strongRecOn generalizing offset with
  | _ left ih =>
      by_cases hEnd : offset = size
      · exact Or.inl (hEnd ▸ h)
      · by_cases hNext : offset + cfg.mNALLengthSize + field cfg src offset ≤ size
        · exact ih _ (by omega) h.next hNext rfl
        · exact Or.inr ⟨offset, by omega, h, Or.inr (by omega)⟩

/-- Units can be read off from the front in one way only. -/
theorem lengthPrefixed_prefix {width : Nat} (hWidth : 1 ≤ width) {units more : List (List UInt8)}
    (hUnits : ∀ unit ∈ units, unit.length < 256 ^ width)
    (hMore : ∀ unit ∈ more, unit.length < 256 ^ width)
    (hBytes : lengthPrefixed width units <+: lengthPrefixed width more) : units <+: more := by
  induction units generalizing more with
  | nil => exact List.nil_prefix
  | cons unit rest ih =>
      cases more with
      | nil =>
          have hLength := hBytes.length_le
          simp only [lengthPrefixed_cons, List.length_append, length_bigEndianBytes] at hLength
          simp [lengthPrefixed] at hLength
          omega
      | cons other others =>
          obtain ⟨tail, hTail⟩ := hBytes
          simp only [lengthPrefixed_cons, List.append_assoc] at hTail
          obtain ⟨hField, hBehind⟩ := List.append_inj hTail (by simp)
          have hSame : unit.length = other.length := by
            rw [← bigEndian_bigEndianBytes (hUnits unit List.mem_cons_self), hField,
              bigEndian_bigEndianBytes (hMore other List.mem_cons_self)]
          obtain ⟨rfl, hOthers⟩ := List.append_inj hBehind hSame
          refine (List.cons_prefix_cons).mpr ⟨rfl, ih ?_ ?_ ⟨tail, hOthers⟩⟩
          · exact fun member hMem => hUnits member (List.mem_cons_of_mem _ hMem)
          · exact fun member hMem => hMore member (List.mem_cons_of_mem _ hMem)

/-- A sample that consists of units is not malformed. -/
theorem UnitsEnd.not_malformed (hWidth : 1 ≤ cfg.mNALLengthSize) (h : UnitsEnd cfg src size) :
    ¬ Malformed cfg src size := by
  rintro ⟨offset, hOffset, ⟨units, hUnits, hBytes⟩, hBad⟩
  obtain ⟨more, hMore, hWhole⟩ := h
  obtain ⟨left, rfl⟩ : ∃ left, size = offset + left := ⟨size - offset, by omega⟩
  rw [Memory.read_add, hBytes, Nat.zero_add] at hWhole
  obtain ⟨rest, rfl⟩ := lengthPrefixed_prefix hWidth hUnits hMore ⟨_, hWhole⟩
  have hRest : src.read offset left = lengthPrefixed cfg.mNALLengthSize rest := by
    simpa [lengthPrefixed] using hWhole
  cases rest with
  | nil =>
      have hLength := congrArg List.length hRest
      simp only [Memory.read_length, lengthPrefixed, List.flatMap_nil, List.length_nil] at hLength
      omega
  | cons unit rest =>
      have hShort := hMore unit (by simp)
      have hLength := congrArg List.length hRest
      rw [Memory.read_length] at hLength
      subst hLength
      rw [lengthPrefixed_cons] at hRest hBad
      obtain ⟨hField, -, -⟩ := read_unit hRest
      rw [field, hField, bigEndian_bigEndianBytes hShort] at hBad
      simp only [List.length_append, length_bigEndianBytes] at hBad
      omega

/-- The walk stays where units end, unless the sample is malformed. -/
theorem FieldAt.unitsEnd (hWidth : 1 ≤ cfg.mNALLengthSize) (hSize : size < 2 ^ 32)
    {offset dstOffset : Nat}
    (h : FieldAt cfg src size offset dstOffset) :
    UnitsEnd cfg src offset ∨ Malformed cfg src size := by
  induction h with
  | first => exact Or.inl UnitsEnd.zero
  | empty prior hWhole hEmpty ih =>
      rcases ih with hEnd | hBad
      · have hNext := hEnd.next
        rw [hEmpty] at hNext
        exact Or.inl hNext
      · exact Or.inr hBad
  | @leftOut offset dstOffset prior hWhole hUnit hInside hIgnored ih =>
      rcases ih with hEnd | hBad
      · by_cases hFits : offset + cfg.mNALLengthSize + field cfg src offset ≤ size
        · rw [addSize_of_lt (by omega)]
          exact Or.inl hEnd.next
        · exact Or.inr ⟨offset, by omega, hEnd, Or.inr (by omega)⟩
      · exact Or.inr hBad
  | kept prior hUnit hInside hKept hCode ih =>
      rcases ih with hEnd | hBad
      · exact Or.inl hEnd.next
      · exact Or.inr hBad

/-- A walk that meets an overrunning length field is one along a malformed sample. -/
theorem FieldOverrun.malformed (hWidth : 1 ≤ cfg.mNALLengthSize) (hSize : size < 2 ^ 32)
    (h : FieldOverrun cfg src size) : Malformed cfg src size := by
  obtain ⟨offset, dstOffset, hField, hWhole, hOver⟩ := h
  rcases hField.unitsEnd hWidth hSize with hEnd | hBad
  · refine ⟨offset, by omega, hEnd, Or.inr (lt_of_lt_of_le hOver ?_)⟩
    exact Nat.mod_le _ _
  · exact hBad

end

section
variable {cfg : Config} {src : Memory} {size : Nat}
    (hWidth : 1 ≤ cfg.mNALLengthSize ∧ cfg.mNALLengthSize ≤ 4) (hSize : 2 * size + 4 < 2 ^ 32)
include hWidth hSize

theorem Loops.walks {s : NaluLoop} (h : Loops cfg src size s) : Walks cfg src size s := by
  induction h with
  | first => exact Walks.first
  | again prior hPass ih =>
      rcases naluPass_cases hWidth hSize ih with ⟨s', hAgain, hWalks⟩ | hLeave | ⟨hLeave, -⟩ |
        hLeave | hLeave
      · rw [hPass] at hAgain
        cases hAgain
        exact hWalks
      all_goals
        rw [hPass] at hLeave
        cases hLeave

/-- A pass that copies reads inside the sample unless the copy faults. -/
theorem copy_inside {s : NaluLoop} (h : Loops cfg src size s)
    (hNoFault : ∀ fuel, constructNalus cfg src size fuel ≠ some .fault)
    (hMore : s.srcOffset < size) (hWhole : s.srcOffset + cfg.mNALLengthSize ≤ size)
    (hGuard : ¬ size < addSize (s.srcOffset + cfg.mNALLengthSize) (field cfg src s.srcOffset))
    (hUnit : field cfg src s.srcOffset ≠ 0)
    (hKept : ignored cfg (src (s.srcOffset + cfg.mNALLengthSize)) ≠ true)
    (hCode : ¬ size < addSize s.dst.length (startCode s.startFrame).length) :
    s.srcOffset + cfg.mNALLengthSize + field cfg src s.srcOffset ≤ size := by
  by_cases hWrap : 2 ^ 32 ≤ s.srcOffset + cfg.mNALLengthSize + field cfg src s.srcOffset
  · have hPass : naluPass cfg src size s = .leave .fault := by
      rw [naluPass_eq hWidth hSize hMore hWhole, handleNalu, if_neg hGuard, if_neg hUnit,
        if_neg hKept, writeNalu, if_neg hCode, if_pos hWrap]
    obtain ⟨fuel, hRun⟩ := h.reached 1 .fault (by simp [naluPasses, hPass])
    exact absurd hRun (hNoFault fuel)
  · rw [addSize_of_lt (by omega)] at hGuard
    omega

theorem reads_inside (hNoFault : ∀ fuel, constructNalus cfg src size fuel ≠ some .fault)
    (hType : TypeInside cfg src size) :
    ∀ s, Loops cfg src size s → ∀ r ∈ passReads cfg src size s, r.stop ≤ size := by
  intro s hLoops r hMem
  have hField := (hLoops.walks hWidth hSize).at_field
  unfold passReads at hMem
  split_ifs at hMem with hPass
  · obtain ⟨hMore, hWhole⟩ := hPass
    rw [addSize_of_lt (by omega)] at hMem hWhole
    rcases List.mem_cons.mp hMem with rfl | hUnit
    · exact hWhole
    · unfold passReads.unitReads at hUnit
      split at hUnit
      · simp at hUnit
      · rename_i hSkip
        obtain ⟨hGuard, hLength⟩ := not_or.mp hSkip
        rcases List.mem_append.mp hUnit with hFirst | hCopy
        · split_ifs at hFirst with hBroadcast
          · obtain rfl := List.mem_singleton.mp hFirst
            by_contra hOutside
            have hEnd : s.srcOffset + cfg.mNALLengthSize = size := by
              simp only [Region.stop] at hOutside
              omega
            have hOver := hType hBroadcast _ _ hField hEnd hLength
            rw [hEnd] at hGuard
            exact hGuard hOver
          · simp at hFirst
        · split_ifs at hCopy with hNone
          · simp at hCopy
          · obtain ⟨hKept, hCode⟩ := not_or.mp hNone
            obtain rfl := List.mem_singleton.mp hCopy
            exact copy_inside hWidth hSize hLoops hNoFault hMore hWhole hGuard hLength hKept hCode
  · simp at hMem

theorem typeInside_of_reads
    (hInside : ∀ s, Loops cfg src size s → ∀ r ∈ passReads cfg src size s, r.stop ≤ size) :
    TypeInside cfg src size := by
  intro hBroadcast offset dstOffset hField hEnd hUnit
  obtain ⟨s, rfl, rfl, -, hLoops⟩ := hField.reached hWidth hSize
  by_contra hGuard
  have hRead : (⟨size, 1⟩ : Region) ∈ passReads cfg src size s := by
    unfold passReads
    rw [addSize_of_lt (by omega), hEnd, if_pos ⟨by omega, le_refl _⟩]
    refine List.mem_cons_of_mem _ ?_
    unfold passReads.unitReads
    rw [if_neg (not_or.mpr ⟨hGuard, hUnit⟩), if_pos hBroadcast]
    simp
  have hStop := hInside s hLoops _ hRead
  simp only [Region.stop] at hStop
  omega

end

/-- The conversion of arbitrary bytes is safe exactly for the samples of units whose start
codes find room, and for those on which the walk along them meets a length field that
announces too much before anything else goes wrong. -/
theorem safeOn_iff (cfg : Config) (hWidth : 1 ≤ cfg.mNALLengthSize ∧ cfg.mNALLengthSize ≤ 4)
    (sample : SampleBuffer) :
    SafeOn cfg sample.buffer sample.bufferLength ↔
      Convertible cfg sample.buffer sample.bufferLength ∨
        FieldOverrun cfg sample.buffer sample.bufferLength ∧
          TypeInside cfg sample.buffer sample.bufferLength := by
  have hFits := sample.fits
  have hSize : 2 * sample.bufferLength + 4 < 2 ^ 32 := by omega
  have hConverted : ∀ units : List (List UInt8),
      (hUnits : ∀ unit ∈ units, unit.length < 256 ^ cfg.mNALLengthSize) →
      (hBytes : sample.buffer.read 0 sample.bufferLength =
        lengthPrefixed cfg.mNALLengthSize units) →
      constructNalus cfg sample.buffer sample.bufferLength (units.length + 1) =
        some (if HasRoom sample.bufferLength (units.filter (keeps cfg)) then
          .written (StartCode.join (units.filter (keeps cfg))) else .checkFailed) := by
    intro units hUnits hBytes
    exact (NalSample.mk sample units hUnits hBytes).constructNalus_eq hWidth
  constructor
  · rintro ⟨⟨fuel, converted, hRun, hCheck, hFault, hError⟩, hInside⟩
    by_cases hBad : Malformed cfg sample.buffer sample.bufferLength
    · obtain ⟨dst, rfl⟩ := hError.mpr hBad
      exact Or.inr ⟨(constructNalus_error_iff hWidth hSize).mp ⟨fuel, dst, hRun⟩,
        typeInside_of_reads hWidth hSize hInside⟩
    · obtain ⟨units, hUnits, hBytes⟩ :=
        (UnitsEnd.zero.whole_or_malformed hWidth.1 (Nat.zero_le _)).resolve_right hBad
      refine Or.inl ⟨units, hUnits, hBytes, ?_⟩
      by_contra hRoom
      have hOther := hConverted units hUnits hBytes
      rw [if_neg hRoom] at hOther
      exact hCheck (naluPasses_unique hRun hOther)
  · rintro (⟨units, hUnits, hBytes, hRoom⟩ | ⟨hOverrun, hType⟩)
    · have hRun := hConverted units hUnits hBytes
      rw [if_pos hRoom] at hRun
      have hNot := UnitsEnd.not_malformed hWidth.1 ⟨units, hUnits, hBytes⟩
      refine ⟨⟨_, _, hRun, by simp, by simp, by simpa using hNot⟩, ?_⟩
      refine reads_inside hWidth hSize ?_ ?_
      · intro fuel hFault
        cases naluPasses_unique hRun hFault
      · intro _ offset dstOffset hField hEnd hUnit
        rcases hField.unitsEnd hWidth.1 (by omega) with hUnitsEnd | hBad
        · exact absurd ⟨offset, by omega, hUnitsEnd, Or.inr (by omega)⟩ hNot
        · exact absurd hBad hNot
    · obtain ⟨fuel, dst, hRun⟩ := (constructNalus_error_iff hWidth hSize).mpr hOverrun
      have hBad := hOverrun.malformed hWidth.1 (by omega)
      refine ⟨⟨fuel, _, hRun, by simp, by simp, by simpa using hBad⟩, ?_⟩
      refine reads_inside hWidth hSize ?_ hType
      intro fuel' hFault
      cases naluPasses_unique hRun hFault

/-- One unit of one byte. -/
theorem safeOn_oneUnit :
    SafeOn fourByteLengths (videoSample [0, 0, 0, 1, 101] (by decide)).buffer 5 := by
  refine (safeOn_iff fourByteLengths (by decide)
    (videoSample [0, 0, 0, 1, 101] (by decide))).mpr (Or.inl ⟨[[101]], by decide, ?_, ?_⟩)
  · decide
  · decide

/-- A broadcast stream with length fields of four bytes. -/
def broadcast : Config := ⟨2, 0, 1, 4, 0⟩

/-- A truncated length field trips a check, a length that wraps around runs the copy out
of the address space, and a unit that is left out with such a length leads back to its
own length field, for ever. -/
theorem not_safeOn :
    (constructNalus fourByteLengths (videoSample [0, 0] (by decide)).buffer 2 1 =
        some .checkFailed ∧
      ¬ SafeOn fourByteLengths (videoSample [0, 0] (by decide)).buffer 2) ∧
    (constructNalus fourByteLengths (videoSample [255, 255, 255, 252, 101] (by decide)).buffer 5 1 =
        some .fault ∧
      ¬ SafeOn fourByteLengths (videoSample [255, 255, 255, 252, 101] (by decide)).buffer 5) ∧
    ((∀ fuel, constructNalus broadcast
        (videoSample [255, 255, 255, 252, 6] (by decide)).buffer 5 fuel = none) ∧
      ¬ SafeOn broadcast (videoSample [255, 255, 255, 252, 6] (by decide)).buffer 5) := by
  have hTruncated : constructNalus fourByteLengths (videoSample [0, 0] (by decide)).buffer 2 1 =
      some .checkFailed := by decide
  have hFault : constructNalus fourByteLengths
      (videoSample [255, 255, 255, 252, 101] (by decide)).buffer 5 1 = some .fault := by decide
  have hPass : naluPass broadcast (videoSample [255, 255, 255, 252, 6] (by decide)).buffer 5
      ⟨0, [], true⟩ = .again ⟨0, [], true⟩ := by decide
  have hForever : ∀ fuel, constructNalus broadcast
      (videoSample [255, 255, 255, 252, 6] (by decide)).buffer 5 fuel = none := by
    intro fuel
    induction fuel with
    | zero => rfl
    | succ fuel ih =>
        simp only [constructNalus, naluPasses, hPass]
        exact ih
  refine ⟨⟨hTruncated, ?_⟩, ⟨hFault, ?_⟩, hForever, ?_⟩
  · rintro ⟨⟨fuel, converted, hRun, hCheck, -, -⟩, -⟩
    exact hCheck (naluPasses_unique hRun hTruncated)
  · rintro ⟨⟨fuel, converted, hRun, -, hNoFault, -⟩, -⟩
    exact hNoFault (naluPasses_unique hRun hFault)
  · rintro ⟨⟨fuel, converted, hRun, -, -, -⟩, -⟩
    rw [hForever fuel] at hRun
    cases hRun

end Meet.PPExtractor
