import Meet.Common.StartCode
import Meet.PPExtractor.Malformed

/-! What `PPExtractor::constructNalus` makes of a sample that consists of units, each
behind its length. -/
namespace Meet.PPExtractor

/-- A number in a fixed number of bytes, the most significant one first. -/
def bigEndianBytes : Nat → Nat → List UInt8
  | 0, _ => []
  | width + 1, value => bigEndianBytes width (value / 256) ++ [UInt8.ofNat value]

@[simp] theorem length_bigEndianBytes (width value : Nat) :
    (bigEndianBytes width value).length = width := by
  induction width generalizing value with
  | zero => rfl
  | succ width ih => simp [bigEndianBytes, ih]

theorem bigEndian_bigEndianBytes {width value : Nat} (hValue : value < 256 ^ width) :
    bigEndian (bigEndianBytes width value) = value := by
  induction width generalizing value with
  | zero =>
      simp only [Nat.pow_zero, Nat.lt_one_iff] at hValue
      subst hValue
      rfl
  | succ width ih =>
      have hDiv : value / 256 < 256 ^ width := by
        apply (Nat.div_lt_iff_lt_mul (by decide)).mpr
        simpa [Nat.pow_succ] using hValue
      have hHigh := ih hDiv
      simp only [bigEndian, bigEndianBytes, List.foldl_append, List.foldl_cons, List.foldl_nil,
        UInt8.toNat_ofNat'] at hHigh ⊢
      rw [hHigh]
      omega

/-- The bytes of a sample: each unit behind its length. -/
def lengthPrefixed (width : Nat) (units : List (List UInt8)) : List UInt8 :=
  units.flatMap fun unit => bigEndianBytes width unit.length ++ unit

/-- The units that are converted: not the empty ones and, of a stream without a duration,
not those whose type, the low five bits of the first byte, is 6, 7, 8 or 9. -/
def keeps (cfg : Config) : List UInt8 → Bool
  | [] => false
  | first :: _ =>
      !(cfg.mDurationTimeUs = 0 && 6 ≤ first.toNat % 32 && first.toNat % 32 ≤ 9)

/-- The test of the loop is that of the first byte. -/
theorem keeps_cons (cfg : Config) (first : UInt8) (rest : List UInt8) :
    keeps cfg (first :: rest) = !ignored cfg first := by
  have hType : (first &&& 31).toNat = first.toNat % 32 := by
    rw [UInt8.toNat_and]
    exact Nat.and_two_pow_sub_one_eq_mod first.toNat 5
  have hListed : [6, 7, 8, 9].contains (first &&& 31) =
      (decide (6 ≤ first.toNat % 32) && decide (first.toNat % 32 ≤ 9)) := by
    rw [Bool.eq_iff_iff]
    simp only [List.contains_iff_mem, List.mem_cons, List.not_mem_nil, or_false,
      ← UInt8.toNat_inj, hType, Bool.and_eq_true, decide_eq_true_eq]
    simp only [UInt8.reduceToNat]
    omega
  rw [keeps, ignored, hListed, Bool.and_assoc]
  rfl

/-- A sample that is made of units. -/
structure NalSample (cfg : Config) extends SampleBuffer where
  units : List (List UInt8)
  lengths : ∀ unit ∈ units, unit.length < 256 ^ cfg.mNALLengthSize
  bytes_eq : buffer.read 0 bufferLength = lengthPrefixed cfg.mNALLengthSize units

def NalSample.kept {cfg : Config} (sample : NalSample cfg) : List (List UInt8) :=
  sample.units.filter (keeps cfg)

/-- The conversion as a function of the units, up to the first start code that finds no
room in as many bytes as the sample has. -/
def convert (cfg : Config) (size : Nat) (dst : List UInt8) :
    List (List UInt8) → Option (List UInt8)
  | [] => some dst
  | unit :: rest =>
      if keeps cfg unit then
        if size < dst.length + (startCode dst.isEmpty).length then none
        else convert cfg size (dst ++ startCode dst.isEmpty ++ unit) rest
      else convert cfg size dst rest

section
variable {width : Nat}

theorem lengthPrefixed_cons (unit : List UInt8) (rest : List (List UInt8)) :
    lengthPrefixed width (unit :: rest) =
      bigEndianBytes width unit.length ++ unit ++ lengthPrefixed width rest := by
  simp [lengthPrefixed]

theorem length_lengthPrefixed (units : List (List UInt8)) :
    (lengthPrefixed width units).length = width * units.length + units.flatten.length := by
  induction units with
  | nil => rfl
  | cons unit rest ih =>
      simp only [lengthPrefixed_cons, List.length_append, length_bigEndianBytes, ih,
        List.length_cons, List.flatten_cons, Nat.mul_add]
      omega

/-- The bytes of a sample are those of the units a test picks and of the others. -/
theorem length_lengthPrefixed_filter (picks : List UInt8 → Bool) (units : List (List UInt8)) :
    (lengthPrefixed width units).length = (lengthPrefixed width (units.filter picks)).length +
      (lengthPrefixed width (units.filter fun unit => !picks unit)).length := by
  induction units with
  | nil => rfl
  | cons unit rest ih =>
      cases hPicks : picks unit <;>
        simp [lengthPrefixed_cons, hPicks, ih, Nat.add_assoc, Nat.add_left_comm]

end

section
variable {cfg : Config} {src : Memory} {size : Nat}
    (hWidth : 1 ≤ cfg.mNALLengthSize ∧ cfg.mNALLengthSize ≤ 4) (hSize : 2 * size + 4 < 2 ^ 32)
include hWidth hSize

/-- A pass at a unit that lies inside the sample. -/
theorem naluPass_unit {offset : Nat} {dst unit : List UInt8}
    (hUnit : unit.length < 256 ^ cfg.mNALLengthSize) (hDst : dst.length ≤ size + offset)
    (hInside : offset + cfg.mNALLengthSize + unit.length ≤ size)
    (hField : src.read offset cfg.mNALLengthSize = bigEndianBytes cfg.mNALLengthSize unit.length)
    (hBytes : src.read (offset + cfg.mNALLengthSize) unit.length = unit) :
    naluPass cfg src size ⟨offset, dst, dst.isEmpty⟩ =
      if keeps cfg unit then
        if size < dst.length + (startCode dst.isEmpty).length then .leave .checkFailed
        else .again ⟨offset + cfg.mNALLengthSize + unit.length,
          dst ++ startCode dst.isEmpty ++ unit, false⟩
      else .again ⟨offset + cfg.mNALLengthSize + unit.length, dst, dst.isEmpty⟩ := by
  have hLength : field cfg src offset = unit.length := by
    rw [field, hField, bigEndian_bigEndianBytes hUnit]
  have hPass := @naluPass_eq cfg src size hWidth hSize ⟨offset, dst, dst.isEmpty⟩
    (by simp only; omega) (by simp only; omega)
  simp only [hLength] at hPass
  rw [hPass, handleNalu, addSize_of_lt (by omega), if_neg (by omega)]
  cases unit with
  | nil => simp [keeps]
  | cons first rest =>
      have hFirst : src (offset + cfg.mNALLengthSize) = first := by
        simp only [List.length_cons, Nat.add_comm rest.length, Memory.read_add] at hBytes
        simpa [Memory.read] using congrArg List.head? hBytes
      have hCode : (startCode dst.isEmpty).length ≤ 4 := by
        cases dst.isEmpty <;> decide
      rw [if_neg (by simp), hFirst]
      cases hIgnored : ignored cfg first with
      | true => simp [keeps_cons, hIgnored]
      | false =>
          simp only [keeps_cons, hIgnored, Bool.not_false, if_true, Bool.false_eq_true, if_false]
          rw [writeNalu, addSize_of_lt (by simp only; omega), hBytes]
          simp only
          split
          · rfl
          · rw [if_neg (by omega)]

omit hWidth hSize in
/-- The bytes of a first unit, its length before it and the rest behind it. -/
theorem read_unit {offset : Nat} {unit more : List UInt8}
    (hBytes : src.read offset
        (bigEndianBytes cfg.mNALLengthSize unit.length ++ unit ++ more).length =
      bigEndianBytes cfg.mNALLengthSize unit.length ++ unit ++ more) :
    src.read offset cfg.mNALLengthSize = bigEndianBytes cfg.mNALLengthSize unit.length ∧
      src.read (offset + cfg.mNALLengthSize) unit.length = unit ∧
      src.read (offset + cfg.mNALLengthSize + unit.length) more.length = more := by
  simp only [List.length_append, length_bigEndianBytes, Memory.read_add] at hBytes
  obtain ⟨hUnit, hMore⟩ := List.append_inj hBytes (by simp)
  obtain ⟨hField, hUnit⟩ := List.append_inj hUnit (by simp)
  exact ⟨hField, hUnit, by rw [← Nat.add_assoc] at hMore; exact hMore⟩

/-- The loop converts the units one after another and comes to what follows them. -/
theorem naluPasses_units {units : List (List UInt8)} {tail : List UInt8}
    (hUnits : ∀ unit ∈ units, unit.length < 256 ^ cfg.mNALLengthSize) {offset : Nat}
    {dst : List UInt8} (hDst : dst.length ≤ size + offset)
    (hEnd : offset + (lengthPrefixed cfg.mNALLengthSize units ++ tail).length = size)
    (hBytes : src.read offset (lengthPrefixed cfg.mNALLengthSize units ++ tail).length =
      lengthPrefixed cfg.mNALLengthSize units ++ tail) (fuel : Nat) :
    naluPasses cfg src size (units.length + fuel) ⟨offset, dst, dst.isEmpty⟩ =
      match convert cfg size dst units with
      | none => some .checkFailed
      | some dst' => naluPasses cfg src size fuel
          ⟨offset + (lengthPrefixed cfg.mNALLengthSize units).length, dst', dst'.isEmpty⟩ := by
  induction units generalizing offset dst with
  | nil => simp [convert, lengthPrefixed]
  | cons unit rest ih =>
      have hShort := hUnits unit List.mem_cons_self
      have hRest : ∀ other ∈ rest, other.length < 256 ^ cfg.mNALLengthSize :=
        fun other hMem => hUnits other (List.mem_cons_of_mem _ hMem)
      rw [lengthPrefixed_cons, List.append_assoc _ _ tail] at hEnd hBytes
      obtain ⟨hField, hUnit, hMore⟩ := read_unit hBytes
      have hLength : offset + cfg.mNALLengthSize + unit.length +
          (lengthPrefixed cfg.mNALLengthSize rest ++ tail).length = size := by
        rw [← hEnd]
        simp only [List.length_append, length_bigEndianBytes]
        omega
      have hPass := naluPass_unit hWidth hSize hShort hDst (by omega) hField hUnit
      have hOffset : offset + (lengthPrefixed cfg.mNALLengthSize (unit :: rest)).length =
          offset + cfg.mNALLengthSize + unit.length +
            (lengthPrefixed cfg.mNALLengthSize rest).length := by
        simp only [lengthPrefixed_cons, List.length_append, length_bigEndianBytes]
        omega
      rw [hOffset, List.length_cons, Nat.add_right_comm, naluPasses, hPass, convert]
      by_cases hKeeps : keeps cfg unit = true
      · rw [if_pos hKeeps, if_pos hKeeps]
        by_cases hRoom : size < dst.length + (startCode dst.isEmpty).length
        · rw [if_pos hRoom, if_pos hRoom]
        · rw [if_neg hRoom, if_neg hRoom]
          have hWritten : (dst ++ startCode dst.isEmpty ++ unit).isEmpty = false := by
            cases dst.isEmpty <;> simp [startCode]
          have hBound : (dst ++ startCode dst.isEmpty ++ unit).length ≤
              size + (offset + cfg.mNALLengthSize + unit.length) := by
            simp only [List.length_append]
            omega
          have hNext := ih hRest hBound hLength hMore
          rw [hWritten] at hNext
          exact hNext
      · rw [if_neg hKeeps, if_neg hKeeps]
        exact ih hRest (by omega) hLength hMore

end

/-- The start codes of the units find room: that of the last unit ends within as many
bytes as the sample has. -/
def HasRoom (size : Nat) (kept : List (List UInt8)) : Prop :=
  kept = [] ∨ (StartCode.join kept).length ≤ size + (kept.getLast?.getD []).length

instance (size : Nat) (kept : List (List UInt8)) : Decidable (HasRoom size kept) :=
  inferInstanceAs (Decidable (_ ∨ _))

section
variable {cfg : Config} {size : Nat}

theorem convert_append (dst : List UInt8) (first second : List (List UInt8)) :
    convert cfg size dst (first ++ second) =
      (convert cfg size dst first).bind fun dst' => convert cfg size dst' second := by
  induction first generalizing dst with
  | nil => rfl
  | cons unit rest ih =>
      simp only [List.cons_append, convert]
      split
      · split
        · rfl
        · exact ih _
      · exact ih _

theorem isEmpty_join {units : List (List UInt8)} :
    (StartCode.join units).isEmpty = decide (units = []) := by
  cases units <;> simp [StartCode.join]

theorem HasRoom.snoc_iff {units : List (List UInt8)} {unit : List UInt8} :
    HasRoom size (units ++ [unit]) ↔
      (StartCode.join units).length + (startCode (StartCode.join units).isEmpty).length ≤ size := by
  unfold HasRoom
  rw [StartCode.join_snoc, isEmpty_join]
  by_cases hFirst : units = []
  · simp only [hFirst, startCode, if_true, decide_true, List.length_append, List.length_cons]
    simp
  · simp only [hFirst, startCode, if_false, decide_false, List.length_append, List.length_cons]
    simp

theorem convert_eq (units : List (List UInt8)) :
    convert cfg size [] units =
      if HasRoom size (units.filter (keeps cfg)) then
        some (StartCode.join (units.filter (keeps cfg)))
      else none := by
  induction units using List.reverseRecOn with
  | nil => simp [convert, HasRoom, StartCode.join]
  | append_singleton units unit ih =>
      rw [convert_append, ih, List.filter_append]
      cases hKeeps : keeps cfg unit with
      | false =>
          simp only [List.filter_cons, hKeeps, Bool.false_eq_true, if_false, List.filter_nil,
            List.append_nil, convert]
          split <;> rfl
      | true =>
          simp only [List.filter_cons, hKeeps, if_true, List.filter_nil, convert]
          by_cases hLast : HasRoom size (units.filter (keeps cfg) ++ [unit])
          · have hBefore : HasRoom size (units.filter (keeps cfg)) :=
              Or.inr (by have := HasRoom.snoc_iff.mp hLast; omega)
            rw [if_pos hBefore, if_pos hLast, Option.bind_some,
              if_neg (by have := HasRoom.snoc_iff.mp hLast; omega), StartCode.join_snoc,
              isEmpty_join]
            by_cases hFirst : units.filter (keeps cfg) = [] <;> simp [hFirst, startCode]
          · rw [if_neg hLast]
            split
            · rw [Option.bind_some, if_pos (by have := HasRoom.snoc_iff.not.mp hLast; omega)]
            · rfl

end

theorem HasRoom.length_le {size : Nat} {kept : List (List UInt8)} (h : HasRoom size kept) :
    (StartCode.join kept).length ≤ size + kept.flatten.length := by
  rcases h with rfl | hRoom
  · exact Nat.zero_le _
  · cases hLast : kept.getLast? with
    | none =>
        obtain rfl := List.getLast?_eq_none_iff.mp hLast
        exact Nat.zero_le _
    | some last =>
        have hMem := List.sublist_flatten_of_mem (List.mem_of_getLast? hLast)
        have hShort := hMem.length_le
        rw [hLast, Option.getD_some] at hRoom
        omega

namespace NalSample

variable {cfg : Config}

/-- The units that are not converted. -/
def leftOut (sample : NalSample cfg) : List (List UInt8) :=
  sample.units.filter fun unit => !keeps cfg unit

theorem bufferLength_eq (sample : NalSample cfg) :
    sample.bufferLength = (lengthPrefixed cfg.mNALLengthSize sample.units).length := by
  rw [← sample.bytes_eq, Memory.read_length]

theorem bufferLength_kept (sample : NalSample cfg) :
    sample.bufferLength = cfg.mNALLengthSize * sample.kept.length + sample.kept.flatten.length +
      (lengthPrefixed cfg.mNALLengthSize sample.leftOut).length := by
  rw [bufferLength_eq, length_lengthPrefixed_filter (keeps cfg), ← length_lengthPrefixed]
  rfl

/-- The outcome of the conversion: the stream of the kept units, or a failed check. -/
theorem constructNalus_eq (hWidth : 1 ≤ cfg.mNALLengthSize ∧ cfg.mNALLengthSize ≤ 4)
    (sample : NalSample cfg) :
    PPExtractor.constructNalus cfg sample.buffer sample.bufferLength (sample.units.length + 1) =
      some (if HasRoom sample.bufferLength sample.kept then .written (StartCode.join sample.kept)
        else .checkFailed) := by
  have hFits := sample.fits
  have hLength := sample.bufferLength_eq
  have hPasses := @naluPasses_units cfg sample.buffer sample.bufferLength hWidth (by omega)
    sample.units [] sample.lengths 0 [] (Nat.zero_le _)
  simp only [List.append_nil, Nat.zero_add, ← hLength] at hPasses
  have hConverted := hPasses trivial sample.bytes_eq 1
  rw [convert_eq] at hConverted
  refine hConverted.trans ?_
  unfold kept
  split
  · rename_i hNone
    rw [if_neg (by simpa using hNone)]
  · rename_i dst hSome
    obtain ⟨hRoom, hJoin⟩ := Option.ite_none_right_eq_some.mp hSome
    obtain rfl := Option.some.inj hJoin
    rw [if_pos hRoom]
    simp [naluPasses, naluPass]

/-- Whatever the number of passes, the outcome is the one above. -/
theorem eq_of_constructNalus (hWidth : 1 ≤ cfg.mNALLengthSize ∧ cfg.mNALLengthSize ≤ 4)
    (sample : NalSample cfg) {fuel : Nat} {converted : Converted}
    (hRun : constructNalus cfg sample.buffer sample.bufferLength fuel = some converted) :
    converted = if HasRoom sample.bufferLength sample.kept then
      .written (StartCode.join sample.kept) else .checkFailed :=
  naluPasses_unique hRun (sample.constructNalus_eq hWidth)

theorem length_join_lt (sample : NalSample cfg) (hRoom : HasRoom sample.bufferLength sample.kept) :
    (StartCode.join sample.kept).length < 2 ^ 32 := by
  have hFits := sample.fits
  have hJoin := hRoom.length_le
  have hKept := sample.bufferLength_kept
  omega

/-- Every list of units that can be allocated is a sample. -/
def ofUnits (units : List (List UInt8))
    (lengths : ∀ unit ∈ units, unit.length < 256 ^ cfg.mNALLengthSize)
    (fits : 2 * (lengthPrefixed cfg.mNALLengthSize units).length + 100 + 6291456 ≤ 0xC0000000) :
    NalSample cfg where
  buffer := fun i => (lengthPrefixed cfg.mNALLengthSize units).getD i 0
  bufferLength := (lengthPrefixed cfg.mNALLengthSize units).length
  fits := fits
  units := units
  lengths := lengths
  bytes_eq := by
    apply List.ext_getElem
    · simp
    · intro i hLeft hRight
      simp [Memory.read, List.getElem?_eq_getElem hRight]

end NalSample

/-- A sample of units is converted to the stream of the kept units, if its checks hold.
Where no kept unit holds a start code, the stream gives the kept units back, and samples
with other kept units have other streams. -/
theorem constructNalus_startCodes (cfg : Config)
    (hWidth : 1 ≤ cfg.mNALLengthSize ∧ cfg.mNALLengthSize ≤ 4) (sample : NalSample cfg) :
    (∃ fuel converted,
      constructNalus cfg sample.buffer sample.bufferLength fuel = some converted) ∧
    ∀ fuel converted, constructNalus cfg sample.buffer sample.bufferLength fuel = some converted →
      converted ≠ .checkFailed →
        converted = .written (StartCode.join sample.kept) ∧
        converted.length = some (StartCode.join sample.kept).length ∧
        ((∀ unit ∈ sample.kept, StartCode.Escaped unit) →
          StartCode.split (StartCode.join sample.kept) = ([], sample.kept) ∧
          ∀ (other : NalSample cfg) (fuel' : Nat),
            (∀ unit ∈ other.kept, StartCode.Escaped unit) →
            constructNalus cfg other.buffer other.bufferLength fuel' = some converted →
            other.kept = sample.kept) := by
  refine ⟨⟨_, _, sample.constructNalus_eq hWidth⟩, ?_⟩
  intro fuel converted hRun hPassed
  have hConverted := sample.eq_of_constructNalus hWidth hRun
  split at hConverted
  · rename_i hRoom
    refine ⟨hConverted, ?_, ?_⟩
    · rw [hConverted, Converted.length, Nat.mod_eq_of_lt (sample.length_join_lt hRoom)]
    · intro hEscaped
      have hSplit := StartCode.split_join hEscaped
      refine ⟨hSplit, ?_⟩
      intro other fuel' hOther hOtherRun
      have hSame := other.eq_of_constructNalus hWidth hOtherRun
      rw [hConverted] at hSame
      split at hSame
      · have hJoin : StartCode.join sample.kept = StartCode.join other.kept := by
          simpa using hSame
        rw [hJoin, StartCode.split_join hOther] at hSplit
        exact (Prod.mk.inj hSplit).2
      · cases hSame
  · exact absurd hConverted hPassed

/-- A parameter set, an empty unit and a slice, with length fields of two bytes. -/
def twoByteSample : NalSample ⟨2, 0, 1, 2, 60000⟩ :=
  .ofUnits [[103, 66, 0, 30], [], [101, 136, 132]] (by decide) (by decide)

theorem constructNalus_startCodes_twoByte :
    constructNalus ⟨2, 0, 1, 2, 60000⟩ twoByteSample.buffer twoByteSample.bufferLength 4 =
      some (.written [0, 0, 0, 1, 103, 66, 0, 30, 0, 0, 1, 101, 136, 132]) ∧
    StartCode.split [0, 0, 0, 1, 103, 66, 0, 30, 0, 0, 1, 101, 136, 132] =
      ([], [[103, 66, 0, 30], [101, 136, 132]]) := by
  have hRun : constructNalus ⟨2, 0, 1, 2, 60000⟩ twoByteSample.buffer
      twoByteSample.bufferLength 4 =
        some (.written [0, 0, 0, 1, 103, 66, 0, 30, 0, 0, 1, 101, 136, 132]) := by
    decide +kernel
  obtain ⟨-, -, hSplit⟩ := (constructNalus_startCodes ⟨2, 0, 1, 2, 60000⟩ (by decide)
    twoByteSample).2 4 _ hRun (by simp)
  refine ⟨hRun, (hSplit ?_).1⟩
  intro unit hMem
  have hUnits : unit = [103, 66, 0, 30] ∨ unit = [101, 136, 132] := by
    simpa [NalSample.kept, twoByteSample, NalSample.ofUnits, keeps] using hMem
  rcases hUnits with rfl | rfl <;> exact ⟨by decide, by decide, by decide⟩

/-- The packet of a sample of units is large enough, and the checks on the way hold,
exactly when what the start codes add is made up for: by what is left out, and by the
last unit or the slack behind it. -/
theorem conversion_fits_iff (cfg : Config)
    (hWidth : 1 ≤ cfg.mNALLengthSize ∧ cfg.mNALLengthSize ≤ 4) (sample : NalSample cfg) :
    (∃ fuel dst, constructNalus cfg sample.buffer sample.bufferLength fuel =
        some (.written dst) ∧ dst.length ≤ sample.bufferLength + 100) ↔
      (sample.kept = [] ∨ 3 * sample.kept.length + 1 ≤
        cfg.mNALLengthSize * sample.kept.length +
          (lengthPrefixed cfg.mNALLengthSize sample.leftOut).length +
          min 100 (sample.kept.getLast?.getD []).length) := by
  have hKept := sample.bufferLength_kept
  have hJoin := StartCode.length_join sample.kept
  constructor
  · rintro ⟨fuel, dst, hRun, hShort⟩
    have hConverted := sample.eq_of_constructNalus hWidth hRun
    split at hConverted
    · rename_i hRoom
      obtain rfl : dst = StartCode.join sample.kept := by simpa using hConverted
      rcases hRoom with hNone | hLast
      · exact Or.inl hNone
      · by_cases hNone : sample.kept = []
        · exact Or.inl hNone
        · right
          rw [if_neg hNone] at hJoin
          omega
    · cases hConverted
  · intro hEnough
    have hRoom : HasRoom sample.bufferLength sample.kept ∧
        (StartCode.join sample.kept).length ≤ sample.bufferLength + 100 := by
      rcases hEnough with hNone | hEnough
      · exact ⟨Or.inl hNone, by simp [hNone, StartCode.join]⟩
      · have hOne : (if sample.kept = [] then 0 else 1) ≤ 1 := by split <;> omega
        exact ⟨Or.inr (by omega), by omega⟩
    refine ⟨sample.units.length + 1, StartCode.join sample.kept, ?_, hRoom.2⟩
    rw [sample.constructNalus_eq hWidth, if_pos hRoom.1]

theorem conversion_fits_twoByte :
    ∃ fuel dst, constructNalus ⟨2, 0, 1, 2, 60000⟩ twoByteSample.buffer
        twoByteSample.bufferLength fuel = some (.written dst) ∧
      dst.length ≤ twoByteSample.bufferLength + 100 :=
  (conversion_fits_iff ⟨2, 0, 1, 2, 60000⟩ (by decide) twoByteSample).mpr
    (Or.inr (by decide +kernel))

/-- One unit of one byte, with a length field of two bytes. -/
def oneByteUnit : NalSample ⟨2, 0, 1, 2, 60000⟩ := .ofUnits [[101]] (by decide) (by decide)

/-- Many units of one byte and one of a hundred and one, with length fields of one byte. -/
def smallUnits : NalSample ⟨2, 0, 1, 1, 60000⟩ :=
  .ofUnits (List.replicate 49 [101] ++ [List.replicate 101 101]) (by decide +kernel)
    (by decide +kernel)

/-- A check fails on the first sample, and the second is converted to one byte more than
its packet has. -/
theorem not_conversion_fits :
    (constructNalus ⟨2, 0, 1, 2, 60000⟩ oneByteUnit.buffer oneByteUnit.bufferLength 1 =
        some .checkFailed ∧
      ¬ ∃ fuel dst, constructNalus ⟨2, 0, 1, 2, 60000⟩ oneByteUnit.buffer
        oneByteUnit.bufferLength fuel = some (.written dst) ∧
          dst.length ≤ oneByteUnit.bufferLength + 100) ∧
    (∃ dst, constructNalus ⟨2, 0, 1, 1, 60000⟩ smallUnits.buffer smallUnits.bufferLength 51 =
        some (.written dst) ∧ dst.length = smallUnits.bufferLength + 101) := by
  have hCheck : constructNalus ⟨2, 0, 1, 2, 60000⟩ oneByteUnit.buffer oneByteUnit.bufferLength 1 =
      some .checkFailed := by decide +kernel
  refine ⟨⟨hCheck, ?_⟩, ?_⟩
  · rintro ⟨fuel, dst, hRun, -⟩
    cases naluPasses_unique hRun hCheck
  · refine ⟨StartCode.join smallUnits.kept, ?_, by decide +kernel⟩
    have hRun := smallUnits.constructNalus_eq (by decide)
    rw [if_pos (by decide +kernel)] at hRun
    exact hRun

end Meet.PPExtractor
