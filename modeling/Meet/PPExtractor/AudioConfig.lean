import Meet.Common.BitField
import Meet.PPExtractor.Tracks

/-! The bytes and the table entries that `parseAOTs` looks up, and what it makes of an
`AudioSpecificConfig`. -/
namespace Meet.PPExtractor

/-- A byte of the format, or an entry of one of the tables. -/
inductive Lookup where
  | format (offset : Nat)
  | samplingRate (index : Nat)
  | channelCount (index : Nat)
deriving DecidableEq, Repr

/-- The lookup stays below `format_size` or within its table. -/
def Lookup.Inside (info : StreamInfo) : Lookup → Prop
  | .format offset => offset < info.formatSize
  | .samplingRate index => index < kSamplingRate.length
  | .channelCount index => index < kChannelCount.length

/-- Code that records what it looks up. -/
abbrev Parser := StateM (List Lookup)

namespace Parser

def audioConfig (info : StreamInfo) (offset : Nat) : Parser Nat := do
  modify (· ++ [.format offset])
  return (info.formatBuffer offset).toNat

def samplingRate (index : Nat) : Parser (Option Nat) := do
  modify (· ++ [.samplingRate index])
  return kSamplingRate[index]?

def channelCount (index : Nat) : Parser (Option Nat) := do
  modify (· ++ [.channelCount index])
  return kChannelCount[index]?

/-- The loop that logs the format. Its counter has eight bits. After the given number of
passes the result is whether it has ended. -/
def logFormat (info : StreamInfo) : Nat → UInt8 → Parser Bool
  | 0, _ => return false
  | passes + 1, i => do
      if i.toNat < info.formatSize then
        let _ ← audioConfig info i.toNat
        logFormat info passes (i + 1)
      else return true

end Parser

/-- What the call returns and what it has assigned. -/
structure Parsed where
  result : Bool
  config : AudioConfig
deriving DecidableEq, Repr

namespace Parser

/-- The last assignment, for a rate that has not been found so far. -/
def parseBaseRate (index : Nat) (count : Option Nat) : Parser Parsed := do
  let rate ← samplingRate index
  return ⟨true, ⟨rate, count⟩⟩

/-- The extension behind the base configuration. The error value is returned as a `bool`. -/
def parseExtension (info : StreamInfo) (index : Nat) (count : Option Nat) : Parser Parsed := do
  let syncExtensionType := ((← audioConfig info 2) <<< 3) + ((← audioConfig info 3) >>> 5)
  if syncExtensionType = 0x2b7 then
    let extensionAudioObjectType := (← audioConfig info 3) &&& 0x1f
    if extensionAudioObjectType = 5 then
      let sbrPresentFlag := (← audioConfig info 4) >>> 7
      if sbrPresentFlag = 1 then
        let extensionSamplingFrequencyIndex := ((← audioConfig info 4) &&& 0x7f) >>> 3
        if 12 < extensionSamplingFrequencyIndex then return ⟨true, ⟨none, count⟩⟩
        else parseBaseRate extensionSamplingFrequencyIndex count
      else parseBaseRate index count
    else parseBaseRate index count
  else parseBaseRate index count

/-- What follows the loop. For object type 5 the rate is computed and thrown away. -/
def parseConfig (system : AudioSystem) (info : StreamInfo) : Parser Parsed := do
  let audioObjectType := (← audioConfig info 0) >>> 3
  if audioObjectType = 31 then
    let _ ← audioConfig info 0
    let _ ← audioConfig info 1
    return ⟨false, ⟨none, none⟩⟩
  else
    let samplingFrequencyIndex :=
      (((← audioConfig info 0) &&& 7) <<< 1) + ((← audioConfig info 1) >>> 7)
    if samplingFrequencyIndex = 15 then return ⟨false, ⟨none, none⟩⟩
    else
      let channelConfiguration := ((← audioConfig info 1) &&& 0x78) >>> 3
      let count ← channelCount channelConfiguration
      if system.before16 && system.canAudioHWDecode && !system.canAudioHWSBR then
        parseBaseRate samplingFrequencyIndex count
      else if audioObjectType = 5 then
        let _ ← samplingRate samplingFrequencyIndex
        return ⟨true, ⟨none, count⟩⟩
      else if 4 ≤ info.formatSize then parseExtension info samplingFrequencyIndex count
      else parseBaseRate samplingFrequencyIndex count

/-- A call, as far as it comes when the loop has made the given number of passes. -/
def parse (system : AudioSystem) (info : StreamInfo) (passes : Nat) : Parser (Option Parsed) := do
  if ← logFormat info passes 0 then
    let parsed ← parseConfig system info
    return some parsed
  else return none

end Parser

namespace StreamInfo

/-! ### The fields of the configuration -/

def audioObjectType (info : StreamInfo) : Nat := info.formatBuffer.bits 0 5

def samplingFrequencyIndex (info : StreamInfo) : Nat := info.formatBuffer.bits 5 4

def channelConfiguration (info : StreamInfo) : Nat := info.formatBuffer.bits 9 4

def syncExtensionType (info : StreamInfo) : Nat := info.formatBuffer.bits 16 11

def extensionAudioObjectType (info : StreamInfo) : Nat := info.formatBuffer.bits 27 5

def sbrPresentFlag (info : StreamInfo) : Nat := info.formatBuffer.bits 32 1

def extensionSamplingFrequencyIndex (info : StreamInfo) : Nat := info.formatBuffer.bits 33 4

/-- There is an extension with spectral band replication. -/
def HasExtension (info : StreamInfo) : Prop :=
  5 ≤ info.formatSize ∧ info.syncExtensionType = 0x2b7 ∧ info.extensionAudioObjectType = 5 ∧
    info.sbrPresentFlag = 1

instance (info : StreamInfo) : Decidable info.HasExtension :=
  inferInstanceAs (Decidable (_ ∧ _ ∧ _ ∧ _))

/-- The sample rate and the number of channels that a configuration stands for. There are
none when it is malformed or not supported. -/
def described (info : StreamInfo) : Option (Nat × Nat) := do
  if info.audioObjectType = 31 then none
  else
    let base ← kSamplingRate[info.samplingFrequencyIndex]?
    let count ← kChannelCount[info.channelConfiguration]?
    if info.HasExtension then
      let rate ← kSamplingRate[info.extensionSamplingFrequencyIndex]?
      some (rate, count)
    else if info.audioObjectType = 5 then some (base * 2, count)
    else some (base, count)

/-- The call ends, looks up nothing outside, and returns true only with the values that the
configuration stands for. -/
structure SoundlyParsed (system : AudioSystem) (info : StreamInfo) : Prop where
  inside : ∀ passes, ∀ lookup ∈ ((Parser.parse system info passes).run []).2, lookup.Inside info
  returns : ∃ passes parsed, ((Parser.parse system info passes).run []).1 = some parsed ∧
    (parsed.result = true → ∃ rate count, info.described = some (rate, count) ∧
      parsed.config = ⟨some rate, some count⟩) ∧
    (info.described = none → parsed.result = false)

section
variable (info : StreamInfo)

theorem shift_audioObjectType : (info.formatBuffer 0).toNat >>> 3 = info.audioObjectType := by
  rw [Nat.shiftRight_eq_div_pow, audioObjectType]
  exact (info.formatBuffer.bits_front 0 5 (by decide)).symm

theorem shift_samplingFrequencyIndex :
    (((info.formatBuffer 0).toNat &&& 7) <<< 1) + ((info.formatBuffer 1).toNat >>> 7) =
      info.samplingFrequencyIndex := by
  have hMask := Nat.and_two_pow_sub_one_eq_mod (info.formatBuffer 0).toNat 3
  rw [samplingFrequencyIndex, Nat.shiftLeft_eq, Nat.shiftRight_eq_div_pow]
  rw [show (7 : Nat) = 2 ^ 3 - 1 from rfl, hMask]
  exact (info.formatBuffer.bits_across 0 3 1 (by decide) (by decide)).symm

theorem shift_channelConfiguration :
    ((info.formatBuffer 1).toNat &&& 0x78) >>> 3 = info.channelConfiguration := by
  have hField := info.formatBuffer.bits_byte 1 1 4 (by decide)
  have hMask := Nat.and_two_pow_sub_one_eq_mod ((info.formatBuffer 1).toNat >>> 3) 4
  rw [channelConfiguration, Nat.shiftRight_and_distrib, show 0x78 >>> 3 = 2 ^ 4 - 1 from rfl, hMask,
    Nat.shiftRight_eq_div_pow]
  exact hField.symm

theorem shift_syncExtensionType :
    ((info.formatBuffer 2).toNat <<< 3) + ((info.formatBuffer 3).toNat >>> 5) =
      info.syncExtensionType := by
  have hField := info.formatBuffer.bits_across 2 8 3 (by decide) (by decide)
  have hByte := (info.formatBuffer 2).toNat_lt
  rw [Nat.mod_eq_of_lt hByte] at hField
  rw [syncExtensionType, Nat.shiftLeft_eq, Nat.shiftRight_eq_div_pow]
  exact hField.symm

theorem shift_extensionAudioObjectType :
    (info.formatBuffer 3).toNat &&& 0x1f = info.extensionAudioObjectType := by
  have hField := info.formatBuffer.bits_byte 3 3 5 (by decide)
  have hMask := Nat.and_two_pow_sub_one_eq_mod (info.formatBuffer 3).toNat 5
  rw [extensionAudioObjectType]
  rw [Nat.sub_self, Nat.pow_zero, Nat.div_one] at hField
  exact hMask.trans hField.symm

theorem shift_sbrPresentFlag : (info.formatBuffer 4).toNat >>> 7 = info.sbrPresentFlag := by
  rw [Nat.shiftRight_eq_div_pow, sbrPresentFlag]
  exact (info.formatBuffer.bits_front 4 1 (by decide)).symm

theorem shift_extensionSamplingFrequencyIndex :
    ((info.formatBuffer 4).toNat &&& 0x7f) >>> 3 = info.extensionSamplingFrequencyIndex := by
  have hField := info.formatBuffer.bits_byte 4 1 4 (by decide)
  have hMask := Nat.and_two_pow_sub_one_eq_mod ((info.formatBuffer 4).toNat >>> 3) 4
  rw [extensionSamplingFrequencyIndex, Nat.shiftRight_and_distrib,
    show 0x7f >>> 3 = 2 ^ 4 - 1 from rfl, hMask, Nat.shiftRight_eq_div_pow]
  exact hField.symm

end

end StreamInfo

namespace Parser

/-! ### The loop -/

section
variable {info : StreamInfo}

theorem logFormat_next {passes : Nat} {i : UInt8} (hMore : i.toNat < info.formatSize)
    (before : List Lookup) :
    (logFormat info (passes + 1) i).run before =
      (logFormat info passes (i + 1)).run (before ++ [.format i.toNat]) := by
  rw [logFormat, if_pos hMore]
  rfl

theorem logFormat_end {passes : Nat} {i : UInt8} (hEnd : ¬ i.toNat < info.formatSize)
    (before : List Lookup) : (logFormat info (passes + 1) i).run before = (true, before) := by
  rw [logFormat, if_neg hEnd]
  rfl

theorem logFormat_inside (passes : Nat) (i : UInt8) (before : List Lookup)
    (hBefore : ∀ lookup ∈ before, lookup.Inside info) :
    ∀ lookup ∈ ((logFormat info passes i).run before).2, lookup.Inside info := by
  induction passes generalizing i before with
  | zero => exact hBefore
  | succ passes ih =>
      by_cases hMore : i.toNat < info.formatSize
      · rw [logFormat_next hMore]
        apply ih
        intro lookup hMem
        rcases List.mem_append.mp hMem with hOld | hNew
        · exact hBefore lookup hOld
        · rw [List.mem_singleton.mp hNew]
          exact hMore
      · rw [logFormat_end hMore]
        exact hBefore

/-- The counter reaches a size that eight bits can hold. -/
theorem logFormat_ends (hSize : info.formatSize ≤ 255) (passes : Nat) (i : UInt8)
    (before : List Lookup) (hSmall : i.toNat ≤ info.formatSize)
    (hPasses : i.toNat + passes = info.formatSize + 1) :
    ((logFormat info passes i).run before).1 = true := by
  induction passes generalizing i before with
  | zero => omega
  | succ passes ih =>
      by_cases hMore : i.toNat < info.formatSize
      · have hNext : (i + 1).toNat = i.toNat + 1 := by
          have hOne : (1 : UInt8).toNat = 1 := rfl
          rw [UInt8.toNat_add]
          omega
        rw [logFormat_next hMore]
        apply ih
        · omega
        · omega
      · rw [logFormat_end hMore]

/-- It stays below a larger size. -/
theorem logFormat_goes_on (hSize : 255 < info.formatSize) (passes : Nat) (i : UInt8)
    (before : List Lookup) : ((logFormat info passes i).run before).1 = false := by
  induction passes generalizing i before with
  | zero => rfl
  | succ passes ih =>
      have hCounter := i.toNat_lt
      have hMore : i.toNat < info.formatSize := by omega
      rw [logFormat_next hMore]
      exact ih (i + 1) _

/-- A call whose loop has ended goes on with the configuration. -/
theorem parse_of_ended {system : AudioSystem} {passes : Nat}
    (hEnded : ((logFormat info passes 0).run []).1 = true) :
    (parse system info passes).run [] =
      (fun parsed => (some parsed.1, parsed.2))
        ((parseConfig system info).run ((logFormat info passes 0).run []).2) := by
  rw [parse, StateT.run_bind]
  generalize hLog : (logFormat info passes 0).run [] = logged at hEnded ⊢
  obtain ⟨ended, lookups⟩ := logged
  obtain rfl : ended = true := hEnded
  rfl

theorem parse_of_logging {system : AudioSystem} {passes : Nat}
    (hLogging : ((logFormat info passes 0).run []).1 = false) :
    (parse system info passes).run [] = (none, ((logFormat info passes 0).run []).2) := by
  rw [parse, StateT.run_bind]
  generalize hLog : (logFormat info passes 0).run [] = logged at hLogging ⊢
  obtain ⟨ended, lookups⟩ := logged
  obtain rfl : ended = false := hLogging
  rfl

/-! ### The branches behind it -/

open Lookup (format)

theorem pure_run {α : Type} (value : α) (before : List Lookup) :
    (pure value : Parser α).run before = (value, before) := rfl

theorem audioConfig_bind {α : Type} (offset : Nat) (next : Nat → Parser α)
    (before : List Lookup) :
    (audioConfig info offset >>= next).run before =
      (next (info.formatBuffer offset).toNat).run (before ++ [format offset]) := rfl

theorem samplingRate_bind {α : Type} (index : Nat) (next : Option Nat → Parser α)
    (before : List Lookup) :
    (samplingRate index >>= next).run before =
      (next kSamplingRate[index]?).run (before ++ [Lookup.samplingRate index]) := rfl

theorem channelCount_bind {α : Type} (index : Nat) (next : Option Nat → Parser α)
    (before : List Lookup) :
    (channelCount index >>= next).run before =
      (next kChannelCount[index]?).run (before ++ [Lookup.channelCount index]) := rfl

/-- The values are assigned from the tables. -/
def assigned (index : Nat) (count : Option Nat) : Parsed := ⟨true, ⟨kSamplingRate[index]?, count⟩⟩

theorem parseBaseRate_run (index : Nat) (count : Option Nat) (before : List Lookup) :
    (parseBaseRate index count).run before =
      (assigned index count, before ++ [Lookup.samplingRate index]) := rfl

theorem parseExtension_run (index : Nat) (count : Option Nat) (before : List Lookup) :
    (parseExtension info index count).run before =
      if info.syncExtensionType = 0x2b7 then
        if info.extensionAudioObjectType = 5 then
          if info.sbrPresentFlag = 1 then
            if 12 < info.extensionSamplingFrequencyIndex then
              (⟨true, ⟨none, count⟩⟩,
                before ++ [format 2, format 3, format 3, format 4, format 4])
            else
              (assigned info.extensionSamplingFrequencyIndex count,
                before ++ [format 2, format 3, format 3, format 4, format 4,
                  Lookup.samplingRate info.extensionSamplingFrequencyIndex])
          else
            (assigned index count,
              before ++ [format 2, format 3, format 3, format 4, Lookup.samplingRate index])
        else
          (assigned index count,
            before ++ [format 2, format 3, format 3, Lookup.samplingRate index])
      else (assigned index count, before ++ [format 2, format 3, Lookup.samplingRate index]) := by
  rw [← StreamInfo.shift_syncExtensionType, ← StreamInfo.shift_extensionAudioObjectType,
    ← StreamInfo.shift_sbrPresentFlag, ← StreamInfo.shift_extensionSamplingFrequencyIndex,
    parseExtension, audioConfig_bind, audioConfig_bind]
  by_cases hSync :
      ((info.formatBuffer 2).toNat <<< 3) + ((info.formatBuffer 3).toNat >>> 5) = 0x2b7
  · rw [if_pos hSync, if_pos hSync, audioConfig_bind]
    by_cases hType : (info.formatBuffer 3).toNat &&& 0x1f = 5
    · rw [if_pos hType, if_pos hType, audioConfig_bind]
      by_cases hFlag : (info.formatBuffer 4).toNat >>> 7 = 1
      · rw [if_pos hFlag, if_pos hFlag, audioConfig_bind]
        by_cases hLarge : 12 < ((info.formatBuffer 4).toNat &&& 0x7f) >>> 3
        · rw [if_pos hLarge, if_pos hLarge, pure_run]
          simp only [List.append_assoc, List.cons_append, List.nil_append]
        · rw [if_neg hLarge, if_neg hLarge, parseBaseRate_run]
          simp only [List.append_assoc, List.cons_append, List.nil_append]
      · rw [if_neg hFlag, if_neg hFlag, parseBaseRate_run]
        simp only [List.append_assoc, List.cons_append, List.nil_append]
    · rw [if_neg hType, if_neg hType, parseBaseRate_run]
      simp only [List.append_assoc, List.cons_append, List.nil_append]
  · rw [if_neg hSync, if_neg hSync, parseBaseRate_run]
    simp only [List.append_assoc, List.cons_append, List.nil_append]

theorem parseExtension_result (index : Nat) (count : Option Nat) (before : List Lookup) :
    ((parseExtension info index count).run before).1.result = true := by
  rw [parseExtension_run]
  split_ifs
  all_goals rfl

/-- The lookups in front of the sample rate. -/
def baseLookups (info : StreamInfo) : List Lookup :=
  [format 0, format 0, format 1, format 1, Lookup.channelCount info.channelConfiguration]

theorem parseConfig_run {system : AudioSystem} (hPlatform : system.before16 = false)
    (before : List Lookup) :
    (parseConfig system info).run before =
      let count := kChannelCount[info.channelConfiguration]?
      if info.audioObjectType = 31 ∨ info.samplingFrequencyIndex = 15 then
        (⟨false, ⟨none, none⟩⟩, before ++ [format 0, format 0, format 1])
      else if info.audioObjectType = 5 then
        (⟨true, ⟨none, count⟩⟩,
          before ++ baseLookups info ++ [Lookup.samplingRate info.samplingFrequencyIndex])
      else if 4 ≤ info.formatSize then
        (parseExtension info info.samplingFrequencyIndex count).run (before ++ baseLookups info)
      else
        (assigned info.samplingFrequencyIndex count,
          before ++ baseLookups info ++ [Lookup.samplingRate info.samplingFrequencyIndex]) := by
  simp only [baseLookups, ← StreamInfo.shift_audioObjectType,
    ← StreamInfo.shift_samplingFrequencyIndex, ← StreamInfo.shift_channelConfiguration]
  unfold parseConfig
  simp only [audioConfig_bind, hPlatform, Bool.false_and, Bool.false_eq_true, if_false]
  by_cases hEscape : (info.formatBuffer 0).toNat >>> 3 = 31
  · simp only [hEscape, audioConfig_bind, pure_run, if_true, true_or, List.append_assoc,
      List.cons_append, List.nil_append]
  · by_cases hExplicit :
        (((info.formatBuffer 0).toNat &&& 7) <<< 1) + ((info.formatBuffer 1).toNat >>> 7) = 15
    · simp only [hEscape, hExplicit, audioConfig_bind, pure_run, if_true, if_false, false_or,
        List.append_assoc, List.cons_append, List.nil_append]
    · by_cases hSbr : (info.formatBuffer 0).toNat >>> 3 = 5
      · simp only [hExplicit, hSbr, audioConfig_bind, channelCount_bind, samplingRate_bind,
          pure_run, if_true, if_false, or_false, Nat.reduceEqDiff, List.append_assoc,
          List.cons_append, List.nil_append]
      · by_cases hSize : 4 ≤ info.formatSize
        · simp only [hEscape, hExplicit, hSbr, hSize, audioConfig_bind, channelCount_bind,
            if_true, if_false, or_false, List.append_assoc, List.cons_append, List.nil_append]
        · simp only [hEscape, hExplicit, hSbr, hSize, audioConfig_bind, channelCount_bind,
            parseBaseRate_run, if_false, or_false, List.append_assoc, List.cons_append,
            List.nil_append]

/-- `parseAOTs` in terms of the fields. -/
theorem parseAOTs_eq {system : AudioSystem} (hPlatform : system.before16 = false) :
    parseAOTs system info =
      let parsed (rate : Option Nat) : Option AudioConfig :=
        some ⟨rate, kChannelCount[info.channelConfiguration]?⟩
      if info.audioObjectType = 31 then none
      else if info.samplingFrequencyIndex = 15 then none
      else if info.audioObjectType = 5 then parsed none
      else if 4 ≤ info.formatSize ∧ info.syncExtensionType = 0x2b7 ∧
          info.extensionAudioObjectType = 5 ∧ info.sbrPresentFlag = 1 then
        if 12 < info.extensionSamplingFrequencyIndex then parsed none
        else parsed kSamplingRate[info.extensionSamplingFrequencyIndex]?
      else parsed kSamplingRate[info.samplingFrequencyIndex]? := by
  unfold parseAOTs
  simp only [StreamInfo.shift_audioObjectType, StreamInfo.shift_samplingFrequencyIndex,
    StreamInfo.shift_channelConfiguration, StreamInfo.shift_syncExtensionType,
    StreamInfo.shift_extensionAudioObjectType, StreamInfo.shift_sbrPresentFlag,
    StreamInfo.shift_extensionSamplingFrequencyIndex, hPlatform, Bool.false_and,
    Bool.false_eq_true, if_false]

/-- A finished call returns what the summary of `parseAOTs` says. -/
theorem parseConfig_parseAOTs {system : AudioSystem} (hPlatform : system.before16 = false)
    (before : List Lookup) :
    parseAOTs system info =
      if ((parseConfig system info).run before).1.result then
        some ((parseConfig system info).run before).1.config
      else none := by
  rw [parseConfig_run hPlatform, parseAOTs_eq hPlatform]
  by_cases hEscape : info.audioObjectType = 31
  · simp only [hEscape, if_true, true_or, Bool.false_eq_true, if_false]
  · by_cases hExplicit : info.samplingFrequencyIndex = 15
    · simp only [hExplicit, if_true, or_true, Bool.false_eq_true, if_false, ite_self]
    · rw [if_neg hEscape, if_neg hExplicit, if_neg (not_or.mpr ⟨hEscape, hExplicit⟩)]
      by_cases hSbr : info.audioObjectType = 5
      · simp only [hSbr, if_true]
      · rw [if_neg hSbr, if_neg hSbr]
        by_cases hSize : 4 ≤ info.formatSize
        · rw [if_pos hSize, parseExtension_run]
          by_cases hSync : info.syncExtensionType = 0x2b7
          · by_cases hType : info.extensionAudioObjectType = 5
            · by_cases hFlag : info.sbrPresentFlag = 1
              · rw [if_pos ⟨hSize, hSync, hType, hFlag⟩, if_pos hSync, if_pos hType, if_pos hFlag]
                by_cases hLarge : 12 < info.extensionSamplingFrequencyIndex
                · simp only [hLarge, if_true]
                · simp only [hLarge, assigned, if_false, if_true]
              · simp only [hSync, hType, hFlag, and_false, assigned, if_false, if_true]
            · simp only [hSync, hType, false_and, and_false, assigned, if_false, if_true]
          · simp only [hSync, false_and, and_false, assigned, if_false, if_true]
        · simp only [hSize, false_and, assigned, if_false, if_true]

end

end Parser

namespace StreamInfo

theorem described_eq_some_iff {info : StreamInfo} {rate count : Nat} :
    info.described = some (rate, count) ↔
      info.audioObjectType ≠ 31 ∧ ∃ base, kSamplingRate[info.samplingFrequencyIndex]? = some base ∧
        kChannelCount[info.channelConfiguration]? = some count ∧
        (info.HasExtension →
          kSamplingRate[info.extensionSamplingFrequencyIndex]? = some rate) ∧
        (¬ info.HasExtension → rate = if info.audioObjectType = 5 then base * 2 else base) := by
  unfold described
  by_cases hEscape : info.audioObjectType = 31
  · simp [hEscape]
  · cases kSamplingRate[info.samplingFrequencyIndex]? with
    | none => simp [hEscape]
    | some base =>
        cases kChannelCount[info.channelConfiguration]? with
        | none => simp [hEscape]
        | some channels =>
            by_cases hExtension : info.HasExtension
            · cases kSamplingRate[info.extensionSamplingFrequencyIndex]? with
              | none => simp [hEscape, hExtension]
              | some other => simp [hEscape, hExtension, and_comm]
            · by_cases hSbr : info.audioObjectType = 5
              · simp [hExtension, hSbr, eq_comm, and_comm]
              · simp [hEscape, hExtension, hSbr, eq_comm, and_comm]

/-- The configuration is rejected at once, or the tables have its values and it needs no more
bytes than there are. Object type 5 is not among what the code handles. -/
def Covered (info : StreamInfo) : Prop :=
  info.audioObjectType = 31 ∨ info.samplingFrequencyIndex = 15 ∨
    info.samplingFrequencyIndex ≤ 12 ∧ info.channelConfiguration ≤ 2 ∧
      info.audioObjectType ≠ 5 ∧
      (4 ≤ info.formatSize → info.syncExtensionType = 0x2b7 →
        info.extensionAudioObjectType = 5 →
          5 ≤ info.formatSize ∧
            (info.sbrPresentFlag = 1 → info.extensionSamplingFrequencyIndex ≤ 12))

instance (info : StreamInfo) : Decidable info.Covered :=
  inferInstanceAs (Decidable (_ ∨ _ ∨ _ ∧ _ ∧ _ ∧ (_ → _ → _ → _ ∧ (_ → _))))

/-- What a sound call has done behind its loop. -/
def SoundRun (info : StreamInfo) (run : Parsed × List Lookup) : Prop :=
  (∀ lookup ∈ run.2, lookup.Inside info) ∧
    (run.1.result = true → ∃ rate count, info.described = some (rate, count) ∧
      run.1.config = ⟨some rate, some count⟩)

section
variable {system : AudioSystem} {info : StreamInfo}

theorem SoundlyParsed.run (hSound : info.SoundlyParsed system) :
    info.formatSize ≤ 255 ∧
      ∃ before, info.SoundRun ((Parser.parseConfig system info).run before) := by
  obtain ⟨passes, parsed, hParsed, hTrue, -⟩ := hSound.returns
  have hInside := hSound.inside passes
  cases hLog : ((Parser.logFormat info passes 0).run []).1 with
  | false =>
      rw [Parser.parse_of_logging hLog] at hParsed
      cases hParsed
  | true =>
      rw [Parser.parse_of_ended hLog] at hParsed hInside
      obtain rfl := Option.some.inj hParsed
      constructor
      · by_contra hLarge
        rw [Parser.logFormat_goes_on (by omega)] at hLog
        cases hLog
      · exact ⟨_, hInside, hTrue⟩

theorem soundlyParsed_of_run (hSize : info.formatSize ≤ 255)
    (hRun : ∀ before, (∀ lookup ∈ before, lookup.Inside info) →
      info.SoundRun ((Parser.parseConfig system info).run before)) : info.SoundlyParsed system := by
  have hLogged : ∀ passes, ∀ lookup ∈ ((Parser.logFormat info passes 0).run []).2,
      lookup.Inside info := by
    intro passes
    apply Parser.logFormat_inside
    simp
  constructor
  · intro passes
    cases hLog : ((Parser.logFormat info passes 0).run []).1 with
    | false =>
        rw [Parser.parse_of_logging hLog]
        exact hLogged passes
    | true =>
        rw [Parser.parse_of_ended hLog]
        exact (hRun _ (hLogged passes)).1
  · have hLog := Parser.logFormat_ends hSize (info.formatSize + 1) 0 [] (Nat.zero_le _)
      (Nat.zero_add _)
    have hTrue := (hRun _ (hLogged (info.formatSize + 1))).2
    refine ⟨info.formatSize + 1, _, by rw [Parser.parse_of_ended hLog], hTrue, ?_⟩
    intro hNone
    by_contra hResult
    obtain ⟨rate, count, hSome, -⟩ := hTrue (by simpa using hResult)
    rw [hNone] at hSome
    cases hSome

theorem kSamplingRate_isSome {index : Nat} (hIndex : index ≤ 12) :
    ∃ rate, kSamplingRate[index]? = some rate :=
  ⟨_, List.getElem?_eq_getElem (Nat.lt_succ_of_le hIndex)⟩

theorem kChannelCount_isSome {index : Nat} (hIndex : index ≤ 2) :
    ∃ count, kChannelCount[index]? = some count :=
  ⟨_, List.getElem?_eq_getElem (Nat.lt_succ_of_le hIndex)⟩

theorem SoundRun.covered (hPlatform : system.before16 = false) {before : List Lookup}
    (hRun : info.SoundRun ((Parser.parseConfig system info).run before)) :
    info.Covered := by
  by_cases hRejected : info.audioObjectType = 31 ∨ info.samplingFrequencyIndex = 15
  · exact (or_assoc.mp (Or.inl hRejected))
  · right
    right
    rw [Parser.parseConfig_run hPlatform, if_neg hRejected] at hRun
    have hSbr : info.audioObjectType ≠ 5 := by
      intro hSbr
      rw [if_pos hSbr] at hRun
      obtain ⟨rate, count, -, hConfig⟩ := hRun.2 rfl
      cases hConfig
    rw [if_neg hSbr] at hRun
    have hTrue : ∃ rate count, info.described = some (rate, count) := by
      obtain ⟨rate, count, hDescribed, -⟩ := hRun.2 (by
        split_ifs
        · exact Parser.parseExtension_result _ _ _
        · rfl)
      exact ⟨rate, count, hDescribed⟩
    obtain ⟨rate, count, hDescribed⟩ := hTrue
    obtain ⟨-, base, hBase, hCount, hExtended, -⟩ := described_eq_some_iff.mp hDescribed
    obtain ⟨hIndex, -⟩ := List.getElem?_eq_some_iff.mp hBase
    obtain ⟨hChannels, -⟩ := List.getElem?_eq_some_iff.mp hCount
    refine ⟨Nat.le_of_lt_succ hIndex, Nat.le_of_lt_succ hChannels, hSbr, ?_⟩
    intro hSize hSync hType
    have hByte : 5 ≤ info.formatSize := by
      rw [if_pos hSize, Parser.parseExtension_run, if_pos hSync, if_pos hType] at hRun
      apply hRun.1 (.format 4)
      split_ifs
      all_goals simp
    refine ⟨hByte, ?_⟩
    intro hFlag
    obtain ⟨hRate, -⟩ := List.getElem?_eq_some_iff.mp (hExtended ⟨hByte, hSync, hType, hFlag⟩)
    exact Nat.le_of_lt_succ hRate

theorem baseLookups_inside (hSize : 2 ≤ info.formatSize) (hCount : info.channelConfiguration ≤ 2) :
    ∀ lookup ∈ Parser.baseLookups info, lookup.Inside info := by
  have hIndex : info.channelConfiguration < kChannelCount.length := Nat.lt_succ_of_le hCount
  simp only [Parser.baseLookups, List.forall_mem_cons, Lookup.Inside]
  refine ⟨by omega, by omega, by omega, by omega, hIndex, ?_⟩
  simp

/-- The branches that take the base rate. -/
theorem soundRun_base (hEscape : info.audioObjectType ≠ 31) (hSbr : info.audioObjectType ≠ 5)
    (hIndex : info.samplingFrequencyIndex ≤ 12) (hCount : info.channelConfiguration ≤ 2)
    (hNone : ¬ info.HasExtension) {lookups : List Lookup}
    (hLookups : ∀ lookup ∈ lookups, lookup.Inside info) :
    info.SoundRun (Parser.assigned info.samplingFrequencyIndex
      kChannelCount[info.channelConfiguration]?,
      lookups ++ [.samplingRate info.samplingFrequencyIndex]) := by
  obtain ⟨base, hBase⟩ := kSamplingRate_isSome hIndex
  obtain ⟨count, hChannels⟩ := kChannelCount_isSome hCount
  constructor
  · rw [List.forall_mem_append]
    refine ⟨hLookups, ?_⟩
    simp only [List.forall_mem_singleton]
    exact Nat.lt_succ_of_le hIndex
  · intro _
    refine ⟨base, count, ?_, by rw [Parser.assigned, hBase, hChannels]⟩
    rw [described_eq_some_iff]
    exact ⟨hEscape, base, hBase, hChannels, fun hSome => absurd hSome hNone,
      fun _ => (if_neg hSbr).symm⟩

theorem soundRun_extension (hSize : 4 ≤ info.formatSize) (hEscape : info.audioObjectType ≠ 31)
    (hSbr : info.audioObjectType ≠ 5)
    (hIndex : info.samplingFrequencyIndex ≤ 12) (hCount : info.channelConfiguration ≤ 2)
    (hEnough : info.syncExtensionType = 0x2b7 → info.extensionAudioObjectType = 5 →
      5 ≤ info.formatSize ∧
        (info.sbrPresentFlag = 1 → info.extensionSamplingFrequencyIndex ≤ 12))
    {lookups : List Lookup} (hLookups : ∀ lookup ∈ lookups, lookup.Inside info) :
    info.SoundRun ((Parser.parseExtension info info.samplingFrequencyIndex
      kChannelCount[info.channelConfiguration]?).run lookups) := by
  have hBase : ¬ info.HasExtension → ∀ more, (∀ lookup ∈ more, lookup.Inside info) →
      info.SoundRun (Parser.assigned info.samplingFrequencyIndex
        kChannelCount[info.channelConfiguration]?,
        lookups ++ (more ++ [.samplingRate info.samplingFrequencyIndex])) := by
    intro hNone more hMore
    rw [← List.append_assoc]
    apply soundRun_base hEscape hSbr hIndex hCount hNone
    rw [List.forall_mem_append]
    exact ⟨hLookups, hMore⟩
  rw [Parser.parseExtension_run]
  split_ifs with hSync hType hFlag hLarge
  · have hSmall := (hEnough hSync hType).2 hFlag
    omega
  · obtain ⟨hBytes, hSmall⟩ := hEnough hSync hType
    obtain ⟨base, hBaseRate⟩ := kSamplingRate_isSome hIndex
    obtain ⟨rate, hRate⟩ := kSamplingRate_isSome (hSmall hFlag)
    obtain ⟨count, hChannels⟩ := kChannelCount_isSome hCount
    have hExtension : info.HasExtension := ⟨hBytes, hSync, hType, hFlag⟩
    have hEntry : info.extensionSamplingFrequencyIndex < kSamplingRate.length :=
      Nat.lt_succ_of_le (hSmall hFlag)
    constructor
    · rw [List.forall_mem_append]
      refine ⟨hLookups, ?_⟩
      simp only [List.forall_mem_cons, Lookup.Inside]
      refine ⟨by omega, by omega, by omega, by omega, by omega, hEntry, ?_⟩
      simp
    · intro _
      refine ⟨rate, count, ?_, by rw [Parser.assigned, hRate, hChannels]⟩
      rw [described_eq_some_iff]
      exact ⟨hEscape, base, hBaseRate, hChannels, fun _ => hRate, absurd hExtension⟩
  · have hBytes := (hEnough hSync hType).1
    apply hBase (fun hExtension => hFlag hExtension.2.2.2)
      [.format 2, .format 3, .format 3, .format 4]
    simp only [List.forall_mem_cons, Lookup.Inside]
    refine ⟨by omega, by omega, by omega, by omega, ?_⟩
    simp
  · apply hBase (fun hExtension => hType hExtension.2.2.1) [.format 2, .format 3, .format 3]
    simp only [List.forall_mem_cons, Lookup.Inside]
    refine ⟨by omega, by omega, by omega, ?_⟩
    simp
  · apply hBase (fun hExtension => hSync hExtension.2.1) [.format 2, .format 3]
    simp only [List.forall_mem_cons, Lookup.Inside]
    refine ⟨by omega, by omega, ?_⟩
    simp

theorem soundRun_of_covered (hPlatform : system.before16 = false) (hCovered : info.Covered)
    (hSize : 2 ≤ info.formatSize) {before : List Lookup}
    (hBefore : ∀ lookup ∈ before, lookup.Inside info) :
    info.SoundRun ((Parser.parseConfig system info).run before) := by
  rw [Parser.parseConfig_run hPlatform]
  split_ifs with hRejected hSbr hLong
  · constructor
    · rw [List.forall_mem_append]
      refine ⟨hBefore, ?_⟩
      simp only [List.forall_mem_cons, Lookup.Inside]
      refine ⟨by omega, by omega, by omega, ?_⟩
      simp
    · intro hResult
      cases hResult
  all_goals
    obtain ⟨hEscape, hExplicit⟩ := not_or.mp hRejected
    obtain ⟨hIndex, hCount, hNotSbr, hEnough⟩ :=
      (hCovered.resolve_left hEscape).resolve_left hExplicit
  · exact absurd hSbr hNotSbr
  all_goals
    have hLookups : ∀ lookup ∈ before ++ Parser.baseLookups info, lookup.Inside info := by
      rw [List.forall_mem_append]
      exact ⟨hBefore, baseLookups_inside hSize hCount⟩
  · exact soundRun_extension hLong hEscape hSbr hIndex hCount (hEnough hLong) hLookups
  · apply soundRun_base hEscape hSbr hIndex hCount _ hLookups
    intro hExtension
    have hBytes := hExtension.1
    omega

/-- A configuration is parsed soundly where the eight bits of the counter and the tables
suffice, and nowhere else. -/
theorem soundlyParsed_iff (system : AudioSystem) (info : StreamInfo)
    (hPlatform : system.before16 = false) (hSize : 2 ≤ info.formatSize) :
    info.SoundlyParsed system ↔ info.formatSize ≤ 255 ∧ info.Covered := by
  constructor
  · intro hSound
    obtain ⟨hShort, before, hRun⟩ := hSound.run
    exact ⟨hShort, hRun.covered hPlatform⟩
  · rintro ⟨hShort, hCovered⟩
    apply soundlyParsed_of_run hShort
    intro before hBefore
    exact soundRun_of_covered hPlatform hCovered hSize hBefore

/-- An AAC stream with the given configuration. -/
def ofFormat (bytes : List UInt8) : StreamInfo where
  type := .audio
  subType := .audioAac
  width := 0
  height := 0
  formatSize := bytes.length
  formatBuffer := fun i => bytes.getD i 0

/-- AAC-LC with 44100 Hz and two channels. -/
theorem soundlyParsed_iff_stereo :
    (ofFormat [0x12, 0x10]).SoundlyParsed ⟨false, true, false⟩ ∧
      (ofFormat [0x12, 0x10]).described = some (44100, 2) := by
  constructor
  · apply (soundlyParsed_iff _ _ rfl (by decide)).mpr
    decide
  · decide

/-- With six channels, an entry behind the end of the table is looked up. -/
theorem not_soundlyParsed_surround :
    ¬ (ofFormat [0x11, 0xb0]).SoundlyParsed ⟨false, true, false⟩ := by
  intro hSound
  obtain ⟨-, before, hRun⟩ := hSound.run
  exact absurd (hRun.covered rfl) (by decide)

end

end StreamInfo

end Meet.PPExtractor
