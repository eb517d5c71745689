import Meet.SampleTable.Iterator

/-! The runs of equal durations and of equal composition offsets. A look-up goes on from the run
of the last one, or from the first if the sample is before it. -/
namespace Meet.SampleTable

open RunLength

variable {p : Params} {i : Nat}

namespace SampleIterator

variable {it : SampleIterator}

/-- The iterator is before the first run of durations, or at one of them. -/
inductive TimeAt (p : Params) (it : SampleIterator) : Prop where
  | before (hIndex : it.mTimeToSampleIndex = 0) (hStart : it.mTTSSampleIndex = 0)
      (hTime : it.mTTSSampleTime = 0) (hCount : it.mTTSCount = 0)
  | run (index : Nat) (run : Nat × Nat) (hRun : p.timeRuns[index]? = some run)
      (hIndex : it.mTimeToSampleIndex = index + 1)
      (hStart : it.mTTSSampleIndex = start p.timeRuns index)
      (hTime : it.mTTSSampleTime = u32 (sumBefore p.timeRuns index))
      (hCount : it.mTTSCount = run.1) (hDuration : it.mTTSDuration = run.2)

theorem timeAt_resetTime (p : Params) (it : SampleIterator) : TimeAt p it.resetTime :=
  .before rfl rfl rfl rfl

theorem TimeAt.congr {it' : SampleIterator} (hAt : TimeAt p it)
    (hSame : it'.runPart = it.runPart) : TimeAt p it' := by
  simp only [runPart, Prod.mk.injEq] at hSame
  obtain ⟨hIndex', hStart', hTime', hCount', hDuration'⟩ := hSame
  cases hAt with
  | before hIndex hStart hTime hCount =>
      exact .before (hIndex'.trans hIndex) (hStart'.trans hStart) (hTime'.trans hTime)
        (hCount'.trans hCount)
  | run index run hRun hIndex hStart hTime hCount hDuration =>
      exact .run index run hRun (hIndex'.trans hIndex) (hStart'.trans hStart)
        (hTime'.trans hTime) (hCount'.trans hCount) (hDuration'.trans hDuration)

/-- The current run ends where the run to be read next begins. -/
theorem TimeAt.stop (hAt : TimeAt p it) :
    it.mTTSSampleIndex + it.mTTSCount = start p.timeRuns it.mTimeToSampleIndex := by
  cases hAt with
  | before hIndex hStart hTime hCount => rw [hIndex, hStart, hCount, start_zero]
  | run index run hRun hIndex hStart hTime hCount hDuration =>
      rw [hIndex, hStart, hCount, start_succ hRun]

theorem TimeAt.stop_lt (h : p.WellFormed) (hAt : TimeAt p it) :
    it.mTTSSampleIndex + it.mTTSCount < 2 ^ 32 :=
  hAt.stop ▸ Nat.lt_of_le_of_lt (start_le_total _ _) h.timeTotal

theorem TimeAt.sum (hAt : TimeAt p it) :
    u32 (it.mTTSSampleTime + it.mTTSCount * it.mTTSDuration) =
      u32 (sumBefore p.timeRuns it.mTimeToSampleIndex) := by
  cases hAt with
  | before hIndex hStart hTime hCount =>
      rw [hIndex, hTime, hCount, Nat.zero_mul, sumBefore_zero]
  | run index run hRun hIndex hStart hTime hCount hDuration =>
      rw [hIndex, hTime, hCount, hDuration, sumBefore_succ hRun, Nat.add_comm, u32_add,
        Nat.add_comm]

/-- Nothing but the place among the runs of durations differs. -/
def SameButTime (it it' : SampleIterator) : Prop := it'.resetTime = it.resetTime

theorem nextTime_spec (h : p.WellFormed) (hAt : TimeAt p it)
    (hMore : it.mTimeToSampleIndex < p.mTimeToSampleCount) :
    ∃ it', it.nextTime p = some it' ∧ TimeAt p it' ∧ SameButTime it it' ∧
      it'.mTTSSampleIndex = it.mTTSSampleIndex + it.mTTSCount ∧
      it'.mTimeToSampleIndex = it.mTimeToSampleIndex + 1 := by
  obtain ⟨numbers, hNumbers, hLength⟩ := h.times
  have hRuns : p.timeRuns = runsOf numbers p.mTimeToSampleCount := by
    rw [Params.timeRuns, hNumbers, Option.getD_some]
  obtain ⟨run, hRun, hCount, hDuration⟩ := exists_numbers hLength h.timeCount hMore
  rw [← hRuns] at hRun
  unfold nextTime
  simp only [hNumbers, hCount, hDuration]
  refine ⟨_, rfl, .run _ run hRun rfl ?_ ?_ rfl rfl, rfl, ?_, rfl⟩
  · exact (u32_of_lt (hAt.stop_lt h)).trans hAt.stop
  · exact hAt.sum
  · exact u32_of_lt (hAt.stop_lt h)

/-- The search ends at the run of the sample. It fails only behind the last run. -/
theorem scanTimes_spec (h : p.WellFormed) {left : Nat} (hAt : TimeAt p it)
    (hLeft : left + it.mTimeToSampleIndex = p.mTimeToSampleCount)
    (hFrom : it.mTTSSampleIndex ≤ i) :
    ∃ status it', scanTimes p i left it = some (status, it') ∧ TimeAt p it' ∧
      SameButTime it it' ∧ it'.mTTSSampleIndex ≤ i ∧
      (status = .OK ∧ i < it'.mTTSSampleIndex + it'.mTTSCount ∨
        status = .ERROR_OUT_OF_RANGE ∧ p.durations.length ≤ i) := by
  have hStop := u32_of_lt (hAt.stop_lt h)
  induction left generalizing it with
  | zero =>
      refine ⟨_, it, rfl, hAt, rfl, hFrom, ?_⟩
      rw [hStop]
      by_cases hBehind : it.mTTSSampleIndex + it.mTTSCount ≤ i
      · refine Or.inr ⟨if_pos hBehind, ?_⟩
        have hLength : p.timeRuns.length = p.mTimeToSampleCount := length_runsOf _ _
        rw [Nat.zero_add] at hLeft
        rw [hAt.stop, hLeft, ← hLength, start_length] at hBehind
        rw [Params.durations, length_expand]
        exact hBehind
      · exact Or.inl ⟨if_neg hBehind, Nat.lt_of_not_le hBehind⟩
  | succ left ih =>
      by_cases hBehind : it.mTTSSampleIndex + it.mTTSCount ≤ i
      · obtain ⟨it', hBody, hAt', hSame, hStart, hIndex⟩ := nextTime_spec h hAt (by omega)
        obtain ⟨status, last, hScan, hAtLast, hSameLast, hRest⟩ :=
          ih hAt' (by omega) (hStart ▸ hBehind) (u32_of_lt (hAt'.stop_lt h))
        refine ⟨status, last, ?_, hAtLast, hSameLast.trans hSame, hRest⟩
        rw [scanTimes, hStop, if_pos hBehind, hBody]
        exact hScan
      · refine ⟨.OK, it, ?_, hAt, rfl, hFrom, Or.inl ⟨rfl, Nat.lt_of_not_le hBehind⟩⟩
        rw [scanTimes, hStop, if_neg hBehind]

/-- The time of a sample in the current run. -/
theorem TimeAt.time (hLt : i < 2 ^ 32) (hAt : TimeAt p it) (hFrom : it.mTTSSampleIndex ≤ i)
    (hUntil : i < it.mTTSSampleIndex + it.mTTSCount) :
    i < p.durations.length ∧
      u32 (it.mTTSSampleTime + it.mTTSDuration * sub32 i it.mTTSSampleIndex) =
        u32 (p.durations.take i).sum := by
  cases hAt with
  | before hIndex hStart hTime hCount => omega
  | run index run hRun hIndex hStart hTime hCount hDuration =>
      rw [hStart] at hFrom
      rw [hStart, hCount, ← start_succ hRun] at hUntil
      refine ⟨?_, ?_⟩
      · rw [Params.durations, length_expand]
        exact Nat.lt_of_lt_of_le hUntil (start_le_total _ _)
      · rw [hStart, sub32_of_le hFrom hLt, hTime, hDuration, Nat.add_comm, u32_add, Nat.add_comm,
          Params.durations, sum_take_expand hRun hFrom (Nat.le_of_lt hUntil), Nat.mul_comm]

end SampleIterator

/-! ### Composition offsets -/

/-- The look-up is at a run of offsets, or behind the last. -/
structure LookupAt (p : Params) (lookup : CompositionDeltaLookup) : Prop where
  entries : lookup.mDeltaEntries = p.mCompositionTimeDeltaEntries
  count : lookup.mNumDeltaEntries = p.mNumCompositionTimeDeltaEntries
  index : lookup.mCurrentDeltaEntry ≤ p.offsetRuns.length
  start : lookup.mCurrentEntrySampleIndex = start p.offsetRuns lookup.mCurrentDeltaEntry

theorem scan_spec (h : p.WellFormed) {numbers : List Nat}
    (hNumbers : p.mCompositionTimeDeltaEntries = some numbers) {left : Nat}
    {lookup : CompositionDeltaLookup} (hAt : LookupAt p lookup)
    (hLeft : left + lookup.mCurrentDeltaEntry = p.mNumCompositionTimeDeltaEntries)
    (hFrom : lookup.mCurrentEntrySampleIndex ≤ i) :
    ∃ lookup', CompositionDeltaLookup.scan numbers i left lookup =
      some (p.compositionOffset i, lookup') ∧ LookupAt p lookup' := by
  have hRuns : p.offsetRuns = runsOf numbers p.mNumCompositionTimeDeltaEntries := by
    simp [Params.offsetRuns, hNumbers]
  have hLength : p.offsetRuns.length = p.mNumCompositionTimeDeltaEntries := by
    rw [hRuns, length_runsOf]
  induction left generalizing lookup with
  | zero =>
      refine ⟨lookup, ?_, hAt⟩
      rw [Nat.zero_add] at hLeft
      rw [hAt.start, hLeft, ← hLength, start_length] at hFrom
      rw [Params.compositionOffset, getElem?_expand_eq_none hFrom]
      rfl
  | succ left ih =>
      obtain ⟨run, hRun, hCount, hDelta⟩ :=
        exists_numbers (h.offsets numbers hNumbers) h.offsetCount
          (show lookup.mCurrentDeltaEntry < p.mNumCompositionTimeDeltaEntries by omega)
      rw [← hRuns] at hRun
      have hStop := start_succ hRun
      have hTotal := start_le_total p.offsetRuns (lookup.mCurrentDeltaEntry + 1)
      have hBound := h.offsetTotal
      rw [CompositionDeltaLookup.scan, hCount, hDelta]
      simp only
      rw [hAt.start, ← hStop, u32_of_lt (by omega)]
      by_cases hInside : i < start p.offsetRuns (lookup.mCurrentDeltaEntry + 1)
      · refine ⟨lookup, ?_, hAt⟩
        rw [if_pos hInside, Params.compositionOffset,
          getElem?_expand hRun (hAt.start ▸ hFrom) hInside]
        rfl
      · rw [if_neg hInside]
        refine ih ⟨hAt.entries, hAt.count, ?_, rfl⟩ ?_ (Nat.le_of_not_lt hInside)
        · have hMore : lookup.mCurrentDeltaEntry + 1 ≤ p.offsetRuns.length := by omega
          exact hMore
        · have hRest : left + (lookup.mCurrentDeltaEntry + 1) =
              p.mNumCompositionTimeDeltaEntries := by omega
          exact hRest

theorem getCompositionTimeOffset_spec (h : p.WellFormed) {lookup : CompositionDeltaLookup}
    (hAt : LookupAt p lookup) (i : Nat) :
    ∃ lookup', lookup.getCompositionTimeOffset i = some (p.compositionOffset i, lookup') ∧
      LookupAt p lookup' := by
  unfold CompositionDeltaLookup.getCompositionTimeOffset
  rw [hAt.entries]
  cases hNumbers : p.mCompositionTimeDeltaEntries with
  | none =>
      refine ⟨lookup, ?_, hAt⟩
      simp [Params.compositionOffset, Params.offsetRuns, hNumbers]
  | some numbers =>
      have hLength : p.offsetRuns.length = p.mNumCompositionTimeDeltaEntries := by
        simp [Params.offsetRuns, hNumbers, length_runsOf]
      simp only
      split_ifs with hBefore
      · refine scan_spec h hNumbers ⟨hNumbers.symm, hAt.count, Nat.zero_le _, ?_⟩ ?_ (Nat.zero_le _)
        · exact (start_zero _).symm
        · exact Nat.sub_add_cancel (Nat.zero_le _) |>.trans hAt.count
      · have hIndex := hAt.index
        refine scan_spec h hNumbers hAt ?_ (Nat.le_of_not_lt hBefore)
        rw [hAt.count]
        omega

end Meet.SampleTable
