import Meet.SampleTable.Times
import Meet.Common.Ascending
import Meet.Common.Run

/-! What is said of a sample does not depend on the samples asked for before, unless one of them
could not be read. -/
namespace Meet.SampleTable

open RunLength SampleIterator

variable {p : Params} {source file : DataSource} {t t' : SampleTable} {i : Nat} {status : Status}

/-- The place in the tables, which every call keeps. -/
structure Placement (t : SampleTable) : Prop where
  range : t.mSampleIterator.RangeAt t.toParams
  time : t.mSampleIterator.TimeAt t.toParams
  lookup : LookupAt t.toParams t.mCompositionDeltaLookup

/-- The chunk and the sample that the iterator holds are those of the file. -/
structure Current (file : DataSource) (t : SampleTable) : Prop where
  chunk : t.mSampleIterator.HoldsChunk t.toParams file
  placed : t.Placed file t.mSampleIterator.mCurrentSampleIndex
    t.mSampleIterator.mCurrentSampleOffset t.mSampleIterator.mCurrentSampleSize
  shown : t.mSampleIterator.mCurrentSampleIndex < t.durations.length
  time : t.mSampleIterator.mCurrentSampleTime =
    t.compositionTime t.mSampleIterator.mCurrentSampleIndex

/-- Nothing is cached, or what is cached is right. -/
structure Valid (file : DataSource) (t : SampleTable) : Prop extends Placement t where
  current : t.mSampleIterator.mInitialized = true → Current file t

theorem placement_new (p : Params) : Placement (new p) where
  range := .before rfl rfl rfl
  time := .before rfl rfl rfl rfl
  lookup := ⟨rfl, rfl, Nat.zero_le _, (start_zero _).symm⟩

theorem valid_new (p : Params) (file : DataSource) : Valid file (new p) where
  toPlacement := placement_new p
  current hInit := by cases hInit

/-- Nothing but the iterator and the place of the look-up differs. -/
def SameTables (t t' : SampleTable) : Prop :=
  t'.toParams = t.toParams ∧ t'.mSampleTimeEntries = t.mSampleTimeEntries ∧
    t'.mLastSyncSampleIndex = t.mLastSyncSampleIndex

theorem SameTables.trans {t'' : SampleTable} (h : SameTables t t') (h' : SameTables t' t'') :
    SameTables t t'' :=
  ⟨h'.1.trans h.1, h'.2.1.trans h.2.1, h'.2.2.trans h.2.2⟩

/-! ### The time of a sample -/

/-- What does not depend on the time. -/
def untimed (it : SampleIterator) : SampleIterator :=
  { it.resetTime with mCurrentSampleTime := 0 }

theorem findSampleTime_spec (h : t.WellFormed) (hPlace : Placement t)
    (hSample : i < t.mNumSampleSizes) (hFrom : t.mSampleIterator.mTTSSampleIndex ≤ i) :
    ∃ status t', t.findSampleTime i = some (status, t') ∧ SameTables t t' ∧ Placement t' ∧
      untimed t'.mSampleIterator = untimed t.mSampleIterator ∧
      (status = .OK ∧ i < t.durations.length ∧
          t'.mSampleIterator.mCurrentSampleTime = t.compositionTime i ∨
        status = .ERROR_OUT_OF_RANGE ∧ t.durations.length ≤ i) := by
  have hIndex : t.mSampleIterator.mTimeToSampleIndex ≤ t.mTimeToSampleCount := by
    cases hPlace.time with
    | before hIndex hStart hTime hCount => exact hIndex ▸ Nat.zero_le _
    | run index run hRun hIndex hStart hTime hCount hDuration =>
        have hInside := (List.getElem?_eq_some_iff.mp hRun).1
        rw [Params.timeRuns, length_runsOf] at hInside
        omega
  obtain ⟨status, it', hScan, hAt, hSame, hFrom', hResult⟩ :=
    scanTimes_spec h hPlace.time (Nat.sub_add_cancel hIndex) hFrom
  have hRange : it'.RangeAt t.toParams := by
    have hPart : it'.resetTime.rangePart = t.mSampleIterator.resetTime.rangePart :=
      congrArg rangePart hSame
    exact hPlace.range.congr hPart
  have hReset : untimed it' = untimed t.mSampleIterator :=
    congrArg (fun it : SampleIterator => { it with mCurrentSampleTime := 0 }) hSame
  rw [findSampleTime, if_neg (Nat.not_le_of_lt hSample), hScan]
  rcases hResult with ⟨rfl, hUntil⟩ | ⟨rfl, hBehind⟩
  · obtain ⟨lookup, hOffset, hLookup⟩ := getCompositionTimeOffset_spec h hPlace.lookup i
    obtain ⟨hShown, hTime⟩ :=
      hAt.time (Nat.lt_trans hSample h.samples) hFrom' hUntil
    simp only [hOffset, hTime]
    refine ⟨_, _, rfl, ⟨rfl, rfl, rfl⟩, ⟨hRange.congr rfl, hAt.congr rfl, hLookup⟩, hReset,
      Or.inl ⟨rfl, hShown, ?_⟩⟩
    rw [Params.compositionTime, Nat.add_comm, u32_add, Nat.add_comm]
  · exact ⟨_, _, rfl, ⟨rfl, rfl, rfl⟩, ⟨hRange, hAt, hPlace.lookup⟩, hReset, Or.inr ⟨rfl, hBehind⟩⟩

/-! ### Seeking -/

/-- The look-up of the time begins no later than at the sample. -/
theorem exists_resetTime {it : SampleIterator} (hAt : it.TimeAt p) (i : Nat) :
    ∃ it', (if i < it.mTTSSampleIndex then it.resetTime else it) = it' ∧ it'.TimeAt p ∧
      it'.resetTime = it.resetTime ∧ it'.mTTSSampleIndex ≤ i := by
  by_cases hBefore : i < it.mTTSSampleIndex
  · exact ⟨_, if_pos hBefore, timeAt_resetTime p it, rfl, Nat.zero_le _⟩
  · exact ⟨_, if_neg hBefore, hAt, rfl, Nat.le_of_not_lt hBefore⟩

/-- A sample whose place is found gets its time. One that has none leaves its place behind. -/
theorem seekTime_spec (h : t.WellFormed) (hPlace : Placement t)
    (hHolds : t.mSampleIterator.HoldsChunk t.toParams file)
    (hPlaced : t.Placed file i t.mSampleIterator.mCurrentSampleOffset
      t.mSampleIterator.mCurrentSampleSize) (hSample : i < t.mNumSampleSizes) :
    ∃ status t', t.seekTime i = some (status, t') ∧ SameTables t t' ∧ Placement t' ∧
      (status = .OK ∧ i < t.durations.length ∧ Current file t' ∧
          t'.mSampleIterator.mInitialized = true ∧ t'.mSampleIterator.mCurrentSampleIndex = i ∨
        status = .ERROR_OUT_OF_RANGE ∧ t.durations.length ≤ i ∧
          untimed t'.mSampleIterator = untimed t.mSampleIterator) := by
  obtain ⟨from_, hFrom, hAt, hSameTime, hLe⟩ := exists_resetTime hPlace.time i
  have hRangePart : from_.resetTime.rangePart = t.mSampleIterator.resetTime.rangePart :=
    congrArg rangePart hSameTime
  have hUntimed : untimed from_ = untimed t.mSampleIterator :=
    congrArg (fun it : SampleIterator => { it with mCurrentSampleTime := 0 }) hSameTime
  have hPlace' : Placement { t with mSampleIterator := from_ } :=
    ⟨hPlace.range.congr hRangePart, hAt, hPlace.lookup⟩
  obtain ⟨status, timed, hTimed, hTables, hPlaceTimed, hReset, hResult⟩ :=
    findSampleTime_spec (t := { t with mSampleIterator := from_ }) h hPlace' hSample hLe
  have hSame : untimed timed.mSampleIterator = untimed t.mSampleIterator := hReset.trans hUntimed
  unfold seekTime
  simp only [hFrom, hTimed]
  rcases hResult with ⟨rfl, hShown, hTime⟩ | ⟨rfl, hBehind⟩
  · have hParams : timed.toParams = t.toParams := hTables.1
    have hHolds' : (untimed timed.mSampleIterator).HoldsChunk t.toParams file := hSame ▸ hHolds
    have hPlaced' : t.Placed file i (untimed timed.mSampleIterator).mCurrentSampleOffset
        (untimed timed.mSampleIterator).mCurrentSampleSize := hSame ▸ hPlaced
    refine ⟨_, _, rfl, hTables,
      ⟨hPlaceTimed.range.congr rfl, hPlaceTimed.time.congr rfl, hPlaceTimed.lookup⟩,
      Or.inl ⟨rfl, hShown, ⟨?_, ?_, ?_, ?_⟩, rfl, rfl⟩⟩
    · exact hParams ▸ hHolds'
    · exact hParams ▸ hPlaced'
    · exact hParams ▸ hShown
    · exact hParams ▸ hTime
  · exact ⟨_, _, rfl, hTables, hPlaceTimed, Or.inr ⟨rfl, hBehind, hSame⟩⟩

/-- What every seek keeps, and what one that succeeds has found. -/
structure Sought (file : DataSource) (t : SampleTable) (i : Nat) (status : Status)
    (t' : SampleTable) : Prop where
  tables : SameTables t t'
  place : Placement t'
  found : status = .OK → Current file t' ∧ t'.mSampleIterator.mInitialized = true ∧
    t'.mSampleIterator.mCurrentSampleIndex = i
  failed : status ≠ .OK → t' = t ∨
    Failed status ∧ t'.mSampleIterator.mInitialized = t.mSampleIterator.mInitialized

theorem seekTo_spec (h : t.WellFormed) (hValid : Valid file t) (hSource : source.Delivers file)
    (hSeek : t.seekTo source i = some (status, t')) : Sought file t i status t' := by
  unfold seekTo at hSeek
  split_ifs at hSeek with hEnd hMissing hSame
  · cases hSeek
    exact ⟨⟨rfl, rfl, rfl⟩, hValid.toPlacement, fun hOK => (by cases hOK), fun _ => Or.inl rfl⟩
  · cases hSeek
    exact ⟨⟨rfl, rfl, rfl⟩, hValid.toPlacement, fun hOK => (by cases hOK), fun _ => Or.inl rfl⟩
  · cases hSeek
    exact ⟨⟨rfl, rfl, rfl⟩, hValid.toPlacement, fun _ => ⟨hValid.current hSame.1, hSame⟩,
      fun hErr => absurd rfl hErr⟩
  · have hSample := Nat.lt_of_not_le hEnd
    cases hChunk : t.mSampleIterator.seekChunk t.toParams source i with
    | none =>
        rw [hChunk] at hSeek
        cases hSeek
    | some result =>
        obtain ⟨err, it⟩ := result
        rw [hChunk] at hSeek
        obtain ⟨hRange, hTimePart, hOK, hFailed⟩ := seekChunk_spec h hSample hSource hValid.range
          (fun hInit => (hValid.current hInit).chunk) hChunk
        have hInit : it.mInitialized = t.mSampleIterator.mInitialized :=
          congrArg (fun part => part.2.1) hTimePart
        have hPlace : Placement { t with mSampleIterator := it } :=
          ⟨hRange, hValid.time.congr (congrArg Prod.fst hTimePart), hValid.lookup⟩
        by_cases hErr : err = .OK
        · rw [hErr] at hSeek
          obtain ⟨hHolds, hPlaced⟩ := hOK hErr
          obtain ⟨err', timed, hTimed, hTables, hPlaceTimed, hResult⟩ :=
            seekTime_spec (t := { t with mSampleIterator := it }) h hPlace hHolds hPlaced hSample
          simp only [hTimed] at hSeek
          cases hSeek
          refine ⟨hTables, hPlaceTimed, fun hOK' => ?_, fun hNot => ?_⟩
          · rcases hResult with ⟨-, -, hFound⟩ | ⟨hRangeErr, -⟩
            · exact hFound
            · rw [hOK'] at hRangeErr
              cases hRangeErr
          · rcases hResult with ⟨hOK', -⟩ | ⟨hRangeErr, -, hUntimed⟩
            · exact absurd hOK' hNot
            · have hInit' : (untimed t'.mSampleIterator).mInitialized =
                  (untimed it).mInitialized := congrArg SampleIterator.mInitialized hUntimed
              exact Or.inr ⟨Or.inl hRangeErr, hInit'.trans hInit⟩
        · have hResult : (err, { t with mSampleIterator := it }) = (status, t') := by
            cases err with
            | OK => exact absurd rfl hErr
            | _ => exact Option.some.inj hSeek
          cases hResult
          exact ⟨⟨rfl, rfl, rfl⟩, hPlace, fun hOK => absurd hOK hErr,
            fun _ => Or.inr ⟨hFailed hErr, hInit⟩⟩

theorem Params.Placed.lt {offset : Int} {size : Nat} (hPlaced : p.Placed file i offset size) :
    i < p.mNumSampleSizes := by
  obtain ⟨chunk, base, sizes, hRead, hBegin, -, hSize⟩ := hPlaced
  have hLt := Params.lt_of_getSampleSizeDirect (hRead.sizes _ size hSize)
  omega

/-- No table is missing that a seek asks for. -/
theorem not_missing (hTables : isValid p) (hShown : i < p.durations.length) :
    ¬ (p.mSampleToChunkOffset < 0 ∨ p.mChunkOffsetOffset < 0 ∨ p.mSampleSizeOffset < 0 ∨
      p.mTimeToSampleCount = 0) := by
  have hCount : p.mTimeToSampleCount ≠ 0 := by
    intro hZero
    rw [Params.durations, length_expand, Params.timeRuns, hZero] at hShown
    exact Nat.not_lt_zero _ hShown
  obtain ⟨hChunkOffset, hSampleToChunk, hSampleSize, -⟩ := hTables
  omega

/-- The chunk of a sample of the file is found, and the sample in it. Its time is looked up then. -/
theorem seekChunk_placed (h : t.WellFormed) (hValid : Valid file t) {offset : Int} {size : Nat}
    (hPlaced : t.Placed file i offset size) :
    ∃ it status t', t.mSampleIterator.seekChunk t.toParams file i = some (.OK, it) ∧
      it.timePart = t.mSampleIterator.timePart ∧
      t.Placed file i it.mCurrentSampleOffset it.mCurrentSampleSize ∧
      seekTime { t with mSampleIterator := it } i = some (status, t') ∧
      t'.toParams = t.toParams ∧
      (status = .OK ∧ i < t.durations.length ∨
        status = .ERROR_OUT_OF_RANGE ∧ t.durations.length ≤ i ∧
          untimed t'.mSampleIterator = untimed it) := by
  have hSample := hPlaced.lt
  have hHolds (hInit : t.mSampleIterator.mInitialized = true) := (hValid.current hInit).chunk
  obtain ⟨it, hChunk⟩ := seekChunk_complete h hPlaced hValid.range hHolds
  obtain ⟨hRange, hTimePart, hOK, -⟩ :=
    seekChunk_spec h hSample (.refl file) hValid.range hHolds hChunk
  obtain ⟨hHolds', hPlaced'⟩ := hOK rfl
  obtain ⟨status, t', hTimed, hSame, -, hResult⟩ :=
    seekTime_spec (t := { t with mSampleIterator := it }) h
      ⟨hRange, hValid.time.congr (congrArg Prod.fst hTimePart), hValid.lookup⟩ hHolds' hPlaced'
      hSample
  exact ⟨it, status, t', hChunk, hTimePart, hPlaced', hTimed, hSame.1,
    hResult.imp_left fun hFound => ⟨hFound.1, hFound.2.1⟩⟩

/-- A seek to a sample of the file succeeds, whatever was sought before. -/
theorem seekTo_complete (h : t.WellFormed) (hValid : Valid file t) (hTables : isValid t.toParams)
    {offset : Int} {size : Nat} (hPlaced : t.Placed file i offset size)
    (hShown : i < t.durations.length) : ∃ t', t.seekTo file i = some (.OK, t') := by
  rw [seekTo, if_neg (Nat.not_le_of_lt hPlaced.lt), if_neg (not_missing hTables hShown)]
  by_cases hSame : t.mSampleIterator.mInitialized ∧ t.mSampleIterator.mCurrentSampleIndex = i
  · exact ⟨t, if_pos hSame⟩
  · obtain ⟨it, status, t', hChunk, -, -, hTimed, -, hResult⟩ := seekChunk_placed h hValid hPlaced
    rcases hResult with ⟨rfl, -⟩ | ⟨-, hBehind, -⟩
    · refine ⟨t', ?_⟩
      rw [if_neg hSame]
      simp only [hChunk]
      exact hTimed
    · exact absurd hShown (Nat.not_lt_of_le hBehind)

theorem untimed_eq {it it' : SampleIterator} (hSame : untimed it = untimed it') :
    it.mInitialized = it'.mInitialized ∧ it.mCurrentSampleIndex = it'.mCurrentSampleIndex ∧
      it.mCurrentSampleOffset = it'.mCurrentSampleOffset ∧
      it.mCurrentSampleSize = it'.mCurrentSampleSize := by
  simp only [untimed, SampleIterator.resetTime, SampleIterator.mk.injEq] at hSame
  simp only [hSame, and_self]

/-- A seek to a sample that has no time fails when its place has been found. -/
theorem seekTo_timeless (h : t.WellFormed) (hValid : Valid file t) (hTables : isValid t.toParams)
    (hInit : t.mSampleIterator.mInitialized = true) {offset : Int} {size : Nat}
    (hPlaced : t.Placed file i offset size) (hTimeless : t.durations.length ≤ i) :
    ∃ t', t.seekTo file i = some (.ERROR_OUT_OF_RANGE, t') ∧ t'.toParams = t.toParams ∧
      t.Placed file i t'.mSampleIterator.mCurrentSampleOffset
        t'.mSampleIterator.mCurrentSampleSize ∧
      t'.mSampleIterator.mInitialized = true ∧
      t'.mSampleIterator.mCurrentSampleIndex = t.mSampleIterator.mCurrentSampleIndex := by
  have hShown := (hValid.current hInit).shown
  have hOther : ¬ (t.mSampleIterator.mInitialized ∧ t.mSampleIterator.mCurrentSampleIndex = i) := by
    omega
  rw [seekTo, if_neg (Nat.not_le_of_lt hPlaced.lt), if_neg (not_missing hTables hShown),
    if_neg hOther]
  obtain ⟨it, status, t', hChunk, hTimePart, hPlaced', hTimed, hSame, hResult⟩ :=
    seekChunk_placed h hValid hPlaced
  rcases hResult with ⟨-, hNot⟩ | ⟨rfl, -, hUntimed⟩
  · exact absurd hNot (Nat.not_lt_of_le hTimeless)
  · have hKept : it.mInitialized = t.mSampleIterator.mInitialized ∧
        it.mCurrentSampleIndex = t.mSampleIterator.mCurrentSampleIndex :=
      ⟨congrArg (fun part => part.2.1) hTimePart, congrArg (fun part => part.2.2.1) hTimePart⟩
    obtain ⟨hInit', hIndex, hOffset, hSize⟩ := untimed_eq hUntimed
    refine ⟨t', ?_, hSame, ?_, ?_, ?_⟩
    · simp only [hChunk]
      exact hTimed
    · rw [hOffset, hSize]
      exact hPlaced'
    · rw [hInit', hKept.1, hInit]
    · rw [hIndex, hKept.2]

end Meet.SampleTable
