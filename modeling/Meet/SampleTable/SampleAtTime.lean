import Meet.SampleTable.Samples

/-! Finding a sample by its time. The entries are built once, from the durations and the offsets,
and sorted. -/
namespace Meet.SampleTable

open RunLength Ascending

variable {p : Params} {t t' : SampleTable}

/-- What the entries are before they are sorted. -/
def Params.timeEntries (p : Params) : List SampleTimeEntry :=
  (List.range p.mNumSampleSizes).map fun i => ⟨i, p.compositionTime i⟩

/-- What the library says of `qsort`. -/
structure Sorts (qsort : List SampleTimeEntry → List SampleTimeEntry) : Prop where
  perm : ∀ entries, (qsort entries).Perm entries
  ordered : ∀ entries,
    (qsort entries).Pairwise fun a b => a.mCompositionTime ≤ b.mCompositionTime

/-! ### Building the entries -/

/-- The entries of the first samples are there. -/
structure Building.Filled (p : Params) (b : Building) (count : Nat) : Prop where
  length : b.entries.length = p.mNumSampleSizes
  filled : ∀ i, i < count → i < p.mNumSampleSizes →
    b.entries[i]? = some ⟨i, p.compositionTime i⟩
  index : b.sampleIndex = count
  time : b.sampleTime = u32 (p.durations.take count).sum
  lookup : LookupAt p b.lookup

theorem sum_take_succ {durations : List Nat} {count delta : Nat}
    (hGet : durations[count]? = some delta) :
    (durations.take (count + 1)).sum = (durations.take count).sum + delta := by
  rw [List.take_add_one, hGet, List.sum_append]
  simp

theorem Building.fillRun_spec (h : p.WellFormed) {delta left count : Nat} {b : Building}
    (hFilled : b.Filled p count)
    (hDelta : ∀ j, j < left → p.durations[count + j]? = some delta) :
    ∃ b', b.fillRun delta left = some b' ∧ b'.Filled p (count + left) := by
  induction left generalizing b count with
  | zero => exact ⟨b, rfl, hFilled⟩
  | succ left ih =>
      have hHere := hDelta 0 (Nat.succ_pos left)
      rw [Nat.add_zero] at hHere
      have hRest (j) (hj : j < left) : p.durations[count + 1 + j]? = some delta := by
        rw [Nat.add_assoc, Nat.add_comm 1 j]
        exact hDelta (j + 1) (Nat.succ_lt_succ hj)
      have hInside := (List.getElem?_eq_some_iff.mp hHere).1
      have hTotal := h.timeTotal
      rw [← length_expand] at hTotal
      have hIndex : u32 (b.sampleIndex + 1) = count + 1 := by
        rw [hFilled.index]
        exact u32_of_lt (Nat.lt_of_le_of_lt hInside hTotal)
      have hTime : u32 (b.sampleTime + delta) = u32 (p.durations.take (count + 1)).sum := by
        rw [hFilled.time, sum_take_succ hHere, Nat.add_comm, u32_add, Nat.add_comm]
      rw [fillRun]
      by_cases hEntry : b.sampleIndex < b.entries.length
      · obtain ⟨lookup, hOffset, hLookup⟩ :=
          getCompositionTimeOffset_spec h hFilled.lookup b.sampleIndex
        rw [if_pos hEntry, hOffset]
        have hNext : Filled p
            ⟨b.entries.set b.sampleIndex
              ⟨b.sampleIndex, u32 (b.sampleTime + p.compositionOffset b.sampleIndex)⟩,
              lookup, u32 (b.sampleIndex + 1), u32 (b.sampleTime + delta)⟩ (count + 1) := by
          refine ⟨(List.length_set ..).trans hFilled.length, ?_, hIndex, hTime, hLookup⟩
          intro i hi hSample
          by_cases hSame : b.sampleIndex = i
          · subst hSame
            rw [List.getElem?_set_self hEntry, hFilled.time, Nat.add_comm, u32_add, Nat.add_comm,
              Params.compositionTime, hFilled.index]
          · rw [List.getElem?_set_ne hSame]
            rw [hFilled.index] at hSame
            exact hFilled.filled i (by omega) hSample
        obtain ⟨b', hFill, hFilled'⟩ := ih hNext hRest
        exact ⟨b', hFill, by rwa [Nat.add_assoc, Nat.add_comm 1 left] at hFilled'⟩
      · rw [if_neg hEntry]
        have hNext : Filled p
            ⟨b.entries, b.lookup, u32 (b.sampleIndex + 1), u32 (b.sampleTime + delta)⟩
            (count + 1) := by
          refine ⟨hFilled.length, fun i hi hSample => ?_, hIndex, hTime, hFilled.lookup⟩
          rw [hFilled.index, hFilled.length] at hEntry
          exact hFilled.filled i (by omega) hSample
        obtain ⟨b', hFill, hFilled'⟩ := ih hNext hRest
        exact ⟨b', hFill, by rwa [Nat.add_assoc, Nat.add_comm 1 left] at hFilled'⟩

theorem Building.fillRuns_spec (h : p.WellFormed) {numbers : List Nat}
    (hNumbers : p.mTimeToSample = some numbers) {left index : Nat} {b : Building}
    (hLeft : left + index = p.mTimeToSampleCount) (hFilled : b.Filled p (start p.timeRuns index)) :
    ∃ b', b.fillRuns numbers left index = some b' ∧ b'.Filled p p.durations.length := by
  obtain ⟨numbers', hNumbers', hLength⟩ := h.times
  obtain rfl : numbers' = numbers := Option.some.inj (hNumbers'.symm.trans hNumbers)
  have hRuns : p.timeRuns = runsOf numbers' p.mTimeToSampleCount := by
    rw [Params.timeRuns, hNumbers, Option.getD_some]
  induction left generalizing b index with
  | zero =>
      refine ⟨b, rfl, ?_⟩
      rw [Nat.zero_add] at hLeft
      rwa [hLeft, ← length_runsOf numbers' p.mTimeToSampleCount, ← hRuns, start_length,
        ← length_expand] at hFilled
  | succ left ih =>
      obtain ⟨run, hRun, hCount, hDuration⟩ :=
        exists_numbers hLength h.timeCount (show index < p.mTimeToSampleCount by omega)
      rw [← hRuns] at hRun
      have hStop := start_succ hRun
      have hDelta (j : Nat) (hj : j < run.1) :
          p.durations[start p.timeRuns index + j]? = some run.2 :=
        getElem?_expand hRun (Nat.le_add_right _ _) (by omega)
      obtain ⟨b', hFill, hFilled'⟩ := fillRun_spec h hFilled hDelta
      rw [← hStop] at hFilled'
      rw [fillRuns, hCount, hDuration]
      simp only [hFill]
      exact ih (by omega) hFilled'

/-- The entries are those of the samples, in order of time. -/
structure EntriesAt (p : Params) (entries : List SampleTimeEntry) : Prop where
  perm : entries.Perm p.timeEntries
  ordered : entries.Pairwise fun a b => a.mCompositionTime ≤ b.mCompositionTime

/-- Where all samples have a time, the entries that are there are right. -/
def EntriesKept (t : SampleTable) : Prop :=
  ∀ entries, t.mSampleTimeEntries = some entries → 8 * t.mNumSampleSizes < 2 ^ 32 ∧
    (t.mNumSampleSizes ≤ t.durations.length → EntriesAt t.toParams entries)

theorem Building.Filled.entries_eq {b : Building} (hFilled : b.Filled p p.durations.length)
    (hCovered : p.mNumSampleSizes ≤ p.durations.length) : b.entries = p.timeEntries := by
  apply List.ext_getElem?
  intro i
  by_cases hi : i < p.mNumSampleSizes
  · rw [hFilled.filled i (Nat.lt_of_lt_of_le hi hCovered) hi, Params.timeEntries]
    simp [hi]
  · rw [List.getElem?_eq_none (hFilled.length ▸ Nat.le_of_not_lt hi), List.getElem?_eq_none]
    rw [Params.timeEntries, List.length_map, List.length_range]
    exact Nat.le_of_not_lt hi

/-- Building the entries keeps all else. It fails only where the array is too large. -/
theorem buildSampleEntriesTable_spec {qsort : List SampleTimeEntry → List SampleTimeEntry}
    (hSorts : Sorts qsort) (memory : Nat → SampleTimeEntry) (h : t.WellFormed)
    (hLookup : LookupAt t.toParams t.mCompositionDeltaLookup) (hKept : EntriesKept t) :
    (t.buildSampleEntriesTable qsort memory = none ∧ 2 ^ 32 ≤ 8 * t.mNumSampleSizes) ∨
      ∃ entries lookup, t.buildSampleEntriesTable qsort memory = some { t with
          mSampleTimeEntries := some entries
          mCompositionDeltaLookup := lookup } ∧
        LookupAt t.toParams lookup ∧ 8 * t.mNumSampleSizes < 2 ^ 32 ∧
        (t.mNumSampleSizes ≤ t.durations.length → EntriesAt t.toParams entries) := by
  unfold buildSampleEntriesTable
  cases hEntries : t.mSampleTimeEntries with
  | some entries =>
      have hSame : t = { t with mSampleTimeEntries := some entries } := by rw [← hEntries]
      exact Or.inr ⟨entries, t.mCompositionDeltaLookup, congrArg some hSame, hLookup,
        hKept entries hEntries⟩
  | none =>
      by_cases hLarge : 2 ^ 32 ≤ 8 * t.mNumSampleSizes
      · exact Or.inl ⟨if_pos hLarge, hLarge⟩
      · obtain ⟨numbers, hNumbers, -⟩ := h.times
        have hBegin : Building.Filled t.toParams
            ⟨(List.range t.mNumSampleSizes).map memory, t.mCompositionDeltaLookup, 0, 0⟩
            (start t.timeRuns 0) := by
          rw [start_zero]
          refine ⟨?_, fun i hi => absurd hi (Nat.not_lt_zero i), rfl, rfl, hLookup⟩
          rw [List.length_map, List.length_range]
        obtain ⟨b, hFill, hFilled⟩ := Building.fillRuns_spec h hNumbers rfl hBegin
        refine Or.inr ⟨qsort b.entries, b.lookup, ?_, hFilled.lookup, Nat.lt_of_not_le hLarge,
          fun hCovered => ?_⟩
        · simp only [if_neg hLarge, hNumbers, Option.getD_some, hFill]
        · exact ⟨hFilled.entries_eq hCovered ▸ hSorts.perm b.entries, hSorts.ordered b.entries⟩

/-! ### Searching them -/

/-- The times of the entries. -/
def times (entries : List SampleTimeEntry) : List Nat :=
  entries.map SampleTimeEntry.mCompositionTime

theorem getElem?_times {entries : List SampleTimeEntry} {index : Nat} {entry : SampleTimeEntry}
    (hGet : entries[index]? = some entry) :
    (times entries)[index]? = some entry.mCompositionTime := by
  rw [times, List.getElem?_map, hGet]
  rfl

theorem EntriesAt.times_ordered {entries : List SampleTimeEntry} (h : EntriesAt p entries) :
    (times entries).Pairwise (· ≤ ·) :=
  List.pairwise_map.mpr h.ordered

theorem EntriesAt.length {entries : List SampleTimeEntry} (h : EntriesAt p entries) :
    entries.length = p.mNumSampleSizes := by
  rw [h.perm.length_eq, Params.timeEntries, List.length_map, List.length_range]

/-- An entry is of a sample. -/
theorem EntriesAt.sample {entries : List SampleTimeEntry} (h : EntriesAt p entries)
    {entry : SampleTimeEntry} (hMem : entry ∈ entries) :
    entry.mSampleIndex < p.mNumSampleSizes ∧
      entry.mCompositionTime = p.compositionTime entry.mSampleIndex := by
  obtain ⟨i, hi, rfl⟩ := List.mem_map.mp (h.perm.mem_iff.mp hMem)
  exact ⟨List.mem_range.mp hi, rfl⟩

/-- Each sample has an entry. -/
theorem EntriesAt.exists_entry {entries : List SampleTimeEntry} (h : EntriesAt p entries)
    {i : Nat} (hi : i < p.mNumSampleSizes) :
    ∃ index : Nat, (times entries)[index]? = some (p.compositionTime i) := by
  have hMem : (⟨i, p.compositionTime i⟩ : SampleTimeEntry) ∈ entries :=
    h.perm.mem_iff.mpr (List.mem_map.mpr ⟨i, List.mem_range.mpr hi, rfl⟩)
  obtain ⟨index, hGet⟩ := List.getElem?_of_mem hMem
  exact ⟨index, getElem?_times hGet⟩

variable {entries : List SampleTimeEntry} {req_time : Nat}

theorem searchTime_spec (hOrder : (times entries).Pairwise (· ≤ ·))
    (hSmall : 2 * entries.length < 2 ^ 32) {fuel left right : Nat} (hFuel : right ≤ fuel + left)
    (hBetween : Between (times entries) req_time left right) :
    ∃ place, searchTime entries req_time fuel left right = some place ∧
      Found (times entries) req_time place := by
  induction fuel generalizing left right with
  | zero =>
      have hLe := hBetween.le
      obtain rfl : left = right := by omega
      exact ⟨left, rfl, Or.inr hBetween⟩
  | succ fuel ih =>
      rw [searchTime]
      by_cases hLt : left < right
      · have hInside := hBetween.inside
        rw [times, List.length_map] at hInside
        have hCenter : u32 (left + right) / 2 = (left + right) / 2 := by
          rw [u32_of_lt (by omega)]
        rw [if_pos hLt, hCenter]
        have hLeft : left ≤ (left + right) / 2 := by omega
        have hRight : (left + right) / 2 < right := by omega
        have hGet := List.getElem?_eq_getElem (Nat.lt_of_lt_of_le hRight hInside)
        simp only [hGet]
        split_ifs with hBefore hBehind
        · exact ih (by omega) (hBetween.upTo hOrder hLeft hRight (getElem?_times hGet) hBefore)
        · exact ih (by omega) (hBetween.behind hOrder hRight (getElem?_times hGet) hBehind)
        · refine ⟨_, rfl, Or.inl ?_⟩
          rw [getElem?_times hGet]
          exact congrArg some (by omega)
      · have hLe := hBetween.le
        obtain rfl : left = right := by omega
        exact ⟨left, if_neg hLt, Or.inr hBetween⟩

/-- Going back ends at the last entry that is not after the time, or at the first of all. -/
theorem stepBack_spec (req_time : Nat) {place : Nat} (hPlace : place < entries.length) :
    ∃ closest, stepBack entries req_time place = some closest ∧ closest ≤ place ∧
      (∀ index b, closest < index → index ≤ place → (times entries)[index]? = some b →
        req_time < b) ∧
      (closest = 0 ∨ ∃ b, (times entries)[closest]? = some b ∧ b ≤ req_time) := by
  induction place with
  | zero =>
      exact ⟨0, rfl, Nat.le_refl 0, fun index b hLt hLe => absurd hLe (Nat.not_le_of_lt hLt),
        Or.inl rfl⟩
  | succ place ih =>
      have hGet := List.getElem?_eq_getElem hPlace
      rw [stepBack]
      simp only [hGet]
      by_cases hBefore : req_time < entries[place + 1].mCompositionTime
      · obtain ⟨closest, hBack, hLe, hPassed, hEnd⟩ := ih (Nat.lt_of_succ_lt hPlace)
        refine ⟨closest, ?_, Nat.le_succ_of_le hLe, ?_, hEnd⟩
        · rw [if_pos hBefore]
          exact hBack
        · intro index b hLt hIndex hAt
          cases Nat.lt_or_eq_of_le hIndex with
          | inl hInside => exact hPassed index b hLt (Nat.le_of_lt_succ hInside) hAt
          | inr hEq =>
              rw [hEq, getElem?_times hGet] at hAt
              cases hAt
              exact hBefore
      · refine ⟨place + 1, if_neg hBefore, Nat.le_refl _,
          fun index b hLt hLe => absurd hLe (Nat.not_le_of_lt hLt),
          Or.inr ⟨_, getElem?_times hGet, Nat.le_of_not_lt hBefore⟩⟩

/-- The place where a search ends, or the last one. -/
def lastOr (entries : List SampleTimeEntry) (place : Nat) : Nat :=
  if place = entries.length then entries.length - 1 else place

theorem lastOr_lt (hSome : entries ≠ []) {place : Nat} (hLe : place ≤ entries.length) :
    lastOr entries place < entries.length := by
  have hPos := List.length_pos_iff.mpr hSome
  unfold lastOr
  split_ifs <;> omega

/-- Behind it there is nothing before the place where the search ends. -/
theorem lastOr_lt_index {place index b : Nat} (hIndex : lastOr entries place < index)
    (hAt : (times entries)[index]? = some b) : lastOr entries place = place := by
  have hInside := (List.getElem?_eq_some_iff.mp hAt).1
  rw [times, List.length_map] at hInside
  unfold lastOr at hIndex ⊢
  split_ifs at hIndex ⊢
  · omega
  · rfl

/-- What going back from there finds. -/
theorem before_spec (hOrder : (times entries).Pairwise (· ≤ ·)) {place : Nat}
    (hFound : Found (times entries) req_time place) (hSome : entries ≠ []) :
    ∃ closest entry, stepBack entries req_time (lastOr entries place) = some closest ∧
      entries[closest]? = some entry ∧
      ((entry.mCompositionTime ≤ req_time ∧ ∀ (index : Nat) (b : Nat),
          (times entries)[index]? = some b → b ≤ req_time → b ≤ entry.mCompositionTime) ∨
        ∀ (index : Nat) (b : Nat), (times entries)[index]? = some b →
          req_time < b ∧ entry.mCompositionTime ≤ b) := by
  have hLe := hFound.le_length
  rw [times, List.length_map] at hLe
  have hInside := lastOr_lt hSome hLe
  obtain ⟨closest, hBack, hClosest, hPassed, hEnd⟩ := stepBack_spec req_time hInside
  have hGet := List.getElem?_eq_getElem (Nat.lt_of_le_of_lt hClosest hInside)
  refine ⟨closest, _, hBack, hGet, ?_⟩
  by_cases hBefore : entries[closest].mCompositionTime ≤ req_time
  · refine Or.inl ⟨hBefore, fun index b hAt hb => ?_⟩
    by_cases hIndex : index ≤ closest
    · exact le_of_getElem? hOrder hIndex hAt (getElem?_times hGet)
    · by_cases hWithin : index ≤ lastOr entries place
      · exact absurd (hPassed index b (Nat.lt_of_not_le hIndex) hWithin hAt) (Nat.not_lt_of_le hb)
      · have hPlace := lastOr_lt_index (Nat.lt_of_not_le hWithin) hAt
        rw [hPlace] at hWithin hPassed hClosest
        cases hFound with
        | inl hExact =>
            have hStays : closest = place := by
              by_contra hNot
              exact Nat.lt_irrefl _ (hPassed place req_time (by omega) (Nat.le_refl _) hExact)
            rw [← hStays, getElem?_times hGet] at hExact
            exact Nat.le_trans hb (Nat.le_of_eq (Option.some.inj hExact).symm)
        | inr hBetween =>
            exact absurd (hBetween.above index b (by omega) hAt) (Nat.not_lt_of_le hb)
  · have hFirst : closest = 0 := by
      cases hEnd with
      | inl hZero => exact hZero
      | inr hSome =>
          obtain ⟨b, hAt, hb⟩ := hSome
          rw [getElem?_times hGet] at hAt
          cases hAt
          exact absurd hb hBefore
    refine Or.inr fun index b hAt => ?_
    have hLeast := le_of_getElem? hOrder (hFirst ▸ Nat.zero_le index) (getElem?_times hGet) hAt
    exact ⟨Nat.lt_of_lt_of_le (Nat.lt_of_not_le hBefore) hLeast, hLeast⟩

/-- Going on from where the search ends is not needed. -/
theorem after_spec (hOrder : (times entries).Pairwise (· ≤ ·)) {place : Nat}
    (hFound : Found (times entries) req_time place) (hInside : place < entries.length)
    (left : Nat) :
    ∃ entry, stepOn entries req_time left place = some place ∧ entries[place]? = some entry ∧
      req_time ≤ entry.mCompositionTime ∧ ∀ (index : Nat) (b : Nat),
        (times entries)[index]? = some b → req_time ≤ b → entry.mCompositionTime ≤ b := by
  have hGet := List.getElem?_eq_getElem hInside
  have hLe := hFound.le_behind hOrder (Nat.le_refl place) (getElem?_times hGet)
  refine ⟨_, ?_, hGet, hLe, fun index b hAt hb => ?_⟩
  · cases left with
    | zero => rfl
    | succ left =>
        rw [stepOn, hGet]
        exact if_neg (Nat.not_lt_of_le hLe)
  · by_cases hIndex : place ≤ index
    · exact le_of_getElem? hOrder hIndex (getElem?_times hGet) hAt
    · have hBefore := hFound.before_le hOrder (Nat.lt_of_not_le hIndex) hAt
      cases hFound with
      | inl hExact =>
          rw [getElem?_times hGet] at hExact
          exact Nat.le_trans (Nat.le_of_eq (Option.some.inj hExact)) hb
      | inr hBetween =>
          have hBelow := hBetween.below index b (Nat.lt_of_not_le hIndex) hAt
          omega

theorem abs_difference_below {a b c : Nat} (hFirst : a ≤ b) (hSecond : b ≤ c) :
    abs_difference b c ≤ abs_difference a c := by
  unfold abs_difference
  split_ifs <;> omega

theorem abs_difference_above {a b c : Nat} (hFirst : c ≤ b) (hSecond : b ≤ a) :
    abs_difference b c ≤ abs_difference a c := by
  unfold abs_difference
  split_ifs <;> omega

/-- The closest entry is there or to the left of it. -/
theorem closer_spec (hOrder : (times entries).Pairwise (· ≤ ·)) {place : Nat}
    (hFound : Found (times entries) req_time place) (hSome : entries ≠ []) :
    ∃ closest entry, closer entries req_time (lastOr entries place) = some closest ∧
      entries[closest]? = some entry ∧ ∀ (index : Nat) (b : Nat),
        (times entries)[index]? = some b →
          abs_difference entry.mCompositionTime req_time ≤ abs_difference b req_time := by
  have hLe := hFound.le_length
  rw [times, List.length_map] at hLe
  have hInside := lastOr_lt hSome hLe
  have hGet := List.getElem?_eq_getElem hInside
  have hAbove (index b : Nat) (hIndex : lastOr entries place ≤ index)
      (hAt : (times entries)[index]? = some b) :
      abs_difference entries[lastOr entries place].mCompositionTime req_time ≤
        abs_difference b req_time := by
    cases Nat.lt_or_eq_of_le hIndex with
    | inl hLt =>
        have hPlace := lastOr_lt_index hLt hAt
        refine abs_difference_above ?_ (le_of_getElem? hOrder hIndex (getElem?_times hGet) hAt)
        exact hFound.le_behind hOrder (Nat.le_of_eq hPlace.symm) (getElem?_times hGet)
    | inr hEq =>
        rw [← hEq, getElem?_times hGet] at hAt
        exact Nat.le_of_eq (congrArg (abs_difference · req_time) (Option.some.inj hAt))
  have hPrior : lastOr entries place ≤ place := by
    unfold lastOr
    split_ifs <;> omega
  generalize lastOr entries place = last at *
  cases last with
  | zero => exact ⟨0, _, rfl, hGet, fun index b hAt => hAbove index b (Nat.zero_le _) hAt⟩
  | succ last =>
      have hNeighbour := List.getElem?_eq_getElem (Nat.lt_of_succ_lt hInside)
      have hBelow (index b : Nat) (hIndex : index < last + 1)
          (hAt : (times entries)[index]? = some b) :
          abs_difference entries[last].mCompositionTime req_time ≤ abs_difference b req_time := by
        refine abs_difference_below (le_of_getElem? hOrder (Nat.le_of_lt_succ hIndex) hAt
          (getElem?_times hNeighbour)) ?_
        exact hFound.before_le hOrder hPrior (getElem?_times hNeighbour)
      rw [closer]
      simp only [hGet, hNeighbour]
      split_ifs with hCloser
      · refine ⟨last, _, rfl, hNeighbour, fun index b hAt => ?_⟩
        cases Nat.lt_or_ge index (last + 1) with
        | inl hLt => exact hBelow index b hLt hAt
        | inr hGe => exact Nat.le_trans (Nat.le_of_lt hCloser) (hAbove index b hGe hAt)
      · refine ⟨last + 1, _, rfl, hGet, fun index b hAt => ?_⟩
        cases Nat.lt_or_ge index (last + 1) with
        | inl hLt => exact Nat.le_trans (Nat.le_of_not_lt hCloser) (hBelow index b hLt hAt)
        | inr hGe => exact hAbove index b hGe hAt

/-- What is asked of the sample that is found for a time. -/
def AtTime (p : Params) (req_time : Nat) : Flag → Nat → Prop
  | .kFlagBefore, i =>
      (p.compositionTime i ≤ req_time ∧ ∀ j, j < p.mNumSampleSizes →
        p.compositionTime j ≤ req_time → p.compositionTime j ≤ p.compositionTime i) ∨
      ∀ j, j < p.mNumSampleSizes →
        req_time < p.compositionTime j ∧ p.compositionTime i ≤ p.compositionTime j
  | .kFlagAfter, i =>
      req_time ≤ p.compositionTime i ∧ ∀ j, j < p.mNumSampleSizes →
        req_time ≤ p.compositionTime j → p.compositionTime i ≤ p.compositionTime j
  | .kFlagClosest, i =>
      ∀ j, j < p.mNumSampleSizes → abs_difference (p.compositionTime i) req_time ≤
        abs_difference (p.compositionTime j) req_time

/-- The entries are searched as the flag asks. -/
theorem search_spec (h : EntriesAt p entries) (hPos : 0 < p.mNumSampleSizes) {place : Nat}
    (hFound : Found (times entries) req_time place) (flags : Flag)
    (hAfter : flags = .kFlagAfter → place ≠ p.mNumSampleSizes) :
    ∃ closest entry, closestEntry entries req_time p.mNumSampleSizes (lastOr entries place) flags =
        some closest ∧
      entries[closest]? = some entry ∧ entry.mSampleIndex < p.mNumSampleSizes ∧
      AtTime p req_time flags entry.mSampleIndex := by
  have hSome : entries ≠ [] := List.ne_nil_of_length_pos (h.length ▸ hPos)
  have hAll {P : Nat → Prop} (hTimes : ∀ (index : Nat) (b : Nat),
      (times entries)[index]? = some b → P b) (j : Nat) (hj : j < p.mNumSampleSizes) :
      P (p.compositionTime j) := by
    obtain ⟨index, hAt⟩ := h.exists_entry hj
    exact hTimes index _ hAt
  cases flags with
  | kFlagBefore =>
      obtain ⟨closest, entry, hBack, hGet, hTimes⟩ := before_spec h.times_ordered hFound hSome
      obtain ⟨hSample, hTime⟩ := h.sample (List.mem_of_getElem? hGet)
      refine ⟨closest, entry, hBack, hGet, hSample, ?_⟩
      rw [hTime] at hTimes
      exact hTimes.imp (fun hBefore => ⟨hBefore.1, hAll hBefore.2⟩) hAll
  | kFlagAfter =>
      have hLe := hFound.le_length
      rw [times, List.length_map, h.length] at hLe
      have hInside : place < entries.length := h.length ▸ Nat.lt_of_le_of_ne hLe (hAfter rfl)
      have hSame : lastOr entries place = place := if_neg (Nat.ne_of_lt hInside)
      obtain ⟨entry, hOn, hGet, hTimes⟩ := after_spec h.times_ordered hFound hInside
        (p.mNumSampleSizes - (place + 1))
      obtain ⟨hSample, hTime⟩ := h.sample (List.mem_of_getElem? hGet)
      rw [hTime] at hTimes
      refine ⟨place, entry, ?_, hGet, hSample, hTimes.1, hAll hTimes.2⟩
      rw [hSame]
      exact hOn
  | kFlagClosest =>
      obtain ⟨closest, entry, hCloser, hGet, hTimes⟩ := closer_spec h.times_ordered hFound hSome
      obtain ⟨hSample, hTime⟩ := h.sample (List.mem_of_getElem? hGet)
      rw [hTime] at hTimes
      exact ⟨closest, entry, hCloser, hGet, hSample, hAll hTimes⟩

/-- Where all samples have a time, the search finds one as the flag asks. There is none after the
time only if all are before it. -/
theorem findSampleAtTime_spec {qsort : List SampleTimeEntry → List SampleTimeEntry}
    (hSorts : Sorts qsort) (memory : Nat → SampleTimeEntry) (h : t.WellFormed)
    (hLookup : LookupAt t.toParams t.mCompositionDeltaLookup) (hKept : EntriesKept t)
    (hCovered : t.mNumSampleSizes ≤ t.durations.length) (hPos : 0 < t.mNumSampleSizes)
    (hSmall : 8 * t.mNumSampleSizes < 2 ^ 32) (flags : Flag) :
    ∃ status i t', t.findSampleAtTime qsort memory req_time flags = some (status, i, t') ∧
      (status = .OK ∧ i < t.mNumSampleSizes ∧ AtTime t.toParams req_time flags i ∨
        status = .ERROR_OUT_OF_RANGE ∧ flags = .kFlagAfter ∧
          ∀ j, j < t.mNumSampleSizes → t.compositionTime j < req_time) := by
  rcases buildSampleEntriesTable_spec hSorts memory h hLookup hKept with
    ⟨-, hLarge⟩ | ⟨entries, lookup, hBuild, -, -, hEntries⟩
  · omega
  · have hAt := hEntries hCovered
    have hLength := hAt.length
    have hBetween := between_all (times entries) req_time
    rw [times, List.length_map, hLength] at hBetween
    have hFuel : t.mNumSampleSizes ≤ t.mNumSampleSizes + 0 := Nat.le_refl _
    obtain ⟨place, hSearch, hFound⟩ :=
      searchTime_spec hAt.times_ordered (by omega) hFuel hBetween
    unfold findSampleAtTime
    simp only [hBuild, Option.getD_some, hSearch]
    by_cases hEnd : place = t.mNumSampleSizes ∧ flags = .kFlagAfter
    · refine ⟨_, _, _, if_pos hEnd, Or.inr ⟨rfl, hEnd.2, fun j hj => ?_⟩⟩
      obtain ⟨index, hTime⟩ := hAt.exists_entry hj
      have hInside := (List.getElem?_eq_some_iff.mp hTime).1
      rw [times, List.length_map, hLength, ← hEnd.1] at hInside
      cases hFound with
      | inl hExact =>
          have hOut := (List.getElem?_eq_some_iff.mp hExact).1
          rw [times, List.length_map, hLength, hEnd.1] at hOut
          exact absurd hOut (Nat.lt_irrefl _)
      | inr hBetween => exact hBetween.below index _ hInside hTime
    · have hLast : (if place = t.mNumSampleSizes then sub32 place 1 else place) =
          lastOr entries place := by
        rw [lastOr, hLength]
        split_ifs with hPlace
        · rw [sub32_of_le (by omega) (by omega), hPlace]
        · rfl
      obtain ⟨closest, entry, hClosest, hGet, hSample, hAtTime⟩ :=
        search_spec hAt hPos hFound flags fun hFlag hPlace => hEnd ⟨hPlace, hFlag⟩
      rw [if_neg hEnd, hLast]
      simp only [hClosest, hGet]
      exact ⟨_, _, _, rfl, Or.inl ⟨rfl, hSample, hAtTime⟩⟩

end Meet.SampleTable
