import Meet.SampleTable.Queries

/-! The largest of several samples. -/
namespace Meet.SampleTable

variable {p : Params} {source : DataSource} {t : SampleTable}

/-- The size of a sample can be read. -/
def HasSize (p : Params) (source : DataSource) (i size : Nat) : Prop :=
  p.getSampleSizeDirect source i = some (.ok size)

/-- The first of the largest of several samples. -/
def FirstLargest (p : Params) (source : DataSource) (samples : List Nat) (x : Nat) : Prop :=
  ∃ front back size, samples = front ++ x :: back ∧ HasSize p source x size ∧
    (∀ y ∈ front, ∃ s, HasSize p source y s ∧ s < size) ∧
    ∀ y ∈ back, ∃ s, HasSize p source y s ∧ s ≤ size

theorem HasSize.unique {i size size' : Nat} (h : HasSize p source i size)
    (h' : HasSize p source i size') : size = size' := by
  rw [HasSize, h] at h'
  cases h'
  rfl

/-- Behind a sample that is larger than those before it, there is the first of the largest. -/
theorem FirstLargest.cons_lt {b y size size' : Nat} {rest : List Nat} {x : Nat}
    (h : FirstLargest p source (y :: rest) x) (hBest : HasSize p source b size)
    (hSize : HasSize p source y size') (hLt : size < size') :
    FirstLargest p source (b :: y :: rest) x := by
  obtain ⟨front, back, largest, hSplit, hLargest, hFront, hBack⟩ := h
  refine ⟨b :: front, back, largest, by rw [hSplit, List.cons_append], hLargest, ?_, hBack⟩
  have hLe : size' ≤ largest := by
    cases front with
    | nil =>
        obtain ⟨rfl, -⟩ := List.cons.inj hSplit
        exact Nat.le_of_eq (hSize.unique hLargest)
    | cons first more =>
        obtain ⟨rfl, -⟩ := List.cons.inj hSplit
        obtain ⟨s, hs, hLess⟩ := hFront y List.mem_cons_self
        exact Nat.le_of_lt (hSize.unique hs ▸ hLess)
  intro z hMem
  cases List.mem_cons.mp hMem with
  | inl hHead => exact ⟨size, hHead ▸ hBest, Nat.lt_of_lt_of_le hLt hLe⟩
  | inr hMore => exact hFront z hMore

/-- A sample that is no larger than one before it changes nothing. -/
theorem FirstLargest.cons_le {b y size size' : Nat} {rest : List Nat} {x : Nat}
    (h : FirstLargest p source (b :: rest) x) (hBest : HasSize p source b size)
    (hSize : HasSize p source y size') (hLe : size' ≤ size) :
    FirstLargest p source (b :: y :: rest) x := by
  obtain ⟨front, back, largest, hSplit, hLargest, hFront, hBack⟩ := h
  cases front with
  | nil =>
      obtain ⟨rfl, rfl⟩ := List.cons.inj hSplit
      refine ⟨[], y :: rest, largest, rfl, hLargest, hFront, fun z hMem => ?_⟩
      cases List.mem_cons.mp hMem with
      | inl hHead => exact ⟨size', hHead ▸ hSize, hBest.unique hLargest ▸ hLe⟩
      | inr hMore => exact hBack z hMore
  | cons first more =>
      obtain ⟨rfl, rfl⟩ := List.cons.inj hSplit
      obtain ⟨s, hs, hLess⟩ := hFront b List.mem_cons_self
      refine ⟨b :: y :: more, back, largest, rfl, hLargest, fun z hMem => ?_, hBack⟩
      rcases List.mem_cons.mp hMem with hHead | hMore
      · exact hFront z (hHead ▸ List.mem_cons_self)
      · cases List.mem_cons.mp hMore with
        | inl hNext =>
            exact ⟨size', hNext ▸ hSize, Nat.lt_of_le_of_lt hLe (hBest.unique hs ▸ hLess)⟩
        | inr hRest => exact hFront z (List.mem_cons_of_mem b hRest)

theorem scanSizes_spec {b size : Nat} {rest : List Nat} (hBest : HasSize p source b size)
    (hSizes : ∀ y ∈ rest, ∃ s, HasSize p source y s) :
    ∃ x, scanSizes p source rest (b, size) = some (.ok x) ∧
      FirstLargest p source (b :: rest) x := by
  induction rest generalizing b size with
  | nil => exact ⟨b, rfl, [], [], size, rfl, hBest, by simp, by simp⟩
  | cons y rest ih =>
      obtain ⟨s, hSize⟩ := hSizes y List.mem_cons_self
      have hRest (z) (hMem : z ∈ rest) := hSizes z (List.mem_cons_of_mem y hMem)
      have hRead : p.getSampleSizeDirect source y = some (.ok s) := hSize
      simp only [scanSizes, hRead]
      by_cases hLt : size < s
      · obtain ⟨x, hScan, hFirst⟩ := ih hSize hRest
        exact ⟨x, by rw [if_pos hLt, hScan], hFirst.cons_lt hBest hSize hLt⟩
      · obtain ⟨x, hScan, hFirst⟩ := ih hBest hRest
        exact ⟨x, by rw [if_neg hLt, hScan], hFirst.cons_le hBest hSize (Nat.le_of_not_lt hLt)⟩

/-- The thumbnail is the first of the largest of the sync samples that are scanned. -/
theorem findThumbnailSample_largest (hOffset : 0 ≤ t.mSyncSampleOffset)
    (hSome : t.mSyncSamples ≠ [])
    (hSizes : ∀ y ∈ t.mSyncSamples.take kMaxNumSyncSamplesToScan,
      ∃ s, HasSize t.toParams source y s) :
    ∃ x, t.findThumbnailSample source = some (.ok x) ∧
      FirstLargest t.toParams source (t.mSyncSamples.take kMaxNumSyncSamplesToScan) x := by
  rw [findThumbnailSample, if_neg (by omega)]
  cases hScanned : t.mSyncSamples.take kMaxNumSyncSamplesToScan with
  | nil =>
      rw [List.take_eq_nil_iff] at hScanned
      rcases hScanned with hNone | hEmpty
      · cases hNone
      · exact absurd hEmpty hSome
  | cons first rest =>
      rw [hScanned] at hSizes
      obtain ⟨size, hFirst⟩ := hSizes first List.mem_cons_self
      have hRead : t.getSampleSizeDirect source first = some (.ok size) := hFirst
      simp only [hRead]
      exact scanSizes_spec hFirst fun y hMem => hSizes y (List.mem_cons_of_mem first hMem)

/-- Three sync samples with sizes of their own. -/
def sizedSamples : Params :=
  { threeSamples 3 with
    mSampleSizeFieldSize := 8
    mDefaultSampleSize := 0
    mNumSyncSamples := 3
    mSyncSamples := [0, 1, 2] }

/-- The sizes stand behind the twelve bytes of the header. -/
def sizesFile : DataSource where
  readAt offset size := ((List.replicate 12 (0 : UInt8) ++ [3, 9, 9]).drop offset.toNat).take size
  length_readAt _ _ := List.length_take_le _ _

theorem findThumbnailSample_largest_sizedSamples :
    ∃ x, (new sizedSamples).findThumbnailSample sizesFile = some (.ok x) ∧
      FirstLargest sizedSamples sizesFile [0, 1, 2] x :=
  findThumbnailSample_largest (t := new sizedSamples) (by decide) (by decide)
    fun y hMem => by
      obtain rfl | rfl | rfl : y = 0 ∨ y = 1 ∨ y = 2 := by
        simpa [new, sizedSamples, kMaxNumSyncSamplesToScan] using hMem
      · exact ⟨3, rfl⟩
      · exact ⟨9, rfl⟩
      · exact ⟨9, rfl⟩

example : (new sizedSamples).findThumbnailSample sizesFile = some (.ok 1) := by rfl

/-- The loop ends with the largest of the sizes from a sample on, if that is above the one it began
with. -/
theorem maxSize_spec {left i : Nat} (max_size : Nat)
    (hSizes : ∀ j, i ≤ j → j < i + left → ∃ s, HasSize p source j s) :
    ∃ m, maxSize p source left i max_size = some (.ok m) ∧ max_size ≤ m ∧
      (∀ j s, i ≤ j → j < i + left → HasSize p source j s → s ≤ m) ∧
      (m = max_size ∨ ∃ j, i ≤ j ∧ j < i + left ∧ HasSize p source j m) := by
  induction left generalizing i max_size with
  | zero => exact ⟨max_size, rfl, Nat.le_refl _, fun j s hFrom hTo => by omega, Or.inl rfl⟩
  | succ left ih =>
      obtain ⟨s, hSize⟩ := hSizes i (Nat.le_refl i) (by omega)
      have hRead : p.getSampleSizeDirect source i = some (.ok s) := hSize
      have hRest (j) (hFrom : i + 1 ≤ j) (hTo : j < i + 1 + left) :=
        hSizes j (by omega) (by omega)
      obtain ⟨m, hMax, hLe, hAll, hAttained⟩ := ih (max max_size s) hRest
      refine ⟨m, by simp only [maxSize, hRead, hMax], by omega, fun j s' hFrom hTo hs' => ?_,
        ?_⟩
      · by_cases hHere : j = i
        · have hSame := (hHere ▸ hs').unique hSize
          omega
        · exact hAll j s' (by omega) (by omega) hs'
      · rcases hAttained with hSame | ⟨j, hFrom, hTo, hj⟩
        · rcases Nat.le_total s max_size with hLess | hMore
          · exact Or.inl (by omega)
          · have hm : m = s := by omega
            exact Or.inr ⟨i, Nat.le_refl i, by omega, hm ▸ hSize⟩
        · exact Or.inr ⟨j, by omega, by omega, hj⟩

/-- No sample is larger than the size that is told, and one of them has it. -/
theorem getMaxSampleSize_largest (hSome : 0 < t.mNumSampleSizes)
    (hSizes : ∀ j, j < t.mNumSampleSizes → ∃ s, HasSize t.toParams source j s) :
    ∃ m, t.getMaxSampleSize source = some (.ok m) ∧
      (∀ j s, j < t.mNumSampleSizes → HasSize t.toParams source j s → s ≤ m) ∧
      ∃ j, j < t.mNumSampleSizes ∧ HasSize t.toParams source j m := by
  have hFromZero (j) (_ : 0 ≤ j) (hTo : j < 0 + t.mNumSampleSizes) := hSizes j (by omega)
  obtain ⟨m, hMax, -, hAll, hAttained⟩ := maxSize_spec 0 hFromZero
  refine ⟨m, hMax, fun j s hj => hAll j s (Nat.zero_le j) (by omega), ?_⟩
  rcases hAttained with hZero | ⟨j, -, hTo, hj⟩
  · obtain ⟨s, hs⟩ := hSizes 0 hSome
    have hLe := hAll 0 s (Nat.le_refl 0) (by omega) hs
    have hm : m = s := by omega
    exact ⟨0, hSome, hm ▸ hs⟩
  · exact ⟨j, by omega, hj⟩

end Meet.SampleTable
