import Meet.SampleTable.Basic
import Meet.Common.RunLength

/-! What the tables of a track say of each sample, with no regard to how it is looked up. -/
namespace Meet.SampleTable

open RunLength

/-- The runs in a list of counts and values, in turn. -/
def runsOf (numbers : List Nat) (count : Nat) : List (Nat × Nat) :=
  (List.range count).map fun index => (numbers.getD (2 * index) 0, numbers.getD (2 * index + 1) 0)

namespace Params

variable (p : Params)

def timeRuns : List (Nat × Nat) :=
  runsOf (p.mTimeToSample.getD []) p.mTimeToSampleCount

def offsetRuns : List (Nat × Nat) :=
  match p.mCompositionTimeDeltaEntries with
  | none => []
  | some deltaEntries => runsOf deltaEntries p.mNumCompositionTimeDeltaEntries

/-- How long each sample is shown. -/
def durations : List Nat := expand p.timeRuns

/-- The time between the decoding of a sample and its composition. -/
def compositionOffset (i : Nat) : Nat := (expand p.offsetRuns)[i]?.getD 0

def compositionTime (i : Nat) : Nat :=
  u32 ((p.durations.take i).sum + p.compositionOffset i)

/-- The last entry that starts no later than the chunk says how many samples it has. -/
def samplesIn (chunk : Nat) : Nat :=
  match (p.mSampleToChunkEntries.filter fun entry => entry.startChunk ≤ chunk).getLast? with
  | none => 0
  | some entry => entry.samplesPerChunk

/-- The number of samples in the chunks before the given one. -/
def firstSample : Nat → Nat
  | 0 => 0
  | chunk + 1 => firstSample chunk + p.samplesIn chunk

/-- A sample is a sync sample if it is in the table of them, or if there is no such table. -/
def IsSync (i : Nat) : Prop := p.mSyncSampleOffset < 0 ∨ i ∈ p.mSyncSamples

/-- The tables have the lengths that go with them, the chunks of the entries go up, and no number
of samples or chunks leaves the range of `uint32_t`. -/
structure WellFormed : Prop where
  samples : p.mNumSampleSizes < 2 ^ 32
  entries : p.mSampleToChunkEntries.length = p.mNumSampleToChunkOffsets
  ascending : p.mSampleToChunkEntries.Pairwise fun a b => a.startChunk < b.startChunk
  starts : ∀ entry ∈ p.mSampleToChunkEntries, p.firstSample entry.startChunk < 2 ^ 32
  chunks : ∀ entry ∈ p.mSampleToChunkEntries, entry.startChunk + p.mNumSampleSizes < 2 ^ 32
  times : ∃ numbers, p.mTimeToSample = some numbers ∧ numbers.length = 2 * p.mTimeToSampleCount
  timeCount : p.mTimeToSampleCount < 2 ^ 31
  timeTotal : total p.timeRuns < 2 ^ 32
  offsets : ∀ numbers, p.mCompositionTimeDeltaEntries = some numbers →
    numbers.length = 2 * p.mNumCompositionTimeDeltaEntries
  offsetCount : p.mNumCompositionTimeDeltaEntries < 2 ^ 31
  offsetTotal : total p.offsetRuns < 2 ^ 32
  syncs : p.mSyncSamples.length = p.mNumSyncSamples
  syncAscending : p.mSyncSamples.Pairwise (· < ·)

/-- A chunk as it is read from the file: where it begins, and the sizes of its samples. -/
structure ChunkRead (file : DataSource) (chunk : Nat) (base : Int) (sizes : List Nat) : Prop where
  base : p.getChunkOffset file chunk = some (.ok base)
  length : sizes.length = p.samplesIn chunk
  sizes : ∀ j size, sizes[j]? = some size →
    p.getSampleSizeDirect file (p.firstSample chunk + j) = some (.ok size)

/-- The sample is behind the samples before it in its chunk. -/
def Placed (file : DataSource) (i : Nat) (offset : Int) (size : Nat) : Prop :=
  ∃ chunk base sizes, p.ChunkRead file chunk base sizes ∧ p.firstSample chunk ≤ i ∧
    offset = base + ((sizes.take (i - p.firstSample chunk)).sum : Nat) ∧
    sizes[i - p.firstSample chunk]? = some size

end Params

/-! ### Runs -/

theorem length_runsOf (numbers : List Nat) (count : Nat) :
    (runsOf numbers count).length = count := by
  simp [runsOf]

theorem getElem?_runsOf {numbers : List Nat} {count index : Nat} (h : index < count) :
    (runsOf numbers count)[index]? =
      some (numbers.getD (2 * index) 0, numbers.getD (2 * index + 1) 0) := by
  simp [runsOf, h]

/-- The numbers of a run, from a table that is complete. -/
theorem exists_numbers {numbers : List Nat} {count index : Nat}
    (hLength : numbers.length = 2 * count) (hCount : count < 2 ^ 31) (h : index < count) :
    ∃ run, (runsOf numbers count)[index]? = some run ∧
      numbers[u32 (2 * index)]? = some run.1 ∧ numbers[u32 (2 * index + 1)]? = some run.2 := by
  have hFirst : 2 * index < numbers.length := by omega
  have hSecond : 2 * index + 1 < numbers.length := by omega
  refine ⟨_, getElem?_runsOf h, ?_, ?_⟩
  · rw [u32_of_lt (by omega)]
    simp [List.getElem?_eq_getElem hFirst]
  · rw [u32_of_lt (by omega)]
    simp [List.getElem?_eq_getElem hSecond]

/-! ### Chunks -/

namespace Params

variable {p : Params}

theorem firstSample_mono {c d : Nat} (h : c ≤ d) : p.firstSample c ≤ p.firstSample d := by
  induction h with
  | refl => exact Nat.le_refl _
  | step _ ih => exact Nat.le_trans ih (Nat.le_add_right _ _)

/-- The chunks from one entry to the next have as many samples as the entry says. -/
theorem samplesIn_eq (h : p.WellFormed) {index chunk : Nat} {entry : SampleToChunkEntry}
    (hEntry : p.mSampleToChunkEntries[index]? = some entry) (hFrom : entry.startChunk ≤ chunk)
    (hUntil : ∀ next, p.mSampleToChunkEntries[index + 1]? = some next →
      chunk < next.startChunk) : p.samplesIn chunk = entry.samplesPerChunk := by
  have hSplit := split_at hEntry
  have hOrder := h.ascending
  rw [hSplit, List.pairwise_append, List.pairwise_cons] at hOrder
  obtain ⟨-, ⟨hBehind, hBack⟩, hAcross⟩ := hOrder
  have hFront : (p.mSampleToChunkEntries.take index).filter
      (fun entry => entry.startChunk ≤ chunk) = p.mSampleToChunkEntries.take index := by
    rw [List.filter_eq_self]
    intro earlier hMem
    have hLt := hAcross earlier hMem entry (List.mem_cons_self)
    exact decide_eq_true (by omega)
  have hRest : (p.mSampleToChunkEntries.drop (index + 1)).filter
      (fun entry => entry.startChunk ≤ chunk) = [] := by
    rw [List.filter_eq_nil_iff]
    intro later hMem
    have hNext : chunk < later.startChunk := by
      cases hDrop : p.mSampleToChunkEntries.drop (index + 1) with
      | nil => simp [hDrop] at hMem
      | cons next more =>
          have hGet : p.mSampleToChunkEntries[index + 1]? = some next := by
            rw [← List.head?_drop, hDrop, List.head?_cons]
          rw [hDrop] at hMem hBack
          cases List.mem_cons.mp hMem with
          | inl hHead => exact hHead ▸ hUntil next hGet
          | inr hMore =>
              exact Nat.lt_trans (hUntil next hGet) ((List.pairwise_cons.mp hBack).1 later hMore)
    simpa using hNext
  unfold samplesIn
  rw [hSplit, List.filter_append, hFront, List.filter_cons, if_pos (by simpa using hFrom), hRest,
    List.getLast?_append]
  rfl

/-- Where a chunk begins that lies between two entries. -/
theorem firstSample_eq (h : p.WellFormed) {index : Nat} {entry : SampleToChunkEntry}
    (hEntry : p.mSampleToChunkEntries[index]? = some entry) (ahead : Nat)
    (hUntil : ∀ next, p.mSampleToChunkEntries[index + 1]? = some next →
      entry.startChunk + ahead ≤ next.startChunk) :
    p.firstSample (entry.startChunk + ahead) =
      p.firstSample entry.startChunk + ahead * entry.samplesPerChunk := by
  induction ahead with
  | zero => simp
  | succ ahead ih =>
      have hBefore (next) (hNext : p.mSampleToChunkEntries[index + 1]? = some next) :
          entry.startChunk + ahead < next.startChunk := hUntil next hNext
      have hPrior := ih fun next hNext => Nat.le_of_lt (hBefore next hNext)
      rw [← Nat.add_assoc, firstSample, hPrior,
        samplesIn_eq h hEntry (Nat.le_add_right _ _) hBefore, Nat.succ_mul, Nat.add_assoc]

theorem WellFormed.lt_next (h : p.WellFormed) {index : Nat} {entry next : SampleToChunkEntry}
    (hEntry : p.mSampleToChunkEntries[index]? = some entry)
    (hNext : p.mSampleToChunkEntries[index + 1]? = some next) :
    entry.startChunk < next.startChunk := by
  obtain ⟨hIndex, rfl⟩ := List.getElem?_eq_some_iff.mp hEntry
  obtain ⟨hIndex', rfl⟩ := List.getElem?_eq_some_iff.mp hNext
  exact List.pairwise_iff_getElem.mp h.ascending _ _ hIndex hIndex' (Nat.lt_succ_self _)

theorem firstSample_next (h : p.WellFormed) {index : Nat} {entry next : SampleToChunkEntry}
    (hEntry : p.mSampleToChunkEntries[index]? = some entry)
    (hNext : p.mSampleToChunkEntries[index + 1]? = some next) :
    p.firstSample next.startChunk = p.firstSample entry.startChunk +
      (next.startChunk - entry.startChunk) * entry.samplesPerChunk := by
  have hLt := h.lt_next hEntry hNext
  have hAhead : entry.startChunk + (next.startChunk - entry.startChunk) = next.startChunk := by
    omega
  rw [← firstSample_eq h hEntry, hAhead]
  intro other hOther
  rw [hNext] at hOther
  cases hOther
  omega

/-- No samples are before the first entry. -/
theorem firstSample_head (h : p.WellFormed) {entry : SampleToChunkEntry}
    (hEntry : p.mSampleToChunkEntries[0]? = some entry) {chunk : Nat}
    (hChunk : chunk ≤ entry.startChunk) : p.firstSample chunk = 0 := by
  induction chunk with
  | zero => rfl
  | succ chunk ih =>
      have hNone : p.mSampleToChunkEntries.filter (fun entry => entry.startChunk ≤ chunk) = [] := by
        rw [List.filter_eq_nil_iff]
        intro later hMem
        cases hEntries : p.mSampleToChunkEntries with
        | nil => simp [hEntries] at hMem
        | cons first rest =>
            have hOrder := h.ascending
            rw [hEntries] at hEntry hMem hOrder
            obtain rfl : first = entry := by simpa using hEntry
            cases List.mem_cons.mp hMem with
            | inl hHead => simp [hHead]; omega
            | inr hRest =>
                have hLt := (List.pairwise_cons.mp hOrder).1 later hRest
                simp
                omega
      rw [firstSample, ih (by omega), samplesIn, hNone]
      rfl

/-- Two chunks that both hold a sample are the same. -/
theorem chunk_unique {c d i : Nat} (hFrom : p.firstSample c ≤ i)
    (hUntil : i < p.firstSample (c + 1)) (hFrom' : p.firstSample d ≤ i)
    (hUntil' : i < p.firstSample (d + 1)) : c = d := by
  rcases Nat.lt_trichotomy c d with hLt | hEq | hGt
  · have hMono : p.firstSample (c + 1) ≤ p.firstSample d := firstSample_mono hLt
    omega
  · exact hEq
  · have hMono : p.firstSample (d + 1) ≤ p.firstSample c := firstSample_mono hGt
    omega

end Params

end Meet.SampleTable
