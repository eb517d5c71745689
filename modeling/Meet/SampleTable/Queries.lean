import Meet.SampleTable.SampleAtTime

/-! What the table answers, in every run of calls from a table that has just been read. -/
namespace Meet.SampleTable

open RunLength Ascending

/-- The calls from outside that change the table. A lock puts them in an order. -/
inductive Query where
  | metaData (source : DataSource) (sampleIndex : Nat) (wantsSync : Bool)
  | atTime (req_time : Nat) (flags : Flag)
  | syncNear (source : DataSource) (start_sample_index : Nat) (flags : Flag)

section Runs

variable (qsort : List SampleTimeEntry → List SampleTimeEntry) (memory : Nat → SampleTimeEntry)

def ask (t : SampleTable) : Query → Option (Status × SampleTable)
  | .metaData source sampleIndex wantsSync =>
      (t.getMetaDataForSample source sampleIndex wantsSync).map fun r => (r.1, r.2.2)
  | .atTime req_time flags =>
      (t.findSampleAtTime qsort memory req_time flags).map fun r => (r.1, r.2.2)
  | .syncNear source start_sample_index flags =>
      (t.findSyncSampleNear source start_sample_index flags).map fun r => (r.1, r.2.2)

def step (t : SampleTable) (query : Query) : Option SampleTable :=
  (t.ask qsort memory query).map Prod.snd

/-- The source delivers what the file holds. A read that fails is of no harm if no sample is cached
afterwards. -/
def Harmless (file : DataSource) (t : SampleTable) (query : Query) : Prop :=
  match query with
  | .atTime _ _ => True
  | .metaData source _ _ | .syncNear source _ _ =>
      source.Delivers file ∧ ∀ status t', t.ask qsort memory query = some (status, t') →
        Failed status → t' = t ∨ t'.mSampleIterator.mInitialized = false

end Runs

variable {p : Params} {source file : DataSource} {t t' : SampleTable} {i : Nat} {status : Status}

/-- What every call keeps, also one whose reads fail. -/
structure Kept (p : Params) (t : SampleTable) : Prop where
  tables : t.toParams = p
  place : Placement t
  entries : EntriesKept t

theorem kept_new (p : Params) : Kept p (new p) where
  tables := rfl
  place := placement_new p
  entries _ hEntries := by cases hEntries

theorem Kept.congr (h : Kept p t) (hTables : SameTables t t') (hPlace : Placement t') :
    Kept p t' where
  tables := hTables.1.trans h.tables
  place := hPlace
  entries := by
    unfold EntriesKept
    rw [hTables.1, hTables.2.1]
    exact h.entries

theorem Kept.syncs (h : Kept p t) : t.mSyncSampleOffset = p.mSyncSampleOffset ∧
    t.mNumSyncSamples = p.mNumSyncSamples ∧ t.mSyncSamples = p.mSyncSamples := by
  obtain rfl := h.tables
  exact ⟨rfl, rfl, rfl⟩

/-- After a call the cache is right, unless a read failed. -/
structure Answered (p : Params) (file : DataSource) (status : Status) (t : SampleTable) : Prop where
  kept : Kept p t
  valid : Failed status ∨ Valid file t

theorem not_failed_ok : ¬ Failed .OK := by
  simp [Failed]

theorem Answered.ok (h : Answered p file .OK t) : Valid file t :=
  h.valid.resolve_left not_failed_ok

theorem answered_seekTo (h : p.WellFormed) (hKept : Kept p t) (hValid : Valid file t)
    (hSource : source.Delivers file) (hSeek : t.seekTo source i = some (status, t')) :
    Answered p file status t' ∧ (status = .OK → Current file t' ∧
      t'.mSampleIterator.mCurrentSampleIndex = i) := by
  obtain rfl := hKept.tables
  have hSought := seekTo_spec h hValid hSource hSeek
  have hKept' := hKept.congr hSought.tables hSought.place
  by_cases hOK : status = .OK
  · obtain ⟨hCurrent, -, hIndex⟩ := hSought.found hOK
    exact ⟨⟨hKept', Or.inr ⟨hSought.place, fun _ => hCurrent⟩⟩, fun _ => ⟨hCurrent, hIndex⟩⟩
  · refine ⟨⟨hKept', ?_⟩, fun h => absurd h hOK⟩
    cases hSought.failed hOK with
    | inl hSame => exact Or.inr (hSame ▸ hValid)
    | inr hFailed => exact Or.inl hFailed.1

/-! ### The data of a sample -/

/-- What is said of a sample is so. -/
structure MetaData.Exact (p : Params) (file : DataSource) (i : Nat) (wantsSync : Bool)
    (m : MetaData) : Prop where
  placed : p.Placed file i m.offset m.size
  shown : i < p.durations.length
  time : m.compositionTime = p.compositionTime i
  sync : m.isSyncSample = true ↔ wantsSync = true ∧ p.IsSync i

/-- The search may begin where the last one ended, or at the first of the sync samples. -/
theorem checkSync_spec (h : t.WellFormed) (i : Nat) : (t.checkSync i).1 = true ↔ t.IsSync i := by
  unfold checkSync Params.IsSync
  by_cases hAll : t.mSyncSampleOffset < 0
  · simp [hAll]
  · have hSearch (start : Nat) (hStart : start ≤ t.mSyncSamples.length)
        (hBelow : ∀ index b, index < start → t.mSyncSamples[index]? = some b → b < i) :
        t.mSyncSamples[firstSync t.mSyncSamples i start]? = some i ↔ i ∈ t.mSyncSamples := by
      have hFirst : firstSync t.mSyncSamples i start = firstFrom t.mSyncSamples i :=
        firstFrom_drop hBelow hStart
      rw [hFirst, getElem?_firstFrom h.syncAscending]
    have hZero := hSearch 0 (Nat.zero_le _) fun index b hIndex => absurd hIndex (Nat.not_lt_zero _)
    rw [if_neg hAll]
    cases hLast : t.mSyncSamples[t.mLastSyncSampleIndex]? with
    | none => simpa [hAll] using hZero
    | some last =>
        by_cases hLe : last ≤ i
        · have hInside := (List.getElem?_eq_some_iff.mp hLast).1
          have hFrom := hSearch t.mLastSyncSampleIndex (Nat.le_of_lt hInside)
            fun index b hLt hGet =>
              Nat.lt_of_lt_of_le (lt_of_getElem? h.syncAscending hLt hGet hLast) hLe
          simpa [hAll, hLe] using hFrom
        · simpa [hAll, hLe] using hZero

theorem Answered.withLastSync (h : Answered p file status t) (index : Nat) :
    Answered p file status { t with mLastSyncSampleIndex := index } where
  kept := ⟨h.kept.tables, ⟨h.kept.place.range, h.kept.place.time, h.kept.place.lookup⟩,
    h.kept.entries⟩
  valid := h.valid.imp_right fun hValid =>
    ⟨⟨hValid.range, hValid.time, hValid.lookup⟩, fun hInit =>
      ⟨(hValid.current hInit).chunk, (hValid.current hInit).placed, (hValid.current hInit).shown,
        (hValid.current hInit).time⟩⟩

/-- The answer of a call whose seek succeeds. -/
theorem getMetaDataForSample_eq (hSeek : t.seekTo source i = some (.OK, t'))
    (wantsSync : Bool) : ∃ index, t.getMetaDataForSample source i wantsSync =
      some (.OK, ⟨t'.mSampleIterator.mCurrentSampleOffset, t'.mSampleIterator.mCurrentSampleSize,
        t'.mSampleIterator.mCurrentSampleTime, wantsSync && (t'.checkSync i).1⟩,
        { t' with mLastSyncSampleIndex := index }) := by
  rw [getMetaDataForSample, hSeek]
  cases wantsSync with
  | true => exact ⟨(t'.checkSync i).2, rfl⟩
  | false => exact ⟨t'.mLastSyncSampleIndex, rfl⟩

theorem answered_metaData (h : p.WellFormed) (hKept : Kept p t) (hValid : Valid file t)
    (hSource : source.Delivers file) {wantsSync : Bool} {m : MetaData}
    (hAsk : t.getMetaDataForSample source i wantsSync = some (status, m, t')) :
    Answered p file status t' ∧ (status = .OK → m.Exact p file i wantsSync) := by
  cases hSeek : t.seekTo source i with
  | none =>
      rw [getMetaDataForSample, hSeek] at hAsk
      cases hAsk
  | some result =>
      obtain ⟨err, sought⟩ := result
      obtain ⟨hAnswered, hFound⟩ := answered_seekTo h hKept hValid hSource hSeek
      by_cases hErr : err = .OK
      · subst hErr
        obtain ⟨index, hAnswer⟩ := getMetaDataForSample_eq hSeek wantsSync
        obtain ⟨hCurrent, rfl⟩ := hFound rfl
        obtain rfl := hAnswered.kept.tables
        rw [hAnswer] at hAsk
        cases hAsk
        refine ⟨hAnswered.withLastSync index, fun _ => ⟨hCurrent.placed, hCurrent.shown,
          hCurrent.time, ?_⟩⟩
        rw [Bool.and_eq_true, checkSync_spec h]
      · have hResult : (err, MetaData.mk 0 0 0 false, sought) = (status, m, t') := by
          rw [getMetaDataForSample, hSeek] at hAsk
          cases err with
          | OK => exact absurd rfl hErr
          | _ => exact Option.some.inj hAsk
        cases hResult
        exact ⟨hAnswered, fun hOK => absurd hOK hErr⟩

/-! ### The sample at a time -/

section AtTime

variable {qsort : List SampleTimeEntry → List SampleTimeEntry} {memory : Nat → SampleTimeEntry}

/-- Searching the entries leaves them as they are. -/
theorem findSampleAtTime_table {req_time : Nat} {flags : Flag}
    (hAsk : t.findSampleAtTime qsort memory req_time flags = some (status, i, t')) :
    t.buildSampleEntriesTable qsort memory = some t' := by
  unfold findSampleAtTime at hAsk
  cases hBuild : t.buildSampleEntriesTable qsort memory with
  | none =>
      rw [hBuild] at hAsk
      cases hAsk
  | some built =>
      simp only [hBuild] at hAsk
      split at hAsk
      · cases hAsk
      · split at hAsk
        · cases hAsk
          rfl
        · split at hAsk
          · cases hAsk
          · split at hAsk
            · cases hAsk
            · cases hAsk
              rfl

theorem kept_atTime (hSorts : Sorts qsort) (h : p.WellFormed) (hKept : Kept p t)
    (hValid : Valid file t) {req_time : Nat} {flags : Flag}
    (hAsk : t.findSampleAtTime qsort memory req_time flags = some (status, i, t')) :
    Kept p t' ∧ Valid file t' := by
  obtain rfl := hKept.tables
  have hTable := findSampleAtTime_table hAsk
  rcases buildSampleEntriesTable_spec hSorts memory h hKept.place.lookup hKept.entries with
    ⟨hBuild, -⟩ | ⟨entries, lookup, hBuild, hLookup, hSmall, hEntries⟩
  · rw [hBuild] at hTable
    cases hTable
  · rw [hBuild] at hTable
    cases hTable
    refine ⟨⟨rfl, ⟨hKept.place.range, hKept.place.time, hLookup⟩, fun built hBuilt => ?_⟩,
      ⟨⟨hValid.range, hValid.time, hLookup⟩, fun hInit => ?_⟩⟩
    · cases hBuilt
      exact ⟨hSmall, hEntries⟩
    · have hCurrent := hValid.current hInit
      exact ⟨hCurrent.chunk, hCurrent.placed, hCurrent.shown, hCurrent.time⟩

end AtTime

/-! ### The sync sample near a sample -/

theorem firstSync_zero (syncSamples : List Nat) (a : Nat) :
    firstSync syncSamples a 0 = firstFrom syncSamples a :=
  firstFrom_drop (fun _ _ hIndex => absurd hIndex (Nat.not_lt_zero _)) (Nat.zero_le _)

/-- Of a sync sample and the next one, the one that is closer to the start sample in time. -/
def Nearer (p : Params) (start_sample_index left x left' : Nat) : Prop :=
  let distance (i : Nat) :=
    abs_difference (p.compositionTime i) (p.compositionTime start_sample_index)
  (left' = left ∧ ∀ y, p.mSyncSamples[left + 1]? = some y → distance x ≤ distance y) ∨
    (left' = left + 1 ∧ ∃ y, p.mSyncSamples[left + 1]? = some y ∧ distance y < distance x)

/-- The first of two seeks of a call succeeded, so the cache is right for the second. -/
theorem seek_ok (h : p.WellFormed) (hKept : Kept p t) (hValid : Valid file t)
    (hSource : source.Delivers file) (hSeek : t.seekTo source i = some (.OK, t')) :
    Kept p t' ∧ Valid file t' ∧ t'.mSampleIterator.mCurrentSampleTime = p.compositionTime i := by
  obtain ⟨hAnswered, hFound⟩ := answered_seekTo h hKept hValid hSource hSeek
  obtain ⟨hCurrent, rfl⟩ := hFound rfl
  refine ⟨hAnswered.kept, hAnswered.ok, ?_⟩
  rw [hCurrent.time, hAnswered.kept.tables]

theorem closestSync_spec (h : p.WellFormed) (hKept : Kept p t) (hValid : Valid file t)
    (hSource : source.Delivers file) {start_sample_index left x left' : Nat}
    (hAsk : t.closestSync source start_sample_index left x = some (status, left', t')) :
    Answered p file status t' ∧ (status = .OK → Nearer p start_sample_index left x left') := by
  have hError {t t' : SampleTable} {i left err} (hKept : Kept p t) (hValid : Valid file t)
      (hSeek : t.seekTo source i = some (err, t')) (hErr : err ≠ .OK) :
      Answered p file err t' ∧ (err = .OK → Nearer p start_sample_index left x left') :=
    ⟨(answered_seekTo h hKept hValid hSource hSeek).1, fun hOK => absurd hOK hErr⟩
  unfold closestSync at hAsk
  rw [hKept.syncs.2.2] at hAsk
  cases hNext : p.mSyncSamples[left + 1]? with
  | none =>
      rw [hNext] at hAsk
      cases hAsk
      exact ⟨⟨hKept, Or.inr hValid⟩, fun _ => Or.inl ⟨rfl, fun y hy => by simp [hNext] at hy⟩⟩
  | some y =>
      simp only [hNext] at hAsk
      split at hAsk
      · rename_i first hFirst
        obtain ⟨hKept, hValid, hStart⟩ := seek_ok h hKept hValid hSource hFirst
        split at hAsk
        · rename_i second hSecond
          obtain ⟨hKept, hValid, hx⟩ := seek_ok h hKept hValid hSource hSecond
          split at hAsk
          · rename_i third hThird
            obtain ⟨hKept, hValid, hy⟩ := seek_ok h hKept hValid hSource hThird
            rw [hStart, hx, hy] at hAsk
            cases hAsk
            refine ⟨⟨hKept, Or.inr hValid⟩, fun _ => ?_⟩
            split_ifs with hFar
            · exact Or.inr ⟨rfl, y, hNext, hFar⟩
            · refine Or.inl ⟨rfl, fun z hz => ?_⟩
              rw [hNext] at hz
              cases hz
              exact Nat.le_of_not_lt hFar
          · rename_i err third hNot hThird
            cases hAsk
            exact hError hKept hValid hThird hNot
          · cases hAsk
        · rename_i err second hNot hSecond
          cases hAsk
          exact hError hKept hValid hSecond hNot
        · cases hAsk
      · rename_i err first hNot hFirst
        cases hAsk
        exact hError hKept hValid hFirst hNot
      · cases hAsk

/-- The last of the sync samples below the start sample, or the first of the others. -/
def Neighbour (p : Params) (start_sample_index s : Nat) : Prop :=
  s ∈ p.mSyncSamples ∧
    ((s < start_sample_index ∧ ∀ u ∈ p.mSyncSamples, u < start_sample_index → u ≤ s) ∨
      (start_sample_index ≤ s ∧ ∀ u ∈ p.mSyncSamples, start_sample_index ≤ u → s ≤ u))

/-- Which of the sync samples is found. -/
def SyncNear (p : Params) (start_sample_index : Nat) : Flag → Nat → Prop
  | .kFlagBefore, x =>
      x ≤ start_sample_index ∧ ∀ s ∈ p.mSyncSamples, s < start_sample_index → s ≤ x
  | .kFlagAfter, x => start_sample_index ≤ x ∧
      ((∃ s ∈ p.mSyncSamples, s < start_sample_index) →
        ∀ s ∈ p.mSyncSamples, start_sample_index ≤ s → x ≤ s)
  | .kFlagClosest, x => ∀ s, Neighbour p start_sample_index s →
      abs_difference (p.compositionTime x) (p.compositionTime start_sample_index) ≤
        abs_difference (p.compositionTime s) (p.compositionTime start_sample_index)

section Places

variable {start_sample_index left x : Nat}

/-- Where the neighbours are. -/
theorem Neighbour.place (h : p.WellFormed) {s : Nat} (hNear : Neighbour p start_sample_index s) :
    ∃ index : Nat, p.mSyncSamples[index]? = some s ∧
      (index = firstFrom p.mSyncSamples start_sample_index - 1 ∨
        index = firstFrom p.mSyncSamples start_sample_index - 1 + 1 ∧
          0 < firstFrom p.mSyncSamples start_sample_index) := by
  obtain ⟨hMem, hSide⟩ := hNear
  obtain ⟨index, hGet⟩ := List.getElem?_of_mem hMem
  have hOrder := h.syncAscending
  have hPlace := lt_firstFrom_iff hOrder (a := start_sample_index) hGet
  have hInside := (List.getElem?_eq_some_iff.mp hGet).1
  have hLength := firstFrom_le p.mSyncSamples start_sample_index
  refine ⟨index, hGet, ?_⟩
  rcases hSide with ⟨hBelow, hLast⟩ | ⟨hFrom, hFirst⟩
  · have hLt := hPlace.mpr hBelow
    refine Or.inl (Nat.le_antisymm (by omega) ?_)
    by_contra hNot
    have hAt := List.getElem?_eq_getElem
      (show firstFrom p.mSyncSamples start_sample_index - 1 < p.mSyncSamples.length by omega)
    have hLater := hLast _ (List.mem_of_getElem? hAt) ((lt_firstFrom_iff hOrder hAt).mp (by omega))
    have hAscends := lt_of_getElem? hOrder (Nat.lt_of_not_le hNot) hGet hAt
    omega
  · have hNotLt : ¬ index < firstFrom p.mSyncSamples start_sample_index :=
      fun hLt => Nat.not_lt_of_le hFrom (hPlace.mp hLt)
    have hSame : index = firstFrom p.mSyncSamples start_sample_index := by
      by_contra hNot
      have hAt := List.getElem?_eq_getElem
        (show firstFrom p.mSyncSamples start_sample_index < p.mSyncSamples.length by omega)
      have hEarlier := hFirst _ (List.mem_of_getElem? hAt) (le_of_firstFrom hAt)
      have hAscends := lt_of_getElem? hOrder (show
        firstFrom p.mSyncSamples start_sample_index < index by omega) hAt hGet
      omega
    omega

/-- The one that is closer in time is no further away than either neighbour. -/
theorem Nearer.closest (h : p.WellFormed) {x' left' : Nat}
    (hx : p.mSyncSamples[firstFrom p.mSyncSamples start_sample_index - 1]? = some x)
    (hNearer : Nearer p start_sample_index
      (firstFrom p.mSyncSamples start_sample_index - 1) x left')
    (hx' : p.mSyncSamples[left']? = some x') : SyncNear p start_sample_index .kFlagClosest x' := by
  intro s hNear
  obtain ⟨index, hGet, hIndex⟩ := hNear.place h
  rcases hNearer with ⟨rfl, hNext⟩ | ⟨rfl, y, hy, hLess⟩
  · rw [hx] at hx'
    cases hx'
    rcases hIndex with rfl | ⟨rfl, -⟩
    · rw [hx] at hGet
      cases hGet
      exact Nat.le_refl _
    · exact hNext s hGet
  · rw [hy] at hx'
    cases hx'
    rcases hIndex with rfl | ⟨rfl, -⟩
    · rw [hx] at hGet
      cases hGet
      exact Nat.le_of_lt hLess
    · rw [hy] at hGet
      cases hGet
      exact Nat.le_refl _

/-- At a place that is not before the last sync sample below the start sample. -/
theorem below_le (h : p.WellFormed) {index s : Nat} (hx : p.mSyncSamples[index]? = some x)
    (hIndex : firstFrom p.mSyncSamples start_sample_index - 1 ≤ index) (hMem : s ∈ p.mSyncSamples)
    (hBelow : s < start_sample_index) : s ≤ x := by
  obtain ⟨j, hGet⟩ := List.getElem?_of_mem hMem
  have hLt := (lt_firstFrom_iff h.syncAscending hGet).mpr hBelow
  exact le_of_getElem? (h.syncAscending.imp Nat.le_of_lt) (by omega) hGet hx

/-- At a place that is not behind the first sync sample from the start sample on. -/
theorem le_from (h : p.WellFormed) {index s : Nat} (hx : p.mSyncSamples[index]? = some x)
    (hIndex : index ≤ firstFrom p.mSyncSamples start_sample_index) (hMem : s ∈ p.mSyncSamples)
    (hFrom : start_sample_index ≤ s) : x ≤ s := by
  obtain ⟨j, hGet⟩ := List.getElem?_of_mem hMem
  have hNot : ¬ j < firstFrom p.mSyncSamples start_sample_index :=
    fun hLt => Nat.not_lt_of_le hFrom (lt_of_lt_firstFrom hLt hGet)
  exact le_of_getElem? (h.syncAscending.imp Nat.le_of_lt) (by omega) hx hGet

theorem Nearer.bounds {left' : Nat} (hNearer : Nearer p start_sample_index left x left') :
    left ≤ left' ∧ left' ≤ left + 1 := by
  rcases hNearer with ⟨rfl, -⟩ | ⟨rfl, -⟩ <;> omega

theorem Nearer.exists_sync {left' : Nat} (hNearer : Nearer p start_sample_index left x left')
    (hx : p.mSyncSamples[left]? = some x) : ∃ y, p.mSyncSamples[left']? = some y := by
  rcases hNearer with ⟨rfl, -⟩ | ⟨rfl, y, hy, -⟩
  · exact ⟨x, hx⟩
  · exact ⟨y, hy⟩

theorem head_le (h : p.WellFormed) {s : Nat} (hx : p.mSyncSamples[0]? = some x)
    (hMem : s ∈ p.mSyncSamples) : x ≤ s := by
  obtain ⟨index, hGet⟩ := List.getElem?_of_mem hMem
  exact le_of_getElem? (h.syncAscending.imp Nat.le_of_lt) (Nat.zero_le index) hx hGet

/-- The branch of `kFlagBefore`: back by one from a sync sample that is behind the start sample. -/
theorem near_before (h : p.WellFormed) {left' y : Nat} (hy : p.mSyncSamples[left']? = some y)
    (hLow : firstFrom p.mSyncSamples start_sample_index - 1 ≤ left')
    (hAsk : (if y ≤ start_sample_index then some (Status.OK, y, t)
      else if left' = 0 then none
      else match p.mSyncSamples[left' - 1]? with
        | none => none
        | some z => if z ≤ start_sample_index then some (.OK, z, t) else none) =
      some (status, x, t')) :
    t = t' ∧ x ∈ p.mSyncSamples ∧ SyncNear p start_sample_index .kFlagBefore x := by
  by_cases hLe : y ≤ start_sample_index
  · rw [if_pos hLe] at hAsk
    cases hAsk
    exact ⟨rfl, List.mem_of_getElem? hy, hLe, fun s => below_le h hy hLow⟩
  · rw [if_neg hLe] at hAsk
    have hBehind : ¬ left' < firstFrom p.mSyncSamples start_sample_index :=
      fun hLt => hLe (Nat.le_of_lt (lt_of_lt_firstFrom hLt hy))
    cases hPrior : p.mSyncSamples[left' - 1]? with
    | none =>
        simp only [hPrior] at hAsk
        split at hAsk <;> cases hAsk
    | some z =>
        simp only [hPrior] at hAsk
        split_ifs at hAsk with hZero hLe'
        cases hAsk
        exact ⟨rfl, List.mem_of_getElem? hPrior, hLe', fun s => below_le h hPrior (by omega)⟩

/-- The branch of `kFlagAfter`: on by one from a sync sample that is before the start sample. -/
theorem near_after (h : p.WellFormed) {left' y : Nat} (hy : p.mSyncSamples[left']? = some y)
    (hHigh : left' ≤ firstFrom p.mSyncSamples start_sample_index - 1 + 1)
    (hAsk : (if start_sample_index ≤ y then some (Status.OK, y, t)
      else match p.mSyncSamples[left' + 1]? with
        | none => some (.ERROR_OUT_OF_RANGE, 0, t)
        | some z => if start_sample_index ≤ z then some (.OK, z, t) else none) =
      some (status, x, t')) :
    t = t' ∧ (status = .OK →
      x ∈ p.mSyncSamples ∧ SyncNear p start_sample_index .kFlagAfter x) := by
  by_cases hLe : start_sample_index ≤ y
  · rw [if_pos hLe] at hAsk
    cases hAsk
    refine ⟨rfl, fun _ => ⟨List.mem_of_getElem? hy, hLe,
      fun ⟨u, hMem, hBelow⟩ s => le_from h hy ?_⟩⟩
    have hPos := firstFrom_pos h.syncAscending hMem hBelow
    omega
  · rw [if_neg hLe] at hAsk
    have hBefore := (lt_firstFrom_iff h.syncAscending hy).mpr (Nat.lt_of_not_le hLe)
    cases hNext : p.mSyncSamples[left' + 1]? with
    | none =>
        simp only [hNext] at hAsk
        cases hAsk
        exact ⟨rfl, fun hOK => by cases hOK⟩
    | some z =>
        simp only [hNext] at hAsk
        split_ifs at hAsk with hLe'
        cases hAsk
        exact ⟨rfl, fun _ => ⟨List.mem_of_getElem? hNext, hLe',
          fun _ s => le_from h hNext hBefore⟩⟩

/-- From the sync sample that is closer in time, the flag leads to the one to be found. -/
theorem findSyncSampleNear_spec (h : p.WellFormed) (hKept : Kept p t) (hValid : Valid file t)
    (hSource : source.Delivers file) {flags : Flag}
    (hAsk : t.findSyncSampleNear source start_sample_index flags = some (status, x, t')) :
    Answered p file status t' ∧ (status = .OK → 0 ≤ p.mSyncSampleOffset →
      0 < p.mNumSyncSamples → x ∈ p.mSyncSamples ∧ SyncNear p start_sample_index flags x) := by
  have hStay (err : Status) : Answered p file err t := ⟨hKept, Or.inr hValid⟩
  obtain ⟨hOffset, hCount, hSyncs⟩ := hKept.syncs
  unfold findSyncSampleNear at hAsk
  rw [hSyncs, hCount, hOffset, firstSync_zero] at hAsk
  by_cases hAll : p.mSyncSampleOffset < 0
  · rw [if_pos hAll] at hAsk
    cases hAsk
    exact ⟨hStay _, fun _ hNot => by omega⟩
  by_cases hNone : p.mNumSyncSamples = 0
  · rw [if_neg hAll, if_pos hNone] at hAsk
    cases hAsk
    exact ⟨hStay _, fun _ _ hSome => by omega⟩
  rw [if_neg hAll, if_neg hNone] at hAsk
  by_cases hEnd : firstFrom p.mSyncSamples start_sample_index = p.mNumSyncSamples ∧
      flags = .kFlagAfter
  · rw [if_pos hEnd] at hAsk
    cases hAsk
    exact ⟨hStay _, fun hOK => by cases hOK⟩
  rw [if_neg hEnd] at hAsk
  cases hx : p.mSyncSamples[firstFrom p.mSyncSamples start_sample_index - 1]? with
  | none =>
      simp only [hx] at hAsk
      cases hAsk
  | some first =>
      simp only [hx] at hAsk
      cases hClosest : t.closestSync source start_sample_index
          (firstFrom p.mSyncSamples start_sample_index - 1) first with
      | none =>
          simp only [hClosest] at hAsk
          cases hAsk
      | some result =>
          obtain ⟨err, left', closest⟩ := result
          obtain ⟨hAnswered, hNear⟩ := closestSync_spec h hKept hValid hSource hClosest
          simp only [hClosest] at hAsk
          by_cases hErr : err = .OK
          · subst hErr
            have hNearer := hNear rfl
            simp only [hAnswered.kept.syncs.2.2] at hAsk
            have hKeeps (err : Status) : Answered p file err closest :=
              ⟨hAnswered.kept, Or.inr hAnswered.ok⟩
            cases hy : p.mSyncSamples[left']? with
            | none =>
                simp only [hy] at hAsk
                cases hAsk
            | some y =>
                simp only [hy] at hAsk
                cases flags with
                | kFlagBefore =>
                    obtain ⟨rfl, hNear⟩ := near_before h hy hNearer.bounds.1 hAsk
                    exact ⟨hKeeps status, fun _ _ _ => hNear⟩
                | kFlagAfter =>
                    obtain ⟨rfl, hNear⟩ := near_after h hy hNearer.bounds.2 hAsk
                    exact ⟨hKeeps status, fun hOK _ _ => hNear hOK⟩
                | kFlagClosest =>
                    cases hAsk
                    exact ⟨hKeeps _, fun _ _ _ => ⟨List.mem_of_getElem? hy,
                      hNearer.closest h hx hy⟩⟩
          · have hResult : (err, 0, closest) = (status, x, t') := by
              cases err with
              | OK => exact absurd rfl hErr
              | _ => exact Option.some.inj hAsk
            cases hResult
            exact ⟨hAnswered, fun hOK => absurd hOK hErr⟩

/-- The tables and the file have a place and a time for the sample. -/
def Readable (p : Params) (file : DataSource) (i : Nat) : Prop :=
  (∃ offset size, p.Placed file i offset size) ∧ i < p.durations.length

theorem seek_readable (h : p.WellFormed) (hTables : isValid p) (hKept : Kept p t)
    (hValid : Valid file t) (hReadable : Readable p file i) :
    ∃ t', t.seekTo file i = some (.OK, t') ∧ Kept p t' ∧ Valid file t' := by
  obtain rfl := hKept.tables
  obtain ⟨⟨offset, size, hPlaced⟩, hShown⟩ := hReadable
  obtain ⟨t', hSeek⟩ := seekTo_complete h hValid hTables hPlaced hShown
  obtain ⟨hKept', hValid', -⟩ := seek_ok h hKept hValid (.refl file) hSeek
  exact ⟨t', hSeek, hKept', hValid'⟩

theorem closestSync_complete (h : p.WellFormed) (hTables : isValid p) (hKept : Kept p t)
    (hValid : Valid file t) (hStart : Readable p file start_sample_index)
    (hSyncs : ∀ s ∈ p.mSyncSamples, Readable p file s) (hx : p.mSyncSamples[left]? = some x) :
    ∃ left' t', t.closestSync file start_sample_index left x = some (.OK, left', t') := by
  unfold closestSync
  rw [hKept.syncs.2.2]
  cases hy : p.mSyncSamples[left + 1]? with
  | none => exact ⟨left, t, rfl⟩
  | some y =>
      obtain ⟨first, hFirst, hKept, hValid⟩ := seek_readable h hTables hKept hValid hStart
      obtain ⟨second, hSecond, hKept, hValid⟩ :=
        seek_readable h hTables hKept hValid (hSyncs x (List.mem_of_getElem? hx))
      obtain ⟨third, hThird, -⟩ :=
        seek_readable h hTables hKept hValid (hSyncs y (List.mem_of_getElem? hy))
      simp only [hFirst, hSecond, hThird]
      exact ⟨_, _, rfl⟩

/-- With all samples at hand, there is no answer only where all sync samples are before the start
sample, and the call aborts only where all are behind it. -/
theorem findSyncSampleNear_complete (h : p.WellFormed) (hTables : isValid p) (hKept : Kept p t)
    (hValid : Valid file t) (hStart : Readable p file start_sample_index)
    (hReadable : ∀ s ∈ p.mSyncSamples, Readable p file s) (hOffset : 0 ≤ p.mSyncSampleOffset)
    (hSome : 0 < p.mNumSyncSamples) (flags : Flag) :
    (∃ x t', t.findSyncSampleNear file start_sample_index flags = some (.OK, x, t')) ∨
      (t.findSyncSampleNear file start_sample_index flags = some (.ERROR_OUT_OF_RANGE, 0, t) ∧
        flags = .kFlagAfter ∧ ∀ s ∈ p.mSyncSamples, s < start_sample_index) ∨
      (t.findSyncSampleNear file start_sample_index flags = none ∧
        flags = .kFlagBefore ∧ ∀ s ∈ p.mSyncSamples, start_sample_index < s) := by
  obtain ⟨hOffset', hCount, hSyncs⟩ := hKept.syncs
  have hLength := firstFrom_le p.mSyncSamples start_sample_index
  have hNum := h.syncs
  unfold findSyncSampleNear
  rw [hSyncs, hCount, hOffset', firstSync_zero, if_neg (by omega), if_neg (by omega)]
  by_cases hEnd : firstFrom p.mSyncSamples start_sample_index = p.mNumSyncSamples ∧
      flags = .kFlagAfter
  · refine Or.inr (Or.inl ⟨if_pos hEnd, hEnd.2, fun s hMem => ?_⟩)
    obtain ⟨index, hGet⟩ := List.getElem?_of_mem hMem
    have hInside := (List.getElem?_eq_some_iff.mp hGet).1
    exact lt_of_lt_firstFrom (by omega) hGet
  rw [if_neg hEnd]
  obtain ⟨first, hx⟩ : ∃ first,
      p.mSyncSamples[firstFrom p.mSyncSamples start_sample_index - 1]? = some first :=
    ⟨_, List.getElem?_eq_getElem (by omega)⟩
  obtain ⟨left', closest, hClosest⟩ :=
    closestSync_complete h hTables hKept hValid hStart hReadable hx
  obtain ⟨hAnswered, hNear⟩ := closestSync_spec h hKept hValid (.refl file) hClosest
  have hBounds := (hNear rfl).bounds
  obtain ⟨y, hy⟩ := (hNear rfl).exists_sync hx
  simp only [hx, hClosest, hAnswered.kept.syncs.2.2, hy]
  have hInside := (List.getElem?_eq_some_iff.mp hy).1
  cases flags with
  | kFlagBefore =>
      by_cases hLe : y ≤ start_sample_index
      · exact Or.inl ⟨y, closest, if_pos hLe⟩
      · rw [if_neg hLe]
        by_cases hZero : left' = 0
        · refine Or.inr (Or.inr ⟨if_pos hZero, rfl, fun s hMem => ?_⟩)
          have hFirstLe := head_le h (hZero ▸ hy) hMem
          omega
        · obtain ⟨z, hz⟩ : ∃ z, p.mSyncSamples[left' - 1]? = some z :=
            ⟨_, List.getElem?_eq_getElem (by omega)⟩
          rw [if_neg hZero]
          simp only [hz]
          by_cases hLe' : z ≤ start_sample_index
          · exact Or.inl ⟨z, closest, if_pos hLe'⟩
          · refine Or.inr (Or.inr ⟨if_neg hLe', trivial, fun s hMem => ?_⟩)
            have hNot := mt (fun hLt => Nat.le_of_lt (lt_of_lt_firstFrom hLt hz)) hLe'
            have hPlace : left' - 1 = 0 := by omega
            have hFirstLe := head_le h (hPlace ▸ hz) hMem
            omega
  | kFlagAfter =>
      by_cases hLe : start_sample_index ≤ y
      · exact Or.inl ⟨y, closest, if_pos hLe⟩
      · have hBefore := (lt_firstFrom_iff h.syncAscending hy).mpr (Nat.lt_of_not_le hLe)
        obtain ⟨z, hz⟩ : ∃ z, p.mSyncSamples[left' + 1]? = some z := by
          refine ⟨_, List.getElem?_eq_getElem ?_⟩
          have hNotAll : firstFrom p.mSyncSamples start_sample_index ≠ p.mNumSyncSamples :=
            fun hAll => hEnd ⟨hAll, rfl⟩
          omega
        have hFrom : start_sample_index ≤ z := by
          have hNot := mt (lt_firstFrom_iff h.syncAscending hz).mpr
            (show ¬ left' + 1 < firstFrom p.mSyncSamples start_sample_index by omega)
          omega
        rw [if_neg hLe]
        simp only [hz]
        exact Or.inl ⟨z, closest, if_pos hFrom⟩
  | kFlagClosest => exact Or.inl ⟨y, closest, rfl⟩

end Places

/-! ### Three samples in one chunk -/

/-- The last of them may have no time. -/
def threeSamples (shown : Nat) : Params where
  mChunkOffsetOffset := 0
  mChunkOffsetType := kChunkOffsetType32
  mNumChunkOffsets := 1
  mSampleToChunkOffset := 0
  mNumSampleToChunkOffsets := 1
  mSampleToChunkEntries := [⟨0, 3, 1⟩]
  mSampleSizeOffset := 0
  mSampleSizeFieldSize := 32
  mDefaultSampleSize := 4
  mNumSampleSizes := 3
  mTimeToSampleCount := 1
  mTimeToSample := some [shown, 10]
  mCompositionTimeDeltaEntries := none
  mNumCompositionTimeDeltaEntries := 0
  mSyncSampleOffset := 0
  mNumSyncSamples := 2
  mSyncSamples := [0, 2]

def onesFile : DataSource where
  readAt _ size := List.replicate size 1
  length_readAt _ _ := by simp

theorem wellFormed_threeSamples {shown : Nat} (hShown : shown < 2 ^ 32) :
    (threeSamples shown).WellFormed where
  samples := (by decide : 3 < 2 ^ 32)
  entries := rfl
  ascending := by simp [threeSamples]
  starts entry hMem := by
    obtain rfl : entry = ⟨0, 3, 1⟩ := by simpa [threeSamples] using hMem
    exact Nat.two_pow_pos 32
  chunks entry hMem := by
    obtain rfl : entry = ⟨0, 3, 1⟩ := by simpa [threeSamples] using hMem
    exact (by decide : 0 + 3 < 2 ^ 32)
  times := ⟨_, rfl, rfl⟩
  timeCount := (by decide : 1 < 2 ^ 31)
  timeTotal := hShown
  offsets numbers hNumbers := by cases hNumbers
  offsetCount := Nat.two_pow_pos 31
  offsetTotal := Nat.two_pow_pos 32
  syncs := rfl
  syncAscending := by simp [threeSamples]

theorem placed_threeSamples (shown : Nat) :
    (threeSamples shown).Placed onesFile 2 16843017 4 := by
  refine ⟨0, 16843009, [4, 4, 4], ⟨rfl, rfl, fun j size hGet => ?_⟩, Nat.zero_le _, rfl, rfl⟩
  match j, hGet with
  | 0, hGet | 1, hGet | 2, hGet =>
      cases hGet
      rfl

def sortEntries (entries : List SampleTimeEntry) : List SampleTimeEntry :=
  entries.mergeSort fun a b => a.mCompositionTime ≤ b.mCompositionTime

theorem sorts_sortEntries : Sorts sortEntries where
  perm entries := List.mergeSort_perm entries _
  ordered entries := by
    have hTrans (a b c : SampleTimeEntry)
        (hab : decide (a.mCompositionTime ≤ b.mCompositionTime) = true)
        (hbc : decide (b.mCompositionTime ≤ c.mCompositionTime) = true) :
        decide (a.mCompositionTime ≤ c.mCompositionTime) = true := by
      simp only [decide_eq_true_eq] at hab hbc ⊢
      exact Nat.le_trans hab hbc
    have hTotal (a b : SampleTimeEntry) : (decide (a.mCompositionTime ≤ b.mCompositionTime) ||
        decide (b.mCompositionTime ≤ a.mCompositionTime)) = true := by
      simpa using Nat.le_total a.mCompositionTime b.mCompositionTime
    simpa [sortEntries] using List.pairwise_mergeSort hTrans hTotal entries

/-! ### Runs -/

section Run

variable {qsort : List SampleTimeEntry → List SampleTimeEntry} {memory : Nat → SampleTimeEntry}
  {query : Query} {queries : List Query}

/-- A cache that a failed read may have left behind is right if nothing changed or none is there. -/
theorem Answered.valid_of (h : Answered p file status t') (hValid : Valid file t)
    (hHarmless : Failed status → t' = t ∨ t'.mSampleIterator.mInitialized = false) :
    Valid file t' := by
  rcases h.valid with hFailed | hValid'
  · rcases hHarmless hFailed with hSame | hEmpty
    · exact hSame ▸ hValid
    · exact ⟨h.kept.place, fun hInit => by simp [hEmpty] at hInit⟩
  · exact hValid'

theorem kept_step (hSorts : Sorts qsort) (h : p.WellFormed) (hKept : Kept p t)
    (hValid : Valid file t) (hHarmless : Harmless qsort memory file t query)
    (hStep : t.step qsort memory query = some t') : Kept p t' ∧ Valid file t' := by
  obtain ⟨⟨status, after⟩, hAsk, rfl⟩ := Option.map_eq_some_iff.mp hStep
  cases query with
  | metaData source i wantsSync =>
      obtain ⟨⟨err, m, after'⟩, hMeta, hEq⟩ := Option.map_eq_some_iff.mp hAsk
      cases hEq
      have hAnswered := (answered_metaData h hKept hValid hHarmless.1 hMeta).1
      exact ⟨hAnswered.kept, hAnswered.valid_of hValid (hHarmless.2 _ _ hAsk)⟩
  | atTime req_time flags =>
      obtain ⟨⟨err, i, after'⟩, hAtTime, hEq⟩ := Option.map_eq_some_iff.mp hAsk
      cases hEq
      exact kept_atTime hSorts h hKept hValid hAtTime
  | syncNear source start_sample_index flags =>
      obtain ⟨⟨err, i, after'⟩, hNear, hEq⟩ := Option.map_eq_some_iff.mp hAsk
      cases hEq
      have hAnswered := (findSyncSampleNear_spec h hKept hValid hHarmless.1 hNear).1
      exact ⟨hAnswered.kept, hAnswered.valid_of hValid (hHarmless.2 _ _ hAsk)⟩

theorem kept_run (hSorts : Sorts qsort) (h : p.WellFormed)
    (run : Run (step qsort memory) (Harmless qsort memory file) (new p) queries t) :
    Kept p t ∧ Valid file t :=
  run.invariant ⟨kept_new p, valid_new p file⟩ fun _ _ _ hBefore hHarmless hStep =>
    kept_step hSorts h hBefore.1 hBefore.2 hHarmless hStep

/-- What is left after one question. -/
def threeAsked (shown : Nat) : SampleTable :=
  { new (threeSamples shown) with
    mLastSyncSampleIndex := 1
    mSampleIterator := ⟨true, 1, 0, 0, shown, 10, 1, 0, 0, 2 ^ 32 - 1, 2 ^ 32 - 1, 3, 1, 0,
      16843009, [4, 4, 4], 1, 16843013, 4, 10⟩ }

theorem run_threeAsked {shown : Nat} (hAsk : (new (threeSamples shown)).ask sortEntries
      (fun _ => ⟨0, 0⟩) (.metaData onesFile 1 true) = some (.OK, threeAsked shown)) :
    Run (step sortEntries fun _ => ⟨0, 0⟩) (Harmless sortEntries (fun _ => ⟨0, 0⟩) onesFile)
      (new (threeSamples shown)) [.metaData onesFile 1 true] (threeAsked shown) := by
  refine Run.single ⟨.refl _, fun status t' hAsk' hFailed => ?_⟩ (congrArg _ hAsk)
  rw [hAsk] at hAsk'
  cases hAsk'
  exact absurd hFailed not_failed_ok

/-- Whatever was asked before, what is said of a sample is so, and each sample that the tables and
the file place is found. -/
theorem metaData_exact (hSorts : Sorts qsort) (h : p.WellFormed)
    (run : Run (step qsort memory) (Harmless qsort memory file) (new p) queries t) :
    (∀ source i wantsSync m t', source.Delivers file →
        t.getMetaDataForSample source i wantsSync = some (.OK, m, t') →
          m.Exact p file i wantsSync) ∧
      (isValid p → ∀ i wantsSync, Readable p file i →
        ∃ m t', t.getMetaDataForSample file i wantsSync = some (.OK, m, t')) := by
  obtain ⟨hKept, hValid⟩ := kept_run hSorts h run
  constructor
  · intro source i wantsSync m t' hSource hAsk
    exact (answered_metaData h hKept hValid hSource hAsk).2 rfl
  · intro hTables i wantsSync hReadable
    obtain ⟨sought, hSeek, -⟩ := seek_readable h hTables hKept hValid hReadable
    obtain ⟨index, hAnswer⟩ := getMetaDataForSample_eq hSeek wantsSync
    exact ⟨_, _, hAnswer⟩

theorem metaData_exact_threeSamples :
    MetaData.Exact (threeSamples 3) onesFile 2 true ⟨16843017, 4, 20, true⟩ :=
  (metaData_exact sorts_sortEntries (wellFormed_threeSamples (by decide))
    (run_threeAsked (by decide))).1 onesFile 2 true _ _
    (.refl _) rfl

/-- Whatever was asked before, the search by time finds a sample as the flag asks. -/
theorem sampleAtTime_found (hSorts : Sorts qsort) (h : p.WellFormed)
    (run : Run (step qsort memory) (Harmless qsort memory file) (new p) queries t)
    (hCovered : p.mNumSampleSizes ≤ p.durations.length) (hPos : 0 < p.mNumSampleSizes)
    (hSmall : 8 * p.mNumSampleSizes < 2 ^ 32) (req_time : Nat) (flags : Flag) :
    ∃ status i t', t.findSampleAtTime qsort memory req_time flags = some (status, i, t') ∧
      (status = .OK ∧ i < p.mNumSampleSizes ∧ AtTime p req_time flags i ∨
        status = .ERROR_OUT_OF_RANGE ∧ flags = .kFlagAfter ∧
          ∀ j, j < p.mNumSampleSizes → p.compositionTime j < req_time) := by
  obtain ⟨hKept, -⟩ := kept_run hSorts h run
  obtain rfl := hKept.tables
  exact findSampleAtTime_spec hSorts memory h hKept.place.lookup hKept.entries hCovered hPos hSmall
    flags

theorem sampleAtTime_found_threeSamples :
    ∃ status i t', (threeAsked 3).findSampleAtTime sortEntries (fun _ => ⟨0, 0⟩) 13 .kFlagAfter =
        some (status, i, t') ∧
      (status = .OK ∧ i < (threeSamples 3).mNumSampleSizes ∧
          AtTime (threeSamples 3) 13 .kFlagAfter i ∨
        status = .ERROR_OUT_OF_RANGE ∧ Flag.kFlagAfter = .kFlagAfter ∧
          ∀ j, j < (threeSamples 3).mNumSampleSizes → (threeSamples 3).compositionTime j < 13) :=
  sampleAtTime_found sorts_sortEntries (wellFormed_threeSamples (by decide))
    (run_threeAsked (by decide)) (by decide)
    (by decide) (by decide) 13 .kFlagAfter

/-- Whatever was asked before, the sync sample that is found is the one the flag asks for. With all
of them at hand, there is none only where all are before the start sample, and the call aborts only
where all are behind it. -/
theorem syncSample_near (hSorts : Sorts qsort) (h : p.WellFormed)
    (run : Run (step qsort memory) (Harmless qsort memory file) (new p) queries t)
    (hOffset : 0 ≤ p.mSyncSampleOffset) (hSome : 0 < p.mNumSyncSamples) (start_sample_index : Nat)
    (flags : Flag) :
    (∀ source x t', source.Delivers file →
        t.findSyncSampleNear source start_sample_index flags = some (.OK, x, t') →
          x ∈ p.mSyncSamples ∧ SyncNear p start_sample_index flags x) ∧
      (isValid p → Readable p file start_sample_index →
        (∀ s ∈ p.mSyncSamples, Readable p file s) →
          (∃ x t', t.findSyncSampleNear file start_sample_index flags = some (.OK, x, t')) ∨
          (t.findSyncSampleNear file start_sample_index flags =
              some (.ERROR_OUT_OF_RANGE, 0, t) ∧
            flags = .kFlagAfter ∧ ∀ s ∈ p.mSyncSamples, s < start_sample_index) ∨
          (t.findSyncSampleNear file start_sample_index flags = none ∧
            flags = .kFlagBefore ∧ ∀ s ∈ p.mSyncSamples, start_sample_index < s)) := by
  obtain ⟨hKept, hValid⟩ := kept_run hSorts h run
  constructor
  · intro source x t' hSource hAsk
    exact (findSyncSampleNear_spec h hKept hValid hSource hAsk).2 rfl hOffset hSome
  · intro hTables hStart hReadable
    exact findSyncSampleNear_complete h hTables hKept hValid hStart hReadable hOffset hSome flags

theorem syncSample_near_threeSamples :
    0 ∈ (threeSamples 3).mSyncSamples ∧ SyncNear (threeSamples 3) 1 .kFlagBefore 0 :=
  (syncSample_near sorts_sortEntries (wellFormed_threeSamples (by decide))
    (run_threeAsked (by decide)) (by decide) (by decide)
    1 .kFlagBefore).1 onesFile 0 _ (.refl _) rfl

/-- A sample without a time leaves its place behind. It is then given out as that of the sample that
was asked for before. -/
theorem stale_place (hSorts : Sorts qsort) (h : p.WellFormed)
    (run : Run (step qsort memory) (Harmless qsort memory file) (new p) queries t)
    (hTables : isValid p) (hInit : t.mSampleIterator.mInitialized = true) {offset : Int}
    {size : Nat} (hPlaced : p.Placed file i offset size) (hTimeless : p.durations.length ≤ i)
    (wantsSync again : Bool) :
    ∃ t', t.getMetaDataForSample file i wantsSync =
        some (.ERROR_OUT_OF_RANGE, ⟨0, 0, 0, false⟩, t') ∧
      ∃ m t'', t'.getMetaDataForSample file t.mSampleIterator.mCurrentSampleIndex again =
        some (.OK, m, t'') ∧ p.Placed file i m.offset m.size := by
  obtain ⟨hKept, hValid⟩ := kept_run hSorts h run
  obtain rfl := hKept.tables
  obtain ⟨t', hSeek, hSame, hPlaced', hInit', hIndex⟩ :=
    seekTo_timeless h hValid hTables hInit hPlaced hTimeless
  have hCurrent := hValid.current hInit
  have hAgain : t'.seekTo file t.mSampleIterator.mCurrentSampleIndex = some (.OK, t') := by
    rw [seekTo, hSame, if_neg (Nat.not_le_of_lt hCurrent.placed.lt),
      if_neg (not_missing hTables hCurrent.shown), if_pos ⟨hInit', hIndex⟩]
  obtain ⟨index, hAnswer⟩ := getMetaDataForSample_eq hAgain again
  refine ⟨t', ?_, _, _, hAnswer, hPlaced'⟩
  rw [getMetaDataForSample, hSeek]

theorem stale_place_threeSamples :
    ∃ t', (threeAsked 2).getMetaDataForSample onesFile 2 true =
        some (.ERROR_OUT_OF_RANGE, ⟨0, 0, 0, false⟩, t') ∧
      ∃ m t'', t'.getMetaDataForSample onesFile 1 false = some (.OK, m, t'') ∧
        (threeSamples 2).Placed onesFile 2 m.offset m.size :=
  stale_place sorts_sortEntries (wellFormed_threeSamples (by decide)) (run_threeAsked (by decide))
    ⟨by decide, by decide, by decide, by simp [threeSamples]⟩ rfl (placed_threeSamples 2)
    (by decide) true false

end Run

end Meet.SampleTable
