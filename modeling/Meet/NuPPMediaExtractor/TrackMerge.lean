import Meet.Common.Merge
import Meet.NuPPMediaExtractor.Basic

/-! The selected tracks are merged by time. What is left of a track is its held
sample followed by what its source still delivers; every accessor answers for
the least head of these queues, and only `advance` takes it. -/
namespace Meet.NuPPMediaExtractor

/-- What is left of a track. -/
def queue (info : TrackInfo TrackSource Payload) : List Payload :=
  info.mSample.toList ++ info.mSource.samples

def queues (n : NuPPMediaExtractor) : List (List Payload) := n.mSelectedTracks.map queue

def trackIndices (n : NuPPMediaExtractor) : List Nat := n.mSelectedTracks.map TrackInfo.mTrackIndex

/-- An entry that has failed has nothing left, and the time of a held sample
is in the entry. -/
structure Coherent (info : TrackInfo TrackSource Payload) : Prop where
  failed : info.mFinalResult ≠ .ok → queue info = []
  time : ∀ sample, info.mSample = some sample → info.mSampleTimeUs = sample.frameTime

/-- After its turn in `fetchTrackSamples`, an entry has failed or holds its
next sample. -/
structure Fetched (info : TrackInfo TrackSource Payload) : Prop extends Coherent info where
  held : info.mFinalResult = .ok → ∃ sample, info.mSample = some sample

theorem Coherent.selected (source : TrackSource) (index : Nat) :
    Coherent (TrackInfo.selected source index) :=
  ⟨by simp [TrackInfo.selected], by simp [TrackInfo.selected]⟩

theorem Coherent.drop {info : TrackInfo TrackSource Payload} (h : Coherent info) :
    Coherent info.drop := by
  refine ⟨fun hFailed => ?_, by simp [TrackInfo.drop]⟩
  have hNone := h.failed hFailed
  simp only [queue, List.append_eq_nil_iff] at hNone
  simp [queue, TrackInfo.drop, hNone.2]

/-- A turn in the loop fetches the next sample and changes nothing else. -/
theorem readTrack_spec {info : TrackInfo TrackSource Payload} (h : Coherent info) :
    Fetched (readTrack info) ∧ queue (readTrack info) = queue info ∧
      (readTrack info).mTrackIndex = info.mTrackIndex := by
  unfold readTrack
  split_ifs with hFailed
  · exact ⟨⟨h, fun hOk => absurd hOk hFailed⟩, rfl, rfl⟩
  · have hOk : info.mFinalResult = .ok := by simpa using hFailed
    cases hSample : info.mSample with
    | some sample => exact ⟨⟨h, fun _ => ⟨sample, hSample⟩⟩, rfl, rfl⟩
    | none =>
        cases hSource : info.mSource.samples with
        | nil =>
            simp only [TrackSource.read, hSource]
            refine ⟨⟨⟨fun _ => ?_, fun sample hHeld => ?_⟩, fun hNever => ?_⟩, ?_, rfl⟩
            · simp [queue, TrackInfo.fail, hSample, hSource]
            · simp [TrackInfo.fail, hSample] at hHeld
            · exact absurd hNever info.mSource.ending_ne
            · simp [queue, TrackInfo.fail]
        | cons sample rest =>
            simp only [TrackSource.read, hSource]
            refine ⟨⟨⟨fun hNever => ?_, fun held hHeld => ?_⟩, fun _ => ⟨sample, rfl⟩⟩, ?_, rfl⟩
            · exact absurd hOk hNever
            · obtain rfl : sample = held := by simpa [TrackInfo.hold] using hHeld
              rfl
            · simp [queue, TrackInfo.hold, hSample, hSource]

/-- The comparison of a found head with the least one so far. -/
def combine (i : Nat) (min : Option (Nat × Int)) (found : Option (Nat × Payload)) :
    Option (Nat × Int) :=
  match min, found with
  | min, none => min
  | none, some found => some (i + found.1, found.2.frameTime)
  | some min, some found =>
      if found.2.frameTime < min.2 then some (i + found.1, found.2.frameTime) else some min

/-- The loop of `fetchTrackSamples` is the search for the least head. -/
theorem fetchFrom_spec {tracks : List (TrackInfo TrackSource Payload)}
    (h : ∀ info ∈ tracks, Coherent info) (i : Nat) (min : Option (Nat × Int)) :
    (fetchFrom i min tracks).1 = tracks.map readTrack ∧
    (fetchFrom i min tracks).2 =
      combine i min (Merge.minHead? Payload.frameTime (tracks.map queue)) := by
  induction tracks generalizing i min with
  | nil => simp [fetchFrom, Merge.minHead?, combine]
  | cons info rest ih =>
      obtain ⟨hFetched, hQueue, _⟩ := readTrack_spec (h info (by simp))
      have ih := ih fun other hOther => h other (by simp [hOther])
      simp only [fetchFrom, List.map_cons, (ih _ _).1, (ih _ _).2, true_and]
      rw [← hQueue]
      by_cases hOk : (readTrack info).mFinalResult = .ok
      · obtain ⟨sample, hSample⟩ := hFetched.held hOk
        have hTime := hFetched.time sample hSample
        have hHead : queue (readTrack info) = sample :: (readTrack info).mSource.samples := by
          simp [queue, hSample]
        rw [if_pos hOk, hHead]
        cases hFound : Merge.minHead? Payload.frameTime (rest.map queue) with
        | none => cases min <;> simp [Merge.minHead?, hFound, combine, TrackInfo.pickMin, hTime]
        | some found =>
            simp only [Merge.minHead?, hFound]
            cases min with
            | none =>
                simp only [combine, TrackInfo.pickMin, hTime]
                split_ifs <;> simp [Nat.add_comm, Nat.add_left_comm]
            | some min =>
                simp only [combine, TrackInfo.pickMin, hTime]
                by_cases hLess : found.2.frameTime < sample.frameTime <;>
                  by_cases hMin : sample.frameTime < min.2 <;>
                  by_cases hBoth : found.2.frameTime < min.2 <;>
                  simp [hLess, hMin, hBoth] <;> omega
      · rw [if_neg hOk, hFetched.failed hOk]
        cases hFound : Merge.minHead? Payload.frameTime (rest.map queue) with
        | none => simp [Merge.minHead?, hFound, combine]
        | some found =>
            cases min <;> simp [Merge.minHead?, hFound, combine, Nat.add_comm, Nat.add_left_comm]

/-- Every entry of the track table is coherent. -/
def Ready (n : NuPPMediaExtractor) : Prop := ∀ info ∈ n.mSelectedTracks, Coherent info

theorem fetchTrackSamples_spec {n : NuPPMediaExtractor} (h : n.Ready) :
    n.fetchTrackSamples =
      ((Merge.minHead? Payload.frameTime n.queues).map Prod.fst,
        { n with mSelectedTracks := n.mSelectedTracks.map readTrack }) := by
  obtain ⟨hTracks, hMin⟩ := fetchFrom_spec h 0 none
  simp only [fetchTrackSamples, hTracks, hMin, queues]
  cases Merge.minHead? Payload.frameTime (n.mSelectedTracks.map queue) <;> simp [combine]

/-- The answer to a call, given the least head with its position. -/
def answer (trackIndices : List Nat) (call : Call) : Option (Nat × Payload) → Answer
  | none => .endOfStream
  | some (i, sample) =>
      match call with
      | .advance => .advanced (trackIndices.getD i 0) sample
      | .getSampleTrackIndex => .trackIndex (trackIndices.getD i 0)
      | .getSampleTime => .sampleTime sample.frameTime
      | .getSampleMeta => .sampleMeta sample.frameTime sample.isSync
      | .readSampleData capacity =>
          if capacity < sample.data.length then .noMemory else .sampleData sample.data

/-- What an accessor does, whatever it does with the least sample: it ends, or
its body runs on the entry of the least head. -/
theorem withMinSample_spec {n : NuPPMediaExtractor} (h : n.Ready)
    (body : NuPPMediaExtractor → Nat → TrackInfo TrackSource Payload → Payload →
      Answer × NuPPMediaExtractor) :
    ∃ fetched : NuPPMediaExtractor, fetched.Ready ∧ fetched.queues = n.queues ∧
      fetched.trackIndices = n.trackIndices ∧
      match Merge.minHead? Payload.frameTime n.queues with
      | none => n.withMinSample body = (.endOfStream, fetched)
      | some (i, sample) => ∃ info, fetched.mSelectedTracks[i]? = some info ∧
          info.mSample = some sample ∧ info.mSampleTimeUs = sample.frameTime ∧
          n.withMinSample body = body fetched i info sample := by
  refine ⟨{ n with mSelectedTracks := n.mSelectedTracks.map readTrack }, ?_, ?_, ?_, ?_⟩
  · intro info hInfo
    obtain ⟨old, hOld, rfl⟩ := List.mem_map.mp hInfo
    exact (readTrack_spec (h old hOld)).1.toCoherent
  · simp only [queues, List.map_map]
    exact List.map_congr_left fun info hInfo => (readTrack_spec (h info hInfo)).2.1
  · simp only [trackIndices, List.map_map]
    exact List.map_congr_left fun info hInfo => (readTrack_spec (h info hInfo)).2.2
  · cases hFound : Merge.minHead? Payload.frameTime n.queues with
    | none => simp [withMinSample, fetchTrackSamples_spec h, hFound]
    | some found =>
        obtain ⟨i, sample⟩ := found
        obtain ⟨rest, hHead⟩ := (Merge.minHead?_isMinHead hFound).head
        obtain ⟨info, hInfo, hQueue⟩ : ∃ info, n.mSelectedTracks[i]? = some info ∧
            queue info = sample :: rest := by
          simpa [queues] using hHead
        obtain ⟨hFetched, hSame, _⟩ := readTrack_spec (h info (List.mem_of_getElem? hInfo))
        have hOk : (readTrack info).mFinalResult = .ok := by
          by_contra hFailed
          have hEmpty := hFetched.failed hFailed
          simp [hSame, hQueue] at hEmpty
        obtain ⟨held, hHeld⟩ := hFetched.held hOk
        obtain rfl : held = sample := by
          have hBoth : queue (readTrack info) = sample :: rest := hSame.trans hQueue
          simp only [queue, hHeld, Option.toList_some, List.singleton_append] at hBoth
          exact (List.cons.inj hBoth).1
        refine ⟨readTrack info, by simp [hInfo], hHeld, hFetched.time _ hHeld, ?_⟩
        simp [withMinSample, fetchTrackSamples_spec h, hFound, hInfo, hHeld]

/-- What one call does to what is left of the tracks. -/
structure Performed (n : NuPPMediaExtractor) (call : Call) (result : Answer × NuPPMediaExtractor) :
    Prop where
  ready : result.2.Ready
  indices : result.2.trackIndices = n.trackIndices
  answered : result.1 = answer n.trackIndices call (Merge.minHead? Payload.frameTime n.queues)
  left : result.2.queues =
    if call = .advance then Merge.dropMin Payload.frameTime n.queues else n.queues

/-- Calls other than `advance` answer from the least sample and take nothing. -/
theorem performed_of_reads {n : NuPPMediaExtractor} (h : n.Ready) {call : Call}
    (hCall : call ≠ .advance)
    (body : NuPPMediaExtractor → Nat → TrackInfo TrackSource Payload → Payload →
      Answer × NuPPMediaExtractor)
    (hPerform : n.perform call = n.withMinSample body)
    (hBody : ∀ fetched i info sample, info.mSampleTimeUs = sample.frameTime →
      fetched.mSelectedTracks[i]? = some info →
      body fetched i info sample = (answer fetched.trackIndices call (some (i, sample)), fetched)) :
    Performed n call (n.perform call) := by
  obtain ⟨fetched, hReady, hQueues, hIndices, hResult⟩ := withMinSample_spec h body
  rw [hPerform]
  cases hFound : Merge.minHead? Payload.frameTime n.queues with
  | none =>
      simp only [hFound] at hResult
      rw [hResult]
      exact ⟨hReady, hIndices, by simp [hFound, answer], by simp [hCall, hQueues]⟩
  | some found =>
      simp only [hFound] at hResult
      obtain ⟨info, hInfo, _, hTime, hResult⟩ := hResult
      rw [hResult, hBody _ _ _ _ hTime hInfo]
      exact ⟨hReady, hIndices, by simp [hFound, hIndices], by simp [hCall, hQueues]⟩

theorem trackIndices_getD {n : NuPPMediaExtractor} {i : Nat}
    {info : TrackInfo TrackSource Payload} (h : n.mSelectedTracks[i]? = some info) :
    n.trackIndices.getD i 0 = info.mTrackIndex := by
  simp [trackIndices, h]

/-- `advance` takes the least sample. -/
theorem performed_advance {n : NuPPMediaExtractor} (h : n.Ready) :
    Performed n .advance (n.perform .advance) := by
  obtain ⟨fetched, hReady, hQueues, hIndices, hResult⟩ :=
    withMinSample_spec h fun n minIndex info sample =>
      (.advanced info.mTrackIndex sample,
        { n with mSelectedTracks := n.mSelectedTracks.set minIndex info.drop })
  simp only [perform, advance]
  cases hFound : Merge.minHead? Payload.frameTime n.queues with
  | none =>
      simp only [hFound] at hResult
      rw [hResult]
      exact ⟨hReady, hIndices, by simp [hFound, answer],
        by simp [Merge.dropMin, hFound, hQueues]⟩
  | some found =>
      obtain ⟨i, sample⟩ := found
      simp only [hFound] at hResult
      obtain ⟨info, hInfo, hHeld, _, hResult⟩ := hResult
      rw [hResult]
      obtain ⟨hBound, hElem⟩ := List.getElem?_eq_some_iff.mp hInfo
      refine ⟨fun other hOther => ?_, ?_, ?_, ?_⟩
      · rcases List.mem_or_eq_of_mem_set hOther with hOld | rfl
        · exact hReady other hOld
        · exact (hReady info (List.mem_of_getElem? hInfo)).drop
      · rw [← hIndices]
        refine List.ext_getElem? fun j => ?_
        by_cases hHere : i = j
        · subst hHere
          simp [trackIndices, hElem, hBound, TrackInfo.drop]
        · simp [trackIndices, hHere]
      · rw [hFound, answer, ← hIndices, trackIndices_getD hInfo]
      · rw [if_pos rfl, Merge.dropMin, hFound, ← hQueues]
        refine List.ext_getElem? fun j => ?_
        by_cases hHere : i = j
        · subst hHere
          simp [queues, hElem, hBound, TrackInfo.drop, queue, hHeld]
        · simp [queues, hHere]

theorem perform_spec {n : NuPPMediaExtractor} (h : n.Ready) (call : Call) :
    Performed n call (n.perform call) := by
  cases call with
  | advance => exact performed_advance h
  | getSampleTrackIndex =>
      exact performed_of_reads h (by simp) _ rfl fun fetched i info sample _ hInfo => by
        rw [answer, trackIndices_getD hInfo]
  | getSampleTime =>
      exact performed_of_reads h (by simp) _ rfl fun fetched i info sample hTime _ => by
        rw [answer, hTime]
  | getSampleMeta => exact performed_of_reads h (by simp) _ rfl fun _ _ _ _ _ _ => rfl
  | readSampleData capacity =>
      exact performed_of_reads h (by simp) _ rfl fun fetched i info sample _ _ => by
        simp only [answer]
        split_ifs <;> rfl

/-- The samples that successful calls of `advance` have released, with their
track indices. -/
def consumed (answers : List Answer) : List (Nat × Payload) :=
  answers.filterMap fun
    | .advanced trackIndex sample => some (trackIndex, sample)
    | _ => none

/-- The number of successful calls of `advance`. -/
def advances (answers : List Answer) : Nat := (consumed answers).length

/-- The merge of what was left at the start, after the successful calls of
`advance` among some answers. -/
def leftAfter (n : NuPPMediaExtractor) (answers : List Answer) : List (List Payload) :=
  Merge.after Payload.frameTime n.queues (advances answers)

/-- A call takes the least sample and says so, or it takes nothing. -/
theorem Performed.takes {n : NuPPMediaExtractor} {call : Call}
    {result : Answer × NuPPMediaExtractor} (h : Performed n call result) :
    (∃ found, Merge.minHead? Payload.frameTime n.queues = some found ∧
      result.1 = .advanced (n.trackIndices.getD found.1 0) found.2 ∧
      result.2.queues = Merge.dropMin Payload.frameTime n.queues) ∨
    (consumed [result.1] = [] ∧ result.2.queues = n.queues) := by
  have hAnswered := h.answered
  have hLeft := h.left
  cases hFound : Merge.minHead? Payload.frameTime n.queues with
  | none =>
      refine Or.inr ⟨by rw [hAnswered, hFound]; rfl, ?_⟩
      simpa [Merge.dropMin, hFound] using hLeft
  | some found =>
      cases call with
      | advance =>
          refine Or.inl ⟨found, rfl, by rw [hAnswered, hFound]; rfl, by simpa using hLeft⟩
      | getSampleTrackIndex | getSampleTime | getSampleMeta =>
          exact Or.inr ⟨by rw [hAnswered, hFound]; rfl, by simpa using hLeft⟩
      | readSampleData capacity =>
          refine Or.inr ⟨?_, by simpa using hLeft⟩
          rw [hAnswered, hFound, answer]
          split_ifs <;> rfl

theorem consumed_cons (first : Answer) (answers : List Answer) :
    consumed (first :: answers) = consumed [first] ++ consumed answers := by
  rw [consumed, consumed, consumed, ← List.filterMap_append, List.singleton_append]

theorem advances_cons_of_nothing {first : Answer} (h : consumed [first] = [])
    (answers : List Answer) : advances (first :: answers) = advances answers := by
  rw [advances, consumed_cons, h, List.nil_append, advances]

/-- The queues after a first call and some more. -/
theorem Performed.leftAfter_eq {n : NuPPMediaExtractor} {call : Call}
    {result : Answer × NuPPMediaExtractor} (h : Performed n call result) (answers : List Answer) :
    result.2.leftAfter answers = n.leftAfter (result.1 :: answers) := by
  rcases h.takes with ⟨found, _, hAnswer, hLeft⟩ | ⟨hNothing, hLeft⟩
  · rw [leftAfter, hLeft, Merge.after_dropMin, leftAfter]
    simp [advances, consumed, hAnswer]
  · rw [leftAfter, hLeft, leftAfter, advances_cons_of_nothing hNothing]

/-- Every call refers to the sample that the merge has come to, and each
successful `advance` takes one step of the merge. -/
structure MergesTracks (n : NuPPMediaExtractor) (calls : List Call) (answers : List Answer)
    (n' : NuPPMediaExtractor) : Prop where
  answers_eq : ∀ k, answers[k]? = calls[k]?.map fun call =>
    answer n.trackIndices call
      (Merge.minHead? Payload.frameTime (n.leftAfter (answers.take k)))
  left : n'.queues = n.leftAfter answers
  consumed_eq : consumed answers =
    (Merge.taken Payload.frameTime n.queues (advances answers)).map fun found =>
      (n.trackIndices.getD found.1 0, found.2)

theorem performAll_mergesTracks {n : NuPPMediaExtractor} (h : n.Ready) (calls : List Call) :
    MergesTracks n calls (n.performAll calls).1 (n.performAll calls).2 := by
  induction calls generalizing n with
  | nil => exact ⟨by simp [performAll], rfl, rfl⟩
  | cons call calls ih =>
      have hFirst := perform_spec h call
      have hRest := ih hFirst.ready
      refine ⟨fun k => ?_, ?_, ?_⟩
      · cases k with
        | zero => simp [performAll, hFirst.answered, leftAfter, advances, consumed, Merge.after]
        | succ k =>
            have hLater := hRest.answers_eq k
            simp only [hFirst.indices, hFirst.leftAfter_eq] at hLater
            simpa [performAll] using hLater
      · simpa [performAll, hFirst.leftAfter_eq] using hRest.left
      · have hTaken := hRest.consumed_eq
        simp only [performAll]
        rw [consumed_cons, hTaken, hFirst.indices]
        rcases hFirst.takes with ⟨found, hFound, hAnswer, hLeft⟩ | ⟨hNothing, hLeft⟩
        · simp [advances, consumed, hAnswer, hLeft, ← Merge.taken_dropMin, hFound]
        · rw [advances_cons_of_nothing hNothing, hNothing, hLeft, List.nil_append]

/-- The table of selected tracks after some calls of `selectTrack`: the indices
that exist, each where it was first selected, with the sources they name. -/
structure Selects (tracks : List TrackSource) (selection : List Nat) (n : NuPPMediaExtractor) :
    Prop where
  impl : n.mImpl = some tracks
  ready : n.Ready
  selected : n.trackIndices = (selection.filter (· < tracks.length)).eraseDups
  nodup : n.trackIndices.Nodup
  sources : ∀ info ∈ n.mSelectedTracks, ∃ source,
    tracks[info.mTrackIndex]? = some source ∧ queue info = source.samples

/-- A further index counts if it exists and was not selected before. -/
theorem eraseDups_filter_append_singleton (bound : Nat) (selection : List Nat) (index : Nat) :
    ((selection ++ [index]).filter (· < bound)).eraseDups =
      if index < bound ∧ index ∉ (selection.filter (· < bound)).eraseDups then
        (selection.filter (· < bound)).eraseDups ++ [index]
      else (selection.filter (· < bound)).eraseDups := by
  rw [List.filter_append, List.eraseDups_append]
  by_cases hBound : index < bound
  · by_cases hBefore : index ∈ selection <;>
      simp [hBound, hBefore, List.removeAll, List.eraseDups_cons]
  · simp [hBound, List.removeAll]

theorem Selects.selectTrack {tracks : List TrackSource} {selection : List Nat}
    {n : NuPPMediaExtractor} (h : Selects tracks selection n) (index : Nat) :
    Selects tracks (selection ++ [index]) (n.selectTrack index).2 := by
  simp only [NuPPMediaExtractor.selectTrack, h.impl]
  cases hSource : tracks[index]? with
  | none =>
      have hBound : ¬ index < tracks.length := by simpa using hSource
      refine ⟨h.impl, h.ready, ?_, h.nodup, h.sources⟩
      rw [eraseDups_filter_append_singleton, if_neg fun hBoth => hBound hBoth.1]
      exact h.selected
  | some source =>
      have hBound : index < tracks.length := (List.getElem?_eq_some_iff.mp hSource).1
      simp only
      split_ifs with hAlready
      · have hOld : index ∈ n.trackIndices := by simpa [trackIndices] using hAlready
        refine ⟨h.impl, h.ready, ?_, h.nodup, h.sources⟩
        rw [eraseDups_filter_append_singleton, if_neg fun hBoth => hBoth.2 (h.selected ▸ hOld)]
        exact h.selected
      · have hFresh : index ∉ n.trackIndices := by
          simpa [trackIndices] using hAlready
        refine ⟨rfl, fun info hInfo => ?_, ?_, ?_, fun info hInfo => ?_⟩
        · rcases List.mem_append.mp hInfo with hOld | hNew
          · exact h.ready info hOld
          · obtain rfl := List.mem_singleton.mp hNew
            exact Coherent.selected source index
        · rw [eraseDups_filter_append_singleton, ← h.selected, if_pos ⟨hBound, hFresh⟩]
          simp [trackIndices, TrackInfo.selected]
        · simpa [trackIndices, TrackInfo.selected, List.nodup_append] using
            ⟨h.nodup, fun info hInfo hSame =>
              hFresh (hSame ▸ List.mem_map_of_mem hInfo)⟩
        · rcases List.mem_append.mp hInfo with hOld | hNew
          · exact h.sources info hOld
          · obtain rfl := List.mem_singleton.mp hNew
            exact ⟨source, hSource, by simp [queue, TrackInfo.selected]⟩

theorem selectTracks_selects (tracks : List TrackSource) (selection : List Nat) :
    Selects tracks selection ((opened tracks).selectTracks selection) := by
  have hFold : ∀ before n, Selects tracks before n →
      Selects tracks (before ++ selection) (n.selectTracks selection) := by
    induction selection with
    | nil => exact fun before n h => by simpa [selectTracks] using h
    | cons index selection ih =>
        intro before n h
        simpa [selectTracks] using ih _ _ (h.selectTrack index)
  exact hFold [] _ ⟨rfl, by simp [Ready, opened], by simp [trackIndices, opened],
    by simp [trackIndices, opened], by simp [opened]⟩

/-- The calls merge the selected tracks by time. -/
structure TrackMerge (tracks : List TrackSource) (selection : List Nat) (n : NuPPMediaExtractor)
    (calls : List Call) (answers : List Answer) (n' : NuPPMediaExtractor) : Prop
    extends Selects tracks selection n, MergesTracks n calls answers n' where
  least : ∀ k trackIndex sample, answers[k]? = some (.advanced trackIndex sample) →
    ∃ i, n.trackIndices[i]? = some trackIndex ∧
      Merge.IsMinHead Payload.frameTime (n.leftAfter (answers.take k)) (i, sample)
  order : ∀ i, n'.queues[i]?.map
    (Merge.takenFrom Payload.frameTime n.queues (advances answers) i ++ ·) = n.queues[i]?
  sorted : (∀ queue ∈ n.queues, queue.Pairwise fun a b => a.frameTime ≤ b.frameTime) →
    (consumed answers).map Prod.snd =
      (n.queues.flatten.insertionSort fun a b => a.frameTime ≤ b.frameTime).take
        (advances answers)
  noMemory : ∀ k, answers[k]? = some .noMemory →
    n.leftAfter (answers.take (k + 1)) = n.leftAfter (answers.take k)
  ended : ∀ k, answers[k]? = some .endOfStream ↔
    k < calls.length ∧ ∀ queue ∈ n.leftAfter (answers.take k), queue = []

theorem answer_advanced {trackIndices : List Nat} {call : Call} {head : Option (Nat × Payload)}
    {trackIndex : Nat} {sample : Payload}
    (h : answer trackIndices call head = .advanced trackIndex sample) :
    ∃ i, head = some (i, sample) ∧ trackIndex = trackIndices.getD i 0 := by
  cases head with
  | none => simp [answer] at h
  | some found =>
      cases call with
      | advance =>
          obtain ⟨rfl, rfl⟩ := Answer.advanced.inj h
          exact ⟨found.1, rfl, rfl⟩
      | getSampleTrackIndex | getSampleTime | getSampleMeta => simp [answer] at h
      | readSampleData capacity =>
          simp only [answer] at h
          split_ifs at h

theorem answer_endOfStream_iff {trackIndices : List Nat} {call : Call}
    {head : Option (Nat × Payload)} : answer trackIndices call head = .endOfStream ↔ head = none := by
  cases head with
  | none => simp [answer]
  | some found =>
      cases call with
      | advance | getSampleTrackIndex | getSampleTime | getSampleMeta => simp [answer]
      | readSampleData capacity =>
          simp only [answer]
          split_ifs <;> simp

/-- For every choice of tracks, all sources and all sequences of calls, the
extractor merges the selected tracks. -/
theorem performAll_trackMerge (tracks : List TrackSource) (selection : List Nat)
    (calls : List Call) :
    TrackMerge tracks selection ((opened tracks).selectTracks selection) calls
      (((opened tracks).selectTracks selection).performAll calls).1
      (((opened tracks).selectTracks selection).performAll calls).2 := by
  have hSelects := selectTracks_selects tracks selection
  generalize (opened tracks).selectTracks selection = n at hSelects ⊢
  have hMerges := performAll_mergesTracks hSelects.ready calls
  generalize hAnswers : (n.performAll calls).1 = answers at hMerges ⊢
  refine ⟨hSelects, hMerges, fun k trackIndex sample hk => ?_, fun i => ?_, fun hSorted => ?_,
    fun k hk => ?_, fun k => ?_⟩
  · rw [hMerges.answers_eq k] at hk
    obtain ⟨call, _, hAnswer⟩ := Option.map_eq_some_iff.mp hk
    obtain ⟨i, hFound, rfl⟩ := answer_advanced hAnswer
    have hMin := Merge.minHead?_isMinHead hFound
    obtain ⟨rest, hHead⟩ := hMin.head
    have hBound : i < n.trackIndices.length := by
      have hQueues := Merge.takenFrom_append_after Payload.frameTime n.queues
        (advances (answers.take k)) i
      rw [← leftAfter, hHead] at hQueues
      have hSome := (List.getElem?_eq_some_iff.mp hQueues.symm).1
      simpa [queues, trackIndices] using hSome
    exact ⟨i, by simp [hBound], hMin⟩
  · rw [hMerges.left]
    exact Merge.takenFrom_append_after _ _ _ _
  · have hWhole := (Merge.taken_sorted hSorted (advances answers)).2
    have hLength : ((Merge.taken Payload.frameTime n.queues (advances answers)).map
        Prod.snd).length = advances answers := by
      conv_rhs => rw [advances, hMerges.consumed_eq]
      simp
    rw [hWhole, List.take_left' hLength, hMerges.consumed_eq, List.map_map]
    rfl
  · rw [List.take_add_one, hk, leftAfter, leftAfter]
    simp [advances, consumed]
  · rw [hMerges.answers_eq k, Option.map_eq_some_iff]
    constructor
    · rintro ⟨call, hCall, hAnswer⟩
      exact ⟨(List.getElem?_eq_some_iff.mp hCall).1,
        Merge.minHead?_eq_none_iff.mp (answer_endOfStream_iff.mp hAnswer)⟩
    · rintro ⟨hBound, hEmpty⟩
      exact ⟨calls[k], List.getElem?_eq_getElem hBound,
        answer_endOfStream_iff.mpr (Merge.minHead?_eq_none_iff.mpr hEmpty)⟩

-- Track 1 is selected before track 0 and a second time, and track 7 does not
-- exist: of two heads at time 5, that of track 1 comes first.
example :
    let tracks : List TrackSource :=
      [⟨[⟨[10], 5, true, 0⟩], Status.errorEndOfStream, by decide⟩,
        ⟨[⟨[20], 5, true, 1⟩, ⟨[21], 6, false, 2⟩], Status.errorEndOfStream, by decide⟩]
    let n := (opened tracks).selectTracks [1, 7, 0, 1]
    n.trackIndices = [1, 0] ∧
      (n.performAll [.advance, .readSampleData 1, .advance, .advance, .advance]).1 =
        [.advanced 1 ⟨[20], 5, true, 1⟩, .sampleData [10], .advanced 0 ⟨[10], 5, true, 0⟩,
          .advanced 1 ⟨[21], 6, false, 2⟩, .endOfStream] := by
  decide

end Meet.NuPPMediaExtractor
