import Mathlib.Data.List.Induction
import Meet.NuMediaPlayer.Codecs

/-! The end of the input in `NuMediaPlayer.java`. The flag `mSawInputEOS` is set when the
extractor has no more samples, and no seek clears it. -/
namespace Meet.NuMediaPlayer

def Call.seeks : Call → Bool
  | .seekTo _ => true
  | _ => false

/-- What has been handled since the last seek was executed. -/
def sinceSeek (history : List Handled) : List Handled :=
  (history.reverse.takeWhile fun handled => !handled.calls.any Call.seeks).reverse

/-- The samples that the calls have read. -/
def samplesRead (calls : List Call) : List Sample :=
  calls.filterMap fun
    | .readSampleData result => result
    | _ => none

/-- The buffer is queued as the end of the stream. -/
def Call.queuesEnd : Call → Bool
  | .queueInputBuffer _ _ _ _ flags => flags &&& bufferFlagEndOfStream ≠ 0
  | _ => false

namespace Pipeline

/-- Each sample goes to its codec as it is and is passed, and the end of the stream is queued
only when it has been reported since the last seek. The samples from where the seek has led are
those that were read since then, in order, and those that are still ahead; none is ahead once
the end has been reported. -/
structure Faithful (p : Pipeline) : Prop where
  sample : ∀ handled ∈ p.history, ∀ sample ∈ samplesRead handled.calls, ∃ codec index,
    (∀ own, p.codecOf sample.trackIndex = some own → codec = own) ∧
      handled.calls = [.dequeueInputBuffer codec index, .readSampleData (some sample),
        .queueInputBuffer codec index sample.size sample.timeUs sample.flags, .advance]
  ends : ∀ before handled after, p.history = before ++ handled :: after →
    (∃ call ∈ handled.calls, call.queuesEnd = true) →
      ∃ earlier ∈ sinceSeek (before ++ [handled]), .readSampleData none ∈ earlier.calls
  order : ((sinceSeek p.history).flatMap fun handled => samplesRead handled.calls) ++
    p.extractor.samples.drop p.extractor.position = p.extractor.samples.drop p.extractor.sought
  all : (∃ handled ∈ sinceSeek p.history, .readSampleData none ∈ handled.calls) →
    p.extractor.samples.drop p.extractor.position = []

/-- Once the end of the input has been seen, a seek does not lead back to any sample. -/
def SeekGuard (p : Pipeline) : Deed → Prop
  | .seekTo position => p.player.mSawInputEOS = true → p.extractor.samples.length ≤ position
  | _ => True

instance (p : Pipeline) (deed : Deed) : Decidable (p.SeekGuard deed) :=
  match deed with
  | .seekTo _ => inferInstanceAs (Decidable (_ → _))
  | .readSample _ _ | .decodeAudio _ _ | .decodeVideo _ _ | .others _ => .isTrue trivial

end Pipeline

section
variable {s t : State} {answers : Question → Bool}

/-- Code without the assignment leaves the flag alone. -/
theorem runHandler_sawInputEOS {code : Program}
    (hNone : code.anyOp (fun operation => operation = .setSawInputEOS) = false)
    (hRun : runHandler answers code s = some t) : t.mSawInputEOS = s.mSawInputEOS := by
  induction code generalizing s with
  | done =>
      cases hRun
      rfl
  | op operation next ih =>
      simp only [runHandler, Option.bind_eq_some_iff] at hRun
      obtain ⟨u, hPerform, hRest⟩ := hRun
      obtain ⟨hFirst, hNext⟩ := Bool.or_eq_false_iff.mp hNone
      rw [ih hNext hRest]
      exact sawInputEOS_perform (by simpa using hFirst) hPerform
  | test cond yes no ihYes ihNo =>
      obtain ⟨hYes, hNo⟩ := Bool.or_eq_false_iff.mp hNone
      rw [runHandler] at hRun
      split_ifs at hRun
      · exact ihYes hYes hRun
      · exact ihNo hNo hRun

theorem runHandler_onReadSampleEvent
    (hRun : runHandler answers onReadSampleEvent s = some t) :
    t.mSawInputEOS = (s.mSawInputEOS || answers .inputBuffer && !answers .sampleRead) := by
  have hAgain : onReadSampleEvent.again.anyOp (fun operation => operation = .setSawInputEOS) =
      false := rfl
  simp only [onReadSampleEvent, runHandler, State.holds, answerTo] at hRun
  cases hBuffer : answers .inputBuffer with
  | false =>
      simp only [hBuffer, Bool.false_eq_true, if_false] at hRun
      rw [runHandler_sawInputEOS hAgain hRun]
      simp
  | true =>
      cases hSample : answers .sampleRead with
      | true =>
          simp only [hBuffer, hSample, if_true] at hRun
          rw [runHandler_sawInputEOS hAgain hRun]
          simp
      | false =>
          simp only [hBuffer, hSample, Bool.false_eq_true, if_false, if_true, perform,
            Option.bind_some] at hRun
          rw [runHandler_sawInputEOS hAgain hRun]
          simp

end

theorem sinceSeek_snoc (history : List Handled) (handled : Handled) :
    sinceSeek (history ++ [handled]) =
      if handled.calls.any Call.seeks then [] else sinceSeek history ++ [handled] := by
  simp only [sinceSeek, List.reverse_append, List.reverse_singleton, List.singleton_append,
    List.takeWhile_cons]
  split_ifs with hSeek
  all_goals simp_all

namespace Pipeline

/-- The invariant: the events one by one, and where the extractor stands. -/
structure Regular (p : Pipeline) : Prop where
  sample : ∀ handled ∈ p.history, ∀ sample ∈ samplesRead handled.calls, ∃ codec index,
    (∀ own, p.codecOf sample.trackIndex = some own → codec = own) ∧
      handled.calls = [.dequeueInputBuffer codec index, .readSampleData (some sample),
        .queueInputBuffer codec index sample.size sample.timeUs sample.flags, .advance]
  ends : ∀ handled ∈ p.history, (∃ call ∈ handled.calls, call.queuesEnd = true) →
    handled.calls.any Call.seeks = false ∧ .readSampleData none ∈ handled.calls
  order : ((sinceSeek p.history).flatMap fun handled => samplesRead handled.calls) ++
    p.extractor.samples.drop p.extractor.position = p.extractor.samples.drop p.extractor.sought
  reported : ∀ handled ∈ p.history, .readSampleData none ∈ handled.calls →
    p.player.mSawInputEOS = true
  seen : p.player.mSawInputEOS = true → p.extractor.samples.length ≤ p.extractor.position

/-- The player decodes the same tracks. -/
def SameTracks (p q : Pipeline) : Prop :=
  q.mAudioTrackIndex = p.mAudioTrackIndex ∧ q.mVideoTrackIndex = p.mVideoTrackIndex

section
variable {p q : Pipeline}

theorem SameTracks.codecOf (h : SameTracks p q) : q.codecOf = p.codecOf := by
  funext trackIndex
  simp only [Pipeline.codecOf, h.1, h.2]

theorem mem_of_mem_sinceSeek {history : List Handled} {handled : Handled}
    (hMem : handled ∈ sinceSeek history) : handled ∈ history := by
  have hReverse := List.mem_reverse.mp hMem
  exact List.mem_reverse.mp ((List.takeWhile_sublist _).subset hReverse)

theorem Regular.faithful (h : p.Regular) : p.Faithful := by
  refine ⟨h.sample, ?_, h.order, ?_⟩
  · intro before handled after hHistory hQueued
    have hMem : handled ∈ p.history := by simp [hHistory]
    obtain ⟨hStays, hReported⟩ := h.ends handled hMem hQueued
    refine ⟨handled, ?_, hReported⟩
    rw [sinceSeek_snoc, hStays, if_neg Bool.false_ne_true]
    simp
  · rintro ⟨handled, hMem, hReported⟩
    have hSaw := h.reported handled (mem_of_mem_sinceSeek hMem) hReported
    exact List.drop_eq_nil_of_le (h.seen hSaw)

theorem regular_of_fresh (hHistory : p.history = []) (hSaw : p.player.mSawInputEOS = false)
    (hSought : p.extractor.sought = p.extractor.position) : p.Regular := by
  refine ⟨by simp [hHistory], by simp [hHistory], ?_, by simp [hHistory], by simp [hSaw]⟩
  rw [hHistory, hSought]
  rfl

/-- An event that neither reads nor seeks. -/
theorem Regular.quiet (h : p.Regular) {handled : Handled}
    (hHistory : q.history = p.history ++ [handled])
    (hStays : handled.calls.any Call.seeks = false)
    (hReads : ∀ call ∈ handled.calls, ∀ result, call ≠ .readSampleData result)
    (hQueues : ∀ call ∈ handled.calls, call.queuesEnd = false)
    (hTracks : SameTracks p q) (hExtractor : q.extractor = p.extractor)
    (hSaw : q.player.mSawInputEOS = p.player.mSawInputEOS) : q.Regular := by
  have hNone : samplesRead handled.calls = [] := by
    apply List.filterMap_eq_nil_iff.mpr
    intro call hCall
    have hOther := hReads call hCall
    cases call with
    | readSampleData result => exact absurd rfl (hOther result)
    | _ => rfl
  constructor
  · rw [hHistory, List.forall_mem_append, List.forall_mem_singleton, hNone, hTracks.codecOf]
    exact ⟨h.sample, by simp⟩
  · rw [hHistory, List.forall_mem_append, List.forall_mem_singleton]
    refine ⟨h.ends, ?_⟩
    rintro ⟨call, hCall, hEnd⟩
    rw [hQueues call hCall] at hEnd
    cases hEnd
  · rw [hHistory, sinceSeek_snoc, hStays, if_neg Bool.false_ne_true, List.flatMap_append,
      List.flatMap_singleton, hNone, List.append_nil, hExtractor]
    exact h.order
  · rw [hHistory, List.forall_mem_append, List.forall_mem_singleton, hSaw]
    exact ⟨h.reported, fun hCall => absurd rfl (hReads _ hCall none)⟩
  · rw [hSaw, hExtractor]
    exact h.seen

/-- The extractor has reported the end. -/
theorem Regular.atEnd (h : p.Regular) {codec : Codec} {inputBufIndex : Int}
    (hHistory : q.history = p.history ++ [⟨.readSample, [.dequeueInputBuffer codec inputBufIndex,
      .readSampleData none, .queueInputBuffer codec inputBufIndex 0 0 bufferFlagEndOfStream]⟩])
    (hCurrent : p.extractor.current = none) (hTracks : SameTracks p q)
    (hExtractor : q.extractor = p.extractor) (hSaw : q.player.mSawInputEOS = true) :
    q.Regular := by
  constructor
  · rw [hHistory, List.forall_mem_append, List.forall_mem_singleton, hTracks.codecOf]
    exact ⟨h.sample, by simp [samplesRead]⟩
  · rw [hHistory, List.forall_mem_append, List.forall_mem_singleton]
    exact ⟨h.ends, by simp [Call.seeks]⟩
  · rw [hHistory, sinceSeek_snoc, if_neg (by simp [Call.seeks]), List.flatMap_append,
      List.flatMap_singleton, hExtractor]
    simpa [samplesRead] using h.order
  · intro handled hMem hReported
    exact hSaw
  · intro _
    rw [hExtractor]
    exact List.getElem?_eq_none_iff.mp hCurrent

/-- A sample is read before the end has been seen. -/
theorem Regular.delivered (h : p.Regular) {codec : Codec} {inputBufIndex : Int} {sample : Sample}
    (hHistory : q.history = p.history ++ [⟨.readSample, [.dequeueInputBuffer codec inputBufIndex,
      .readSampleData (some sample),
      .queueInputBuffer codec inputBufIndex sample.size sample.timeUs sample.flags, .advance]⟩])
    (hCurrent : p.extractor.current = some sample)
    (hOwn : ∀ own, p.codecOf sample.trackIndex = some own → codec = own)
    (hTracks : SameTracks p q) (hExtractor : q.extractor = p.extractor.advance)
    (hBefore : p.player.mSawInputEOS = false) (hSaw : q.player.mSawInputEOS = false) :
    q.Regular := by
  obtain ⟨hPlace, hSample⟩ := List.getElem?_eq_some_iff.mp hCurrent
  have hDrop : p.extractor.samples.drop p.extractor.position =
      sample :: p.extractor.samples.drop (p.extractor.position + 1) := by
    rw [← hSample]
    exact List.drop_eq_getElem_cons hPlace
  constructor
  · rw [hHistory, List.forall_mem_append, List.forall_mem_singleton, hTracks.codecOf]
    refine ⟨h.sample, ?_⟩
    intro other hOther
    obtain rfl : other = sample := by simpa [samplesRead] using hOther
    exact ⟨codec, inputBufIndex, hOwn, rfl⟩
  · rw [hHistory, List.forall_mem_append, List.forall_mem_singleton]
    refine ⟨h.ends, ?_⟩
    rintro ⟨call, hCall, hEnd⟩
    simp only [List.mem_cons, List.not_mem_nil, or_false] at hCall
    rcases hCall with rfl | rfl | rfl | rfl
    · cases hEnd
    · cases hEnd
    · simp [Call.queuesEnd, sample.noEnd] at hEnd
    · cases hEnd
  · rw [hHistory, sinceSeek_snoc, if_neg (by simp [Call.seeks]), List.flatMap_append,
      List.flatMap_singleton, hExtractor]
    have hOrder := h.order
    rw [hDrop] at hOrder
    simpa [samplesRead, Extractor.advance] using hOrder
  · rw [hHistory, List.forall_mem_append, List.forall_mem_singleton]
    refine ⟨fun handled hMem hReported => ?_, by simp⟩
    rw [h.reported handled hMem hReported] at hBefore
    cases hBefore
  · intro hTrue
    rw [hSaw] at hTrue
    cases hTrue

theorem Regular.read (h : p.Regular) {inputBufIndex : Int} {capacity : Nat}
    (hRead : p.onReadSampleEvent inputBufIndex capacity = some q) : q.Regular := by
  rcases onReadSampleEvent_cases hRead with
    ⟨-, rfl⟩ | ⟨codec, -, hCodec, ⟨-, -, rfl⟩ | ⟨-, player, hRun, rfl⟩⟩
  · exact h.quiet rfl rfl (by simp) (by simp) ⟨rfl, rfl⟩ rfl rfl
  · exact h.quiet rfl rfl (by simp) (by simp [Call.queuesEnd]) ⟨rfl, rfl⟩ rfl rfl
  have hSaw := runHandler_onReadSampleEvent hRun
  simp only [readAnswers] at hSaw
  by_cases hIndex : 0 < inputBufIndex
  · cases hCurrent : p.extractor.current with
    | none =>
        refine @Regular.atEnd p _ h codec inputBufIndex ?_ hCurrent ?_ ?_ ?_
        · simp [readCalls, hIndex, feed, hCurrent]
        · exact ⟨rfl, rfl⟩
        · simp [extractorAfter, hCurrent]
        · simpa [hIndex, hCurrent] using hSaw
    | some sample =>
        have hPlace := (List.getElem?_eq_some_iff.mp hCurrent).1
        have hBefore : p.player.mSawInputEOS = false := by
          by_contra hTrue
          have hBehind := h.seen (by simpa using hTrue)
          omega
        have hOwn : ∀ own, p.codecOf sample.trackIndex = some own → codec = own := by
          intro own hOwn
          simp only [Extractor.getSampleTrackIndex, hCurrent, getCodec, hOwn] at hCodec
          exact (Option.some.inj hCodec).symm
        refine @Regular.delivered p _ h codec inputBufIndex sample ?_ hCurrent hOwn ?_ ?_ hBefore ?_
        · simp [readCalls, hIndex, feed, hCurrent, hBefore]
        · exact ⟨rfl, rfl⟩
        · simp [extractorAfter, hCurrent, hIndex, hBefore]
        · simpa [hCurrent, hBefore] using hSaw
  · refine @Regular.quiet p _ h ⟨.readSample, p.readCalls codec inputBufIndex⟩ rfl ?_ ?_ ?_ ?_ ?_ ?_
    · simp [readCalls, hIndex, Call.seeks]
    · simp [readCalls, hIndex]
    · simp [readCalls, hIndex, Call.queuesEnd]
    · exact ⟨rfl, rfl⟩
    · simp [extractorAfter, hIndex]
    · simpa [hIndex] using hSaw

theorem Regular.seek (h : p.Regular) {position : Nat} (hGuard : p.SeekGuard (.seekTo position))
    (hSeek : p.onSeekToEvent position = some q) : q.Regular := by
  simp only [onSeekToEvent] at hSeek
  by_cases hExtractor : p.player.mExtractor = true
  swap
  · rw [if_neg hExtractor] at hSeek
    obtain ⟨player, hRun, rfl⟩ := Option.map_eq_some_iff.mp hSeek
    exact h.quiet rfl rfl (by simp) (by simp) ⟨rfl, rfl⟩ rfl (runHandler_sawInputEOS rfl hRun)
  rw [if_pos hExtractor] at hSeek
  obtain ⟨r, hHandled, rfl⟩ := Option.map_eq_some_iff.mp hSeek
  obtain ⟨player, hRun, rfl⟩ := handled_eq hHandled
  have hSaw : player.mSawInputEOS = p.player.mSawInputEOS := runHandler_sawInputEOS rfl hRun
  constructor
  · rw [List.forall_mem_append, List.forall_mem_singleton]
    exact ⟨h.sample, by simp [samplesRead]⟩
  · rw [List.forall_mem_append, List.forall_mem_singleton]
    exact ⟨h.ends, by simp [Call.queuesEnd]⟩
  · rw [sinceSeek_snoc, if_pos (by rfl)]
    rfl
  · rw [List.forall_mem_append, List.forall_mem_singleton]
    refine ⟨fun handled hMem hReported => ?_, by simp⟩
    rw [hSaw]
    exact h.reported handled hMem hReported
  · intro hTrue
    rw [hSaw] at hTrue
    exact hGuard hTrue

/-- The calls of a decode event concern the output of a codec. -/
theorem Regular.decoded (h : p.Regular) {event : Event} {answers : Question → Bool} {codec : Codec}
    {res : Int} {render : Bool} {r : Pipeline}
    (hEvent : event = .decodeAudio ∨ event = .decodeVideo)
    (hHandled : p.handled event answers (decodeCalls codec res render) = some r)
    (hHistory : q.history = r.history) (hTracks : SameTracks p q)
    (hExtractor : q.extractor = r.extractor) (hPlayer : q.player = r.player) : q.Regular := by
  obtain ⟨player, hRun, rfl⟩ := handled_eq hHandled
  have hSaw : player.mSawInputEOS = p.player.mSawInputEOS := by
    rcases hEvent with rfl | rfl
    · exact runHandler_sawInputEOS rfl hRun
    · exact runHandler_sawInputEOS rfl hRun
  apply h.quiet hHistory
  · simp only [decodeCalls]
    split_ifs
    all_goals rfl
  · intro call hCall result hRead
    subst hRead
    simp only [decodeCalls, List.mem_cons] at hCall
    split_ifs at hCall
    all_goals simp at hCall
  · intro call hCall
    simp only [decodeCalls, List.mem_cons] at hCall
    rcases hCall with rfl | hCall
    · rfl
    · split_ifs at hCall
      · rw [List.mem_singleton.mp hCall]
        rfl
      · cases hCall
  · exact hTracks
  · exact hExtractor
  · rw [hPlayer]
    exact hSaw

theorem Regular.step (h : p.Regular) {deed : Deed} (hGuard : p.SeekGuard deed)
    (hStep : p.step deed = some q) : q.Regular := by
  cases deed with
  | readSample inputBufIndex capacity =>
      simp only [Pipeline.step, Option.ite_none_left_eq_some] at hStep
      exact h.read hStep.2
  | decodeAudio res info =>
      simp only [Pipeline.step, Option.ite_none_left_eq_some] at hStep
      rcases onDecodeAudioEvent_cases hStep.2 with
        ⟨-, rfl⟩ | ⟨-, ⟨-, -, -, rfl⟩ | ⟨-, r, hHandled, _, _, _, _, rfl⟩⟩
      · exact h.quiet rfl rfl (by simp) (by simp) ⟨rfl, rfl⟩ rfl rfl
      · exact h.quiet rfl rfl (by simp) (by simp [Call.queuesEnd]) ⟨rfl, rfl⟩ rfl rfl
      · have hTracks : SameTracks p r := by
          obtain ⟨player, -, rfl⟩ := handled_eq hHandled
          exact ⟨rfl, rfl⟩
        exact h.decoded (Or.inl rfl) hHandled rfl hTracks rfl rfl
  | decodeVideo res info =>
      simp only [Pipeline.step, onDecodeVideoEvent, Option.ite_none_left_eq_some] at hStep
      obtain ⟨-, hDecode⟩ := hStep
      split_ifs at hDecode
      · obtain ⟨r, hHandled, rfl⟩ := Option.map_eq_some_iff.mp hDecode
        have hTracks : SameTracks p r := by
          obtain ⟨player, -, rfl⟩ := handled_eq hHandled
          exact ⟨rfl, rfl⟩
        exact h.decoded (Or.inr rfl) hHandled rfl hTracks rfl rfl
      · cases hDecode
        exact h.quiet rfl rfl (by simp) (by simp) ⟨rfl, rfl⟩ rfl rfl
  | seekTo position =>
      simp only [Pipeline.step, Option.ite_none_left_eq_some] at hStep
      exact h.seek hGuard hStep.2
  | others player =>
      simp only [Pipeline.step, Option.ite_none_right_eq_some, Option.some.injEq] at hStep
      obtain ⟨hSaw, rfl⟩ := hStep
      refine ⟨h.sample, h.ends, h.order, ?_, ?_⟩
      · rw [hSaw]
        exact h.reported
      · rw [hSaw]
        exact h.seen

end

/-- As long as no seek leads back from the end, every sample is delivered as it should be. -/
theorem faithful_of_run {start p : Pipeline} {deeds : List Deed}
    (run : Run step SeekGuard start deeds p) (hHistory : start.history = [])
    (hSaw : start.player.mSawInputEOS = false)
    (hSought : start.extractor.sought = start.extractor.position) : p.Faithful := by
  apply Regular.faithful
  apply run.invariant (regular_of_fresh hHistory hSaw hSought)
  intro before deed after hRegular hGuard hStep
  exact hRegular.step hGuard hStep

/-- One sample is read, and then all of them after a seek. -/
def rereading : List Deed :=
  [.readSample 1 16, .seekTo 0, .readSample 2 16, .readSample 1 16, .readSample 3 16]

theorem faithful_of_run_rereading : ∃ p,
    Run step SeekGuard (playing [videoSample 9 0, videoSample 7 40000]) rereading p ∧
      p.player.mSawInputEOS = true ∧ p.Faithful := by
  have hAny : (execGuarded step SeekGuard (playing [videoSample 9 0, videoSample 7 40000])
      rereading).any (fun p => decide (p.player.mSawInputEOS = true)) = true := by decide +kernel
  obtain ⟨p, hRun, hSaw⟩ :=
    Run.exists_of_execGuarded (fun p : Pipeline => p.player.mSawInputEOS = true) hAny
  exact ⟨p, hRun, hSaw, faithful_of_run hRun rfl rfl rfl⟩

/-- The sample is read, then the end, and after a seek the sample again. -/
def seekingBack : List Deed := [.readSample 1 16, .readSample 1 16, .seekTo 0, .readSample 1 16]

/-- The calls for the sample after the seek. -/
def spoilt : Handled :=
  ⟨.readSample, [.dequeueInputBuffer .video 1, .readSampleData (some (videoSample 9 0)),
    .queueInputBuffer .video 1 9 0 bufferFlagEndOfStream]⟩

/-- The sample is queued as the end of the stream and is not passed. -/
theorem exists_not_faithful : ∃ p,
    Run step unguarded (playing [videoSample 9 0]) seekingBack p ∧ spoilt ∈ p.history ∧
      ¬ p.Faithful := by
  have hAny : (exec step (playing [videoSample 9 0]) seekingBack).any
      (fun p => decide (spoilt ∈ p.history)) = true := by decide +kernel
  obtain ⟨p, hRun, hSpoilt⟩ := Run.exists_of_exec (fun p : Pipeline => spoilt ∈ p.history) hAny
  refine ⟨p, hRun, hSpoilt, ?_⟩
  intro hFaithful
  obtain ⟨codec, index, -, hCalls⟩ :=
    hFaithful.sample spoilt hSpoilt (videoSample 9 0) (by decide)
  have hLength := congrArg List.length hCalls
  simp [spoilt] at hLength

end Pipeline

end Meet.NuMediaPlayer
