import Meet.Common.Loans
import Meet.NuMediaPlayer.Handler

/-! The calls that the read, decode and seek events of `NuMediaPlayer.java` make to the codecs
and to the extractor. The flags and the messages are those of the handlers of the player; what
is added here are the samples, the buffers of the codecs, the order of the calls and the
exceptions. -/
namespace Meet.NuMediaPlayer

/-! ### Handlers run to their end -/

def answerTo (answers : Question → Bool) : Cond → Bool
  | .ask question => answers question
  | _ => false

/-- Code of the media thread that is run to its end at once. -/
def runHandler (answers : Question → Bool) : Program → State → Option State
  | .done, s => some s
  | .op operation next, s => (perform s .media 0 operation).bind (runHandler answers next)
  | .test cond yes no, s =>
      if s.holds (answerTo answers cond) cond then runHandler answers yes s
      else runHandler answers no s

/-! ### The handlers among the other threads -/

section
variable {s t : State} {answers : Question → Bool}

theorem perform_media (thread : Thread) (seek : Nat) (operation : Op) (media : MediaThread) :
    perform { s with media := media } thread seek operation =
      (perform s thread seek operation).map fun t => { t with media := media } := by
  cases operation with
  | lock =>
      simp only [perform]
      split_ifs
      all_goals rfl
  | lockWhenStopped =>
      simp only [perform]
      split_ifs
      all_goals rfl
  | _ => rfl

theorem holds_media (answer : Bool) (cond : Cond) (media : MediaThread) :
    State.holds { s with media := media } answer cond = s.holds answer cond := by
  cases cond with
  | _ => rfl

theorem runHandler_media (code : Program) (media : MediaThread) :
    runHandler answers code { s with media := media } =
      (runHandler answers code s).map fun t => { t with media := media } := by
  induction code generalizing s with
  | done => rfl
  | op operation next ih =>
      simp only [runHandler, perform_media]
      cases perform s .media 0 operation with
      | none => rfl
      | some t => exact ih
  | test cond yes no ihYes ihNo =>
      simp only [runHandler, holds_media]
      split_ifs
      · exact ihYes
      · exact ihNo

/-- The media thread can run a handler to its end when no other thread gets in between. -/
theorem runHandler_run {code : Program} (hCode : s.media.code = code)
    (hRun : runHandler answers code s = some t) :
    ∃ acts, Run step unguarded s acts { t with media := ⟨s.media.event, .done⟩ } ∧
      ∀ act ∈ acts, ∃ answer, act = .media answer := by
  induction code generalizing s t with
  | done =>
      have hSame : s = t := Option.some.inj hRun
      subst hSame
      have hMedia : s.media = ⟨s.media.event, .done⟩ := by rw [← hCode]
      refine ⟨[], ?_, by simp⟩
      rw [← hMedia]
      exact .nil s
  | op operation next ih =>
      simp only [runHandler, Option.bind_eq_some_iff] at hRun
      obtain ⟨u, hPerform, hRest⟩ := hRun
      have hStep : step s (.media false) = some { u with media := ⟨s.media.event, next⟩ } := by
        simp only [step, hCode, runCode, hPerform, Option.map_some]
      have hNext : runHandler answers next { u with media := ⟨s.media.event, next⟩ } =
          some { t with media := ⟨s.media.event, next⟩ } := by
        rw [runHandler_media, hRest, Option.map_some]
      obtain ⟨acts, hActs, hMedia⟩ := ih rfl hNext
      refine ⟨.media false :: acts, .cons trivial hStep hActs, ?_⟩
      rw [List.forall_mem_cons]
      exact ⟨⟨false, rfl⟩, hMedia⟩
  | test cond yes no ihYes ihNo =>
      have hStep : step s (.media (answerTo answers cond)) =
          some { s with media := ⟨s.media.event,
            if s.holds (answerTo answers cond) cond then yes else no⟩ } := by
        simp only [step, hCode, runCode, Option.map_some]
      rw [runHandler] at hRun
      cases hHolds : s.holds (answerTo answers cond) cond with
      | true =>
          rw [hHolds, if_pos rfl] at hRun hStep
          have hNext : runHandler answers yes { s with media := ⟨s.media.event, yes⟩ } =
              some { t with media := ⟨s.media.event, yes⟩ } := by
            rw [runHandler_media, hRun, Option.map_some]
          obtain ⟨acts, hActs, hMedia⟩ := ihYes rfl hNext
          refine ⟨_ :: acts, .cons trivial hStep hActs, ?_⟩
          rw [List.forall_mem_cons]
          exact ⟨⟨_, rfl⟩, hMedia⟩
      | false =>
          rw [hHolds, if_neg Bool.false_ne_true] at hRun hStep
          have hNext : runHandler answers no { s with media := ⟨s.media.event, no⟩ } =
              some { t with media := ⟨s.media.event, no⟩ } := by
            rw [runHandler_media, hRun, Option.map_some]
          obtain ⟨acts, hActs, hMedia⟩ := ihNo rfl hNext
          refine ⟨_ :: acts, .cons trivial hStep hActs, ?_⟩
          rw [List.forall_mem_cons]
          exact ⟨⟨_, rfl⟩, hMedia⟩

theorem sawInputEOS_perform {thread : Thread} {seek : Nat} {operation : Op}
    (hOperation : operation ≠ .setSawInputEOS)
    (hPerform : perform s thread seek operation = some t) : t.mSawInputEOS = s.mSawInputEOS := by
  cases operation with
  | setSawInputEOS => exact absurd rfl hOperation
  | lock =>
      simp only [perform, Option.ite_none_right_eq_some, Option.some.injEq] at hPerform
      rw [← hPerform.2]
  | lockWhenStopped =>
      simp only [perform, Option.ite_none_right_eq_some, Option.some.injEq] at hPerform
      rw [← hPerform.2]
  | _ =>
      cases hPerform
      rfl

end

/-! ### Codecs and extractor -/

inductive Codec where
  | audio
  | video
deriving DecidableEq, Repr

inductive Port where
  | input
  | output
deriving DecidableEq, Repr

structure CodecBuffer where
  codec : Codec
  port : Port
  index : Nat
deriving DecidableEq, Repr

def bufferFlagEndOfStream : Nat := 4

def infoOutputFormatChanged : Int := -2

/-- A sample of the extractor. Its flags are those for a sync sample and for encryption. -/
structure Sample where
  trackIndex : Int
  size : Nat
  timeUs : Int
  flags : Nat
  noEnd : flags &&& bufferFlagEndOfStream = 0
deriving DecidableEq, Repr

/-- The samples of the selected tracks and the place of the next one. `sought` is proof data:
where the last seek has led. -/
structure Extractor where
  samples : List Sample
  position : Nat
  sought : Nat
deriving DecidableEq, Repr

namespace Extractor

/-- The sample at the position; behind the last one there is none. -/
def current (extractor : Extractor) : Option Sample := extractor.samples[extractor.position]?

def getSampleTrackIndex (extractor : Extractor) : Int :=
  match extractor.current with
  | some sample => sample.trackIndex
  | none => -1

def advance (extractor : Extractor) : Extractor :=
  { extractor with position := extractor.position + 1 }

def seekTo (extractor : Extractor) (position : Nat) : Extractor :=
  { extractor with position := position, sought := position }

/-- Whether `readSampleData` returns. For a sample that is larger than the buffer its status is
`-ENOMEM`, and it throws. The input buffers of a codec are direct and are filled from 0 on, so
that no other status but that of the end is left. -/
def readSampleDataReturns (extractor : Extractor) (capacity : Nat) : Bool :=
  extractor.current.all fun sample => sample.size ≤ capacity

end Extractor

inductive Call where
  | dequeueInputBuffer (codec : Codec) (result : Int)
  | readSampleData (result : Option Sample)
  | readSampleDataThrows
  | queueInputBuffer (codec : Codec) (index : Int) (size : Nat) (timeUs : Int) (flags : Nat)
  | advance
  | dequeueOutputBuffer (codec : Codec) (result : Int)
  | releaseOutputBuffer (codec : Codec) (index : Int) (render : Bool)
  | seekTo (position : Nat)
deriving DecidableEq, Repr

/-- What an answer of a codec lends to the player. A negative one is a status. -/
def lent (codec : Codec) (port : Port) (result : Int) : List (Loans.Move CodecBuffer) :=
  if 0 ≤ result then [.take ⟨codec, port, result.toNat⟩] else []

def Call.moves : Call → List (Loans.Move CodecBuffer)
  | .dequeueInputBuffer codec result => lent codec .input result
  | .queueInputBuffer codec index _ _ _ => [.give ⟨codec, .input, index.toNat⟩]
  | .dequeueOutputBuffer codec result => lent codec .output result
  | .releaseOutputBuffer codec index _ => [.give ⟨codec, .output, index.toNat⟩]
  | .readSampleData _ | .readSampleDataThrows | .advance | .seekTo _ => []

/-- `MediaCodec.BufferInfo`, and how many bytes there are to be got from the buffer. -/
structure BufferInfo where
  size : Nat
  presentationTimeUs : Int
  flags : Nat
  remaining : Nat
deriving DecidableEq, Repr

/-- An event that has been handled, to its end or up to an exception, with the calls made for
it. -/
structure Handled where
  event : Event
  calls : List Call
deriving DecidableEq, Repr

/-- The player and what its handlers use besides its flags and queues. `mAudioData` is the
length of the array. An exception that a handler throws is caught nowhere and ends the media
thread; `uncaught` says that there was one. -/
structure Pipeline where
  player : State
  mAudioTrackIndex : Int
  mVideoTrackIndex : Int
  mLastTrackIndex : Int
  mAudioTrack : Bool
  mAudioData : Option Nat
  mSawOutputEOS : Bool
  mCurrentTimeUs : Int
  extractor : Extractor
  uncaught : Bool
  history : List Handled
deriving DecidableEq, Repr

namespace Pipeline

/-- The codec of a track that the player decodes. -/
def codecOf (p : Pipeline) (trackIndex : Int) : Option Codec :=
  if trackIndex = p.mAudioTrackIndex then some .audio
  else if trackIndex = p.mVideoTrackIndex then some .video
  else none

def hasCodec (p : Pipeline) : Codec → Bool
  | .audio => p.player.mAudioCodec
  | .video => p.player.mVideoCodec

/-- For another track the codec of the last one is taken. If that track is none of the two
either, the recursion of the source does not end. -/
def getCodec (p : Pipeline) (trackIndex : Int) : Option Codec :=
  match p.codecOf trackIndex with
  | some codec => some codec
  | none => if 0 ≤ p.mLastTrackIndex then p.codecOf p.mLastTrackIndex else none

/-- An event is handled: its code is run with the answers, and its calls are recorded. -/
def handled (p : Pipeline) (event : Event) (answers : Question → Bool) (calls : List Call) :
    Option Pipeline :=
  (runHandler answers (handleMessage event) p.player).map fun player =>
    { p with player := player, history := p.history ++ [⟨event, calls⟩] }

/-- The handler of an event throws after some calls. -/
def thrown (p : Pipeline) (event : Event) (calls : List Call) : Pipeline :=
  { p with uncaught := true, history := p.history ++ [⟨event, calls⟩] }

/-- The calls for a buffer that the codec has lent for input and that the sample fits in. -/
def feed (p : Pipeline) (codec : Codec) (inputBufIndex : Int) : List Call :=
  match p.extractor.current with
  | some sample =>
      [.readSampleData (some sample),
        .queueInputBuffer codec inputBufIndex sample.size sample.timeUs
          (if p.player.mSawInputEOS then bufferFlagEndOfStream else sample.flags)] ++
        if p.player.mSawInputEOS then [] else [.advance]
  | none =>
      [.readSampleData none, .queueInputBuffer codec inputBufIndex 0 0 bufferFlagEndOfStream]

/-- The extractor is advanced behind a sample, unless the end was seen before. -/
def extractorAfter (p : Pipeline) (inputBufIndex : Int) : Extractor :=
  if 0 < inputBufIndex ∧ p.extractor.current.isSome ∧ p.player.mSawInputEOS = false then
    p.extractor.advance
  else p.extractor

def readCalls (p : Pipeline) (codec : Codec) (inputBufIndex : Int) : List Call :=
  .dequeueInputBuffer codec inputBufIndex ::
    if 0 < inputBufIndex then p.feed codec inputBufIndex else []

def readAnswers (p : Pipeline) (inputBufIndex : Int) : Question → Bool
  | .inputBuffer => 0 < inputBufIndex
  | .sampleRead => p.extractor.current.isSome
  | _ => false

def lastTrackIndex (p : Pipeline) (trackIndex : Int) : Int :=
  if 0 ≤ trackIndex then trackIndex else p.mLastTrackIndex

/-- Without an extractor or a codec the handler throws at once, and so does the recursion of
`getCodec` that does not end. A sample that does not fit makes `readSampleData` throw, between
the calls that take the buffer and give it back. -/
def onReadSampleEvent (p : Pipeline) (inputBufIndex : Int) (capacity : Nat) : Option Pipeline :=
  let trackIndex := p.extractor.getSampleTrackIndex
  if p.player.mExtractor then
    match (p.getCodec trackIndex).filter p.hasCodec with
    | none => some (p.thrown .readSample [])
    | some codec =>
        if 0 < inputBufIndex && !p.extractor.readSampleDataReturns capacity then
          some (p.thrown .readSample
            [.dequeueInputBuffer codec inputBufIndex, .readSampleDataThrows])
        else
          (p.handled .readSample (p.readAnswers inputBufIndex)
              (p.readCalls codec inputBufIndex)).map fun q =>
            { q with
              mLastTrackIndex := p.lastTrackIndex trackIndex
              extractor := p.extractorAfter inputBufIndex }
  else some (p.thrown .readSample [])

def hasEndFlag (info : BufferInfo) : Bool := info.flags &&& bufferFlagEndOfStream ≠ 0

/-- The array for the audio data, as long as the largest buffer so far. -/
def audioData (p : Pipeline) (info : BufferInfo) : Nat :=
  match p.mAudioData with
  | some length => if length < info.size then info.size else length
  | none => info.size

/-- `get` takes as many bytes as the array has, and a track to write to is needed. -/
def canWrite (p : Pipeline) (info : BufferInfo) : Bool :=
  p.audioData info ≤ info.remaining && p.mAudioTrack

def decodeCalls (codec : Codec) (res : Int) (render : Bool) : List Call :=
  .dequeueOutputBuffer codec res ::
    if 0 < res then [.releaseOutputBuffer codec res render] else []

def nearSeekingTime (p : Pipeline) (info : BufferInfo) : Bool :=
  (info.presentationTimeUs - p.player.mSeekingTimeUs).natAbs < 10000000

def decodeAnswers (p : Pipeline) (res : Int) (info : BufferInfo) : Question → Bool
  | .outputBuffer => 0 < res
  | .outputFormatChanged => res = infoOutputFormatChanged
  | .nearSeekingTime => p.nearSeekingTime info
  | .endOfStreamFlag => hasEndFlag info
  | _ => false

/-- Without a seek the data is got and written before the buffer is released. -/
def onDecodeAudioEvent (p : Pipeline) (res : Int) (info : BufferInfo) : Option Pipeline :=
  if p.player.mAudioCodec then
    if 0 < res && !p.player.mSeeking && !p.canWrite info then
      some { p.thrown .decodeAudio [.dequeueOutputBuffer .audio res] with
        mAudioData := some (p.audioData info) }
    else
      (p.handled .decodeAudio (p.decodeAnswers res info) (decodeCalls .audio res false)).map
        fun q =>
          if 0 < res then
            { q with
              mAudioData := if p.player.mSeeking then p.mAudioData else some (p.audioData info)
              mCurrentTimeUs := info.presentationTimeUs
              mSawOutputEOS := p.mSawOutputEOS || hasEndFlag info }
          else { q with mAudioTrack := p.mAudioTrack || res = infoOutputFormatChanged }
  else some (p.thrown .decodeAudio [])

/-- A frame that is far from the time sought is not shown. -/
def onDecodeVideoEvent (p : Pipeline) (res : Int) (info : BufferInfo) : Option Pipeline :=
  let render := !p.player.mSeeking || p.nearSeekingTime info
  if p.player.mVideoCodec then
    (p.handled .decodeVideo (p.decodeAnswers res info) (decodeCalls .video res render)).map fun q =>
      { q with mSawOutputEOS := p.mSawOutputEOS || 0 < res && hasEndFlag info }
  else some (p.thrown .decodeVideo [])

/-- Where a seek leads is left to the extractor. If there is none, the handler throws behind
`pause_l`. -/
def onSeekToEvent (p : Pipeline) (position : Nat) : Option Pipeline :=
  if p.player.mExtractor then
    (p.handled .seekTo (fun _ => false) [.seekTo position]).map fun q =>
      { q with extractor := p.extractor.seekTo position }
  else
    (runHandler (fun _ => false) pauseL p.player).map fun player =>
      { p with player := player }.thrown .seekTo []

/-- The events that are handled, in any order, with the answers of the codecs and the size of
the input buffer. In between, the other threads may do to the player what they like, but none of
them stores `mSawInputEOS`. -/
inductive Deed where
  | readSample (inputBufIndex : Int) (capacity : Nat)
  | decodeAudio (res : Int) (info : BufferInfo)
  | decodeVideo (res : Int) (info : BufferInfo)
  | seekTo (position : Nat)
  | others (player : State)
deriving DecidableEq, Repr

/-- After an exception no event is handled. -/
def step (p : Pipeline) : Deed → Option Pipeline
  | .readSample inputBufIndex capacity =>
      if p.uncaught then none else p.onReadSampleEvent inputBufIndex capacity
  | .decodeAudio res info => if p.uncaught then none else p.onDecodeAudioEvent res info
  | .decodeVideo res info => if p.uncaught then none else p.onDecodeVideoEvent res info
  | .seekTo position => if p.uncaught then none else p.onSeekToEvent position
  | .others player =>
      if player.mSawInputEOS = p.player.mSawInputEOS then some { p with player := player } else none

end Pipeline

/-! ### The loans of a handler -/

def Handled.moves (handled : Handled) : List (Loans.Move CodecBuffer) :=
  handled.calls.flatMap Call.moves

/-- A buffer that is given back at once leaves nothing to settle. So does a status. -/
theorem settled_lent (codec : Codec) (port : Port) (result : Int) :
    Loans.Settled (lent codec port result ++
      if 0 < result then [.give ⟨codec, port, result.toNat⟩] else []) ↔ result ≠ 0 := by
  unfold lent
  rcases lt_trichotomy result 0 with hStatus | rfl | hIndex
  · rw [if_neg (by omega), if_neg (by omega)]
    exact iff_of_true rfl (by omega)
  · rw [if_pos (by omega), if_neg (by omega)]
    simp [Loans.Settled, Loans.outstanding]
  · rw [if_pos (by omega), if_pos hIndex]
    simp only [Loans.Settled, Loans.outstanding, List.cons_append, List.nil_append,
      List.mem_singleton, if_true, List.erase_cons_head]
    exact iff_of_true trivial (by omega)

namespace Pipeline

/-- Whether the handler of an event gets to its dequeue call. -/
def dequeues (p : Pipeline) : Deed → Bool
  | .readSample _ _ =>
      p.player.mExtractor && (p.getCodec p.extractor.getSampleTrackIndex).any p.hasCodec
  | .decodeAudio _ _ => p.player.mAudioCodec
  | .decodeVideo _ _ => p.player.mVideoCodec
  | .seekTo _ | .others _ => false

/-- When nothing stays with the player: the codec does not answer with its buffer 0, the sample
fits in the input buffer, and audio that is not dropped for a seek fills the array and has a
track to go to. -/
def GivesBack (p : Pipeline) (deed : Deed) : Prop :=
  p.dequeues deed = true →
    match deed with
    | .readSample inputBufIndex capacity => inputBufIndex ≠ 0 ∧
        (0 < inputBufIndex → ∀ sample ∈ p.extractor.current, sample.size ≤ capacity)
    | .decodeAudio res info => res ≠ 0 ∧
        (0 < res → p.player.mSeeking = false → p.mAudioTrack = true ∧
          info.size ≤ info.remaining ∧ ∀ length ∈ p.mAudioData, length ≤ info.remaining)
    | .decodeVideo res _ => res ≠ 0
    | .seekTo _ | .others _ => True

instance (p : Pipeline) (deed : Deed) : Decidable (p.GivesBack deed) :=
  match deed with
  | .readSample _ _ | .decodeAudio _ _ | .decodeVideo _ _ | .seekTo _ | .others _ =>
      inferInstanceAs (Decidable (_ → _))

section
variable {p q : Pipeline} {deed : Deed}

theorem handled_eq {event : Event} {answers : Question → Bool} {calls : List Call}
    (hHandled : p.handled event answers calls = some q) :
    ∃ player, runHandler answers (handleMessage event) p.player = some player ∧
      q = { p with player := player, history := p.history ++ [⟨event, calls⟩] } := by
  obtain ⟨player, hRun, rfl⟩ := Option.map_eq_some_iff.mp hHandled
  exact ⟨player, hRun, rfl⟩

theorem feed_moves (codec : Codec) (inputBufIndex : Int) :
    (p.feed codec inputBufIndex).flatMap Call.moves =
      [.give ⟨codec, .input, inputBufIndex.toNat⟩] := by
  unfold feed
  cases p.extractor.current with
  | none => rfl
  | some sample =>
      cases p.player.mSawInputEOS with
      | false => rfl
      | true => rfl

/-- A read event throws before it takes a buffer, throws with a buffer in hand because the
sample does not fit, or runs to its end. -/
theorem onReadSampleEvent_cases {inputBufIndex : Int} {capacity : Nat}
    (hRead : p.onReadSampleEvent inputBufIndex capacity = some q) :
    p.dequeues (.readSample inputBufIndex capacity) = false ∧ q = p.thrown .readSample [] ∨
      ∃ codec, p.dequeues (.readSample inputBufIndex capacity) = true ∧
        p.getCodec p.extractor.getSampleTrackIndex = some codec ∧
        ((0 < inputBufIndex ∧ (∃ sample ∈ p.extractor.current, capacity < sample.size) ∧
            q = p.thrown .readSample
              [.dequeueInputBuffer codec inputBufIndex, .readSampleDataThrows]) ∨
          (0 < inputBufIndex → ∀ sample ∈ p.extractor.current, sample.size ≤ capacity) ∧
            ∃ player, runHandler (p.readAnswers inputBufIndex) NuMediaPlayer.onReadSampleEvent
                p.player = some player ∧
              q = { p with
                player := player
                mLastTrackIndex := p.lastTrackIndex p.extractor.getSampleTrackIndex
                extractor := p.extractorAfter inputBufIndex
                history := p.history ++ [⟨.readSample, p.readCalls codec inputBufIndex⟩] }) := by
  simp only [onReadSampleEvent] at hRead
  cases hExtractor : p.player.mExtractor with
  | false =>
      rw [hExtractor, if_neg Bool.false_ne_true] at hRead
      exact Or.inl ⟨by simp [dequeues, hExtractor], (Option.some.inj hRead).symm⟩
  | true =>
      rw [hExtractor, if_pos rfl] at hRead
      cases hFound : (p.getCodec p.extractor.getSampleTrackIndex).filter p.hasCodec with
      | none =>
          rw [hFound] at hRead
          have hNone : p.dequeues (.readSample inputBufIndex capacity) = false := by
            cases hCodec : p.getCodec p.extractor.getSampleTrackIndex with
            | none => simp [dequeues, hCodec]
            | some codec => simpa [dequeues, hExtractor, hCodec] using hFound
          exact Or.inl ⟨hNone, (Option.some.inj hRead).symm⟩
      | some codec =>
          rw [hFound] at hRead
          obtain ⟨hCodec, hHas⟩ := Option.filter_eq_some_iff.mp hFound
          refine Or.inr ⟨codec, by simp [dequeues, hExtractor, hCodec, hHas], hCodec, ?_⟩
          dsimp only at hRead
          split_ifs at hRead with hThrows
          · simp only [Bool.and_eq_true, decide_eq_true_eq, Bool.not_eq_true',
              Extractor.readSampleDataReturns, Option.all_eq_false, decide_eq_false_iff_not, not_le] at hThrows
            obtain ⟨hIndex, sample, hSample, hLarge⟩ := hThrows
            exact Or.inl ⟨hIndex, ⟨sample, hSample, hLarge⟩, (Option.some.inj hRead).symm⟩
          · refine Or.inr ⟨fun hIndex sample hSample => ?_, ?_⟩
            · by_contra hLarge
              refine hThrows ?_
              simp [hIndex, Extractor.readSampleDataReturns, Option.mem_def.mp hSample, hLarge]
            · obtain ⟨r, hHandled, rfl⟩ := Option.map_eq_some_iff.mp hRead
              obtain ⟨player, hRun, rfl⟩ := handled_eq hHandled
              exact ⟨player, hRun, rfl⟩

theorem readCalls_settled (codec : Codec) (inputBufIndex : Int) :
    Loans.Settled (Handled.moves ⟨.readSample, p.readCalls codec inputBufIndex⟩) ↔
      inputBufIndex ≠ 0 := by
  rw [← settled_lent codec .input inputBufIndex, Handled.moves, readCalls, List.flatMap_cons]
  by_cases hIndex : 0 < inputBufIndex
  · rw [if_pos hIndex, if_pos hIndex, feed_moves, Call.moves]
  · rw [if_neg hIndex, if_neg hIndex, Call.moves]
    rfl

theorem decodeCalls_settled (event : Event) (codec : Codec) (res : Int) (render : Bool) :
    Loans.Settled (Handled.moves ⟨event, decodeCalls codec res render⟩) ↔ res ≠ 0 := by
  rw [← settled_lent codec .output res, Handled.moves, decodeCalls, List.flatMap_cons]
  by_cases hIndex : 0 < res
  · rw [if_pos hIndex, if_pos hIndex, Call.moves]
    rfl
  · rw [if_neg hIndex, if_neg hIndex, Call.moves]
    rfl

/-- With a positive answer that is not followed by its release, the buffer stays lent. -/
theorem not_settled_of_lent {codec : Codec} {port : Port} {index : Int} (hIndex : 0 < index) :
    ¬ Loans.Settled (lent codec port index) := by
  rw [lent, if_pos (by omega)]
  simp [Loans.Settled, Loans.outstanding]

theorem canWrite_iff (info : BufferInfo) :
    p.canWrite info = true ↔ p.mAudioTrack = true ∧ info.size ≤ info.remaining ∧
      ∀ length ∈ p.mAudioData, length ≤ info.remaining := by
  cases hData : p.mAudioData with
  | none => simp [canWrite, audioData, hData, and_comm]
  | some length =>
      simp only [canWrite, audioData, hData, Bool.and_eq_true, decide_eq_true_eq, Option.mem_def,
        Option.some.injEq, forall_eq']
      constructor
      · rintro ⟨hFits, hTrack⟩
        split_ifs at hFits
        · exact ⟨hTrack, hFits, by omega⟩
        · exact ⟨hTrack, by omega, hFits⟩
      · rintro ⟨hTrack, hSize, hLength⟩
        refine ⟨?_, hTrack⟩
        split_ifs
        · exact hSize
        · exact hLength

/-- An audio event throws before it takes a buffer, throws with a buffer in hand because the data
cannot be written, or runs to its end. -/
theorem onDecodeAudioEvent_cases {res : Int} {info : BufferInfo}
    (hDecode : p.onDecodeAudioEvent res info = some q) :
    p.dequeues (.decodeAudio res info) = false ∧ q = p.thrown .decodeAudio [] ∨
      p.dequeues (.decodeAudio res info) = true ∧
        ((0 < res ∧ p.player.mSeeking = false ∧ p.canWrite info = false ∧
            q = { p.thrown .decodeAudio [.dequeueOutputBuffer .audio res] with
              mAudioData := some (p.audioData info) }) ∨
          (0 < res → p.player.mSeeking = false → p.canWrite info = true) ∧
            ∃ r, p.handled .decodeAudio (p.decodeAnswers res info) (decodeCalls .audio res false) =
                some r ∧
              ∃ mAudioTrack mAudioData mSawOutputEOS mCurrentTimeUs, q = { r with
                mAudioTrack := mAudioTrack
                mAudioData := mAudioData
                mSawOutputEOS := mSawOutputEOS
                mCurrentTimeUs := mCurrentTimeUs }) := by
  simp only [onDecodeAudioEvent] at hDecode
  by_cases hCodec : p.player.mAudioCodec = true
  · rw [if_pos hCodec] at hDecode
    by_cases hThrows : (0 < res && !p.player.mSeeking && !p.canWrite info) = true
    · rw [if_pos hThrows] at hDecode
      simp only [Bool.and_eq_true, decide_eq_true_eq, Bool.not_eq_true'] at hThrows
      obtain ⟨⟨hIndex, hSeeking⟩, hWrite⟩ := hThrows
      exact Or.inr ⟨hCodec, Or.inl ⟨hIndex, hSeeking, hWrite, (Option.some.inj hDecode).symm⟩⟩
    · rw [if_neg hThrows] at hDecode
      refine Or.inr ⟨hCodec, Or.inr ⟨fun hIndex hSeeking => ?_, ?_⟩⟩
      · simpa [hIndex, hSeeking] using hThrows
      · obtain ⟨r, hHandled, rfl⟩ := Option.map_eq_some_iff.mp hDecode
        refine ⟨r, hHandled, ?_⟩
        by_cases hIndex : 0 < res
        · exact ⟨_, _, _, _, if_pos hIndex⟩
        · exact ⟨_, _, _, _, if_neg hIndex⟩
  · rw [if_neg hCodec] at hDecode
    exact Or.inl ⟨by simpa [dequeues] using hCodec, (Option.some.inj hDecode).symm⟩

/-- What a step adds to the history: nothing, or an event whose loans are settled exactly when
the condition is met. -/
theorem step_history (hStep : p.step deed = some q) :
    q.history = p.history ∧ p.GivesBack deed ∨
      ∃ handled, q.history = p.history ++ [handled] ∧
        (Loans.Settled handled.moves ↔ p.GivesBack deed) := by
  cases deed with
  | readSample inputBufIndex capacity =>
      simp only [step, Option.ite_none_left_eq_some] at hStep
      rcases onReadSampleEvent_cases hStep.2 with
        ⟨hNone, rfl⟩ | ⟨codec, hDequeues, -, ⟨hIndex, ⟨sample, hSample, hLarge⟩, rfl⟩ |
          ⟨hFits, player, -, rfl⟩⟩
      · exact Or.inr ⟨_, rfl, iff_of_true rfl (by simp [GivesBack, hNone])⟩
      · refine Or.inr ⟨_, rfl, iff_of_false ?_ ?_⟩
        · simpa [Handled.moves, Call.moves] using not_settled_of_lent hIndex
        · intro hGives
          have hSmall := (hGives hDequeues).2 hIndex sample hSample
          omega
      · refine Or.inr ⟨_, rfl, ?_⟩
        rw [readCalls_settled, GivesBack, hDequeues]
        exact ⟨fun hIndex _ => ⟨hIndex, hFits⟩, fun hGives => (hGives rfl).1⟩
  | decodeAudio res info =>
      simp only [step, Option.ite_none_left_eq_some] at hStep
      rcases onDecodeAudioEvent_cases hStep.2 with
        ⟨hNone, rfl⟩ | ⟨hDequeues, ⟨hIndex, hSeeking, hWrite, rfl⟩ |
          ⟨hWrites, r, hHandled, _, _, _, _, rfl⟩⟩
      · exact Or.inr ⟨_, rfl, iff_of_true rfl (by simp [GivesBack, hNone])⟩
      · refine Or.inr ⟨_, rfl, iff_of_false ?_ ?_⟩
        · simpa [Handled.moves, Call.moves] using not_settled_of_lent hIndex
        · intro hGives
          have hCan := (canWrite_iff info).mpr ((hGives hDequeues).2 hIndex hSeeking)
          rw [hCan] at hWrite
          cases hWrite
      · obtain ⟨player, -, rfl⟩ := handled_eq hHandled
        refine Or.inr ⟨_, rfl, ?_⟩
        rw [decodeCalls_settled, GivesBack, hDequeues]
        refine ⟨fun hIndex _ => ⟨hIndex, fun hPositive hSeeking => ?_⟩, fun hGives => (hGives rfl).1⟩
        exact (canWrite_iff info).mp (hWrites hPositive hSeeking)
  | decodeVideo res info =>
      simp only [step, onDecodeVideoEvent, Option.ite_none_left_eq_some] at hStep
      obtain ⟨-, hDecode⟩ := hStep
      split_ifs at hDecode with hCodec
      · obtain ⟨r, hHandled, rfl⟩ := Option.map_eq_some_iff.mp hDecode
        obtain ⟨player, -, rfl⟩ := handled_eq hHandled
        refine Or.inr ⟨_, rfl, ?_⟩
        rw [decodeCalls_settled]
        simp [GivesBack, dequeues, hCodec]
      · cases hDecode
        exact Or.inr ⟨_, rfl, iff_of_true rfl (by simp [GivesBack, dequeues, hCodec])⟩
  | seekTo position =>
      simp only [step, onSeekToEvent, Option.ite_none_left_eq_some] at hStep
      obtain ⟨-, hSeek⟩ := hStep
      have hGives : p.GivesBack (.seekTo position) := fun _ => trivial
      split_ifs at hSeek
      · obtain ⟨r, hHandled, rfl⟩ := Option.map_eq_some_iff.mp hSeek
        obtain ⟨player, -, rfl⟩ := handled_eq hHandled
        exact Or.inr ⟨_, rfl, iff_of_true rfl hGives⟩
      · obtain ⟨player, -, rfl⟩ := Option.map_eq_some_iff.mp hSeek
        exact Or.inr ⟨_, rfl, iff_of_true rfl hGives⟩
  | others player =>
      simp only [step, Option.ite_none_right_eq_some, Option.some.injEq] at hStep
      obtain ⟨-, rfl⟩ := hStep
      exact Or.inl ⟨rfl, fun _ => trivial⟩

end

/-- After each of the events that have been handled, no buffer of a codec was on loan. -/
def OwnsNone (p : Pipeline) : Prop :=
  ∀ events, events <+: p.history → Loans.Settled (events.flatMap Handled.moves)

section
variable {p q : Pipeline}

theorem ownsNone_of_append {handled : Handled} (hHistory : q.history = p.history ++ [handled]) :
    q.OwnsNone ↔ p.OwnsNone ∧ Loans.Settled handled.moves := by
  constructor
  · intro hOwns
    have hBefore : p.OwnsNone := by
      intro events hEvents
      apply hOwns
      rw [hHistory]
      exact hEvents.trans (List.prefix_append _ _)
    refine ⟨hBefore, ?_⟩
    have hAll := hOwns q.history (List.prefix_refl _)
    rw [hHistory, List.flatMap_append, List.flatMap_singleton] at hAll
    exact (hBefore _ (List.prefix_refl _)).of_append hAll
  · rintro ⟨hOwns, hSettled⟩ events hEvents
    rw [hHistory] at hEvents
    rcases List.prefix_concat_iff.mp hEvents with rfl | hBefore
    · rw [List.flatMap_append, List.flatMap_singleton]
      exact (hOwns _ (List.prefix_refl _)).append hSettled
    · exact hOwns events hBefore

/-- Whatever the order of the events, no buffer stays with the player behind any of them exactly
if every event of the run meets the condition in the state before it. -/
theorem ownsNone_iff {start : Pipeline} {deeds : List Deed}
    (run : Run step unguarded start deeds p) (hStart : start.history = []) :
    p.OwnsNone ↔ Run step GivesBack start deeds p := by
  induction run with
  | nil =>
      apply iff_of_true
      · intro events hEvents
        rw [hStart] at hEvents
        rw [List.prefix_nil.mp hEvents]
        rfl
      · exact .nil _
  | snoc prior meets last ih =>
      rw [Run.snoc_iff prior last, ← ih]
      rcases step_history last with ⟨hSame, hGives⟩ | ⟨handled, hHistory, hSettled⟩
      · rw [OwnsNone, hSame]
        exact (and_iff_left hGives).symm
      · rw [ownsNone_of_append hHistory, hSettled]

end

/-- A player that has been prepared and started, with audio in track 0 and video in track 1. -/
def playing (samples : List Sample) : Pipeline where
  player := { NuMediaPlayer.initial 0 with
    mState := .started
    mHaveAudio := true
    mHaveVideo := true
    mExtractor := true
    mAudioCodec := true
    mVideoCodec := true }
  mAudioTrackIndex := 0
  mVideoTrackIndex := 1
  mLastTrackIndex := -1
  mAudioTrack := true
  mAudioData := none
  mSawOutputEOS := false
  mCurrentTimeUs := 0
  extractor := ⟨samples, 0, 0⟩
  uncaught := false
  history := []

/-- A video sample of the given size and time. -/
def videoSample (size : Nat) (timeUs : Int) : Sample := ⟨1, size, timeUs, 1, rfl⟩

/-- A sample goes into a buffer that it fills, a frame comes out, and so does audio. -/
def feeding : List Deed :=
  [.readSample 3 9, .decodeVideo 2 ⟨0, 0, 0, 0⟩, .decodeAudio (-1) ⟨0, 0, 0, 0⟩,
    .decodeAudio 1 ⟨8, 0, 0, 8⟩, .decodeAudio 4 ⟨6, 20, 0, 8⟩]

theorem ownsNone_iff_feeding : ∃ p, Run step unguarded (playing [videoSample 9 0]) feeding p ∧
    p.history.length = 5 ∧ p.OwnsNone := by
  have hAny : (execGuarded step GivesBack (playing [videoSample 9 0]) feeding).any
      (fun p => decide (p.history.length = 5)) = true := by decide +kernel
  obtain ⟨p, hRun, hLength⟩ :=
    Run.exists_of_execGuarded (fun p : Pipeline => p.history.length = 5) hAny
  have hFree : Run step unguarded (playing [videoSample 9 0]) feeding p :=
    hRun.mono fun _ _ _ => trivial
  exact ⟨p, hFree, hLength, (ownsNone_iff hFree rfl).mpr hRun⟩

-- The second frame of audio is got into the array of the first, which is longer.
example : (exec step (playing []) [.decodeAudio 1 ⟨8, 0, 0, 8⟩, .decodeAudio 4 ⟨6, 20, 0, 6⟩]).map
    Pipeline.history = some [⟨.decodeAudio, decodeCalls .audio 1 false⟩,
      ⟨.decodeAudio, [.dequeueOutputBuffer .audio 4]⟩] := by
  decide +kernel

/-- Buffer 0 of the video codec is not given back. -/
theorem exists_not_ownsNone : ∃ p, Run step unguarded (playing [videoSample 9 0])
      [.decodeVideo 0 ⟨0, 0, 0, 0⟩] p ∧ ¬ p.OwnsNone := by
  have hAny : (exec step (playing [videoSample 9 0]) [.decodeVideo 0 ⟨0, 0, 0, 0⟩]).any
      (fun p => decide (p.history = [⟨.decodeVideo, [.dequeueOutputBuffer .video 0]⟩])) =
        true := by decide +kernel
  obtain ⟨p, hRun, hHistory⟩ := Run.exists_of_exec
    (fun p : Pipeline => p.history = [⟨.decodeVideo, [.dequeueOutputBuffer .video 0]⟩]) hAny
  refine ⟨p, hRun, ?_⟩
  intro hOwns
  have hSettled := hOwns p.history (List.prefix_refl _)
  rw [hHistory] at hSettled
  exact absurd hSettled (by decide)

end Pipeline

end Meet.NuMediaPlayer
