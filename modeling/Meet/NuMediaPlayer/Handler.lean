import Meet.Common.Run
import Meet.Common.Code
import Meet.Common.MessageQueue

/-! The player of `NuMediaPlayer.java` over its two message queues. The methods and the
message handlers are code of a few operations, each of which reads or writes one thing
the threads share; any number of application threads and the media handler thread run
such code in turn. -/
namespace Meet.NuMediaPlayer

inductive PlayState where
  | idle
  | initialized
  | preparing
  | prepared
  | started
  | stopped
  | paused
  | playbackCompleted
  | ending
  | error
deriving DecidableEq, Repr

/-- The messages of `mMediaEventHandler`. The last three are the runnables that
`prepareAsync`, `stop` and `release` post. -/
inductive Event where
  | readSample
  | decodeAudio
  | decodeVideo
  | seekTo
  | bufferingUpdateCheck
  | bufferingStartCheck
  | bufferingEndCheck
  | prepareRunnable
  | stopRunnable
  | releaseRunnable
deriving DecidableEq, Repr

/-- The messages of `mEventHandler`. -/
inductive Media where
  | prepared
  | playbackComplete
  | bufferingUpdate
  | seekComplete
  | setVideoSize
  | error
  | infoBufferingStart
  | infoBufferingEnd
deriving DecidableEq, Repr

/-- What is asked of the extractor and of the codecs. -/
inductive Question where
  | setDataSource
  | hasAudioTrack
  | hasVideoTrack
  | audioDecoder
  | videoDecoder
  | inputBuffer
  | sampleRead
  | outputBuffer
  | outputFormatChanged
  | nearSeekingTime
  | endOfStreamFlag
  | cachedDuration
  | hasCachedReachedEndOfStream
deriving DecidableEq, Repr

inductive Cond where
  | stateIn (states : List PlayState)
  | isBuffering
  | isOnline
  | seeking
  | sawInputEOS
  | haveAudio
  | haveVideo
  | ask (question : Question)
deriving DecidableEq, Repr

inductive Op where
  | setState (state : PlayState)
  | setBufferingStatus (status : Bool)
  | setSeeking (value : Bool)
  | setSeekingTimeUs (timeUs : Int)
  | setSawInputEOS
  | setOnline (value : Bool)
  | setExtractor (present : Bool)
  | setAudioCodec (present : Bool)
  | setVideoCodec (present : Bool)
  | setHaveAudio
  | setHaveVideo
  | send (event : Event) (delayMillis : Nat)
  | sendAtFront (event : Event)
  | removeMessages (event : Event)
  | removeAllMediaEvents
  | removeAllNotifications
  | notify (message : Media)
  | seekExtractor
  | lock
  | unlock
  | lockWhenStopped
deriving DecidableEq, Repr

abbrev Program := Code Op Cond

def postBufferingStartCheckEvent : Program := .ofList [.send .bufferingStartCheck 0]

def postReadSampleEvent : Program :=
  postBufferingStartCheckEvent ++ .ofList [.send .readSample 0]

def postDecodeAudioEvent : Program := .ofList [.send .decodeAudio 0]

def postDecodeVideoEvent : Program := .ofList [.send .decodeVideo 0]

def postBufferingUpdateCheckEvent : Program :=
  .test (.stateIn [.playbackCompleted]) .done (.ofList [.send .bufferingUpdateCheck 1000])

def postBufferingEndCheckEvent (delayMillis : Nat) : Program :=
  .ofList [.send .bufferingEndCheck delayMillis]

def postPlaybackCompletionEvent : Program :=
  .ofList [.setState .playbackCompleted, .notify .playbackComplete]

def postSetVideoSizeEvent : Program := .ofList [.notify .setVideoSize]

def removeAllEvents : Program := .ofList [.removeAllMediaEvents, .removeAllNotifications]

/-- The call of `removeAllEvents` at the head of `play_l` is commented out in the source. -/
def playL : Program :=
  postReadSampleEvent ++ postDecodeAudioEvent ++ postDecodeVideoEvent ++
    postBufferingUpdateCheckEvent

def pauseL : Program := removeAllEvents ++ postBufferingUpdateCheckEvent

/-- The sample is read only if the codec has an input buffer. A read that throws ends the
thread: see `Pipeline.onReadSampleEvent`. -/
def onReadSampleEvent : Program :=
  .test (.ask .inputBuffer) (.test (.ask .sampleRead) again (.op .setSawInputEOS again)) again
where
  whenSeeking : Program := .test .seeking postReadSampleEvent .done
  again : Program :=
    .test (.stateIn [.started]) (.test .sawInputEOS whenSeeking postReadSampleEvent) whenSeeking

def onDecodeAudioEvent : Program :=
  .test (.ask .outputBuffer)
    (.test (.ask .endOfStreamFlag) (postPlaybackCompletionEvent ++ again) again) again
where
  again : Program :=
    .test (.stateIn [.started]) postDecodeAudioEvent (.test .seeking postDecodeAudioEvent .done)

def onDecodeVideoEvent : Program :=
  .test (.ask .outputBuffer)
    (.test .seeking
      (.test (.ask .nearSeekingTime) (.op (.setSeeking false) release) release) release)
    (.test (.ask .outputFormatChanged) (postSetVideoSizeEvent ++ again) again)
where
  again : Program :=
    .test (.stateIn [.started]) postDecodeVideoEvent (.test .seeking postDecodeVideoEvent .done)
  release : Program :=
    .test (.ask .endOfStreamFlag) (postPlaybackCompletionEvent ++ again) again

def onBufferingUpdateCheckEvent : Program :=
  .ofList [.removeMessages .bufferingUpdateCheck, .notify .bufferingUpdate] ++
    postBufferingUpdateCheckEvent

def onBufferingStartCheckEvent : Program :=
  .test .isOnline
    (.test (.ask .cachedDuration) check
      (.test (.ask .hasCachedReachedEndOfStream) check
        (pauseL ++ .test .isBuffering .done (.ofList [.notify .infoBufferingStart]) ++
          .ofList [.setBufferingStatus true] ++ check)))
    .done
where
  check : Program := .test .isBuffering (postBufferingEndCheckEvent 0) .done

def onBufferingEndCheckEvent : Program :=
  .test .isOnline
    (.test (.ask .cachedDuration)
      (playL ++ .test .isBuffering (.ofList [.notify .infoBufferingEnd]) .done ++
        .ofList [.setBufferingStatus false] ++ check)
      check)
    .done
where
  check : Program := .test .isBuffering (postBufferingEndCheckEvent 100) .done

def onSeekToEvent : Program :=
  pauseL ++ .ofList [.seekExtractor] ++ playL ++ .ofList [.notify .seekComplete]

/-- The runnable of `prepareAsync`. A decoder that fails to start leaves its codec null. -/
def onPrepare : Program :=
  .op .lock
    (.test (.ask .setDataSource)
      (.test .haveAudio findVideo
        (.test (.ask .hasAudioTrack) (.op .setHaveAudio findVideo) findVideo))
      fail)
where
  fail : Program := .ofList [.setState .error, .notify .error, .unlock]
  videoDecoder : Program :=
    .test (.ask .videoDecoder)
      (.ofList [.setVideoCodec true, .setState .prepared, .notify .prepared, .unlock])
      (.op (.setVideoCodec false) fail)
  audioDecoder : Program :=
    .test (.ask .audioDecoder) (.op (.setAudioCodec true) videoDecoder)
      (.op (.setAudioCodec false) fail)
  tracksFound : Program := .test .haveAudio (.test .haveVideo audioDecoder fail) fail
  findVideo : Program :=
    .test .haveVideo tracksFound
      (.test (.ask .hasVideoTrack) (postSetVideoSizeEvent ++ .op .setHaveVideo tracksFound)
        tracksFound)

/-- The runnable of `stop`. -/
def onStop : Program := removeAllEvents ++ .ofList [.lock, .setState .stopped, .unlock]

/-- The runnable of `release_l`. -/
def onRelease : Program :=
  removeAllEvents ++
    .ofList [.setAudioCodec false, .setVideoCodec false, .setExtractor false, .setState .ending]

/-- `handleMessage` of the media handler. -/
def handleMessage : Event → Program
  | .readSample => onReadSampleEvent
  | .decodeAudio => onDecodeAudioEvent
  | .decodeVideo => onDecodeVideoEvent
  | .seekTo => onSeekToEvent
  | .bufferingUpdateCheck => onBufferingUpdateCheckEvent
  | .bufferingStartCheck => onBufferingStartCheckEvent
  | .bufferingEndCheck => onBufferingEndCheckEvent
  | .prepareRunnable => onPrepare
  | .stopRunnable => onStop
  | .releaseRunnable => onRelease

/-- The calls of the application. A URI that is not valid throws at once, so that the one
of `setDataSource` is, and `online` says what kind it is. -/
inductive Request where
  | setDataSource (online : Bool)
  | prepareAsync
  | start
  | pause
  | seekTo (seekingTime : Int)
  | stop
  | release
deriving DecidableEq, Repr

def setDataSource (online : Bool) : Program :=
  .ofList [.setOnline online, .setExtractor true, .setState .initialized]

def prepareAsync : Program :=
  .test (.stateIn [.initialized])
    (.ofList [.setState .preparing, .sendAtFront .prepareRunnable]) .done

/-- The state is read once more after the read that decides whether to throw. -/
def start : Program :=
  .test (.stateIn [.prepared, .paused])
    (.test (.stateIn [.started]) .done (.ofList [.setState .started] ++ playL)) .done

def pause : Program := .test (.stateIn [.paused]) .done (.ofList [.setState .paused] ++ pauseL)

/-- Milliseconds fit in an `int`, so microseconds do not overflow a `long`. -/
def seekTo (seekingTime : Int) : Program :=
  .test (.stateIn [.started, .paused, .prepared])
    (.ofList [.setSeeking true, .setSeekingTimeUs (seekingTime * 1000), .sendAtFront .seekTo])
    .done

/-- The waits on `notStopped` end with the lock held in the state `STOPPED`. -/
def stop : Program :=
  .test (.stateIn [.stopped]) .done (.ofList [.sendAtFront .stopRunnable, .lockWhenStopped, .unlock])

def release : Program := .ofList [.lock, .sendAtFront .releaseRunnable, .unlock]

def Request.program : Request → Program
  | .setDataSource online => NuMediaPlayer.setDataSource online
  | .prepareAsync => NuMediaPlayer.prepareAsync
  | .start => NuMediaPlayer.start
  | .pause => NuMediaPlayer.pause
  | .seekTo seekingTime => NuMediaPlayer.seekTo seekingTime
  | .stop => NuMediaPlayer.stop
  | .release => NuMediaPlayer.release

inductive Thread where
  | media
  | app (number : Nat)
deriving DecidableEq, Repr

/-- The media handler thread: what it handles, and what is left of the handler. -/
structure MediaThread where
  event : Event
  code : Program
deriving DecidableEq, Repr

/-- An application thread. `seek` is proof data: the number of the seek it has last
accepted. -/
structure AppThread where
  code : Program
  seek : Nat
deriving DecidableEq, Repr

/-- A call of `mExtractor.seekTo`, with the number of seeks accepted by then. -/
structure Sought where
  timeUs : Int
  accepted : Nat
deriving DecidableEq, Repr

/-- The fields of the player, its threads and the clock. `delivering` is the message that
`mEventHandler` has taken and not yet handled, and `received` are all it has taken for the
listeners. The last three fields are proof data: the times of the seeks in the order
they were accepted, the numbers of those whose call has returned, and the calls of
`mExtractor.seekTo`. -/
structure State where
  mState : PlayState
  mIsOnline : Bool
  mIsBuffering : Bool
  mSeeking : Bool
  mSeekingTimeUs : Int
  mSawInputEOS : Bool
  mHaveAudio : Bool
  mHaveVideo : Bool
  mExtractor : Bool
  mAudioCodec : Bool
  mVideoCodec : Bool
  mLock : Option Thread
  mMediaEventHandler : List (Timed Event)
  mEventHandler : List Media
  uptimeMillis : Nat
  media : MediaThread
  apps : List AppThread
  delivering : Option Media
  received : List Media
  accepted : List Int
  returned : List Nat
  sought : List Sought
deriving DecidableEq, Repr

/-- A new player that a number of threads share. -/
def initial (threads : Nat) : State where
  mState := .idle
  mIsOnline := true
  mIsBuffering := false
  mSeeking := false
  mSeekingTimeUs := 0
  mSawInputEOS := false
  mHaveAudio := false
  mHaveVideo := false
  mExtractor := false
  mAudioCodec := false
  mVideoCodec := false
  mLock := none
  mMediaEventHandler := []
  mEventHandler := []
  uptimeMillis := 1
  media := ⟨.readSample, .done⟩
  apps := List.replicate threads ⟨.done, 0⟩
  delivering := none
  received := []
  accepted := []
  returned := []
  sought := []

namespace State

/-- A question is answered from outside; the other conditions are read. -/
def holds (s : State) (answer : Bool) : Cond → Bool
  | .stateIn states => s.mState ∈ states
  | .isBuffering => s.mIsBuffering
  | .isOnline => s.mIsOnline
  | .seeking => s.mSeeking
  | .sawInputEOS => s.mSawInputEOS
  | .haveAudio => s.mHaveAudio
  | .haveVideo => s.mHaveVideo
  | .ask _ => answer

/-- The media queue after an operation. -/
def queueAfter (s : State) : Op → List (Timed Event)
  | .send event delayMillis =>
      MessageQueue.enqueue ⟨event, s.uptimeMillis + delayMillis⟩ s.mMediaEventHandler
  | .sendAtFront event => MessageQueue.enqueue ⟨event, 0⟩ s.mMediaEventHandler
  | .removeMessages event => s.mMediaEventHandler.filter (·.what ≠ event)
  | .removeAllMediaEvents => []
  | _ => s.mMediaEventHandler

end State

/-- An operation of a thread, whose last seek has the given number. A thread that waits
for the lock has no step. -/
def perform (s : State) (thread : Thread) (seek : Nat) : Op → Option State
  | .setState state => some { s with mState := state }
  | .setBufferingStatus status => some { s with mIsBuffering := status }
  | .setSeeking value => some { s with mSeeking := value }
  | .setSeekingTimeUs timeUs =>
      some { s with mSeekingTimeUs := timeUs, accepted := s.accepted ++ [timeUs] }
  | .setSawInputEOS => some { s with mSawInputEOS := true }
  | .setOnline value => some { s with mIsOnline := value }
  | .setExtractor present => some { s with mExtractor := present }
  | .setAudioCodec present => some { s with mAudioCodec := present }
  | .setVideoCodec present => some { s with mVideoCodec := present }
  | .setHaveAudio => some { s with mHaveAudio := true }
  | .setHaveVideo => some { s with mHaveVideo := true }
  | .send event delayMillis =>
      some { s with mMediaEventHandler := s.queueAfter (.send event delayMillis) }
  | .sendAtFront event =>
      some { s with
        mMediaEventHandler := s.queueAfter (.sendAtFront event)
        returned := if event = .seekTo then s.returned ++ [seek] else s.returned }
  | .removeMessages event =>
      some { s with mMediaEventHandler := s.queueAfter (.removeMessages event) }
  | .removeAllMediaEvents => some { s with mMediaEventHandler := [] }
  | .removeAllNotifications => some { s with mEventHandler := [] }
  | .notify message => some { s with mEventHandler := s.mEventHandler ++ [message] }
  | .seekExtractor =>
      some { s with sought := s.sought ++ [⟨s.mSeekingTimeUs, s.accepted.length⟩] }
  | .lock => if s.mLock = none then some { s with mLock := some thread } else none
  | .unlock => some { s with mLock := none }
  | .lockWhenStopped =>
      if s.mLock = none ∧ s.mState = .stopped then some { s with mLock := some thread } else none

/-- What is left of the code after one step, with the state. -/
def runCode (s : State) (thread : Thread) (seek : Nat) (answer : Bool) :
    Program → Option (State × Program)
  | .done => none
  | .op operation next => (perform s thread seek operation).map fun t => (t, next)
  | .test cond yes no => some (s, if s.holds answer cond then yes else no)

inductive Act where
  | call (number : Nat) (request : Request)
  | app (number : Nat) (answer : Bool)
  | dispatch
  | media (answer : Bool)
  | deliver
  | handle
  | tick (millis : Nat)
deriving DecidableEq, Repr

/-- The number of the seek a thread has last accepted, after an operation. -/
def seekAfter (s : State) (thread : AppThread) : Nat :=
  match thread.code with
  | .op (.setSeekingTimeUs _) _ => s.accepted.length + 1
  | _ => thread.seek

/-- One step of an application thread, of the media thread, of the looper of `mEventHandler`,
or of the clock. The media thread takes the first message once it is due. The looper takes a
message and then handles it, which stores `PREPARED` for `MEDIA_PREPARED`. -/
def step (s : State) : Act → Option State
  | .call number request =>
      match s.apps[number]? with
      | some thread =>
          if thread.code.isDone then
            some { s with apps := s.apps.set number { thread with code := request.program } }
          else none
      | none => none
  | .app number answer =>
      match s.apps[number]? with
      | some thread =>
          (runCode s (.app number) thread.seek answer thread.code).map fun after =>
            { after.1 with
              apps := s.apps.set number ⟨after.2, seekAfter s thread⟩ }
      | none => none
  | .dispatch =>
      match s.media.code, s.mMediaEventHandler with
      | .done, message :: rest =>
          if message.due ≤ s.uptimeMillis then
            some { s with
              mMediaEventHandler := rest
              media := ⟨message.what, handleMessage message.what⟩ }
          else none
      | _, _ => none
  | .media answer =>
      (runCode s .media 0 answer s.media.code).map fun after =>
        { after.1 with media := ⟨s.media.event, after.2⟩ }
  | .deliver =>
      match s.delivering, s.mEventHandler with
      | none, message :: rest =>
          some { s with
            mEventHandler := rest
            delivering := some message
            received := s.received ++ [message] }
      | _, _ => none
  | .handle =>
      match s.delivering with
      | some message =>
          some { s with
            mState := if message = .prepared then .prepared else s.mState
            delivering := none }
      | none => none
  | .tick millis => some { s with uptimeMillis := s.uptimeMillis + millis }

section
variable {s t : State} {thread : Thread} {seek : Nat} {operation : Op}

/-- An operation changes the media queue as `queueAfter` says, and no thread. -/
theorem perform_frame (hPerform : perform s thread seek operation = some t) :
    t.mMediaEventHandler = s.queueAfter operation ∧ t.media = s.media ∧ t.apps = s.apps := by
  cases operation with
  | lock =>
      simp only [perform, Option.ite_none_right_eq_some, Option.some.injEq] at hPerform
      rw [← hPerform.2]
      exact ⟨rfl, rfl, rfl⟩
  | lockWhenStopped =>
      simp only [perform, Option.ite_none_right_eq_some, Option.some.injEq] at hPerform
      rw [← hPerform.2]
      exact ⟨rfl, rfl, rfl⟩
  | _ =>
      cases hPerform
      exact ⟨rfl, rfl, rfl⟩

end

/-- What each action can do, with what it needs. -/
inductive Moves (s : State) : Act → State → Prop where
  | call {number : Nat} {thread : AppThread} (request : Request)
      (hThread : s.apps[number]? = some thread) (hIdle : thread.code = .done) :
      Moves s (.call number request)
        { s with apps := s.apps.set number { thread with code := request.program } }
  | appOp {number : Nat} {thread : AppThread} {answer : Bool} {operation : Op} {next : Program}
      {t : State} (hThread : s.apps[number]? = some thread)
      (hCode : thread.code = .op operation next)
      (hPerform : perform s (.app number) thread.seek operation = some t) :
      Moves s (.app number answer)
        { t with apps := s.apps.set number ⟨next, seekAfter s thread⟩ }
  | appTest {number : Nat} {thread : AppThread} {answer : Bool} {cond : Cond}
      {yes no : Program} (hThread : s.apps[number]? = some thread)
      (hCode : thread.code = .test cond yes no) :
      Moves s (.app number answer)
        { s with
          apps := s.apps.set number
            ⟨if s.holds answer cond then yes else no, seekAfter s thread⟩ }
  | dispatch {message : Timed Event} {rest : List (Timed Event)} (hIdle : s.media.code = .done)
      (hQueue : s.mMediaEventHandler = message :: rest) (hDue : message.due ≤ s.uptimeMillis) :
      Moves s .dispatch
        { s with
          mMediaEventHandler := rest
          media := ⟨message.what, handleMessage message.what⟩ }
  | mediaOp {answer : Bool} {operation : Op} {next : Program} {t : State}
      (hCode : s.media.code = .op operation next)
      (hPerform : perform s .media 0 operation = some t) :
      Moves s (.media answer) { t with media := ⟨s.media.event, next⟩ }
  | mediaTest {answer : Bool} {cond : Cond} {yes no : Program}
      (hCode : s.media.code = .test cond yes no) :
      Moves s (.media answer)
        { s with media := ⟨s.media.event, if s.holds answer cond then yes else no⟩ }
  | deliver {message : Media} {rest : List Media} (hFree : s.delivering = none)
      (hQueue : s.mEventHandler = message :: rest) :
      Moves s .deliver
        { s with
          mEventHandler := rest
          delivering := some message
          received := s.received ++ [message] }
  | handle {message : Media} (hTaken : s.delivering = some message) :
      Moves s .handle
        { s with
          mState := if message = .prepared then .prepared else s.mState
          delivering := none }
  | tick (millis : Nat) : Moves s (.tick millis) { s with uptimeMillis := s.uptimeMillis + millis }

theorem eq_done_of_isDone {code : Program} (hDone : code.isDone = true) : code = .done := by
  cases code with
  | done => rfl
  | op operation next => cases hDone
  | test cond yes no => cases hDone

theorem moves_of_step {s t : State} {act : Act} (hStep : step s act = some t) :
    Moves s act t := by
  cases act with
  | call number request =>
      simp only [step] at hStep
      split at hStep
      · rename_i thread hThread
        split_ifs at hStep with hIdle
        cases hStep
        exact .call request hThread (eq_done_of_isDone hIdle)
      · cases hStep
  | app number answer =>
      simp only [step] at hStep
      split at hStep
      · rename_i thread hThread
        cases hCode : thread.code with
        | done => simp [hCode, runCode] at hStep
        | op operation next =>
            obtain ⟨u, hPerform, rfl⟩ : ∃ u, perform s (.app number) thread.seek operation = some u ∧
                { u with apps := s.apps.set number ⟨next, seekAfter s thread⟩ } = t := by
              simpa [hCode, runCode] using hStep
            exact .appOp hThread hCode hPerform
        | test cond yes no =>
            obtain rfl : _ = t := by simpa only [hCode, runCode, Option.map_some, Option.some.injEq] using hStep
            exact .appTest hThread hCode
      · cases hStep
  | dispatch =>
      simp only [step] at hStep
      split at hStep
      · rename_i message rest hIdle hQueue
        split_ifs at hStep with hDue
        cases hStep
        exact .dispatch hIdle hQueue hDue
      · cases hStep
  | media answer =>
      simp only [step] at hStep
      cases hCode : s.media.code with
      | done => simp [hCode, runCode] at hStep
      | op operation next =>
          obtain ⟨u, hPerform, rfl⟩ : ∃ u, perform s .media 0 operation = some u ∧
              { u with media := ⟨s.media.event, next⟩ } = t := by
            simpa [hCode, runCode] using hStep
          exact .mediaOp hCode hPerform
      | test cond yes no =>
          obtain rfl : _ = t := by simpa only [hCode, runCode, Option.map_some, Option.some.injEq] using hStep
          exact .mediaTest hCode
  | deliver =>
      simp only [step] at hStep
      split at hStep
      · rename_i message rest hFree hQueue
        cases hStep
        exact .deliver hFree hQueue
      · cases hStep
  | handle =>
      simp only [step] at hStep
      split at hStep
      · rename_i message hTaken
        cases hStep
        exact .handle hTaken
      · cases hStep
  | tick millis =>
      cases hStep
      exact .tick millis

/-- Every thread runs the code of a handler or of a call. -/
structure Placed (s : State) : Prop where
  media : s.media.code ∈ (handleMessage s.media.event).parts
  apps : ∀ thread ∈ s.apps, ∃ request : Request, thread.code ∈ request.program.parts

theorem placed_initial (threads : Nat) : Placed (initial threads) where
  media := List.mem_of_elem_eq_true rfl
  apps := by
    intro thread hThread
    obtain rfl := List.eq_of_mem_replicate hThread
    exact ⟨.start, by decide⟩

theorem Placed.set {s : State} (h : Placed s) {request : Request} {code : Program}
    (hCode : code ∈ request.program.parts) (number seek : Nat) :
    ∀ thread ∈ s.apps.set number ⟨code, seek⟩, ∃ request : Request,
      thread.code ∈ request.program.parts := by
  intro thread hThread
  rcases List.mem_or_eq_of_mem_set hThread with hOld | rfl
  · exact h.apps thread hOld
  · exact ⟨request, hCode⟩

theorem placed_step {s t : State} {act : Act} (h : Placed s) (hStep : step s act = some t) :
    Placed t := by
  cases moves_of_step hStep with
  | call request hThread hIdle => exact ⟨h.media, h.set (Code.mem_parts_self _) _ _⟩
  | appOp hThread hCode hPerform =>
      obtain ⟨request, hPart⟩ := h.apps _ (List.mem_of_getElem? hThread)
      rw [hCode] at hPart
      refine ⟨?_, h.set (Code.next_mem_parts hPart) _ _⟩
      simpa only [(perform_frame hPerform).2.1] using h.media
  | appTest hThread hCode =>
      obtain ⟨request, hPart⟩ := h.apps _ (List.mem_of_getElem? hThread)
      rw [hCode] at hPart
      exact ⟨h.media, h.set (Code.branch_mem_parts _ hPart) _ _⟩
  | dispatch hIdle hQueue hDue => exact ⟨Code.mem_parts_self _, h.apps⟩
  | mediaOp hCode hPerform =>
      refine ⟨Code.next_mem_parts (hCode ▸ h.media), ?_⟩
      simpa only [(perform_frame hPerform).2.2] using h.apps
  | mediaTest hCode => exact ⟨Code.branch_mem_parts _ (hCode ▸ h.media), h.apps⟩
  | deliver hFree hQueue => exact ⟨h.media, h.apps⟩
  | handle hTaken => exact ⟨h.media, h.apps⟩
  | tick millis => exact ⟨h.media, h.apps⟩

theorem run_placed {guard : State → Act → Prop} {threads : Nat} {acts : List Act} {s : State}
    (hRun : Run step guard (initial threads) acts s) : Placed s :=
  hRun.invariant (placed_initial threads) fun _ _ _ h _ hStep => placed_step h hStep

/-- Thread 0 calls a method and runs it for a number of steps. -/
def callOn (request : Request) (steps : Nat) : List Act :=
  .call 0 request :: List.replicate steps (.app 0 true)

/-- The media thread takes a message and handles it for a number of steps, with every
answer positive. -/
def handleNext (steps : Nat) : List Act := .dispatch :: List.replicate steps (.media true)

/-- A source is set and prepared, and the application is told. -/
def preparation : List Act :=
  callOn (.setDataSource true) 3 ++ callOn .prepareAsync 3 ++ handleNext 18 ++
    [Act.deliver, Act.handle, Act.deliver, Act.handle]

end Meet.NuMediaPlayer
