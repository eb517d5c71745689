import Mathlib.Logic.Function.Basic
import Meet.Common.Run

/-! The player of `a14/AwesomePlayer.cpp` over its `TimedEventQueue`. A call of the
application is one step. So is what the queue thread does under the player's lock, which
it gives up while it reads a frame, tells the listener of the end of a stream or of
buffering, and opens a stream. The delays of events are left out: any event in the queue
may be the next to fire. -/
namespace Meet.AwesomePlayer

inductive Event where
  | video
  | streamDone
  | buffering
  | seeking
  | checkAudioStatus
  | checkSeekingStatus
  | prepareAsync
deriving DecidableEq, Repr

/-- What the listener is told. The results of a preparation are left out. -/
inductive Notification where
  | error
  | bufferingUpdate
  | bufferingStart
  | bufferingEnd
  | seekComplete
  | playbackComplete
deriving DecidableEq, Repr

/-- What a stream ends with. -/
inductive Status where
  | endOfStream
  | failed
deriving DecidableEq, Repr

/-- A `ppvod`, `pplive` or `ppfile` URI, or another. -/
inductive Source where
  | pp
  | other
deriving DecidableEq, Repr

inductive Audio where
  | absent
  | running
  | paused
deriving DecidableEq, Repr

/-- What the queue thread does between two steps: nothing, wait for the lock to handle an
event, or work without the lock. -/
inductive QueueThread where
  | idle
  | fired (event : Event)
  | reading
  | streamDone
  | bufferingUpdate
  | opening
deriving DecidableEq, Repr

/-- The statics of `checkBufferingStatus`, which all players of the process share. -/
structure Statics where
  needBufferingEndNotification : Bool
  bufferingBeginTime : Int
deriving DecidableEq, Repr

/-- An extractor, with the kind and the number of the data source it was made for. -/
structure Extractor where
  kind : Source
  source : Nat
deriving DecidableEq, Repr

/-- One player. `playing` to `prepareCancelled` are the bits of `mFlags`. `pending` holds
`mVideoEventPending` and its five siblings, `eventID` whether the ID of an event is not 0.
`resetting` is a call of `reset` or of `setDataSource` that waits for the preparation, and
`playWaits` a call of `play` that does. The last fields are proof data: the number of
resets, for which of the data sources the pending seek, the seek in progress, the end
posted and the end reached were, and whether a seek has been asked for since the last
reset. -/
structure Player where
  playing : Bool
  looping : Bool
  atEos : Bool
  preparing : Bool
  prepared : Bool
  prepareCancelled : Bool
  mPrepareResult : Bool
  mUri : Option Source
  mPPDataSource : Bool
  mPPExtractor : Option Extractor
  canSeek : Bool
  mVideoSource : Bool
  mAudioSource : Bool
  mAudioSink : Bool
  mAudioPlayer : Audio
  mTimeSource : Bool
  mVideoBuffer : Bool
  mWatchForAudioEOS : Bool
  mSeeking : Bool
  mSeekNotificationSent : Bool
  mSeekTimeUs : Int
  mSeekingTimeUs : Int
  mStreamDoneStatus : Status
  pending : Event → Bool
  mQueue : List Event
  eventID : Event → Bool
  thread : QueueThread
  resetting : Option (Option Source)
  playWaits : Bool
  destroyed : Bool
  notified : List Notification
  source : Nat
  seekingFor : Nat
  seekFor : Nat
  streamDoneFor : Nat
  eosFor : Nat
  asked : Bool

/-- A new player. The constructor leaves `mSeeking` and `mSeekNotificationSent` unset. -/
def constructed (mSeeking mSeekNotificationSent mAudioSink : Bool) : Player where
  playing := false
  looping := false
  atEos := false
  preparing := false
  prepared := false
  prepareCancelled := false
  mPrepareResult := false
  mUri := none
  mPPDataSource := false
  mPPExtractor := none
  canSeek := false
  mVideoSource := false
  mAudioSource := false
  mAudioSink := mAudioSink
  mAudioPlayer := .absent
  mTimeSource := false
  mVideoBuffer := false
  mWatchForAudioEOS := false
  mSeeking := mSeeking
  mSeekNotificationSent := mSeekNotificationSent
  mSeekTimeUs := 0
  mSeekingTimeUs := 0
  mStreamDoneStatus := .endOfStream
  pending := fun _ => false
  mQueue := []
  eventID := fun _ => false
  thread := .idle
  resetting := none
  playWaits := false
  destroyed := false
  notified := []
  source := 0
  seekingFor := 0
  seekFor := 0
  streamDoneFor := 0
  eosFor := 0
  asked := false

namespace Player

/-- `postTimedEvent` gives the event a new ID. -/
def post (p : Player) (event : Event) : Player :=
  { p with mQueue := p.mQueue ++ [event], eventID := Function.update p.eventID event true }

/-- An event whose flag says that it is pending is not posted again. -/
def postOnce (p : Player) (event : Event) : Player :=
  if p.pending event then p
  else post { p with pending := Function.update p.pending event true } event

def postVideoEventL (p : Player) : Player := p.postOnce .video

def postStreamDoneEventL (p : Player) (status : Status) : Player :=
  if p.pending .streamDone then p
  else postOnce { p with mStreamDoneStatus := status, streamDoneFor := p.source } .streamDone

def postBufferingEventL (p : Player) : Player :=
  if p.mPPExtractor.isNone then p else p.postOnce .buffering

def postSeekingEventL (p : Player) : Player := p.postOnce .seeking

def postCheckAudioStatusEventL (p : Player) : Player := p.postOnce .checkAudioStatus

def postCheckSeekingStatusEventL (p : Player) : Player := p.postOnce .checkSeekingStatus

/-- `mQueue.cancelEvent` by the ID of the event, and the clearing of its flag. -/
def cancel (p : Player) (event : Event) : Player :=
  { p with
    mQueue := if p.eventID event then p.mQueue.erase event else p.mQueue
    eventID := Function.update p.eventID event false
    pending := Function.update p.pending event false }

def cancelPlayerEvents (p : Player) (keepBufferingGoing : Bool) : Player :=
  let cancelled := ((p.cancel .video).cancel .streamDone).cancel .checkAudioStatus
  if keepBufferingGoing then cancelled else cancelled.cancel .buffering

def notifyListenerL (p : Player) (notification : Notification) : Player :=
  { p with notified := p.notified ++ [notification] }

def pauseAudio (p : Player) : Player :=
  { p with mAudioPlayer := if p.mAudioPlayer = .absent then .absent else .paused }

def resumeAudio (p : Player) : Player :=
  { p with mAudioPlayer := if p.mAudioPlayer = .absent then .absent else .running }

/-- A seek that was asked for while the given data source was set. -/
def seekToL (p : Player) (timeUs : Int) (seekFor : Nat) : Player :=
  let begun := pauseAudio { p with
    mSeeking := true
    mSeekNotificationSent := false
    mSeekTimeUs := timeUs
    atEos := false
    seekFor := seekFor }
  if p.playing then begun else begun.postVideoEventL.postCheckSeekingStatusEventL

def pauseL (p : Player) : Player :=
  if p.playing then { (p.cancelPlayerEvents true).pauseAudio with playing := false } else p

/-- The audio part of `play_l`, where a new audio player may fail to start. -/
def startAudio (p : Player) (audioStarts : Bool) : Option Player :=
  if p.mAudioSource = false then some p
  else if p.mAudioPlayer ≠ .absent then some p.resumeAudio.postCheckAudioStatusEventL
  else if p.mAudioSink = false then some p.postCheckAudioStatusEventL
  else if audioStarts = false then none
  else
    some (postCheckAudioStatusEventL { p with
      mAudioPlayer := .running, mTimeSource := true, mWatchForAudioEOS := true })

/-- `play_l` once the player is prepared. Where the audio player does not start, `PLAYING`
is taken back. -/
def startPlaying (p : Player) (audioStarts : Bool) : Player :=
  match startAudio { p with playing := true } audioStarts with
  | none => p
  | some audible =>
      let timed : Player := { audible with
        mTimeSource := audible.mTimeSource || decide (audible.mAudioPlayer = .absent) }
      let posted := if timed.mVideoSource then timed.postVideoEventL else timed
      if posted.atEos then { posted.seekToL 0 posted.eosFor with asked := true } else posted

def prepareAsyncL (p : Player) : Player := post { p with preparing := true } .prepareAsync

def play (p : Player) (audioStarts : Bool) : Player :=
  if p.playing then p
  else if p.prepared then p.startPlaying audioStarts
  else if p.preparing then p
  else { p.prepareAsyncL with playWaits := true }

def seekTo (p : Player) (timeUs : Int) : Player :=
  if p.canSeek then
    postSeekingEventL { p with mSeekingTimeUs := timeUs, seekingFor := p.source, asked := true }
  else p

/-- `reset_l` behind its wait for the preparation, and the new URI of `setDataSource_l`.
The extractor, the data source and the two seeking events stay as they are. -/
def resetL (p : Player) (uri : Option Source) : Player :=
  { p.cancelPlayerEvents false with
    playing := false
    looping := false
    atEos := false
    preparing := false
    prepared := false
    prepareCancelled := false
    mUri := uri
    canSeek := false
    mVideoSource := false
    mAudioSource := false
    mAudioPlayer := .absent
    mTimeSource := false
    mVideoBuffer := false
    mSeeking := false
    mSeekNotificationSent := true
    mSeekTimeUs := 0
    resetting := none
    source := p.source + 1
    asked := false }

end Player

/-- The time since which the player buffers. -/
def Statics.beginTime (statics : Statics) (nowSec : Int) : Int :=
  if statics.bufferingBeginTime = 0 then nowSec else statics.bufferingBeginTime

/-- The part of `checkBufferingStatus` that acknowledges a seek. -/
def Player.acknowledge (p : Player) : Player :=
  if p.mSeekNotificationSent then p
  else if p.playing then
    { p.notifyListenerL .seekComplete with mSeekNotificationSent := true }.resumeAudio
  else { p.notifyListenerL .seekComplete with mSeekNotificationSent := true }

/-- `checkBufferingStatus`, given what `isBuffering` and `getNowSec` return. -/
def checkBufferingStatus (statics : Statics) (p : Player) (isBuffering : Bool) (nowSec : Int) :
    Statics × Player :=
  if statics.needBufferingEndNotification = true then
    if isBuffering = false ∧ p.mSeeking = false then
      ({ statics with needBufferingEndNotification := false },
        (p.notifyListenerL .bufferingEnd).acknowledge)
    else (statics, p)
  else if isBuffering = true ∨ p.mSeeking = true then
    if nowSec - statics.beginTime nowSec > 1 ∨ p.mSeeking = true then
      (⟨true, 0⟩, p.notifyListenerL .bufferingStart)
    else ({ statics with bufferingBeginTime := statics.beginTime nowSec }, p)
  else ({ statics with bufferingBeginTime := 0 }, p)

/-- What the extractor, the clock, the audio player and the renderer say while an event is
handled. `stillBuffering` is the second call of `isBuffering` in `onVideoEvent`. -/
structure Answers where
  isBuffering : Bool
  stillBuffering : Bool
  nowSec : Int
  audioSeeking : Bool
  early : Bool
  reachedEOS : Option Status
  durationKnown : Bool
deriving DecidableEq, Repr

/-- What `read` returns: nothing yet (a change of format or an empty buffer), a frame, or
the end. -/
inductive ReadResult where
  | again
  | frame
  | ended (status : Status)
deriving DecidableEq, Repr

/-- How far a preparation gets: whether there is an extractor, which tracks it has, which
of them get a decoder, and whether it can seek. -/
structure Preparation where
  extractor : Bool
  video : Bool
  audio : Bool
  videoDecoder : Bool
  audioDecoder : Bool
  canSeek : Bool
deriving DecidableEq, Repr

namespace Player

/-- `onVideoEvent` from the point where there is a frame. -/
def showFrame (p : Player) (answers : Answers) : Player :=
  if p.mTimeSource = false then p
  else
    let shown := { p with
      mSeeking := false
      mWatchForAudioEOS := p.mWatchForAudioEOS || (p.mSeeking && p.mAudioPlayer ≠ .absent) }
    if p.mSeeking = true ∧ p.playing = false then shown
    else if answers.audioSeeking = true ∧ p.mAudioPlayer ≠ .absent then shown.postVideoEventL
    else if p.playing = false then shown
    else if answers.early then shown.postVideoEventL
    else { shown with mVideoBuffer := false }.postVideoEventL

/-- `onVideoEvent` behind `checkBufferingStatus`, up to the blocking read. -/
def readFrame (p : Player) (answers : Answers) : Player :=
  if p.mVideoBuffer then p.showFrame answers
  else if p.mVideoSource then { p with thread := .reading }
  else p

def abortPrepare (p : Player) : Player :=
  { p with mPrepareResult := false, preparing := false, prepareCancelled := false }

def finishAsyncPrepare (p : Player) : Player :=
  postBufferingEventL { p with
    mPrepareResult := true, preparing := false, prepareCancelled := false, prepared := true }

/-- The tracks and decoders of `onPrepareAsyncEvent`. -/
def initDecoders (p : Player) (preparation : Preparation) : Player :=
  if preparation.video = true ∧ p.mVideoSource = false ∧ preparation.videoDecoder = false then
    p.abortPrepare
  else
    let video := { p with mVideoSource := p.mVideoSource || preparation.video }
    if preparation.audio = true ∧ p.mAudioSource = false ∧ preparation.audioDecoder = false then
      video.abortPrepare
    else { video with mAudioSource := p.mAudioSource || preparation.audio }.finishAsyncPrepare

/-- `finishSetDataSource_l` behind the opening of the stream, and what follows it. An
extractor is taken for one of a PP source whenever there has been a PP source. -/
def finishPrepare (p : Player) (preparation : Preparation) : Player :=
  match p.mUri with
  | none => p.finishAsyncPrepare
  | some uri =>
      if preparation.extractor = false then p.abortPrepare
      else
        let extracted := { p with
          mPPExtractor := if p.mPPDataSource then some ⟨uri, p.source⟩ else p.mPPExtractor }
        if preparation.video = false ∧ preparation.audio = false then extracted.abortPrepare
        else { extracted with canSeek := preparation.canSeek }.initDecoders preparation

end Player

/-- The steps of the queue thread behind the firing of an event. Without an extractor
`checkBufferingStatus` does not return. -/
def handle (statics : Statics) (p : Player) (answers : Answers) (preparation : Preparation) :
    Event → Option (Statics × Player)
  | .video =>
      if p.pending .video = false then some (statics, p)
      else
        let taken := { p with
          pending := Function.update p.pending .video false
          mVideoBuffer := p.mVideoBuffer && !p.mSeeking }
        if p.mPPExtractor.isNone then some (statics, taken.readFrame answers)
        else
          let checked := checkBufferingStatus statics taken answers.isBuffering answers.nowSec
          if answers.stillBuffering && !checked.2.mSeeking then
            some (checked.1, checked.2.postVideoEventL)
          else some (checked.1, checked.2.readFrame answers)
  | .streamDone =>
      if p.pending .streamDone = false then some (statics, p)
      else
        let taken := { p with pending := Function.update p.pending .streamDone false }
        if p.mStreamDoneStatus = .endOfStream ∧ p.looping = true then
          let looped := { taken.seekToL 0 p.streamDoneFor with asked := true }
          some (statics, if p.mVideoSource then looped.postVideoEventL else looped)
        else
          some (statics, { taken.notifyListenerL
            (if p.mStreamDoneStatus = .endOfStream then .playbackComplete else .error) with
            thread := .streamDone })
  | .buffering =>
      if p.pending .buffering = false then some (statics, p)
      else
        let taken := { p with pending := Function.update p.pending .buffering false }
        if answers.durationKnown && p.mPPExtractor.isSome then
          some (statics, { taken.notifyListenerL .bufferingUpdate with thread := .bufferingUpdate })
        else some (statics, taken)
  | .seeking =>
      if p.pending .seeking = false then some (statics, p)
      else
        some (statics,
          { p with pending := Function.update p.pending .seeking false }.seekToL
            p.mSeekingTimeUs p.seekingFor)
  | .checkAudioStatus =>
      if p.pending .checkAudioStatus = false then some (statics, p)
      else
        let taken := { p with pending := Function.update p.pending .checkAudioStatus false }
        match p.mWatchForAudioEOS, answers.reachedEOS with
        | true, some status =>
            some (statics, ({ taken with mWatchForAudioEOS := false }.postStreamDoneEventL
              status).postCheckAudioStatusEventL)
        | _, _ => some (statics, taken.postCheckAudioStatusEventL)
  | .checkSeekingStatus =>
      if p.pending .checkSeekingStatus = false then some (statics, p)
      else if p.mPPExtractor.isNone then none
      else
        let checked := checkBufferingStatus statics
          { p with pending := Function.update p.pending .checkSeekingStatus false }
          answers.isBuffering answers.nowSec
        some (checked.1,
          if checked.2.mSeekNotificationSent then checked.2
          else checked.2.postCheckSeekingStatusEventL)
  | .prepareAsync =>
      if p.prepareCancelled then some (statics, p.abortPrepare)
      else if p.mUri = some .pp then
        some (statics, { p with mPPDataSource := true, thread := .opening })
      else some (statics, p.finishPrepare preparation)

inductive Act where
  | play (audioStarts : Bool)
  | playPrepared (audioStarts : Bool)
  | pause
  | seekTo (timeUs : Int)
  | setLooping (shouldLoop : Bool)
  | setDataSource (uri : Source)
  | reset
  | resetDone
  | prepareAsync
  | destroy
  | fire (event : Event)
  | handle (answers : Answers) (preparation : Preparation)
  | readDone (result : ReadResult) (answers : Answers)
  | notifyDone
  | openDone (ok : Bool) (preparation : Preparation)
deriving DecidableEq, Repr

namespace Player

/-- The calls of the application. `reset` and `setDataSource` wait for the end of a
preparation, which they cancel. In the middle of the read of a frame `reset_l` does not
return: it waits for the read with the lock that the read needs to end. -/
def call (p : Player) : Act → Option Player
  | .play audioStarts => some (p.play audioStarts)
  | .playPrepared audioStarts =>
      if p.playWaits = true ∧ p.preparing = false then
        let woken := { p with playWaits := false }
        some (if p.mPrepareResult then woken.startPlaying audioStarts else woken)
      else none
  | .pause => some p.pauseL
  | .seekTo timeUs => some (p.seekTo timeUs)
  | .setLooping shouldLoop => some { p with looping := shouldLoop }
  | .setDataSource uri =>
      if p.resetting = none then
        some { p with
          prepareCancelled := p.prepareCancelled || p.preparing
          resetting := some (some uri) }
      else none
  | .reset =>
      if p.resetting = none then
        some { p with
          prepareCancelled := p.prepareCancelled || p.preparing
          resetting := some none }
      else none
  | .resetDone =>
      match p.resetting with
      | some uri =>
          if p.preparing = false ∧ p.thread ≠ .reading then some (p.resetL uri) else none
      | none => none
  | .prepareAsync => some (if p.preparing then p else p.prepareAsyncL)
  | .destroy =>
      if p.thread = .idle ∧ p.preparing = false then
        some { p.resetL none with mQueue := [], destroyed := true }
      else none
  | _ => none

end Player

/-- One step of one player: a call, or a step of its queue thread. -/
def playerStep (statics : Statics) (p : Player) : Act → Option (Statics × Player)
  | .fire event =>
      if p.thread = .idle ∧ event ∈ p.mQueue then
        some (statics, { p with
          mQueue := p.mQueue.erase event
          eventID := Function.update p.eventID event false
          thread := .fired event })
      else none
  | .handle answers preparation =>
      match p.thread with
      | .fired event => handle statics { p with thread := .idle } answers preparation event
      | _ => none
  | .readDone result answers =>
      if p.thread = .reading then
        match result with
        | .again => some (statics, if p.mVideoSource then p else { p with thread := .idle })
        | .frame =>
            some (statics, { p with thread := .idle, mVideoBuffer := true }.showFrame answers)
        | .ended status => some (statics, { p with thread := .idle }.postStreamDoneEventL status)
      else none
  | .notifyDone =>
      match p.thread with
      | .streamDone =>
          some (statics,
            { { p with thread := .idle }.pauseL with atEos := true, eosFor := p.streamDoneFor })
      | .bufferingUpdate => some (statics, { p with thread := .idle }.postBufferingEventL)
      | _ => none
  | .openDone ok preparation =>
      if p.thread = .opening then
        some (statics,
          if ok then { p with thread := .idle }.finishPrepare preparation
          else { p with thread := .idle }.abortPrepare)
      else none
  | act => (p.call act).map fun after => (statics, after)

/-- The players of one process, in the order they were made. -/
structure World where
  statics : Statics
  players : List Player

inductive WorldAct where
  | construct (mSeeking mSeekNotificationSent mAudioSink : Bool)
  | player (number : Nat) (act : Act)
deriving DecidableEq, Repr

def step (w : World) : WorldAct → Option World
  | .construct mSeeking mSeekNotificationSent mAudioSink =>
      some { w with
        players := w.players ++ [constructed mSeeking mSeekNotificationSent mAudioSink] }
  | .player number act =>
      match w.players[number]? with
      | some p =>
          if p.destroyed then none
          else (playerStep w.statics p act).map fun after =>
            ⟨after.1, w.players.set number after.2⟩
      | none => none

def initial : World := ⟨⟨false, 0⟩, []⟩

namespace Player

/-- Posting changes the flag, the queue and the ID of the one event. -/
theorem postOnce_eq (p : Player) (event : Event) :
    p.postOnce event = { p with
      pending := Function.update p.pending event true
      mQueue := if p.pending event then p.mQueue else p.mQueue ++ [event]
      eventID := if p.pending event then p.eventID else Function.update p.eventID event true } := by
  unfold postOnce
  split
  · rename_i hPending
    have hSame : Function.update p.pending event true = p.pending := by
      rw [← hPending]
      exact Function.update_eq_self _ _
    simp [hSame]
  · rename_i hFree
    simp [post]

theorem startAudio_playing {p q : Player} {audioStarts : Bool}
    (hStart : p.startAudio audioStarts = some q) : q.playing = p.playing := by
  unfold startAudio at hStart
  split_ifs at hStart <;> cases hStart <;>
    simp [postCheckAudioStatusEventL, postOnce_eq, resumeAudio]

/-- `pause_l` stops the player and keeps its seek, with the two events of a seek. -/
theorem pauseL_frame (p : Player) :
    p.pauseL.playing = false ∧ p.pauseL.thread = p.thread ∧
      p.pauseL.mSeeking = p.mSeeking ∧
      p.pauseL.mSeekNotificationSent = p.mSeekNotificationSent ∧
      p.pauseL.pending .seeking = p.pending .seeking ∧
      p.pauseL.pending .checkSeekingStatus = p.pending .checkSeekingStatus := by
  unfold pauseL
  cases hPlaying : p.playing with
  | true => simp [cancelPlayerEvents, cancel, pauseAudio]
  | false => simp [hPlaying]

end Player

theorem Player.acknowledge_frame (p : Player) : ∃ notified audio,
    p.acknowledge =
        { p with notified := notified, mSeekNotificationSent := true, mAudioPlayer := audio } ∧
      (audio = .absent ↔ p.mAudioPlayer = .absent) := by
  unfold acknowledge
  split_ifs with hSent hPlaying
  · exact ⟨p.notified, p.mAudioPlayer, by rw [← hSent], Iff.rfl⟩
  · refine ⟨_, _, rfl, ?_⟩
    simp only [notifyListenerL]
    by_cases hAbsent : p.mAudioPlayer = .absent <;> simp [hAbsent]
  · exact ⟨_, p.mAudioPlayer, rfl, Iff.rfl⟩

/-- What `checkBufferingStatus` can change of a player. A seek that is not executed yet is
not acknowledged. -/
theorem checkBufferingStatus_frame (statics : Statics) (p : Player) (isBuffering : Bool)
    (nowSec : Int) : ∃ notified sent audio,
    (checkBufferingStatus statics p isBuffering nowSec).2 =
        { p with notified := notified, mSeekNotificationSent := sent, mAudioPlayer := audio } ∧
      (p.mSeekNotificationSent = true → sent = true) ∧
      (p.mSeeking = true → sent = p.mSeekNotificationSent) ∧
      (audio = .absent ↔ p.mAudioPlayer = .absent) := by
  unfold checkBufferingStatus
  split_ifs with hNeed hEnd hStart hLong
  · obtain ⟨notified, audio, hEq, hAudio⟩ := (p.notifyListenerL .bufferingEnd).acknowledge_frame
    refine ⟨notified, true, audio, hEq, fun _ => rfl, ?_, hAudio⟩
    intro hSeeking
    simp [hSeeking] at hEnd
  · exact ⟨p.notified, _, p.mAudioPlayer, rfl, id, fun _ => rfl, Iff.rfl⟩
  · exact ⟨_, _, p.mAudioPlayer, rfl, id, fun _ => rfl, Iff.rfl⟩
  · exact ⟨p.notified, _, p.mAudioPlayer, rfl, id, fun _ => rfl, Iff.rfl⟩
  · exact ⟨p.notified, _, p.mAudioPlayer, rfl, id, fun _ => rfl, Iff.rfl⟩

namespace Player

/-- The queue thread has taken an event it has fired, and cleared its flag. -/
def taken (p : Player) (event : Event) : Player :=
  { p with thread := .idle, pending := Function.update p.pending event false }

/-- The video event of a seek gives back the frame at hand. -/
def takenVideo (p : Player) : Player :=
  { p.taken .video with mVideoBuffer := p.mVideoBuffer && !p.mSeeking }

end Player

namespace Player

/-- An event that is pending is in the queue or has been fired. -/
def Armed (p : Player) (event : Event) : Prop :=
  p.pending event = true → event ∈ p.mQueue ∨ p.thread = .fired event

section
variable {p : Player} {other : Event}

theorem Armed.postOnce (h : p.Armed other) (event : Event) : (p.postOnce event).Armed other := by
  rw [postOnce_eq]
  intro hPending
  by_cases hSame : other = event
  · subst hSame
    cases hOld : p.pending other with
    | true => simpa using h hOld
    | false => simp
  · simp only [Function.update_of_ne hSame] at hPending
    rcases h hPending with hQueued | hFired
    · left
      split
      · exact hQueued
      · exact List.mem_append_left _ hQueued
    · exact Or.inr hFired

/-- An event that fires is no longer pending once it is handled. -/
theorem Armed.taken (h : p.Armed other) {event : Event} (hThread : p.thread = .fired event) :
    (p.taken event).Armed other := by
  intro hPending
  have hNot : other ≠ event := by
    rintro rfl
    simp [Player.taken] at hPending
  simp only [Player.taken, Function.update_of_ne hNot] at hPending
  rcases h hPending with hQueued | hFired
  · exact Or.inl hQueued
  · rw [hThread] at hFired
    cases hFired
    exact absurd rfl hNot

/-- The queue thread goes on to something else than an event it has fired. -/
theorem Armed.setThread (h : p.Armed other) (hNone : p.thread ≠ .fired other)
    (thread : QueueThread) : Armed { p with thread := thread } other := by
  intro hPending
  rcases h hPending with hQueued | hFired
  · exact Or.inl hQueued
  · exact absurd hFired hNone

/-- The flag of a fired event has been cleared before the queue thread gets the lock. -/
theorem Armed.skip (h : p.Armed other) {event : Event} (hThread : p.thread = .fired event)
    (hFlag : p.pending event = false) : Armed { p with thread := .idle } other := by
  have hTaken := h.taken hThread
  rwa [Player.taken, ← hFlag, Function.update_eq_self] at hTaken

theorem Armed.cancel (h : p.Armed other) (event : Event) : (p.cancel event).Armed other := by
  intro hPending
  have hNot : other ≠ event := by
    rintro rfl
    simp [Player.cancel] at hPending
  simp only [Player.cancel, Function.update_of_ne hNot] at hPending ⊢
  rcases h hPending with hQueued | hFired
  · left
    split
    · exact (List.mem_erase_of_ne hNot).mpr hQueued
    · exact hQueued
  · exact Or.inr hFired

theorem Armed.fire (h : p.Armed other) (hIdle : p.thread = .idle) (event : Event) :
    Armed { p with
      mQueue := p.mQueue.erase event
      eventID := Function.update p.eventID event false
      thread := .fired event } other := by
  intro hPending
  by_cases hSame : other = event
  · exact Or.inr (by rw [hSame])
  · rcases h hPending with hQueued | hFired
    · exact Or.inl ((List.mem_erase_of_ne hSame).mpr hQueued)
    · rw [hIdle] at hFired
      cases hFired

end
end Player

/-- What the queue thread can do with an event it has fired, with what it needs. -/
inductive Handles (statics : Statics) (p : Player) (answers : Answers)
    (preparation : Preparation) : Event → Statics → Player → Prop where
  | skip {event : Event} (hFlag : p.pending event = false) :
      Handles statics p answers preparation event statics { p with thread := .idle }
  | videoUnchecked (hFlag : p.pending .video = true) (hExtractor : p.mPPExtractor = none) :
      Handles statics p answers preparation .video statics (p.takenVideo.readFrame answers)
  | videoWaits {checked : Statics × Player} (hFlag : p.pending .video = true)
      (hExtractor : p.mPPExtractor ≠ none)
      (hChecked : checkBufferingStatus statics p.takenVideo answers.isBuffering answers.nowSec =
        checked) :
      Handles statics p answers preparation .video checked.1 checked.2.postVideoEventL
  | videoReads {checked : Statics × Player} (hFlag : p.pending .video = true)
      (hExtractor : p.mPPExtractor ≠ none)
      (hChecked : checkBufferingStatus statics p.takenVideo answers.isBuffering answers.nowSec =
        checked) :
      Handles statics p answers preparation .video checked.1 (checked.2.readFrame answers)
  | streamLoops {looped : Player} (hFlag : p.pending .streamDone = true)
      (hLooped : { (p.taken .streamDone).seekToL 0 p.streamDoneFor with asked := true } = looped)
      (hLoops : p.mStreamDoneStatus = .endOfStream ∧ p.looping = true) :
      Handles statics p answers preparation .streamDone statics
        (if p.mVideoSource then looped.postVideoEventL else looped)
  | streamEnds {notification : Notification} (hFlag : p.pending .streamDone = true)
      (hEnd : notification = .playbackComplete ∨ notification = .error) :
      Handles statics p answers preparation .streamDone statics
        { (p.taken .streamDone).notifyListenerL notification with thread := .streamDone }
  | bufferingUpdates (hFlag : p.pending .buffering = true) :
      Handles statics p answers preparation .buffering statics
        { (p.taken .buffering).notifyListenerL .bufferingUpdate with thread := .bufferingUpdate }
  | bufferingUnknown (hFlag : p.pending .buffering = true) :
      Handles statics p answers preparation .buffering statics (p.taken .buffering)
  | seeks (hFlag : p.pending .seeking = true) :
      Handles statics p answers preparation .seeking statics
        ((p.taken .seeking).seekToL p.mSeekingTimeUs p.seekingFor)
  | audioEnds {status : Status} (hFlag : p.pending .checkAudioStatus = true) :
      Handles statics p answers preparation .checkAudioStatus statics
        ({ p.taken .checkAudioStatus with mWatchForAudioEOS := false }.postStreamDoneEventL
          status).postCheckAudioStatusEventL
  | audioGoesOn (hFlag : p.pending .checkAudioStatus = true) :
      Handles statics p answers preparation .checkAudioStatus statics
        (p.taken .checkAudioStatus).postCheckAudioStatusEventL
  | checks {checked : Statics × Player} (hFlag : p.pending .checkSeekingStatus = true)
      (hExtractor : p.mPPExtractor ≠ none)
      (hChecked : checkBufferingStatus statics (p.taken .checkSeekingStatus) answers.isBuffering
        answers.nowSec = checked) :
      Handles statics p answers preparation .checkSeekingStatus checked.1
        (if checked.2.mSeekNotificationSent then checked.2
          else checked.2.postCheckSeekingStatusEventL)
  | prepareCancelled :
      Handles statics p answers preparation .prepareAsync statics
        { p with thread := .idle }.abortPrepare
  | prepareOpens (hUri : p.mUri = some .pp) :
      Handles statics p answers preparation .prepareAsync statics
        { p with mPPDataSource := true, thread := .opening }
  | prepareFinishes (hUri : p.mUri ≠ some .pp) :
      Handles statics p answers preparation .prepareAsync statics
        ({ p with thread := .idle }.finishPrepare preparation)

theorem handles_of_handle {statics statics' : Statics} {p q : Player} {answers : Answers}
    {preparation : Preparation} {event : Event}
    (hHandle : handle statics { p with thread := .idle } answers preparation event =
      some (statics', q)) : Handles statics p answers preparation event statics' q := by
  cases event with
  | prepareAsync =>
      simp only [handle] at hHandle
      split_ifs at hHandle with hCancelled hUri <;> cases hHandle
      · exact .prepareCancelled
      · exact .prepareOpens hUri
      · exact .prepareFinishes hUri
  | video =>
      simp only [handle] at hHandle
      split at hHandle
      · rename_i hFlag
        cases hHandle
        exact .skip hFlag
      · rename_i hFlag
        rw [Bool.not_eq_false] at hFlag
        split at hHandle
        · rename_i hExtractor
          cases hHandle
          exact .videoUnchecked hFlag (by simpa using hExtractor)
        · rename_i hExtractor
          have hSome : p.mPPExtractor ≠ none := by simpa using hExtractor
          split at hHandle <;> cases hHandle
          · exact .videoWaits hFlag hSome rfl
          · exact .videoReads hFlag hSome rfl
  | streamDone =>
      simp only [handle] at hHandle
      split at hHandle
      · rename_i hFlag
        cases hHandle
        exact .skip hFlag
      · rename_i hFlag
        rw [Bool.not_eq_false] at hFlag
        split at hHandle
        · rename_i hLoops
          cases hHandle
          exact .streamLoops hFlag rfl hLoops
        · cases hHandle
          refine .streamEnds hFlag ?_
          split <;> simp
  | buffering =>
      simp only [handle] at hHandle
      split at hHandle
      · rename_i hFlag
        cases hHandle
        exact .skip hFlag
      · rename_i hFlag
        rw [Bool.not_eq_false] at hFlag
        split at hHandle <;> cases hHandle
        · exact .bufferingUpdates hFlag
        · exact .bufferingUnknown hFlag
  | seeking =>
      simp only [handle] at hHandle
      split at hHandle
      · rename_i hFlag
        cases hHandle
        exact .skip hFlag
      · rename_i hFlag
        rw [Bool.not_eq_false] at hFlag
        cases hHandle
        exact .seeks hFlag
  | checkAudioStatus =>
      simp only [handle] at hHandle
      split at hHandle
      · rename_i hFlag
        cases hHandle
        exact .skip hFlag
      · rename_i hFlag
        rw [Bool.not_eq_false] at hFlag
        split at hHandle <;> cases hHandle
        · exact .audioEnds hFlag
        · exact .audioGoesOn hFlag
  | checkSeekingStatus =>
      simp only [handle] at hHandle
      split at hHandle
      · rename_i hFlag
        cases hHandle
        exact .skip hFlag
      · rename_i hFlag
        rw [Bool.not_eq_false] at hFlag
        split at hHandle
        · cases hHandle
        · rename_i hExtractor
          cases hHandle
          exact .checks hFlag (by simpa using hExtractor) rfl

/-- What each step of a player can do, with what it needs. -/
inductive Moves (statics : Statics) (p : Player) : Act → Statics → Player → Prop where
  | fire {event : Event} (hIdle : p.thread = .idle) (hQueued : event ∈ p.mQueue) :
      Moves statics p (.fire event) statics
        { p with
          mQueue := p.mQueue.erase event
          eventID := Function.update p.eventID event false
          thread := .fired event }
  | handle {event : Event} {answers : Answers} {preparation : Preparation} {statics' : Statics}
      {q : Player} (hThread : p.thread = .fired event)
      (hHandles : Handles statics p answers preparation event statics' q) :
      Moves statics p (.handle answers preparation) statics' q
  | readAgain {answers : Answers} (hReading : p.thread = .reading) :
      Moves statics p (.readDone .again answers) statics
        (if p.mVideoSource then p else { p with thread := .idle })
  | readFrame {answers : Answers} (hReading : p.thread = .reading) :
      Moves statics p (.readDone .frame answers) statics
        ({ p with thread := .idle, mVideoBuffer := true }.showFrame answers)
  | readEnded {answers : Answers} {status : Status} (hReading : p.thread = .reading) :
      Moves statics p (.readDone (.ended status) answers) statics
        ({ p with thread := .idle }.postStreamDoneEventL status)
  | streamDone (hThread : p.thread = .streamDone) :
      Moves statics p .notifyDone statics
        { { p with thread := .idle }.pauseL with atEos := true, eosFor := p.streamDoneFor }
  | bufferingUpdate (hThread : p.thread = .bufferingUpdate) :
      Moves statics p .notifyDone statics ({ p with thread := .idle }.postBufferingEventL)
  | opened {ok : Bool} {preparation : Preparation} (hThread : p.thread = .opening) :
      Moves statics p (.openDone ok preparation) statics
        (if ok then { p with thread := .idle }.finishPrepare preparation
          else { p with thread := .idle }.abortPrepare)
  | call {act : Act} {q : Player} (hCall : p.call act = some q) : Moves statics p act statics q

theorem moves_of_playerStep {statics statics' : Statics} {p q : Player} {act : Act}
    (hStep : playerStep statics p act = some (statics', q)) : Moves statics p act statics' q := by
  unfold playerStep at hStep
  split at hStep
  · split_ifs at hStep with hFire
    cases hStep
    exact .fire hFire.1 hFire.2
  · split at hStep
    · rename_i hThread
      exact .handle hThread (handles_of_handle hStep)
    · cases hStep
  · split at hStep
    · rename_i hReading
      split at hStep <;> cases hStep
      · exact .readAgain hReading
      · exact .readFrame hReading
      · exact .readEnded hReading
    · cases hStep
  · split at hStep
    · rename_i hThread
      cases hStep
      exact .streamDone hThread
    · rename_i hThread
      cases hStep
      exact .bufferingUpdate hThread
    · cases hStep
  · split at hStep
    · rename_i hThread
      cases hStep
      exact .opened hThread
    · cases hStep
  · obtain ⟨r, hCall, hEq⟩ := Option.map_eq_some_iff.mp hStep
    cases hEq
    exact .call hCall

/-- A step of the process is the construction of a player or a step of one of them. -/
theorem step_cases {w v : World} {act : WorldAct} (hStep : step w act = some v) :
    (∃ mSeeking mSeekNotificationSent mAudioSink,
      act = .construct mSeeking mSeekNotificationSent mAudioSink ∧
      v = { w with
        players := w.players ++ [constructed mSeeking mSeekNotificationSent mAudioSink] }) ∨
    ∃ number inner p statics q, act = .player number inner ∧ w.players[number]? = some p ∧
      p.destroyed = false ∧ playerStep w.statics p inner = some (statics, q) ∧
      v = ⟨statics, w.players.set number q⟩ := by
  cases act with
  | construct mSeeking mSeekNotificationSent mAudioSink =>
      cases hStep
      exact Or.inl ⟨_, _, _, rfl, rfl⟩
  | player number inner =>
      simp only [step] at hStep
      split at hStep
      · rename_i p hPlayer
        split_ifs at hStep with hDestroyed
        obtain ⟨⟨statics, q⟩, hInner, rfl⟩ := Option.map_eq_some_iff.mp hStep
        refine Or.inr ⟨number, inner, p, statics, q, rfl, hPlayer, ?_, hInner, rfl⟩
        simpa using hDestroyed
      · cases hStep

/-- A property of players that the steps of a living player keep, whatever the statics
are, holds of all players of the process. -/
theorem players_invariant {holds : Player → Prop} {guard : World → WorldAct → Prop}
    {start : World} (hStart : ∀ p ∈ start.players, holds p)
    (hConstruct : ∀ w mSeeking mSeekNotificationSent mAudioSink,
      guard w (.construct mSeeking mSeekNotificationSent mAudioSink) →
      holds (constructed mSeeking mSeekNotificationSent mAudioSink))
    (hPlayer : ∀ w number act p statics q, w.players[number]? = some p → p.destroyed = false →
      holds p → guard w (.player number act) → playerStep w.statics p act = some (statics, q) →
      holds q)
    {acts : List WorldAct} {w : World} (run : Run step guard start acts w) :
    ∀ p ∈ w.players, holds p := by
  have hInvariant := @Run.invariant _ _ step guard (fun w => ∀ p ∈ w.players, holds p)
  refine hInvariant run hStart ?_
  intro before act after hBefore hGuard hStep
  rcases step_cases hStep with ⟨_, _, _, rfl, rfl⟩ | ⟨number, inner, p, statics, q, rfl, hGet, hAlive, hInner, rfl⟩
  · intro p hMem
    rcases List.mem_append.mp hMem with hOld | hNew
    · exact hBefore p hOld
    · obtain rfl := List.mem_singleton.mp hNew
      exact hConstruct before _ _ _ hGuard
  · intro r hMem
    rcases List.mem_or_eq_of_mem_set hMem with hOld | rfl
    · exact hBefore r hOld
    · exact hPlayer before number inner p statics _ hGet hAlive
        (hBefore p (List.mem_of_getElem? hGet)) hGuard hInner

/-- A preparation that succeeds with a video and an audio track. -/
def goodPreparation : Preparation := ⟨true, true, true, true, true, true⟩

/-- The extractor does not buffer and the audio stream goes on. -/
def quietAnswers : Answers := ⟨false, false, 0, false, false, none, true⟩

def fireAndHandle (number : Nat) (event : Event) : List WorldAct :=
  [WorldAct.player number (.fire event),
    WorldAct.player number (.handle quietAnswers goodPreparation)]

/-- A new player, the next in number, gets a PP source and is prepared. -/
def constructAndPrepare (number : Nat) : List WorldAct :=
  [WorldAct.construct false true true, WorldAct.player number (.setDataSource .pp),
    WorldAct.player number .resetDone, WorldAct.player number .prepareAsync] ++
  fireAndHandle number .prepareAsync ++
  [WorldAct.player number (.openDone true goodPreparation)]

end Meet.AwesomePlayer
