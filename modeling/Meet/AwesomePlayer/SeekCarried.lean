import Meet.AwesomePlayer.Events

/-! A seek of `a14/AwesomePlayer.cpp` is executed and acknowledged by events that post
themselves again: the video event while the player plays, and the check of the seeking
status where the seek began while it was paused. -/
namespace Meet.AwesomePlayer

/-- The events that can bring a seek to its end. -/
def carriers : List Event := [.video, .seeking, .checkSeekingStatus]

namespace Player

/-- A new player whose first data source has been prepared. -/
def firstPrepared (kind : Source) (mAudioSink : Bool) (preparation : Preparation) : Player :=
  Player.finishPrepare
    { (constructed false true mAudioSink).resetL (some kind) with
      mPPDataSource := decide (kind = .pp), preparing := true } preparation

def handling (p : Player) (event : Event) : Prop :=
  p.thread = .fired event ∨ event = .video ∧ p.thread = .reading

/-- A seek that is not executed or not acknowledged has an event pending or being handled
that will see to it. -/
def SeekCarried (p : Player) : Prop :=
  p.mSeeking = true ∨ p.mSeekNotificationSent = false →
    ∃ event ∈ carriers, p.pending event = true ∧ event ∈ p.mQueue ∨ p.handling event

instance (p : Player) (event : Event) : Decidable (p.handling event) :=
  inferInstanceAs (Decidable (_ ∨ _ ∧ _))

instance (p : Player) : Decidable p.SeekCarried :=
  inferInstanceAs (Decidable (_ ∨ _ → ∃ event ∈ carriers, _ ∧ _ ∨ _))

/-- Nothing hangs on the video event: there is no seek to acknowledge, or the check of
the seeking status is pending. -/
def Watched (p : Player) : Prop :=
  p.mSeekNotificationSent = true ∨ p.pending .checkSeekingStatus = true

/-- A prepared player with a video source, before its first start. -/
structure Fresh (p : Player) : Prop where
  prepared : p.prepared = true
  video : p.mVideoSource = true
  stopped : p.playing = false
  idle : p.thread = .idle
  settled : p.mSeeking = false ∧ p.mSeekNotificationSent = true
  silent : p.mAudioPlayer = .absent
  unposted : ∀ event ∈ carriers, p.pending event = false

end Player

/-- The calls on a prepared player, and the steps of its queue thread. -/
def Act.onPrepared : Act → Bool
  | .play _ | .pause | .seekTo _ | .setLooping _ => true
  | .fire event => event ≠ .prepareAsync
  | .handle _ _ | .readDone _ _ | .notifyDone => true
  | _ => false

/-- No pause, no end of a stream and no failed read while a seek hangs on the video event,
and no seek while the player plays without a video event. -/
def SeekGuard (p : Player) : Act → Prop
  | .pause => p.playing = true → p.Watched
  | .notifyDone => p.thread = .streamDone → p.playing = true → p.Watched
  | .readDone result _ => result = .again ∨ result = .frame ∨ p.Watched
  | .handle _ _ => p.thread = .fired .seeking → p.pending .seeking = true → p.playing = true →
      p.pending .video = true ∨ p.pending .checkSeekingStatus = true
  | _ => True

instance (p : Player) : Decidable p.Watched :=
  inferInstanceAs (Decidable (_ ∨ _))

instance (p : Player) (act : Act) : Decidable (SeekGuard p act) :=
  match act with
  | .pause => inferInstanceAs (Decidable (_ → _))
  | .notifyDone => inferInstanceAs (Decidable (_ → _ → _))
  | .readDone _ _ => inferInstanceAs (Decidable (_ ∨ _ ∨ _))
  | .handle _ _ => inferInstanceAs (Decidable (_ → _ → _ → _ ∨ _))
  | .play _ | .playPrepared _ | .seekTo _ | .setLooping _ | .setDataSource _ | .reset
  | .resetDone | .prepareAsync | .destroy | .fire _ | .openDone _ _ => .isTrue trivial

namespace Player

/-- What holds of a prepared player apart from how its seek is carried. -/
structure Base (p : Player) : Prop where
  prepared : p.prepared = true
  video : p.mVideoSource = true
  fired : p.thread ≠ .fired .prepareAsync
  audio : p.mAudioPlayer ≠ .absent → p.mTimeSource = true
  unsent : p.mSeeking = true → p.mSeekNotificationSent = false
  armed : ∀ event ∈ carriers, p.pending event = true → event ∈ p.mQueue ∨ p.thread = .fired event

def Carries (p : Player) : Prop :=
  p.mSeekNotificationSent = false →
    p.pending .checkSeekingStatus = true ∨
      p.playing = true ∧ (p.pending .video = true ∨ p.thread = .reading)

section
variable {p q : Player}

theorem Base.postOnce (h : Base p) (event : Event) : Base (p.postOnce event) := by
  have hArmed := fun other hOther => Armed.postOnce (h.armed other hOther) event
  rw [postOnce_eq] at hArmed ⊢
  exact ⟨h.prepared, h.video, h.fired, h.audio, h.unsent, hArmed⟩

theorem Base.taken (h : Base p) {event : Event} (hThread : p.thread = .fired event) :
    Base (p.taken event) := by
  refine ⟨h.prepared, h.video, by simp [Player.taken], h.audio, h.unsent, ?_⟩
  exact fun other hOther => Armed.taken (h.armed other hOther) hThread

theorem Base.setThread (h : Base p) (hNone : ∀ event, p.thread ≠ .fired event)
    {thread : QueueThread} (hThread : thread ≠ .fired .prepareAsync) :
    Base { p with thread := thread } := by
  refine ⟨h.prepared, h.video, hThread, h.audio, h.unsent, ?_⟩
  exact fun event hEvent => Armed.setThread (h.armed event hEvent) (hNone event) thread

theorem Base.cancel (h : Base p) (event : Event) : Base (p.cancel event) := by
  refine ⟨h.prepared, h.video, h.fired, h.audio, h.unsent, ?_⟩
  exact fun other hOther => Armed.cancel (h.armed other hOther) event

theorem Base.pauseAudio (h : Base p) : Base p.pauseAudio := by
  refine ⟨h.prepared, h.video, h.fired, ?_, h.unsent, h.armed⟩
  intro hAudio
  apply h.audio
  rintro hAbsent
  simp [Player.pauseAudio, hAbsent] at hAudio

theorem Base.pauseL (h : Base p) : Base p.pauseL := by
  unfold Player.pauseL cancelPlayerEvents
  split
  · have hPaused := (((h.cancel .video).cancel .streamDone).cancel .checkAudioStatus).pauseAudio
    exact ⟨hPaused.prepared, hPaused.video, hPaused.fired, hPaused.audio, hPaused.unsent,
      hPaused.armed⟩
  · exact h

theorem Base.seekToL (h : Base p) (timeUs : Int) (seekFor : Nat) :
    Base (p.seekToL timeUs seekFor) := by
  have hBegun : Base (Player.pauseAudio { p with
      mSeeking := true, mSeekNotificationSent := false, mSeekTimeUs := timeUs, atEos := false
      seekFor := seekFor }) := by
    apply Base.pauseAudio
    exact ⟨h.prepared, h.video, h.fired, h.audio, fun _ => rfl, h.armed⟩
  unfold Player.seekToL
  dsimp only
  split
  · exact hBegun
  · exact (hBegun.postOnce .video).postOnce .checkSeekingStatus

theorem Base.resumeAudio (h : Base p) : Base p.resumeAudio := by
  refine ⟨h.prepared, h.video, h.fired, ?_, h.unsent, h.armed⟩
  intro hAudio
  apply h.audio
  rintro hAbsent
  simp [Player.resumeAudio, hAbsent] at hAudio

theorem Base.checkBufferingStatus (h : Base p) (statics : Statics) (isBuffering : Bool)
    (nowSec : Int) : Base (checkBufferingStatus statics p isBuffering nowSec).2 := by
  obtain ⟨notified, sent, audio, hEq, -, hSeeking, hAudio⟩ :=
    checkBufferingStatus_frame statics p isBuffering nowSec
  rw [hEq]
  refine ⟨h.prepared, h.video, h.fired, fun hPresent => h.audio (hAudio.not.mp hPresent), ?_, h.armed⟩
  intro hStill
  exact (hSeeking hStill).trans (h.unsent hStill)

theorem Base.showFrame (h : Base p) (answers : Answers) : Base (p.showFrame answers) := by
  have hShown : Base { p with
      mSeeking := false
      mWatchForAudioEOS := p.mWatchForAudioEOS || (p.mSeeking && p.mAudioPlayer ≠ .absent) } :=
    ⟨h.prepared, h.video, h.fired, h.audio, by simp, h.armed⟩
  unfold Player.showFrame
  dsimp only
  split_ifs
  · exact h
  · exact hShown
  · exact hShown.postOnce .video
  · exact hShown
  · exact hShown.postOnce .video
  · refine Base.postOnce ?_ .video
    exact ⟨hShown.prepared, hShown.video, hShown.fired, hShown.audio, hShown.unsent,
      hShown.armed⟩

theorem Base.readFrame (h : Base p) (hIdle : p.thread = .idle) (answers : Answers) :
    Base (p.readFrame answers) := by
  unfold Player.readFrame
  split_ifs
  · exact h.showFrame answers
  · exact h.setThread (by simp [hIdle]) (by simp)
  · exact h

theorem Base.startAudio {audioStarts : Bool} (h : Base p)
    (hStart : p.startAudio audioStarts = some q) : Base q := by
  unfold Player.startAudio at hStart
  split_ifs at hStart <;> cases hStart
  · exact h
  · exact h.resumeAudio.postOnce .checkAudioStatus
  · exact h.postOnce .checkAudioStatus
  · refine Base.postOnce ?_ .checkAudioStatus
    exact ⟨h.prepared, h.video, h.fired, fun _ => rfl, h.unsent, h.armed⟩

theorem Base.ask (h : Base p) (asked : Bool) : Base { p with asked := asked } :=
  ⟨h.prepared, h.video, h.fired, h.audio, h.unsent, h.armed⟩

theorem Base.startPlaying (h : Base p) (audioStarts : Bool) :
    Base (p.startPlaying audioStarts) := by
  unfold Player.startPlaying
  split
  · exact h
  · rename_i audible hStart
    have hBegun : Base { p with playing := true } :=
      ⟨h.prepared, h.video, h.fired, h.audio, h.unsent, h.armed⟩
    have hAudible := hBegun.startAudio hStart
    have hTimed : Base { audible with
        mTimeSource := audible.mTimeSource || decide (audible.mAudioPlayer = .absent) } := by
      refine ⟨hAudible.prepared, hAudible.video, hAudible.fired, ?_, hAudible.unsent,
        hAudible.armed⟩
      intro hPresent
      simp [hAudible.audio hPresent]
    dsimp only
    rw [if_pos hAudible.video]
    have hPosted := hTimed.postOnce .video
    split
    · exact (hPosted.seekToL 0 _).ask true
    · exact hPosted

end

/-- A prepared player whose seek is carried. -/
structure Carried (p : Player) : Prop where
  base : Base p
  timed : p.playing = true → p.mTimeSource = true
  carries : Carries p

section
variable {p q : Player}

/-- Posting an event keeps a seek carried, and posting the video event of a player that
plays carries it. -/
theorem Carries.postOnce (h : Carries p) (event : Event) : Carries (p.postOnce event) := by
  rw [postOnce_eq]
  intro hUnsent
  have hStill : ∀ other, p.pending other = true → Function.update p.pending event true other = true := by
    intro other hPending
    by_cases hSame : other = event
    · subst hSame
      exact Function.update_self _ _ _
    · rw [Function.update_of_ne hSame]
      exact hPending
  rcases h hUnsent with hWatched | ⟨hPlaying, hVideo | hReading⟩
  · exact Or.inl (hStill _ hWatched)
  · exact Or.inr ⟨hPlaying, Or.inl (hStill _ hVideo)⟩
  · exact Or.inr ⟨hPlaying, Or.inr hReading⟩

/-- The seek is carried once the video event is posted. -/
def Owed (p : Player) : Prop :=
  p.mSeekNotificationSent = false → p.pending .checkSeekingStatus = true ∨ p.playing = true

theorem Carries.owed (h : Carries p) : Owed p := by
  intro hUnsent
  rcases h hUnsent with hWatched | ⟨hPlaying, -⟩
  · exact Or.inl hWatched
  · exact Or.inr hPlaying

theorem Owed.postVideoEventL (h : Owed p) : Carries p.postVideoEventL := by
  unfold Player.postVideoEventL
  rw [postOnce_eq]
  intro hUnsent
  rcases h hUnsent with hWatched | hPlaying
  · left
    simpa using hWatched
  · right
    simp [hPlaying]

theorem Owed.watched (h : Owed p) (hStopped : p.playing = false)
    (hUnsent : p.mSeekNotificationSent = false) : p.pending .checkSeekingStatus = true := by
  rcases h hUnsent with hWatched | hPlaying
  · exact hWatched
  · rw [hStopped] at hPlaying
    cases hPlaying

theorem Carried.postOnce (h : Carried p) (event : Event) : Carried (p.postOnce event) := by
  refine ⟨h.base.postOnce event, ?_, h.carries.postOnce event⟩
  rw [postOnce_eq]
  exact h.timed

theorem pending_postOnce (p : Player) (event : Event) : (p.postOnce event).pending event = true := by
  rw [postOnce_eq]
  exact Function.update_self _ _ _

theorem seekToL_timed (hTimed : p.playing = true → p.mTimeSource = true) (timeUs : Int)
    (seekFor : Nat) : (p.seekToL timeUs seekFor).playing = true →
      (p.seekToL timeUs seekFor).mTimeSource = true := by
  unfold Player.seekToL
  dsimp only
  split
  · exact hTimed
  · simp only [postCheckSeekingStatusEventL, postVideoEventL, postOnce_eq]
    exact hTimed

/-- A seek begun while the player plays needs an event that is pending already. -/
theorem Carried.seekToL (hBase : Base p) (hTimed : p.playing = true → p.mTimeSource = true)
    (hVideo : p.playing = true → p.pending .video = true ∨ p.pending .checkSeekingStatus = true)
    (timeUs : Int) (seekFor : Nat) : Carried (p.seekToL timeUs seekFor) := by
  refine ⟨hBase.seekToL timeUs seekFor, seekToL_timed hTimed timeUs seekFor, ?_⟩
  intro _
  unfold Player.seekToL
  dsimp only
  split
  · rename_i hPlaying
    rcases hVideo hPlaying with hPending | hWatched
    · exact Or.inr ⟨hPlaying, Or.inl hPending⟩
    · exact Or.inl hWatched
  · exact Or.inl (pending_postOnce _ _)

/-- A frame that is shown posts the next video event of a player that plays. -/
theorem Carried.showFrame (hBase : Base p) (hTimed : p.playing = true → p.mTimeSource = true)
    (hOwed : Owed p) (answers : Answers) : Carried (p.showFrame answers) := by
  refine ⟨hBase.showFrame answers, ?_, ?_⟩
  · unfold Player.showFrame
    dsimp only
    split_ifs <;> first
      | exact hTimed
      | simp only [postVideoEventL, postOnce_eq]; exact hTimed
  · unfold Player.showFrame
    dsimp only
    split_ifs with hNoTime hSeeking hAudio hStopped hEarly
    · intro hUnsent
      refine Or.inl (hOwed.watched ?_ hUnsent)
      cases hPlaying : p.playing with
      | false => rfl
      | true => simp [hTimed hPlaying] at hNoTime
    · exact fun hUnsent => Or.inl (hOwed.watched hSeeking.2 hUnsent)
    · exact Owed.postVideoEventL hOwed
    · exact fun hUnsent => Or.inl (hOwed.watched hStopped hUnsent)
    · exact Owed.postVideoEventL hOwed
    · exact Owed.postVideoEventL hOwed

theorem Carried.readFrame (hBase : Base p) (hTimed : p.playing = true → p.mTimeSource = true)
    (hOwed : Owed p) (hIdle : p.thread = .idle) (answers : Answers) :
    Carried (p.readFrame answers) := by
  refine ⟨hBase.readFrame hIdle answers, ?_, ?_⟩
  · unfold Player.readFrame
    split_ifs
    · exact (Carried.showFrame hBase hTimed hOwed answers).timed
    · exact hTimed
    · exact hTimed
  · unfold Player.readFrame
    rw [if_pos hBase.video]
    split
    · exact (Carried.showFrame hBase hTimed hOwed answers).carries
    · intro hUnsent
      rcases hOwed hUnsent with hWatched | hPlaying
      · exact Or.inl hWatched
      · exact Or.inr ⟨hPlaying, Or.inr rfl⟩

theorem Carried.ask (h : Carried p) (asked : Bool) : Carried { p with asked := asked } :=
  ⟨h.base.ask asked, h.timed, h.carries⟩

theorem Carried.startPlaying (h : Carried p) (audioStarts : Bool) :
    Carried (p.startPlaying audioStarts) := by
  unfold Player.startPlaying
  split
  · exact h
  · rename_i audible hStart
    have hBase : Base { p with playing := true } :=
      ⟨h.base.prepared, h.base.video, h.base.fired, h.base.audio, h.base.unsent, h.base.armed⟩
    have hAudible := hBase.startAudio hStart
    have hPlaying : audible.playing = true := startAudio_playing hStart
    have hTime : (audible.mTimeSource || decide (audible.mAudioPlayer = .absent)) = true := by
      by_cases hAbsent : audible.mAudioPlayer = .absent
      · simp [hAbsent]
      · simp [hAudible.audio hAbsent]
    dsimp only
    rw [hTime, if_pos hAudible.video]
    have hTimed : Base { audible with mTimeSource := true } :=
      ⟨hAudible.prepared, hAudible.video, hAudible.fired, fun _ => rfl, hAudible.unsent,
        hAudible.armed⟩
    have hPosted : Carried (Player.postVideoEventL { audible with mTimeSource := true }) := by
      refine ⟨hTimed.postOnce .video, ?_, Owed.postVideoEventL fun _ => Or.inr hPlaying⟩
      simp [postVideoEventL, postOnce_eq]
    split
    · refine Carried.ask (Carried.seekToL hPosted.base hPosted.timed ?_ 0 _) true
      exact fun _ => Or.inl (pending_postOnce _ _)
    · exact hPosted

/-- `pause_l` cancels the video event, but not the check of the seeking status. -/
theorem Carried.pauseL (h : Carried p) (hGuard : p.playing = true → p.Watched) :
    Carried p.pauseL := by
  obtain ⟨hStopped, -, -, hSent, -, hCheck⟩ := p.pauseL_frame
  refine ⟨h.base.pauseL, ?_, ?_⟩
  · rw [hStopped]
    simp
  · intro hUnsent
    rw [hSent] at hUnsent
    rw [hCheck]
    left
    rcases h.carries hUnsent with hWatched | ⟨hPlaying, -⟩
    · exact hWatched
    · rcases hGuard hPlaying with hDone | hWatched
      · rw [hDone] at hUnsent
        cases hUnsent
      · exact hWatched

/-- A player whose queue thread has taken an event other than the two a seek hangs on. -/
theorem Carried.taken (h : Carried p) {event : Event} (hThread : p.thread = .fired event)
    (hVideo : event ≠ .video) (hCheck : event ≠ .checkSeekingStatus) : Carried (p.taken event) := by
  refine ⟨h.base.taken hThread, h.timed, ?_⟩
  intro hUnsent
  rcases h.carries hUnsent with hWatched | ⟨hPlaying, hPending | hReading⟩
  · left
    simpa [Player.taken, Function.update_of_ne hCheck.symm] using hWatched
  · right
    simpa [Player.taken, Function.update_of_ne hVideo.symm] using And.intro hPlaying hPending
  · rw [hThread] at hReading
    cases hReading

theorem Carries.setThread (h : Carries p) (hRead : p.thread ≠ .reading) (thread : QueueThread) :
    Carries { p with thread := thread } := by
  intro hUnsent
  rcases h hUnsent with hWatched | ⟨hPlaying, hPending | hReading⟩
  · exact Or.inl hWatched
  · exact Or.inr ⟨hPlaying, Or.inl hPending⟩
  · exact absurd hReading hRead

/-- An event that is no longer pending when it is handled changes nothing. -/
theorem Carried.skip (h : Carried p) {event : Event} (hThread : p.thread = .fired event)
    (hFlag : p.pending event = false) : Carried { p with thread := .idle } := by
  have hBase := h.base.taken hThread
  rw [Player.taken, ← hFlag, Function.update_eq_self] at hBase
  exact ⟨hBase, h.timed, h.carries.setThread (by simp [hThread]) .idle⟩

theorem Base.takenVideo (h : Base p) (hThread : p.thread = .fired .video) : Base p.takenVideo := by
  have hTaken := h.taken hThread
  exact ⟨hTaken.prepared, hTaken.video, hTaken.fired, hTaken.audio, hTaken.unsent, hTaken.armed⟩

theorem Owed.takenVideo (h : Owed p) : Owed p.takenVideo := by
  intro hUnsent
  simpa [Player.takenVideo, Player.taken] using h hUnsent

/-- `checkBufferingStatus` may acknowledge the seek, and leaves it owed otherwise. -/
theorem Owed.checkBufferingStatus (h : Owed p) (statics : Statics) (isBuffering : Bool)
    (nowSec : Int) : Owed (checkBufferingStatus statics p isBuffering nowSec).2 := by
  obtain ⟨notified, sent, audio, hEq, hSent, -, -⟩ :=
    checkBufferingStatus_frame statics p isBuffering nowSec
  rw [hEq]
  intro hUnsent
  apply h
  change sent = false at hUnsent
  cases hBefore : p.mSeekNotificationSent with
  | false => rfl
  | true => simp [hSent hBefore] at hUnsent

theorem checkBufferingStatus_timed (hTimed : p.playing = true → p.mTimeSource = true)
    (statics : Statics) (isBuffering : Bool) (nowSec : Int) :
    (checkBufferingStatus statics p isBuffering nowSec).2.playing = true →
      (checkBufferingStatus statics p isBuffering nowSec).2.mTimeSource = true := by
  obtain ⟨notified, sent, audio, hEq, -⟩ := checkBufferingStatus_frame statics p isBuffering nowSec
  rw [hEq]
  exact hTimed

theorem seekToL_owed (p : Player) (timeUs : Int) (seekFor : Nat) :
    Owed (p.seekToL timeUs seekFor) := by
  intro _
  unfold Player.seekToL
  dsimp only
  split
  · rename_i hPlaying
    exact Or.inr hPlaying
  · exact Or.inl (pending_postOnce _ _)

theorem Carried.postStreamDoneEventL (h : Carried p) (status : Status) :
    Carried (p.postStreamDoneEventL status) := by
  unfold Player.postStreamDoneEventL
  split
  · exact h
  · have hStatus : Carried { p with mStreamDoneStatus := status, streamDoneFor := p.source } :=
      ⟨⟨h.base.prepared, h.base.video, h.base.fired, h.base.audio, h.base.unsent, h.base.armed⟩,
        h.timed, h.carries⟩
    exact hStatus.postOnce .streamDone

/-- The queue thread takes up or lays down work without the lock, except a read. -/
theorem Carried.setThread (h : Carried p) (hRead : p.thread ≠ .reading)
    (hNone : ∀ event, p.thread ≠ .fired event) {thread : QueueThread}
    (hThread : thread ≠ .fired .prepareAsync) : Carried { p with thread := thread } :=
  ⟨h.base.setThread hNone hThread, h.timed, h.carries.setThread hRead thread⟩

theorem Carried.notifyListenerL (h : Carried p) (notification : Notification) :
    Carried (p.notifyListenerL notification) :=
  ⟨⟨h.base.prepared, h.base.video, h.base.fired, h.base.audio, h.base.unsent, h.base.armed⟩,
    h.timed, h.carries⟩

theorem carried_handle {statics statics' : Statics} {answers : Answers}
    {preparation : Preparation} {event : Event} (h : Carried p)
    (hGuard : SeekGuard p (.handle answers preparation)) (hThread : p.thread = .fired event)
    (hHandles : Handles statics p answers preparation event statics' q) : Carried q := by
  cases hHandles with
  | skip hFlag => exact h.skip hThread hFlag
  | videoUnchecked hFlag =>
      exact Carried.readFrame (h.base.takenVideo hThread) h.timed h.carries.owed.takenVideo rfl _
  | videoWaits hFlag hExtractor hChecked =>
      subst hChecked
      have hBase := (h.base.takenVideo hThread).checkBufferingStatus statics answers.isBuffering
        answers.nowSec
      have hTimed : p.takenVideo.playing = true → p.takenVideo.mTimeSource = true := h.timed
      refine ⟨hBase.postOnce .video, ?_, ?_⟩
      · simp only [postVideoEventL, postOnce_eq]
        exact checkBufferingStatus_timed hTimed _ _ _
      · exact (h.carries.owed.takenVideo.checkBufferingStatus _ _ _).postVideoEventL
  | videoReads hFlag hExtractor hChecked =>
      subst hChecked
      have hBase := (h.base.takenVideo hThread).checkBufferingStatus statics answers.isBuffering
        answers.nowSec
      have hTimed : p.takenVideo.playing = true → p.takenVideo.mTimeSource = true := h.timed
      refine Carried.readFrame hBase (checkBufferingStatus_timed hTimed _ _ _)
        (h.carries.owed.takenVideo.checkBufferingStatus _ _ _) ?_ _
      obtain ⟨notified, sent, audio, hEq, -⟩ :=
        checkBufferingStatus_frame statics p.takenVideo answers.isBuffering answers.nowSec
      rw [hEq]
      rfl
  | checks hFlag hExtractor hChecked =>
      subst hChecked
      have hBase := (h.base.taken hThread).checkBufferingStatus statics answers.isBuffering
        answers.nowSec
      have hTimed : (p.taken .checkSeekingStatus).playing = true →
          (p.taken .checkSeekingStatus).mTimeSource = true := h.timed
      split
      · rename_i hSent
        refine ⟨hBase, checkBufferingStatus_timed hTimed _ _ _, fun hUnsent => ?_⟩
        rw [hSent] at hUnsent
        cases hUnsent
      · refine ⟨hBase.postOnce .checkSeekingStatus, ?_, fun _ => Or.inl (pending_postOnce _ _)⟩
        simp only [postCheckSeekingStatusEventL, postOnce_eq]
        exact checkBufferingStatus_timed hTimed _ _ _
  | streamLoops hFlag hLooped =>
      subst hLooped
      have hTaken := h.taken hThread (by decide) (by decide)
      have hSeek := (hTaken.base.seekToL 0 p.streamDoneFor).ask true
      rw [if_pos h.base.video]
      refine ⟨hSeek.postOnce .video, ?_, ?_⟩
      · simp only [postVideoEventL, postOnce_eq]
        exact seekToL_timed hTaken.timed 0 p.streamDoneFor
      · exact Owed.postVideoEventL (seekToL_owed _ 0 p.streamDoneFor)
  | streamEnds hFlag hEnd =>
      have hTaken := h.taken hThread (by decide) (by decide)
      exact (hTaken.notifyListenerL _).setThread (by simp [Player.notifyListenerL, Player.taken])
        (by simp [Player.notifyListenerL, Player.taken]) (by simp)
  | bufferingUpdates hFlag =>
      have hTaken := h.taken hThread (by decide) (by decide)
      exact (hTaken.notifyListenerL _).setThread (by simp [Player.notifyListenerL, Player.taken])
        (by simp [Player.notifyListenerL, Player.taken]) (by simp)
  | bufferingUnknown hFlag => exact h.taken hThread (by decide) (by decide)
  | seeks hFlag =>
      have hTaken := h.taken hThread (by decide) (by decide)
      refine Carried.seekToL hTaken.base hTaken.timed ?_ _ _
      intro hPlaying
      simpa [Player.taken] using hGuard hThread hFlag hPlaying
  | audioEnds hFlag =>
      have hTaken := h.taken hThread (by decide) (by decide)
      refine Carried.postOnce (Carried.postStreamDoneEventL ?_ _) _
      exact ⟨⟨hTaken.base.prepared, hTaken.base.video, hTaken.base.fired, hTaken.base.audio,
        hTaken.base.unsent, hTaken.base.armed⟩, hTaken.timed, hTaken.carries⟩
  | audioGoesOn hFlag => exact (h.taken hThread (by decide) (by decide)).postOnce _
  | prepareCancelled => exact absurd hThread h.base.fired
  | prepareOpens => exact absurd hThread h.base.fired
  | prepareFinishes => exact absurd hThread h.base.fired

theorem carried_call {act : Act} (h : Carried p) (hScope : act.onPrepared = true)
    (hGuard : SeekGuard p act) (hCall : p.call act = some q) : Carried q := by
  cases act with
  | play audioStarts =>
      cases hCall
      unfold Player.play
      split
      · exact h
      · rw [if_pos h.base.prepared]
        exact h.startPlaying audioStarts
  | pause =>
      cases hCall
      exact h.pauseL hGuard
  | seekTo timeUs =>
      cases hCall
      unfold Player.seekTo
      split
      · have hTime : Carried { p with
            mSeekingTimeUs := timeUs, seekingFor := p.source, asked := true } :=
          ⟨⟨h.base.prepared, h.base.video, h.base.fired, h.base.audio, h.base.unsent,
            h.base.armed⟩, h.timed, h.carries⟩
        exact hTime.postOnce .seeking
      · exact h
  | setLooping shouldLoop =>
      cases hCall
      exact ⟨⟨h.base.prepared, h.base.video, h.base.fired, h.base.audio, h.base.unsent,
        h.base.armed⟩, h.timed, h.carries⟩
  | playPrepared audioStarts => cases hScope
  | setDataSource uri => cases hScope
  | reset => cases hScope
  | resetDone => cases hScope
  | prepareAsync => cases hScope
  | destroy => cases hScope
  | openDone ok preparation => cases hScope
  | fire event => cases hCall
  | handle answers preparation => cases hCall
  | readDone result answers => cases hCall
  | notifyDone => cases hCall

theorem Base.fire (h : Base p) (hIdle : p.thread = .idle) {event : Event}
    (hOther : event ≠ .prepareAsync) :
    Base { p with
      mQueue := p.mQueue.erase event
      eventID := Function.update p.eventID event false
      thread := .fired event } := by
  refine ⟨h.prepared, h.video, ?_, h.audio, h.unsent, ?_⟩
  · simpa using hOther
  · exact fun other hOther => Armed.fire (h.armed other hOther) hIdle event

theorem carried_step {statics statics' : Statics} {act : Act} (h : Carried p)
    (hScope : act.onPrepared = true) (hGuard : SeekGuard p act)
    (hStep : playerStep statics p act = some (statics', q)) : Carried q := by
  cases moves_of_playerStep hStep with
  | call hCall => exact carried_call h hScope hGuard hCall
  | handle hThread hHandles => exact carried_handle h hGuard hThread hHandles
  | opened hThread => cases hScope
  | @fire event hIdle hQueued =>
      refine ⟨h.base.fire hIdle (by simpa [Act.onPrepared] using hScope), h.timed, ?_⟩
      exact h.carries.setThread (by simp [hIdle]) (.fired event)
  | readAgain hReading =>
      rw [if_pos h.base.video]
      exact h
  | readFrame hReading =>
      have hIdle : Base { p with thread := .idle } :=
        h.base.setThread (by simp [hReading]) (by simp)
      have hFrame : Base { p with thread := .idle, mVideoBuffer := true } :=
        ⟨hIdle.prepared, hIdle.video, hIdle.fired, hIdle.audio, hIdle.unsent, hIdle.armed⟩
      refine Carried.showFrame hFrame ?_ ?_ _
      · exact h.timed
      · exact h.carries.owed
  | readEnded hReading =>
      have hWatched : p.Watched := by
        rcases hGuard with hAgain | hFrame | hWatched
        · cases hAgain
        · cases hFrame
        · exact hWatched
      have hIdle : Carried { p with thread := .idle } := by
        refine ⟨h.base.setThread (by simp [hReading]) (by simp), h.timed, ?_⟩
        intro hUnsent
        rcases hWatched with hSent | hCheck
        · rw [hSent] at hUnsent
          cases hUnsent
        · exact Or.inl hCheck
      exact hIdle.postStreamDoneEventL _
  | streamDone hThread =>
      have hIdle : Carried { p with thread := .idle } :=
        h.setThread (by simp [hThread]) (by simp [hThread]) (by simp)
      have hPaused := hIdle.pauseL (hGuard hThread)
      exact ⟨⟨hPaused.base.prepared, hPaused.base.video, hPaused.base.fired, hPaused.base.audio,
        hPaused.base.unsent, hPaused.base.armed⟩, hPaused.timed, hPaused.carries⟩
  | bufferingUpdate hThread =>
      have hIdle : Carried { p with thread := .idle } :=
        h.setThread (by simp [hThread]) (by simp [hThread]) (by simp)
      unfold postBufferingEventL
      split
      · exact hIdle
      · exact hIdle.postOnce .buffering

/-- A first preparation that gives a video source makes a fresh player. -/
theorem fresh_firstPrepared (kind : Source) (mAudioSink : Bool) {preparation : Preparation}
    (hExtractor : preparation.extractor = true) (hVideo : preparation.video = true)
    (hDecoder : preparation.videoDecoder = true)
    (hAudio : preparation.audio = true → preparation.audioDecoder = true) :
    Fresh (firstPrepared kind mAudioSink preparation) := by
  have hAudioOk : ¬ (preparation.audio = true ∧ preparation.audioDecoder = false) := by
    rintro ⟨hTrack, hNone⟩
    simp [hAudio hTrack] at hNone
  unfold firstPrepared finishPrepare initDecoders
  simp only [resetL, cancelPlayerEvents, cancel, constructed, hExtractor, hVideo, hDecoder]
  simp only [reduceCtorEq, false_and, and_false, if_false, true_and, hAudioOk, Bool.false_or]
  unfold finishAsyncPrepare postBufferingEventL
  split <;> constructor <;> simp [postOnce_eq, carriers]

theorem Fresh.carried (h : Fresh p) : Carried p := by
  refine ⟨⟨h.prepared, h.video, by simp [h.idle], ?_, ?_, ?_⟩, ?_, ?_⟩
  · exact fun hPresent => absurd h.silent hPresent
  · simp [h.settled.1]
  · intro event hEvent hPending
    simp [h.unposted event hEvent] at hPending
  · simp [h.stopped]
  · intro hUnsent
    simp [h.settled.2] at hUnsent

theorem Carried.seekCarried (h : Carried p) : SeekCarried p := by
  intro hOpen
  have hUnsent : p.mSeekNotificationSent = false := by
    rcases hOpen with hSeeking | hUnsent
    · exact h.base.unsent hSeeking
    · exact hUnsent
  have hArmed : ∀ event ∈ carriers, p.pending event = true →
      ∃ event ∈ carriers, p.pending event = true ∧ event ∈ p.mQueue ∨ p.handling event := by
    intro event hEvent hPending
    rcases h.base.armed event hEvent hPending with hQueued | hFired
    · exact ⟨event, hEvent, Or.inl ⟨hPending, hQueued⟩⟩
    · exact ⟨event, hEvent, Or.inr (Or.inl hFired)⟩
  rcases h.carries hUnsent with hWatched | ⟨-, hPending | hReading⟩
  · exact hArmed _ (by decide) hWatched
  · exact hArmed _ (by decide) hPending
  · exact ⟨.video, by decide, Or.inr (Or.inr ⟨rfl, hReading⟩)⟩

end
end Player

/-- The guard of each player, for the whole process. -/
def World.SeekGuard (w : World) : WorldAct → Prop
  | .construct _ _ _ => False
  | .player number act => act.onPrepared = true ∧
      ∀ p ∈ w.players[number]?, AwesomePlayer.SeekGuard p act

instance (w : World) (act : WorldAct) : Decidable (w.SeekGuard act) :=
  match act with
  | .construct _ _ _ => .isFalse id
  | .player _ _ => inferInstanceAs (Decidable (_ ∧ _))

/-- No seek of a prepared player is left half done, in every run without a pause, an end
or a failed read on top of a seek that hangs on the video event. -/
theorem run_seekCarried {start w : World} {acts : List WorldAct}
    (hFresh : ∀ p ∈ start.players, p.Fresh) (run : Run step World.SeekGuard start acts w) :
    ∀ p ∈ w.players, p.SeekCarried := by
  intro p hMem
  have hCarried : ∀ p ∈ w.players, p.Carried := by
    refine players_invariant (fun p hMem => (hFresh p hMem).carried) ?_ ?_ run
    · intro _ _ _ _ hGuard
      exact hGuard.elim
    · intro w number act p statics q hGet _ hCarried hGuard hStep
      exact Player.carried_step hCarried hGuard.1 (hGuard.2 p hGet) hStep
  exact (hCarried p hMem).seekCarried

/-- One prepared player with a PP source. -/
def prepared : World := ⟨⟨false, 0⟩, [Player.firstPrepared .pp true goodPreparation]⟩

/-- A player that plays is sought; the queue thread has come to the read of the frame. -/
def seekWhilePlaying : List WorldAct :=
  [WorldAct.player 0 (.play true), WorldAct.player 0 (.seekTo 5000000)] ++
    fireAndHandle 0 .seeking ++ fireAndHandle 0 .video

theorem run_seekCarried_reading : ∃ w, Run step World.SeekGuard prepared seekWhilePlaying w ∧
    (∃ p ∈ w.players, p.mSeeking = true ∧ p.thread = .reading) ∧
    ∀ p ∈ w.players, p.SeekCarried := by
  obtain ⟨w, run, hReading⟩ := Run.exists_of_execGuarded
    (fun w : World => ∃ p ∈ w.players, p.mSeeking = true ∧ p.thread = .reading)
    (show (execGuarded step World.SeekGuard prepared seekWhilePlaying).any _ = true by decide +kernel)
  refine ⟨w, run, hReading, run_seekCarried ?_ run⟩
  intro p hMem
  obtain rfl := List.mem_singleton.mp hMem
  exact Player.fresh_firstPrepared .pp true rfl rfl rfl fun _ => rfl

/-- Two ways to leave a seek half done: a pause behind the seeking event of a player that
plays, and the end of the stream in the read that seeks. -/
theorem exists_run_seekDropped :
    (∃ w, Run step unguarded prepared
        ([WorldAct.player 0 (.play true), WorldAct.player 0 (.seekTo 5000000)] ++
          fireAndHandle 0 .seeking ++ [WorldAct.player 0 .pause]) w ∧
      ¬ ∀ p ∈ w.players, p.SeekCarried) ∧
    ∃ w, Run step unguarded prepared
        (seekWhilePlaying ++
          [WorldAct.player 0 (.readDone (.ended .endOfStream) quietAnswers)]) w ∧
      ¬ ∀ p ∈ w.players, p.SeekCarried :=
  ⟨Run.exists_of_exec (fun w : World => ¬ ∀ p ∈ w.players, p.SeekCarried)
      (show (exec step prepared _).any _ = true by decide +kernel),
    Run.exists_of_exec (fun w : World => ¬ ∀ p ∈ w.players, p.SeekCarried)
      (show (exec step prepared _).any _ = true by decide +kernel)⟩

end Meet.AwesomePlayer
