import Meet.AwesomePlayer.BufferingInfo
import Meet.AwesomePlayer.SourceChecked

/-! `seekTo_l` of `a14/AwesomePlayer.cpp` pauses the audio of a player that plays, and only
`checkBufferingStatus` resumes it, once the video event has executed the seek. -/
namespace Meet.AwesomePlayer
namespace Player

/-- A seek has paused the audio of a player that plays. -/
def Silenced (p : Player) : Prop := p.playing = true ∧ p.mAudioPlayer = .paused

/-- The event is in the queue or has been fired, and its flag is set. -/
def Due (p : Player) (event : Event) : Prop :=
  p.pending event = true ∧ (event ∈ p.mQueue ∨ p.thread = .fired event)

/-- A check that finds the extractor not buffering resumes the audio, and an event that makes
the check is due, or the video event is reading the frame behind which it posts itself. -/
structure WillResume (statics : Statics) (p : Player) : Prop where
  resumes : ∀ nowSec, (checkBufferingStatus statics p false nowSec).2.mAudioPlayer = .running
  extractor : p.mPPExtractor ≠ none
  due : p.Due .video ∨ p.Due .checkSeekingStatus ∨ p.thread = .reading

/-- The check is made only with the extractor of the PP source that is set, and audio that a
seek has paused comes back once the seek is executed. -/
structure Sound (statics : Statics) (p : Player) : Prop where
  checks : p.Checks → p.Current
  audio : p.Silenced → p.mSeeking = false → WillResume statics p

/-- `play` would play the stream again from its begin, with an audio player. -/
def Replays (p : Player) (audioStarts : Bool) : Prop :=
  p.atEos = true ∧ (p.mAudioPlayer ≠ .absent ∨
    p.mAudioSource = true ∧ p.mAudioSink = true ∧ audioStarts = true)

instance (p : Player) : Decidable p.Silenced := inferInstanceAs (Decidable (_ ∧ _))

instance (p : Player) (audioStarts : Bool) : Decidable (p.Replays audioStarts) :=
  inferInstanceAs (Decidable (_ ∧ (_ ∨ _)))

end Player

/-- No seek and no replay pauses the audio of a local source; no replay begins in the middle of
a read while no end of buffering is owed; and no read fails or ends while the check of an
executed seek hangs on it. -/
def AudioGuard (need : Bool) (p : Player) : Act → Prop
  | .play audioStarts => p.playing = false → p.prepared = true → p.Replays audioStarts →
      p.mPPExtractor ≠ none ∧ (p.thread = .reading → need = true)
  | .playPrepared audioStarts => p.mPrepareResult = true → p.Replays audioStarts →
      p.mPPExtractor ≠ none ∧ (p.thread = .reading → need = true)
  | .handle _ _ => p.Seeks → p.playing = true → p.mAudioPlayer ≠ .absent → p.mPPExtractor ≠ none
  | .readDone result _ => result = .again ∨ result = .frame ∨
      (p.Silenced → p.mSeeking = false →
        p.pending .video = true ∨ p.pending .checkSeekingStatus = true)
  | _ => True

instance (need : Bool) (p : Player) (act : Act) : Decidable (AudioGuard need p act) :=
  match act with
  | .play _ => inferInstanceAs (Decidable (_ → _ → _ → _ ∧ (_ → _)))
  | .playPrepared _ => inferInstanceAs (Decidable (_ → _ → _ ∧ (_ → _)))
  | .handle _ _ => inferInstanceAs (Decidable (_ → _ → _ → _))
  | .readDone _ _ => inferInstanceAs (Decidable (_ ∨ _ ∨ (_ → _ → _ ∨ _)))
  | .pause | .seekTo _ | .setLooping _ | .setDataSource _ | .reset | .resetDone | .prepareAsync
  | .destroy | .fire _ | .notifyDone | .openDone _ _ => .isTrue trivial

namespace Player

/-- The events that come to `checkBufferingStatus`. -/
def checking : List Event := [.video, .checkSeekingStatus]

/-- What an audio player needs, what a read needs, and where pending events are. -/
structure Steady (p : Player) : Prop where
  audio : p.mAudioPlayer ≠ .absent → p.mTimeSource = true ∧ p.mAudioSource = true
  read : p.thread = .reading → p.mVideoSource = true
  armed : ∀ event ∈ checking, p.Armed event

/-- What a player whose audio a seek has paused waits for. -/
structure Waits (need : Bool) (p : Player) : Prop where
  unsent : p.mSeekNotificationSent = false
  extractor : p.mPPExtractor ≠ none
  video : p.mSeeking = false → p.mVideoSource = true
  need : p.mSeeking = false ∨ p.thread = .reading → need = true
  event : p.mSeeking = false →
    p.pending .video = true ∨ p.pending .checkSeekingStatus = true ∨ p.thread = .reading

structure Tuned (need : Bool) (p : Player) : Prop where
  steady : Steady p
  waits : p.Silenced → Waits need p

/-- A player in the middle of an event behind the check: the end of buffering is owed. -/
structure Checked (need : Bool) (p : Player) : Prop where
  steady : Steady p
  unsent : p.Silenced → p.mSeekNotificationSent = false
  extractor : p.Silenced → p.mPPExtractor ≠ none
  video : p.Silenced → p.mSeeking = false → p.mVideoSource = true
  need : p.Silenced → need = true

/-- The second player differs from the first at most in events that have been posted and in
tracks that have been found. -/
structure Grows (p q : Player) : Prop where
  playing : q.playing = p.playing
  audio : q.mAudioPlayer = p.mAudioPlayer
  sent : q.mSeekNotificationSent = p.mSeekNotificationSent
  seeking : q.mSeeking = p.mSeeking
  reading : q.thread = .reading ↔ p.thread = .reading
  extractor : p.mPPExtractor ≠ none → q.mPPExtractor ≠ none
  videoSource : p.mVideoSource = true → q.mVideoSource = true
  audioSource : p.mAudioSource = true → q.mAudioSource = true
  timeSource : p.mTimeSource = true → q.mTimeSource = true
  posted : ∀ event ∈ checking, p.pending event = true → q.pending event = true
  armed : ∀ event ∈ checking, p.Armed event → q.Armed event

section
variable {p q r : Player} {need : Bool} {statics statics' : Statics}

theorem Tuned.willResume (h : Tuned statics.needBufferingEndNotification p) (hSilenced : p.Silenced)
    (hSeeking : p.mSeeking = false) : WillResume statics p := by
  have hWaits := h.waits hSilenced
  refine ⟨fun nowSec => ?_, hWaits.extractor, ?_⟩
  · have hNeed := hWaits.need (Or.inl hSeeking)
    simp [AwesomePlayer.checkBufferingStatus, hNeed, hSeeking, acknowledge, notifyListenerL,
      hWaits.unsent, hSilenced.1, hSilenced.2, resumeAudio]
  · have hArmed := h.steady.armed
    rcases hWaits.event hSeeking with hVideo | hCheck | hReading
    · exact Or.inl ⟨hVideo, hArmed .video (by decide) hVideo⟩
    · exact Or.inr (Or.inl ⟨hCheck, hArmed .checkSeekingStatus (by decide) hCheck⟩)
    · exact Or.inr (Or.inr hReading)

/-- The flag may be set meanwhile, but not cleared while the player waits for it. -/
theorem Tuned.setNeed {other : Bool} (h : Tuned need p)
    (hNeed : p.Silenced → need = true → other = true) : Tuned other p := by
  refine ⟨h.steady, fun hSilenced => ?_⟩
  have hWaits := h.waits hSilenced
  exact ⟨hWaits.unsent, hWaits.extractor, hWaits.video, hNeed hSilenced ∘ hWaits.need,
    hWaits.event⟩

/-! ### Steps that leave the audio alone -/

theorem Grows.refl (p : Player) : Grows p p :=
  ⟨rfl, rfl, rfl, rfl, Iff.rfl, id, id, id, id, fun _ _ => id, fun _ _ => id⟩

/-- The fields that the wait for the check depends on. -/
def waitFields (p : Player) :=
  (p.playing, p.mAudioPlayer, p.mSeekNotificationSent, p.mSeeking, p.thread, p.mPPExtractor,
    p.mVideoSource, p.mAudioSource, p.mTimeSource, p.pending, p.mQueue)

theorem Grows.of_fields (hFields : q.waitFields = p.waitFields) : Grows p q := by
  simp only [waitFields, Prod.mk.injEq] at hFields
  obtain ⟨hPlaying, hAudio, hSent, hSeeking, hThread, hExtractor, hVideoSource, hAudioSource,
    hTimeSource, hPending, hQueue⟩ := hFields
  refine ⟨hPlaying, hAudio, hSent, hSeeking, by rw [hThread], ?_, ?_, ?_, ?_, ?_, ?_⟩
  · rw [hExtractor]
    exact id
  · rw [hVideoSource]
    exact id
  · rw [hAudioSource]
    exact id
  · rw [hTimeSource]
    exact id
  · rw [hPending]
    exact fun _ _ => id
  · intro event _
    rw [Armed, Armed, hPending, hQueue, hThread]
    exact id

theorem Grows.trans (h : Grows p q) (h' : Grows q r) : Grows p r where
  playing := h'.playing.trans h.playing
  audio := h'.audio.trans h.audio
  sent := h'.sent.trans h.sent
  seeking := h'.seeking.trans h.seeking
  reading := h'.reading.trans h.reading
  extractor := h'.extractor ∘ h.extractor
  videoSource := h'.videoSource ∘ h.videoSource
  audioSource := h'.audioSource ∘ h.audioSource
  timeSource := h'.timeSource ∘ h.timeSource
  posted := fun event hEvent => h'.posted event hEvent ∘ h.posted event hEvent
  armed := fun event hEvent => h'.armed event hEvent ∘ h.armed event hEvent

theorem Grows.silenced (h : Grows p q) (hSilenced : q.Silenced) : p.Silenced := by
  rw [Silenced, h.playing, h.audio] at hSilenced
  exact hSilenced

theorem Steady.grows (h : Steady p) (hGrows : Grows p q) : Steady q where
  audio := by
    rw [hGrows.audio]
    exact fun hPresent =>
      ⟨hGrows.timeSource (h.audio hPresent).1, hGrows.audioSource (h.audio hPresent).2⟩
  read := fun hReading => hGrows.videoSource (h.read (hGrows.reading.mp hReading))
  armed := fun event hEvent => hGrows.armed event hEvent (h.armed event hEvent)

theorem Tuned.grows (h : Tuned need p) (hGrows : Grows p q) : Tuned need q := by
  refine ⟨h.steady.grows hGrows, fun hSilenced => ?_⟩
  have hWaits := h.waits (hGrows.silenced hSilenced)
  constructor
  · exact hGrows.sent.trans hWaits.unsent
  · exact hGrows.extractor hWaits.extractor
  · rw [hGrows.seeking]
    exact hGrows.videoSource ∘ hWaits.video
  · rw [hGrows.seeking, hGrows.reading]
    exact hWaits.need
  · rw [hGrows.seeking, hGrows.reading]
    intro hSeeking
    rcases hWaits.event hSeeking with hVideo | hCheck | hReading
    · exact Or.inl (hGrows.posted .video (by decide) hVideo)
    · exact Or.inr (Or.inl (hGrows.posted .checkSeekingStatus (by decide) hCheck))
    · exact Or.inr (Or.inr hReading)

theorem Grows.postOnce (p : Player) (event : Event) : Grows p (p.postOnce event) := by
  have hArmed : ∀ other ∈ checking, p.Armed other → (p.postOnce event).Armed other :=
    fun other _ h => h.postOnce event
  rw [postOnce_eq] at hArmed ⊢
  refine ⟨rfl, rfl, rfl, rfl, Iff.rfl, id, id, id, id, fun other _ hPending => ?_, hArmed⟩
  by_cases hSame : other = event
  · simp [hSame]
  · simpa [Function.update_of_ne hSame] using hPending

theorem Grows.postStreamDoneEventL (p : Player) (status : Status) :
    Grows p (p.postStreamDoneEventL status) := by
  unfold Player.postStreamDoneEventL
  split
  · exact Grows.refl p
  · refine Grows.trans ?_ (Grows.postOnce _ .streamDone)
    exact Grows.of_fields rfl

theorem Grows.postBufferingEventL (p : Player) : Grows p p.postBufferingEventL := by
  unfold Player.postBufferingEventL
  split
  · exact Grows.refl p
  · exact Grows.postOnce p .buffering

theorem Grows.abortPrepare (p : Player) : Grows p p.abortPrepare :=
  Grows.of_fields rfl

theorem Grows.finishAsyncPrepare (p : Player) : Grows p p.finishAsyncPrepare := by
  refine Grows.trans ?_ (Grows.postBufferingEventL _)
  exact Grows.of_fields rfl

theorem Grows.initDecoders (p : Player) (preparation : Preparation) :
    Grows p (p.initDecoders preparation) := by
  unfold Player.initDecoders
  dsimp only
  split_ifs
  · exact Grows.abortPrepare p
  · refine Grows.trans ?_ (Grows.abortPrepare _)
    exact ⟨rfl, rfl, rfl, rfl, Iff.rfl, id, by simp +contextual, id, id, fun _ _ => id,
      fun _ _ => id⟩
  · refine Grows.trans ?_ (Grows.finishAsyncPrepare _)
    exact ⟨rfl, rfl, rfl, rfl, Iff.rfl, id, by simp +contextual, by simp +contextual, id,
      fun _ _ => id, fun _ _ => id⟩

theorem Grows.finishPrepare (p : Player) (preparation : Preparation) :
    Grows p (p.finishPrepare preparation) := by
  unfold Player.finishPrepare
  split
  · exact Grows.finishAsyncPrepare p
  · rename_i uri hUri
    dsimp only
    split
    · exact Grows.abortPrepare p
    · have hExtracted : Grows p { p with
          mPPExtractor := if p.mPPDataSource then some ⟨uri, p.source⟩ else p.mPPExtractor } := by
        refine ⟨rfl, rfl, rfl, rfl, Iff.rfl, fun hSome => ?_, id, id, id, fun _ _ => id,
          fun _ _ => id⟩
        dsimp only
        split
        · simp
        · exact hSome
      split
      · exact hExtracted.trans (Grows.abortPrepare _)
      · refine (hExtracted.trans ?_).trans (Grows.initDecoders _ preparation)
        exact Grows.of_fields rfl

theorem Grows.prepareAsyncL (p : Player) : Grows p p.prepareAsyncL := by
  refine ⟨rfl, rfl, rfl, rfl, Iff.rfl, id, id, id, id, fun _ _ => id, fun other _ hArmed => ?_⟩
  exact fun hPending => (hArmed hPending).imp_left (List.mem_append_left _)

/-- The queue thread takes an event other than the two that check. -/
theorem Grows.taken {event : Event} (hThread : p.thread = .fired event)
    (hEvent : event ∉ checking) : Grows p (p.taken event) := by
  refine ⟨rfl, rfl, rfl, rfl, by simp [Player.taken, hThread], id, id, id, id, ?_,
    fun other _ h => h.taken hThread⟩
  intro other hOther hPending
  have hNot : other ≠ event := by
    rintro rfl
    exact hEvent hOther
  simpa [Player.taken, Function.update_of_ne hNot] using hPending

theorem Grows.skip {event : Event} (hThread : p.thread = .fired event)
    (hFlag : p.pending event = false) : Grows p { p with thread := .idle } :=
  ⟨rfl, rfl, rfl, rfl, by simp [hThread], id, id, id, id, fun _ _ => id,
    fun other _ h => h.skip hThread hFlag⟩

/-- The queue thread goes on where it was not reading and goes on to something else. -/
theorem Grows.setThread (hNone : ∀ event ∈ checking, p.thread ≠ .fired event)
    (hRead : p.thread ≠ .reading) {thread : QueueThread} (hThread : thread ≠ .reading) :
    Grows p { p with thread := thread } :=
  ⟨rfl, rfl, rfl, rfl, by simp [hRead, hThread], id, id, id, id, fun _ _ => id,
    fun other hOther h => h.setThread (hNone other hOther) thread⟩

/-! ### Steps that pause or resume the audio -/

theorem Tuned.of_loud (h : Steady p) (hLoud : ¬ p.Silenced) : Tuned need p :=
  ⟨h, fun hSilenced => absurd hSilenced hLoud⟩

theorem Checked.of_loud (h : Steady p) (hLoud : ¬ p.Silenced) : Checked need p :=
  ⟨h, fun hSilenced => absurd hSilenced hLoud, fun hSilenced => absurd hSilenced hLoud,
    fun hSilenced => absurd hSilenced hLoud, fun hSilenced => absurd hSilenced hLoud⟩

theorem not_silenced_of_paused (hPaused : p.playing = false) : ¬ p.Silenced := by
  rintro ⟨hPlaying, -⟩
  rw [hPaused] at hPlaying
  cases hPlaying

theorem Steady.setAudio (h : Steady p) {audio : Audio}
    (hAudio : audio = .absent ↔ p.mAudioPlayer = .absent) :
    Steady { p with mAudioPlayer := audio } :=
  ⟨fun hPresent => h.audio (hAudio.not.mp hPresent), h.read, h.armed⟩

/-- Pausing and resuming are for a player that is there. -/
theorem Steady.switchAudio (h : Steady p) {audio : Audio} (hAudio : audio ≠ .absent) :
    Steady { p with mAudioPlayer := if p.mAudioPlayer = .absent then .absent else audio } := by
  apply h.setAudio
  split
  · rename_i hAbsent
    simp [hAbsent]
  · rename_i hPresent
    simp [hPresent, hAudio]

theorem Steady.pauseAudio (h : Steady p) : Steady p.pauseAudio := h.switchAudio (by decide)

theorem Steady.resumeAudio (h : Steady p) : Steady p.resumeAudio := h.switchAudio (by decide)

theorem Steady.idle (h : Steady p) (hNone : ∀ event ∈ checking, p.thread ≠ .fired event) :
    Steady { p with thread := .idle } := by
  refine ⟨h.audio, by simp, fun event hEvent => ?_⟩
  exact (h.armed event hEvent).setThread (hNone event hEvent) .idle

theorem Steady.taken (h : Steady p) {event : Event} (hThread : p.thread = .fired event) :
    Steady (p.taken event) :=
  ⟨h.audio, by simp [Player.taken], fun other hOther => (h.armed other hOther).taken hThread⟩

theorem Steady.acknowledge (h : Steady p) : Steady p.acknowledge := by
  obtain ⟨notified, audio, hEq, hAudio⟩ := p.acknowledge_frame
  rw [hEq]
  have hSet := h.setAudio hAudio
  exact ⟨hSet.audio, hSet.read, hSet.armed⟩

/-- The acknowledgement of a seek ends the silence. -/
theorem not_silenced_acknowledge (hUnsent : p.Silenced → p.mSeekNotificationSent = false) :
    ¬ p.acknowledge.Silenced := by
  unfold Player.acknowledge
  split_ifs with hSent hPlaying
  · intro hSilenced
    rw [hUnsent hSilenced] at hSent
    cases hSent
  · rintro ⟨-, hAudio⟩
    simp only [Player.resumeAudio] at hAudio
    split at hAudio <;> cases hAudio
  · exact not_silenced_of_paused (by simpa [notifyListenerL] using hPlaying)

/-- `checkBufferingStatus` with an event that has just been taken: a seek in progress makes the
end of buffering owed, and the one that is executed and found ready is acknowledged. -/
theorem Tuned.check {event : Event} (h : Tuned statics.needBufferingEndNotification p)
    (hThread : p.thread = .fired event) (mVideoBuffer isBuffering : Bool) (nowSec : Int)
    {checked : Statics × Player}
    (hChecked : checkBufferingStatus statics
      { p.taken event with mVideoBuffer := mVideoBuffer } isBuffering nowSec = checked) :
    Checked checked.1.needBufferingEndNotification checked.2 := by
  have hTaken := h.steady.taken hThread
  have hSteady : Steady { p.taken event with mVideoBuffer := mVideoBuffer } :=
    ⟨hTaken.audio, hTaken.read, hTaken.armed⟩
  have hWaits : p.Silenced → Waits statics.needBufferingEndNotification p := h.waits
  have hOwed : (p.Silenced → statics.needBufferingEndNotification = true) →
      Checked statics.needBufferingEndNotification
        { p.taken event with mVideoBuffer := mVideoBuffer } := fun hNeed =>
    ⟨hSteady, fun hSilenced => (hWaits hSilenced).unsent,
      fun hSilenced => (hWaits hSilenced).extractor,
      fun hSilenced => (hWaits hSilenced).video, hNeed⟩
  subst hChecked
  unfold AwesomePlayer.checkBufferingStatus
  split_ifs with hNeed hReady hSeeking hLong
  · have hTold : Steady (notifyListenerL { p.taken event with mVideoBuffer := mVideoBuffer }
        .bufferingEnd) := ⟨hSteady.audio, hSteady.read, hSteady.armed⟩
    exact Checked.of_loud hTold.acknowledge
      (not_silenced_acknowledge fun hSilenced => (hWaits hSilenced).unsent)
  · exact hOwed fun _ => hNeed
  · exact ⟨⟨hSteady.audio, hSteady.read, hSteady.armed⟩,
      fun hSilenced => (hWaits hSilenced).unsent, fun hSilenced => (hWaits hSilenced).extractor,
      fun hSilenced => (hWaits hSilenced).video, fun _ => rfl⟩
  · have hStill : p.mSeeking = false := eq_false_of_ne_true fun hTrue =>
      hLong (Or.inr hTrue)
    exact hOwed fun hSilenced => (hWaits hSilenced).need (Or.inl hStill)
  · have hStill : p.mSeeking = false := eq_false_of_ne_true fun hTrue =>
      hSeeking (Or.inr hTrue)
    exact hOwed fun hSilenced => (hWaits hSilenced).need (Or.inl hStill)

/-- Behind the check it is enough that some event is left to come. -/
theorem Checked.tuned (h : Checked need p)
    (hEvent : p.Silenced → p.mSeeking = false →
      p.pending .video = true ∨ p.pending .checkSeekingStatus = true ∨ p.thread = .reading) :
    Tuned need p := by
  refine ⟨h.steady, fun hSilenced => ?_⟩
  exact ⟨h.unsent hSilenced, h.extractor hSilenced, h.video hSilenced, fun _ => h.need hSilenced,
    hEvent hSilenced⟩

theorem Checked.grows (h : Checked need p) (hGrows : Grows p q) : Checked need q where
  steady := h.steady.grows hGrows
  unsent := fun hSilenced => hGrows.sent.trans (h.unsent (hGrows.silenced hSilenced))
  extractor := fun hSilenced => hGrows.extractor (h.extractor (hGrows.silenced hSilenced))
  video := by
    rw [hGrows.seeking]
    exact fun hSilenced hSeeking =>
      hGrows.videoSource (h.video (hGrows.silenced hSilenced) hSeeking)
  need := fun hSilenced => h.need (hGrows.silenced hSilenced)

theorem Checked.postOnce (h : Checked need p) (event : Event) (hEvent : event ∈ checking) :
    Tuned need (p.postOnce event) := by
  refine (h.grows (Grows.postOnce p event)).tuned fun _ _ => ?_
  simp only [checking, List.mem_cons, List.not_mem_nil, or_false] at hEvent
  rcases hEvent with rfl | rfl <;> simp [postOnce_eq]

/-- The frame of a seek is shown, and the next video event posted. -/
theorem Checked.showFrame (h : Checked need p) (hVideo : p.Silenced → p.mVideoSource = true)
    (answers : Answers) : Tuned need (p.showFrame answers) := by
  have hShown : ∀ watch buffer, Checked need { p with
      mSeeking := false, mWatchForAudioEOS := watch, mVideoBuffer := buffer } := fun _ _ =>
    ⟨⟨h.steady.audio, h.steady.read, h.steady.armed⟩, h.unsent, h.extractor,
      fun hSilenced _ => hVideo hSilenced, h.need⟩
  have hPosted := fun watch buffer => (hShown watch buffer).postOnce .video (by decide)
  unfold Player.showFrame
  dsimp only
  split_ifs with hTimeless hDone hAudioSeeks hPaused hEarly
  · refine Tuned.of_loud h.steady fun hSilenced => ?_
    have hTimed := (h.steady.audio (by simp [hSilenced.2])).1
    rw [hTimeless] at hTimed
    cases hTimed
  · exact Tuned.of_loud (hShown _ _).steady (not_silenced_of_paused hDone.2)
  · exact hPosted _ _
  · exact Tuned.of_loud (hShown _ _).steady (not_silenced_of_paused hPaused)
  · exact hPosted _ _
  · exact hPosted _ _

/-- The video event goes on behind the check. A frame at hand belongs to no seek. -/
theorem Checked.readFrame (h : Checked need p) (hIdle : p.thread = .idle)
    (hBuffer : p.mVideoBuffer = true → p.mSeeking = false) (answers : Answers) :
    Tuned need (p.readFrame answers) := by
  unfold Player.readFrame
  split_ifs with hFrame hSource
  · exact h.showFrame (fun hSilenced => h.video hSilenced (hBuffer hFrame)) answers
  · have hReads : Steady { p with thread := .reading } := by
      refine ⟨h.steady.audio, fun _ => hSource, fun event hEvent => ?_⟩
      exact (h.steady.armed event hEvent).setThread (by simp [hIdle]) .reading
    refine Checked.tuned ?_ fun _ _ => Or.inr (Or.inr rfl)
    exact ⟨hReads, h.unsent, h.extractor, h.video, h.need⟩
  · refine h.tuned fun hSilenced hSeeking => ?_
    exact absurd (h.video hSilenced hSeeking) hSource

theorem Steady.cancel (h : Steady p) (event : Event) : Steady (p.cancel event) :=
  ⟨h.audio, h.read, fun other hOther => (h.armed other hOther).cancel event⟩

theorem Steady.cancelPlayerEvents (h : Steady p) (keepBufferingGoing : Bool) :
    Steady (p.cancelPlayerEvents keepBufferingGoing) := by
  have hThree := ((h.cancel .video).cancel .streamDone).cancel .checkAudioStatus
  cases keepBufferingGoing
  · exact hThree.cancel .buffering
  · exact hThree

theorem Steady.pauseL (h : Steady p) : Steady p.pauseL := by
  unfold Player.pauseL
  split
  · have hPaused := (h.cancelPlayerEvents true).pauseAudio
    exact ⟨hPaused.audio, hPaused.read, hPaused.armed⟩
  · exact h

theorem Tuned.pauseL (h : Tuned need p) : Tuned need p.pauseL :=
  Tuned.of_loud h.steady.pauseL (not_silenced_of_paused p.pauseL_frame.1)

/-- A reset gives up the audio player. -/
theorem tuned_resetL (h : Steady p) (hThread : p.thread ≠ .reading) (uri : Option Source) :
    Tuned need (p.resetL uri) := by
  have hCancelled := h.cancelPlayerEvents false
  have hAbsent : (p.resetL uri).mAudioPlayer = .absent := rfl
  refine Tuned.of_loud ⟨fun hPresent => absurd hAbsent hPresent, ?_, hCancelled.armed⟩ ?_
  · rw [resetL_thread]
    exact fun hReading => absurd hReading hThread
  · rintro ⟨-, hPaused⟩
    rw [hAbsent] at hPaused
    cases hPaused

/-- A seek of a player that plays pauses its audio until the extractor has been asked. -/
theorem Tuned.seekToL (h : Tuned need p)
    (hGuard : p.playing = true → p.mAudioPlayer ≠ .absent →
      p.mPPExtractor ≠ none ∧ (p.thread = .reading → need = true))
    (timeUs : Int) (seekFor : Nat) : Tuned need (p.seekToL timeUs seekFor) := by
  have hSteady : Steady (Player.pauseAudio { p with
      mSeeking := true, mSeekNotificationSent := false, mSeekTimeUs := timeUs, atEos := false
      seekFor := seekFor }) := by
    apply Steady.pauseAudio
    exact ⟨h.steady.audio, h.steady.read, h.steady.armed⟩
  unfold Player.seekToL
  dsimp only
  split
  · rename_i hPlaying
    refine ⟨hSteady, fun hSilenced => ?_⟩
    have hPresent : p.mAudioPlayer ≠ .absent := by
      intro hAbsent
      simp [Silenced, Player.pauseAudio, hAbsent] at hSilenced
    obtain ⟨hExtractor, hNeed⟩ := hGuard hPlaying hPresent
    constructor
    · rfl
    · exact hExtractor
    · intro hSeeking
      cases hSeeking
    · rintro (hSeeking | hReading)
      · cases hSeeking
      · exact hNeed hReading
    · intro hSeeking
      cases hSeeking
  · rename_i hPaused
    have hStopped : p.playing = false := by simpa using hPaused
    have hBegun : Tuned need (Player.pauseAudio { p with
        mSeeking := true, mSeekNotificationSent := false, mSeekTimeUs := timeUs, atEos := false
        seekFor := seekFor }) :=
      Tuned.of_loud hSteady (not_silenced_of_paused hStopped)
    exact (hBegun.grows (Grows.postOnce _ .video)).grows (Grows.postOnce _ .checkSeekingStatus)

/-- An audio player that has been started or resumed runs. -/
theorem steady_startAudio {audioStarts : Bool} (h : Steady p)
    (hStart : p.startAudio audioStarts = some q) : Steady q ∧ q.mAudioPlayer ≠ .paused := by
  unfold Player.startAudio at hStart
  split_ifs at hStart with hSource hPresent hSink hStarts <;> cases hStart
  · refine ⟨h, fun hPaused => ?_⟩
    have hTrack := (h.audio (by simp [hPaused])).2
    rw [hSource] at hTrack
    cases hTrack
  · refine ⟨h.resumeAudio.grows (Grows.postOnce _ .checkAudioStatus), ?_⟩
    simp only [Player.postCheckAudioStatusEventL, postOnce_eq, Player.resumeAudio]
    split <;> simp
  · refine ⟨h.grows (Grows.postOnce p .checkAudioStatus), ?_⟩
    have hAbsent : p.mAudioPlayer = .absent := by simpa using hPresent
    simp [Player.postCheckAudioStatusEventL, postOnce_eq, hAbsent]
  · refine ⟨Steady.grows ?_ (Grows.postOnce _ .checkAudioStatus), ?_⟩
    · exact ⟨fun _ => ⟨rfl, by simpa using hSource⟩, h.read, h.armed⟩
    · simp [Player.postCheckAudioStatusEventL, postOnce_eq]

/-- What `startAudio` leaves alone, and when there is an audio player behind it. -/
theorem startAudio_frame {audioStarts : Bool} (hStart : p.startAudio audioStarts = some q) :
    q.atEos = p.atEos ∧ q.thread = p.thread ∧ q.mPPExtractor = p.mPPExtractor ∧
      (q.mAudioPlayer ≠ .absent → p.mAudioPlayer ≠ .absent ∨
        p.mAudioSource = true ∧ p.mAudioSink = true ∧ audioStarts = true) := by
  unfold Player.startAudio at hStart
  split_ifs at hStart with hSource hPresent hSink hStarts <;> cases hStart
  · exact ⟨rfl, rfl, rfl, Or.inl⟩
  · rw [Player.postCheckAudioStatusEventL, postOnce_eq]
    exact ⟨rfl, rfl, rfl, fun _ => Or.inl hPresent⟩
  · rw [Player.postCheckAudioStatusEventL, postOnce_eq]
    exact ⟨rfl, rfl, rfl, Or.inl⟩
  · rw [Player.postCheckAudioStatusEventL, postOnce_eq]
    refine ⟨rfl, rfl, rfl, fun _ => Or.inr ⟨?_, ?_, ?_⟩⟩
    · simpa using hSource
    · simpa using hSink
    · simpa using hStarts

theorem Tuned.startPlaying (h : Tuned need p) {audioStarts : Bool}
    (hGuard : p.Replays audioStarts →
      p.mPPExtractor ≠ none ∧ (p.thread = .reading → need = true)) :
    Tuned need (p.startPlaying audioStarts) := by
  have hPlays : Steady { p with playing := true } :=
    ⟨h.steady.audio, h.steady.read, h.steady.armed⟩
  unfold Player.startPlaying
  split
  · exact h
  · rename_i audible hStart
    obtain ⟨hSteady, hRuns⟩ := steady_startAudio hPlays hStart
    obtain ⟨hEos, hThread, hExtractor, hPresent⟩ := startAudio_frame hStart
    have hTimed : Tuned need { audible with
        mTimeSource := audible.mTimeSource || decide (audible.mAudioPlayer = .absent) } := by
      refine Tuned.of_loud ⟨fun hAudio => ?_, hSteady.read, hSteady.armed⟩ fun hSilenced =>
        hRuns hSilenced.2
      have hNeeds := hSteady.audio hAudio
      exact ⟨by simp [hNeeds.1], hNeeds.2⟩
    have hReplays : ∀ posted : Player, Tuned need posted → posted.atEos = audible.atEos →
        posted.mAudioPlayer = audible.mAudioPlayer → posted.thread = audible.thread →
        posted.mPPExtractor = audible.mPPExtractor →
        Tuned need (if posted.atEos then { posted.seekToL 0 posted.eosFor with asked := true }
          else posted) := by
      intro posted hPosted hSameEos hSameAudio hSameThread hSameExtractor
      split
      · rename_i hAtEos
        have hSeeks := hPosted.seekToL (fun _ hAudio => by
          rw [hSameThread, hSameExtractor, hThread, hExtractor]
          refine hGuard ⟨?_, ?_⟩
          · rw [← hAtEos, hSameEos]
            exact hEos.symm
          · exact hPresent (hSameAudio ▸ hAudio)) 0 posted.eosFor
        refine hSeeks.grows ?_
        exact Grows.of_fields rfl
      · exact hPosted
    dsimp only
    split
    · refine hReplays _ (hTimed.grows (Grows.postOnce _ .video)) ?_ ?_ ?_ ?_ <;>
        simp [Player.postVideoEventL, postOnce_eq]
    · exact hReplays _ hTimed rfl rfl rfl rfl

/-! ### Every step -/

theorem Tuned.taken (h : Tuned need p) {event : Event} (hThread : p.thread = .fired event)
    (hEvent : event ∉ checking) : Tuned need (p.taken event) :=
  h.grows (Grows.taken hThread hEvent)

/-- The queue thread leaves the lock to tell the listener. -/
theorem Tuned.tell (h : Tuned need p) (hIdle : p.thread = .idle) (notification : Notification)
    {thread : QueueThread} (hThread : thread ≠ .reading) :
    Tuned need { p.notifyListenerL notification with thread := thread } := by
  have hTold : Tuned need (p.notifyListenerL notification) :=
    h.grows (Grows.of_fields rfl)
  refine hTold.grows (Grows.setThread ?_ ?_ hThread) <;> simp [notifyListenerL, hIdle]

theorem Tuned.ask (h : Tuned need p) : Tuned need { p with asked := true } :=
  h.grows (Grows.of_fields rfl)

/-- A preparation is neither a check nor a read. -/
theorem Tuned.prepare (h : Tuned need p) (hThread : p.thread = .fired .prepareAsync)
    (thread : QueueThread) (hNext : thread ≠ .reading) :
    Tuned need { p with thread := thread } := by
  refine h.grows (Grows.setThread ?_ (by simp [hThread]) hNext)
  rw [hThread]
  decide

theorem tuned_handle {answers : Answers} {preparation : Preparation} {event : Event}
    (h : Tuned statics.needBufferingEndNotification p) (hThread : p.thread = .fired event)
    (hGuard : p.Seeks → p.playing = true → p.mAudioPlayer ≠ .absent → p.mPPExtractor ≠ none)
    (hHandles : Handles statics p answers preparation event statics' q) :
    Tuned statics'.needBufferingEndNotification q := by
  cases hHandles with
  | skip hFlag => exact h.grows (Grows.skip hThread hFlag)
  | videoUnchecked hFlag hExtractor =>
      have hLoud : ¬ p.Silenced := fun hSilenced => (h.waits hSilenced).extractor hExtractor
      have hTaken := h.steady.taken hThread
      have hChecked : Checked statics.needBufferingEndNotification p.takenVideo :=
        Checked.of_loud ⟨hTaken.audio, hTaken.read, hTaken.armed⟩ hLoud
      exact hChecked.readFrame rfl (by simp [takenVideo, Player.taken]) answers
  | videoWaits hFlag hExtractor hChecked =>
      exact (h.check hThread _ _ _ hChecked).postOnce .video (by decide)
  | videoReads hFlag hExtractor hChecked =>
      obtain ⟨notified, sent, audio, hEq, -⟩ := checkBufferingStatus_frame statics p.takenVideo
        answers.isBuffering answers.nowSec
      rw [hChecked] at hEq
      refine (h.check hThread _ _ _ hChecked).readFrame ?_ ?_ answers
      · rw [hEq]
        rfl
      · simp [hEq, takenVideo, Player.taken]
  | streamLoops hFlag hLooped hLoops =>
      have hSeeks : p.Seeks := Or.inr ⟨hThread, hFlag, hLoops⟩
      have hLoop := (h.taken hThread (by decide)).seekToL
        (fun hPlaying hAudio => ⟨hGuard hSeeks hPlaying hAudio, by simp [Player.taken]⟩)
        0 p.streamDoneFor
      subst hLooped
      split
      · exact hLoop.ask.grows (Grows.postOnce _ .video)
      · exact hLoop.ask
  | streamEnds hFlag hEnd => exact (h.taken hThread (by decide)).tell rfl _ (by decide)
  | bufferingUpdates hFlag => exact (h.taken hThread (by decide)).tell rfl _ (by decide)
  | bufferingUnknown hFlag => exact h.taken hThread (by decide)
  | seeks hFlag =>
      have hSeeks : p.Seeks := Or.inl ⟨hThread, hFlag⟩
      exact (h.taken hThread (by decide)).seekToL
        (fun hPlaying hAudio => ⟨hGuard hSeeks hPlaying hAudio, by simp [Player.taken]⟩) _ _
  | audioEnds hFlag =>
      have hUnwatched : Tuned statics.needBufferingEndNotification
          { p.taken .checkAudioStatus with mWatchForAudioEOS := false } :=
        (h.taken hThread (by decide)).grows (Grows.of_fields rfl)
      exact (hUnwatched.grows (Grows.postStreamDoneEventL _ _)).grows
        (Grows.postOnce _ .checkAudioStatus)
  | audioGoesOn hFlag =>
      exact (h.taken hThread (by decide)).grows (Grows.postOnce _ .checkAudioStatus)
  | checks hFlag hExtractor hChecked =>
      have hDone := h.check hThread p.mVideoBuffer _ _ hChecked
      split
      · rename_i hSent
        refine hDone.tuned fun hSilenced => ?_
        rw [hDone.unsent hSilenced] at hSent
        cases hSent
      · exact hDone.postOnce .checkSeekingStatus (by decide)
  | prepareCancelled =>
      exact (h.prepare hThread .idle (by decide)).grows (Grows.abortPrepare _)
  | prepareOpens hUri =>
      refine (h.prepare hThread .opening (by decide)).grows ?_
      exact Grows.of_fields rfl
  | prepareFinishes hUri =>
      exact (h.prepare hThread .idle (by decide)).grows (Grows.finishPrepare _ _)

/-- The queue thread is done with what it did without the lock. -/
theorem Tuned.rest (h : Tuned need p) (hNone : ∀ event, p.thread ≠ .fired event)
    (hRead : p.thread ≠ .reading) : Tuned need { p with thread := .idle } :=
  h.grows (Grows.setThread (fun event _ => hNone event) hRead (by decide))

theorem tuned_call {act : Act} (h : Tuned need p) (hGuard : AudioGuard need p act)
    (hDestroy : act ≠ .destroy) (hCall : p.call act = some q) : Tuned need q := by
  cases act with
  | play audioStarts =>
      cases hCall
      unfold Player.play
      split_ifs with hPlaying hPrepared hPreparing
      · exact h
      · exact h.startPlaying (hGuard (by simpa using hPlaying) hPrepared)
      · exact h
      · refine (h.grows (Grows.prepareAsyncL p)).grows ?_
        exact Grows.of_fields rfl
  | playPrepared audioStarts =>
      simp only [Player.call] at hCall
      split at hCall
      · have hWoken : Tuned need { p with playWaits := false } :=
          h.grows (Grows.of_fields rfl)
        cases hCall
        split
        · rename_i hResult
          exact hWoken.startPlaying (hGuard hResult)
        · exact hWoken
      · cases hCall
  | pause =>
      cases hCall
      exact h.pauseL
  | seekTo timeUs =>
      cases hCall
      unfold Player.seekTo
      split
      · refine Tuned.grows (h.grows ?_) (Grows.postOnce _ .seeking)
        exact Grows.of_fields rfl
      · exact h
  | setLooping shouldLoop =>
      cases hCall
      exact h.grows (Grows.of_fields rfl)
  | setDataSource uri =>
      simp only [Player.call] at hCall
      split at hCall <;> cases hCall
      exact h.grows (Grows.of_fields rfl)
  | reset =>
      simp only [Player.call] at hCall
      split at hCall <;> cases hCall
      exact h.grows (Grows.of_fields rfl)
  | resetDone =>
      simp only [Player.call] at hCall
      split at hCall
      · split at hCall
        · rename_i uri hUri hReady
          cases hCall
          exact tuned_resetL h.steady hReady.2 uri
        · cases hCall
      · cases hCall
  | prepareAsync =>
      cases hCall
      split
      · exact h
      · exact h.grows (Grows.prepareAsyncL p)
  | destroy => exact absurd rfl hDestroy
  | fire event => cases hCall
  | handle answers preparation => cases hCall
  | readDone result answers => cases hCall
  | notifyDone => cases hCall
  | openDone ok preparation => cases hCall

theorem tuned_step {act : Act} (h : Tuned statics.needBufferingEndNotification p)
    (hGuard : AudioGuard statics.needBufferingEndNotification p act) (hDestroy : act ≠ .destroy)
    (hStep : playerStep statics p act = some (statics', q)) :
    Tuned statics'.needBufferingEndNotification q := by
  cases moves_of_playerStep hStep with
  | call hCall => exact tuned_call h hGuard hDestroy hCall
  | handle hThread hHandles => exact tuned_handle h hThread hGuard hHandles
  | fire hIdle hQueued =>
      refine h.grows ⟨rfl, rfl, rfl, rfl, by simp [hIdle], id, id, id, id, fun _ _ => id, ?_⟩
      exact fun other _ hArmed => hArmed.fire hIdle _
  | readAgain hReading =>
      rw [if_pos (h.steady.read hReading)]
      exact h
  | readFrame hReading =>
      have hIdle := h.steady.idle (by simp [hReading])
      have hChecked : Checked statics.needBufferingEndNotification
          { p with thread := .idle, mVideoBuffer := true } :=
        ⟨⟨hIdle.audio, hIdle.read, hIdle.armed⟩, fun hSilenced => (h.waits hSilenced).unsent,
          fun hSilenced => (h.waits hSilenced).extractor,
          fun hSilenced => (h.waits hSilenced).video,
          fun hSilenced => (h.waits hSilenced).need (Or.inr hReading)⟩
      exact hChecked.showFrame (fun _ => h.steady.read hReading) _
  | readEnded hReading =>
      have hPending : p.Silenced → p.mSeeking = false →
          p.pending .video = true ∨ p.pending .checkSeekingStatus = true := by
        rcases hGuard with hAgain | hFrame | hPending
        · cases hAgain
        · cases hFrame
        · exact hPending
      have hIdle := h.steady.idle (by simp [hReading])
      refine Tuned.grows ⟨hIdle, fun hSilenced => ?_⟩ (Grows.postStreamDoneEventL _ _)
      have hWaits := h.waits hSilenced
      refine ⟨hWaits.unsent, hWaits.extractor, hWaits.video, ?_, ?_⟩
      · exact fun _ => hWaits.need (Or.inr hReading)
      · exact fun hSeeking => (hPending hSilenced hSeeking).imp_right Or.inl
  | streamDone hThread =>
      have hIdle := h.rest (by simp [hThread]) (by simp [hThread])
      exact hIdle.pauseL.grows (Grows.of_fields rfl)
  | bufferingUpdate hThread =>
      have hIdle := h.rest (by simp [hThread]) (by simp [hThread])
      exact hIdle.grows (Grows.postBufferingEventL _)
  | opened hThread =>
      have hIdle := h.rest (by simp [hThread]) (by simp [hThread])
      split
      · exact hIdle.grows (Grows.finishPrepare _ _)
      · exact hIdle.grows (Grows.abortPrepare _)

end
end Player

/-- The guards of each player, and none is found ready in the place of one that waits. -/
def World.SourceGuard (w : World) : WorldAct → Prop
  | .construct _ _ _ => True
  | .player number act => ∀ p ∈ w.players[number]?,
      AwesomePlayer.SourceGuard p act ∧
      AudioGuard w.statics.needBufferingEndNotification p act ∧
      (w.statics.needBufferingEndNotification = true → p.FindsReady act →
        ∀ other ∈ w.players.eraseIdx number, ¬ other.Silenced)

instance (w : World) (act : WorldAct) : Decidable (w.SourceGuard act) :=
  match act with
  | .construct _ _ _ => .isTrue trivial
  | .player _ _ => inferInstanceAs (Decidable (∀ p ∈ _, _ ∧ _ ∧ (_ → _ → ∀ other ∈ _, ¬ _)))

namespace Player

/-- A player of a process, living or destroyed. -/
def Kept (need : Bool) (p : Player) : Prop :=
  p.destroyed = true ∧ p.thread = .idle ∧ p.mAudioPlayer = .absent ∨ Tuned need p ∧ Sourced p

section
variable {p q : Player} {statics statics' : Statics}

theorem Kept.sound (h : Kept statics.needBufferingEndNotification p) : p.Sound statics := by
  rcases h with ⟨-, hIdle, hAbsent⟩ | ⟨hTuned, hSourced⟩
  · constructor
    · rintro (⟨hFired, -⟩ | ⟨hFired, -⟩) <;> simp [hIdle] at hFired
    · rintro ⟨-, hPaused⟩
      simp [hAbsent] at hPaused
  · exact ⟨hSourced.current, hTuned.willResume⟩

theorem kept_constructed (need mSeeking mSeekNotificationSent mAudioSink : Bool) :
    Kept need (constructed mSeeking mSeekNotificationSent mAudioSink) := by
  refine Or.inr ⟨Tuned.of_loud ⟨by simp [constructed], by simp [constructed], ?_⟩
    (not_silenced_of_paused rfl), ?_⟩
  · exact fun event _ hPending => by cases hPending
  · exact ⟨Or.inl rfl, by simp [constructed], fun _ => rfl, by simp [constructed],
      by simp [constructed]⟩

theorem kept_step {act : Act} (h : Kept statics.needBufferingEndNotification p)
    (hAlive : p.destroyed = false) (hSource : SourceGuard p act)
    (hAudio : AudioGuard statics.needBufferingEndNotification p act)
    (hStep : playerStep statics p act = some (statics', q)) :
    Kept statics'.needBufferingEndNotification q := by
  obtain ⟨hTuned, hSourced⟩ := h.resolve_left (by simp [hAlive])
  by_cases hDestroy : act = .destroy
  · subst hDestroy
    simp only [playerStep, Player.call] at hStep
    split_ifs at hStep with hIdle
    · cases hStep
      refine Or.inl ⟨rfl, ?_, rfl⟩
      exact (resetL_thread p none).trans hIdle.1
    · cases hStep
  · exact Or.inr ⟨tuned_step hTuned hAudio hDestroy hStep,
      sourced_step hSourced hSource hDestroy hStep⟩

/-- What the step of another player does to the flag. -/
theorem Kept.informs {other : Player} {ready : Prop}
    (h : Kept statics.needBufferingEndNotification other)
    (hInforms : Informs statics p ready statics' q)
    (hGuard : statics.needBufferingEndNotification = true → ready → ¬ other.Silenced) :
    Kept statics'.needBufferingEndNotification other := by
  refine h.imp_right (And.imp_left fun hTuned => hTuned.setNeed fun hSilenced hNeed => ?_)
  cases hInforms with
  | same hSame => rw [hSame, hNeed]
  | started hFree hStarted => exact hStarted
  | ended hReady => exact absurd hSilenced (hGuard hNeed hReady)

end
end Player

/-- The check is made only with the extractor of the PP source that is set, and audio that a
seek has paused comes back, in every run that meets the guards. -/
theorem run_sound {acts : List WorldAct} {w : World}
    (run : Run step World.SourceGuard initial acts w) : ∀ p ∈ w.players, p.Sound w.statics := by
  have hKept : ∀ p ∈ w.players, p.Kept w.statics.needBufferingEndNotification := by
    have hInvariant := @Run.invariant _ _ step World.SourceGuard fun w =>
      ∀ p ∈ w.players, p.Kept w.statics.needBufferingEndNotification
    refine hInvariant run (by simp [initial]) ?_
    intro before act after hBefore hGuard hStep
    rcases step_cases hStep with ⟨_, _, _, rfl, rfl⟩ |
      ⟨number, inner, p, statics, q, rfl, hGet, hAlive, hInner, rfl⟩
    · intro p hMem
      rcases List.mem_append.mp hMem with hOld | hNew
      · exact hBefore p hOld
      · obtain rfl := List.mem_singleton.mp hNew
        exact Player.kept_constructed _ _ _ _
    · obtain ⟨hSource, hAudio, hReady⟩ := hGuard p hGet
      obtain ⟨hNumber, -⟩ := List.getElem?_eq_some_iff.mp hGet
      intro r hMem
      have hPlace := (List.set_perm_cons_eraseIdx hNumber q).mem_iff.mp hMem
      rcases List.mem_cons.mp hPlace with rfl | hOther
      · exact Player.kept_step (hBefore p (List.mem_of_getElem? hGet)) hAlive hSource hAudio hInner
      · exact (hBefore r (List.mem_of_mem_eraseIdx hOther)).informs (informs_step hInner)
          fun hNeed hFound => hReady hNeed hFound r hOther
  exact fun p hMem => (hKept p hMem).sound

/-- A player of a PP source seeks while it plays, and shows the frame it seeks to. -/
def seekPP : List WorldAct :=
  constructAndPrepare 0 ++ [WorldAct.player 0 (.play true)] ++ seekAndShow 0

theorem run_sound_silenced : ∃ w, Run step World.SourceGuard initial seekPP w ∧
    (∃ p ∈ w.players, p.Silenced ∧ p.mSeeking = false) ∧ ∀ p ∈ w.players, p.Sound w.statics := by
  obtain ⟨w, run, hSilenced⟩ := Run.exists_of_execGuarded
    (fun w : World => ∃ p ∈ w.players, p.Silenced ∧ p.mSeeking = false)
    (show (execGuarded step World.SourceGuard initial seekPP).any _ = true by decide +kernel)
  exact ⟨w, run, hSilenced, run_sound run⟩

/-- The player gets a local source and is prepared. -/
def prepareLocal : List WorldAct :=
  [WorldAct.player 0 (.setDataSource .other), WorldAct.player 0 .resetDone,
    WorldAct.player 0 .prepareAsync] ++ fireAndHandle 0 .prepareAsync

/-- A player of a local source seeks while it plays, and shows the frame it seeks to. -/
def seekLocal : List WorldAct :=
  [WorldAct.construct false true true] ++ prepareLocal ++ [WorldAct.player 0 (.play true)] ++
    seekAndShow 0

/-- Four ways to fail. A local source is seeked while it is paused, and the check finds no
extractor; a local source follows a PP source, and the check takes its extractor for one of a PP
source; a PP source is replaced while its seek is being checked, and the check asks the old
extractor; and the audio of a local source that is seeked while it plays stays paused. -/
theorem exists_run_unsound :
    (∃ w, Run step unguarded initial
        ([WorldAct.construct false true true] ++ prepareLocal ++
          [WorldAct.player 0 (.seekTo 5000000)] ++ fireAndHandle 0 .seeking ++
          [WorldAct.player 0 (.fire .checkSeekingStatus)]) w ∧
      ∃ p ∈ w.players, p.Checks ∧ p.mPPExtractor = none ∧ ¬ p.Current) ∧
    (∃ w, Run step unguarded initial
        (constructAndPrepare 0 ++ prepareLocal ++
          [WorldAct.player 0 (.play true), WorldAct.player 0 (.fire .video)]) w ∧
      ∃ p ∈ w.players, p.Checks ∧ p.mPPExtractor = some ⟨.other, 2⟩ ∧ ¬ p.Current) ∧
    (∃ w, Run step unguarded initial
        (constructAndPrepare 0 ++ [WorldAct.player 0 (.seekTo 5000000)] ++
          fireAndHandle 0 .seeking ++ replaceSource ++
          [WorldAct.player 0 (.fire .checkSeekingStatus)]) w ∧
      ∃ p ∈ w.players, p.Checks ∧ p.mPPExtractor = some ⟨.pp, 1⟩ ∧ ¬ p.Current) ∧
    ∃ w, Run step unguarded initial seekLocal w ∧
      ∃ p ∈ w.players, p.Silenced ∧ p.mSeeking = false ∧ p.mPPExtractor = none ∧
        ¬ p.Sound w.statics := by
  refine ⟨?_, ?_, ?_, ?_⟩
  · exact Run.exists_of_exec
      (fun w : World => ∃ p ∈ w.players, p.Checks ∧ p.mPPExtractor = none ∧ ¬ p.Current)
      (show (exec step initial _).any _ = true by decide +kernel)
  · exact Run.exists_of_exec
      (fun w : World => ∃ p ∈ w.players,
        p.Checks ∧ p.mPPExtractor = some ⟨.other, 2⟩ ∧ ¬ p.Current)
      (show (exec step initial _).any _ = true by decide +kernel)
  · exact Run.exists_of_exec
      (fun w : World => ∃ p ∈ w.players,
        p.Checks ∧ p.mPPExtractor = some ⟨.pp, 1⟩ ∧ ¬ p.Current)
      (show (exec step initial _).any _ = true by decide +kernel)
  · obtain ⟨w, run, p, hMem, hSilenced, hSeeking, hNone⟩ := Run.exists_of_exec
      (fun w : World => ∃ p ∈ w.players,
        p.Silenced ∧ p.mSeeking = false ∧ p.mPPExtractor = none)
      (show (exec step initial seekLocal).any _ = true by decide +kernel)
    refine ⟨w, run, p, hMem, hSilenced, hSeeking, hNone, fun hSound => ?_⟩
    exact (hSound.audio hSilenced hSeeking).extractor hNone

end Meet.AwesomePlayer
