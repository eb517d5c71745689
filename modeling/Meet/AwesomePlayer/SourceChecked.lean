import Meet.AwesomePlayer.Reset

/-! `checkBufferingStatus` of `a14/AwesomePlayer.cpp` asks the extractor of a PP source. The
video event looks whether there is one, the check of the seeking status does not, and a reset
leaves the one of the old source behind. -/
namespace Meet.AwesomePlayer
namespace Player

/-- The extractor is one of a PP source, made for the data source that is set. -/
def Current (p : Player) : Prop := p.mPPExtractor = some ⟨.pp, p.source⟩

/-- The queue thread has only to get the lock to run `checkBufferingStatus`. -/
def Checks (p : Player) : Prop :=
  p.thread = .fired .video ∧ p.pending .video = true ∧ p.mPPExtractor ≠ none ∨
    p.thread = .fired .checkSeekingStatus ∧ p.pending .checkSeekingStatus = true

/-- The queue thread has only to get the lock to run `seekTo_l`, for a seek that was asked for
or to play the stream again. -/
def Seeks (p : Player) : Prop :=
  p.thread = .fired .seeking ∧ p.pending .seeking = true ∨
    p.thread = .fired .streamDone ∧ p.pending .streamDone = true ∧
      p.mStreamDoneStatus = .endOfStream ∧ p.looping = true

instance (p : Player) : Decidable p.Current := inferInstanceAs (Decidable (_ = _))

instance (p : Player) : Decidable p.Checks := inferInstanceAs (Decidable (_ ∧ _ ∧ _ ∨ _ ∧ _))

instance (p : Player) : Decidable p.Seeks := inferInstanceAs (Decidable (_ ∧ _ ∨ _ ∧ _ ∧ _ ∧ _))

end Player

/-- No reset while one of the two events of a seek is pending, no local source behind a PP
source, and no seek of a local source while the player is paused. -/
def SourceGuard (p : Player) : Act → Prop
  | .resetDone => p.pending .seeking = false ∧ p.pending .checkSeekingStatus = false ∧
      (p.resetting = some (some .other) → p.mPPDataSource = false)
  | .handle _ _ => p.Seeks → p.playing = false → p.mPPExtractor ≠ none
  | _ => True

instance (p : Player) (act : Act) : Decidable (SourceGuard p act) :=
  match act with
  | .resetDone => inferInstanceAs (Decidable (_ ∧ _ ∧ (_ → _)))
  | .handle _ _ => inferInstanceAs (Decidable (_ → _ → _))
  | .play _ | .playPrepared _ | .pause | .seekTo _ | .setLooping _ | .setDataSource _ | .reset
  | .prepareAsync | .destroy | .fire _ | .readDone _ _ | .notifyDone
  | .openDone _ _ => .isTrue trivial

namespace Player

/-- The events that come to `checkBufferingStatus` or post one that does. -/
def checkers : List Event := [.video, .streamDone, .seeking, .checkAudioStatus, .checkSeekingStatus]

/-- A player as a reset leaves it: nothing of the old source is left to act upon. -/
structure Blank (p : Player) : Prop where
  tracks : p.mVideoSource = false ∧ p.mAudioSource = false ∧ p.canSeek = false
  unposted : ∀ event ∈ checkers, p.pending event = false
  unread : p.thread ≠ .reading

/-- What the extractor was made for. -/
structure Sourced (p : Player) : Prop where
  fresh : p.mPPExtractor = none ∨ p.Current ∨ p.Blank
  uri : p.mPPDataSource = true → p.mUri ≠ some .other
  unset : p.mPPDataSource = false → p.mPPExtractor = none
  opening : p.thread = .opening → p.mPPDataSource = true
  checking : p.pending .checkSeekingStatus = true → p.mPPExtractor ≠ none

/-- The second player has the extractor and the source of the first. The check of its seeking
status is pending only if there is an extractor. -/
structure SameSource (p q : Player) : Prop where
  extractor : q.mPPExtractor = p.mPPExtractor
  source : q.source = p.source
  dataSource : q.mPPDataSource = p.mPPDataSource
  uri : q.mUri = p.mUri
  opening : q.thread = .opening → p.thread = .opening
  checking : q.pending .checkSeekingStatus = true →
    p.pending .checkSeekingStatus = true ∨ p.mPPExtractor ≠ none

section
variable {p q r : Player}

/-- Where `checkBufferingStatus` is about to run, the extractor is current. -/
theorem Sourced.current (h : Sourced p) (hChecks : p.Checks) : p.Current := by
  have hPosted : p.mPPExtractor ≠ none ∧ ∃ event ∈ checkers, p.pending event = true := by
    rcases hChecks with ⟨-, hFlag, hSome⟩ | ⟨-, hFlag⟩
    · exact ⟨hSome, .video, by decide, hFlag⟩
    · exact ⟨h.checking hFlag, .checkSeekingStatus, by decide, hFlag⟩
  obtain ⟨hSome, event, hEvent, hFlag⟩ := hPosted
  rcases h.fresh with hNone | hCurrent | hBlank
  · exact absurd hNone hSome
  · exact hCurrent
  · rw [hBlank.unposted event hEvent] at hFlag
    cases hFlag

theorem SameSource.refl (p : Player) : SameSource p p :=
  ⟨rfl, rfl, rfl, rfl, id, Or.inl⟩

/-- The fields that say what the extractor was made for. -/
def sourceFields (p : Player) :=
  (p.mPPExtractor, p.source, p.mPPDataSource, p.mUri, p.thread, p.pending)

/-- A step that leaves these fields alone keeps the source. -/
theorem SameSource.of_fields (hFields : q.sourceFields = p.sourceFields) : SameSource p q := by
  simp only [sourceFields, Prod.mk.injEq] at hFields
  obtain ⟨hExtractor, hSource, hDataSource, hUri, hThread, hPending⟩ := hFields
  refine ⟨hExtractor, hSource, hDataSource, hUri, ?_, ?_⟩
  · rw [hThread]
    exact id
  · rw [hPending]
    exact Or.inl

theorem SameSource.trans (h : SameSource p q) (h' : SameSource q r) : SameSource p r where
  extractor := h'.extractor.trans h.extractor
  source := h'.source.trans h.source
  dataSource := h'.dataSource.trans h.dataSource
  uri := h'.uri.trans h.uri
  opening := h.opening ∘ h'.opening
  checking := by
    intro hPending
    rcases h'.checking hPending with hBefore | hSome
    · exact h.checking hBefore
    · exact Or.inr (h.extractor ▸ hSome)

/-- The source is the same, and it is up to date or nothing acts upon it any more. -/
theorem Sourced.of_same (h : Sourced p) (hSame : SameSource p q)
    (hFresh : p.mPPExtractor = none ∨ p.Current ∨ q.Blank) : Sourced q where
  fresh := by
    rw [hSame.extractor, Current, hSame.extractor, hSame.source]
    exact hFresh
  uri := by
    rw [hSame.dataSource, hSame.uri]
    exact h.uri
  unset := by
    rw [hSame.dataSource, hSame.extractor]
    exact h.unset
  opening := by
    rw [hSame.dataSource]
    exact h.opening ∘ hSame.opening
  checking := by
    rw [hSame.extractor]
    intro hPending
    exact (hSame.checking hPending).elim h.checking id

theorem Sourced.same (h : Sourced p) (hSame : SameSource p q) (hBlank : p.Blank → q.Blank) :
    Sourced q :=
  h.of_same hSame (h.fresh.imp_right (Or.imp_right hBlank))

/-- Where the extractor is up to date, what is posted does not matter. -/
theorem Sourced.settled (h : Sourced p) (hFresh : p.mPPExtractor = none ∨ p.Current)
    (hSame : SameSource p q) : Sourced q :=
  h.of_same hSame (hFresh.imp_right Or.inl)

/-! ### The operations keep the source -/

/-- Only the check of the seeking status needs an extractor when it is posted. -/
theorem SameSource.postOnce (p : Player) (event : Event) (hCheck : event ≠ .checkSeekingStatus) :
    SameSource p (p.postOnce event) := by
  rw [postOnce_eq]
  refine ⟨rfl, rfl, rfl, rfl, id, fun hPending => Or.inl ?_⟩
  simpa [Function.update_of_ne hCheck.symm] using hPending

theorem SameSource.postCheckSeekingStatusEventL (hSome : p.mPPExtractor ≠ none) :
    SameSource p p.postCheckSeekingStatusEventL := by
  rw [Player.postCheckSeekingStatusEventL, postOnce_eq]
  exact ⟨rfl, rfl, rfl, rfl, id, fun _ => Or.inr hSome⟩

theorem SameSource.cancel (p : Player) (event : Event) : SameSource p (p.cancel event) :=
  ⟨rfl, rfl, rfl, rfl, id, fun hPending => Or.inl (pending_of_update hPending)⟩

theorem SameSource.cancelPlayerEvents (p : Player) (keepBufferingGoing : Bool) :
    SameSource p (p.cancelPlayerEvents keepBufferingGoing) := by
  have hThree := ((SameSource.cancel p .video).trans (SameSource.cancel _ .streamDone)).trans
    (SameSource.cancel _ .checkAudioStatus)
  cases keepBufferingGoing
  · exact hThree.trans (SameSource.cancel _ .buffering)
  · exact hThree

theorem SameSource.pauseL (p : Player) : SameSource p p.pauseL := by
  unfold Player.pauseL
  split
  · refine (SameSource.cancelPlayerEvents p true).trans ?_
    exact SameSource.of_fields rfl
  · exact SameSource.refl p

/-- A paused player posts the check of the seeking status, so it has to have an extractor. -/
theorem SameSource.seekToL (p : Player) (hSome : p.playing = false → p.mPPExtractor ≠ none)
    (timeUs : Int) (seekFor : Nat) : SameSource p (p.seekToL timeUs seekFor) := by
  have hBegun : SameSource p (Player.pauseAudio { p with
      mSeeking := true, mSeekNotificationSent := false, mSeekTimeUs := timeUs, atEos := false
      seekFor := seekFor }) := SameSource.of_fields rfl
  unfold Player.seekToL
  dsimp only
  split
  · exact hBegun
  · rename_i hPaused
    have hPosted := hBegun.trans (SameSource.postOnce _ .video (by decide))
    refine hPosted.trans (SameSource.postCheckSeekingStatusEventL ?_)
    rw [hPosted.extractor]
    exact hSome (by simpa using hPaused)

theorem SameSource.checkBufferingStatus (p : Player) (statics : Statics) (isBuffering : Bool)
    (nowSec : Int) : SameSource p (checkBufferingStatus statics p isBuffering nowSec).2 := by
  obtain ⟨notified, sent, audio, hEq, -⟩ := checkBufferingStatus_frame statics p isBuffering nowSec
  rw [hEq]
  exact SameSource.of_fields rfl

theorem SameSource.showFrame (p : Player) (answers : Answers) :
    SameSource p (p.showFrame answers) := by
  have hShown : SameSource p { p with
      mSeeking := false
      mWatchForAudioEOS := p.mWatchForAudioEOS || (p.mSeeking && p.mAudioPlayer ≠ .absent) } :=
    SameSource.of_fields rfl
  unfold Player.showFrame
  dsimp only
  split_ifs
  · exact SameSource.refl p
  · exact hShown
  · exact hShown.trans (SameSource.postOnce _ .video (by decide))
  · exact hShown
  · exact hShown.trans (SameSource.postOnce _ .video (by decide))
  · refine (hShown.trans ?_).trans (SameSource.postOnce _ .video (by decide))
    exact SameSource.of_fields rfl

theorem SameSource.readFrame (p : Player) (answers : Answers) :
    SameSource p (p.readFrame answers) := by
  unfold Player.readFrame
  split_ifs
  · exact SameSource.showFrame p answers
  · exact ⟨rfl, rfl, rfl, rfl, by simp, Or.inl⟩
  · exact SameSource.refl p

theorem SameSource.startAudio {audioStarts : Bool} (hStart : p.startAudio audioStarts = some q) :
    SameSource p q := by
  unfold Player.startAudio at hStart
  split_ifs at hStart <;> cases hStart
  · exact SameSource.refl p
  · refine SameSource.trans ?_ (SameSource.postOnce _ .checkAudioStatus (by decide))
    exact SameSource.of_fields rfl
  · exact SameSource.postOnce p .checkAudioStatus (by decide)
  · refine SameSource.trans ?_ (SameSource.postOnce _ .checkAudioStatus (by decide))
    exact SameSource.of_fields rfl

/-- Starting the playback posts events and leaves the source alone. -/
theorem SameSource.startPlaying (p : Player) (audioStarts : Bool) :
    SameSource p (p.startPlaying audioStarts) := by
  unfold Player.startPlaying
  split
  · exact SameSource.refl p
  · rename_i audible hStart
    have hPlaying : SameSource p { p with playing := true } := SameSource.of_fields rfl
    have hAudible := hPlaying.trans (SameSource.startAudio hStart)
    have hPlays : audible.playing = true := startAudio_playing hStart
    have hPosted : ∀ posted, SameSource p posted → posted.playing = true →
        SameSource p (if posted.atEos then { posted.seekToL 0 posted.eosFor with asked := true }
          else posted) := by
      intro posted hSame hPlaying
      split
      · have hSeeks := SameSource.seekToL posted (by simp [hPlaying]) 0 posted.eosFor
        refine (hSame.trans hSeeks).trans ?_
        exact SameSource.of_fields rfl
      · exact hSame
    have hTimed : SameSource p { audible with
        mTimeSource := audible.mTimeSource || decide (audible.mAudioPlayer = .absent) } :=
      hAudible.trans (SameSource.of_fields rfl)
    dsimp only
    split
    · refine hPosted _ (hTimed.trans (SameSource.postOnce _ .video (by decide))) ?_
      simpa [Player.postVideoEventL, postOnce_eq] using hPlays
    · exact hPosted _ hTimed hPlays

theorem SameSource.postStreamDoneEventL (p : Player) (status : Status) :
    SameSource p (p.postStreamDoneEventL status) := by
  unfold Player.postStreamDoneEventL
  split
  · exact SameSource.refl p
  · refine SameSource.trans ?_ (SameSource.postOnce _ .streamDone (by decide))
    exact SameSource.of_fields rfl

theorem SameSource.postBufferingEventL (p : Player) : SameSource p p.postBufferingEventL := by
  unfold Player.postBufferingEventL
  split
  · exact SameSource.refl p
  · exact SameSource.postOnce p .buffering (by decide)

theorem SameSource.abortPrepare (p : Player) : SameSource p p.abortPrepare :=
  SameSource.of_fields rfl

theorem SameSource.finishAsyncPrepare (p : Player) : SameSource p p.finishAsyncPrepare := by
  refine SameSource.trans ?_ (SameSource.postBufferingEventL _)
  exact SameSource.of_fields rfl

theorem SameSource.initDecoders (p : Player) (preparation : Preparation) :
    SameSource p (p.initDecoders preparation) := by
  unfold Player.initDecoders
  dsimp only
  split_ifs
  · exact SameSource.abortPrepare p
  · exact SameSource.of_fields rfl
  · refine SameSource.trans ?_ (SameSource.finishAsyncPrepare _)
    exact SameSource.of_fields rfl

theorem SameSource.idle (p : Player) : SameSource p { p with thread := .idle } :=
  ⟨rfl, rfl, rfl, rfl, by simp, Or.inl⟩

theorem SameSource.taken (p : Player) (event : Event) : SameSource p (p.taken event) :=
  ⟨rfl, rfl, rfl, rfl, by simp [Player.taken],
    fun hPending => Or.inl (pending_of_update hPending)⟩

theorem SameSource.takenVideo (p : Player) : SameSource p p.takenVideo :=
  (SameSource.taken p .video).trans (SameSource.of_fields rfl)

/-- No event but the preparation changes the source. -/
theorem sameSource_handle {statics statics' : Statics} {answers : Answers}
    {preparation : Preparation} {event : Event} (hThread : p.thread = .fired event)
    (hEvent : event ≠ .prepareAsync)
    (hGuard : p.Seeks → p.playing = false → p.mPPExtractor ≠ none)
    (hHandles : Handles statics p answers preparation event statics' q) : SameSource p q := by
  cases hHandles with
  | skip hFlag => exact SameSource.idle p
  | videoUnchecked hFlag =>
      exact (SameSource.takenVideo p).trans (SameSource.readFrame _ answers)
  | videoWaits hFlag hExtractor hChecked =>
      subst hChecked
      have hChecked := (SameSource.takenVideo p).trans (SameSource.checkBufferingStatus _ statics
        answers.isBuffering answers.nowSec)
      exact hChecked.trans (SameSource.postOnce _ .video (by decide))
  | videoReads hFlag hExtractor hChecked =>
      subst hChecked
      have hChecked := (SameSource.takenVideo p).trans (SameSource.checkBufferingStatus _ statics
        answers.isBuffering answers.nowSec)
      exact hChecked.trans (SameSource.readFrame _ answers)
  | streamLoops hFlag hLooped hLoops =>
      subst hLooped
      have hSeeks : p.Seeks := Or.inr ⟨hThread, hFlag, hLoops⟩
      have hSeek := (SameSource.taken p .streamDone).trans
        (SameSource.seekToL (p.taken .streamDone) (hGuard hSeeks) 0 p.streamDoneFor)
      have hLooped := hSeek.trans
        (show SameSource _ { (p.taken .streamDone).seekToL 0 p.streamDoneFor with asked := true }
          from SameSource.of_fields rfl)
      split
      · exact hLooped.trans (SameSource.postOnce _ .video (by decide))
      · exact hLooped
  | streamEnds hFlag hEnd =>
      refine (SameSource.taken p .streamDone).trans ?_
      exact ⟨rfl, rfl, rfl, rfl, by simp, Or.inl⟩
  | bufferingUpdates hFlag =>
      refine (SameSource.taken p .buffering).trans ?_
      exact ⟨rfl, rfl, rfl, rfl, by simp, Or.inl⟩
  | bufferingUnknown hFlag => exact SameSource.taken p .buffering
  | seeks hFlag =>
      have hSeeks : p.Seeks := Or.inl ⟨hThread, hFlag⟩
      exact (SameSource.taken p .seeking).trans
        (SameSource.seekToL (p.taken .seeking) (hGuard hSeeks) p.mSeekingTimeUs p.seekingFor)
  | audioEnds hFlag =>
      refine SameSource.trans ?_ (SameSource.postOnce _ .checkAudioStatus (by decide))
      refine SameSource.trans ?_ (SameSource.postStreamDoneEventL _ _)
      exact (SameSource.taken p .checkAudioStatus).trans (SameSource.of_fields rfl)
  | audioGoesOn hFlag =>
      exact (SameSource.taken p .checkAudioStatus).trans
        (SameSource.postOnce _ .checkAudioStatus (by decide))
  | checks hFlag hExtractor hChecked =>
      subst hChecked
      have hChecked := (SameSource.taken p .checkSeekingStatus).trans
        (SameSource.checkBufferingStatus _ statics answers.isBuffering answers.nowSec)
      split
      · exact hChecked
      · refine hChecked.trans (SameSource.postCheckSeekingStatusEventL ?_)
        rw [hChecked.extractor]
        exact hExtractor
  | prepareCancelled => exact absurd rfl hEvent
  | prepareOpens hUri => exact absurd rfl hEvent
  | prepareFinishes hUri => exact absurd rfl hEvent

/-- The calls other than a reset and the destruction. -/
theorem sameSource_call {act : Act} (hReset : act ≠ .resetDone) (hDestroy : act ≠ .destroy)
    (hCall : p.call act = some q) : SameSource p q := by
  cases act with
  | play audioStarts =>
      cases hCall
      unfold Player.play
      split_ifs
      · exact SameSource.refl p
      · exact SameSource.startPlaying p audioStarts
      · exact SameSource.refl p
      · exact SameSource.of_fields rfl
  | playPrepared audioStarts =>
      simp only [Player.call] at hCall
      split at hCall
      · have hWoken : SameSource p { p with playWaits := false } :=
          SameSource.of_fields rfl
        cases hCall
        split
        · exact hWoken.trans (SameSource.startPlaying _ audioStarts)
        · exact hWoken
      · cases hCall
  | pause =>
      cases hCall
      exact SameSource.pauseL p
  | seekTo timeUs =>
      cases hCall
      unfold Player.seekTo
      split
      · refine SameSource.trans ?_ (SameSource.postOnce _ .seeking (by decide))
        exact SameSource.of_fields rfl
      · exact SameSource.refl p
  | setLooping shouldLoop =>
      cases hCall
      exact SameSource.of_fields rfl
  | setDataSource uri =>
      simp only [Player.call] at hCall
      split at hCall <;> cases hCall
      exact SameSource.of_fields rfl
  | reset =>
      simp only [Player.call] at hCall
      split at hCall <;> cases hCall
      exact SameSource.of_fields rfl
  | prepareAsync =>
      cases hCall
      split
      · exact SameSource.refl p
      · exact SameSource.of_fields rfl
  | resetDone => exact absurd rfl hReset
  | destroy => exact absurd rfl hDestroy
  | fire event => cases hCall
  | handle answers preparation => cases hCall
  | readDone result answers => cases hCall
  | notifyDone => cases hCall
  | openDone ok preparation => cases hCall

/-! ### A player as a reset leaves it -/

/-- Events other than these may be posted. -/
theorem Blank.post (h : Blank p) {event : Event} (hEvent : event ∉ checkers) :
    Blank (p.postOnce event) := by
  rw [postOnce_eq]
  refine ⟨h.tracks, fun other hOther => ?_, h.unread⟩
  have hNot : other ≠ event := by
    rintro rfl
    exact hEvent hOther
  simpa [Function.update_of_ne hNot] using h.unposted other hOther

theorem Blank.cancel (h : Blank p) (event : Event) : Blank (p.cancel event) := by
  refine ⟨h.tracks, fun other hOther => ?_, h.unread⟩
  cases hStill : (p.cancel event).pending other with
  | false => rfl
  | true =>
      rw [← h.unposted other hOther]
      exact (pending_of_update hStill).symm

theorem Blank.pauseL (h : Blank p) : Blank p.pauseL := by
  unfold Player.pauseL
  split
  · have hCancelled := ((h.cancel .video).cancel .streamDone).cancel .checkAudioStatus
    exact ⟨hCancelled.tracks, hCancelled.unposted, hCancelled.unread⟩
  · exact h

theorem Blank.taken (h : Blank p) (event : Event) : Blank (p.taken event) := by
  have hCancelled := h.cancel event
  exact ⟨hCancelled.tracks, hCancelled.unposted, by simp [Player.taken]⟩

/-- There is nothing to play, and a replay posts nothing. -/
theorem Blank.startPlaying (h : Blank p) (audioStarts : Bool) :
    Blank (p.startPlaying audioStarts) := by
  unfold Player.startPlaying
  split
  · exact h
  · rename_i audible hAudible
    obtain rfl : { p with playing := true } = audible := by
      simpa [Player.startAudio, h.tracks.2.1] using hAudible
    simp only [h.tracks.1, Bool.false_eq_true, if_false]
    split
    · simp only [Player.seekToL, if_true]
      exact ⟨⟨rfl, h.tracks.2⟩, h.unposted, h.unread⟩
    · exact ⟨⟨rfl, h.tracks.2⟩, h.unposted, h.unread⟩

theorem Blank.finishAsyncPrepare (h : Blank p) : Blank p.finishAsyncPrepare := by
  have hPrepared : Blank { p with
      mPrepareResult := true, preparing := false, prepareCancelled := false, prepared := true } :=
    ⟨h.tracks, h.unposted, h.unread⟩
  unfold Player.finishAsyncPrepare Player.postBufferingEventL
  split
  · exact hPrepared
  · exact hPrepared.post (by decide)

/-- A player as a reset leaves it stays so in every event but the preparation. -/
theorem blank_handle {statics statics' : Statics} {answers : Answers}
    {preparation : Preparation} {event : Event} (h : Blank p) (hEvent : event ≠ .prepareAsync)
    (hHandles : Handles statics p answers preparation event statics' q) : Blank q := by
  have hNone : ∀ event ∈ checkers, p.pending event ≠ true := by
    intro event hMem
    simp [h.unposted event hMem]
  cases hHandles with
  | skip hFlag => exact ⟨h.tracks, h.unposted, by simp⟩
  | bufferingUpdates hFlag =>
      have hTaken := h.taken .buffering
      exact ⟨hTaken.tracks, hTaken.unposted, by simp⟩
  | bufferingUnknown hFlag => exact h.taken .buffering
  | videoUnchecked hFlag => exact absurd hFlag (hNone .video (by decide))
  | videoWaits hFlag => exact absurd hFlag (hNone .video (by decide))
  | videoReads hFlag => exact absurd hFlag (hNone .video (by decide))
  | streamLoops hFlag => exact absurd hFlag (hNone .streamDone (by decide))
  | streamEnds hFlag => exact absurd hFlag (hNone .streamDone (by decide))
  | seeks hFlag => exact absurd hFlag (hNone .seeking (by decide))
  | audioEnds hFlag => exact absurd hFlag (hNone .checkAudioStatus (by decide))
  | audioGoesOn hFlag => exact absurd hFlag (hNone .checkAudioStatus (by decide))
  | checks hFlag => exact absurd hFlag (hNone .checkSeekingStatus (by decide))
  | prepareCancelled => exact absurd rfl hEvent
  | prepareOpens hUri => exact absurd rfl hEvent
  | prepareFinishes hUri => exact absurd rfl hEvent

/-- It stays so in every call but another reset and the destructor. -/
theorem blank_call {act : Act} (h : Blank p) (hReset : act ≠ .resetDone) (hDestroy : act ≠ .destroy)
    (hCall : p.call act = some q) : Blank q := by
  cases act with
  | play audioStarts =>
      cases hCall
      unfold Player.play
      split_ifs
      · exact h
      · exact h.startPlaying audioStarts
      · exact h
      · exact ⟨h.tracks, h.unposted, h.unread⟩
  | playPrepared audioStarts =>
      simp only [Player.call] at hCall
      split at hCall
      · have hWoken : Blank { p with playWaits := false } := ⟨h.tracks, h.unposted, h.unread⟩
        cases hCall
        split
        · exact hWoken.startPlaying audioStarts
        · exact hWoken
      · cases hCall
  | pause =>
      cases hCall
      exact h.pauseL
  | seekTo timeUs =>
      cases hCall
      simp only [Player.seekTo, h.tracks.2.2, Bool.false_eq_true, if_false]
      exact h
  | setLooping shouldLoop =>
      cases hCall
      exact ⟨h.tracks, h.unposted, h.unread⟩
  | setDataSource uri =>
      simp only [Player.call] at hCall
      split at hCall <;> cases hCall
      exact ⟨h.tracks, h.unposted, h.unread⟩
  | reset =>
      simp only [Player.call] at hCall
      split at hCall <;> cases hCall
      exact ⟨h.tracks, h.unposted, h.unread⟩
  | prepareAsync =>
      cases hCall
      split
      · exact h
      · exact ⟨h.tracks, h.unposted, h.unread⟩
  | resetDone => exact absurd rfl hReset
  | destroy => exact absurd rfl hDestroy
  | fire event => cases hCall
  | handle answers preparation => cases hCall
  | readDone result answers => cases hCall
  | notifyDone => cases hCall
  | openDone ok preparation => cases hCall

/-! ### Every step -/

/-- A preparation that gets an extractor brings it up to date. -/
theorem Sourced.finishPrepare (h : Sourced p) (preparation : Preparation) :
    Sourced (p.finishPrepare preparation) := by
  unfold Player.finishPrepare
  split
  · exact h.same (SameSource.finishAsyncPrepare p) Blank.finishAsyncPrepare
  · rename_i uri hUri
    dsimp only
    split
    · exact h.same (SameSource.abortPrepare p) fun hBlank =>
        ⟨hBlank.tracks, hBlank.unposted, hBlank.unread⟩
    · have hFresh : (if p.mPPDataSource then some ⟨uri, p.source⟩ else p.mPPExtractor) = none ∨
          (if p.mPPDataSource then some ⟨uri, p.source⟩ else p.mPPExtractor) =
            some (⟨.pp, p.source⟩ : Extractor) := by
        cases hData : p.mPPDataSource with
        | false => exact Or.inl (h.unset hData)
        | true =>
            have hKind : uri = .pp := by
              cases uri with
              | pp => rfl
              | other => exact absurd hUri (h.uri hData)
            exact Or.inr (by simp [hKind])
      have hExtracted : Sourced { p with
          mPPExtractor := if p.mPPDataSource then some ⟨uri, p.source⟩ else p.mPPExtractor } := by
        refine ⟨hFresh.imp_right Or.inl, h.uri, ?_, h.opening, ?_⟩
        · intro hData
          change p.mPPDataSource = false at hData
          simp only [hData, Bool.false_eq_true, if_false]
          exact h.unset hData
        · intro hPending
          cases hData : p.mPPDataSource with
          | false => exact absurd (h.unset hData) (h.checking hPending)
          | true => simp
      split
      · exact hExtracted.settled hFresh (SameSource.abortPrepare _)
      · refine hExtracted.settled hFresh ?_
        refine SameSource.trans ?_ (SameSource.initDecoders _ preparation)
        exact SameSource.of_fields rfl

/-- Without the two events of a seek a reset leaves nothing to act upon. -/
theorem blank_resetL (uri : Option Source) (hSeeking : p.pending .seeking = false)
    (hChecking : p.pending .checkSeekingStatus = false) (hThread : p.thread ≠ .reading) :
    Blank (p.resetL uri) := by
  refine ⟨⟨rfl, rfl, rfl⟩, fun event hEvent => ?_, by rwa [resetL_thread]⟩
  simp only [checkers, List.mem_cons, List.not_mem_nil, or_false] at hEvent
  rcases hEvent with rfl | rfl | rfl | rfl | rfl <;>
    simp [Player.resetL, Player.cancelPlayerEvents, Player.cancel, hSeeking, hChecking]

theorem resetL_source (p : Player) (uri : Option Source) :
    (p.resetL uri).mPPExtractor = p.mPPExtractor ∧
      (p.resetL uri).mPPDataSource = p.mPPDataSource ∧ (p.resetL uri).mUri = uri := by
  simp [Player.resetL, Player.cancelPlayerEvents, Player.cancel]

/-- Under the guard a reset leaves nothing that acts upon the old source. -/
theorem sourced_resetDone (h : Sourced p) (hGuard : SourceGuard p .resetDone)
    (hCall : p.call .resetDone = some q) : Sourced q := by
  obtain ⟨hSeeking, hChecking, hLocal⟩ := hGuard
  simp only [Player.call] at hCall
  split at hCall
  · rename_i uri hUri
    split at hCall
    · rename_i hReady
      cases hCall
      have hBlank := blank_resetL uri hSeeking hChecking hReady.2
      obtain ⟨hExtractor, hSource, hNew⟩ := resetL_source p uri
      refine ⟨Or.inr (Or.inr hBlank), ?_, ?_, ?_, ?_⟩
      · rw [hSource, hNew]
        rintro hData rfl
        rw [hLocal hUri] at hData
        cases hData
      · rw [hSource, hExtractor]
        exact h.unset
      · rw [hSource, resetL_thread]
        exact h.opening
      · intro hPending
        rw [hBlank.unposted .checkSeekingStatus (by decide)] at hPending
        cases hPending
    · cases hCall
  · cases hCall

theorem sourced_handle {statics statics' : Statics} {answers : Answers}
    {preparation : Preparation} {event : Event} (h : Sourced p) (hThread : p.thread = .fired event)
    (hGuard : p.Seeks → p.playing = false → p.mPPExtractor ≠ none)
    (hHandles : Handles statics p answers preparation event statics' q) : Sourced q := by
  by_cases hEvent : event = .prepareAsync
  · subst hEvent
    have hIdle : Sourced { p with thread := .idle } :=
      h.same (SameSource.idle p) fun hBlank => ⟨hBlank.tracks, hBlank.unposted, by simp⟩
    cases hHandles with
    | skip hFlag => exact hIdle
    | prepareCancelled =>
        exact hIdle.same (SameSource.abortPrepare _) fun hBlank =>
          ⟨hBlank.tracks, hBlank.unposted, hBlank.unread⟩
    | prepareOpens hUri =>
        refine ⟨?_, fun _ => by simp [hUri], by simp, fun _ => rfl, h.checking⟩
        refine h.fresh.imp_right (Or.imp_right fun hBlank => ?_)
        exact ⟨hBlank.tracks, hBlank.unposted, by simp⟩
    | prepareFinishes hUri => exact hIdle.finishPrepare preparation
  · exact h.same (sameSource_handle hThread hEvent hGuard hHandles) fun hBlank =>
      blank_handle hBlank hEvent hHandles

/-- Every step under the guard, apart from the destructor, keeps the extractor and its source
together. -/
theorem sourced_step {statics statics' : Statics} {act : Act} (h : Sourced p)
    (hGuard : SourceGuard p act) (hDestroy : act ≠ .destroy)
    (hStep : playerStep statics p act = some (statics', q)) : Sourced q := by
  have hIdle : Sourced { p with thread := .idle } :=
    h.same (SameSource.idle p) fun hBlank => ⟨hBlank.tracks, hBlank.unposted, by simp⟩
  cases moves_of_playerStep hStep with
  | call hCall =>
      by_cases hReset : act = .resetDone
      · subst hReset
        exact sourced_resetDone h hGuard hCall
      · exact h.same (sameSource_call hReset hDestroy hCall) fun hBlank =>
          blank_call hBlank hReset hDestroy hCall
  | handle hThread hHandles => exact sourced_handle h hThread hGuard hHandles
  | fire hIdle hQueued =>
      exact h.same ⟨rfl, rfl, rfl, rfl, by simp, Or.inl⟩ fun hBlank =>
        ⟨hBlank.tracks, hBlank.unposted, by simp⟩
  | readAgain hReading =>
      split
      · exact h
      · exact hIdle
  | readFrame hReading =>
      have hFrame : SameSource p { p with thread := .idle, mVideoBuffer := true } :=
        ⟨rfl, rfl, rfl, rfl, by simp, Or.inl⟩
      exact h.same (hFrame.trans (SameSource.showFrame _ _)) fun hBlank =>
        absurd hReading hBlank.unread
  | readEnded hReading =>
      exact h.same ((SameSource.idle p).trans (SameSource.postStreamDoneEventL _ _)) fun hBlank =>
        absurd hReading hBlank.unread
  | streamDone hThread =>
      refine hIdle.same ((SameSource.pauseL _).trans (SameSource.of_fields rfl))
        fun hBlank => ?_
      exact ⟨hBlank.pauseL.tracks, hBlank.pauseL.unposted, hBlank.pauseL.unread⟩
  | bufferingUpdate hThread =>
      refine hIdle.same (SameSource.postBufferingEventL _) fun hBlank => ?_
      unfold Player.postBufferingEventL
      split
      · exact hBlank
      · exact hBlank.post (by decide)
  | opened hThread =>
      split
      · exact hIdle.finishPrepare _
      · exact hIdle.same (SameSource.abortPrepare _) fun hBlank =>
          ⟨hBlank.tracks, hBlank.unposted, hBlank.unread⟩

end
end Player

end Meet.AwesomePlayer
