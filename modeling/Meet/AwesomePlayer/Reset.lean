import Meet.AwesomePlayer.Events

/-! `reset_l` of `a14/AwesomePlayer.cpp` sets the seek of the player back, and cancels its
events but the two of a seek. What a seek in progress or an end reached belongs to is
followed by the number of the data source. -/
namespace Meet.AwesomePlayer
namespace Player

/-- After a reset the player has no seek until one is asked for on the new data source,
by a call or by the end of its own stream, and every seek it has was asked for on that
data source. -/
structure Isolated (p : Player) : Prop where
  quiet : 0 < p.source → p.asked = false →
    p.mSeeking = false ∧ p.mSeekNotificationSent = true
  own : 0 < p.source → p.mSeeking = true ∨ p.mSeekNotificationSent = false →
    p.seekFor = p.source

instance (p : Player) : Decidable p.Isolated :=
  decidable_of_iff
    ((0 < p.source → p.asked = false → p.mSeeking = false ∧ p.mSeekNotificationSent = true) ∧
      (0 < p.source → p.mSeeking = true ∨ p.mSeekNotificationSent = false →
        p.seekFor = p.source))
    ⟨fun h => ⟨h.1, h.2⟩, fun h => ⟨h.quiet, h.own⟩⟩

end Player

/-- No reset while a seek is pending, or while the end of the stream is being told. -/
def ResetGuard (p : Player) : Act → Prop
  | .resetDone => p.pending .seeking = false ∧ p.thread ≠ .streamDone
  | _ => True

instance (p : Player) (act : Act) : Decidable (ResetGuard p act) :=
  match act with
  | .resetDone => inferInstanceAs (Decidable (_ ∧ _))
  | .play _ | .playPrepared _ | .pause | .seekTo _ | .setLooping _ | .setDataSource _ | .reset
  | .prepareAsync | .destroy | .fire _ | .handle _ _ | .readDone _ _ | .notifyDone
  | .openDone _ _ => .isTrue trivial

namespace Player

/-- What is pending or known of a seek or an end belongs to the data source that is set. -/
structure Tagged (p : Player) : Prop where
  isolated : Isolated p
  seeking : p.pending .seeking = true → p.seekingFor = p.source ∧ p.asked = true
  posted : p.pending .streamDone = true → p.streamDoneFor = p.source
  told : p.thread = .streamDone → p.streamDoneFor = p.source
  ended : p.atEos = true → p.eosFor = p.source

/-- The second player has the tags of the first, and no more to account for. -/
structure Keeps (p q : Player) : Prop where
  source : q.source = p.source
  asked : q.asked = p.asked
  seekFor : q.seekFor = p.seekFor
  seekingFor : q.seekingFor = p.seekingFor
  streamDoneFor : q.streamDoneFor = p.streamDoneFor
  eosFor : q.eosFor = p.eosFor
  seeks : q.mSeeking = true → p.mSeeking = true
  unsent : q.mSeekNotificationSent = false → p.mSeekNotificationSent = false
  seeking : q.pending .seeking = true → p.pending .seeking = true
  posted : q.pending .streamDone = true → p.pending .streamDone = true
  told : q.thread = .streamDone → p.thread = .streamDone
  ended : q.atEos = true → p.atEos = true

section
variable {p q r : Player}

theorem Keeps.refl (p : Player) : Keeps p p :=
  ⟨rfl, rfl, rfl, rfl, rfl, rfl, id, id, id, id, id, id⟩

/-- The fields with the tags and with what there is to account for. -/
def tags (p : Player) :=
  (p.source, p.asked, p.seekFor, p.seekingFor, p.streamDoneFor, p.eosFor, p.mSeeking,
    p.mSeekNotificationSent, p.pending, p.thread, p.atEos)

theorem Keeps.of_tags (hTags : q.tags = p.tags) : Keeps p q := by
  simp only [tags, Prod.mk.injEq] at hTags
  obtain ⟨hSource, hAsked, hSeekFor, hSeekingFor, hDoneFor, hEosFor, hSeeking, hSent, hPending,
    hThread, hEos⟩ := hTags
  refine ⟨hSource, hAsked, hSeekFor, hSeekingFor, hDoneFor, hEosFor, ?_, ?_, ?_, ?_, ?_, ?_⟩
  · rw [hSeeking]
    exact id
  · rw [hSent]
    exact id
  · rw [hPending]
    exact id
  · rw [hPending]
    exact id
  · rw [hThread]
    exact id
  · rw [hEos]
    exact id

theorem Keeps.trans (h : Keeps p q) (h' : Keeps q r) : Keeps p r where
  source := h'.source.trans h.source
  asked := h'.asked.trans h.asked
  seekFor := h'.seekFor.trans h.seekFor
  seekingFor := h'.seekingFor.trans h.seekingFor
  streamDoneFor := h'.streamDoneFor.trans h.streamDoneFor
  eosFor := h'.eosFor.trans h.eosFor
  seeks := h.seeks ∘ h'.seeks
  unsent := h.unsent ∘ h'.unsent
  seeking := h.seeking ∘ h'.seeking
  posted := h.posted ∘ h'.posted
  told := h.told ∘ h'.told
  ended := h.ended ∘ h'.ended

theorem Tagged.keeps (h : Tagged p) (hKeeps : Keeps p q) : Tagged q where
  isolated := by
    refine ⟨?_, ?_⟩
    · rw [hKeeps.source, hKeeps.asked]
      intro hSource hAsked
      obtain ⟨hSeeking, hSent⟩ := h.isolated.quiet hSource hAsked
      refine ⟨?_, ?_⟩
      · cases hStill : q.mSeeking with
        | false => rfl
        | true => rw [← hSeeking, hKeeps.seeks hStill]
      · cases hStill : q.mSeekNotificationSent with
        | true => rfl
        | false => rw [← hSent, hKeeps.unsent hStill]
    · rw [hKeeps.source, hKeeps.seekFor]
      intro hSource hOpen
      apply h.isolated.own hSource
      rcases hOpen with hSeeking | hUnsent
      · exact Or.inl (hKeeps.seeks hSeeking)
      · exact Or.inr (hKeeps.unsent hUnsent)
  seeking := by
    rw [hKeeps.source, hKeeps.seekingFor, hKeeps.asked]
    exact h.seeking ∘ hKeeps.seeking
  posted := by
    rw [hKeeps.source, hKeeps.streamDoneFor]
    exact h.posted ∘ hKeeps.posted
  told := by
    rw [hKeeps.source, hKeeps.streamDoneFor]
    exact h.told ∘ hKeeps.told
  ended := by
    rw [hKeeps.source, hKeeps.eosFor]
    exact h.ended ∘ hKeeps.ended

theorem Keeps.postOnce (p : Player) {event : Event} (hSeeking : event ≠ .seeking)
    (hDone : event ≠ .streamDone) : Keeps p (p.postOnce event) := by
  rw [postOnce_eq]
  refine ⟨rfl, rfl, rfl, rfl, rfl, rfl, id, id, ?_, ?_, id, id⟩
  · simp [Function.update_of_ne hSeeking.symm]
  · simp [Function.update_of_ne hDone.symm]

theorem pending_of_update {event other : Event}
    (hPending : Function.update p.pending event false other = true) : p.pending other = true := by
  by_cases hSame : other = event
  · simp [hSame] at hPending
  · rwa [Function.update_of_ne hSame] at hPending

theorem Keeps.cancel (p : Player) (event : Event) : Keeps p (p.cancel event) :=
  ⟨rfl, rfl, rfl, rfl, rfl, rfl, id, id, pending_of_update, pending_of_update, id, id⟩

theorem Keeps.cancelPlayerEvents (p : Player) (keepBufferingGoing : Bool) :
    Keeps p (p.cancelPlayerEvents keepBufferingGoing) := by
  have hThree := ((Keeps.cancel p .video).trans (Keeps.cancel _ .streamDone)).trans
    (Keeps.cancel _ .checkAudioStatus)
  cases keepBufferingGoing
  · exact hThree.trans (Keeps.cancel _ .buffering)
  · exact hThree

theorem Keeps.pauseL (p : Player) : Keeps p p.pauseL := by
  unfold Player.pauseL
  split
  · refine (Keeps.cancelPlayerEvents p true).trans ?_
    exact Keeps.of_tags rfl
  · exact Keeps.refl p

theorem Keeps.checkBufferingStatus (p : Player) (statics : Statics) (isBuffering : Bool)
    (nowSec : Int) : Keeps p (checkBufferingStatus statics p isBuffering nowSec).2 := by
  obtain ⟨notified, sent, audio, hEq, hSent, -, -⟩ :=
    checkBufferingStatus_frame statics p isBuffering nowSec
  rw [hEq]
  refine ⟨rfl, rfl, rfl, rfl, rfl, rfl, id, ?_, id, id, id, id⟩
  intro hUnsent
  cases hBefore : p.mSeekNotificationSent with
  | false => rfl
  | true => simp [hSent hBefore] at hUnsent

theorem Keeps.showFrame (p : Player) (answers : Answers) : Keeps p (p.showFrame answers) := by
  have hShown : Keeps p { p with
      mSeeking := false
      mWatchForAudioEOS := p.mWatchForAudioEOS || (p.mSeeking && p.mAudioPlayer ≠ .absent) } :=
    ⟨rfl, rfl, rfl, rfl, rfl, rfl, by simp, id, id, id, id, id⟩
  unfold Player.showFrame
  dsimp only
  split_ifs
  · exact Keeps.refl p
  · exact hShown
  · exact hShown.trans (Keeps.postOnce _ (by decide) (by decide))
  · exact hShown
  · exact hShown.trans (Keeps.postOnce _ (by decide) (by decide))
  · refine (hShown.trans ?_).trans (Keeps.postOnce _ (by decide) (by decide))
    exact Keeps.of_tags rfl

theorem Keeps.readFrame (p : Player) (answers : Answers) : Keeps p (p.readFrame answers) := by
  unfold Player.readFrame
  split_ifs
  · exact Keeps.showFrame p answers
  · exact ⟨rfl, rfl, rfl, rfl, rfl, rfl, id, id, id, id, by simp, id⟩
  · exact Keeps.refl p

theorem Keeps.startAudio {audioStarts : Bool} (hStart : p.startAudio audioStarts = some q) :
    Keeps p q := by
  unfold Player.startAudio at hStart
  split_ifs at hStart <;> cases hStart
  · exact Keeps.refl p
  · refine Keeps.trans ?_ (Keeps.postOnce _ (by decide) (by decide))
    exact Keeps.of_tags rfl
  · exact Keeps.postOnce p (by decide) (by decide)
  · refine Keeps.trans ?_ (Keeps.postOnce _ (by decide) (by decide))
    exact Keeps.of_tags rfl

theorem Keeps.postBufferingEventL (p : Player) : Keeps p p.postBufferingEventL := by
  unfold Player.postBufferingEventL
  split
  · exact Keeps.refl p
  · exact Keeps.postOnce p (by decide) (by decide)

theorem Keeps.abortPrepare (p : Player) : Keeps p p.abortPrepare :=
  Keeps.of_tags rfl

theorem Keeps.finishAsyncPrepare (p : Player) : Keeps p p.finishAsyncPrepare := by
  refine Keeps.trans ?_ (Keeps.postBufferingEventL _)
  exact Keeps.of_tags rfl

theorem Keeps.initDecoders (p : Player) (preparation : Preparation) :
    Keeps p (p.initDecoders preparation) := by
  unfold Player.initDecoders
  dsimp only
  split_ifs
  · exact Keeps.abortPrepare p
  · exact Keeps.of_tags rfl
  · refine Keeps.trans ?_ (Keeps.finishAsyncPrepare _)
    exact Keeps.of_tags rfl

theorem Keeps.finishPrepare (p : Player) (preparation : Preparation) :
    Keeps p (p.finishPrepare preparation) := by
  unfold Player.finishPrepare
  split
  · exact Keeps.finishAsyncPrepare p
  · dsimp only
    split_ifs
    · exact Keeps.abortPrepare p
    all_goals first
      | exact Keeps.of_tags rfl
      | refine Keeps.trans ?_ (Keeps.initDecoders _ preparation)
        exact Keeps.of_tags rfl

/-- The queue thread leaves what it did. -/
theorem Keeps.idle (p : Player) : Keeps p { p with thread := .idle } :=
  ⟨rfl, rfl, rfl, rfl, rfl, rfl, id, id, id, id, by simp, id⟩

theorem Keeps.taken (p : Player) (event : Event) : Keeps p (p.taken event) :=
  ⟨rfl, rfl, rfl, rfl, rfl, rfl, id, id, pending_of_update, pending_of_update,
    by simp [Player.taken], id⟩

theorem Keeps.takenVideo (p : Player) : Keeps p p.takenVideo :=
  (Keeps.taken p .video).trans (Keeps.of_tags rfl)

theorem Tagged.ask (h : Tagged p) : Tagged { p with asked := true } := by
  refine ⟨⟨by simp, h.isolated.own⟩, ?_, h.posted, h.told, h.ended⟩
  exact fun hPending => ⟨(h.seeking hPending).1, rfl⟩

theorem seekToL_ask (p : Player) (timeUs : Int) (seekFor : Nat) :
    { p.seekToL timeUs seekFor with asked := true } =
      { p with asked := true }.seekToL timeUs seekFor := by
  unfold Player.seekToL
  cases hPlaying : p.playing <;>
    simp [postVideoEventL, postCheckSeekingStatusEventL, postOnce_eq, pauseAudio]

/-- A seek that was asked for on the data source that is set. -/
theorem Tagged.seekToL (h : Tagged p) (hAsked : p.asked = true) (timeUs : Int) {seekFor : Nat}
    (hFor : seekFor = p.source) : Tagged (p.seekToL timeUs seekFor) := by
  have hBegun : Tagged (Player.pauseAudio { p with
      mSeeking := true, mSeekNotificationSent := false, mSeekTimeUs := timeUs, atEos := false
      seekFor := seekFor }) := by
    refine ⟨⟨?_, fun _ _ => hFor⟩, h.seeking, h.posted, h.told, by simp [Player.pauseAudio]⟩
    intro _ hNone
    have hContra := hAsked.symm.trans hNone
    cases hContra
  unfold Player.seekToL
  dsimp only
  split
  · exact hBegun
  · refine (hBegun.keeps ?_).keeps (Keeps.postOnce _ (by decide) (by decide))
    exact Keeps.postOnce _ (by decide) (by decide)

theorem Tagged.postStreamDoneEventL (h : Tagged p) (status : Status) :
    Tagged (p.postStreamDoneEventL status) := by
  unfold Player.postStreamDoneEventL
  split
  · exact h
  · rw [postOnce_eq]
    refine ⟨⟨h.isolated.quiet, h.isolated.own⟩, ?_, fun _ => rfl, fun _ => rfl, h.ended⟩
    simpa using h.seeking

/-- `play` of a player that has reached its end seeks to the begin of the stream that
ended. -/
theorem Tagged.startPlaying (h : Tagged p) (audioStarts : Bool) :
    Tagged (p.startPlaying audioStarts) := by
  unfold Player.startPlaying
  split
  · exact h
  · rename_i audible hStart
    have hPlaying : Keeps p { p with playing := true } := Keeps.of_tags rfl
    have hTimed : Keeps p { audible with
        mTimeSource := audible.mTimeSource || decide (audible.mAudioPlayer = .absent) } :=
      (hPlaying.trans (Keeps.startAudio hStart)).trans (Keeps.of_tags rfl)
    dsimp only
    have hPosted : ∀ posted, Keeps p posted →
        Tagged (if posted.atEos then { posted.seekToL 0 posted.eosFor with asked := true }
          else posted) := by
      intro posted hKeeps
      have hTagged := h.keeps hKeeps
      split
      · rename_i hEos
        rw [seekToL_ask]
        exact hTagged.ask.seekToL rfl 0 (hTagged.ended hEos)
      · exact hTagged
    apply hPosted
    split
    · exact hTimed.trans (Keeps.postOnce _ (by decide) (by decide))
    · exact hTimed

theorem Tagged.seekTo (h : Tagged p) (timeUs : Int) : Tagged (p.seekTo timeUs) := by
  unfold Player.seekTo
  split
  · unfold postSeekingEventL
    rw [postOnce_eq]
    refine ⟨⟨by simp, h.isolated.own⟩, fun _ => ⟨rfl, rfl⟩, ?_, h.told, h.ended⟩
    simpa using h.posted
  · exact h

theorem isolated_resetL (p : Player) (uri : Option Source) : Isolated (p.resetL uri) := by
  constructor <;> simp [Player.resetL]

theorem resetL_posted (p : Player) (uri : Option Source) :
    (p.resetL uri).pending .streamDone = false := by
  simp [Player.resetL, cancelPlayerEvents, Player.cancel]

theorem resetL_seeking (p : Player) (uri : Option Source) :
    (p.resetL uri).pending .seeking = p.pending .seeking := by
  simp [Player.resetL, cancelPlayerEvents, Player.cancel]

theorem resetL_thread (p : Player) (uri : Option Source) : (p.resetL uri).thread = p.thread := by
  simp [Player.resetL, cancelPlayerEvents, Player.cancel]

/-- A reset keeps the pending seek, and the end that is being told. -/
theorem tagged_resetL (uri : Option Source) (hSeeking : p.pending .seeking = false)
    (hThread : p.thread ≠ .streamDone) : Tagged (p.resetL uri) := by
  refine ⟨isolated_resetL p uri, ?_, ?_, ?_, by simp [Player.resetL]⟩
  · simp [resetL_seeking, hSeeking]
  · simp [resetL_posted]
  · intro hTold
    rw [resetL_thread] at hTold
    exact absurd hTold hThread

theorem tagged_handle {statics statics' : Statics} {answers : Answers}
    {preparation : Preparation} {event : Event} (h : Tagged p)
    (hHandles : Handles statics p answers preparation event statics' q) : Tagged q := by
  cases hHandles with
  | skip hFlag => exact h.keeps (Keeps.idle p)
  | videoUnchecked hFlag =>
      exact h.keeps ((Keeps.takenVideo p).trans (Keeps.readFrame _ answers))
  | videoWaits hFlag hExtractor hChecked =>
      subst hChecked
      have hKeeps := (Keeps.takenVideo p).trans (Keeps.checkBufferingStatus _ statics
        answers.isBuffering answers.nowSec)
      exact h.keeps (hKeeps.trans (Keeps.postOnce _ (by decide) (by decide)))
  | videoReads hFlag hExtractor hChecked =>
      subst hChecked
      have hKeeps := (Keeps.takenVideo p).trans (Keeps.checkBufferingStatus _ statics
        answers.isBuffering answers.nowSec)
      exact h.keeps (hKeeps.trans (Keeps.readFrame _ answers))
  | streamLoops hFlag hLooped =>
      subst hLooped
      have hLooped := (h.keeps (Keeps.taken p .streamDone)).ask.seekToL rfl 0 (h.posted hFlag)
      rw [seekToL_ask]
      split
      · exact hLooped.keeps (Keeps.postOnce _ (by decide) (by decide))
      · exact hLooped
  | streamEnds hFlag hEnd =>
      have hTaken := h.keeps (Keeps.taken p .streamDone)
      exact ⟨⟨hTaken.isolated.quiet, hTaken.isolated.own⟩, hTaken.seeking, hTaken.posted,
        fun _ => h.posted hFlag, hTaken.ended⟩
  | bufferingUpdates hFlag =>
      refine h.keeps ((Keeps.taken p .buffering).trans ?_)
      exact ⟨rfl, rfl, rfl, rfl, rfl, rfl, id, id, id, id, by simp, id⟩
  | bufferingUnknown hFlag => exact h.keeps (Keeps.taken p .buffering)
  | seeks hFlag =>
      obtain ⟨hFor, hAsked⟩ := h.seeking hFlag
      exact (h.keeps (Keeps.taken p .seeking)).seekToL hAsked _ hFor
  | audioEnds hFlag =>
      refine (Tagged.postStreamDoneEventL ?_ _).keeps (Keeps.postOnce _ (by decide) (by decide))
      refine (h.keeps (Keeps.taken p .checkAudioStatus)).keeps ?_
      exact Keeps.of_tags rfl
  | audioGoesOn hFlag =>
      exact (h.keeps (Keeps.taken p .checkAudioStatus)).keeps
        (Keeps.postOnce _ (by decide) (by decide))
  | checks hFlag hExtractor hChecked =>
      subst hChecked
      have hKeeps := (Keeps.taken p .checkSeekingStatus).trans
        (Keeps.checkBufferingStatus _ statics answers.isBuffering answers.nowSec)
      split
      · exact h.keeps hKeeps
      · exact h.keeps (hKeeps.trans (Keeps.postOnce _ (by decide) (by decide)))
  | prepareCancelled => exact h.keeps ((Keeps.idle p).trans (Keeps.abortPrepare _))
  | prepareOpens => exact h.keeps ⟨rfl, rfl, rfl, rfl, rfl, rfl, id, id, id, id, by simp, id⟩
  | prepareFinishes =>
      exact h.keeps ((Keeps.idle p).trans (Keeps.finishPrepare _ preparation))

/-- The calls other than a reset and the destruction. -/
theorem tagged_call {act : Act} (h : Tagged p) (hReset : act ≠ .resetDone) (hDestroy : act ≠ .destroy)
    (hCall : p.call act = some q) : Tagged q := by
  cases act with
  | play audioStarts =>
      cases hCall
      unfold Player.play
      split_ifs
      · exact h
      · exact h.startPlaying audioStarts
      · exact h
      · exact h.keeps (Keeps.of_tags rfl)
  | playPrepared audioStarts =>
      simp only [Player.call] at hCall
      split at hCall
      · have hWoken : Tagged { p with playWaits := false } :=
          h.keeps (Keeps.of_tags rfl)
        cases hCall
        split
        · exact hWoken.startPlaying audioStarts
        · exact hWoken
      · cases hCall
  | pause =>
      cases hCall
      exact h.keeps (Keeps.pauseL p)
  | seekTo timeUs =>
      cases hCall
      exact h.seekTo timeUs
  | setLooping shouldLoop =>
      cases hCall
      exact h.keeps (Keeps.of_tags rfl)
  | setDataSource uri =>
      simp only [Player.call] at hCall
      split at hCall <;> cases hCall
      exact h.keeps (Keeps.of_tags rfl)
  | reset =>
      simp only [Player.call] at hCall
      split at hCall <;> cases hCall
      exact h.keeps (Keeps.of_tags rfl)
  | prepareAsync =>
      cases hCall
      split
      · exact h
      · exact h.keeps (Keeps.of_tags rfl)
  | resetDone => exact absurd rfl hReset
  | destroy => exact absurd rfl hDestroy
  | fire event => cases hCall
  | handle answers preparation => cases hCall
  | readDone result answers => cases hCall
  | notifyDone => cases hCall
  | openDone ok preparation => cases hCall

/-- A player that is destroyed is reset a last time and takes no further step. -/
theorem isolated_destroy (hCall : p.call .destroy = some q) : Isolated q ∧ q.destroyed = true := by
  simp only [Player.call] at hCall
  split at hCall <;> cases hCall
  have hReset := isolated_resetL p none
  exact ⟨⟨hReset.quiet, hReset.own⟩, rfl⟩

theorem tagged_resetDone (hGuard : ResetGuard p .resetDone) (hCall : p.call .resetDone = some q) :
    Tagged q := by
  simp only [Player.call] at hCall
  split at hCall
  · rename_i uri _
    split at hCall <;> cases hCall
    exact tagged_resetL uri hGuard.1 hGuard.2
  · cases hCall

/-- The end that has been told is one of the data source that is set. -/
theorem Tagged.tell (h : Tagged p) (hThread : p.thread = .streamDone) :
    Tagged { { p with thread := .idle }.pauseL with atEos := true, eosFor := p.streamDoneFor } := by
  have hKeeps := (Keeps.idle p).trans (Keeps.pauseL _)
  have hPaused := h.keeps hKeeps
  refine ⟨⟨hPaused.isolated.quiet, hPaused.isolated.own⟩, hPaused.seeking, hPaused.posted,
    hPaused.told, fun _ => ?_⟩
  exact (h.told hThread).trans hKeeps.source.symm

theorem tagged_step {statics statics' : Statics} {act : Act} (h : Tagged p)
    (hGuard : ResetGuard p act) (hStep : playerStep statics p act = some (statics', q)) :
    Isolated q ∧ (q.destroyed = false → Tagged q) := by
  have hAlive : ∀ {r : Player}, Tagged r → Isolated r ∧ (r.destroyed = false → Tagged r) :=
    fun hTagged => ⟨hTagged.isolated, fun _ => hTagged⟩
  cases moves_of_playerStep hStep with
  | call hCall =>
      by_cases hDestroy : act = .destroy
      · subst hDestroy
        obtain ⟨hIsolated, hDestroyed⟩ := isolated_destroy hCall
        exact ⟨hIsolated, by simp [hDestroyed]⟩
      by_cases hReset : act = .resetDone
      · subst hReset
        exact hAlive (tagged_resetDone hGuard hCall)
      · exact hAlive (tagged_call h hReset hDestroy hCall)
  | handle hThread hHandles => exact hAlive (tagged_handle h hHandles)
  | fire hIdle hQueued =>
      exact hAlive (h.keeps ⟨rfl, rfl, rfl, rfl, rfl, rfl, id, id, id, id, by simp, id⟩)
  | readAgain hReading =>
      apply hAlive
      split
      · exact h
      · exact h.keeps (Keeps.idle p)
  | readFrame hReading =>
      apply hAlive
      have hFrame : Keeps p { p with thread := .idle, mVideoBuffer := true } :=
        ⟨rfl, rfl, rfl, rfl, rfl, rfl, id, id, id, id, by simp, id⟩
      exact h.keeps (hFrame.trans (Keeps.showFrame _ _))
  | readEnded hReading => exact hAlive ((h.keeps (Keeps.idle p)).postStreamDoneEventL _)
  | streamDone hThread => exact hAlive (h.tell hThread)
  | bufferingUpdate hThread =>
      exact hAlive (h.keeps ((Keeps.idle p).trans (Keeps.postBufferingEventL _)))
  | opened hThread =>
      apply hAlive
      split
      · exact h.keeps ((Keeps.idle p).trans (Keeps.finishPrepare _ _))
      · exact h.keeps ((Keeps.idle p).trans (Keeps.abortPrepare _))

end
end Player

/-- The guard of each player, for the whole process. -/
def World.ResetGuard (w : World) : WorldAct → Prop
  | .construct _ _ _ => True
  | .player number act => ∀ p ∈ w.players[number]?, AwesomePlayer.ResetGuard p act

instance (w : World) (act : WorldAct) : Decidable (w.ResetGuard act) :=
  match act with
  | .construct _ _ _ => .isTrue trivial
  | .player _ _ => inferInstanceAs (Decidable (∀ p ∈ _, _))

/-- No seek of an earlier data source reaches a later one, in every run without a reset
while a seek is pending or the end of a stream is being told. -/
theorem run_isolated {acts : List WorldAct} {w : World}
    (run : Run step World.ResetGuard initial acts w) : ∀ p ∈ w.players, p.Isolated := by
  have hAll : ∀ p ∈ w.players, p.Isolated ∧ (p.destroyed = false → p.Tagged) := by
    refine players_invariant (by simp [initial]) ?_ ?_ run
    · intro _ mSeeking mSeekNotificationSent mAudioSink _
      have hTagged : (constructed mSeeking mSeekNotificationSent mAudioSink).Tagged := by
        constructor <;> simp [constructed]
        constructor <;> simp
      exact ⟨hTagged.isolated, fun _ => hTagged⟩
    · intro w number act p statics q hGet hAlive hBefore hGuard hStep
      exact Player.tagged_step (hBefore.2 hAlive) (hGuard p hGet) hStep
  exact fun p hMem => (hAll p hMem).1

def replaceSource : List WorldAct :=
  [WorldAct.player 0 (.setDataSource .pp), WorldAct.player 0 .resetDone]

/-- The data source is replaced while a seek is executed. -/
def replaceWhileSeeking : List WorldAct :=
  constructAndPrepare 0 ++
    [WorldAct.player 0 (.play true), WorldAct.player 0 (.seekTo 5000000)] ++
    fireAndHandle 0 .seeking ++ replaceSource

theorem run_isolated_replaced : ∃ w, Run step World.ResetGuard initial replaceWhileSeeking w ∧
    (∃ p ∈ w.players, p.source = 2 ∧ p.seekFor = 1) ∧ ∀ p ∈ w.players, p.Isolated := by
  obtain ⟨w, run, hReplaced⟩ := Run.exists_of_execGuarded
    (fun w : World => ∃ p ∈ w.players, p.source = 2 ∧ p.seekFor = 1)
    (show (execGuarded step World.ResetGuard initial replaceWhileSeeking).any _ = true by decide +kernel)
  exact ⟨w, run, hReplaced, run_isolated run⟩

/-- Two ways for a seek to outlive a reset: its event is still in the queue, and the end
of the old stream is being told, so that the next `play` seeks back to its begin. -/
theorem exists_run_seekInherited :
    (∃ w, Run step unguarded initial
        (constructAndPrepare 0 ++ [WorldAct.player 0 (.seekTo 5000000)] ++ replaceSource ++
          fireAndHandle 0 .seeking) w ∧
      ∃ p ∈ w.players, p.asked = false ∧ p.mSeeking = true ∧ ¬ p.Isolated) ∧
    ∃ w, Run step unguarded initial
        (constructAndPrepare 0 ++ [WorldAct.player 0 (.play true)] ++ fireAndHandle 0 .video ++
          [WorldAct.player 0 (.readDone (.ended .endOfStream) quietAnswers)] ++
          fireAndHandle 0 .streamDone ++ replaceSource ++
          [WorldAct.player 0 .notifyDone, WorldAct.player 0 .prepareAsync] ++
          fireAndHandle 0 .prepareAsync ++
          [WorldAct.player 0 (.openDone true goodPreparation), WorldAct.player 0 (.play true)]) w ∧
      ∃ p ∈ w.players, p.mSeeking = true ∧ ¬ p.Isolated :=
  ⟨Run.exists_of_exec
      (fun w : World => ∃ p ∈ w.players, p.asked = false ∧ p.mSeeking = true ∧ ¬ p.Isolated)
      (show (exec step initial _).any _ = true by decide +kernel),
    Run.exists_of_exec (fun w : World => ∃ p ∈ w.players, p.mSeeking = true ∧ ¬ p.Isolated)
      (show (exec step initial _).any _ = true by decide +kernel)⟩

end Meet.AwesomePlayer
