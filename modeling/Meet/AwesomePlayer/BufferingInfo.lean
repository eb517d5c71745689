import Mathlib.Data.List.Perm.Basic
import Meet.AwesomePlayer.Events
import Meet.Common.Alternates

/-! The buffering notifications of `a14/AwesomePlayer.cpp`. Whether an end is owed is one
flag for all players of the process, so that the notifications of one player depend on
who else was told of a start. -/
namespace Meet.AwesomePlayer

def Notification.isBufferingInfo : Notification → Bool
  | .bufferingStart | .bufferingEnd => true
  | _ => false

namespace Player

def bufferingInfos (p : Player) : List Notification :=
  p.notified.filter Notification.isBufferingInfo

/-- The player was told of a start and not yet of its end. -/
def Awaits (p : Player) : Prop := p.bufferingInfos.getLast? = some .bufferingStart

/-- A step that comes to `checkBufferingStatus` and finds the player neither buffering
nor seeking. -/
def FindsReady (p : Player) : Act → Prop
  | .handle answers _ =>
      answers.isBuffering = false ∧ p.mSeeking = false ∧ p.mPPExtractor.isSome = true ∧
        ∃ event ∈ [Event.video, Event.checkSeekingStatus],
          p.thread = .fired event ∧ p.pending event = true
  | _ => False

instance (p : Player) : Decidable p.Awaits := inferInstanceAs (Decidable (_ = _))

instance (p : Player) (act : Act) : Decidable (p.FindsReady act) :=
  match act with
  | .handle _ _ => inferInstanceAs (Decidable (_ ∧ _ ∧ _ ∧ ∃ event ∈ _, _ ∧ _))
  | .play _ | .playPrepared _ | .pause | .seekTo _ | .setLooping _ | .setDataSource _ | .reset
  | .resetDone | .prepareAsync | .destroy | .fire _ | .readDone _ _ | .notifyDone
  | .openDone _ _ => .isFalse id

end Player

/-- While an end is owed to one player, no other is found neither buffering nor seeking. -/
def World.BufferingGuard (w : World) : WorldAct → Prop
  | .construct _ _ _ => True
  | .player number act => w.statics.needBufferingEndNotification = true →
      ∀ p ∈ w.players[number]?, p.FindsReady act →
        ∀ other ∈ w.players.eraseIdx number, ¬ other.Awaits

instance (w : World) (act : WorldAct) : Decidable (w.BufferingGuard act) :=
  match act with
  | .construct _ _ _ => .isTrue trivial
  | .player _ _ => inferInstanceAs (Decidable (_ → ∀ p ∈ _, _ → ∀ other ∈ _, ¬ _))

namespace Player

section
variable {p q : Player}

@[simp]
theorem notified_postOnce (p : Player) (event : Event) : (p.postOnce event).notified = p.notified := by
  rw [postOnce_eq]

@[simp]
theorem notified_postStreamDoneEventL (p : Player) (status : Status) :
    (p.postStreamDoneEventL status).notified = p.notified := by
  unfold postStreamDoneEventL
  split <;> simp

@[simp]
theorem notified_postBufferingEventL (p : Player) : p.postBufferingEventL.notified = p.notified := by
  unfold postBufferingEventL
  split <;> simp

@[simp]
theorem notified_cancelPlayerEvents (p : Player) (keepBufferingGoing : Bool) :
    (p.cancelPlayerEvents keepBufferingGoing).notified = p.notified := by
  cases keepBufferingGoing <;> simp [cancelPlayerEvents, cancel]

@[simp]
theorem notified_pauseL (p : Player) : p.pauseL.notified = p.notified := by
  unfold pauseL
  split <;> simp [pauseAudio]

@[simp]
theorem notified_seekToL (p : Player) (timeUs : Int) (seekFor : Nat) :
    (p.seekToL timeUs seekFor).notified = p.notified := by
  unfold seekToL
  dsimp only
  split <;> simp [postVideoEventL, postCheckSeekingStatusEventL, pauseAudio]

theorem notified_startAudio {audioStarts : Bool} (hStart : p.startAudio audioStarts = some q) :
    q.notified = p.notified := by
  unfold startAudio at hStart
  split_ifs at hStart <;> cases hStart <;> simp [postCheckAudioStatusEventL, resumeAudio]

@[simp]
theorem notified_startPlaying (p : Player) (audioStarts : Bool) :
    (p.startPlaying audioStarts).notified = p.notified := by
  unfold startPlaying
  split
  · rfl
  · rename_i audible hStart
    have hAudible := notified_startAudio hStart
    dsimp only
    split <;> split <;> simp [postVideoEventL, hAudible]

@[simp]
theorem notified_showFrame (p : Player) (answers : Answers) :
    (p.showFrame answers).notified = p.notified := by
  unfold showFrame
  dsimp only
  split_ifs <;> simp [postVideoEventL]

@[simp]
theorem notified_readFrame (p : Player) (answers : Answers) :
    (p.readFrame answers).notified = p.notified := by
  unfold readFrame
  split_ifs <;> simp

@[simp]
theorem notified_finishAsyncPrepare (p : Player) : p.finishAsyncPrepare.notified = p.notified := by
  simp [finishAsyncPrepare]

@[simp]
theorem notified_initDecoders (p : Player) (preparation : Preparation) :
    (p.initDecoders preparation).notified = p.notified := by
  unfold initDecoders
  dsimp only
  split_ifs <;> simp [abortPrepare]

@[simp]
theorem notified_finishPrepare (p : Player) (preparation : Preparation) :
    (p.finishPrepare preparation).notified = p.notified := by
  unfold finishPrepare
  split
  · simp
  · dsimp only
    split_ifs <;> simp [abortPrepare]

/-- A call tells the listener nothing. -/
theorem notified_call {act : Act} (hCall : p.call act = some q) : q.notified = p.notified := by
  cases act with
  | play audioStarts =>
      cases hCall
      unfold play
      split_ifs <;> simp [prepareAsyncL, post]
  | playPrepared audioStarts =>
      simp only [call] at hCall
      split at hCall <;> cases hCall
      split <;> simp
  | pause =>
      cases hCall
      exact notified_pauseL p
  | seekTo timeUs =>
      cases hCall
      unfold seekTo
      split <;> simp [postSeekingEventL]
  | setLooping shouldLoop => cases hCall; rfl
  | setDataSource uri =>
      simp only [call] at hCall
      split at hCall <;> cases hCall
      rfl
  | reset =>
      simp only [call] at hCall
      split at hCall <;> cases hCall
      rfl
  | resetDone =>
      simp only [call] at hCall
      split at hCall
      · split at hCall <;> cases hCall
        simp [resetL]
      · cases hCall
  | prepareAsync =>
      cases hCall
      split <;> simp [prepareAsyncL, post]
  | destroy =>
      simp only [call] at hCall
      split at hCall <;> cases hCall
      simp [resetL]
  | fire event => cases hCall
  | handle answers preparation => cases hCall
  | readDone result answers => cases hCall
  | notifyDone => cases hCall
  | openDone ok preparation => cases hCall

theorem bufferingInfos_notifyListenerL (p : Player) (notification : Notification) :
    (p.notifyListenerL notification).bufferingInfos =
      p.bufferingInfos ++ [notification].filter Notification.isBufferingInfo :=
  List.filter_append _ _

theorem bufferingInfos_acknowledge (p : Player) : p.acknowledge.bufferingInfos = p.bufferingInfos := by
  unfold acknowledge
  split_ifs <;>
    simp [bufferingInfos, notifyListenerL, resumeAudio, Notification.isBufferingInfo]

end
end Player

/-- What a step does to the flag and to the notifications of its player. An end is told
only to a player that is found ready. -/
inductive Informs (statics : Statics) (p : Player) (ready : Prop) : Statics → Player → Prop where
  | same {statics' : Statics} {q : Player}
      (hNeed : statics'.needBufferingEndNotification = statics.needBufferingEndNotification)
      (hInfos : q.bufferingInfos = p.bufferingInfos) : Informs statics p ready statics' q
  | started {statics' : Statics} {q : Player}
      (hFree : statics.needBufferingEndNotification = false)
      (hNeed : statics'.needBufferingEndNotification = true)
      (hInfos : q.bufferingInfos = p.bufferingInfos ++ [.bufferingStart]) :
      Informs statics p ready statics' q
  | ended {statics' : Statics} {q : Player} (hReady : ready)
      (hOwed : statics.needBufferingEndNotification = true)
      (hNeed : statics'.needBufferingEndNotification = false)
      (hInfos : q.bufferingInfos = p.bufferingInfos ++ [.bufferingEnd]) :
      Informs statics p ready statics' q

section
variable {statics statics' : Statics} {p q : Player}

theorem Informs.of_notified {ready : Prop} (hNotified : q.notified = p.notified) :
    Informs statics p ready statics q :=
  .same rfl (by rw [Player.bufferingInfos, hNotified]; rfl)

/-- Neither what comes before the check nor what comes after it tells of buffering. -/
theorem Informs.within {before after : Player} {found ready : Prop}
    (h : Informs statics before found statics' after) (hReady : found → ready)
    (hBefore : before.notified = p.notified) (hAfter : q.notified = after.notified) :
    Informs statics p ready statics' q := by
  have hFirst : before.bufferingInfos = p.bufferingInfos := by
    rw [Player.bufferingInfos, hBefore]; rfl
  have hLast : q.bufferingInfos = after.bufferingInfos := by
    rw [Player.bufferingInfos, hAfter]; rfl
  cases h with
  | same hNeed hInfos => exact .same hNeed (by rw [hLast, hInfos, hFirst])
  | started hFree hNeed hInfos => exact .started hFree hNeed (by rw [hLast, hInfos, hFirst])
  | ended hFound hOwed hNeed hInfos =>
      exact .ended (hReady hFound) hOwed hNeed (by rw [hLast, hInfos, hFirst])

theorem informs_checkBufferingStatus (statics : Statics) (p : Player) (isBuffering : Bool)
    (nowSec : Int) : Informs statics p (isBuffering = false ∧ p.mSeeking = false)
      (checkBufferingStatus statics p isBuffering nowSec).1
      (checkBufferingStatus statics p isBuffering nowSec).2 := by
  unfold checkBufferingStatus
  split_ifs with hNeed hReady hBuffers hLong
  · refine .ended hReady hNeed rfl ?_
    rw [Player.bufferingInfos_acknowledge]
    exact Player.bufferingInfos_notifyListenerL p .bufferingEnd
  · exact .same rfl rfl
  · refine .started (by simpa using hNeed) rfl ?_
    exact Player.bufferingInfos_notifyListenerL p .bufferingStart
  · exact .same rfl rfl
  · exact .same rfl rfl

theorem informs_handle {answers : Answers} {preparation : Preparation} {event : Event}
    (hThread : p.thread = .fired event)
    (hHandles : Handles statics p answers preparation event statics' q) :
    Informs statics p (p.FindsReady (.handle answers preparation)) statics' q := by
  have hReady : ∀ checked : Event, checked ∈ [Event.video, Event.checkSeekingStatus] →
      p.thread = .fired checked → p.pending checked = true → p.mPPExtractor ≠ none →
      answers.isBuffering = false ∧ p.mSeeking = false →
      p.FindsReady (.handle answers preparation) := by
    rintro checked hMem hFired hFlag hExtractor ⟨hQuiet, hStill⟩
    exact ⟨hQuiet, hStill, Option.isSome_iff_ne_none.mpr hExtractor, checked, hMem, hFired, hFlag⟩
  cases hHandles with
  | skip hFlag => exact .of_notified rfl
  | videoUnchecked hFlag =>
      refine .of_notified ?_
      rw [Player.notified_readFrame]
      rfl
  | videoWaits hFlag hExtractor hChecked =>
      subst hChecked
      exact (informs_checkBufferingStatus _ _ _ _).within
        (hReady .video (by simp) hThread hFlag hExtractor) rfl (by simp [Player.postVideoEventL])
  | videoReads hFlag hExtractor hChecked =>
      subst hChecked
      exact (informs_checkBufferingStatus _ _ _ _).within
        (hReady .video (by simp) hThread hFlag hExtractor) rfl (by simp)
  | checks hFlag hExtractor hChecked =>
      subst hChecked
      refine (informs_checkBufferingStatus _ _ _ _).within
        (hReady .checkSeekingStatus (by simp) hThread hFlag hExtractor) rfl ?_
      split <;> simp [Player.postCheckSeekingStatusEventL]
  | streamLoops hFlag hLooped =>
      subst hLooped
      apply Informs.of_notified
      split <;> simp [Player.postVideoEventL, Player.taken]
  | streamEnds hFlag hEnd =>
      refine .same rfl ?_
      rcases hEnd with rfl | rfl <;>
        simp [Player.bufferingInfos, Player.notifyListenerL, Notification.isBufferingInfo,
          Player.taken]
  | bufferingUpdates hFlag =>
      refine .same rfl ?_
      simp [Player.bufferingInfos, Player.notifyListenerL, Notification.isBufferingInfo,
        Player.taken]
  | bufferingUnknown hFlag => exact .of_notified rfl
  | seeks hFlag => exact .of_notified (by simp [Player.taken])
  | audioEnds hFlag =>
      exact .of_notified (by simp [Player.postCheckAudioStatusEventL, Player.taken])
  | audioGoesOn hFlag =>
      exact .of_notified (by simp [Player.postCheckAudioStatusEventL, Player.taken])
  | prepareCancelled => exact .of_notified rfl
  | prepareOpens => exact .of_notified rfl
  | prepareFinishes => exact .of_notified (by simp)

theorem informs_step {act : Act} (hStep : playerStep statics p act = some (statics', q)) :
    Informs statics p (p.FindsReady act) statics' q := by
  cases moves_of_playerStep hStep with
  | handle hThread hHandles => exact informs_handle hThread hHandles
  | call hCall => exact .of_notified (Player.notified_call hCall)
  | fire hIdle hQueued => exact .of_notified rfl
  | readAgain hReading => exact .of_notified (by split <;> rfl)
  | readFrame hReading => exact .of_notified (by simp)
  | readEnded hReading => exact .of_notified (by simp)
  | streamDone hThread => exact .of_notified (by simp)
  | bufferingUpdate hThread => exact .of_notified (by simp)
  | opened hThread => exact .of_notified (by split <;> simp [Player.abortPrepare])

/-- An end is owed exactly while a player awaits one, and every player has been told in
turn. -/
structure Owes (w : World) : Prop where
  alternate : ∀ p ∈ w.players, Alternates .bufferingStart .bufferingEnd p.bufferingInfos
  owed : w.statics.needBufferingEndNotification = true ↔ ∃ p ∈ w.players, p.Awaits

theorem exists_mem_set {players : List Player} {number : Nat} (hNumber : number < players.length)
    (q : Player) : (∃ r ∈ players.set number q, r.Awaits) ↔
      q.Awaits ∨ ∃ r ∈ players.eraseIdx number, r.Awaits := by
  have hPerm := List.set_perm_cons_eraseIdx hNumber q
  simp [hPerm.mem_iff]

theorem Owes.informs {w : World} {number : Nat} {ready : Prop} (h : Owes w)
    (hGet : w.players[number]? = some p) (hInforms : Informs w.statics p ready statics' q)
    (hGuard : w.statics.needBufferingEndNotification = true → ready →
      ∀ other ∈ w.players.eraseIdx number, ¬ other.Awaits) :
    Owes ⟨statics', w.players.set number q⟩ := by
  obtain ⟨hNumber, hEq⟩ := List.getElem?_eq_some_iff.mp hGet
  have hSelf : w.players.set number p = w.players := by
    rw [← hEq]
    exact List.set_getElem_self hNumber
  have hOwed := h.owed
  rw [← hSelf, exists_mem_set hNumber] at hOwed
  have hBefore := h.alternate p (List.mem_of_getElem? hGet)
  have hOthers : Alternates .bufferingStart .bufferingEnd q.bufferingInfos →
      ∀ r ∈ w.players.set number q, Alternates .bufferingStart .bufferingEnd r.bufferingInfos := by
    intro hQ r hMem
    rcases List.mem_or_eq_of_mem_set hMem with hOld | rfl
    · exact h.alternate r hOld
    · exact hQ
  cases hInforms with
  | same hNeed hInfos =>
      refine ⟨hOthers (hInfos ▸ hBefore), ?_⟩
      rw [exists_mem_set hNumber, hNeed, hOwed, Player.Awaits, Player.Awaits, hInfos]
  | started hFree hNeed hInfos =>
      rw [hFree] at hOwed
      have hNot : ¬ p.Awaits := fun hAwaits => absurd (hOwed.mpr (Or.inl hAwaits)) (by simp)
      have hAwaits : q.Awaits := by simp [Player.Awaits, hInfos]
      refine ⟨hOthers (hInfos ▸ hBefore.start hNot), ?_⟩
      rw [exists_mem_set hNumber]
      exact ⟨fun _ => Or.inl hAwaits, fun _ => hNeed⟩
  | ended hReady hNeeded hNeed hInfos =>
      have hNone : ¬ ∃ r ∈ w.players.eraseIdx number, r.Awaits := by
        rintro ⟨r, hMem, hAwaits⟩
        exact hGuard hNeeded hReady r hMem hAwaits
      have hAwaits : p.Awaits := (hOwed.mp hNeeded).resolve_right hNone
      have hNot : ¬ q.Awaits := by simp [Player.Awaits, hInfos]
      refine ⟨hOthers (hInfos ▸ hBefore.stop hAwaits), ?_⟩
      rw [exists_mem_set hNumber]
      simp [hNeed, hNot, hNone]

theorem bufferingInfos_constructed (mSeeking mSeekNotificationSent mAudioSink : Bool) :
    (constructed mSeeking mSeekNotificationSent mAudioSink).bufferingInfos = [] := rfl

theorem owes_step {w v : World} {act : WorldAct} (h : Owes w) (hGuard : w.BufferingGuard act)
    (hStep : step w act = some v) : Owes v := by
  rcases step_cases hStep with ⟨_, _, _, rfl, rfl⟩ | ⟨number, inner, p, statics, q, rfl, hGet, -, hInner, rfl⟩
  · have hInfos := bufferingInfos_constructed
    refine ⟨?_, ?_⟩
    · intro r hMem
      rcases List.mem_append.mp hMem with hOld | hNew
      · exact h.alternate r hOld
      · obtain rfl := List.mem_singleton.mp hNew
        rw [hInfos]
        exact trivial
    · simp [h.owed, Player.Awaits, hInfos, or_and_right, exists_or]
  · exact h.informs hGet (informs_step hInner) fun hNeed => hGuard hNeed p hGet

end

/-- The notifications of buffering alternate for each player, in every run in which no
player is found ready while the end is owed to another. -/
theorem run_alternates {acts : List WorldAct} {w : World}
    (run : Run step World.BufferingGuard initial acts w) :
    ∀ p ∈ w.players, Alternates .bufferingStart .bufferingEnd p.bufferingInfos := by
  have hOwes : Owes w := by
    refine Run.invariant run ⟨by simp [initial], by simp [initial]⟩ ?_
    intro before act after hBefore hGuard hStep
    exact owes_step hBefore hGuard hStep
  exact hOwes.alternate

/-- A seek of a player that plays, up to the frame it seeks to. -/
def seekAndShow (number : Nat) : List WorldAct :=
  [WorldAct.player number (.seekTo 5000000)] ++ fireAndHandle number .seeking ++
    fireAndHandle number .video ++ [WorldAct.player number (.readDone .frame quietAnswers)]

/-- Two players, the first of which seeks, and shows the next frame before the second
starts to play. -/
def seekBeforeOther : List WorldAct :=
  constructAndPrepare 0 ++ constructAndPrepare 1 ++ [WorldAct.player 0 (.play true)] ++
    seekAndShow 0 ++ fireAndHandle 0 .video ++ [WorldAct.player 1 (.play true)] ++
    fireAndHandle 1 .video

theorem run_alternates_inTurn : ∃ w, Run step World.BufferingGuard initial seekBeforeOther w ∧
    (∃ p ∈ w.players, p.bufferingInfos = [.bufferingStart, .bufferingEnd]) ∧
    ∀ p ∈ w.players, Alternates .bufferingStart .bufferingEnd p.bufferingInfos := by
  obtain ⟨w, run, hTold⟩ := Run.exists_of_execGuarded
    (fun w : World => ∃ p ∈ w.players, p.bufferingInfos = [.bufferingStart, .bufferingEnd])
    (show (execGuarded step World.BufferingGuard initial seekBeforeOther).any _ = true by
      decide +kernel)
  exact ⟨w, run, hTold, run_alternates run⟩

/-- A player is told of an end it was not told the start of, since the one before it was
destroyed in the middle of a seek; and a player is told of two starts, since the end was
told to another. -/
theorem exists_run_notInTurn :
    (∃ w, Run step unguarded initial
        (constructAndPrepare 0 ++ [WorldAct.player 0 (.play true)] ++ seekAndShow 0 ++
          [WorldAct.player 0 .destroy] ++ constructAndPrepare 1 ++
          [WorldAct.player 1 (.play true)] ++ fireAndHandle 1 .video) w ∧
      ∃ p ∈ w.players, p.bufferingInfos = [.bufferingEnd] ∧ ¬ Alternates .bufferingStart .bufferingEnd p.bufferingInfos) ∧
    ∃ w, Run step unguarded initial
        (constructAndPrepare 0 ++ constructAndPrepare 1 ++ [WorldAct.player 0 (.play true)] ++
          seekAndShow 0 ++ [WorldAct.player 1 (.play true)] ++ fireAndHandle 1 .video ++
          seekAndShow 0) w ∧
      ∃ p ∈ w.players, p.bufferingInfos = [.bufferingStart, .bufferingStart] ∧
        ¬ Alternates .bufferingStart .bufferingEnd p.bufferingInfos :=
  ⟨Run.exists_of_exec
      (fun w : World => ∃ p ∈ w.players,
        p.bufferingInfos = [.bufferingEnd] ∧ ¬ Alternates .bufferingStart .bufferingEnd p.bufferingInfos)
      (show (exec step initial _).any _ = true by decide +kernel),
    Run.exists_of_exec
      (fun w : World => ∃ p ∈ w.players,
        p.bufferingInfos = [.bufferingStart, .bufferingStart] ∧ ¬ Alternates .bufferingStart .bufferingEnd p.bufferingInfos)
      (show (exec step initial _).any _ = true by decide +kernel)⟩

end Meet.AwesomePlayer
