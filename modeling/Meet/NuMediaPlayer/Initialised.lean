import Meet.NuMediaPlayer.LifeCycle

/-! Playback events of `NuMediaPlayer.java` are handled only on an initialised player, as
long as no call and no notification stores a state the player has not reached and no start
or seek overlaps the release. -/
namespace Meet.NuMediaPlayer

/-- Playback events are handled on an initialised player. -/
def History.Initialised (h : History) : Prop :=
  ∀ event ∈ playback, h.player.Handles event → h.Ready

/-- The action tests the state for `start` or `seekTo`. -/
def State.enters (s : State) : Act → Bool
  | .app number _ => s.apps[number]?.any fun thread => isEntry thread.code
  | _ => false

/-- The steps that keep the player to its life cycle. -/
structure History.Allowed (h : History) (act : Act) : Prop where
  paused : h.player.operation act = some (.setState .paused) → h.Ready
  delivered : act = .handle → h.player.delivering = some .prepared → h.Ready
  prepared : h.player.operation act = some (.setState .prepared) → h.released = false
  failed : h.player.operation act = some (.setAudioCodec false) ∨
    h.player.operation act = some (.setVideoCodec false) →
    h.player.Handles .prepareRunnable → ¬ h.Ready
  releases : act = .dispatch → h.player.mMediaEventHandler.head?.any
      (fun message => message.what = .releaseRunnable) = true →
    ∀ thread ∈ h.player.apps, isCommitted thread.code = false
  enters : h.player.Handles .releaseRunnable → h.player.enters act = false

instance (h : History) (act : Act) : Decidable (h.Allowed act) :=
  decidable_of_iff
    ((h.player.operation act = some (.setState .paused) → h.Ready) ∧
      (act = .handle → h.player.delivering = some .prepared → h.Ready) ∧
      (h.player.operation act = some (.setState .prepared) → h.released = false) ∧
      (h.player.operation act = some (.setAudioCodec false) ∨
        h.player.operation act = some (.setVideoCodec false) →
        h.player.Handles .prepareRunnable → ¬ h.Ready) ∧
      (act = .dispatch → h.player.mMediaEventHandler.head?.any
          (fun message => message.what = .releaseRunnable) = true →
        ∀ thread ∈ h.player.apps, isCommitted thread.code = false) ∧
      (h.player.Handles .releaseRunnable → h.player.enters act = false))
    ⟨fun ⟨a, b, c, d, e, f⟩ => ⟨a, b, c, d, e, f⟩,
      fun h => ⟨h.paused, h.delivered, h.prepared, h.failed, h.releases, h.enters⟩⟩

namespace History

variable {h after : History} {act : Act}

/-! ### Playback events -/

/-- Whatever posts or handles playback events does so on an initialised player, and none is
pending once the release has emptied the queue. -/
structure Plays (h : History) : Prop where
  pending : ∀ message ∈ h.player.mMediaEventHandler, message.what.leadsToPlay = true →
    h.Ready ∧ ¬ h.player.Clearing
  handled : h.player.media.event.leadsToPlay = true → h.player.media.code.isDone = false → h.Ready
  state : h.player.mState ∈ playStates → h.Ready ∨ h.player.Handles .releaseRunnable
  committed : ∀ thread ∈ h.player.apps, isCommitted thread.code = true →
    h.Ready ∧ ¬ h.player.Handles .releaseRunnable

theorem plays_initial (threads : Nat) : (initial threads).Plays := by
  constructor <;> simp [initial, NuMediaPlayer.initial, playStates, Code.isDone, isCommitted, plays,
    Code.anyOp]

theorem Ready.record_none (hReady : h.Ready) {player : State}
    (hExtractor : player.mExtractor = h.player.mExtractor)
    (hAudio : player.mAudioCodec = h.player.mAudioCodec)
    (hVideo : player.mVideoCodec = h.player.mVideoCodec) : (h.record player none).Ready := by
  obtain ⟨hSucceeded, hReleased, hE, hA, hV⟩ := hReady
  exact ⟨hSucceeded, hReleased, hExtractor.trans hE, hAudio.trans hA, hVideo.trans hV⟩

theorem isCommitted_of_next {operation : Op} {next : Program} (hNext : plays next = true) :
    isCommitted (.op operation next) = true := by
  simp only [plays] at hNext
  simp [isCommitted, plays, isEntry, Code.anyOp, hNext]

theorem isCommitted_of_posts {operation : Op} {next : Program}
    (hPosts : operation.posts Event.leadsToPlay = true) :
    isCommitted (.op operation next) = true := by
  simp [isCommitted, plays, isEntry, Code.anyOp, hPosts]

/-- A thread is committed after a test only if it was before, or if the test found a state
from which to play. -/
theorem isCommitted_of_branch {s : State} {cond : Cond} {yes no : Program} {answer : Bool}
    (hBranch : isCommitted (if s.holds answer cond then yes else no) = true) :
    isCommitted (.test cond yes no) = true ∨
      isEntry (.test cond yes no) = true ∧ s.mState ∈ playStates := by
  have hPlays : plays (if s.holds answer cond then yes else no) = true :=
    (Bool.and_eq_true_iff.mp hBranch).1
  cases hEntry : isEntry (.test cond yes no) with
  | false =>
      left
      have hTest : plays (.test cond yes no) = true := by
        simp only [plays, Code.anyOp, Bool.or_eq_true] at hPlays ⊢
        split at hPlays
        · exact Or.inl hPlays
        · exact Or.inr hPlays
      simp [isCommitted, hTest, hEntry]
  | true =>
      right
      cases cond with
      | stateIn states =>
          simp only [isEntry, Bool.and_eq_true, Bool.not_eq_true', List.all_eq_true,
            decide_eq_true_eq] at hEntry
          split at hPlays
          · rename_i hHolds
            exact ⟨rfl, hEntry.2 _ (of_decide_eq_true hHolds)⟩
          · simp [hEntry.1.2] at hPlays
      | _ => cases hEntry

theorem Plays.committed_set (hPlays : h.Plays) (hMono : h.Ready → after.Ready)
    (hRelease : after.player.Handles .releaseRunnable → h.player.Handles .releaseRunnable)
    {next : Program} (hNext : isCommitted next = true →
      h.Ready ∧ ¬ h.player.Handles .releaseRunnable) (number seek : Nat) :
    ∀ thread ∈ h.player.apps.set number ⟨next, seek⟩, isCommitted thread.code = true →
      after.Ready ∧ ¬ after.player.Handles .releaseRunnable := by
  intro thread hThread hCommitted
  have hBefore : h.Ready ∧ ¬ h.player.Handles .releaseRunnable := by
    rcases List.mem_or_eq_of_mem_set hThread with hOld | rfl
    · exact hPlays.committed thread hOld hCommitted
    · exact hNext hCommitted
  exact ⟨hMono hBefore.1, fun hHandles => hBefore.2 (hRelease hHandles)⟩

/-- Steps that touch neither the threads nor the queue in any way that matters. -/
theorem Plays.frame (hPlays : h.Plays) (hMono : h.Ready → after.Ready)
    (hQueue : ∀ message ∈ after.player.mMediaEventHandler, message ∈ h.player.mMediaEventHandler)
    (hMedia : after.player.media = h.player.media) (hApps : after.player.apps = h.player.apps)
    (hState : after.player.mState ∈ playStates →
      after.Ready ∨ h.player.mState ∈ playStates) : after.Plays := by
  have hSame : ∀ event, after.player.Handles event ↔ h.player.Handles event := by
    intro event
    simp only [State.Handles, hMedia]
  have hClearing : after.player.Clearing ↔ h.player.Clearing := by
    simp only [State.Clearing, hSame, hMedia]
  refine ⟨?_, ?_, ?_, ?_⟩
  · intro message hMem hLeads
    obtain ⟨hReady, hNot⟩ := hPlays.pending message (hQueue message hMem) hLeads
    exact ⟨hMono hReady, fun h => hNot (hClearing.mp h)⟩
  · rw [hMedia]
    exact fun hLeads hBusy => hMono (hPlays.handled hLeads hBusy)
  · intro hIn
    rcases hState hIn with hReady | hBefore
    · exact Or.inl hReady
    · exact (hPlays.state hBefore).imp hMono (hSame _).mpr
  · rw [hApps]
    intro thread hMem hCommitted
    obtain ⟨hReady, hNot⟩ := hPlays.committed thread hMem hCommitted
    exact ⟨hMono hReady, fun h => hNot ((hSame _).mp h)⟩

/-- A call begins or a thread passes a test. -/
theorem plays_appStep (hPlays : h.Plays) {number seek : Nat} {next : Program}
    (hMono : h.Ready → after.Ready) (hState : after.player.mState = h.player.mState)
    (hQueue : after.player.mMediaEventHandler = h.player.mMediaEventHandler)
    (hMedia : after.player.media = h.player.media)
    (hApps : after.player.apps = h.player.apps.set number ⟨next, seek⟩)
    (hNext : isCommitted next = true → h.Ready ∧ ¬ h.player.Handles .releaseRunnable) :
    after.Plays := by
  have hSame : ∀ event, after.player.Handles event ↔ h.player.Handles event := by
    intro event
    simp only [State.Handles, hMedia]
  refine ⟨?_, ?_, ?_, ?_⟩
  · rw [hQueue]
    intro message hMem hLeads
    obtain ⟨hReady, hNot⟩ := hPlays.pending message hMem hLeads
    exact ⟨hMono hReady, by simpa only [State.Clearing, hSame, hMedia] using hNot⟩
  · rw [hMedia]
    exact fun hLeads hBusy => hMono (hPlays.handled hLeads hBusy)
  · rw [hState]
    exact fun hIn => (hPlays.state hIn).imp hMono (hSame _).mpr
  · rw [hApps]
    exact hPlays.committed_set hMono (hSame _).mp hNext _ _

/-- An operation of a call. -/
theorem plays_appOp (hPlays : h.Plays) {number seek : Nat} {thread : AppThread} {operation : Op}
    {next : Program} (hMem : thread ∈ h.player.apps) (hCode : thread.code = .op operation next)
    (hStores : callStores (.op operation next) = true)
    (hPaused : operation = .setState .paused → h.Ready) (hMono : h.Ready → after.Ready)
    (hState : after.player.mState = h.player.stateAfter operation)
    (hQueue : after.player.mMediaEventHandler = h.player.queueAfter operation)
    (hMedia : after.player.media = h.player.media)
    (hApps : after.player.apps = h.player.apps.set number ⟨next, seek⟩) : after.Plays := by
  have hSame : ∀ event, after.player.Handles event ↔ h.player.Handles event := by
    intro event
    simp only [State.Handles, hMedia]
  have hHere : isCommitted (.op operation next) = true →
      h.Ready ∧ ¬ h.player.Handles .releaseRunnable := fun hCommitted =>
    hPlays.committed thread hMem (hCode ▸ hCommitted)
  refine ⟨?_, ?_, ?_, ?_⟩
  · intro message hMessage hLeads
    rw [hQueue] at hMessage
    rcases mem_queueAfter hMessage with hOld | hPosts
    · obtain ⟨hReady, hNot⟩ := hPlays.pending message hOld hLeads
      exact ⟨hMono hReady, by simpa only [State.Clearing, hSame, hMedia] using hNot⟩
    · have hPlay : operation.posts Event.leadsToPlay = true := (posts_of_posts hPosts).trans hLeads
      obtain ⟨hReady, hNot⟩ := hHere (isCommitted_of_posts hPlay)
      exact ⟨hMono hReady, fun hClearing => hNot ((hSame _).mp hClearing.1)⟩
  · rw [hMedia]
    exact fun hLeads hBusy => hMono (hPlays.handled hLeads hBusy)
  · intro hIn
    rw [hState] at hIn
    have hBefore : h.Ready ∨ h.player.mState ∈ playStates := by
      cases operation with
      | setState state =>
          left
          cases state with
          | paused => exact hPaused rfl
          | started => exact (hHere (isCommitted_of_next (by simpa [callStores] using hStores))).1
          | _ => simp [State.stateAfter, playStates, callStores] at hIn hStores
      | _ => exact Or.inr hIn
    rcases hBefore with hReady | hOld
    · exact Or.inl (hMono hReady)
    · exact (hPlays.state hOld).imp hMono (hSame _).mpr
  · rw [hApps]
    refine hPlays.committed_set hMono (hSame _).mp ?_ _ _
    intro hCommitted
    exact hHere (isCommitted_of_next (Bool.and_eq_true_iff.mp hCommitted).1)

/-- The preparation that stores `PREPARED` leaves an initialised player. -/
theorem ready_prepared (hExtracts : h.Extracts) (hDecodes : Decodes h.player) {next : Program}
    (hCode : h.player.media.code = .op (.setState .prepared) next)
    (hStores : handlerStores h.player.media.event (.op (.setState .prepared) next) = true)
    (hReleased : h.released = false) :
    h.released = false ∧ h.player.mExtractor = true ∧ h.player.mAudioCodec = true ∧
      h.player.mVideoCodec = true := by
  simp only [handlerStores, Bool.and_eq_true, decide_eq_true_eq] at hStores
  obtain ⟨⟨hEvent, hAudio⟩, hVideo⟩ := hStores
  have hBusy : h.player.media.code.isDone = false := by simp [hCode, Code.isDone]
  refine ⟨hReleased, ?_, hDecodes.audio (hCode ▸ hAudio), hDecodes.video (hCode ▸ hVideo)⟩
  rcases hExtracts.handled ⟨hEvent, hBusy⟩ with hPresent | hGone | ⟨hOther, -⟩
  · exact hPresent
  · simp [hReleased] at hGone
  · simp [hEvent] at hOther

/-- An operation of a handler that takes nothing away. -/
theorem plays_mediaOp (hPlays : h.Plays) {operation : Op} {next : Program}
    (hCode : h.player.media.code = .op operation next)
    (hPosts : handlerPosts h.player.media.event (.op operation next) = true)
    (hStores : handlerStores h.player.media.event (.op operation next) = true)
    (hReleases : handlerReleases h.player.media.event (.op operation next) = true)
    (hKeeps : operation.keepsReady = true) (hMono : h.Ready → after.Ready)
    (hPrepared : operation = .setState .prepared → after.Ready)
    (hState : after.player.mState = h.player.stateAfter operation)
    (hQueue : after.player.mMediaEventHandler = h.player.queueAfter operation)
    (hMedia : after.player.media = ⟨h.player.media.event, next⟩)
    (hApps : after.player.apps = h.player.apps) : after.Plays := by
  have hBusy : h.player.media.code.isDone = false := by simp [hCode, Code.isDone]
  have hSame : ∀ event, after.player.Handles event → h.player.Handles event := by
    intro event hHandles
    simp only [State.Handles, hMedia] at hHandles
    exact ⟨hHandles.1, hBusy⟩
  refine ⟨?_, ?_, ?_, ?_⟩
  · intro message hMessage hLeads
    rw [hQueue] at hMessage
    rcases mem_queueAfter hMessage with hOld | hNew
    · obtain ⟨hReady, hNot⟩ := hPlays.pending message hOld hLeads
      refine ⟨hMono hReady, ?_⟩
      rintro ⟨hRelease, -⟩
      have hBefore := hSame _ hRelease
      -- The release has just begun, so its first operation has emptied the queue.
      have hBegun : .op operation next = onRelease := by
        by_contra hOther
        exact hNot ⟨hBefore, hCode ▸ hOther⟩
      obtain ⟨-, rfl⟩ : (next ≠ .done ∨ operation = .setState .ending) ∧
          operation = .removeAllMediaEvents := by
        simpa [handlerReleases, hBefore.1, hBegun] using hReleases
      cases hMessage
    · have hPlay : operation.posts Event.leadsToPlay = true := (posts_of_posts hNew).trans hLeads
      have hEvent : h.player.media.event.leadsToPlay = true := by
        simp only [handlerPosts, hPlay, Bool.not_true, Bool.false_or, Bool.and_eq_true] at hPosts
        exact hPosts.1
      refine ⟨hMono (hPlays.handled hEvent hBusy), ?_⟩
      rintro ⟨hRelease, -⟩
      rw [(hSame _ hRelease).1] at hEvent
      cases hEvent
  · rw [hMedia]
    exact fun hLeads _ => hMono (hPlays.handled hLeads hBusy)
  · intro hIn
    rw [hState] at hIn
    by_cases hPreparedNow : operation = .setState .prepared
    · exact Or.inl (hPrepared hPreparedNow)
    · have hOld : h.player.mState ∈ playStates := by
        cases operation with
        | setState state => cases state <;> simp_all [State.stateAfter, playStates, handlerStores]
        | _ => exact hIn
      refine (hPlays.state hOld).imp hMono ?_
      rintro ⟨hEvent, -⟩
      rw [hEvent] at hReleases
      refine ⟨by rw [hMedia, hEvent], ?_⟩
      rw [hMedia]
      refine (releases_op hReleases).resolve_right ?_
      rintro rfl
      cases hKeeps
  · rw [hApps]
    intro thread hMem hCommitted
    obtain ⟨hReady, hNot⟩ := hPlays.committed thread hMem hCommitted
    exact ⟨hMono hReady, fun hHandles => hNot (hSame _ hHandles)⟩

/-- An operation that takes something away: no playback event is pending by then. -/
theorem plays_clears (hPlays : h.Plays) {operation : Op} {next : Program}
    (hCode : h.player.media.code = .op operation next)
    (hClears : handlerClears h.player.media.event (.op operation next) = true)
    (hReleases : handlerReleases h.player.media.event (.op operation next) = true)
    (hKeeps : operation.keepsReady = false)
    (hFailed : operation = .setAudioCodec false ∨ operation = .setVideoCodec false →
      h.player.Handles .prepareRunnable → ¬ h.Ready)
    (hState : after.player.mState = h.player.stateAfter operation)
    (hQueue : after.player.mMediaEventHandler = h.player.mMediaEventHandler)
    (hMedia : after.player.media = ⟨h.player.media.event, next⟩)
    (hApps : after.player.apps = h.player.apps) : after.Plays := by
  have hBusy : h.player.media.code.isDone = false := by simp [hCode, Code.isDone]
  simp only [handlerClears, hKeeps, Bool.false_or, Bool.or_eq_true, Bool.and_eq_true,
    decide_eq_true_eq] at hClears
  rcases hClears with hEvent | ⟨hEvent, hOperation⟩
  · -- The release: its first operation was another one, so the queue is empty.
    have hHandles : h.player.Handles .releaseRunnable := ⟨hEvent, hBusy⟩
    have hClearing : h.player.Clearing := by
      refine ⟨hHandles, ?_⟩
      rw [hCode]
      intro hBegun
      obtain ⟨-, rfl⟩ : (next ≠ .done ∨ operation = .setState .ending) ∧
          operation = .removeAllMediaEvents := by
        simpa [handlerReleases, hEvent, hBegun] using hReleases
      cases hKeeps
    refine ⟨?_, ?_, ?_, ?_⟩
    · rw [hQueue]
      intro message hMem hLeads
      exact absurd hClearing (hPlays.pending message hMem hLeads).2
    · rw [hMedia, hEvent]
      intro hLeads
      cases hLeads
    · intro hIn
      rw [hEvent] at hReleases
      rcases releases_op hReleases with hMore | rfl
      · exact Or.inr ⟨by rw [hMedia, hEvent], by rw [hMedia]; exact hMore⟩
      · simp [hState, State.stateAfter, playStates] at hIn
    · rw [hApps]
      intro thread hMem hCommitted
      exact absurd hHandles (hPlays.committed thread hMem hCommitted).2
  · -- A preparation that fails on a player that is not initialised.
    have hNot : ¬ h.Ready := hFailed hOperation ⟨hEvent, hBusy⟩
    have hSame : h.player.stateAfter operation = h.player.mState := by
      rcases hOperation with rfl | rfl <;> rfl
    refine ⟨?_, ?_, ?_, ?_⟩
    · rw [hQueue]
      intro message hMem hLeads
      exact absurd (hPlays.pending message hMem hLeads).1 hNot
    · rw [hMedia, hEvent]
      intro hLeads
      cases hLeads
    · rw [hState, hSame]
      intro hIn
      rcases hPlays.state hIn with hReady | ⟨hRelease, -⟩
      · exact absurd hReady hNot
      · simp [hEvent] at hRelease
    · rw [hApps]
      intro thread hMem hCommitted
      exact absurd (hPlays.committed thread hMem hCommitted).1 hNot

theorem queueAfter_of_clears {s : State} {operation : Op} (hKeeps : operation.keepsReady = false) :
    s.queueAfter operation = s.mMediaEventHandler := by
  cases operation <;> first | rfl | cases hKeeps

/-- A handler other than the release passes a test. -/
theorem plays_mediaTest (hPlays : h.Plays) (hBusy : h.player.media.code.isDone = false)
    (hOther : h.player.media.event ≠ .releaseRunnable) (hMono : h.Ready → after.Ready)
    (hState : after.player.mState = h.player.mState)
    (hQueue : after.player.mMediaEventHandler = h.player.mMediaEventHandler)
    (hEvent : after.player.media.event = h.player.media.event)
    (hApps : after.player.apps = h.player.apps) : after.Plays := by
  have hNot : ¬ after.player.Handles .releaseRunnable := fun hHandles =>
    hOther (hEvent.symm.trans hHandles.1)
  refine ⟨?_, ?_, ?_, ?_⟩
  · rw [hQueue]
    intro message hMem hLeads
    exact ⟨hMono (hPlays.pending message hMem hLeads).1, fun hClearing => hNot hClearing.1⟩
  · rw [hEvent]
    exact fun hLeads _ => hMono (hPlays.handled hLeads hBusy)
  · rw [hState]
    intro hIn
    rcases hPlays.state hIn with hReady | ⟨hRelease, -⟩
    · exact Or.inl (hMono hReady)
    · exact absurd hRelease hOther
  · rw [hApps]
    exact fun thread hMem hCommitted => ⟨hMono (hPlays.committed thread hMem hCommitted).1, hNot⟩

/-- The media thread takes a message. -/
theorem plays_dispatch (hPlays : h.Plays) {message : Timed Event} {rest : List (Timed Event)}
    (hIdle : h.player.media.code = .done)
    (hBefore : h.player.mMediaEventHandler = message :: rest)
    (hReleases : message.what = .releaseRunnable →
      ∀ thread ∈ h.player.apps, isCommitted thread.code = false)
    (hMono : h.Ready → after.Ready) (hState : after.player.mState = h.player.mState)
    (hQueue : after.player.mMediaEventHandler = rest)
    (hMedia : after.player.media = ⟨message.what, handleMessage message.what⟩)
    (hApps : after.player.apps = h.player.apps) : after.Plays := by
  refine ⟨?_, ?_, ?_, ?_⟩
  · rw [hQueue]
    intro other hMem hLeads
    refine ⟨hMono (hPlays.pending other (by simp [hBefore, hMem]) hLeads).1, ?_⟩
    rintro ⟨⟨hEvent, -⟩, hCode⟩
    rw [hMedia] at hEvent hCode
    simp only at hEvent hCode
    rw [hEvent] at hCode
    exact hCode rfl
  · rw [hMedia]
    intro hLeads _
    exact hMono (hPlays.pending message (by simp [hBefore]) hLeads).1
  · rw [hState]
    intro hIn
    rcases hPlays.state hIn with hReady | ⟨-, hBusy⟩
    · exact Or.inl (hMono hReady)
    · simp [hIdle, Code.isDone] at hBusy
  · rw [hApps]
    intro thread hMem hCommitted
    refine ⟨hMono (hPlays.committed thread hMem hCommitted).1, ?_⟩
    rintro ⟨hEvent, -⟩
    rw [hMedia] at hEvent
    simp [hReleases hEvent thread hMem] at hCommitted

/-- An application thread performs an operation. -/
theorem plays_appPerform {number : Nat} {thread : AppThread} {answer : Bool} {operation : Op}
    {next : Program} {t : State} (hPlaced : Placed h.player) (hPlays : h.Plays)
    (hAllowed : h.Allowed (.app number answer)) (hThread : h.player.apps[number]? = some thread)
    (hCode : thread.code = .op operation next)
    (hPerform : perform h.player (.app number) thread.seek operation = some t) :
    (h.record { t with apps := h.player.apps.set number ⟨next, seekAfter h.player thread⟩ }
      (some operation)).Plays := by
  obtain ⟨request, hPart⟩ := hPlaced.apps _ (List.mem_of_getElem? hThread)
  rw [hCode] at hPart
  have hStores := (callForm_part hPart).1
  obtain ⟨hState, hExtractor, hAudio, hVideo⟩ := perform_fields hPerform
  obtain ⟨hQueue, hMedia, -⟩ := perform_frame hPerform
  have hOperation := State.operation_app hThread hCode
  have hAfter := h.record_player
  refine plays_appOp hPlays (List.mem_of_getElem? hThread) hCode hStores ?_ ?_
    ((congrArg State.mState (hAfter _ _)).trans hState)
    ((congrArg State.mMediaEventHandler (hAfter _ _)).trans hQueue)
    ((congrArg State.media (hAfter _ _)).trans hMedia) (congrArg State.apps (hAfter _ _))
  · rintro rfl
    exact hAllowed.paused (hOperation _)
  · intro hReady
    exact hReady.record (callStores_codecs (s := h.player) hStores).1 hExtractor hAudio hVideo

/-- The media thread performs an operation of its handler. -/
theorem plays_mediaPerform {answer : Bool} {operation : Op} {next : Program} {t : State}
    (hPlaced : Placed h.player) (hExtracts : h.Extracts) (hDecodes : Decodes h.player)
    (hPlays : h.Plays) (hAllowed : h.Allowed (.media answer))
    (hCode : h.player.media.code = .op operation next)
    (hPerform : perform h.player .media 0 operation = some t) :
    (h.record { t with media := ⟨h.player.media.event, next⟩ } (some operation)).Plays := by
  obtain ⟨hPosts, hStores, hClears, hReleases⟩ := handlerForm_media hPlaced
  rw [hCode] at hPosts hStores hClears hReleases
  obtain ⟨hState, hExtractor, hAudio, hVideo⟩ := perform_fields hPerform
  obtain ⟨hQueue, -, hApps⟩ := perform_frame hPerform
  have hOperation := State.operation_media hCode answer
  have hAfter := h.record_player
  cases hKeeps : operation.keepsReady with
  | true =>
      refine plays_mediaOp hPlays hCode hPosts hStores hReleases hKeeps ?_ ?_
        ((congrArg State.mState (hAfter _ _)).trans hState)
        ((congrArg State.mMediaEventHandler (hAfter _ _)).trans hQueue)
        (congrArg State.media (hAfter _ _)) ((congrArg State.apps (hAfter _ _)).trans hApps)
      · intro hReady
        exact hReady.record hKeeps hExtractor hAudio hVideo
      · rintro rfl
        obtain ⟨hReleased, hE, hA, hV⟩ :=
          ready_prepared hExtracts hDecodes hCode hStores (hAllowed.prepared hOperation)
        exact ⟨rfl, hReleased, hExtractor.trans hE, hAudio.trans hA, hVideo.trans hV⟩
  | false =>
      have hSame := hQueue.trans (queueAfter_of_clears hKeeps)
      refine plays_clears hPlays hCode hClears hReleases hKeeps ?_
        ((congrArg State.mState (hAfter _ _)).trans hState)
        ((congrArg State.mMediaEventHandler (hAfter _ _)).trans hSame)
        (congrArg State.media (hAfter _ _)) ((congrArg State.apps (hAfter _ _)).trans hApps)
      intro hCodec
      apply hAllowed.failed
      rcases hCodec with rfl | rfl
      · exact Or.inl hOperation
      · exact Or.inr hOperation

theorem plays_step (hPlaced : Placed h.player) (hExtracts : h.Extracts) (hDecodes : Decodes h.player)
    (hPlays : h.Plays) (hAllowed : h.Allowed act) (hStep : h.step act = some after) :
    after.Plays := by
  obtain ⟨player, hPlayer, rfl⟩ := Option.map_eq_some_iff.mp hStep
  cases moves_of_step hPlayer with
  | call request hThread hIdle =>
      have hNot := (callForm_program request).2.2.1
      refine plays_appStep hPlays (fun hReady => hReady.record_none rfl rfl rfl) rfl rfl rfl rfl ?_
      simp [hNot]
  | appTest hThread hCode =>
      rename_i number thread answer cond yes no
      have hMem := List.mem_of_getElem? hThread
      have hNone : h.player.operation (.app number answer) = none := by
        simp [State.operation, hThread, hCode, headOperation]
      rw [hNone]
      refine plays_appStep hPlays (fun hReady => hReady.record_none rfl rfl rfl) rfl rfl rfl rfl ?_
      intro hBranch
      rcases isCommitted_of_branch hBranch with hCommitted | ⟨hEntry, hIn⟩
      · exact hPlays.committed thread hMem (hCode ▸ hCommitted)
      · have hNot : ¬ h.player.Handles .releaseRunnable := by
          intro hHandles
          have hEnters := hAllowed.enters hHandles
          simp [State.enters, hThread, hCode, hEntry] at hEnters
        exact ⟨(hPlays.state hIn).resolve_right hNot, hNot⟩
  | appOp hThread hCode hPerform =>
      rw [State.operation_app hThread hCode]
      exact plays_appPerform hPlaced hPlays hAllowed hThread hCode hPerform
  | dispatch hIdle hQueue hDue =>
      refine plays_dispatch hPlays hIdle hQueue ?_ (fun hReady => hReady.record_none rfl rfl rfl)
        rfl rfl rfl rfl
      intro hWhat
      exact hAllowed.releases rfl (by simp [hQueue, hWhat])
  | mediaOp hCode hPerform =>
      rename_i answer operation next t
      rw [State.operation_media hCode answer]
      exact plays_mediaPerform hPlaced hExtracts hDecodes hPlays hAllowed hCode hPerform
  | mediaTest hCode =>
      rename_i answer cond yes no
      have hReleases := (handlerForm_media hPlaced).2.2.2
      rw [hCode] at hReleases
      have hEvent : h.player.media.event ≠ .releaseRunnable := of_decide_eq_true hReleases
      have hNone : h.player.operation (.media answer) = none := by
        simp [State.operation, hCode, headOperation]
      rw [hNone]
      exact plays_mediaTest hPlays (by simp [hCode, Code.isDone]) hEvent
        (fun hReady => hReady.record_none rfl rfl rfl) rfl rfl rfl rfl
  | deliver hFree hQueue =>
      exact hPlays.frame (fun hReady => hReady.record_none rfl rfl rfl) (fun _ hMem => hMem) rfl rfl
        Or.inr
  | handle hTaken =>
      rename_i message
      refine hPlays.frame (fun hReady => hReady.record_none rfl rfl rfl) (fun _ hMem => hMem) rfl rfl ?_
      intro hIn
      by_cases hPrepared : message = .prepared
      · have hReady := hAllowed.delivered rfl (hPrepared ▸ hTaken)
        exact Or.inl (hReady.record_none rfl rfl rfl)
      · right
        simpa [State.operation, record, hPrepared] using hIn
  | tick millis =>
      exact hPlays.frame (fun hReady => hReady.record_none rfl rfl rfl) (fun _ hMem => hMem) rfl rfl
        Or.inr

/-- All that a run of allowed steps keeps. -/
structure Sound (h : History) : Prop where
  placed : Placed h.player
  extracts : h.Extracts
  decodes : Decodes h.player
  plays : h.Plays

theorem sound_initial (threads : Nat) : (initial threads).Sound where
  placed := placed_initial threads
  extracts := extracts_initial threads
  decodes := by constructor <;> simp [initial, NuMediaPlayer.initial, hasCodec, Code.anyOp]
  plays := plays_initial threads

theorem sound_step (hSound : h.Sound) (hAllowed : h.Allowed act) (hStep : h.step act = some after) :
    after.Sound := by
  have hPlays := plays_step hSound.placed hSound.extracts hSound.decodes hSound.plays hAllowed hStep
  have hExtracts := extracts_step hSound.placed hSound.extracts hStep
  obtain ⟨player, hPlayer, rfl⟩ := Option.map_eq_some_iff.mp hStep
  refine ⟨?_, hExtracts, ?_, hPlays⟩
  · rw [record_player]
    exact placed_step hSound.placed hPlayer
  · rw [record_player]
    exact decodes_step hSound.placed hSound.decodes hPlayer

variable {threads : Nat} {acts : List Act}

/-- In every run of allowed steps, playback events are handled on an initialised player. -/
theorem run_initialised (run : Run step Allowed (initial threads) acts h) : h.Initialised := by
  have hSound : h.Sound := by
    refine run.invariant (sound_initial threads) ?_
    intro before act after hBefore hAllowed hStep
    exact sound_step hBefore hAllowed hStep
  rintro event hEvent ⟨rfl, hBusy⟩
  refine hSound.plays.handled ?_ hBusy
  simp [Event.leadsToPlay, hEvent]

/-- A prepared player is started, and reads a sample. -/
def readsSample : List Act :=
  preparation ++ callOn .start 9 ++ handleNext 3 ++ handleNext 1

theorem run_initialised_readsSample : ∃ h, Run step Allowed (initial 1) readsSample h ∧
    h.player.Handles .readSample ∧ h.Initialised := by
  obtain ⟨h, run, hHandles⟩ := Run.exists_of_execGuarded
    (fun h : History => h.player.Handles .readSample)
    (show (execGuarded step Allowed (initial 1) readsSample).any _ = true by decide +kernel)
  exact ⟨h, run, hHandles, run_initialised run⟩

/-- A new player is paused and then told to seek. -/
def pausedIdle : List Act := callOn .pause 6 ++ callOn (.seekTo 5) 4 ++ handleNext 0

/-- The seek is handled without an extractor. -/
theorem exists_not_initialised : ∃ h, Run step unguarded (initial 1) pausedIdle h ∧
    h.player.Handles .seekTo ∧ h.player.mExtractor = false ∧ ¬ h.Initialised := by
  obtain ⟨h, run, hHandles, hNone⟩ := Run.exists_of_exec
    (fun h : History => h.player.Handles .seekTo ∧ h.player.mExtractor = false)
    (show (exec step (initial 1) pausedIdle).any _ = true by decide +kernel)
  refine ⟨h, run, hHandles, hNone, ?_⟩
  intro hInitialised
  obtain ⟨-, -, hPresent, -, -⟩ := hInitialised .seekTo (by decide) hHandles
  simp [hNone] at hPresent

end History

end Meet.NuMediaPlayer
