import Meet.NuMediaPlayer.History

/-! The life cycle of `NuMediaPlayer.java`: which calls and handlers set the extractor, the
codecs and the state, and what a preparation finds. -/
namespace Meet.NuMediaPlayer

/-- The events that use the extractor and the codecs. -/
def playback : List Event := [.readSample, .decodeAudio, .decodeVideo, .seekTo]

/-- The states from which `start` or `seekTo` posts playback events. -/
def playStates : List PlayState := [.prepared, .started, .paused]

namespace State

def Handles (s : State) (event : Event) : Prop :=
  s.media.event = event ∧ s.media.code.isDone = false

instance (s : State) (event : Event) : Decidable (s.Handles event) :=
  inferInstanceAs (Decidable (_ ∧ _))

end State

/-- A preparation has succeeded, no release has run, and nothing is null. -/
def History.Ready (h : History) : Prop :=
  h.succeeded = true ∧ h.released = false ∧ h.player.mExtractor = true ∧
    h.player.mAudioCodec = true ∧ h.player.mVideoCodec = true

instance (h : History) : Decidable h.Ready :=
  inferInstanceAs (Decidable (_ ∧ _ ∧ _ ∧ _ ∧ _))

/-! ### Calls that post playback events -/

/-- Playback events and the checks whose handlers post them. -/
def Event.leadsToPlay (event : Event) : Bool :=
  event ∈ playback || event = .bufferingStartCheck || event = .bufferingEndCheck

def Op.posts (test : Event → Bool) : Op → Bool
  | .send event _ | .sendAtFront event => test event
  | _ => false

def plays (code : Program) : Bool := code.anyOp (Op.posts Event.leadsToPlay)

/-- The test of the state at the head of `start` and of `seekTo`. -/
def isEntry : Program → Bool
  | .test (.stateIn states) yes no => plays yes && !plays no && states.all (· ∈ playStates)
  | _ => false

/-- Between the test of the state and the last playback event of `start` or `seekTo`. -/
def isCommitted (code : Program) : Bool := plays code && !isEntry code

/-! ### What the code can do -/

/-- Operations after which an initialised player is still one. -/
def Op.keepsReady : Op → Bool
  | .setExtractor false | .setAudioCodec false | .setVideoCodec false => false
  | .setState .ending => false
  | _ => true

/-- The thread relies on an extractor: it is about to store `INITIALIZED` or `PREPARING`, or
to post the preparation. -/
def needsExtractor : Program → Bool
  | .op (.setState .initialized) _ => true
  | .op (.setState .preparing) _ => true
  | .op operation _ => operation.posts (· = .prepareRunnable)
  | _ => false

/-- A call stores `STARTED` only on its way to playback events, and leaves the codecs and
the extractor of an initialised player alone. -/
def callStores : Program → Bool
  | .op (.setState state) next =>
      state ∈ [.initialized, .preparing, .paused] || state = .started && plays next
  | .op operation _ =>
      operation.keepsReady && operation ≠ .setAudioCodec true && operation ≠ .setVideoCodec true
  | _ => true

/-- A call relies on an extractor behind a store of one or a test for `INITIALIZED`. -/
def callExtracts : Program → Bool
  | .done => true
  | .op operation next =>
      !needsExtractor next || needsExtractor (.op operation next) || operation = .setExtractor true
  | .test cond yes no =>
      (!needsExtractor yes || cond = .stateIn [.initialized]) && !needsExtractor no

theorem callForm_program (request : Request) :
    request.program.parts.all callStores = true ∧ request.program.parts.all callExtracts = true ∧
      isCommitted request.program = false ∧ needsExtractor request.program = false := by
  cases request <;> exact ⟨rfl, rfl, rfl, rfl⟩

/-- The preparation has set the codec, on its way to `PREPARED`. -/
def hasCodec (setCodec : Bool → Op) (code : Program) : Bool :=
  code.anyOp (· = .setState .prepared) && !code.anyOp (· = setCodec true)

/-- Playback events are posted by their own handlers and by those of the checks. -/
def handlerPosts (event : Event) : Program → Bool
  | .op operation _ =>
      (!operation.posts Event.leadsToPlay || event.leadsToPlay) &&
        !operation.posts (· = .prepareRunnable)
  | _ => true

/-- Only the preparation stores `PREPARED`, with both codecs set. -/
def handlerStores (event : Event) : Program → Bool
  | .op (.setState .prepared) next =>
      event = .prepareRunnable && hasCodec .setAudioCodec (.op (.setState .prepared) next) &&
        hasCodec .setVideoCodec (.op (.setState .prepared) next)
  | .op (.setState state) _ => state ∉ [.started, .paused, .initialized, .preparing]
  | .op operation _ => operation ≠ .setExtractor true
  | _ => true

/-- Only the release and a preparation that fails take something away. -/
def handlerClears (event : Event) : Program → Bool
  | .op operation _ =>
      operation.keepsReady || event = .releaseRunnable ||
        event = .prepareRunnable &&
          (operation = .setAudioCodec false || operation = .setVideoCodec false)
  | _ => true

/-- The release first empties the queue, and last stores `END`. -/
def handlerReleases (event : Event) : Program → Bool
  | .done => true
  | .op operation next =>
      event ≠ .releaseRunnable ||
        (next ≠ .done || operation = .setState .ending) &&
          (.op operation next ≠ onRelease || operation = .removeAllMediaEvents)
  | .test _ _ _ => event ≠ .releaseRunnable

/-- On the way to `PREPARED` a codec is set once. -/
def handlerSets (setCodec : Bool → Op) : Program → Bool
  | .done => true
  | .op operation next =>
      !hasCodec setCodec next || operation = setCodec true ||
        hasCodec setCodec (.op operation next) && operation ≠ setCodec false
  | .test cond yes no =>
      !(hasCodec setCodec yes || hasCodec setCodec no) || hasCodec setCodec (.test cond yes no)

theorem handlerForm_handleMessage (event : Event) :
    (handleMessage event).parts.all (handlerPosts event) = true ∧
      (handleMessage event).parts.all (handlerStores event) = true ∧
      (handleMessage event).parts.all (handlerClears event) = true ∧
      (handleMessage event).parts.all (handlerReleases event) = true := by
  cases event <;> decide +kernel

theorem handlerSets_handleMessage (event : Event) :
    ((handleMessage event).parts.all (handlerSets .setAudioCodec) = true ∧
      hasCodec .setAudioCodec (handleMessage event) = false) ∧
    (handleMessage event).parts.all (handlerSets .setVideoCodec) = true ∧
      hasCodec .setVideoCodec (handleMessage event) = false := by
  cases event <;> decide +kernel

/-! ### Fields after an operation -/

namespace State

def stateAfter (s : State) : Op → PlayState
  | .setState state => state
  | _ => s.mState

def extractorAfter (s : State) : Op → Bool
  | .setExtractor present => present
  | _ => s.mExtractor

def audioAfter (s : State) : Op → Bool
  | .setAudioCodec present => present
  | _ => s.mAudioCodec

def videoAfter (s : State) : Op → Bool
  | .setVideoCodec present => present
  | _ => s.mVideoCodec

end State

/-- The release runs and has begun to empty the queue. -/
def State.Clearing (s : State) : Prop := s.Handles .releaseRunnable ∧ s.media.code ≠ onRelease

theorem perform_fields {s t : State} {thread : Thread} {seek : Nat} {operation : Op}
    (hPerform : perform s thread seek operation = some t) :
    t.mState = s.stateAfter operation ∧ t.mExtractor = s.extractorAfter operation ∧
      t.mAudioCodec = s.audioAfter operation ∧ t.mVideoCodec = s.videoAfter operation := by
  cases operation with
  | lock =>
      simp only [perform, Option.ite_none_right_eq_some, Option.some.injEq] at hPerform
      rw [← hPerform.2]
      exact ⟨rfl, rfl, rfl, rfl⟩
  | lockWhenStopped =>
      simp only [perform, Option.ite_none_right_eq_some, Option.some.injEq] at hPerform
      rw [← hPerform.2]
      exact ⟨rfl, rfl, rfl, rfl⟩
  | _ =>
      cases hPerform
      exact ⟨rfl, rfl, rfl, rfl⟩

theorem mem_queueAfter {s : State} {operation : Op} {message : Timed Event}
    (hMem : message ∈ s.queueAfter operation) :
    message ∈ s.mMediaEventHandler ∨ operation.posts (· = message.what) = true := by
  cases operation with
  | send event delayMillis =>
      rcases List.mem_cons.mp ((MessageQueue.enqueue_perm _ _).mem_iff.mp hMem) with rfl | hOld
      · exact Or.inr (by simp [Op.posts])
      · exact Or.inl hOld
  | sendAtFront event =>
      rcases List.mem_cons.mp ((MessageQueue.enqueue_perm _ _).mem_iff.mp hMem) with rfl | hOld
      · exact Or.inr (by simp [Op.posts])
      · exact Or.inl hOld
  | removeMessages event => exact Or.inl (List.mem_of_mem_filter hMem)
  | removeAllMediaEvents => cases hMem
  | _ => exact Or.inl hMem

theorem posts_of_posts {operation : Op} {event : Event} {test : Event → Bool}
    (hPosts : operation.posts (· = event) = true) : operation.posts test = test event := by
  cases operation with
  | send other _ =>
      obtain rfl : other = event := of_decide_eq_true hPosts
      rfl
  | sendAtFront other =>
      obtain rfl : other = event := of_decide_eq_true hPosts
      rfl
  | _ => cases hPosts

theorem extractorAfter_of_keeps {s : State} {operation : Op} (hPresent : s.mExtractor = true)
    (hKeeps : operation.keepsReady = true) : s.extractorAfter operation = true := by
  cases operation with
  | setExtractor present => cases present <;> simp_all [Op.keepsReady, State.extractorAfter]
  | _ => exact hPresent

namespace History

@[simp]
theorem record_succeeded (h : History) (player : State) (operation : Option Op) :
    (h.record player operation).succeeded =
      (h.succeeded || decide (operation = some (.setState .prepared))) := by
  unfold record
  split <;> simp_all

@[simp]
theorem record_released (h : History) (player : State) (operation : Option Op) :
    (h.record player operation).released =
      (h.released || decide (operation = some (.setState .ending))) := by
  unfold record
  split <;> simp_all

/-- What does not take anything away leaves an initialised player as it is. -/
theorem Ready.record {h : History} (hReady : h.Ready) {operation : Op} {player : State}
    (hKeeps : operation.keepsReady = true)
    (hExtractor : player.mExtractor = h.player.extractorAfter operation)
    (hAudio : player.mAudioCodec = h.player.audioAfter operation)
    (hVideo : player.mVideoCodec = h.player.videoAfter operation) :
    (h.record player (some operation)).Ready := by
  obtain ⟨hSucceeded, hReleased, hE, hA, hV⟩ := hReady
  refine ⟨?_, ?_, ?_, ?_, ?_⟩
  · simp [hSucceeded]
  · have hNot : operation ≠ .setState .ending := by
      rintro rfl
      cases hKeeps
    simp [hReleased, hNot]
  · rw [record_player, hExtractor]
    exact extractorAfter_of_keeps hE hKeeps
  · rw [record_player, hAudio]
    cases operation with
    | setAudioCodec present => cases present <;> simp_all [Op.keepsReady, State.audioAfter]
    | _ => exact hA
  · rw [record_player, hVideo]
    cases operation with
    | setVideoCodec present => cases present <;> simp_all [Op.keepsReady, State.videoAfter]
    | _ => exact hV

end History

/-! ### The codecs during the preparation -/

/-- A preparation that has passed the store of a codec finds it there. -/
structure Decodes (s : State) : Prop where
  audio : hasCodec .setAudioCodec s.media.code = true → s.mAudioCodec = true
  video : hasCodec .setVideoCodec s.media.code = true → s.mVideoCodec = true

section
variable {s t : State} {act : Act}

theorem callForm_part {request : Request} {code : Program}
    (hPart : code ∈ request.program.parts) : callStores code = true ∧ callExtracts code = true := by
  obtain ⟨hStores, hExtracts, -, -⟩ := callForm_program request
  exact ⟨List.all_eq_true.mp hStores _ hPart, List.all_eq_true.mp hExtracts _ hPart⟩

theorem callStores_codecs {operation : Op} {next : Program}
    (hStores : callStores (.op operation next) = true) :
    operation.keepsReady = true ∧ s.audioAfter operation = s.mAudioCodec ∧
      s.videoAfter operation = s.mVideoCodec := by
  cases operation with
  | setState state => cases state <;> simp_all [callStores, Op.keepsReady, State.audioAfter, State.videoAfter]
  | setExtractor present => cases present <;> simp_all [callStores, Op.keepsReady, State.audioAfter, State.videoAfter]
  | setAudioCodec present => cases present <;> simp [callStores, Op.keepsReady] at hStores
  | setVideoCodec present => cases present <;> simp [callStores, Op.keepsReady] at hStores
  | _ => exact ⟨rfl, rfl, rfl⟩

section
variable {setCodec : Bool → Op}

/-- An operation on the way to `PREPARED`, with the field of the codec before and after. -/
theorem codec_op {operation : Op} {next : Program} {before after : Bool}
    (hSets : handlerSets setCodec (.op operation next) = true)
    (hHas : hasCodec setCodec (.op operation next) = true → before = true)
    (hSet : operation = setCodec true → after = true)
    (hKeep : operation ≠ setCodec true → operation ≠ setCodec false → after = before)
    (hNext : hasCodec setCodec next = true) : after = true := by
  by_cases hTrue : operation = setCodec true
  · exact hSet hTrue
  · have hRest : hasCodec setCodec (.op operation next) = true ∧ operation ≠ setCodec false := by
      simpa [handlerSets, hNext, hTrue] using hSets
    rw [hKeep hTrue hRest.2]
    exact hHas hRest.1

theorem codec_test {cond : Cond} {yes no : Program}
    (hSets : handlerSets setCodec (.test cond yes no) = true) (taken : Bool)
    (hHas : hasCodec setCodec (if taken then yes else no) = true) :
    hasCodec setCodec (.test cond yes no) = true := by
  cases taken <;> simp_all [handlerSets]

theorem audioAfter_other (s : State) {operation : Op} (hTrue : operation ≠ .setAudioCodec true)
    (hFalse : operation ≠ .setAudioCodec false) : s.audioAfter operation = s.mAudioCodec := by
  cases operation with
  | setAudioCodec present => cases present <;> simp_all
  | _ => rfl

theorem videoAfter_other (s : State) {operation : Op} (hTrue : operation ≠ .setVideoCodec true)
    (hFalse : operation ≠ .setVideoCodec false) : s.videoAfter operation = s.mVideoCodec := by
  cases operation with
  | setVideoCodec present => cases present <;> simp_all
  | _ => rfl

end

theorem decodes_step (hPlaced : Placed s) (h : Decodes s) (hStep : step s act = some t) :
    Decodes t := by
  cases moves_of_step hStep with
  | call request hThread hIdle => exact ⟨h.audio, h.video⟩
  | appTest hThread hCode => exact ⟨h.audio, h.video⟩
  | deliver hFree hQueue => exact ⟨h.audio, h.video⟩
  | handle hTaken => exact ⟨h.audio, h.video⟩
  | tick millis => exact ⟨h.audio, h.video⟩
  | appOp hThread hCode hPerform =>
      obtain ⟨request, hPart⟩ := hPlaced.apps _ (List.mem_of_getElem? hThread)
      rw [hCode] at hPart
      obtain ⟨-, hAudio, hVideo⟩ := callStores_codecs (s := s) (callForm_part hPart).1
      obtain ⟨-, -, hAudioAfter, hVideoAfter⟩ := perform_fields hPerform
      obtain ⟨-, hMedia, -⟩ := perform_frame hPerform
      constructor
      · simpa only [hMedia, hAudioAfter, hAudio] using h.audio
      · simpa only [hMedia, hVideoAfter, hVideo] using h.video
  | dispatch hIdle hQueue hDue =>
      rename_i message rest
      obtain ⟨⟨-, hAudio⟩, -, hVideo⟩ := handlerSets_handleMessage message.what
      constructor
      · simp [hAudio]
      · simp [hVideo]
  | mediaOp hCode hPerform =>
      obtain ⟨⟨hAudio, -⟩, hVideo, -⟩ := handlerSets_handleMessage s.media.event
      have hAudioSets := List.all_eq_true.mp hAudio _ hPlaced.media
      have hVideoSets := List.all_eq_true.mp hVideo _ hPlaced.media
      obtain ⟨-, -, hAudioAfter, hVideoAfter⟩ := perform_fields hPerform
      obtain ⟨hHasAudio, hHasVideo⟩ := h
      rw [hCode] at hAudioSets hVideoSets hHasAudio hHasVideo
      constructor
      · simp only [hAudioAfter]
        exact codec_op hAudioSets hHasAudio (by rintro rfl; rfl) (audioAfter_other s)
      · simp only [hVideoAfter]
        exact codec_op hVideoSets hHasVideo (by rintro rfl; rfl) (videoAfter_other s)
  | mediaTest hCode =>
      obtain ⟨⟨hAudio, -⟩, hVideo, -⟩ := handlerSets_handleMessage s.media.event
      have hAudioSets := List.all_eq_true.mp hAudio _ hPlaced.media
      have hVideoSets := List.all_eq_true.mp hVideo _ hPlaced.media
      rw [hCode] at hAudioSets hVideoSets
      constructor
      · intro hHas
        exact h.audio (hCode ▸ codec_test hAudioSets _ hHas)
      · intro hHas
        exact h.video (hCode ▸ codec_test hVideoSets _ hHas)

end

/-! ### The extractor before the preparation -/

namespace History

/-- There is an extractor, unless a release has begun. -/
def Extractor (h : History) : Prop :=
  h.player.mExtractor = true ∨ h.released = true ∨ h.player.Handles .releaseRunnable

/-- Whatever leads to a preparation comes behind a store of an extractor. -/
structure Extracts (h : History) : Prop where
  state : h.player.mState ∈ [PlayState.initialized, .preparing] → h.Extractor
  pending : ∀ message ∈ h.player.mMediaEventHandler, message.what = .prepareRunnable → h.Extractor
  handled : h.player.Handles .prepareRunnable → h.Extractor
  threads : ∀ thread ∈ h.player.apps, needsExtractor thread.code = true → h.Extractor

variable {h after : History} {act : Act}

theorem handlerForm_media {s : State} (hPlaced : Placed s) :
    handlerPosts s.media.event s.media.code = true ∧
      handlerStores s.media.event s.media.code = true ∧
      handlerClears s.media.event s.media.code = true ∧
      handlerReleases s.media.event s.media.code = true := by
  obtain ⟨hPosts, hStores, hClears, hReleases⟩ := handlerForm_handleMessage s.media.event
  exact ⟨List.all_eq_true.mp hPosts _ hPlaced.media, List.all_eq_true.mp hStores _ hPlaced.media,
    List.all_eq_true.mp hClears _ hPlaced.media, List.all_eq_true.mp hReleases _ hPlaced.media⟩

/-- An operation of the release leaves code to run, or stores `END`. -/
theorem releases_op {operation : Op} {next : Program}
    (hForm : handlerReleases .releaseRunnable (.op operation next) = true) :
    next.isDone = false ∨ operation = .setState .ending := by
  cases next with
  | done =>
      simp only [handlerReleases, ne_eq, not_true_eq_false, decide_false, Bool.false_or,
        Bool.and_eq_true] at hForm
      exact Or.inr (of_decide_eq_true hForm.1)
  | _ => exact Or.inl rfl

theorem needsExtractor_of_state {s : State} {operation : Op} {next : Program}
    (hIn : s.stateAfter operation ∈ [PlayState.initialized, .preparing]) :
    needsExtractor (.op operation next) = true ∨ s.mState ∈ [PlayState.initialized, .preparing] := by
  cases operation with
  | setState state =>
      left
      cases state <;> simp_all [State.stateAfter, needsExtractor]
  | _ => exact Or.inr hIn

theorem needsExtractor_of_posts {operation : Op} {next : Program}
    (hPosts : operation.posts (· = .prepareRunnable) = true) :
    needsExtractor (.op operation next) = true := by
  cases operation with
  | setState state => cases hPosts
  | _ => exact hPosts

theorem handlerStores_state {s : State} {event : Event} {operation : Op} {next : Program}
    (hStores : handlerStores event (.op operation next) = true)
    (hIn : s.stateAfter operation ∈ [PlayState.initialized, .preparing]) :
    s.mState ∈ [PlayState.initialized, .preparing] := by
  cases operation with
  | setState state => cases state <;> simp_all [State.stateAfter, handlerStores]
  | _ => exact hIn

theorem extractor_step (hPlaced : Placed h.player) (hExtractor : h.Extractor)
    (hStep : h.step act = some after) : after.Extractor := by
  obtain ⟨player, hPlayer, rfl⟩ := Option.map_eq_some_iff.mp hStep
  unfold Extractor at hExtractor ⊢
  rw [record_player, record_released]
  by_cases hReleased : h.released = true
  · exact Or.inr (Or.inl (by simp [hReleased]))
  · rw [Bool.not_eq_true] at hReleased
    simp only [hReleased, Bool.false_eq_true, false_or] at hExtractor
    cases moves_of_step hPlayer with
    | call request hThread hIdle => exact hExtractor.imp_right Or.inr
    | appTest hThread hCode => exact hExtractor.imp_right Or.inr
    | deliver hFree hQueue => exact hExtractor.imp_right Or.inr
    | handle hTaken => exact hExtractor.imp_right Or.inr
    | tick millis => exact hExtractor.imp_right Or.inr
    | dispatch hIdle hQueue hDue =>
        rcases hExtractor with hPresent | ⟨-, hBusy⟩
        · exact Or.inl hPresent
        · simp [hIdle, Code.isDone] at hBusy
    | appOp hThread hCode hPerform =>
        obtain ⟨request, hPart⟩ := hPlaced.apps _ (List.mem_of_getElem? hThread)
        rw [hCode] at hPart
        have hStores := (callForm_part hPart).1
        obtain ⟨-, hAfter, -, -⟩ := perform_fields hPerform
        obtain ⟨-, hMedia, -⟩ := perform_frame hPerform
        rcases hExtractor with hPresent | hRelease
        · left
          simp only [hAfter]
          exact extractorAfter_of_keeps hPresent (callStores_codecs (s := h.player) hStores).1
        · right
          right
          simpa only [State.Handles, hMedia] using hRelease
    | mediaOp hCode hPerform =>
        obtain ⟨-, -, hClears, hReleases⟩ := handlerForm_media hPlaced
        obtain ⟨-, hAfter, -, -⟩ := perform_fields hPerform
        rw [hCode] at hClears hReleases
        by_cases hEvent : h.player.media.event = .releaseRunnable
        · rw [hEvent] at hReleases
          rcases releases_op hReleases with hMore | rfl
          · exact Or.inr (Or.inr ⟨hEvent, hMore⟩)
          · rw [State.operation_media hCode]
            exact Or.inr (Or.inl (by simp))
        · have hPresent : h.player.mExtractor = true :=
            hExtractor.resolve_right fun hHandles => hEvent hHandles.1
          left
          simp only [hAfter]
          simp only [handlerClears, hEvent, decide_false, Bool.or_false, Bool.or_eq_true,
            Bool.and_eq_true, decide_eq_true_eq] at hClears
          rcases hClears with hKeeps | ⟨-, rfl | rfl⟩
          · exact extractorAfter_of_keeps hPresent hKeeps
          · exact hPresent
          · exact hPresent
    | mediaTest hCode =>
        obtain ⟨-, -, -, hReleases⟩ := handlerForm_media hPlaced
        rw [hCode] at hReleases
        rcases hExtractor with hPresent | ⟨hEvent, -⟩
        · exact Or.inl hPresent
        · simp [handlerReleases, hEvent] at hReleases

theorem extracts_initial (threads : Nat) : (initial threads).Extracts := by
  constructor <;> simp [initial, NuMediaPlayer.initial, State.Handles, Code.isDone, needsExtractor]

/-- The thread that takes a step may come to code that relies on the extractor. -/
theorem Extracts.threads_set (hExtracts : h.Extracts) (hMono : h.Extractor → after.Extractor)
    {next : Program} (hNext : needsExtractor next = true → after.Extractor) (number seek : Nat) :
    ∀ thread ∈ h.player.apps.set number ⟨next, seek⟩, needsExtractor thread.code = true →
      after.Extractor := by
  intro thread hThread hNeeds
  rcases List.mem_or_eq_of_mem_set hThread with hOld | rfl
  · exact hMono (hExtracts.threads thread hOld hNeeds)
  · exact hNext hNeeds

/-- A step that leaves the state and the queue no closer to a preparation. -/
theorem Extracts.move (hExtracts : h.Extracts) (hMono : h.Extractor → after.Extractor)
    {player : State} (hPlayer : after.player = player)
    (hState : player.mState ∈ [PlayState.initialized, .preparing] →
      h.player.mState ∈ [PlayState.initialized, .preparing])
    (hQueue : ∀ message ∈ player.mMediaEventHandler, message.what = .prepareRunnable →
      message ∈ h.player.mMediaEventHandler)
    (hHandled : player.Handles .prepareRunnable → h.Extractor)
    (hThreads : ∀ thread ∈ player.apps, needsExtractor thread.code = true → after.Extractor) :
    after.Extracts := by
  subst hPlayer
  refine ⟨?_, ?_, ?_, hThreads⟩
  · exact fun hIn => hMono (hExtracts.state (hState hIn))
  · exact fun message hMem hWhat => hMono (hExtracts.pending message (hQueue message hMem hWhat) hWhat)
  · exact fun hBusy => hMono (hHandled hBusy)

/-- A call stores `INITIALIZED` or `PREPARING` and posts the preparation only where it relies
on an extractor. -/
theorem extracts_appOp (hPlaced : Placed h.player) (hExtracts : h.Extracts)
    (hMono : h.Extractor → after.Extractor) {number seek : Nat} {thread : AppThread}
    {operation : Op} {next : Program} {t : State} (hThread : h.player.apps[number]? = some thread)
    (hCode : thread.code = .op operation next)
    (hPerform : perform h.player (.app number) thread.seek operation = some t)
    (hPlayer : after.player = { t with apps := h.player.apps.set number ⟨next, seek⟩ }) :
    after.Extracts := by
  obtain ⟨request, hPart⟩ := hPlaced.apps _ (List.mem_of_getElem? hThread)
  rw [hCode] at hPart
  obtain ⟨hAfter, hExtractorAfter, -, -⟩ := perform_fields hPerform
  obtain ⟨hQueue, hMedia, -⟩ := perform_frame hPerform
  have hHere : needsExtractor (.op operation next) = true → after.Extractor := fun hNeeds =>
    hMono (hExtracts.threads thread (List.mem_of_getElem? hThread) (hCode ▸ hNeeds))
  refine ⟨?_, ?_, ?_, ?_⟩ <;> rw [hPlayer]
  · intro hIn
    simp only [hAfter] at hIn
    exact (needsExtractor_of_state hIn).elim hHere fun hOld => hMono (hExtracts.state hOld)
  · intro message hMem hWhat
    simp only [hQueue] at hMem
    rcases mem_queueAfter hMem with hOld | hPosts
    · exact hMono (hExtracts.pending message hOld hWhat)
    · exact hHere (needsExtractor_of_posts (hWhat ▸ hPosts))
  · intro hBusy
    apply hMono
    apply hExtracts.handled
    simpa only [State.Handles, hMedia] using hBusy
  · refine hExtracts.threads_set hMono ?_ _ _
    intro hNeeds
    have hForm := (callForm_part hPart).2
    simp only [callExtracts, hNeeds, Bool.not_true, Bool.false_or, Bool.or_eq_true,
      decide_eq_true_eq] at hForm
    rcases hForm with hBefore | rfl
    · exact hHere hBefore
    · left
      simp only [hPlayer, hExtractorAfter]
      rfl

/-- No handler stores these states or posts a preparation. -/
theorem extracts_mediaOp (hPlaced : Placed h.player) (hExtracts : h.Extracts)
    (hMono : h.Extractor → after.Extractor) {operation : Op} {next : Program} {t : State}
    (hCode : h.player.media.code = .op operation next)
    (hPerform : perform h.player .media 0 operation = some t)
    (hPlayer : after.player = { t with media := ⟨h.player.media.event, next⟩ }) :
    after.Extracts := by
  obtain ⟨hPosts, hStores, -, -⟩ := handlerForm_media hPlaced
  rw [hCode] at hPosts hStores
  obtain ⟨hAfter, -, -, -⟩ := perform_fields hPerform
  obtain ⟨hQueue, -, hApps⟩ := perform_frame hPerform
  refine hExtracts.move hMono hPlayer ?_ ?_ ?_ ?_
  · intro hIn
    simp only [hAfter] at hIn
    exact handlerStores_state hStores hIn
  · intro message hMem hWhat
    simp only [hQueue] at hMem
    rcases mem_queueAfter hMem with hOld | hNew
    · exact hOld
    · simp only [handlerPosts, Bool.and_eq_true, Bool.not_eq_true'] at hPosts
      simp [hWhat ▸ hNew] at hPosts
  · rintro ⟨hEvent, -⟩
    exact hExtracts.handled ⟨hEvent, by simp [hCode, Code.isDone]⟩
  · intro thread hMem hNeeds
    simp only [hApps] at hMem
    exact hMono (hExtracts.threads thread hMem hNeeds)

theorem extracts_step (hPlaced : Placed h.player) (hExtracts : h.Extracts)
    (hStep : h.step act = some after) : after.Extracts := by
  have hMono : h.Extractor → after.Extractor := fun hPresent => extractor_step hPlaced hPresent hStep
  obtain ⟨player, hPlayer, rfl⟩ := Option.map_eq_some_iff.mp hStep
  have hKept := fun thread hMem hNeeds => hMono (hExtracts.threads thread hMem hNeeds)
  have hSame : ∀ message ∈ h.player.mMediaEventHandler, message.what = .prepareRunnable →
      message ∈ h.player.mMediaEventHandler := fun _ hMem _ => hMem
  cases moves_of_step hPlayer with
  | call request hThread hIdle =>
      refine hExtracts.move hMono (record_player _ _ _) id hSame hExtracts.handled ?_
      have hNot := (callForm_program request).2.2.2
      exact hExtracts.threads_set hMono (by simp [hNot]) _ _
  | appOp hThread hCode hPerform =>
      exact extracts_appOp hPlaced hExtracts hMono hThread hCode hPerform (record_player _ _ _)
  | appTest hThread hCode =>
      rename_i number thread answer cond yes no
      obtain ⟨request, hPart⟩ := hPlaced.apps _ (List.mem_of_getElem? hThread)
      rw [hCode] at hPart
      have hForm := (callForm_part hPart).2
      simp only [callExtracts, Bool.and_eq_true, Bool.or_eq_true, Bool.not_eq_true',
        decide_eq_true_eq] at hForm
      refine hExtracts.move hMono (record_player _ _ _) id hSame hExtracts.handled ?_
      refine hExtracts.threads_set hMono ?_ _ _
      intro hNeeds
      split at hNeeds
      · rename_i hHolds
        obtain rfl := hForm.1.resolve_left (by simp [hNeeds])
        apply hMono
        apply hExtracts.state
        have hIs : h.player.mState = .initialized := by simpa [State.holds] using hHolds
        simp [hIs]
      · simp [hForm.2] at hNeeds
  | dispatch hIdle hQueue hDue =>
      rename_i message rest
      refine hExtracts.move hMono (record_player _ _ _) id ?_ ?_ hKept
      · intro other hMem _
        rw [hQueue]
        exact List.mem_cons_of_mem _ hMem
      · rintro ⟨hWhat, -⟩
        exact hExtracts.pending message (by simp [hQueue]) hWhat
  | mediaOp hCode hPerform =>
      exact extracts_mediaOp hPlaced hExtracts hMono hCode hPerform (record_player _ _ _)
  | mediaTest hCode =>
      refine hExtracts.move hMono (record_player _ _ _) id hSame ?_ hKept
      rintro ⟨hEvent, -⟩
      exact hExtracts.handled ⟨hEvent, by simp [hCode, Code.isDone]⟩
  | deliver hFree hQueue =>
      exact hExtracts.move hMono (record_player _ _ _) id hSame hExtracts.handled hKept
  | handle hTaken =>
      refine hExtracts.move hMono (record_player _ _ _) ?_ hSame hExtracts.handled hKept
      intro hIn
      dsimp only at hIn
      split at hIn
      · simp at hIn
      · exact hIn
  | tick millis =>
      exact hExtracts.move hMono (record_player _ _ _) id hSame hExtracts.handled hKept

end History

end Meet.NuMediaPlayer
