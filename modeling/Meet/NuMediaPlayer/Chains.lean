import Meet.NuMediaPlayer.Handler

/-! The read and decode events of `NuMediaPlayer.java` post themselves again, and `play_l`
starts all three from three places. Each kind is counted where it can be: in the queue,
under the handler, and in the code a thread is still to run. -/
namespace Meet.NuMediaPlayer

/-- The events that post themselves again. -/
def chains : List Event := [.readSample, .decodeAudio, .decodeVideo]

namespace State

def beingHandled (s : State) (event : Event) : Nat :=
  if s.media.event = event ∧ s.media.code.isDone = false then 1 else 0

/-- The messages of one kind that are pending or being handled. -/
def alive (s : State) (event : Event) : Nat :=
  MessageQueue.count event s.mMediaEventHandler + s.beingHandled event

end State

def OneChain (s : State) : Prop := ∀ event ∈ chains, s.alive event ≤ 1

instance (s : State) : Decidable (OneChain s) :=
  inferInstanceAs (Decidable (∀ event ∈ chains, _))

/-- How often the event is posted before the thread next sets the state, empties the
queue or asks the extractor. -/
def owes (event : Event) : Program → Nat
  | .done => 0
  | .op (.setState _) _ => 0
  | .op .removeAllMediaEvents _ => 0
  | .op (.send other _) next => owes event next + if other = event then 1 else 0
  | .op (.sendAtFront other) next => owes event next + if other = event then 1 else 0
  | .op _ next => owes event next
  | .test (.ask _) _ _ => 0
  | .test _ yes no => max (owes event yes) (owes event no)

/-- The thread is on its way through `play_l`, or a handler is about to post itself. -/
def inPlay (code : Program) : Bool := chains.any fun event => 0 < owes event code

namespace State

def mediaTokens (s : State) (event : Event) : Nat :=
  max (s.beingHandled event) (owes event s.media.code)

def appTokens (s : State) (event : Event) : Nat :=
  (s.apps.map fun thread => owes event thread.code).sum

def tokens (s : State) (event : Event) : Nat :=
  MessageQueue.count event s.mMediaEventHandler + s.mediaTokens event + s.appTokens event

/-- No read or decode event is pending, being handled, or about to be posted. -/
def Quiet (s : State) : Prop := ∀ event ∈ chains, s.tokens event = 0

end State

instance (s : State) : Decidable s.Quiet :=
  inferInstanceAs (Decidable (∀ event ∈ chains, _))

/-- The thread is at the `setState(STARTED)` of `start`. -/
def startsPlay : Program → Bool
  | .op (.setState _) next => inPlay next
  | _ => false

/-- The handler has an answer from the extractor after which it posts. -/
def answeredPlay (answer : Bool) : Program → Bool
  | .test (.ask _) yes no => inPlay (if answer then yes else no)
  | _ => false

/-- The handler is about to empty the queue, with `play_l` to follow. -/
def wipesForPlay : Program → Bool
  | .op .removeAllMediaEvents next => inPlay next
  | _ => false

/-- `start` and the buffering end check go on to `play_l` only while everything is quiet,
and the seek handler empties the queue only while no `start` is inside `play_l`. -/
def ChainGuard (s : State) : Act → Prop
  | .app number _ => (s.apps[number]?.any fun thread => startsPlay thread.code) = true → s.Quiet
  | .media answer =>
      (s.media.event ∉ chains → answeredPlay answer s.media.code = true → s.Quiet) ∧
        (wipesForPlay s.media.code = true → ∀ thread ∈ s.apps, inPlay thread.code = false)
  | _ => True

instance (s : State) (act : Act) : Decidable (ChainGuard s act) :=
  match act with
  | .app _ _ => inferInstanceAs (Decidable (_ → _))
  | .media _ => inferInstanceAs (Decidable (_ ∧ _))
  | .call _ _ | .dispatch | .deliver | .handle | .tick _ => .isTrue trivial

section
variable {s t : State} {event : Event}

theorem owes_eq_zero {code : Program} (hEvent : event ∈ chains) (hOut : inPlay code = false) :
    owes event code = 0 := by
  have hNone := List.any_eq_false.mp hOut event hEvent
  simpa using hNone

/-- Outside the three exceptions an operation only moves what is owed into the queue. -/
theorem owed_perform {operation : Op} {next : Program}
    (hState : ∀ state, operation ≠ .setState state) (hWipe : operation ≠ .removeAllMediaEvents) :
    MessageQueue.count event (s.queueAfter operation) + owes event next ≤
      MessageQueue.count event s.mMediaEventHandler + owes event (.op operation next) := by
  cases operation with
  | setState state => exact absurd rfl (hState state)
  | removeAllMediaEvents => exact absurd rfl hWipe
  | send other delayMillis =>
      simp only [State.queueAfter, MessageQueue.count_enqueue, owes]
      omega
  | sendAtFront other =>
      simp only [State.queueAfter, MessageQueue.count_enqueue, owes]
      omega
  | removeMessages other =>
      exact Nat.add_le_add_right (MessageQueue.count_filter_le _ _ _) _
  | _ => exact Nat.le_refl _

/-- Only a message of the kind itself adds to its count. -/
theorem count_queueAfter_le (s : State) {operation : Op}
    (hSend : ¬ ∃ delayMillis, operation = .send event delayMillis)
    (hFront : operation ≠ .sendAtFront event) :
    MessageQueue.count event (s.queueAfter operation) ≤
      MessageQueue.count event s.mMediaEventHandler := by
  cases operation with
  | send other delayMillis =>
      have hOther : other ≠ event := fun h => hSend ⟨delayMillis, h ▸ rfl⟩
      simp [State.queueAfter, MessageQueue.count_enqueue, hOther]
  | sendAtFront other =>
      have hOther : other ≠ event := fun h => hFront (h ▸ rfl)
      simp [State.queueAfter, MessageQueue.count_enqueue, hOther]
  | removeMessages other => exact MessageQueue.count_filter_le _ _ _
  | removeAllMediaEvents => exact Nat.zero_le _
  | _ => exact Nat.le_refl _

theorem owes_branch_le {cond : Cond} (yes no : Program) (taken : Bool)
    (hRead : ∀ question, cond ≠ .ask question) :
    owes event (if taken then yes else no) ≤ owes event (.test cond yes no) := by
  have hMax : owes event (.test cond yes no) = max (owes event yes) (owes event no) := by
    cases cond with
    | ask question => exact absurd rfl (hRead question)
    | _ => rfl
  rw [hMax]
  cases taken
  · exact Nat.le_max_right _ _
  · exact Nat.le_max_left _ _

end

/-- What the accounting needs of the code of a call, wherever it stands. -/
def appFits (part : Program) : Bool :=
  chains.all fun event => owes event part ≤ 1 &&
    match part with
    | .op .removeAllMediaEvents next => owes event next = 0
    | .test (.ask _) _ _ => false
    | _ => true

/-- What the accounting needs of the code of a handler. A handler that posts its own event
does so last, and posts no other of the three. -/
def mediaFits (handled : Event) (part : Program) : Bool :=
  chains.all fun event => owes event part ≤ 1 &&
    (handled = event || handled ∉ chains || owes event part = 0) &&
    match part with
    | .op (.send other _) next => handled ≠ event || other ≠ event || next.isDone
    | .op (.sendAtFront other) _ => other ≠ event
    | .op (.setState _) next => handled = event || owes event next = 0
    | .op .removeAllMediaEvents _ => handled ≠ event
    | _ => true

theorem appFits_program (request : Request) : request.program.parts.all appFits = true := by
  cases request <;> rfl

theorem mediaFits_handleMessage (handled : Event) :
    (handleMessage handled).parts.all (mediaFits handled) = true := by
  cases handled <;> decide +kernel

theorem owes_program (request : Request) : ∀ event ∈ chains, owes event request.program = 0 := by
  cases request <;> simp [chains] <;> exact ⟨rfl, rfl, rfl⟩

theorem owes_handleMessage (handled : Event) :
    ∀ event ∈ chains, owes event (handleMessage handled) = 0 := by
  cases handled <;> decide

section
variable {s t : State} {event : Event}

theorem appFits_part {request : Request} {code : Program} (hPart : code ∈ request.program.parts) :
    appFits code = true :=
  List.all_eq_true.mp (appFits_program request) code hPart

theorem mediaFits_part {handled : Event} {code : Program}
    (hPart : code ∈ (handleMessage handled).parts) : mediaFits handled code = true :=
  List.all_eq_true.mp (mediaFits_handleMessage handled) code hPart

theorem owes_le_of_appFits {code : Program} (hEvent : event ∈ chains)
    (hFits : appFits code = true) : owes event code ≤ 1 := by
  have hAll := List.all_eq_true.mp hFits event hEvent
  rw [Bool.and_eq_true] at hAll
  exact of_decide_eq_true hAll.1

theorem owes_le_of_mediaFits {handled : Event} {code : Program} (hEvent : event ∈ chains)
    (hFits : mediaFits handled code = true) : owes event code ≤ 1 := by
  have hAll := List.all_eq_true.mp hFits event hEvent
  simp only [Bool.and_eq_true, decide_eq_true_eq] at hAll
  exact hAll.1.1

theorem owes_other_of_mediaFits {handled : Event} {code : Program} (hEvent : event ∈ chains)
    (hFits : mediaFits handled code = true) (hHandled : handled ∈ chains) (hOther : handled ≠ event) :
    owes event code = 0 := by
  have hAll := List.all_eq_true.mp hFits event hEvent
  simp only [Bool.and_eq_true, Bool.or_eq_true, decide_eq_true_eq] at hAll
  rcases hAll.1.2 with (hSame | hNot) | hZero
  · exact absurd hSame hOther
  · exact absurd hHandled hNot
  · exact hZero

theorem beingHandled_le : s.beingHandled event ≤ 1 := by
  unfold State.beingHandled
  split <;> omega

theorem beingHandled_other (hOther : s.media.event ≠ event) : s.beingHandled event = 0 :=
  if_neg fun h => hOther h.1

/-- While its handler runs, an event of the three counts once. -/
theorem mediaTokens_handled (h : Placed s) (hEvent : event ∈ chains)
    (hHandled : s.media.event = event) (hRuns : s.media.code.isDone = false) :
    s.mediaTokens event = 1 := by
  have hOwes := owes_le_of_mediaFits hEvent (mediaFits_part h.media)
  have hOne : s.beingHandled event = 1 := if_pos ⟨hHandled, hRuns⟩
  unfold State.mediaTokens
  omega

theorem mediaTokens_other (hOther : s.media.event ≠ event) :
    s.mediaTokens event = owes event s.media.code := by
  unfold State.mediaTokens
  rw [beingHandled_other hOther]
  exact Nat.zero_max _

/-- The count of an application thread that goes on to other code. -/
theorem appTokens_set {number : Nat} {thread : AppThread}
    (hThread : s.apps[number]? = some thread) (next : Program) (seek : Nat) (event : Event) :
    ((s.apps.set number ⟨next, seek⟩).map fun thread => owes event thread.code).sum +
        owes event thread.code =
      s.appTokens event + owes event next :=
  sum_map_set (fun thread : AppThread => owes event thread.code) hThread ⟨next, seek⟩

theorem mediaTokens_congr (hMedia : t.media = s.media) (event : Event) :
    t.mediaTokens event = s.mediaTokens event := by
  unfold State.mediaTokens State.beingHandled
  rw [hMedia]

/-- An operation of a call moves what is owed into the queue, or starts to owe. -/
theorem owed_app {request : Request} {operation : Op} {next : Program}
    (hPart : .op operation next ∈ request.program.parts) (hEvent : event ∈ chains) :
    MessageQueue.count event (s.queueAfter operation) + owes event next ≤
        MessageQueue.count event s.mMediaEventHandler + owes event (.op operation next) ∨
      startsPlay (.op operation next) = true ∧
        s.queueAfter operation = s.mMediaEventHandler ∧ owes event next ≤ 1 := by
  have hNext := owes_le_of_appFits hEvent (appFits_part (Code.next_mem_parts hPart))
  by_cases hState : ∃ state, operation = .setState state
  · obtain ⟨state, rfl⟩ := hState
    cases hPlay : inPlay next with
    | true => exact Or.inr ⟨hPlay, rfl, hNext⟩
    | false =>
        rw [owes_eq_zero hEvent hPlay]
        exact Or.inl (Nat.le_refl _)
  · by_cases hWipe : operation = .removeAllMediaEvents
    · subst hWipe
      have hAll := List.all_eq_true.mp (appFits_part hPart) event hEvent
      rw [Bool.and_eq_true] at hAll
      rw [show owes event next = 0 from of_decide_eq_true hAll.2]
      exact Or.inl (Nat.zero_le _)
    · exact Or.inl (owed_perform (fun state h => hState ⟨state, h⟩) hWipe)

theorem owed_appTest {request : Request} {cond : Cond} {yes no : Program} (taken : Bool)
    (hPart : .test cond yes no ∈ request.program.parts) (hEvent : event ∈ chains) :
    owes event (if taken then yes else no) ≤ owes event (.test cond yes no) := by
  apply owes_branch_le
  rintro question rfl
  have hAll := List.all_eq_true.mp (appFits_part hPart) event hEvent
  simp at hAll

/-- Every read or decode event is in one place at most. -/
def TokensLeOne (s : State) : Prop := ∀ event ∈ chains, s.tokens event ≤ 1

theorem tokensLeOne_app {number : Nat} {answer : Bool} (hPlaced : Placed s) (h : TokensLeOne s)
    (hGuard : ChainGuard s (.app number answer)) (hStep : step s (.app number answer) = some t) :
    TokensLeOne t := by
  intro event hEvent
  have hOne := h event hEvent
  unfold State.tokens at hOne
  cases moves_of_step hStep with
  | @appOp _ thread _ operation next u hThread hCode hPerform =>
      obtain ⟨hQueue, hMedia, -⟩ := perform_frame hPerform
      obtain ⟨request, hPart⟩ := hPlaced.apps _ (List.mem_of_getElem? hThread)
      rw [hCode] at hPart
      have hSum := appTokens_set hThread next (seekAfter s thread) event
      rw [hCode] at hSum
      change MessageQueue.count event u.mMediaEventHandler + u.mediaTokens event +
        ((s.apps.set number ⟨next, seekAfter s thread⟩).map fun thread => owes event thread.code).sum ≤ 1
      rw [hQueue, mediaTokens_congr hMedia]
      rcases @owed_app s event _ _ _ hPart hEvent with hMoved | ⟨hStarts, hSame, hNext⟩
      · omega
      · have hQuiet := hGuard (by simp [hThread, hCode, hStarts]) event hEvent
        unfold State.tokens at hQuiet
        rw [hSame]
        omega
  | @appTest _ thread _ cond yes no hThread hCode =>
      obtain ⟨request, hPart⟩ := hPlaced.apps _ (List.mem_of_getElem? hThread)
      rw [hCode] at hPart
      have hSum := appTokens_set hThread (if s.holds answer cond then yes else no)
        (seekAfter s thread) event
      rw [hCode] at hSum
      have hBranch := owed_appTest (s.holds answer cond) hPart hEvent
      change MessageQueue.count event s.mMediaEventHandler + s.mediaTokens event +
        ((s.apps.set number ⟨if s.holds answer cond then yes else no, seekAfter s thread⟩).map
          fun thread => owes event thread.code).sum ≤ 1
      omega

/-- An operation of a handler keeps the count of the queue and the media thread, unless it
empties the queue for `play_l`. -/
theorem owed_media {operation : Op} {next : Program}
    (hCode : s.media.code = .op operation next) (hPlaced : Placed s)
    (hEvent : event ∈ chains) {u : State} (hQueue : u.mMediaEventHandler = s.queueAfter operation)
    (hMedia : u.media = ⟨s.media.event, next⟩) :
    MessageQueue.count event u.mMediaEventHandler + u.mediaTokens event ≤
        MessageQueue.count event s.mMediaEventHandler + s.mediaTokens event ∨
      wipesForPlay s.media.code = true ∧ u.mMediaEventHandler = [] ∧ u.mediaTokens event ≤ 1 := by
  have hPart := hPlaced.media
  rw [hCode] at hPart
  have hAll := List.all_eq_true.mp (mediaFits_part hPart) event hEvent
  simp only [Bool.and_eq_true] at hAll
  have hNext := owes_le_of_mediaFits hEvent (mediaFits_part (Code.next_mem_parts hPart))
  by_cases hHandled : s.media.event = event
  · left
    have hBefore : s.mediaTokens event = 1 :=
      mediaTokens_handled hPlaced hEvent hHandled (by rw [hCode]; rfl)
    have hAfter : u.mediaTokens event = max (if next.isDone = false then 1 else 0) (owes event next) := by
      simp [State.mediaTokens, State.beingHandled, hMedia, hHandled]
    rw [hQueue, hBefore]
    by_cases hSelf : ∃ delayMillis, operation = .send event delayMillis
    · obtain ⟨delayMillis, rfl⟩ := hSelf
      have hLast : next.isDone = true := by simpa [hHandled] using hAll.2
      rw [hAfter, eq_done_of_isDone hLast]
      simp [State.queueAfter, MessageQueue.count_enqueue, Code.isDone, owes]
    · have hLess := count_queueAfter_le s hSelf (by
        rintro rfl
        simp at hAll)
      have hAfterLe : u.mediaTokens event ≤ 1 := by
        rw [hAfter]
        split <;> omega
      omega
  · have hBefore := mediaTokens_other hHandled
    rw [hCode] at hBefore
    have hAfter : u.mediaTokens event = owes event next := by
      rw [mediaTokens_other (by rwa [hMedia]), hMedia]
    rw [hBefore, hAfter, hQueue]
    by_cases hState : ∃ state, operation = .setState state
    · obtain ⟨state, rfl⟩ := hState
      have hZero : owes event next = 0 := by simpa [hHandled] using hAll.2
      rw [hZero]
      exact Or.inl (Nat.le_refl _)
    · by_cases hWipe : operation = .removeAllMediaEvents
      · subst hWipe
        cases hPlay : inPlay next with
        | true => exact Or.inr ⟨by rw [hCode]; exact hPlay, rfl, hNext⟩
        | false =>
            rw [owes_eq_zero hEvent hPlay]
            exact Or.inl (Nat.zero_le _)
      · exact Or.inl (owed_perform (fun state h => hState ⟨state, h⟩) hWipe)

/-- A test of a handler keeps the count of the media thread, unless the answer of the
extractor sends it to `play_l`. -/
theorem owed_mediaTest {cond : Cond} {yes no : Program} {answer : Bool}
    (hCode : s.media.code = .test cond yes no) (hPlaced : Placed s) (hEvent : event ∈ chains)
    {u : State} (hMedia : u.media = ⟨s.media.event, if s.holds answer cond then yes else no⟩) :
    u.mediaTokens event ≤ s.mediaTokens event ∨
      s.media.event ∉ chains ∧ answeredPlay answer s.media.code = true ∧
        u.mediaTokens event ≤ 1 := by
  have hPart := Code.branch_mem_parts (s.holds answer cond) (hCode ▸ hPlaced.media)
  have hBranch := owes_le_of_mediaFits hEvent (mediaFits_part hPart)
  by_cases hHandled : s.media.event = event
  · left
    rw [mediaTokens_handled hPlaced hEvent hHandled (by rw [hCode]; rfl)]
    have hBusy := @beingHandled_le u event
    unfold State.mediaTokens
    rw [hMedia]
    exact Nat.max_le.mpr ⟨hBusy, hBranch⟩
  · have hBefore := mediaTokens_other hHandled
    rw [hCode] at hBefore
    have hAfter : u.mediaTokens event = owes event (if s.holds answer cond then yes else no) := by
      rw [mediaTokens_other (by rwa [hMedia]), hMedia]
    rw [hBefore, hAfter]
    by_cases hAsk : ∃ question, cond = .ask question
    · obtain ⟨question, rfl⟩ := hAsk
      by_cases hChain : s.media.event ∈ chains
      · rw [owes_other_of_mediaFits hEvent (mediaFits_part hPart) hChain hHandled]
        exact Or.inl (Nat.zero_le _)
      · cases hPlay : inPlay (if s.holds answer (.ask question) then yes else no) with
        | true => exact Or.inr ⟨hChain, by rw [hCode]; exact hPlay, hBranch⟩
        | false =>
            rw [owes_eq_zero hEvent hPlay]
            exact Or.inl (Nat.zero_le _)
    · exact Or.inl (owes_branch_le yes no _ fun question h => hAsk ⟨question, h⟩)

theorem appTokens_eq_zero (hEvent : event ∈ chains)
    (hOut : ∀ thread ∈ s.apps, inPlay thread.code = false) : s.appTokens event = 0 := by
  apply List.sum_eq_zero
  intro weight hWeight
  obtain ⟨thread, hThread, rfl⟩ := List.mem_map.mp hWeight
  exact owes_eq_zero hEvent (hOut thread hThread)

theorem tokensLeOne_media {answer : Bool} (hPlaced : Placed s) (h : TokensLeOne s)
    (hGuard : ChainGuard s (.media answer)) (hStep : step s (.media answer) = some t) :
    TokensLeOne t := by
  intro event hEvent
  have hOne := h event hEvent
  unfold State.tokens at hOne
  cases moves_of_step hStep with
  | @mediaOp _ operation next u hCode hPerform =>
      obtain ⟨hQueue, -, hApps⟩ := perform_frame hPerform
      have hAppTokens : u.appTokens event = s.appTokens event := by
        unfold State.appTokens
        rw [hApps]
      change MessageQueue.count event u.mMediaEventHandler +
        State.mediaTokens { u with media := ⟨s.media.event, next⟩ } event + u.appTokens event ≤ 1
      rw [hAppTokens]
      have hOwed := @owed_media s event _ _ hCode hPlaced hEvent
        { u with media := ⟨s.media.event, next⟩ } hQueue rfl
      rcases hOwed with hLess | ⟨hWipes, hEmpty, hNext⟩
      · change MessageQueue.count event u.mMediaEventHandler + _ ≤ _ at hLess
        omega
      · change u.mMediaEventHandler = [] at hEmpty
        have hCount : MessageQueue.count event u.mMediaEventHandler = 0 := by
          rw [hEmpty, MessageQueue.count_nil]
        have hNoApp := appTokens_eq_zero hEvent (hGuard.2 hWipes)
        omega
  | @mediaTest _ cond yes no hCode =>
      change MessageQueue.count event s.mMediaEventHandler +
        State.mediaTokens
          { s with media := ⟨s.media.event, if s.holds answer cond then yes else no⟩ } event +
        s.appTokens event ≤ 1
      have hOwed := @owed_mediaTest s event _ _ _ answer hCode hPlaced hEvent
        { s with media := ⟨s.media.event, if s.holds answer cond then yes else no⟩ } rfl
      rcases hOwed with hLess | ⟨hChain, hAnswered, hNext⟩
      · omega
      · have hQuiet := hGuard.1 hChain hAnswered event hEvent
        unfold State.tokens at hQuiet
        omega

theorem tokensLeOne_step {act : Act} (hPlaced : Placed s) (h : TokensLeOne s)
    (hGuard : ChainGuard s act) (hStep : step s act = some t) : TokensLeOne t := by
  cases act with
  | app number answer => exact tokensLeOne_app hPlaced h hGuard hStep
  | media answer => exact tokensLeOne_media hPlaced h hGuard hStep
  | call number request =>
      intro event hEvent
      have hOne := h event hEvent
      unfold State.tokens at hOne
      cases moves_of_step hStep with
      | @call _ thread _ hThread hIdle =>
          have hSum := appTokens_set hThread request.program thread.seek event
          rw [owes_program request event hEvent] at hSum
          change MessageQueue.count event s.mMediaEventHandler + s.mediaTokens event +
            ((s.apps.set number ⟨request.program, thread.seek⟩).map
              fun thread => owes event thread.code).sum ≤ 1
          omega
  | dispatch =>
      intro event hEvent
      have hOne := h event hEvent
      unfold State.tokens at hOne
      cases moves_of_step hStep with
      | @dispatch message rest hIdle hQueue hDue =>
          rw [hQueue, MessageQueue.count_cons] at hOne
          have hNew : State.mediaTokens { s with
              mMediaEventHandler := rest
              media := ⟨message.what, handleMessage message.what⟩ } event ≤
              if message.what = event then 1 else 0 := by
            unfold State.mediaTokens State.beingHandled
            rw [owes_handleMessage message.what event hEvent]
            simp only [Nat.max_zero]
            split_ifs with hBusy hSame <;> simp_all
          change MessageQueue.count event rest + State.mediaTokens _ event + s.appTokens event ≤ 1
          omega
  | deliver =>
      cases moves_of_step hStep with
      | deliver hFree hQueue => exact h
  | handle =>
      cases moves_of_step hStep with
      | handle hTaken => exact h
  | tick millis =>
      cases moves_of_step hStep with
      | tick millis => exact h

end

theorem tokensLeOne_initial (threads : Nat) : TokensLeOne (initial threads) := by
  intro event hEvent
  have hApps : (initial threads).appTokens event = 0 := by
    simp [State.appTokens, initial, owes]
  unfold State.tokens
  rw [hApps]
  simp [State.mediaTokens, State.beingHandled, initial, Code.isDone, owes]

/-- At most one message of each self-posting kind is pending or being handled, in every
run in which `play_l` is not entered on top of a chain that is still alive. -/
theorem run_oneChain {threads : Nat} {acts : List Act} {s : State}
    (hRun : Run step ChainGuard (initial threads) acts s) : OneChain s := by
  have hTokens : TokensLeOne s :=
    hRun.invariant_of (fun _ _ hRun => run_placed hRun) (tokensLeOne_initial threads)
      fun _ _ _ hPlaced h hGuard hStep => tokensLeOne_step hPlaced h hGuard hStep
  intro event hEvent
  have hOne := hTokens event hEvent
  unfold State.tokens State.mediaTokens at hOne
  unfold State.alive
  omega

/-- Playing from a prepared player keeps to the guard. -/
theorem exists_playing_oneChain :
    ∃ s, Run step ChainGuard (initial 1)
        (preparation ++ callOn .start 9 ++ handleNext 3 ++ handleNext 5) s ∧
      OneChain s ∧ s.alive .readSample = 1 := by
  obtain ⟨s, hRun, hAlive⟩ := Run.exists_of_execGuarded (fun s => s.alive .readSample = 1)
    (show (execGuarded step ChainGuard (initial 1)
      (preparation ++ callOn .start 9 ++ handleNext 3 ++ handleNext 5)).any _ = true by decide +kernel)
  exact ⟨s, hRun, run_oneChain hRun, hAlive⟩

/-- A seek handled before the first `start` has already begun the chains, which `start`
then begins again. -/
theorem exists_two_chains :
    ∃ s, Run step unguarded (initial 1)
        (preparation ++ callOn (.seekTo 5) 4 ++ handleNext 12 ++ callOn .start 7) s ∧
      ¬ OneChain s :=
  Run.exists_of_exec (fun s => ¬ OneChain s)
    (show (exec step (initial 1)
      (preparation ++ callOn (.seekTo 5) 4 ++ handleNext 12 ++ callOn .start 7)).any _ = true by
        decide +kernel)

end Meet.NuMediaPlayer
