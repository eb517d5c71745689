import Meet.NuMediaPlayer.Handler

/-! A seek that `seekTo` of `NuMediaPlayer.java` has accepted reaches the extractor, or a
later one does in its place, as long as its message is not removed on the way. -/
namespace Meet.NuMediaPlayer

/-- `EVENT_SEEKTO` is pending or being handled. -/
def State.SeekPending (s : State) : Prop :=
  0 < MessageQueue.count .seekTo s.mMediaEventHandler ∨
    s.media.event = .seekTo ∧ s.media.code.isDone = false

/-- A seek whose call has returned, and which neither itself nor a later one has reached
the extractor, is pending or being handled. The extractor is always given the time of the
seek accepted last. -/
structure SeekKept (s : State) : Prop where
  kept : ∀ seek ∈ s.returned, (∀ call ∈ s.sought, call.accepted < seek) → s.SeekPending
  latest : ∀ call ∈ s.sought, 0 < call.accepted ∧
    s.accepted[call.accepted - 1]? = some call.timeUs

/-- The extractor is sought before the code ends. -/
def willSeek : Program → Bool
  | .done => false
  | .op .seekExtractor _ => true
  | .op _ next => willSeek next
  | .test _ yes no => willSeek yes && willSeek no

def wipes : Program → Bool
  | .op .removeAllMediaEvents _ => true
  | _ => false

/-- The media queue is emptied only while no seek is pending, or while the handler of one
is yet to seek the extractor. -/
def SeekGuard (s : State) : Act → Prop
  | .app number _ => (s.apps[number]?.any fun thread => wipes thread.code) = true →
      0 < MessageQueue.count .seekTo s.mMediaEventHandler → willSeek s.media.code = true
  | .media _ => wipes s.media.code = true →
      0 < MessageQueue.count .seekTo s.mMediaEventHandler → willSeek s.media.code = true
  | _ => True

instance (s : State) (act : Act) : Decidable (SeekGuard s act) :=
  match act with
  | .app _ _ => inferInstanceAs (Decidable (_ → _ → _))
  | .media _ => inferInstanceAs (Decidable (_ → _ → _))
  | .call _ _ | .dispatch | .deliver | .handle | .tick _ => .isTrue trivial

/-- The thread is at the last operation of `seekTo`. -/
def sendsSeek : Program → Bool
  | .op (.sendAtFront .seekTo) _ => true
  | _ => false

/-- The operation can change what is pending or known of a seek. -/
def Op.concernsSeek : Op → Bool
  | .setSeekingTimeUs _ | .seekExtractor | .removeAllMediaEvents => true
  | .send event _ | .sendAtFront event | .removeMessages event => event = .seekTo
  | _ => false

/-- In a call the message of a seek is sent right behind the store of its time, and
nothing else concerns seeks but emptying the queue. -/
def appSeeks : Program → Bool
  | .done => true
  | .op (.setSeekingTimeUs _) _ => true
  | .op (.sendAtFront .seekTo) next => !sendsSeek next
  | .op .removeAllMediaEvents next => !sendsSeek next
  | .op operation next => !operation.concernsSeek && !sendsSeek next
  | .test _ yes no => !sendsSeek yes && !sendsSeek no

/-- A handler neither accepts a seek nor sends the message of one, and only that of
`EVENT_SEEKTO` seeks the extractor. -/
def mediaSeeks (handled : Event) (part : Program) : Bool :=
  (!willSeek part || handled = .seekTo) &&
    match part with
    | .op .seekExtractor _ => true
    | .op .removeAllMediaEvents _ => true
    | .op operation _ => !operation.concernsSeek
    | .test _ yes no => willSeek yes = willSeek no
    | .done => true

theorem appSeeks_program (request : Request) :
    request.program.parts.all appSeeks = true ∧ sendsSeek request.program = false := by
  cases request <;> exact ⟨rfl, rfl⟩

theorem mediaSeeks_handleMessage (handled : Event) :
    (handleMessage handled).parts.all (mediaSeeks handled) = true := by
  cases handled <;> decide +kernel

theorem willSeek_branch {handled : Event} {cond : Cond} {yes no : Program} (taken : Bool)
    (hSeeks : mediaSeeks handled (.test cond yes no) = true) :
    willSeek (if taken then yes else no) = willSeek (.test cond yes no) := by
  unfold mediaSeeks at hSeeks
  rw [Bool.and_eq_true] at hSeeks
  have hSame : willSeek yes = willSeek no := of_decide_eq_true hSeeks.2
  cases taken <;> simp [willSeek, hSame]

theorem willSeek_handleMessage (handled : Event) :
    willSeek (handleMessage handled) = decide (handled = .seekTo) := by
  cases handled <;> decide +kernel

theorem willSeek_next {operation : Op} {next : Program} (hNot : operation ≠ .seekExtractor) :
    willSeek (.op operation next) = willSeek next := by
  cases operation with
  | seekExtractor => exact absurd rfl hNot
  | _ => rfl

theorem appSeeks_op {operation : Op} {next : Program} (hSeeks : appSeeks (.op operation next) = true) :
    (∃ timeUs, operation = .setSeekingTimeUs timeUs) ∨
      (operation = .sendAtFront .seekTo ∨ operation = .removeAllMediaEvents ∨
        operation.concernsSeek = false) ∧ sendsSeek next = false := by
  cases operation with
  | setSeekingTimeUs timeUs => exact Or.inl ⟨timeUs, rfl⟩
  | removeAllMediaEvents => exact Or.inr ⟨Or.inr (Or.inl rfl), by simpa [appSeeks] using hSeeks⟩
  | sendAtFront event =>
      right
      by_cases hEvent : event = .seekTo
      · subst hEvent
        exact ⟨Or.inl rfl, by simpa [appSeeks] using hSeeks⟩
      · refine ⟨Or.inr (Or.inr (decide_eq_false hEvent)), ?_⟩
        cases event <;> simp_all [appSeeks]
  | _ =>
      right
      simpa [appSeeks] using hSeeks

theorem mediaSeeks_op {handled : Event} {operation : Op} {next : Program}
    (hSeeks : mediaSeeks handled (.op operation next) = true) :
    operation = .seekExtractor ∨ operation = .removeAllMediaEvents ∨
      operation.concernsSeek = false := by
  unfold mediaSeeks at hSeeks
  rw [Bool.and_eq_true] at hSeeks
  cases operation with
  | seekExtractor => exact Or.inl rfl
  | removeAllMediaEvents => exact Or.inr (Or.inl rfl)
  | _ => exact Or.inr (Or.inr (by simpa using hSeeks.2))

section
variable {s t : State} {thread : Thread} {seek : Nat} {operation : Op}

/-- An operation that does not concern seeks leaves their proof data alone. -/
theorem perform_seeks (hPerform : perform s thread seek operation = some t)
    (hNot : operation.concernsSeek = false) :
    t.accepted = s.accepted ∧ t.mSeekingTimeUs = s.mSeekingTimeUs ∧
      t.returned = s.returned ∧ t.sought = s.sought := by
  cases operation with
  | setSeekingTimeUs timeUs => cases hNot
  | seekExtractor => cases hNot
  | removeAllMediaEvents => cases hNot
  | sendAtFront event =>
      cases hPerform
      exact ⟨rfl, rfl, if_neg (of_decide_eq_false hNot), rfl⟩
  | lock =>
      simp only [perform, Option.ite_none_right_eq_some, Option.some.injEq] at hPerform
      rw [← hPerform.2]
      exact ⟨rfl, rfl, rfl, rfl⟩
  | lockWhenStopped =>
      simp only [perform, Option.ite_none_right_eq_some, Option.some.injEq] at hPerform
      rw [← hPerform.2]
      exact ⟨rfl, rfl, rfl, rfl⟩
  | _ =>
      cases hPerform
      exact ⟨rfl, rfl, rfl, rfl⟩

theorem seek_count_eq (hNot : operation.concernsSeek = false) :
    MessageQueue.count .seekTo (s.queueAfter operation) =
      MessageQueue.count .seekTo s.mMediaEventHandler := by
  cases operation with
  | removeAllMediaEvents => cases hNot
  | removeMessages event =>
      have hOther : event ≠ .seekTo := of_decide_eq_false hNot
      simp only [State.queueAfter, MessageQueue.count, List.countP_filter]
      apply List.countP_congr
      intro message _
      simp only [decide_eq_true_eq, Bool.and_eq_true]
      exact ⟨fun h => h.1, fun h => ⟨h, h ▸ hOther.symm⟩⟩
  | send event delayMillis =>
      have hOther : event ≠ .seekTo := of_decide_eq_false hNot
      simp [State.queueAfter, MessageQueue.count_enqueue, hOther]
  | sendAtFront event =>
      have hOther : event ≠ .seekTo := of_decide_eq_false hNot
      simp [State.queueAfter, MessageQueue.count_enqueue, hOther]
  | _ => rfl

end

/-- A seek of the extractor is to come: its message is pending, or the handler has not
got to it yet. -/
def State.Ahead (s : State) : Prop :=
  0 < MessageQueue.count .seekTo s.mMediaEventHandler ∨ willSeek s.media.code = true

structure Remembered (s : State) : Prop where
  kept : ∀ seek ∈ s.returned, (∀ call ∈ s.sought, call.accepted < seek) → s.Ahead
  latest : ∀ call ∈ s.sought, 0 < call.accepted ∧
    s.accepted[call.accepted - 1]? = some call.timeUs
  current : ∀ timeUs ∈ s.accepted.getLast?, timeUs = s.mSeekingTimeUs
  begun : s.Ahead → s.accepted ≠ []
  returned : ∀ seek ∈ s.returned, seek ≤ s.accepted.length
  sending : ∀ thread ∈ s.apps, sendsSeek thread.code = true → s.accepted ≠ []
  seeks : ∀ thread ∈ s.apps, thread.seek ≤ s.accepted.length

theorem remembered_initial (threads : Nat) : Remembered (initial threads) := by
  constructor <;> simp [initial, State.Ahead, willSeek, sendsSeek]

section
variable {s t : State}

/-- Steps that keep what is ahead, and the proof data, keep the rest. -/
theorem Remembered.frame (h : Remembered s) (hAccepted : t.accepted = s.accepted)
    (hTime : t.mSeekingTimeUs = s.mSeekingTimeUs) (hReturned : t.returned = s.returned)
    (hSought : t.sought = s.sought) (hAhead : t.Ahead ↔ s.Ahead)
    (hSending : ∀ thread ∈ t.apps, sendsSeek thread.code = true → s.accepted ≠ [])
    (hSeeks : ∀ thread ∈ t.apps, thread.seek ≤ s.accepted.length) : Remembered t where
  kept := by
    rw [hReturned, hSought, hAhead]
    exact h.kept
  latest := by
    rw [hSought, hAccepted]
    exact h.latest
  current := by
    rw [hAccepted, hTime]
    exact h.current
  begun := by
    rw [hAhead, hAccepted]
    exact h.begun
  returned := by
    rw [hReturned, hAccepted]
    exact h.returned
  sending := by
    rw [hAccepted]
    exact hSending
  seeks := by
    rw [hAccepted]
    exact hSeeks

theorem Remembered.sending_set (h : Remembered s) {next : Program}
    (hNext : sendsSeek next = true → s.accepted ≠ []) (number seek : Nat) :
    ∀ thread ∈ s.apps.set number ⟨next, seek⟩, sendsSeek thread.code = true → s.accepted ≠ [] := by
  intro thread hThread hSends
  rcases List.mem_or_eq_of_mem_set hThread with hOld | rfl
  · exact h.sending thread hOld hSends
  · exact hNext hSends

theorem Remembered.seeks_set (h : Remembered s) {seek bound : Nat}
    (hBound : s.accepted.length ≤ bound) (hSeek : seek ≤ bound) (number : Nat) (next : Program) :
    ∀ thread ∈ s.apps.set number ⟨next, seek⟩, thread.seek ≤ bound := by
  intro thread hThread
  rcases List.mem_or_eq_of_mem_set hThread with hOld | rfl
  · exact Nat.le_trans (h.seeks thread hOld) hBound
  · exact hSeek

/-- A store of the seeking time accepts a seek. -/
theorem Remembered.accept (h : Remembered s) {number : Nat} {next : Program} {timeUs : Int}
    (hTime : t.mSeekingTimeUs = timeUs) (hAccepted : t.accepted = s.accepted ++ [timeUs])
    (hApps : t.apps = s.apps.set number ⟨next, s.accepted.length + 1⟩)
    (hReturned : t.returned = s.returned) (hSought : t.sought = s.sought)
    (hAhead : t.Ahead ↔ s.Ahead) : Remembered t := by
  have hSome : t.accepted ≠ [] := by simp [hAccepted]
  refine ⟨?_, ?_, ?_, fun _ => hSome, ?_, fun _ _ _ => hSome, ?_⟩
  · rw [hReturned, hSought, hAhead]
    exact h.kept
  · intro call hCall
    rw [hSought] at hCall
    obtain ⟨hPos, hGet⟩ := h.latest call hCall
    refine ⟨hPos, ?_⟩
    rw [hAccepted, List.getElem?_append_left (List.getElem?_eq_some_iff.mp hGet).1]
    exact hGet
  · simp [hAccepted, hTime]
  · intro seek hSeek
    rw [hReturned] at hSeek
    have hOld := h.returned seek hSeek
    simp only [hAccepted, List.length_append, List.length_singleton]
    omega
  · rw [hApps]
    exact h.seeks_set (by simp [hAccepted]) (by simp [hAccepted]) number next

/-- The message of a seek is sent, and its call returns. -/
theorem Remembered.send (h : Remembered s) {number seek : Nat} {next : Program}
    (hSome : s.accepted ≠ []) (hSeek : seek ≤ s.accepted.length) (hNext : sendsSeek next = false)
    (hTime : t.mSeekingTimeUs = s.mSeekingTimeUs) (hAccepted : t.accepted = s.accepted)
    (hApps : t.apps = s.apps.set number ⟨next, seek⟩)
    (hReturned : t.returned = s.returned ++ [seek]) (hSought : t.sought = s.sought)
    (hAhead : t.Ahead) : Remembered t := by
  refine ⟨fun _ _ _ => hAhead, ?_, ?_, fun _ => hAccepted ▸ hSome, ?_, ?_, ?_⟩
  · rw [hSought, hAccepted]
    exact h.latest
  · rw [hAccepted, hTime]
    exact h.current
  · intro other hOther
    rw [hReturned, List.mem_append, List.mem_singleton] at hOther
    rw [hAccepted]
    rcases hOther with hOld | rfl
    · exact h.returned other hOld
    · exact hSeek
  · rw [hApps, hAccepted]
    exact h.sending_set (by simp [hNext]) number seek
  · rw [hApps, hAccepted]
    exact h.seeks_set (Nat.le_refl _) hSeek number next

/-- The handler of a seek gives the extractor the time accepted last. -/
theorem Remembered.seek (h : Remembered s) (hWill : willSeek s.media.code = true)
    (hTime : t.mSeekingTimeUs = s.mSeekingTimeUs) (hAccepted : t.accepted = s.accepted)
    (hApps : t.apps = s.apps) (hReturned : t.returned = s.returned)
    (hSought : t.sought = s.sought ++ [⟨s.mSeekingTimeUs, s.accepted.length⟩]) : Remembered t := by
  have hSome := h.begun (Or.inr hWill)
  have hPos := List.length_pos_of_ne_nil hSome
  refine ⟨?_, ?_, ?_, fun _ => hAccepted ▸ hSome, ?_, fun _ _ _ => hAccepted ▸ hSome, ?_⟩
  · intro seek hSeek hBefore
    rw [hReturned] at hSeek
    have hLe := h.returned seek hSeek
    have hLt := hBefore ⟨s.mSeekingTimeUs, s.accepted.length⟩ (by simp [hSought])
    exact absurd hLt (Nat.not_lt.mpr hLe)
  · intro call hCall
    rw [hSought, List.mem_append, List.mem_singleton] at hCall
    rw [hAccepted]
    rcases hCall with hOld | rfl
    · exact h.latest call hOld
    · refine ⟨hPos, ?_⟩
      have hLast := List.getLast?_eq_some_getLast hSome
      rw [h.current _ hLast] at hLast
      rw [← List.getLast?_eq_getElem?]
      exact hLast
  · rw [hAccepted, hTime]
    exact h.current
  · rw [hReturned, hAccepted]
    exact h.returned
  · rw [hApps, hAccepted]
    exact h.seeks

/-- What is ahead depends on the messages of seeks and on the code of the handler. -/
theorem ahead_iff (hCount : MessageQueue.count .seekTo t.mMediaEventHandler =
      MessageQueue.count .seekTo s.mMediaEventHandler)
    (hCode : willSeek t.media.code = willSeek s.media.code) : t.Ahead ↔ s.Ahead := by
  unfold State.Ahead
  rw [hCount, hCode]

/-- Where the guard allows it, emptying the queue loses nothing that is ahead. -/
theorem ahead_of_wiped (hEmpty : t.mMediaEventHandler = [])
    (hCode : willSeek t.media.code = willSeek s.media.code)
    (hAllowed : 0 < MessageQueue.count .seekTo s.mMediaEventHandler → willSeek s.media.code = true) :
    t.Ahead ↔ s.Ahead := by
  unfold State.Ahead
  rw [hEmpty, hCode, MessageQueue.count_nil]
  constructor
  · rintro (hPos | hWill)
    · exact absurd hPos (Nat.lt_irrefl 0)
    · exact Or.inr hWill
  · rintro (hPos | hWill)
    · exact Or.inr (hAllowed hPos)
    · exact Or.inr hWill

theorem remembered_app {number : Nat} {answer : Bool} (hPlaced : Placed s) (h : Remembered s)
    (hGuard : SeekGuard s (.app number answer)) (hStep : step s (.app number answer) = some t) :
    Remembered t := by
  cases moves_of_step hStep with
  | @appTest _ thread _ cond yes no hThread hCode =>
      have hMem := List.mem_of_getElem? hThread
      obtain ⟨request, hPart⟩ := hPlaced.apps _ hMem
      rw [hCode] at hPart
      have hSeeks := List.all_eq_true.mp (appSeeks_program request).1 _ hPart
      simp only [appSeeks, Bool.and_eq_true, Bool.not_eq_true'] at hSeeks
      have hSeek : seekAfter s thread ≤ s.accepted.length := by
        simpa only [seekAfter, hCode] using h.seeks thread hMem
      refine h.frame rfl rfl rfl rfl Iff.rfl (h.sending_set ?_ _ _)
        (h.seeks_set (Nat.le_refl _) hSeek _ _)
      cases hTaken : s.holds answer cond <;> simp [hSeeks]
  | @appOp _ thread _ operation next u hThread hCode hPerform =>
      have hMem := List.mem_of_getElem? hThread
      obtain ⟨request, hPart⟩ := hPlaced.apps _ hMem
      rw [hCode] at hPart
      have hSeeks := List.all_eq_true.mp (appSeeks_program request).1 _ hPart
      obtain ⟨hQueue, hMedia, -⟩ := perform_frame hPerform
      have hWill : willSeek u.media.code = willSeek s.media.code := by rw [hMedia]
      rcases appSeeks_op hSeeks with ⟨timeUs, rfl⟩ | ⟨hKind, hNext⟩
      · cases hPerform
        have hSeek : seekAfter s thread = s.accepted.length + 1 := by simp only [seekAfter, hCode]
        exact h.accept rfl rfl (congrArg (fun n => s.apps.set number ⟨next, n⟩) hSeek) rfl rfl Iff.rfl
      · have hSeek : seekAfter s thread = thread.seek := by
          unfold seekAfter
          rw [hCode]
          rcases hKind with rfl | rfl | hNot
          · rfl
          · rfl
          · cases operation <;> first | rfl | cases hNot
        have hLe : seekAfter s thread ≤ s.accepted.length := hSeek ▸ h.seeks thread hMem
        have hSending := @Remembered.sending_set s h next (by simp [hNext]) number (seekAfter s thread)
        have hBound := h.seeks_set (Nat.le_refl _) hLe number next
        rcases hKind with rfl | rfl | hNot
        · have hSome := h.sending thread hMem (by rw [hCode]; rfl)
          cases hPerform
          refine h.send hSome (h.seeks thread hMem) hNext rfl rfl
            (congrArg (fun n => s.apps.set number ⟨next, n⟩) hSeek) rfl rfl (Or.inl ?_)
          simp [State.queueAfter, MessageQueue.count_enqueue]
        · cases hPerform
          refine h.frame rfl rfl rfl rfl (ahead_of_wiped rfl rfl ?_) hSending hBound
          exact hGuard (by simp [hThread, hCode, wipes])
        · obtain ⟨hAccepted, hTime, hReturned, hSought⟩ := perform_seeks hPerform hNot
          refine h.frame hAccepted hTime hReturned hSought (ahead_iff ?_ hWill) hSending hBound
          exact (congrArg _ hQueue).trans (seek_count_eq hNot)

theorem remembered_media {answer : Bool} (hPlaced : Placed s) (h : Remembered s)
    (hGuard : SeekGuard s (.media answer)) (hStep : step s (.media answer) = some t) :
    Remembered t := by
  have hPart := hPlaced.media
  cases moves_of_step hStep with
  | @mediaTest _ cond yes no hCode =>
      rw [hCode] at hPart
      have hSeeks := List.all_eq_true.mp (mediaSeeks_handleMessage s.media.event) _ hPart
      refine h.frame rfl rfl rfl rfl (ahead_iff rfl ?_) h.sending h.seeks
      rw [hCode]
      exact willSeek_branch _ hSeeks
  | @mediaOp _ operation next u hCode hPerform =>
      rw [hCode] at hPart
      have hSeeks := List.all_eq_true.mp (mediaSeeks_handleMessage s.media.event) _ hPart
      obtain ⟨hQueue, -, hApps⟩ := perform_frame hPerform
      rcases mediaSeeks_op hSeeks with rfl | rfl | hNot
      · cases hPerform
        exact h.seek (by rw [hCode]; rfl) rfl rfl rfl rfl rfl
      · cases hPerform
        refine h.frame rfl rfl rfl rfl (ahead_of_wiped rfl ?_ (hGuard ?_)) h.sending h.seeks
        · rw [hCode]
          rfl
        · rw [hCode]
          rfl
      · obtain ⟨hAccepted, hTime, hReturned, hSought⟩ := perform_seeks hPerform hNot
        have hSending : ∀ thread ∈ u.apps, sendsSeek thread.code = true → s.accepted ≠ [] := by
          rw [hApps]
          exact h.sending
        have hBound : ∀ thread ∈ u.apps, thread.seek ≤ s.accepted.length := by
          rw [hApps]
          exact h.seeks
        refine h.frame hAccepted hTime hReturned hSought (ahead_iff ?_ ?_) hSending hBound
        · exact (congrArg _ hQueue).trans (seek_count_eq hNot)
        · rw [hCode]
          refine (willSeek_next ?_).symm
          rintro rfl
          cases hNot

theorem remembered_step {act : Act} (hPlaced : Placed s) (h : Remembered s)
    (hGuard : SeekGuard s act) (hStep : step s act = some t) : Remembered t := by
  cases act with
  | app number answer => exact remembered_app hPlaced h hGuard hStep
  | media answer => exact remembered_media hPlaced h hGuard hStep
  | call number request =>
      cases moves_of_step hStep with
      | @call _ thread _ hThread hIdle =>
          have hLe := h.seeks thread (List.mem_of_getElem? hThread)
          refine h.frame rfl rfl rfl rfl Iff.rfl (h.sending_set ?_ _ _)
            (h.seeks_set (Nat.le_refl _) hLe _ _)
          simp [(appSeeks_program request).2]
  | dispatch =>
      cases moves_of_step hStep with
      | @dispatch message rest hIdle hQueue hDue =>
          refine h.frame rfl rfl rfl rfl ?_ h.sending h.seeks
          unfold State.Ahead
          rw [hIdle, hQueue, MessageQueue.count_cons]
          cases message with
          | mk what due =>
              cases what <;> simp [willSeek_handleMessage, willSeek]
  | deliver =>
      cases moves_of_step hStep with
      | deliver hFree hQueue => exact h.frame rfl rfl rfl rfl Iff.rfl h.sending h.seeks
  | handle =>
      cases moves_of_step hStep with
      | handle hTaken => exact h.frame rfl rfl rfl rfl Iff.rfl h.sending h.seeks
  | tick millis =>
      cases moves_of_step hStep with
      | tick millis => exact h.frame rfl rfl rfl rfl Iff.rfl h.sending h.seeks

theorem Remembered.seekKept (hPlaced : Placed s) (h : Remembered s) : SeekKept s where
  kept := by
    intro seek hSeek hBefore
    rcases h.kept seek hSeek hBefore with hPending | hWill
    · exact Or.inl hPending
    · have hSeeks := List.all_eq_true.mp (mediaSeeks_handleMessage s.media.event) _ hPlaced.media
      unfold mediaSeeks at hSeeks
      simp only [Bool.and_eq_true, hWill, Bool.not_true, Bool.false_or, decide_eq_true_eq] at hSeeks
      refine Or.inr ⟨hSeeks.1, ?_⟩
      cases hCode : s.media.code with
      | done => simp [hCode, willSeek] at hWill
      | op operation next => rfl
      | test cond yes no => rfl
  latest := h.latest

end

/-- No accepted seek is lost, in every run in which the media queue is not emptied on top
of a pending one. -/
theorem run_seekKept {threads : Nat} {acts : List Act} {s : State}
    (hRun : Run step SeekGuard (initial threads) acts s) : SeekKept s := by
  have hRemembered : Remembered s :=
    hRun.invariant_of (fun _ _ hRun => run_placed hRun) (remembered_initial threads)
      fun _ _ _ hPlaced h hGuard hStep => remembered_step hPlaced h hGuard hStep
  exact hRemembered.seekKept (run_placed hRun)

/-- A seek is accepted and handled. -/
theorem run_seekKept_handled :
    ∃ s, Run step SeekGuard (initial 1) (preparation ++ callOn (.seekTo 5) 4 ++ handleNext 5) s ∧
      (s.returned = [1] ∧ s.sought = [⟨5000, 1⟩]) ∧ SeekKept s := by
  obtain ⟨s, hRun, hState⟩ := Run.exists_of_execGuarded
    (fun s => s.returned = [1] ∧ s.sought = [⟨5000, 1⟩])
    (show (execGuarded step SeekGuard (initial 1)
      (preparation ++ callOn (.seekTo 5) 4 ++ handleNext 5)).any _ = true by decide +kernel)
  exact ⟨s, hRun, hState, run_seekKept hRun⟩

/-- `pause` removes the message of a seek whose call has returned; the player goes on
reporting the time sought as its position. -/
theorem exists_run_seekLost :
    ∃ s, Run step unguarded (initial 1)
        (preparation ++ callOn .start 9 ++ callOn (.seekTo 5) 4 ++ callOn .pause 6) s ∧
      s.mSeeking = true ∧ ¬ SeekKept s := by
  obtain ⟨s, hRun, hSeeking, hReturned, hSought, hCount, hIdle⟩ := Run.exists_of_exec
    (fun s => s.mSeeking = true ∧ s.returned = [1] ∧ s.sought = [] ∧
      MessageQueue.count .seekTo s.mMediaEventHandler = 0 ∧ s.media.code.isDone = true)
    (show (exec step (initial 1)
      (preparation ++ callOn .start 9 ++ callOn (.seekTo 5) 4 ++ callOn .pause 6)).any _ = true by
        decide +kernel)
  refine ⟨s, hRun, hSeeking, fun h => ?_⟩
  rcases h.kept 1 (by simp [hReturned]) (by simp [hSought]) with hPending | ⟨_, hRuns⟩
  · simp [hCount] at hPending
  · simp [hIdle] at hRuns

end Meet.NuMediaPlayer
