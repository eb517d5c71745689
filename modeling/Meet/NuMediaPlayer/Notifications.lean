import Meet.Common.Alternates
import Meet.NuMediaPlayer.History

/-! The messages that the player posts to `mEventHandler` reach the listeners exactly as
long as `removeAllEvents` finds none of them in the queue. -/
namespace Meet.NuMediaPlayer

/-- The messages that must not be lost: all but the updates of the buffered percentage. -/
def Media.isKept (message : Media) : Bool := message ≠ .bufferingUpdate

def Media.isBufferingInfo (message : Media) : Bool :=
  message = .infoBufferingStart || message = .infoBufferingEnd

namespace History

/-- What was posted has been handled or is still in the queue. -/
def Kept (h : History) : Prop :=
  h.posted.filter Media.isKept =
    (h.player.received ++ h.player.mEventHandler).filter Media.isKept

/-- No message is lost, and the listener is told of starts and ends of buffering in turn. -/
structure Delivered (h : History) : Prop where
  kept : h.Kept
  alternate : Alternates .infoBufferingStart .infoBufferingEnd
    (h.player.received.filter Media.isBufferingInfo)

/-- The queue of the listeners is emptied only of updates of the buffered percentage. -/
def EmptiesUpdates (h : History) (act : Act) : Prop :=
  h.player.operation act = some .removeAllNotifications →
    ∀ message ∈ h.player.mEventHandler, message = .bufferingUpdate

instance (h : History) (act : Act) : Decidable (h.EmptiesUpdates act) :=
  inferInstanceAs (Decidable (_ → _))

end History

/-! ### The queue of the listeners -/

namespace State

def notificationsAfter (s : State) : Op → List Media
  | .notify message => s.mEventHandler ++ [message]
  | .removeAllNotifications => []
  | _ => s.mEventHandler

def bufferingAfter (s : State) : Op → Bool
  | .setBufferingStatus status => status
  | _ => s.mIsBuffering

end State

theorem perform_notifications {s t : State} {thread : Thread} {seek : Nat} {operation : Op}
    (hPerform : perform s thread seek operation = some t) :
    t.mEventHandler = s.notificationsAfter operation ∧ t.received = s.received ∧
      t.mIsBuffering = s.bufferingAfter operation := by
  cases operation with
  | lock =>
      simp only [perform, Option.ite_none_right_eq_some, Option.some.injEq] at hPerform
      rw [← hPerform.2]
      exact ⟨rfl, rfl, rfl⟩
  | lockWhenStopped =>
      simp only [perform, Option.ite_none_right_eq_some, Option.some.injEq] at hPerform
      rw [← hPerform.2]
      exact ⟨rfl, rfl, rfl⟩
  | _ =>
      cases hPerform
      exact ⟨rfl, rfl, rfl⟩

/-- What an action does to the notifications: it performs an operation, it delivers one, or
it leaves them alone. -/
inductive Notifies (s : State) (act : Act) (t : State) : Prop where
  | performs (operation : Op) (hOperation : s.operation act = some operation)
      (hQueue : t.mEventHandler = s.notificationsAfter operation) (hReceived : t.received = s.received)
  | delivers (message : Media) (hOperation : s.operation act = none)
      (hQueue : s.mEventHandler = message :: t.mEventHandler)
      (hReceived : t.received = s.received ++ [message])
  | leaves (hOperation : s.operation act = none) (hQueue : t.mEventHandler = s.mEventHandler)
      (hReceived : t.received = s.received)

theorem notifies_of_step {s t : State} {act : Act} (hStep : step s act = some t) :
    Notifies s act t := by
  cases moves_of_step hStep with
  | call request hThread hIdle => exact .leaves rfl rfl rfl
  | appOp hThread hCode hPerform =>
      obtain ⟨hQueue, hReceived, -⟩ := perform_notifications hPerform
      exact .performs _ (State.operation_app hThread hCode _) hQueue hReceived
  | appTest hThread hCode =>
      exact .leaves (by simp [State.operation, hThread, hCode, headOperation]) rfl rfl
  | dispatch hIdle hQueue hDue => exact .leaves rfl rfl rfl
  | mediaOp hCode hPerform =>
      obtain ⟨hQueue, hReceived, -⟩ := perform_notifications hPerform
      exact .performs _ (State.operation_media hCode _) hQueue hReceived
  | mediaTest hCode => exact .leaves (by simp [State.operation, hCode, headOperation]) rfl rfl
  | deliver hFree hQueue => exact .delivers _ rfl hQueue rfl
  | handle hTaken => exact .leaves rfl rfl rfl
  | tick millis => exact .leaves rfl rfl rfl

namespace History

variable {h after : History} {act : Act}

/-- The messages that an operation posts. -/
def postedBy : Option Op → List Media
  | some (.notify message) => [message]
  | _ => []

@[simp]
theorem record_posted (h : History) (player : State) (operation : Option Op) :
    (h.record player operation).posted = h.posted ++ postedBy operation := by
  unfold record
  split <;> simp [postedBy]

/-- A step that empties nothing but updates loses no message. -/
theorem kept_step (hKept : h.Kept) (hGuard : h.EmptiesUpdates act)
    (hStep : h.step act = some after) : after.Kept := by
  obtain ⟨player, hPlayer, rfl⟩ := Option.map_eq_some_iff.mp hStep
  unfold Kept at hKept ⊢
  simp only [record_posted, record_player]
  cases notifies_of_step hPlayer with
  | delivers message hOperation hQueue hReceived =>
      rw [hQueue] at hKept
      simp only [hOperation, postedBy, List.append_nil, hKept, hReceived, List.append_assoc,
        List.singleton_append]
  | leaves hOperation hQueue hReceived =>
      simp only [hOperation, postedBy, List.append_nil, hQueue, hReceived, hKept]
  | performs operation hOperation hQueue hReceived =>
      rw [hOperation, hQueue, hReceived]
      cases operation with
      | notify message =>
          simp only [postedBy, State.notificationsAfter, List.filter_append, hKept,
            List.append_assoc]
      | removeAllNotifications =>
          have hNone : h.player.mEventHandler.filter Media.isKept = [] := by
            apply List.filter_eq_nil_iff.mpr
            intro message hMem
            simp [hGuard hOperation message hMem, Media.isKept]
          simp only [postedBy, State.notificationsAfter, List.append_nil, hKept,
            List.filter_append, hNone]
      | _ =>
          simp only [postedBy, State.notificationsAfter, List.append_nil]
          exact hKept

/-- A message that is removed from the queue is lost. -/
theorem not_kept_step (hKept : h.Kept) (hGuard : ¬ h.EmptiesUpdates act)
    (hStep : h.step act = some after) : ¬ after.Kept := by
  obtain ⟨player, hPlayer, rfl⟩ := Option.map_eq_some_iff.mp hStep
  unfold EmptiesUpdates at hGuard
  push Not at hGuard
  obtain ⟨hOperation, message, hMem, hNe⟩ := hGuard
  cases notifies_of_step hPlayer with
  | delivers _ hOther => simp [hOperation] at hOther
  | leaves hOther => simp [hOperation] at hOther
  | performs operation hOther hQueue hReceived =>
      obtain rfl : .removeAllNotifications = operation := by simpa [hOperation] using hOther
      intro hAfter
      unfold Kept at hKept hAfter
      simp only [record_posted, record_player, hOperation, postedBy, List.append_nil, hQueue,
        hReceived, State.notificationsAfter, hKept, List.filter_append] at hAfter
      have hLost : message ∈ h.player.mEventHandler.filter Media.isKept := by
        simp [hMem, hNe, Media.isKept]
      simp_all

end History

/-! ### Starts and ends of buffering -/

/-- The code is about to store the flag. -/
def headStatus : Program → Option Bool
  | .op (.setBufferingStatus status) _ => some status
  | _ => none

/-- The code is about to post the given information. -/
def isTelling (message : Media) (code : Program) : Bool :=
  headOperation code = some (.notify message)

def plainHead (code : Program) : Bool :=
  headStatus code = none && !isTelling .infoBufferingStart code && !isTelling .infoBufferingEnd code

/-- The information that comes next. -/
def infoAfter (told : Bool) : Media := if told then .infoBufferingEnd else .infoBufferingStart

/-- Code behind a test that found the given flag. -/
def fitsFlag (flag : Bool) (code : Program) : Bool :=
  plainHead code || headStatus code = some flag || isTelling (infoAfter flag) code

/-- In a handler, the flag is stored right behind the information, and both only behind a
test of the flag. -/
def tellsInTurn : Program → Bool
  | .done => true
  | .op (.notify .infoBufferingStart) next => headStatus next = some true
  | .op (.notify .infoBufferingEnd) next => headStatus next = some false
  | .op _ next => plainHead next
  | .test .isBuffering yes no => fitsFlag true yes && fitsFlag false no
  | .test _ yes no => plainHead yes && plainHead no

theorem tellsInTurn_handleMessage (event : Event) :
    (handleMessage event).parts.all tellsInTurn = true ∧ plainHead (handleMessage event) = true := by
  cases event <;> decide +kernel

/-- No call posts a message to the listeners or stores the flag. -/
def isSilent : Program → Bool
  | .op (.notify _) _ => false
  | .op (.setBufferingStatus _) _ => false
  | _ => true

theorem isSilent_program (request : Request) : request.program.parts.all isSilent = true := by
  cases request <;> rfl

/-- What the listener has been told of last, with the flag that is about to be stored. -/
def State.told (s : State) : Bool := (headStatus s.media.code).getD s.mIsBuffering

/-- The information posted so far is in turn, and the next one fits the flag. -/
structure InTurn (posted : List Media) (s : State) : Prop where
  alternate : Alternates .infoBufferingStart .infoBufferingEnd
    (posted.filter Media.isBufferingInfo)
  next : turn .infoBufferingStart .infoBufferingEnd (posted.filter Media.isBufferingInfo) =
    infoAfter s.told
  start : isTelling .infoBufferingStart s.media.code = true → s.mIsBuffering = false
  stop : isTelling .infoBufferingEnd s.media.code = true → s.mIsBuffering = true

theorem inTurn_initial (threads : Nat) : InTurn [] (initial threads) where
  alternate := trivial
  next := rfl
  start := fun _ => rfl
  stop := by simp [initial, isTelling, headOperation]

section
variable {posted : List Media} {s t : State}

theorem InTurn.move (h : InTurn posted s) (hTold : t.told = s.told)
    (hStart : isTelling .infoBufferingStart t.media.code = true → t.mIsBuffering = false)
    (hStop : isTelling .infoBufferingEnd t.media.code = true → t.mIsBuffering = true) :
    InTurn posted t :=
  ⟨h.alternate, hTold ▸ h.next, hStart, hStop⟩

theorem InTurn.same (h : InTurn posted s) (hMedia : t.media = s.media)
    (hFlag : t.mIsBuffering = s.mIsBuffering) : InTurn posted t := by
  refine h.move ?_ ?_ ?_
  · simp only [State.told, hMedia, hFlag]
  · simpa only [hMedia, hFlag] using h.start
  · simpa only [hMedia, hFlag] using h.stop

/-- The handler comes to code that neither stores the flag nor posts an information. -/
theorem InTurn.plain (h : InTurn posted s) (hTold : t.mIsBuffering = s.told)
    (hPlain : plainHead t.media.code = true) : InTurn posted t := by
  simp only [plainHead, Bool.and_eq_true, decide_eq_true_eq, Bool.not_eq_true'] at hPlain
  obtain ⟨⟨hStatus, hStart⟩, hStop⟩ := hPlain
  refine h.move ?_ (by simp [hStart]) (by simp [hStop])
  simpa [State.told, hStatus] using hTold

/-- Messages other than the information do not count. -/
theorem InTurn.post (h : InTurn posted s) {message : Media}
    (hOther : message.isBufferingInfo = false) : InTurn (posted ++ [message]) s := by
  have hSame : (posted ++ [message]).filter Media.isBufferingInfo =
      posted.filter Media.isBufferingInfo := by
    simp [hOther]
  exact ⟨hSame ▸ h.alternate, hSame ▸ h.next, h.start, h.stop⟩

/-- The information whose turn it is. -/
theorem InTurn.tell (h : InTurn posted s) (status : Bool) (hTold : s.told = !status)
    (hStatus : headStatus t.media.code = some status)
    (hStart : isTelling .infoBufferingStart t.media.code = false)
    (hStop : isTelling .infoBufferingEnd t.media.code = false) :
    InTurn (posted ++ [infoAfter (!status)]) t := by
  have hInfo : (posted ++ [infoAfter (!status)]).filter Media.isBufferingInfo =
      posted.filter Media.isBufferingInfo ++ [infoAfter (!status)] := by
    cases status <;> simp [infoAfter, Media.isBufferingInfo]
  have hTurn := h.next
  rw [hTold] at hTurn
  refine ⟨?_, ?_, by simp [hStart], by simp [hStop]⟩
  · rw [hInfo, ← hTurn]
    exact h.alternate.snoc
  · rw [hInfo]
    simp only [State.told, hStatus, Option.getD_some]
    cases status with
    | true => exact turn_first_snoc (by decide) hTurn
    | false => exact turn_second_snoc (by decide) hTurn

end

theorem headStatus_telling {code : Program} {status : Bool} (hStatus : headStatus code = some status)
    (message : Media) : isTelling message code = false := by
  cases code with
  | op operation next => cases operation <;> simp_all [headStatus, isTelling, headOperation]
  | _ => cases hStatus

theorem headStatus_of_telling {code : Program} {message : Media}
    (hTelling : isTelling message code = true) : headStatus code = none := by
  cases hStatus : headStatus code with
  | none => rfl
  | some status => simp [headStatus_telling hStatus] at hTelling

section
variable {posted : List Media} {s t : State}

/-- The handler comes to a store of the flag as it is, to the information that fits it, or
past both. -/
theorem InTurn.fits (h : InTurn posted s) (hTold : s.told = t.mIsBuffering)
    (hFits : fitsFlag t.mIsBuffering t.media.code = true) : InTurn posted t := by
  simp only [fitsFlag, Bool.or_eq_true, decide_eq_true_eq] at hFits
  rcases hFits with (hPlain | hStatus) | hTelling
  · exact h.plain hTold.symm hPlain
  · have hSame : t.told = s.told := by rw [hTold, State.told, hStatus, Option.getD_some]
    exact h.move hSame (by simp [headStatus_telling hStatus]) (by simp [headStatus_telling hStatus])
  · have hHead : headOperation t.media.code = some (.notify (infoAfter t.mIsBuffering)) :=
      of_decide_eq_true hTelling
    have hSame : t.told = s.told := by
      rw [hTold, State.told, headStatus_of_telling hTelling, Option.getD_none]
    refine h.move hSame ?_ ?_ <;> intro hOther <;>
      have hEqual := hHead.symm.trans (of_decide_eq_true hOther) <;>
      cases hFlag : t.mIsBuffering <;> simp_all [infoAfter]

theorem InTurn.branch (h : InTurn posted s) {cond : Cond} {yes no : Program}
    (hCode : s.media.code = .test cond yes no)
    (hForm : tellsInTurn (.test cond yes no) = true) (answer : Bool)
    (hBuffering : t.mIsBuffering = s.mIsBuffering)
    (hNext : t.media.code = if s.holds answer cond then yes else no) : InTurn posted t := by
  have hTold : s.told = t.mIsBuffering := by simp [State.told, hCode, headStatus, hBuffering]
  by_cases hCond : cond = .isBuffering
  · subst hCond
    obtain ⟨hYes, hNo⟩ := Bool.and_eq_true_iff.mp hForm
    refine h.fits hTold ?_
    rw [hNext]
    split
    · rename_i hFlag
      rw [hBuffering, show s.mIsBuffering = true from hFlag]
      exact hYes
    · rename_i hFlag
      rw [hBuffering, show s.mIsBuffering = false from Bool.eq_false_iff.mpr hFlag]
      exact hNo
  · have hPlain : plainHead yes = true ∧ plainHead no = true := by
      cases cond <;> simp_all [tellsInTurn]
    refine h.plain hTold.symm ?_
    rw [hNext]
    split
    · exact hPlain.1
    · exact hPlain.2

/-- One operation of a handler. -/
theorem InTurn.operation (h : InTurn posted s) {operation : Op} {next : Program}
    (hCode : s.media.code = .op operation next)
    (hForm : tellsInTurn (.op operation next) = true)
    (hBuffering : t.mIsBuffering = s.bufferingAfter operation) (hNext : t.media.code = next) :
    InTurn (posted ++ History.postedBy (some operation)) t := by
  by_cases hStart : operation = .notify .infoBufferingStart
  · subst hStart
    have hStatus : headStatus t.media.code = some true := hNext ▸ of_decide_eq_true hForm
    have hTold : s.told = false := by
      have hFlag := h.start (by simp [hCode, isTelling, headOperation])
      simp [State.told, hCode, headStatus, hFlag]
    exact h.tell true hTold hStatus (headStatus_telling hStatus _) (headStatus_telling hStatus _)
  · by_cases hStop : operation = .notify .infoBufferingEnd
    · subst hStop
      have hStatus : headStatus t.media.code = some false := hNext ▸ of_decide_eq_true hForm
      have hTold : s.told = true := by
        have hFlag := h.stop (by simp [hCode, isTelling, headOperation])
        simp [State.told, hCode, headStatus, hFlag]
      exact h.tell false hTold hStatus (headStatus_telling hStatus _) (headStatus_telling hStatus _)
    · have hPlain : plainHead t.media.code = true := by
        rw [hNext]
        cases operation with
        | notify message => cases message <;> simp_all [tellsInTurn]
        | _ => exact hForm
      have hTold : t.mIsBuffering = s.told := by
        rw [hBuffering, State.told, hCode]
        cases operation <;> rfl
      cases operation with
      | notify message =>
          refine (h.plain hTold hPlain).post ?_
          cases message <;> simp_all [Media.isBufferingInfo]
      | _ =>
          simp only [History.postedBy, List.append_nil]
          exact h.plain hTold hPlain

end

/-- One step of the player. -/
theorem inTurn_step {h after : History} {act : Act} (hPlaced : Placed h.player)
    (hTurn : InTurn h.posted h.player) (hStep : h.step act = some after) :
    InTurn after.posted after.player := by
  obtain ⟨player, hPlayer, rfl⟩ := Option.map_eq_some_iff.mp hStep
  simp only [History.record_posted, History.record_player]
  cases moves_of_step hPlayer with
  | call request hThread hIdle =>
      simp only [State.operation, History.postedBy, List.append_nil]
      exact hTurn.same rfl rfl
  | appOp hThread hCode hPerform =>
      rename_i number thread answer operation next t
      obtain ⟨request, hPart⟩ := hPlaced.apps _ (List.mem_of_getElem? hThread)
      have hSilent := List.all_eq_true.mp (isSilent_program request) _ hPart
      rw [hCode] at hSilent
      obtain ⟨-, hMedia, -⟩ := perform_frame hPerform
      obtain ⟨-, -, hBuffering⟩ := perform_notifications hPerform
      have hFlag : t.mIsBuffering = h.player.mIsBuffering := by
        rw [hBuffering]
        cases operation <;> first | rfl | cases hSilent
      have hNone : History.postedBy (h.player.operation (.app number answer)) = [] := by
        rw [State.operation_app hThread hCode]
        cases operation <;> first | rfl | cases hSilent
      rw [hNone, List.append_nil]
      exact hTurn.same hMedia hFlag
  | appTest hThread hCode =>
      simp only [State.operation, hThread, hCode, headOperation, Option.bind_some,
        History.postedBy, List.append_nil]
      exact hTurn.same rfl rfl
  | dispatch hIdle hQueue hDue =>
      have hTold : h.player.told = h.player.mIsBuffering := by simp [State.told, hIdle, headStatus]
      simp only [State.operation, History.postedBy, List.append_nil]
      exact hTurn.plain hTold.symm (tellsInTurn_handleMessage _).2
  | mediaOp hCode hPerform =>
      have hForm := List.all_eq_true.mp (tellsInTurn_handleMessage _).1 _ hPlaced.media
      obtain ⟨-, -, hBuffering⟩ := perform_notifications hPerform
      rw [hCode] at hForm
      rw [State.operation_media hCode]
      exact hTurn.operation hCode hForm hBuffering rfl
  | mediaTest hCode =>
      have hForm := List.all_eq_true.mp (tellsInTurn_handleMessage _).1 _ hPlaced.media
      rw [hCode] at hForm
      simp only [State.operation, hCode, headOperation, History.postedBy, List.append_nil]
      exact hTurn.branch hCode hForm _ rfl rfl
  | deliver hFree hQueue =>
      simp only [State.operation, History.postedBy, List.append_nil]
      exact hTurn.same rfl rfl
  | handle hTaken =>
      simp only [State.operation, History.postedBy, List.append_nil]
      exact hTurn.same rfl rfl
  | tick millis =>
      simp only [State.operation, History.postedBy, List.append_nil]
      exact hTurn.same rfl rfl

namespace History

variable {threads : Nat} {acts : List Act} {h : History} {guard : History → Act → Prop}

theorem run_inTurn (run : Run step guard (initial threads) acts h) : InTurn h.posted h.player := by
  induction run with
  | nil => exact inTurn_initial threads
  | snoc prior meets last ih => exact inTurn_step (run_placed (run_player prior)) ih last

/-- The information that has been handled is the first of what was posted. -/
theorem Kept.delivered (hKept : h.Kept) (hTurn : InTurn h.posted h.player) : h.Delivered := by
  refine ⟨hKept, ?_⟩
  have hInfos : ∀ messages : List Media, (messages.filter Media.isKept).filter
      Media.isBufferingInfo = messages.filter Media.isBufferingInfo := by
    intro messages
    rw [List.filter_filter]
    apply List.filter_congr
    intro message _
    cases message <;> rfl
  have hSame := congrArg (List.filter Media.isBufferingInfo) hKept
  rw [hInfos, hInfos, List.filter_append] at hSame
  have hAlternate := hTurn.alternate
  rw [hSame] at hAlternate
  exact hAlternate.append

theorem kept_of_run (run : Run step EmptiesUpdates (initial threads) acts h) : h.Kept := by
  refine run.invariant rfl ?_
  intro before act after hBefore hGuard hStep
  exact kept_step hBefore hGuard hStep

/-- The notifications are delivered in every state of a run exactly when `removeAllEvents`
never finds one of them in the queue. -/
theorem delivered_iff (run : Run step unguarded (initial threads) acts h) :
    (∀ first second middle, acts = first ++ second →
      Run step unguarded (initial threads) first middle → middle.Delivered) ↔
    Run step EmptiesUpdates (initial threads) acts h := by
  constructor
  · intro hDelivered
    induction run with
    | nil => exact .nil _
    | @snoc t u acts act prior meets last ih =>
        have hPrior := ih fun first second middle hActs hRun =>
          hDelivered first (second ++ [act]) middle (by simp [hActs]) hRun
        refine .snoc hPrior ?_ last
        by_contra hGuard
        refine not_kept_step (kept_of_run hPrior) hGuard last ?_
        exact (hDelivered (acts ++ [act]) [] u (by simp) (.snoc prior meets last)).kept
  · rintro hGuarded first second middle rfl hFirst
    obtain ⟨t, hBefore⟩ := hGuarded.first
    obtain rfl := hBefore.unique hFirst
    exact (kept_of_run hBefore).delivered (run_inTurn hFirst)

/-- The media thread takes a message and handles it, with every answer negative. -/
def refuseNext (steps : Nat) : List Act := .dispatch :: List.replicate steps (.media false)

/-- Playback runs out of data at once and goes on when there is some; the listener handles
each information before the next message. -/
def rebuffers : List Act :=
  preparation ++ callOn .start 9 ++ refuseNext 12 ++ [Act.deliver, Act.handle] ++ handleNext 12 ++
    [Act.deliver, Act.handle]

theorem delivered_iff_rebuffers : ∃ h, Run step unguarded (initial 1) rebuffers h ∧
    h.player.received = [.setVideoSize, .prepared, .infoBufferingStart, .infoBufferingEnd] ∧
    h.Delivered := by
  obtain ⟨h, hGuarded, hReceived⟩ := Run.exists_of_execGuarded
    (fun h : History => h.player.received =
      [.setVideoSize, .prepared, .infoBufferingStart, .infoBufferingEnd])
    (show (execGuarded step EmptiesUpdates (initial 1) rebuffers).any _ = true by decide +kernel)
  have run : Run step unguarded (initial 1) rebuffers h := hGuarded.mono fun _ _ _ => trivial
  exact ⟨h, run, hReceived, (delivered_iff run).mpr hGuarded _ [] h (by simp) run⟩

/-- The player is paused before the listener handles that buffering has started, and then
started again. -/
def pausedEarly : List Act :=
  preparation ++ callOn .start 9 ++ refuseNext 12 ++ callOn .pause 6 ++ callOn .start 9 ++
    handleNext 4 ++ refuseNext 5 ++ refuseNext 3 ++ refuseNext 4 ++ handleNext 12 ++ [Act.deliver]

/-- The listener is told of the end of buffering only. -/
theorem exists_not_delivered : ∃ h, Run step unguarded (initial 1) pausedEarly h ∧
    h.player.received = [.setVideoSize, .prepared, .infoBufferingEnd] ∧ ¬ h.Delivered := by
  obtain ⟨h, run, hReceived⟩ := Run.exists_of_exec
    (fun h : History => h.player.received = [.setVideoSize, .prepared, .infoBufferingEnd])
    (show (exec step (initial 1) pausedEarly).any _ = true by decide +kernel)
  refine ⟨h, run, hReceived, ?_⟩
  intro hDelivered
  have hAlternate := hDelivered.alternate
  rw [hReceived] at hAlternate
  revert hAlternate
  decide

end History

end Meet.NuMediaPlayer
