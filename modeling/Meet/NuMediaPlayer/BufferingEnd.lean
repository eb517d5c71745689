import Meet.NuMediaPlayer.Notifications
import Meet.NuPPMediaExtractor.Threads
import Meet.PPExtractor.Buffering

/-! The player of `NuMediaPlayer.java` over the extractor of `NuPPMediaExtractor.cpp`. The
check for the end of buffering goes by the times of the first and the last video frame in
the ring, and does not ask whether the stream has ended. -/
namespace Meet

namespace NuPPMediaExtractor

/-- The cached duration, with whether the stream has ended. -/
def Driven.getCachedDuration (n : Driven) : Int × Bool :=
  (if n.mImpl.isBuffering then -1 else n.mImpl.getCachedDurationUs, n.mImpl.reachedEndOfStream)

/-- No pre-roll is reported, there is a video frame in the ring, and the last one is not 40
milliseconds before the first. -/
def Driven.RunsAhead (n : Driven) : Prop :=
  n.mImpl.isBuffering = false ∧ ∃ video ∈ n.mImpl.group .video, ∃ first ∈ video.frames.head?,
    ∃ last ∈ video.frames.getLast?, first.kKeyTime < last.kKeyTime + 40000

theorem getCachedDurationUs_pos_iff (g : PPMediaBufferGroup) :
    0 < g.getCachedDurationUs ↔ ∃ first ∈ g.frames.head?, ∃ last ∈ g.frames.getLast?,
      first.kKeyTime < last.kKeyTime + 40000 := by
  unfold PPMediaBufferGroup.getCachedDurationUs
  cases hFirst : g.frames.head? with
  | none => simp
  | some first =>
      cases hLast : g.frames.getLast? with
      | none => simp
      | some last =>
          simp only [Option.mem_some_iff, exists_eq_left']
          omega

theorem getCachedDuration_pos_iff (n : Driven) : 0 < n.getCachedDuration.1 ↔ n.RunsAhead := by
  unfold Driven.getCachedDuration Driven.RunsAhead PPExtractor.State.getCachedDurationUs
  cases hBuffering : n.mImpl.isBuffering with
  | true => simp
  | false =>
      cases hVideo : n.mImpl.group .video with
      | none => simp
      | some video => simp [getCachedDurationUs_pos_iff]

end NuPPMediaExtractor

namespace NuMediaPlayer

open NuPPMediaExtractor (Driven)
open PPExtractor (Config)

/-- What the media thread asks next. -/
def State.asked (s : State) : Option Question :=
  match s.media.code with
  | .test (.ask question) _ _ => some question
  | _ => none

/-- The player with the extractor it has opened. `sent` is proof data: what the media thread
has sent since it took its message. -/
structure Playback where
  player : State
  extractor : Option Driven
  sent : List Event

namespace Playback

def initial (threads : Nat) : Playback := ⟨NuMediaPlayer.initial threads, none, []⟩

/-- An extractor can be opened once. The cached duration and the end of the stream are read
under the lock of the extractor; other answers are free. -/
def answers (p : Playback) (question : Question) (answer : Bool) : Bool :=
  match question with
  | .setDataSource => !answer || p.extractor.isNone
  | .cachedDuration => p.extractor.any fun n =>
      n.driver = .idle && answer = decide (0 < n.getCachedDuration.1)
  | .hasCachedReachedEndOfStream => p.extractor.any fun n =>
      n.driver = .idle && answer = n.getCachedDuration.2
  | _ => true

/-- An action of the player gets its answers from the extractor. -/
def admits (p : Playback) : Act → Bool
  | .media answer => p.player.asked.all fun question => p.answers question answer
  | _ => true

def extractorAfter (cfg : Config) (p : Playback) (act : Act) : Option Driven :=
  match act, p.player.asked with
  | .media true, some .setDataSource => some (.opened cfg)
  | _, _ =>
      match p.player.operation act with
      | some (.setExtractor _) => none
      | _ => p.extractor

def sentAfter (p : Playback) (act : Act) : List Event :=
  match act, p.player.operation act with
  | .dispatch, _ => []
  | .media _, some (.send event _) => p.sent ++ [event]
  | _, _ => p.sent

inductive Action where
  | player (act : Act)
  | extractor (act : NuPPMediaExtractor.Act)

/-- What the handlers do with the extractor besides the two questions are steps of its
own. -/
def step (cfg : Config) (p : Playback) : Action → Option Playback
  | .player act =>
      if p.admits act then
        (NuMediaPlayer.step p.player act).map fun player =>
          ⟨player, p.extractorAfter cfg act, p.sentAfter act⟩
      else none
  | .extractor act =>
      p.extractor.bind fun n => (n.step cfg act).map fun after => { p with extractor := some after }

end Playback

/-- The events that read and decode. -/
def resumedEvents : List Event := [.readSample, .decodeAudio, .decodeVideo]

namespace Playback

/-- Buffering has ended, and what was handled last has sent the events that read and
decode. -/
def Resumed (p : Playback) : Prop :=
  p.player.mIsBuffering = false ∧ ∀ event ∈ resumedEvents, event ∈ p.sent

/-- The media thread handles the check for the end of buffering, and is about to ask an open
extractor for the cached duration. -/
def Looks (p : Playback) : Prop :=
  p.player.media.event = .bufferingEndCheck ∧ p.player.asked = some .cachedDuration ∧
    ∃ n ∈ p.extractor, n.driver = .idle

instance (p : Playback) : Decidable p.Looks :=
  inferInstanceAs (Decidable (_ ∧ _ ∧ ∃ n ∈ p.extractor, n.driver = .idle))

/-- The media thread takes no other message. -/
def Handling (_ : Playback) (action : Action) : Prop := action ≠ .player .dispatch

/-- The media thread asks, and some time later has handled its message. -/
structure Completes (cfg : Config) (p : Playback) (answer : Bool) (actions : List Action)
    (after : Playback) : Prop where
  run : Run (step cfg) Handling p (.player (.media answer) :: actions) after
  idle : after.player.media.code = .done

/-- The check is handled to its end, and whenever it is, playback goes on. -/
def EndsBuffering (cfg : Config) (p : Playback) : Prop :=
  (∃ answer actions after, Completes cfg p answer actions after) ∧
    ∀ answer actions after, Completes cfg p answer actions after → after.Resumed

end Playback

/-! ### What the handler of the check does -/

def Op.sends (event : Event) : Op → Bool
  | .send sent _ => sent = event
  | _ => false

/-- Whatever is found, the code ends buffering and sends the events. -/
def resumes (code : Program) : Bool :=
  resumedEvents.all (fun event => code.mustOp (Op.sends event)) &&
    code.mustOp (· = .setBufferingStatus false) && !code.anyOp (· = .setBufferingStatus true)

/-- The code neither waits nor asks. -/
def runsFreely : Program → Bool
  | .done => true
  | .op operation next => operation ≠ .lock && operation ≠ .lockWhenStopped && runsFreely next
  | .test (.ask _) _ _ => false
  | .test _ yes no => runsFreely yes && runsFreely no

def asksLater : Program → Bool
  | .done => false
  | .op _ next => asksLater next
  | .test cond yes no => cond = .ask .cachedDuration || asksLater yes || asksLater no

/-- The check asks before it does anything, and goes by the answer. -/
def goesByAnswer : Program → Bool
  | .done => true
  | .op _ next => !asksLater next
  | .test (.ask .cachedDuration) yes no =>
      resumes yes && runsFreely yes && !no.anyOp (Op.sends .readSample) && runsFreely no
  | .test _ _ _ => true

theorem goesByAnswer_onBufferingEndCheckEvent :
    (handleMessage .bufferingEndCheck).parts.all goesByAnswer = true := by decide +kernel

theorem State.asked_eq_some {s : State} {question : Question} (hAsked : s.asked = some question) :
    ∃ yes no, s.media.code = .test (.ask question) yes no := by
  unfold State.asked at hAsked
  split at hAsked
  · rename_i asked yes no hCode
    obtain rfl := Option.some.inj hAsked
    exact ⟨yes, no, hCode⟩
  · cases hAsked

namespace Playback

variable {cfg : Config} {p q : Playback} {action : Action}

/-- The events that an operation of the media thread sends. -/
def sentBy : Op → List Event
  | .send event _ => [event]
  | _ => []

/-- What a step does to the media thread, to the flag and to what was sent. -/
inductive Progress (p : Playback) (action : Action) (q : Playback) : Prop where
  | others (hOther : ∀ answer, action ≠ .player (.media answer))
      (hMedia : q.player.media = p.player.media)
      (hFlag : q.player.mIsBuffering = p.player.mIsBuffering) (hSent : q.sent = p.sent)
  | takes (hAction : action = .player .dispatch) (hSent : q.sent = [])
  | performs (operation : Op) (next : Program) (hCode : p.player.media.code = .op operation next)
      (hMedia : q.player.media = ⟨p.player.media.event, next⟩)
      (hFlag : q.player.mIsBuffering = p.player.bufferingAfter operation)
      (hSent : q.sent = p.sent ++ sentBy operation)
  | branches (answer : Bool) (cond : Cond) (yes no : Program)
      (hAction : action = .player (.media answer)) (hAdmits : p.admits (.media answer) = true)
      (hCode : p.player.media.code = .test cond yes no)
      (hMedia : q.player.media =
        ⟨p.player.media.event, if p.player.holds answer cond then yes else no⟩)
      (hFlag : q.player.mIsBuffering = p.player.mIsBuffering) (hSent : q.sent = p.sent)

theorem isSilent_flag {s : State} {operation : Op} {next : Program}
    (hSilent : isSilent (.op operation next) = true) : s.bufferingAfter operation = s.mIsBuffering := by
  cases operation <;> first | rfl | cases hSilent

theorem progress_player (hPlaced : Placed p.player) {act : Act} {player : State}
    (hStep : NuMediaPlayer.step p.player act = some player) (hAdmits : p.admits act = true)
    (extractor : Option Driven) :
    Progress p (.player act) ⟨player, extractor, p.sentAfter act⟩ := by
  cases moves_of_step hStep with
  | call request hThread hIdle => exact .others (by simp) rfl rfl rfl
  | appOp hThread hCode hPerform =>
      obtain ⟨request, hPart⟩ := hPlaced.apps _ (List.mem_of_getElem? hThread)
      rw [hCode] at hPart
      have hSilent := List.all_eq_true.mp (isSilent_program request) _ hPart
      obtain ⟨-, -, hFlag⟩ := perform_notifications hPerform
      exact .others (by simp) (perform_frame hPerform).2.1 (hFlag.trans (isSilent_flag hSilent)) rfl
  | appTest hThread hCode => exact .others (by simp) rfl rfl rfl
  | dispatch hIdle hQueue hDue => exact .takes rfl rfl
  | mediaOp hCode hPerform =>
      obtain ⟨-, -, hFlag⟩ := perform_notifications hPerform
      refine .performs _ _ hCode rfl hFlag ?_
      rename_i answer operation next t
      simp only [sentAfter, State.operation_media hCode]
      cases operation <;> simp [sentBy]
  | mediaTest hCode =>
      refine .branches _ _ _ _ rfl hAdmits hCode rfl rfl ?_
      simp [sentAfter, State.operation, hCode, headOperation]
  | deliver hFree hQueue => exact .others (by simp) rfl rfl rfl
  | handle hTaken => exact .others (by simp) rfl rfl rfl
  | tick millis => exact .others (by simp) rfl rfl rfl

theorem progress_of_step (hPlaced : Placed p.player) (hStep : p.step cfg action = some q) :
    Progress p action q := by
  cases action with
  | player act =>
      simp only [step, Option.ite_none_right_eq_some] at hStep
      obtain ⟨hAdmits, hMapped⟩ := hStep
      obtain ⟨player, hPlayer, rfl⟩ := Option.map_eq_some_iff.mp hMapped
      exact progress_player hPlaced hPlayer hAdmits _
  | extractor act =>
      obtain ⟨n, hOpen, hMapped⟩ := Option.bind_eq_some_iff.mp hStep
      obtain ⟨after, hInner, rfl⟩ := Option.map_eq_some_iff.mp hMapped
      exact .others (by simp) rfl rfl rfl

theorem placed_step (hPlaced : Placed p.player) (hStep : p.step cfg action = some q) :
    Placed q.player := by
  cases action with
  | player act =>
      simp only [step, Option.ite_none_right_eq_some] at hStep
      obtain ⟨player, hPlayer, rfl⟩ := Option.map_eq_some_iff.mp hStep.2
      exact NuMediaPlayer.placed_step hPlaced hPlayer
  | extractor act =>
      obtain ⟨n, hOpen, hMapped⟩ := Option.bind_eq_some_iff.mp hStep
      obtain ⟨after, hInner, rfl⟩ := Option.map_eq_some_iff.mp hMapped
      exact hPlaced

/-- The check has sent nothing before it asks. -/
structure Unsent (p : Playback) : Prop where
  placed : Placed p.player
  sent : p.player.media.event = .bufferingEndCheck → asksLater p.player.media.code = true →
    p.sent = []

theorem unsent_step (hUnsent : p.Unsent) (hStep : p.step cfg action = some q) : q.Unsent := by
  refine ⟨placed_step hUnsent.placed hStep, ?_⟩
  intro hEvent hLater
  cases progress_of_step hUnsent.placed hStep with
  | others hOther hMedia hFlag hSent =>
      rw [hMedia] at hEvent hLater
      exact hSent.trans (hUnsent.sent hEvent hLater)
  | takes hAction hSent => exact hSent
  | performs operation next hCode hMedia hFlag hSent =>
      rw [hMedia] at hEvent hLater
      have hPart := hUnsent.placed.media
      rw [hCode, hEvent] at hPart
      have hForm := List.all_eq_true.mp goesByAnswer_onBufferingEndCheckEvent _ hPart
      simp [goesByAnswer, hLater] at hForm
  | branches answer cond yes no hAction hAdmits hCode hMedia hFlag hSent =>
      rw [hMedia] at hEvent hLater
      refine hSent.trans (hUnsent.sent hEvent ?_)
      rw [hCode, asksLater]
      dsimp only at hLater
      split at hLater <;> simp [hLater]

theorem run_unsent {guard : Playback → Action → Prop} {threads : Nat} {actions : List Action}
    (run : Run (step cfg) guard (initial threads) actions p) : p.Unsent := by
  refine run.invariant ⟨placed_initial threads, ?_⟩ ?_
  · intro hEvent
    cases hEvent
  · intro before action after hBefore _ hStep
    exact unsent_step hBefore hStep

/-! ### From the answer to the end of the handler -/

/-- What is not yet sent or stored is still to come. -/
structure Going (p : Playback) : Prop where
  placed : Placed p.player
  sends : ∀ event ∈ resumedEvents, event ∈ p.sent ∨
    p.player.media.code.mustOp (Op.sends event) = true
  clears : p.player.mIsBuffering = false ∨
    p.player.media.code.mustOp (· = .setBufferingStatus false) = true
  never : p.player.media.code.anyOp (· = .setBufferingStatus true) = false

theorem going_step (hGoing : p.Going) (hHandling : p.Handling action)
    (hStep : p.step cfg action = some q) : q.Going := by
  obtain ⟨hPlaced, hSends, hClears, hNever⟩ := hGoing
  have hPlacedAfter := placed_step hPlaced hStep
  cases progress_of_step hPlaced hStep with
  | others hOther hMedia hFlag hSent =>
      refine ⟨hPlacedAfter, ?_, ?_, ?_⟩
      · rwa [hMedia, hSent]
      · rwa [hMedia, hFlag]
      · rwa [hMedia]
  | takes hAction => exact absurd hAction hHandling
  | performs operation next hCode hMedia hFlag hSent =>
      rw [hCode] at hSends hClears hNever
      simp only [Code.mustOp, Code.anyOp, Bool.or_eq_true, Bool.or_eq_false_iff,
        decide_eq_true_eq, decide_eq_false_iff_not] at hSends hClears hNever
      refine ⟨hPlacedAfter, ?_, ?_, ?_⟩
      · intro event hEvent
        rw [hMedia, hSent]
        rcases hSends event hEvent with hOld | hHead | hNext
        · exact Or.inl (List.mem_append_left _ hOld)
        · left
          apply List.mem_append_right
          cases operation with
          | send sent delayMillis =>
              obtain rfl : sent = event := of_decide_eq_true hHead
              exact List.mem_singleton.mpr rfl
          | _ => cases hHead
        · exact Or.inr hNext
      · rw [hMedia, hFlag]
        rcases hClears with hOld | rfl | hNext
        · left
          cases operation with
          | setBufferingStatus status =>
              cases status with
              | false => rfl
              | true => exact absurd rfl hNever.1
          | _ => exact hOld
        · exact Or.inl rfl
        · exact Or.inr hNext
      · rw [hMedia]
        exact hNever.2
  | branches answer cond yes no hAction hAdmits hCode hMedia hFlag hSent =>
      rw [hCode] at hSends hClears hNever
      simp only [Code.mustOp, Code.anyOp, Bool.and_eq_true, Bool.or_eq_false_iff] at hSends hClears hNever
      refine ⟨hPlacedAfter, ?_, ?_, ?_⟩
      · intro event hEvent
        rw [hMedia, hSent]
        refine (hSends event hEvent).imp_right ?_
        rintro ⟨hYes, hNo⟩
        dsimp only
        split
        · exact hYes
        · exact hNo
      · rw [hMedia, hFlag]
        refine hClears.imp_right ?_
        rintro ⟨hYes, hNo⟩
        dsimp only
        split
        · exact hYes
        · exact hNo
      · rw [hMedia]
        dsimp only
        split
        · exact hNever.1
        · exact hNever.2

theorem Going.resumed (hGoing : p.Going) (hIdle : p.player.media.code = .done) : p.Resumed := by
  obtain ⟨-, hSends, hClears, -⟩ := hGoing
  rw [hIdle] at hSends hClears
  simpa [Code.mustOp, Resumed] using And.intro hClears hSends

/-- The read event was not sent, and is not going to be. -/
structure Waiting (p : Playback) : Prop where
  placed : Placed p.player
  sent : Event.readSample ∉ p.sent
  never : p.player.media.code.anyOp (Op.sends .readSample) = false

theorem waiting_step (hWaiting : p.Waiting) (hHandling : p.Handling action)
    (hStep : p.step cfg action = some q) : q.Waiting := by
  obtain ⟨hPlaced, hUnsent, hNever⟩ := hWaiting
  have hPlacedAfter := placed_step hPlaced hStep
  cases progress_of_step hPlaced hStep with
  | others hOther hMedia hFlag hSent =>
      refine ⟨hPlacedAfter, ?_, ?_⟩
      · rwa [hSent]
      · rwa [hMedia]
  | takes hAction => exact absurd hAction hHandling
  | performs operation next hCode hMedia hFlag hSent =>
      rw [hCode] at hNever
      obtain ⟨hHead, hNext⟩ := Bool.or_eq_false_iff.mp hNever
      refine ⟨hPlacedAfter, ?_, ?_⟩
      · rw [hSent]
        intro hMem
        rcases List.mem_append.mp hMem with hOld | hNew
        · exact hUnsent hOld
        · cases operation with
          | send sent delayMillis =>
              obtain rfl := List.mem_singleton.mp hNew
              cases hHead
          | _ => cases hNew
      · rw [hMedia]
        exact hNext
  | branches answer cond yes no hAction hAdmits hCode hMedia hFlag hSent =>
      rw [hCode] at hNever
      obtain ⟨hYes, hNo⟩ := Bool.or_eq_false_iff.mp hNever
      refine ⟨hPlacedAfter, ?_, ?_⟩
      · rwa [hSent]
      · rw [hMedia]
        dsimp only
        split
        · exact hYes
        · exact hNo

theorem perform_isSome (s : State) (thread : Thread) (seek : Nat) {operation : Op}
    (hLock : operation ≠ .lock) (hStopped : operation ≠ .lockWhenStopped) :
    ∃ t, perform s thread seek operation = some t := by
  cases operation with
  | lock => exact absurd rfl hLock
  | lockWhenStopped => exact absurd rfl hStopped
  | _ => exact ⟨_, rfl⟩

theorem step_of_player (cfg : Config) {act : Act} {player : State} (hAdmits : p.admits act = true)
    (hPlayer : NuMediaPlayer.step p.player act = some player) :
    p.step cfg (.player act) = some ⟨player, p.extractorAfter cfg act, p.sentAfter act⟩ := by
  simp only [step, hAdmits, hPlayer, if_true, Option.map_some]

theorem exists_step_op (cfg : Config) {operation : Op} {next : Program}
    (hCode : p.player.media.code = .op operation next)
    (hLock : operation ≠ .lock) (hStopped : operation ≠ .lockWhenStopped) :
    ∃ q, p.step cfg (.player (.media true)) = some q ∧ q.player.media.code = next := by
  obtain ⟨t, hPerform⟩ := perform_isSome p.player .media 0 hLock hStopped
  have hPlayer : NuMediaPlayer.step p.player (.media true) =
      some { t with media := ⟨p.player.media.event, next⟩ } := by
    simp [NuMediaPlayer.step, runCode, hCode, hPerform]
  have hAdmits : p.admits (.media true) = true := by simp [admits, State.asked, hCode]
  exact ⟨_, step_of_player cfg hAdmits hPlayer, rfl⟩

theorem exists_step_test (cfg : Config) {cond : Cond} {yes no : Program}
    (hCode : p.player.media.code = .test cond yes no) {answer : Bool}
    (hAdmits : p.admits (.media answer) = true) :
    ∃ q, p.step cfg (.player (.media answer)) = some q ∧
      q.player.media.code = if p.player.holds answer cond then yes else no := by
  have hPlayer : NuMediaPlayer.step p.player (.media answer) = some { p.player with
      media := ⟨p.player.media.event, if p.player.holds answer cond then yes else no⟩ } := by
    simp only [NuMediaPlayer.step, runCode, hCode, Option.map_some]
  exact ⟨_, step_of_player cfg hAdmits hPlayer, rfl⟩

theorem handling_media (p : Playback) (answer : Bool) :
    p.Handling (.player (.media answer)) := by
  simp [Handling]

/-- Code that neither waits nor asks is run to its end. -/
theorem exists_idle (cfg : Config) {code : Program} (hCode : p.player.media.code = code)
    (hFree : runsFreely code = true) :
    ∃ actions after, Run (step cfg) Handling p actions after ∧ after.player.media.code = .done := by
  induction code generalizing p with
  | done => exact ⟨[], p, .nil p, hCode⟩
  | op operation next ih =>
      simp only [runsFreely, Bool.and_eq_true, decide_eq_true_eq] at hFree
      obtain ⟨⟨hLock, hStopped⟩, hNext⟩ := hFree
      obtain ⟨q, hStep, hBehind⟩ := exists_step_op cfg hCode hLock hStopped
      obtain ⟨actions, after, hRun, hIdle⟩ := ih hBehind hNext
      exact ⟨_, after, .cons (handling_media p true) hStep hRun, hIdle⟩
  | test cond yes no ihYes ihNo =>
      have hAsks : p.player.asked = none ∧ runsFreely yes = true ∧ runsFreely no = true := by
        cases cond with
        | ask question => cases hFree
        | _ => exact ⟨by simp [State.asked, hCode], Bool.and_eq_true_iff.mp hFree⟩
      obtain ⟨hNone, hYes, hNo⟩ := hAsks
      have hAdmits : p.admits (.media true) = true := by simp [admits, hNone]
      obtain ⟨q, hStep, hBehind⟩ := exists_step_test cfg hCode hAdmits
      have hRest : ∃ actions after, Run (step cfg) Handling q actions after ∧
          after.player.media.code = .done := by
        split at hBehind
        · exact ihYes hBehind hYes
        · exact ihNo hBehind hNo
      obtain ⟨actions, after, hRun, hIdle⟩ := hRest
      exact ⟨_, after, .cons (handling_media p true) hStep hRun, hIdle⟩

/-- The code behind the question, on either answer. -/
theorem Looks.code (hLooks : p.Looks) (hPlaced : Placed p.player) :
    ∃ yes no, p.player.media.code = .test (.ask .cachedDuration) yes no ∧ resumes yes = true ∧
      runsFreely yes = true ∧ no.anyOp (Op.sends .readSample) = false ∧ runsFreely no = true := by
  obtain ⟨hEvent, hAsked, -⟩ := hLooks
  obtain ⟨yes, no, hCode⟩ := State.asked_eq_some hAsked
  have hPart := hPlaced.media
  rw [hEvent, hCode] at hPart
  have hForm := List.all_eq_true.mp goesByAnswer_onBufferingEndCheckEvent _ hPart
  simp only [goesByAnswer, Bool.and_eq_true, Bool.not_eq_true'] at hForm
  obtain ⟨⟨⟨hResumes, hYes⟩, hNever⟩, hNo⟩ := hForm
  exact ⟨yes, no, hCode, hResumes, hYes, hNever, hNo⟩

variable {n : Driven}

/-- The answer is what the ring says. -/
theorem Looks.answer (hLooks : p.Looks) (hOpen : p.extractor = some n) {answer : Bool}
    (hAdmits : p.admits (.media answer) = true) : answer = true ↔ n.RunsAhead := by
  obtain ⟨-, hAsked, -⟩ := hLooks
  simp only [admits, hAsked, Option.all_some, answers, hOpen, Option.any_some, Bool.and_eq_true,
    decide_eq_true_eq] at hAdmits
  rw [hAdmits.2, decide_eq_true_eq, NuPPMediaExtractor.getCachedDuration_pos_iff]

/-- The check is handled to its end. -/
theorem Looks.completes (hLooks : p.Looks) (hPlaced : Placed p.player) (cfg : Config) :
    ∃ answer actions after, Completes cfg p answer actions after := by
  obtain ⟨yes, no, hCode, -, hYes, -, hNo⟩ := hLooks.code hPlaced
  obtain ⟨hEvent, hAsked, n, hOpen, hIdle⟩ := hLooks
  have hAdmits : p.admits (.media (decide (0 < n.getCachedDuration.1))) = true := by
    rw [Option.mem_def] at hOpen
    simp [admits, hAsked, answers, hOpen, hIdle]
  obtain ⟨q, hStep, hBehind⟩ := exists_step_test cfg hCode hAdmits
  have hFree : runsFreely q.player.media.code = true := by
    rw [hBehind]
    split
    · exact hYes
    · exact hNo
  obtain ⟨actions, after, hRun, hDone⟩ := exists_idle cfg rfl hFree
  exact ⟨_, actions, after, ⟨.cons (handling_media p _) hStep hRun, hDone⟩⟩

/-- The handler goes where the answer sends it, and ends with or without the events. -/
theorem Completes.resumed_iff {answer : Bool} {actions : List Action} {after : Playback}
    (hCompletes : Completes cfg p answer actions after) (hLooks : p.Looks) (hUnsent : p.Unsent)
    (hOpen : p.extractor = some n) : after.Resumed ↔ n.RunsAhead := by
  obtain ⟨yes, no, hCode, hResumes, -, hNever, -⟩ := hLooks.code hUnsent.placed
  obtain ⟨q, -, hAsk, hRun⟩ := hCompletes.run.uncons
  have hPlaced := placed_step hUnsent.placed hAsk
  have hNone : p.sent = [] := by
    refine hUnsent.sent hLooks.1 ?_
    simp [hCode, asksLater]
  cases progress_of_step hUnsent.placed hAsk with
  | others hOther => exact absurd rfl (hOther answer)
  | takes hAction => cases hAction
  | performs operation next hOther => simp [hCode] at hOther
  | branches answer' cond yes' no' hAction hAdmits hSame hMedia hFlag hSent =>
      cases hAction
      cases hCode.symm.trans hSame
      rw [← hLooks.answer hOpen hAdmits]
      cases answer with
      | true =>
          simp only [resumes, Bool.and_eq_true, List.all_eq_true, Bool.not_eq_true'] at hResumes
          obtain ⟨⟨hSends, hClears⟩, hKept⟩ := hResumes
          have hGoing : q.Going := by
            refine ⟨hPlaced, ?_, ?_, ?_⟩
            · rw [hMedia]
              exact fun event hEvent => Or.inr (hSends event hEvent)
            · rw [hMedia]
              exact Or.inr hClears
            · rw [hMedia]
              exact hKept
          have hAfter : after.Going := hRun.invariant hGoing fun _ _ _ => going_step
          exact iff_of_true (hAfter.resumed hCompletes.idle) rfl
      | false =>
          have hWaiting : q.Waiting := by
            refine ⟨hPlaced, ?_, ?_⟩
            · simp [hSent, hNone]
            · rw [hMedia]
              exact hNever
          have hAfter : after.Waiting := hRun.invariant hWaiting fun _ _ _ => waiting_step
          refine iff_of_false ?_ Bool.false_ne_true
          intro hResumed
          exact hAfter.sent (hResumed.2 .readSample (by decide))

variable {threads : Nat} {actions : List Action}

/-- Handling the check ends buffering exactly when no pre-roll is reported and the last video
frame in the ring is not 40 milliseconds before the first, whether or not the stream has
ended. -/
theorem endsBuffering_iff (run : Run (step cfg) unguarded (initial threads) actions p)
    (hLooks : p.Looks) (hOpen : p.extractor = some n) : p.EndsBuffering cfg ↔ n.RunsAhead := by
  have hUnsent := run_unsent run
  obtain ⟨answer, actions, after, hCompletes⟩ := hLooks.completes hUnsent.placed cfg
  constructor
  · intro hEnds
    have hResumed := hEnds.2 answer actions after hCompletes
    exact (hCompletes.resumed_iff hLooks hUnsent hOpen).mp hResumed
  · intro hAhead
    refine ⟨⟨answer, actions, after, hCompletes⟩, ?_⟩
    intro answer actions after hOther
    exact (hOther.resumed_iff hLooks hUnsent hOpen).mpr hAhead

/-- Playback starts before anything is in the ring, and buffers. -/
def rebuffering : List Action :=
  (preparation ++ callOn .start 9 ++ History.refuseNext 12).map .player

/-- The check for the end of buffering is taken and finds the player online. -/
def lookAgain : List Action := [.player .dispatch, .player (.media true)]

/-- A key frame comes and the stream ends. -/
def lastFrame : List Action :=
  (List.replicate 3 NuPPMediaExtractor.Act.producer ++
    [NuPPMediaExtractor.Act.readSample (.sample PPExtractor.keyFrame) 2] ++
    List.replicate 7 NuPPMediaExtractor.Act.producer ++
    [NuPPMediaExtractor.Act.readSample .streamEnd 0] ++
    List.replicate 3 NuPPMediaExtractor.Act.producer).map .extractor

theorem endsBuffering_iff_lastFrame :
    ∃ p, Run (step PPExtractor.twoTracks) unguarded (initial 1)
      (rebuffering ++ lastFrame ++ lookAgain) p ∧ p.Looks ∧
      p.EndsBuffering PPExtractor.twoTracks := by
  obtain ⟨p, run, hLooks, hAny⟩ := Run.exists_of_exec
    (fun p : Playback => p.Looks ∧ p.extractor.any (0 < ·.getCachedDuration.1) = true)
    (show (exec (step PPExtractor.twoTracks) (initial 1)
      (rebuffering ++ lastFrame ++ lookAgain)).any _ = true by decide +kernel)
  obtain ⟨n, hOpen, hPositive⟩ := (Option.any_eq_true _ _).mp hAny
  have hAhead := (NuPPMediaExtractor.getCachedDuration_pos_iff n).mp (of_decide_eq_true hPositive)
  exact ⟨p, run, hLooks, (endsBuffering_iff run hLooks hOpen).mpr hAhead⟩

/-- The stream ends and nothing has come. -/
def noFrame : List Action :=
  (List.replicate 3 NuPPMediaExtractor.Act.producer ++
    [NuPPMediaExtractor.Act.readSample .streamEnd 0] ++
    List.replicate 3 NuPPMediaExtractor.Act.producer).map .extractor

/-- The duration is not positive, and the check is posted again. -/
def checkAgain : List Action :=
  [.player (.media false), .player (.media true), .player (.media true)]

/-- The check is pending on a started player that buffers, and the stream has ended. -/
def PendingAtEnd (p : Playback) : Prop :=
  p.player.mIsOnline = true ∧ p.player.mIsBuffering = true ∧ p.player.mState = .started ∧
    p.player.mMediaEventHandler.head?.any (·.what = .bufferingEndCheck) = true ∧
    p.extractor.any (·.getCachedDuration.2) = true

instance (p : Playback) : Decidable p.PendingAtEnd :=
  inferInstanceAs (Decidable (_ ∧ _ ∧ _ ∧ _ ∧ _))

/-- The check finds a duration of zero and buffering goes on. -/
theorem exists_not_endsBuffering :
    ∃ p q, Run (step PPExtractor.twoTracks) unguarded (initial 1) (rebuffering ++ noFrame) p ∧
      p.PendingAtEnd ∧ Run (step PPExtractor.twoTracks) unguarded p lookAgain q ∧ q.Looks ∧
      ¬ q.EndsBuffering PPExtractor.twoTracks := by
  obtain ⟨p, run, hPending, hLook⟩ := Run.exists_of_exec
    (fun p : Playback => p.PendingAtEnd ∧
      (exec (step PPExtractor.twoTracks) p lookAgain).any (fun q => decide (q.Looks ∧
        (exec (step PPExtractor.twoTracks) q checkAgain).any (fun after => decide (
          after.player.media.code = .done ∧ after.player.mIsBuffering = true)) = true)) = true)
    (show (exec (step PPExtractor.twoTracks) (initial 1) (rebuffering ++ noFrame)).any _ = true by
      decide +kernel)
  obtain ⟨q, look, hLooks, hCheck⟩ := Run.exists_of_exec _ hLook
  obtain ⟨after, check, hIdle, hStill⟩ := Run.exists_of_exec _ hCheck
  refine ⟨p, q, run, hPending, look, hLooks, ?_⟩
  intro hEnds
  have hHandled : Run (step PPExtractor.twoTracks) Handling q checkAgain after := by
    refine check.strengthen ?_
    intro _ action hMem
    simp only [checkAgain, List.mem_cons, List.not_mem_nil, or_false] at hMem
    rcases hMem with rfl | rfl | rfl <;> exact handling_media _ _
  have hCleared := (hEnds.2 _ _ _ ⟨hHandled, hIdle⟩).1
  simp [hStill] at hCleared

end Playback

end NuMediaPlayer
end Meet
