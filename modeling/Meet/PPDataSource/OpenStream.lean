import Meet.Common.Run

/-! The handshake of `openStream`, `closeStream` and `open_call_back` in
`ppDataSource.cpp`. It goes through statics of the process that none of the three
writes under the lock, so every access to one of them is a step of its own. -/
namespace Meet.PPDataSource

def ppboxSuccess : Int := 0

def ppboxNotOpen : Int := 3

/-- `mState` of the data source. -/
inductive Connection where
  | disconnected
  | connecting
  | connected
deriving DecidableEq, Repr

/-- Where the caller of `openStream` stands. The flag of the first three says whether
there is a URL, that of `loopTest` and `resultTest` whether time is left. -/
inductive OpenerPc where
  | idle
  | resetFinish (hasUrl : Bool)
  | resetClosing (hasUrl : Bool)
  | resetRet (hasUrl : Bool)
  | asyncOpen
  | loopTest (timeLeft : Bool)
  | waiting
  | resultTest (timeLeft : Bool)
  | connect
  | close
  | returned (ok : Bool)
deriving DecidableEq, Repr

/-- Where the caller of `closeStream` stands. The player calls it under its own lock,
so there is one at a time. -/
inductive CloserPc where
  | idle
  | stateTest
  | close
  | setState
deriving DecidableEq, Repr

/-- `asyncOpen` has been issued and `openStream` has not returned. -/
def OpenerPc.inFlight : OpenerPc → Bool
  | .loopTest _ | .waiting | .resultTest _ | .connect | .close => true
  | _ => false

/-- The result has not yet been tested. -/
def OpenerPc.undecided : OpenerPc → Bool
  | .loopTest _ | .waiting | .resultTest _ => true
  | _ => false

/-- The statics, one data source and the engine. Opens are numbered; `pending` are
those whose callback has not been invoked, and `finishing` counts callbacks between
their two stores. The last three fields are proof data about the current open: the
engine has been closed since, its own callback has reported success, and `closeStream`
has been called while it was in flight. -/
structure State where
  mClosing : Bool
  gRet : Int
  gFinish : Bool
  mState : Connection
  opener : OpenerPc
  closer : CloserPc
  opens : Nat
  pending : List Nat
  finishing : Nat
  engineClosed : Bool
  reported : Bool
  cancelled : Bool
deriving DecidableEq, Repr

def initial : State where
  mClosing := false
  gRet := 0
  gFinish := false
  mState := .connecting
  opener := .idle
  closer := .idle
  opens := 0
  pending := []
  finishing := 0
  engineClosed := true
  reported := false
  cancelled := false

/-- The steps of `openStream` after its call. A wait ends by the signal or after its
time; `timeLeft` is what the clock says then. -/
def openerStep (s : State) (timeLeft : Bool) : Option State :=
  match s.opener with
  | .idle | .returned _ => none
  | .resetFinish hasUrl => some { s with gFinish := false, opener := .resetClosing hasUrl }
  | .resetClosing hasUrl => some { s with mClosing := false, opener := .resetRet hasUrl }
  | .resetRet hasUrl =>
      some { s with
        gRet := ppboxNotOpen
        opener := if hasUrl then .asyncOpen else .returned false }
  | .asyncOpen =>
      some { s with
        opens := s.opens + 1
        pending := s.pending ++ [s.opens + 1]
        engineClosed := false
        reported := false
        opener := .loopTest true }
  | .loopTest left =>
      some { s with opener := if !s.gFinish && left then .waiting else .resultTest left }
  | .waiting =>
      some { s with opener := if s.mClosing then .resultTest true else .loopTest timeLeft }
  | .resultTest _ =>
      some { s with opener := if s.gRet = ppboxSuccess then .connect else .close }
  | .connect => some { s with mState := .connected, opener := .returned true }
  | .close => some { s with engineClosed := true, opener := .returned false }

/-- The steps of `closeStream` after `mClosing` has been set. -/
def closerStep (s : State) : Option State :=
  match s.closer with
  | .idle => none
  | .stateTest =>
      some { s with closer := if s.mState = .connected then .close else .idle }
  | .close => some { s with engineClosed := true, closer := .setState }
  | .setState => some { s with mState := .connecting, closer := .idle }

inductive Act where
  | construct
  | openStream (hasUrl : Bool)
  | opener (timeLeft : Bool)
  | closeStream
  | closer
  | callback (number : Nat) (ec : Int)
  | callbackFinish
deriving DecidableEq, Repr

/-- The steps of all parties. The engine invokes the callback of an open at most once,
and at any time after it. -/
def step (s : State) : Act → Option State
  | .construct =>
      match s.opener, s.closer with
      | .idle, .idle | .returned _, .idle => some { s with mState := .connecting, opener := .idle }
      | _, _ => none
  | .openStream hasUrl =>
      match s.opener with
      | .idle | .returned _ => some { s with opener := .resetFinish hasUrl, cancelled := false }
      | _ => none
  | .opener timeLeft => openerStep s timeLeft
  | .closeStream =>
      match s.closer with
      | .idle => some { s with
          mClosing := true
          closer := .stateTest
          cancelled := s.cancelled || s.opener.inFlight }
      | _ => none
  | .closer => closerStep s
  | .callback number ec =>
      if number ∈ s.pending then
        some { s with
          gRet := ec
          pending := s.pending.erase number
          finishing := s.finishing + 1
          reported := s.reported || (number = s.opens && ec = ppboxSuccess) }
      else none
  | .callbackFinish =>
      if 0 < s.finishing then some { s with gFinish := true, finishing := s.finishing - 1 } else none

/-- A call of `closeStream` while an open is in flight makes it fail, and leaves the
engine closed; and an open succeeds only by its own callback. -/
structure CancelTakesEffect (s : State) : Prop where
  cancel : ∀ ok, s.opener = .returned ok → s.cancelled = true →
    ok = false ∧ (s.closer = .idle → s.engineClosed = true)
  own : s.opener = .returned true → s.reported = true

/-- No cancellation comes after the success has been reported, and no success after
the cancellation or from another open. -/
def HandshakeGuard (s : State) : Act → Prop
  | .closeStream => s.opener ≠ .connect ∧ (s.opener.undecided = true → s.gRet ≠ ppboxSuccess)
  | .callback number ec => ec = ppboxSuccess → s.opener ≠ .asyncOpen ∧
      (s.opener.undecided = true → number = s.opens ∧ s.cancelled = false)
  | _ => True

instance (s : State) (act : Act) : Decidable (HandshakeGuard s act) :=
  match act with
  | .closeStream => inferInstanceAs (Decidable (_ ∧ _))
  | .callback _ _ => inferInstanceAs (Decidable (_ → _ ∧ _))
  | .construct | .openStream _ | .opener _ | .closer | .callbackFinish => .isTrue trivial

/-- The result in `gRet` is that of the current open, and it stands. -/
structure Honest (s : State) : Prop where
  fresh : s.opener = .asyncOpen → s.gRet ≠ ppboxSuccess
  undecided : s.opener.undecided = true → s.gRet = ppboxSuccess →
    s.reported = true ∧ s.cancelled = false
  decided : s.opener = .connect ∨ s.opener = .returned true →
    s.reported = true ∧ s.cancelled = false
  failed : s.opener = .returned false → s.cancelled = true → s.engineClosed = true
  early : (∃ hasUrl, s.opener = .resetFinish hasUrl ∨ s.opener = .resetClosing hasUrl ∨
    s.opener = .resetRet hasUrl) ∨ s.opener = .asyncOpen → s.cancelled = false

theorem honest_initial : Honest initial := by
  constructor <;> simp [initial, OpenerPc.undecided]

theorem Honest.cancelTakesEffect {s : State} (h : Honest s) : CancelTakesEffect s := by
  refine ⟨fun ok hReturned hCancelled => ?_, fun hReturned => (h.decided (Or.inr hReturned)).1⟩
  cases ok with
  | false => exact ⟨rfl, fun _ => h.failed hReturned hCancelled⟩
  | true =>
      have hStands := (h.decided (Or.inr hReturned)).2
      simp [hCancelled] at hStands

section Steps

variable {s s' : State}

theorem honest_opener {timeLeft : Bool} (h : Honest s) (hStep : openerStep s timeLeft = some s') :
    Honest s' := by
  unfold openerStep at hStep
  cases hPc : s.opener with
  | idle | returned => simp [hPc] at hStep
  | resetFinish hasUrl | resetClosing hasUrl =>
      have hEarly := h.early (by simp [hPc])
      simp only [hPc] at hStep
      obtain rfl := Option.some.inj hStep
      constructor <;> simp [OpenerPc.undecided, hEarly]
  | resetRet hasUrl =>
      have hEarly := h.early (by simp [hPc])
      simp only [hPc] at hStep
      obtain rfl := Option.some.inj hStep
      cases hasUrl <;> constructor <;>
        simp [OpenerPc.undecided, hEarly, ppboxNotOpen, ppboxSuccess]
  | asyncOpen =>
      have hFresh := h.fresh hPc
      simp only [hPc] at hStep
      obtain rfl := Option.some.inj hStep
      constructor <;> simp [OpenerPc.undecided, hFresh]
  | loopTest left =>
      have hUndecided := h.undecided (by simp [hPc, OpenerPc.undecided])
      simp only [hPc] at hStep
      obtain rfl := Option.some.inj hStep
      split_ifs <;> constructor <;> simp [OpenerPc.undecided] <;> exact hUndecided
  | waiting =>
      have hUndecided := h.undecided (by simp [hPc, OpenerPc.undecided])
      simp only [hPc] at hStep
      obtain rfl := Option.some.inj hStep
      split_ifs <;> constructor <;> simp [OpenerPc.undecided] <;> exact hUndecided
  | resultTest left =>
      have hUndecided := h.undecided (by simp [hPc, OpenerPc.undecided])
      simp only [hPc] at hStep
      obtain rfl := Option.some.inj hStep
      split_ifs with hSuccess
      · constructor <;> simp [OpenerPc.undecided]
        exact hUndecided hSuccess
      · constructor <;> simp [OpenerPc.undecided]
  | connect =>
      have hDecided := h.decided (Or.inl hPc)
      simp only [hPc] at hStep
      obtain rfl := Option.some.inj hStep
      constructor <;> simp [OpenerPc.undecided, hDecided]
  | close =>
      simp only [hPc] at hStep
      obtain rfl := Option.some.inj hStep
      constructor <;> simp [OpenerPc.undecided]

/-- Steps that touch neither the opener nor what is known of its open. -/
theorem Honest.apart (h : Honest s) (hPc : s'.opener = s.opener) (hRet : s'.gRet = s.gRet)
    (hReported : s'.reported = s.reported) (hCancelled : s'.cancelled = s.cancelled)
    (hClosed : s.engineClosed = true → s'.engineClosed = true) : Honest s' := by
  refine ⟨?_, ?_, ?_, ?_, ?_⟩
  · rw [hPc, hRet]
    exact h.fresh
  · rw [hPc, hRet, hReported, hCancelled]
    exact h.undecided
  · rw [hPc, hReported, hCancelled]
    exact h.decided
  · rw [hPc, hCancelled]
    exact fun hFalse hTrue => hClosed (h.failed hFalse hTrue)
  · rw [hPc, hCancelled]
    exact h.early

theorem honest_closer (h : Honest s) (hStep : closerStep s = some s') : Honest s' := by
  unfold closerStep at hStep
  cases hPc : s.closer with
  | idle => simp [hPc] at hStep
  | stateTest | close | setState =>
      simp only [hPc] at hStep
      obtain rfl := Option.some.inj hStep
      exact h.apart rfl rfl rfl rfl (by simp)

theorem honest_closeStream (h : Honest s) (hGuard : HandshakeGuard s .closeStream) :
    Honest { s with
      mClosing := true
      closer := .stateTest
      cancelled := s.cancelled || s.opener.inFlight } := by
  obtain ⟨hConnect, hUndecided⟩ := hGuard
  have hOver : (∀ ok, s.opener = .returned ok → s.opener.inFlight = false) ∧
      (s.opener = .asyncOpen → s.opener.inFlight = false) ∧
      ∀ hasUrl, s.opener = .resetFinish hasUrl ∨ s.opener = .resetClosing hasUrl ∨
        s.opener = .resetRet hasUrl → s.opener.inFlight = false := by
    cases s.opener <;> simp [OpenerPc.inFlight]
  refine ⟨h.fresh, fun hOpen hSuccess => absurd hSuccess (hUndecided hOpen), ?_, ?_, ?_⟩
  · rintro (hPc | hPc)
    · exact absurd hPc hConnect
    · simpa [hOver.1 true hPc] using h.decided (Or.inr hPc)
  · intro hPc
    simpa [hOver.1 false hPc] using h.failed hPc
  · rintro (⟨hasUrl, hPc⟩ | hPc)
    · simpa [hOver.2.2 hasUrl hPc] using h.early (Or.inl ⟨hasUrl, hPc⟩)
    · simpa [hOver.2.1 hPc] using h.early (Or.inr hPc)

/-- A success is stored only as the current open's own, and before a cancellation. -/
theorem honest_callback {number : Nat} {ec : Int} (h : Honest s)
    (hGuard : HandshakeGuard s (.callback number ec)) :
    Honest { s with
      gRet := ec
      pending := s.pending.erase number
      finishing := s.finishing + 1
      reported := s.reported || (number = s.opens && ec = ppboxSuccess) } := by
  refine ⟨fun hPc hSuccess => (hGuard hSuccess).1 hPc, fun hOpen hSuccess => ?_, fun hPc => ?_,
    h.failed, h.early⟩
  · obtain ⟨rfl, hStands⟩ := (hGuard hSuccess).2 hOpen
    simp only at hSuccess
    simp [hSuccess, hStands]
  · obtain ⟨hReported, hStands⟩ := h.decided hPc
    simp [hReported, hStands]

theorem honest_step {act : Act} (h : Honest s) (hGuard : HandshakeGuard s act)
    (hStep : step s act = some s') : Honest s' := by
  cases act with
  | construct =>
      simp only [step] at hStep
      split at hStep
      case h_3 => simp at hStep
      all_goals
        obtain rfl := Option.some.inj hStep
        constructor <;> simp [OpenerPc.undecided]
  | openStream hasUrl =>
      simp only [step] at hStep
      split at hStep
      case h_3 => simp at hStep
      all_goals
        obtain rfl := Option.some.inj hStep
        constructor <;> simp [OpenerPc.undecided]
  | opener timeLeft => exact honest_opener h hStep
  | closeStream =>
      simp only [step] at hStep
      split at hStep
      case h_2 => simp at hStep
      case h_1 =>
        obtain rfl := Option.some.inj hStep
        exact honest_closeStream h hGuard
  | closer => exact honest_closer h hStep
  | callback number ec =>
      simp only [step] at hStep
      split_ifs at hStep
      obtain rfl := Option.some.inj hStep
      exact honest_callback h hGuard
  | callbackFinish =>
      simp only [step] at hStep
      split_ifs at hStep
      obtain rfl := Option.some.inj hStep
      exact h.apart rfl rfl rfl rfl id

end Steps

/-- In every run without a cancellation behind a success, and without a success behind
a cancellation or from an earlier open, a cancellation takes effect. -/
theorem run_cancelTakesEffect {acts : List Act} {s : State}
    (run : Run step HandshakeGuard initial acts s) : CancelTakesEffect s :=
  (run.invariant honest_initial fun _ _ _ h hGuard hStep =>
    honest_step h hGuard hStep).cancelTakesEffect

/-- `openStream` up to its loop. -/
def beginOpen : List Act := [Act.openStream true] ++ List.replicate 4 (Act.opener true)

/-- `closeStream` comes while `openStream` waits for its callback. -/
theorem run_cancelTakesEffect_waiting : ∃ s,
    Run step HandshakeGuard initial (beginOpen ++ [Act.opener true, Act.closeStream, Act.closer] ++
      List.replicate 3 (Act.opener true) ++ [Act.callback 1 ppboxSuccess]) s ∧
    (s.opener = .returned false ∧ s.cancelled = true ∧ s.engineClosed = true) ∧
    CancelTakesEffect s := by
  obtain ⟨s, run, hState⟩ := Run.exists_of_execGuarded
    (fun s => s.opener = .returned false ∧ s.cancelled = true ∧ s.engineClosed = true)
    (show (execGuarded step HandshakeGuard initial (beginOpen ++ [Act.opener true, Act.closeStream,
      Act.closer] ++ List.replicate 3 (Act.opener true) ++ [Act.callback 1 ppboxSuccess])).any _ =
        true by decide)
  exact ⟨s, run, hState, run_cancelTakesEffect run⟩

/-- `closeStream` comes between the callback and the test of its result. -/
def cancelBehindSuccess : List Act :=
  beginOpen ++ [Act.callback 1 ppboxSuccess, Act.callbackFinish, Act.closeStream, Act.closer] ++
    List.replicate 3 (Act.opener true)

/-- The first open times out and is closed; its callback comes during the second. -/
def lateCallback : List Act :=
  beginOpen ++ [Act.opener true, Act.opener false] ++ List.replicate 3 (Act.opener true) ++
    beginOpen ++ [Act.callback 1 ppboxSuccess, Act.callbackFinish] ++
    List.replicate 3 (Act.opener true)

/-- Both parts fail: an open that has been cancelled succeeds and leaves the engine
open, and an open succeeds by the callback of another. -/
theorem exists_run_cancelLost :
    (∃ s, Run step unguarded initial cancelBehindSuccess s ∧ ¬ CancelTakesEffect s) ∧
    ∃ s, Run step unguarded initial lateCallback s ∧ ¬ CancelTakesEffect s := by
  refine ⟨?_, ?_⟩
  · obtain ⟨s, run, hReturned, hCancelled, _⟩ := Run.exists_of_exec
      (fun s => s.opener = .returned true ∧ s.cancelled = true ∧ s.engineClosed = false)
      (show (exec step initial cancelBehindSuccess).any _ = true by decide)
    refine ⟨s, run, fun h => ?_⟩
    have hFailed := (h.cancel true hReturned hCancelled).1
    simp at hFailed
  · obtain ⟨s, run, hReturned, hReported⟩ := Run.exists_of_exec
      (fun s => s.opener = .returned true ∧ s.reported = false)
      (show (exec step initial lateCallback).any _ = true by decide)
    refine ⟨s, run, fun h => ?_⟩
    have hOwn := h.own hReturned
    simp [hReported] at hOwn

end Meet.PPDataSource
