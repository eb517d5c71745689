import Meet.Common.Run

/-! `seekTo` of `a14/AwesomePlayer.cpp` takes no lock. It stores the time, tests the flag
of the seeking event and posts the event in steps of their own, and so does
`onSeekingEvent` clear the flag and read the time. Any number of callers run beside the
queue thread. -/
namespace Meet.AwesomePlayer.SeekCoalesce

/-- Where a caller stands in `seekTo` and `postSeekingEvent_l`. -/
inductive Caller where
  | idle
  | entered (timeUs : Int)
  | accepted (timeUs : Int)
  | stored
  | unflagged
  | flagged
deriving DecidableEq, Repr

/-- Where the queue thread stands in `onSeekingEvent`. -/
inductive Handler where
  | idle
  | fired
  | taking
  | cleared
deriving DecidableEq, Repr

/-- A call of `seekTo_l` by `onSeekingEvent`, with the number of stores before it. -/
structure Sought where
  timeUs : Int
  stores : Nat
deriving DecidableEq, Repr

/-- `canSeek` are the two seek bits of `mExtractorFlags`, and `mQueue` is the number of
seeking events that are posted and have not fired. The last two fields are proof data: the
times stored in `mSeekingTimeUs`, and the calls of `seekTo_l`. -/
structure State where
  canSeek : Bool
  mSeekingTimeUs : Int
  mSeekingEventPending : Bool
  mQueue : Nat
  handler : Handler
  callers : List Caller
  stored : List Int
  sought : List Sought
deriving DecidableEq, Repr

/-- A seekable source, before any seek. -/
def initial (callers : Nat) : State where
  canSeek := true
  mSeekingTimeUs := 0
  mSeekingEventPending := false
  mQueue := 0
  handler := .idle
  callers := List.replicate callers .idle
  stored := []
  sought := []

inductive Act where
  | seekTo (number : Nat) (timeUs : Int)
  | caller (number : Nat)
  | fire
  | handle
deriving DecidableEq, Repr

/-- The next step of a caller, and where it stands then. -/
def callerStep (s : State) : Caller → Option (State × Caller)
  | .idle => none
  | .entered timeUs => some (s, if s.canSeek then .accepted timeUs else .idle)
  | .accepted timeUs =>
      some ({ s with mSeekingTimeUs := timeUs, stored := s.stored ++ [timeUs] }, .stored)
  | .stored => some (s, if s.mSeekingEventPending then .idle else .unflagged)
  | .unflagged => some ({ s with mSeekingEventPending := true }, .flagged)
  | .flagged => some ({ s with mQueue := s.mQueue + 1 }, .idle)

/-- The next step of `onSeekingEvent`. -/
def onSeekingEvent (s : State) : Handler → Option State
  | .idle => none
  | .fired => some { s with handler := if s.mSeekingEventPending then .taking else .idle }
  | .taking => some { s with mSeekingEventPending := false, handler := .cleared }
  | .cleared =>
      some { s with
        handler := .idle
        sought := s.sought ++ [⟨s.mSeekingTimeUs, s.stored.length⟩] }

def step (s : State) : Act → Option State
  | .seekTo number timeUs =>
      if s.callers[number]? = some .idle then
        some { s with callers := s.callers.set number (.entered timeUs) }
      else none
  | .caller number =>
      match s.callers[number]? with
      | some position =>
          (callerStep s position).map fun after =>
            { after.1 with callers := s.callers.set number after.2 }
      | none => none
  | .fire =>
      if s.handler = .idle ∧ 0 < s.mQueue then
        some { s with mQueue := s.mQueue - 1, handler := .fired }
      else none
  | .handle => onSeekingEvent s s.handler

/-- No call of `seekTo` is in progress, and no seeking event is posted or handled. -/
structure State.Quiet (s : State) : Prop where
  callers : ∀ position ∈ s.callers, position = .idle
  queue : s.mQueue = 0
  handler : s.handler = .idle

instance (s : State) : Decidable s.Quiet :=
  decidable_of_iff ((∀ position ∈ s.callers, position = .idle) ∧ s.mQueue = 0 ∧ s.handler = .idle)
    ⟨fun h => ⟨h.1, h.2.1, h.2.2⟩, fun h => ⟨h.callers, h.queue, h.handler⟩⟩

/-- The time stored last went to the last `seekTo_l`, which came after the store. -/
def State.Served (s : State) : Prop :=
  ∀ timeUs ∈ s.stored.getLast?, s.mSeekingTimeUs = timeUs ∧
    s.sought.getLast? = some ⟨timeUs, s.stored.length⟩

/-- Every store has been read, or something is left that will read the time: a caller that
has not tested the flag or set it, the flag, or the handler behind its clearing. -/
structure Inv (s : State) : Prop where
  current : ∀ timeUs ∈ s.stored.getLast?, s.mSeekingTimeUs = timeUs
  read : s.Served ∨ s.mSeekingEventPending = true ∨ s.handler = .cleared ∨
    ∃ position ∈ s.callers, position = .stored ∨ position = .unflagged
  posted : s.mSeekingEventPending = true →
    0 < s.mQueue ∨ s.handler = .fired ∨ s.handler = .taking ∨ .flagged ∈ s.callers

section
variable {s t : State} {number : Nat} {position next : Caller}

theorem inv_initial (callers : Nat) : Inv (initial callers) := by
  refine ⟨by simp [initial], Or.inl ?_, by simp [initial]⟩
  simp [State.Served, initial]

theorem mem_set_self (hPosition : s.callers[number]? = some position) :
    next ∈ s.callers.set number next := by
  obtain ⟨hNumber, -⟩ := List.getElem?_eq_some_iff.mp hPosition
  exact List.mem_set hNumber next

/-- A caller elsewhere stays where it is. -/
theorem mem_set_of_ne {other : Caller} (hPosition : s.callers[number]? = some position)
    (hOther : other ∈ s.callers) (hNe : other ≠ position) :
    other ∈ s.callers.set number next := by
  obtain ⟨place, hPlace⟩ := List.mem_iff_getElem?.mp hOther
  have hApart : number ≠ place := by
    rintro rfl
    rw [hPosition] at hPlace
    exact hNe (Option.some.inj hPlace).symm
  exact List.mem_iff_getElem?.mpr ⟨place, by rw [List.getElem?_set_ne hApart]; exact hPlace⟩

/-- A caller that moves on from a position where nothing hangs on it. -/
theorem Inv.move (h : Inv s) (hPosition : s.callers[number]? = some position)
    (hStored : position ≠ .stored) (hUnflagged : position ≠ .unflagged)
    (hFlagged : position ≠ .flagged) (next : Caller) :
    Inv { s with callers := s.callers.set number next } := by
  refine ⟨h.current, ?_, ?_⟩
  · rcases h.read with hServed | hPending | hCleared | ⟨other, hOther, hAt⟩
    · exact Or.inl hServed
    · exact Or.inr (Or.inl hPending)
    · exact Or.inr (Or.inr (Or.inl hCleared))
    · refine Or.inr (Or.inr (Or.inr ⟨other, mem_set_of_ne hPosition hOther ?_, hAt⟩))
      rcases hAt with rfl | rfl
      · exact hStored.symm
      · exact hUnflagged.symm
  · intro hPending
    rcases h.posted hPending with hQueue | hFired | hTaking | hOther
    · exact Or.inl hQueue
    · exact Or.inr (Or.inl hFired)
    · exact Or.inr (Or.inr (Or.inl hTaking))
    · exact Or.inr (Or.inr (Or.inr (mem_set_of_ne hPosition hOther hFlagged.symm)))

theorem Inv.store (h : Inv s) {timeUs : Int}
    (hPosition : s.callers[number]? = some (.accepted timeUs)) :
    Inv { s with
      mSeekingTimeUs := timeUs
      stored := s.stored ++ [timeUs]
      callers := s.callers.set number .stored } := by
  refine ⟨by simp, ?_, ?_⟩
  · exact Or.inr (Or.inr (Or.inr ⟨.stored, mem_set_self hPosition, Or.inl rfl⟩))
  · exact (h.move hPosition (by simp) (by simp) (by simp) .stored).posted

theorem Inv.test (h : Inv s) (hPosition : s.callers[number]? = some .stored) :
    Inv { s with
      callers := s.callers.set number (if s.mSeekingEventPending then .idle else .unflagged) } := by
  refine ⟨h.current, ?_, ?_⟩
  · by_cases hPending : s.mSeekingEventPending = true
    · exact Or.inr (Or.inl hPending)
    · refine Or.inr (Or.inr (Or.inr ⟨.unflagged, ?_, Or.inr rfl⟩))
      simpa only [if_neg hPending] using mem_set_self hPosition
  · intro hPending
    rcases h.posted hPending with hQueue | hFired | hTaking | hOther
    · exact Or.inl hQueue
    · exact Or.inr (Or.inl hFired)
    · exact Or.inr (Or.inr (Or.inl hTaking))
    · exact Or.inr (Or.inr (Or.inr (mem_set_of_ne hPosition hOther (by simp))))

theorem Inv.flag (h : Inv s) (hPosition : s.callers[number]? = some .unflagged) :
    Inv { s with
      mSeekingEventPending := true
      callers := s.callers.set number .flagged } :=
  ⟨h.current, Or.inr (Or.inl rfl), fun _ => Or.inr (Or.inr (Or.inr (mem_set_self hPosition)))⟩

theorem Inv.post (h : Inv s) (hPosition : s.callers[number]? = some .flagged) :
    Inv { s with mQueue := s.mQueue + 1, callers := s.callers.set number .idle } := by
  refine ⟨h.current, ?_, fun _ => Or.inl (Nat.succ_pos _)⟩
  rcases h.read with hServed | hPending | hCleared | ⟨other, hOther, hAt⟩
  · exact Or.inl hServed
  · exact Or.inr (Or.inl hPending)
  · exact Or.inr (Or.inr (Or.inl hCleared))
  · refine Or.inr (Or.inr (Or.inr ⟨other, mem_set_of_ne hPosition hOther ?_, hAt⟩))
    rcases hAt with rfl | rfl <;> simp

theorem inv_caller (h : Inv s) (hPosition : s.callers[number]? = some position)
    {after : State × Caller} (hStep : callerStep s position = some after) :
    Inv { after.1 with callers := s.callers.set number after.2 } := by
  cases position with
  | idle => cases hStep
  | entered timeUs =>
      cases hStep
      exact h.move hPosition (by simp) (by simp) (by simp) _
  | accepted timeUs =>
      cases hStep
      exact h.store hPosition
  | stored =>
      cases hStep
      exact h.test hPosition
  | unflagged =>
      cases hStep
      exact h.flag hPosition
  | flagged =>
      cases hStep
      exact h.post hPosition

/-- The flag is cleared before the time is read, so a store that found it set is read. -/
theorem inv_handler (h : Inv s) (hStep : onSeekingEvent s s.handler = some t) : Inv t := by
  cases hHandler : s.handler with
  | idle =>
      rw [hHandler] at hStep
      cases hStep
  | fired =>
      rw [hHandler] at hStep
      cases hStep
      refine ⟨h.current, ?_, ?_⟩
      · rcases h.read with hServed | hPending | hCleared | hCaller
        · exact Or.inl hServed
        · exact Or.inr (Or.inl hPending)
        · rw [hHandler] at hCleared
          cases hCleared
        · exact Or.inr (Or.inr (Or.inr hCaller))
      · intro hPending
        exact Or.inr (Or.inr (Or.inl (if_pos hPending)))
  | taking =>
      rw [hHandler] at hStep
      cases hStep
      exact ⟨h.current, Or.inr (Or.inr (Or.inl rfl)), by simp⟩
  | cleared =>
      rw [hHandler] at hStep
      cases hStep
      refine ⟨h.current, Or.inl ?_, ?_⟩
      · intro timeUs hLast
        have hTime := h.current timeUs hLast
        exact ⟨hTime, by simp [hTime]⟩
      · intro hPending
        rcases h.posted hPending with hQueue | hFired | hTaking | hOther
        · exact Or.inl hQueue
        · rw [hHandler] at hFired
          cases hFired
        · rw [hHandler] at hTaking
          cases hTaking
        · exact Or.inr (Or.inr (Or.inr hOther))

theorem inv_step {act : Act} (h : Inv s) (hStep : step s act = some t) : Inv t := by
  cases act with
  | seekTo number timeUs =>
      obtain ⟨hIdle, hEq⟩ := Option.ite_none_right_eq_some.mp hStep
      cases hEq
      exact h.move hIdle (by simp) (by simp) (by simp) _
  | caller number =>
      simp only [step] at hStep
      split at hStep
      · rename_i position hPosition
        obtain ⟨after, hAfter, rfl⟩ := Option.map_eq_some_iff.mp hStep
        exact inv_caller h hPosition hAfter
      · cases hStep
  | fire =>
      obtain ⟨⟨hIdle, -⟩, hEq⟩ := Option.ite_none_right_eq_some.mp hStep
      cases hEq
      refine ⟨h.current, ?_, fun _ => Or.inr (Or.inl rfl)⟩
      rcases h.read with hServed | hPending | hCleared | hCaller
      · exact Or.inl hServed
      · exact Or.inr (Or.inl hPending)
      · rw [hIdle] at hCleared
        cases hCleared
      · exact Or.inr (Or.inr (Or.inr hCaller))
  | handle => exact inv_handler h hStep

theorem Inv.served (h : Inv s) (hQuiet : s.Quiet) :
    s.mSeekingEventPending = false ∧ s.Served := by
  have hClear : s.mSeekingEventPending = false := by
    rw [← Bool.not_eq_true]
    intro hPending
    rcases h.posted hPending with hQueue | hFired | hTaking | hOther
    · rw [hQuiet.queue] at hQueue
      cases hQueue
    · rw [hQuiet.handler] at hFired
      cases hFired
    · rw [hQuiet.handler] at hTaking
      cases hTaking
    · cases hQuiet.callers _ hOther
  refine ⟨hClear, ?_⟩
  rcases h.read with hServed | hPending | hCleared | ⟨other, hOther, hAt⟩
  · exact hServed
  · rw [hClear] at hPending
    cases hPending
  · rw [hQuiet.handler] at hCleared
    cases hCleared
  · rw [hQuiet.callers other hOther] at hAt
    rcases hAt with hAt | hAt <;> cases hAt

end

/-- Whatever the order of the steps, the time stored last is the one of the last `seekTo_l`
once nothing is left to do. -/
theorem run_served {callers : Nat} {acts : List Act} {s : State}
    (run : Run step unguarded (initial callers) acts s) (hQuiet : s.Quiet) :
    s.mSeekingEventPending = false ∧ s.Served := by
  have hInv : Inv s := by
    refine run.invariant (inv_initial callers) ?_
    intro before act after hBefore _ hStep
    exact inv_step hBefore hStep
  exact hInv.served hQuiet

/-- Two callers that both find the flag clear; the second stores its time while the event
of the first is handled. -/
def twoSeeks : List Act :=
  [.seekTo 0 5, .caller 0, .caller 0, .caller 0, .seekTo 1 7, .caller 1, .caller 1, .caller 1,
    .caller 0, .caller 0, .fire, .handle, .caller 1, .handle, .handle, .caller 1, .fire, .handle]

theorem run_served_twoSeeks : ∃ s, Run step unguarded (initial 2) twoSeeks s ∧ s.Quiet ∧
    s.sought = [⟨7, 2⟩] ∧ s.Served := by
  obtain ⟨s, run, hQuiet, hSought⟩ := Run.exists_of_exec
    (fun s : State => s.Quiet ∧ s.sought = [⟨7, 2⟩])
    (show (exec step (initial 2) twoSeeks).any _ = true by decide +kernel)
  exact ⟨s, run, hQuiet, hSought, (run_served run hQuiet).2⟩

end Meet.AwesomePlayer.SeekCoalesce
