import Meet.DiskLruCache.Upkeep

/-! A snapshot lets its holder edit the entry only while nobody else has changed it. The
sequence numbers tell this only once something was committed since the cache was opened: the
first number given is that of all entries that were read from the journal. -/
namespace Meet.DiskLruCache.Journal
open LinkedMap

/-- What a move does to the entry of one key. -/
inductive EntryMoved (c d : Cache) (key : Key) : Prop where
  | gone (hNone : find d.lruEntries key = none)
  | kept {e e' : Entry} (hBefore : find c.lruEntries key = some e)
      (hAfter : find d.lruEntries key = some e') (hReadable : e'.readable = e.readable)
      (hNumber : e'.sequenceNumber = e.sequenceNumber)
      (hEdited : e.readable = false → e.currentEditor.isSome = true →
        e'.currentEditor.isSome = true)
  | created {e : Entry} (hBefore : find c.lruEntries key = none)
      (hAfter : find d.lruEntries key = some e) (hReadable : e.readable = false)
      (hEdited : e.currentEditor.isSome = true) (hNumber : e.sequenceNumber = 0)
  | published {e : Entry} (hAfter : find d.lruEntries key = some e)
      (hReadable : e.readable = true) (hNumber : e.sequenceNumber = c.nextSequenceNumber)
      (hNext : d.nextSequenceNumber = c.nextSequenceNumber + 1)

theorem EntryMoved.same {c d : Cache} {key : Key}
    (hSame : find d.lruEntries key = find c.lruEntries key) : EntryMoved c d key := by
  cases hFind : find c.lruEntries key with
  | none => exact .gone (hSame.trans hFind)
  | some e => exact .kept hFind (hSame.trans hFind) rfl rfl fun _ hEdited => hEdited

/-- The entry of one key is changed where it stands. -/
theorem EntryMoved.modify {c d : Cache} {key other : Key} {e : Entry} (change : Entry → Entry)
    (hEntries : d.lruEntries = LinkedMap.modify c.lruEntries key change)
    (hFind : find c.lruEntries key = some e)
    (hReadable : (change e).readable = e.readable)
    (hNumber : (change e).sequenceNumber = e.sequenceNumber)
    (hEdited : e.readable = false → e.currentEditor.isSome = true →
      (change e).currentEditor.isSome = true) : EntryMoved c d other := by
  by_cases hKey : other = key
  · subst hKey
    exact .kept hFind (by rw [hEntries, find_modify, if_pos rfl, hFind]; rfl) hReadable hNumber
      hEdited
  · exact .same (by rw [hEntries, find_modify, if_neg hKey])

theorem EntryMoved.erase {c d : Cache} {key other : Key}
    (hEntries : d.lruEntries = LinkedMap.erase c.lruEntries key) : EntryMoved c d other := by
  by_cases hKey : other = key
  · exact .gone (by rw [hEntries, find_erase, if_pos hKey])
  · exact .same (by rw [hEntries, find_erase, if_neg hKey])

theorem entryMoved {cfg : Config} {plain : Key → Prop} {torn : Nat → Prop} {c d : Cache}
    (h : Moved cfg plain torn c d) (other : Key) : EntryMoved c d other := by
  cases h with
  | other journalWriter submitted => exact .same rfl
  | touch key => exact .same (find_touch c.lruEntries key other)
  | read hFind hReadable => exact .same rfl
  | @create key hNone hValid hPlain =>
      by_cases hKey : other = key
      · subst hKey
        have hAfter : find (modify (put c.lruEntries other (Entry.new cfg.valueCount)) other
            fun e => { e with
              currentEditor := some (Editor.new cfg.valueCount c.editors e) }) other =
            some { Entry.new cfg.valueCount with
              currentEditor :=
                some (Editor.new cfg.valueCount c.editors (Entry.new cfg.valueCount)) } := by simp
        exact .created hNone hAfter rfl rfl rfl
      · exact .same (by simp [Cache.startEdit, Cache.write, hKey])
  | @start key e hFind hIdle =>
      exact .modify (fun e =>
        { e with currentEditor := some (Editor.new cfg.valueCount c.editors e) })
        rfl hFind rfl rfl fun _ _ => rfl
  | @editing key e current hFind hCurrent change hNumber =>
      exact .modify (fun e => { e with currentEditor := some (change e) })
        rfl hFind rfl rfl fun _ _ => rfl
  | @publish key e current hFind hCurrent renamed =>
      by_cases hKey : other = key
      · subst hKey
        exact .published (by simp [hFind]; rfl) rfl rfl rfl
      · exact .same (by simp [hKey])
  | @restore key e current hFind hCurrent hReadable =>
      refine .modify (fun e => { e with currentEditor := none }) rfl hFind rfl rfl
        fun hUnread => ?_
      rw [hReadable] at hUnread
      cases hUnread
  | drop hFind hCurrent hReadable => exact .erase rfl
  | evict hFind hIdle => exact .erase rfl
  | @spoil key e hFind hIdle deleted hDeleted hTorn =>
      exact .modify (fun e =>
        { e with lengths := List.replicate deleted 0 ++ e.lengths.drop deleted })
        rfl hFind rfl rfl fun _ hEdited => hEdited
  | rebuild hRequired => exact .same rfl

theorem nextSequenceNumber_moved {cfg : Config} {plain : Key → Prop} {torn : Nat → Prop}
    {c d : Cache} (h : Moved cfg plain torn c d) :
    c.nextSequenceNumber ≤ d.nextSequenceNumber := by
  cases h with
  | publish => exact Nat.le_succ c.nextSequenceNumber
  | _ => exact Nat.le_refl c.nextSequenceNumber

/-! ### Numbers given -/

/-- Only 0 may be the number of an entry and of the next commit. -/
def Numbered (c : Cache) : Prop :=
  ∀ key e, find c.lruEntries key = some e →
    e.sequenceNumber = 0 ∨ e.sequenceNumber < c.nextSequenceNumber

theorem numbered_moved {cfg : Config} {plain : Key → Prop} {torn : Nat → Prop} {c d : Cache}
    (hMoved : Moved cfg plain torn c d) (h : Numbered c) : Numbered d := by
  have hNext := nextSequenceNumber_moved hMoved
  intro key e hFind
  cases entryMoved hMoved key with
  | gone hNone =>
      rw [hNone] at hFind
      cases hFind
  | @kept before after hBefore hAfter hReadable hNumber hEdited =>
      obtain rfl : after = e := Option.some.inj (hAfter.symm.trans hFind)
      have hOld := h key before hBefore
      omega
  | @created after hBefore hAfter hReadable hEdited hNumber =>
      obtain rfl : after = e := Option.some.inj (hAfter.symm.trans hFind)
      exact Or.inl hNumber
  | @published after hAfter hReadable hNumber hSucc =>
      obtain rfl : after = e := Option.some.inj (hAfter.symm.trans hFind)
      omega

theorem find_replay_number (cfg : Config) (lines : List Line) {key : Key} {e : Entry}
    (hFind : find (replay cfg lines) key = some e) : e.sequenceNumber = 0 := by
  induction lines using List.reverseRecOn generalizing e with
  | nil => simp [replay] at hFind
  | append_singleton lines line ih =>
      have hOld : ((find (replay cfg lines) key).getD (Entry.new cfg.valueCount)).sequenceNumber =
          0 := by
        cases hReplay : find (replay cfg lines) key with
        | none => rfl
        | some before => exact ih hReplay
      rw [replay_append, find_apply] at hFind
      by_cases hKey : key = line.key
      · rw [if_pos hKey] at hFind
        cases line with
        | clean lineKey lengths =>
            cases hFind
            exact hOld
        | dirty lineKey =>
            cases hFind
            exact hOld
        | remove lineKey => cases hFind
        | read lineKey =>
            cases hFind
            exact hOld
      · rw [if_neg hKey] at hFind
        exact ih hFind

theorem numbered_started {cfg : Config} {c : Cache} (h : Started cfg c) : Numbered c := by
  rcases h with rfl | ⟨lines, hPlain, rfl⟩
  · simp [Numbered, Cache.empty]
  · rw [reopen_eq hPlain]
    intro key e hFind
    simp only [Cache.opened, find_processJournal (keyed_replay cfg lines)] at hFind
    exact Or.inl (find_replay_number cfg lines (Option.filter_eq_some_iff.mp hFind).1)

theorem numbered_run {cfg : Config} {start c : Cache} {acts : List Act}
    (hStart : Started cfg start) (run : Run (step cfg) unguarded start acts c) : Numbered c := by
  apply run.invariant (numbered_started hStart)
  intro before act after h _ hStep
  have hMoves := moves_step act.plain_true (act.torn_true cfg) hStep
  clear hStep
  induction hMoves with
  | refl => exact h
  | tail _ hMoved ih => exact numbered_moved hMoved ih

/-! ### Snapshots that were taken -/

/-- The entry is the one that the snapshot was taken of. -/
def Current (snapshot : Snapshot) (c : Cache) : Prop :=
  ∃ e, find c.lruEntries snapshot.key = some e ∧ e.readable = true ∧
    e.sequenceNumber = snapshot.sequenceNumber

/-- The entry was committed since, or removed and perhaps made anew. -/
def Stale (snapshot : Snapshot) (c : Cache) : Prop :=
  ∀ e, find c.lruEntries snapshot.key = some e →
    (e.readable = false ∧ e.currentEditor.isSome = true) ∨
      snapshot.sequenceNumber < e.sequenceNumber

theorem Stale.not_current {snapshot : Snapshot} {c : Cache} (h : Stale snapshot c) :
    ¬ Current snapshot c := by
  rintro ⟨e, hFind, hReadable, hNumber⟩
  rcases h e hFind with ⟨hUnread, -⟩ | hLater
  · rw [hReadable] at hUnread
    cases hUnread
  · omega

/-- What is known of a snapshot once something was committed. -/
structure Taken (snapshot : Snapshot) (c : Cache) : Prop where
  given : snapshot.sequenceNumber < c.nextSequenceNumber
  either : Current snapshot c ∨ Stale snapshot c

section Taken

variable {cfg : Config} {plain : Key → Prop} {torn : Nat → Prop} {snapshot : Snapshot}
  {c d : Cache}

theorem stale_moved (hMoved : Moved cfg plain torn c d)
    (hGiven : snapshot.sequenceNumber < c.nextSequenceNumber) (h : Stale snapshot c) :
    Stale snapshot d := by
  intro e hFind
  cases entryMoved hMoved snapshot.key with
  | gone hNone =>
      rw [hNone] at hFind
      cases hFind
  | @kept before after hBefore hAfter hReadable hNumber hEdited =>
      obtain rfl : after = e := Option.some.inj (hAfter.symm.trans hFind)
      rw [hReadable, hNumber]
      rcases h before hBefore with ⟨hUnread, hBusy⟩ | hLater
      · exact Or.inl ⟨hUnread, hEdited hUnread hBusy⟩
      · exact Or.inr hLater
  | @created after hBefore hAfter hReadable hEdited hNumber =>
      obtain rfl : after = e := Option.some.inj (hAfter.symm.trans hFind)
      exact Or.inl ⟨hReadable, hEdited⟩
  | @published after hAfter hReadable hNumber hSucc =>
      obtain rfl : after = e := Option.some.inj (hAfter.symm.trans hFind)
      exact Or.inr (hNumber ▸ hGiven)

theorem current_moved (hMoved : Moved cfg plain torn c d)
    (hGiven : snapshot.sequenceNumber < c.nextSequenceNumber) (h : Current snapshot c) :
    Current snapshot d ∨ Stale snapshot d := by
  obtain ⟨e, hFind, hReads, hSame⟩ := h
  cases entryMoved hMoved snapshot.key with
  | gone hNone => exact Or.inr fun e hAfter => by rw [hNone] at hAfter; cases hAfter
  | @kept before after hBefore hAfter hReadable hNumber hEdited =>
      obtain rfl : before = e := Option.some.inj (hBefore.symm.trans hFind)
      exact Or.inl ⟨after, hAfter, hReadable.trans hReads, hNumber.trans hSame⟩
  | created hBefore =>
      rw [hBefore] at hFind
      cases hFind
  | @published after hAfter hReadable hNumber hSucc =>
      refine Or.inr fun other hOther => Or.inr ?_
      obtain rfl : after = other := Option.some.inj (hAfter.symm.trans hOther)
      exact hNumber ▸ hGiven

theorem Taken.moved (h : Taken snapshot c) (hMoved : Moved cfg plain torn c d) :
    Taken snapshot d where
  given := Nat.lt_of_lt_of_le h.given (nextSequenceNumber_moved hMoved)
  either := by
    cases h.either with
    | inl hCurrent => exact current_moved hMoved h.given hCurrent
    | inr hStale => exact Or.inr (stale_moved hMoved h.given hStale)

/-- A run keeps what is known, and a stale snapshot stays stale. -/
theorem Taken.run {acts : List Act} (h : Taken snapshot c)
    (run : Run (step cfg) unguarded c acts d) :
    Taken snapshot d ∧ (Stale snapshot c → Stale snapshot d) := by
  apply run.invariant
  · exact ⟨h, id⟩
  intro before act after hBefore _ hStep
  have hMoves := moves_step act.plain_true (act.torn_true cfg) hStep
  clear hStep
  induction hMoves with
  | refl => exact hBefore
  | tail _ hMoved ih =>
      exact ⟨ih.1.moved hMoved, fun hStale => stale_moved hMoved ih.1.given (ih.2 hStale)⟩

end Taken

theorem get_some {c d : Cache} {key : Key} {opens : Bool} {snapshot : Snapshot}
    (h : c.get key opens = (d, some snapshot)) :
    validateKey snapshot.key = true ∧ d.nextSequenceNumber = c.nextSequenceNumber ∧
      Current snapshot d := by
  unfold Cache.get at h
  split at h
  · rename_i hChecked
    rw [Bool.and_eq_true] at hChecked
    split at h
    · cases h
    · rename_i e hFind
      dsimp only at h
      have hTouched : find (touch c.lruEntries key) key = some e := by simpa using hFind
      split at h
      · cases h
      · rename_i hOpens
        have hReadable : e.readable = true := by
          cases hReads : e.readable with
          | true => rfl
          | false => simp [hReads] at hOpens
        split at h <;> cases h <;> exact ⟨hChecked.2, rfl, e, hTouched, hReadable, rfl⟩
  · cases h

theorem edit_isSome (c : Cache) (valueCount : Nat) (key : Key) (expected : Nat) :
    (c.edit valueCount key (some expected)).2.isSome = true ↔
      c.journalWriter = true ∧ validateKey key = true ∧
        ∃ e, find c.lruEntries key = some e ∧ e.sequenceNumber = expected ∧
          e.currentEditor = none := by
  unfold Cache.edit
  by_cases hChecked : (c.journalWriter && validateKey key) = true
  · rw [if_pos hChecked]
    rw [Bool.and_eq_true] at hChecked
    cases hFind : find c.lruEntries key with
    | none => simp
    | some e =>
        dsimp only
        by_cases hNumber : e.sequenceNumber = expected
        · cases hEditor : e.currentEditor with
          | none => simp [hChecked, hNumber, hEditor, Cache.startEdit]
          | some current => simp [hNumber, hEditor]
        · have hOther : expected ≠ e.sequenceNumber := fun hEq => hNumber hEq.symm
          simp [hNumber, hOther]
  · rw [if_neg hChecked]
    rw [Bool.and_eq_true] at hChecked
    constructor
    · intro hNone
      cases hNone
    · rintro ⟨hOpen, hValid, -⟩
      exact absurd ⟨hOpen, hValid⟩ hChecked

/-! ### Commits and removals -/

/-- The call publishes an edit of the entry: the editor is current, nothing has failed, and a new
entry is complete. -/
def Commits (cfg : Config) (c : Cache) (key : Key) (act : Act) : Prop :=
  ∃ editor renamed deletable deleted e current,
    act = .commit editor renamed deletable deleted ∧ editor.key = key ∧
      c.editorOf editor = some (e, current) ∧ current.hasErrors = false ∧
      (e.readable = true ∨ Cache.complete cfg.valueCount current renamed = true)

/-- The call removes the entry: `remove`, the clean-up behind a limit, or an edit that fails. -/
def Removes (cfg : Config) (c : Cache) (key : Key) (act : Act) : Prop :=
  (find c.lruEntries key).isSome = true ∧
    ∃ d, step cfg c act = some d ∧ find d.lruEntries key = none

/-- The call neither commits nor removes the entry. -/
def Untouched (cfg : Config) (key : Key) (c : Cache) (act : Act) : Prop :=
  ¬ Commits cfg c key act ∧ ¬ Removes cfg c key act

/-- What is found of an entry afterwards is the entry as it was, but for its editor and for files
that were deleted. -/
def Keeps (key : Key) (c d : Cache) : Prop :=
  ∀ e', find d.lruEntries key = some e' → ∃ e, find c.lruEntries key = some e ∧
    e'.readable = e.readable ∧ e'.sequenceNumber = e.sequenceNumber

namespace Keeps

variable {cfg : Config} {key : Key} {b c d : Cache}

theorem same (hSame : find d.lruEntries key = find c.lruEntries key) : Keeps key c d :=
  fun e' hFind => ⟨e', hSame ▸ hFind, rfl, rfl⟩

theorem refl (c : Cache) : Keeps key c c := .same rfl

theorem trans (hFirst : Keeps key b c) (hSecond : Keeps key c d) : Keeps key b d := by
  intro e'' hAfter
  obtain ⟨e', hMiddle, hReadable, hNumber⟩ := hSecond e'' hAfter
  obtain ⟨e, hBefore, hReads, hSame⟩ := hFirst e' hMiddle
  exact ⟨e, hBefore, hReadable.trans hReads, hNumber.trans hSame⟩

theorem modify {other : Key} (change : Entry → Entry)
    (hEntries : d.lruEntries = LinkedMap.modify c.lruEntries other change)
    (hReadable : ∀ e, (change e).readable = e.readable)
    (hNumber : ∀ e, (change e).sequenceNumber = e.sequenceNumber) : Keeps key c d := by
  intro e' hFind
  rw [hEntries, find_modify] at hFind
  split at hFind
  · obtain ⟨e, hBefore, rfl⟩ := Option.map_eq_some_iff.mp hFind
    exact ⟨e, hBefore, hReadable e, hNumber e⟩
  · exact ⟨e', hFind, rfl, rfl⟩

theorem erase {other : Key} (hEntries : d.lruEntries = LinkedMap.erase c.lruEntries other) :
    Keeps key c d := by
  intro e' hFind
  rw [hEntries, find_erase] at hFind
  split at hFind
  · cases hFind
  · exact ⟨e', hFind, rfl, rfl⟩

theorem touch (c : Cache) (other : Key) :
    Keeps key c { c with lruEntries := LinkedMap.touch c.lruEntries other } :=
  .same (find_touch c.lruEntries other key)

theorem get (c : Cache) (other : Key) (opens : Bool) : Keeps key c (c.get other opens).1 := by
  unfold Cache.get
  split
  · split
    · exact .refl c
    · dsimp only
      split
      · exact .touch c other
      · split
        · exact .touch c other
        · exact .touch c other
  · exact .refl c

/-- A new entry is made only where there is none. -/
theorem edit (c : Cache) (valueCount : Nat) (other : Key) (expected : Option Nat)
    (hFound : (find c.lruEntries key).isSome = true) :
    Keeps key c (c.edit valueCount other expected).1 := by
  unfold Cache.edit
  split
  · split
    · rename_i hNone
      split
      · exact .refl c
      · have hOther : key ≠ other := by
          rintro rfl
          rw [hNone] at hFound
          cases hFound
        exact .same (by simp [Cache.startEdit, Cache.write, hOther])
    · dsimp only
      split
      · exact .touch c other
      · split
        · exact .touch c other
        · exact (Keeps.touch c other).trans (.modify
            (fun e => { e with currentEditor := some (Editor.new valueCount c.editors e) })
            rfl (fun _ => rfl) fun _ => rfl)
  · exact .refl c

theorem newOutputStream (c : Cache) (editor : Handle) (index : Nat) :
    Keeps key c (c.newOutputStream editor index) := by
  unfold Cache.newOutputStream
  split
  · exact .refl c
  · rename_i e current hEditor
    exact .modify (fun e => { e with
      currentEditor := some { current with
        written := if e.readable then current.written
          else current.written.map fun written => written.set index true } })
      rfl (fun _ => rfl) fun _ => rfl

theorem fault (c : Cache) (editor : Handle) : Keeps key c (c.fault editor) := by
  unfold Cache.fault
  split
  · exact .refl c
  · rename_i e current hEditor
    exact .modify (fun e => { e with currentEditor := some { current with hasErrors := true } })
      rfl (fun _ => rfl) fun _ => rfl

theorem submitIfRequired (h : Keeps key c d) (maxSize : Int) :
    Keeps key c (d.submitIfRequired maxSize) := by
  unfold Cache.submitIfRequired
  split
  · exact h
  · exact h

theorem abortEdit (c : Cache) (maxSize : Int) (other : Key) (e : Entry) :
    Keeps key c (c.abortEdit maxSize other e) := by
  unfold Cache.abortEdit
  split
  · exact .submitIfRequired
      (.modify (fun e => { e with currentEditor := none }) rfl (fun _ => rfl) fun _ => rfl) maxSize
  · exact .submitIfRequired (.erase rfl) maxSize

/-- An edit of another entry, or one that is not published. -/
theorem completeEdit (c : Cache) (editor : Handle) (success : Bool)
    (renamed : Nat → Option Int64) (deletable : Bool)
    (hQuiet : editor.key = key → ∀ e current, c.editorOf editor = some (e, current) →
      (success && (e.readable || Cache.complete cfg.valueCount current renamed)) = false) :
    Keeps key c (c.completeEdit cfg editor success renamed deletable) := by
  unfold Cache.completeEdit
  split
  · exact .refl c
  · rename_i e current hEditor
    split
    · rename_i hPublishes
      have hOther : key ≠ editor.key := by
        intro hKey
        rw [hQuiet hKey.symm e current hEditor] at hPublishes
        cases hPublishes
      exact .submitIfRequired (.same (by simp [hOther])) cfg.maxSize
    · split
      · exact .abortEdit c cfg.maxSize editor.key e
      · exact .refl c

theorem remove (c : Cache) (other : Key) (deleted : Nat) :
    Keeps key c (c.remove cfg other deleted).1 := by
  unfold Cache.remove
  split
  · split
    · exact .refl c
    · dsimp only
      split
      · exact .touch c other
      · split
        · exact (Keeps.touch c other).trans (.modify
            (fun e => { e with lengths := List.replicate deleted 0 ++ e.lengths.drop deleted })
            rfl (fun _ => rfl) fun _ => rfl)
        · split
          · exact (Keeps.touch c other).trans (.erase rfl)
          · exact (Keeps.touch c other).trans (.erase rfl)
  · exact .refl c

theorem trimToSize (deletions : List Nat) {c d : Cache} {threw : Bool}
    (h : c.trimToSize cfg deletions = some (d, threw)) : Keeps key c d := by
  induction deletions generalizing c with
  | nil =>
      unfold Cache.trimToSize at h
      split at h
      · cases h
        exact .refl _
      · split at h
        · cases h
          exact .refl _
        · cases h
  | cons deleted deletions ih =>
      unfold Cache.trimToSize at h
      split at h
      · cases h
        exact .refl _
      · split at h
        · cases h
          exact .refl _
        · rename_i eldest hEldest
          have hFirst : Keeps key c (c.remove cfg eldest.1 deleted).1 :=
            .remove _ eldest.1 deleted
          split at h
          · rename_i removed hRemove
            cases h
            rwa [hRemove] at hFirst
          · rename_i removed hRemove
            rw [hRemove] at hFirst
            exact hFirst.trans (ih h)

theorem commit (c : Cache) (editor : Handle) (renamed : Nat → Option Int64) (deletable : Bool)
    (deleted : Nat) (hQuiet : ¬ Commits cfg c key (.commit editor renamed deletable deleted)) :
    Keeps key c (c.commit cfg editor renamed deletable deleted) := by
  unfold Cache.commit
  split
  · exact .refl c
  · rename_i e current hEditor
    split
    · split
      · exact (Keeps.completeEdit c editor false renamed true fun _ _ _ _ => rfl).trans
          (.remove _ editor.key deleted)
      · exact .refl c
    · rename_i hErrors
      refine .completeEdit c editor true renamed deletable fun hKey e' current' hEditor' => ?_
      by_contra hPublishes
      obtain ⟨rfl, rfl⟩ := Prod.mk.inj (Option.some.inj (hEditor.symm.trans hEditor'))
      have hComplete : e.readable = true ∨
          Cache.complete cfg.valueCount current renamed = true := by
        rw [Bool.not_eq_false] at hPublishes
        rwa [Bool.true_and, Bool.or_eq_true] at hPublishes
      exact hQuiet ⟨editor, renamed, deletable, deleted, e, current, rfl, hKey, hEditor,
        by simpa using hErrors, hComplete⟩

theorem cleanup {deletions : List Nat} (h : c.cleanup cfg deletions = some d) :
    Keeps key c d := by
  have hStart : Keeps key c { c with submitted := c.submitted - 1 } := .same rfl
  unfold Cache.cleanup at h
  dsimp only at h
  split at h
  · cases h
    exact hStart
  · split at h
    · cases h
    · rename_i trimmed hTrim
      cases h
      exact hStart.trans (.trimToSize deletions hTrim)
    · rename_i trimmed hTrim
      have hTrimmed := hStart.trans (.trimToSize deletions hTrim)
      split at h
      · cases h
        exact hTrimmed
      · cases h
        exact hTrimmed

theorem flush {deletions : List Nat} (h : c.flush cfg deletions = some d) : Keeps key c d := by
  unfold Cache.flush at h
  split at h
  · obtain ⟨⟨trimmed, threw⟩, hTrim, rfl⟩ := Option.map_eq_some_iff.mp h
    exact .trimToSize deletions hTrim
  · cases h
    exact .refl c

theorem abortAll (entries : Entries) (deletable : List Bool) (c : Cache) :
    Keeps key c (Cache.abortAll cfg entries deletable c).1 := by
  induction entries generalizing deletable c with
  | nil => exact .refl c
  | cons entry entries ih =>
      unfold Cache.abortAll
      split
      · exact ih deletable c
      · split
        · exact (Keeps.completeEdit c _ false _ true fun _ _ _ _ => rfl).trans (ih _ _)
        · exact .refl c

theorem close {deletable : List Bool} {deletions : List Nat}
    (h : c.close cfg deletable deletions = some d) : Keeps key c d := by
  have hAborted : Keeps key c (Cache.abortAll cfg c.lruEntries deletable c).1 :=
    .abortAll c.lruEntries deletable c
  unfold Cache.close at h
  split at h
  · cases h
    exact .refl c
  · split at h
    · rename_i aborted hAbort
      cases h
      rwa [hAbort] at hAborted
    · rename_i aborted hAbort
      rw [hAbort] at hAborted
      split at h
      · cases h
      · rename_i trimmed hTrim
        cases h
        exact hAborted.trans (.trimToSize deletions hTrim)
      · rename_i trimmed hTrim
        cases h
        exact (hAborted.trans (.trimToSize deletions hTrim)).trans (.same rfl)

/-- A step that does not commit the entry keeps what it leaves of it. -/
theorem step {act : Act} (hFound : (find c.lruEntries key).isSome = true)
    (hQuiet : ¬ Commits cfg c key act) (h : Journal.step cfg c act = some d) : Keeps key c d := by
  cases act with
  | get other opens =>
      cases h
      exact .get c other opens
  | edit other expected =>
      cases h
      exact .edit c cfg.valueCount other expected hFound
  | newOutputStream editor index =>
      cases h
      exact .newOutputStream c editor index
  | fault editor =>
      cases h
      exact .fault c editor
  | commit editor renamed deletable deleted =>
      cases h
      exact .commit c editor renamed deletable deleted hQuiet
  | abort editor deletable =>
      cases h
      exact .completeEdit c editor false _ deletable fun _ _ _ _ => rfl
  | remove other deleted =>
      cases h
      exact .remove c other deleted
  | flush deletions => exact .flush h
  | cleanup deletions =>
      rw [Journal.step, Option.ite_none_left_eq_some] at h
      exact .cleanup h.2
  | close deletable deletions => exact .close h

end Keeps

/-- A commit gives the entry the next number. -/
theorem find_of_commits {cfg : Config} {c d : Cache} {key : Key} {act : Act}
    (hCommits : Commits cfg c key act) (h : step cfg c act = some d) :
    ∃ e, find d.lruEntries key = some e ∧ e.sequenceNumber = c.nextSequenceNumber := by
  obtain ⟨editor, renamed, deletable, deleted, e, current, rfl, rfl, hEditor, hErrors, hComplete⟩ :=
    hCommits
  have hFind := (editorOf_eq_some hEditor).1
  have hPublishes : (true && (e.readable || Cache.complete cfg.valueCount current renamed)) = true := by
    simpa using hComplete
  simp only [step, Cache.commit, Cache.completeEdit, hEditor, hErrors, Bool.false_eq_true, if_false,
    if_pos hPublishes, Option.some.injEq] at h
  subst h
  refine ⟨⟨Cache.newLengths e.lengths renamed, true, none, c.nextSequenceNumber⟩, ?_, rfl⟩
  simp only [Cache.publishEdit, Cache.submitIfRequired]
  split
  · simp [Cache.submit, hFind]
  · simp [hFind]

/-- The snapshot stays that of its entry just through the steps that neither commit nor remove
the entry. -/
theorem current_step {cfg : Config} {snapshot : Snapshot} {c d : Cache} {act : Act}
    (hTaken : Taken snapshot c) (hStep : step cfg c act = some d) :
    Current snapshot d ↔ Current snapshot c ∧ Untouched cfg snapshot.key c act := by
  constructor
  · intro hAfter
    have hBefore : Current snapshot c := by
      cases hTaken.either with
      | inl hCurrent => exact hCurrent
      | inr hStale =>
          exact absurd hAfter ((hTaken.run (.single trivial hStep)).2 hStale).not_current
    obtain ⟨e, hFind, -, hNumber⟩ := hAfter
    refine ⟨hBefore, fun hCommits => ?_, ?_⟩
    · obtain ⟨other, hOther, hNext⟩ := find_of_commits hCommits hStep
      obtain rfl : e = other := Option.some.inj (hFind.symm.trans hOther)
      have hGiven := hTaken.given
      omega
    · rintro ⟨-, removed, hRemoves, hNone⟩
      obtain rfl : d = removed := Option.some.inj (hStep.symm.trans hRemoves)
      rw [hNone] at hFind
      cases hFind
  · rintro ⟨⟨e, hFind, hReadable, hNumber⟩, hCommits, hRemoves⟩
    have hFound : (find c.lruEntries snapshot.key).isSome = true := by rw [hFind]; rfl
    cases hAfter : find d.lruEntries snapshot.key with
    | none => exact absurd ⟨hFound, d, hStep, hAfter⟩ hRemoves
    | some e' =>
        obtain ⟨before, hBefore, hReads, hSame⟩ := Keeps.step hFound hCommits hStep e' hAfter
        obtain rfl : e = before := Option.some.inj (hFind.symm.trans hBefore)
        exact ⟨e', hAfter, hReads.trans hReadable, hSame.trans hNumber⟩

theorem current_run {cfg : Config} {snapshot : Snapshot} {c d : Cache} {acts : List Act}
    (hTaken : Taken snapshot c) (hCurrent : Current snapshot c)
    (run : Run (step cfg) unguarded c acts d) :
    Current snapshot d ↔ Run (step cfg) (Untouched cfg snapshot.key) c acts d := by
  induction run with
  | nil => exact iff_of_true hCurrent (.nil _)
  | snoc prior meets last ih =>
      rw [Run.snoc_iff prior last, ← ih, current_step (hTaken.run prior).1 last]

/-- Once something was committed since the cache was opened, a snapshot that is taken can be
edited later just where nobody edits the entry then and no call in between has committed or
removed it. -/
theorem snapshot_edit {cfg : Config} {start c taken d : Cache} {acts between : List Act}
    (hStart : Started cfg start) (run : Run (step cfg) unguarded start acts c)
    (hCommitted : 0 < c.nextSequenceNumber) {key : Key} {opens : Bool} {snapshot : Snapshot}
    (hGet : c.get key opens = (taken, some snapshot))
    (later : Run (step cfg) unguarded taken between d) :
    (d.edit cfg.valueCount snapshot.key (some snapshot.sequenceNumber)).2.isSome = true ↔
      d.journalWriter = true ∧
        (∀ e, find d.lruEntries snapshot.key = some e → e.currentEditor = none) ∧
        Run (step cfg) (Untouched cfg snapshot.key) taken between d := by
  obtain ⟨hValid, hNext, hCurrent⟩ := get_some hGet
  have hGetStep : step cfg c (.get key opens) = some taken := by rw [step, hGet]
  have hNumbered : Numbered taken := numbered_run hStart (run.snoc trivial hGetStep)
  have hTaken : Taken snapshot taken := by
    refine ⟨?_, Or.inl hCurrent⟩
    obtain ⟨e, hFind, -, hNumber⟩ := hCurrent
    have hGiven := hNumbered snapshot.key e hFind
    omega
  rw [edit_isSome, ← current_run hTaken hCurrent later]
  constructor
  · rintro ⟨hOpen, -, e, hFind, hNumber, hIdle⟩
    refine ⟨hOpen, fun other hOther => ?_, ?_⟩
    · obtain rfl : e = other := Option.some.inj (hFind.symm.trans hOther)
      exact hIdle
    · cases (hTaken.run later).1.either with
      | inl hCurrent => exact hCurrent
      | inr hStale =>
          rcases hStale e hFind with ⟨-, hEdited⟩ | hLater
          · rw [hIdle] at hEdited
            cases hEdited
          · omega
  · rintro ⟨hOpen, hIdle, e, hFind, -, hNumber⟩
    exact ⟨hOpen, hValid, e, hFind, hNumber, hIdle e hFind⟩

/-- The cache before and after a snapshot of its entry is taken. -/
def committed : Cache :=
  ⟨5, [(['k'], ⟨[5], true, none, 0⟩)], 1, 1, [.dirty ['k'], .clean ['k'] [5]], true, 0, 2⟩

def snapped : Cache :=
  { committed with
    redundantOpCount := 2
    journal := [.dirty ['k'], .clean ['k'] [5], .read ['k']] }

/-- Somebody edits the entry and gives up, or publishes 7 bytes. -/
def abandoned : List Act := [.edit ['k'] none, .abort ⟨['k'], 2⟩ true, .get ['k'] true]

def replaced : List Act := [.edit ['k'] none, .commit ⟨['k'], 2⟩ (fun _ => some 7) true 1]

theorem snapshot_edit_snapped :
    (∃ d, Run (step thumbnails) (Untouched thumbnails ['k']) snapped abandoned d ∧
      (d.edit thumbnails.valueCount ['k'] (some 0)).2.isSome = true) ∧
    ∃ d, Run (step thumbnails) unguarded snapped replaced d ∧
      ¬ Run (step thumbnails) (Untouched thumbnails ['k']) snapped replaced d := by
  have run : Run (step thumbnails) unguarded .empty
      [.edit ['k'] none, .newOutputStream ⟨['k'], 1⟩ 0,
        .commit ⟨['k'], 1⟩ (fun _ => some 5) true 1] committed := Run.of_exec (by decide)
  have hGet : committed.get ['k'] true = (snapped, some ⟨['k'], 0⟩) := by decide
  obtain ⟨kept, hKept, hEdits⟩ := Run.exists_of_exec
    (fun d : Cache => (d.edit thumbnails.valueCount ['k'] (some 0)).2.isSome = true)
    (show ((exec (step thumbnails) snapped abandoned).any _) = true by decide)
  obtain ⟨lost, hLost, hIdle⟩ := Run.exists_of_exec
    (fun d : Cache => d.journalWriter = true ∧
      d.lruEntries = [(['k'], ⟨[7], true, none, 1⟩)] ∧
      (d.edit thumbnails.valueCount ['k'] (some 0)).2.isSome = false)
    (show ((exec (step thumbnails) snapped replaced).any _) = true by decide)
  obtain ⟨hOpen, hEntries, hFails⟩ := hIdle
  refine ⟨⟨kept, ?_, hEdits⟩, lost, hLost, fun hUntouched => ?_⟩
  · exact ((snapshot_edit (Or.inl rfl) run (by decide) hGet hKept).mp hEdits).2.2
  · have hAllowed := (snapshot_edit (Or.inl rfl) run (by decide) hGet hLost).mpr
      ⟨hOpen, by simp [hEntries, find_cons], hUntouched⟩
    rw [hFails] at hAllowed
    cases hAllowed

/-- Before the first commit since the cache was opened, a commit is not noticed. -/
example :
    (exec (step thumbnails)
      (Cache.opened [.dirty ['k'], .clean ['k'] [5]] [(['k'], ⟨[5], true, none, 0⟩)] 1)
      [.get ['k'] true, .edit ['k'] none, .commit ⟨['k'], 1⟩ (fun _ => some 7) true 1]).map
      (fun c => (c.edit 1 ['k'] (some 0)).2.isSome) = some true := by decide

end Meet.DiskLruCache.Journal
