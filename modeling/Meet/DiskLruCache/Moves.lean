import Mathlib.Logic.Relation
import Meet.DiskLruCache.Operations

/-! What the operations of the cache do, in moves that change one thing each. -/
namespace Meet.DiskLruCache.Journal
open LinkedMap

/-- A move. New entries have keys that meet `plain`. A removal that throws has deleted a number
of files that meets `torn`. -/
inductive Moved (cfg : Config) (plain : Key → Prop) (torn : Nat → Prop) : Cache → Cache → Prop where
  | other (c : Cache) (journalWriter : Bool) (submitted : Nat) :
      Moved cfg plain torn c { c with journalWriter := journalWriter, submitted := submitted }
  | touch (c : Cache) (key : Key) :
      Moved cfg plain torn c { c with lruEntries := touch c.lruEntries key }
  | read (c : Cache) {key : Key} {e : Entry} (hFind : find c.lruEntries key = some e)
      (hReadable : e.readable = true) :
      Moved cfg plain torn c
        { c.write (.read key) with redundantOpCount := c.redundantOpCount + 1 }
  | create (c : Cache) {key : Key} (hNone : find c.lruEntries key = none)
      (hValid : validateKey key = true) (hPlain : plain key) :
      Moved cfg plain torn c
        (Cache.startEdit { c with lruEntries := put c.lruEntries key (Entry.new cfg.valueCount) }
          cfg.valueCount key).1
  | start (c : Cache) {key : Key} {e : Entry} (hFind : find c.lruEntries key = some e)
      (hIdle : e.currentEditor = none) :
      Moved cfg plain torn c (c.startEdit cfg.valueCount key).1
  | editing (c : Cache) {key : Key} {e : Entry} {current : Editor}
      (hFind : find c.lruEntries key = some e) (hCurrent : e.currentEditor = some current)
      (change : Entry → Editor) (hNumber : (change e).number = current.number) :
      Moved cfg plain torn c
        { c with
          lruEntries := modify c.lruEntries key fun e =>
            { e with currentEditor := some (change e) } }
  | publish (c : Cache) {key : Key} {e : Entry} {current : Editor}
      (hFind : find c.lruEntries key = some e) (hCurrent : e.currentEditor = some current)
      (renamed : Nat → Option Int64) :
      Moved cfg plain torn c
        { c.write (.clean key (Cache.newLengths e.lengths renamed)) with
          size := c.size - lengthOf e.lengths + lengthOf (Cache.newLengths e.lengths renamed)
          redundantOpCount := c.redundantOpCount + 1
          nextSequenceNumber := c.nextSequenceNumber + 1
          lruEntries := modify c.lruEntries key fun _ =>
            ⟨Cache.newLengths e.lengths renamed, true, none, c.nextSequenceNumber⟩ }
  | restore (c : Cache) {key : Key} {e : Entry} {current : Editor}
      (hFind : find c.lruEntries key = some e) (hCurrent : e.currentEditor = some current)
      (hReadable : e.readable = true) :
      Moved cfg plain torn c
        { c.write (.clean key e.lengths) with
          redundantOpCount := c.redundantOpCount + 1
          lruEntries := modify c.lruEntries key fun e => { e with currentEditor := none } }
  | drop (c : Cache) {key : Key} {e : Entry} {current : Editor}
      (hFind : find c.lruEntries key = some e) (hCurrent : e.currentEditor = some current)
      (hReadable : e.readable = false) :
      Moved cfg plain torn c
        { c.write (.remove key) with
          redundantOpCount := c.redundantOpCount + 1
          lruEntries := erase c.lruEntries key }
  | evict (c : Cache) {key : Key} {e : Entry} (hFind : find c.lruEntries key = some e)
      (hIdle : e.currentEditor = none) :
      Moved cfg plain torn c
        { c.write (.remove key) with
          size := c.size - lengthOf e.lengths
          redundantOpCount := c.redundantOpCount + 1
          lruEntries := erase c.lruEntries key }
  | spoil (c : Cache) {key : Key} {e : Entry} (hFind : find c.lruEntries key = some e)
      (hIdle : e.currentEditor = none) {deleted : Nat} (hDeleted : deleted < cfg.valueCount)
      (hTorn : torn deleted) :
      Moved cfg plain torn c
        { c with
          size := c.size - lengthOf (e.lengths.take deleted)
          lruEntries := modify c.lruEntries key fun e =>
            { e with lengths := List.replicate deleted 0 ++ e.lengths.drop deleted } }
  | rebuild (c : Cache) (hRequired : c.journalRebuildRequired = true) :
      Moved cfg plain torn c { c.rebuildJournal with redundantOpCount := 0 }

abbrev Moves (cfg : Config) (plain : Key → Prop) (torn : Nat → Prop) : Cache → Cache → Prop :=
  Relation.ReflTransGen (Moved cfg plain torn)

section Moves

variable {cfg : Config} {plain : Key → Prop} {torn : Nat → Prop}

/-- A pass of the clean-up may be submitted at any time. -/
theorem moves_submit {c d : Cache} (h : Moves cfg plain torn c d) :
    Moves cfg plain torn c d.submit :=
  h.tail (.other d d.journalWriter (d.submitted + 1))

theorem moves_submitIfRequired {c d : Cache} (h : Moves cfg plain torn c d) (maxSize : Int) :
    Moves cfg plain torn c (d.submitIfRequired maxSize) := by
  unfold Cache.submitIfRequired
  split
  · exact moves_submit h
  · exact h

theorem moves_touch (c : Cache) (key : Key) :
    Moves cfg plain torn c { c with lruEntries := touch c.lruEntries key } :=
  .single (.touch c key)

/-- `get` is a look-up, followed by a line where a snapshot is opened. -/
theorem moves_get (c : Cache) (key : Key) (opens : Bool) :
    Moves cfg plain torn c (c.get key opens).1 := by
  unfold Cache.get
  split
  · split
    · exact .refl
    · rename_i e hFind
      have hTouched : find (touch c.lruEntries key) key = some e := by simpa using hFind
      dsimp only
      split
      · exact moves_touch c key
      · rename_i hOpens
        have hReadable : e.readable = true := by
          cases h : e.readable with
          | true => rfl
          | false => simp [h] at hOpens
        have hRead : Moves cfg plain torn c _ := .tail (moves_touch c key)
          (.read { c with lruEntries := touch c.lruEntries key } hTouched hReadable)
        split
        · exact moves_submit hRead
        · exact hRead
  · exact .refl

/-- `edit` starts an edit, of a new entry where there is none. -/
theorem moves_edit (c : Cache) (key : Key) (hPlain : plain key) (expected : Option Nat) :
    Moves cfg plain torn c (c.edit cfg.valueCount key expected).1 := by
  unfold Cache.edit
  split
  · rename_i hChecked
    have hValid : validateKey key = true := by
      rw [Bool.and_eq_true] at hChecked
      exact hChecked.2
    split
    · rename_i hNone
      split
      · exact .refl
      · exact .single (.create c hNone hValid hPlain)
    · rename_i e hFind
      have hTouched : find (touch c.lruEntries key) key = some e := by simpa using hFind
      dsimp only
      split
      · exact moves_touch c key
      · split
        · exact moves_touch c key
        · rename_i hEditor
          have hIdle : e.currentEditor = none := by simpa using hEditor
          exact .tail (moves_touch c key)
            (.start { c with lruEntries := touch c.lruEntries key } hTouched hIdle)
  · exact .refl

/-- A handle names the current editor of an entry. -/
theorem editorOf_eq_some {c : Cache} {editor : Handle} {e : Entry} {current : Editor}
    (h : c.editorOf editor = some (e, current)) :
    find c.lruEntries editor.key = some e ∧ e.currentEditor = some current ∧
      current.number = editor.number := by
  unfold Cache.editorOf at h
  split at h
  · cases h
  · rename_i entry hFind
    split at h
    · cases h
    · rename_i now hCurrent
      split at h
      · rename_i hNumber
        obtain ⟨rfl, rfl⟩ := Prod.mk.inj (Option.some.inj h)
        exact ⟨hFind, hCurrent, hNumber⟩
      · cases h

/-- `newOutputStream` changes only the editor of the entry. -/
theorem moves_newOutputStream (c : Cache) (editor : Handle) (index : Nat) :
    Moves cfg plain torn c (c.newOutputStream editor index) := by
  unfold Cache.newOutputStream
  split
  · exact .refl
  · rename_i e current hEditor
    obtain ⟨hFind, hCurrent, -⟩ := editorOf_eq_some hEditor
    exact .single (.editing c hFind hCurrent _ rfl)

theorem moves_fault (c : Cache) (editor : Handle) :
    Moves cfg plain torn c (c.fault editor) := by
  unfold Cache.fault
  split
  · exact .refl
  · rename_i e current hEditor
    obtain ⟨hFind, hCurrent, -⟩ := editorOf_eq_some hEditor
    exact .single (.editing c hFind hCurrent _ rfl)

/-- `completeEdit` publishes the edit, restores the entry or drops it. -/
theorem moves_completeEdit (c : Cache) (editor : Handle) (success : Bool)
    (renamed : Nat → Option Int64) (deletable : Bool) :
    Moves cfg plain torn c (c.completeEdit cfg editor success renamed deletable) := by
  unfold Cache.completeEdit
  split
  · exact .refl
  · rename_i e current hEditor
    obtain ⟨hFind, hCurrent, -⟩ := editorOf_eq_some hEditor
    split
    · exact moves_submitIfRequired (.single (.publish c hFind hCurrent renamed)) _
    · split
      · unfold Cache.abortEdit
        split
        · rename_i hReadable
          exact moves_submitIfRequired (.single (.restore c hFind hCurrent hReadable)) _
        · rename_i hReadable
          have hUnread : e.readable = false := by simpa using hReadable
          exact moves_submitIfRequired (.single (.drop c hFind hCurrent hUnread)) _
      · exact .refl

/-- `remove` is a look-up. An entry that is not edited is then evicted, or spoilt where a file
cannot be deleted. -/
theorem moves_remove (c : Cache) (key : Key) (deleted : Nat)
    (hTorn : deleted < cfg.valueCount → torn deleted) :
    Moves cfg plain torn c (c.remove cfg key deleted).1 := by
  unfold Cache.remove
  split
  · split
    · exact .refl
    · rename_i e hFind
      have hTouched : find (touch c.lruEntries key) key = some e := by simpa using hFind
      dsimp only
      split
      · exact moves_touch c key
      · rename_i hEditor
        have hIdle : e.currentEditor = none := by simpa using hEditor
        split
        · rename_i hDeleted
          exact .tail (moves_touch c key) (.spoil { c with lruEntries := touch c.lruEntries key }
            hTouched hIdle hDeleted (hTorn hDeleted))
        · have hEvict : Moves cfg plain torn c _ := .tail (moves_touch c key)
            (.evict { c with lruEntries := touch c.lruEntries key } hTouched hIdle)
          split
          · exact moves_submit hEvict
          · exact hEvict
  · exact .refl

/-- `trimToSize` is made of removals. -/
theorem moves_trimToSize (deletions : List Nat)
    (hTorn : ∀ deleted ∈ deletions, deleted < cfg.valueCount → torn deleted) {c d : Cache}
    {threw : Bool} (h : c.trimToSize cfg deletions = some (d, threw)) :
    Moves cfg plain torn c d := by
  induction deletions generalizing c with
  | nil =>
      unfold Cache.trimToSize at h
      split at h
      · cases h
        exact .refl
      · split at h
        · cases h
          exact .refl
        · cases h
  | cons deleted deletions ih =>
      unfold Cache.trimToSize at h
      split at h
      · cases h
        exact .refl
      · split at h
        · cases h
          exact .refl
        · rename_i eldest hEldest
          have hFirst : Moves cfg plain torn c (c.remove cfg eldest.1 deleted).1 :=
            moves_remove c eldest.1 deleted (hTorn deleted List.mem_cons_self)
          split at h
          · rename_i removed hRemove
            cases h
            rwa [hRemove] at hFirst
          · rename_i removed hRemove
            rw [hRemove] at hFirst
            exact hFirst.trans
              (ih (fun n hMem => hTorn n (List.mem_cons_of_mem deleted hMem)) h)

/-- `commit` completes the edit, and removes the entry after a fault. -/
theorem moves_commit (c : Cache) (editor : Handle) (renamed : Nat → Option Int64)
    (deletable : Bool) (deleted : Nat) (hTorn : deleted < cfg.valueCount → torn deleted) :
    Moves cfg plain torn c (c.commit cfg editor renamed deletable deleted) := by
  unfold Cache.commit
  split
  · exact .refl
  · split
    · split
      · exact (moves_completeEdit c editor false renamed true).trans
          (moves_remove _ editor.key deleted hTorn)
      · exact .refl
    · exact moves_completeEdit c editor true renamed deletable

/-- The clean-up trims the cache and may rebuild the journal. -/
theorem moves_cleanup {c d : Cache} {deletions : List Nat}
    (hTorn : ∀ deleted ∈ deletions, deleted < cfg.valueCount → torn deleted)
    (h : c.cleanup cfg deletions = some d) : Moves cfg plain torn c d := by
  have hStart : Moves cfg plain torn c { c with submitted := c.submitted - 1 } :=
    .single (.other c c.journalWriter (c.submitted - 1))
  unfold Cache.cleanup at h
  dsimp only at h
  split at h
  · cases h
    exact hStart
  · split at h
    · cases h
    · rename_i trimmed hTrim
      cases h
      exact hStart.trans (moves_trimToSize deletions hTorn hTrim)
    · rename_i trimmed hTrim
      have hTrimmed := hStart.trans (moves_trimToSize deletions hTorn hTrim)
      split at h
      · rename_i hRequired
        cases h
        exact hTrimmed.tail (.rebuild trimmed hRequired)
      · cases h
        exact hTrimmed

theorem moves_flush {c d : Cache} {deletions : List Nat}
    (hTorn : ∀ deleted ∈ deletions, deleted < cfg.valueCount → torn deleted)
    (h : c.flush cfg deletions = some d) : Moves cfg plain torn c d := by
  unfold Cache.flush at h
  split at h
  · obtain ⟨⟨trimmed, threw⟩, hTrim, rfl⟩ := Option.map_eq_some_iff.mp h
    exact moves_trimToSize deletions hTorn hTrim
  · cases h
    exact .refl

/-- `close` aborts the edits one after the other. -/
theorem moves_abortAll (entries : Entries) (deletable : List Bool) (c : Cache) :
    Moves cfg plain torn c (Cache.abortAll cfg entries deletable c).1 := by
  induction entries generalizing deletable c with
  | nil => exact .refl
  | cons entry entries ih =>
      unfold Cache.abortAll
      split
      · exact ih deletable c
      · split
        · exact (moves_completeEdit c _ false _ true).trans (ih _ _)
        · exact .refl

theorem moves_close {c d : Cache} {deletable : List Bool} {deletions : List Nat}
    (hTorn : ∀ deleted ∈ deletions, deleted < cfg.valueCount → torn deleted)
    (h : c.close cfg deletable deletions = some d) : Moves cfg plain torn c d := by
  have hAborted : Moves cfg plain torn c (Cache.abortAll cfg c.lruEntries deletable c).1 :=
    moves_abortAll c.lruEntries deletable c
  unfold Cache.close at h
  split at h
  · cases h
    exact .refl
  · split at h
    · rename_i aborted hAbort
      cases h
      rwa [hAbort] at hAborted
    · rename_i aborted hAbort
      rw [hAbort] at hAborted
      split at h
      · cases h
      · rename_i trimmed hTrim
        cases h
        exact hAborted.trans (moves_trimToSize deletions hTorn hTrim)
      · rename_i trimmed hTrim
        cases h
        exact (hAborted.trans (moves_trimToSize deletions hTorn hTrim)).tail
          (.other trimmed false trimmed.submitted)

end Moves

/-- The key of an action that may make an entry. -/
def Act.Plain (plain : Key → Prop) : Act → Prop
  | .edit key _ => plain key
  | _ => True

/-- Where a removal throws, the number of files it has deleted meets `torn`. -/
def Act.Torn (cfg : Config) (torn : Nat → Prop) : Act → Prop
  | .commit _ _ _ deleted => deleted < cfg.valueCount → torn deleted
  | .remove _ deleted => deleted < cfg.valueCount → torn deleted
  | .flush deletions => ∀ deleted ∈ deletions, deleted < cfg.valueCount → torn deleted
  | .cleanup deletions => ∀ deleted ∈ deletions, deleted < cfg.valueCount → torn deleted
  | .close _ deletions => ∀ deleted ∈ deletions, deleted < cfg.valueCount → torn deleted
  | _ => True

/-- A step is made of moves. -/
theorem moves_step {cfg : Config} {plain : Key → Prop} {torn : Nat → Prop} {c d : Cache}
    {act : Act} (hPlain : act.Plain plain) (hTorn : act.Torn cfg torn)
    (h : step cfg c act = some d) : Moves cfg plain torn c d := by
  cases act with
  | get key opens =>
      cases h
      exact moves_get c key opens
  | edit key expected =>
      cases h
      exact moves_edit c key hPlain expected
  | newOutputStream editor index =>
      cases h
      exact moves_newOutputStream c editor index
  | fault editor =>
      cases h
      exact moves_fault c editor
  | commit editor renamed deletable deleted =>
      cases h
      exact moves_commit c editor renamed deletable deleted hTorn
  | abort editor deletable =>
      cases h
      exact moves_completeEdit c editor false _ deletable
  | remove key deleted =>
      cases h
      exact moves_remove c key deleted hTorn
  | flush deletions => exact moves_flush hTorn h
  | cleanup deletions =>
      rw [step] at h
      split at h
      · cases h
      · exact moves_cleanup hTorn h
  | close deletable deletions => exact moves_close hTorn h

end Meet.DiskLruCache.Journal
