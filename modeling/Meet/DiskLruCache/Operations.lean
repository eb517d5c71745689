import Meet.Common.Run
import Meet.DiskLruCache.JournalFile

/-! The operations of `DiskLruCache.java` over its entries and its journal, for any number of
values. Every method is synchronized, so a call is one step, and so is a run of the clean-up
task. What the file system answers is a parameter of the call: whether the clean files can be
opened, which dirty files exist and how long they are once renamed, and how many files can be
deleted. -/
namespace Meet.DiskLruCache.Journal
open LinkedMap

/-- `journal` are the lines written so far, including those that the writer still buffers.
`submitted` are the clean-up tasks that have not run, and `editors` is the number of the next
editor. -/
structure Cache where
  size : Int
  lruEntries : Entries
  redundantOpCount : Int
  nextSequenceNumber : Nat
  journal : List Line
  journalWriter : Bool
  submitted : Nat
  editors : Nat
deriving DecidableEq, Repr

structure Snapshot where
  key : Key
  sequenceNumber : Nat
deriving DecidableEq, Repr

/-- What a caller holds of an editor. -/
structure Handle where
  key : Key
  number : Nat
deriving DecidableEq, Repr

namespace Cache

/-- A cache in an empty directory: `rebuildJournal` writes the header. -/
def empty : Cache := ⟨0, [], 0, 0, [], true, 0, 1⟩

/-- A cache that is opened on what `readJournal` returns. The journal is continued. -/
def opened (lines : List Line) (entries : Entries) (redundantOpCount : Int) : Cache :=
  ⟨(processJournal entries).2, (processJournal entries).1, redundantOpCount, 0, lines, true, 0, 1⟩

def write (c : Cache) (line : Line) : Cache := { c with journal := c.journal ++ [line] }

def journalRebuildRequired (c : Cache) : Bool :=
  2000 ≤ c.redundantOpCount && (c.lruEntries.length : Int) ≤ c.redundantOpCount

def submit (c : Cache) : Cache := { c with submitted := c.submitted + 1 }

/-- `rebuildJournal`: an entry that is edited is written without its lengths. -/
def rebuildJournal (c : Cache) : Cache :=
  { c with
    journal := c.lruEntries.map fun e =>
      if e.2.currentEditor.isSome then .dirty e.1 else .clean e.1 e.2.lengths }

/-- `get`, where `opens` tells whether all clean files can be opened. -/
def get (c : Cache) (key : Key) (opens : Bool) : Cache × Option Snapshot :=
  if c.journalWriter && validateKey key then
    match find c.lruEntries key with
    | none => (c, none)
    | some e =>
        let c := { c with lruEntries := touch c.lruEntries key }
        if !e.readable || !opens then (c, none)
        else
          let c := { c.write (.read key) with redundantOpCount := c.redundantOpCount + 1 }
          (if c.journalRebuildRequired then c.submit else c, some ⟨key, e.sequenceNumber⟩)
  else (c, none)

/-- The end of `edit`: a new editor for an entry of the map. -/
def startEdit (c : Cache) (valueCount : Nat) (key : Key) : Cache × Option Handle :=
  ({ c.write (.dirty key) with
      lruEntries := modify c.lruEntries key fun e =>
        { e with currentEditor := some (Editor.new valueCount c.editors e) }
      editors := c.editors + 1 },
    some ⟨key, c.editors⟩)

/-- `edit`. A call of `edit` of a snapshot passes the sequence number of the snapshot. -/
def edit (c : Cache) (valueCount : Nat) (key : Key) (expectedSequenceNumber : Option Nat) :
    Cache × Option Handle :=
  if c.journalWriter && validateKey key then
    match find c.lruEntries key with
    | none =>
        if expectedSequenceNumber.isSome then (c, none)
        else
          startEdit { c with lruEntries := put c.lruEntries key (Entry.new valueCount) }
            valueCount key
    | some e =>
        let c := { c with lruEntries := touch c.lruEntries key }
        if expectedSequenceNumber.isSome && expectedSequenceNumber ≠ some e.sequenceNumber then
          (c, none)
        else if e.currentEditor.isSome then (c, none)
        else startEdit c valueCount key
  else (c, none)

/-- The editor of the handle, where it is the current editor of its entry. -/
def editorOf (c : Cache) (editor : Handle) : Option (Entry × Editor) :=
  match find c.lruEntries editor.key with
  | none => none
  | some e =>
      match e.currentEditor with
      | none => none
      | some current => if current.number = editor.number then some (e, current) else none

/-- The end of `completeEdit`. -/
def submitIfRequired (c : Cache) (maxSize : Int) : Cache :=
  if maxSize < c.size || c.journalRebuildRequired then c.submit else c

/-- `completeEdit` without success, for the current editor of an entry. -/
def abortEdit (c : Cache) (maxSize : Int) (key : Key) (e : Entry) : Cache :=
  if e.readable then
    submitIfRequired { c.write (.clean key e.lengths) with
      redundantOpCount := c.redundantOpCount + 1
      lruEntries := modify c.lruEntries key fun e => { e with currentEditor := none } } maxSize
  else
    submitIfRequired { c.write (.remove key) with
      redundantOpCount := c.redundantOpCount + 1
      lruEntries := erase c.lruEntries key } maxSize

/-- The lengths after the dirty files are renamed. `renamed` is the length of the clean file
where there was a dirty file. -/
def newLengths (lengths : List Int64) (renamed : Nat → Option Int64) : List Int64 :=
  lengths.mapIdx fun i length => (renamed i).getD length

/-- `completeEdit` with success, for the current editor of an entry. -/
def publishEdit (c : Cache) (maxSize : Int) (key : Key) (e : Entry)
    (renamed : Nat → Option Int64) : Cache :=
  let lengths := newLengths e.lengths renamed
  submitIfRequired { c.write (.clean key lengths) with
    size := c.size - lengthOf e.lengths + lengthOf lengths
    redundantOpCount := c.redundantOpCount + 1
    nextSequenceNumber := c.nextSequenceNumber + 1
    lruEntries := modify c.lruEntries key fun _ =>
      ⟨lengths, true, none, c.nextSequenceNumber⟩ } maxSize

/-- Whether a new entry has a value written and a dirty file for each index. -/
def complete (valueCount : Nat) (editor : Editor) (renamed : Nat → Option Int64) : Bool :=
  (List.range valueCount).all fun i =>
    (editor.written.bind fun written => written[i]?).getD false && (renamed i).isSome

/-- `completeEdit`, which throws for an editor that is not current. Without success it deletes
the dirty files, which `deletable` tells. -/
def completeEdit (c : Cache) (cfg : Config) (editor : Handle) (success : Bool)
    (renamed : Nat → Option Int64) (deletable : Bool) : Cache :=
  match c.editorOf editor with
  | none => c
  | some (e, current) =>
      if success && (e.readable || complete cfg.valueCount current renamed) then
        c.publishEdit cfg.maxSize editor.key e renamed
      else if deletable then c.abortEdit cfg.maxSize editor.key e
      else c

/-- `remove`, and whether it throws. The first `deleted` files can be deleted. -/
def remove (c : Cache) (cfg : Config) (key : Key) (deleted : Nat) : Cache × Bool :=
  if c.journalWriter && validateKey key then
    match find c.lruEntries key with
    | none => (c, false)
    | some e =>
        let c := { c with lruEntries := touch c.lruEntries key }
        if e.currentEditor.isSome then (c, false)
        else if deleted < cfg.valueCount then
          ({ c with
              size := c.size - lengthOf (e.lengths.take deleted)
              lruEntries := modify c.lruEntries key fun e =>
                { e with
                  lengths := List.replicate deleted 0 ++ e.lengths.drop deleted } },
            true)
        else
          let c := { c.write (.remove key) with
            size := c.size - lengthOf e.lengths
            redundantOpCount := c.redundantOpCount + 1
            lruEntries := erase c.lruEntries key }
          (if c.journalRebuildRequired then c.submit else c, false)
  else (c, true)

/-- `trimToSize`, and whether it throws. Each call of `remove` takes one of the numbers of
files that can be deleted. There is no result where the loop goes on behind the last. -/
def trimToSize (cfg : Config) : List Nat → Cache → Option (Cache × Bool)
  | [], c =>
      if c.size ≤ cfg.maxSize then some (c, false)
      else if c.lruEntries.isEmpty then some (c, true)
      else none
  | deleted :: deletions, c =>
      if c.size ≤ cfg.maxSize then some (c, false)
      else
        match c.lruEntries.head? with
        | none => some (c, true)
        | some eldest =>
            match c.remove cfg eldest.1 deleted with
            | (c, true) => some (c, true)
            | (c, false) => trimToSize cfg deletions c

/-- `newOutputStream`, which throws for an editor that is not current. -/
def newOutputStream (c : Cache) (editor : Handle) (index : Nat) : Cache :=
  match c.editorOf editor with
  | none => c
  | some (_, current) =>
      { c with
        lruEntries := modify c.lruEntries editor.key fun e =>
          { e with
            currentEditor := some { current with
              written := if e.readable then current.written
                else current.written.map fun written => written.set index true } } }

/-- A write to a stream of the editor fails. -/
def fault (c : Cache) (editor : Handle) : Cache :=
  match c.editorOf editor with
  | none => c
  | some (_, current) =>
      { c with
        lruEntries := modify c.lruEntries editor.key fun e =>
          { e with currentEditor := some { current with hasErrors := true } } }

/-- `commit`. An edit with errors is not published, and the entry is removed. -/
def commit (c : Cache) (cfg : Config) (editor : Handle) (renamed : Nat → Option Int64)
    (deletable : Bool) (deleted : Nat) : Cache :=
  match c.editorOf editor with
  | none => c
  | some (_, current) =>
      if current.hasErrors then
        if deletable then
          ((c.completeEdit cfg editor false renamed true).remove cfg editor.key deleted).1
        else c
      else c.completeEdit cfg editor true renamed deletable

def abort (c : Cache) (cfg : Config) (editor : Handle) (deletable : Bool) : Cache :=
  c.completeEdit cfg editor false (fun _ => none) deletable

/-- The clean-up task. It returns where the cache is closed, and rebuilds the journal only
where `trimToSize` does not throw. -/
def cleanup (c : Cache) (cfg : Config) (deletions : List Nat) : Option Cache :=
  let c := { c with submitted := c.submitted - 1 }
  if !c.journalWriter then some c
  else
    match c.trimToSize cfg deletions with
    | none => none
    | some (c, true) => some c
    | some (c, false) =>
        if c.journalRebuildRequired then some { c.rebuildJournal with redundantOpCount := 0 }
        else some c

def flush (c : Cache) (cfg : Config) (deletions : List Nat) : Option Cache :=
  if c.journalWriter then (c.trimToSize cfg deletions).map Prod.fst else some c

/-- The loop of `close` over the entries as they were. `deletable` tells for each editor
whether its dirty files can be deleted; the loop ends with the first that throws. -/
def abortAll (cfg : Config) : Entries → List Bool → Cache → Cache × Bool
  | [], _, c => (c, false)
  | (key, e) :: entries, deletable, c =>
      match e.currentEditor with
      | none => abortAll cfg entries deletable c
      | some current =>
          match deletable with
          | true :: deletable =>
              abortAll cfg entries deletable (c.abort cfg ⟨key, current.number⟩ true)
          | _ => (c, true)

def close (c : Cache) (cfg : Config) (deletable : List Bool) (deletions : List Nat) :
    Option Cache :=
  if !c.journalWriter then some c
  else
    match abortAll cfg c.lruEntries deletable c with
    | (c, true) => some c
    | (c, false) =>
        match c.trimToSize cfg deletions with
        | none => none
        | some (c, true) => some c
        | some (c, false) => some { c with journalWriter := false }

end Cache

inductive Act where
  | get (key : Key) (opens : Bool)
  | edit (key : Key) (expectedSequenceNumber : Option Nat)
  | newOutputStream (editor : Handle) (index : Nat)
  | fault (editor : Handle)
  | commit (editor : Handle) (renamed : Nat → Option Int64) (deletable : Bool) (deleted : Nat)
  | abort (editor : Handle) (deletable : Bool)
  | remove (key : Key) (deleted : Nat)
  | flush (deletions : List Nat)
  | cleanup (deletions : List Nat)
  | close (deletable : List Bool) (deletions : List Nat)

/-- There is no step where `trimToSize` goes on for ever, nor for a task that was not
submitted. -/
def step (cfg : Config) (c : Cache) : Act → Option Cache
  | .get key opens => some (c.get key opens).1
  | .edit key expected => some (c.edit cfg.valueCount key expected).1
  | .newOutputStream editor index => some (c.newOutputStream editor index)
  | .fault editor => some (c.fault editor)
  | .commit editor renamed deletable deleted =>
      some (c.commit cfg editor renamed deletable deleted)
  | .abort editor deletable => some (c.abort cfg editor deletable)
  | .remove key deleted => some (c.remove cfg key deleted).1
  | .flush deletions => c.flush cfg deletions
  | .cleanup deletions => if c.submitted = 0 then none else c.cleanup cfg deletions
  | .close deletable deletions => c.close cfg deletable deletions

end Meet.DiskLruCache.Journal
