import Mathlib.Data.List.Induction
import Meet.DiskLruCache.JournalFile

/-! What a journal says of a key is its last line about the key, `READ` lines apart. -/
namespace Meet.DiskLruCache.Journal
open LinkedMap

/-- The lengths of an entry that can be read and is not edited. -/
def Entry.published (e : Entry) : Option (List Int64) :=
  if e.readable && e.currentEditor.isNone then some e.lengths else none

def published (entries : Entries) (key : Key) : Option (List Int64) :=
  (find entries key).bind Entry.published

/-- What a line says of the values of its key. -/
inductive Verdict where
  | silent
  | lost
  | kept (lengths : List Int64)
deriving DecidableEq, Repr

def Line.verdict : Line → Verdict
  | .clean _ lengths => .kept lengths
  | .dirty _ => .lost
  | .remove _ => .lost
  | .read _ => .silent

/-- The lengths in the last line about the key that is not a `READ` line, where that is a
`CLEAN` line. -/
def settled (lines : List Line) (key : Key) : Option (List Int64) :=
  match (lines.filter fun line => line.key = key ∧ line.verdict ≠ .silent).getLast?.map
    Line.verdict with
  | some (.kept lengths) => some lengths
  | _ => none

theorem find_getOrPut (valueCount : Nat) (entries : Entries) (key other : Key) :
    find (getOrPut valueCount entries key) other =
      if other = key then some ((find entries key).getD (Entry.new valueCount))
      else find entries other := by
  unfold getOrPut
  cases hFind : find entries key with
  | none => by_cases hOther : other = key <;> simp [hOther]
  | some e => by_cases hOther : other = key <;> simp [hOther, hFind]

/-- The entry of a key after a line about it. -/
theorem find_apply (valueCount : Nat) (entries : Entries) (line : Line) (key : Key) :
    find (line.apply valueCount entries) key =
      if key = line.key then
        match line with
        | .clean _ lengths =>
            some { (find entries key).getD (Entry.new valueCount) with
              readable := true, currentEditor := none, lengths := lengths }
        | .dirty _ =>
            some { (find entries key).getD (Entry.new valueCount) with
              currentEditor := some (Editor.new valueCount 0
                ((find entries key).getD (Entry.new valueCount))) }
        | .remove _ => none
        | .read _ => some ((find entries key).getD (Entry.new valueCount))
      else find entries key := by
  cases line with
  | clean lineKey lengths =>
      by_cases hKey : key = lineKey <;> simp [Line.apply, Line.key, find_getOrPut, hKey]
  | dirty lineKey =>
      by_cases hKey : key = lineKey <;> simp [Line.apply, Line.key, find_getOrPut, hKey]
  | remove lineKey =>
      by_cases hKey : key = lineKey <;> simp [Line.apply, Line.key, hKey]
  | read lineKey =>
      by_cases hKey : key = lineKey <;> simp [Line.apply, Line.key, find_getOrPut, hKey]

theorem published_apply (valueCount : Nat) (entries : Entries) (line : Line) (key : Key) :
    published (line.apply valueCount entries) key =
      if key = line.key then
        match line.verdict with
        | .kept lengths => some lengths
        | .lost => none
        | .silent => published entries key
      else published entries key := by
  unfold published
  rw [find_apply]
  by_cases hKey : key = line.key
  · rw [if_pos hKey, if_pos hKey]
    cases line with
    | clean lineKey lengths => simp [Line.verdict, Entry.published]
    | dirty lineKey => simp [Line.verdict, Entry.published]
    | remove lineKey => rfl
    | read lineKey =>
        cases find entries key with
        | none => rfl
        | some e => rfl
  · rw [if_neg hKey, if_neg hKey]

theorem keyed_getOrPut {valueCount : Nat} {entries : Entries} (hKeyed : Keyed entries)
    (key : Key) : Keyed (getOrPut valueCount entries key) := by
  unfold getOrPut
  split
  · exact keyed_touch hKeyed key
  · exact keyed_put hKeyed key _

theorem keyed_apply {valueCount : Nat} {entries : Entries} (hKeyed : Keyed entries)
    (line : Line) : Keyed (line.apply valueCount entries) := by
  cases line with
  | clean key lengths =>
      rw [Line.apply]
      exact keyed_modify (keyed_getOrPut hKeyed key) key _
  | dirty key =>
      rw [Line.apply]
      exact keyed_modify (keyed_getOrPut hKeyed key) key _
  | remove key => exact keyed_erase hKeyed key
  | read key => exact keyed_getOrPut hKeyed key

theorem replay_append (cfg : Config) (lines : List Line) (line : Line) :
    replay cfg (lines ++ [line]) = line.apply cfg.valueCount (replay cfg lines) := by
  simp [replay]

theorem keyed_replay (cfg : Config) (lines : List Line) : Keyed (replay cfg lines) := by
  unfold replay
  suffices h : ∀ entries : Entries, Keyed entries →
      Keyed (lines.foldl (fun entries line => line.apply cfg.valueCount entries) entries) from
    h [] keyed_nil
  induction lines with
  | nil => exact fun _ hKeyed => hKeyed
  | cons line lines ih => exact fun entries hKeyed => ih _ (keyed_apply hKeyed line)

theorem settled_append (lines : List Line) (line : Line) (key : Key) :
    settled (lines ++ [line]) key =
      if key = line.key then
        match line.verdict with
        | .kept lengths => some lengths
        | .lost => none
        | .silent => settled lines key
      else settled lines key := by
  unfold settled
  rw [List.filter_append]
  by_cases hKey : key = line.key
  · cases hVerdict : line.verdict <;> simp [hKey, hVerdict]
  · have hNe : line.key ≠ key := fun hEq => hKey hEq.symm
    simp [hKey, hNe]

/-- Replaying a journal finds the last line about each key. -/
theorem published_replay (cfg : Config) (lines : List Line) (key : Key) :
    published (replay cfg lines) key = settled lines key := by
  induction lines using List.reverseRecOn with
  | nil => rfl
  | append_singleton lines line ih =>
      rw [replay_append, published_apply, settled_append, ih]

/-! ### After `processJournal` -/

/-- Only edited entries are dropped. -/
theorem find_processJournal {entries : Entries} (hKeyed : Keyed entries) (key : Key) :
    find (processJournal entries).1 key =
      (find entries key).filter fun e => e.currentEditor.isNone :=
  find_filter hKeyed (fun e => e.currentEditor.isNone) key

theorem published_processJournal {entries : Entries} (hKeyed : Keyed entries) (key : Key) :
    published (processJournal entries).1 key = published entries key := by
  unfold published
  rw [find_processJournal hKeyed]
  cases hFind : find entries key with
  | none => rfl
  | some e =>
      cases hEditor : e.currentEditor with
      | none => simp [hEditor, Option.filter]
      | some current => simp [hEditor, Option.filter, Entry.published]

theorem keyed_processJournal {entries : Entries} (hKeyed : Keyed entries) :
    Keyed (processJournal entries).1 :=
  (List.filter_sublist.map Prod.fst).nodup hKeyed

end Meet.DiskLruCache.Journal
