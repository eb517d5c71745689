import Mathlib.Data.List.Induction
import Meet.Common.SqlText

/-! `scanImpl` of `MediaScannerService.java` over the video table and the storage. The rows
of step 1 are removed by `VideoTable.delete`, which deletes their files too. -/
namespace Meet.MediaScannerService
open SqlText

abbrev Path := Text

inductive Kind where
  | file
  | directory
  | other
deriving DecidableEq, Repr

/-- A file or directory of the storage. -/
structure Node where
  inode : Nat
  kind : Kind
  readable : Bool
deriving DecidableEq, Repr

/-- A row of the video table; the other columns are read by nothing below. -/
structure Row where
  id : Nat
  path : Path
deriving DecidableEq, Repr

/-- What the code takes from the system. Several paths may name one node. `deletable` is the
answer of `File.delete` for an existing path, and `isVideo` the match of the file name with
`sRegMimeType`. -/
structure Platform where
  resolve : Path → Option Nat
  deletable : List Node → Path → Bool
  listFiles : List Node → Path → Option (List Path)
  getName : Path → Text
  isVideo : Text → Bool
  getMediaInfo : Path → Bool
  mediaStore : List Path

/-- SQLite reads a condition of at most `limit` bytes. A list of literals is a test for
membership; `other` is what any other text means, where it has a meaning. -/
structure Sqlite where
  limit : Nat
  other : Text → Option (Row → Bool)

structure State where
  rows : List Row
  nextId : Nat
  storage : List Node
deriving DecidableEq, Repr

section

variable (platform : Platform)

/-! ### Files -/

def node? (storage : List Node) (path : Path) : Option Node :=
  (platform.resolve path).bind fun inode => storage.find? fun node => node.inode = inode

/-- `IoUtil.isAccessible`. -/
def isAccessible (storage : List Node) (path : Path) : Bool :=
  (node? platform storage path).any Node.readable

/-- The path names a file that `File.delete` deletes. -/
def removable (storage : List Node) (path : Path) : Bool :=
  (node? platform storage path).isSome && platform.deletable storage path

/-- `IoUtil.delete`, which asks only whether the file exists. -/
def delete (storage : List Node) (path : Path) : List Node :=
  match node? platform storage path with
  | some node =>
      if platform.deletable storage path then storage.filter fun other => other.inode ≠ node.inode
      else storage
  | none => storage

/-! ### Step 1 -/

/-- The text before the literals of the condition. -/
def selectionHead : Text := [' ', '_', 'd', 'a', 't', 'a', ' ', 'I', 'N', ' ', '(']

/-- The bytes of a text in UTF-8. -/
def utf8Length (text : Text) : Nat := (text.map Char.utf8Size).sum

def Sqlite.select (sqlite : Sqlite) (text : Text) : Option (Row → Bool) :=
  if utf8Length text ≤ sqlite.limit then
    match readList selectionHead text with
    | some paths => some fun row => row.path ∈ paths
    | none => sqlite.other text
  else none

/-- One round of the loop: the path is formatted into the condition as it is. -/
def appendPath (text : Text) (path : Path) : Text :=
  text ++ (if text.isEmpty then quote path else [',', ' '] ++ quote path)

def inaccessiblePaths (s : State) : List Path :=
  (s.rows.map Row.path).filter fun path => !isAccessible platform s.storage path

/-- `VideoTable.delete` of the rows that a condition selects. A condition that SQLite
rejects throws. -/
def deleteRows (sqlite : Sqlite) (s : State) (text : Text) : Option State :=
  (sqlite.select text).map fun selected =>
    { s with
      rows := s.rows.filter fun row => !selected row
      storage := ((s.rows.filter selected).map Row.path).foldl (delete platform) s.storage }

def removeMissing (sqlite : Sqlite) (s : State) : Option State :=
  let text := (inaccessiblePaths platform s).foldl appendPath []
  if text.isEmpty then some s
  else deleteRows platform sqlite s (selectionHead ++ (text ++ [')']))

/-! ### Steps 2 to 4 -/

/-- `FileFilterImpl.accept`. -/
def accept (storage : List Node) (path : Path) : Bool :=
  let name := platform.getName path
  isAccessible platform storage path &&
    !(name.head? = some '.' && name ≠ ['.', 'p', 'p', 's']) &&
    ((node? platform storage path).any (fun node => node.kind = .directory) ||
      ((node? platform storage path).any (fun node => node.kind = .file) && platform.isVideo name))

/-- `save` inserts a row. -/
def save (s : State) (path : Path) : State :=
  { s with rows := s.rows ++ [⟨s.nextId, path⟩], nextId := s.nextId + 1 }

/-- Step 2: the paths of the media store that the table does not have. -/
def mergeStore (s : State) : State :=
  (platform.mediaStore.filter fun path =>
    path ∉ s.rows.map Row.path && accept platform s.storage path).foldl save s

/-- The stack of `Scanner.scan`, which ends when the stack is empty; a directory that
contains itself through a link keeps it going as long as the fuel lasts. -/
def scanStack (storage : List Node) (recursively : Bool) : Nat → List Path → List Path
  | fuel + 1, path :: stack =>
      if !isAccessible platform storage path then scanStack storage recursively fuel stack
      else if (node? platform storage path).any (fun node => node.kind = .directory) then
        let subFiles :=
          if recursively then
            ((platform.listFiles storage path).getD []).filter (accept platform storage)
          else []
        scanStack storage recursively fuel (subFiles.reverse ++ stack)
      else if (node? platform storage path).any (fun node => node.kind = .file) then
        path :: scanStack storage recursively fuel stack
      else scanStack storage recursively fuel stack
  | _, _ => []

/-- `Scanner.scan` of a file or of what a directory lists. -/
def scanFiles (fuel : Nat) (storage : List Node) (filepath : Path) (recursively : Bool) :
    List Path :=
  if isAccessible platform storage filepath then
    if (node? platform storage filepath).any (fun node => node.kind = .directory) then
      scanStack platform storage recursively fuel
        (((platform.listFiles storage filepath).getD []).filter (accept platform storage)).reverse
    else scanStack platform storage recursively fuel [filepath]
  else []

/-- Steps 3 and 4: the videos on the storage that the table does not have. -/
def addScanned (fuel : Nat) (s : State) (filepath : Path) (recursively : Bool) : State :=
  ((scanFiles platform fuel s.storage filepath recursively).eraseDups.filter fun path =>
    path ∉ s.rows.map Row.path && platform.getMediaInfo path).foldl save s

/-- A rejected condition ends the scan. -/
def scanImpl (sqlite : Sqlite) (fuel : Nat) (filepath : Path) (recursively : Bool) (s : State) :
    State :=
  match removeMissing platform sqlite s with
  | none => s
  | some s => addScanned platform fuel (mergeStore platform s) filepath recursively

/-- The scan leaves every file in place, and step 1 keeps every row of an accessible file. -/
def Safe (sqlite : Sqlite) (fuel : Nat) (filepath : Path) (recursively : Bool) (s : State) : Prop :=
  (∀ node ∈ s.storage, node ∈ (scanImpl platform sqlite fuel filepath recursively s).storage) ∧
  ∀ row ∈ s.rows, isAccessible platform s.storage row.path = true →
    row ∈ ((removeMissing platform sqlite s).getD s).rows

end

/-! ### Storage -/

section

variable {platform : Platform}

theorem delete_subset (storage : List Node) (path : Path) :
    delete platform storage path ⊆ storage := by
  unfold delete
  split
  · split
    · exact List.filter_subset_self _
    · exact List.Subset.refl _
  · exact List.Subset.refl _

theorem delete_of_not_removable {storage : List Node} {path : Path}
    (hKept : removable platform storage path = false) : delete platform storage path = storage := by
  unfold removable at hKept
  unfold delete
  split
  · rename_i node hNode
    rw [if_neg (by simpa [hNode] using hKept)]
  · rfl

theorem delete_of_removable {storage : List Node} {path : Path}
    (hRemoved : removable platform storage path = true) :
    ∃ node ∈ storage, node ∉ delete platform storage path := by
  unfold removable at hRemoved
  cases hNode : node? platform storage path with
  | none => simp [hNode] at hRemoved
  | some node =>
      have hMem : node ∈ storage := by
        obtain ⟨inode, -, hFind⟩ := Option.bind_eq_some_iff.mp hNode
        exact List.mem_of_find?_eq_some hFind
      have hDeletable : platform.deletable storage path = true := by
        simpa [hNode] using hRemoved
      exact ⟨node, hMem, by simp [delete, hNode, hDeletable]⟩

theorem deleteAll_subset (paths : List Path) (storage : List Node) :
    paths.foldl (delete platform) storage ⊆ storage := by
  induction paths generalizing storage with
  | nil => exact List.Subset.refl _
  | cons path rest ih => exact List.Subset.trans (ih _) (delete_subset storage path)

/-- The loop deletes nothing exactly when no path of it can be deleted at its start. -/
theorem deleteAll_keeps_iff (paths : List Path) (storage : List Node) :
    (∀ node ∈ storage, node ∈ paths.foldl (delete platform) storage) ↔
      ∀ path ∈ paths, removable platform storage path = false := by
  induction paths with
  | nil => simp
  | cons path rest ih =>
      cases hFirst : removable platform storage path with
      | false =>
          simp only [List.foldl_cons, delete_of_not_removable hFirst, ih, List.forall_mem_cons,
            hFirst, true_and]
      | true =>
          obtain ⟨node, hMem, hGone⟩ := delete_of_removable hFirst
          constructor
          · intro hKeeps
            exact absurd (deleteAll_subset rest _ (hKeeps node hMem)) hGone
          · intro hNone
            simp [hNone path List.mem_cons_self] at hFirst

theorem storage_save (paths : List Path) (s : State) : (paths.foldl save s).storage = s.storage := by
  induction paths generalizing s with
  | nil => rfl
  | cons path rest ih => exact ih (save s path)

/-- Steps 2 to 4 write only to the table. -/
theorem storage_scanImpl (sqlite : Sqlite) (fuel : Nat) (filepath : Path) (recursively : Bool)
    (s : State) : (scanImpl platform sqlite fuel filepath recursively s).storage =
      ((removeMissing platform sqlite s).getD s).storage := by
  unfold scanImpl
  cases removeMissing platform sqlite s with
  | none => rfl
  | some s => simp only [addScanned, mergeStore, storage_save, Option.getD_some]

/-! ### The condition -/

/-- The loop of step 1 builds the list of literals. -/
theorem foldl_appendPath (paths : List Path) : paths.foldl appendPath [] = quoteAll paths := by
  induction paths using List.reverseRecOn with
  | nil => rfl
  | append_singleton paths path ih =>
      simp only [List.foldl_append, List.foldl_cons, List.foldl_nil, ih, appendPath]
      by_cases hEmpty : paths = []
      · subst hEmpty
        rfl
      · have hText : quoteAll paths ≠ [] := fun h => hEmpty (quoteAll_eq_nil.mp h)
        rw [if_neg (by simpa using hText), quoteAll_snoc hEmpty, List.append_assoc]

/-- The condition of step 1 for the given paths. -/
def selection (paths : List Path) : Text := selectionHead ++ (quoteAll paths ++ [')'])

theorem removeMissing_of_nil {sqlite : Sqlite} {s : State}
    (hNone : inaccessiblePaths platform s = []) : removeMissing platform sqlite s = some s := by
  simp [removeMissing, hNone]

theorem removeMissing_of_ne_nil {sqlite : Sqlite} {s : State}
    (hSome : inaccessiblePaths platform s ≠ []) :
    removeMissing platform sqlite s =
      deleteRows platform sqlite s (selection (inaccessiblePaths platform s)) := by
  have hText : quoteAll (inaccessiblePaths platform s) ≠ [] :=
    fun h => hSome (quoteAll_eq_nil.mp h)
  simp only [removeMissing, foldl_appendPath, List.isEmpty_iff, hText, if_false, selection]

/-- Plain paths are selected as they are. -/
theorem select_selection {sqlite : Sqlite} {paths : List Path}
    (hPlain : ∀ path ∈ paths, Plain path) (hSome : paths ≠ [])
    (hLimit : utf8Length (selection paths) ≤ sqlite.limit) :
    sqlite.select (selection paths) = some fun row => decide (row.path ∈ paths) := by
  unfold Sqlite.select
  rw [if_pos hLimit]
  simp only [selection, readList_quoteAll selectionHead hPlain (by decide) hSome]

theorem select_of_limit_lt {sqlite : Sqlite} {text : Text}
    (hLimit : sqlite.limit < utf8Length text) :
    sqlite.select text = none := by
  unfold Sqlite.select
  rw [if_neg (by omega)]

theorem mem_inaccessiblePaths {s : State} {path : Path} :
    path ∈ inaccessiblePaths platform s ↔
      (∃ row ∈ s.rows, row.path = path) ∧ isAccessible platform s.storage path = false := by
  simp [inaccessiblePaths]

variable {sqlite : Sqlite} {fuel : Nat} {filepath : Path} {recursively : Bool} {s : State}

theorem plain_inaccessiblePaths (hPlain : ∀ row ∈ s.rows,
    isAccessible platform s.storage row.path = false → Plain row.path) :
    ∀ path ∈ inaccessiblePaths platform s, Plain path := by
  intro path hPath
  obtain ⟨⟨row, hRow, rfl⟩, hMissing⟩ := mem_inaccessiblePaths.mp hPath
  exact hPlain row hRow hMissing

theorem safe_of_unchanged (hSame : (removeMissing platform sqlite s).getD s = s) :
    Safe platform sqlite fuel filepath recursively s := by
  refine ⟨?_, ?_⟩
  · rw [storage_scanImpl, hSame]
    exact fun node hNode => hNode
  · rw [hSame]
    exact fun row hRow _ => hRow

/-- A condition that selects exactly the rows of inaccessible files. -/
theorem safe_iff_of_select (hSome : inaccessiblePaths platform s ≠ [])
    (hSelect : sqlite.select (selection (inaccessiblePaths platform s)) =
      some fun row => decide (row.path ∈ inaccessiblePaths platform s)) :
    Safe platform sqlite fuel filepath recursively s ↔
      ∀ row ∈ s.rows, isAccessible platform s.storage row.path = false →
        removable platform s.storage row.path = false := by
  have hStep : removeMissing platform sqlite s = _ := removeMissing_of_ne_nil hSome
  simp only [deleteRows, hSelect, Option.map_some] at hStep
  have hRows : ∀ row ∈ s.rows, isAccessible platform s.storage row.path = true →
      row ∈ ((removeMissing platform sqlite s).getD s).rows := by
    intro row hRow hAccessible
    simp only [hStep, Option.getD_some, List.mem_filter, hRow, true_and]
    simp [mem_inaccessiblePaths, hAccessible]
  have hPaths : (∀ path ∈ (s.rows.filter fun row =>
        decide (row.path ∈ inaccessiblePaths platform s)).map Row.path,
        removable platform s.storage path = false) ↔
      ∀ row ∈ s.rows, isAccessible platform s.storage row.path = false →
        removable platform s.storage row.path = false := by
    simp only [List.forall_mem_map, List.mem_filter, decide_eq_true_eq, mem_inaccessiblePaths]
    constructor
    · intro hKept row hRow hMissing
      exact hKept row ⟨hRow, ⟨row, hRow, rfl⟩, hMissing⟩
    · rintro hKept row ⟨hRow, -, hMissing⟩
      exact hKept row hRow hMissing
  rw [← hPaths, ← deleteAll_keeps_iff]
  unfold Safe
  rw [storage_scanImpl]
  constructor
  · rintro ⟨hKept, -⟩
    rw [hStep] at hKept
    exact hKept
  · intro hKept
    refine ⟨?_, hRows⟩
    rw [hStep]
    exact hKept

/-- Where the paths of the inaccessible files can be quoted as they are, a scan is safe
exactly when none of these files exists and can be deleted, or the condition is too long. -/
theorem scan_safe_iff (hPlain : ∀ row ∈ s.rows,
    isAccessible platform s.storage row.path = false → Plain row.path) :
    Safe platform sqlite fuel filepath recursively s ↔
      sqlite.limit < utf8Length (selection (inaccessiblePaths platform s)) ∨
      ∀ row ∈ s.rows, isAccessible platform s.storage row.path = false →
        removable platform s.storage row.path = false := by
  have hPlainPaths := plain_inaccessiblePaths hPlain
  by_cases hNone : inaccessiblePaths platform s = []
  · have hUnchanged : (removeMissing platform sqlite s).getD s = s := by
      rw [removeMissing_of_nil hNone]
      rfl
    have hKept : ∀ row ∈ s.rows, isAccessible platform s.storage row.path = false →
        removable platform s.storage row.path = false := by
      intro row hRow hMissing
      have hPath := mem_inaccessiblePaths.mpr ⟨⟨row, hRow, rfl⟩, hMissing⟩
      rw [hNone] at hPath
      simp at hPath
    exact ⟨fun _ => Or.inr hKept, fun _ => safe_of_unchanged hUnchanged⟩
  · by_cases hLimit : sqlite.limit < utf8Length (selection (inaccessiblePaths platform s))
    · have hUnchanged : (removeMissing platform sqlite s).getD s = s := by
        rw [removeMissing_of_ne_nil hNone]
        simp [deleteRows, select_of_limit_lt hLimit]
      exact ⟨fun _ => Or.inl hLimit, fun _ => safe_of_unchanged hUnchanged⟩
    · have hSelect := select_selection hPlainPaths hNone (Nat.le_of_not_lt hLimit)
      rw [safe_iff_of_select hNone hSelect]
      exact ⟨Or.inr, fun h => h.resolve_left hLimit⟩

end

/-! ### Scans of two rows -/

/-- Every character of a path names a node of its own number; every node can be deleted. -/
def onePlatform : Platform where
  resolve := fun path => if path.length = 1 then path.head?.map Char.toNat else none
  deletable := fun _ _ => true
  listFiles := fun _ _ => none
  getName := fun path => path
  isVideo := fun _ => true
  getMediaInfo := fun _ => true
  mediaStore := []

def oneSqlite : Sqlite := ⟨1000000, fun _ => none⟩

/-- The file of the first row is readable, and that of the second does not exist. -/
def missingFile : State := ⟨[⟨0, ['a']⟩, ⟨1, ['b']⟩], 2, [⟨97, .file, true⟩]⟩

/-- The file of the second row exists and cannot be read. -/
def unreadableFile : State :=
  ⟨[⟨0, ['a']⟩, ⟨1, ['b']⟩], 2, [⟨97, .file, true⟩, ⟨98, .file, false⟩]⟩

/-- The path of the second row ends a literal and begins the path of the first. -/
def quotedPath : State :=
  ⟨[⟨0, ['a']⟩, ⟨1, ['b', apostrophe, ',', ' ', apostrophe, 'a']⟩], 2, [⟨97, .file, true⟩]⟩

theorem scan_safe_iff_missing :
    Safe onePlatform oneSqlite 3 ['a'] true missingFile ∧
    (removeMissing onePlatform oneSqlite missingFile).map State.rows = some [⟨0, ['a']⟩] :=
  ⟨(scan_safe_iff (by decide +kernel)).mpr (Or.inr (by decide +kernel)), by decide +kernel⟩

/-- A file that exists and cannot be read is deleted, and so is the accessible file that a
path with apostrophes names. -/
theorem not_scan_safe :
    ¬ Safe onePlatform oneSqlite 3 ['a'] true unreadableFile ∧
    ¬ Safe onePlatform oneSqlite 3 ['a'] true quotedPath := by
  unfold Safe
  decide +kernel

end Meet.MediaScannerService
