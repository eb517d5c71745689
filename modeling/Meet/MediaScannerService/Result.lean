import Meet.Common.Walk
import Meet.MediaScannerService.ScanImpl
import Meet.Scanner.Scan

/-! What `scanImpl` leaves in the video table. Step 1 keeps the rows of accessible files, steps 2
and 4 add what the table does not have, and a second scan finds nothing to do. -/
namespace Meet.MediaScannerService
open SqlText Walk

section

variable (platform : Platform)

def isDirectory (storage : List Node) (path : Path) : Bool :=
  (node? platform storage path).any fun node => node.kind = .directory

def isFile (storage : List Node) (path : Path) : Bool :=
  (node? platform storage path).any fun node => node.kind = .file

def listing (storage : List Node) (path : Path) : List Path :=
  (platform.listFiles storage path).getD []

/-- What `Scanner.scan` puts on the stack for a path that it has taken from it. -/
def subFiles (storage : List Node) (recursively : Bool) (path : Path) : List Path :=
  if isAccessible platform storage path && isDirectory platform storage path && recursively then
    ((listing platform storage path).filter (accept platform storage)).reverse
  else []

/-- The paths that `Scanner.scan` reports when it takes them from the stack. -/
def isScanned (storage : List Node) (path : Path) : Bool :=
  isAccessible platform storage path && !isDirectory platform storage path &&
    isFile platform storage path

/-- The stack before its first pass. -/
def firstStack (storage : List Node) (filepath : Path) : List Path :=
  if isAccessible platform storage filepath then
    if isDirectory platform storage filepath then
      ((listing platform storage filepath).filter (accept platform storage)).reverse
    else [filepath]
  else []

/-- The storage as `Scanner.scan` sees it. -/
def fileSystem (storage : List Node) : Scanner.FileSystem Path where
  fileExists := fun path => (node? platform storage path).isSome
  canRead := isAccessible platform storage
  isDirectory := isDirectory platform storage
  isFile := isFile platform storage
  listFiles := platform.listFiles storage

/-- Step 1 does not throw, and the walk of step 3 ends. -/
def completes (sqlite : Sqlite) (fuel : Nat) (filepath : Path) (recursively : Bool) (s : State) :
    Bool :=
  (removeMissing platform sqlite s).any fun s =>
    ends (subFiles platform s.storage recursively) fuel (firstStack platform s.storage filepath)

/-- What the walk comes to from a directory: what the directory lists and, in a walk that goes
on, what the directories below it list that the filter accepts. -/
inductive Walked (storage : List Node) (recursively : Bool) (root : Path) : Path → Prop where
  | listed {path : Path} (accessible : isAccessible platform storage root = true)
      (mem : path ∈ listing platform storage root) : Walked storage recursively root path
  | deeper {parent path : Path} (walked : Walked storage recursively root parent)
      (goes : recursively = true) (accepted : accept platform storage parent = true)
      (directory : isDirectory platform storage parent = true)
      (mem : path ∈ listing platform storage parent) : Walked storage recursively root path

/-- A directory with no directory below itself. -/
structure Tree (storage : List Node) (root : Path) : Prop where
  directory : isDirectory platform storage root = true
  finite : Acc (fun child parent => child ∈ listing platform storage parent) root

/-- A file that the walk finds and the filter accepts, of which `getMediaInfo` knows. -/
def Found (storage : List Node) (recursively : Bool) (root path : Path) : Prop :=
  Walked platform storage recursively root path ∧ isFile platform storage path = true ∧
    accept platform storage path = true ∧ platform.getMediaInfo path = true

/-- The scan completes, the table has each path that it should have once, and a second scan
changes no row. -/
structure Scanned (sqlite : Sqlite) (fuel : Nat) (filepath : Path) (recursively : Bool)
    (s : State) : Prop where
  completes : completes platform sqlite fuel filepath recursively s = true
  paths : ∀ path, path ∈ (scanImpl platform sqlite fuel filepath recursively s).rows.map Row.path ↔
    (path ∈ s.rows.map Row.path ∧ isAccessible platform s.storage path = true) ∨
    (path ∈ platform.mediaStore ∧ accept platform s.storage path = true) ∨
    Found platform s.storage recursively filepath path
  once : ((scanImpl platform sqlite fuel filepath recursively s).rows.map Row.path).Nodup
  again : (scanImpl platform sqlite fuel filepath recursively
    (scanImpl platform sqlite fuel filepath recursively s)).rows =
      (scanImpl platform sqlite fuel filepath recursively s).rows

end

/-! ### The walk -/

section

variable {platform : Platform} {storage : List Node} {recursively : Bool} {filepath path : Path}
  {fuel : Nat}

theorem scanStack_eq (fuel : Nat) (stack : List Path) :
    scanStack platform storage recursively fuel stack =
      (walk (subFiles platform storage recursively) fuel stack).filter
        (isScanned platform storage) := by
  induction fuel generalizing stack with
  | zero => simp [scanStack, walk]
  | succ fuel ih =>
      cases stack with
      | nil => simp [scanStack, walk]
      | cons path stack =>
          rw [scanStack, walk, List.filter_cons, ← ih, subFiles, isScanned]
          change (if _ then _ else if isDirectory platform storage path then _
            else if isFile platform storage path then _ else _) = _
          cases hAccessible : isAccessible platform storage path <;>
            cases hDirectory : isDirectory platform storage path <;>
            cases hFile : isFile platform storage path <;>
            cases recursively <;> simp [listing]

theorem scanFiles_eq (fuel : Nat) :
    scanFiles platform fuel storage filepath recursively =
      (walk (subFiles platform storage recursively) fuel
        (firstStack platform storage filepath)).filter (isScanned platform storage) := by
  rw [← scanStack_eq, scanFiles, firstStack]
  change (if _ then if isDirectory platform storage filepath then _ else _ else _) = _
  split_ifs
  · rfl
  · rfl
  · cases fuel <;> rfl

theorem isAccessible_fileSystem :
    Scanner.isAccessible (fileSystem platform storage) = isAccessible platform storage := by
  funext path
  rw [Scanner.isAccessible]
  change ((node? platform storage path).isSome && isAccessible platform storage path) = _
  rw [isAccessible]
  cases node? platform storage path <;> rfl

theorem subFiles_fileSystem :
    Scanner.subFiles (fileSystem platform storage) (some (accept platform storage)) recursively =
      subFiles platform storage recursively := by
  funext path
  rw [Scanner.subFiles, isAccessible_fileSystem, subFiles]
  change (if _ && isDirectory platform storage path && _ then _ else _) = _
  split_ifs
  · rw [Scanner.listFiles]
    change (((platform.listFiles storage path).map fun files =>
      files.filter (accept platform storage)).getD []).reverse = _
    rw [listing]
    cases platform.listFiles storage path <;> rfl
  · rfl

theorem isScanned_fileSystem :
    Scanner.isScanned (fileSystem platform storage) = isScanned platform storage := by
  funext path
  rw [Scanner.isScanned, isAccessible_fileSystem]
  rfl

/-- Steps 3 and 4 scan what `Scanner.scan` reports. -/
theorem scan_fileSystem (hEnds : ends (subFiles platform storage recursively) fuel
      (firstStack platform storage filepath) = true) :
    Scanner.scan (fileSystem platform storage) (some (accept platform storage)) recursively fuel
      filepath = some (scanFiles platform fuel storage filepath recursively) := by
  have hLoop : ∀ stack, ends (subFiles platform storage recursively) fuel stack = true →
      Scanner.scanStack (fileSystem platform storage) (some (accept platform storage)) recursively
        fuel stack = some (scanStack platform storage recursively fuel stack) := by
    intro stack hStack
    rw [← subFiles_fileSystem] at hStack
    rw [Scanner.scanStack_eq hStack, subFiles_fileSystem, isScanned_fileSystem, scanStack_eq]
  rw [scanFiles_eq, ← scanStack_eq, ← hLoop _ hEnds, Scanner.scan, isAccessible_fileSystem,
    firstStack]
  change (if _ then if isDirectory platform storage filepath then _ else _ else _) = _
  split_ifs
  · rw [Scanner.listFiles]
    change Scanner.scanFiles _ _ _ _ ((platform.listFiles storage filepath).map fun files =>
      files.filter (accept platform storage)) = _
    rw [listing]
    cases platform.listFiles storage filepath with
    | none => simp [Scanner.scanFiles, Scanner.scanStack]
    | some files => exact Scanner.scanFiles_some _
  · exact Scanner.scanFiles_some _
  · simp [Scanner.scanStack]

theorem isAccessible_of_accept (hAccept : accept platform storage path = true) :
    isAccessible platform storage path = true := by
  simp only [accept, Bool.and_eq_true] at hAccept
  exact hAccept.1.1

theorem mem_subFiles {parent : Path} :
    path ∈ subFiles platform storage recursively parent ↔
      isAccessible platform storage parent = true ∧ isDirectory platform storage parent = true ∧
      recursively = true ∧ path ∈ listing platform storage parent ∧
      accept platform storage path = true := by
  rw [subFiles]
  split_ifs with hOpen
  · simp only [Bool.and_eq_true] at hOpen
    simp [hOpen]
  · simp only [Bool.and_eq_true] at hOpen
    simp only [List.not_mem_nil, false_iff]
    tauto

theorem mem_firstStack (hDirectory : isDirectory platform storage filepath = true) :
    path ∈ firstStack platform storage filepath ↔
      isAccessible platform storage filepath = true ∧ path ∈ listing platform storage filepath ∧
      accept platform storage path = true := by
  cases hAccessible : isAccessible platform storage filepath with
  | false => simp [firstStack, hAccessible]
  | true => simp [firstStack, hAccessible, hDirectory]

/-- The stack comes to what is walked and accepted by the filter. -/
theorem exists_below_iff (hDirectory : isDirectory platform storage filepath = true) :
    (∃ first ∈ firstStack platform storage filepath,
      Below (subFiles platform storage recursively) first path) ↔
    Walked platform storage recursively filepath path ∧ accept platform storage path = true := by
  constructor
  · rintro ⟨first, hFirst, hBelow⟩
    induction hBelow with
    | refl =>
        obtain ⟨hAccessible, hMem, hAccept⟩ := (mem_firstStack hDirectory).mp hFirst
        exact ⟨.listed hAccessible hMem, hAccept⟩
    | tail _ hHangs ih =>
        obtain ⟨hWalked, hParent⟩ := ih
        obtain ⟨-, hInner, hGoes, hMem, hAccept⟩ := mem_subFiles.mp hHangs
        exact ⟨.deeper hWalked hGoes hParent hInner hMem, hAccept⟩
  · rintro ⟨hWalked, hAccept⟩
    induction hWalked with
    | listed hAccessible hMem =>
        exact ⟨_, (mem_firstStack hDirectory).mpr ⟨hAccessible, hMem, hAccept⟩, .refl⟩
    | deeper _ hGoes hParent hInner hMem ih =>
        obtain ⟨first, hFirst, hBelow⟩ := ih hParent
        have hHangs := mem_subFiles.mpr
          ⟨isAccessible_of_accept hParent, hInner, hGoes, hMem, hAccept⟩
        exact ⟨first, hFirst, .tail hBelow hHangs⟩

theorem not_isDirectory_of_isFile (hFile : isFile platform storage path = true) :
    isDirectory platform storage path = false := by
  rw [isFile] at hFile
  rw [isDirectory]
  cases hNode : node? platform storage path with
  | none => rfl
  | some node =>
      have hKind : node.kind = .file := by simpa [hNode] using hFile
      simp [hKind]

theorem isScanned_iff (hAccept : accept platform storage path = true) :
    isScanned platform storage path = true ↔ isFile platform storage path = true := by
  rw [isScanned, isAccessible_of_accept hAccept]
  constructor
  · intro hScanned
    simp only [Bool.and_eq_true] at hScanned
    exact hScanned.2
  · intro hFile
    simp [hFile, not_isDirectory_of_isFile hFile]

theorem mem_scanFiles (hDirectory : isDirectory platform storage filepath = true)
    (hEnds : ends (subFiles platform storage recursively) fuel
      (firstStack platform storage filepath) = true) :
    path ∈ scanFiles platform fuel storage filepath recursively ↔
      Walked platform storage recursively filepath path ∧ isFile platform storage path = true ∧
      accept platform storage path = true := by
  rw [scanFiles_eq, List.mem_filter, mem_walk hEnds, exists_below_iff hDirectory]
  constructor
  · rintro ⟨⟨hWalked, hAccept⟩, hScanned⟩
    exact ⟨hWalked, (isScanned_iff hAccept).mp hScanned, hAccept⟩
  · rintro ⟨hWalked, hFile, hAccept⟩
    exact ⟨⟨hWalked, hAccept⟩, (isScanned_iff hAccept).mpr hFile⟩

/-- The walk of a directory tree ends. -/
theorem Tree.exists_ends (hTree : Tree platform storage filepath) (recursively : Bool) :
    ∃ n, ends (subFiles platform storage recursively) n
      (firstStack platform storage filepath) = true := by
  refine Walk.exists_ends fun first hFirst => ?_
  have hListed := ((mem_firstStack hTree.directory).mp hFirst).2.1
  have hFinite := hTree.finite.inv hListed
  refine Subrelation.accessible (fun hHangs => ?_) hFinite
  exact (mem_subFiles.mp hHangs).2.2.2.1

end

/-! ### The table -/

theorem eraseDups_nodup (paths : List Path) : paths.eraseDups.Nodup := by
  induction hLength : paths.length using Nat.strongRecOn generalizing paths with
  | ind n ih =>
      cases paths with
      | nil => simp
      | cons path rest =>
          rw [List.eraseDups_cons, List.nodup_cons]
          refine ⟨by simp [List.mem_eraseDups], ih _ ?_ _ rfl⟩
          have hLess := List.length_filter_le (fun other => !other == path) rest
          simp only [List.length_cons] at hLength
          omega

theorem paths_save (paths : List Path) (s : State) :
    (paths.foldl save s).rows.map Row.path = s.rows.map Row.path ++ paths := by
  induction paths generalizing s with
  | nil => simp
  | cons path rest ih => simp [ih, save]

theorem save_nodup {paths : List Path} {s : State} (hRows : (s.rows.map Row.path).Nodup)
    (hPaths : paths.Nodup) (hFresh : ∀ path ∈ paths, path ∉ s.rows.map Row.path) :
    ((paths.foldl save s).rows.map Row.path).Nodup := by
  rw [paths_save, List.nodup_append]
  refine ⟨hRows, hPaths, fun path hRow other hOther hSame => ?_⟩
  exact hFresh other hOther (hSame ▸ hRow)

section

variable {platform : Platform} {sqlite : Sqlite} {fuel : Nat} {filepath path : Path}
  {recursively : Bool} {s : State}

theorem deleteAll_eq {paths : List Path} {storage : List Node}
    (hKept : ∀ path ∈ paths, removable platform storage path = false) :
    paths.foldl (delete platform) storage = storage := by
  induction paths with
  | nil => rfl
  | cons path rest ih =>
      rw [List.foldl_cons, delete_of_not_removable (hKept path (by simp))]
      exact ih fun other hOther => hKept other (by simp [hOther])

theorem mem_mergeStore :
    path ∈ (mergeStore platform s).rows.map Row.path ↔
      path ∈ s.rows.map Row.path ∨
      (path ∈ platform.mediaStore ∧ accept platform s.storage path = true) := by
  rw [mergeStore, paths_save, List.mem_append, List.mem_filter]
  simp only [Bool.and_eq_true, decide_eq_true_eq]
  tauto

theorem mem_addScanned :
    path ∈ (addScanned platform fuel s filepath recursively).rows.map Row.path ↔
      path ∈ s.rows.map Row.path ∨
      (path ∈ scanFiles platform fuel s.storage filepath recursively ∧
        platform.getMediaInfo path = true) := by
  rw [addScanned, paths_save, List.mem_append, List.mem_filter, List.mem_eraseDups]
  simp only [Bool.and_eq_true, decide_eq_true_eq]
  tauto

theorem mergeStore_nodup (hRows : (s.rows.map Row.path).Nodup)
    (hStore : platform.mediaStore.Nodup) :
    ((mergeStore platform s).rows.map Row.path).Nodup := by
  refine save_nodup hRows (hStore.filter _) fun path hPath => ?_
  have hNew := (List.mem_filter.mp hPath).2
  simp only [Bool.and_eq_true, decide_eq_true_eq] at hNew
  exact hNew.1

theorem addScanned_nodup (hRows : (s.rows.map Row.path).Nodup) :
    ((addScanned platform fuel s filepath recursively).rows.map Row.path).Nodup := by
  refine save_nodup hRows ((eraseDups_nodup _).filter _) fun path hPath => ?_
  have hNew := (List.mem_filter.mp hPath).2
  simp only [Bool.and_eq_true, decide_eq_true_eq] at hNew
  exact hNew.1

/-- A scan does nothing to a table that has what there is and nothing else. -/
theorem scanImpl_eq_self
    (hRows : ∀ row ∈ s.rows, isAccessible platform s.storage row.path = true)
    (hStore : ∀ path ∈ platform.mediaStore, accept platform s.storage path = true →
      path ∈ s.rows.map Row.path)
    (hFound : ∀ path ∈ scanFiles platform fuel s.storage filepath recursively,
      platform.getMediaInfo path = true → path ∈ s.rows.map Row.path) :
    scanImpl platform sqlite fuel filepath recursively s = s := by
  have hNone : inaccessiblePaths platform s = [] := by
    refine List.eq_nil_iff_forall_not_mem.mpr fun path hPath => ?_
    obtain ⟨⟨row, hRow, rfl⟩, hMissing⟩ := mem_inaccessiblePaths.mp hPath
    rw [hRows row hRow] at hMissing
    cases hMissing
  have hMerge : mergeStore platform s = s := by
    rw [mergeStore, List.filter_eq_nil_iff.mpr, List.foldl_nil]
    intro path hPath hNew
    simp only [Bool.and_eq_true, decide_eq_true_eq] at hNew
    exact hNew.1 (hStore path hPath hNew.2)
  have hScan : addScanned platform fuel s filepath recursively = s := by
    rw [addScanned, List.filter_eq_nil_iff.mpr, List.foldl_nil]
    intro path hPath hNew
    simp only [Bool.and_eq_true, decide_eq_true_eq] at hNew
    exact hNew.1 (hFound path (List.mem_eraseDups.mp hPath) hNew.2)
  simp only [scanImpl, removeMissing_of_nil hNone, hMerge, hScan]

variable (platform) in
/-- The table without the rows of files that are not accessible. -/
def keepAccessible (s : State) : State :=
  { s with rows := s.rows.filter fun row => isAccessible platform s.storage row.path }

/-- Step 1 where it does what it means to do. -/
theorem removeMissing_eq (hPlain : ∀ row ∈ s.rows,
      isAccessible platform s.storage row.path = false → Plain row.path)
    (hFits : inaccessiblePaths platform s ≠ [] →
      utf8Length (selection (inaccessiblePaths platform s)) ≤ sqlite.limit)
    (hStill : ∀ row ∈ s.rows, isAccessible platform s.storage row.path = false →
      removable platform s.storage row.path = false) :
    removeMissing platform sqlite s = some (keepAccessible platform s) := by
  by_cases hNone : inaccessiblePaths platform s = []
  · have hAll : s.rows.filter (fun row => isAccessible platform s.storage row.path) = s.rows := by
      refine List.filter_eq_self.mpr fun row hRow => ?_
      by_contra hMissing
      have hPath := mem_inaccessiblePaths.mpr ⟨⟨row, hRow, rfl⟩, by simpa using hMissing⟩
      simp [hNone] at hPath
    rw [removeMissing_of_nil hNone, keepAccessible, hAll]
  · have hSelected : ∀ row ∈ s.rows, decide (row.path ∈ inaccessiblePaths platform s) =
        !isAccessible platform s.storage row.path := by
      intro row hRow
      have hOld : ∃ old ∈ s.rows, old.path = row.path := ⟨row, hRow, rfl⟩
      simp [mem_inaccessiblePaths, hOld]
    have hStorage : ((s.rows.filter fun row => decide (row.path ∈ inaccessiblePaths platform s)).map
        Row.path).foldl (delete platform) s.storage = s.storage := by
      refine deleteAll_eq fun path hPath => ?_
      obtain ⟨row, hRow, rfl⟩ := List.mem_map.mp hPath
      obtain ⟨hOld, hMissing⟩ := List.mem_filter.mp hRow
      rw [hSelected row hOld] at hMissing
      exact hStill row hOld (by simpa using hMissing)
    have hRows : (s.rows.filter fun row => !decide (row.path ∈ inaccessiblePaths platform s)) =
        s.rows.filter fun row => isAccessible platform s.storage row.path := by
      refine List.filter_congr fun row hRow => ?_
      rw [hSelected row hRow, Bool.not_not]
    rw [removeMissing_of_ne_nil hNone, deleteRows,
      select_selection (plain_inaccessiblePaths hPlain) hNone (hFits hNone), Option.map_some,
      hStorage, hRows, keepAccessible]

theorem mem_keepAccessible :
    path ∈ (keepAccessible platform s).rows.map Row.path ↔
      path ∈ s.rows.map Row.path ∧ isAccessible platform s.storage path = true := by
  simp only [keepAccessible, List.mem_map, List.mem_filter]
  constructor
  · rintro ⟨row, ⟨hRow, hAccessible⟩, rfl⟩
    exact ⟨⟨row, hRow, rfl⟩, hAccessible⟩
  · rintro ⟨⟨row, hRow, rfl⟩, hAccessible⟩
    exact ⟨row, ⟨hRow, hAccessible⟩, rfl⟩

theorem mem_scanImpl (hDirectory : isDirectory platform s.storage filepath = true)
    (hEnds : ends (subFiles platform s.storage recursively) fuel
      (firstStack platform s.storage filepath) = true)
    (hStep : removeMissing platform sqlite s = some (keepAccessible platform s)) :
    path ∈ (scanImpl platform sqlite fuel filepath recursively s).rows.map Row.path ↔
      (path ∈ s.rows.map Row.path ∧ isAccessible platform s.storage path = true) ∨
      (path ∈ platform.mediaStore ∧ accept platform s.storage path = true) ∨
      Found platform s.storage recursively filepath path := by
  have hMerged : (mergeStore platform (keepAccessible platform s)).storage = s.storage :=
    storage_save _ _
  simp only [scanImpl, hStep]
  rw [mem_addScanned, mem_mergeStore, mem_keepAccessible, hMerged, mem_scanFiles hDirectory hEnds,
    or_assoc, Found, and_assoc, and_assoc]
  rfl

/-- A scan whose step 1 keeps exactly the rows of accessible files. -/
theorem scanned_of_removeMissing (hTable : (s.rows.map Row.path).Nodup)
    (hStore : platform.mediaStore.Nodup)
    (hDirectory : isDirectory platform s.storage filepath = true)
    (hEnds : ends (subFiles platform s.storage recursively) fuel
      (firstStack platform s.storage filepath) = true)
    (hStep : removeMissing platform sqlite s = some (keepAccessible platform s)) :
    Scanned platform sqlite fuel filepath recursively s := by
  have hAfter : (scanImpl platform sqlite fuel filepath recursively s).storage = s.storage := by
    rw [storage_scanImpl, hStep]
    rfl
  refine ⟨?_, fun path => mem_scanImpl hDirectory hEnds hStep, ?_, ?_⟩
  · simpa [completes, hStep, keepAccessible] using hEnds
  · have hKept : ((keepAccessible platform s).rows.map Row.path).Nodup :=
      hTable.sublist (List.filter_sublist.map Row.path)
    simp only [scanImpl, hStep]
    exact addScanned_nodup (mergeStore_nodup hKept hStore)
  · refine congrArg State.rows (scanImpl_eq_self ?_ ?_ ?_)
    · intro row hRow
      rw [hAfter]
      have hPath := (mem_scanImpl hDirectory hEnds hStep).mp (List.mem_map_of_mem hRow)
      rcases hPath with hPath | hPath | hPath
      · exact hPath.2
      · exact isAccessible_of_accept hPath.2
      · exact isAccessible_of_accept hPath.2.2.1
    · intro path hPath hAccept
      rw [hAfter] at hAccept
      exact (mem_scanImpl hDirectory hEnds hStep).mpr (.inr (.inl ⟨hPath, hAccept⟩))
    · intro path hPath hInfo
      rw [hAfter, mem_scanFiles hDirectory hEnds] at hPath
      exact (mem_scanImpl hDirectory hEnds hStep).mpr
        (.inr (.inr ⟨hPath.1, hPath.2.1, hPath.2.2, hInfo⟩))

/-- What step 1 keeps stays in the table. -/
theorem mem_scanImpl_of_removeMissing {kept : State}
    (hStep : removeMissing platform sqlite s = some kept) (hPath : path ∈ kept.rows.map Row.path) :
    path ∈ (scanImpl platform sqlite fuel filepath recursively s).rows.map Row.path := by
  simp only [scanImpl, hStep]
  exact mem_addScanned.mpr (.inl (mem_mergeStore.mpr (.inl hPath)))

theorem Scanned.isAccessible (h : Scanned platform sqlite fuel filepath recursively s)
    (hPath : path ∈ (scanImpl platform sqlite fuel filepath recursively s).rows.map Row.path) :
    MediaScannerService.isAccessible platform s.storage path = true := by
  rcases (h.paths path).mp hPath with hOld | hStore | hFound
  · exact hOld.2
  · exact isAccessible_of_accept hStore.2
  · exact isAccessible_of_accept hFound.2.2.1

theorem exists_readList_of_select {text : Text} {selected : Row → Bool}
    (hOther : ∀ text, sqlite.other text = none) (hSelect : sqlite.select text = some selected) :
    utf8Length text ≤ sqlite.limit ∧ ∃ literals, readList selectionHead text = some literals ∧
      selected = fun row => decide (row.path ∈ literals) := by
  rw [Sqlite.select] at hSelect
  split_ifs at hSelect with hFits
  cases hRead : readList selectionHead text with
  | none => simp [hRead, hOther] at hSelect
  | some literals =>
      simp only [hRead, Option.some.injEq] at hSelect
      exact ⟨hFits, literals, rfl, hSelect.symm⟩

/-- A scan that completes and drops the rows of all files that are not accessible names all of
them in its condition. -/
theorem Scanned.exists_readList (h : Scanned platform sqlite fuel filepath recursively s)
    (hOther : ∀ text, sqlite.other text = none) (hSome : inaccessiblePaths platform s ≠ []) :
    utf8Length (selection (inaccessiblePaths platform s)) ≤ sqlite.limit ∧
    ∃ literals, readList selectionHead (selection (inaccessiblePaths platform s)) = some literals ∧
      inaccessiblePaths platform s ⊆ literals := by
  obtain ⟨kept, hStep, -⟩ := (Option.any_eq_true _ _).mp h.completes
  have hDelete := hStep
  rw [removeMissing_of_ne_nil hSome, deleteRows] at hDelete
  obtain ⟨selected, hSelect, rfl⟩ := Option.map_eq_some_iff.mp hDelete
  obtain ⟨hFits, literals, hRead, rfl⟩ := exists_readList_of_select hOther hSelect
  refine ⟨hFits, literals, hRead, fun path hPath => ?_⟩
  by_contra hMissed
  obtain ⟨⟨row, hRow, rfl⟩, hMissing⟩ := mem_inaccessiblePaths.mp hPath
  have hKept : row.path ∈ (s.rows.filter fun row => !decide (row.path ∈ literals)).map Row.path :=
    List.mem_map_of_mem (List.mem_filter.mpr ⟨hRow, by simpa using hMissed⟩)
  have hAccessible := h.isAccessible (mem_scanImpl_of_removeMissing hStep hKept)
  rw [hMissing] at hAccessible
  cases hAccessible

/-- A scan has its result, whatever SQLite makes of texts that are not lists of literals, exactly
when the paths of the files that are not accessible can be quoted as they are and the condition
is not too long. -/
theorem scanned_iff {limit : Nat} (hTable : (s.rows.map Row.path).Nodup)
    (hStore : platform.mediaStore.Nodup) (hTree : Tree platform s.storage filepath)
    (hStill : ∀ row ∈ s.rows, isAccessible platform s.storage row.path = false →
      removable platform s.storage row.path = false) :
    (∀ other, ∃ enough, ∀ fuel, enough ≤ fuel →
      Scanned platform ⟨limit, other⟩ fuel filepath recursively s) ↔
    (∀ row ∈ s.rows, isAccessible platform s.storage row.path = false → Plain row.path) ∧
    (inaccessiblePaths platform s ≠ [] →
      utf8Length (selection (inaccessiblePaths platform s)) ≤ limit) := by
  constructor
  · intro hScanned
    obtain ⟨enough, hEnough⟩ := hScanned fun _ => none
    have hResult := hEnough enough (Nat.le_refl _)
    refine ⟨fun row hRow hMissing => ?_, fun hSome =>
      (hResult.exists_readList (fun _ => rfl) hSome).1⟩
    have hPath : row.path ∈ inaccessiblePaths platform s :=
      mem_inaccessiblePaths.mpr ⟨⟨row, hRow, rfl⟩, hMissing⟩
    have hSome : inaccessiblePaths platform s ≠ [] := List.ne_nil_of_mem hPath
    obtain ⟨-, literals, hRead, hCover⟩ := hResult.exists_readList (fun _ => rfl) hSome
    have hNodup : (inaccessiblePaths platform s).Nodup := hTable.filter _
    exact plain_of_readList (by decide) hSome hNodup hCover hRead _ hPath
  · rintro ⟨hPlain, hFits⟩ other
    obtain ⟨enough, hEnough⟩ := hTree.exists_ends recursively
    refine ⟨enough, fun fuel hFuel => ?_⟩
    have hStep : removeMissing platform ⟨limit, other⟩ s = some (keepAccessible platform s) :=
      removeMissing_eq hPlain hFits hStill
    exact scanned_of_removeMissing hTable hStore hTree.directory (ends_mono hEnough hFuel) hStep

end

/-- The directory `r` with the file `c`, and a media store that reports `m`. -/
def treePlatform : Platform :=
  { onePlatform with
    listFiles := fun _ path => if path = ['r'] then some [['c']] else none
    mediaStore := [['m']] }

/-- The files `a`, `c` and `m` and the directory `r`. -/
def treeStorage : List Node :=
  [⟨97, .file, true⟩, ⟨99, .file, true⟩, ⟨109, .file, true⟩, ⟨114, .directory, true⟩]

theorem tree_treePlatform : Tree treePlatform treeStorage ['r'] := by
  refine ⟨by decide +kernel, .intro _ fun child hChild => ?_⟩
  obtain rfl : child = ['c'] := by simpa [listing, treePlatform] using hChild
  exact .intro _ fun path hPath => by simp [listing, treePlatform] at hPath

/-- The file of the second row does not exist. -/
theorem scanned_iff_tree : ∃ enough, ∀ fuel, enough ≤ fuel →
    Scanned treePlatform oneSqlite fuel ['r'] true ⟨[⟨0, ['a']⟩, ⟨1, ['b']⟩], 2, treeStorage⟩ :=
  (scanned_iff (by decide) (by decide) tree_treePlatform (by decide +kernel)).mpr
    ⟨by decide +kernel, by decide +kernel⟩ fun _ => none

/-- The table after a scan of the tree. -/
example : (scanImpl treePlatform oneSqlite 2 ['r'] true
    ⟨[⟨0, ['a']⟩, ⟨1, ['b']⟩], 2, treeStorage⟩).rows =
      [⟨0, ['a']⟩, ⟨2, ['m']⟩, ⟨3, ['c']⟩] := by
  decide +kernel

/-- The path of a file that does not exist ends with an apostrophe. The condition is then no
list of literals, and the scan does not get past step 1. -/
theorem not_scanned_apostrophe : ¬ ∃ fuel,
    Scanned treePlatform oneSqlite fuel ['r'] true
      ⟨[⟨0, ['a']⟩, ⟨1, ['b', apostrophe]⟩], 2, treeStorage⟩ := by
  rintro ⟨fuel, hScanned⟩
  have hThrows : removeMissing treePlatform oneSqlite
      ⟨[⟨0, ['a']⟩, ⟨1, ['b', apostrophe]⟩], 2, treeStorage⟩ = none := by
    decide +kernel
  have hCompletes := hScanned.completes
  simp [completes, hThrows] at hCompletes

end Meet.MediaScannerService
