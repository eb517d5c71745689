import Mathlib.Data.List.Chain
import Mathlib.Data.List.Nodup
import Mathlib.Tactic.SplitIfs
import Meet.Common.Walk

/-! `Scanner.scan` of the scan package: a walk over directories with a stack, which reports the
regular files that a filter accepts. -/
namespace Meet.Scanner
open Walk

/-- What `java.io.File` says of the files of a device. -/
structure FileSystem (File : Type) where
  fileExists : File → Bool
  canRead : File → Bool
  isDirectory : File → Bool
  isFile : File → Bool
  listFiles : File → Option (List File)

section

variable {File : Type} (fs : FileSystem File) (filter : Option (File → Bool))

/-- `IoUtil.isAccessible`. -/
def isAccessible (file : File) : Bool := fs.fileExists file && fs.canRead file

/-- Without a filter every file is accepted. -/
def accepts (file : File) : Bool := filter.all fun accept => accept file

/-- `File.listFiles` with a filter. -/
def listFiles (file : File) : Option (List File) :=
  (fs.listFiles file).map fun files => files.filter (accepts filter)

/-- The loop of `scan` over its stack, the top first. It gives the files that `onScanned` is
called with, in order. -/
def scanStack (recursively : Bool) : Nat → List File → Option (List File)
  | _, [] => some []
  | 0, _ :: _ => none
  | fuel + 1, file :: stack =>
      if isAccessible fs file = false then scanStack recursively fuel stack
      else if fs.isDirectory file then
        if recursively then
          match listFiles fs filter file with
          | some subFiles => scanStack recursively fuel (subFiles.reverse ++ stack)
          | none => scanStack recursively fuel stack
        else scanStack recursively fuel stack
      else if fs.isFile file then (scanStack recursively fuel stack).map (List.cons file)
      else scanStack recursively fuel stack

/-- `scan` of an array of files, which may be null. -/
def scanFiles (recursively : Bool) (fuel : Nat) : Option (List File) → Option (List File)
  | some (file :: rest) => scanStack fs filter recursively fuel (file :: rest).reverse
  | _ => some []

/-- `scan` of a file or of what a directory lists. -/
def scan (recursively : Bool) (fuel : Nat) (fileToScan : File) : Option (List File) :=
  if isAccessible fs fileToScan then
    if fs.isDirectory fileToScan then
      scanFiles fs filter recursively fuel (listFiles fs filter fileToScan)
    else scanFiles fs filter recursively fuel (some [fileToScan])
  else some []

/-- The scan ends, and calls `onScanned` once for each expected file and for nothing else. -/
def Reports (recursively : Bool) (fileToScan : File) (expected : File → Prop) : Prop :=
  ∃ fuel reported, (∀ more, fuel ≤ more →
      scan fs filter recursively more fileToScan = some reported) ∧
    reported.Nodup ∧ ∀ file, file ∈ reported ↔ expected file

/-- A finite tree of files, where every accessible directory can be listed. -/
structure DirectoryTree (entries : File → List File) (root : File) : Prop where
  accessible : isAccessible fs root = true
  directory : fs.isDirectory root = true
  finite : Acc (fun child parent => child ∈ entries parent) root
  forest : Forest entries
  leaf : ∀ file, fs.isDirectory file = false → entries file = []
  kind : ∀ file, fs.isDirectory file = true → fs.isFile file = false
  listed : ∀ file, isAccessible fs file = true → fs.isDirectory file = true →
    fs.listFiles file = some (entries file)

/-- The entries from the root, exclusive, to a file, inclusive. -/
structure IsPath (entries : File → List File) (root : File) (path : List File) (file : File) :
    Prop where
  chain : (root :: path).IsChain fun parent child => child ∈ entries parent
  last : path.getLast? = some file

/-! ### The walk -/

/-- What is put on the stack for a file that is taken from it. -/
def subFiles (recursively : Bool) (file : File) : List File :=
  if isAccessible fs file && fs.isDirectory file && recursively then
    ((listFiles fs filter file).getD []).reverse
  else []

/-- The files that are reported when they are taken from the stack. -/
def isScanned (file : File) : Bool :=
  isAccessible fs file && !fs.isDirectory file && fs.isFile file

end

section

variable {File : Type} {fs : FileSystem File} {filter : Option (File → Bool)}
  {entries : File → List File} {root file : File} {stack : List File} {recursively : Bool}
  {fuel : Nat}

/-- One round of the loop. -/
theorem scanStack_cons :
    scanStack fs filter recursively (fuel + 1) (file :: stack) =
      (scanStack fs filter recursively fuel (subFiles fs filter recursively file ++ stack)).map
        fun rest => if isScanned fs file then file :: rest else rest := by
  cases hAccessible : isAccessible fs file with
  | false => simp [scanStack, subFiles, isScanned, hAccessible]
  | true =>
      cases hDirectory : fs.isDirectory file with
      | false =>
          cases hFile : fs.isFile file <;>
            simp [scanStack, subFiles, isScanned, hAccessible, hDirectory, hFile]
      | true =>
          cases recursively with
          | false => simp [scanStack, subFiles, isScanned, hAccessible, hDirectory]
          | true =>
              cases hListed : listFiles fs filter file <;>
                simp [scanStack, subFiles, isScanned, hAccessible, hDirectory, hListed]

/-- The loop ends when the walk does. -/
theorem scanStack_eq (hEnds : ends (subFiles fs filter recursively) fuel stack = true) :
    scanStack fs filter recursively fuel stack =
      some ((walk (subFiles fs filter recursively) fuel stack).filter (isScanned fs)) := by
  induction fuel generalizing stack with
  | zero =>
      cases stack with
      | nil => simp [scanStack, walk]
      | cons file stack => cases hEnds
  | succ fuel ih =>
      cases stack with
      | nil => simp [scanStack, walk]
      | cons file stack =>
          have hRest : ends (subFiles fs filter recursively) fuel
              (subFiles fs filter recursively file ++ stack) = true := hEnds
          rw [scanStack_cons, ih hRest, Option.map_some, walk, List.filter_cons]

theorem scanFiles_some (files : List File) :
    scanFiles fs filter recursively fuel (some files) =
      scanStack fs filter recursively fuel files.reverse := by
  cases files with
  | nil => simp [scanFiles, scanStack]
  | cons file rest => rfl

/-! ### The tree -/

namespace DirectoryTree

variable (hTree : DirectoryTree fs entries root)
include hTree

theorem listFiles_eq {dir : File} (hAccessible : isAccessible fs dir = true)
    (hDirectory : fs.isDirectory dir = true) :
    listFiles fs filter dir = some ((entries dir).filter (accepts filter)) := by
  rw [listFiles, hTree.listed dir hAccessible hDirectory, Option.map_some]

theorem isDirectory_of_mem {dir : File} (hMem : file ∈ entries dir) :
    fs.isDirectory dir = true := by
  cases hDirectory : fs.isDirectory dir with
  | true => rfl
  | false =>
      rw [hTree.leaf dir hDirectory] at hMem
      cases hMem

/-- A file is put on the stack by the directory that it is an entry of. -/
theorem mem_subFiles {dir : File} :
    file ∈ subFiles fs filter recursively dir ↔
      recursively = true ∧ isAccessible fs dir = true ∧ file ∈ entries dir ∧
        accepts filter file = true := by
  rw [subFiles]
  split_ifs with hOpen
  · simp only [Bool.and_eq_true] at hOpen
    obtain ⟨⟨hAccessible, hDirectory⟩, hGoes⟩ := hOpen
    simp [hTree.listFiles_eq hAccessible hDirectory, hAccessible, hGoes]
  · simp only [List.not_mem_nil, false_iff]
    rintro ⟨hGoes, hAccessible, hMem, -⟩
    exact hOpen (by simp [hGoes, hAccessible, hTree.isDirectory_of_mem hMem])

theorem subFiles_subset (dir : File) : subFiles fs filter recursively dir ⊆ entries dir :=
  fun _ hMem => (hTree.mem_subFiles.mp hMem).2.2.1

theorem forest_subFiles : Forest (subFiles fs filter recursively) where
  nodup := by
    intro dir
    rw [subFiles]
    split_ifs with hOpen
    · simp only [Bool.and_eq_true] at hOpen
      rw [hTree.listFiles_eq hOpen.1.1 hOpen.1.2, Option.getD_some, List.nodup_reverse]
      exact (hTree.forest.nodup dir).filter _
    · exact List.nodup_nil
  parent := by
    intro dir other file hDir hOther
    exact hTree.forest.parent dir other file (hTree.subFiles_subset dir hDir)
      (hTree.subFiles_subset other hOther)

theorem acc_subFiles (hMem : file ∈ entries root) :
    Acc (Hangs (subFiles fs filter recursively)) file :=
  Subrelation.accessible (fun hHangs => hTree.subFiles_subset _ hHangs) (hTree.finite.inv hMem)

/-- What the root lists is put on the stack before the first round. -/
theorem apart_entries :
    Apart (subFiles fs filter recursively) ((entries root).filter (accepts filter)).reverse := by
  have hAlone : Apart entries [root] := List.pairwise_singleton _ root
  have hEntries : Apart entries (entries root) := by
    simpa using hTree.forest.apart_push hTree.finite hAlone
  have hAccepted : Apart entries ((entries root).filter (accepts filter)) := hEntries.filter _
  exact (hAccepted.mono hTree.subFiles_subset).reverse

theorem scan_eq : scan fs filter recursively fuel root =
    scanStack fs filter recursively fuel ((entries root).filter (accepts filter)).reverse := by
  rw [scan, if_pos hTree.accessible, if_pos hTree.directory,
    hTree.listFiles_eq hTree.accessible hTree.directory, scanFiles_some]

/-- The scan reports what is found below the accepted entries of the root. -/
theorem reports_below : Reports fs filter recursively root fun file =>
    isScanned fs file = true ∧ ∃ first ∈ entries root, accepts filter first = true ∧
      Below (subFiles fs filter recursively) first file := by
  have hAcc : ∀ first ∈ ((entries root).filter (accepts filter)).reverse,
      Acc (Hangs (subFiles fs filter recursively)) first := by
    intro first hFirst
    exact hTree.acc_subFiles (List.mem_filter.mp (List.mem_reverse.mp hFirst)).1
  obtain ⟨fuel, hEnds⟩ := exists_ends hAcc
  refine ⟨fuel, (walk (subFiles fs filter recursively) fuel
    ((entries root).filter (accepts filter)).reverse).filter (isScanned fs), ?_, ?_, ?_⟩
  · intro more hMore
    rw [hTree.scan_eq, scanStack_eq (ends_mono hEnds hMore), walk_of_ends hEnds hMore]
  · exact (hTree.forest_subFiles.nodup_walk hEnds hAcc hTree.apart_entries).filter _
  · intro file
    simp only [List.mem_filter, mem_walk hEnds, List.mem_reverse, and_assoc, and_comm]

/-- An accessible file below an accepted entry is the end of a path of accepted and accessible
entries. -/
theorem below_iff {first : File} (hAccept : accepts filter first = true) :
    Below (subFiles fs filter true) first file ∧ isAccessible fs file = true ↔
      ∃ path, (first :: path).IsChain (fun parent child => child ∈ entries parent) ∧
        (first :: path).getLast? = some file ∧
        ∀ entry ∈ first :: path, accepts filter entry = true ∧ isAccessible fs entry = true := by
  constructor
  · rintro ⟨hBelow, hAccessible⟩
    induction hBelow using Relation.ReflTransGen.head_induction_on with
    | refl => exact ⟨[], by simp [hAccept, hAccessible]⟩
    | @head dir next hHangs _ ih =>
        obtain ⟨-, hOpen, hMem, hNext⟩ := hTree.mem_subFiles.mp hHangs
        obtain ⟨path, hChain, hLast, hPath⟩ := ih hNext
        refine ⟨next :: path, List.isChain_cons_cons.mpr ⟨hMem, hChain⟩, ?_, ?_⟩
        · rwa [List.getLast?_cons_cons]
        · exact List.forall_mem_cons.mpr ⟨⟨hAccept, hOpen⟩, hPath⟩
  · rintro ⟨path, hChain, hLast, hPath⟩
    induction path generalizing first with
    | nil =>
        obtain rfl : first = file := by simpa using hLast
        exact ⟨.refl, (hPath first List.mem_cons_self).2⟩
    | cons next path ih =>
        obtain ⟨hMem, hRest⟩ := List.isChain_cons_cons.mp hChain
        obtain ⟨hFirst, hOthers⟩ := List.forall_mem_cons.mp hPath
        have hNext := (hOthers next List.mem_cons_self).1
        obtain ⟨hBelow, hAccessible⟩ := ih hNext hRest (by simpa using hLast) hOthers
        have hHangs := hTree.mem_subFiles.mpr ⟨rfl, hFirst.2, hMem, hNext⟩
        exact ⟨.head hHangs hBelow, hAccessible⟩

theorem exists_below_iff :
    ((∃ first ∈ entries root, accepts filter first = true ∧
      Below (subFiles fs filter true) first file) ∧ isAccessible fs file = true) ↔
    ∃ path, IsPath entries root path file ∧
      ∀ entry ∈ path, accepts filter entry = true ∧ isAccessible fs entry = true := by
  constructor
  · rintro ⟨⟨first, hMem, hAccept, hBelow⟩, hAccessible⟩
    obtain ⟨path, hChain, hLast, hPath⟩ := (hTree.below_iff hAccept).mp ⟨hBelow, hAccessible⟩
    exact ⟨first :: path, ⟨List.isChain_cons_cons.mpr ⟨hMem, hChain⟩, hLast⟩, hPath⟩
  · rintro ⟨path, ⟨hChain, hLast⟩, hPath⟩
    cases path with
    | nil => cases hLast
    | cons first path =>
        obtain ⟨hMem, hRest⟩ := List.isChain_cons_cons.mp hChain
        have hAccept := (hPath first List.mem_cons_self).1
        obtain ⟨hBelow, hAccessible⟩ := (hTree.below_iff hAccept).mpr ⟨path, hRest, hLast, hPath⟩
        exact ⟨⟨first, hMem, hAccept, hBelow⟩, hAccessible⟩

theorem isScanned_iff : isScanned fs file = true ↔
    fs.isFile file = true ∧ isAccessible fs file = true := by
  cases hDirectory : fs.isDirectory file with
  | true => simp [isScanned, hDirectory, hTree.kind file hDirectory]
  | false => simp [isScanned, hDirectory, and_comm]

/-- Without recursion the walk goes no further than the entries of the root. -/
theorem below_flat {first : File} (hBelow : Below (subFiles fs filter false) first file) :
    first = file := by
  rcases hBelow.cases_head with hSame | ⟨next, hHangs, -⟩
  · exact hSame
  · cases (hTree.mem_subFiles.mp hHangs).1

end DirectoryTree

theorem Reports.congr {expected other : File → Prop}
    (h : Reports fs filter recursively root expected) (hSame : ∀ file, expected file ↔ other file) :
    Reports fs filter recursively root other := by
  obtain ⟨fuel, reported, hScan, hNodup, hMem⟩ := h
  exact ⟨fuel, reported, hScan, hNodup, fun file => (hMem file).trans (hSame file)⟩

end

/-- The scan of a directory tree reports each regular file on a path of accepted and accessible
entries once, and without recursion those among the entries of the root. -/
theorem scan_reports {File : Type} {fs : FileSystem File} {entries : File → List File}
    {root : File} (hTree : DirectoryTree fs entries root) (filter : Option (File → Bool)) :
    (Reports fs filter true root fun file => fs.isFile file = true ∧
      ∃ path, IsPath entries root path file ∧
        ∀ entry ∈ path, accepts filter entry = true ∧ isAccessible fs entry = true) ∧
    Reports fs filter false root fun file => fs.isFile file = true ∧
      file ∈ entries root ∧ accepts filter file = true ∧ isAccessible fs file = true := by
  constructor
  · refine hTree.reports_below.congr fun file => ?_
    rw [hTree.isScanned_iff, and_assoc, and_comm (a := isAccessible fs file = true),
      hTree.exists_below_iff]
  · refine hTree.reports_below.congr fun file => ?_
    rw [hTree.isScanned_iff, and_assoc]
    refine and_congr_right fun _ => ?_
    constructor
    · rintro ⟨hAccessible, first, hMem, hAccept, hBelow⟩
      obtain rfl := hTree.below_flat hBelow
      exact ⟨hMem, hAccept, hAccessible⟩
    · rintro ⟨hMem, hAccept, hAccessible⟩
      exact ⟨hAccessible, file, hMem, hAccept, .refl⟩

/-- A card with a directory that cannot be read. -/
inductive CardFile where
  | card
  | movies
  | secrets
  | notes
  | film
  | draft
  | letter
deriving DecidableEq

def cardEntries : CardFile → List CardFile
  | .card => [.movies, .secrets, .notes]
  | .movies => [.film, .draft]
  | .secrets => [.letter]
  | .notes | .film | .draft | .letter => []

def card : FileSystem CardFile where
  fileExists := fun _ => true
  canRead := fun file => file ≠ .secrets
  isDirectory := fun file => file = .card ∨ file = .movies ∨ file = .secrets
  isFile := fun file => file = .notes ∨ file = .film ∨ file = .draft ∨ file = .letter
  listFiles := fun file => if file = .secrets then none else some (cardEntries file)

theorem card_tree : DirectoryTree card cardEntries .card where
  accessible := rfl
  directory := rfl
  finite := by
    have hLeaf : ∀ file, cardEntries file = [] →
        Acc (fun child parent => child ∈ cardEntries parent) file := by
      intro file hNone
      refine Acc.intro file fun child hMem => ?_
      rw [hNone] at hMem
      cases hMem
    have hInner : ∀ file, (∀ child ∈ cardEntries file, cardEntries child = []) →
        Acc (fun child parent => child ∈ cardEntries parent) file :=
      fun file hLeaves => Acc.intro file fun child hMem => hLeaf child (hLeaves child hMem)
    exact Acc.intro .card fun child hMem => hInner child (by revert hMem; cases child <;> decide)
  forest := by
    constructor
    · intro file
      cases file <;> decide
    · intro file other child
      cases file <;> cases other <;> cases child <;> decide
  leaf := by
    intro file
    cases file <;> decide
  kind := by
    intro file
    cases file <;> decide
  listed := by
    intro file
    cases file <;> decide

theorem scan_reports_card :
    scan card (some fun file => file ≠ .draft) true 7 .card = some [.notes, .film] ∧
    (Reports card (some fun file => file ≠ .draft) true .card fun file =>
      card.isFile file = true ∧ ∃ path, IsPath cardEntries .card path file ∧ ∀ entry ∈ path,
        accepts (some fun file => file ≠ .draft) entry = true ∧ isAccessible card entry = true) ∧
    Reports card (some fun file => file ≠ .draft) false .card fun file =>
      card.isFile file = true ∧ file ∈ cardEntries .card ∧
        accepts (some fun file => file ≠ .draft) file = true ∧ isAccessible card file = true :=
  ⟨by decide, scan_reports card_tree _⟩

end Meet.Scanner
