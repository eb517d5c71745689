import Mathlib.Algebra.GroupWithZero.Nat
import Mathlib.Data.List.Nodup
import Mathlib.Data.List.Perm.Basic

/-! `DiskLruCache.java` with one value for each entry, as `MeetSDK` opens it. The journal
is left out: it is read only when a cache directory is opened. -/
namespace Meet.DiskLruCache

abbrev Key := List Char

abbrev Bytes := List UInt8

/-- `getCleanFile(0)` and `getDirtyFile(0)` of an entry. -/
inductive Name where
  | clean (key : Key)
  | dirty (key : Key)
deriving DecidableEq, Repr

structure File where
  name : Name
  bytes : Bytes
deriving DecidableEq, Repr

/-- What the cache records of an entry. -/
structure Record where
  key : Key
  length : Nat
  readable : Bool
deriving DecidableEq, Repr

/-- `editing` tells that `currentEditor` is not null. -/
structure Entry extends Record where
  editing : Bool
deriving DecidableEq, Repr

/-- `lruEntries` from the eldest entry on, and the files of the directory. -/
structure Cache where
  size : Int
  entries : List Entry
  files : List File
deriving DecidableEq, Repr

def maxSize : Int := 4 * 1024 * 1024

namespace Cache

/-- A new cache in an empty directory. -/
def empty : Cache := ⟨0, [], []⟩

def records (c : Cache) : List Record := c.entries.map Entry.toRecord

/-- The bytes of all files of the directory. -/
def total (c : Cache) : Nat := (c.files.map fun f => f.bytes.length).sum

def entryOf (c : Cache) (key : Key) : Option Entry :=
  c.entries.find? fun e => e.key = key

def bytes? (c : Cache) (name : Name) : Option Bytes :=
  (c.files.find? fun f => f.name = name).map File.bytes

/-- An access through `lruEntries.get` moves the entry to the end. -/
def touch (c : Cache) (key : Key) : Cache :=
  { c with
    entries := (c.entries.filter fun e => e.key ≠ key) ++ c.entries.filter fun e => e.key = key }

def modify (c : Cache) (key : Key) (change : Entry → Entry) : Cache :=
  { c with entries := c.entries.map fun e => if e.key = key then change e else e }

def erase (c : Cache) (key : Key) : Cache :=
  { c with entries := c.entries.filter fun e => e.key ≠ key }

def deleteFile (c : Cache) (name : Name) : Cache :=
  { c with files := c.files.filter fun f => f.name ≠ name }

/-- `new FileOutputStream` empties the file or creates it. -/
def createFile (c : Cache) (name : Name) : Cache :=
  { c.deleteFile name with files := (c.deleteFile name).files ++ [⟨name, []⟩] }

/-- `renameTo` replaces the target. -/
def renameFile (c : Cache) (source target : Name) (bytes : Bytes) : Cache :=
  { c with files := ((c.deleteFile source).deleteFile target).files ++ [⟨target, bytes⟩] }

/-- Write to the open stream of a file. A file that was removed keeps its stream, but its
bytes are on no file of the directory. -/
def writeFile (c : Cache) (name : Name) (bytes : Bytes) : Cache :=
  { c with
    files := c.files.map fun f => if f.name = name then { f with bytes := f.bytes ++ bytes } else f }

/-- `get`, with the bytes that the stream of the snapshot reads. -/
def get (c : Cache) (key : Key) : Cache × Option Bytes :=
  match c.entryOf key with
  | none => (c, none)
  | some e => (c.touch key, if e.readable then c.bytes? (.clean key) else none)

/-- `edit`, and whether it returns an editor. -/
def edit (c : Cache) (key : Key) : Cache × Bool :=
  match c.entryOf key with
  | none => ({ c with entries := c.entries ++ [⟨⟨key, 0, false⟩, true⟩] }, true)
  | some e =>
      if e.editing then (c.touch key, false)
      else ((c.touch key).modify key fun e => { e with editing := true }, true)

/-- `commit` of an editor without errors. The length of the file is taken here. -/
def commit (c : Cache) (key : Key) : Cache :=
  match c.entryOf key with
  | none => c
  | some e =>
      match c.bytes? (.dirty key) with
      | some bytes =>
          { (c.renameFile (.dirty key) (.clean key) bytes).modify key
              fun _ => ⟨⟨key, bytes.length, true⟩, false⟩ with
            size := c.size - e.length + bytes.length }
      | none =>
          if e.readable then c.modify key fun e => { e with editing := false } else c.erase key

/-- `remove`, and whether it throws because the file cannot be deleted. -/
def remove (c : Cache) (key : Key) : Cache × Bool :=
  match c.entryOf key with
  | none => (c, false)
  | some e =>
      if e.editing then (c.touch key, false)
      else if (c.bytes? (.clean key)).isNone then (c.touch key, true)
      else ({ (c.deleteFile (.clean key)).erase key with size := c.size - e.length }, false)

/-- The loop of `trimToSize`. An entry that is edited is only moved to the end, so a round
over all entries that leaves the size above the limit is repeated for ever. -/
def trim : Nat → Cache → Option Cache
  | 0, c => if c.size ≤ maxSize then some c else none
  | rounds + 1, c =>
      if c.size ≤ maxSize then some c
      else
        match c.entries with
        | [] => some c
        | eldest :: _ =>
            match c.remove eldest.key with
            | (c, true) => some c
            | (c, false) => trim rounds c

def trimToSize (c : Cache) : Option Cache := c.trim c.entries.length

theorem trimToSize_of_le {c : Cache} (hSize : c.size ≤ maxSize) : c.trimToSize = some c := by
  unfold trimToSize
  cases c.entries.length <;> simp [trim, hSize]

end Cache

/-! ### The recorded lengths -/

def File.summary (f : File) : Name × Nat := (f.name, f.bytes.length)

def Record.summary (r : Record) : Name × Nat := (.clean r.key, r.length)

/-- The files are those of the readable entries, each with its recorded length, and the
recorded size is their sum and within the limit. -/
structure Cache.Exact (c : Cache) : Prop where
  keys : (c.records.map Record.key).Nodup
  files : (c.files.map File.summary).Perm ((c.records.filter Record.readable).map Record.summary)
  unread : ∀ r ∈ c.records, r.readable = false → r.length = 0
  size : c.size = (c.records.map Record.length).sum
  bound : c.size ≤ maxSize

/-- Only the records count, and not their order. -/
theorem Cache.Exact.of_perm {c d : Cache} (h : c.Exact) (hRecords : d.records.Perm c.records)
    (hFiles : d.files = c.files) (hSize : d.size = c.size) : d.Exact where
  keys := (hRecords.map Record.key).nodup_iff.mpr h.keys
  files := by
    rw [hFiles]
    exact h.files.trans ((hRecords.filter Record.readable).map Record.summary).symm
  unread := fun r hr => h.unread r (hRecords.mem_iff.mp hr)
  size := by
    have hSum : (d.records.map Record.length).sum = (c.records.map Record.length).sum :=
      (hRecords.map Record.length).sum_nat
    rw [hSize, h.size, hSum]
  bound := hSize ▸ h.bound

/-- The lengths of the readable records are the lengths of all records. -/
theorem sum_readable {rs : List Record} (hUnread : ∀ r ∈ rs, r.readable = false → r.length = 0) :
    ((rs.filter Record.readable).map Record.length).sum = (rs.map Record.length).sum := by
  induction rs with
  | nil => rfl
  | cons r rest ih =>
      have hRest := ih fun q hq => hUnread q (List.mem_cons_of_mem r hq)
      cases hReadable : r.readable with
      | true => simp [hReadable, hRest]
      | false => simp [hReadable, hRest, hUnread r List.mem_cons_self hReadable]

/-- Files whose names and lengths are those of the readable records. -/
theorem total_of_perm {fs : List File} {rs : List Record}
    (hFiles : (fs.map File.summary).Perm ((rs.filter Record.readable).map Record.summary))
    (hUnread : ∀ r ∈ rs, r.readable = false → r.length = 0) :
    (fs.map fun f => f.bytes.length).sum = (rs.map Record.length).sum := by
  have hLengths := hFiles.map Prod.snd
  simp only [List.map_map] at hLengths
  rw [← sum_readable hUnread]
  exact hLengths.sum_nat

theorem Cache.Exact.total_eq {c : Cache} (h : c.Exact) : c.size = c.total := by
  rw [h.size, total, total_of_perm h.files h.unread]

/-! ### Entries by key -/

theorem Cache.records_touch (c : Cache) (key : Key) : (c.touch key).records.Perm c.records := by
  have hSplit := List.filter_append_perm (fun e : Entry => decide (e.key ≠ key)) c.entries
  simp only [decide_not, Bool.not_not] at hSplit
  simpa [records, touch] using hSplit.map Entry.toRecord

theorem Cache.records_modify_editing (c : Cache) (key : Key) (editing : Bool) :
    (c.modify key fun e => { e with editing := editing }).records = c.records := by
  simp only [records, modify, List.map_map]
  apply List.map_congr_left
  intro e _
  simp only [Function.comp]
  split <;> rfl

theorem Cache.mem_of_entryOf {c : Cache} {key : Key} {e : Entry} (h : c.entryOf key = some e) :
    e ∈ c.entries ∧ e.key = key := by
  refine ⟨List.mem_of_find?_eq_some h, ?_⟩
  simpa using List.find?_some h

/-- With distinct keys, one entry stands apart from the others. -/
theorem perm_apart {rs : List Record} (hKeys : (rs.map Record.key).Nodup) {r : Record}
    (hMem : r ∈ rs) : rs.Perm ((rs.filter fun q => q.key ≠ r.key) ++ [r]) := by
  induction rs with
  | nil => simp at hMem
  | cons q rest ih =>
      simp only [List.map_cons, List.nodup_cons] at hKeys
      obtain ⟨hFresh, hRest⟩ := hKeys
      rcases List.mem_cons.mp hMem with rfl | hMem
      · have hOthers : rest.filter (fun q => q.key ≠ r.key) = rest := by
          apply List.filter_eq_self.mpr
          intro q hq
          have hNe : q.key ≠ r.key := fun hEq => hFresh (by simpa using ⟨q, hq, hEq⟩)
          simpa using hNe
        simp only [List.filter_cons, ne_eq, not_true_eq_false, decide_false]
        simp only [ne_eq] at hOthers
        rw [if_neg (by simp), hOthers]
        exact (List.perm_append_singleton r rest).symm
      · have hNe : q.key ≠ r.key := fun hEq => hFresh (by simpa using ⟨r, hMem, hEq.symm⟩)
        simp only [List.filter_cons, hNe, ne_eq, not_false_eq_true, decide_true, if_true]
        exact (ih hRest hMem).cons q

/-! ### The operations -/

theorem Cache.exact_touch {c : Cache} (h : c.Exact) (key : Key) : (c.touch key).Exact :=
  h.of_perm (c.records_touch key) rfl rfl

theorem Cache.get_files (c : Cache) (key : Key) : (c.get key).1.files = c.files := by
  unfold get
  split <;> rfl

theorem Cache.exact_get {c : Cache} (h : c.Exact) (key : Key) : (c.get key).1.Exact := by
  unfold get
  split
  · exact h
  · exact exact_touch h key

theorem Cache.edit_files (c : Cache) (key : Key) : (c.edit key).1.files = c.files := by
  unfold edit
  split
  · rfl
  · split <;> rfl

/-- A new entry records no length until it is published. -/
theorem Cache.exact_edit {c : Cache} (h : c.Exact) (key : Key) : (c.edit key).1.Exact := by
  unfold edit
  split
  · rename_i hNone
    have hFresh : key ∉ c.records.map Record.key := by
      simpa [records, entryOf] using hNone
    have hRecords : ({ c with entries := c.entries ++ [⟨⟨key, 0, false⟩, true⟩] } : Cache).records =
        c.records ++ [⟨key, 0, false⟩] := by
      simp [records]
    refine ⟨?_, ?_, ?_, ?_, h.bound⟩
    · rw [hRecords, List.map_append]
      refine List.nodup_append'.mpr ⟨h.keys, List.nodup_singleton _, ?_⟩
      simpa using hFresh
    · rw [hRecords]
      simpa using h.files
    · rw [hRecords]
      intro r hr hReadable
      rcases List.mem_append.mp hr with hOld | hNew
      · exact h.unread r hOld hReadable
      · rw [List.mem_singleton.mp hNew]
    · rw [hRecords]
      simpa using h.size
  · split
    · exact exact_touch h key
    · refine h.of_perm ?_ rfl rfl
      rw [records_modify_editing]
      exact c.records_touch key

/-- An editor is returned only for an entry of the cache. -/
theorem Cache.entry_edit (c : Cache) (key : Key) (hGranted : (c.edit key).2 = true) :
    ∃ e, (c.edit key).1.entryOf key = some e := by
  have hMem : ∃ e ∈ (c.edit key).1.entries, e.key = key := by
    unfold edit at hGranted ⊢
    split
    · exact ⟨⟨⟨key, 0, false⟩, true⟩, by simp, rfl⟩
    · rename_i e hEntry
      obtain ⟨hMem, hKey⟩ := mem_of_entryOf hEntry
      split
      · rename_i hEditing
        simp [hEntry, hEditing] at hGranted
      · refine ⟨{ e with editing := true }, ?_, hKey⟩
        simp only [modify, List.mem_map]
        exact ⟨e, by simp [touch, hMem, hKey], by simp [hKey]⟩
  obtain ⟨e, hMem, hKey⟩ := hMem
  apply Option.isSome_iff_exists.mp
  simp only [entryOf, List.find?_isSome, decide_eq_true_eq]
  exact ⟨e, hMem, hKey⟩

theorem Cache.Exact.name_clean {c : Cache} (h : c.Exact) {f : File} (hf : f ∈ c.files) :
    ∃ r ∈ c.records, f.name = .clean r.key := by
  have hMem := h.files.mem_iff.mp (List.mem_map_of_mem hf)
  obtain ⟨r, hr, hSummary⟩ := List.mem_map.mp hMem
  refine ⟨r, List.mem_of_mem_filter hr, ?_⟩
  exact (congrArg Prod.fst hSummary).symm

/-- What `newOutputStream` and `commit` make of a cache. The new file is still empty, and so
is its recorded length. -/
structure Cache.Published (c d : Cache) (key : Key) (bytes : Bytes) : Prop where
  files : d.files = (c.files.filter fun f => f.name ≠ .clean key) ++ [⟨.clean key, bytes⟩]
  records : d.records.Perm ((c.records.filter fun r => r.key ≠ key) ++ [⟨key, 0, true⟩])
  size : d.size = ((c.records.filter fun r => r.key ≠ key).map Record.length).sum

theorem Cache.Exact.name_ne_dirty {c : Cache} (h : c.Exact) (key : Key) :
    ∀ f ∈ c.files, f.name ≠ .dirty key := by
  intro f hf
  obtain ⟨r, -, hName⟩ := h.name_clean hf
  simp [hName]

theorem Cache.Exact.files_createDirty {c : Cache} (h : c.Exact) (key : Key) :
    (c.createFile (.dirty key)).files = c.files ++ [⟨.dirty key, []⟩] := by
  simp only [createFile, deleteFile]
  rw [List.filter_eq_self.mpr (by simpa using h.name_ne_dirty key)]

theorem Cache.Exact.bytes_createDirty {c : Cache} (h : c.Exact) (key : Key) :
    (c.createFile (.dirty key)).bytes? (.dirty key) = some [] := by
  simp only [bytes?, h.files_createDirty, List.find?_append]
  rw [List.find?_eq_none.mpr (by simpa using h.name_ne_dirty key)]
  simp

/-- The length is taken of the file that was just created. -/
theorem Cache.Exact.commit_eq {c : Cache} (h : c.Exact) {key : Key} {e : Entry}
    (hEntry : c.entryOf key = some e) :
    (c.createFile (.dirty key)).commit key =
      ⟨c.size - e.length,
        c.entries.map fun e => if e.key = key then ⟨⟨key, 0, true⟩, false⟩ else e,
        (c.files.filter fun f => f.name ≠ .clean key) ++ [⟨.clean key, []⟩]⟩ := by
  have hSame : (c.createFile (.dirty key)).entryOf key = some e := hEntry
  have hOld : c.files.filter (fun f => f.name ≠ .dirty key) = c.files :=
    List.filter_eq_self.mpr (by simpa using h.name_ne_dirty key)
  have hFiles : (((c.createFile (.dirty key)).deleteFile (.dirty key)).deleteFile
      (.clean key)).files = c.files.filter fun f => f.name ≠ .clean key := by
    simp only [deleteFile, h.files_createDirty, List.filter_append, hOld]
    simp
  simp only [commit, hSame, h.bytes_createDirty, renameFile, hFiles, modify]
  simp [createFile, deleteFile]

/-- Replacing the one entry of a key. -/
theorem perm_replaced {rs : List Record} (hKeys : (rs.map Record.key).Nodup) {r : Record}
    (hMem : r ∈ rs) (new : Record) :
    (rs.map fun q => if q.key = r.key then new else q).Perm
      ((rs.filter fun q => q.key ≠ r.key) ++ [new]) := by
  have hReplaced := (perm_apart hKeys hMem).map fun q => if q.key = r.key then new else q
  have hOthers : (rs.filter fun q => q.key ≠ r.key).map
      (fun q => if q.key = r.key then new else q) = rs.filter fun q => q.key ≠ r.key := by
    conv_rhs => rw [← List.map_id (rs.filter fun q => q.key ≠ r.key)]
    apply List.map_congr_left
    intro q hq
    have hNe : q.key ≠ r.key := by simpa using (List.mem_filter.mp hq).2
    simp [hNe]
  rw [List.map_append, hOthers] at hReplaced
  simpa using hReplaced

theorem Cache.published_commit {c : Cache} (h : c.Exact) {key : Key} {e : Entry}
    (hEntry : c.entryOf key = some e) :
    c.Published ((c.createFile (.dirty key)).commit key) key [] := by
  rw [h.commit_eq hEntry]
  obtain ⟨hMem, rfl⟩ := mem_of_entryOf hEntry
  have hRecord : e.toRecord ∈ c.records := List.mem_map_of_mem hMem
  refine ⟨rfl, ?_, ?_⟩
  · have hReplaced := perm_replaced h.keys hRecord ⟨e.key, 0, true⟩
    refine List.Perm.trans (List.Perm.of_eq ?_) hReplaced
    simp only [records, List.map_map]
    apply List.map_congr_left
    intro q _
    simp only [Function.comp]
    split <;> rfl
  · have hSum := ((perm_apart h.keys hRecord).map Record.length).sum_nat
    simp only [List.map_append, List.map_cons, List.map_nil, List.sum_append, List.sum_singleton]
      at hSum
    have hSize := h.size
    simp only
    omega

/-- The bytes written after the commit. -/
theorem Cache.Published.write {c d : Cache} {key : Key} (h : c.Published d key [])
    (bytes : Bytes) : c.Published (d.writeFile (.clean key) bytes) key bytes where
  files := by
    have hOthers : (c.files.filter fun f => f.name ≠ .clean key).map
        (fun f => if f.name = .clean key then { f with bytes := f.bytes ++ bytes } else f) =
        c.files.filter fun f => f.name ≠ .clean key := by
      conv_rhs => rw [← List.map_id (c.files.filter fun f => f.name ≠ .clean key)]
      apply List.map_congr_left
      intro f hf
      have hNe : f.name ≠ .clean key := by simpa using (List.mem_filter.mp hf).2
      simp [hNe]
    simp only [writeFile, h.files, List.map_append, hOthers]
    simp
  records := h.records
  size := h.size

section Published

variable {c d : Cache} {key : Key} {bytes : Bytes}

/-- The other files keep their recorded lengths. -/
theorem Cache.Exact.others (h : c.Exact) (key : Key) :
    ((c.files.filter fun f => f.name ≠ .clean key).map File.summary).Perm
      (((c.records.filter fun r => r.key ≠ key).filter Record.readable).map Record.summary) := by
  have hKept := h.files.filter fun entry => entry.1 ≠ .clean key
  rw [List.filter_map, List.filter_map] at hKept
  have hRecords : (c.records.filter fun r => r.key ≠ key).filter Record.readable =
      (c.records.filter Record.readable).filter fun r => r.key ≠ key := by
    rw [List.filter_filter, List.filter_filter]
    apply List.filter_congr
    intro r _
    exact Bool.and_comm _ _
  rw [hRecords]
  refine hKept.trans (List.Perm.of_eq (congrArg (List.map Record.summary) ?_))
  apply List.filter_congr
  intro r _
  simp [Record.summary]

/-- The recorded size misses exactly the bytes written after the commit. -/
theorem Cache.Published.total_eq (h : c.Exact) (hPublished : c.Published d key bytes) :
    (d.total : Int) = d.size + bytes.length := by
  have hOthers := total_of_perm (h.others key) fun r hr => h.unread r (List.mem_of_mem_filter hr)
  simp only [total, hPublished.files, hPublished.size, List.map_append, List.sum_append,
    List.map_cons, List.map_nil, List.sum_singleton]
  rw [hOthers]
  omega

theorem Cache.Published.size_le (h : c.Exact) (hPublished : c.Published d key bytes) :
    d.size ≤ maxSize := by
  have hSum := ((List.filter_append_perm (fun r => decide (r.key ≠ key)) c.records).map
    Record.length).sum_nat
  simp only [List.map_append, List.sum_append] at hSum
  have hSize := h.size
  have hBound := h.bound
  have hNew := hPublished.size
  omega

/-- A cache to which nothing was written after the commit is exact. -/
theorem Cache.Published.exact (h : c.Exact) (hPublished : c.Published d key []) : d.Exact where
  keys := by
    rw [(hPublished.records.map Record.key).nodup_iff, List.map_append]
    refine List.nodup_append'.mpr ⟨?_, List.nodup_singleton _, ?_⟩
    · exact (List.filter_sublist.map Record.key).nodup h.keys
    · simp
  files := by
    refine List.Perm.trans ?_
      ((hPublished.records.filter Record.readable).map Record.summary).symm
    rw [hPublished.files, List.map_append, List.filter_append, List.map_append]
    exact (h.others key).append (List.Perm.refl _)
  unread := by
    intro r hr hReadable
    rcases List.mem_append.mp (hPublished.records.mem_iff.mp hr) with hOld | hNew
    · exact h.unread r (List.mem_of_mem_filter hOld) hReadable
    · rw [List.mem_singleton.mp hNew]
  size := by
    have hSum := (hPublished.records.map Record.length).sum_nat
    simp only [List.map_append, List.map_cons, List.map_nil, List.sum_append, List.sum_singleton]
      at hSum
    have hSize := hPublished.size
    omega
  bound := hPublished.size_le h

end Published

end Meet.DiskLruCache
