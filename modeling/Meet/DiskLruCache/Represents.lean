import Meet.DiskLruCache.Moves

/-! The two models of the cache. The one over the files of the directory has one length for each
entry, as `MeetSDK` opens the cache; it goes along with the one over the journal. -/
namespace Meet.DiskLruCache.Journal
open LinkedMap

/-- An entry of one value, as the model over the files has it. -/
def toEntry (e : Key × Entry) : DiskLruCache.Entry :=
  ⟨⟨e.1, (lengthOf e.2.lengths).toNat, e.2.readable⟩, e.2.currentEditor.isSome⟩

/-- There is one length, and it is that of a file. -/
def OneLength (e : Entry) : Prop := ∃ n : Int64, e.lengths = [n] ∧ 0 ≤ n.toInt

/-- An open cache has the entries that the model over the files has, in the same order. -/
structure Represents (d : DiskLruCache.Cache) (c : Cache) : Prop where
  size : d.size = c.size
  entries : d.entries = c.lruEntries.map toEntry
  keyed : Keyed c.lruEntries
  oneLength : ∀ e ∈ c.lruEntries, OneLength e.2
  valid : ∀ e ∈ c.lruEntries, validateKey e.1 = true
  isOpen : c.journalWriter = true

section Maps

variable {m : Entries} {key : Key}

theorem OneLength.toNat {e : Entry} (h : OneLength e) :
    ((lengthOf e.lengths).toNat : Int) = lengthOf e.lengths := by
  obtain ⟨n, hLengths, hNonneg⟩ := h
  rw [hLengths]
  simp only [lengthOf, List.foldr_cons, List.foldr_nil, Int.add_zero]
  omega

theorem find_toEntry (m : Entries) (key : Key) :
    ((m.map toEntry).find? fun e => e.key = key) =
      (find m key).map fun e => toEntry (key, e) := by
  induction m with
  | nil => rfl
  | cons entry m ih =>
      rw [List.map_cons, List.find?_cons, find_cons]
      by_cases hKey : entry.1 = key
      · subst hKey
        simp [toEntry]
      · simp only [toEntry, hKey, decide_false, if_false]
        exact ih

theorem map_erase (m : Entries) (key : Key) :
    (erase m key).map toEntry = (m.map toEntry).filter fun e => e.key ≠ key := by
  rw [erase, List.filter_map]
  rfl

theorem map_touch (m : Entries) (key : Key) :
    (touch m key).map toEntry = ((m.map toEntry).filter fun e => e.key ≠ key) ++
      (m.map toEntry).filter fun e => e.key = key := by
  rw [touch, List.map_append, map_erase]
  congr 1
  rw [List.filter_map]
  rfl

theorem map_modify {change : Entry → Entry} {change' : DiskLruCache.Entry → DiskLruCache.Entry}
    (hChange : ∀ e, (key, e) ∈ m → toEntry (key, change e) = change' (toEntry (key, e))) :
    (LinkedMap.modify m key change).map toEntry =
      (m.map toEntry).map fun e => if e.key = key then change' e else e := by
  simp only [LinkedMap.modify, List.map_map]
  refine List.map_congr_left fun e hMem => ?_
  by_cases hKey : e.1 = key
  · subst hKey
    simpa [toEntry] using hChange e.2 hMem
  · simp [toEntry, hKey]

theorem mem_touch {e : Key × Entry} : e ∈ touch m key ↔ e ∈ m := (touch_perm m key).mem_iff

theorem mem_of_erase {e : Key × Entry} (hMem : e ∈ erase m key) : e ∈ m :=
  List.mem_of_mem_filter hMem

end Maps

section Operations

variable {d : DiskLruCache.Cache} {c c' : Cache} {key : Key}

theorem Represents.entryOf (h : Represents d c) (key : Key) :
    d.entryOf key = (find c.lruEntries key).map fun e => toEntry (key, e) := by
  rw [DiskLruCache.Cache.entryOf, h.entries, find_toEntry]

theorem Represents.oneLength_of_find (h : Represents d c) {e : Entry}
    (hFind : find c.lruEntries key = some e) : OneLength e := by
  obtain ⟨entry, hEntry, rfl⟩ := Option.map_eq_some_iff.mp hFind
  exact h.oneLength entry (List.mem_of_find?_eq_some hEntry)

theorem Represents.valid_of_find (h : Represents d c) {e : Entry}
    (hFind : find c.lruEntries key = some e) : validateKey key = true := by
  obtain ⟨entry, hEntry, rfl⟩ := Option.map_eq_some_iff.mp hFind
  have hKey : entry.1 = key := by simpa using List.find?_some hEntry
  exact hKey ▸ h.valid entry (List.mem_of_find?_eq_some hEntry)

/-- The journal, the tasks and the numbers do not matter. -/
theorem Represents.same (h : Represents d c) (hEntries : c'.lruEntries = c.lruEntries)
    (hSize : c'.size = c.size) (hOpen : c'.journalWriter = c.journalWriter) : Represents d c' := by
  refine ⟨hSize ▸ h.size, hEntries ▸ h.entries, hEntries ▸ h.keyed, ?_, ?_, hOpen ▸ h.isOpen⟩
  · rw [hEntries]
    exact h.oneLength
  · rw [hEntries]
    exact h.valid

theorem Represents.submitIfRequired (h : Represents d c) (maxSize : Int) :
    Represents d (c.submitIfRequired maxSize) := by
  unfold Cache.submitIfRequired
  split
  · exact h.same rfl rfl rfl
  · exact h

theorem Represents.touch (h : Represents d c) (key : Key) :
    Represents (d.touch key) { c with lruEntries := touch c.lruEntries key } where
  size := h.size
  entries := by rw [map_touch, ← h.entries]; rfl
  keyed := keyed_touch h.keyed key
  oneLength e hMem := h.oneLength e (mem_touch.mp hMem)
  valid e hMem := h.valid e (mem_touch.mp hMem)
  isOpen := h.isOpen

/-- The files of the directory do not matter here. -/
theorem Represents.files (h : Represents d c) (files : List File) :
    Represents { d with files := files } c :=
  ⟨h.size, h.entries, h.keyed, h.oneLength, h.valid, h.isOpen⟩

theorem represents_empty : Represents DiskLruCache.Cache.empty Cache.empty :=
  ⟨rfl, rfl, keyed_nil, by simp [Cache.empty], by simp [Cache.empty], rfl⟩

/-- A value is found by both or by neither. -/
theorem represents_get (h : Represents d c) (hValid : validateKey key = true) :
    Represents (d.get key).1 (c.get key (d.bytes? (.clean key)).isSome).1 ∧
      (d.get key).2.isSome = (c.get key (d.bytes? (.clean key)).isSome).2.isSome := by
  have hChecked : (c.journalWriter && validateKey key) = true := by simp [h.isOpen, hValid]
  unfold DiskLruCache.Cache.get Cache.get
  rw [h.entryOf, if_pos hChecked]
  cases hFind : find c.lruEntries key with
  | none => exact ⟨h, rfl⟩
  | some e =>
      simp only [Option.map_some, toEntry]
      cases hReadable : e.readable with
      | false => exact ⟨h.touch key, rfl⟩
      | true =>
          cases hFile : d.bytes? (.clean key) with
          | none => exact ⟨h.touch key, rfl⟩
          | some bytes =>
              refine ⟨?_, rfl⟩
              simp only [Bool.not_true, Bool.false_or, Option.isSome_some, Bool.false_eq_true,
                if_false]
              split
              · exact (h.touch key).same rfl rfl rfl
              · exact (h.touch key).same rfl rfl rfl

theorem Represents.erase (h : Represents d c) (key : Key) :
    Represents (d.erase key) { c with lruEntries := LinkedMap.erase c.lruEntries key } where
  size := h.size
  entries := by rw [map_erase, ← h.entries]; rfl
  keyed := keyed_erase h.keyed key
  oneLength e hMem := h.oneLength e (mem_of_erase hMem)
  valid e hMem := h.valid e (mem_of_erase hMem)
  isOpen := h.isOpen

/-- Both sizes change alike. -/
theorem Represents.resize (h : Represents d c) {size size' : Int} (hSize : size = size') :
    Represents { d with size := size } { c with size := size' } :=
  ⟨hSize, h.entries, h.keyed, h.oneLength, h.valid, h.isOpen⟩

/-- A change of the entry of one key. -/
theorem Represents.modify (h : Represents d c) (key : Key) (change : Entry → Entry)
    (change' : DiskLruCache.Entry → DiskLruCache.Entry)
    (hChange : ∀ e, find c.lruEntries key = some e →
      toEntry (key, change e) = change' (toEntry (key, e)) ∧ OneLength (change e)) :
    Represents (d.modify key change')
      { c with lruEntries := LinkedMap.modify c.lruEntries key change } := by
  have hFind : ∀ e, (key, e) ∈ c.lruEntries → find c.lruEntries key = some e :=
    fun e hMem => find_of_mem h.keyed hMem
  refine ⟨h.size, ?_, keyed_modify h.keyed key change, fun e hMem => ?_, fun e hMem => ?_,
    h.isOpen⟩
  · rw [DiskLruCache.Cache.modify, h.entries]
    exact (map_modify fun e hMem => (hChange e (hFind e hMem)).1).symm
  · obtain ⟨before, hBefore, rfl⟩ := List.mem_map.mp hMem
    split
    · rename_i hKey
      subst hKey
      exact (hChange before.2 (find_of_mem h.keyed hBefore)).2
    · exact h.oneLength before hBefore
  · obtain ⟨before, hBefore, rfl⟩ := List.mem_map.mp hMem
    have hValid := h.valid before hBefore
    split
    · exact hValid
    · exact hValid

theorem Represents.startEdit (h : Represents d c) (key : Key) :
    Represents (d.modify key fun e => { e with editing := true })
      (c.startEdit thumbnails.valueCount key).1 := by
  refine (h.modify key
    (fun e => { e with currentEditor := some (Editor.new thumbnails.valueCount c.editors e) })
    (fun e => { e with editing := true }) fun e hFind => ⟨rfl, ?_⟩).same rfl rfl rfl
  have hOne := h.oneLength_of_find hFind
  exact hOne

/-- An editor is given out by both or by neither. -/
theorem represents_edit (h : Represents d c) (hValid : validateKey key = true) :
    Represents (d.edit key).1 (c.edit thumbnails.valueCount key none).1 ∧
      (d.edit key).2 = (c.edit thumbnails.valueCount key none).2.isSome := by
  have hChecked : (c.journalWriter && validateKey key) = true := by simp [h.isOpen, hValid]
  unfold DiskLruCache.Cache.edit Cache.edit
  rw [h.entryOf, if_pos hChecked]
  cases hFind : find c.lruEntries key with
  | none =>
      have hPut : put c.lruEntries key (Entry.new 1) = c.lruEntries ++ [(key, Entry.new 1)] := by
        rw [put, erase_of_find_none hFind]
      have hNew : Represents
          { d with entries := d.entries ++ [toEntry (key, Entry.new 1)] }
          { c with lruEntries := put c.lruEntries key (Entry.new 1) } := by
        refine ⟨h.size, ?_, keyed_put h.keyed key _, fun e hMem => ?_, fun e hMem => ?_, h.isOpen⟩
        · simp only [hPut, List.map_append, ← h.entries, List.map_cons, List.map_nil]
        · rw [hPut] at hMem
          rcases List.mem_append.mp hMem with hOld | hLast
          · exact h.oneLength e hOld
          · rw [List.mem_singleton.mp hLast]
            exact ⟨0, rfl, by decide⟩
        · rw [hPut] at hMem
          rcases List.mem_append.mp hMem with hOld | hLast
          · exact h.valid e hOld
          · rw [List.mem_singleton.mp hLast]
            exact hValid
      have hAlone : ∀ e ∈ d.entries, e.key ≠ key := by
        intro e hMem hKey
        rw [h.entries] at hMem
        obtain ⟨before, hBefore, rfl⟩ := List.mem_map.mp hMem
        have hKeys := find_eq_none.mp hFind
        exact hKeys (List.mem_map.mpr ⟨before, hBefore, hKey⟩)
      have hLast : { d with entries := d.entries ++ [⟨⟨key, 0, false⟩, true⟩] } =
          DiskLruCache.Cache.modify { d with entries := d.entries ++ [toEntry (key, Entry.new 1)] }
            key fun e => { e with editing := true } := by
        have hFront : (d.entries.map fun e =>
            if e.key = key then { e with editing := true } else e) = d.entries := by
          refine (List.map_congr_left fun e hMem => ?_).trans (List.map_id _)
          rw [if_neg (hAlone e hMem)]
          rfl
        simp only [DiskLruCache.Cache.modify, List.map_append, hFront]
        simp [toEntry, Entry.new, lengthOf]
      refine ⟨?_, rfl⟩
      simp only [Option.map_none]
      rw [hLast]
      exact hNew.startEdit key
  | some e =>
      simp only [Option.map_some, Option.isSome_none, Bool.false_and, Bool.false_eq_true, if_false]
      cases hEditor : e.currentEditor with
      | some current =>
          simp only [toEntry, hEditor, Option.isSome_some, if_true]
          exact ⟨h.touch key, rfl⟩
      | none =>
          simp only [toEntry, hEditor, Option.isSome_none, Bool.false_eq_true, if_false]
          exact ⟨(h.touch key).startEdit key, rfl⟩

/-- The clean file can be deleted if it is there. -/
def deletedFiles (d : DiskLruCache.Cache) (key : Key) : Nat :=
  if (d.bytes? (.clean key)).isSome then 1 else 0

/-- Both throw or neither does. -/
theorem represents_remove (h : Represents d c) (hValid : validateKey key = true) :
    Represents (d.remove key).1 (c.remove thumbnails key (deletedFiles d key)).1 ∧
      (d.remove key).2 = (c.remove thumbnails key (deletedFiles d key)).2 := by
  have hChecked : (c.journalWriter && validateKey key) = true := by simp [h.isOpen, hValid]
  unfold DiskLruCache.Cache.remove Cache.remove
  rw [h.entryOf, if_pos hChecked]
  cases hFind : find c.lruEntries key with
  | none => exact ⟨h, rfl⟩
  | some e =>
      have hLength := (h.oneLength_of_find hFind).toNat
      simp only [Option.map_some]
      cases hEditor : e.currentEditor with
      | some current =>
          simp only [toEntry, hEditor, Option.isSome_some, if_true]
          exact ⟨h.touch key, trivial⟩
      | none =>
          simp only [toEntry, hEditor, Option.isSome_none, Bool.false_eq_true, if_false]
          cases hFile : d.bytes? (.clean key) with
          | none =>
              have hNone : deletedFiles d key = 0 := by simp [deletedFiles, hFile]
              have hSame : LinkedMap.modify (LinkedMap.touch c.lruEntries key) key (fun e =>
                  { e with lengths := List.replicate 0 0 ++ e.lengths.drop 0 }) =
                  LinkedMap.touch c.lruEntries key := by
                refine (List.map_congr_left fun e _ => ?_).trans (List.map_id _)
                split <;> simp
              rw [hNone, if_pos (show 0 < thumbnails.valueCount by decide)]
              simp only [Option.isNone_none, if_true]
              refine ⟨(h.touch key).same hSame ?_ rfl, trivial⟩
              simp [lengthOf]
          | some bytes =>
              have hOne : deletedFiles d key = 1 := by simp [deletedFiles, hFile]
              rw [hOne, if_neg (show ¬ 1 < thumbnails.valueCount by decide)]
              simp only [Option.isNone_some, Bool.false_eq_true, if_false]
              have hResized := ((h.files (d.deleteFile (.clean key)).files).erase key).resize
                (show d.size - (lengthOf e.lengths).toNat = c.size - lengthOf e.lengths by
                  rw [hLength, h.size])
              rw [← erase_touch] at hResized
              refine ⟨?_, trivial⟩
              split
              · exact hResized.same rfl rfl rfl
              · exact hResized.same rfl rfl rfl

/-- A clean-up of the one is a clean-up of the other. -/
theorem represents_trim {rounds : Nat} {d' : DiskLruCache.Cache} (h : Represents d c)
    (hTrim : d.trim rounds = some d') :
    ∃ deletions c' threw, c.trimToSize thumbnails deletions = some (c', threw) ∧
      Represents d' c' := by
  induction rounds generalizing d c with
  | zero =>
      unfold DiskLruCache.Cache.trim at hTrim
      split at hTrim
      · rename_i hSize
        cases hTrim
        refine ⟨[], c, false, ?_, h⟩
        rw [Cache.trimToSize, if_pos (h.size ▸ hSize)]
      · cases hTrim
  | succ rounds ih =>
      unfold DiskLruCache.Cache.trim at hTrim
      split at hTrim
      · rename_i hSize
        cases hTrim
        refine ⟨[], c, false, ?_, h⟩
        rw [Cache.trimToSize, if_pos (h.size ▸ hSize)]
      · rename_i hSize
        have hLarge : ¬ c.size ≤ thumbnails.maxSize := h.size ▸ hSize
        cases hEntries : c.lruEntries with
        | nil =>
            have hNone : d.entries = [] := by rw [h.entries, hEntries]; rfl
            rw [hNone] at hTrim
            cases hTrim
            refine ⟨[], c, true, ?_, h⟩
            rw [Cache.trimToSize, if_neg hLarge, hEntries]
            rfl
        | cons eldest rest =>
            have hFirst : d.entries = toEntry eldest :: rest.map toEntry := by
              rw [h.entries, hEntries]
              rfl
            have hValid : validateKey eldest.1 = true :=
              h.valid eldest (by simp [hEntries])
            obtain ⟨hRemoved, hThrew⟩ := represents_remove h hValid
            have hKey : (toEntry eldest).key = eldest.1 := rfl
            rw [hFirst] at hTrim
            simp only [hKey] at hTrim
            cases hBoth : d.remove eldest.1 with
            | mk removed threw =>
                cases hOther : c.remove thumbnails eldest.1 (deletedFiles d eldest.1) with
                | mk removed' threw' =>
                    rw [hBoth, hOther] at hRemoved hThrew
                    obtain rfl : threw = threw' := hThrew
                    rw [hBoth] at hTrim
                    cases threw with
                    | true =>
                        cases hTrim
                        refine ⟨[deletedFiles d eldest.1], removed', true, ?_, hRemoved⟩
                        rw [Cache.trimToSize, if_neg hLarge, hEntries]
                        simp only [List.head?_cons, hOther]
                    | false =>
                        obtain ⟨deletions, c', threw, hRest, hLast⟩ := ih hRemoved hTrim
                        refine ⟨deletedFiles d eldest.1 :: deletions, c', threw, ?_, hLast⟩
                        rw [Cache.trimToSize, if_neg hLarge, hEntries]
                        simp only [List.head?_cons, hOther]
                        exact hRest

/-- An entry is published with a new length. -/
theorem Represents.publishEdit (h : Represents d c) {e : Entry} {renamed : Nat → Option Int64}
    {n : Int64} (hNew : Cache.newLengths e.lengths renamed = [n]) (hNonneg : 0 ≤ n.toInt)
    {change : DiskLruCache.Entry → DiskLruCache.Entry}
    (hChange : ∀ found, find c.lruEntries key = some found →
      change (toEntry (key, found)) = ⟨⟨key, n.toInt.toNat, true⟩, false⟩)
    {size : Int} (hSize : size = c.size - lengthOf e.lengths + n.toInt) (maxSize : Int) :
    Represents { d.modify key change with size := size } (c.publishEdit maxSize key e renamed) := by
  refine Represents.submitIfRequired ?_ maxSize
  have hLength : lengthOf [n] = n.toInt := by simp [lengthOf]
  refine Represents.same ((h.modify key
    (fun _ => ⟨Cache.newLengths e.lengths renamed, true, none, c.nextSequenceNumber⟩) change
    fun found hFound => ⟨?_, n, hNew, hNonneg⟩).resize hSize) rfl ?_ rfl
  · rw [hChange found hFound]
    simp [toEntry, hNew, hLength]
  · dsimp only
    rw [hNew, hLength]

/-- `commit` of the current editor, with the length of the dirty file where there is one. The
dirty file of a new entry has been opened through its editor. -/
theorem represents_commit (h : Represents d c) {e : Entry} {current : Editor} {editor : Handle}
    (hEditor : c.editorOf editor = some (e, current)) (hErrors : current.hasErrors = false)
    {renamed : Nat → Option Int64}
    (hRenamed : (renamed 0).map Int64.toInt =
      (d.bytes? (.dirty editor.key)).map fun bytes => (bytes.length : Int))
    (hWritten : e.readable = false → (renamed 0).isSome = true → current.written = some [true])
    (deleted : Nat) :
    Represents (d.commit editor.key) (c.commit thumbnails editor renamed true deleted) := by
  obtain ⟨hFind, -, -⟩ := editorOf_eq_some hEditor
  obtain ⟨n, hLengths, hNonneg⟩ := h.oneLength_of_find hFind
  have hOld := (h.oneLength_of_find hFind).toNat
  unfold Cache.commit Cache.completeEdit DiskLruCache.Cache.commit
  rw [hEditor, h.entryOf, hFind]
  simp only [Option.map_some, hErrors, Bool.false_eq_true, if_false, Bool.true_and, if_true]
  cases hFile : d.bytes? (.dirty editor.key) with
  | some bytes =>
      rw [hFile] at hRenamed
      obtain ⟨m, hLength, hSize⟩ := Option.map_eq_some_iff.mp hRenamed
      have hSize : m.toInt = bytes.length := hSize
      have hPublish :
          (e.readable || Cache.complete thumbnails.valueCount current renamed) = true := by
        cases hReadable : e.readable with
        | true => rfl
        | false =>
            have hAll := hWritten hReadable (by simp [hLength])
            simp [Cache.complete, thumbnails, hAll, hLength, List.range_succ]
      have hNew : Cache.newLengths e.lengths renamed = [m] := by
        simp [Cache.newLengths, hLengths, hLength]
      rw [if_pos hPublish]
      have hRename := h.files (d.renameFile (.dirty editor.key) (.clean editor.key) bytes).files
      refine hRename.publishEdit hNew (by omega) (fun found _ => by simp [hSize]) ?_ _
      rw [h.size, hSize]
      simp only [toEntry]
      omega
  | none =>
      rw [hFile] at hRenamed
      have hNone : renamed 0 = none := Option.map_eq_none_iff.mp hRenamed
      have hNew : Cache.newLengths e.lengths renamed = [n] := by
        simp [Cache.newLengths, hLengths, hNone]
      cases hReadable : e.readable with
      | true =>
          simp only [Bool.true_or, if_true, toEntry, hReadable]
          refine h.publishEdit hNew hNonneg (fun found hFound => ?_) ?_ _
          · obtain rfl : found = e := Option.some.inj (hFound.symm.trans hFind)
            simp [toEntry, hLengths, lengthOf, hReadable]
          · have hBefore := h.size
            simp only [hLengths, lengthOf, List.foldr_cons, List.foldr_nil]
            omega
      | false =>
          have hAborts : Cache.complete thumbnails.valueCount current renamed = false := by
            simp [Cache.complete, thumbnails, hNone, List.range_succ]
          simp only [hAborts, Bool.or_self, Bool.false_eq_true, if_false, toEntry, hReadable,
            Cache.abortEdit]
          refine Represents.submitIfRequired ?_ _
          exact (h.erase editor.key).same rfl rfl rfl

end Operations

end Meet.DiskLruCache.Journal
