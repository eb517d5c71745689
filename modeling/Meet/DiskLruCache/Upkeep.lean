import Meet.DiskLruCache.Replay

/-! When the journal is rebuilt, and which entries `trimToSize` removes. -/
namespace Meet.DiskLruCache.Journal
open LinkedMap

/-- A cache that was just opened, on an empty directory or on a journal. -/
def Started (cfg : Config) (c : Cache) : Prop :=
  c = .empty ∨ ∃ lines, (∀ line ∈ lines, line.Plain cfg.valueCount) ∧ c = reopen cfg lines

/-- The recorded size is that of the entries, new entries have no length yet, and the lines of
the journal that are counted as redundant are there. -/
structure Kept (cfg : Config) (c : Cache) : Prop where
  keyed : Keyed c.lruEntries
  valid : ∀ key e, find c.lruEntries key = some e → validateKey key = true
  zero : ∀ key e, find c.lruEntries key = some e → e.readable = false →
    e.lengths = List.replicate cfg.valueCount 0
  size : c.size = sizeOf c.lruEntries
  counted : c.redundantOpCount + c.lruEntries.length ≤ c.journal.length

/-! ### Sizes -/

theorem lengthOf_replicate (n : Nat) : lengthOf (List.replicate n 0) = 0 := by
  induction n with
  | zero => rfl
  | succ n ih =>
      rw [List.replicate_succ, lengthOf, List.foldr_cons]
      rw [lengthOf] at ih
      rw [ih]
      rfl

theorem lengthOf_append (first second : List Int64) :
    lengthOf (first ++ second) = lengthOf first + lengthOf second := by
  induction first with
  | nil => simp [lengthOf]
  | cons n first ih =>
      simp only [lengthOf, List.cons_append, List.foldr_cons] at ih ⊢
      omega

theorem sizeOf_perm {m n : Entries} (hPerm : m.Perm n) : sizeOf m = sizeOf n := by
  rw [sizeOf_eq, sizeOf_eq]
  exact foldr_lengthOf_perm (hPerm.map _)

theorem sizeOf_cons (e : Key × Entry) (m : Entries) :
    sizeOf (e :: m) = lengthOf e.2.lengths + sizeOf m := rfl

theorem sizeOf_erase {m : Entries} (hKeyed : Keyed m) {key : Key} {e : Entry}
    (hFind : find m key = some e) : sizeOf (erase m key) = sizeOf m - lengthOf e.lengths := by
  have hSize := sizeOf_perm (perm_erase hKeyed hFind)
  rw [sizeOf_cons] at hSize
  dsimp only at hSize
  omega

theorem sizeOf_modify {m : Entries} (hKeyed : Keyed m) {key : Key} {e : Entry}
    (hFind : find m key = some e) (change : Entry → Entry) :
    sizeOf (LinkedMap.modify m key change) =
      sizeOf m - lengthOf e.lengths + lengthOf (change e).lengths := by
  have hChanged := sizeOf_perm (perm_modify hKeyed hFind change)
  have hErase := sizeOf_erase hKeyed hFind
  rw [sizeOf_cons] at hChanged
  dsimp only at hChanged
  omega

theorem sizeOf_put {m : Entries} {key : Key} (hNone : find m key = none) (e : Entry) :
    sizeOf (put m key e) = sizeOf m + lengthOf e.lengths := by
  rw [put, erase_of_find_none hNone]
  have hSize := sizeOf_perm (List.perm_append_singleton (key, e) m)
  rw [sizeOf_cons] at hSize
  dsimp only at hSize
  omega

/-! ### Moves -/

/-- Changing the entry of a key where it stands. -/
theorem Kept.modify {cfg : Config} {c d : Cache} (h : Kept cfg c) {key : Key} {e : Entry}
    (hFind : find c.lruEntries key = some e) (change : Entry → Entry)
    (hEntries : d.lruEntries = LinkedMap.modify c.lruEntries key change)
    (hZero : (change e).readable = false →
      (change e).lengths = List.replicate cfg.valueCount 0)
    (hSize : d.size = c.size - lengthOf e.lengths + lengthOf (change e).lengths)
    (hCounted : d.redundantOpCount - c.redundantOpCount ≤
      (d.journal.length : Int) - c.journal.length) : Kept cfg d where
  keyed := hEntries ▸ keyed_modify h.keyed key change
  valid := by
    intro other e' hFind'
    rw [hEntries] at hFind'
    rcases find_modify_cases hFind' with ⟨-, hOld⟩ | ⟨old, rfl, hOld, -⟩
    · exact h.valid other e' hOld
    · exact h.valid other old hOld
  zero := by
    intro other e' hFind' hReadable
    rw [hEntries] at hFind'
    rcases find_modify_cases hFind' with ⟨-, hOld⟩ | ⟨old, rfl, hOld, rfl⟩
    · exact h.zero other e' hOld hReadable
    · obtain rfl : e = old := Option.some.inj (hFind.symm.trans hOld)
      exact hZero hReadable
  size := by rw [hSize, h.size, hEntries, sizeOf_modify h.keyed hFind]
  counted := by
    have hLength := length_modify c.lruEntries key change
    have hOld := h.counted
    rw [hEntries, hLength]
    omega

/-- Dropping the entry of a key. -/
theorem Kept.erase {cfg : Config} {c d : Cache} (h : Kept cfg c) {key : Key} {e : Entry}
    (hFind : find c.lruEntries key = some e)
    (hEntries : d.lruEntries = LinkedMap.erase c.lruEntries key)
    (hSize : d.size = c.size - lengthOf e.lengths)
    (hCounted : d.redundantOpCount - c.redundantOpCount ≤
      (d.journal.length : Int) - c.journal.length) : Kept cfg d where
  keyed := hEntries ▸ keyed_erase h.keyed key
  valid := by
    intro other e' hFind'
    rw [hEntries, find_erase] at hFind'
    split at hFind'
    · cases hFind'
    · exact h.valid other e' hFind'
  zero := by
    intro other e' hFind'
    rw [hEntries, find_erase] at hFind'
    split at hFind'
    · cases hFind'
    · exact h.zero other e' hFind'
  size := by rw [hSize, h.size, hEntries, sizeOf_erase h.keyed hFind]
  counted := by
    have hLength := length_erase h.keyed hFind
    have hOld := h.counted
    rw [hEntries]
    omega

/-- Some files of an entry are deleted. -/
theorem lengthOf_spoil (lengths : List Int64) (deleted : Nat) :
    lengthOf (List.replicate deleted 0 ++ lengths.drop deleted) =
      lengthOf lengths - lengthOf (lengths.take deleted) := by
  have hSplit := lengthOf_append (lengths.take deleted) (lengths.drop deleted)
  rw [List.take_append_drop] at hSplit
  rw [lengthOf_append, lengthOf_replicate, hSplit]
  omega

theorem kept_moved {cfg : Config} {c d : Cache} (h : Kept cfg c)
    (hMoved : Moved cfg (fun _ => True) (fun _ => True) c d) : Kept cfg d := by
  cases hMoved with
  | other journalWriter submitted => exact ⟨h.keyed, h.valid, h.zero, h.size, h.counted⟩
  | touch key =>
      refine ⟨keyed_touch h.keyed key, ?_, ?_, ?_, ?_⟩
      · intro other e hFind
        rw [find_touch] at hFind
        exact h.valid other e hFind
      · intro other e hFind
        rw [find_touch] at hFind
        exact h.zero other e hFind
      · exact h.size.trans (sizeOf_perm (touch_perm c.lruEntries key)).symm
      · simpa only [length_touch] using h.counted
  | @read key e hFind hReadable =>
      refine ⟨h.keyed, h.valid, h.zero, h.size, ?_⟩
      have hOld := h.counted
      simp only [Cache.write, List.length_append, List.length_singleton]
      omega
  | @create key hNone hValid hPlain =>
      have hNew : (Entry.new cfg.valueCount).lengths = List.replicate cfg.valueCount 0 := rfl
      have hPut : Kept cfg { c.write (.dirty key) with
          lruEntries := put c.lruEntries key (Entry.new cfg.valueCount) } := by
        refine ⟨keyed_put h.keyed key _, ?_, ?_, ?_, ?_⟩
        · intro other e hFind
          rw [find_put] at hFind
          split at hFind
          · rename_i hKey
            exact hKey ▸ hValid
          · exact h.valid other e hFind
        · intro other e hFind hReadable
          rw [find_put] at hFind
          split at hFind
          · cases hFind
            exact hNew
          · exact h.zero other e hFind hReadable
        · have hSize := sizeOf_put hNone (Entry.new cfg.valueCount)
          rw [hNew, lengthOf_replicate] at hSize
          have hOld := h.size
          simp only [Cache.write]
          omega
        · have hLength := length_put_of_none hNone (Entry.new cfg.valueCount)
          have hOld := h.counted
          simp only [Cache.write, List.length_append, List.length_singleton]
          omega
      have hFind : find (put c.lruEntries key (Entry.new cfg.valueCount)) key =
          some (Entry.new cfg.valueCount) := by simp
      refine hPut.modify hFind (fun e =>
        { e with currentEditor := some (Editor.new cfg.valueCount c.editors e) }) rfl
        (fun _ => hNew) ?_ ?_
      · simp only [Cache.startEdit, Cache.write]
        omega
      · simp [Cache.startEdit, Cache.write]
  | @start key e hFind hIdle =>
      refine h.modify hFind (fun e =>
        { e with currentEditor := some (Editor.new cfg.valueCount c.editors e) }) rfl
        (h.zero key e hFind) ?_ ?_
      · simp only [Cache.startEdit, Cache.write]
        omega
      · simp only [Cache.startEdit, Cache.write, List.length_append, List.length_singleton]
        omega
  | @editing key e current hFind hCurrent change hNumber =>
      refine h.modify hFind (fun e => { e with currentEditor := some (change e) }) rfl
        (h.zero key e hFind) ?_ ?_
      · dsimp only
        omega
      · simp
  | @publish key e current hFind hCurrent renamed =>
      refine h.modify hFind (fun _ =>
        ⟨Cache.newLengths e.lengths renamed, true, none, c.nextSequenceNumber⟩) rfl ?_ rfl ?_
      · simp
      · simp only [Cache.write, List.length_append, List.length_singleton]
        omega
  | @restore key e current hFind hCurrent hReadable =>
      refine h.modify hFind (fun e => { e with currentEditor := none }) rfl
        (h.zero key e hFind) ?_ ?_
      · simp only [Cache.write]
        omega
      · simp only [Cache.write, List.length_append, List.length_singleton]
        omega
  | @drop key e current hFind hCurrent hReadable =>
      refine h.erase hFind rfl ?_ ?_
      · rw [h.zero key e hFind hReadable, lengthOf_replicate]
        simp only [Cache.write]
        omega
      · simp only [Cache.write, List.length_append, List.length_singleton]
        omega
  | @evict key e hFind hIdle =>
      refine h.erase hFind rfl rfl ?_
      simp only [Cache.write, List.length_append, List.length_singleton]
      omega
  | @spoil key e hFind hIdle deleted hDeleted hTorn =>
      refine h.modify hFind (fun e =>
        { e with lengths := List.replicate deleted 0 ++ e.lengths.drop deleted }) rfl ?_ ?_ ?_
      · intro hReadable
        dsimp only
        rw [h.zero key e hFind hReadable, List.drop_replicate, List.replicate_append_replicate]
        congr 1
        omega
      · dsimp only
        rw [lengthOf_spoil]
        omega
      · simp
  | rebuild hRequired =>
      refine ⟨h.keyed, h.valid, h.zero, h.size, ?_⟩
      simp [Cache.rebuildJournal]

theorem kept_moves {cfg : Config} {c d : Cache} (h : Kept cfg c)
    (hMoves : Moves cfg (fun _ => True) (fun _ => True) c d) : Kept cfg d := by
  induction hMoves with
  | refl => exact h
  | tail _ hMoved ih => exact kept_moved ih hMoved

theorem Act.plain_true (act : Act) : act.Plain fun _ => True := by
  cases act <;> trivial

theorem Act.torn_true (cfg : Config) (act : Act) : act.Torn cfg fun _ => True := by
  cases act <;> simp [Act.Torn]

/-! ### Runs -/

theorem find_replay_zero {cfg : Config} (lines : List Line) {key : Key} {e : Entry}
    (hFind : find (replay cfg lines) key = some e) (hReadable : e.readable = false) :
    e.lengths = List.replicate cfg.valueCount 0 := by
  induction lines using List.reverseRecOn generalizing e with
  | nil => simp [replay] at hFind
  | append_singleton lines line ih =>
      have hOld (hUnread : ((find (replay cfg lines) key).getD (Entry.new cfg.valueCount)).readable =
          false) : ((find (replay cfg lines) key).getD (Entry.new cfg.valueCount)).lengths =
            List.replicate cfg.valueCount 0 := by
        cases hReplay : find (replay cfg lines) key with
        | none => rfl
        | some before =>
            rw [hReplay] at hUnread
            exact ih hReplay hUnread
      rw [replay_append, find_apply] at hFind
      by_cases hKey : key = line.key
      · rw [if_pos hKey] at hFind
        cases line with
        | clean lineKey lengths =>
            cases hFind
            cases hReadable
        | dirty lineKey =>
            cases hFind
            exact hOld hReadable
        | remove lineKey => cases hFind
        | read lineKey =>
            cases hFind
            exact hOld hReadable
      · rw [if_neg hKey] at hFind
        exact ih hFind hReadable

theorem kept_started {cfg : Config} {c : Cache} (h : Started cfg c) : Kept cfg c := by
  rcases h with rfl | ⟨lines, hPlain, rfl⟩
  · exact ⟨keyed_nil, by simp [Cache.empty], by simp [Cache.empty], rfl, by simp [Cache.empty]⟩
  · have hKeyed := keyed_replay cfg lines
    have hReplay : ∀ key e, find (processJournal (replay cfg lines)).1 key = some e →
        find (replay cfg lines) key = some e := by
      intro key e hFind
      rw [find_processJournal hKeyed] at hFind
      exact (Option.filter_eq_some_iff.mp hFind).1
    rw [reopen_eq hPlain]
    refine ⟨keyed_processJournal hKeyed, ?_, ?_, rfl, ?_⟩
    · exact fun key e hFind => (find_replay_cases hPlain (hReplay key e hFind)).1
    · exact fun key e hFind => find_replay_zero lines (hReplay key e hFind)
    · have hKept : (processJournal (replay cfg lines)).1.length ≤ (replay cfg lines).length :=
        List.length_filter_le _ _
      simp only [Cache.opened]
      omega

theorem kept_run {cfg : Config} {start c : Cache} {acts : List Act} (hStart : Started cfg start)
    (run : Run (step cfg) unguarded start acts c) : Kept cfg c := by
  apply run.invariant (kept_started hStart)
  intro before act after h _ hStep
  exact kept_moves h (moves_step act.plain_true (act.torn_true cfg) hStep)

/-- Whenever the journal is to be rebuilt, that drops at least 2000 of its lines and at least
half of them. -/
theorem rebuild_halves {cfg : Config} {start c : Cache} {acts : List Act}
    (hStart : Started cfg start) (run : Run (step cfg) unguarded start acts c)
    (hRequired : c.journalRebuildRequired = true) :
    c.rebuildJournal.journal.length + 2000 ≤ c.journal.length ∧
      2 * c.rebuildJournal.journal.length ≤ c.journal.length := by
  have hCounted := (kept_run hStart run).counted
  have hLength : c.rebuildJournal.journal.length = c.lruEntries.length := List.length_map _
  rw [Cache.journalRebuildRequired, Bool.and_eq_true, decide_eq_true_eq,
    decide_eq_true_eq] at hRequired
  omega

/-- A journal of one entry that was read 2000 times. -/
def readOften : List Line :=
  [.dirty ['k'], .clean ['k'] [5]] ++ List.replicate 2000 (.read ['k'])

theorem plain_readOften : ∀ line ∈ readOften, line.Plain thumbnails.valueCount := by
  intro line hMem
  have hKey : Ascii ['k'] := by decide
  rw [readOften, List.mem_append] at hMem
  rcases hMem with hFirst | hRead
  · rcases List.mem_pair.mp hFirst with rfl | rfl
    · exact ⟨rfl, hKey, by simp⟩
    · exact ⟨rfl, hKey, by simp [thumbnails]⟩
  · obtain rfl := List.eq_of_mem_replicate hRead
    exact ⟨rfl, hKey, by simp⟩

theorem replay_readOften : replay thumbnails readOften = [(['k'], ⟨[5], true, none, 0⟩)] := by
  have hReads : ∀ n, (List.replicate n (Line.read ['k'])).foldl
      (fun entries line => line.apply thumbnails.valueCount entries)
      [(['k'], ⟨[5], true, none, 0⟩)] = [(['k'], ⟨[5], true, none, 0⟩)] := by
    intro n
    induction n with
    | zero => rfl
    | succ n ih => exact ih
  rw [replay, readOften, List.foldl_append]
  exact hReads 2000

theorem rebuild_halves_readOften :
    (reopen thumbnails readOften).rebuildJournal.journal.length + 2000 ≤
        (reopen thumbnails readOften).journal.length ∧
      2 * (reopen thumbnails readOften).rebuildJournal.journal.length ≤
        (reopen thumbnails readOften).journal.length := by
  have hRequired : (reopen thumbnails readOften).journalRebuildRequired = true := by
    have hLength : readOften.length = 2002 := by
      rw [readOften, List.length_append, List.length_replicate]
      rfl
    rw [reopen_eq plain_readOften, replay_readOften, hLength]
    decide
  exact rebuild_halves (Or.inr ⟨readOften, plain_readOften, rfl⟩) (.nil _) hRequired

end Meet.DiskLruCache.Journal
