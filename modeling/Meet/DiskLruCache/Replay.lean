import Meet.DiskLruCache.Moves
import Meet.DiskLruCache.Recovery

/-! The journal says what the cache holds, whatever calls are made and however often the
process is killed and the cache opened again. -/
namespace Meet.DiskLruCache.Journal
open LinkedMap

/-- The journal file as it is read when the cache is opened. A corrupt journal is deleted with
all files. -/
def reopen (cfg : Config) (lines : List Line) : Cache :=
  match readJournal cfg (.new [encode (text cfg lines)]) with
  | some (entries, redundantOpCount) => Cache.opened lines entries redundantOpCount
  | none => .empty

/-- A call, or the end of the process and a new start on the first lines of the journal. The
lines behind them were still buffered. -/
inductive Event where
  | call (act : Act)
  | restart (kept : Nat)

def runEvent (cfg : Config) (c : Cache) : Event → Option Cache
  | .call act => step cfg c act
  | .restart kept => some (reopen cfg (c.journal.take kept))

/-- Keys are ASCII, and a removal deletes all files of an entry or none. -/
def Event.Careful (cfg : Config) (_ : Cache) : Event → Prop
  | .call act => act.Plain Ascii ∧ act.Torn cfg fun deleted => deleted = 0
  | .restart _ => True

/-- An entry that a line can name, and that is readable or is being created. -/
structure Sound (cfg : Config) (key : Key) (e : Entry) : Prop where
  valid : validateKey key = true
  ascii : Ascii key
  count : e.lengths.length = cfg.valueCount
  held : e.readable = true ∨ e.currentEditor.isSome = true

/-- The journal names every entry, and for each key says what can be read. -/
structure Recorded (cfg : Config) (c : Cache) : Prop where
  keyed : Keyed c.lruEntries
  sound : ∀ key e, find c.lruEntries key = some e → Sound cfg key e
  plain : ∀ line ∈ c.journal, line.Plain cfg.valueCount
  same : ∀ key, published c.lruEntries key = settled c.journal key
  named : ∀ key, find c.lruEntries key ≠ none → find (replay cfg c.journal) key ≠ none
  held : ∀ lines, lines <+: c.journal → ∀ key e, find (replay cfg lines) key = some e →
    e.readable = true ∨ e.currentEditor.isSome = true

theorem recorded_empty (cfg : Config) : Recorded cfg .empty where
  keyed := keyed_nil
  sound := by simp [Cache.empty]
  plain := by simp [Cache.empty]
  same := fun _ => rfl
  named := by simp [Cache.empty]
  held := by
    intro lines hPrefix key e hFind
    obtain rfl : lines = [] := List.prefix_nil.mp hPrefix
    simp [replay] at hFind

/-! ### Moves that write a line -/

section Write

variable {cfg : Config} {c d : Cache}

/-- A line is written, and the entry of its key is changed to what the line says. -/
theorem Recorded.write (h : Recorded cfg c) (line : Line)
    (hJournal : d.journal = c.journal ++ [line])
    (hKeyed : Keyed d.lruEntries)
    (hOthers : ∀ key, key ≠ line.key → find d.lruEntries key = find c.lruEntries key)
    (hLine : line.Plain cfg.valueCount)
    (hSound : ∀ e, find d.lruEntries line.key = some e → Sound cfg line.key e)
    (hVerdict : published d.lruEntries line.key =
      match line.verdict with
      | .kept lengths => some lengths
      | .lost => none
      | .silent => published c.lruEntries line.key)
    (hRemove : ∀ key, line = .remove key → find d.lruEntries key = none)
    (hRead : ∀ key, line = .read key → find c.lruEntries key ≠ none) : Recorded cfg d where
  keyed := hKeyed
  sound := by
    intro key e hFind
    by_cases hKey : key = line.key
    · subst hKey
      exact hSound e hFind
    · rw [hOthers key hKey] at hFind
      exact h.sound key e hFind
  plain := by
    intro other hMem
    rw [hJournal, List.mem_append, List.mem_singleton] at hMem
    cases hMem with
    | inl hOld => exact h.plain other hOld
    | inr hNew => exact hNew ▸ hLine
  same := by
    intro key
    rw [hJournal, settled_append]
    by_cases hKey : key = line.key
    · rw [if_pos hKey, hKey, hVerdict]
      cases line.verdict with
      | silent => exact h.same line.key
      | lost => rfl
      | kept lengths => rfl
    · rw [if_neg hKey, published, hOthers key hKey]
      exact h.same key
  named := by
    intro key hFind
    rw [hJournal, replay_append, find_apply]
    by_cases hKey : key = line.key
    · rw [if_pos hKey]
      cases line with
      | clean lineKey lengths => simp
      | dirty lineKey => simp
      | remove lineKey => exact absurd (hRemove lineKey rfl) (by rwa [hKey] at hFind)
      | read lineKey => simp
    · rw [if_neg hKey]
      rw [hOthers key hKey] at hFind
      exact h.named key hFind
  held := by
    intro lines hPrefix key e hFind
    rw [hJournal] at hPrefix
    rcases List.prefix_concat_iff.mp hPrefix with rfl | hOld
    case inr => exact h.held lines hOld key e hFind
    rw [replay_append, find_apply] at hFind
    by_cases hKey : key = line.key
    · rw [if_pos hKey] at hFind
      cases line with
      | clean lineKey lengths =>
          cases hFind
          exact Or.inl rfl
      | dirty lineKey =>
          cases hFind
          exact Or.inr rfl
      | remove lineKey => cases hFind
      | read lineKey =>
          obtain ⟨old, hOld⟩ := Option.ne_none_iff_exists'.mp
            (h.named lineKey (hRead lineKey rfl))
          have hKey : key = lineKey := hKey
          rw [hKey, hOld] at hFind
          exact h.held c.journal (List.prefix_refl _) lineKey e (by rw [hOld]; exact hFind)
    · rw [if_neg hKey] at hFind
      exact h.held c.journal (List.prefix_refl _) key e hFind

/-- Nothing is written, and no entry is made, published or lost. -/
theorem Recorded.silent (h : Recorded cfg c) (hJournal : d.journal = c.journal)
    (hKeyed : Keyed d.lruEntries)
    (hEntry : ∀ key e, find d.lruEntries key = some e →
      Sound cfg key e ∧ find c.lruEntries key ≠ none)
    (hSame : ∀ key, published d.lruEntries key = published c.lruEntries key) :
    Recorded cfg d where
  keyed := hKeyed
  sound := fun key e hFind => (hEntry key e hFind).1
  plain := hJournal ▸ h.plain
  same := by
    intro key
    rw [hSame, hJournal]
    exact h.same key
  named := by
    intro key hFind
    obtain ⟨e, hSome⟩ := Option.ne_none_iff_exists'.mp hFind
    rw [hJournal]
    exact h.named key (hEntry key e hSome).2
  held := hJournal ▸ h.held

end Write

/-! ### The journal rebuilt -/

/-- The line that `rebuildJournal` writes of an entry. -/
def rebuiltLine (e : Key × Entry) : Line :=
  if e.2.currentEditor.isSome then .dirty e.1 else .clean e.1 e.2.lengths

theorem key_rebuiltLine (e : Key × Entry) : (rebuiltLine e).key = e.1 := by
  unfold rebuiltLine
  split <;> rfl

theorem rebuiltLine_cases (e : Key × Entry) :
    rebuiltLine e = .dirty e.1 ∨ rebuiltLine e = .clean e.1 e.2.lengths := by
  unfold rebuiltLine
  split
  · exact Or.inl rfl
  · exact Or.inr rfl

theorem settled_rebuilt {m : Entries} (hKeyed : Keyed m)
    (hHeld : ∀ e ∈ m, e.2.readable = true ∨ e.2.currentEditor.isSome = true) (key : Key) :
    settled (m.map rebuiltLine) key = published m key := by
  induction m using List.reverseRecOn with
  | nil => rfl
  | append_singleton m e ih =>
      have hFront : Keyed m := (List.sublist_append_left m [e]).map Prod.fst |>.nodup hKeyed
      have hFresh : find m e.1 = none := by
        apply find_eq_none.mpr
        intro hMem
        rw [Keyed, List.map_append] at hKeyed
        exact (List.disjoint_of_nodup_append hKeyed) hMem (by simp)
      have hRest := ih hFront fun other hMem => hHeld other (List.mem_append_left _ hMem)
      rw [List.map_append, List.map_singleton, settled_append, key_rebuiltLine, hRest]
      simp only [published, find_append, find_cons, find_nil]
      by_cases hKey : key = e.1
      · have hEntry := hHeld e (by simp)
        rw [if_pos hKey, hKey, hFresh]
        simp only [if_true, Option.none_or, Option.bind_some, rebuiltLine]
        cases hEditor : e.2.currentEditor with
        | none =>
            have hReadable : e.2.readable = true := by simpa [hEditor] using hEntry
            simp [Line.verdict, Entry.published, hEditor, hReadable]
        | some current => simp [Line.verdict, Entry.published, hEditor]
      · rw [if_neg hKey, if_neg fun h => hKey h.symm, Option.or_none]

theorem replay_rebuilt (cfg : Config) (m : Entries) (key : Key) :
    (find m key ≠ none → find (replay cfg (m.map rebuiltLine)) key ≠ none) ∧
      ∀ e, find (replay cfg (m.map rebuiltLine)) key = some e →
        e.readable = true ∨ e.currentEditor.isSome = true := by
  induction m using List.reverseRecOn with
  | nil => simp [replay]
  | append_singleton m e ih =>
      rw [List.map_append, List.map_singleton, replay_append, find_apply, key_rebuiltLine,
        find_append, find_cons, find_nil]
      by_cases hKey : key = e.1
      · rw [if_pos hKey]
        cases rebuiltLine_cases e with
        | inl hDirty =>
            rw [hDirty]
            refine ⟨fun _ => Option.some_ne_none _, fun e hSome => ?_⟩
            cases hSome
            exact Or.inr rfl
        | inr hClean =>
            rw [hClean]
            refine ⟨fun _ => Option.some_ne_none _, fun e hSome => ?_⟩
            cases hSome
            exact Or.inl rfl
      · rw [if_neg hKey, if_neg fun h => hKey h.symm, Option.or_none]
        exact ih

/-! ### Moves -/

theorem length_newLengths (lengths : List Int64) (renamed : Nat → Option Int64) :
    (Cache.newLengths lengths renamed).length = lengths.length := List.length_mapIdx

/-- The entry of one key, changed where it stands. -/
theorem find_modify_cases {m : Entries} {key other : Key} {change : Entry → Entry} {e : Entry}
    (hFind : find (LinkedMap.modify m key change) other = some e) :
    (other ≠ key ∧ find m other = some e) ∨
      ∃ old, other = key ∧ find m key = some old ∧ e = change old := by
  rw [find_modify] at hFind
  by_cases hKey : other = key
  · rw [if_pos hKey, hKey] at hFind
    obtain ⟨old, hOld, rfl⟩ := Option.map_eq_some_iff.mp hFind
    exact Or.inr ⟨old, hKey, hOld, rfl⟩
  · rw [if_neg hKey] at hFind
    exact Or.inl ⟨hKey, hFind⟩

theorem published_modify (m : Entries) (key other : Key) (change : Entry → Entry) :
    published (LinkedMap.modify m key change) other =
      if other = key then (find m key).bind fun e => (change e).published
      else published m other := by
  unfold published
  rw [find_modify]
  by_cases hKey : other = key
  · rw [if_pos hKey, if_pos hKey, hKey, Option.bind_map]
    rfl
  · rw [if_neg hKey, if_neg hKey]

/-- What a move keeps. A removal that throws has deleted nothing. -/
theorem recorded_moved {cfg : Config} {c d : Cache} (h : Recorded cfg c)
    (hMoved : Moved cfg Ascii (fun deleted => deleted = 0) c d) : Recorded cfg d := by
  cases hMoved with
  | other journalWriter submitted => exact ⟨h.keyed, h.sound, h.plain, h.same, h.named, h.held⟩
  | touch key =>
      refine h.silent ?_ (keyed_touch h.keyed key) ?_ ?_
      · rfl
      · intro other e hFind
        simp only [find_touch] at hFind
        exact ⟨h.sound other e hFind, by simp [hFind]⟩
      · intro other
        simp [published]
  | @read key e hFind hReadable =>
      have hSound := h.sound key e hFind
      refine h.write (.read key) rfl h.keyed (fun _ _ => rfl) ?_ (h.sound key) rfl ?_ ?_
      · exact ⟨hSound.valid, hSound.ascii, fun _ _ hEq => by cases hEq⟩
      · exact fun _ hEq => by cases hEq
      · intro other hEq
        cases hEq
        simp [hFind]
  | @create key hNone hValid hPlain =>
      refine h.write (.dirty key) rfl ?_ ?_ ?_ ?_ ?_ ?_ ?_
      · dsimp only [Cache.startEdit]
        exact keyed_modify (keyed_put h.keyed key _) key _
      · intro other hOther
        have hNe : other ≠ key := hOther
        simp [Cache.startEdit, hNe]
      · exact ⟨hValid, hPlain, fun _ _ hEq => by cases hEq⟩
      · intro e hFind
        simp only [Cache.startEdit, Line.key, find_modify, if_true, find_put, Option.map_some] at hFind
        cases hFind
        exact ⟨hValid, hPlain, by simp [Entry.new], Or.inr rfl⟩
      · simp [Cache.startEdit, Line.key, Line.verdict, published_modify, Entry.published]
      · exact fun _ hEq => by cases hEq
      · exact fun _ hEq => by cases hEq
  | @start key e hFind hIdle =>
      have hSound := h.sound key e hFind
      refine h.write (.dirty key) rfl ?_ ?_ ?_ ?_ ?_ ?_ ?_
      · dsimp only [Cache.startEdit]
        exact keyed_modify h.keyed key _
      · intro other hOther
        have hNe : other ≠ key := hOther
        simp [Cache.startEdit, hNe]
      · exact ⟨hSound.valid, hSound.ascii, fun _ _ hEq => by cases hEq⟩
      · intro e' hFind'
        simp only [Cache.startEdit, Line.key, Cache.write, find_modify, if_true, hFind,
          Option.map_some] at hFind'
        cases hFind'
        exact ⟨hSound.valid, hSound.ascii, hSound.count, Or.inr rfl⟩
      · simp [Cache.startEdit, Cache.write, Line.key, Line.verdict, published_modify, hFind,
          Entry.published]
      · exact fun _ hEq => by cases hEq
      · exact fun _ hEq => by cases hEq
  | @editing key e current hFind hCurrent change hNumber =>
      have hSound := h.sound key e hFind
      refine h.silent ?_ ?_ ?_ ?_
      · rfl
      · dsimp only
        exact keyed_modify h.keyed key _
      · intro other e' hFind'
        dsimp only at hFind'
        rcases find_modify_cases hFind' with ⟨-, hOld⟩ | ⟨old, rfl, hOld, rfl⟩
        · exact ⟨h.sound other e' hOld, by simp [hOld]⟩
        · have hOldSound := h.sound other old hOld
          exact ⟨⟨hOldSound.valid, hOldSound.ascii, hOldSound.count, Or.inr rfl⟩, by simp [hOld]⟩
      · intro other
        rw [published_modify]
        by_cases hKey : other = key
        · rw [if_pos hKey, hKey, published, hFind]
          simp [Entry.published, hCurrent]
        · rw [if_neg hKey]
  | @publish key e current hFind hCurrent renamed =>
      have hSound := h.sound key e hFind
      have hCount : (Cache.newLengths e.lengths renamed).length = cfg.valueCount :=
        (length_newLengths _ _).trans hSound.count
      refine h.write (.clean key (Cache.newLengths e.lengths renamed)) rfl ?_ ?_ ?_ ?_ ?_ ?_ ?_
      · dsimp only
        exact keyed_modify h.keyed key _
      · intro other hOther
        have hNe : other ≠ key := hOther
        simp [hNe]
      · exact ⟨hSound.valid, hSound.ascii, fun _ _ hEq => by cases hEq; exact hCount⟩
      · intro e' hFind'
        simp only [Line.key, find_modify, if_true, hFind, Option.map_some] at hFind'
        cases hFind'
        exact ⟨hSound.valid, hSound.ascii, hCount, Or.inl rfl⟩
      · simp [Line.key, Line.verdict, published_modify, hFind, Entry.published]
      · exact fun _ hEq => by cases hEq
      · exact fun _ hEq => by cases hEq
  | @restore key e current hFind hCurrent hReadable =>
      have hSound := h.sound key e hFind
      refine h.write (.clean key e.lengths) rfl ?_ ?_ ?_ ?_ ?_ ?_ ?_
      · dsimp only
        exact keyed_modify h.keyed key _
      · intro other hOther
        have hNe : other ≠ key := hOther
        simp [hNe]
      · exact ⟨hSound.valid, hSound.ascii, fun _ _ hEq => by cases hEq; exact hSound.count⟩
      · intro e' hFind'
        simp only [Line.key, find_modify, if_true, hFind, Option.map_some] at hFind'
        cases hFind'
        exact ⟨hSound.valid, hSound.ascii, hSound.count, Or.inl hReadable⟩
      · simp [Line.key, Line.verdict, published_modify, hFind, Entry.published, hReadable]
      · exact fun _ hEq => by cases hEq
      · exact fun _ hEq => by cases hEq
  | @drop key e current hFind hCurrent hReadable =>
      have hSound := h.sound key e hFind
      refine h.write (.remove key) rfl (keyed_erase h.keyed key) ?_ ?_ ?_ ?_ ?_ ?_
      · intro other hOther
        have hNe : other ≠ key := hOther
        simp [hNe]
      · exact ⟨hSound.valid, hSound.ascii, fun _ _ hEq => by cases hEq⟩
      · intro e' hFind'
        simp [Line.key] at hFind'
      · simp [Line.key, Line.verdict, published]
      · intro other hEq
        cases hEq
        simp
      · exact fun _ hEq => by cases hEq
  | @evict key e hFind hIdle =>
      have hSound := h.sound key e hFind
      refine h.write (.remove key) rfl (keyed_erase h.keyed key) ?_ ?_ ?_ ?_ ?_ ?_
      · intro other hOther
        have hNe : other ≠ key := hOther
        simp [hNe]
      · exact ⟨hSound.valid, hSound.ascii, fun _ _ hEq => by cases hEq⟩
      · intro e' hFind'
        simp [Line.key] at hFind'
      · simp [Line.key, Line.verdict, published]
      · intro other hEq
        cases hEq
        simp
      · exact fun _ hEq => by cases hEq
  | @spoil key e hFind hIdle deleted hDeleted hTorn =>
      obtain rfl : deleted = 0 := hTorn
      refine h.silent ?_ ?_ ?_ ?_
      · rfl
      · dsimp only
        exact keyed_modify h.keyed key _
      · intro other e' hFind'
        dsimp only at hFind'
        rcases find_modify_cases hFind' with ⟨-, hOld⟩ | ⟨old, rfl, hOld, rfl⟩
        · exact ⟨h.sound other e' hOld, by simp [hOld]⟩
        · have hOldSound := h.sound other old hOld
          exact ⟨⟨hOldSound.valid, hOldSound.ascii, hOldSound.count, hOldSound.held⟩, by simp [hOld]⟩
      · intro other
        rw [published_modify]
        by_cases hKey : other = key
        · rw [if_pos hKey, hKey, published]
          rfl
        · rw [if_neg hKey]
  | rebuild hRequired =>
      have hHeld : ∀ e ∈ c.lruEntries, e.2.readable = true ∨ e.2.currentEditor.isSome = true :=
        fun e hMem => (h.sound e.1 e.2 (find_of_mem h.keyed hMem)).held
      refine ⟨h.keyed, h.sound, ?_, ?_, ?_, ?_⟩
      · intro line hMem
        obtain ⟨e, hEntry, rfl⟩ := List.mem_map.mp hMem
        have hSound := h.sound e.1 e.2 (find_of_mem h.keyed hEntry)
        split
        · exact ⟨hSound.valid, hSound.ascii, fun _ _ hEq => by cases hEq⟩
        · exact ⟨hSound.valid, hSound.ascii, fun _ _ hEq => by cases hEq; exact hSound.count⟩
      · exact fun key => (settled_rebuilt h.keyed hHeld key).symm
      · exact fun key => (replay_rebuilt cfg c.lruEntries key).1
      · intro lines hPrefix key
        obtain ⟨front, -, rfl⟩ := List.prefix_map_iff.mp hPrefix
        exact (replay_rebuilt cfg front key).2

theorem recorded_moves {cfg : Config} {c d : Cache} (h : Recorded cfg c)
    (hMoves : Moves cfg Ascii (fun deleted => deleted = 0) c d) : Recorded cfg d := by
  induction hMoves with
  | refl => exact h
  | tail _ hMoved ih => exact recorded_moved ih hMoved

/-! ### Restarts -/

theorem find_replay_cases {cfg : Config} {lines : List Line}
    (hPlain : ∀ line ∈ lines, line.Plain cfg.valueCount) {key : Key} {e : Entry}
    (hFind : find (replay cfg lines) key = some e) :
    validateKey key = true ∧ Ascii key ∧ e.lengths.length = cfg.valueCount := by
  induction lines using List.reverseRecOn generalizing e with
  | nil => simp [replay] at hFind
  | append_singleton lines line ih =>
      have hFront : ∀ line ∈ lines, line.Plain cfg.valueCount :=
        fun other hMem => hPlain other (List.mem_append_left _ hMem)
      have hLine := hPlain line (by simp)
      rw [replay_append, find_apply] at hFind
      by_cases hKey : key = line.key
      · refine ⟨hKey ▸ hLine.valid, hKey ▸ hLine.ascii, ?_⟩
        have hOld : ((find (replay cfg lines) key).getD (Entry.new cfg.valueCount)).lengths.length =
            cfg.valueCount := by
          cases hReplay : find (replay cfg lines) key with
          | none => simp [Entry.new]
          | some old => exact (ih hFront hReplay).2.2
        rw [if_pos hKey] at hFind
        cases line with
        | clean lineKey lengths =>
            cases hFind
            exact hLine.count lineKey lengths rfl
        | dirty lineKey =>
            cases hFind
            exact hOld
        | remove lineKey => cases hFind
        | read lineKey =>
            cases hFind
            exact hOld
      · rw [if_neg hKey] at hFind
        exact ih hFront hFind

/-- The lines of a journal that a cache has written are not corrupt. -/
theorem reopen_eq {cfg : Config} {lines : List Line}
    (hPlain : ∀ line ∈ lines, line.Plain cfg.valueCount) :
    reopen cfg lines =
      Cache.opened lines (replay cfg lines) ((lines.length : Int) - (replay cfg lines).length) := by
  rw [reopen, readJournal_text hPlain (by simp)]

/-- After a restart the cache holds what the lines that were kept say. -/
theorem recorded_reopen {cfg : Config} {c : Cache} (h : Recorded cfg c) (kept : Nat) :
    Recorded cfg (reopen cfg (c.journal.take kept)) := by
  have hPrefix : c.journal.take kept <+: c.journal := List.take_prefix kept c.journal
  have hPlain : ∀ line ∈ c.journal.take kept, line.Plain cfg.valueCount :=
    fun line hMem => h.plain line (hPrefix.subset hMem)
  have hKeyed := keyed_replay cfg (c.journal.take kept)
  rw [reopen_eq hPlain]
  refine ⟨keyed_processJournal hKeyed, ?_, hPlain, ?_, ?_, ?_⟩
  · intro key e hFind
    simp only [Cache.opened, find_processJournal hKeyed] at hFind
    have hReplay := (Option.filter_eq_some_iff.mp hFind).1
    obtain ⟨hValid, hAscii, hCount⟩ := find_replay_cases hPlain hReplay
    exact ⟨hValid, hAscii, hCount, h.held _ hPrefix key e hReplay⟩
  · intro key
    simp only [Cache.opened, published_processJournal hKeyed]
    exact published_replay cfg _ key
  · intro key hFind hNone
    simp only [Cache.opened, find_processJournal hKeyed] at hFind
    exact hFind (Option.filter_eq_none_iff.mpr fun e hSome => by
      rw [show find (replay cfg (c.journal.take kept)) key = none from hNone] at hSome
      cases hSome)
  · exact fun lines hFront => h.held lines (hFront.trans hPrefix)

theorem recorded_run {cfg : Config} {c : Cache} {events : List Event}
    (run : Run (runEvent cfg) (Event.Careful cfg) .empty events c) : Recorded cfg c := by
  apply run.invariant (recorded_empty cfg)
  intro before event after h hCareful hStep
  cases event with
  | call act => exact recorded_moves h (moves_step hCareful.1 hCareful.2 hStep)
  | restart kept =>
      cases hStep
      exact recorded_reopen h kept

/-! ### What is read -/

/-- The entries that are not edited, with their lengths. -/
def unedited (entries : Entries) : List (Key × List Int64) :=
  (entries.filter fun e => e.2.currentEditor.isNone).map fun e => (e.1, e.2.lengths)

theorem find_unedited {entries : Entries} (hKeyed : Keyed entries) {key : Key}
    (hHeld : ∀ e, find entries key = some e → e.readable = true ∨ e.currentEditor.isSome = true) :
    find (unedited entries) key = published entries key := by
  have hFilter := find_filter hKeyed (fun e => e.currentEditor.isNone) key
  rw [unedited, find_map, hFilter, published]
  cases hFind : find entries key with
  | none => rfl
  | some e =>
      cases hEditor : e.currentEditor with
      | none =>
          have hReadable : e.readable = true := by simpa [hEditor] using hHeld e hFind
          simp [Option.filter, Entry.published, hEditor, hReadable]
      | some current => simp [Option.filter, Entry.published, hEditor]

theorem keyed_unedited {entries : Entries} (hKeyed : Keyed entries) : Keyed (unedited entries) :=
  keyed_map ((List.filter_sublist.map Prod.fst).nodup hKeyed) _

theorem sizeOf_eq (entries : Entries) :
    sizeOf entries =
      (entries.map fun e => (e.1, e.2.lengths)).foldr (fun e sum => lengthOf e.2 + sum) 0 := by
  rw [sizeOf, List.foldr_map]

/-- The sizes of maps with the same entries agree. -/
theorem foldr_lengthOf_perm {m n : List (Key × List Int64)} (hPerm : m.Perm n) :
    m.foldr (fun e sum => lengthOf e.2 + sum) 0 = n.foldr (fun e sum => lengthOf e.2 + sum) 0 := by
  induction hPerm with
  | nil => rfl
  | cons e _ ih => simp only [List.foldr_cons, ih]
  | swap e f m =>
      simp only [List.foldr_cons]
      omega
  | trans _ _ ihFirst ihSecond => exact ihFirst.trans ihSecond

/-- However the process was killed before, the journal that a cache has written is read, in
any chunks, as the entries of the cache that are not edited, with their lengths, and as the
sum of those. -/
theorem journal_replayed (cfg : Config) {c : Cache} {events : List Event}
    (run : Run (runEvent cfg) (Event.Careful cfg) .empty events c)
    {source : List (List UInt8)} (hSource : source.flatten = encode (text cfg c.journal)) :
    ∃ entries redundantOpCount, readJournal cfg (.new source) = some (entries, redundantOpCount) ∧
      (unedited (processJournal entries).1).Perm (unedited c.lruEntries) ∧
      (processJournal entries).2 =
        (unedited c.lruEntries).foldr (fun e sum => lengthOf e.2 + sum) 0 := by
  have h := recorded_run run
  have hKeyed := keyed_replay cfg c.journal
  have hProcessed := keyed_processJournal hKeyed
  have hPerm : (unedited (processJournal (replay cfg c.journal)).1).Perm
      (unedited c.lruEntries) := by
    apply perm_of_find (keyed_unedited hProcessed) (keyed_unedited h.keyed)
    intro key
    rw [find_unedited h.keyed fun e hFind => (h.sound key e hFind).held, h.same, find_unedited]
    · rw [published_processJournal hKeyed, published_replay]
    · exact hProcessed
    · intro e hFind
      rw [find_processJournal hKeyed] at hFind
      exact h.held _ (List.prefix_refl _) key e (Option.filter_eq_some_iff.mp hFind).1
  refine ⟨_, _, readJournal_text h.plain hSource, hPerm, ?_⟩
  rw [← foldr_lengthOf_perm hPerm, unedited]
  have hAll : (processJournal (replay cfg c.journal)).1.filter
      (fun e => e.2.currentEditor.isNone) = (processJournal (replay cfg c.journal)).1 := by
    simp only [processJournal, List.filter_filter, Bool.and_self]
  rw [hAll, ← sizeOf_eq]
  rfl

/-- An entry that was made, edited and published. -/
theorem run_published : Run (runEvent thumbnails) (Event.Careful thumbnails) .empty
    [.call (.edit ['k'] none), .call (.newOutputStream ⟨['k'], 1⟩ 0),
      .call (.commit ⟨['k'], 1⟩ (fun _ => some 5) true 1), .restart 2]
    ⟨5, [(['k'], ⟨[5], true, none, 0⟩)], 1, 0, [.dirty ['k'], .clean ['k'] [5]], true, 0, 1⟩ := by
  have hKey : Ascii ['k'] := by decide
  have hEdit (c : Cache) : Event.Careful thumbnails c (.call (.edit ['k'] none)) :=
    ⟨hKey, trivial⟩
  have hStream (c : Cache) :
      Event.Careful thumbnails c (.call (.newOutputStream ⟨['k'], 1⟩ 0)) := ⟨trivial, trivial⟩
  have hCommit (c : Cache) :
      Event.Careful thumbnails c (.call (.commit ⟨['k'], 1⟩ (fun _ => some 5) true 1)) :=
    ⟨trivial, fun hDeleted => absurd hDeleted (by decide)⟩
  have hRestart (c : Cache) : Event.Careful thumbnails c (.restart 2) := trivial
  refine Run.cons (hEdit _) rfl (Run.cons (hStream _) rfl (Run.cons (hCommit _) rfl ?_))
  exact Run.single (hRestart _) (by decide)

theorem journal_replayed_published :
    ∃ entries redundantOpCount,
      readJournal thumbnails
        (.new [encode (text thumbnails [.dirty ['k'], .clean ['k'] [5]])]) =
          some (entries, redundantOpCount) ∧
      (unedited (processJournal entries).1).Perm [(['k'], [5])] ∧
      (processJournal entries).2 = 5 :=
  journal_replayed thumbnails run_published (by simp)

end Meet.DiskLruCache.Journal
