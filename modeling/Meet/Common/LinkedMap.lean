import Mathlib.Algebra.GroupWithZero.Nat
import Mathlib.Data.List.Nodup
import Mathlib.Data.List.Perm.Basic

/-! Maps that keep their entries in a list, the eldest first, and move an entry to the end
when it is read. Nothing here depends on what the keys and the values are. -/
namespace Meet.LinkedMap

variable {κ ν : Type} [DecidableEq κ]

/-- The value of a key: that of its first entry. -/
def find (m : List (κ × ν)) (key : κ) : Option ν :=
  (m.find? fun entry => entry.1 = key).map Prod.snd

/-- The map without a key. -/
def erase (m : List (κ × ν)) (key : κ) : List (κ × ν) := m.filter fun entry => entry.1 ≠ key

/-- The access of `get`. -/
def touch (m : List (κ × ν)) (key : κ) : List (κ × ν) :=
  erase m key ++ m.filter fun entry => entry.1 = key

/-- A key that is put stands last, with its new value. -/
def put (m : List (κ × ν)) (key : κ) (value : ν) : List (κ × ν) := erase m key ++ [(key, value)]

/-- Change a value where it stands. -/
def modify (m : List (κ × ν)) (key : κ) (change : ν → ν) : List (κ × ν) :=
  m.map fun entry => if entry.1 = key then (entry.1, change entry.2) else entry

/-- No key stands twice. -/
def Keyed (m : List (κ × ν)) : Prop := (m.map Prod.fst).Nodup

/-! ### Looking up -/

@[simp]
theorem find_nil (key : κ) : find ([] : List (κ × ν)) key = none := rfl

theorem find_cons (entry : κ × ν) (m : List (κ × ν)) (key : κ) :
    find (entry :: m) key = if entry.1 = key then some entry.2 else find m key := by
  by_cases hKey : entry.1 = key <;> simp [find, hKey]

theorem find_append (m n : List (κ × ν)) (key : κ) :
    find (m ++ n) key = (find m key).or (find n key) := by
  simp [find, List.find?_append, Option.map_or]

/-- An erased key is not found, and every other key is found as before. -/
@[simp]
theorem find_erase (m : List (κ × ν)) (key other : κ) :
    find (erase m key) other = if other = key then none else find m other := by
  induction m with
  | nil => simp [erase]
  | cons entry m ih =>
      simp only [erase] at ih ⊢
      by_cases hKey : entry.1 = key
      · rw [List.filter_cons_of_neg (by simpa using hKey), ih, find_cons]
        by_cases hOther : other = key
        · simp [hOther]
        · simp [hOther, show entry.1 ≠ other from fun hEq => hOther (hEq.symm.trans hKey)]
      · rw [List.filter_cons_of_pos (by simpa using hKey), find_cons, ih, find_cons]
        by_cases hOther : other = key
        · simp [hOther, hKey]
        · simp [hOther]

theorem find_filter_key (m : List (κ × ν)) (key other : κ) :
    find (m.filter fun entry => entry.1 = key) other =
      if other = key then find m other else none := by
  induction m with
  | nil => simp
  | cons entry m ih =>
      by_cases hKey : entry.1 = key
      · rw [List.filter_cons_of_pos (by simpa using hKey), find_cons, ih, find_cons]
        by_cases hOther : other = key
        · simp [hOther]
        · simp [hOther, show entry.1 ≠ other from fun hEq => hOther (hEq.symm.trans hKey)]
      · rw [List.filter_cons_of_neg (by simpa using hKey), ih, find_cons]
        by_cases hOther : other = key
        · simp [hOther, hKey]
        · simp [hOther]

/-- An access changes only the order. -/
@[simp]
theorem find_touch (m : List (κ × ν)) (key other : κ) :
    find (touch m key) other = find m other := by
  rw [touch, find_append, find_erase, find_filter_key]
  by_cases hOther : other = key <;> simp [hOther]

/-- A key that was put has its new value. -/
@[simp]
theorem find_put (m : List (κ × ν)) (key other : κ) (value : ν) :
    find (put m key value) other = if other = key then some value else find m other := by
  rw [put, find_append, find_erase, find_cons]
  by_cases hOther : other = key
  · simp [hOther]
  · simp [hOther, show key ≠ other from fun hEq => hOther hEq.symm]

/-- A change in place is seen at its own key only. -/
@[simp]
theorem find_modify (m : List (κ × ν)) (key other : κ) (change : ν → ν) :
    find (modify m key change) other =
      if other = key then (find m other).map change else find m other := by
  induction m with
  | nil => simp [modify]
  | cons entry m ih =>
      simp only [modify] at ih ⊢
      rw [List.map_cons, find_cons, ih, find_cons]
      by_cases hKey : entry.1 = key
      · by_cases hOther : other = key
        · simp [hKey, hOther]
        · simp [hKey, hOther, show key ≠ other from fun hEq => hOther hEq.symm]
      · by_cases hOther : other = key
        · simp [hKey, hOther]
        · simp [hKey, hOther]

/-- A key is not found exactly if no entry has it. -/
theorem find_eq_none {m : List (κ × ν)} {key : κ} :
    find m key = none ↔ key ∉ m.map Prod.fst := by
  induction m with
  | nil => simp
  | cons entry m ih =>
      rw [find_cons]
      by_cases hKey : entry.1 = key
      · simp [hKey]
      · rw [if_neg hKey, ih, List.map_cons, List.mem_cons, not_or]
        exact ⟨fun h => ⟨fun hEq => hKey hEq.symm, h⟩, And.right⟩

/-- With distinct keys every entry is found. -/
theorem find_of_mem {m : List (κ × ν)} (hKeyed : Keyed m) {entry : κ × ν} (hMem : entry ∈ m) :
    find m entry.1 = some entry.2 := by
  induction m with
  | nil => simp at hMem
  | cons first m ih =>
      obtain ⟨hFresh, hKeyed⟩ := List.nodup_cons.mp hKeyed
      rw [find_cons]
      cases List.mem_cons.mp hMem with
      | inl hFirst => simp [hFirst]
      | inr hMem =>
          have hNe : first.1 ≠ entry.1 := fun hEq => hFresh (hEq ▸ List.mem_map_of_mem hMem)
          rw [if_neg hNe]
          exact ih hKeyed hMem

/-- Dropping entries by their values. -/
theorem find_filter {m : List (κ × ν)} (hKeyed : Keyed m) (keep : ν → Bool) (key : κ) :
    find (m.filter fun entry => keep entry.2) key = (find m key).filter keep := by
  induction m with
  | nil => rfl
  | cons entry m ih =>
      obtain ⟨hFresh, hKeyed⟩ := List.nodup_cons.mp hKeyed
      rw [List.filter_cons, find_cons]
      by_cases hKey : entry.1 = key
      · have hNone : find m key = none := find_eq_none.mpr (hKey ▸ hFresh)
        by_cases hKeep : keep entry.2 = true
        · simp [find_cons, hKey, hKeep, Option.filter]
        · simp [hKey, hKeep, ih hKeyed, hNone, Option.filter]
      · by_cases hKeep : keep entry.2 = true
        · simp [find_cons, hKey, hKeep, ih hKeyed]
        · simp [hKey, hKeep, ih hKeyed]

/-! ### Keys -/

omit [DecidableEq κ] in
theorem keyed_nil : Keyed ([] : List (κ × ν)) := List.nodup_nil

theorem keyed_erase {m : List (κ × ν)} (hKeyed : Keyed m) (key : κ) : Keyed (erase m key) :=
  (List.filter_sublist.map Prod.fst).nodup hKeyed

theorem touch_perm (m : List (κ × ν)) (key : κ) : (touch m key).Perm m := by
  have hSplit := List.filter_append_perm (fun entry : κ × ν => decide (entry.1 ≠ key)) m
  simpa [touch, erase] using hSplit

theorem keyed_touch {m : List (κ × ν)} (hKeyed : Keyed m) (key : κ) : Keyed (touch m key) :=
  ((touch_perm m key).map Prod.fst).nodup_iff.mpr hKeyed

/-- A key that is put again does not stand twice. -/
theorem keyed_put {m : List (κ × ν)} (hKeyed : Keyed m) (key : κ) (value : ν) :
    Keyed (put m key value) := by
  have hOthers := keyed_erase hKeyed key
  have hFresh : key ∉ (erase m key).map Prod.fst := find_eq_none.mp (by simp)
  simp only [Keyed, put, List.map_append, List.map_cons, List.map_nil] at hOthers ⊢
  refine List.nodup_append'.mpr ⟨hOthers, List.nodup_singleton key, ?_⟩
  simpa using hFresh

theorem map_fst_modify (m : List (κ × ν)) (key : κ) (change : ν → ν) :
    (modify m key change).map Prod.fst = m.map Prod.fst := by
  simp only [modify, List.map_map]
  apply List.map_congr_left
  intro entry _
  simp only [Function.comp]
  split <;> rfl

theorem keyed_modify {m : List (κ × ν)} (hKeyed : Keyed m) (key : κ) (change : ν → ν) :
    Keyed (modify m key change) := by
  rw [Keyed, map_fst_modify]
  exact hKeyed

theorem length_touch (m : List (κ × ν)) (key : κ) : (touch m key).length = m.length :=
  (touch_perm m key).length_eq

theorem length_modify (m : List (κ × ν)) (key : κ) (change : ν → ν) :
    (modify m key change).length = m.length := List.length_map _

/-- Erasing an absent key changes nothing. -/
theorem erase_of_find_none {m : List (κ × ν)} {key : κ} (hNone : find m key = none) :
    erase m key = m := by
  apply List.filter_eq_self.mpr
  intro entry hMem
  have hNe : entry.1 ≠ key := fun hEq =>
    find_eq_none.mp hNone (hEq ▸ List.mem_map_of_mem hMem)
  simpa using hNe

theorem erase_head {entry : κ × ν} {m : List (κ × ν)} (hFresh : entry.1 ∉ m.map Prod.fst) :
    erase (entry :: m) entry.1 = m := by
  have hOthers := erase_of_find_none (find_eq_none.mpr hFresh)
  simp only [erase] at hOthers ⊢
  rw [List.filter_cons_of_neg (by simp), hOthers]

/-- Where a key stood does not matter once it is erased. -/
theorem erase_touch (m : List (κ × ν)) (key : κ) : erase (touch m key) key = erase m key := by
  simp [erase, touch, List.filter_append, List.filter_filter]

/-- The entry of a key and the others. -/
theorem perm_erase {m : List (κ × ν)} (hKeyed : Keyed m) {key : κ} {value : ν}
    (hFind : find m key = some value) : m.Perm ((key, value) :: erase m key) := by
  induction m with
  | nil => simp at hFind
  | cons entry m ih =>
      obtain ⟨hFresh, hKeyed⟩ := List.nodup_cons.mp hKeyed
      rw [find_cons] at hFind
      by_cases hKey : entry.1 = key
      · rw [if_pos hKey] at hFind
        have hEntry : entry = (key, value) := Prod.ext hKey (Option.some.inj hFind)
        have hErase : erase (entry :: m) key = m := hKey ▸ erase_head hFresh
        rw [hErase, hEntry]
      · rw [if_neg hKey] at hFind
        have hErase : erase (entry :: m) key = entry :: erase m key := by
          simp only [erase]
          rw [List.filter_cons_of_pos (by simpa using hKey)]
        rw [hErase]
        exact ((ih hKeyed hFind).cons entry).trans (List.Perm.swap _ _ _)

theorem erase_modify (m : List (κ × ν)) (key : κ) (change : ν → ν) :
    erase (modify m key change) key = erase m key := by
  induction m with
  | nil => rfl
  | cons entry m ih =>
      simp only [erase, modify, List.map_cons] at ih ⊢
      by_cases hKey : entry.1 = key
      · rw [List.filter_cons_of_neg (by simp [hKey]), List.filter_cons_of_neg (by simp [hKey]), ih]
      · rw [List.filter_cons_of_pos (by simp [hKey]), List.filter_cons_of_pos (by simp [hKey]), ih,
          if_neg hKey]

/-- Up to order, a change in place replaces one entry. -/
theorem perm_modify {m : List (κ × ν)} (hKeyed : Keyed m) {key : κ} {value : ν}
    (hFind : find m key = some value) (change : ν → ν) :
    (modify m key change).Perm ((key, change value) :: erase m key) := by
  have hChanged : find (modify m key change) key = some (change value) := by simp [hFind]
  have hPerm := perm_erase (keyed_modify hKeyed key change) hChanged
  rwa [erase_modify] at hPerm

theorem length_erase {m : List (κ × ν)} (hKeyed : Keyed m) {key : κ} {value : ν}
    (hFind : find m key = some value) : (erase m key).length + 1 = m.length := by
  simpa using (perm_erase hKeyed hFind).length_eq.symm

/-- A new key makes the map longer by one. -/
theorem length_put_of_none {m : List (κ × ν)} {key : κ} (hNone : find m key = none) (value : ν) :
    (put m key value).length = m.length + 1 := by
  simp [put, erase_of_find_none hNone]

/-- Maps that find the same differ in their order only. -/
theorem perm_of_find {m n : List (κ × ν)} (hm : Keyed m) (hn : Keyed n)
    (hSame : ∀ key, find m key = find n key) : m.Perm n := by
  induction m generalizing n with
  | nil =>
      cases n with
      | nil => exact .refl _
      | cons entry n =>
          have hEntry := hSame entry.1
          rw [find_nil, find_cons, if_pos rfl] at hEntry
          cases hEntry
  | cons entry m ih =>
      obtain ⟨hFresh, hKeyed⟩ := List.nodup_cons.mp hm
      have hFind : find n entry.1 = some entry.2 := by
        rw [← hSame, find_cons, if_pos rfl]
      have hRest : m.Perm (erase n entry.1) := by
        apply ih hKeyed (keyed_erase hn entry.1)
        intro key
        have hKey := hSame key
        rw [find_cons] at hKey
        rw [find_erase]
        by_cases hEq : key = entry.1
        · rw [if_pos hEq, hEq]
          exact find_eq_none.mpr hFresh
        · rw [if_neg hEq, ← hKey, if_neg fun h => hEq h.symm]
      exact (hRest.cons entry).trans (perm_erase hn hFind).symm

/-- Values seen through a function. -/
theorem find_map {μ : Type} (m : List (κ × ν)) (f : ν → μ) (key : κ) :
    find (m.map fun entry => (entry.1, f entry.2)) key = (find m key).map f := by
  induction m with
  | nil => rfl
  | cons entry m ih =>
      rw [List.map_cons, find_cons, ih, find_cons]
      by_cases hKey : entry.1 = key <;> simp [hKey]

omit [DecidableEq κ] in
theorem keyed_map {μ : Type} {m : List (κ × ν)} (hKeyed : Keyed m) (f : ν → μ) :
    Keyed (m.map fun entry => (entry.1, f entry.2)) := by
  rw [Keyed, List.map_map]
  exact hKeyed

end Meet.LinkedMap
