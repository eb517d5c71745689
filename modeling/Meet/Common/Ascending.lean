import Mathlib.Data.List.Basic

/-! Looking for a number in a list in ascending order: one after the other, and by halving the
part that is left. -/
namespace Meet.Ascending

/-- The first place in the list whose element is not below the number. -/
def firstFrom (items : List Nat) (a : Nat) : Nat :=
  (items.takeWhile (· < a)).length

theorem firstFrom_le (items : List Nat) (a : Nat) : firstFrom items a ≤ items.length :=
  (List.takeWhile_sublist _).length_le

/-- The elements before it are below the number. -/
theorem lt_of_lt_firstFrom {items : List Nat} {a index b : Nat} (h : index < firstFrom items a)
    (hGet : items[index]? = some b) : b < a := by
  induction items generalizing index with
  | nil => cases hGet
  | cons first rest ih =>
      rw [firstFrom, List.takeWhile_cons] at h
      by_cases hFirst : first < a
      · simp only [hFirst, decide_true, if_true, List.length_cons] at h
        cases index with
        | zero =>
            cases hGet
            exact hFirst
        | succ index => exact ih (Nat.lt_of_succ_lt_succ h) hGet
      · simp [hFirst] at h

/-- The element at it is not below the number. -/
theorem le_of_firstFrom {items : List Nat} {a b : Nat}
    (hGet : items[firstFrom items a]? = some b) : a ≤ b := by
  induction items with
  | nil => cases hGet
  | cons first rest ih =>
      by_cases hFirst : first < a
      · have hSucc : firstFrom (first :: rest) a = firstFrom rest a + 1 := by
          simp [firstFrom, hFirst]
        rw [hSucc, List.getElem?_cons_succ] at hGet
        exact ih hGet
      · have hZero : firstFrom (first :: rest) a = 0 := by simp [firstFrom, hFirst]
        rw [hZero] at hGet
        cases hGet
        exact Nat.le_of_not_lt hFirst

/-- Elements of a list in ascending order. -/
theorem lt_of_getElem? {items : List Nat} (hOrder : items.Pairwise (· < ·)) {j k a b : Nat}
    (hLt : j < k) (hFirst : items[j]? = some a) (hSecond : items[k]? = some b) : a < b := by
  obtain ⟨hj, rfl⟩ := List.getElem?_eq_some_iff.mp hFirst
  obtain ⟨hk, rfl⟩ := List.getElem?_eq_some_iff.mp hSecond
  exact List.pairwise_iff_getElem.mp hOrder j k hj hk hLt

/-- Before it are the elements below the number, and no others. -/
theorem lt_firstFrom_iff {items : List Nat} (hOrder : items.Pairwise (· < ·)) {a index b : Nat}
    (hGet : items[index]? = some b) : index < firstFrom items a ↔ b < a := by
  constructor
  · intro hLt
    exact lt_of_lt_firstFrom hLt hGet
  · intro hBelow
    by_contra hNot
    have hInside := (List.getElem?_eq_some_iff.mp hGet).1
    obtain ⟨c, hAt⟩ : ∃ c, items[firstFrom items a]? = some c :=
      ⟨_, List.getElem?_eq_getElem (by omega)⟩
    have hLe := le_of_firstFrom hAt
    rcases Nat.eq_or_lt_of_le (Nat.le_of_not_lt hNot) with hEq | hLt
    · rw [hEq, hGet] at hAt
      cases hAt
      omega
    · have hAscends := lt_of_getElem? hOrder hLt hAt hGet
      omega

theorem firstFrom_pos {items : List Nat} (hOrder : items.Pairwise (· < ·)) {a b : Nat}
    (hMem : b ∈ items) (hBelow : b < a) : 0 < firstFrom items a := by
  obtain ⟨index, hGet⟩ := List.getElem?_of_mem hMem
  exact Nat.zero_lt_of_lt ((lt_firstFrom_iff hOrder hGet).mpr hBelow)

/-- A number is in the list if and only if it is at that place. -/
theorem getElem?_firstFrom {items : List Nat} (hOrder : items.Pairwise (· < ·)) (a : Nat) :
    items[firstFrom items a]? = some a ↔ a ∈ items := by
  constructor
  · exact List.mem_of_getElem?
  · intro hMem
    obtain ⟨index, hGet⟩ := List.getElem?_of_mem hMem
    rcases Nat.lt_trichotomy index (firstFrom items a) with hLt | hEq | hGt
    · exact absurd (lt_of_lt_firstFrom hLt hGet) (Nat.lt_irrefl a)
    · exact hEq ▸ hGet
    · have hInside : firstFrom items a < items.length :=
        Nat.lt_trans hGt (List.getElem?_eq_some_iff.mp hGet).1
      have hAt := List.getElem?_eq_getElem hInside
      have hLe := le_of_firstFrom hAt
      have hLt := lt_of_getElem? hOrder hGt hAt hGet
      omega

/-- The search may begin behind elements that are below the number. -/
theorem firstFrom_drop {items : List Nat} {a start : Nat}
    (hBelow : ∀ index b, index < start → items[index]? = some b → b < a)
    (hStart : start ≤ items.length) :
    start + firstFrom (items.drop start) a = firstFrom items a := by
  have hTake : ∀ b ∈ items.take start, decide (b < a) = true := by
    intro b hMem
    obtain ⟨index, hGet⟩ := List.getElem?_of_mem hMem
    have hIndex : index < start := by
      have hInside := (List.getElem?_eq_some_iff.mp hGet).1
      rw [List.length_take] at hInside
      omega
    rw [List.getElem?_take_of_lt hIndex] at hGet
    exact decide_eq_true (hBelow index b hIndex hGet)
  conv_rhs => rw [← List.take_append_drop start items]
  rw [firstFrom, firstFrom, List.takeWhile_append_of_pos hTake, List.length_append,
    List.length_take, Nat.min_eq_left hStart]

/-! ### By halving -/

/-- What a search by halving has found out when it is between two places. -/
structure Between (items : List Nat) (a left right : Nat) : Prop where
  le : left ≤ right
  inside : right ≤ items.length
  below : ∀ index b, index < left → items[index]? = some b → b < a
  above : ∀ index b, right ≤ index → items[index]? = some b → a < b

theorem between_all (items : List Nat) (a : Nat) : Between items a 0 items.length where
  le := Nat.zero_le _
  inside := Nat.le_refl _
  below index b hIndex := absurd hIndex (Nat.not_lt_zero index)
  above index b hIndex hGet := by
    rw [List.getElem?_eq_none hIndex] at hGet
    cases hGet

theorem le_of_getElem? {items : List Nat} (hOrder : items.Pairwise (· ≤ ·)) {j k a b : Nat}
    (hLe : j ≤ k) (hFirst : items[j]? = some a) (hSecond : items[k]? = some b) : a ≤ b := by
  obtain ⟨hj, rfl⟩ := List.getElem?_eq_some_iff.mp hFirst
  obtain ⟨hk, rfl⟩ := List.getElem?_eq_some_iff.mp hSecond
  cases Nat.lt_or_eq_of_le hLe with
  | inl hLt => exact List.pairwise_iff_getElem.mp hOrder j k hj hk hLt
  | inr hEq =>
      subst hEq
      exact Nat.le_refl _

/-- The number is before the element in the middle. -/
theorem Between.upTo {items : List Nat} (hOrder : items.Pairwise (· ≤ ·))
    {a left right center b : Nat} (h : Between items a left right) (hLeft : left ≤ center)
    (hRight : center < right) (hGet : items[center]? = some b) (hBefore : a < b) :
    Between items a left center where
  le := hLeft
  inside := Nat.le_trans (Nat.le_of_lt hRight) h.inside
  below := h.below
  above _ _ hIndex hAt := Nat.lt_of_lt_of_le hBefore (le_of_getElem? hOrder hIndex hGet hAt)

/-- The number is behind the element in the middle. -/
theorem Between.behind {items : List Nat} (hOrder : items.Pairwise (· ≤ ·))
    {a left right center b : Nat} (h : Between items a left right) (hRight : center < right)
    (hGet : items[center]? = some b) (hBehind : b < a) : Between items a (center + 1) right where
  le := hRight
  inside := h.inside
  below _ _ hIndex hAt :=
    Nat.lt_of_le_of_lt (le_of_getElem? hOrder (Nat.le_of_lt_succ hIndex) hAt hGet) hBehind
  above := h.above

/-- Where a search ends: at the number itself, or between those below it and those above it. -/
def Found (items : List Nat) (a place : Nat) : Prop :=
  items[place]? = some a ∨ Between items a place place

theorem Found.le_length {items : List Nat} {a place : Nat} (h : Found items a place) :
    place ≤ items.length := by
  cases h with
  | inl hAt => exact Nat.le_of_lt (List.getElem?_eq_some_iff.mp hAt).1
  | inr hBetween => exact hBetween.inside

/-- The elements behind the place where a search ends are not below the number. -/
theorem Found.le_behind {items : List Nat} (hOrder : items.Pairwise (· ≤ ·)) {a place index b : Nat}
    (h : Found items a place) (hIndex : place ≤ index) (hGet : items[index]? = some b) : a ≤ b := by
  cases h with
  | inl hAt => exact le_of_getElem? hOrder hIndex hAt hGet
  | inr hBetween => exact Nat.le_of_lt (hBetween.above index b hIndex hGet)

/-- Those before it are not above the number. -/
theorem Found.before_le {items : List Nat} (hOrder : items.Pairwise (· ≤ ·)) {a place index b : Nat}
    (h : Found items a place) (hIndex : index < place) (hGet : items[index]? = some b) :
    b ≤ a := by
  cases h with
  | inl hAt => exact le_of_getElem? hOrder (Nat.le_of_lt hIndex) hGet hAt
  | inr hBetween => exact Nat.le_of_lt (hBetween.below index b hIndex hGet)

end Meet.Ascending
