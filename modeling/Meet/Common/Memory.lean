import Mathlib.Data.List.Basic

/-! Byte memories and half-open regions of them. `Packed` describes regions
that lie in increasing order between two bounds, each followed by one byte
that belongs to none of them. -/
namespace Meet

/-- A byte memory addressed by offset. -/
abbrev Memory := Nat → UInt8

namespace Memory

/-- Copy `bytes` to the addresses from `addr` on. -/
def write (m : Memory) (addr : Nat) (bytes : List UInt8) : Memory := fun i =>
  if addr ≤ i then bytes.getD (i - addr) (m i) else m i

def read (m : Memory) (addr size : Nat) : List UInt8 :=
  (List.range size).map fun i => m (addr + i)

@[simp] theorem read_length (m : Memory) (addr size : Nat) : (m.read addr size).length = size := by
  simp [read]

theorem read_congr {m m' : Memory} {addr size : Nat}
    (h : ∀ i, i < size → m (addr + i) = m' (addr + i)) : m.read addr size = m'.read addr size := by
  apply List.map_congr_left
  intro i hi
  exact h i (List.mem_range.mp hi)

theorem read_add (m : Memory) (addr first second : Nat) :
    m.read addr (first + second) = m.read addr first ++ m.read (addr + first) second := by
  simp only [read, List.range_add, List.map_append, List.map_map, Function.comp_def, Nat.add_assoc]

/-- Reading back the whole of a write returns the bytes written. -/
theorem read_write (m : Memory) (addr : Nat) (bytes : List UInt8) :
    (m.write addr bytes).read addr bytes.length = bytes := by
  apply List.ext_getElem
  · simp
  · intro i _ hi
    simp [read, write, List.getElem?_eq_getElem hi]

/-- A write leaves every region apart from it unchanged. -/
theorem read_write_of_disjoint (m : Memory) (addr : Nat) (bytes : List UInt8) (other size : Nat)
    (h : other + size ≤ addr ∨ addr + bytes.length ≤ other) :
    (m.write addr bytes).read other size = m.read other size := by
  apply read_congr
  intro i hi
  unfold write
  split_ifs with hAddr
  · rw [List.getD_eq_getElem?_getD, List.getElem?_eq_none (by omega)]
    rfl
  · rfl

end Memory

/-- A half-open range of addresses. -/
structure Region where
  start : Nat
  length : Nat
deriving DecidableEq, Repr

namespace Region

def stop (r : Region) : Nat := r.start + r.length

/-- The two regions share no address. -/
def Disjoint (r q : Region) : Prop := r.stop ≤ q.start ∨ q.stop ≤ r.start

instance (r q : Region) : Decidable (r.Disjoint q) :=
  inferInstanceAs (Decidable (_ ∨ _))

/-- Regions in increasing order from `low`, each followed by a spare byte,
with every spare byte below `high`. -/
def Packed : Nat → Nat → List Region → Prop
  | low, high, [] => low ≤ high
  | low, high, r :: rest => low ≤ r.start ∧ Packed (r.stop + 1) high rest

theorem Packed.le {low high : Nat} {rs : List Region} (h : Packed low high rs) : low ≤ high := by
  induction rs generalizing low with
  | nil => exact h
  | cons r rest ih =>
      have hRest := ih h.2
      have hStart := h.1
      simp only [stop] at hRest
      omega

theorem Packed.mono {low low' high high' : Nat} {rs : List Region} (h : Packed low high rs)
    (hLow : low' ≤ low) (hHigh : high ≤ high') : Packed low' high' rs := by
  induction rs generalizing low low' with
  | nil => exact Nat.le_trans (Nat.le_trans hLow h) hHigh
  | cons r rest ih => exact ⟨Nat.le_trans hLow h.1, ih h.2 (Nat.le_refl _)⟩

/-- Packed regions may be extended at the upper bound. -/
theorem Packed.snoc {low high : Nat} {rs : List Region} (h : Packed low high rs) (r : Region)
    (hStart : high ≤ r.start) : Packed low (r.stop + 1) (rs ++ [r]) := by
  induction rs generalizing low with
  | nil => exact ⟨Nat.le_trans h hStart, Nat.le_refl _⟩
  | cons q rest ih => exact ⟨h.1, ih h.2⟩

theorem Packed.bounds {low high : Nat} {rs : List Region} (h : Packed low high rs)
    {r : Region} (hMem : r ∈ rs) : low ≤ r.start ∧ r.stop < high := by
  induction rs generalizing low with
  | nil => simp at hMem
  | cons q rest ih =>
      rcases List.mem_cons.mp hMem with rfl | hRest
      · have hHigh := h.2.le
        exact ⟨h.1, by omega⟩
      · have hLater := ih h.2 hRest
        have hFirst := h.1
        simp only [stop] at hLater ⊢
        omega

theorem Packed.pairwise {low high : Nat} {rs : List Region} (h : Packed low high rs) :
    rs.Pairwise Disjoint := by
  induction rs generalizing low with
  | nil => exact List.Pairwise.nil
  | cons r rest ih =>
      refine List.Pairwise.cons ?_ (ih h.2)
      intro q hq
      have hBounds := h.2.bounds hq
      exact Or.inl (by omega)

end Region
end Meet
