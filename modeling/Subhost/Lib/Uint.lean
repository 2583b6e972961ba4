import Mathlib.Data.BitVec
import Mathlib.Tactic.Ring
/-!
# Checked arithmetic on fixed-width unsigned integers

A `w`-bit machine integer is a `BitVec w`. The `checked_*` operations of a language with
checked arithmetic return `none` exactly when the mathematical result does not fit; each gets
one spec lemma in terms of `toNat`, and no later proof unfolds it.
-/
namespace Uint

variable {w : Nat}

abbrev U32 := BitVec 32
abbrev U64 := BitVec 64
abbrev U128 := BitVec 128

/-- The order of 64-bit keys, as one constant. -/
instance transOrd_u64 : Std.TransOrd U64 := inferInstance

/-- The largest value, `uN::MAX`. -/
abbrev maxValue (w : Nat) : BitVec w := BitVec.allOnes w

/-- The `checked_add` operation. -/
def checkedAdd (a b : BitVec w) : Option (BitVec w) :=
  if a.toNat + b.toNat < 2 ^ w then some (a + b) else none

/-- The `checked_mul` operation. -/
def checkedMul (a b : BitVec w) : Option (BitVec w) :=
  if a.toNat * b.toNat < 2 ^ w then some (a * b) else none

/-- The `checked_sub` operation. -/
def checkedSub (a b : BitVec w) : Option (BitVec w) :=
  if b.toNat ≤ a.toNat then some (a - b) else none

/-- The `saturating_add` operation: the largest value where the sum does not fit. -/
def saturatingAdd (a b : BitVec w) : BitVec w := (checkedAdd a b).getD (maxValue w)

/-- The `saturating_sub` operation: zero where the difference is negative. -/
def saturatingSub (a b : BitVec w) : BitVec w := if b.toNat ≤ a.toNat then a - b else 0#w

theorem checkedAdd_eq_some {a b c : BitVec w} :
    checkedAdd a b = some c ↔ c.toNat = a.toNat + b.toNat := by
  unfold checkedAdd
  split
  · rename_i hfit
    rw [Option.some.injEq, ← BitVec.toNat_inj, BitVec.toNat_add, Nat.mod_eq_of_lt hfit]
    exact eq_comm
  · rename_i hfit
    have hc := c.isLt
    constructor
    · intro h; cases h
    · intro h; omega

theorem checkedAdd_eq_none {a b : BitVec w} :
    checkedAdd a b = none ↔ 2 ^ w ≤ a.toNat + b.toNat := by
  unfold checkedAdd
  split <;> simp_all

theorem checkedMul_eq_some {a b c : BitVec w} :
    checkedMul a b = some c ↔ c.toNat = a.toNat * b.toNat := by
  unfold checkedMul
  split
  · rename_i hfit
    rw [Option.some.injEq, ← BitVec.toNat_inj, BitVec.toNat_mul, Nat.mod_eq_of_lt hfit]
    exact eq_comm
  · rename_i hfit
    have hc := c.isLt
    constructor
    · intro h; cases h
    · intro h; omega

theorem checkedMul_eq_none {a b : BitVec w} :
    checkedMul a b = none ↔ 2 ^ w ≤ a.toNat * b.toNat := by
  unfold checkedMul
  split <;> simp_all

/-- Plain subtraction is exact when it does not underflow. -/
theorem toNat_sub_of_le {a b : BitVec w} (h : b.toNat ≤ a.toNat) :
    (a - b).toNat = a.toNat - b.toNat := by
  have ha := a.isLt
  rw [BitVec.toNat_sub]
  have hab : 2 ^ w - b.toNat + a.toNat = (a.toNat - b.toNat) + 2 ^ w := by
    have hb := b.isLt
    omega
  rw [hab, Nat.add_mod_right, Nat.mod_eq_of_lt (by omega)]

theorem toNat_saturatingSub (a b : BitVec w) : (saturatingSub a b).toNat = a.toNat - b.toNat := by
  unfold saturatingSub
  by_cases h : b.toNat ≤ a.toNat
  · simp [h, toNat_sub_of_le h]
  · simp [h, Nat.sub_eq_zero_of_le (Nat.le_of_not_le h)]

theorem toNat_saturatingAdd (a b : BitVec w) : (saturatingAdd a b).toNat = min (a.toNat + b.toNat) (2 ^ w - 1) := by
  unfold saturatingAdd
  cases h : checkedAdd a b with
  | none =>
    have hbig := checkedAdd_eq_none.mp h
    simp only [Option.getD_none, BitVec.toNat_allOnes]
    omega
  | some c =>
    have hsum := checkedAdd_eq_some.mp h
    have hc := c.isLt
    simp only [Option.getD_some]
    omega

/-- A saturating sum is the exact sum, capped once: the order of the summands plays no part. -/
theorem toNat_foldl_saturatingAdd {α : Type} (f : α → BitVec w) (l : List α) (acc : BitVec w) :
    (l.foldl (fun total x => saturatingAdd total (f x)) acc).toNat =
      min (acc.toNat + (l.map fun x => (f x).toNat).sum) (2 ^ w - 1) := by
  induction l generalizing acc with
  | nil =>
    have hacc := acc.isLt
    simp only [List.foldl_nil, List.map_nil, List.sum_nil]
    omega
  | cons x rest ih =>
    rw [List.foldl_cons, ih, toNat_saturatingAdd, List.map_cons, List.sum_cons]
    omega

theorem lt_iff_toNat {a b : BitVec w} : a < b ↔ a.toNat < b.toNat := Iff.rfl

theorem le_iff_toNat {a b : BitVec w} : a ≤ b ↔ a.toNat ≤ b.toNat := Iff.rfl

theorem compare_lt_iff {a b : BitVec w} : compare a b = .lt ↔ a.toNat < b.toNat := by
  have hcompare : compare a b = compareOfLessAndEq a b := rfl
  rw [hcompare, compareOfLessAndEq_eq_lt, lt_iff_toNat]

/-- As keys of an ordered map, machine integers are ordered by value. -/
theorem isLE_compare_iff (a b : BitVec w) : (compare a b).isLE = true ↔ a ≤ b := by
  have hcompare : compare a b = compareOfLessAndEq a b := rfl
  rw [hcompare, compareOfLessAndEq, le_iff_toNat]
  by_cases hlt : a < b
  · have := lt_iff_toNat.mp hlt
    simp only [hlt, if_true, Ordering.isLE_lt, true_iff]
    omega
  · have hnat := mt lt_iff_toNat.mpr hlt
    by_cases heq : a = b
    · simp [heq]
    · have hne : a.toNat ≠ b.toNat := fun e => heq (BitVec.eq_of_toNat_eq e)
      simp only [hlt, heq, if_false, Ordering.isLE_gt, Bool.false_eq_true, false_iff]
      omega

end Uint
