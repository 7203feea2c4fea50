/-!
# Sample counts

A sample count is a natural number below `2 ^ 128`. Sums are taken in two ways: `add?` refuses a
sum that does not fit, `addSat` stops at the largest count.
-/

namespace HotFrames

/-- The bound of sample counts, `2 ^ 128`. -/
def Samples.bound : Nat := 0x100000000000000000000000000000000

/-- A count of samples. -/
structure Samples where
  val : Nat
  lt : val < Samples.bound
  deriving DecidableEq, Repr

namespace Samples

@[ext] theorem ext {a b : Samples} (h : a.val = b.val) : a = b := by
  cases a; cases b; cases h; rfl

/-- The largest count. -/
def max : Samples := ⟨bound - 1, by decide⟩

/-- No samples. -/
def zero : Samples := ⟨0, by decide⟩

instance : Inhabited Samples := ⟨zero⟩

/-- The count with a given value, if there is one. -/
def ofNat? (n : Nat) : Option Samples :=
  if h : n < bound then some ⟨n, h⟩ else none

/-- The sum of two counts, if it is a count. -/
def add? (a b : Samples) : Option Samples := ofNat? (a.val + b.val)

/-- The sum of two counts, or the largest count where the sum is beyond it. -/
def addSat (a b : Samples) : Samples :=
  ⟨min (a.val + b.val) (bound - 1), by have := a.lt; omega⟩

theorem val_le (a : Samples) : a.val ≤ bound - 1 := by have := a.lt; omega

@[simp] theorem val_zero : zero.val = 0 := rfl

@[simp] theorem val_max : max.val = bound - 1 := rfl

@[simp] theorem val_addSat (a b : Samples) :
    (addSat a b).val = min (a.val + b.val) (bound - 1) := rfl

theorem ofNat?_eq_some_iff {n : Nat} {a : Samples} : ofNat? n = some a ↔ a.val = n := by
  unfold ofNat?
  split
  · next h => exact ⟨fun e => by cases e; rfl, fun e => by subst e; rfl⟩
  · next h => exact ⟨fun e => (nomatch e), fun e => absurd (e ▸ a.lt) h⟩

theorem ofNat?_eq_none_iff {n : Nat} : ofNat? n = none ↔ bound ≤ n := by
  unfold ofNat?
  split <;> simp <;> omega

theorem add?_eq_some_iff {a b c : Samples} : add? a b = some c ↔ c.val = a.val + b.val :=
  ofNat?_eq_some_iff

theorem add?_eq_none_iff {a b : Samples} : add? a b = none ↔ bound ≤ a.val + b.val :=
  ofNat?_eq_none_iff

end Samples

end HotFrames
