import Mathlib.Algebra.BigOperators.Group.Finset.Basic
import Mathlib.Algebra.Order.BigOperators.Group.Finset
import Mathlib.Data.Fintype.BigOperators

/-!
# Barriers

A barrier for `count` parties: a party arrives and waits for the generation to change, which the last one to
arrive does.

* `arrive`, `opened` : the two halves of a wait;
* `total` : how many parties have arrived since the beginning (`arrive_total`);
* `all_arrived`, `opened_of_all` : where each of the parties comes once, the barrier is open when all of them have come;
* `sum_update` : what a sum over the parties is when one of them changes.
-/

namespace SysSnippets.Lib
open Finset

@[ext]
structure Barrier where
  /-- parties that wait in this generation -/
  arrived : Nat
  gen : Nat
  deriving DecidableEq

namespace Barrier
variable {count : Nat} {b : Barrier}

def init : Barrier := ⟨0, 0⟩

/-- A party arrives; the last one opens the barrier and a new generation begins. -/
def arrive (count : Nat) (b : Barrier) : Barrier :=
  if b.arrived + 1 = count then ⟨0, b.gen + 1⟩ else ⟨b.arrived + 1, b.gen⟩

/-- Who arrived in generation `gen` may go on. -/
def opened (b : Barrier) (gen : Nat) : Prop := gen < b.gen

instance (b : Barrier) (gen : Nat) : Decidable (b.opened gen) := inferInstanceAs (Decidable (_ < _))

/-- The parties that have arrived since the beginning. -/
def total (count : Nat) (b : Barrier) : Nat := b.gen * count + b.arrived

@[simp] theorem init_total : init.total count = 0 := Nat.zero_mul count

theorem arrive_total (count : Nat) (b : Barrier) : (b.arrive count).total count = b.total count + 1 := by
  unfold arrive total
  split_ifs with h
  · change (b.gen + 1) * count + 0 = _
    rw [Nat.succ_mul]
    omega
  · rfl

theorem arrive_lt (h : b.arrived < count) : (b.arrive count).arrived < count := by
  unfold arrive
  split_ifs with hlast
  · exact Nat.zero_lt_of_lt h
  · change b.arrived + 1 < count
    omega

theorem gen_le_arrive (count : Nat) (b : Barrier) : b.gen ≤ (b.arrive count).gen := by
  unfold arrive
  split_ifs
  · exact Nat.le_succ b.gen
  · exact Nat.le_refl b.gen

/-- Once open for a generation, the barrier stays open for it. -/
theorem opened.arrive {gen : Nat} (h : b.opened gen) (count : Nat) : (b.arrive count).opened gen :=
  Nat.lt_of_lt_of_le h (gen_le_arrive count b)

theorem count_le_total (h : b.opened 0) : count ≤ b.total count := by
  have hle : 1 * count ≤ b.gen * count := Nat.mul_le_mul_right count h
  unfold total
  omega

/-- **Nobody goes on early.** Each of `count` parties comes once: an open barrier has seen them all. -/
theorem all_arrived {came : Nat → Nat} (hone : ∀ i, came i ≤ 1)
    (htotal : b.total count = ∑ i ∈ range count, came i) (h : b.opened 0) {i : Nat} (hi : i < count) : came i = 1 := by
  have hle : count ≤ ∑ j ∈ range count, came j := htotal ▸ count_le_total h
  have hsum := sum_le_sum fun j (_ : j ∈ (range count).erase i) => hone j
  rw [sum_const, Nat.nsmul_eq_mul, Nat.mul_one, card_erase_of_mem (mem_range.2 hi), card_range] at hsum
  rw [← add_sum_erase (range count) came (mem_range.2 hi)] at hle
  have hcame := hone i
  omega

/-- While one of them is missing the first generation lasts. -/
theorem gen_eq_zero {came : Nat → Nat} (hone : ∀ i, came i ≤ 1)
    (htotal : b.total count = ∑ i ∈ range count, came i) {i : Nat} (hi : i < count) (hmissing : came i = 0) :
    b.gen = 0 := by
  by_contra hgen
  have hcame := all_arrived hone htotal (Nat.pos_of_ne_zero hgen) hi
  omega

/-- When all have come the barrier is open. -/
theorem opened_of_all {came : Nat → Nat} (htotal : b.total count = ∑ i ∈ range count, came i)
    (hlt : b.arrived < count) (hall : ∀ i < count, came i = 1) : b.opened 0 := by
  by_contra hgen
  have hzero : b.gen = 0 := Nat.eq_zero_of_not_pos hgen
  have hsum : ∑ i ∈ range count, came i = count := by
    rw [sum_congr rfl fun i hi => hall i (mem_range.1 hi), sum_const, card_range, Nat.nsmul_eq_mul, Nat.mul_one]
  unfold total at htotal
  rw [hsum, hzero] at htotal
  omega

end Barrier

/-- A sum over parties of which one changes. -/
theorem sum_update {α : Type*} {n i : Nat} (hi : i < n) (f : α → Nat) (w : Nat → α) (a : α) :
    ∑ j ∈ range n, f (Function.update w i a j) + f (w i) = ∑ j ∈ range n, f (w j) + f a := by
  rw [← add_sum_erase (range n) _ (mem_range.2 hi), ← add_sum_erase (range n) (fun j => f (w j)) (mem_range.2 hi),
    Function.update_self]
  have hrest : ∑ j ∈ (range n).erase i, f (Function.update w i a j) = ∑ j ∈ (range n).erase i, f (w j) := by
    apply sum_congr rfl
    intro j hj
    rw [Function.update_of_ne (ne_of_mem_erase hj)]
  omega

end SysSnippets.Lib
