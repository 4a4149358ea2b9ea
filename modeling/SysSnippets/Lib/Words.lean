import SysSnippets.Lib.Mem
import SysSnippets.Lib.Text
import Mathlib.Data.BitVec

/-!
# Numbers in memory, low byte first

* `leBytes k n` : the `k` low bytes of `n`; `leAt mem a k` : the number in `k` bytes at `a` (`leAt_leBytes`);
* `wordBytes`, `wordAt` : the same for 32 bits (`wordAt_wordBytes`), and their halves (`leAt_halves`);
* `Holds mem a bs` : the bytes `bs` are at `a`.
-/

namespace SysSnippets.Lib

/-- The bytes `bs` are at `a`. -/
def Holds (mem : Nat → Byte) (a : Nat) (bs : List Byte) : Prop := ∀ i b, bs[i]? = some b → mem (a + i) = b

section Holds
variable {mem : Nat → Byte} {a : Nat} {b : Byte} {bs cs : List Byte}

theorem holds_nil : Holds mem a [] := fun _ _ h => by cases h

theorem holds_cons : Holds mem a (b :: bs) ↔ mem a = b ∧ Holds mem (a + 1) bs := by
  constructor
  · intro h
    refine ⟨h 0 b rfl, fun i c hc => ?_⟩
    rw [Nat.add_assoc, Nat.add_comm 1 i]
    exact h (i + 1) c hc
  · rintro ⟨hb, h⟩ i c hc
    cases i with
    | zero =>
        cases hc
        exact hb
    | succ i =>
        rw [← Nat.add_assoc, Nat.add_right_comm]
        exact h i c hc

theorem holds_append : Holds mem a (bs ++ cs) ↔ Holds mem a bs ∧ Holds mem (a + bs.length) cs := by
  induction bs generalizing a with
  | nil => simp [holds_nil]
  | cons b bs ih =>
      rw [List.cons_append, holds_cons, holds_cons, ih, List.length_cons, and_assoc, Nat.add_assoc a 1,
        Nat.add_comm 1 bs.length]

/-- A copy of `bs` to `a`. -/
theorem holds_write (heap : Nat → Byte) (a : Nat) (bs : List Byte) : Holds (write heap (bytesAt a bs)) a bs := by
  intro i b hb
  apply write_of_unique
  · exact mem_bytesAt.2 ⟨i, hb, rfl⟩
  · intro p hp hat
    obtain ⟨j, hj, hpj⟩ := mem_bytesAt.1 hp
    obtain rfl : j = i := by omega
    rw [hb] at hj
    exact (Option.some.inj hj).symm

end Holds

/-! ## Numbers -/

def leBytes : Nat → Nat → List Byte
  | 0, _ => []
  | k + 1, n => UInt8.ofNat n :: leBytes k (n / 256)

def leAt (mem : Nat → Byte) (a : Nat) : Nat → Nat
  | 0 => 0
  | k + 1 => (mem a).toNat + 256 * leAt mem (a + 1) k

@[simp] theorem length_leBytes (k n : Nat) : (leBytes k n).length = k := by
  induction k generalizing n with
  | zero => rfl
  | succ k ih => rw [leBytes, List.length_cons, ih]

theorem leAt_leBytes {mem : Nat → Byte} {a : Nat} (k n : Nat) (h : Holds mem a (leBytes k n)) :
    leAt mem a k = n % 256 ^ k := by
  induction k generalizing a n with
  | zero => rw [leAt, Nat.pow_zero, Nat.mod_one]
  | succ k ih =>
      obtain ⟨hlow, hrest⟩ := holds_cons.1 h
      rw [leAt, hlow, ih (n / 256) hrest, Nat.pow_succ, Nat.mul_comm (256 ^ k), Nat.mod_mul]
      rfl

theorem leAt_congr {mem mem' : Nat → Byte} {a : Nat} (k : Nat) (h : ∀ i < k, mem (a + i) = mem' (a + i)) :
    leAt mem a k = leAt mem' a k := by
  induction k generalizing a with
  | zero => rfl
  | succ k ih =>
      have hrest : leAt mem (a + 1) k = leAt mem' (a + 1) k := by
        apply ih
        intro i hi
        rw [Nat.add_assoc, Nat.add_comm 1 i]
        exact h (i + 1) (by omega)
      rw [leAt, leAt, hrest]
      exact congrArg (fun b : Byte => b.toNat + 256 * leAt mem' (a + 1) k) (h 0 (Nat.succ_pos k))

def wordBytes (w : U32) : List Byte := leBytes 4 w.toNat

def wordAt (mem : Nat → Byte) (a : Nat) : U32 := BitVec.ofNat 32 (leAt mem a 4)

@[simp] theorem length_wordBytes (w : U32) : (wordBytes w).length = 4 := length_leBytes 4 w.toNat

theorem leAt_wordBytes {mem : Nat → Byte} {a : Nat} {w : U32} (h : Holds mem a (wordBytes w)) :
    leAt mem a 4 = w.toNat := by
  rw [leAt_leBytes 4 w.toNat h]
  exact Nat.mod_eq_of_lt w.isLt

theorem wordAt_wordBytes {mem : Nat → Byte} {a : Nat} {w : U32} (h : Holds mem a (wordBytes w)) : wordAt mem a = w := by
  rw [wordAt, leAt_wordBytes h, BitVec.ofNat_toNat, BitVec.setWidth_eq]

/-- The bytes of a word. -/
theorem leAt_four (mem : Nat → Byte) (a : Nat) :
    leAt mem a 4 = (mem a).toNat + 256 * ((mem (a + 1)).toNat + 256 * ((mem (a + 2)).toNat + 256 * (mem (a + 3)).toNat)) :=
  rfl

theorem toNat_wordAt (mem : Nat → Byte) (a : Nat) : (wordAt mem a).toNat = leAt mem a 4 := by
  have h₀ := (mem a).toNat_lt
  have h₁ := (mem (a + 1)).toNat_lt
  have h₂ := (mem (a + 2)).toNat_lt
  have h₃ := (mem (a + 3)).toNat_lt
  rw [wordAt, BitVec.toNat_ofNat, leAt_four]
  omega

theorem wordAt_high (mem : Nat → Byte) (a : Nat) : (wordAt mem a).toNat / 2 ^ 24 = (mem (a + 3)).toNat := by
  have h₀ := (mem a).toNat_lt
  have h₁ := (mem (a + 1)).toNat_lt
  have h₂ := (mem (a + 2)).toNat_lt
  rw [toNat_wordAt, leAt_four]
  omega

/-- A word with zeros behind it is not found again further on, unless it is zero. -/
theorem leAt_eq_zero_of_shift {mem : Nat → Byte} {a e : Nat} (he : 0 < e) (hbehind : ∀ b, a + 4 ≤ b → mem b = 0)
    (h : leAt mem (a + e) 4 = leAt mem a 4) : leAt mem a 4 = 0 := by
  have hzero : ∀ b, a + 4 ≤ b → (mem b).toNat = 0 := by
    intro b hb
    rw [hbehind b hb]
    rfl
  have h₀ := (mem a).toNat_lt
  have h₁ := (mem (a + 1)).toNat_lt
  have h₂ := (mem (a + 2)).toNat_lt
  have h₃ := (mem (a + 3)).toNat_lt
  rw [leAt_four, leAt_four] at h
  rw [leAt_four]
  obtain rfl | rfl | rfl | hfar : e = 1 ∨ e = 2 ∨ e = 3 ∨ 4 ≤ e := by omega
  · rw [hzero (a + 1 + 3) (by omega)] at h
    simp only [Nat.add_assoc, Nat.reduceAdd] at h
    omega
  · rw [hzero (a + 2 + 2) (by omega), hzero (a + 2 + 3) (by omega)] at h
    simp only [Nat.add_assoc, Nat.reduceAdd] at h
    omega
  · rw [hzero (a + 3 + 1) (by omega), hzero (a + 3 + 2) (by omega), hzero (a + 3 + 3) (by omega)] at h
    omega
  · rw [hzero (a + e) (by omega), hzero (a + e + 1) (by omega), hzero (a + e + 2) (by omega),
      hzero (a + e + 3) (by omega)] at h
    omega

/-- The two halves of a word. -/
theorem leAt_halves {mem : Nat → Byte} {a : Nat} {w : U32} (h : Holds mem a (wordBytes w)) :
    leAt mem a 2 = w.toNat % 2 ^ 16 ∧ leAt mem (a + 2) 2 = w.toNat / 2 ^ 16 := by
  have hlt := w.isLt
  have hsplit : wordBytes w = leBytes 2 w.toNat ++ leBytes 2 (w.toNat / 256 / 256) := rfl
  rw [hsplit, holds_append, length_leBytes] at h
  rw [leAt_leBytes 2 _ h.1, leAt_leBytes 2 _ h.2, Nat.div_div_eq_div_mul]
  exact ⟨rfl, Nat.mod_eq_of_lt (by omega)⟩

end SysSnippets.Lib
