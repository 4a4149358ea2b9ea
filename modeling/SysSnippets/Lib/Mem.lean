import Mathlib.Logic.Function.Basic
import Mathlib.Data.List.Basic
import Mathlib.Data.List.Induction

/-!
# Writes to a flat memory

* `write mem ps` : the memory after the writes `ps`, in order; what is not written stays
  (`write_of_notMem`), and a cell to which only one value is written holds it (`write_of_unique`);
* `bytesAt a bs` : the writes of a copy of `bs` to address `a`;
* `strided` : the writes of a copy of rows, and the cells they reach (`mem_strided`);
* `write_strided` : rows that are not longer than their pitch land side by side.
-/

namespace SysSnippets.Lib

section Write
variable {α : Type*} {mem : Nat → α} {ps qs : List (Nat × α)} {a : Nat} {b : α}

/-- The memory after some writes, in order. -/
def write (mem : Nat → α) (ps : List (Nat × α)) : Nat → α :=
  ps.foldl (fun m p => Function.update m p.1 p.2) mem

@[simp] theorem write_nil : write mem [] = mem := rfl

theorem write_append : write mem (ps ++ qs) = write (write mem ps) qs := List.foldl_append

theorem write_snoc (p : Nat × α) : write mem (ps ++ [p]) = Function.update (write mem ps) p.1 p.2 := by
  rw [write_append]
  rfl

/-- What is not written stays. -/
theorem write_of_notMem (h : ∀ p ∈ ps, p.1 ≠ a) : write mem ps a = mem a := by
  induction ps using List.reverseRec with
  | nil => rfl
  | append_singleton ps p ih =>
      rw [write_snoc, Function.update_of_ne (h p (by simp)).symm]
      exact ih fun q hq => h q (List.mem_append_left _ hq)

/-- A cell to which one value only is written. -/
theorem write_of_unique (hmem : (a, b) ∈ ps) (hunique : ∀ p ∈ ps, p.1 = a → p.2 = b) : write mem ps a = b := by
  induction ps using List.reverseRec with
  | nil => cases hmem
  | append_singleton ps p ih =>
      rw [write_snoc]
      by_cases hp : p.1 = a
      · rw [← hp, Function.update_self]
        exact hunique p (by simp) hp
      · rw [Function.update_of_ne (Ne.symm hp)]
        apply ih
        · rcases List.mem_append.1 hmem with hmem | hmem
          · exact hmem
          · rw [← List.mem_singleton.1 hmem] at hp
            exact absurd rfl hp
        · exact fun q hq => hunique q (List.mem_append_left _ hq)

/-- The writes of a copy of `bs` to address `a`. -/
def bytesAt (a : Nat) (bs : List α) : List (Nat × α) := bs.zipIdx.map fun x => (a + x.2, x.1)

theorem mem_bytesAt {bs : List α} {p : Nat × α} :
    p ∈ bytesAt a bs ↔ ∃ i, bs[i]? = some p.2 ∧ p.1 = a + i := by
  unfold bytesAt
  constructor
  · intro h
    obtain ⟨⟨x, i⟩, hx, rfl⟩ := List.mem_map.1 h
    exact ⟨i, List.mem_zipIdx_iff_getElem?.1 hx, rfl⟩
  · rintro ⟨i, hi, hp⟩
    refine List.mem_map.2 ⟨(p.2, i), List.mem_zipIdx_iff_getElem?.2 hi, ?_⟩
    rw [← hp]

/-- The writes of a copy of `h` rows; row `s` goes to `base + offset s`. -/
def strided (base : Nat) (offset : Nat → Nat) (h : Nat) (row : Nat → List α) : List (Nat × α) :=
  (List.range h).flatMap fun s => bytesAt (base + offset s) (row s)

theorem mem_strided {base h : Nat} {offset : Nat → Nat} {row : Nat → List α} {p : Nat × α} :
    p ∈ strided base offset h row ↔ ∃ s < h, ∃ i, (row s)[i]? = some p.2 ∧ p.1 = base + offset s + i := by
  unfold strided
  constructor
  · intro hp
    obtain ⟨s, hs, hp⟩ := List.mem_flatMap.1 hp
    exact ⟨s, List.mem_range.1 hs, mem_bytesAt.1 hp⟩
  · rintro ⟨s, hs, hp⟩
    exact List.mem_flatMap.2 ⟨s, List.mem_range.2 hs, mem_bytesAt.2 hp⟩

theorem strided_congr {base h : Nat} {offset offset' : Nat → Nat} {row : Nat → List α}
    (hoffset : ∀ s < h, offset s = offset' s) : strided base offset h row = strided base offset' h row := by
  unfold strided
  apply List.flatMap_congr
  intro s hs
  rw [hoffset s (List.mem_range.1 hs)]

/-- Two cells of a picture are the same only if row and column are. -/
theorem cell_inj {pitch s s' i i' : Nat} (hi : i < pitch) (hi' : i' < pitch)
    (h : s * pitch + i = s' * pitch + i') : s = s' ∧ i = i' := by
  have hs : s = s' := by
    rcases Nat.lt_trichotomy s s' with hlt | heq | hgt
    · have := Nat.mul_le_mul_right pitch (show s + 1 ≤ s' from hlt)
      rw [Nat.succ_mul] at this
      omega
    · exact heq
    · have := Nat.mul_le_mul_right pitch (show s' + 1 ≤ s from hgt)
      rw [Nat.succ_mul] at this
      omega
  subst hs
  exact ⟨rfl, by omega⟩

/-- **Rows side by side.** A copy of rows that are not longer than the pitch puts each row where it
belongs. -/
theorem write_strided {base pitch h s i : Nat} {row : Nat → List α} (hrow : ∀ s < h, (row s).length ≤ pitch)
    (hs : s < h) (hb : (row s)[i]? = some b) :
    write mem (strided base (· * pitch) h row) (base + s * pitch + i) = b := by
  have hi : i < pitch := Nat.lt_of_lt_of_le (List.getElem?_eq_some_iff.1 hb).1 (hrow s hs)
  apply write_of_unique
  · exact mem_strided.2 ⟨s, hs, i, hb, rfl⟩
  · intro p hp hcell
    obtain ⟨s', hs', i', hb', hp'⟩ := mem_strided.1 hp
    have hi' : i' < pitch := Nat.lt_of_lt_of_le (List.getElem?_eq_some_iff.1 hb').1 (hrow s' hs')
    obtain ⟨rfl, rfl⟩ := cell_inj hi hi' (show s * pitch + i = s' * pitch + i' by omega)
    rw [hb] at hb'
    exact (Option.some.inj hb').symm

end Write

end SysSnippets.Lib
