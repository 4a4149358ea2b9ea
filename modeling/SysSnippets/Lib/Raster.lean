import SysSnippets.Lib.Words

/-!
# Pictures drawn word by word

* `wordWrites ps` : the stores of 32-bit words, by their index from the start of a mapping;
* `Paints w h color ps` : the stores are those of a picture of `h` rows of `w` words, one after the other; such a
  picture holds its colours (`Paints.holds`) and leaves what is behind it (`Paints.outside`);
* `paints_rows`, `paints_flat`, `paints_fill` : the ways of drawing one, by index, with a running pointer, in one colour.
-/

namespace SysSnippets.Lib

def wordWrites (ps : List (Nat × U32)) : List (Nat × Byte) := ps.flatMap fun p => bytesAt (4 * p.1) (wordBytes p.2)

section Words
variable {mem : Nat → Byte} {ps : List (Nat × U32)} {q : Nat × Byte} {k n a : Nat} {v : U32}

theorem mem_wordWrites :
    q ∈ wordWrites ps ↔ ∃ p ∈ ps, ∃ i < 4, (wordBytes p.2)[i]? = some q.2 ∧ q.1 = 4 * p.1 + i := by
  unfold wordWrites
  constructor
  · intro h
    obtain ⟨p, hp, hq⟩ := List.mem_flatMap.1 h
    obtain ⟨i, hi, hat⟩ := mem_bytesAt.1 hq
    have hlt := (List.getElem?_eq_some_iff.1 hi).1
    rw [length_wordBytes] at hlt
    exact ⟨p, hp, i, hlt, hi, hat⟩
  · rintro ⟨p, hp, i, -, hi, hat⟩
    exact List.mem_flatMap.2 ⟨p, hp, mem_bytesAt.2 ⟨i, hi, hat⟩⟩

/-- A word to which one value only is stored. -/
theorem holds_wordWrites (hmem : (k, v) ∈ ps) (hunique : ∀ p ∈ ps, p.1 = k → p.2 = v) :
    Holds (write mem (wordWrites ps)) (4 * k) (wordBytes v) := by
  intro i b hb
  have hi := (List.getElem?_eq_some_iff.1 hb).1
  rw [length_wordBytes] at hi
  apply write_of_unique
  · exact mem_wordWrites.2 ⟨(k, v), hmem, i, hi, hb, rfl⟩
  · intro q hq hat
    obtain ⟨p, hp, j, hj, hc, hqat⟩ := mem_wordWrites.1 hq
    have hword : p.1 = k := by omega
    obtain rfl : j = i := by omega
    rw [hunique p hp hword, hb] at hc
    exact (Option.some.inj hc).symm

/-- What is behind the words stored. -/
theorem write_wordWrites_outside (hlt : ∀ p ∈ ps, p.1 < n) (ha : 4 * n ≤ a) : write mem (wordWrites ps) a = mem a := by
  apply write_of_notMem
  intro q hq hat
  obtain ⟨p, hp, i, hi, -, hqat⟩ := mem_wordWrites.1 hq
  have hword := hlt p hp
  omega

end Words

/-! ## Pictures -/

/-- The row and the column of a word. -/
theorem mul_add_of_lt {w h k : Nat} (hk : k < h * w) : ∃ y < h, ∃ x < w, k = y * w + x := by
  have hw : 0 < w := Nat.pos_of_mul_pos_left (Nat.lt_of_le_of_lt (Nat.zero_le k) hk)
  refine ⟨k / w, Nat.div_lt_of_lt_mul (by rwa [Nat.mul_comm]), k % w, Nat.mod_lt k hw, ?_⟩
  rw [Nat.mul_comm, Nat.div_add_mod]

/-- Word `y * w + x` is stored with the colour of `(x, y)`, and no other word. -/
def Paints (w h : Nat) (color : Nat → Nat → U32) (ps : List (Nat × U32)) : Prop :=
  ∀ p, p ∈ ps ↔ ∃ y < h, ∃ x < w, p = (y * w + x, color x y)

section Paints
variable {w h x y : Nat} {color : Nat → Nat → U32} {ps : List (Nat × U32)} {mem : Nat → Byte} {a : Nat}

theorem Paints.lt (hpaints : Paints w h color ps) : ∀ p ∈ ps, p.1 < h * w := by
  intro p hp
  obtain ⟨y, hy, x, hx, rfl⟩ := (hpaints p).1 hp
  calc y * w + x < y * w + w := Nat.add_lt_add_left hx _
    _ = (y + 1) * w := (Nat.succ_mul y w).symm
    _ ≤ h * w := Nat.mul_le_mul_right w hy

theorem Paints.holds (hpaints : Paints w h color ps) (mem : Nat → Byte) (hx : x < w) (hy : y < h) :
    Holds (write mem (wordWrites ps)) (4 * (y * w + x)) (wordBytes (color x y)) := by
  apply holds_wordWrites
  · exact (hpaints _).2 ⟨y, hy, x, hx, rfl⟩
  · intro p hp hat
    obtain ⟨y', hy', x', hx', rfl⟩ := (hpaints p).1 hp
    obtain ⟨rfl, rfl⟩ := cell_inj hx' hx hat
    rfl

theorem Paints.outside (hpaints : Paints w h color ps) (ha : 4 * (h * w) ≤ a) :
    write mem (wordWrites ps) a = mem a := write_wordWrites_outside hpaints.lt ha

/-- Row by row, each word by its index. -/
theorem paints_rows (w h : Nat) (color : Nat → Nat → U32) :
    Paints w h color ((List.range h).flatMap fun y => (List.range w).map fun x => (y * w + x, color x y)) := by
  intro p
  constructor
  · intro hp
    obtain ⟨y, hy, hp⟩ := List.mem_flatMap.1 hp
    obtain ⟨x, hx, rfl⟩ := List.mem_map.1 hp
    exact ⟨y, List.mem_range.1 hy, x, List.mem_range.1 hx, rfl⟩
  · rintro ⟨y, hy, x, hx, rfl⟩
    exact List.mem_flatMap.2 ⟨y, List.mem_range.2 hy, List.mem_map.2 ⟨x, List.mem_range.2 hx, rfl⟩⟩

/-- The colours of the rows, one after the other. -/
def flat (w h : Nat) (color : Nat → Nat → U32) : List U32 :=
  (List.range h).flatMap fun y => (List.range w).map fun x => color x y

/-- The stores through a pointer that goes from word to word. -/
def running (vs : List U32) : List (Nat × U32) := vs.zipIdx.map fun q => (q.2, q.1)

theorem mem_running {vs : List U32} {p : Nat × U32} : p ∈ running vs ↔ vs[p.1]? = some p.2 := by
  unfold running
  constructor
  · intro hp
    obtain ⟨q, hq, rfl⟩ := List.mem_map.1 hp
    exact List.mem_zipIdx_iff_getElem?.1 hq
  · intro hp
    exact List.mem_map.2 ⟨(p.2, p.1), List.mem_zipIdx_iff_getElem?.2 hp, rfl⟩

theorem flat_succ (w h : Nat) (color : Nat → Nat → U32) :
    flat w (h + 1) color = flat w h color ++ (List.range w).map fun x => color x h := by
  rw [flat, List.range_succ, List.flatMap_append, List.flatMap_singleton, flat]

theorem length_flat (w h : Nat) (color : Nat → Nat → U32) : (flat w h color).length = h * w := by
  induction h with
  | zero => rw [Nat.zero_mul]; rfl
  | succ h ih => rw [flat_succ, List.length_append, ih, List.length_map, List.length_range, Nat.succ_mul]

theorem flat_getElem? (hx : x < w) (hy : y < h) : (flat w h color)[y * w + x]? = some (color x y) := by
  induction h with
  | zero => exact absurd hy (Nat.not_lt_zero y)
  | succ h ih =>
      rw [flat_succ]
      rcases Nat.lt_succ_iff_lt_or_eq.1 hy with hy | rfl
      · rw [List.getElem?_append_left, ih hy]
        exact (List.getElem?_eq_some_iff.1 (ih hy)).1
      · rw [List.getElem?_append_right (by rw [length_flat]; omega), length_flat, Nat.add_sub_cancel_left,
          List.getElem?_map, List.getElem?_range hx]
        rfl

/-- With a running pointer. -/
theorem paints_flat (w h : Nat) (color : Nat → Nat → U32) : Paints w h color (running (flat w h color)) := by
  intro p
  rw [mem_running]
  constructor
  · intro hp
    have hlt := (List.getElem?_eq_some_iff.1 hp).1
    rw [length_flat] at hlt
    obtain ⟨y, hy, x, hx, heq⟩ := mul_add_of_lt hlt
    rw [heq, flat_getElem? hx hy] at hp
    exact ⟨y, hy, x, hx, Prod.ext heq (Option.some.inj hp).symm⟩
  · rintro ⟨y, hy, x, hx, rfl⟩
    exact flat_getElem? hx hy

/-- All words in one colour. -/
theorem paints_fill (w h : Nat) (v : U32) : Paints w h (fun _ _ => v) ((List.range (h * w)).map fun j => (j, v)) := by
  intro p
  constructor
  · intro hp
    obtain ⟨j, hj, rfl⟩ := List.mem_map.1 hp
    obtain ⟨y, hy, x, hx, rfl⟩ := mul_add_of_lt (List.mem_range.1 hj)
    exact ⟨y, hy, x, hx, rfl⟩
  · rintro ⟨y, hy, x, hx, rfl⟩
    refine List.mem_map.2 ⟨y * w + x, List.mem_range.2 ?_, rfl⟩
    exact (paints_rows w h fun _ _ => v).lt (y * w + x, v) (((paints_rows w h fun _ _ => v) _).2 ⟨y, hy, x, hx, rfl⟩)

end Paints

end SysSnippets.Lib
