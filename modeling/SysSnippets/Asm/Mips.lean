import SysSnippets.Lib.Mips

/-!
# Sum of two words and bit count on MIPS (`asm/mips/test1.s`, `asm/mips/test2.s`)

`ones` shifts its argument to the right until it is zero and adds up the bits that go out. After `k` passes the
argument has lost its `k` low bits and `v0` has counted them (`Counted`).

* `addu_returns` : the sum of two words;
* `ones_returns` : the bit count, in 32 passes at most and without an overflow.
-/

namespace SysSnippets.Asm.Mips

open SysSnippets.Lib SysSnippets.Lib.Mips
open Cpu (Runs Returns)

def addu : List Instr :=
  [ .addu .v0 .a0 .a1,
    .jr .ra ]

theorem addu_returns (c : State) :
    ∃ pcs c', Returns exec addu c.call pcs (c.get .ra) c' ∧ c'.get .v0 = c.get .a0 + c.get .a1 := by
  refine ⟨_, _, (Runs.next rfl rfl (Runs.refl _)).returns (Returns.of_leaves rfl rfl), ?_⟩
  simp [Cpu.call]

namespace Ones

def loop : Nat := 1
def done : Nat := 6

end Ones

def ones : List Instr :=
  [ li .v0 0,
    -- loop
    .andi .t0 .a0 1,
    .add .v0 .v0 .t0,
    .srl .a0 .a0 1,
    .beq .a0 .zero Ones.done,
    .j Ones.loop,
    -- done
    .jr .ra ]

namespace Ones
variable {x : U32} {k : Nat} {c : State}

/-! ## Bits -/

/-- The bit that goes out of `x >>> k`. -/
theorem low_bit : ((x >>> k) &&& 1).toNat = (x.getLsbD k).toNat := by
  rw [show (1 : U32) = BitVec.twoPow 32 0 from rfl, BitVec.and_twoPow, BitVec.getLsbD_ushiftRight, Nat.add_zero]
  cases x.getLsbD k
  · rfl
  · rfl

theorem cpopNatRec_add_bit : x.cpopNatRec k 0 + (x.getLsbD k).toNat = x.cpopNatRec (k + 1) 0 := by
  rw [BitVec.cpopNatRec_succ, BitVec.cpopNatRec_add]

/-- Where nothing is left the count is complete. -/
theorem cpopNatRec_of_shift (hk : k ≤ 32) (h : x >>> k = 0) : x.cpopNatRec k 0 = x.cpop.toNat := by
  have hbits : ∀ j, x.cpopNatRec (k + j) 0 = x.cpopNatRec k 0 := by
    intro j
    induction j with
    | zero => rfl
    | succ j ih =>
        have hbit : x.getLsbD (k + j) = false := by
          rw [← BitVec.getLsbD_ushiftRight, h]
          exact BitVec.getLsbD_zero
        rw [← Nat.add_assoc, ← cpopNatRec_add_bit, ih, hbit]
        rfl
  have hle : x.cpopNatRec 32 0 ≤ 32 := BitVec.cpopNatRec_zero_le x 32
  rw [BitVec.cpop, BitVec.toNat_ofNat, Nat.mod_eq_of_lt (by omega), ← hbits (32 - k), Nat.add_sub_cancel' hk]

/-! ## The loop -/

/-- `k` bits of `x` are counted. -/
structure Counted (x : U32) (k : Nat) (c : State) : Prop where
  left : c.get .a0 = x >>> k
  count : (c.get .v0).toNat = x.cpopNatRec k 0
  pc : c.pc = loop
  lt : k < 32

/-- The next bit is added without an overflow. -/
theorem Counted.sum (h : Counted x k c) :
    (c.get .v0).toNat + (c.get .a0 &&& 1).toNat = x.cpopNatRec (k + 1) 0 ∧ x.cpopNatRec (k + 1) 0 < 2 ^ 31 := by
  have hle : x.cpopNatRec (k + 1) 0 ≤ 32 := BitVec.cpopNatRec_zero_le x (k + 1)
  rw [h.left, h.count, low_bit, cpopNatRec_add_bit]
  exact ⟨rfl, by omega⟩

/-- What a pass does before the branch. -/
theorem Counted.body (h : Counted x k c) :
    ∃ c', Runs exec ones c [1, 2, 3] c' ∧ c'.get .a0 = x >>> (k + 1) ∧
      (c'.get .v0).toNat = x.cpopNatRec (k + 1) 0 ∧ c'.pc = 4 ∧ c'.get .ra = c.get .ra := by
  obtain ⟨hsum, hlt⟩ := h.sum
  have hleft := h.left
  obtain ⟨regs, mem, pc⟩ := c
  obtain rfl : pc = 1 := h.pc
  refine ⟨_, Runs.next rfl rfl (Runs.next rfl (exec_add_of_lt ?_) (Runs.next rfl rfl (Runs.refl _))), ?_, ?_, rfl, ?_⟩
  · rw [Cpu.get_put_self (by decide), Cpu.get_put_of_ne (by decide)]
    rw [← hsum] at hlt
    exact hlt
  · simp [hleft, BitVec.shiftRight_add]
  · rw [Cpu.get_put_of_ne (by decide), Cpu.get_put_self (by decide), Cpu.get_put_self (by decide),
      Cpu.get_put_of_ne (by decide), BitVec.toNat_add]
    show ((Cpu.get _ _).toNat + (Cpu.get _ _ &&& 1).toNat) % 2 ^ 32 = _
    rw [hsum]
    exact Nat.mod_eq_of_lt (by omega)
  · simp

theorem Counted.last (h : Counted x k c) (hdone : x >>> (k + 1) = 0) :
    ∃ c', Runs exec ones c [1, 2, 3, 4] c' ∧ c'.pc = done ∧ c'.get .v0 = x.cpop ∧ c'.get .ra = c.get .ra := by
  obtain ⟨c', hruns, hleft, hcount, hpc, hlink⟩ := h.body
  have hlt := h.lt
  obtain ⟨regs, mem, pc⟩ := c'
  obtain rfl : pc = 4 := hpc
  refine ⟨_, hruns.trans (Runs.next rfl (exec_beq_of_eq ?_) (Runs.refl _)), rfl, ?_, hlink⟩
  · rw [hleft, hdone, Cpu.get_zero]
  · apply BitVec.eq_of_toNat_eq
    rw [Cpu.get_goto, hcount, cpopNatRec_of_shift (by omega) hdone]

theorem Counted.next (h : Counted x k c) (hgoes : x >>> (k + 1) ≠ 0) :
    ∃ c', Runs exec ones c [1, 2, 3, 4, 5] c' ∧ Counted x (k + 1) c' ∧ c'.get .ra = c.get .ra := by
  obtain ⟨c', hruns, hleft, hcount, hpc, hlink⟩ := h.body
  have hlt : k + 1 < 32 := by
    apply Nat.lt_of_le_of_ne h.lt
    intro hk
    exact hgoes (BitVec.ushiftRight_eq_zero (Nat.le_of_eq hk.symm))
  obtain ⟨regs, mem, pc⟩ := c'
  obtain rfl : pc = 4 := hpc
  refine ⟨_, hruns.trans (Runs.next rfl (exec_beq_of_ne ?_) (Runs.next rfl rfl (Runs.refl _))), ?_, hlink⟩
  · rwa [hleft, Cpu.get_zero]
  · exact ⟨hleft, hcount, rfl, hlt⟩

/-- **The loop.** The bits that are left take a pass each. -/
theorem Counted.loop (h : Counted x k c) :
    ∃ pcs c', Runs exec ones c pcs c' ∧ c'.pc = done ∧ c'.get .v0 = x.cpop ∧ c'.get .ra = c.get .ra ∧
      pcs.count loop ≤ 32 - k := by
  have hlt := h.lt
  induction hn : 32 - k generalizing k c with
  | zero => omega
  | succ n ih =>
      by_cases hdone : x >>> (k + 1) = 0
      · obtain ⟨c', hruns, hpc, hcount, hlink⟩ := h.last hdone
        exact ⟨_, c', hruns, hpc, hcount, hlink, Nat.le_add_left 1 n⟩
      · obtain ⟨c', hruns, hc', hlink⟩ := h.next hdone
        obtain ⟨pcs, c'', hruns', hpc, hcount, hlink', hpasses⟩ := ih hc' hc'.lt (by omega)
        refine ⟨_, c'', hruns.trans hruns', hpc, hcount, hlink'.trans hlink, ?_⟩
        rw [List.count_append]
        show 1 + pcs.count _ ≤ n + 1
        omega

end Ones

/-- **The bit count.** `ones` returns, with the number of one bits of its argument; none of its instructions traps and
its loop is gone through 32 times at most. -/
theorem ones_returns (c : State) :
    ∃ pcs c', Returns exec ones c.call pcs (c.get .ra) c' ∧ c'.get .v0 = (c.get .a0).cpop ∧
      pcs.count Ones.loop ≤ 32 := by
  have hstart : Runs exec ones c.call [0] (c.call.put .v0 0) := Runs.next rfl exec_li (Runs.refl _)
  have hcounted : Ones.Counted (c.get .a0) 0 (c.call.put .v0 0) := by
    refine ⟨?_, ?_, rfl, by omega⟩
    · rw [Cpu.get_put_of_ne (by decide), BitVec.ushiftRight_zero]
      rfl
    · rw [Cpu.get_put_self (by decide)]
      rfl
  obtain ⟨pcs, c', hloop, hpc, hcount, hlink, hpasses⟩ := hcounted.loop
  have hback : c'.get .ra = c.get .ra := by
    rw [hlink, Cpu.get_put_of_ne (by decide)]
    rfl
  obtain ⟨regs, mem, pc⟩ := c'
  obtain rfl : pc = 6 := hpc
  rw [← hback]
  refine ⟨_, _, (hstart.trans hloop).returns (Returns.of_leaves rfl rfl), hcount, ?_⟩
  rw [List.count_append, List.count_append]
  show 0 + pcs.count _ + 0 ≤ 32
  omega

end SysSnippets.Asm.Mips
