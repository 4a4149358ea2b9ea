import SysSnippets.Lib.Riscv
import Mathlib.Algebra.BigOperators.Group.Finset.Basic

/-!
# Sums on RISC-V (`asm/riscv32/t/test1.s`)

`sum` adds the first numbers and `sum2` their squares, in 32-bit registers. Both count with `t0`, add to `t1` and
test after the increment whether `t0` is still within `a0`. No word is above the largest one: with it as the argument
the loop is not left.

* `Sums` : what the two routines have in common, over one term of the sum;
* `Sums.counts` : the loop, for every argument but the largest; `Sums.not_returns` : the largest one;
* `sum_sum2_iff` : the arguments for which the two return the sums.
-/

namespace SysSnippets.Asm.Riscv

open SysSnippets.Lib SysSnippets.Lib.Riscv
open Cpu (Runs Returns)

/-- `L1` in `sum` and `L2` in `sum2`. -/
def L : Nat := 2

def sum : List Instr :=
  [ li .t0 0,
    li .t1 0,
    -- L1
    .add .t1 .t1 .t0,
    .addi .t0 .t0 1,
    .bgeu .a0 .t0 L,
    mv .a0 .t1,
    ret ]

def sum2 : List Instr :=
  [ li .t0 0,
    li .t1 0,
    -- L2
    .mul .t2 .t0 .t0,
    .add .t1 .t1 .t2,
    .addi .t0 .t0 1,
    .bgeu .a0 .t0 L,
    mv .a0 .t1,
    ret ]

/-- A routine called in the state `c` returns to its caller with `v`. -/
def Gives (code : List Instr) (c : State) (v : Nat) : Prop :=
  ∃ pcs c', Returns exec code c.call pcs (returnAddress c) c' ∧ (c'.get .a0).toNat = v

/-! ## The parts of a routine -/

/-- The registers before the first pass. -/
structure Start (c c' : State) : Prop where
  counter : c'.get .t0 = 0
  total : c'.get .t1 = 0
  bound : c'.get .a0 = c.get .a0
  link : c'.get .ra = c.get .ra
  pc : c'.pc = L

/-- A pass adds `f` of the counter and counts on; the loop is left at `exit`. -/
structure Pass (f : U32 → U32) (exit : Nat) (c c' : State) : Prop where
  counter : c'.get .t0 = c.get .t0 + 1
  total : c'.get .t1 = c.get .t1 + f (c.get .t0)
  bound : c'.get .a0 = c.get .a0
  link : c'.get .ra = c.get .ra
  pc : c'.pc = if c.get .t0 + 1 ≤ c.get .a0 then L else exit

structure Sums (code : List Instr) (f : U32 → U32) (exit : Nat) : Prop where
  start (c : State) : ∃ pcs c', Runs exec code c.call pcs c' ∧ Start c c'
  pass (c : State) : c.pc = L → ∃ pcs c', pcs ≠ [] ∧ Runs exec code c pcs c' ∧ Pass f exit c c'
  finish (c : State) : c.pc = exit → ∃ pcs c', Returns exec code c pcs (returnAddress c) c' ∧ c'.get .a0 = c.get .t1

theorem sum_sums : Sums sum id 5 where
  start c := by
    refine ⟨_, _, Runs.next rfl exec_li (Runs.next rfl exec_li (Runs.refl _)), ?_⟩
    constructor <;> simp [Cpu.call, L]
  pass := by
    rintro ⟨regs, mem, pc⟩ hpc
    obtain rfl : pc = 2 := hpc
    refine ⟨_, _, List.cons_ne_nil _ _, Runs.next rfl rfl (Runs.next rfl rfl (Runs.next rfl rfl (Runs.refl _))), ?_⟩
    constructor <;> simp [L]
  finish := by
    rintro ⟨regs, mem, pc⟩ hpc
    obtain rfl : pc = 5 := hpc
    refine ⟨_, _, (Runs.next rfl exec_mv (Runs.refl _)).returns (Returns.of_leaves rfl ?_), ?_⟩
    · simp [exec_ret, returnAddress]
    · simp

theorem sum2_sums : Sums sum2 (fun i => i * i) 6 where
  start c := by
    refine ⟨_, _, Runs.next rfl exec_li (Runs.next rfl exec_li (Runs.refl _)), ?_⟩
    constructor <;> simp [Cpu.call, L]
  pass := by
    rintro ⟨regs, mem, pc⟩ hpc
    obtain rfl : pc = 2 := hpc
    refine ⟨_, _, List.cons_ne_nil _ _,
      Runs.next rfl rfl (Runs.next rfl rfl (Runs.next rfl rfl (Runs.next rfl rfl (Runs.refl _)))), ?_⟩
    constructor <;> simp [L]
  finish := by
    rintro ⟨regs, mem, pc⟩ hpc
    obtain rfl : pc = 6 := hpc
    refine ⟨_, _, (Runs.next rfl exec_mv (Runs.refl _)).returns (Returns.of_leaves rfl ?_), ?_⟩
    · simp [exec_ret, returnAddress]
    · simp

/-! ## The loop -/

/-- The counter stands at `i`, within `n`, and the terms below it are added up. -/
structure Counted (g : Nat → Nat) (n i : Nat) (c : State) : Prop where
  counter : (c.get .t0).toNat = i
  total : (c.get .t1).toNat = (∑ j ∈ Finset.range i, g j) % 2 ^ 32
  bound : (c.get .a0).toNat = n
  pc : c.pc = L

section
variable {code : List Instr} {f : U32 → U32} {g : Nat → Nat} {exit n i : Nat} {c c' : State}

theorem Counted.total_add (h : Counted g n i c) (hpass : Pass f exit c c')
    (hf : ∀ w, (f w).toNat = g w.toNat % 2 ^ 32) :
    (c'.get .t1).toNat = (∑ j ∈ Finset.range (i + 1), g j) % 2 ^ 32 := by
  rw [hpass.total, BitVec.toNat_add, hf, h.total, h.counter, Finset.sum_range_succ, ← Nat.add_mod]

/-- The counter does not wrap below the largest word. -/
theorem Counted.counter_add (h : Counted g n i c) (hi : i < 2 ^ 32 - 1) : (c.get .t0 + 1).toNat = i + 1 := by
  rw [BitVec.toNat_add, h.counter]
  show (i + 1) % 2 ^ 32 = i + 1
  exact Nat.mod_eq_of_lt (by omega)

/-- **The loop.** Pass after pass the counter gets to the argument. -/
theorem Sums.counts (h : Sums code f exit) (hf : ∀ w, (f w).toNat = g w.toNat % 2 ^ 32) (hn : n < 2 ^ 32 - 1)
    (hi : i ≤ n) (hc : Counted g n i c) :
    ∃ pcs c', Runs exec code c pcs c' ∧ c'.pc = exit ∧ c'.get .ra = c.get .ra ∧
      (c'.get .t1).toNat = (∑ j ∈ Finset.range (n + 1), g j) % 2 ^ 32 := by
  induction hleft : n - i generalizing i c with
  | zero =>
      obtain rfl : i = n := by omega
      obtain ⟨pcs, c', -, hruns, hpass⟩ := h.pass c hc.pc
      refine ⟨pcs, c', hruns, ?_, hpass.link, hc.total_add hpass hf⟩
      rw [hpass.pc, if_neg]
      rw [BitVec.le_def, hc.counter_add hn, hc.bound]
      omega
  | succ k ih =>
      obtain ⟨pcs, c', -, hruns, hpass⟩ := h.pass c hc.pc
      have hc' : Counted g n (i + 1) c' := by
        refine ⟨?_, hc.total_add hpass hf, ?_, ?_⟩
        · rw [hpass.counter, hc.counter_add (by omega)]
        · rw [hpass.bound, hc.bound]
        · rw [hpass.pc, if_pos]
          rw [BitVec.le_def, hc.counter_add (by omega), hc.bound]
          omega
      obtain ⟨pcs', c'', hruns', hpc, hlink, htotal⟩ := ih (by omega) hc' (by omega)
      exact ⟨pcs ++ pcs', c'', hruns.trans hruns', hpc, hlink.trans hpass.link, htotal⟩

theorem Sums.gives (h : Sums code f exit) (hf : ∀ w, (f w).toNat = g w.toNat % 2 ^ 32)
    (hn : (c.get .a0).toNat < 2 ^ 32 - 1) :
    Gives code c ((∑ j ∈ Finset.range ((c.get .a0).toNat + 1), g j) % 2 ^ 32) := by
  obtain ⟨pcs, c₁, hstart, hc₁⟩ := h.start c
  have hcounted : Counted g (c.get .a0).toNat 0 c₁ := by
    refine ⟨?_, ?_, ?_, hc₁.pc⟩
    · rw [hc₁.counter]
      rfl
    · rw [hc₁.total]
      rfl
    · rw [hc₁.bound]
  obtain ⟨pcs', c₂, hloop, hpc, hlink, htotal⟩ := h.counts hf hn (Nat.zero_le _) hcounted
  obtain ⟨pcs'', c₃, hfinish, hresult⟩ := h.finish c₂ hpc
  have hback : returnAddress c₂ = returnAddress c := by
    rw [returnAddress, hlink, hc₁.link, returnAddress]
  rw [hback] at hfinish
  refine ⟨_, c₃, (hstart.trans hloop).returns hfinish, ?_⟩
  rw [hresult, htotal]

/-- With the largest word as the argument every pass goes back to the head of the loop. -/
theorem Sums.not_gives (h : Sums code f exit) (hn : (c.get .a0).toNat = 2 ^ 32 - 1) (v : Nat) :
    ¬ Gives code c v := by
  rintro ⟨pcs, c', hreturns, -⟩
  obtain ⟨pcs', c₁, hstart, hc₁⟩ := h.start c
  apply Cpu.not_returns (J := fun c => c.pc = L ∧ (c.get .a0).toNat = 2 ^ 32 - 1) _ hstart _ hreturns
  · rintro c ⟨hpc, hbound⟩
    obtain ⟨pcs, c', hne, hruns, hpass⟩ := h.pass c hpc
    refine ⟨pcs, c', hne, hruns, ?_, ?_⟩
    · rw [hpass.pc, if_pos]
      rw [BitVec.le_def, hbound]
      exact Nat.le_sub_one_of_lt (c.get .t0 + 1).isLt
    · rw [hpass.bound, hbound]
  · exact ⟨hc₁.pc, by rw [hc₁.bound, hn]⟩

theorem Sums.gives_iff (h : Sums code f exit) (hf : ∀ w, (f w).toNat = g w.toNat % 2 ^ 32) :
    Gives code c ((∑ j ∈ Finset.range ((c.get .a0).toNat + 1), g j) % 2 ^ 32) ↔ (c.get .a0).toNat ≠ 2 ^ 32 - 1 := by
  constructor
  · intro hgives hn
    exact h.not_gives hn _ hgives
  · intro hn
    apply h.gives hf
    have hlt := (c.get .a0).isLt
    omega

end

/-! ## Both routines -/

/-- **The arguments for which `sum` and `sum2` return the sums.** All but the largest word, for both. -/
theorem sum_sum2_iff (c : State) :
    (Gives sum c ((∑ i ∈ Finset.range ((c.get .a0).toNat + 1), i) % 2 ^ 32) ↔ (c.get .a0).toNat ≠ 2 ^ 32 - 1) ∧
      (Gives sum2 c ((∑ i ∈ Finset.range ((c.get .a0).toNat + 1), i ^ 2) % 2 ^ 32) ↔
        (c.get .a0).toNat ≠ 2 ^ 32 - 1) := by
  constructor
  · apply sum_sums.gives_iff
    intro w
    exact (Nat.mod_eq_of_lt w.isLt).symm
  · apply sum2_sums.gives_iff
    intro w
    rw [BitVec.toNat_mul, Nat.pow_two]

/-- A caller's registers, all zero but the argument. -/
def calling (n : U32) : State where
  regs := Regs.clear.set .a0 n
  mem _ := 0
  pc := 0

/-- Called with the largest word neither of them returns. -/
theorem sum_sum2_largest :
    (∀ v, ¬ Gives sum (calling 0xffffffff) v) ∧ ∀ v, ¬ Gives sum2 (calling 0xffffffff) v :=
  ⟨sum_sums.not_gives rfl, sum2_sums.not_gives rfl⟩

end SysSnippets.Asm.Riscv
