import SysSnippets.Lib.Mips
import SysSnippets.Lib.Fibonacci
import Mathlib.Data.BitVec

/-!
# Fibonacci numbers on MIPS (`asm/mips/test3.s`)

`fib` counts with `t0` from 3 to its argument and goes from one pair of numbers in `s0` and `s1` to the next. The
comparison that sets 1 and 2 apart is `slt`, which compares signed words: it sets the arguments from 2^31 on apart as
well, and 1 is what comes back for them.

* `Frame` : the caller's registers on the stack; `Caller.push` and `Caller.pop` save them and give them back;
* `Counted` : where the loop stands, from pair to pair (`Counted.loop`);
* `fib_returns` : what comes back for any argument, under the calling convention;
* `gives_fib_iff` : the arguments for which it is the Fibonacci number.
-/

namespace SysSnippets.Asm.Fib

open SysSnippets.Lib SysSnippets.Lib.Mips
open Cpu (Runs Returns)

/-- The place of `calc` and `loop`. -/
def loop : Nat := 10
def done : Nat := 16

def fib : List Instr :=
  [ -- push
    .addi .sp .sp (-12),
    .sw .s0 0 .sp,
    .sw .s1 4 .sp,
    .sw .s2 8 .sp,
    -- init
    li .s0 1,
    li .s1 1,
    li .t0 3,
    -- special case
    .slt .t1 .a0 .t0,
    .beq .t1 .zero loop,
    .j done,
    -- calc, loop
    .addu .s2 .s1 .s0,
    move .s0 .s1,
    move .s1 .s2,
    .beq .t0 .a0 done,
    .addi .t0 .t0 1,
    .j loop,
    -- done
    move .v0 .s1,
    -- pop
    .lw .s0 0 .sp,
    .lw .s1 4 .sp,
    .lw .s2 8 .sp,
    .addi .sp .sp 12,
    .jr .ra ]

/-- A caller: its stack pointer is aligned and in the user's half of the addresses, with room for a frame below it. -/
structure Caller where
  state : State
  aligned : (state.get .sp).toNat % 4 = 0
  room : 12 ≤ (state.get .sp).toNat
  user : (state.get .sp).toNat < 2 ^ 31

/-! ## The frame -/

/-- `sp` is the stack pointer of `fib`; the registers it uses are in the frame, as the caller `m` had them. -/
structure Frame (m c : State) : Prop where
  sp : c.get .sp = m.get .sp - 12
  s0 : c.mem (c.get .sp) = m.get .s0
  s1 : c.mem (c.get .sp + 4) = m.get .s1
  s2 : c.mem (c.get .sp + 8) = m.get .s2
  ra : c.get .ra = m.get .ra

theorem Frame.keep {m c c' : State} (h : Frame m c) (hsp : c'.get .sp = c.get .sp) (hra : c'.get .ra = c.get .ra)
    (hmem : c'.mem = c.mem) : Frame m c' := by
  constructor
  · rw [hsp, h.sp]
  · rw [hmem, hsp, h.s0]
  · rw [hmem, hsp, h.s1]
  · rw [hmem, hsp, h.s2]
  · rw [hra, h.ra]

/-- The registers that `fib` has to give back. -/
structure Restored (m c : State) : Prop where
  sp : c.get .sp = m.get .sp
  s0 : c.get .s0 = m.get .s0
  s1 : c.get .s1 = m.get .s1
  s2 : c.get .s2 = m.get .s2

namespace Caller
variable (m : Caller)

theorem toNat_frame : (m.state.get .sp - 12).toNat = (m.state.get .sp).toNat - 12 := by
  have hroom := m.room
  rw [BitVec.toNat_sub_of_le]
  · rfl
  · exact hroom

/-- An offset that is a multiple of four keeps the alignment. -/
theorem aligned_frame {w : U32} (hw : w.toNat % 4 = 0) : (m.state.get .sp - 12 + w).toNat % 4 = 0 := by
  have haligned := m.aligned
  rw [BitVec.toNat_add, m.toNat_frame]
  omega

theorem push :
    ∃ c, Runs exec fib m.state.call [0, 1, 2, 3] c ∧ Frame m.state c ∧ c.get .a0 = m.state.get .a0 ∧ c.pc = 4 := by
  have hroom := m.room
  have huser := m.user
  have hsp : m.state.get .sp + (-12 : BitVec 16).signExtend 32 = m.state.get .sp - 12 := by
    rw [BitVec.sub_eq_add_neg]
    rfl
  have hint : (m.state.get .sp).toInt = (m.state.get .sp).toNat := BitVec.toInt_eq_toNat_of_lt (by omega)
  have himm : ((-12 : BitVec 16).signExtend 32).toInt = -12 := rfl
  have hframe : Runs exec fib m.state.call [0] (m.state.call.put .sp (m.state.get .sp - 12)) := by
    rw [← hsp]
    refine Runs.next rfl (exec_addi_of_range ?_ ?_) (Runs.refl _)
    · show _ ≤ (m.state.get .sp).toInt + _
      omega
    · show (m.state.get .sp).toInt + _ < _
      omega
  refine ⟨_, hframe.trans (Runs.next rfl (exec_sw ?_) (Runs.next rfl (exec_sw ?_) (Runs.next rfl (exec_sw ?_)
    (Runs.refl _)))), ?_, ?_, rfl⟩
  · exact m.aligned_frame rfl
  · exact m.aligned_frame rfl
  · exact m.aligned_frame rfl
  · constructor
    · rfl
    · simp [Cpu.call]
    · simp [Cpu.call]
    · simp [Cpu.call]
    · rfl
  · rfl

theorem pop {c : State} (hframe : Frame m.state c) (hpc : c.pc = done) :
    ∃ pcs c', Returns exec fib c pcs (m.state.get .ra) c' ∧ Restored m.state c' ∧ c'.get .v0 = c.get .s1 := by
  have hroom := m.room
  have huser := m.user
  have hsp : m.state.get .sp - 12 + (12 : BitVec 16).signExtend 32 = m.state.get .sp := BitVec.sub_add_cancel _ 12
  have hsum : (m.state.get .sp - 12).toNat + ((12 : BitVec 16).signExtend 32).toNat < 2 ^ 31 := by
    rw [m.toNat_frame]
    show (m.state.get .sp).toNat - 12 + 12 < 2 ^ 31
    omega
  have haligned {w : U32} (hw : w.toNat % 4 = 0) : (c.get .sp + w).toNat % 4 = 0 := by
    rw [hframe.sp]
    exact m.aligned_frame hw
  have hc : ∃ c', Runs exec fib c [16, 17, 18, 19, 20] c' ∧ Restored m.state c' ∧ c'.get .v0 = c.get .s1 ∧
      c'.pc = 21 ∧ c'.get .ra = m.state.get .ra := by
    obtain ⟨regs, mem, pc⟩ := c
    obtain rfl : pc = 16 := hpc
    refine ⟨_, Runs.next rfl exec_move (Runs.next rfl (exec_lw ?_) (Runs.next rfl (exec_lw ?_)
      (Runs.next rfl (exec_lw ?_) (Runs.next rfl (exec_addi_of_lt ?_) (Runs.refl _))))), ?_, rfl, rfl, hframe.ra⟩
    · exact haligned rfl
    · exact haligned rfl
    · exact haligned rfl
    · rw [← hframe.sp] at hsum
      exact hsum
    · constructor
      · rw [← hframe.sp] at hsp
        exact hsp
      · exact (congrArg mem (BitVec.add_zero _)).trans hframe.s0
      · exact hframe.s1
      · exact hframe.s2
  obtain ⟨c', hruns, hrestored, hresult, hpc', hlink⟩ := hc
  obtain ⟨regs, mem, pc⟩ := c'
  obtain rfl : pc = 21 := hpc'
  rw [← hlink]
  exact ⟨_, _, hruns.returns (Returns.of_leaves rfl rfl), hrestored, hresult⟩

end Caller

/-! ## The loop -/

section
variable {m c : State} {n j : Nat}

/-- `slt` takes words from 2^31 on for negative numbers. -/
theorem slt_three {w : U32} : w.slt 3 = true ↔ w.toNat < 3 ∨ 2 ^ 31 ≤ w.toNat := by
  have hthree : (3 : U32).toInt = 3 := rfl
  rw [BitVec.slt, decide_eq_true_eq, hthree]
  by_cases hw : w.toNat < 2 ^ 31
  · rw [BitVec.toInt_eq_toNat_of_lt (by omega)]
    omega
  · have hlt := w.isLt
    rw [BitVec.toInt_eq_toNat_cond, if_neg (by omega)]
    omega

/-- Before the test for the special case. -/
structure Init (m c : State) : Prop where
  frame : Frame m c
  first : c.get .s0 = 1
  second : c.get .s1 = 1
  counter : c.get .t0 = 3
  small : c.get .t1 = if (c.get .a0).slt 3 then 1 else 0
  pc : c.pc = 8

theorem init (hframe : Frame m c) (hpc : c.pc = 4) :
    ∃ c', Runs exec fib c [4, 5, 6, 7] c' ∧ Init m c' ∧ c'.get .a0 = c.get .a0 := by
  obtain ⟨regs, mem, pc⟩ := c
  obtain rfl : pc = 4 := hpc
  refine ⟨_, Runs.next rfl exec_li (Runs.next rfl exec_li (Runs.next rfl exec_li (Runs.next rfl rfl (Runs.refl _)))),
    ?_, rfl⟩
  constructor
  · exact hframe.keep rfl rfl rfl
  · rfl
  · rfl
  · rfl
  · rfl
  · rfl

theorem Init.special (h : Init m c) (hsmall : (c.get .a0).slt 3 = true) :
    ∃ c', Runs exec fib c [8, 9] c' ∧ Frame m c' ∧ c'.get .s1 = 1 ∧ c'.pc = done := by
  have hone := h.small
  have hframe := h.frame
  have hsecond := h.second
  rw [if_pos hsmall] at hone
  obtain ⟨regs, mem, pc⟩ := c
  obtain rfl : pc = 8 := h.pc
  refine ⟨_, Runs.next rfl (exec_beq_of_ne ?_) (Runs.next rfl rfl (Runs.refl _)), ?_, hsecond, rfl⟩
  · rw [hone, Cpu.get_zero]
    decide
  · exact hframe.keep rfl rfl rfl

/-- The counter is at `j + 3`, and two numbers from the `k`-th on are in their registers. -/
structure Counted (m : State) (n j k pc : Nat) (c : State) : Prop where
  frame : Frame m c
  first : c.get .s0 = BitVec.ofNat 32 (Nat.fib k)
  second : c.get .s1 = BitVec.ofNat 32 (Nat.fib (k + 1))
  counter : (c.get .t0).toNat = j + 3
  argument : (c.get .a0).toNat = n
  pc : c.pc = pc

theorem Init.common (h : Init m c) (hlarge : ¬ (c.get .a0).slt 3 = true) :
    ∃ c', Runs exec fib c [8] c' ∧ Counted m (c.get .a0).toNat 0 1 loop c' := by
  obtain ⟨hframe, hfirst, hsecond, hcounter, hsmall, hpc⟩ := h
  rw [if_neg hlarge] at hsmall
  obtain ⟨regs, mem, pc⟩ := c
  obtain rfl : pc = 8 := hpc
  refine ⟨_, Runs.next rfl (exec_beq_of_eq ?_) (Runs.refl _), ?_⟩
  · rw [hsmall, Cpu.get_zero]
  · constructor
    · exact hframe.keep rfl rfl rfl
    · exact hfirst
    · exact hsecond
    · exact congrArg BitVec.toNat hcounter
    · rfl
    · rfl

/-- What a pass does before the branch. -/
theorem Counted.body (h : Counted m n j (j + 1) loop c) :
    ∃ c', Runs exec fib c [10, 11, 12] c' ∧ Counted m n j (j + 2) 13 c' := by
  obtain ⟨hframe, hfirst, hsecond, hcounter, hargument, hpc⟩ := h
  obtain ⟨regs, mem, pc⟩ := c
  obtain rfl : pc = 10 := hpc
  refine ⟨_, Runs.next rfl rfl (Runs.next rfl exec_move (Runs.next rfl exec_move (Runs.refl _))), ?_⟩
  constructor
  · exact hframe.keep rfl rfl rfl
  · exact hsecond
  · apply (congrArg₂ (· + ·) hsecond hfirst).trans
    rw [← BitVec.ofNat_add, Nat.add_comm, ← Nat.fib_add_two]
  · exact hcounter
  · exact hargument
  · rfl

theorem Counted.last (h : Counted m n j (j + 2) 13 c) (hn : n = j + 3) :
    ∃ c', Runs exec fib c [13] c' ∧ Frame m c' ∧ c'.get .s1 = BitVec.ofNat 32 (Nat.fib n) ∧ c'.pc = done := by
  obtain ⟨hframe, -, hsecond, hcounter, hargument, hpc⟩ := h
  obtain ⟨regs, mem, pc⟩ := c
  obtain rfl : pc = 13 := hpc
  refine ⟨_, Runs.next rfl (exec_beq_of_eq ?_) (Runs.refl _), hframe.keep rfl rfl rfl, ?_, rfl⟩
  · apply BitVec.eq_of_toNat_eq
    rw [hcounter, hargument, hn]
  · rw [hn]
    exact hsecond

/-- Any other pass; the counter is increased without an overflow below 2^31. -/
theorem Counted.again (h : Counted m n j (j + 2) 13 c) (hj : j + 3 < n) (hn : n < 2 ^ 31) :
    ∃ c', Runs exec fib c [13, 14, 15] c' ∧ Counted m n (j + 1) (j + 2) loop c' := by
  obtain ⟨hframe, hfirst, hsecond, hcounter, hargument, hpc⟩ := h
  have hsum : (c.get .t0).toNat + ((1 : BitVec 16).signExtend 32).toNat = j + 1 + 3 := by
    rw [hcounter]
    rfl
  obtain ⟨regs, mem, pc⟩ := c
  obtain rfl : pc = 13 := hpc
  refine ⟨_, Runs.next rfl (exec_beq_of_ne ?_) (Runs.next rfl (exec_addi_of_lt ?_) (Runs.next rfl rfl (Runs.refl _))),
    ?_⟩
  · intro heq
    have hnat := congrArg BitVec.toNat heq
    rw [hcounter, hargument] at hnat
    omega
  · apply lt_of_eq_of_lt hsum
    omega
  · constructor
    · exact hframe.keep rfl rfl rfl
    · exact hfirst
    · exact hsecond
    · apply (BitVec.toNat_add _ _).trans
      apply (congrArg (· % 2 ^ 32) hsum).trans
      exact Nat.mod_eq_of_lt (by omega)
    · exact hargument
    · rfl

/-- **The loop.** From pair to pair up to the number asked for. -/
theorem Counted.loop (h : Counted m n j (j + 1) Fib.loop c) (hj : j + 3 ≤ n) (hn : n < 2 ^ 31) :
    ∃ pcs c', Runs exec fib c pcs c' ∧ Frame m c' ∧ c'.get .s1 = BitVec.ofNat 32 (Nat.fib n) ∧ c'.pc = done := by
  induction hleft : n - (j + 3) generalizing j c with
  | zero =>
      obtain ⟨c₁, hbody, hnext⟩ := h.body
      obtain ⟨c₂, hlast, hrest⟩ := hnext.last (by omega)
      exact ⟨_, c₂, hbody.trans hlast, hrest⟩
  | succ k ih =>
      obtain ⟨c₁, hbody, hnext⟩ := h.body
      obtain ⟨c₂, hagain, hcounted⟩ := hnext.again (by omega) hn
      obtain ⟨pcs, c₃, hruns, hrest⟩ := ih hcounted (by omega) (by omega)
      exact ⟨_, c₃, (hbody.trans hagain).trans hruns, hrest⟩

end

/-! ## The routine -/

/-- What `fib` makes of `n`. -/
def value (n : Nat) : Nat := if n < 3 ∨ 2 ^ 31 ≤ n then 1 else Nat.fib n

/-- `fib` returns for every argument and keeps to the calling convention. -/
theorem fib_returns (m : Caller) :
    ∃ pcs c, Returns exec fib m.state.call pcs (m.state.get .ra) c ∧ Restored m.state c ∧
      c.get .v0 = BitVec.ofNat 32 (value (m.state.get .a0).toNat) := by
  obtain ⟨c₁, hpush, hframe, hargument, hpc⟩ := m.push
  obtain ⟨c₂, hinit, hc₂, hkeep⟩ := init hframe hpc
  rw [hargument] at hkeep
  have hdone : ∃ pcs c₃, Runs exec fib c₂ pcs c₃ ∧ Frame m.state c₃ ∧
      c₃.get .s1 = BitVec.ofNat 32 (value (m.state.get .a0).toNat) ∧ c₃.pc = done := by
    by_cases hsmall : (m.state.get .a0).slt 3 = true
    · rw [value, if_pos (slt_three.1 hsmall)]
      rw [← hkeep] at hsmall
      obtain ⟨c₃, hspecial, hrest⟩ := hc₂.special hsmall
      exact ⟨_, c₃, hspecial, hrest⟩
    · have hrange := mt slt_three.2 hsmall
      rw [value, if_neg hrange]
      rw [← hkeep] at hsmall
      obtain ⟨c₃, hcommon, hcounted⟩ := hc₂.common hsmall
      rw [hkeep] at hcounted
      obtain ⟨pcs, c₄, hloop, hrest⟩ := hcounted.loop (by omega) (by omega)
      exact ⟨_, c₄, hcommon.trans hloop, hrest⟩
  obtain ⟨pcs, c₃, hruns, hframe₃, hnumber, hpc₃⟩ := hdone
  obtain ⟨pcs', c₄, hpop, hrestored, hresult⟩ := m.pop hframe₃ hpc₃
  refine ⟨_, c₄, ((hpush.trans hinit).trans hruns).returns hpop, hrestored, ?_⟩
  rw [hresult, hnumber]

/-- `fib` called by `m` returns `v`. -/
def Gives (m : Caller) (v : Nat) : Prop :=
  ∃ pcs c, Returns exec fib m.state.call pcs (m.state.get .ra) c ∧ (c.get .v0).toNat = v

theorem gives_iff {m : Caller} {v : Nat} : Gives m v ↔ value (m.state.get .a0).toNat % 2 ^ 32 = v := by
  obtain ⟨pcs, c, hreturns, -, hvalue⟩ := fib_returns m
  constructor
  · rintro ⟨pcs', c', hreturns', rfl⟩
    obtain ⟨-, rfl⟩ := hreturns'.unique hreturns
    rw [hvalue, BitVec.toNat_ofNat]
  · rintro rfl
    refine ⟨pcs, c, hreturns, ?_⟩
    rw [hvalue, BitVec.toNat_ofNat]

/-- No Fibonacci number of a 32-bit argument above 2 is 1 modulo 2^32: the numbers come round to 1 later than that. -/
theorem fib_mod_ne_one {n : Nat} (hlow : 2 < n) (hhigh : n < 2 ^ 32) : Nat.fib n % 2 ^ 32 ≠ 1 := by
  intro h
  obtain hn | hn | hn := eq_of_fib_modEq_one (j := 30) (lt_trans hhigh (by decide)) h
  · omega
  · omega
  · omega

/-- **The arguments for which `fib` returns the Fibonacci number.** Those below 2^31. -/
theorem gives_fib_iff (m : Caller) (hpos : 0 < (m.state.get .a0).toNat) :
    Gives m (Nat.fib (m.state.get .a0).toNat % 2 ^ 32) ↔ (m.state.get .a0).toNat < 2 ^ 31 := by
  rw [gives_iff, value]
  split
  case isTrue h =>
    constructor
    · intro hone
      by_contra hlarge
      exact fib_mod_ne_one (by omega) (m.state.get .a0).isLt hone.symm
    · intro hlt
      obtain hn | hn : (m.state.get .a0).toNat = 1 ∨ (m.state.get .a0).toNat = 2 := by omega
      · rw [hn, Nat.fib_one]
      · rw [hn, Nat.fib_two]
  case isFalse h =>
    constructor
    · intro _
      omega
    · intro _
      rfl

/-- A caller with its stack at 0x7fff0000; the other registers are zero. -/
def calling (n : U32) : Caller where
  state :=
    { regs := (Regs.clear.set .sp 0x7fff0000).set .a0 n
      mem := fun _ => 0
      pc := 0 }
  aligned := by
    show (0x7fff0000 : U32).toNat % 4 = 0
    decide
  room := by
    show 12 ≤ (0x7fff0000 : U32).toNat
    decide
  user := by
    show (0x7fff0000 : U32).toNat < 2 ^ 31
    decide

theorem gives_fib_ten : Gives (calling 10) 55 ↔ 10 < 2 ^ 31 := gives_fib_iff (calling 10) (by decide)

/-- For 2^31 it is 1 that comes back, not the number. -/
theorem not_gives_fib_half : ¬ Gives (calling 0x80000000) (Nat.fib (2 ^ 31) % 2 ^ 32) := by
  have harg : ((calling 0x80000000).state.get .a0).toNat = 2 ^ 31 := rfl
  rw [gives_iff, value, harg, if_pos (Or.inr le_rfl)]
  intro h
  exact fib_mod_ne_one (by decide) (by decide) h.symm

end SysSnippets.Asm.Fib
