import SysSnippets.Lib.Cpu

/-!
# RISC-V, RV32

The instructions of short leaf routines that work in registers. Branch targets are places in the routine; `jalr`
is there without its link, as `ret` uses it. `li`, `mv` and `ret` are what the assembler makes of them.
-/

namespace SysSnippets.Lib.Riscv

inductive Reg
  | zero | ra | sp | gp | tp | t0 | t1 | t2 | s0 | s1
  | a0 | a1 | a2 | a3 | a4 | a5 | a6 | a7
  | s2 | s3 | s4 | s5 | s6 | s7 | s8 | s9 | s10 | s11
  | t3 | t4 | t5 | t6
  deriving DecidableEq

inductive Instr
  | addi (rd rs : Reg) (imm : BitVec 12)
  | add (rd rs1 rs2 : Reg)
  | mul (rd rs1 rs2 : Reg)
  | bgeu (rs1 rs2 : Reg) (label : Nat)
  | jr (rs : Reg) (imm : BitVec 12)
  deriving DecidableEq

def li (rd : Reg) (imm : BitVec 12) : Instr := .addi rd .zero imm

def mv (rd rs : Reg) : Instr := .addi rd rs 0

def ret : Instr := .jr .ra 0

abbrev State := Cpu Reg .zero

def exec (i : Instr) (c : State) : Outcome State :=
  match i with
  | .addi rd rs imm => .goes (c.put rd (c.get rs + imm.signExtend 32))
  | .add rd rs1 rs2 => .goes (c.put rd (c.get rs1 + c.get rs2))
  | .mul rd rs1 rs2 => .goes (c.put rd (c.get rs1 * c.get rs2))
  | .bgeu rs1 rs2 label => .goes (c.goto (if c.get rs2 ≤ c.get rs1 then label else c.pc + 1))
  -- the lowest bit of the target is cleared
  | .jr rs imm => .leaves ((c.get rs + imm.signExtend 32) &&& ~~~1)

theorem add_zero_imm (v : U32) : v + (0 : BitVec 12).signExtend 32 = v := by
  rw [show (0 : BitVec 12).signExtend 32 = 0#32 from rfl, BitVec.add_zero]

theorem exec_li {rd : Reg} {imm : BitVec 12} {c : State} :
    exec (li rd imm) c = .goes (c.put rd (imm.signExtend 32)) := by
  rw [li, exec, Cpu.get_zero_add]

theorem exec_mv {rd rs : Reg} {c : State} : exec (mv rd rs) c = .goes (c.put rd (c.get rs)) := by
  rw [mv, exec, add_zero_imm]

/-- Where `ret` goes. -/
def returnAddress (c : State) : U32 := c.get .ra &&& ~~~1

theorem exec_ret {c : State} : exec ret c = .leaves (returnAddress c) := by
  rw [ret, exec, add_zero_imm, returnAddress]

end SysSnippets.Lib.Riscv
