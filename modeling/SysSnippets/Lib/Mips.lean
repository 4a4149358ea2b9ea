import SysSnippets.Lib.Cpu

/-!
# MIPS32

The instructions of short leaf routines. Branch and jump targets are places in the routine, as the assembler fills the
delay slots itself; `li` and `move` are what it makes of them. Words in memory are loaded and stored at aligned
addresses only.

* `exec_add_of_lt`, `exec_addi_of_lt`, `exec_addi_of_range` : no exception where the signed sum is in range;
* `exec_lw`, `exec_sw` : nor at an aligned address;
* `exec_beq_of_eq`, `exec_beq_of_ne` : the two ways of a branch.
-/

namespace SysSnippets.Lib.Mips

inductive Reg
  | zero | at_ | v0 | v1 | a0 | a1 | a2 | a3
  | t0 | t1 | t2 | t3 | t4 | t5 | t6 | t7
  | s0 | s1 | s2 | s3 | s4 | s5 | s6 | s7
  | t8 | t9 | k0 | k1 | gp | sp | fp | ra
  deriving DecidableEq

inductive Instr
  | addi (rt rs : Reg) (imm : BitVec 16)
  | addiu (rt rs : Reg) (imm : BitVec 16)
  | add (rd rs rt : Reg)
  | addu (rd rs rt : Reg)
  | andi (rt rs : Reg) (imm : BitVec 16)
  | srl (rd rt : Reg) (sa : BitVec 5)
  | slt (rd rs rt : Reg)
  | sw (rt : Reg) (offset : BitVec 16) (base : Reg)
  | lw (rt : Reg) (offset : BitVec 16) (base : Reg)
  | beq (rs rt : Reg) (label : Nat)
  | j (label : Nat)
  | jr (rs : Reg)
  deriving DecidableEq

def li (rt : Reg) (imm : BitVec 16) : Instr := .addiu rt .zero imm

def move (rd rs : Reg) : Instr := .addu rd rs .zero

abbrev State := Cpu Reg .zero

/-- The sum of `v` and `w`, or an exception when it leaves the signed range. -/
def addSigned (c : State) (rd : Reg) (v w : U32) : Outcome State :=
  if v.saddOverflow w then .traps else .goes (c.put rd (v + w))

def exec (i : Instr) (c : State) : Outcome State :=
  match i with
  | .addi rt rs imm => addSigned c rt (c.get rs) (imm.signExtend 32)
  | .addiu rt rs imm => .goes (c.put rt (c.get rs + imm.signExtend 32))
  | .add rd rs rt => addSigned c rd (c.get rs) (c.get rt)
  | .addu rd rs rt => .goes (c.put rd (c.get rs + c.get rt))
  | .andi rt rs imm => .goes (c.put rt (c.get rs &&& imm.setWidth 32))
  | .srl rd rt sa => .goes (c.put rd (c.get rt >>> sa.toNat))
  | .slt rd rs rt => .goes (c.put rd (if (c.get rs).slt (c.get rt) then 1 else 0))
  | .sw rt offset base =>
      if (c.get base + offset.signExtend 32).toNat % 4 = 0 then
        .goes (c.store (c.get base + offset.signExtend 32) (c.get rt))
      else .traps
  | .lw rt offset base =>
      if (c.get base + offset.signExtend 32).toNat % 4 = 0 then
        .goes (c.put rt (c.mem (c.get base + offset.signExtend 32)))
      else .traps
  | .beq rs rt label => .goes (c.goto (if c.get rs = c.get rt then label else c.pc + 1))
  | .j label => .goes (c.goto label)
  | .jr rs => .leaves (c.get rs)

variable {c : State} {rd rs rt base : Reg} {v w : U32} {imm offset : BitVec 16}

theorem addSigned_of_range (hlow : -2 ^ 31 ≤ v.toInt + w.toInt) (hhigh : v.toInt + w.toInt < 2 ^ 31) :
    addSigned c rd v w = .goes (c.put rd (v + w)) := by
  apply if_neg
  rw [BitVec.saddOverflow, Bool.or_eq_true, decide_eq_true_eq, decide_eq_true_eq]
  omega

/-- Words of the lower half whose sum is one as well. -/
theorem addSigned_of_lt (h : v.toNat + w.toNat < 2 ^ 31) : addSigned c rd v w = .goes (c.put rd (v + w)) := by
  have hv : v.toInt = v.toNat := BitVec.toInt_eq_toNat_of_lt (by omega)
  have hw : w.toInt = w.toNat := BitVec.toInt_eq_toNat_of_lt (by omega)
  apply addSigned_of_range
  · omega
  · omega

theorem exec_add_of_lt (h : (c.get rs).toNat + (c.get rt).toNat < 2 ^ 31) :
    exec (.add rd rs rt) c = .goes (c.put rd (c.get rs + c.get rt)) := addSigned_of_lt h

theorem exec_addi_of_lt (h : (c.get rs).toNat + (imm.signExtend 32).toNat < 2 ^ 31) :
    exec (.addi rt rs imm) c = .goes (c.put rt (c.get rs + imm.signExtend 32)) := addSigned_of_lt h

theorem exec_addi_of_range (hlow : -2 ^ 31 ≤ (c.get rs).toInt + (imm.signExtend 32).toInt)
    (hhigh : (c.get rs).toInt + (imm.signExtend 32).toInt < 2 ^ 31) :
    exec (.addi rt rs imm) c = .goes (c.put rt (c.get rs + imm.signExtend 32)) := addSigned_of_range hlow hhigh

theorem exec_sw (h : (c.get base + offset.signExtend 32).toNat % 4 = 0) :
    exec (.sw rt offset base) c = .goes (c.store (c.get base + offset.signExtend 32) (c.get rt)) := if_pos h

theorem exec_lw (h : (c.get base + offset.signExtend 32).toNat % 4 = 0) :
    exec (.lw rt offset base) c = .goes (c.put rt (c.mem (c.get base + offset.signExtend 32))) := if_pos h

theorem exec_beq_of_eq {label : Nat} (h : c.get rs = c.get rt) : exec (.beq rs rt label) c = .goes (c.goto label) := by
  rw [exec, if_pos h]

theorem exec_beq_of_ne {label : Nat} (h : c.get rs ≠ c.get rt) :
    exec (.beq rs rt label) c = .goes (c.goto (c.pc + 1)) := by
  rw [exec, if_neg h]

theorem exec_li : exec (li rt imm) c = .goes (c.put rt (imm.signExtend 32)) := by
  rw [li, exec, Cpu.get_zero_add]

theorem exec_move : exec (move rd rs) c = .goes (c.put rd (c.get rs)) := by
  rw [move, exec, Cpu.add_get_zero]

end SysSnippets.Lib.Mips
