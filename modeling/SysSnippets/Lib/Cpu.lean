import SysSnippets.Lib.Loop
import SysSnippets.Lib.Text

/-!
# Routines on a 32-bit processor

The registers are a type `ρ`, one of which, `z`, is wired to zero. A routine is a list of instructions and the
program counter a place in it; an instruction set is given by what an instruction does (`Outcome`).

* `Regs.set` : a register is written, the others stay (`val_set_self`, `val_set_of_ne`);
* `Runs exec code c pcs c'` : the instructions at `pcs` are fetched, one after the other, and get from `c` to `c'`;
* `Returns exec code c pcs a c'` : after the instructions at `pcs` the routine goes on at address `a`, outside of it.
-/

namespace SysSnippets.Lib

structure Regs (ρ : Type*) (z : ρ) where
  val : ρ → U32
  val_zero : val z = 0

namespace Regs
variable {ρ : Type*} {z : ρ}

/-- All registers are zero. -/
def clear : Regs ρ z := ⟨fun _ => 0, rfl⟩

variable [DecidableEq ρ] {d e : ρ} {v : U32} {r : Regs ρ z}

/-- `v` is written to `d`; the zero register does not take it. -/
def set (r : Regs ρ z) (d : ρ) (v : U32) : Regs ρ z where
  val e := if e = d ∧ d ≠ z then v else r.val e
  val_zero := by
    rw [if_neg fun h => h.2 h.1.symm]
    exact r.val_zero

@[simp] theorem val_set_self (h : d ≠ z) : (r.set d v).val d = v := if_pos ⟨rfl, h⟩

@[simp] theorem val_set_of_ne (h : e ≠ d) : (r.set d v).val e = r.val e := if_neg fun heq => h heq.1

end Regs

/-- Registers, memory by its aligned words, and the place of the next instruction in the routine. -/
structure Cpu (ρ : Type*) (z : ρ) where
  regs : Regs ρ z
  mem : U32 → U32
  pc : Nat

inductive Outcome (σ : Type*)
  /-- the routine goes on -/
  | goes (s : σ)
  /-- control goes to the address `a` -/
  | leaves (a : U32)
  /-- the instruction raises an exception -/
  | traps

inductive Event (σ : Type*)
  | fetched (pc : Nat)
  | left (a : U32) (s : σ)
  | trapped
  /-- there is no instruction at the program counter -/
  | ranOff

namespace Cpu
variable {ρ : Type*} {z : ρ} {ι : Type*}

def get (c : Cpu ρ z) (r : ρ) : U32 := c.regs.val r

/-- The next instruction is at `pc`. -/
def goto (c : Cpu ρ z) (pc : Nat) : Cpu ρ z := { c with pc := pc }

/-- The routine is called. -/
def call (c : Cpu ρ z) : Cpu ρ z := c.goto 0

/-- A register is written, and on to the next instruction. -/
def put [DecidableEq ρ] (c : Cpu ρ z) (d : ρ) (v : U32) : Cpu ρ z :=
  { c with regs := c.regs.set d v, pc := c.pc + 1 }

/-- A word is stored, and on to the next instruction. -/
def store (c : Cpu ρ z) (a v : U32) : Cpu ρ z := { c with mem := Function.update c.mem a v, pc := c.pc + 1 }

section
variable {c : Cpu ρ z} {d e : ρ} {a v : U32} {pc : Nat}

@[simp] theorem get_zero : c.get z = 0 := c.regs.val_zero
/-- The zero register in a sum, as pseudo-instructions use it. -/
theorem get_zero_add : c.get z + v = v := by
  rw [get_zero]
  exact BitVec.zero_add v

theorem add_get_zero : v + c.get z = v := by
  rw [get_zero]
  exact BitVec.add_zero v

@[simp] theorem get_goto : (c.goto pc).get e = c.get e := rfl
@[simp] theorem mem_goto : (c.goto pc).mem = c.mem := rfl
@[simp] theorem pc_goto : (c.goto pc).pc = pc := rfl
@[simp] theorem get_store : (c.store a v).get e = c.get e := rfl
@[simp] theorem mem_store : (c.store a v).mem = Function.update c.mem a v := rfl
@[simp] theorem pc_store : (c.store a v).pc = c.pc + 1 := rfl

variable [DecidableEq ρ]

@[simp] theorem get_put_self (h : d ≠ z) : (c.put d v).get d = v := Regs.val_set_self h
@[simp] theorem get_put_of_ne (h : e ≠ d) : (c.put d v).get e = c.get e := Regs.val_set_of_ne h
@[simp] theorem mem_put : (c.put d v).mem = c.mem := rfl
@[simp] theorem pc_put : (c.put d v).pc = c.pc + 1 := rfl

end

/-! ## Runs -/

/-- An instruction is fetched and done. -/
def routine (exec : ι → Cpu ρ z → Outcome (Cpu ρ z)) (code : List ι) : Loop (Cpu ρ z) (Event (Cpu ρ z)) where
  step c :=
    match code[c.pc]? with
    | none => ([.ranOff], none)
    | some i =>
        match exec i c with
        | .goes c' => ([.fetched c.pc], some c')
        | .leaves a => ([.fetched c.pc, .left a c], none)
        | .traps => ([.fetched c.pc, .trapped], none)

variable {exec : ι → Cpu ρ z → Outcome (Cpu ρ z)} {code : List ι} {i : ι} {c c' c'' : Cpu ρ z} {pcs pcs' : List Nat}
variable {a a' : U32}

theorem step_goes (hi : code[c.pc]? = some i) (h : exec i c = .goes c') :
    (routine exec code).step c = ([.fetched c.pc], some c') := by
  simp only [routine, hi, h]

theorem step_leaves (hi : code[c.pc]? = some i) (h : exec i c = .leaves a) :
    (routine exec code).step c = ([.fetched c.pc, .left a c], none) := by
  simp only [routine, hi, h]

def Runs (exec : ι → Cpu ρ z → Outcome (Cpu ρ z)) (code : List ι) (c : Cpu ρ z) (pcs : List Nat) (c' : Cpu ρ z) : Prop :=
  (routine exec code).Leads c (pcs.map .fetched) c'

/-- Nothing but these instructions is fetched, none of them traps, and the last one leaves the routine. -/
def Returns (exec : ι → Cpu ρ z → Outcome (Cpu ρ z)) (code : List ι) (c : Cpu ρ z) (pcs : List Nat) (a : U32)
    (c' : Cpu ρ z) : Prop :=
  (routine exec code).Ends c (pcs.map .fetched ++ [.left a c'])

theorem Runs.refl (c : Cpu ρ z) : Runs exec code c [] c := Loop.Leads.refl c

/-- The instruction at the program counter, then the rest. -/
theorem Runs.next (hi : code[c.pc]? = some i) (h : exec i c = .goes c') (hrest : Runs exec code c' pcs c'') :
    Runs exec code c (c.pc :: pcs) c'' :=
  Loop.Leads.next (step_goes hi h) hrest

theorem Runs.trans (h : Runs exec code c pcs c') (h' : Runs exec code c' pcs' c'') :
    Runs exec code c (pcs ++ pcs') c'' := by
  unfold Runs
  rw [List.map_append]
  exact Loop.Leads.trans h h'

theorem Returns.of_leaves (hi : code[c.pc]? = some i) (h : exec i c = .leaves a) :
    Returns exec code c [c.pc] a c :=
  Loop.Ends.left (step_leaves hi h)

theorem Runs.returns (h : Runs exec code c pcs c') (h' : Returns exec code c' pcs' a c'') :
    Returns exec code c (pcs ++ pcs') a c'' := by
  unfold Returns
  rw [List.map_append, List.append_assoc]
  exact Loop.Leads.ends h h'

/-- A routine returns in one way only. -/
theorem Returns.unique (h : Returns exec code c pcs a c') (h' : Returns exec code c pcs' a' c'') :
    a = a' ∧ c' = c'' := by
  have heq := Loop.Ends.unique h h'
  obtain ⟨-, hlast⟩ := List.append_inj' heq rfl
  cases hlast
  exact ⟨rfl, rfl⟩

/-- A routine that gets to a state with `J`, and from there always back to one, does not return. -/
theorem not_returns {J : Cpu ρ z → Prop} (h : ∀ c, J c → ∃ pcs c', pcs ≠ [] ∧ Runs exec code c pcs c' ∧ J c')
    (hruns : Runs exec code c pcs c') (hc' : J c') : ¬ Returns exec code c pcs' a c'' := by
  intro hreturns
  obtain ⟨t, -, hends⟩ := Loop.Ends.of_leads hreturns hruns
  apply Loop.not_ends _ hc' hends
  intro c hc
  obtain ⟨pcs, c', hne, hruns, hc'⟩ := h c hc
  exact ⟨_, c', by rwa [Ne, List.map_eq_nil_iff], hruns, hc'⟩

end Cpu

end SysSnippets.Lib
