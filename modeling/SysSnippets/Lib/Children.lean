import Mathlib.Data.List.Basic

/-!
# The children of a process

What the kernel keeps of the children a process has forked: those that run, those that have ended and have not been
waited for, and whether a SIGCHLD is pending, which stays one signal however many children end.

* `fork`, `ends`, `reap` : what happens to them (`size_fork`, `size_ends`, `size_reap`);
* `Awaited` : no zombie is left unless a signal is pending or the handler runs (`awaited_ends`, `awaited_of_nil`).
-/

namespace SysSnippets.Lib

structure Children (π κ : Type*) where
  running : List π
  /-- children that have ended, with their statuses -/
  zombies : List (π × κ)
  pending : Bool
  deriving DecidableEq

namespace Children
variable {π κ : Type*}

def init : Children π κ := ⟨[], [], false⟩

/-- The entries of the process table. -/
def size (c : Children π κ) : Nat := c.running.length + c.zombies.length

/-- Whether an id is in the process table. -/
def inUse (c : Children π κ) (pid : π) : Prop := pid ∈ c.running ∨ pid ∈ c.zombies.map Prod.fst

instance [DecidableEq π] (c : Children π κ) (pid : π) : Decidable (c.inUse pid) := inferInstanceAs (Decidable (_ ∨ _))

def fork (c : Children π κ) (pid : π) : Children π κ := { c with running := pid :: c.running }

/-- A child ends; the signal is kept if it is caught. -/
def ends [DecidableEq π] (c : Children π κ) (caught : Bool) (pid : π) (status : κ) : Children π κ where
  running := c.running.erase pid
  zombies := c.zombies ++ [(pid, status)]
  pending := c.pending || caught

def deliver (c : Children π κ) : Children π κ := { c with pending := false }

/-- A zombie has been waited for. -/
def reap [DecidableEq π] [DecidableEq κ] (c : Children π κ) (z : π × κ) : Children π κ :=
  { c with zombies := c.zombies.erase z }

variable {c : Children π κ} {pid : π} {status : κ} {z : π × κ} {caught reaping : Bool}

@[simp] theorem size_init : (init : Children π κ).size = 0 := rfl

theorem size_fork (c : Children π κ) (pid : π) : (c.fork pid).size = c.size + 1 := Nat.add_right_comm ..

theorem size_ends [DecidableEq π] (h : pid ∈ c.running) : (c.ends caught pid status).size = c.size := by
  have hpos := List.length_pos_of_mem h
  change (c.running.erase pid).length + (c.zombies ++ [(pid, status)]).length = c.running.length + c.zombies.length
  rw [List.length_erase_of_mem h, List.length_append, List.length_singleton]
  omega

theorem size_reap [DecidableEq π] [DecidableEq κ] (h : z ∈ c.zombies) : (c.reap z).size + 1 = c.size := by
  have hpos := List.length_pos_of_mem h
  change c.running.length + (c.zombies.erase z).length + 1 = c.running.length + c.zombies.length
  rw [List.length_erase_of_mem h]
  omega

theorem count_ends [DecidableEq π] [DecidableEq κ] (c : Children π κ) : (c.ends caught pid status).zombies.count z =
    c.zombies.count z + if (pid, status) = z then 1 else 0 := by
  change (c.zombies ++ [(pid, status)]).count z = _
  rw [List.count_append, List.count_singleton]
  simp only [beq_iff_eq]

theorem count_reap [DecidableEq π] [DecidableEq κ] {z' : π × κ} (h : z' ∈ c.zombies) :
    (c.reap z').zombies.count z + (if z' = z then 1 else 0) = c.zombies.count z := by
  change (c.zombies.erase z').count z + _ = _
  rw [List.count_erase]
  split_ifs with heq heq' heq'
  · have hpos := List.count_pos_iff.2 h
    rw [heq'] at hpos
    omega
  · exact absurd (beq_iff_eq.1 heq) heq'
  · exact absurd (beq_iff_eq.2 heq') heq
  · rfl

/-- Whoever has ended will be waited for. -/
def Awaited (c : Children π κ) (reaping : Bool) : Prop := c.zombies = [] ∨ c.pending = true ∨ reaping = true

theorem awaited_init : (init : Children π κ).Awaited reaping := Or.inl rfl

theorem awaited_ends [DecidableEq π] (c : Children π κ) (pid : π) (status : κ) : (c.ends true pid status).Awaited reaping :=
  Or.inr (Or.inl (Bool.or_true c.pending))

theorem awaited_of_reaping (c : Children π κ) : c.Awaited true := Or.inr (Or.inr rfl)

/-- The handler may return when there is nobody left to wait for, whoever ends from then on. -/
theorem awaited_of_nil (h : c.zombies = []) : c.Awaited reaping := Or.inl h

end Children

end SysSnippets.Lib
