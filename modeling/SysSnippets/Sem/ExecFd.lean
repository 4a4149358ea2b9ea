import SysSnippets.Lib.Machine
import SysSnippets.Lib.Text
import Mathlib.Logic.Function.Basic

/-!
# Two processes at one descriptor

After the fork of `exec_fd`, child and parent read from the same descriptor, each in a loop of `CYCLE` rounds between
`sem_wait` of one semaphore and `sem_post` of the other.

* `ExecFd` : the semaphores, the file offset and the two loops; `ExecFd.step` : one call of a process;
* `Stage`, `ExecFd.atStage` : the states of a round;
* `step_owner`, `step_other` : in a stage one process goes on, to the next stage, and the other waits;
* `alternates` : the reads alternate, the child first, and nobody waits for ever.
-/

namespace SysSnippets.Sem
open SysSnippets.Lib

inductive Proc
  | child
  | parent
  deriving DecidableEq

inductive Lock
  | a
  | b
  deriving DecidableEq

/-- The semaphore that a process waits for. -/
def Proc.waits : Proc → Lock
  | .child => .a
  | .parent => .b

/-- The semaphore that it posts. -/
def Proc.posts : Proc → Lock
  | .child => .b
  | .parent => .a

/-- The next call in a round. -/
inductive Pc
  | wait
  | read
  | post
  deriving DecidableEq

/-- A loop: its counter, and the place in the round. -/
structure Loop where
  i : Nat
  pc : Pc
  deriving DecidableEq

@[ext]
structure ExecFd where
  lock : Lock → Nat
  /-- of the shared descriptor -/
  offset : Nat
  proc : Proc → Loop

/-- A `read` of one byte. -/
structure Read where
  reader : Proc
  offset : Nat
  c : Byte
  deriving DecidableEq

namespace ExecFd

/-- After the fork. -/
def start : ExecFd where
  lock
    | .a => 1
    | .b => 0
  offset := 0
  proc _ := ⟨0, .wait⟩

def goto (s : ExecFd) (p : Proc) (l : Loop) : ExecFd := { s with proc := Function.update s.proc p l }

/-- The next call of a process; `sem_wait` waits while its semaphore is 0. -/
def step (CYCLE : Nat) (file : List Byte) (s : ExecFd) (p : Proc) : ExecFd × List Read :=
  let l := s.proc p
  if l.i = CYCLE then (s, [])
  else
    match l.pc with
    | .wait =>
        if s.lock p.waits = 0 then (s, [])
        else ({ s with lock := Function.update s.lock p.waits (s.lock p.waits - 1) }.goto p { l with pc := .read }, [])
    | .read =>
        match file[s.offset]? with
        | some c => ({ s with offset := s.offset + 1 }.goto p { l with pc := .post }, [⟨p, s.offset, c⟩])
        | none => (s.goto p { l with pc := .post }, [])
    | .post =>
        ({ s with lock := Function.update s.lock p.posts (s.lock p.posts + 1) }.goto p ⟨l.i + 1, .wait⟩, [])

end ExecFd

/-- The two processes, in any order. -/
def execFd (CYCLE : Nat) (file : List Byte) : Machine ExecFd Proc Read := ⟨ExecFd.step CYCLE file⟩

/-! ## Stages -/

/-- The stages of a round: first of the child's, then of the parent's. -/
structure Stage where
  owner : Proc
  pc : Pc
  deriving DecidableEq

namespace ExecFd

/-- The state in a stage of round `i`. -/
def atStage (i : Nat) (g : Stage) : ExecFd where
  lock l := if g.pc = .wait ∧ l = g.owner.waits then 1 else 0
  offset := 2 * i + (if g.owner = .parent then 1 else 0) + (if g.pc = .post then 1 else 0)
  proc p :=
    if p = g.owner then ⟨i, g.pc⟩
    else if p = .child then ⟨i + 1, .wait⟩ else ⟨i, .wait⟩

/-- The stage after a stage. -/
def next (i : Nat) (g : Stage) : ExecFd :=
  match g.owner, g.pc with
  | p, .wait => atStage i ⟨p, .read⟩
  | p, .read => atStage i ⟨p, .post⟩
  | .child, .post => atStage i ⟨.parent, .wait⟩
  | .parent, .post => atStage (i + 1) ⟨.child, .wait⟩

/-- What is read in a stage. -/
def reads (file : List Byte) (i : Nat) (g : Stage) : List Read :=
  if g.pc = .read then (file[(atStage i g).offset]?).toList.map fun c => ⟨g.owner, (atStage i g).offset, c⟩ else []

theorem start_eq : start = atStage 0 ⟨.child, .wait⟩ := by
  apply ExecFd.ext
  · funext l
    cases l <;> rfl
  · rfl
  · funext p
    cases p <;> rfl

variable {CYCLE i : Nat} {file : List Byte}

theorem atStage_offset_lt (hfile : 2 * CYCLE ≤ file.length) (hi : i < CYCLE) (owner : Proc) :
    (atStage i ⟨owner, .read⟩).offset < file.length := by
  change 2 * i + (if owner = .parent then 1 else 0) + 0 < _
  split_ifs <;> omega

/-- **Who does not own the stage waits.** -/
theorem step_other {g : Stage} {p : Proc} (hp : p ≠ g.owner) : step CYCLE file (atStage i g) p = (atStage i g, []) := by
  obtain ⟨owner, pc⟩ := g
  have hwait : ((atStage i ⟨owner, pc⟩).proc p).pc = .wait := by
    change (if p = owner then _ else _ : Loop).pc = _
    rw [if_neg hp]
    split_ifs <;> rfl
  have hlock : (atStage i ⟨owner, pc⟩).lock p.waits = 0 := by
    change (if _ ∧ p.waits = owner.waits then _ else _) = _
    rw [if_neg]
    rintro ⟨-, hsame⟩
    cases p <;> cases owner <;> first | exact hp rfl | cases hsame
  unfold step
  dsimp only
  rw [hwait]
  dsimp only
  rw [if_pos hlock, ite_self]

/-- **Who owns the stage goes on.** -/
theorem step_owner (hfile : 2 * CYCLE ≤ file.length) (hi : i < CYCLE) (g : Stage) :
    step CYCLE file (atStage i g) g.owner = (next i g, reads file i g) := by
  obtain ⟨owner, pc⟩ := g
  have hloop : (atStage i ⟨owner, pc⟩).proc owner = ⟨i, pc⟩ := if_pos rfl
  have hround : ¬i = CYCLE := by omega
  unfold step
  dsimp only
  rw [hloop]
  dsimp only
  rw [if_neg hround]
  cases pc with
  | wait =>
      have hlock : (atStage i ⟨owner, .wait⟩).lock owner.waits = 1 := if_pos ⟨rfl, rfl⟩
      dsimp only
      rw [hlock, if_neg Nat.one_ne_zero]
      refine Prod.ext (ExecFd.ext ?_ rfl ?_) rfl
      · funext l
        cases owner <;> cases l <;> rfl
      · funext p
        cases owner <;> cases p <;> rfl
  | read =>
      have hc := List.getElem?_eq_getElem (atStage_offset_lt hfile hi owner)
      unfold reads
      rw [if_pos rfl, hc]
      refine Prod.ext (ExecFd.ext ?_ rfl ?_) rfl
      · funext l
        cases owner <;> cases l <;> rfl
      · funext p
        cases owner <;> cases p <;> rfl
  | post =>
      refine Prod.ext (ExecFd.ext ?_ ?_ ?_) rfl
      · funext l
        cases owner <;> cases l <;> rfl
      · cases owner <;> rfl
      · funext p
        cases owner <;> cases p <;> rfl

/-- In the stages of a round that is still to be made, or at the end. -/
def InRound (CYCLE i : Nat) (g : Stage) : Prop := i < CYCLE ∨ i = CYCLE ∧ g = ⟨.child, .wait⟩

/-- The reads so far are of the bytes before the offset, in turn. -/
def InTurn (file : List Byte) (rs : List Read) (offset : Nat) : Prop :=
  rs.length = offset ∧ ∀ k r, rs[k]? = some r →
    r.offset = k ∧ (r.reader = .child ↔ k % 2 = 0) ∧ file[k]? = some r.c

/-- How often a process has come behind its `read`. -/
def made (s : ExecFd) (p : Proc) : Nat := (s.proc p).i + if (s.proc p).pc = .post then 1 else 0

/-- The reads of a process. -/
def readsBy (p : Proc) (rs : List Read) : Nat := rs.countP fun r => r.reader = p

structure Inv (CYCLE : Nat) (file : List Byte) (rs : List Read) (s : ExecFd) : Prop where
  stage : ∃ i g, s = atStage i g ∧ InRound CYCLE i g
  turn : InTurn file rs s.offset
  made : ∀ p, readsBy p rs = s.made p

theorem inv_start (CYCLE : Nat) (file : List Byte) : start.Inv CYCLE file [] where
  stage := ⟨0, ⟨.child, .wait⟩, start_eq, (Nat.eq_zero_or_pos CYCLE).elim (fun h => Or.inr ⟨h.symm, rfl⟩) Or.inl⟩
  turn := ⟨rfl, fun _ _ h => nomatch h⟩
  made _ := rfl

theorem next_stage (hi : i < CYCLE) (g : Stage) : ∃ i' g', next i g = atStage i' g' ∧ InRound CYCLE i' g' := by
  obtain ⟨owner, pc⟩ := g
  cases pc with
  | wait => exact ⟨i, ⟨owner, .read⟩, by cases owner <;> rfl, Or.inl hi⟩
  | read => exact ⟨i, ⟨owner, .post⟩, by cases owner <;> rfl, Or.inl hi⟩
  | post =>
      cases owner with
      | child => exact ⟨i, ⟨.parent, .wait⟩, rfl, Or.inl hi⟩
      | parent =>
          refine ⟨i + 1, ⟨.child, .wait⟩, rfl, ?_⟩
          rcases Nat.lt_or_eq_of_le hi with hlt | heq
          · exact Or.inl hlt
          · exact Or.inr ⟨heq, rfl⟩

theorem InTurn.snoc {rs : List Read} {offset : Nat} (h : InTurn file rs offset) {r : Read} (hoffset : r.offset = offset)
    (hreader : r.reader = .child ↔ offset % 2 = 0) (hc : file[offset]? = some r.c) :
    InTurn file (rs ++ [r]) (offset + 1) := by
  obtain ⟨hlength, hall⟩ := h
  refine ⟨by rw [List.length_append, hlength]; rfl, fun k r' hr' => ?_⟩
  rcases Nat.lt_trichotomy k rs.length with hlt | rfl | hgt
  · rw [List.getElem?_append_left hlt] at hr'
    exact hall k r' hr'
  · rw [List.getElem?_concat_length] at hr'
    cases hr'
    rw [hlength]
    exact ⟨hoffset, hreader, hc⟩
  · rw [List.getElem?_eq_none (by rw [List.length_append, List.length_singleton]; omega)] at hr'
    cases hr'

/-- In a stage the process that owns it reads the next byte, or nothing is read. -/
theorem InTurn.next {rs : List Read} (hfile : 2 * CYCLE ≤ file.length) (hi : i < CYCLE) {g : Stage}
    (h : InTurn file rs (atStage i g).offset) : InTurn file (rs ++ reads file i g) (next i g).offset := by
  obtain ⟨owner, pc⟩ := g
  cases pc with
  | wait =>
      change InTurn file (rs ++ []) _
      rw [List.append_nil]
      cases owner <;> exact h
  | read =>
      have hc := List.getElem?_eq_getElem (atStage_offset_lt hfile hi owner)
      have hnext : (ExecFd.next i ⟨owner, .read⟩).offset = (atStage i ⟨owner, .read⟩).offset + 1 := by
        cases owner <;> rfl
      have hreader : owner = .child ↔ (atStage i ⟨owner, .read⟩).offset % 2 = 0 := by
        change _ ↔ (2 * i + (if owner = .parent then 1 else 0) + 0) % 2 = 0
        cases owner with
        | child => exact iff_of_true rfl (by rw [if_neg Proc.noConfusion]; omega)
        | parent => exact iff_of_false Proc.noConfusion (by rw [if_pos rfl]; omega)
      unfold reads
      rw [if_pos rfl, hc, hnext]
      exact h.snoc rfl hreader hc
  | post =>
      change InTurn file (rs ++ []) _
      rw [List.append_nil]
      cases owner <;> exact h

/-- In its stage `read`, and in no other, a process makes a read. -/
theorem made_next (hfile : 2 * CYCLE ≤ file.length) (hi : i < CYCLE) (g : Stage) (p : Proc) :
    made (next i g) p = made (atStage i g) p + readsBy p (reads file i g) := by
  obtain ⟨owner, pc⟩ := g
  cases pc with
  | wait => cases owner <;> cases p <;> rfl
  | read =>
      have hc := List.getElem?_eq_getElem (atStage_offset_lt hfile hi owner)
      unfold reads
      rw [if_pos rfl, hc]
      cases owner <;> cases p <;> rfl
  | post => cases owner <;> cases p <;> rfl

theorem Inv.step {rs : List Read} {s : ExecFd} (hfile : 2 * CYCLE ≤ file.length) (h : s.Inv CYCLE file rs) (p : Proc) :
    (s.step CYCLE file p).1.Inv CYCLE file (rs ++ (s.step CYCLE file p).2) := by
  obtain ⟨i, g, rfl, hround⟩ := h.stage
  by_cases hp : p = g.owner
  · rcases hround with hi | ⟨rfl, rfl⟩
    · rw [hp, step_owner hfile hi]
      refine ⟨next_stage hi g, h.turn.next hfile hi, fun p => ?_⟩
      rw [made_next hfile hi, ← h.made p]
      exact List.countP_append
    · -- the loops are over
      have hdone : ExecFd.step i file (atStage i ⟨.child, .wait⟩) p = (atStage i ⟨.child, .wait⟩, []) := by
        rw [hp]
        exact if_pos rfl
      rw [hdone, List.append_nil]
      exact h
  · rw [step_other hp, List.append_nil]
    exact h

theorem Inv.run (hfile : 2 * CYCLE ≤ file.length) (schedule : List Proc) :
    ((execFd CYCLE file).run start schedule).1.Inv CYCLE file ((execFd CYCLE file).run start schedule).2 :=
  Machine.run_inv (m := execFd CYCLE file) (I := fun rs s => s.Inv CYCLE file rs)
    (fun _ _ p h => h.step hfile p) schedule [] start (inv_start CYCLE file)

theorem next_ne (i : Nat) (g : Stage) : next i g ≠ atStage i g := by
  intro heq
  have hloop := congrArg (fun s => s.proc g.owner) heq
  obtain ⟨owner, pc⟩ := g
  cases owner <;> cases pc <;> cases hloop

/-- **Nobody waits for ever.** -/
theorem Inv.progress {rs : List Read} {s : ExecFd} (hfile : 2 * CYCLE ≤ file.length) (h : s.Inv CYCLE file rs)
    (hleft : ∃ p, (s.proc p).i < CYCLE) : ∃ p, (s.step CYCLE file p).1 ≠ s := by
  obtain ⟨i, g, rfl, hi | ⟨rfl, rfl⟩⟩ := h.stage
  · refine ⟨g.owner, ?_⟩
    rw [step_owner hfile hi]
    exact next_ne i g
  · obtain ⟨p, hp⟩ := hleft
    cases p with
    | child => exact absurd hp (Nat.lt_irrefl i)
    | parent => exact absurd hp (Nat.lt_irrefl i)

end ExecFd

/-- **Strict alternation.** In every run the k-th read is of the byte at offset k, by the child if k is even and by the
parent if k is odd; each process makes one read in each of its rounds; and while a process has rounds left, one of the two
can go on. -/
theorem alternates (CYCLE : Nat) (file : List Byte) (hfile : 2 * CYCLE ≤ file.length) (schedule : List Proc) :
    (∀ k r, ((execFd CYCLE file).run .start schedule).2[k]? = some r →
      r.offset = k ∧ (r.reader = .child ↔ k % 2 = 0) ∧ file[k]? = some r.c) ∧
    (∀ p, ExecFd.readsBy p ((execFd CYCLE file).run .start schedule).2 =
      ((execFd CYCLE file).run .start schedule).1.made p) ∧
    ((∃ p, (((execFd CYCLE file).run .start schedule).1.proc p).i < CYCLE) →
      ∃ p, ((execFd CYCLE file).step ((execFd CYCLE file).run .start schedule).1 p).1 ≠
        ((execFd CYCLE file).run .start schedule).1) := by
  have hinv := ExecFd.Inv.run hfile schedule
  exact ⟨hinv.turn.2, hinv.made, hinv.progress hfile⟩

theorem alternates_once :
    (∀ k r, ((execFd 1 [ch 'a', ch 'b']).run .start [.parent, .child, .child]).2[k]? = some r →
      r.offset = k ∧ (r.reader = .child ↔ k % 2 = 0) ∧ [ch 'a', ch 'b'][k]? = some r.c) ∧
    (∀ p, ExecFd.readsBy p ((execFd 1 [ch 'a', ch 'b']).run .start [.parent, .child, .child]).2 =
      ((execFd 1 [ch 'a', ch 'b']).run .start [.parent, .child, .child]).1.made p) ∧
    ∃ p, ((execFd 1 [ch 'a', ch 'b']).step ((execFd 1 [ch 'a', ch 'b']).run .start [.parent, .child, .child]).1 p).1 ≠
      ((execFd 1 [ch 'a', ch 'b']).run .start [.parent, .child, .child]).1 := by
  obtain ⟨hreads, hmade, hprogress⟩ := alternates 1 [ch 'a', ch 'b'] (by decide) [.parent, .child, .child]
  exact ⟨hreads, hmade, hprogress ⟨.child, by decide⟩⟩

end SysSnippets.Sem
