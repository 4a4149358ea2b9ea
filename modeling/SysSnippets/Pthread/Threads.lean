import SysSnippets.Lib.Barrier
import SysSnippets.Lib.Machine
import Mathlib.Logic.Function.Basic
import Mathlib.Tactic.Push

/-!
# The threads of `p3`

Main creates `NUM` workers, notes their numbers in `pool`, joins the barrier `start` and then the workers; a worker looks
its number up and goes through `start` and `stop`. Nobody looks whether `pthread_create` has failed. A worker looks up
under the mutex, and `main` notes without it, which is a data race; here both are atomic.

* `P3`, `P3.mainStep`, `P3.workerStep` : the threads, one call at a time;
* `workerStep_cases` : a worker waits, or goes on to its next stage (`P3.Advance`);
* `mainStep_cases` : `main` waits, or makes one of its moves (`P3.MainMove`);
* `Pool.find_insert` : what the pool has after an insertion.
-/

namespace SysSnippets.Pthread
open SysSnippets.Lib Finset

/-- `pthread_t` -/
abbrev Tid := Nat

/-- `map<pthread_t, unsigned int>`, in the order of its keys. -/
abbrev Pool := List (Tid × Nat)

namespace Pool

def find (pool : Pool) (tid : Tid) : Option Nat := List.lookup tid pool

/-- `insert`: a key that is there stays as it is. -/
def insert : Pool → Tid × Nat → Pool
  | [], q => [q]
  | q' :: rest, q =>
      if q.1 < q'.1 then q :: q' :: rest else if q.1 = q'.1 then q' :: rest else q' :: insert rest q

end Pool

/-- Where `main` is. -/
inductive MainPc
  /-- at the test of the loop -/
  | create (i : Nat)
  /-- before `pool.insert` -/
  | insert (i : Nat) (tid : Tid)
  | start
  /-- in `pthread_barrier_wait(&start)` -/
  | startWait (gen : Nat)
  /-- threads left to join -/
  | join (left : Pool)
  | done
  deriving DecidableEq

/-- Where a worker is. -/
inductive Pc
  | unborn
  | lock
  | find
  | unlock
  | announce
  | start
  /-- in `pthread_barrier_wait(&start)` -/
  | startWait (gen : Nat)
  | released
  /-- at the test of the loop -/
  | yield (i : Nat)
  | stop
  /-- in `pthread_barrier_wait(&stop)` -/
  | stopWait (gen : Nat)
  | leave
  | exited
  deriving DecidableEq

structure Worker where
  pc : Pc
  tid : Tid
  id : Nat
  deriving DecidableEq

/-- What the threads print, and the calls on `pool`. -/
inductive Out
  /-- `pthread_create` fails -/
  | failed (i : Nat)
  | insert (i : Nat)
  /-- "MAIN: release barrier" -/
  | release
  | find (i : Nat) (id : Nat)
  /-- "ERROR: can't get index of thread" -/
  | noIndex (i : Nat)
  | waitStart (i id : Nat)
  | released (i id : Nat)
  | waitStop (i id : Nat)
  | left (i id : Nat)
  | join (tid : Tid)
  deriving DecidableEq

structure P3 where
  main : MainPc
  pool : Pool
  /-- the worker that holds the mutex -/
  mutex : Option Nat
  start : Barrier
  stop : Barrier
  worker : Nat → Worker

/-- Who goes on. `main` is told which thread id a `pthread_create` stores, and whether there is a thread. -/
inductive Turn
  | main (tid : Tid) (created : Bool)
  | worker (i : Nat)
  deriving DecidableEq

namespace P3

def init : P3 where
  main := .create 0
  pool := []
  mutex := none
  start := Barrier.init
  stop := Barrier.init
  worker _ := ⟨.unborn, 0, 0⟩

def goto (s : P3) (i : Nat) (w : Worker) : P3 := { s with worker := Function.update s.worker i w }

/-- A new worker, which has its id from the beginning. -/
def create (s : P3) (i : Nat) (tid : Tid) : P3 := { s with main := .insert i tid }.goto i ⟨.lock, tid, 0⟩

variable (NUM : Nat)

/-- `main`. A thread that has not been joined keeps its id; a `pthread_create` that fails leaves anything in `tid`. -/
def mainStep (s : P3) (tid : Tid) (created : Bool) : P3 × List Out :=
  match s.main with
  | .create i =>
      if i < NUM then
        if created then
          if ∀ j < i, (s.worker j).pc = .unborn ∨ (s.worker j).tid ≠ tid then (s.create i tid, []) else (s, [])
        else ({ s with main := .insert i tid }, [.failed i])
      else ({ s with main := .start }, [.release])
  | .insert i tid => ({ s with main := .create (i + 1), pool := s.pool.insert (tid, i) }, [.insert i])
  | .start => ({ s with main := .startWait s.start.gen, start := s.start.arrive (NUM + 1) }, [])
  | .startWait gen => if s.start.opened gen then ({ s with main := .join s.pool }, []) else (s, [])
  | .join (q :: rest) =>
      if ∀ i < NUM, (s.worker i).tid = q.1 → (s.worker i).pc = .exited then
        ({ s with main := .join rest }, [.join q.1])
      else (s, [])
  | .join [] => ({ s with main := .done }, [])
  | .done => (s, [])

/-- `worker` -/
def workerStep (s : P3) (i : Nat) : P3 × List Out :=
  let w := s.worker i
  match w.pc with
  | .unborn => (s, [])
  | .lock => if s.mutex = none then ({ s with mutex := some i }.goto i { w with pc := .find }, []) else (s, [])
  | .find =>
      match s.pool.find w.tid with
      | some id => (s.goto i { w with pc := .unlock, id := id }, [.find i id])
      | none => (s.goto i { w with pc := .unlock, id := 0 }, [.noIndex i])
  | .unlock => ({ s with mutex := none }.goto i { w with pc := .announce }, [])
  | .announce => (s.goto i { w with pc := .start }, [.waitStart i w.id])
  | .start =>
      ({ s with start := s.start.arrive (NUM + 1) }.goto i { w with pc := .startWait s.start.gen }, [])
  | .startWait gen => if s.start.opened gen then (s.goto i { w with pc := .released }, []) else (s, [])
  | .released => (s.goto i { w with pc := .yield 0 }, [.released i w.id])
  | .yield k =>
      if k < 3 then (s.goto i { w with pc := .yield (k + 1) }, [])
      else (s.goto i { w with pc := .stop }, [.waitStop i w.id])
  | .stop => ({ s with stop := s.stop.arrive NUM }.goto i { w with pc := .stopWait s.stop.gen }, [])
  | .stopWait gen => if s.stop.opened gen then (s.goto i { w with pc := .leave }, []) else (s, [])
  | .leave => (s.goto i { w with pc := .exited }, [.left i w.id])
  | .exited => (s, [])

def step (s : P3) : Turn → P3 × List Out
  | .main tid created => s.mainStep NUM tid created
  | .worker i => s.workerStep NUM i

end P3

/-- The threads, in any order. -/
def p3 (NUM : Nat) : Machine P3 Turn Out := ⟨P3.step NUM⟩

/-! ## What a step does -/

/-- How far a worker has got. -/
def Pc.stage : Pc → Nat
  | .unborn => 0
  | .lock => 1
  | .find => 2
  | .unlock => 3
  | .announce => 4
  | .start => 5
  | .startWait _ => 6
  | .released => 7
  | .yield k => 8 + min k 3
  | .stop => 12
  | .stopWait _ => 13
  | .leave => 14
  | .exited => 15

theorem Pc.stage_le (pc : Pc) : pc.stage ≤ 15 := by
  cases pc with
  | yield k =>
      change 8 + min k 3 ≤ 15
      omega
  | _ => exact Nat.le_of_ble_eq_true rfl

namespace P3
variable {NUM : Nat} {s : P3} {i : Nat}

/-- What a worker shows when it leaves a stage. -/
def shown (s : P3) (i : Nat) : List Out :=
  let w := s.worker i
  if w.pc.stage = 2 then
    [match s.pool.find w.tid with
      | some id => .find i id
      | none => .noIndex i]
  else if w.pc.stage = 4 then [.waitStart i w.id]
  else if w.pc.stage = 7 then [.released i w.id]
  else if w.pc.stage = 11 then [.waitStop i w.id]
  else if w.pc.stage = 14 then [.left i w.id]
  else []

/-- A worker goes on to its next stage, where it is `w`. -/
structure Advance (NUM : Nat) (s : P3) (i : Nat) (w : Worker) (s' : P3) : Prop where
  born : 1 ≤ (s.worker i).pc.stage
  stage : w.pc.stage = (s.worker i).pc.stage + 1
  tid : w.tid = (s.worker i).tid
  id : w.id = if (s.worker i).pc.stage = 2 then (s.pool.find (s.worker i).tid).getD 0 else (s.worker i).id
  worker : s'.worker = Function.update s.worker i w
  main : s'.main = s.main
  pool : s'.pool = s.pool
  free : (s.worker i).pc.stage = 1 → s.mutex = none
  mutex : s'.mutex =
    if (s.worker i).pc.stage = 1 then some i else if (s.worker i).pc.stage = 3 then none else s.mutex
  start : s'.start = if (s.worker i).pc.stage = 5 then s.start.arrive (NUM + 1) else s.start
  stop : s'.stop = if (s.worker i).pc.stage = 12 then s.stop.arrive NUM else s.stop
  startGate : (s.worker i).pc.stage = 6 → ∃ gen, (s.worker i).pc = .startWait gen ∧ s.start.opened gen
  stopGate : (s.worker i).pc.stage = 13 → ∃ gen, (s.worker i).pc = .stopWait gen ∧ s.stop.opened gen
  startGen : ∀ gen, w.pc = .startWait gen → (s.worker i).pc.stage = 5 ∧ gen = s.start.gen
  stopGen : ∀ gen, w.pc = .stopWait gen → (s.worker i).pc.stage = 12 ∧ gen = s.stop.gen

/-- A worker that cannot go on. -/
def Waits (s : P3) (i : Nat) : Prop :=
  match (s.worker i).pc with
  | .unborn => True
  | .lock => s.mutex ≠ none
  | .startWait gen => ¬s.start.opened gen
  | .stopWait gen => ¬s.stop.opened gen
  | .exited => True
  | _ => False

/-- **A worker waits, or goes on to its next stage.** -/
theorem workerStep_cases (NUM : Nat) (s : P3) (i : Nat) :
    (s.workerStep NUM i = (s, []) ∧ s.Waits i) ∨
      ∃ w, Advance NUM s i w (s.workerStep NUM i).1 ∧ (s.workerStep NUM i).2 = s.shown i := by
  rcases hw : s.worker i with ⟨pc, tid, id⟩
  unfold workerStep Waits
  rw [hw]
  cases pc with
  | unborn => exact Or.inl ⟨rfl, trivial⟩
  | exited => exact Or.inl ⟨rfl, trivial⟩
  | lock =>
      dsimp only
      split_ifs with hfree
      · refine Or.inr ⟨⟨.find, tid, id⟩, ?_, by simp [shown, hw, Pc.stage]⟩
        constructor <;> simp [hw, Pc.stage, goto, hfree]
      · exact Or.inl ⟨rfl, hfree⟩
  | find =>
      dsimp only
      cases hfind : s.pool.find tid with
      | some n =>
          refine Or.inr ⟨⟨.unlock, tid, n⟩, ?_, by simp [shown, hw, Pc.stage, hfind]⟩
          constructor <;> simp [hw, Pc.stage, goto, hfind]
      | none =>
          refine Or.inr ⟨⟨.unlock, tid, 0⟩, ?_, by simp [shown, hw, Pc.stage, hfind]⟩
          constructor <;> simp [hw, Pc.stage, goto, hfind]
  | unlock =>
      refine Or.inr ⟨⟨.announce, tid, id⟩, ?_, by simp [shown, hw, Pc.stage]⟩
      constructor <;> simp [hw, Pc.stage, goto]
  | announce =>
      refine Or.inr ⟨⟨.start, tid, id⟩, ?_, by simp [shown, hw, Pc.stage]⟩
      constructor <;> simp [hw, Pc.stage, goto]
  | start =>
      refine Or.inr ⟨⟨.startWait s.start.gen, tid, id⟩, ?_, by simp [shown, hw, Pc.stage]⟩
      constructor <;> simp [hw, Pc.stage, goto]
  | startWait gen =>
      dsimp only
      split_ifs with hopen
      · refine Or.inr ⟨⟨.released, tid, id⟩, ?_, by simp [shown, hw, Pc.stage]⟩
        constructor <;> simp [hw, Pc.stage, goto, hopen]
      · exact Or.inl ⟨rfl, hopen⟩
  | released =>
      refine Or.inr ⟨⟨.yield 0, tid, id⟩, ?_, by simp [shown, hw, Pc.stage]⟩
      constructor <;> simp [hw, Pc.stage, goto]
  | yield k =>
      dsimp only
      split_ifs with hk
      · refine Or.inr ⟨⟨.yield (k + 1), tid, id⟩, ?_, ?_⟩ <;> obtain rfl | rfl | rfl : k = 0 ∨ k = 1 ∨ k = 2 := by omega
        · constructor <;> simp [hw, Pc.stage, goto]
        · constructor <;> simp [hw, Pc.stage, goto]
        · constructor <;> simp [hw, Pc.stage, goto]
        all_goals simp [shown, hw, Pc.stage]
      · have hstage : min k 3 = 3 := by omega
        refine Or.inr ⟨⟨.stop, tid, id⟩, ?_, by simp [shown, hw, Pc.stage, hstage]⟩
        constructor <;> simp [hw, Pc.stage, goto, hstage]
  | stop =>
      refine Or.inr ⟨⟨.stopWait s.stop.gen, tid, id⟩, ?_, by simp [shown, hw, Pc.stage]⟩
      constructor <;> simp [hw, Pc.stage, goto]
  | stopWait gen =>
      dsimp only
      split_ifs with hopen
      · refine Or.inr ⟨⟨.leave, tid, id⟩, ?_, by simp [shown, hw, Pc.stage]⟩
        constructor <;> simp [hw, Pc.stage, goto, hopen]
      · exact Or.inl ⟨rfl, hopen⟩
  | leave =>
      refine Or.inr ⟨⟨.exited, tid, id⟩, ?_, by simp [shown, hw, Pc.stage]⟩
      constructor <;> simp [hw, Pc.stage, goto]

/-- What `main` does when it does something. -/
inductive MainMove (NUM : Nat) (s : P3) : P3 → List Out → Prop
  | create (i : Nat) (tid : Tid) (hmain : s.main = .create i) (hi : i < NUM)
      (hfresh : ∀ j < i, (s.worker j).pc = .unborn ∨ (s.worker j).tid ≠ tid) : MainMove NUM s (s.create i tid) []
  | fail (i : Nat) (tid : Tid) (hmain : s.main = .create i) (hi : i < NUM) :
      MainMove NUM s { s with main := .insert i tid } [.failed i]
  | release (i : Nat) (hmain : s.main = .create i) (hi : ¬i < NUM) : MainMove NUM s { s with main := .start } [.release]
  | insert (i : Nat) (tid : Tid) (hmain : s.main = .insert i tid) :
      MainMove NUM s { s with main := .create (i + 1), pool := s.pool.insert (tid, i) } [.insert i]
  | arrive (hmain : s.main = .start) :
      MainMove NUM s { s with main := .startWait s.start.gen, start := s.start.arrive (NUM + 1) } []
  | pass (gen : Nat) (hmain : s.main = .startWait gen) (hopen : s.start.opened gen) :
      MainMove NUM s { s with main := .join s.pool } []
  | join (q : Tid × Nat) (rest : Pool) (hmain : s.main = .join (q :: rest))
      (hexited : ∀ i < NUM, (s.worker i).tid = q.1 → (s.worker i).pc = .exited) :
      MainMove NUM s { s with main := .join rest } [.join q.1]
  | finish (hmain : s.main = .join []) : MainMove NUM s { s with main := .done } []

/-- `main` cannot go on. -/
def MainWaits (NUM : Nat) (s : P3) (tid : Tid) : Prop :=
  match s.main with
  | .create i => ∃ j < i, (s.worker j).pc ≠ .unborn ∧ (s.worker j).tid = tid
  | .startWait gen => ¬s.start.opened gen
  | .join (q :: _) => ∃ i < NUM, (s.worker i).tid = q.1 ∧ (s.worker i).pc ≠ .exited
  | .done => True
  | _ => False

/-- **`main` waits, or makes one of its moves.** -/
theorem mainStep_cases (NUM : Nat) (s : P3) (tid : Tid) (created : Bool) :
    (s.mainStep NUM tid created = (s, []) ∧ s.MainWaits NUM tid) ∨
      MainMove NUM s (s.mainStep NUM tid created).1 (s.mainStep NUM tid created).2 := by
  unfold mainStep MainWaits
  split
  · next i hmain =>
      split_ifs with hi hcreated hfresh
      · exact Or.inr (.create i tid hmain hi hfresh)
      · push Not at hfresh
        exact Or.inl ⟨rfl, by rw [hmain]; exact hfresh⟩
      · exact Or.inr (.fail i tid hmain hi)
      · exact Or.inr (.release i hmain hi)
  · next i tid hmain => exact Or.inr (.insert i tid hmain)
  · next hmain => exact Or.inr (.arrive hmain)
  · next gen hmain =>
      split_ifs with hopen
      · exact Or.inr (.pass gen hmain hopen)
      · exact Or.inl ⟨rfl, by rw [hmain]; exact hopen⟩
  · next q rest hmain =>
      split_ifs with hexited
      · exact Or.inr (.join q rest hmain hexited)
      · push Not at hexited
        exact Or.inl ⟨rfl, by rw [hmain]; exact hexited⟩
  · next hmain => exact Or.inr (.finish hmain)
  · next hmain => exact Or.inl ⟨rfl, by rw [hmain]; trivial⟩

end P3

/-! ## The pool -/

namespace Pool
variable {pool : Pool} {q : Tid × Nat} {tid : Tid} {id : Nat}

theorem find_insert (pool : Pool) (h : pool.find q.1 = none) :
    (pool.insert q).find tid = if tid = q.1 then some q.2 else pool.find tid := by
  unfold find at h ⊢
  induction pool with
  | nil =>
      unfold insert
      rw [List.lookup_cons]
      split_ifs with heq
      · rw [heq, beq_self_eq_true]
      · rw [beq_false_of_ne heq]
  | cons q' rest ih =>
      rw [List.lookup_cons] at h
      have hne : ¬q.1 = q'.1 := by
        intro heq
        rw [heq, beq_self_eq_true] at h
        cases h
      rw [beq_false_of_ne hne] at h
      unfold insert
      rw [if_neg hne]
      split_ifs with hlt heq heq
      · rw [List.lookup_cons, heq, beq_self_eq_true]
      · rw [List.lookup_cons, beq_false_of_ne heq]
      · rw [List.lookup_cons, heq, beq_false_of_ne hne]
        have hrest := ih h
        rw [if_pos heq, heq] at hrest
        exact hrest
      · rw [List.lookup_cons, List.lookup_cons, ih h, if_neg heq]

theorem length_insert_le (pool : Pool) (q : Tid × Nat) : (pool.insert q).length ≤ pool.length + 1 := by
  induction pool with
  | nil => exact Nat.le_refl 1
  | cons q' rest ih =>
      unfold insert
      split_ifs
      · exact Nat.le_refl _
      · exact Nat.le_succ _
      · exact Nat.succ_le_succ ih

theorem mem_of_find (h : pool.find tid = some id) : (tid, id) ∈ pool := by
  unfold find at h
  induction pool with
  | nil => cases h
  | cons q' rest ih =>
      rw [List.lookup_cons] at h
      cases hkey : tid == q'.1 with
      | true =>
          rw [hkey] at h
          obtain rfl := Option.some.inj h
          rw [eq_of_beq hkey]
          exact List.mem_cons_self
      | false =>
          rw [hkey] at h
          exact List.mem_cons_of_mem q' (ih h)

end Pool

end SysSnippets.Pthread
