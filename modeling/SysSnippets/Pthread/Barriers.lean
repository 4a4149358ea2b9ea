import SysSnippets.Pthread.Threads

/-!
# Workers between two barriers

* `P3.Inv` : what the barriers have counted, and where the threads can be then (`Inv.advance`, `Inv.mainMove`);
* `P3.Entered` : what is in the pool, as long as each `pthread_create` has given a thread; `P3.Lost` : a worker is missing;
* `P3.Printed` : what has been printed by a thread that has got so far;
* `barriers_hold` : nobody is past a barrier that somebody has not reached;
* `numbers_agree` : the number a worker goes by.
-/

namespace SysSnippets.Pthread
open SysSnippets.Lib Finset

/-! ## The invariant -/

/-- The workers for which `main` has called `pthread_create`. -/
def MainPc.created (NUM : Nat) : MainPc → Nat
  | .create i => i
  | .insert i _ => i + 1
  | _ => NUM

/-- The workers whose numbers are in the pool. -/
def MainPc.inserted (NUM : Nat) : MainPc → Nat
  | .create i => i
  | .insert i _ => i
  | _ => NUM

/-- Whether `main` has come to the barrier. -/
def MainPc.came : MainPc → Nat
  | .create _ => 0
  | .insert _ _ => 0
  | .start => 0
  | _ => 1

/-- What is left to join, once `main` joins. -/
def MainPc.left : MainPc → Option Pool
  | .join left => some left
  | .done => some []
  | _ => none

/-- Whether a worker has got to a stage. -/
def reached (k : Nat) (w : Worker) : Nat := if k ≤ w.pc.stage then 1 else 0

theorem reached_le (k : Nat) (w : Worker) : reached k w ≤ 1 := by
  unfold reached
  split_ifs
  · exact Nat.le_refl 1
  · exact Nat.zero_le 1

theorem reached_eq_one {k : Nat} {w : Worker} : reached k w = 1 ↔ k ≤ w.pc.stage := by
  unfold reached
  split_ifs with h
  · exact iff_of_true rfl h
  · exact iff_of_false not_false h

theorem reached_eq_zero {k : Nat} {w : Worker} : reached k w = 0 ↔ w.pc.stage < k := by
  rw [← Nat.not_le, ← reached_eq_one]
  have hle := reached_le k w
  omega

/-- The parties of the barrier `start`: the workers, and `main`. -/
def P3.party (NUM : Nat) (s : P3) (i : Nat) : Nat := if i < NUM then reached 6 (s.worker i) else s.main.came

namespace P3
variable {NUM : Nat} {s s' : P3} {i : Nat}

theorem party_le (NUM : Nat) (s : P3) (i : Nat) : s.party NUM i ≤ 1 := by
  unfold party
  split_ifs
  · exact reached_le 6 _
  · cases s.main <;> exact Nat.le_of_ble_eq_true rfl

theorem sum_party (NUM : Nat) (s : P3) :
    ∑ i ∈ range (NUM + 1), s.party NUM i = ∑ i ∈ range NUM, reached 6 (s.worker i) + s.main.came := by
  rw [sum_range_succ]
  have hmain : s.party NUM NUM = s.main.came := if_neg (Nat.lt_irrefl NUM)
  have hworkers : ∑ i ∈ range NUM, s.party NUM i = ∑ i ∈ range NUM, reached 6 (s.worker i) :=
    sum_congr rfl fun i hi => if_pos (mem_range.1 hi)
  rw [hmain, hworkers]

structure Inv (NUM : Nat) (s : P3) : Prop where
  created_le : s.main.created NUM ≤ NUM
  lt_created : ∀ i, 1 ≤ (s.worker i).pc.stage → i < s.main.created NUM
  pool_length : s.pool.length ≤ s.main.inserted NUM
  mutex : ∀ i, s.mutex = some i ↔ (s.worker i).pc.stage = 2 ∨ (s.worker i).pc.stage = 3
  start : s.start.total (NUM + 1) = ∑ i ∈ range (NUM + 1), s.party NUM i
  start_lt : s.start.arrived < NUM + 1
  stop : s.stop.total NUM = ∑ i ∈ range NUM, reached 13 (s.worker i)
  stop_lt : 0 < NUM → s.stop.arrived < NUM
  startGen : ∀ i gen, (s.worker i).pc = .startWait gen → gen = 0
  mainGen : ∀ gen, s.main = .startWait gen → gen = 0
  stopGen : ∀ i gen, (s.worker i).pc = .stopWait gen → gen = 0
  pastStart : ∀ i, 7 ≤ (s.worker i).pc.stage → s.start.opened 0
  pastStop : ∀ i, 14 ≤ (s.worker i).pc.stage → s.stop.opened 0
  joining : s.main.left.isSome → s.start.opened 0

/-- Each worker so far has been created, and is entered in the pool. -/
structure Entered (NUM : Nat) (s : P3) : Prop where
  born : ∀ i < s.main.created NUM, 1 ≤ (s.worker i).pc.stage
  tids : ∀ i < s.main.created NUM, ∀ j < s.main.created NUM, (s.worker i).tid = (s.worker j).tid → i = j
  pool : ∀ tid id, s.pool.find tid = some id ↔ id < s.main.inserted NUM ∧ (s.worker id).tid = tid
  inserting : ∀ i tid, s.main = .insert i tid → (s.worker i).tid = tid
  joining : ∀ left, s.main.left = some left → ∀ i < NUM, (s.worker i).pc = .exited ∨ ∃ id, ((s.worker i).tid, id) ∈ left

/-- A worker was not created, and never will be. -/
def Lost (NUM : Nat) (s : P3) : Prop := ∃ k < s.main.created NUM, (s.worker k).pc.stage = 0

theorem inv_init (NUM : Nat) : init.Inv NUM where
  created_le := Nat.zero_le NUM
  lt_created i h := absurd h (Nat.not_succ_le_zero 0)
  pool_length := Nat.le_refl 0
  mutex i := by
    apply iff_of_false
    · exact fun h => nomatch h
    · exact fun h => nomatch h
  start := by
    rw [sum_party]
    have hsum : ∑ i ∈ range NUM, reached 6 (init.worker i) = 0 := sum_eq_zero fun i _ => rfl
    rw [hsum]
    exact Barrier.init_total
  start_lt := Nat.succ_pos NUM
  stop := (Barrier.init_total).trans (sum_eq_zero fun i _ => rfl).symm
  stop_lt h := h
  startGen i gen h := nomatch h
  mainGen gen h := nomatch h
  stopGen i gen h := nomatch h
  pastStart i h := absurd h (Nat.not_succ_le_zero 6)
  pastStop i h := absurd h (Nat.not_succ_le_zero 13)
  joining h := nomatch h

theorem entered_init (NUM : Nat) : init.Entered NUM where
  born i hi := absurd hi (Nat.not_lt_zero i)
  tids i hi := absurd hi (Nat.not_lt_zero i)
  pool tid id := by
    apply iff_of_false
    · exact fun h => nomatch h
    · exact fun h => Nat.not_lt_zero id h.1
  inserting i tid h := nomatch h
  joining left h := nomatch h

/-- Past `start` everybody has come to it. -/
theorem Inv.all_started (h : s.Inv NUM) (hopen : s.start.opened 0) :
    (∀ i < NUM, 6 ≤ (s.worker i).pc.stage) ∧ s.main.came = 1 := by
  have hall := fun i (hi : i < NUM + 1) => Barrier.all_arrived (party_le NUM s) h.start hopen hi
  refine ⟨fun i hi => ?_, ?_⟩
  · have hcame := hall i (Nat.lt_succ_of_lt hi)
    unfold party at hcame
    rw [if_pos hi] at hcame
    exact reached_eq_one.1 hcame
  · have hcame := hall NUM (Nat.lt_succ_self NUM)
    unfold party at hcame
    rwa [if_neg (Nat.lt_irrefl NUM)] at hcame

/-- Past `stop` every worker has come to it. -/
theorem Inv.all_stopped (h : s.Inv NUM) (hopen : s.stop.opened 0) (hi : i < NUM) : 13 ≤ (s.worker i).pc.stage :=
  reached_eq_one.1 (Barrier.all_arrived (fun j => reached_le 13 (s.worker j)) h.stop hopen hi)

theorem Inv.lt_of_born (h : s.Inv NUM) (hborn : 1 ≤ (s.worker i).pc.stage) : i < NUM :=
  Nat.lt_of_lt_of_le (h.lt_created i hborn) h.created_le

/-- Without all the workers `main` does not come to an end. -/
theorem Lost.not_joining (hlost : s.Lost NUM) (h : s.Inv NUM) : s.main.left = none := by
  obtain ⟨k, hk, hunborn⟩ := hlost
  by_contra hleft
  have hstarted := (h.all_started (h.joining (Option.isSome_iff_ne_none.2 hleft))).1 k (Nat.lt_of_lt_of_le hk h.created_le)
  omega

namespace Advance
variable {w : Worker}

theorem self (ha : Advance NUM s i w s') : s'.worker i = w := by rw [ha.worker, Function.update_self]

theorem other (ha : Advance NUM s i w s') {j : Nat} (hj : j ≠ i) : s'.worker j = s.worker j := by
  rw [ha.worker, Function.update_of_ne hj]

theorem same_tid (ha : Advance NUM s i w s') (j : Nat) : (s'.worker j).tid = (s.worker j).tid := by
  rcases eq_or_ne j i with rfl | hj
  · rw [ha.self, ha.tid]
  · rw [ha.other hj]

/-- How many have got to a stage. -/
theorem sum_reached (ha : Advance NUM s i w s') (hi : i < NUM) (k : Nat) :
    ∑ j ∈ range NUM, reached k (s'.worker j) =
      ∑ j ∈ range NUM, reached k (s.worker j) + if (s.worker i).pc.stage + 1 = k then 1 else 0 := by
  have hsum := sum_update hi (reached k) s.worker w
  rw [← ha.worker] at hsum
  have hstage := ha.stage
  unfold reached at hsum ⊢
  rw [hstage] at hsum
  split_ifs at hsum ⊢ <;> omega

/-- The mutex is held between `lock` and `unlock`. -/
theorem mutex_iff (ha : Advance NUM s i w s')
    (h : ∀ j, s.mutex = some j ↔ (s.worker j).pc.stage = 2 ∨ (s.worker j).pc.stage = 3) (j : Nat) :
    s'.mutex = some j ↔ (s'.worker j).pc.stage = 2 ∨ (s'.worker j).pc.stage = 3 := by
  have hstage := ha.stage
  have hj := h j
  have hi := h i
  rw [ha.mutex]
  rcases eq_or_ne j i with rfl | hne
  · rw [ha.self]
    split_ifs with h1 h3
    · apply iff_of_true rfl
      omega
    · apply iff_of_false not_false
      omega
    · rw [hj]
      omega
  · rw [ha.other hne]
    split_ifs with h1 h3
    · have hfree := ha.free h1
      rw [← hj, hfree, Option.some.injEq]
      exact iff_of_false hne.symm fun hnone => nomatch hnone
    · have hheld := hi.2 (Or.inr h3)
      rw [← hj, hheld, Option.some.injEq]
      exact iff_of_false not_false hne.symm
    · exact hj

end Advance

/-- Before a worker comes to `start` nobody is past it. -/
theorem Inv.start_gen (h : s.Inv NUM) (hi : i < NUM) (hbefore : (s.worker i).pc.stage < 6) : s.start.gen = 0 := by
  apply Barrier.gen_eq_zero (party_le NUM s) h.start (Nat.lt_succ_of_lt hi)
  unfold party
  rw [if_pos hi]
  exact reached_eq_zero.2 hbefore

/-- Before a worker comes to `stop` nobody is past it. -/
theorem Inv.stop_gen (h : s.Inv NUM) (hi : i < NUM) (hbefore : (s.worker i).pc.stage < 13) : s.stop.gen = 0 :=
  Barrier.gen_eq_zero (fun j => reached_le 13 (s.worker j)) h.stop hi (reached_eq_zero.2 hbefore)

namespace Advance
variable {w : Worker} {gen : Nat}

theorem opened_start (ha : Advance NUM s i w s') (h : s.start.opened gen) : s'.start.opened gen := by
  rw [ha.start]
  split_ifs
  · exact h.arrive (NUM + 1)
  · exact h

theorem opened_stop (ha : Advance NUM s i w s') (h : s.stop.opened gen) : s'.stop.opened gen := by
  rw [ha.stop]
  split_ifs
  · exact h.arrive NUM
  · exact h

theorem start_total (ha : Advance NUM s i w s') (hi : i < NUM)
    (h : s.start.total (NUM + 1) = ∑ j ∈ range (NUM + 1), s.party NUM j) :
    s'.start.total (NUM + 1) = ∑ j ∈ range (NUM + 1), s'.party NUM j := by
  rw [sum_party] at h ⊢
  rw [ha.sum_reached hi, ha.main, ha.start]
  split_ifs with h5
  · rw [Barrier.arrive_total]
    omega
  · omega
  · omega
  · exact h

theorem stop_total (ha : Advance NUM s i w s') (hi : i < NUM)
    (h : s.stop.total NUM = ∑ j ∈ range NUM, reached 13 (s.worker j)) :
    s'.stop.total NUM = ∑ j ∈ range NUM, reached 13 (s'.worker j) := by
  rw [ha.sum_reached hi, ha.stop]
  split_ifs with h12
  · rw [Barrier.arrive_total]
    omega
  · omega
  · omega
  · exact h

theorem born_iff (ha : Advance NUM s i w s') (j : Nat) : 1 ≤ (s'.worker j).pc.stage ↔ 1 ≤ (s.worker j).pc.stage := by
  rcases eq_or_ne j i with rfl | hj
  · have hborn := ha.born
    have hstage := ha.stage
    rw [ha.self]
    omega
  · rw [ha.other hj]

/-- Who has left was another worker. -/
theorem exited (ha : Advance NUM s i w s') {j : Nat} (hexited : (s.worker j).pc = .exited) :
    (s'.worker j).pc = .exited := by
  rcases eq_or_ne j i with rfl | hne
  · have hle := w.pc.stage_le
    rw [ha.stage, hexited] at hle
    exact absurd hle (Nat.not_succ_le_self 15)
  · rwa [ha.other hne]

end Advance

/-- Who is past `start` came through it. -/
theorem Advance.past_start {w : Worker} (ha : Advance NUM s i w s') (h : s.Inv NUM) (j : Nat)
    (hj : 7 ≤ (s'.worker j).pc.stage) : s.start.opened 0 := by
  rcases eq_or_ne j i with rfl | hne
  · have hstage := ha.stage
    rw [ha.self] at hj
    rcases Nat.lt_or_ge (s.worker j).pc.stage 7 with hlt | hge
    · obtain ⟨gen, hpc, hgen⟩ := ha.startGate (by omega)
      rwa [h.startGen j gen hpc] at hgen
    · exact h.pastStart j hge
  · rw [ha.other hne] at hj
    exact h.pastStart j hj

/-- Who is past `stop` came through it. -/
theorem Advance.past_stop {w : Worker} (ha : Advance NUM s i w s') (h : s.Inv NUM) (j : Nat)
    (hj : 14 ≤ (s'.worker j).pc.stage) : s.stop.opened 0 := by
  rcases eq_or_ne j i with rfl | hne
  · have hstage := ha.stage
    rw [ha.self] at hj
    rcases Nat.lt_or_ge (s.worker j).pc.stage 14 with hlt | hge
    · obtain ⟨gen, hpc, hgen⟩ := ha.stopGate (by omega)
      rwa [h.stopGen j gen hpc] at hgen
    · exact h.pastStop j hge
  · rw [ha.other hne] at hj
    exact h.pastStop j hj

/-- Who comes to `start` waits for the first generation. -/
theorem Advance.start_zero {w : Worker} (ha : Advance NUM s i w s') (h : s.Inv NUM) (j gen : Nat)
    (hpc : (s'.worker j).pc = .startWait gen) : gen = 0 := by
  rcases eq_or_ne j i with rfl | hne
  · rw [ha.self] at hpc
    obtain ⟨h5, rfl⟩ := ha.startGen gen hpc
    exact h.start_gen (h.lt_of_born ha.born) (by omega)
  · rw [ha.other hne] at hpc
    exact h.startGen j gen hpc

theorem Advance.stop_zero {w : Worker} (ha : Advance NUM s i w s') (h : s.Inv NUM) (j gen : Nat)
    (hpc : (s'.worker j).pc = .stopWait gen) : gen = 0 := by
  rcases eq_or_ne j i with rfl | hne
  · rw [ha.self] at hpc
    obtain ⟨h12, rfl⟩ := ha.stopGen gen hpc
    exact h.stop_gen (h.lt_of_born ha.born) (by omega)
  · rw [ha.other hne] at hpc
    exact h.stopGen j gen hpc

/-- **A worker's step keeps the invariant.** -/
theorem Inv.advance {w : Worker} (h : s.Inv NUM) (ha : Advance NUM s i w s') : s'.Inv NUM where
  created_le := by
    rw [ha.main]
    exact h.created_le
  lt_created j hj := by
    rw [ha.main]
    exact h.lt_created j ((ha.born_iff j).1 hj)
  pool_length := by
    rw [ha.pool, ha.main]
    exact h.pool_length
  mutex := ha.mutex_iff h.mutex
  start := ha.start_total (h.lt_of_born ha.born) h.start
  start_lt := by
    rw [ha.start]
    split_ifs
    · exact Barrier.arrive_lt h.start_lt
    · exact h.start_lt
  stop := ha.stop_total (h.lt_of_born ha.born) h.stop
  stop_lt hpos := by
    rw [ha.stop]
    split_ifs
    · exact Barrier.arrive_lt (h.stop_lt hpos)
    · exact h.stop_lt hpos
  startGen := ha.start_zero h
  mainGen := by
    rw [ha.main]
    exact h.mainGen
  stopGen := ha.stop_zero h
  pastStart j hj := ha.opened_start (ha.past_start h j hj)
  pastStop j hj := ha.opened_stop (ha.past_stop h j hj)
  joining hleft := by
    rw [ha.main] at hleft
    exact ha.opened_start (h.joining hleft)

theorem Entered.advance {w : Worker} (h : s.Entered NUM) (ha : Advance NUM s i w s') : s'.Entered NUM where
  born j hj := by
    rw [ha.main] at hj
    exact (ha.born_iff j).2 (h.born j hj)
  tids j hj k hk := by
    rw [ha.main] at hj hk
    rw [ha.same_tid, ha.same_tid]
    exact h.tids j hj k hk
  pool tid id := by
    rw [ha.pool, ha.main, ha.same_tid]
    exact h.pool tid id
  inserting j tid hmain := by
    rw [ha.main] at hmain
    rw [ha.same_tid]
    exact h.inserting j tid hmain
  joining left hleft j hj := by
    rw [ha.main] at hleft
    rw [ha.same_tid]
    exact (h.joining left hleft j hj).imp_left ha.exited

theorem Lost.advance {w : Worker} (h : s.Lost NUM) (ha : Advance NUM s i w s') : s'.Lost NUM := by
  obtain ⟨k, hk, hunborn⟩ := h
  have hborn := ha.born_iff k
  refine ⟨k, ?_, by omega⟩
  rw [ha.main]
  exact hk

/-! ### A new worker -/

section Create
variable {tid : Tid}

theorem create_self (s : P3) (i : Nat) (tid : Tid) : (s.create i tid).worker i = ⟨.lock, tid, 0⟩ :=
  Function.update_self ..

theorem create_other {j : Nat} (hj : j ≠ i) : (s.create i tid).worker j = s.worker j := Function.update_of_ne hj ..

/-- Only the new worker gets somewhere, and not far. -/
theorem stage_create {j k : Nat} (hk : 1 < k) (hj : k ≤ ((s.create i tid).worker j).pc.stage) :
    k ≤ (s.worker j).pc.stage := by
  by_cases hji : j = i
  · rw [hji, create_self] at hj
    exact absurd hj (Nat.not_le_of_lt hk)
  · rwa [create_other hji] at hj

theorem pc_create {j : Nat} {pc : Pc} (hlock : pc ≠ .lock) (hj : ((s.create i tid).worker j).pc = pc) :
    (s.worker j).pc = pc := by
  by_cases hji : j = i
  · rw [hji, create_self] at hj
    exact absurd hj.symm hlock
  · rwa [create_other hji] at hj

theorem sum_create (hi : i < NUM) (hunborn : (s.worker i).pc.stage = 0) {k : Nat} (hk : 1 < k) :
    ∑ j ∈ range NUM, reached k ((s.create i tid).worker j) = ∑ j ∈ range NUM, reached k (s.worker j) := by
  have hsum := sum_update hi (reached k) s.worker ⟨.lock, tid, 0⟩
  have hzero : reached k (s.worker i) = 0 := reached_eq_zero.2 (by omega)
  have hzero' : reached k ⟨.lock, tid, 0⟩ = 0 := reached_eq_zero.2 hk
  change ∑ j ∈ range NUM, reached k (Function.update s.worker i ⟨.lock, tid, 0⟩ j) = _
  omega

theorem Inv.unborn (h : s.Inv NUM) (hmain : s.main = .create i) : (s.worker i).pc.stage = 0 := by
  have hnot := mt (h.lt_created i) (by rw [hmain]; exact Nat.lt_irrefl i)
  omega

theorem Inv.create (h : s.Inv NUM) (hmain : s.main = .create i) (hi : i < NUM) : (s.create i tid).Inv NUM where
  created_le := hi
  lt_created j hj := by
    change j < i + 1
    by_cases hji : j = i
    · omega
    · rw [create_other hji] at hj
      have hlt := h.lt_created j hj
      rw [hmain] at hlt
      change j < i at hlt
      omega
  pool_length := by
    have hlength := h.pool_length
    rwa [hmain] at hlength
  mutex j := by
    change s.mutex = some j ↔ _
    rw [h.mutex]
    by_cases hji : j = i
    · rw [hji, create_self, h.unborn hmain]
      change 0 = 2 ∨ 0 = 3 ↔ 1 = 2 ∨ 1 = 3
      omega
    · rw [create_other hji]
  start := by
    have hcount := h.start
    rw [sum_party, hmain] at hcount
    rw [sum_party, sum_create hi (h.unborn hmain) (by omega)]
    exact hcount
  start_lt := h.start_lt
  stop := by
    rw [sum_create hi (h.unborn hmain) (by omega)]
    exact h.stop
  stop_lt := h.stop_lt
  startGen j gen hj := h.startGen j gen (pc_create Pc.noConfusion hj)
  mainGen gen hgen := nomatch hgen
  stopGen j gen hj := h.stopGen j gen (pc_create Pc.noConfusion hj)
  pastStart j hj := h.pastStart j (stage_create (by omega) hj)
  pastStop j hj := h.pastStop j (stage_create (by omega) hj)
  joining hleft := nomatch hleft

/-- The new worker has an id of its own. -/
theorem Entered.create (h : s.Entered NUM) (hmain : s.main = .create i)
    (hfresh : ∀ j < i, (s.worker j).pc = .unborn ∨ (s.worker j).tid ≠ tid) : (s.create i tid).Entered NUM := by
  have hborn := h.born
  have htids := h.tids
  have hpool := h.pool
  rw [hmain] at hborn htids hpool
  have hfresh' : ∀ j < i, (s.worker j).tid ≠ tid := by
    intro j hj
    refine (hfresh j hj).resolve_left fun hunborn => ?_
    have hstage := hborn j hj
    rw [hunborn] at hstage
    exact absurd hstage (Nat.not_succ_le_zero 0)
  refine ⟨fun j (hj : j < i + 1) => ?_, fun j (hj : j < i + 1) k (hk : k < i + 1) htid => ?_, fun t id => ?_, ?_, ?_⟩
  · by_cases hji : j = i
    · rw [hji, create_self]
      exact Nat.le_refl 1
    · rw [create_other hji]
      exact hborn j (by change j < i; omega)
  · by_cases hji : j = i <;> by_cases hki : k = i
    · rw [hji, hki]
    · rw [hji, create_self, create_other hki] at htid
      exact absurd htid.symm (hfresh' k (by omega))
    · rw [hki, create_self, create_other hji] at htid
      exact absurd htid (hfresh' j (by omega))
    · rw [create_other hji, create_other hki] at htid
      exact htids j (by change j < i; omega) k (by change k < i; omega) htid
  · change s.pool.find t = some id ↔ id < i ∧ _
    rw [hpool]
    change id < i ∧ _ ↔ id < i ∧ _
    apply and_congr_right
    intro hid
    rw [create_other (by omega)]
  · intro j t hj
    obtain ⟨rfl, rfl⟩ := MainPc.insert.inj hj
    rw [create_self]
  · exact fun left hleft => nomatch hleft

theorem Lost.create (h : s.Lost NUM) (hmain : s.main = .create i) : (s.create i tid).Lost NUM := by
  obtain ⟨k, hk, hunborn⟩ := h
  rw [hmain] at hk
  change k < i at hk
  refine ⟨k, Nat.lt_succ_of_lt hk, ?_⟩
  rwa [create_other (by omega)]

end Create

/-! ### The other moves of `main` -/

/-- Where `main` goes on, with the barrier and the pool as it leaves them. -/
theorem Inv.moved {m : MainPc} {b : Barrier} {pool : Pool} (h : s.Inv NUM) (hle : m.created NUM ≤ NUM)
    (hcreated : s.main.created NUM ≤ m.created NUM) (hlength : pool.length ≤ m.inserted NUM)
    (htotal : b.total (NUM + 1) + s.main.came = s.start.total (NUM + 1) + m.came) (hlt : b.arrived < NUM + 1)
    (hgen : s.start.gen ≤ b.gen) (hmainGen : ∀ gen, m = .startWait gen → gen = 0)
    (hjoining : m.left.isSome → b.opened 0) : ({ s with main := m, start := b, pool := pool } : P3).Inv NUM :=
  { h with
    created_le := hle
    lt_created := fun i hi => Nat.lt_of_lt_of_le (h.lt_created i hi) hcreated
    pool_length := hlength
    start := by
      have hcount := h.start
      rw [sum_party] at hcount ⊢
      change b.total (NUM + 1) = ∑ i ∈ range NUM, reached 6 (s.worker i) + m.came
      omega
    start_lt := hlt
    mainGen := hmainGen
    pastStart := fun i hi => Nat.lt_of_lt_of_le (h.pastStart i hi) hgen
    joining := hjoining }

/-- Where `main` only walks on. -/
theorem Inv.walked {m : MainPc} {pool : Pool} (h : s.Inv NUM) (hle : m.created NUM ≤ NUM)
    (hcreated : s.main.created NUM ≤ m.created NUM) (hlength : pool.length ≤ m.inserted NUM)
    (hcame : m.came = s.main.came) (hmainGen : ∀ gen, m = .startWait gen → gen = 0)
    (hjoining : m.left.isSome → s.start.opened 0) : ({ s with main := m, pool := pool } : P3).Inv NUM :=
  h.moved hle hcreated hlength (by rw [hcame]) h.start_lt (Nat.le_refl _) hmainGen hjoining

/-- **A move of `main` keeps the invariant.** -/
theorem Inv.mainMove {out : List Out} (h : s.Inv NUM) (hm : MainMove NUM s s' out) : s'.Inv NUM := by
  have hle := h.created_le
  have hlength := h.pool_length
  have hjoining := h.joining
  cases hm with
  | create i tid hmain hi hfresh => exact h.create hmain hi
  | fail i tid hmain hi =>
      rw [hmain] at hlength
      apply h.walked
      · exact hi
      · rw [hmain]
        exact Nat.le_succ i
      · exact hlength
      · rw [hmain]
        rfl
      · exact fun _ hgen => nomatch hgen
      · exact fun hleft => nomatch hleft
  | release i hmain hi =>
      rw [hmain] at hlength hle
      apply h.walked
      · exact Nat.le_refl NUM
      · exact h.created_le
      · exact Nat.le_trans hlength hle
      · rw [hmain]
        rfl
      · exact fun _ hgen => nomatch hgen
      · exact fun hleft => nomatch hleft
  | insert i tid hmain =>
      rw [hmain] at hlength hle
      apply h.walked
      · exact hle
      · rw [hmain]
        exact Nat.le_refl (i + 1)
      · exact Nat.le_trans (Pool.length_insert_le _ _) (Nat.succ_le_succ hlength)
      · rw [hmain]
        rfl
      · exact fun _ hgen => nomatch hgen
      · exact fun hleft => nomatch hleft
  | arrive hmain =>
      have hgen : s.start.gen = 0 := by
        apply Barrier.gen_eq_zero (party_le NUM s) h.start (Nat.lt_succ_self NUM)
        unfold party
        rw [if_neg (Nat.lt_irrefl NUM), hmain]
        rfl
      rw [hmain] at hlength
      apply h.moved
      · exact Nat.le_refl NUM
      · exact hle
      · exact hlength
      · rw [hmain, Barrier.arrive_total]
        rfl
      · exact Barrier.arrive_lt h.start_lt
      · exact Barrier.gen_le_arrive _ _
      · rintro gen ⟨⟩
        exact hgen
      · exact fun hleft => nomatch hleft
  | pass gen hmain hopen =>
      rw [h.mainGen gen hmain] at hopen
      rw [hmain] at hlength
      apply h.walked
      · exact Nat.le_refl NUM
      · exact hle
      · exact hlength
      · rw [hmain]
        rfl
      · exact fun _ hgen => nomatch hgen
      · exact fun _ => hopen
  | join q rest hmain hexited =>
      rw [hmain] at hlength hjoining
      apply h.walked
      · exact Nat.le_refl NUM
      · exact hle
      · exact hlength
      · rw [hmain]
        rfl
      · exact fun _ hgen => nomatch hgen
      · exact fun _ => hjoining rfl
  | finish hmain =>
      rw [hmain] at hlength hjoining
      apply h.walked
      · exact Nat.le_refl NUM
      · exact hle
      · exact hlength
      · rw [hmain]
        rfl
      · exact fun _ hgen => nomatch hgen
      · exact fun _ => hjoining rfl

/-- Where nothing is created or entered. -/
theorem Entered.moved {m : MainPc} {b : Barrier} (h : s.Entered NUM) (hcreated : m.created NUM = s.main.created NUM)
    (hinserted : m.inserted NUM = s.main.inserted NUM) (hinsert : ∀ i tid, m ≠ .insert i tid)
    (hjoining : ∀ left, m.left = some left → ∀ i < NUM, (s.worker i).pc = .exited ∨ ∃ id, ((s.worker i).tid, id) ∈ left) :
    ({ s with main := m, start := b } : P3).Entered NUM where
  born := hcreated ▸ h.born
  tids := hcreated ▸ h.tids
  pool := hinserted ▸ h.pool
  inserting i tid hmain := absurd hmain (hinsert i tid)
  joining := hjoining

theorem Entered.insert {tid : Tid} (h : s.Entered NUM) (hmain : s.main = .insert i tid) :
    ({ s with main := .create (i + 1), pool := s.pool.insert (tid, i) } : P3).Entered NUM := by
  have hborn := h.born
  have htids := h.tids
  have hpool := h.pool
  have htid := h.inserting i tid hmain
  rw [hmain] at hborn htids hpool
  have hnone : s.pool.find tid = none := by
    by_contra hsome
    obtain ⟨id, hid⟩ := Option.ne_none_iff_exists'.1 hsome
    obtain ⟨hlt, heq⟩ := (hpool tid id).1 hid
    change id < i at hlt
    have hsame := htids id (by change id < i + 1; omega) i (Nat.lt_succ_self i) (heq.trans htid.symm)
    omega
  refine ⟨hborn, htids, fun t id => ?_, fun _ _ => MainPc.noConfusion, fun _ hleft => nomatch hleft⟩
  change (s.pool.insert (tid, i)).find t = some id ↔ id < i + 1 ∧ (s.worker id).tid = t
  rw [Pool.find_insert s.pool hnone]
  split_ifs with heq
  · rw [Option.some.injEq, heq]
    constructor
    · rintro rfl
      exact ⟨Nat.lt_succ_self i, htid⟩
    · rintro ⟨hlt, hid⟩
      exact htids i (Nat.lt_succ_self i) id hlt (htid.trans hid.symm)
  · rw [hpool]
    apply Iff.intro
    · rintro ⟨hlt, hid⟩
      exact ⟨Nat.lt_succ_of_lt hlt, hid⟩
    · rintro ⟨hlt, hid⟩
      refine ⟨Nat.lt_of_le_of_ne (Nat.le_of_lt_succ hlt) fun (hii : id = i) => ?_, hid⟩
      rw [hii, htid] at hid
      exact heq hid.symm

end P3

/-- A `pthread_create` has failed. -/
def Failed (h : List Out) : Prop := ∃ i, .failed i ∈ h

theorem failed_append {h out : List Out} : Failed (h ++ out) ↔ Failed h ∨ Failed out := by
  unfold Failed
  simp only [List.mem_append, exists_or]

namespace P3
variable {NUM : Nat} {s s' : P3} {i : Nat}

theorem Entered.mainMove {out : List Out} (h : s.Entered NUM) (hinv : s.Inv NUM) (hm : MainMove NUM s s' out)
    (hout : ¬Failed out) : s'.Entered NUM := by
  have hjoining := h.joining
  have hpool := h.pool
  cases hm with
  | create i tid hmain hi hfresh => exact h.create hmain hfresh
  | fail i tid hmain hi => exact absurd ⟨i, List.mem_cons_self⟩ hout
  | insert i tid hmain => exact h.insert hmain
  | release i hmain hi =>
      have hle := hinv.created_le
      rw [hmain] at hle
      have hall : i = NUM := Nat.le_antisymm hle (Nat.le_of_not_lt hi)
      apply h.moved
      · rw [hmain]
        exact hall.symm
      · rw [hmain]
        exact hall.symm
      · exact fun _ _ => MainPc.noConfusion
      · exact fun _ hleft => nomatch hleft
  | arrive hmain =>
      apply h.moved
      · rw [hmain]
        rfl
      · rw [hmain]
        rfl
      · exact fun _ _ => MainPc.noConfusion
      · exact fun _ hleft => nomatch hleft
  | pass gen hmain hopen =>
      rw [hmain] at hpool
      apply h.moved
      · rw [hmain]
        rfl
      · rw [hmain]
        rfl
      · exact fun _ _ => MainPc.noConfusion
      · rintro left ⟨⟩ i hi
        exact Or.inr ⟨i, Pool.mem_of_find ((hpool _ i).2 ⟨hi, rfl⟩)⟩
  | join q rest hmain hexited =>
      rw [hmain] at hjoining
      apply h.moved
      · rw [hmain]
        rfl
      · rw [hmain]
        rfl
      · exact fun _ _ => MainPc.noConfusion
      · rintro left ⟨⟩ i hi
        rcases hjoining (q :: rest) rfl i hi with hdone | ⟨id, hmem⟩
        · exact Or.inl hdone
        · rcases List.mem_cons.1 hmem with rfl | hrest
          · exact Or.inl (hexited i hi rfl)
          · exact Or.inr ⟨id, hrest⟩
  | finish hmain =>
      rw [hmain] at hjoining
      apply h.moved
      · rw [hmain]
        rfl
      · rw [hmain]
        rfl
      · exact fun _ _ => MainPc.noConfusion
      · rintro left ⟨⟩
        exact hjoining [] rfl

theorem Lost.mainMove {out : List Out} (h : s.Lost NUM) (hinv : s.Inv NUM) (hm : MainMove NUM s s' out) :
    s'.Lost NUM := by
  have hcreated : s.main.created NUM ≤ NUM := hinv.created_le
  obtain ⟨k, hk, hunborn⟩ := h
  cases hm with
  | create i tid hmain hi hfresh => exact Lost.create ⟨k, hk, hunborn⟩ hmain
  | fail i tid hmain hi =>
      rw [hmain] at hk
      exact ⟨k, Nat.lt_succ_of_lt hk, hunborn⟩
  | insert i tid hmain =>
      rw [hmain] at hk
      exact ⟨k, hk, hunborn⟩
  | _ => exact ⟨k, Nat.lt_of_lt_of_le hk hcreated, hunborn⟩

/-- The call that fails creates no worker. -/
theorem Inv.lost {out : List Out} (h : s.Inv NUM) (hm : MainMove NUM s s' out) (hout : Failed out) : s'.Lost NUM := by
  obtain ⟨j, hmem⟩ := hout
  cases hm with
  | fail i tid hmain hi => exact ⟨i, Nat.lt_succ_self i, h.unborn hmain⟩
  | create => cases hmem
  | arrive => cases hmem
  | pass => cases hmem
  | finish => cases hmem
  | _ => cases List.mem_singleton.1 hmem

end P3

/-! ## What is printed -/

/-- Whether `main` still creates workers. -/
def MainPc.creating : MainPc → Prop
  | .create _ => True
  | .insert _ _ => True
  | _ => False

/-- The number a worker goes by: its own if it was found, and 0 otherwise. -/
def GoesBy (h : List Out) (i id : Nat) : Prop := .find i id ∈ h ∧ id = i ∨ .noIndex i ∈ h ∧ id = 0

/-- The barriers, as the threads print it. -/
def InOrder (NUM : Nat) (pre : List Out) : Out → Prop
  | .released _ _ => .release ∈ pre ∧ ∀ j < NUM, ∃ id, .waitStart j id ∈ pre
  | .left _ _ => ∀ j < NUM, ∃ id, .waitStop j id ∈ pre
  | _ => True

/-- The numbers, as the threads print them. -/
def Numbered (pre : List Out) : Out → Prop
  | .find i id => id = i ∧ .insert i ∈ pre
  | .noIndex i => .insert i ∉ pre
  | .waitStart i id => GoesBy pre i id
  | .released i id => GoesBy pre i id
  | .waitStop i id => GoesBy pre i id
  | .left i id => GoesBy pre i id
  | _ => True

/-- The worker whose line it is. -/
def Out.worker : Out → Option Nat
  | .find i _ | .noIndex i | .waitStart i _ | .released i _ | .waitStop i _ | .left i _ => some i
  | .failed _ | .insert _ | .release | .join _ => none

/-- The lines of worker `i`. -/
def linesOf (i : Nat) (h : List Out) : List Out := h.filter fun o => o.worker = some i

/-- The program of `worker`, as it shows. -/
def program (i id : Nat) (found : Bool) : List Out :=
  [if found then .find i id else .noIndex i, .waitStart i id, .released i id, .waitStop i id, .left i id]

/-- How much of its program a worker has shown. -/
def said (stage : Nat) : Nat :=
  if stage ≤ 2 then 0 else if stage ≤ 4 then 1 else if stage ≤ 7 then 2 else if stage ≤ 11 then 3
  else if stage ≤ 14 then 4 else 5

theorem GoesBy.append {h : List Out} {i id : Nat} (hid : GoesBy h i id) (out : List Out) : GoesBy (h ++ out) i id :=
  hid.imp (And.imp_left (List.mem_append_left out)) (And.imp_left (List.mem_append_left out))

theorem linesOf_append (i : Nat) (h out : List Out) : linesOf i (h ++ out) = linesOf i h ++ linesOf i out :=
  List.filter_append ..

theorem said_succ {stage : Nat} (h2 : stage ≠ 2) (h4 : stage ≠ 4) (h7 : stage ≠ 7) (h11 : stage ≠ 11) (h14 : stage ≠ 14) :
    said (stage + 1) = said stage := by
  unfold said
  split_ifs <;> omega

namespace P3
variable {NUM : Nat} {s s' : P3} {i : Nat} {h : List Out}

structure Printed (NUM : Nat) (h : List Out) (s : P3) : Prop where
  inserted : ∀ i, .insert i ∈ h ↔ i < s.main.inserted NUM
  release : ¬s.main.creating → .release ∈ h
  looked : ∀ i, 3 ≤ (s.worker i).pc.stage → Failed h ∨ GoesBy h i (s.worker i).id
  lines : ∀ i, ∃ found, linesOf i h = (program i (s.worker i).id found).take (said (s.worker i).pc.stage)

theorem printed_init (NUM : Nat) : init.Printed NUM [] where
  inserted i := iff_of_false List.not_mem_nil (Nat.not_lt_zero i)
  release h := absurd trivial h
  looked _ h := absurd h (Nat.not_succ_le_zero 2)
  lines _ := ⟨true, rfl⟩

/-- What a worker that has got so far has shown. -/
theorem Printed.mem {n : Nat} {o : Out} (hp : s.Printed NUM h) (hn : n ≤ said (s.worker i).pc.stage)
    (ho : ∀ found, o ∈ (program i (s.worker i).id found).take n) : o ∈ h := by
  obtain ⟨found, hlines⟩ := hp.lines i
  have hmem : o ∈ linesOf i h := by
    rw [hlines]
    exact List.take_subset_take_left _ hn (ho found)
  exact (List.mem_filter.1 hmem).1

theorem Printed.waitStart (hp : s.Printed NUM h) (hi : 5 ≤ (s.worker i).pc.stage) :
    .waitStart i (s.worker i).id ∈ h := by
  apply hp.mem (i := i) (n := 2)
  · unfold said
    split_ifs <;> omega
  · exact fun found => List.mem_cons_of_mem _ List.mem_cons_self

theorem Printed.waitStop (hp : s.Printed NUM h) (hi : 12 ≤ (s.worker i).pc.stage) :
    .waitStop i (s.worker i).id ∈ h := by
  apply hp.mem (i := i) (n := 4)
  · unfold said
    split_ifs <;> omega
  · intro found
    simp [program]

/-- The number that a worker finds is its own. -/
theorem Entered.find_eq (hent : s.Entered NUM) (hinv : s.Inv NUM) (hborn : 1 ≤ (s.worker i).pc.stage) {id : Nat}
    (hfind : s.pool.find (s.worker i).tid = some id) : id = i ∧ i < s.main.inserted NUM := by
  obtain ⟨hlt, htid⟩ := (hent.pool _ id).1 hfind
  have hle : s.main.inserted NUM ≤ s.main.created NUM := by
    cases s.main <;> first | exact Nat.le_refl _ | exact Nat.le_succ _
  have heq : id = i := hent.tids id (Nat.lt_of_lt_of_le hlt hle) i (hinv.lt_created i hborn) htid
  exact ⟨heq, heq ▸ hlt⟩

/-- A worker that finds no number has not been entered. -/
theorem Entered.find_none (hent : s.Entered NUM) (hfind : s.pool.find (s.worker i).tid = none) :
    ¬i < s.main.inserted NUM := by
  intro hlt
  have hsome := (hent.pool _ i).2 ⟨hlt, rfl⟩
  rw [hfind] at hsome
  cases hsome

/-- All that a worker shows is its own. -/
theorem worker_of_shown (s : P3) (i : Nat) : ∀ o ∈ s.shown i, o.worker = some i := by
  unfold shown
  dsimp only
  split_ifs
  · cases s.pool.find (s.worker i).tid <;> exact List.forall_mem_singleton.2 rfl
  all_goals first | exact List.forall_mem_nil _ | exact List.forall_mem_singleton.2 rfl

theorem linesOf_shown_self (s : P3) (i : Nat) : linesOf i (s.shown i) = s.shown i :=
  List.filter_eq_self.2 fun o ho => decide_eq_true (worker_of_shown s i o ho)

theorem linesOf_shown_other {j : Nat} (hj : j ≠ i) : linesOf j (s.shown i) = [] := by
  apply List.filter_eq_nil_iff.2
  intro o ho hworker
  rw [worker_of_shown s i o ho, decide_eq_true_eq, Option.some.injEq] at hworker
  exact hj hworker.symm

theorem not_failed_shown (s : P3) (i : Nat) : ¬Failed (s.shown i) := by
  rintro ⟨j, hmem⟩
  cases worker_of_shown s i _ hmem

/-- The worker shows the next part of its program. -/
theorem Printed.advance_lines {w : Worker} (hp : s.Printed NUM h) (ha : Advance NUM s i w s') :
    ∃ found, linesOf i h ++ s.shown i = (program i w.id found).take (said w.pc.stage) := by
  obtain ⟨found, hlines⟩ := hp.lines i
  have hid := ha.id
  rw [ha.stage, hlines]
  unfold shown
  dsimp only
  split_ifs at hid ⊢ with h2 h4 h7 h11 h14
  · rw [h2, hid]
    cases hfind : s.pool.find (s.worker i).tid with
    | some id => exact ⟨true, rfl⟩
    | none => exact ⟨false, rfl⟩
  · exact ⟨found, by rw [h4, hid]; rfl⟩
  · exact ⟨found, by rw [h7, hid]; rfl⟩
  · exact ⟨found, by rw [h11, hid]; rfl⟩
  · exact ⟨found, by rw [h14, hid]; rfl⟩
  · exact ⟨found, by rw [said_succ h2 h4 h7 h11 h14, hid, List.append_nil]⟩

theorem Printed.advance {w : Worker} (hinv : s.Inv NUM) (hent : Failed h ∨ s.Entered NUM) (hp : s.Printed NUM h)
    (ha : Advance NUM s i w s') : s'.Printed NUM (h ++ s.shown i) := by
  have hstage := ha.stage
  have hid := ha.id
  refine ⟨?_, ?_, ?_, ?_⟩
  · intro j
    rw [List.mem_append, ha.main, ← hp.inserted j]
    exact or_iff_left fun hmem => nomatch worker_of_shown s i _ hmem
  · intro hmain
    rw [ha.main] at hmain
    exact List.mem_append_left _ (hp.release hmain)
  · intro j hj
    rw [failed_append, or_iff_left (not_failed_shown s i)]
    rcases eq_or_ne j i with rfl | hne
    · rw [ha.self] at hj ⊢
      rcases Nat.lt_or_ge (s.worker j).pc.stage 3 with hlt | hge
      · have h2 : (s.worker j).pc.stage = 2 := by omega
        rw [if_pos h2] at hid
        refine hent.imp_right fun hent => ?_
        unfold shown
        dsimp only
        rw [if_pos h2, hid]
        cases hfind : s.pool.find (s.worker j).tid with
        | some id => exact Or.inl ⟨List.mem_append_right h List.mem_cons_self, (hent.find_eq hinv ha.born hfind).1⟩
        | none => exact Or.inr ⟨List.mem_append_right h List.mem_cons_self, rfl⟩
      · rw [if_neg (by omega)] at hid
        rw [hid]
        exact (hp.looked j hge).imp_right fun hgoes => hgoes.append _
    · rw [ha.other hne] at hj ⊢
      exact (hp.looked j hj).imp_right fun hgoes => hgoes.append _
  · intro j
    rw [linesOf_append]
    rcases eq_or_ne j i with rfl | hne
    · rw [ha.self, linesOf_shown_self]
      exact hp.advance_lines ha
    · rw [ha.other hne, linesOf_shown_other hne, List.append_nil]
      exact hp.lines j

/-- What a worker shows is in order. -/
theorem Inv.shown_inOrder (hinv : s.Inv NUM) (hp : s.Printed NUM h) (i : Nat) :
    Every (fun pre o => InOrder NUM (h ++ pre) o) (s.shown i) := by
  unfold shown
  dsimp only
  split_ifs with h2 h4 h7 h11 h14
  · rw [every_singleton]
    cases s.pool.find (s.worker i).tid <;> trivial
  · exact every_singleton.2 trivial
  · rw [every_singleton, List.append_nil]
    obtain ⟨hworkers, hmain⟩ := hinv.all_started (hinv.pastStart i (by omega))
    refine ⟨hp.release fun hcreating => ?_, fun j hj => ⟨_, hp.waitStart ?_⟩⟩
    · cases hpc : s.main <;> rw [hpc] at hmain hcreating <;> first | exact hcreating | cases hmain
    · have hj' := hworkers j hj
      omega
  · exact every_singleton.2 trivial
  · rw [every_singleton, List.append_nil]
    intro j hj
    have hj' := hinv.all_stopped (hinv.pastStop i (by omega)) hj
    exact ⟨_, hp.waitStop (by omega)⟩
  · exact every_nil

/-- A worker goes by its own number, or by 0. -/
theorem Inv.shown_numbered (hinv : s.Inv NUM) (hent : Failed h ∨ s.Entered NUM) (hp : s.Printed NUM h) {w : Worker}
    (ha : Advance NUM s i w s') :
    Every (fun pre o => Failed (h ++ pre) ∨ Numbered (h ++ pre) o) (s.shown i) := by
  unfold shown
  dsimp only
  split_ifs with h2 h4 h7 h11 h14
  · rw [every_singleton, List.append_nil]
    refine hent.imp_right fun hent => ?_
    cases hfind : s.pool.find (s.worker i).tid with
    | some id =>
        obtain ⟨heq, hlt⟩ := hent.find_eq hinv ha.born hfind
        exact ⟨heq, (hp.inserted i).2 hlt⟩
    | none => exact fun hmem => hent.find_none hfind ((hp.inserted i).1 hmem)
  all_goals first
    | exact every_nil
    | rw [every_singleton, List.append_nil]; exact hp.looked i (by omega)

/-- A move of `main` that shows nothing about the pool. -/
theorem Printed.moved {m : MainPc} {b : Barrier} {out : List Out} (hp : s.Printed NUM h)
    (hinserted : m.inserted NUM = s.main.inserted NUM) (hout : ∀ j, .insert j ∉ out) (hworker : ∀ j, linesOf j out = [])
    (hrelease : ¬m.creating → .release ∈ h ++ out) : ({ s with main := m, start := b } : P3).Printed NUM (h ++ out) where
  inserted j := by
    rw [List.mem_append, hinserted, ← hp.inserted j]
    exact or_iff_left (hout j)
  release := hrelease
  looked j hj := (hp.looked j hj).imp (fun hfailed => failed_append.2 (Or.inl hfailed)) fun hgoes => hgoes.append out
  lines j := by
    rw [linesOf_append, hworker, List.append_nil]
    exact hp.lines j

theorem Printed.create {tid : Tid} (hp : s.Printed NUM h) (hinv : s.Inv NUM) (hmain : s.main = .create i) :
    (s.create i tid).Printed NUM h := by
  refine ⟨fun j => ?_, fun hmain => absurd trivial hmain, fun j hj => ?_, fun j => ?_⟩
  · rw [hp.inserted j, hmain]
    rfl
  · by_cases hji : j = i
    · rw [hji, create_self] at hj
      exact absurd hj (Nat.not_le_of_not_ble_eq_true Bool.noConfusion)
    · rw [create_other hji] at hj ⊢
      exact hp.looked j hj
  · by_cases hji : j = i
    · obtain ⟨found, hlines⟩ := hp.lines i
      rw [hinv.unborn hmain] at hlines
      rw [hji, create_self]
      exact ⟨found, hlines⟩
    · rw [create_other hji]
      exact hp.lines j

theorem Printed.insert {tid : Tid} (hp : s.Printed NUM h) (hmain : s.main = .insert i tid) :
    ({ s with main := .create (i + 1), pool := s.pool.insert (tid, i) } : P3).Printed NUM (h ++ [.insert i]) := by
  refine ⟨fun j => ?_, fun hmain => absurd trivial hmain, fun j hj => ?_, fun j => ?_⟩
  · have hinserted := hp.inserted j
    rw [hmain] at hinserted
    change _ ↔ j < i + 1
    change _ ↔ j < i at hinserted
    rw [List.mem_append, hinserted, List.mem_singleton, Out.insert.injEq]
    omega
  · exact (hp.looked j hj).imp (fun hfailed => failed_append.2 (Or.inl hfailed)) fun hgoes => hgoes.append _
  · rw [linesOf_append]
    change ∃ found, linesOf j h ++ [] = _
    rw [List.append_nil]
    exact hp.lines j

theorem Printed.mainMove {out : List Out} (hinv : s.Inv NUM) (hp : s.Printed NUM h) (hm : MainMove NUM s s' out) :
    s'.Printed NUM (h ++ out) := by
  have hrelease : ∀ out, ¬s.main.creating → .release ∈ h ++ out :=
    fun out hmain => List.mem_append_left out (hp.release hmain)
  cases hm with
  | create i tid hmain hi hfresh =>
      rw [List.append_nil]
      exact hp.create hinv hmain
  | fail i tid hmain hi =>
      apply hp.moved
      · rw [hmain]
        rfl
      · exact fun j hmem => Out.noConfusion (List.mem_singleton.1 hmem)
      · exact fun j => rfl
      · exact fun hcreating => absurd trivial hcreating
  | insert i tid hmain => exact hp.insert hmain
  | release i hmain hi =>
      have hle := hinv.created_le
      rw [hmain] at hle
      apply hp.moved
      · rw [hmain]
        exact Nat.le_antisymm (Nat.le_of_not_lt hi) hle
      · exact fun j hmem => Out.noConfusion (List.mem_singleton.1 hmem)
      · exact fun j => rfl
      · exact fun _ => List.mem_append_right h List.mem_cons_self
  | arrive hmain =>
      apply hp.moved
      · rw [hmain]
        rfl
      · exact fun j => List.not_mem_nil
      · exact fun j => rfl
      · exact fun _ => hrelease [] (by rw [hmain]; exact id)
  | pass gen hmain hopen =>
      apply hp.moved
      · rw [hmain]
        rfl
      · exact fun j => List.not_mem_nil
      · exact fun j => rfl
      · exact fun _ => hrelease [] (by rw [hmain]; exact id)
  | join q rest hmain hexited =>
      apply hp.moved
      · rw [hmain]
        rfl
      · exact fun j hmem => Out.noConfusion (List.mem_singleton.1 hmem)
      · exact fun j => rfl
      · exact fun _ => hrelease _ (by rw [hmain]; exact id)
  | finish hmain =>
      apply hp.moved
      · rw [hmain]
        rfl
      · exact fun j => List.not_mem_nil
      · exact fun j => rfl
      · exact fun _ => hrelease [] (by rw [hmain]; exact id)

/-- Nothing is asked of what `main` shows. -/
theorem MainMove.every {out : List Out} (hm : MainMove NUM s s' out) {P : List Out → Out → Prop}
    (hP : ∀ pre o, o.worker = none → P pre o) : Every P out := by
  cases hm with
  | fail => exact every_singleton.2 (hP _ _ rfl)
  | insert => exact every_singleton.2 (hP _ _ rfl)
  | release => exact every_singleton.2 (hP _ _ rfl)
  | join => exact every_singleton.2 (hP _ _ rfl)
  | _ => exact every_nil

theorem inOrder_of_main {pre : List Out} {o : Out} (ho : o.worker = none) : InOrder NUM pre o := by
  cases o <;> trivial

theorem numbered_of_main {pre : List Out} {o : Out} (ho : o.worker = none) : Numbered pre o := by
  cases o <;> trivial

/-- What holds after a history. -/
structure Runs (NUM : Nat) (h : List Out) (s : P3) : Prop where
  inv : s.Inv NUM
  printed : s.Printed NUM h
  inOrder : Every (InOrder NUM) h
  numbered : Every (fun pre o => Failed pre ∨ Numbered pre o) h
  entered : Failed h ∨ s.Entered NUM
  lost : Failed h → s.Lost NUM

theorem Runs.main {out : List Out} (hr : s.Runs NUM h) (hm : MainMove NUM s s' out) : s'.Runs NUM (h ++ out) where
  inv := hr.inv.mainMove hm
  printed := hr.printed.mainMove hr.inv hm
  inOrder := every_append.2 ⟨hr.inOrder, hm.every fun _ _ ho => inOrder_of_main ho⟩
  numbered := every_append.2 ⟨hr.numbered, hm.every fun _ _ ho => Or.inr (numbered_of_main ho)⟩
  entered := by
    rw [failed_append]
    by_cases hout : Failed out
    · exact Or.inl (Or.inr hout)
    · exact hr.entered.imp Or.inl fun hent => hent.mainMove hr.inv hm hout
  lost hfailed := by
    rcases failed_append.1 hfailed with hfailed | hout
    · exact (hr.lost hfailed).mainMove hr.inv hm
    · exact hr.inv.lost hm hout

theorem Runs.advance {w : Worker} (hr : s.Runs NUM h) (ha : Advance NUM s i w s') : s'.Runs NUM (h ++ s.shown i) where
  inv := hr.inv.advance ha
  printed := hr.printed.advance hr.inv hr.entered ha
  inOrder := every_append.2 ⟨hr.inOrder, hr.inv.shown_inOrder hr.printed i⟩
  numbered := every_append.2 ⟨hr.numbered, hr.inv.shown_numbered hr.entered hr.printed ha⟩
  entered := hr.entered.imp (fun hfailed => failed_append.2 (Or.inl hfailed)) fun hent => hent.advance ha
  lost hfailed := by
    rcases failed_append.1 hfailed with hfailed | hout
    · exact (hr.lost hfailed).advance ha
    · exact absurd hout (not_failed_shown s i)

theorem Runs.step (hr : s.Runs NUM h) (t : Turn) : (s.step NUM t).1.Runs NUM (h ++ (s.step NUM t).2) := by
  cases t with
  | main tid created =>
      change (s.mainStep NUM tid created).1.Runs NUM (h ++ (s.mainStep NUM tid created).2)
      rcases mainStep_cases NUM s tid created with ⟨hwait, -⟩ | hm
      · rw [hwait, List.append_nil]
        exact hr
      · exact hr.main hm
  | worker i =>
      change (s.workerStep NUM i).1.Runs NUM (h ++ (s.workerStep NUM i).2)
      rcases workerStep_cases NUM s i with ⟨hwait, -⟩ | ⟨w, ha, hout⟩
      · rw [hwait, List.append_nil]
        exact hr
      · rw [hout]
        exact hr.advance ha

theorem runs_init (NUM : Nat) : init.Runs NUM [] where
  inv := inv_init NUM
  printed := printed_init NUM
  inOrder := every_nil
  numbered := every_nil
  entered := Or.inr (entered_init NUM)
  lost := by
    rintro ⟨i, hmem⟩
    cases hmem

theorem runs (NUM : Nat) (schedule : List Turn) :
    ((p3 NUM).run init schedule).1.Runs NUM ((p3 NUM).run init schedule).2 :=
  Machine.run_inv (m := p3 NUM) (I := fun h s => s.Runs NUM h) (fun _ _ t hr => hr.step t) schedule [] init (runs_init NUM)

end P3

/-- **Both barriers hold.** Whatever the order of the threads, nobody is released before `main` and all the workers have
come to `start`, nobody leaves before all the workers have come to `stop`, and each worker shows its lines in the order of
its program. -/
theorem barriers_hold (NUM : Nat) (schedule : List Turn) :
    Every (InOrder NUM) ((p3 NUM).run .init schedule).2 ∧
      ∀ i, ∃ id found, linesOf i ((p3 NUM).run .init schedule).2 <+: program i id found := by
  have hr := P3.runs NUM schedule
  refine ⟨hr.inOrder, fun i => ?_⟩
  obtain ⟨found, hlines⟩ := hr.printed.lines i
  refine ⟨(((p3 NUM).run .init schedule).1.worker i).id, found, ?_⟩
  rw [hlines]
  exact List.take_prefix _ _

/-- **The numbers of the workers.** Until a `pthread_create` fails, a worker that looks after `main` has entered it goes by
its own number in all that it prints; one that looks before goes by 0, having reported the error. -/
theorem numbers_agree (NUM : Nat) (schedule : List Turn) :
    Every (fun pre o => Failed pre ∨ Numbered pre o) ((p3 NUM).run .init schedule).2 :=
  (P3.runs NUM schedule).numbered

end SysSnippets.Pthread
