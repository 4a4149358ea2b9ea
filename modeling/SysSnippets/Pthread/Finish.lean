import SysSnippets.Lib.Progress
import SysSnippets.Pthread.Barriers

/-!
# The threads of `p3` finish

* `P3.rank` : everything that the threads still do, which every move makes smaller (`Inv.rank_lt`);
* `Entered.finished_of_stuck` : where nobody moves everybody is done, as long as no `pthread_create` has failed;
* `all_finish` : no schedule gets the threads stuck, unless a `pthread_create` fails.
-/

namespace SysSnippets.Pthread
open SysSnippets.Lib Finset

/-- Everything that `main` still does. -/
def MainPc.rank (NUM : Nat) : MainPc → Nat
  | .create i => 2 * (NUM - i) + NUM + 4
  | .insert i _ => 2 * (NUM - i) + NUM + 3
  | .start => NUM + 3
  | .startWait _ => NUM + 2
  | .join left => left.length + 1
  | .done => 0

namespace P3
variable {NUM : Nat} {s s' : P3} {i : Nat} {h : List Out}

/-- Everything that the threads still do. -/
def rank (NUM : Nat) (s : P3) : Nat := ∑ i ∈ range NUM, (15 - (s.worker i).pc.stage) + s.main.rank NUM

def Finished (NUM : Nat) (s : P3) : Prop := s.main = .done ∧ ∀ i < NUM, (s.worker i).pc = .exited

theorem rank_init (NUM : Nat) : init.rank NUM = 18 * NUM + 4 := by
  have hsum : ∑ i ∈ range NUM, (15 - (init.worker i).pc.stage) = NUM * 15 := by
    change ∑ i ∈ range NUM, 15 = _
    rw [sum_const, card_range, Nat.nsmul_eq_mul]
  unfold rank
  rw [hsum]
  change NUM * 15 + (2 * (NUM - 0) + NUM + 4) = _
  omega

theorem Advance.rank_lt {w : Worker} (ha : Advance NUM s i w s') (hi : i < NUM) : s'.rank NUM < s.rank NUM := by
  have hsum := sum_update hi (fun w => 15 - w.pc.stage) s.worker w
  rw [← ha.worker] at hsum
  have hstage := ha.stage
  have hle := w.pc.stage_le
  unfold rank
  rw [ha.main]
  omega

theorem MainMove.rank_lt {out : List Out} (hinv : s.Inv NUM) (hm : MainMove NUM s s' out) : s'.rank NUM < s.rank NUM := by
  have hmain_lt : ∀ {m : MainPc} {pool : Pool} {b : Barrier}, m.rank NUM < s.main.rank NUM →
      ({ s with main := m, pool := pool, start := b } : P3).rank NUM < s.rank NUM :=
    fun hlt => Nat.add_lt_add_left hlt _
  cases hm with
  | create i tid hmain hi hfresh =>
      have hsum := sum_update hi (fun w => 15 - w.pc.stage) s.worker ⟨.lock, tid, 0⟩
      have hunborn := hinv.unborn hmain
      unfold rank
      rw [hmain]
      change ∑ j ∈ range NUM, (15 - (Function.update s.worker i _ j).pc.stage) + (2 * (NUM - i) + NUM + 3) <
        _ + (2 * (NUM - i) + NUM + 4)
      change _ + (15 - (s.worker i).pc.stage) = _ + (15 - 1) at hsum
      omega
  | fail i tid hmain hi =>
      apply hmain_lt
      rw [hmain]
      exact Nat.lt_succ_self _
  | release i hmain hi =>
      apply hmain_lt
      rw [hmain]
      change NUM + 3 < 2 * (NUM - i) + NUM + 4
      omega
  | insert i tid hmain =>
      have hle := hinv.created_le
      rw [hmain] at hle
      change i + 1 ≤ NUM at hle
      apply hmain_lt
      rw [hmain]
      change 2 * (NUM - (i + 1)) + NUM + 4 < 2 * (NUM - i) + NUM + 3
      omega
  | arrive hmain =>
      apply hmain_lt
      rw [hmain]
      exact Nat.lt_succ_self _
  | pass gen hmain hopen =>
      have hlength := hinv.pool_length
      rw [hmain] at hlength
      apply hmain_lt
      rw [hmain]
      exact Nat.succ_lt_succ (Nat.lt_succ_of_le hlength)
  | join q rest hmain hexited =>
      apply hmain_lt
      rw [hmain]
      exact Nat.lt_succ_self _
  | finish hmain =>
      apply hmain_lt
      rw [hmain]
      exact Nat.one_pos

/-- Every change is a step towards the end. -/
theorem Inv.rank_lt (hinv : s.Inv NUM) (t : Turn) (hne : (s.step NUM t).1 ≠ s) :
    (s.step NUM t).1.rank NUM < s.rank NUM := by
  cases t with
  | main tid created =>
      rcases mainStep_cases NUM s tid created with ⟨hwait, -⟩ | hm
      · exact absurd (congrArg Prod.fst hwait) hne
      · exact hm.rank_lt hinv
  | worker i =>
      rcases workerStep_cases NUM s i with ⟨hwait, -⟩ | ⟨w, ha, -⟩
      · exact absurd (congrArg Prod.fst hwait) hne
      · exact ha.rank_lt (hinv.lt_of_born ha.born)

/-- A turn in which no `pthread_create` fails. -/
def Creates : Turn → Prop
  | .main _ created => created = true
  | .worker _ => True

theorem not_failed_step {t : Turn} (ht : Creates t) (s : P3) : ¬Failed (s.step NUM t).2 := by
  cases t with
  | main tid created =>
      rintro ⟨j, hmem⟩
      obtain rfl : created = true := ht
      unfold step mainStep at hmem
      dsimp only at hmem
      split at hmem
      · rw [if_pos rfl] at hmem
        split_ifs at hmem
        · cases hmem
        · cases hmem
        · exact Out.noConfusion (List.mem_singleton.1 hmem)
      · exact Out.noConfusion (List.mem_singleton.1 hmem)
      · cases hmem
      · split_ifs at hmem <;> cases hmem
      · split_ifs at hmem
        · exact Out.noConfusion (List.mem_singleton.1 hmem)
        · cases hmem
      · cases hmem
      · cases hmem
  | worker i =>
      change ¬Failed (s.workerStep NUM i).2
      rcases workerStep_cases NUM s i with ⟨hwait, -⟩ | ⟨w, -, hout⟩
      · rw [hwait]
        rintro ⟨j, hmem⟩
        cases hmem
      · rw [hout]
        exact not_failed_shown s i

/-- Where nobody moves, `main` and the workers wait. -/
theorem Inv.waits (hinv : s.Inv NUM) (hstuck : (p3 NUM).StuckFor Creates s) :
    (∀ tid, s.MainWaits NUM tid) ∧ ∀ i, s.Waits i := by
  constructor
  · intro tid
    rcases mainStep_cases NUM s tid true with ⟨-, hwaits⟩ | hm
    · exact hwaits
    · have hlt := hm.rank_lt hinv
      rw [show (s.mainStep NUM tid true).1 = s from hstuck (.main tid true) rfl] at hlt
      exact absurd hlt (Nat.lt_irrefl _)
  · intro i
    rcases workerStep_cases NUM s i with ⟨-, hwaits⟩ | ⟨w, ha, -⟩
    · exact hwaits
    · have hlt := ha.rank_lt (hinv.lt_of_born ha.born)
      rw [show (s.workerStep NUM i).1 = s from hstuck (.worker i) trivial] at hlt
      exact absurd hlt (Nat.lt_irrefl _)

/-- Workers that all wait do so at a barrier that is closed, or have exited. -/
theorem Inv.waits_cases (hinv : s.Inv NUM) (hall : ∀ i, s.Waits i) (hborn : 1 ≤ (s.worker i).pc.stage) :
    (s.worker i).pc.stage = 6 ∧ ¬s.start.opened 0 ∨ (s.worker i).pc.stage = 13 ∧ ¬s.stop.opened 0 ∨
      (s.worker i).pc = .exited := by
  have hfree : s.mutex = none := by
    by_contra hheld
    obtain ⟨j, hj⟩ := Option.ne_none_iff_exists'.1 hheld
    have hwaits := hall j
    have hstage := (hinv.mutex j).1 hj
    unfold Waits at hwaits
    cases hpc : (s.worker j).pc <;> rw [hpc] at hwaits hstage <;> first | exact hwaits | simp [Pc.stage] at hstage
  have hwaits := hall i
  unfold Waits at hwaits
  cases hpc : (s.worker i).pc with
  | unborn =>
      rw [hpc] at hborn
      cases hborn
  | lock =>
      rw [hpc] at hwaits
      exact absurd hfree hwaits
  | startWait gen =>
      rw [hpc, hinv.startGen i gen hpc] at hwaits
      exact Or.inl ⟨rfl, hwaits⟩
  | stopWait gen =>
      rw [hpc, hinv.stopGen i gen hpc] at hwaits
      exact Or.inr (Or.inl ⟨rfl, hwaits⟩)
  | exited => exact Or.inr (Or.inr rfl)
  | _ =>
      rw [hpc] at hwaits
      exact hwaits.elim

/-- A thread id that no worker has. -/
theorem exists_fresh (s : P3) (n : Nat) : ∃ tid, ∀ j < n, (s.worker j).tid ≠ tid := by
  refine ⟨∑ j ∈ range n, (s.worker j).tid + 1, fun j hj heq => ?_⟩
  have hle : (s.worker j).tid ≤ ∑ k ∈ range n, (s.worker k).tid :=
    single_le_sum (fun k _ => Nat.zero_le (s.worker k).tid) (mem_range.2 hj)
  rw [heq] at hle
  exact Nat.not_succ_le_self _ hle

/-- Workers that wait while `start` is open have all exited. -/
theorem Inv.all_exited (hinv : s.Inv NUM) (hall : ∀ i, s.Waits i) (hborn : ∀ i < NUM, 1 ≤ (s.worker i).pc.stage)
    (hopen : s.start.opened 0) : ∀ i < NUM, (s.worker i).pc = .exited := by
  have hcases : ∀ i < NUM, (s.worker i).pc.stage = 13 ∧ ¬s.stop.opened 0 ∨ (s.worker i).pc = .exited := by
    intro i hi
    rcases hinv.waits_cases hall (hborn i hi) with ⟨-, hclosed⟩ | hlater
    · exact absurd hopen hclosed
    · exact hlater
  intro i hi
  rcases hcases i hi with ⟨-, hclosed⟩ | hexited
  · -- then all of them have come to it
    have hcame : ∀ j < NUM, reached 13 (s.worker j) = 1 := by
      intro j hj
      rw [reached_eq_one]
      rcases hcases j hj with ⟨h13, -⟩ | hexited
      · exact h13.ge
      · rw [hexited]
        exact Nat.le_of_ble_eq_true rfl
    exact absurd (Barrier.opened_of_all hinv.stop (hinv.stop_lt (Nat.zero_lt_of_lt hi)) hcame) hclosed
  · exact hexited

/-- **Only the end is stuck.** -/
theorem Entered.finished_of_stuck (hent : s.Entered NUM) (hinv : s.Inv NUM) (hstuck : (p3 NUM).StuckFor Creates s) :
    s.Finished NUM := by
  obtain ⟨hmainWaits, hall⟩ := hinv.waits hstuck
  have hborn := hent.born
  unfold MainWaits at hmainWaits
  cases hmain : s.main with
  | create i =>
      obtain ⟨tid, hfresh⟩ := s.exists_fresh i
      have hwaits := hmainWaits tid
      rw [hmain] at hwaits
      obtain ⟨j, hj, -, htid⟩ := hwaits
      exact absurd htid (hfresh j hj)
  | startWait gen =>
      have hwaits := hmainWaits 0
      rw [hmain, hinv.mainGen gen hmain] at hwaits
      rw [hmain] at hborn
      have hcame : ∀ i < NUM + 1, s.party NUM i = 1 := by
        intro i _
        unfold party
        split_ifs with hi
        · rw [reached_eq_one]
          have hi' := hborn i hi
          rcases hinv.waits_cases hall hi' with ⟨h6, -⟩ | ⟨h13, -⟩ | hexited
          · exact h6.ge
          · omega
          · rw [hexited]
            exact Nat.le_of_ble_eq_true rfl
        · rw [hmain]
          rfl
      exact absurd (Barrier.opened_of_all hinv.start hinv.start_lt hcame) hwaits
  | join left =>
      have hopen := hinv.joining (by rw [hmain]; rfl)
      rw [hmain] at hborn
      have hexited := hinv.all_exited hall hborn hopen
      have hwaits := hmainWaits 0
      rw [hmain] at hwaits
      cases left with
      | nil => exact hwaits.elim
      | cons q rest =>
          obtain ⟨i, hi, -, hne⟩ := hwaits
          exact absurd (hexited i hi) hne
  | done =>
      have hopen := hinv.joining (by rw [hmain]; rfl)
      rw [hmain] at hborn
      exact ⟨hmain, hinv.all_exited hall hborn hopen⟩
  | _ =>
      have hwaits := hmainWaits 0
      rw [hmain] at hwaits
      exact hwaits.elim

theorem Lost.not_finished (hlost : s.Lost NUM) (hinv : s.Inv NUM) : ¬s.Finished NUM := by
  rintro ⟨hmain, -⟩
  have hleft := hlost.not_joining hinv
  rw [hmain] at hleft
  cases hleft

theorem Runs.not_failed (hr : s.Runs NUM h) (hfinished : s.Finished NUM) : ¬Failed h :=
  fun hfailed => (hr.lost hfailed).not_finished hr.inv hfinished

/-- As long as none has failed, the threads can go on to the end. -/
theorem Runs.finishes (hr : s.Runs NUM h) (hno : ¬Failed h) : ∃ rest, ((p3 NUM).run s rest).1.Finished NUM := by
  have hkeep : ∀ s t, Creates t → (∃ h, s.Runs NUM h ∧ ¬Failed h) →
      ∃ h, ((p3 NUM).step s t).1.Runs NUM h ∧ ¬Failed h := by
    rintro s t ht ⟨h, hr, hno⟩
    refine ⟨_, hr.step t, ?_⟩
    rw [failed_append, not_or]
    exact ⟨hno, not_failed_step ht s⟩
  have hdec : ∀ s t, Creates t → (∃ h, s.Runs NUM h ∧ ¬Failed h) → ((p3 NUM).step s t).1 ≠ s →
      ((p3 NUM).step s t).1.rank NUM < s.rank NUM := by
    rintro s t - ⟨h, hr, -⟩ hne
    exact hr.inv.rank_lt t hne
  obtain ⟨rest, -, ⟨h', hr', hno'⟩, hstuck⟩ := Machine.exists_stuckFor hkeep hdec ⟨h, hr, hno⟩
  exact ⟨rest, (hr'.entered.resolve_left hno').finished_of_stuck hr'.inv hstuck⟩

end P3

/-- **All threads finish, if all are created.** No schedule makes more than `18 * NUM + 4` moves. Where no thread can move,
`main` has joined the workers and all of them have exited, if and only if no `pthread_create` has failed; and as long as
none has, every run can be carried on to there. -/
theorem all_finish (NUM : Nat) (schedule : List Turn) :
    ((p3 NUM).Busy .init schedule → schedule.length ≤ 18 * NUM + 4) ∧
    ((p3 NUM).Stuck ((p3 NUM).run .init schedule).1 →
      (((p3 NUM).run .init schedule).1.Finished NUM ↔ ¬Failed ((p3 NUM).run .init schedule).2)) ∧
    ((∃ rest, ((p3 NUM).run .init (schedule ++ rest)).1.Finished NUM) ↔
      ¬Failed ((p3 NUM).run .init schedule).2) := by
  have hr := P3.runs NUM schedule
  refine ⟨fun hbusy => ?_, fun hstuck => ⟨hr.not_failed, fun hno => ?_⟩, ⟨?_, fun hno => ?_⟩⟩
  · have hkeep : ∀ s t, (∃ h, s.Runs NUM h) → ∃ h, ((p3 NUM).step s t).1.Runs NUM h := by
      rintro s t ⟨h, hr⟩
      exact ⟨_, hr.step t⟩
    have hdec : ∀ s t, (∃ h, s.Runs NUM h) → ((p3 NUM).step s t).1 ≠ s → ((p3 NUM).step s t).1.rank NUM < s.rank NUM := by
      rintro s t ⟨h, hr⟩ hne
      exact hr.inv.rank_lt t hne
    have hlength := hbusy.length_add_le hkeep hdec ⟨_, P3.runs_init NUM⟩
    rw [P3.rank_init] at hlength
    omega
  · exact (hr.entered.resolve_left hno).finished_of_stuck hr.inv fun t _ => hstuck t
  · rintro ⟨rest, hfinished⟩ hfailed
    have hno := (P3.runs NUM (schedule ++ rest)).not_failed hfinished
    rw [Machine.run_append] at hno
    exact hno (failed_append.2 (Or.inl hfailed))
  · obtain ⟨rest, hfinished⟩ := hr.finishes hno
    refine ⟨rest, ?_⟩
    rw [Machine.run_append]
    exact hfinished

end SysSnippets.Pthread
