import SysSnippets.Lib.Machine

/-!
# Runs that get somewhere

An input that a machine cannot take leaves the state alone, so a schedule may idle. What is left when it does not:

* `Busy s is` : every input changes the state; `Stuck s` : no input does; `StuckFor P s` : none of some inputs does;
* `Busy.length_add_le` : a measure that every change makes smaller bounds a busy run;
* `exists_stuck`, `exists_stuckFor` : then every state has a busy run to a stuck one, with some inputs only if need be.
-/

namespace SysSnippets.Lib.Machine
variable {σ ι ω : Type*} (m : Machine σ ι ω)

/-- Every input changes the state it finds. -/
def Busy (s : σ) (is : List ι) : Prop := ∀ q ∈ m.moments s is, (m.step q.1 q.2).1 ≠ q.1

/-- No input changes the state. -/
def Stuck (s : σ) : Prop := ∀ i, (m.step s i).1 = s

def StuckFor (P : ι → Prop) (s : σ) : Prop := ∀ i, P i → (m.step s i).1 = s

variable {m} {s : σ} {is : List ι} {i : ι}

theorem busy_nil : m.Busy s [] := by
  intro q hq
  exact absurd hq List.not_mem_nil

theorem busy_cons : m.Busy s (i :: is) ↔ (m.step s i).1 ≠ s ∧ m.Busy (m.step s i).1 is :=
  List.forall_mem_cons

section Decreasing
variable {I : σ → Prop} {μ : σ → Nat}

theorem Busy.length_add_le (hkeep : ∀ s i, I s → I (m.step s i).1)
    (hdec : ∀ s i, I s → (m.step s i).1 ≠ s → μ (m.step s i).1 < μ s) (hs : I s) (h : m.Busy s is) :
    is.length + μ (m.run s is).1 ≤ μ s := by
  induction is generalizing s with
  | nil =>
      rw [List.length_nil, Nat.zero_add]
      exact Nat.le_refl (μ s)
  | cons i is ih =>
      rw [busy_cons] at h
      have hlt := hdec s i hs h.1
      have hle := ih (hkeep s i hs) h.2
      rw [run_cons, List.length_cons]
      dsimp only
      omega

theorem exists_stuckFor {P : ι → Prop} (hkeep : ∀ s i, P i → I s → I (m.step s i).1)
    (hdec : ∀ s i, P i → I s → (m.step s i).1 ≠ s → μ (m.step s i).1 < μ s) (hs : I s) :
    ∃ is, m.Busy s is ∧ I (m.run s is).1 ∧ m.StuckFor P (m.run s is).1 := by
  induction hn : μ s using Nat.strongRecOn generalizing s with
  | ind n ih =>
      by_cases hstuck : m.StuckFor P s
      · exact ⟨[], busy_nil, hs, hstuck⟩
      · obtain ⟨i, hi⟩ := not_forall.1 hstuck
        obtain ⟨hP, hne⟩ := Classical.not_imp.1 hi
        have hlt := hdec s i hP hs hne
        rw [hn] at hlt
        obtain ⟨is, hbusy, hI, hend⟩ := ih _ hlt (hkeep s i hP hs) rfl
        exact ⟨i :: is, busy_cons.2 ⟨hne, hbusy⟩, hI, hend⟩

theorem exists_stuck (hkeep : ∀ s i, I s → I (m.step s i).1)
    (hdec : ∀ s i, I s → (m.step s i).1 ≠ s → μ (m.step s i).1 < μ s) (hs : I s) :
    ∃ is, m.Busy s is ∧ m.Stuck (m.run s is).1 := by
  obtain ⟨is, hbusy, -, hend⟩ := exists_stuckFor (P := fun _ => True) (fun s i _ => hkeep s i) (fun s i _ => hdec s i) hs
  exact ⟨is, hbusy, fun i => hend i trivial⟩

end Decreasing

end SysSnippets.Lib.Machine
