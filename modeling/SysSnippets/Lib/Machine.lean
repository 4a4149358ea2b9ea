import Mathlib.Data.List.Basic
import Mathlib.Data.List.Induction

/-!
# Reactive machines and their runs

A `Machine` answers every input with a new state and a list of observations; an input that the state
cannot take leaves it alone and shows nothing, so a schedule is a list of inputs.

* `run` : the state reached and everything observed;
* `run_append` : a run is a prefix followed by the rest;
* `Every P h` : each observation of the history `h` satisfies `P` of what came before it
  (`every_append`, `every_singleton`);
* `run_inv` : an invariant relating history and state, kept by a step, is kept by a run;
* `run_inv_of_every` : the same where a step has to keep it only if what it shows satisfies `P`;
* `run_sim` : simulation between two machines;
* `moments` : the state before each input; `every_moments` and `every_moments_iff` : a condition on the
  moments that keeps an invariant, and what holds at each moment then.
-/

namespace SysSnippets.Lib

/-- A deterministic machine that takes inputs and shows observations. -/
structure Machine (σ ι ω : Type*) where
  /-- The state after one input, and what the step shows. -/
  step : σ → ι → σ × List ω

/-- Each observation satisfies `P` of the history before it. -/
def Every {ω : Type*} (P : List ω → ω → Prop) (h : List ω) : Prop :=
  ∀ pre o post, h = pre ++ o :: post → P pre o

/-- Where an element of `t ++ [e]` is: at the end, or in `t`. -/
theorem snoc_split {ω : Type*} {t pre post : List ω} {e d : ω} (h : t ++ [e] = pre ++ d :: post) :
    (t = pre ∧ e = d ∧ post = []) ∨ ∃ post', post = post' ++ [e] ∧ t = pre ++ d :: post' := by
  rcases List.eq_nil_or_concat post with rfl | ⟨post', x, rfl⟩
  · obtain ⟨ht, he⟩ := List.append_inj' h rfl
    exact Or.inl ⟨ht, List.singleton_inj.1 he, rfl⟩
  · have hsplit : t ++ [e] = (pre ++ d :: post') ++ [x] := by simpa using h
    obtain ⟨ht, he⟩ := List.append_inj' hsplit rfl
    obtain rfl := List.singleton_inj.1 he
    exact Or.inr ⟨post', List.concat_eq_append, ht⟩

section Every
variable {ω : Type*} {P Q : List ω → ω → Prop}

theorem every_nil : Every P [] := by
  intro pre o post h
  simp at h

theorem every_append {h₁ h₂ : List ω} :
    Every P (h₁ ++ h₂) ↔ Every P h₁ ∧ Every (fun pre o => P (h₁ ++ pre) o) h₂ := by
  constructor
  · intro h
    refine ⟨fun pre o post e => ?_, fun pre o post e => ?_⟩
    · exact h pre o (post ++ h₂) (by rw [e]; simp)
    · exact h (h₁ ++ pre) o post (by rw [e]; simp)
  · rintro ⟨hl, hr⟩ pre o post e
    rcases List.append_eq_append_iff.1 e with ⟨as, hpre, hh₂⟩ | ⟨cs, hh₁, hcons⟩
    · rw [hpre]
      exact hr as o post hh₂
    · cases cs with
      | nil =>
          simp only [List.append_nil, List.nil_append] at hh₁ hcons
          rw [← hh₁, ← List.append_nil h₁]
          exact hr [] o post (by simpa using hcons.symm)
      | cons c cs =>
          simp only [List.cons_append, List.cons.injEq] at hcons
          obtain ⟨rfl, -⟩ := hcons
          exact hl pre o cs hh₁

theorem every_singleton {o : ω} : Every P [o] ↔ P [] o := by
  constructor
  · intro h
    exact h [] o [] rfl
  · intro h pre o' post e
    cases pre with
    | nil =>
        simp only [List.nil_append, List.cons.injEq] at e
        rw [← e.1]
        exact h
    | cons x pre => simp at e

/-- The next observation of a history. -/
theorem every_snoc {h : List ω} {o : ω} : Every P (h ++ [o]) ↔ Every P h ∧ P h o := by
  rw [every_append, every_singleton, List.append_nil]

/-- The first observation of a history. -/
theorem every_cons {h : List ω} {o : ω} :
    Every P (o :: h) ↔ P [] o ∧ Every (fun pre => P (o :: pre)) h := by
  rw [← List.singleton_append, every_append, every_singleton]
  rfl

/-- A condition that does not look back. -/
theorem every_const {p : ω → Prop} {h : List ω} : Every (fun _ o => p o) h ↔ ∀ o ∈ h, p o := by
  induction h with
  | nil => exact iff_of_true every_nil fun o ho => absurd ho List.not_mem_nil
  | cons o h ih => rw [every_cons, ih, List.forall_mem_cons]

instance Every.decidable : ∀ (P : List ω → ω → Prop) [∀ pre o, Decidable (P pre o)] (h : List ω),
    Decidable (Every P h)
  | _, _, [] => isTrue every_nil
  | P, _, o :: h =>
      have := Every.decidable (fun pre => P (o :: pre)) h
      decidable_of_iff _ every_cons.symm

end Every

namespace Machine
variable {σ ι ω : Type*} (m : Machine σ ι ω)

/-- The state a list of inputs leads to, and everything shown on the way. -/
def run (s : σ) : List ι → σ × List ω
  | [] => (s, [])
  | i :: is => ((run (m.step s i).1 is).1, (m.step s i).2 ++ (run (m.step s i).1 is).2)

@[simp] theorem run_nil (s : σ) : m.run s [] = (s, []) := rfl

theorem run_cons (s : σ) (i : ι) (is : List ι) :
    m.run s (i :: is) =
      ((m.run (m.step s i).1 is).1, (m.step s i).2 ++ (m.run (m.step s i).1 is).2) := rfl

theorem run_append (s : σ) (is js : List ι) :
    m.run s (is ++ js) =
      ((m.run (m.run s is).1 js).1, (m.run s is).2 ++ (m.run (m.run s is).1 js).2) := by
  induction is generalizing s with
  | nil => rfl
  | cons i is ih => simp only [List.cons_append, run_cons, ih, List.append_assoc]

section Invariant
variable {m} {P : List ω → ω → Prop} {I : List ω → σ → Prop}

/-- **The conditional invariant rule.** A step keeps the invariant whenever its own observations
satisfy `P`; so does every run whose observations do. -/
theorem run_inv_of_every
    (hstep : ∀ h s i, I h s → Every (fun pre o => P (h ++ pre) o) (m.step s i).2 →
      I (h ++ (m.step s i).2) (m.step s i).1) :
    ∀ (is : List ι) (h : List ω) (s : σ), I h s →
      Every (fun pre o => P (h ++ pre) o) (m.run s is).2 →
      I (h ++ (m.run s is).2) (m.run s is).1 := by
  intro is
  induction is with
  | nil =>
      intro h s hinv _
      simpa using hinv
  | cons i is ih =>
      intro h s hinv hP
      rw [run_cons] at hP ⊢
      rw [every_append] at hP
      have hnext := hstep h s i hinv hP.1
      have := ih (h ++ (m.step s i).2) (m.step s i).1 hnext
        (by simpa only [List.append_assoc] using hP.2)
      simpa only [List.append_assoc] using this

/-- **The invariant rule.** What one step keeps, every run keeps. -/
theorem run_inv
    (hstep : ∀ h s i, I h s → I (h ++ (m.step s i).2) (m.step s i).1)
    (is : List ι) (h : List ω) (s : σ) (hinv : I h s) :
    I (h ++ (m.run s is).2) (m.run s is).1 :=
  run_inv_of_every (P := fun _ _ => True) (fun h s i hi _ => hstep h s i hi) is h s hinv
    (fun _ _ _ _ => trivial)

/-- The invariant rule where the invariant also knows the inputs taken. -/
theorem run_inputs_inv {J : List ι → List ω → σ → Prop} {r : σ} (hstart : J [] [] r)
    (hstep : ∀ is h s i, J is h s → J (is ++ [i]) (h ++ (m.step s i).2) (m.step s i).1) (is : List ι) :
    J is (m.run r is).2 (m.run r is).1 := by
  induction is using List.reverseRec with
  | nil => exact hstart
  | append_singleton is i ih =>
      have h := hstep is _ _ i ih
      rwa [run_append, run_cons, run_nil, List.append_nil]

end Invariant

/-- **Simulation.** Two machines that show the same at every step, in states that stay related, show the same. -/
theorem run_sim {τ : Type*} {m : Machine σ ι ω} {m' : Machine τ ι ω} {R : σ → τ → Prop}
    (hstep : ∀ s t i, R s t → R (m.step s i).1 (m'.step t i).1 ∧ (m.step s i).2 = (m'.step t i).2)
    (is : List ι) {s : σ} {t : τ} (h : R s t) :
    R (m.run s is).1 (m'.run t is).1 ∧ (m.run s is).2 = (m'.run t is).2 := by
  induction is generalizing s t with
  | nil => exact ⟨h, rfl⟩
  | cons i is ih =>
      obtain ⟨hnext, hshown⟩ := hstep s t i h
      obtain ⟨hlast, hrest⟩ := ih hnext
      rw [run_cons, run_cons, hshown, hrest]
      exact ⟨hlast, rfl⟩

/-- Each input with the state it finds. -/
def moments (s : σ) : List ι → List (σ × ι)
  | [] => []
  | i :: is => (s, i) :: moments (m.step s i).1 is

theorem moments_append (s : σ) (is js : List ι) :
    m.moments s (is ++ js) = m.moments s is ++ m.moments (m.run s is).1 js := by
  induction is generalizing s with
  | nil => rfl
  | cons i is ih => exact congrArg ((s, i) :: ·) (ih (m.step s i).1)

theorem moments_snoc (s : σ) (is : List ι) (i : ι) :
    m.moments s (is ++ [i]) = m.moments s is ++ [((m.run s is).1, i)] :=
  m.moments_append s is [i]

theorem run_snoc (s : σ) (is : List ι) (i : ι) : (m.run s (is ++ [i])).1 = (m.step (m.run s is).1 i).1 := by
  rw [run_append]
  rfl

section Moments
variable {m} {A : ι → Prop} {I : List (σ × ι) → σ → Prop} {G P : List (σ × ι) → σ × ι → Prop} {s₀ : σ}

/-- **The guarded invariant rule.** Inputs satisfy `A`; an input that satisfies the guard keeps the invariant. -/
theorem inv_of_every_moments (hstart : I [] s₀)
    (hstep : ∀ h s i, A i → I h s → G h (s, i) → I (h ++ [(s, i)]) (m.step s i).1) {is : List ι}
    (his : ∀ i ∈ is, A i) (hG : Every G (m.moments s₀ is)) : I (m.moments s₀ is) (m.run s₀ is).1 := by
  induction is using List.reverseRec with
  | nil => exact hstart
  | append_singleton is i ih =>
      rw [moments_snoc, every_snoc] at hG
      rw [moments_snoc, run_snoc]
      exact hstep _ _ i (his i (by simp)) (ih (fun j hj => his j (List.mem_append_left _ hj)) hG.1) hG.2

/-- What the guard and the invariant imply holds at every moment. -/
theorem every_moments (hstart : I [] s₀)
    (hstep : ∀ h s i, A i → I h s → G h (s, i) → I (h ++ [(s, i)]) (m.step s i).1)
    (hP : ∀ h s i, A i → I h s → G h (s, i) → P h (s, i)) {is : List ι}
    (his : ∀ i ∈ is, A i) (hG : Every G (m.moments s₀ is)) : Every P (m.moments s₀ is) := by
  induction is using List.reverseRec with
  | nil => exact every_nil
  | append_singleton is i ih =>
      have his' : ∀ j ∈ is, A j := fun j hj => his j (List.mem_append_left _ hj)
      rw [moments_snoc, every_snoc] at hG ⊢
      exact ⟨ih his' hG.1, hP _ _ i (his i (by simp)) (inv_of_every_moments hstart hstep his' hG.1) hG.2⟩

/-- A guard that says exactly what is wanted. -/
theorem every_moments_iff (hstart : I [] s₀)
    (hstep : ∀ h s i, A i → I h s → G h (s, i) → I (h ++ [(s, i)]) (m.step s i).1)
    (hiff : ∀ h s i, A i → I h s → (P h (s, i) ↔ G h (s, i))) {is : List ι} (his : ∀ i ∈ is, A i) :
    Every P (m.moments s₀ is) ↔ Every G (m.moments s₀ is) := by
  refine ⟨fun hP => ?_, every_moments hstart hstep (fun h s i hi hI => (hiff h s i hi hI).2) his⟩
  induction is using List.reverseRec with
  | nil => exact every_nil
  | append_singleton is i ih =>
      have his' : ∀ j ∈ is, A j := fun j hj => his j (List.mem_append_left _ hj)
      rw [moments_snoc, every_snoc] at hP ⊢
      have hG := ih his' hP.1
      exact ⟨hG, (hiff _ _ i (his i (by simp)) (inv_of_every_moments hstart hstep his' hG)).1 hP.2⟩

end Moments

end Machine

end SysSnippets.Lib
