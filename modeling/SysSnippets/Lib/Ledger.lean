import SysSnippets.Lib.Machine
import Mathlib.Data.List.Count
import Mathlib.Data.Set.Insert
import Mathlib.Tactic.Tauto

/-!
# Ledgers: what is created, used and released

A `Ledger` says which references an event creates, uses and releases, and which events open a new period.

* `Usable t o` : `o` was created in the current period of the trace `t` and not released since
  (`usable_snoc`, `usable_mem_created`, `Usable.since`);
* `Safe` : every use is of something usable;
* `Tidy` : safe, and everything created is released exactly once;
* `Lost` : something was created and not released (`Lost.not_tidy`);
* `Held` : which of what was created is still to be released, the rest being released exactly once (`Held.unique`);
* `balance` : how often something was created, less how often it was released.
-/

namespace SysSnippets.Lib

structure Ledger (ω ρ : Type*) where
  creates : ω → List ρ
  uses : ω → List ρ
  releases : ω → List ρ
  /-- the event opens a new period -/
  opens : ω → Bool

namespace Ledger
variable {ω ρ : Type*} (L : Ledger ω ρ)

def created (t : List ω) : List ρ := t.flatMap L.creates

def released (t : List ω) : List ρ := t.flatMap L.releases

/-- Created since the last opening and not released since. -/
def Usable (t : List ω) (o : ρ) : Prop :=
  ∃ pre e post, t = pre ++ e :: post ∧ o ∈ L.creates e ∧ ∀ d ∈ post, L.opens d = false ∧ o ∉ L.releases d

def Safe (t : List ω) : Prop := Every (fun pre e => ∀ o ∈ L.uses e, L.Usable pre o) t

/-- Every use is of something usable, and everything created is released exactly once. -/
structure Tidy [BEq ρ] (t : List ω) : Prop where
  safe : L.Safe t
  once : ∀ o ∈ L.created t, (L.released t).count o = 1

/-- Created and not released. -/
structure Lost (t : List ω) (o : ρ) : Prop where
  created : o ∈ L.created t
  kept : o ∉ L.released t

/-- Neither creates nor releases, and opens no period. -/
structure Quiet (e : ω) : Prop where
  creates : L.creates e = []
  releases : L.releases e = []
  opens : L.opens e = false

variable {L}
variable {s t : List ω} {e : ω} {o : ρ}

@[simp] theorem created_nil : L.created [] = [] := rfl
@[simp] theorem released_nil : L.released [] = [] := rfl

@[simp] theorem created_cons : L.created (e :: t) = L.creates e ++ L.created t := List.flatMap_cons
@[simp] theorem released_cons : L.released (e :: t) = L.releases e ++ L.released t := List.flatMap_cons

@[simp] theorem created_append : L.created (s ++ t) = L.created s ++ L.created t := List.flatMap_append
@[simp] theorem released_append : L.released (s ++ t) = L.released s ++ L.released t := List.flatMap_append

/-! ## Usable -/

theorem usable_snoc :
    L.Usable (t ++ [e]) o ↔ o ∈ L.creates e ∨ (L.opens e = false ∧ o ∉ L.releases e ∧ L.Usable t o) := by
  constructor
  · rintro ⟨pre, d, post, h, hd, hpost⟩
    rcases snoc_split h with ⟨-, rfl, -⟩ | ⟨post, rfl, rfl⟩
    · exact Or.inl hd
    · have hlast := hpost e (by simp)
      exact Or.inr ⟨hlast.1, hlast.2, pre, d, post, rfl, hd, fun y hy => hpost y (by simp [hy])⟩
  · rintro (h | ⟨hopens, hreleases, pre, d, post, rfl, hd, hpost⟩)
    · exact ⟨t, e, [], rfl, h, by simp⟩
    · refine ⟨pre, d, post ++ [e], by simp, hd, fun x hx => ?_⟩
      rcases List.mem_append.1 hx with hx | hx
      · exact hpost x hx
      · obtain rfl := List.mem_singleton.1 hx
        exact ⟨hopens, hreleases⟩

theorem usable_mem_created (h : L.Usable t o) : o ∈ L.created t := by
  obtain ⟨pre, e, post, rfl, he, -⟩ := h
  rw [created_append, created_cons]
  exact List.mem_append_right _ (List.mem_append_left _ he)

/-- What is usable was created after the last opening. -/
theorem Usable.since (he : L.opens e = true) (h : L.Usable (s ++ e :: t) o) : o ∈ L.creates e ++ L.created t := by
  obtain ⟨pre, d, post, hsplit, hd, hpost⟩ := h
  rcases List.append_eq_append_iff.1 hsplit with ⟨as, rfl, h⟩ | ⟨cs, rfl, h⟩
  · cases as with
    | nil =>
        obtain ⟨rfl, rfl⟩ := List.cons.inj h
        exact List.mem_append_left _ hd
    | cons a as =>
        rw [List.cons_append] at h
        obtain ⟨rfl, rfl⟩ := List.cons.inj h
        apply List.mem_append_right
        rw [created_append, created_cons]
        exact List.mem_append_right _ (List.mem_append_left _ hd)
  · cases cs with
    | nil =>
        obtain ⟨rfl, rfl⟩ := List.cons.inj h
        exact List.mem_append_left _ hd
    | cons c cs =>
        obtain ⟨rfl, rfl⟩ := List.cons.inj h
        have := (hpost e (by simp)).1
        simp [he] at this

theorem created_quiet (h : ∀ e ∈ t, L.Quiet e) : L.created t = [] := by
  rw [created, List.flatMap_eq_nil_iff]
  exact fun e he => (h e he).creates

theorem released_quiet (h : ∀ e ∈ t, L.Quiet e) : L.released t = [] := by
  rw [released, List.flatMap_eq_nil_iff]
  exact fun e he => (h e he).releases

/-- Without an opening and without a release of it, what is usable stays usable. -/
theorem Usable.append (h : L.Usable s o) (hopens : ∀ e ∈ t, L.opens e = false) (ho : o ∉ L.released t) :
    L.Usable (s ++ t) o := by
  obtain ⟨pre, e, post, rfl, he, hpost⟩ := h
  refine ⟨pre, e, post ++ t, by simp, he, fun d hd => ?_⟩
  rcases List.mem_append.1 hd with hd | hd
  · exact hpost d hd
  · exact ⟨hopens d hd, fun hrel => ho (List.mem_flatMap.2 ⟨d, hd, hrel⟩)⟩

/-- Without an opening and without releases, what is created becomes usable. -/
theorem usable_growing (hopens : ∀ e ∈ t, L.opens e = false) (hreleased : L.released t = []) :
    L.Usable (s ++ t) o ↔ L.Usable s o ∨ o ∈ L.created t := by
  induction t generalizing s with
  | nil => simp
  | cons e t ih =>
      rw [released_cons, List.append_eq_nil_iff] at hreleased
      rw [← List.singleton_append, ← List.append_assoc,
        ih (fun d hd => hopens d (List.mem_cons_of_mem _ hd)) hreleased.2, usable_snoc, hreleased.1,
        hopens e List.mem_cons_self]
      simp only [List.not_mem_nil, not_false_eq_true, true_and, List.singleton_append, created_cons,
        List.mem_append]
      tauto

/-- Without creations nothing becomes usable. -/
theorem Usable.of_append (h : L.Usable (s ++ t) o) (hcreated : L.created t = []) : L.Usable s o := by
  induction t generalizing s with
  | nil => rwa [List.append_nil] at h
  | cons e t ih =>
      rw [created_cons, List.append_eq_nil_iff] at hcreated
      rw [← List.singleton_append, ← List.append_assoc] at h
      have hsnoc := ih h hcreated.2
      rw [usable_snoc, hcreated.1] at hsnoc
      rcases hsnoc with hsnoc | hsnoc
      · cases hsnoc
      · exact hsnoc.2.2

theorem usable_quiet (h : ∀ e ∈ t, L.Quiet e) : L.Usable (s ++ t) o ↔ L.Usable s o := by
  rw [usable_growing (fun e he => (h e he).opens) (released_quiet h), created_quiet h]
  simp

/-! ## Safe -/

theorem safe_nil : L.Safe [] := every_nil

theorem safe_append :
    L.Safe (s ++ t) ↔ L.Safe s ∧ Every (fun pre e => ∀ o ∈ L.uses e, L.Usable (s ++ pre) o) t := every_append

theorem safe_snoc : L.Safe (t ++ [e]) ↔ L.Safe t ∧ ∀ o ∈ L.uses e, L.Usable t o := every_snoc

theorem Safe.of_append (h : L.Safe (s ++ t)) : L.Safe s := (safe_append.1 h).1

/-- An event that uses something that is not usable. -/
theorem not_safe (ho : o ∈ L.uses e) (h : ¬L.Usable s o) (t : List ω) : ¬L.Safe (s ++ e :: t) :=
  fun hsafe => h (hsafe s e t rfl o ho)

/-! ## Traces that have released nothing yet -/

/-- Everything created is `os`; it is all usable. -/
structure Grown (L : Ledger ω ρ) (t : List ω) (os : List ρ) : Prop where
  safe : L.Safe t
  created : L.created t = os
  released : L.released t = []
  usable : ∀ o ∈ os, L.Usable t o

/-- Before anything is created a new period may open. -/
theorem Grown.opening (h : L.Grown s []) (hcreates : L.creates e = []) (huses : L.uses e = [])
    (hreleases : L.releases e = []) : L.Grown (s ++ [e]) [] := by
  refine ⟨safe_snoc.2 ⟨h.safe, ?_⟩, ?_, ?_, by simp⟩
  · rw [huses]
    simp
  · simp [h.created, hcreates]
  · simp [h.released, hreleases]

/-- Events that release nothing, and use what was there or what they created. -/
theorem Grown.append {os : List ρ} (h : L.Grown s os) (hopens : ∀ e ∈ t, L.opens e = false)
    (hreleased : L.released t = [])
    (huses : Every (fun pre e => ∀ o ∈ L.uses e, o ∈ os ∨ o ∈ L.created pre) t) :
    L.Grown (s ++ t) (os ++ L.created t) := by
  refine ⟨safe_append.2 ⟨h.safe, fun pre e post hsplit o ho => ?_⟩, ?_, ?_, fun o ho => ?_⟩
  · rw [hsplit, released_append, List.append_eq_nil_iff] at hreleased
    rw [usable_growing (fun d hd => hopens d (by rw [hsplit]; simp [hd])) hreleased.1]
    exact (huses pre e post hsplit o ho).imp (h.usable o) id
  · rw [created_append, h.created]
  · rw [released_append, h.released, hreleased, List.append_nil]
  · rw [usable_growing hopens hreleased]
    exact (List.mem_append.1 ho).imp (h.usable o) id

theorem Grown.quiet {os : List ρ} (h : L.Grown s os) (hquiet : ∀ e ∈ t, L.Quiet e)
    (huses : ∀ e ∈ t, ∀ o ∈ L.uses e, o ∈ os) : L.Grown (s ++ t) os := by
  have hgrown := h.append (fun e he => (hquiet e he).opens) (released_quiet hquiet)
    fun pre e post hsplit o ho => Or.inl (huses e (by rw [hsplit]; simp) o ho)
  rwa [created_quiet hquiet, List.append_nil] at hgrown

/-- Events that create nothing, use what they did not release yet, and release everything once. -/
theorem Grown.tidy [BEq ρ] {os : List ρ} (h : L.Grown s os) (hopens : ∀ e ∈ t, L.opens e = false)
    (hcreated : L.created t = []) (huses : Every (fun pre e => ∀ o ∈ L.uses e, o ∈ os ∧ o ∉ L.released pre) t)
    (honce : ∀ o ∈ os, (L.released t).count o = 1) : L.Tidy (s ++ t) := by
  refine ⟨safe_append.2 ⟨h.safe, fun pre e post hsplit o ho => ?_⟩, fun o ho => ?_⟩
  · obtain ⟨hmem, hkept⟩ := huses pre e post hsplit o ho
    exact (h.usable o hmem).append (fun d hd => hopens d (by rw [hsplit]; simp [hd])) hkept
  · rw [created_append, hcreated, List.append_nil, h.created] at ho
    rw [released_append, h.released, List.nil_append]
    exact honce o ho

/-! ## Lost -/

theorem Lost.append (h : L.Lost s o) (ht : o ∉ L.released t) : L.Lost (s ++ t) o := by
  refine ⟨?_, ?_⟩
  · rw [created_append]
    exact List.mem_append_left _ h.created
  · rw [released_append, List.mem_append, not_or]
    exact ⟨h.kept, ht⟩

theorem Lost.not_tidy [BEq ρ] [LawfulBEq ρ] (h : L.Lost t o) : ¬L.Tidy t := by
  intro htidy
  have hone := htidy.once o h.created
  rw [List.count_eq_zero.2 h.kept] at hone
  cases hone

/-! ## What is held -/

/-- What was created is in `S`, usable and not released, or it was released exactly once. -/
structure Held [BEq ρ] (L : Ledger ω ρ) (t : List ω) (S : Set ρ) : Prop where
  safe : L.Safe t
  usable : ∀ o ∈ S, L.Usable t o
  kept : ∀ o ∈ S, o ∉ L.released t
  once : ∀ o ∈ L.created t, o ∉ S → (L.released t).count o = 1
  known : ∀ o ∈ L.released t, o ∈ L.created t

section Held
variable [BEq ρ] {S S' : Set ρ}

theorem Held.nil : L.Held [] ∅ :=
  ⟨safe_nil, fun _ h => h.elim, fun _ h => h.elim, fun _ h => absurd h List.not_mem_nil, fun _ h => h⟩

theorem Held.created (h : L.Held t S) (ho : o ∈ S) : o ∈ L.created t := usable_mem_created (h.usable o ho)

theorem Lost.mem_held [LawfulBEq ρ] (h : L.Lost t o) (hheld : L.Held t S) : o ∈ S := by
  by_contra hout
  have hone := hheld.once o h.created hout
  rw [List.count_eq_zero.2 h.kept] at hone
  omega

/-- What is held is determined by the trace. -/
theorem Held.unique [LawfulBEq ρ] (h : L.Held t S) (h' : L.Held t S') : S = S' := by
  have hsub : ∀ {S S' : Set ρ}, L.Held t S → L.Held t S' → S ⊆ S' := by
    intro S S' h h' o ho
    exact Lost.mem_held ⟨h.created ho, h.kept o ho⟩ h'
  apply Set.Subset.antisymm
  · exact hsub h h'
  · exact hsub h' h

theorem Held.iff [LawfulBEq ρ] (h : L.Held t S) : L.Held t S' ↔ S = S' := by
  constructor
  · exact h.unique
  · rintro rfl
    exact h

/-- An event that uses what is held. -/
theorem Held.quiet (h : L.Held t S) (he : L.Quiet e) (huses : ∀ o ∈ L.uses e, o ∈ S) : L.Held (t ++ [e]) S := by
  have hcreated : L.created (t ++ [e]) = L.created t := by simp [he.creates]
  have hreleased : L.released (t ++ [e]) = L.released t := by simp [he.releases]
  refine ⟨safe_snoc.2 ⟨h.safe, fun o ho => h.usable o (huses o ho)⟩, fun o ho => ?_, ?_, ?_, ?_⟩
  · apply usable_snoc.2
    rw [he.releases]
    exact Or.inr ⟨he.opens, List.not_mem_nil, h.usable o ho⟩
  · rw [hreleased]
    exact h.kept
  · rw [hcreated, hreleased]
    exact h.once
  · rw [hcreated, hreleased]
    exact h.known

/-- An event that creates something new. -/
theorem Held.create (h : L.Held t S) (hcreates : L.creates e = [o]) (huses : ∀ x ∈ L.uses e, x ∈ S)
    (hreleases : L.releases e = []) (hopens : L.opens e = false) (hnew : o ∉ L.created t) :
    L.Held (t ++ [e]) (insert o S) := by
  have hcreated : ∀ x, x ∈ L.created (t ++ [e]) ↔ x ∈ L.created t ∨ x = o := by simp [hcreates]
  have hreleased : L.released (t ++ [e]) = L.released t := by simp [hreleases]
  refine ⟨safe_snoc.2 ⟨h.safe, fun x hx => h.usable x (huses x hx)⟩, ?_, ?_, ?_, ?_⟩
  · intro x hx
    apply usable_snoc.2
    rw [hcreates, hreleases]
    rcases Set.mem_insert_iff.1 hx with rfl | hx
    · exact Or.inl List.mem_cons_self
    · exact Or.inr ⟨hopens, List.not_mem_nil, h.usable x hx⟩
  · intro x hx
    rw [hreleased]
    rcases Set.mem_insert_iff.1 hx with rfl | hx
    · exact fun hrel => hnew (h.known x hrel)
    · exact h.kept x hx
  · intro x hx hout
    rw [hreleased]
    rw [Set.mem_insert_iff, not_or] at hout
    exact h.once x (((hcreated x).1 hx).resolve_right hout.1) hout.2
  · intro x hx
    rw [hreleased] at hx
    exact (hcreated x).2 (Or.inl (h.known x hx))

/-- An event that releases something held. -/
theorem Held.release [LawfulBEq ρ] (h : L.Held t S) (hreleases : L.releases e = [o]) (huses : ∀ x ∈ L.uses e, x ∈ S)
    (hcreates : L.creates e = []) (hopens : L.opens e = false) (ho : o ∈ S) : L.Held (t ++ [e]) (S \ {o}) := by
  have hcreated : L.created (t ++ [e]) = L.created t := by simp [hcreates]
  have hreleased : L.released (t ++ [e]) = L.released t ++ [o] := by simp [hreleases]
  refine ⟨safe_snoc.2 ⟨h.safe, fun x hx => h.usable x (huses x hx)⟩, ?_, ?_, ?_, ?_⟩
  · rintro x ⟨hx, hne⟩
    apply usable_snoc.2
    rw [hreleases]
    exact Or.inr ⟨hopens, fun hmem => hne (List.mem_singleton.1 hmem), h.usable x hx⟩
  · rintro x ⟨hx, hne⟩
    rw [hreleased, List.mem_append, not_or]
    exact ⟨h.kept x hx, fun hmem => hne (List.mem_singleton.1 hmem)⟩
  · intro x hx hout
    rw [hcreated] at hx
    rw [hreleased, List.count_append]
    by_cases hxo : x = o
    · subst hxo
      rw [List.count_eq_zero.2 (h.kept x ho), List.count_singleton_self]
    · have hnone : [o].count x = 0 := List.count_eq_zero.2 fun hmem => hxo (List.mem_singleton.1 hmem)
      rw [hnone]
      exact h.once x hx fun hmem => hout ⟨hmem, hxo⟩
  · intro x hx
    rw [hcreated]
    rw [hreleased, List.mem_append, List.mem_singleton] at hx
    rcases hx with hx | rfl
    · exact h.known x hx
    · exact h.created ho

end Held

/-! ## Balance -/

/-- How many of a kind are held. -/
def balance [BEq ρ] (L : Ledger ω ρ) (o : ρ) (t : List ω) : Int := (L.created t).count o - (L.released t).count o

section Balance
variable [BEq ρ]

@[simp] theorem balance_nil : L.balance o [] = 0 := rfl

@[simp] theorem balance_append : L.balance o (s ++ t) = L.balance o s + L.balance o t := by
  simp only [balance, created_append, released_append, List.count_append]
  omega

theorem balance_cons : L.balance o (e :: t) = L.balance o [e] + L.balance o t := by
  rw [← List.singleton_append, balance_append]

end Balance

end Ledger

end SysSnippets.Lib
