import SysSnippets.Lib.Ledger
import Mathlib.Data.List.Nodup

/-!
# Scopes: what a function has open on its way to the return

A function that leaves by a chain of cleanup labels has a list of objects open at each point of it. Some objects may be
`kept` for good.

* `Cleaned` : safe, what is kept is never released, and everything else that was created is released exactly once;
  `CleanedBut` : some of it may stay;
* `Scope C t os` : the trace `t` has created what is in `C`, `os` is still open, the rest is cleaned;
* `Steps C os es C' os'` : the calls `es` take a scope to another; `Steps.cons` and `Steps.append` put calls together, and
  `steps_acquire`, `steps_keep`, `steps_quiet`, `steps_release` are the four kinds of calls;
* `Scope.cleaned_iff`, `Scope.cleanedBut_iff` : a function has cleaned if and only if nothing is open at its end, or
  only what may stay.
-/

namespace SysSnippets.Lib.Ledger
variable {ω ρ : Type*} [BEq ρ] (L : Ledger ω ρ) (kept : Set ρ)

structure Cleaned (t : List ω) : Prop where
  safe : L.Safe t
  once : ∀ o ∈ L.created t, o ∉ kept → (L.released t).count o = 1
  kept : ∀ o ∈ L.created t, o ∈ kept → o ∉ L.released t

structure CleanedBut (may : Set ρ) (t : List ω) : Prop where
  safe : L.Safe t
  once : ∀ o ∈ L.created t, o ∉ kept → o ∉ may → (L.released t).count o = 1
  kept : ∀ o ∈ L.created t, o ∈ kept → o ∉ L.released t

structure Scope (C : Set ρ) (t : List ω) (os : List ρ) : Prop where
  held : L.Held t {o | o ∈ os ∨ o ∈ C ∧ o ∈ kept}
  created : ∀ o, o ∈ L.created t ↔ o ∈ C
  apart : ∀ o ∈ os, o ∉ kept
  nodup : os.Nodup

variable {L kept}
variable {C C' : Set ρ} {t : List ω} {os os' : List ρ} {e : ω} {o : ρ}

theorem cleanedBut_empty_iff : L.CleanedBut kept ∅ t ↔ L.Cleaned kept t :=
  ⟨fun h => ⟨h.safe, fun o ho hout => h.once o ho hout (Set.notMem_empty o), h.kept⟩,
    fun h => ⟨h.safe, fun o ho hout _ => h.once o ho hout, h.kept⟩⟩

theorem Scope.nil : L.Scope kept ∅ [] [] := by
  refine ⟨?_, by simp, by simp, List.nodup_nil⟩
  have hnone : {o : ρ | o ∈ ([] : List ρ) ∨ o ∈ (∅ : Set ρ) ∧ o ∈ kept} = ∅ := by
    ext o
    simp
  rw [hnone]
  exact Held.nil

theorem Scope.perm (h : L.Scope kept C t os) (hperm : os.Perm os') : L.Scope kept C t os' := by
  refine ⟨?_, h.created, fun o ho => h.apart o (hperm.mem_iff.2 ho), hperm.nodup_iff.1 h.nodup⟩
  have hsame : {o | o ∈ os' ∨ o ∈ C ∧ o ∈ kept} = {o | o ∈ os ∨ o ∈ C ∧ o ∈ kept} := by
    ext o
    simp only [Set.mem_ofPred_eq, hperm.mem_iff]
  rw [hsame]
  exact h.held

/-- A call that changes nothing, and uses what is open or kept. -/
theorem Scope.quiet (h : L.Scope kept C t os) (he : L.Quiet e) (huses : ∀ o ∈ L.uses e, o ∈ os ∨ o ∈ C ∧ o ∈ kept) :
    L.Scope kept C (t ++ [e]) os := by
  refine ⟨h.held.quiet he huses, fun o => ?_, h.apart, h.nodup⟩
  rw [created_append, created_cons, he.creates]
  simpa using h.created o

section Create
variable (h : L.Scope kept C t os) (hcreates : L.creates e = [o]) (hreleases : L.releases e = [])
  (hopens : L.opens e = false) (huses : ∀ x ∈ L.uses e, x ∈ os ∨ x ∈ C ∧ x ∈ kept) (hnew : o ∉ C)
include h hcreates hreleases hopens huses hnew

theorem Scope.acquire (ho : o ∉ kept) : L.Scope kept (insert o C) (t ++ [e]) (o :: os) := by
  have hheld := h.held.create hcreates huses hreleases hopens fun hmem => hnew ((h.created o).1 hmem)
  refine ⟨?_, fun x => ?_, ?_, List.nodup_cons.2 ⟨fun hmem => ?_, h.nodup⟩⟩
  · have hsame : {x | x ∈ o :: os ∨ x ∈ insert o C ∧ x ∈ kept} = insert o {x | x ∈ os ∨ x ∈ C ∧ x ∈ kept} := by
      ext x
      simp only [Set.mem_ofPred_eq, List.mem_cons, Set.mem_insert_iff]
      by_cases hx : x = o
      · simp [hx]
      · simp [hx]
    rw [hsame]
    exact hheld
  · rw [created_append, created_cons, hcreates, Set.mem_insert_iff, ← h.created]
    simp [or_comm]
  · intro x hx
    rcases List.mem_cons.1 hx with rfl | hx
    · exact ho
    · exact h.apart x hx
  · exact hnew ((h.created o).1 (h.held.created (Or.inl hmem)))

theorem Scope.keep (ho : o ∈ kept) : L.Scope kept (insert o C) (t ++ [e]) os := by
  have hheld := h.held.create hcreates huses hreleases hopens fun hmem => hnew ((h.created o).1 hmem)
  refine ⟨?_, fun x => ?_, h.apart, h.nodup⟩
  · have hsame : {x | x ∈ os ∨ x ∈ insert o C ∧ x ∈ kept} = insert o {x | x ∈ os ∨ x ∈ C ∧ x ∈ kept} := by
      ext x
      simp only [Set.mem_ofPred_eq, Set.mem_insert_iff]
      by_cases hx : x = o
      · simp [hx, ho]
      · simp [hx]
    rw [hsame]
    exact hheld
  · rw [created_append, created_cons, hcreates, Set.mem_insert_iff, ← h.created]
    simp [or_comm]

end Create

variable [LawfulBEq ρ]

/-- A call that releases what was opened last. -/
theorem Scope.release (h : L.Scope kept C t (o :: os)) (hreleases : L.releases e = [o]) (hcreates : L.creates e = [])
    (hopens : L.opens e = false) (huses : ∀ x ∈ L.uses e, x ∈ o :: os ∨ x ∈ C ∧ x ∈ kept) :
    L.Scope kept C (t ++ [e]) os := by
  have hheld := h.held.release hreleases huses hcreates hopens (Or.inl List.mem_cons_self)
  obtain ⟨hout, hnodup⟩ := List.nodup_cons.1 h.nodup
  refine ⟨?_, fun x => ?_, fun x hx => h.apart x (List.mem_cons_of_mem _ hx), hnodup⟩
  · have hsame : {x | x ∈ os ∨ x ∈ C ∧ x ∈ kept} = {x | x ∈ o :: os ∨ x ∈ C ∧ x ∈ kept} \ {o} := by
      ext x
      simp only [Set.mem_ofPred_eq, Set.mem_sdiff, List.mem_cons, Set.mem_singleton_iff]
      by_cases hx : x = o
      · subst hx
        simp [hout, h.apart x List.mem_cons_self]
      · simp [hx]
    rw [hsame]
    exact hheld
  · rw [created_append, created_cons, hcreates]
    simpa using h.created x

theorem Scope.cleanedBut_iff (h : L.Scope kept C t os) {may : Set ρ} :
    L.CleanedBut kept may t ↔ ∀ o ∈ os, o ∈ may := by
  constructor
  · intro hcleaned o ho
    by_contra hout
    have hone := hcleaned.once o (h.held.created (Or.inl ho)) (h.apart o ho) hout
    rw [List.count_eq_zero.2 (h.held.kept o (Or.inl ho))] at hone
    omega
  · intro hmay
    refine ⟨h.held.safe, fun o hcreated hout hmust => ?_, fun o hcreated hkept => ?_⟩
    · have hopen : o ∉ os := fun ho => hmust (hmay o ho)
      apply h.held.once o hcreated
      simp [hopen, hout]
    · apply h.held.kept o
      exact Or.inr ⟨(h.created o).1 hcreated, hkept⟩

theorem Scope.cleaned_iff (h : L.Scope kept C t os) : L.Cleaned kept t ↔ os = [] := by
  rw [← cleanedBut_empty_iff, h.cleanedBut_iff, List.eq_nil_iff_forall_not_mem]
  rfl

/-! ## Calls one after the other -/

section Steps
omit [LawfulBEq ρ]
variable (L kept) in
def Steps (C : Set ρ) (os : List ρ) (es : List ω) (C' : Set ρ) (os' : List ρ) : Prop :=
  ∀ t, L.Scope kept C t os → L.Scope kept C' (t ++ es) os'

variable {C₁ C₂ : Set ρ} {os₁ os₂ : List ρ} {es es' : List ω}

theorem Steps.nil : L.Steps kept C os [] C os := by
  intro t h
  rwa [List.append_nil]

theorem Steps.append (h : L.Steps kept C os es C₁ os₁) (h' : L.Steps kept C₁ os₁ es' C₂ os₂) :
    L.Steps kept C os (es ++ es') C₂ os₂ := by
  intro t hscope
  rw [← List.append_assoc]
  exact h' _ (h t hscope)

theorem Steps.cons (h : L.Steps kept C os [e] C₁ os₁) (h' : L.Steps kept C₁ os₁ es C₂ os₂) :
    L.Steps kept C os (e :: es) C₂ os₂ :=
  h.append h'

theorem Steps.perm (h : L.Steps kept C os es C₁ os₁) (hperm : os₁.Perm os₂) : L.Steps kept C os es C₁ os₂ :=
  fun t hscope => (h t hscope).perm hperm

theorem steps_quiet (he : L.Quiet e) (huses : ∀ o ∈ L.uses e, o ∈ os ∨ o ∈ C ∧ o ∈ kept) :
    L.Steps kept C os [e] C os :=
  fun _ h => h.quiet he huses

theorem steps_acquire (hcreates : L.creates e = [o]) (hreleases : L.releases e = []) (hopens : L.opens e = false)
    (huses : ∀ x ∈ L.uses e, x ∈ os ∨ x ∈ C ∧ x ∈ kept) (hnew : o ∉ C) (ho : o ∉ kept) :
    L.Steps kept C os [e] (insert o C) (o :: os) :=
  fun _ h => h.acquire hcreates hreleases hopens huses hnew ho

theorem steps_keep (hcreates : L.creates e = [o]) (hreleases : L.releases e = []) (hopens : L.opens e = false)
    (huses : ∀ x ∈ L.uses e, x ∈ os ∨ x ∈ C ∧ x ∈ kept) (hnew : o ∉ C) (ho : o ∈ kept) :
    L.Steps kept C os [e] (insert o C) os :=
  fun _ h => h.keep hcreates hreleases hopens huses hnew ho

end Steps

theorem steps_release (hreleases : L.releases e = [o]) (hcreates : L.creates e = []) (hopens : L.opens e = false)
    (huses : ∀ x ∈ L.uses e, x ∈ o :: os ∨ x ∈ C ∧ x ∈ kept) : L.Steps kept C (o :: os) [e] C os :=
  fun _ h => h.release hreleases hcreates hopens huses

end SysSnippets.Lib.Ledger
