import Mathlib.Data.List.Basic

/-!
# Loops that run on their own

A `Loop` says what one iteration does and where it goes on from. It need not end.

* `iterate n s` : what the first `n` iterations from `s` do, and the state after them, `none` when the loop was left;
* `Ends s t` : the loop is left, having done `t` (`Ends.unique`);
* `Reaches s s'` : an iteration starts from `s'`; what it does is done by the loop (`Ends.mem_iff`);
* `Leads s t s'` : some iterations get from `s` to `s'`, having done `t`;
* `iterate_inv`, `Reaches.inv` : what each iteration keeps;
* `ends_of_decreasing` : a measure that goes down; `not_ends` : a state that always comes back.
-/

namespace SysSnippets.Lib

structure Loop (σ ω : Type*) where
  /-- what an iteration does, and the state the next one starts from; `none` leaves the loop -/
  step : σ → List ω × Option σ

namespace Loop
variable {σ ω : Type*} (L : Loop σ ω)

/-- The first `n` iterations. -/
def iterate : Nat → σ → List ω × Option σ
  | 0, s => ([], some s)
  | n + 1, s =>
      match L.step s with
      | (t, none) => (t, none)
      | (t, some s) => (t ++ (iterate n s).1, (iterate n s).2)

/-- The loop is left after some number of iterations. -/
def Ends (s : σ) (t : List ω) : Prop := ∃ n, L.iterate n s = (t, none)

/-- Some iterations get from `s` to `s'` and do `t`. -/
def Leads (s : σ) (t : List ω) (s' : σ) : Prop := ∃ n, L.iterate n s = (t, some s')

/-- An iteration starts from `s'`. -/
def Reaches (s s' : σ) : Prop := ∃ n, (L.iterate n s).2 = some s'

variable {L}
variable {s s' s'' : σ} {t u : List ω} {n k : Nat}

@[simp] theorem iterate_zero : L.iterate 0 s = ([], some s) := rfl

theorem iterate_left (h : L.step s = (t, none)) : L.iterate (n + 1) s = (t, none) := by
  rw [iterate, h]

theorem iterate_next (h : L.step s = (t, some s')) :
    L.iterate (n + 1) s = (t ++ (L.iterate n s').1, (L.iterate n s').2) := by
  rw [iterate, h]

/-- A last iteration. -/
theorem iterate_snoc (h : (L.iterate n s).2 = some s') :
    L.iterate (n + 1) s = ((L.iterate n s).1 ++ (L.step s').1, (L.step s').2) := by
  induction n generalizing s with
  | zero =>
      obtain rfl := Option.some.inj h
      rcases hstep : L.step s with ⟨t, _ | r⟩
      · exact iterate_left hstep
      · rw [iterate_next hstep]
        simp
  | succ n ih =>
      rcases hstep : L.step s with ⟨t, _ | r⟩
      · rw [iterate_left hstep] at h
        cases h
      · rw [iterate_next hstep] at h
        rw [iterate_next hstep, iterate_next hstep, ih h, List.append_assoc]

/-- Once the loop is left nothing more is done. -/
theorem iterate_stop (h : (L.iterate n s).2 = none) : L.iterate (n + k) s = L.iterate n s := by
  induction n generalizing s with
  | zero => cases h
  | succ n ih =>
      rw [Nat.add_right_comm]
      rcases hstep : L.step s with ⟨t, _ | r⟩
      · rw [iterate_left hstep, iterate_left hstep]
      · rw [iterate_next hstep] at h
        rw [iterate_next hstep, iterate_next hstep, ih h]

/-! ## Ends -/

theorem Ends.left (h : L.step s = (t, none)) : L.Ends s t := ⟨1, iterate_left h⟩

theorem Ends.next (h : L.step s = (t, some s')) (hrest : L.Ends s' u) : L.Ends s (t ++ u) := by
  obtain ⟨n, hn⟩ := hrest
  refine ⟨n + 1, ?_⟩
  rw [iterate_next h, hn]

theorem Ends.of_next (hends : L.Ends s t) (h : L.step s = (u, some s')) : ∃ v, t = u ++ v ∧ L.Ends s' v := by
  obtain ⟨n, hn⟩ := hends
  cases n with
  | zero => cases hn
  | succ n =>
      rw [iterate_next h, Prod.mk.injEq] at hn
      exact ⟨(L.iterate n s').1, hn.1.symm, n, Prod.ext rfl hn.2⟩

theorem Ends.of_left (hends : L.Ends s t) (h : L.step s = (u, none)) : t = u := by
  obtain ⟨n, hn⟩ := hends
  cases n with
  | zero => cases hn
  | succ n =>
      rw [iterate_left h] at hn
      exact (congrArg Prod.fst hn).symm

theorem Ends.step_subset (hends : L.Ends s t) : (L.step s).1 ⊆ t := by
  rcases hstep : L.step s with ⟨u, _ | r⟩
  · rw [hends.of_left hstep]
    exact fun e he => he
  · obtain ⟨v, rfl, -⟩ := hends.of_next hstep
    exact List.subset_append_left u v

theorem Ends.unique (h : L.Ends s t) (h' : L.Ends s u) : t = u := by
  obtain ⟨n, hn⟩ := h
  induction n generalizing s t u with
  | zero => cases hn
  | succ n ih =>
      rcases hstep : L.step s with ⟨v, _ | r⟩
      · rw [Ends.of_left ⟨n + 1, hn⟩ hstep, h'.of_left hstep]
      · obtain ⟨w, rfl, hw⟩ := h'.of_next hstep
        rw [iterate_next hstep, Prod.mk.injEq] at hn
        rw [← hn.1]
        exact congrArg (v ++ ·) (ih hw (Prod.ext rfl hn.2))

theorem iterate_inv {J : List ω → Option σ → Prop} (hstart : J [] (some s))
    (hstep : ∀ t s, J t (some s) → J (t ++ (L.step s).1) (L.step s).2) (n : Nat) :
    J (L.iterate n s).1 (L.iterate n s).2 := by
  induction n with
  | zero => exact hstart
  | succ n ih =>
      cases h : (L.iterate n s).2 with
      | none =>
          rw [iterate_stop h]
          exact ih
      | some r =>
          rw [iterate_snoc h]
          rw [h] at ih
          exact hstep _ r ih

theorem Ends.inv (h : L.Ends s t) {J : List ω → Option σ → Prop} (hstart : J [] (some s))
    (hstep : ∀ t s, J t (some s) → J (t ++ (L.step s).1) (L.step s).2) : J t none := by
  obtain ⟨n, hn⟩ := h
  have hinv := iterate_inv hstart hstep n
  rwa [hn] at hinv

/-! ## Leads -/

theorem Leads.refl (s : σ) : L.Leads s [] s := ⟨0, rfl⟩

theorem Leads.next (h : L.step s = (t, some s')) (hrest : L.Leads s' u s'') : L.Leads s (t ++ u) s'' := by
  obtain ⟨n, hn⟩ := hrest
  refine ⟨n + 1, ?_⟩
  rw [iterate_next h, hn]

/-- An iteration, then the rest, is all there is to a start that is not the end. -/
theorem Leads.induct {P : σ → List ω → σ → Prop} (hrefl : ∀ s, P s [] s)
    (hnext : ∀ s t s' u s'', L.step s = (t, some s') → P s' u s'' → P s (t ++ u) s'') (h : L.Leads s t s') :
    P s t s' := by
  obtain ⟨n, hn⟩ := h
  induction n generalizing s t with
  | zero =>
      cases hn
      exact hrefl s'
  | succ n ih =>
      rcases hstep : L.step s with ⟨u, _ | r⟩
      · rw [iterate_left hstep] at hn
        cases hn
      · rw [iterate_next hstep, Prod.mk.injEq] at hn
        rw [← hn.1]
        exact hnext s u r _ s' hstep (ih (Prod.ext rfl hn.2))

theorem Leads.trans (h : L.Leads s t s') (h' : L.Leads s' u s'') : L.Leads s (t ++ u) s'' := by
  apply Leads.induct (P := fun s t s' => L.Leads s' u s'' → L.Leads s (t ++ u) s'') _ _ h h'
  · intro s h'
    exact h'
  · intro s t s' v _ hstep ih h'
    rw [List.append_assoc]
    exact (ih h').next hstep

theorem Leads.ends (h : L.Leads s t s') (hends : L.Ends s' u) : L.Ends s (t ++ u) := by
  apply Leads.induct (P := fun s t s' => L.Ends s' u → L.Ends s (t ++ u)) _ _ h hends
  · intro s hends
    exact hends
  · intro s t s' v _ hstep ih hends
    rw [List.append_assoc]
    exact (ih hends).next hstep

/-- What is left to do after some iterations. -/
theorem Ends.of_leads (hends : L.Ends s t) (h : L.Leads s u s') : ∃ v, t = u ++ v ∧ L.Ends s' v := by
  apply Leads.induct (P := fun s u s' => ∀ t, L.Ends s t → ∃ v, t = u ++ v ∧ L.Ends s' v) _ _ h t hends
  · intro s t hends
    exact ⟨t, rfl, hends⟩
  · intro s u s' w _ hstep ih t hends
    obtain ⟨v, rfl, hv⟩ := hends.of_next hstep
    obtain ⟨x, rfl, hx⟩ := ih v hv
    exact ⟨x, (List.append_assoc u w x).symm, hx⟩

/-! ## Reaches -/

theorem Reaches.refl (s : σ) : L.Reaches s s := ⟨0, rfl⟩

theorem Reaches.snoc (h : L.Reaches s s') (hstep : L.step s' = (t, some s'')) : L.Reaches s s'' := by
  obtain ⟨n, hn⟩ := h
  refine ⟨n + 1, ?_⟩
  rw [iterate_snoc hn, hstep]

theorem Reaches.inv {J : σ → Prop} (h : L.Reaches s s') (hstart : J s)
    (hstep : ∀ s t s', J s → L.step s = (t, some s') → J s') : J s' := by
  obtain ⟨n, hn⟩ := h
  have hinv : ∀ r, (L.iterate n s).2 = some r → J r := by
    apply iterate_inv (J := fun _ o => ∀ r, o = some r → J r)
    · rintro r h
      cases h
      exact hstart
    · intro _ r hr r' h
      exact hstep r _ r' (hr r rfl) (Prod.ext rfl h)
  exact hinv s' hn

/-- What is left to do when an iteration starts. -/
theorem Reaches.ends (h : L.Reaches s s') (hends : L.Ends s t) : ∃ u v, t = u ++ v ∧ L.Ends s' v := by
  obtain ⟨n, hn⟩ := h
  have hleads : L.Leads s (L.iterate n s).1 s' := ⟨n, Prod.ext rfl hn⟩
  exact ⟨_, hends.of_leads hleads⟩

/-- What a loop does is what its iterations do. -/
theorem Ends.mem_iff (h : L.Ends s t) {e : ω} : e ∈ t ↔ ∃ s', L.Reaches s s' ∧ e ∈ (L.step s').1 := by
  constructor
  · have hinv : ∀ e ∈ t, ∃ s', L.Reaches s s' ∧ e ∈ (L.step s').1 := by
      apply And.right
      apply h.inv (J := fun t r => (∀ s', r = some s' → L.Reaches s s') ∧
        ∀ e ∈ t, ∃ s', L.Reaches s s' ∧ e ∈ (L.step s').1)
      · refine ⟨fun s' h => ?_, fun e he => absurd he List.not_mem_nil⟩
        cases h
        exact Reaches.refl s
      · rintro t r ⟨hr, ht⟩
        refine ⟨fun s' hs' => (hr r rfl).snoc (Prod.ext rfl hs'), fun e he => ?_⟩
        rcases List.mem_append.1 he with he | he
        · exact ht e he
        · exact ⟨r, hr r rfl, he⟩
    exact hinv e
  · rintro ⟨s', hs', he⟩
    obtain ⟨u, v, rfl, hv⟩ := hs'.ends h
    exact List.mem_append_right u (hv.step_subset he)

/-! ## Termination -/

/-- A measure that every iteration which goes on makes smaller. -/
theorem ends_of_decreasing {μ : σ → Nat} (h : ∀ s t s', L.step s = (t, some s') → μ s' < μ s) (s : σ) :
    ∃ t, L.Ends s t := by
  induction hn : μ s using Nat.strongRecOn generalizing s with
  | ind n ih =>
      rcases hstep : L.step s with ⟨t, _ | s'⟩
      · exact ⟨t, Ends.left hstep⟩
      · have hlt := h s t s' hstep
        rw [hn] at hlt
        obtain ⟨u, hu⟩ := ih (μ s') hlt s' rfl
        exact ⟨t ++ u, Ends.next hstep hu⟩

/-- A loop that always gets back to a state with `J` is not left. -/
theorem not_ends {J : σ → Prop} (h : ∀ s, J s → ∃ t s', t ≠ [] ∧ L.Leads s t s' ∧ J s') (hs : J s) :
    ¬ L.Ends s u := by
  induction hn : u.length using Nat.strongRecOn generalizing s u with
  | ind n ih =>
      intro hends
      obtain ⟨t, s', ht, hleads, hs'⟩ := h s hs
      obtain ⟨v, rfl, hv⟩ := hends.of_leads hleads
      have hlt : v.length < n := by
        rw [← hn, List.length_append]
        have hpos := List.length_pos_of_ne_nil ht
        omega
      exact ih v.length hlt hs' rfl hv

end Loop

end SysSnippets.Lib
