import SysSnippets.Lib.Machine
import Mathlib.Data.List.Induction
import Mathlib.Logic.Function.Basic

/-!
# Saving and restoring shared settings

Clients take a setting: they save its value and put their own in its place. Later they put the value
back. Each client remembers one saved value, that of the last setting it took.

* `Values`, `Values.after` : the settings, and what the clients have saved;
* `Order`, `Order.after` : which clients have a setting open, what each took last, and which settings are
  back at their base, all from the order of the requests alone;
* `Order.Proper` : a request to put back that leaves no setting astray. Wherever it leaves a setting with
  no client, it ends the outermost of the requests for that setting;
* `restored` : after proper requests, a setting that no client has open has its first value.
-/

namespace SysSnippets.Lib

/-- A client takes a setting or puts back what it saved last. -/
inductive SettingOp (ι κ ν : Type*)
  | take (c : ι) (k : κ) (v : ν)
  | put (c : ι)
  deriving DecidableEq

/-- The settings, and the setting and value each client saved last. -/
structure Values (ι κ ν : Type*) where
  cur : κ → ν
  saved : ι → Option (κ × ν)

/-- What the order of the requests tells: which clients have which setting open, the setting each client
took last and whether it took it from its base, and whether a setting is at its base. -/
structure Order (ι κ : Type*) where
  opened : ι → κ → Bool
  last : ι → Option (κ × Bool)
  base : κ → Bool

variable {ι κ ν : Type*} [DecidableEq ι] [DecidableEq κ]

def Values.start (cur : κ → ν) : Values ι κ ν := ⟨cur, fun _ => none⟩

def Values.step (s : Values ι κ ν) : SettingOp ι κ ν → Values ι κ ν
  | .take c k v =>
      { cur := Function.update s.cur k v, saved := Function.update s.saved c (some (k, s.cur k)) }
  | .put c =>
      match s.saved c with
      | none => s
      | some (k, v) => { s with cur := Function.update s.cur k v }

def Values.after (s : Values ι κ ν) (rs : List (SettingOp ι κ ν)) : Values ι κ ν := rs.foldl Values.step s

def Order.start : Order ι κ := ⟨fun _ _ => false, fun _ => none, fun _ => true⟩

def Order.step (o : Order ι κ) : SettingOp ι κ ν → Order ι κ
  | .take c k _ =>
      { opened := Function.update o.opened c (Function.update (o.opened c) k true)
        last := Function.update o.last c (some (k, o.base k))
        base := Function.update o.base k false }
  | .put c =>
      { opened := Function.update o.opened c fun _ => false
        last := o.last
        base := match o.last c with
          | none => o.base
          | some (k, outermost) => Function.update o.base k outermost }

def Order.after (o : Order ι κ) (rs : List (SettingOp ι κ ν)) : Order ι κ := rs.foldl Order.step o

/-- No client has the setting open. -/
def Order.Closed (o : Order ι κ) (k : κ) : Prop := ∀ c, o.opened c k = false

/-- Client `c` may put back. It took a setting; and a setting that it has open or took last, and that no
other client has open, is the one it took last, from its base. -/
def Order.Proper (o : Order ι κ) (c : ι) : Prop :=
  (∃ k outermost, o.last c = some (k, outermost)) ∧
    ∀ k, o.opened c k = true ∨ (∃ outermost, o.last c = some (k, outermost)) →
      (∀ d, d ≠ c → o.opened d k = false) → o.last c = some (k, true)

/-- Every request to put back is proper. -/
def ProperOps (rs : List (SettingOp ι κ ν)) : Prop :=
  Every (fun pre r => ∀ c, r = .put c → (Order.start.after pre).Proper c) rs

@[simp] theorem Values.after_snoc (s : Values ι κ ν) (rs : List (SettingOp ι κ ν)) (r : SettingOp ι κ ν) :
    s.after (rs ++ [r]) = (s.after rs).step r := by
  simp [Values.after]

@[simp] theorem Order.after_snoc (o : Order ι κ) (rs : List (SettingOp ι κ ν)) (r : SettingOp ι κ ν) :
    o.after (rs ++ [r]) = (o.after rs).step r := by
  simp [Order.after]

/-- What links the values to the order of the requests. -/
structure Restoring (init : κ → ν) (s : Values ι κ ν) (o : Order ι κ) : Prop where
  base : ∀ k, o.base k = true → s.cur k = init k
  untaken : ∀ c, o.last c = none → s.saved c = none
  taken : ∀ c k outermost, o.last c = some (k, outermost) →
    ∃ v, s.saved c = some (k, v) ∧ (outermost = true → v = init k)
  closed : ∀ k, o.Closed k → o.base k = true

omit [DecidableEq ι] [DecidableEq κ] in
theorem restoring_start (init : κ → ν) : Restoring (ι := ι) init (.start init) .start :=
  ⟨fun _ _ => rfl, fun _ _ => rfl, fun _ _ _ h => (by cases h), fun _ _ => rfl⟩

section Step
variable {init : κ → ν} {s : Values ι κ ν} {o : Order ι κ}

theorem Restoring.take (h : Restoring init s o) (c : ι) (k : κ) (v : ν) :
    Restoring init (s.step (.take c k v)) (o.step (.take c k v : SettingOp ι κ ν)) := by
  refine ⟨fun j hj => ?_, fun d hd => ?_, fun d j outermost hd => ?_, fun j hj => ?_⟩
  · show Function.update s.cur k v j = init j
    have hjk : j ≠ k := by
      rintro rfl
      simp [Order.step] at hj
    rw [Function.update_of_ne hjk]
    apply h.base
    simpa [Order.step, hjk] using hj
  · show Function.update s.saved c _ d = none
    have hdc : d ≠ c := by
      rintro rfl
      simp [Order.step] at hd
    rw [Function.update_of_ne hdc]
    apply h.untaken
    simpa [Order.step, hdc] using hd
  · show ∃ w, Function.update s.saved c _ d = some (j, w) ∧ _
    by_cases hdc : d = c
    · subst hdc
      have hlast : k = j ∧ o.base k = outermost := by simpa [Order.step] using hd
      obtain ⟨rfl, rfl⟩ := hlast
      rw [Function.update_self]
      exact ⟨s.cur k, rfl, h.base k⟩
    · rw [Function.update_of_ne hdc]
      apply h.taken
      simpa [Order.step, hdc] using hd
  · have hopen := hj c
    have hjk : j ≠ k := by
      rintro rfl
      simp [Order.step] at hopen
    have hclosed : o.Closed j := by
      intro d
      have hd := hj d
      by_cases hdc : d = c
      · subst hdc
        simpa [Order.step, hjk] using hd
      · simpa [Order.step, hdc] using hd
    show Function.update o.base k false j = true
    rw [Function.update_of_ne hjk]
    exact h.closed j hclosed

theorem Restoring.put (h : Restoring init s o) {c : ι} (hc : o.Proper c) :
    Restoring init (s.step (.put c)) (o.step (.put c : SettingOp ι κ ν)) := by
  obtain ⟨⟨k, outermost, hlast⟩, hproper⟩ := hc
  obtain ⟨v, hsaved, hv⟩ := h.taken c k outermost hlast
  have hstep : s.step (.put c) = { s with cur := Function.update s.cur k v } := by
    simp only [Values.step, hsaved]
  have hbase : (o.step (.put c : SettingOp ι κ ν)).base = Function.update o.base k outermost := by
    simp only [Order.step, hlast]
  rw [hstep]
  refine ⟨fun j hj => ?_, h.untaken, h.taken, fun j hj => ?_⟩
  · rw [hbase] at hj
    show Function.update s.cur k v j = init j
    by_cases hjk : j = k
    · subst hjk
      rw [Function.update_self] at hj ⊢
      exact hv hj
    · rw [Function.update_of_ne hjk] at hj ⊢
      exact h.base j hj
  · have hothers : ∀ d, d ≠ c → o.opened d j = false := by
      intro d hdc
      have hd := hj d
      simpa [Order.step, hdc] using hd
    rw [hbase]
    by_cases hjk : j = k
    · subst hjk
      rw [hproper j (Or.inr ⟨outermost, hlast⟩) hothers] at hlast
      cases hlast
      exact Function.update_self ..
    · rw [Function.update_of_ne hjk]
      apply h.closed
      intro d
      by_cases hdc : d = c
      · subst hdc
        by_contra hopen
        rw [hproper j (Or.inl (by simpa using hopen)) hothers] at hlast
        cases hlast
        exact hjk rfl
      · exact hothers d hdc

end Step

theorem restoring_after (init : κ → ν) : ∀ rs : List (SettingOp ι κ ν), ProperOps rs →
    Restoring init ((Values.start init).after rs) (Order.start.after rs) := by
  intro rs
  induction rs using List.reverseRec with
  | nil => exact fun _ => restoring_start init
  | append_singleton rs r ih =>
      intro hproper
      obtain ⟨hrs, hr⟩ := every_snoc.1 hproper
      rw [Values.after_snoc, Order.after_snoc]
      cases r with
      | take c k v => exact (ih hrs).take c k v
      | put c => exact (ih hrs).put (hr c rfl)

/-- **Nested use restores.** -/
theorem restored {init : κ → ν} {rs : List (SettingOp ι κ ν)} (h : ProperOps rs) {k : κ}
    (hclosed : (Order.start.after rs).Closed k) : ((Values.start init).after rs).cur k = init k :=
  have hinv := restoring_after init rs h
  hinv.base k (hinv.closed k hclosed)

/-- Once a client has taken a setting, it has a value saved. -/
theorem saved_of_take {s : Values ι κ ν} {c : ι} {k : κ} {v : ν} {rs : List (SettingOp ι κ ν)}
    (h : .take c k v ∈ rs) : (s.after rs).saved c ≠ none := by
  induction rs using List.reverseRec with
  | nil => cases h
  | append_singleton rs r ih =>
      rw [Values.after_snoc]
      cases r with
      | take d j w =>
          show Function.update (s.after rs).saved d (some (j, (s.after rs).cur j)) c ≠ none
          by_cases hdc : c = d
          · rw [hdc, Function.update_self]
            simp
          · rw [Function.update_of_ne hdc]
            apply ih
            simpa [hdc] using h
      | put d =>
          have hkeep : ((s.after rs).step (.put d)).saved = (s.after rs).saved := by
            dsimp only [Values.step]
            split <;> rfl
          rw [hkeep]
          exact ih (by simpa using h)

/-- A setting that is open was taken, and not put back since. -/
theorem exists_take_of_opened {c : ι} {k : κ} : ∀ rs : List (SettingOp ι κ ν),
    (Order.start.after rs).opened c k = true →
      ∃ pre v post, rs = pre ++ .take c k v :: post ∧ .put c ∉ post := by
  intro rs
  induction rs using List.reverseRec with
  | nil => exact fun h => (by cases h)
  | append_singleton rs r ih =>
      intro h
      rw [Order.after_snoc] at h
      cases r with
      | take d j v =>
          by_cases hnew : d = c ∧ j = k
          · obtain ⟨rfl, rfl⟩ := hnew
            exact ⟨rs, v, [], rfl, by simp⟩
          · have hold : (Order.start.after rs).opened c k = true := by
              by_cases hdc : c = d
              · subst hdc
                have hjk : k ≠ j := fun e => hnew ⟨rfl, e.symm⟩
                simpa [Order.step, hjk] using h
              · simpa [Order.step, hdc] using h
            obtain ⟨pre, w, post, rfl, hput⟩ := ih hold
            exact ⟨pre, w, post ++ [.take d j v], by simp, by simpa using hput⟩
      | put d =>
          have hdc : c ≠ d := by
            rintro rfl
            simp [Order.step] at h
          obtain ⟨pre, w, post, rfl, hput⟩ := ih (by simpa [Order.step, hdc] using h)
          exact ⟨pre, w, post ++ [.put d], by simp, by simpa [hput] using hdc⟩

/-- Two clients of which the second puts back first. -/
theorem properOps_nested {c d : ι} (hcd : c ≠ d) (k : κ) (v w : ν) :
    ProperOps [.take c k v, .take d k w, .put d, .put c] := by
  rw [ProperOps, every_cons, every_cons, every_cons, every_cons]
  refine ⟨fun e he => (by cases he), fun e he => (by cases he), fun e he => ?_, fun e he => ?_, every_nil⟩
  · -- the first client still has the setting open
    cases he
    have hlast : (Order.start.after [(.take c k v : SettingOp ι κ ν), .take d k w]).last d = some (k, false) := by
      simp [Order.after, Order.step, Order.start]
    refine ⟨⟨k, false, hlast⟩, fun j hj hothers => ?_⟩
    have hopen : (Order.start.after [(.take c k v : SettingOp ι κ ν), .take d k w]).opened c k = true := by
      simp [Order.after, Order.step, Order.start, hcd]
    have hjk : j = k := by
      by_contra hne
      simp [Order.after, Order.step, Order.start, hne, Ne.symm hne, Ne.symm hcd] at hj
    have hclosed := hothers c hcd
    rw [hjk] at hclosed
    exact absurd (hopen.symm.trans hclosed) Bool.noConfusion
  · cases he
    have hlast : (Order.start.after [(.take c k v : SettingOp ι κ ν), .take d k w, .put d]).last c = some (k, true) := by
      simp [Order.after, Order.step, Order.start, hcd]
    refine ⟨⟨k, true, hlast⟩, fun j hj _ => ?_⟩
    rw [hlast] at hj ⊢
    rcases hj with hopen | ⟨outermost, hj⟩
    · by_cases hjk : j = k
      · rw [hjk]
      · simp [Order.after, Order.step, Order.start, hcd, hjk] at hopen
    · cases hj
      rfl

end SysSnippets.Lib
