import SysSnippets.Drm.Autoconf
import SysSnippets.Lib.Scope

/-!
# `drm_info`

`main` gets everything the card lists, one object at a time, and keeps the CRTCs in an array of 32 pointers; the
encoders and the planes name the CRTCs they support by bits. What the get calls return is the input.

* `drmInfo` : the program, with the objects it gets, reads and frees and the entries of the array it accesses;
* `drmInfo_cleaned` : all is freed once but the two lists of resources, and the accesses are within the array if and
  only if the card has at most 32 CRTCs.
-/

namespace SysSnippets.DrmTests.Info
open SysSnippets.Lib SysSnippets.Lib.Ledger SysSnippets.Drm

inductive Object
  | fd
  | resources
  | array
  | crtc (i : Nat)
  | connector (i : Nat)
  | encoder (i : Nat)
  | fb2 (i : Nat)
  | fb (i : Nat)
  | planeResources
  | plane (i : Nat)
  deriving DecidableEq

/-- `found` is whether the call returned an object; `entry` is an access to `crtcs[i]`. -/
inductive Event
  | get (o : Object) (found : Bool)
  | read (o : Object)
  | entry (i : Nat)
  | free (o : Object)

def ledger : Ledger Event Object where
  creates
    | .get o found => if found then [o] else []
    | _ => []
  uses
    | .read o | .free o => [o]
    | .entry _ => [.array]
    | .get _ _ => []
  releases
    | .free o => [o]
    | _ => []
  opens _ := false

/-- What is never freed. -/
def Object.Kept : Object → Prop
  | .resources | .planeResources => True
  | _ => False

def kept : Set Object := {o | o.Kept}

/-! ## The program -/

/-- The lists of ids, each with what the get call for it returns, and the framebuffers of the CRTCs. -/
structure Answers where
  openDevice : Bool
  resources : Bool
  crtcs : List (U32 × Option Crtc)
  connectors : List (U32 × Option Unit)
  encoders : List (U32 × Option Encoder)
  getFB2 : Nat → Bool
  getFB : Nat → Bool
  /-- `none` are plane resources that are NULL; of a plane `possible_crtcs` -/
  planes : Option (List (U32 × Option U32))

/-- The array holds an object in entry `i`. -/
def present (crtcs : List (U32 × Option Crtc)) (i : Nat) : Bool := (crtcs[i]?.bind Prod.snd).isSome

section Loops
variable {α : Type} (crtcs : List (U32 × Option Crtc))

/-- The loop over the CRTCs from `i` on. -/
def getCrtcs (i : Nat) : List (U32 × Option Crtc) → List Event
  | [] => []
  | (_, none) :: rest => .read .resources :: .get (.crtc i) false :: .entry i :: getCrtcs (i + 1) rest
  | (_, some _) :: rest =>
      .read .resources :: .get (.crtc i) true :: .entry i :: .read (.crtc i) :: getCrtcs (i + 1) rest

/-- A loop that gets each object, shows it and frees it. -/
def visit (list : Object) (object : Nat → Object) (show' : α → List Event) (i : Nat) :
    List (U32 × Option α) → List Event
  | [] => []
  | (_, none) :: rest => .read list :: .get (object i) false :: visit list object show' (i + 1) rest
  | (_, some a) :: rest =>
      .read list :: .get (object i) true :: .read (object i) :: show' a ++
        .free (object i) :: visit list object show' (i + 1) rest

/-- The loop over the bits of `possible_crtcs` below 31. -/
def supported (possible : U32) : List Event :=
  ((List.range 31).filter possible.getLsbD).flatMap fun i =>
    .entry i :: if present crtcs i then [.read (.crtc i)] else []

def framebuffer (getFB2 getFB : Nat → Bool) (i : Nat) : List Event :=
  if getFB2 i then [.get (.fb2 i) true, .read (.fb2 i), .free (.fb2 i)]
  else
    .get (.fb2 i) false ::
      if getFB i then [.get (.fb i) true, .read (.fb i), .free (.fb i)] else [.get (.fb i) false]

/-- The loop over the framebuffers, from the CRTC with index `i` on. -/
def framebuffers (getFB2 getFB : Nat → Bool) (i : Nat) : List (U32 × Option Crtc) → List Event
  | [] => []
  | (_, none) :: rest => .read .resources :: .entry i :: framebuffers getFB2 getFB (i + 1) rest
  | (_, some _) :: rest =>
      .read .resources :: .entry i :: .read (.crtc i) :: framebuffer getFB2 getFB i ++
        framebuffers getFB2 getFB (i + 1) rest

/-- The loop that frees the CRTCs. -/
def freeCrtcs (i : Nat) : List (U32 × Option Crtc) → List Event
  | [] => []
  | (_, none) :: rest => .read .resources :: .entry i :: freeCrtcs (i + 1) rest
  | (_, some _) :: rest => .read .resources :: .entry i :: .free (.crtc i) :: freeCrtcs (i + 1) rest

def planesInfo : Option (List (U32 × Option U32)) → List Event
  | none => [.get .planeResources false]
  | some planes => .get .planeResources true :: visit .planeResources .plane (supported crtcs) 0 planes

end Loops

/-- `main`, and what it returns; `none` is a `ret` that was never set. -/
def drmInfo (a : Answers) : List Event × Option Int :=
  if a.openDevice then
    if a.resources then
      ([.get .fd true, .get .resources true, .get .array true] ++ getCrtcs 0 a.crtcs ++
        visit .resources .connector (fun _ => []) 0 a.connectors ++
        visit .resources .encoder (fun encoder => supported a.crtcs encoder.possibleCrtcs) 0 a.encoders ++
        framebuffers a.getFB2 a.getFB 0 a.crtcs ++ planesInfo a.crtcs a.planes ++ freeCrtcs 0 a.crtcs ++
        [.free .array, .free .fd], none)
    else ([.get .fd true, .get .resources false, .free .fd], some (-1))
  else ([.get .fd false], some (-1))

/-- The accesses are within the 32 entries. -/
def InBounds (t : List Event) : Prop := ∀ i, .entry i ∈ t → i < 32

/-! ## Single calls -/

variable {C : Set Object} {os : List Object} {o : Object}

theorem steps_read (ho : o ∈ os) : ledger.Steps kept C os [.read o] C os :=
  steps_quiet ⟨rfl, rfl, rfl⟩ (by simp [ledger, ho])

theorem steps_readKept (ho : o ∈ C) (hkept : o.Kept) : ledger.Steps kept C os [.read o] C os :=
  steps_quiet ⟨rfl, rfl, rfl⟩ (by simpa [ledger] using Or.inr ⟨ho, hkept⟩)

theorem steps_entry {i : Nat} (harray : .array ∈ os) : ledger.Steps kept C os [.entry i] C os :=
  steps_quiet ⟨rfl, rfl, rfl⟩ (by simp [ledger, harray])

theorem steps_null : ledger.Steps kept C os [.get o false] C os :=
  steps_quiet ⟨rfl, rfl, rfl⟩ (by simp [ledger])

theorem steps_get (hnew : o ∉ C) (ho : ¬o.Kept) : ledger.Steps kept C os [.get o true] (insert o C) (o :: os) :=
  steps_acquire rfl rfl rfl (by simp [ledger]) hnew ho

theorem steps_free : ledger.Steps kept C (o :: os) [.free o] C os :=
  steps_release rfl rfl rfl (by simp [ledger])

/-- `C` with some objects of one kind. -/
structure Adds (kind : Set Object) (C C' : Set Object) : Prop where
  sub : ∀ o ∈ C, o ∈ C'
  new : ∀ o ∈ C', o ∈ C ∨ o ∈ kind

theorem Adds.refl (kind : Set Object) (C : Set Object) : Adds kind C C := ⟨fun _ h => h, fun _ h => Or.inl h⟩

theorem Adds.insert {kind C' : Set Object} (h : Adds kind (insert o C) C') (ho : o ∈ kind) : Adds kind C C' := by
  refine ⟨fun x hx => h.sub x (Set.mem_insert_of_mem _ hx), fun x hx => ?_⟩
  rcases h.new x hx with hx | hx
  · rcases Set.mem_insert_iff.1 hx with rfl | hx
    · exact Or.inr ho
    · exact Or.inl hx
  · exact Or.inr hx

/-- The loops in their order. -/
def Object.loop : Object → Nat
  | .fd | .resources | .array => 0
  | .crtc _ => 1
  | .connector _ => 2
  | .encoder _ => 3
  | .fb2 _ | .fb _ => 4
  | .planeResources | .plane _ => 5

/-- Nothing of a later loop has been created. -/
def UpTo (n : Nat) (C : Set Object) : Prop := ∀ o ∈ C, o.loop ≤ n

theorem UpTo.adds {n : Nat} {kind C' : Set Object} (h : UpTo n C) (hadds : Adds kind C C')
    (hkind : ∀ o ∈ kind, o.loop = n + 1) : UpTo (n + 1) C' := by
  intro o ho
  rcases hadds.new o ho with ho | ho
  · exact Nat.le_succ_of_le (h o ho)
  · exact (hkind o ho).le

theorem UpTo.notMem {n : Nat} (h : UpTo n C) (ho : n < o.loop) : o ∉ C :=
  fun hmem => absurd (h o hmem) (Nat.not_le.2 ho)

/-! ## The loops -/

section Loops
variable {α : Type} (crtcs : List (U32 × Option Crtc))

/-- The CRTCs got from index `i` on. -/
def got (i : Nat) : List (U32 × Option Crtc) → List Object
  | [] => []
  | (_, none) :: rest => got (i + 1) rest
  | (_, some _) :: rest => .crtc i :: got (i + 1) rest

theorem mem_got (rest : List (U32 × Option Crtc)) :
    ∀ i j, present rest j → .crtc (i + j) ∈ got i rest := by
  induction rest with
  | nil => intro i j h; cases h
  | cons answer rest ih =>
      intro i j h
      cases j with
      | zero =>
          obtain ⟨_, _ | crtc⟩ := answer
          · cases h
          · exact List.mem_cons_self
      | succ j =>
          have hrest : .crtc (i + 1 + j) ∈ got (i + 1) rest := ih (i + 1) j h
          rw [show i + (j + 1) = i + 1 + j by omega]
          obtain ⟨_, _ | crtc⟩ := answer
          · exact hrest
          · exact List.mem_cons_of_mem _ hrest

theorem steps_getCrtcs (rest : List (U32 × Option Crtc)) :
    ∀ (i : Nat) (C : Set Object) (os : List Object), .resources ∈ C → .array ∈ os → (∀ j, i ≤ j → .crtc j ∉ C) →
      ∃ C', Adds (Set.range .crtc) C C' ∧ ledger.Steps kept C os (getCrtcs i rest) C' (got i rest ++ os) := by
  induction rest with
  | nil => exact fun i C os _ _ _ => ⟨C, Adds.refl _ C, Steps.nil⟩
  | cons answer rest ih =>
      intro i C os hres harray hnew
      obtain ⟨_, _ | crtc⟩ := answer
      · obtain ⟨C', hadds, hrest⟩ := ih (i + 1) C os hres harray fun j hj => hnew j (by omega)
        exact ⟨C', hadds, (steps_readKept hres trivial).cons (steps_null.cons ((steps_entry harray).cons hrest))⟩
      · obtain ⟨C', hadds, hrest⟩ := ih (i + 1) (insert (.crtc i) C) (.crtc i :: os) (Set.mem_insert_of_mem _ hres)
          (List.mem_cons_of_mem _ harray) fun j hj => by
            have hne : j ≠ i := by omega
            simp [hne, hnew j (by omega)]
        refine ⟨C', hadds.insert ⟨i, rfl⟩, (steps_readKept hres trivial).cons ((steps_get (hnew i (le_refl i)) id).cons
          ((steps_entry (List.mem_cons_of_mem _ harray)).cons ((steps_read List.mem_cons_self).cons ?_)))⟩
        exact hrest.perm List.perm_middle

theorem steps_visit (os : List Object) (list : Object) (object : Nat → Object) (show' : α → List Event) (hlist : list.Kept)
    (hinj : object.Injective) (hobject : ∀ j, ¬(object j).Kept)
    (hshow : ∀ a C o, ledger.Steps kept C (o :: os) (show' a) C (o :: os)) (answers : List (U32 × Option α)) :
    ∀ (i : Nat) (C : Set Object), list ∈ C → (∀ j, i ≤ j → object j ∉ C) →
      ∃ C', Adds (Set.range object) C C' ∧ ledger.Steps kept C os (visit list object show' i answers) C' os := by
  induction answers with
  | nil => exact fun i C _ _ => ⟨C, Adds.refl _ C, Steps.nil⟩
  | cons answer rest ih =>
      intro i C hmem hnew
      obtain ⟨_, _ | a⟩ := answer
      · obtain ⟨C', hadds, hrest⟩ := ih (i + 1) C hmem fun j hj => hnew j (by omega)
        exact ⟨C', hadds, (steps_readKept hmem hlist).cons (steps_null.cons hrest)⟩
      · obtain ⟨C', hadds, hrest⟩ := ih (i + 1) (insert (object i) C) (Set.mem_insert_of_mem _ hmem) fun j hj => by
          have hne : object j ≠ object i := fun heq => by
            have := hinj heq
            omega
          simp [hne, hnew j (by omega)]
        refine ⟨C', hadds.insert ⟨i, rfl⟩, (steps_readKept hmem hlist).cons
          ((steps_get (hnew i (le_refl i)) (hobject i)).cons ((steps_read List.mem_cons_self).cons ?_))⟩
        exact (hshow a _ _).append (steps_free.cons hrest)

theorem steps_supported (possible : U32) (harray : .array ∈ os) (hcrtcs : ∀ j, present crtcs j → .crtc j ∈ os) :
    ledger.Steps kept C os (supported crtcs possible) C os := by
  unfold supported
  generalize (List.range 31).filter possible.getLsbD = is
  induction is with
  | nil => exact Steps.nil
  | cons i is ih =>
      rw [List.flatMap_cons]
      refine Steps.append ((steps_entry harray).cons ?_) ih
      split_ifs with hpresent
      · exact steps_read (hcrtcs i hpresent)
      · exact Steps.nil

/-- One object, read and freed. -/
theorem steps_once (hnew : o ∉ C) (ho : ¬o.Kept) :
    ledger.Steps kept C os [.get o true, .read o, .free o] (insert o C) os :=
  (steps_get hnew ho).cons ((steps_read List.mem_cons_self).cons steps_free)

/-- The framebuffers of the CRTCs, in both forms. -/
def fbs : Set Object := Set.range .fb2 ∪ Set.range .fb

theorem steps_framebuffer (os : List Object) (getFB2 getFB : Nat → Bool) (i : Nat) (hfb2 : .fb2 i ∉ C) (hfb : .fb i ∉ C) :
    ∃ C', (∀ o ∈ C, o ∈ C') ∧ (∀ o ∈ C', o ∈ C ∨ o = .fb2 i ∨ o = .fb i) ∧
      ledger.Steps kept C os (framebuffer getFB2 getFB i) C' os := by
  unfold framebuffer
  split_ifs
  · exact ⟨_, fun _ h => Or.inr h, fun o h => h.elim (fun h => Or.inr (Or.inl h)) Or.inl, steps_once hfb2 id⟩
  · exact ⟨_, fun _ h => Or.inr h, fun o h => h.elim (fun h => Or.inr (Or.inr h)) Or.inl,
      steps_null.cons (steps_once hfb id)⟩
  · exact ⟨C, fun _ h => h, fun o h => Or.inl h, steps_null.cons steps_null⟩

theorem steps_framebuffers (getFB2 getFB : Nat → Bool) (harray : .array ∈ os) (rest : List (U32 × Option Crtc)) :
    ∀ (i : Nat) (C : Set Object), .resources ∈ C → (∀ o ∈ got i rest, o ∈ os) →
      (∀ j, i ≤ j → .fb2 j ∉ C ∧ .fb j ∉ C) →
      ∃ C', Adds fbs C C' ∧ ledger.Steps kept C os (framebuffers getFB2 getFB i rest) C' os := by
  induction rest with
  | nil => exact fun i C _ _ _ => ⟨C, Adds.refl _ C, Steps.nil⟩
  | cons answer rest ih =>
      intro i C hres hgot hnew
      obtain ⟨_, _ | crtc⟩ := answer
      · obtain ⟨C', hadds, hrest⟩ := ih (i + 1) C hres hgot fun j hj => hnew j (by omega)
        exact ⟨C', hadds, (steps_readKept hres trivial).cons ((steps_entry harray).cons hrest)⟩
      · obtain ⟨D, hsub, hD, hfb⟩ := steps_framebuffer os getFB2 getFB i (hnew i (le_refl i)).1
          (hnew i (le_refl i)).2
        obtain ⟨C', hadds, hrest⟩ := ih (i + 1) D (hsub _ hres) (fun o ho => hgot o (List.mem_cons_of_mem _ ho))
          fun j hj => by
            have hne : j ≠ i := by omega
            refine ⟨fun h => ?_, fun h => ?_⟩
            · have := hD _ h
              simp [hne, (hnew j (by omega)).1] at this
            · have := hD _ h
              simp [hne, (hnew j (by omega)).2] at this
        refine ⟨C', ⟨fun o ho => hadds.sub o (hsub o ho), fun o ho => ?_⟩, (steps_readKept hres trivial).cons
          ((steps_entry harray).cons ((steps_read (hgot _ List.mem_cons_self)).cons (hfb.append hrest)))⟩
        rcases hadds.new o ho with ho | ho
        · rcases hD o ho with ho | rfl | rfl
          · exact Or.inl ho
          · exact Or.inr (Or.inl ⟨i, rfl⟩)
          · exact Or.inr (Or.inr ⟨i, rfl⟩)
        · exact Or.inr ho

theorem steps_planesInfo (planes : Option (List (U32 × Option U32))) (harray : .array ∈ os)
    (hcrtcs : ∀ j, present crtcs j → .crtc j ∈ os) (hres : .planeResources ∉ C) (hnew : ∀ j, .plane j ∉ C) :
    ∃ C', (∀ o ∈ C, o ∈ C') ∧ ledger.Steps kept C os (planesInfo crtcs planes) C' os := by
  cases planes with
  | none => exact ⟨C, fun _ h => h, steps_null⟩
  | some planes =>
      have hget : ledger.Steps kept C os [.get .planeResources true] (insert .planeResources C) os :=
        steps_keep rfl rfl rfl (by simp [ledger]) hres trivial
      obtain ⟨C', hadds, hloop⟩ := steps_visit os .planeResources .plane (supported crtcs) trivial
        (fun i j h => Object.plane.inj h) (fun j => id)
        (fun a C o => steps_supported crtcs a (List.mem_cons_of_mem _ harray)
          fun j hj => List.mem_cons_of_mem _ (hcrtcs j hj))
        planes 0 (insert .planeResources C) (Set.mem_insert _ _) (by simpa using hnew)
      exact ⟨C', fun o ho => hadds.sub o (Set.mem_insert_of_mem _ ho), hget.cons hloop⟩

theorem steps_freeCrtcs (os : List Object) (rest : List (U32 × Option Crtc)) (hres : .resources ∈ C)
    (harray : .array ∈ os) :
    ∀ i, ledger.Steps kept C (got i rest ++ os) (freeCrtcs i rest) C os := by
  induction rest with
  | nil => exact fun i => Steps.nil
  | cons answer rest ih =>
      intro i
      have hentry : ∀ os', .array ∈ os' → ledger.Steps kept C os' [.read .resources, .entry i] C os' :=
        fun os' h => (steps_readKept hres trivial).cons (steps_entry h)
      obtain ⟨_, _ | crtc⟩ := answer
      · exact (hentry _ (List.mem_append_right _ harray)).append (ih (i + 1))
      · exact (hentry _ (List.mem_append_right _ harray)).append (steps_free.cons (ih (i + 1)))

end Loops

/-! ## The program -/

section Entries
variable {α : Type} {k : Nat}

theorem entry_getCrtcs (rest : List (U32 × Option Crtc)) :
    ∀ i, .entry k ∈ getCrtcs i rest ↔ i ≤ k ∧ k < i + rest.length := by
  induction rest with
  | nil =>
      intro i
      simp only [getCrtcs, List.not_mem_nil, List.length_nil, false_iff]
      omega
  | cons answer rest ih =>
      intro i
      have hor : .entry k ∈ getCrtcs i (answer :: rest) ↔ k = i ∨ .entry k ∈ getCrtcs (i + 1) rest := by
        obtain ⟨_, _ | crtc⟩ := answer <;> simp [getCrtcs]
      rw [hor, ih, List.length_cons]
      omega

theorem entry_framebuffers {getFB2 getFB : Nat → Bool} (rest : List (U32 × Option Crtc)) :
    ∀ i, .entry k ∈ framebuffers getFB2 getFB i rest → k < i + rest.length := by
  induction rest with
  | nil => exact fun i h => absurd h List.not_mem_nil
  | cons answer rest ih =>
      intro i h
      have hnone : .entry k ∉ framebuffer getFB2 getFB i := by
        unfold framebuffer
        split_ifs <;> simp
      have hor : k = i ∨ .entry k ∈ framebuffers getFB2 getFB (i + 1) rest := by
        obtain ⟨_, _ | crtc⟩ := answer
        · simpa [framebuffers] using h
        · simpa [framebuffers, hnone] using h
      rw [List.length_cons]
      rcases hor with rfl | h
      · omega
      · have := ih (i + 1) h
        omega

theorem entry_freeCrtcs (rest : List (U32 × Option Crtc)) : ∀ i, .entry k ∈ freeCrtcs i rest → k < i + rest.length := by
  induction rest with
  | nil => exact fun i h => absurd h List.not_mem_nil
  | cons answer rest ih =>
      intro i h
      have hor : k = i ∨ .entry k ∈ freeCrtcs (i + 1) rest := by
        obtain ⟨_, _ | crtc⟩ := answer <;> simpa [freeCrtcs] using h
      rw [List.length_cons]
      rcases hor with rfl | h
      · omega
      · have := ih (i + 1) h
        omega

theorem entry_supported {crtcs : List (U32 × Option Crtc)} {possible : U32} (h : .entry k ∈ supported crtcs possible) :
    k < 31 := by
  obtain ⟨i, hi, h⟩ := List.mem_flatMap.1 h
  have hlt := List.mem_range.1 (List.mem_filter.1 hi).1
  have hki : k = i := by
    split_ifs at h <;> simpa using h
  omega

theorem entry_visit {list : Object} {object : Nat → Object} {show' : α → List Event} (answers : List (U32 × Option α)) :
    ∀ i, .entry k ∈ visit list object show' i answers → ∃ a, .entry k ∈ show' a := by
  induction answers with
  | nil => exact fun i h => absurd h List.not_mem_nil
  | cons answer rest ih =>
      intro i h
      obtain ⟨_, _ | a⟩ := answer
      · exact ih (i + 1) (by simpa [visit] using h)
      · have hor : .entry k ∈ show' a ∨ .entry k ∈ visit list object show' (i + 1) rest := by
          simpa [visit] using h
        rcases hor with h | h
        · exact ⟨a, h⟩
        · exact ih (i + 1) h

theorem entry_planesInfo {crtcs : List (U32 × Option Crtc)} {planes : Option (List (U32 × Option U32))}
    (h : .entry k ∈ planesInfo crtcs planes) : k < 31 := by
  cases planes with
  | none => simp [planesInfo] at h
  | some planes =>
      obtain ⟨possible, h⟩ := entry_visit planes 0 (by simpa [planesInfo] using h)
      exact entry_supported h

end Entries

theorem inBounds_iff (a : Answers) :
    InBounds (drmInfo a).1 ↔ (a.openDevice → a.resources → a.crtcs.length ≤ 32) := by
  unfold drmInfo
  split_ifs with hopen hres
  · constructor
    · intro h _ _
      by_contra hlong
      have hentry := (entry_getCrtcs (k := 32) a.crtcs 0).2 (by omega)
      have := h 32 (by simp [hentry])
      omega
    · intro h i hi
      have hle := h hopen hres
      simp only [List.mem_append, List.mem_cons, List.not_mem_nil, or_false, reduceCtorEq, false_or] at hi
      rcases hi with ((((hi | hi) | hi) | hi) | hi) | hi
      · have := (entry_getCrtcs a.crtcs 0).1 hi
        omega
      · obtain ⟨_, hi⟩ := entry_visit _ 0 hi
        cases hi
      · obtain ⟨encoder, hi⟩ := entry_visit _ 0 hi
        have := entry_supported hi
        omega
      · have := entry_framebuffers a.crtcs 0 hi
        omega
      · have := entry_planesInfo hi
        omega
      · have := entry_freeCrtcs a.crtcs 0 hi
        omega
  · exact ⟨fun _ _ h => absurd h hres, fun _ i hi => by simp at hi⟩
  · exact ⟨fun _ h => absurd h hopen, fun _ i hi => by simp at hi⟩

/-- What there is after the first calls. -/
theorem steps_start : ledger.Steps kept ∅ [] [.get .fd true, .get .resources true, .get .array true]
    (insert .array (insert .resources (insert .fd ∅))) [.array, .fd] := by
  refine (steps_get (by simp) id).cons (Steps.cons (steps_keep rfl rfl rfl (by simp [ledger]) (by simp) trivial) ?_)
  exact steps_get (by simp) id

theorem steps_drmInfo (a : Answers) : ∃ C, ledger.Steps kept ∅ [] (drmInfo a).1 C [] := by
  unfold drmInfo
  split_ifs
  · have harray : .array ∈ got 0 a.crtcs ++ [.array, .fd] := by simp
    have hpresent : ∀ j, present a.crtcs j → .crtc j ∈ got 0 a.crtcs ++ [.array, .fd] := by
      intro j hj
      have hmem := mem_got a.crtcs 0 j hj
      rw [Nat.zero_add] at hmem
      exact List.mem_append_left _ hmem
    have hupTo : UpTo 0 (insert .array (insert .resources (insert .fd ∅))) := by
      rintro o (rfl | rfl | rfl | ho)
      · exact le_refl 0
      · exact le_refl 0
      · exact le_refl 0
      · cases ho
    obtain ⟨C₁, hadds₁, hcrtcs⟩ := steps_getCrtcs a.crtcs 0 (insert .array (insert .resources (insert .fd ∅)))
      [.array, .fd] (by simp) (by simp) (by simp)
    have hupTo₁ : UpTo 1 C₁ := hupTo.adds hadds₁ (by rintro o ⟨j, rfl⟩; rfl)
    have hres₁ : .resources ∈ C₁ := hadds₁.sub _ (by simp)
    obtain ⟨C₂, hadds₂, hconnectors⟩ := steps_visit (got 0 a.crtcs ++ [.array, .fd]) .resources .connector
      (fun _ => []) trivial (fun i j h => Object.connector.inj h) (fun j => id) (fun _ _ _ => Steps.nil) a.connectors 0
      C₁ hres₁ fun j _ => hupTo₁.notMem (Nat.lt_succ_self 1)
    have hupTo₂ : UpTo 2 C₂ := hupTo₁.adds hadds₂ (by rintro o ⟨j, rfl⟩; rfl)
    have hres₂ : .resources ∈ C₂ := hadds₂.sub _ hres₁
    obtain ⟨C₃, hadds₃, hencoders⟩ := steps_visit (got 0 a.crtcs ++ [.array, .fd]) .resources .encoder
      (fun encoder => supported a.crtcs encoder.possibleCrtcs) trivial (fun i j h => Object.encoder.inj h) (fun j => id)
      (fun encoder _ _ => steps_supported a.crtcs encoder.possibleCrtcs (List.mem_cons_of_mem _ harray)
        fun j hj => List.mem_cons_of_mem _ (hpresent j hj))
      a.encoders 0 C₂ hres₂ fun j _ => hupTo₂.notMem (Nat.lt_succ_self 2)
    have hupTo₃ : UpTo 3 C₃ := hupTo₂.adds hadds₃ (by rintro o ⟨j, rfl⟩; rfl)
    have hres₃ : .resources ∈ C₃ := hadds₃.sub _ hres₂
    obtain ⟨C₄, hadds₄, hfbs⟩ := steps_framebuffers a.getFB2 a.getFB harray a.crtcs 0 C₃ hres₃
      (fun o ho => List.mem_append_left _ ho)
      fun j _ => ⟨hupTo₃.notMem (Nat.lt_succ_self 3), hupTo₃.notMem (Nat.lt_succ_self 3)⟩
    have hupTo₄ : UpTo 4 C₄ := hupTo₃.adds hadds₄ (by rintro o (⟨j, rfl⟩ | ⟨j, rfl⟩) <;> rfl)
    obtain ⟨C₅, hsub₅, hplanes⟩ := steps_planesInfo a.crtcs a.planes harray hpresent
      (hupTo₄.notMem (Nat.lt_succ_self 4)) fun j => hupTo₄.notMem (Nat.lt_succ_self 4)
    have hfree := steps_freeCrtcs [.array, .fd] a.crtcs (hsub₅ _ (hadds₄.sub _ hres₃)) (by simp) 0
    exact ⟨C₅, ((((((steps_start.append hcrtcs).append hconnectors).append hencoders).append hfbs).append
      hplanes).append hfree).append (steps_free.cons steps_free)⟩
  · exact ⟨_, (steps_get (by simp) id).cons (steps_null.cons steps_free)⟩
  · exact ⟨_, steps_null⟩

/-- **`drm_info`.** -/
theorem drmInfo_cleaned (a : Answers) :
    ledger.Cleaned kept (drmInfo a).1 ∧
      (InBounds (drmInfo a).1 ↔ (a.openDevice → a.resources → a.crtcs.length ≤ 32)) := by
  obtain ⟨C, hsteps⟩ := steps_drmInfo a
  exact ⟨(hsteps [] Scope.nil).cleaned_iff.2 rfl, inBounds_iff a⟩

end SysSnippets.DrmTests.Info
