import SysSnippets.DrmTests.Buffers

/-!
# What the buffer programs clean up

The CRTCs that are got, the planes and their list are never freed (`Object.Kept`), and a picture may stay when the call
that takes it away is not made or fails. For the rest:

* `drmDumbBoMult_cleaned`, `drmDumbBoPlane_cleaned` : everything is released exactly once and in order, whichever calls
  fail;
* `drmDumbBo_cleaned_iff`, `drmDumbBoLibkms_cleaned_iff` : here it takes more, as some jumps go to the wrong label, and
  a NULL `crtc` is not checked.
-/

namespace SysSnippets.DrmTests.Buffers
open SysSnippets.Lib SysSnippets.Lib.Ledger SysSnippets.Drm

/-- What no program frees. -/
def Object.Kept : Object → Prop
  | .savedCrtc | .currentCrtc | .configuredCrtc | .planeResources | .planeAt _ => True
  | _ => False

def kept : Set Object := {o | o.Kept}

def pictures : Set Object := {o | ∃ l, o = .shown l}

@[simp] theorem mem_kept (o : Object) : o ∈ kept ↔ o.Kept := Iff.rfl

/-- From `C` and `os` the rest of a program leaves nothing but pictures open. -/
def Leaves (C : Set Object) (os : List Object) (r : Run) : Prop :=
  ∃ C' left, ledger.Steps kept C os r.calls C' left ∧ ∀ o ∈ left, o ∈ pictures

variable {C C' : Set Object} {os os' left : List Object} {calls : List Call} {r : Run} {l : Layer}

theorem Leaves.after (h : Leaves C' os' r) (hcalls : ledger.Steps kept C os calls C' os') :
    Leaves C os (.after calls r) := by
  obtain ⟨C'', left, hrest, hleft⟩ := h
  exact ⟨C'', left, hcalls.append hrest, hleft⟩

theorem Leaves.cleaned (h : Leaves ∅ [] r) : ledger.CleanedBut kept pictures r.calls := by
  obtain ⟨C, left, hsteps, hleft⟩ := h
  exact (hsteps [] Scope.nil).cleanedBut_iff.2 hleft

theorem not_cleaned {o : Object} (h : ledger.Steps kept ∅ [] calls C (o :: os)) (ho : o ∉ pictures) :
    ¬ledger.CleanedBut kept pictures calls :=
  fun hcleaned => ho ((h [] Scope.nil).cleanedBut_iff.1 hcleaned o List.mem_cons_self)

/-- A trace that has created more, but nothing new that is not kept. -/
structure Grows (C C' : Set Object) : Prop where
  sub : C ⊆ C'
  new : ∀ o ∈ C', o ∈ C ∨ o ∈ kept

theorem Grows.refl (C : Set Object) : Grows C C := ⟨Set.Subset.rfl, fun _ h => Or.inl h⟩

theorem Grows.insert {o : Object} (h : Grows (insert o C) C') (ho : o.Kept) : Grows C C' := by
  refine ⟨fun x hx => h.sub (Set.mem_insert_of_mem _ hx), fun x hx => ?_⟩
  rcases h.new x hx with hx | hx
  · rcases Set.mem_insert_iff.1 hx with rfl | hx
    · exact Or.inr ho
    · exact Or.inl hx
  · exact Or.inr hx

theorem Grows.notMem {o : Object} (h : Grows C C') (ho : o ∉ C) (hkept : ¬o.Kept) : o ∉ C' :=
  fun hmem => (h.new o hmem).elim ho hkept

/-! ## Single calls -/

theorem steps_close : ledger.Steps kept C (.fd :: os) [.close] C os :=
  steps_release rfl rfl rfl (by simp [ledger, Call.uses])

theorem steps_kmsDestroy {ret : Int} (hfd : .fd ∈ os) : ledger.Steps kept C (.drv :: os) [.kmsDestroy ret] C os :=
  steps_release rfl rfl rfl (by simp [ledger, Call.uses, hfd])

theorem steps_kmsBoDestroy {ret : Int} (hdrv : .drv ∈ os) :
    ledger.Steps kept C (.bo l :: os) [.kmsBoDestroy l ret] C os :=
  steps_release rfl rfl rfl (by simp [ledger, Call.uses, hdrv])

theorem steps_destroyDumb {handle : U32} {ret : Int} (hfd : .fd ∈ os) :
    ledger.Steps kept C (.bo l :: os) [.destroyDumb l handle ret] C os :=
  steps_release rfl rfl rfl (by simp [ledger, Call.uses, hfd])

theorem steps_kmsBoUnmap {ret : Int} (hdrv : .drv ∈ os) (hbo : .bo l ∈ os) :
    ledger.Steps kept C (.mapping l :: os) [.kmsBoUnmap l ret] C os :=
  steps_release rfl rfl rfl (by simp [ledger, Call.uses, hdrv, hbo])

theorem steps_munmap : ledger.Steps kept C (.mapping l :: os) [.munmap l] C os :=
  steps_release rfl rfl rfl (by simp [ledger, Call.uses])

theorem steps_rmFB {fb : U32} (hfd : .fd ∈ os) : ledger.Steps kept C (.fb l :: os) [.drmModeRmFB l fb] C os :=
  steps_release rfl rfl rfl (by simp [ledger, Call.uses, hfd])

theorem steps_openDevice (hnew : .fd ∉ C) : ledger.Steps kept C os [.openDevice true] (insert .fd C) (.fd :: os) :=
  steps_acquire rfl rfl rfl (by simp [ledger, Call.uses]) hnew id

/-- A call that makes nothing, as it never does or as it fails. -/
theorem steps_none {c : Call} (hcreates : ledger.creates c = []) (hreleases : ledger.releases c = [])
    (huses : ∀ o ∈ ledger.uses c, o ∈ os) : ledger.Steps kept C os [c] C os :=
  steps_quiet ⟨hcreates, hreleases, rfl⟩ fun o ho => Or.inl (huses o ho)

theorem steps_new {c : Call} {o : Object} (hcreates : ledger.creates c = [o]) (hreleases : ledger.releases c = [])
    (huses : ∀ x ∈ ledger.uses c, x ∈ os) (hnew : o ∉ C) (ho : ¬o.Kept) :
    ledger.Steps kept C os [c] (insert o C) (o :: os) :=
  steps_acquire hcreates hreleases rfl (fun x hx => Or.inl (huses x hx)) hnew ho

theorem steps_kept {c : Call} {o : Object} (hcreates : ledger.creates c = [o]) (hreleases : ledger.releases c = [])
    (huses : ∀ x ∈ ledger.uses c, x ∈ os ∨ x ∈ C ∧ x ∈ kept) (hnew : o ∉ C) (ho : o.Kept) :
    ledger.Steps kept C os [c] (insert o C) os :=
  steps_keep hcreates hreleases rfl huses hnew ho

/-! ## The shared steps -/

def Stage.opened (l : Layer) : Stage → List Object
  | .none => []
  | .bo => [.bo l]
  | .mapped => [.mapping l, .bo l]
  | .fb => [.fb l, .mapping l, .bo l]

/-- With what had been created before. -/
def Stage.created (l : Layer) (C : Set Object) : Stage → Set Object
  | .none => C
  | .bo => insert (.bo l) C
  | .mapped => insert (.mapping l) (insert (.bo l) C)
  | .fb => insert (.fb l) (insert (.mapping l) (insert (.bo l) C))

theorem steps_kmsBuffer (C : Set Object) (os : List Object) (width height : U32) (a : KmsAnswers)
    (hfd : .fd ∈ os) (hdrv : .drv ∈ os) (hbo : .bo l ∉ C) (hmapping : .mapping l ∉ C) (hfb : .fb l ∉ C) :
    ledger.Steps kept C os (kmsBuffer l width height a).1 ((kmsBuffer l width height a).2.created l C)
      ((kmsBuffer l width height a).2.opened l ++ os) := by
  have hcreated : a.kmsBoCreate = 0 →
      ledger.Steps kept C os [.kmsBoCreate l width height a.kmsBoCreate] (insert (.bo l) C) (.bo l :: os) := by
    intro h
    exact steps_new (by simp [ledger, Call.creates, h]) rfl (by simp [ledger, Call.uses, hdrv]) hbo id
  have hpitch : ledger.Steps kept (insert (.bo l) C) (.bo l :: os) [.kmsBoGetPitch l a.pitch]
      (insert (.bo l) C) (.bo l :: os) :=
    steps_none rfl rfl (by simp [ledger, Call.uses, hdrv])
  have hhandle : ledger.Steps kept (insert (.bo l) C) (.bo l :: os) [.kmsBoGetHandle l a.gemHandle]
      (insert (.bo l) C) (.bo l :: os) :=
    steps_none rfl rfl (by simp [ledger, Call.uses, hdrv])
  have hmapped : a.kmsBoMap = 0 → ledger.Steps kept (insert (.bo l) C) (.bo l :: os) [.kmsBoMap l a.kmsBoMap]
      (insert (.mapping l) (insert (.bo l) C)) (.mapping l :: .bo l :: os) := by
    intro h
    exact steps_new (by simp [ledger, Call.creates, h]) rfl (by simp [ledger, Call.uses, hdrv])
      (by simp [hmapping]) id
  unfold kmsBuffer
  dsimp only
  split_ifs with hc hp hh hm ha
  · exact steps_none (by simp [ledger, Call.creates, hc]) rfl (by simp [ledger, Call.uses, hdrv])
  · exact (hcreated (not_not.1 hc)).cons hpitch
  · exact (hcreated (not_not.1 hc)).cons (hpitch.cons hhandle)
  · refine (hcreated (not_not.1 hc)).cons (hpitch.cons (hhandle.cons ?_))
    exact steps_none (by simp [ledger, Call.creates, hm]) rfl (by simp [ledger, Call.uses, hdrv])
  · refine (hcreated (not_not.1 hc)).cons (hpitch.cons (hhandle.cons ((hmapped (not_not.1 hm)).cons ?_)))
    exact steps_none (by simp [ledger, Call.creates, ha]) rfl (by simp [ledger, Call.uses, hfd])
  · refine (hcreated (not_not.1 hc)).cons (hpitch.cons (hhandle.cons ((hmapped (not_not.1 hm)).cons ?_)))
    exact steps_new (by simp [ledger, Call.creates, not_not.1 ha]) rfl (by simp [ledger, Call.uses, hfd])
      (by simp [hfb]) id

/-- What is created on the way to a picture on the CRTC. -/
def shownObjects : List Object := [.savedCrtc, .shown .crtc, .currentCrtc]

theorem steps_present (C : Set Object) (os : List Object) (crtcId : U32) (a : CrtcAnswers) (hfd : .fd ∈ os)
    (hfb : .fb .crtc ∈ os)
    (hmapping : .mapping .crtc ∈ os) (hnew : .currentCrtc ∉ C) :
    ledger.Steps kept C os (present crtcId a) (if a.current then insert .currentCrtc C else C) os := by
  have hshow : ∀ D : Set Object, ledger.Steps kept D os [.drawImage .crtc, .drmModeDirtyFB .crtc] D os := by
    intro D
    exact (steps_none rfl rfl (by simp [ledger, Call.uses, hmapping])).cons
      (steps_none rfl rfl (by simp [ledger, Call.uses, hfd, hfb]))
  unfold present
  split_ifs with hcurrent
  · refine (steps_kept ?_ rfl (by simp [ledger, Call.uses, hfd]) hnew trivial).cons (.cons ?_ (hshow _))
    · simp [ledger, Call.creates, hcurrent]
    · exact steps_quiet ⟨rfl, rfl, rfl⟩ (by simp [ledger, Call.uses, Object.Kept])
  · refine (steps_none ?_ rfl (by simp [ledger, Call.uses, hfd])).cons (hshow C)
    simp [ledger, Call.creates, hcurrent]

theorem steps_showCrtc (C : Set Object) (os : List Object) (crtcId fb connId : U32) (mode : ModeInfo)
    (a : CrtcAnswers) (hfd : .fd ∈ os) (hfb : .fb .crtc ∈ os) (hmapping : .mapping .crtc ∈ os)
    (hnew : ∀ x ∈ shownObjects, x ∉ C) :
    ∃ C', (∀ x ∈ C', x ∈ C ∨ x ∈ shownObjects) ∧
      match showCrtc crtcId fb connId mode a with
      | (calls, none) => ledger.Steps kept C os calls C' os
      | (calls, some _) => .savedCrtc ∈ C' ∧ ledger.Steps kept C os calls C' (.shown .crtc :: os) := by
  have hget : ledger.Steps kept C os [.drmModeGetCrtc .savedCrtc crtcId true, .readCrtc .savedCrtc]
      (insert .savedCrtc C) os := by
    refine (steps_kept rfl rfl (by simp [ledger, Call.uses, hfd]) (hnew .savedCrtc (by decide)) trivial).cons ?_
    exact steps_quiet ⟨rfl, rfl, rfl⟩ (by simp [ledger, Call.uses, Object.Kept])
  unfold showCrtc
  cases a.saved with
  | none =>
      refine ⟨C, fun x hx => Or.inl hx, steps_none ?_ rfl (by simp [ledger, Call.uses, hfd])⟩
      simp [ledger, Call.creates]
  | some saved =>
      dsimp only
      split_ifs with hset
      · refine ⟨insert .savedCrtc C, fun x hx => ?_, hget.append (steps_none ?_ rfl ?_)⟩
        · rcases hx with rfl | hx
          · exact Or.inr (by decide)
          · exact Or.inl hx
        · simp [ledger, Call.creates, hset]
        · simp [ledger, Call.uses, hfd, hfb]
      · have hshow : ledger.Steps kept (insert .savedCrtc C) os
            [.drmModeSetCrtc .crtc crtcId fb 0 0 connId mode a.set] (insert (.shown .crtc) (insert .savedCrtc C))
            (.shown .crtc :: os) :=
          steps_new (by simp [ledger, Call.creates, not_not.1 hset]) rfl (by simp [ledger, Call.uses, hfd, hfb])
            (by simpa using hnew (.shown .crtc) (by decide)) id
        have hpresent := steps_present (insert (.shown .crtc) (insert .savedCrtc C)) (.shown .crtc :: os) crtcId a
          (by simp [hfd]) (by simp [hfb]) (by simp [hmapping]) (by simpa using hnew .currentCrtc (by decide))
        refine ⟨_, fun x hx => ?_, ?_, (hget.append hshow).append hpresent⟩
        · have hx : x = .currentCrtc ∨ x = .shown .crtc ∨ x = .savedCrtc ∨ x ∈ C := by
            split_ifs at hx
            · exact hx
            · exact Or.inr hx
          rcases hx with rfl | rfl | rfl | hx
          · exact Or.inr (by decide)
          · exact Or.inr (by decide)
          · exact Or.inr (by decide)
          · exact Or.inl hx
        · split_ifs <;> simp

/-- The picture is taken away, or it stays to the end. -/
theorem steps_restore (os : List Object) (saved : Crtc) (connId : U32) (ret : Int) (hfd : .fd ∈ os) (hfb : .fb .crtc ∈ os)
    (hsaved : .savedCrtc ∈ C) :
    ∃ left, (∀ o ∈ left, o ∈ pictures) ∧
      ledger.Steps kept C (.shown .crtc :: os) (restore saved connId ret) C (os ++ left) := by
  have hread : ledger.Steps kept C (.shown .crtc :: os) [.readCrtc .savedCrtc] C (.shown .crtc :: os) :=
    steps_quiet ⟨rfl, rfl, rfl⟩ (by simp [ledger, Call.uses, Object.Kept, hsaved])
  have huses : ∀ x ∈ ledger.uses (.restoreCrtc .crtc saved connId ret),
      x ∈ Object.shown .crtc :: os ∨ x ∈ C ∧ x ∈ kept := by
    simp [ledger, Call.uses, hfd, hfb, hsaved, Object.Kept]
  have hstays := (List.perm_append_singleton (Object.shown .crtc) os).symm
  unfold restore
  by_cases hvalid : saved.modeValid = true
  · rw [if_pos hvalid]
    by_cases hret : ret = 0
    · refine ⟨[], by simp, ?_⟩
      rw [List.append_nil]
      exact hread.cons (steps_release (by simp [ledger, Call.releases, hret]) rfl rfl huses)
    · refine ⟨[.shown .crtc], by simp [pictures], (hread.cons (steps_quiet ⟨rfl, ?_, rfl⟩ huses)).perm hstays⟩
      simp [ledger, Call.releases, hret]
  · rw [if_neg hvalid]
    exact ⟨[.shown .crtc], by simp [pictures], hread.perm hstays⟩

theorem steps_showPlane (C : Set Object) (os : List Object) (o : Options) (fb : U32) (set disable : Int)
    (hfd : .fd ∈ os) (hfb : .fb .plane ∈ os)
    (hmapping : .mapping .plane ∈ os) (hnew : .shown .plane ∉ C) :
    ∃ C' left, (∀ x ∈ C, x ∈ C') ∧ (∀ o ∈ left, o ∈ pictures) ∧
      ledger.Steps kept C os (showPlane o fb set disable) C' (os ++ left) := by
  unfold showPlane
  split_ifs with hset
  · refine ⟨C, [], fun x hx => hx, by simp, ?_⟩
    rw [List.append_nil]
    exact steps_none (by simp [ledger, Call.creates, hset]) rfl (by simp [ledger, Call.uses, hfd, hfb])
  · have hshow : ledger.Steps kept C os [.drmModeSetPlane .plane (o.planeArgs fb) set] (insert (.shown .plane) C)
        (.shown .plane :: os) :=
      steps_new (by simp [ledger, Call.creates, not_not.1 hset]) rfl (by simp [ledger, Call.uses, hfd, hfb]) hnew id
    have hdraw : ledger.Steps kept (insert (.shown .plane) C) (.shown .plane :: os) [.drawImage .plane]
        (insert (.shown .plane) C) (.shown .plane :: os) :=
      steps_none rfl rfl (by simp [ledger, Call.uses, hmapping])
    have hmem : ∀ x ∈ C, x ∈ insert (Object.shown .plane) C := fun x hx => Set.mem_insert_of_mem _ hx
    by_cases hdisable : disable = 0
    · refine ⟨_, [], hmem, by simp, hshow.cons (hdraw.cons ?_)⟩
      rw [List.append_nil]
      refine steps_release ?_ rfl rfl (by simp [ledger, Call.uses, hfd, hfb])
      simp [ledger, Call.releases, hdisable]
    · refine ⟨_, [.shown .plane], hmem, by simp [pictures], (hshow.cons (hdraw.cons ?_)).perm
        (List.perm_append_singleton _ _).symm⟩
      refine steps_none rfl ?_ (by simp [ledger, Call.uses, hfd, hfb])
      simp [ledger, Call.releases, hdisable]

/-- The loop keeps what it gets. -/
theorem steps_findPlane (planeId : U32) (hfd : .fd ∈ os) (planes : List (U32 × Option U32)) :
    ∀ (i : Nat) (C : Set Object), .planeResources ∈ C → (∀ j, i ≤ j → .planeAt j ∉ C) →
      ∃ C', Grows C C' ∧ ledger.Steps kept C os (findPlane planeId i planes).1 C' os := by
  induction planes with
  | nil => exact fun i C _ _ => ⟨C, Grows.refl C, Steps.nil⟩
  | cons answer rest ih =>
      intro i C hres hnew
      obtain ⟨id, _ | got⟩ := answer
      · obtain ⟨C', hgrows, hrest⟩ := ih (i + 1) C hres fun j hj => hnew j (by omega)
        refine ⟨C', hgrows, Steps.cons ?_ hrest⟩
        exact steps_quiet ⟨rfl, rfl, rfl⟩ (by simp [ledger, Call.uses, Object.Kept, hfd, hres])
      · have hget : ledger.Steps kept C os [.drmModeGetPlane i id true] (insert (.planeAt i) C) os :=
          steps_kept rfl rfl (by simp [ledger, Call.uses, Object.Kept, hfd, hres]) (hnew i (le_refl i)) trivial
        have hread : ledger.Steps kept (insert (.planeAt i) C) os [.readPlane i] (insert (.planeAt i) C) os :=
          steps_quiet ⟨rfl, rfl, rfl⟩ (by simp [ledger, Call.uses, Object.Kept])
        unfold findPlane
        split_ifs with hfound
        · exact ⟨insert (.planeAt i) C, (Grows.refl _).insert (o := .planeAt i) trivial, hget.cons hread⟩
        · obtain ⟨C', hgrows, hrest⟩ := ih (i + 1) (insert (.planeAt i) C) (Set.mem_insert_of_mem _ hres) fun j hj => by
            have hne : j ≠ i := by omega
            simp [hne, hnew j (by omega)]
          refine ⟨C', hgrows.insert trivial, hget.cons (hread.cons (Steps.cons ?_ hrest))⟩
          exact steps_none rfl rfl (by simp [ledger, Call.uses])

theorem steps_getPlane (C : Set Object) (os : List Object) (planeId : U32)
    (planes : Option (List (U32 × Option U32))) (hfd : .fd ∈ os) (hres : .planeResources ∉ C) (hnew : ∀ j, .planeAt j ∉ C) :
    ∃ C', Grows C C' ∧ ledger.Steps kept C os (getPlane planeId planes).1 C' os := by
  cases planes with
  | none =>
      refine ⟨C, Grows.refl C, steps_none rfl rfl ?_⟩
      simp [ledger, Call.uses, hfd]
  | some planes =>
      have hget : ledger.Steps kept C os [.drmModeGetPlaneResources true] (insert .planeResources C) os :=
        steps_kept rfl rfl (by simp [ledger, Call.uses, hfd]) hres trivial
      obtain ⟨C', hgrows, hloop⟩ := steps_findPlane planeId hfd planes 0 (insert .planeResources C)
        (Set.mem_insert _ _) (by simpa using hnew)
      exact ⟨C', hgrows.insert trivial, hget.cons hloop⟩

theorem leaves_label (hleft : ∀ o ∈ left, o ∈ pictures) (h : ledger.Steps kept C os r.calls C' left) : Leaves C os r :=
  ⟨C', left, h, hleft⟩

theorem nil_pictures : ∀ o ∈ ([] : List Object), o ∈ pictures := by
  simp

theorem pictures_append {more : List Object} (hleft : ∀ o ∈ left, o ∈ pictures) (hmore : ∀ o ∈ more, o ∈ pictures) :
    ∀ o ∈ left ++ more, o ∈ pictures :=
  fun o ho => (List.mem_append.1 ho).elim (hleft o) (hmore o)

/-! ## `drm_dumb_bo_mult` -/

namespace Mult
variable {o : Options} {a : MultAnswers} {saved : Crtc}

theorem steps_errDriverDestroy : ledger.Steps kept C (.drv :: .fd :: left) (errDriverDestroy a).calls C left :=
  (steps_kmsDestroy (by simp)).cons steps_close

theorem steps_errCrtcBufferDestroy :
    ledger.Steps kept C (.bo .crtc :: .drv :: .fd :: left) (errCrtcBufferDestroy a).calls C left :=
  (steps_kmsBoDestroy (by simp)).cons steps_errDriverDestroy

theorem steps_errCrtcBufferUnmap :
    ledger.Steps kept C (.mapping .crtc :: .bo .crtc :: .drv :: .fd :: left) (errCrtcBufferUnmap a).calls C left :=
  (steps_kmsBoUnmap (by simp) (by simp)).cons steps_errCrtcBufferDestroy

theorem steps_errCrtcRmFb : ledger.Steps kept C (.fb .crtc :: .mapping .crtc :: .bo .crtc :: .drv :: .fd :: left)
    (errCrtcRmFb a).calls C left :=
  (steps_rmFB (by simp)).cons steps_errCrtcBufferUnmap

/-- What is open once the picture of the CRTC is shown. -/
abbrev crtcOpen (left : List Object) : List Object :=
  .shown .crtc :: .fb .crtc :: .mapping .crtc :: .bo .crtc :: .drv :: .fd :: left

section Labels
variable (hleft : ∀ o ∈ left, o ∈ pictures) (hsaved : .savedCrtc ∈ C)
include hleft hsaved

theorem leaves_errCrtcExit : Leaves C (crtcOpen left) (errCrtcExit o a saved) := by
  obtain ⟨more, hmore, hrestore⟩ := steps_restore (.fb .crtc :: .mapping .crtc :: .bo .crtc :: .drv :: .fd :: left)
    saved o.connId a.screen.restore (by simp) (by simp) hsaved
  exact leaves_label (pictures_append hleft hmore) (hrestore.append steps_errCrtcRmFb)

theorem leaves_errPlaneBufferDestroy : Leaves C (.bo .plane :: crtcOpen left) (errPlaneBufferDestroy o a saved) :=
  (leaves_errCrtcExit hleft hsaved).after (steps_kmsBoDestroy (by simp))

theorem leaves_errPlaneBufferUnmap :
    Leaves C (.mapping .plane :: .bo .plane :: crtcOpen left) (errPlaneBufferUnmap o a saved) :=
  (leaves_errPlaneBufferDestroy hleft hsaved).after (steps_kmsBoUnmap (by simp) (by simp))

theorem leaves_errPlaneRmFb :
    Leaves C (.fb .plane :: .mapping .plane :: .bo .plane :: crtcOpen left) (errPlaneRmFb o a saved) :=
  (leaves_errPlaneBufferUnmap hleft hsaved).after (steps_rmFB (by simp))

theorem leaves_planeBuffer (hbo : .bo .plane ∉ C) (hmapping : .mapping .plane ∉ C) (hfb : .fb .plane ∉ C)
    (hshown : .shown .plane ∉ C) : Leaves C (crtcOpen left) (planeBuffer o a saved) := by
  have hsteps := steps_kmsBuffer (l := .plane) C (crtcOpen left) o.width o.height a.plane (by simp) (by simp) hbo
    hmapping hfb
  unfold planeBuffer
  generalize kmsBuffer .plane o.width o.height a.plane = r at hsteps ⊢
  obtain ⟨calls, stage⟩ := r
  cases stage with
  | none => exact (leaves_errCrtcExit hleft hsaved).after hsteps
  | bo => exact (leaves_errPlaneBufferDestroy hleft (Set.mem_insert_of_mem _ hsaved)).after hsteps
  | mapped => exact (leaves_errPlaneBufferUnmap hleft (by simp [Stage.created, hsaved])).after hsteps
  | fb =>
      obtain ⟨C', more, hsub, hmore, hshow⟩ := steps_showPlane (Stage.created .plane C .fb)
        (.fb .plane :: .mapping .plane :: .bo .plane :: crtcOpen left) o a.plane.fb a.setPlane a.disablePlane
        (by simp) (by simp) (by simp) (by simp [Stage.created, hshown])
      refine (leaves_errPlaneRmFb (pictures_append hleft hmore) (hsub _ ?_)).after (hsteps.append hshow)
      simp [Stage.created, hsaved]

end Labels

/-- What has been created before a plane is looked for. -/
def early : List Object := [.fd, .drv, .bo .crtc, .mapping .crtc, .fb .crtc, .savedCrtc, .shown .crtc, .currentCrtc]

theorem leaves_configurePlane (hC : ∀ x ∈ C, x ∈ early) (hsaved : .savedCrtc ∈ C) :
    Leaves C (crtcOpen []) (configurePlane o a saved) := by
  have hnew : ∀ x, x ∉ early → x ∉ C := fun x hx hmem => hx (hC x hmem)
  obtain ⟨C', hgrows, hsteps⟩ := steps_getPlane C (crtcOpen []) o.planeId a.planes (by simp)
    (hnew _ (by decide)) fun j => hnew _ (by simp [early])
  have hkeeps := hgrows.sub hsaved
  unfold configurePlane
  generalize getPlane o.planeId a.planes = r at hsteps ⊢
  obtain ⟨calls, _ | found⟩ := r
  · exact (leaves_errCrtcExit nil_pictures hkeeps).after hsteps
  · refine (leaves_planeBuffer nil_pictures hkeeps ?_ ?_ ?_ ?_).after hsteps
    · exact hgrows.notMem (hnew _ (by decide)) id
    · exact hgrows.notMem (hnew _ (by decide)) id
    · exact hgrows.notMem (hnew _ (by decide)) id
    · exact hgrows.notMem (hnew _ (by decide)) id

theorem leaves_configureImage {mode : ModeInfo} (hC : ∀ x ∈ C, x ∈ early.take 5) :
    Leaves C [.fb .crtc, .mapping .crtc, .bo .crtc, .drv, .fd] (configureImage o a mode) := by
  obtain ⟨C', hC', hsteps⟩ := steps_showCrtc C [.fb .crtc, .mapping .crtc, .bo .crtc, .drv, .fd] o.crtcId a.crtc.fb
    o.connId mode a.screen (by simp) (by simp) (by simp) fun x hx hmem => by
      have hearly := hC x hmem
      simp only [shownObjects, List.mem_cons, List.not_mem_nil, or_false] at hx
      rcases hx with rfl | rfl | rfl <;> revert hearly <;> decide
  unfold configureImage
  generalize showCrtc o.crtcId a.crtc.fb o.connId mode a.screen = r at hsteps ⊢
  obtain ⟨calls, _ | saved⟩ := r
  · exact leaves_label nil_pictures (hsteps.append steps_errCrtcRmFb)
  · refine (leaves_configurePlane (fun x hx => ?_) hsteps.1).after hsteps.2
    rcases hC' x hx with hx | hx
    · exact List.mem_of_mem_take (hC x hx)
    · exact List.mem_of_mem_drop (i := 5) hx

theorem leaves_configureCrtc (modeName : List Byte) :
    Leaves (insert .drv (insert .fd ∅)) [.drv, .fd] (configureCrtc o a modeName) := by
  have hget : ∀ mode, ledger.Steps kept (insert .drv (insert .fd ∅)) [.drv, .fd]
      [.drmGetModeByName o.connId modeName mode] (insert .drv (insert .fd ∅)) [.drv, .fd] :=
    fun mode => steps_none rfl rfl (by simp [ledger, Call.uses])
  unfold configureCrtc
  cases a.mode with
  | none => exact leaves_label nil_pictures ((hget none).append steps_errDriverDestroy)
  | some mode =>
      have hsteps := steps_kmsBuffer (l := .crtc) (insert .drv (insert .fd ∅)) [.drv, .fd] (modeWidth mode)
        (modeHeight mode) a.crtc (by simp) (by simp) (by simp) (by simp) (by simp)
      dsimp only
      generalize kmsBuffer .crtc (modeWidth mode) (modeHeight mode) a.crtc = r at hsteps ⊢
      obtain ⟨calls, stage⟩ := r
      have hboth := (hget (some mode)).cons hsteps
      cases stage with
      | none => exact leaves_label nil_pictures (hboth.append steps_errDriverDestroy)
      | bo => exact leaves_label nil_pictures (hboth.append steps_errCrtcBufferDestroy)
      | mapped => exact leaves_label nil_pictures (hboth.append steps_errCrtcBufferUnmap)
      | fb =>
          refine (leaves_configureImage ?_).after hboth
          intro x hx
          simp only [Stage.created, Set.mem_insert_iff, Set.mem_empty_iff_false, or_false] at hx
          rcases hx with rfl | rfl | rfl | rfl | rfl <;> decide

end Mult

theorem steps_start : ledger.Steps kept ∅ [] [.openDevice true, .drmSetMaster] (insert .fd ∅) [.fd] :=
  (steps_openDevice (by simp)).cons (steps_none rfl rfl (by simp [ledger, Call.uses]))

theorem leaves_shut {ret : Option Int} : Leaves ∅ [] ⟨[.openDevice false], ret⟩ :=
  ⟨∅, [], steps_none rfl rfl (by simp [ledger, Call.uses]), by simp⟩

theorem leaves_drmDumbBoMult {o : Options} {a : MultAnswers}
    (h : .drv ∈ ledger.created (drmDumbBoMult o a).calls → o.modeName.isSome) : Leaves ∅ [] (drmDumbBoMult o a) := by
  unfold drmDumbBoMult at h ⊢
  dsimp only at h ⊢
  split_ifs at h ⊢ with hfd hkms
  · have hfailed : ledger.Steps kept (insert .fd ∅) [.fd] [.kmsCreate a.kmsCreate] (insert .fd ∅) [.fd] :=
      steps_none (by simp [ledger, Call.creates, hkms]) rfl (by simp [ledger, Call.uses])
    exact leaves_label nil_pictures ((steps_start.append hfailed).append steps_close)
  · cases hname : o.modeName with
    | none =>
        rw [hname] at h
        exact absurd (h (by simp [ledger, Call.creates, not_not.1 hkms])) Bool.false_ne_true
    | some modeName =>
        refine (Mult.leaves_configureCrtc modeName).after
          (steps_start.append (steps_new ?_ rfl (by simp [ledger, Call.uses]) (by simp) id))
        simp [ledger, Call.creates, not_not.1 hkms]
  · exact leaves_shut

namespace Mult
variable {o : Options} {a : MultAnswers} {saved : Crtc} {mode : ModeInfo}

theorem ret_planeBuffer : (planeBuffer o a saved).ret = some a.kmsDestroy := by
  unfold planeBuffer
  split <;> rfl

theorem ret_configurePlane : (configurePlane o a saved).ret = some a.kmsDestroy := by
  unfold configurePlane
  split
  · rfl
  · exact ret_planeBuffer

theorem ret_configureImage : (configureImage o a mode).ret = some a.kmsDestroy := by
  unfold configureImage
  split
  · rfl
  · exact ret_configurePlane

theorem ret_configureCrtc (modeName : List Byte) : (configureCrtc o a modeName).ret = some a.kmsDestroy := by
  unfold configureCrtc
  dsimp only
  split
  · rfl
  · split
    · rfl
    · rfl
    · rfl
    · exact ret_configureImage

end Mult

theorem ret_drmDumbBoMult {o : Options} {a : MultAnswers} (hname : o.modeName.isSome)
    (hdrv : .drv ∈ ledger.created (drmDumbBoMult o a).calls) : (drmDumbBoMult o a).ret = some a.kmsDestroy := by
  obtain ⟨modeName, hname⟩ := Option.isSome_iff_exists.1 hname
  unfold drmDumbBoMult at hdrv ⊢
  dsimp only at hdrv ⊢
  split_ifs at hdrv ⊢ with hopen hkms
  · simp [Run.after, errClose, ledger, Call.creates, hkms] at hdrv
  · rw [hname]
    exact Mult.ret_configureCrtc modeName
  · simp [ledger, Call.creates] at hdrv

/-- **`drm_dumb_bo_mult`.** With `-m`, or without a driver, it cleans up. Once there is a driver, the exit status tells
only whether it could be destroyed. -/
theorem drmDumbBoMult_cleaned (o : Options) (a : MultAnswers) :
    ((.drv ∈ ledger.created (drmDumbBoMult o a).calls → o.modeName.isSome) →
      ledger.CleanedBut kept pictures (drmDumbBoMult o a).calls) ∧
    (o.modeName.isSome → .drv ∈ ledger.created (drmDumbBoMult o a).calls →
      (drmDumbBoMult o a).ret = some a.kmsDestroy) :=
  ⟨fun h => (leaves_drmDumbBoMult h).cleaned, ret_drmDumbBoMult⟩

/-! ## `drm_dumb_bo_plane` -/

namespace Plane
variable {o : Options} {a : PlaneAnswers}

theorem steps_errDestroyDumb : ledger.Steps kept C (.bo .plane :: .fd :: left) (errDestroyDumb a).calls C left :=
  (steps_destroyDumb (by simp)).cons steps_close

theorem steps_errDestroyFb :
    ledger.Steps kept C (.fb .plane :: .bo .plane :: .fd :: left) (errDestroyFb a).calls C left :=
  (steps_rmFB (by simp)).cons steps_errDestroyDumb

theorem steps_errUnmap :
    ledger.Steps kept C (.mapping .plane :: .fb .plane :: .bo .plane :: .fd :: left) (errUnmap a).calls C left :=
  steps_munmap.cons steps_errDestroyFb

theorem leaves_buffer (hnew : ∀ x ∈ [Object.bo .plane, .fb .plane, .mapping .plane, .shown .plane], x ∉ C) :
    Leaves C [.fd] (buffer o a) := by
  have hbo := hnew (.bo .plane) (by decide)
  have hfb := hnew (.fb .plane) (by decide)
  have hmapping := hnew (.mapping .plane) (by decide)
  have hshown := hnew (.shown .plane) (by decide)
  have hcreated : a.dumb.create = 0 → ledger.Steps kept C [.fd]
      [.createDumb .plane o.width o.height a.dumb.create] (insert (.bo .plane) C) [.bo .plane, .fd] := by
    intro h
    exact steps_new (by simp [ledger, Call.creates, h]) rfl (by simp [ledger, Call.uses]) hbo id
  have hadded : a.dumb.addFB = 0 → ledger.Steps kept (insert (.bo .plane) C) [.bo .plane, .fd]
      [.drmModeAddFB .plane o.width o.height a.dumb.pitch a.dumb.handle a.dumb.addFB]
      (insert (.fb .plane) (insert (.bo .plane) C)) [.fb .plane, .bo .plane, .fd] := by
    intro h
    exact steps_new (by simp [ledger, Call.creates, h]) rfl (by simp [ledger, Call.uses]) (by simp [hfb]) id
  have hmap : ledger.Steps kept (insert (.fb .plane) (insert (.bo .plane) C)) [.fb .plane, .bo .plane, .fd]
      [.mapDumb .plane a.dumb.mapDumb] (insert (.fb .plane) (insert (.bo .plane) C)) [.fb .plane, .bo .plane, .fd] :=
    steps_none rfl rfl (by simp [ledger, Call.uses])
  unfold buffer
  dsimp only
  split_ifs with hc ha hm hmm
  · have hfailed : ledger.Steps kept C [.fd] [.createDumb .plane o.width o.height a.dumb.create] C [.fd] :=
      steps_none (by simp [ledger, Call.creates, hc]) rfl (by simp [ledger, Call.uses])
    exact leaves_label nil_pictures (hfailed.append steps_close)
  · have hfailed : ledger.Steps kept (insert (.bo .plane) C) [.bo .plane, .fd]
        [.drmModeAddFB .plane o.width o.height a.dumb.pitch a.dumb.handle a.dumb.addFB] (insert (.bo .plane) C)
        [.bo .plane, .fd] :=
      steps_none (by simp [ledger, Call.creates, ha]) rfl (by simp [ledger, Call.uses])
    exact leaves_label nil_pictures (((hcreated (not_not.1 hc)).cons hfailed).append steps_errDestroyDumb)
  · exact leaves_label nil_pictures
      (((hcreated (not_not.1 hc)).cons ((hadded (not_not.1 ha)).cons hmap)).append steps_errDestroyFb)
  · have hmapped : ledger.Steps kept (insert (.fb .plane) (insert (.bo .plane) C)) [.fb .plane, .bo .plane, .fd]
        [.mmap .plane true] (insert (.mapping .plane) (insert (.fb .plane) (insert (.bo .plane) C)))
        [.mapping .plane, .fb .plane, .bo .plane, .fd] :=
      steps_new rfl rfl (by simp [ledger, Call.uses]) (by simp [hmapping]) id
    obtain ⟨C', more, -, hmore, hshow⟩ := steps_showPlane
      (insert (.mapping .plane) (insert (.fb .plane) (insert (.bo .plane) C)))
      [.mapping .plane, .fb .plane, .bo .plane, .fd] o a.dumb.fb a.setPlane a.disablePlane (by simp) (by simp)
      (by simp) (by simp [hshown])
    exact leaves_label hmore ((((hcreated (not_not.1 hc)).cons ((hadded (not_not.1 ha)).cons (hmap.cons hmapped))).append
      hshow).append steps_errUnmap)
  · have hnone : ledger.Steps kept (insert (.fb .plane) (insert (.bo .plane) C)) [.fb .plane, .bo .plane, .fd]
        [.mmap .plane false] (insert (.fb .plane) (insert (.bo .plane) C)) [.fb .plane, .bo .plane, .fd] :=
      steps_none rfl rfl (by simp [ledger, Call.uses])
    exact leaves_label nil_pictures
      (((hcreated (not_not.1 hc)).cons ((hadded (not_not.1 ha)).cons (hmap.cons hnone))).append steps_errDestroyFb)

end Plane

theorem leaves_drmDumbBoPlane (o : Options) (a : PlaneAnswers) : Leaves ∅ [] (drmDumbBoPlane o a) := by
  have hcap : ledger.Steps kept ∅ [] [.openDevice true, .drmSetMaster, .drmGetCap a.dumb.hasDumbRet a.dumb.hasDumb]
      (insert .fd ∅) [.fd] :=
    steps_start.append (steps_none rfl rfl (by simp [ledger, Call.uses]))
  unfold drmDumbBoPlane
  dsimp only
  split_ifs with hfd hret hdumb
  · exact leaves_label nil_pictures (hcap.append steps_close)
  · obtain ⟨C, hgrows, hsteps⟩ := steps_getPlane (insert .fd ∅) [.fd] o.planeId a.planes (by simp) (by simp) (by simp)
    generalize getPlane o.planeId a.planes = r at hsteps ⊢
    obtain ⟨calls, _ | found⟩ := r
    · exact leaves_label nil_pictures ((hcap.append hsteps).append steps_close)
    · refine (Plane.leaves_buffer fun x hx => ?_).after (hcap.append hsteps)
      simp only [List.mem_cons, List.not_mem_nil, or_false] at hx
      rcases hx with rfl | rfl | rfl | rfl <;> exact hgrows.notMem (by simp) id
  · exact leaves_label nil_pictures (hcap.append steps_close)
  · exact leaves_shut

theorem created_findPlane (planeId : U32) (planes : List (U32 × Option U32)) :
    ∀ i, ∀ o ∈ ledger.created (findPlane planeId i planes).1, o.Kept := by
  induction planes with
  | nil => exact fun i o ho => absurd ho List.not_mem_nil
  | cons answer rest ih =>
      intro i o ho
      obtain ⟨id, _ | got⟩ := answer
      · exact ih (i + 1) o ho
      · unfold findPlane at ho
        split_ifs at ho
        · obtain rfl : o = .planeAt i := by simpa [ledger, Call.creates] using ho
          trivial
        · have hor : o = .planeAt i ∨ o ∈ ledger.created (findPlane planeId (i + 1) rest).1 := by
            simpa [ledger, Call.creates] using ho
          rcases hor with rfl | ho
          · trivial
          · exact ih (i + 1) o ho

theorem created_getPlane (planeId : U32) (planes : Option (List (U32 × Option U32))) :
    ∀ o ∈ ledger.created (getPlane planeId planes).1, o.Kept := by
  cases planes with
  | none => exact fun o ho => absurd ho List.not_mem_nil
  | some planes =>
      intro o ho
      have hor : o = .planeResources ∨ o ∈ ledger.created (findPlane planeId 0 planes).1 := by
        simpa [getPlane, ledger, Call.creates] using ho
      rcases hor with rfl | ho
      · trivial
      · exact created_findPlane planeId planes 0 o ho

theorem Plane.ret_buffer {o : Options} {a : PlaneAnswers} (hcreate : a.dumb.create = 0) :
    (Plane.buffer o a).ret = some a.dumb.destroy := by
  unfold Plane.buffer
  dsimp only
  rw [if_neg (not_not.2 hcreate)]
  split_ifs <;> rfl

theorem ret_drmDumbBoPlane (o : Options) (a : PlaneAnswers)
    (hbo : .bo .plane ∈ ledger.created (drmDumbBoPlane o a).calls) :
    (drmDumbBoPlane o a).ret = some a.dumb.destroy := by
  unfold drmDumbBoPlane at hbo ⊢
  dsimp only at hbo ⊢
  split_ifs at hbo ⊢ with hopen hret hdumb
  · simp [Run.after, errClose, ledger, Call.creates] at hbo
  · have hplanes := created_getPlane o.planeId a.planes
    generalize getPlane o.planeId a.planes = r at hplanes hbo ⊢
    obtain ⟨calls, _ | found⟩ := r
    · have hmem : .bo .plane ∈ ledger.created calls := by
        simpa [Run.after, errClose, ledger, Call.creates] using hbo
      exact absurd (hplanes _ hmem) id
    · by_cases hcreate : a.dumb.create = 0
      · exact Plane.ret_buffer hcreate
      · have hmem : .bo .plane ∈ ledger.created calls := by
          simpa [Run.after, errClose, ledger, Call.creates, Plane.buffer, hcreate] using hbo
        exact absurd (hplanes _ hmem) id
  · simp [Run.after, errClose, ledger, Call.creates] at hbo
  · simp [ledger, Call.creates] at hbo

/-- **`drm_dumb_bo_plane`.** It cleans up. Once there is a buffer, the exit status tells only whether it could be
destroyed. -/
theorem drmDumbBoPlane_cleaned (o : Options) (a : PlaneAnswers) :
    ledger.CleanedBut kept pictures (drmDumbBoPlane o a).calls ∧
      (.bo .plane ∈ ledger.created (drmDumbBoPlane o a).calls → (drmDumbBoPlane o a).ret = some a.dumb.destroy) :=
  ⟨(leaves_drmDumbBoPlane o a).cleaned, ret_drmDumbBoPlane o a⟩

/-! ## The configuration -/

/-- It fails, or it gives a CRTC. -/
def Config.Sound : Config → Prop
  | .failed => True
  | .usage | .undefined => False
  | .chosen kms => kms.crtcId.isSome

/-- The calls up to the configuration. -/
def configureCalls (kms : Config) : List Call := [.openDevice true, .drmSetMaster, .configure kms]

/-- What has been created behind the configuration. -/
abbrev configured : Set Object := insert .configuredCrtc (insert .fd ∅)

theorem steps_configure {kms : Config} (hcrtc : kms.hasCrtc = false) :
    ledger.Steps kept ∅ [] (configureCalls kms) (insert .fd ∅) [.fd] := by
  refine steps_start.append (steps_none ?_ rfl (by simp [ledger, Call.uses]))
  simp [ledger, Call.creates, hcrtc]

theorem steps_chosen {kms : Display} {crtcId : U32} (hcrtc : kms.crtcId = some crtcId) :
    ledger.Steps kept ∅ [] (configureCalls (.chosen kms) ++ [.dumpDrmConfiguration]) configured [.fd] := by
  have hchosen : ledger.Steps kept (insert .fd ∅) [.fd] [.configure (.chosen kms)] configured [.fd] := by
    refine steps_kept ?_ rfl (by simp [ledger, Call.uses]) (by simp) trivial
    simp [ledger, Call.creates, Config.hasCrtc, hcrtc]
  refine (steps_start.append hchosen).append (steps_quiet ⟨rfl, rfl, rfl⟩ ?_)
  simp [ledger, Call.uses, Object.Kept]

/-- A program that ends there leaves the device open. -/
theorem not_cleaned_configure {kms : Config} (hcrtc : kms.hasCrtc = false) :
    ¬ledger.CleanedBut kept pictures (configureCalls kms) :=
  not_cleaned (steps_configure hcrtc) (by simp [pictures])

/-- `dump_drm_configuration` reads the CRTC. -/
theorem not_cleaned_null {kms : Display} (hcrtc : kms.crtcId = none) :
    ¬ledger.CleanedBut kept pictures (configureCalls (.chosen kms) ++ [.dumpDrmConfiguration]) := by
  intro hcleaned
  refine not_safe (o := .configuredCrtc) (by simp [ledger, Call.uses]) (fun h => ?_) [] hcleaned.safe
  have hcreated := usable_mem_created h
  simp [configureCalls, ledger, Call.creates, Config.hasCrtc, hcrtc] at hcreated

theorem exists_of_hasCrtc {kms : Config} (h : kms.hasCrtc = true) :
    ∃ display crtcId, kms = .chosen display ∧ display.crtcId = some crtcId := by
  cases kms with
  | failed => exact nomatch h
  | usage => exact nomatch h
  | undefined => exact nomatch h
  | chosen display =>
      obtain ⟨crtcId, hcrtc⟩ := Option.isSome_iff_exists.1 h
      exact ⟨display, crtcId, rfl, hcrtc⟩

theorem hasCrtc_chosen {kms : Config} {display : Display} {crtcId : U32} (hkms : kms = .chosen display)
    (hcrtc : display.crtcId = some crtcId) : kms.hasCrtc = true := by
  rw [hkms, Config.hasCrtc, hcrtc]
  rfl

theorem configure_cleaned_iff (cmdline : Bool) (kms : Config) (rest : Display → U32 → Run) :
    ledger.CleanedBut kept pictures (configure cmdline kms rest).calls ↔
      kms.Sound ∧ ∀ display crtcId, kms = .chosen display → display.crtcId = some crtcId →
        ledger.CleanedBut kept pictures
          (configureCalls kms ++ [.dumpDrmConfiguration] ++ (rest display crtcId).calls) := by
  unfold configure
  cases kms with
  | failed =>
      have hleaves : Leaves ∅ [] (.after (configureCalls .failed) (errClose (if cmdline then -EINVAL else -EFAULT))) :=
        leaves_label nil_pictures ((steps_configure rfl).append steps_close)
      exact iff_of_true hleaves.cleaned ⟨trivial, fun _ _ h => nomatch h⟩
  | usage => exact iff_of_false (not_cleaned_configure rfl) fun h => h.1
  | undefined => exact iff_of_false (not_cleaned_configure rfl) fun h => h.1
  | chosen display =>
      dsimp only
      cases hcrtc : display.crtcId with
      | none =>
          refine iff_of_false (not_cleaned_null hcrtc) fun h => ?_
          have hsome := h.1
          simp [Config.Sound, hcrtc] at hsome
      | some crtcId =>
          have hsound : Config.Sound (.chosen display) := by simp [Config.Sound, hcrtc]
          rw [and_iff_right hsound]
          constructor
          · intro h display' crtcId' heq hcrtc'
            obtain rfl := Config.chosen.inj heq
            obtain rfl := Option.some.inj (hcrtc.symm.trans hcrtc')
            exact h
          · exact fun h => h display crtcId rfl hcrtc

/-! ## `drm_dumb_bo` -/

/-- The buffer was created. -/
def DumbBoAnswers.Created (a : DumbBoAnswers) : Prop :=
  a.openDevice ∧ a.kms.hasCrtc ∧ 0 ≤ a.dumb.hasDumbRet ∧ a.dumb.hasDumb ∧ a.dumb.create = 0

/-- Once created, the buffer is mapped and becomes a framebuffer. -/
def DumbBoAnswers.Framed (a : DumbBoAnswers) : Prop :=
  a.dumb.mapDumb = 0 ∧ a.dumb.mmap = true ∧ a.dumb.addFB = 0

namespace DumbBo
variable {a : DumbBoAnswers} {kms : Display} {crtcId : U32}

theorem steps_errDestroy : ledger.Steps kept C (.bo .crtc :: .fd :: left) (errDestroy a).calls C left :=
  (steps_destroyDumb (by simp)).cons steps_close

/-- With the mapping released first. -/
theorem steps_errUnmap :
    ledger.Steps kept C (.mapping .crtc :: .fb .crtc :: .bo .crtc :: .fd :: left) (errUnmap a).calls C left :=
  steps_munmap.cons ((steps_rmFB (by simp)).cons steps_errDestroy)

theorem leaves_image (hnew : ∀ x ∈ shownObjects, x ∉ C) :
    Leaves C [.mapping .crtc, .fb .crtc, .bo .crtc, .fd] (image a kms crtcId) := by
  obtain ⟨C', -, hsteps⟩ := steps_showCrtc C [.mapping .crtc, .fb .crtc, .bo .crtc, .fd] crtcId a.dumb.fb
    kms.connId kms.mode a.screen (by simp) (by simp) (by simp) hnew
  unfold image
  generalize showCrtc crtcId a.dumb.fb kms.connId kms.mode a.screen = r at hsteps ⊢
  obtain ⟨calls, _ | saved⟩ := r
  · exact leaves_label nil_pictures (hsteps.append steps_errUnmap)
  · obtain ⟨more, hmore, hrestore⟩ := steps_restore [.mapping .crtc, .fb .crtc, .bo .crtc, .fd] saved kms.connId
      a.screen.restore (by simp) (by simp) hsteps.1
    exact leaves_label hmore ((hsteps.2.append hrestore).append steps_errUnmap)

section Buffer
variable (hcreate : a.dumb.create = 0)
include hcreate

theorem steps_created {width height : U32} (hbo : .bo .crtc ∉ C) :
    ledger.Steps kept C [.fd] [.createDumb .crtc width height a.dumb.create] (insert (.bo .crtc) C) [.bo .crtc, .fd] :=
  steps_new (by simp [ledger, Call.creates, hcreate]) rfl (by simp [ledger, Call.uses]) hbo id

/-- The mapping is made before the framebuffer. -/
theorem steps_mapped {width height : U32} (hbo : .bo .crtc ∉ C)
    (hmapping : .mapping .crtc ∉ C) :
    ledger.Steps kept C [.fd] [.createDumb .crtc width height a.dumb.create, .mapDumb .crtc a.dumb.mapDumb,
      .mmap .crtc true] (insert (.mapping .crtc) (insert (.bo .crtc) C)) [.mapping .crtc, .bo .crtc, .fd] := by
  refine (steps_created hcreate hbo).cons (Steps.cons (steps_none rfl rfl ?_) ?_)
  · simp [ledger, Call.uses]
  · exact steps_new rfl rfl (by simp [ledger, Call.uses]) (by simp [hmapping]) id

end Buffer

theorem leaves_buffer (hframed : a.dumb.create = 0 → a.Framed) :
    Leaves configured [.fd] (buffer a kms crtcId) := by
  unfold buffer
  dsimp only
  by_cases hcreate : a.dumb.create = 0
  · obtain ⟨hmapDumb, hmmap, hadd⟩ := hframed hcreate
    rw [if_neg (not_not.2 hcreate), if_neg (not_not.2 hmapDumb), if_pos hmmap, if_neg (not_not.2 hadd)]
    have hfb : ledger.Steps kept (insert (.mapping .crtc) (insert (.bo .crtc) configured))
        [.mapping .crtc, .bo .crtc, .fd] [.drmModeAddFB .crtc (modeWidth kms.mode) (modeHeight kms.mode) a.dumb.pitch
          a.dumb.handle a.dumb.addFB]
        (insert (.fb .crtc) (insert (.mapping .crtc) (insert (.bo .crtc) configured)))
        [.fb .crtc, .mapping .crtc, .bo .crtc, .fd] :=
      steps_new (by simp [ledger, Call.creates, hadd]) rfl (by simp [ledger, Call.uses]) (by simp) id
    refine (leaves_image ?_).after (((steps_mapped hcreate (by simp) (by simp)).append hfb).perm
      (List.Perm.swap _ _ _))
    simp [shownObjects]
  · rw [if_pos hcreate]
    have hfailed : ledger.Steps kept configured [.fd]
        [.createDumb .crtc (modeWidth kms.mode) (modeHeight kms.mode) a.dumb.create] configured [.fd] :=
      steps_none (by simp [ledger, Call.creates, hcreate]) rfl (by simp [ledger, Call.uses])
    exact leaves_label nil_pictures (hfailed.append steps_close)

/-- The calls before the buffer. -/
def start (a : DumbBoAnswers) (kms : Display) : List Call :=
  configureCalls (.chosen kms) ++ [.dumpDrmConfiguration] ++ [.drmGetCap a.dumb.hasDumbRet a.dumb.hasDumb]

theorem steps_dumb (hcrtc : kms.crtcId = some crtcId) :
    ledger.Steps kept ∅ [] (DumbBo.start a kms) configured [.fd] :=
  (steps_chosen hcrtc).append (steps_none rfl rfl (by simp [ledger, Call.uses]))

/-- Each way a buffer can fail to become a framebuffer leaves something behind, or removes a framebuffer that is not
there. -/
theorem not_cleaned_buffer (hcrtc : kms.crtcId = some crtcId) (hcreate : a.dumb.create = 0) (hframed : ¬a.Framed) :
    ¬ledger.CleanedBut kept pictures (DumbBo.start a kms ++ (buffer a kms crtcId).calls) := by
  have hunknown : ∀ s : List Call, .fb .crtc ∉ ledger.created s →
      ¬ledger.Safe (s ++ (errFb a 0).calls) := by
    intro s hs
    exact not_safe (o := .fb .crtc) (by simp [ledger, Call.uses]) (fun h => hs (usable_mem_created h)) _
  have hstart : .fb .crtc ∉ ledger.created (DumbBo.start a kms) := by
    simp [DumbBo.start, configureCalls, ledger, Call.creates, Config.hasCrtc, hcrtc]
  unfold buffer
  dsimp only
  rw [if_neg (not_not.2 hcreate)]
  split_ifs with hmapDumb hmmap hadd
  · intro hcleaned
    refine hunknown (DumbBo.start a kms ++ [_, _]) ?_ (by simpa [Run.after] using hcleaned.safe)
    rw [created_append]
    simpa [ledger, Call.creates, hcreate] using hstart
  · have hfailed : ledger.Steps kept (insert (.mapping .crtc) (insert (.bo .crtc) configured))
        [.mapping .crtc, .bo .crtc, .fd] [.drmModeAddFB .crtc (modeWidth kms.mode) (modeHeight kms.mode) a.dumb.pitch
          a.dumb.handle a.dumb.addFB] (insert (.mapping .crtc) (insert (.bo .crtc) configured))
        [.bo .crtc, .fd, .mapping .crtc] := by
      refine (steps_none ?_ rfl (by simp [ledger, Call.uses])).perm (List.perm_append_singleton _ _).symm
      simp [ledger, Call.creates, hadd]
    exact not_cleaned ((steps_dumb hcrtc).append
      ((steps_mapped hcreate (by simp) (by simp)).append (hfailed.append steps_errDestroy))) (by simp [pictures])
  · exact absurd ⟨not_not.1 hmapDumb, hmmap, not_not.1 hadd⟩ hframed
  · intro hcleaned
    refine hunknown (DumbBo.start a kms ++ [_, _, _]) ?_ (by simpa [Run.after] using hcleaned.safe)
    rw [created_append]
    simpa [ledger, Call.creates, hcreate] using hstart

theorem cleaned_checked_iff (hcrtc : kms.crtcId = some crtcId) :
    ledger.CleanedBut kept pictures
        (configureCalls (.chosen kms) ++ [.dumpDrmConfiguration] ++ (checked a kms crtcId).calls) ↔
      (0 ≤ a.dumb.hasDumbRet ∧ a.dumb.hasDumb ∧ a.dumb.create = 0 → a.Framed) := by
  have hclosed : ledger.CleanedBut kept pictures (start a kms ++ (errClose (-EFAULT)).calls) :=
    (leaves_label (r := .after (start a kms) (errClose (-EFAULT))) nil_pictures
      ((steps_dumb hcrtc).append steps_close)).cleaned
  unfold checked
  dsimp only
  split_ifs with hret hdumb
  · exact iff_of_true hclosed fun h => absurd h.1 (by omega)
  · have hcalls : configureCalls (.chosen kms) ++ [.dumpDrmConfiguration] ++
        (Run.after [.drmGetCap a.dumb.hasDumbRet a.dumb.hasDumb] (buffer a kms crtcId)).calls =
          start a kms ++ (buffer a kms crtcId).calls := by simp [Run.after, start]
    rw [hcalls]
    constructor
    · intro hcleaned h
      by_contra hframed
      exact not_cleaned_buffer hcrtc h.2.2 hframed hcleaned
    · intro h
      exact ((leaves_buffer fun hcreate => h ⟨by omega, hdumb, hcreate⟩).after (steps_dumb hcrtc)).cleaned
  · exact iff_of_true hclosed fun h => absurd h.2.1 hdumb

end DumbBo

/-- **`drm_dumb_bo`.** It cleans up if and only if the configuration, once the device is open, fails or gives a CRTC, and
a buffer that was created becomes a framebuffer. -/
theorem drmDumbBo_cleaned_iff (cmdline : Bool) (a : DumbBoAnswers) :
    ledger.CleanedBut kept pictures (drmDumbBo cmdline a).calls ↔
      (a.openDevice → a.kms.Sound) ∧ (a.Created → a.Framed) := by
  unfold drmDumbBo DumbBoAnswers.Created
  split_ifs with hopen
  · rw [configure_cleaned_iff, imp_iff_right hopen]
    refine and_congr_right fun _ => ?_
    constructor
    · rintro h ⟨-, hcrtc, hrest⟩
      obtain ⟨kms, crtcId, hkms, hcrtc⟩ := exists_of_hasCrtc hcrtc
      have hcleaned := h kms crtcId hkms hcrtc
      rw [hkms, DumbBo.cleaned_checked_iff hcrtc] at hcleaned
      exact hcleaned hrest
    · intro h kms crtcId hkms hcrtc
      rw [hkms, DumbBo.cleaned_checked_iff hcrtc]
      exact fun hrest => h ⟨hopen, hasCrtc_chosen hkms hcrtc, hrest⟩
  · exact iff_of_true leaves_shut.cleaned ⟨fun h => absurd h hopen, fun h => absurd h.1 hopen⟩

/-! ## `drm_dumb_bo_libkms` -/

/-- There is a framebuffer of the size of the mode. -/
def LibkmsAnswers.FramedAt (a : LibkmsAnswers) (kms : Display) : Prop :=
  a.kmsCreate = 0 ∧ (kmsBuffer .crtc (modeWidth kms.mode) (modeHeight kms.mode) a.buffer).2 = .fb

def LibkmsAnswers.Framed (a : LibkmsAnswers) : Prop :=
  a.openDevice ∧ ∃ kms crtcId, a.kms = .chosen kms ∧ kms.crtcId = some crtcId ∧ a.FramedAt kms

/-- The CRTC could be saved and shows the framebuffer. -/
def LibkmsAnswers.Shown (a : LibkmsAnswers) : Prop := a.screen.saved.isSome ∧ a.screen.set = 0

namespace Libkms
variable {a : LibkmsAnswers} {kms : Display} {crtcId : U32}

theorem steps_errDriverDestroy : ledger.Steps kept C (.drv :: .fd :: left) (errDriverDestroy a).calls C left :=
  (steps_kmsDestroy (by simp)).cons steps_close

theorem steps_errBufferDestroy :
    ledger.Steps kept C (.bo .crtc :: .drv :: .fd :: left) (errBufferDestroy a).calls C left :=
  (steps_kmsBoDestroy (by simp)).cons steps_errDriverDestroy

theorem steps_errBufferUnmap :
    ledger.Steps kept C (.mapping .crtc :: .bo .crtc :: .drv :: .fd :: left) (errBufferUnmap a).calls C left :=
  (steps_kmsBoUnmap (by simp) (by simp)).cons steps_errBufferDestroy

/-- What is open with a framebuffer. -/
abbrev framedOpen : List Object := [.fb .crtc, .mapping .crtc, .bo .crtc, .drv, .fd]

theorem leaves_image (hnew : ∀ x ∈ shownObjects, x ∉ C) (hshown : a.Shown) :
    Leaves C framedOpen (image a kms crtcId) := by
  obtain ⟨C', -, hsteps⟩ := steps_showCrtc C framedOpen crtcId a.buffer.fb kms.connId kms.mode a.screen (by simp)
    (by simp) (by simp) hnew
  obtain ⟨saved, hsaved⟩ := Option.isSome_iff_exists.1 hshown.1
  unfold image
  have hfound : (showCrtc crtcId a.buffer.fb kms.connId kms.mode a.screen).2 = some saved := by
    simp [showCrtc, hsaved, hshown.2]
  generalize showCrtc crtcId a.buffer.fb kms.connId kms.mode a.screen = r at hsteps hfound ⊢
  obtain ⟨calls, found⟩ := r
  obtain rfl : found = some saved := hfound
  obtain ⟨more, hmore, hrestore⟩ := steps_restore framedOpen saved kms.connId a.screen.restore (by simp) (by simp)
    hsteps.1
  exact leaves_label hmore (((hsteps.2.append hrestore).append (steps_rmFB (by simp))).append steps_errBufferUnmap)

/-- Without a picture the framebuffer stays. -/
theorem stays_image (kms : Display) (crtcId : U32) (hnew : ∀ x ∈ shownObjects, x ∉ C) (hshown : ¬a.Shown) :
    ∃ C', ledger.Steps kept C framedOpen (image a kms crtcId).calls C' [.fb .crtc] := by
  obtain ⟨C', -, hsteps⟩ := steps_showCrtc C framedOpen crtcId a.buffer.fb kms.connId kms.mode a.screen (by simp)
    (by simp) (by simp) hnew
  have hfound : (showCrtc crtcId a.buffer.fb kms.connId kms.mode a.screen).2 = none := by
    unfold showCrtc
    cases hsaved : a.screen.saved with
    | none => rfl
    | some saved =>
        dsimp only
        rw [if_pos]
        exact fun hset => hshown ⟨by rw [hsaved]; rfl, hset⟩
  unfold image
  generalize showCrtc crtcId a.buffer.fb kms.connId kms.mode a.screen = r at hsteps hfound ⊢
  obtain ⟨calls, found⟩ := r
  obtain rfl : found = none := hfound
  have hlast := hsteps.perm
    (List.perm_append_singleton (Object.fb .crtc) [.mapping .crtc, .bo .crtc, .drv, .fd]).symm
  exact ⟨C', hlast.append steps_errBufferUnmap⟩

/-- The calls before the buffer. -/
def start (a : LibkmsAnswers) (kms : Display) : List Call :=
  configureCalls (.chosen kms) ++ [.dumpDrmConfiguration] ++ [.kmsCreate a.kmsCreate]

theorem steps_driver (hcrtc : kms.crtcId = some crtcId) (hcreate : a.kmsCreate = 0) :
    ledger.Steps kept ∅ [] (start a kms) (insert .drv configured) [.drv, .fd] := by
  refine (steps_chosen hcrtc).append (steps_new ?_ rfl (by simp [ledger, Call.uses]) (by simp) id)
  simp [ledger, Call.creates, hcreate]

theorem new_framed : ∀ x ∈ shownObjects, x ∉ Stage.created .crtc (insert .drv configured) .fb := by
  simp [shownObjects, Stage.created]

theorem leaves_buffer
    (hshown : (kmsBuffer .crtc (modeWidth kms.mode) (modeHeight kms.mode) a.buffer).2 = .fb → a.Shown) :
    Leaves (insert .drv configured) [.drv, .fd] (buffer a kms crtcId) := by
  have hsteps := steps_kmsBuffer (l := .crtc) (insert .drv configured) [.drv, .fd] (modeWidth kms.mode)
    (modeHeight kms.mode) a.buffer (by simp) (by simp) (by simp) (by simp) (by simp)
  unfold buffer
  generalize kmsBuffer .crtc (modeWidth kms.mode) (modeHeight kms.mode) a.buffer = r at hsteps hshown ⊢
  obtain ⟨calls, stage⟩ := r
  cases stage with
  | none => exact leaves_label nil_pictures (hsteps.append steps_errDriverDestroy)
  | bo => exact leaves_label nil_pictures (hsteps.append steps_errBufferDestroy)
  | mapped => exact leaves_label nil_pictures (hsteps.append steps_errBufferUnmap)
  | fb => exact (leaves_image new_framed (hshown rfl)).after hsteps

theorem stays_buffer (crtcId : U32)
    (hframed : (kmsBuffer .crtc (modeWidth kms.mode) (modeHeight kms.mode) a.buffer).2 = .fb) (hshown : ¬a.Shown) :
    ∃ C', ledger.Steps kept (insert .drv configured) [.drv, .fd] (buffer a kms crtcId).calls C' [.fb .crtc] := by
  have hsteps := steps_kmsBuffer (l := .crtc) (insert .drv configured) [.drv, .fd] (modeWidth kms.mode)
    (modeHeight kms.mode) a.buffer (by simp) (by simp) (by simp) (by simp) (by simp)
  unfold buffer
  generalize kmsBuffer .crtc (modeWidth kms.mode) (modeHeight kms.mode) a.buffer = r at hsteps hframed ⊢
  obtain ⟨calls, stage⟩ := r
  obtain rfl : stage = .fb := hframed
  obtain ⟨C', hstays⟩ := stays_image kms crtcId new_framed hshown
  exact ⟨C', hsteps.append hstays⟩

theorem cleaned_driver_iff (hcrtc : kms.crtcId = some crtcId) :
    ledger.CleanedBut kept pictures
        (configureCalls (.chosen kms) ++ [.dumpDrmConfiguration] ++ (driver a kms crtcId).calls) ↔
      (a.FramedAt kms → a.Shown) := by
  unfold driver
  split_ifs with hcreate
  · have hfailed : ledger.Steps kept configured [.fd] [.kmsCreate a.kmsCreate] configured [.fd] :=
      steps_none (by simp [ledger, Call.creates, hcreate]) rfl (by simp [ledger, Call.uses])
    have hleaves : Leaves ∅ [] (.after (configureCalls (.chosen kms) ++ [.dumpDrmConfiguration])
        (.after [.kmsCreate a.kmsCreate] (errClose a.kmsCreate))) :=
      leaves_label nil_pictures ((steps_chosen hcrtc).append (hfailed.append steps_close))
    exact iff_of_true hleaves.cleaned fun h => absurd h.1 hcreate
  · have hcalls : configureCalls (.chosen kms) ++ [.dumpDrmConfiguration] ++
        (Run.after [.kmsCreate a.kmsCreate] (buffer a kms crtcId)).calls =
          start a kms ++ (buffer a kms crtcId).calls := by simp [Run.after, start]
    have hdriver := steps_driver hcrtc (not_not.1 hcreate)
    rw [hcalls]
    constructor
    · intro hcleaned hframed
      by_contra hshown
      obtain ⟨C', hstays⟩ := stays_buffer crtcId hframed.2 hshown
      exact not_cleaned (hdriver.append hstays) (by simp [pictures]) hcleaned
    · intro h
      exact ((leaves_buffer fun hframed => h ⟨not_not.1 hcreate, hframed⟩).after hdriver).cleaned

end Libkms

/-- **`drm_dumb_bo_libkms`.** It cleans up if and only if the configuration, once the device is open, fails or gives a
CRTC, and a framebuffer is shown. -/
theorem drmDumbBoLibkms_cleaned_iff (cmdline : Bool) (a : LibkmsAnswers) :
    ledger.CleanedBut kept pictures (drmDumbBoLibkms cmdline a).calls ↔
      (a.openDevice → a.kms.Sound) ∧ (a.Framed → a.Shown) := by
  unfold drmDumbBoLibkms LibkmsAnswers.Framed
  split_ifs with hopen
  · rw [configure_cleaned_iff, imp_iff_right hopen]
    refine and_congr_right fun _ => ?_
    constructor
    · rintro h ⟨-, kms, crtcId, hkms, hcrtc, hframed⟩
      have hcleaned := h kms crtcId hkms hcrtc
      rw [hkms, Libkms.cleaned_driver_iff hcrtc] at hcleaned
      exact hcleaned hframed
    · intro h kms crtcId hkms hcrtc
      rw [hkms, Libkms.cleaned_driver_iff hcrtc]
      exact fun hframed => h ⟨hopen, kms, crtcId, hkms, hcrtc, hframed⟩
  · exact iff_of_true leaves_shut.cleaned ⟨fun h => absurd h hopen, fun h => absurd h.1 hopen⟩

end SysSnippets.DrmTests.Buffers
