import SysSnippets.Lib.Machine
import SysSnippets.Lib.Text
import Mathlib.Logic.Function.Basic

/-!
# Page flips of `drm_gl_test3`

The loop of `main` locks a front buffer, shows it and asks for a page flip to it; the kernel completes the flip at any
time, and `pageFlipHandler` runs for the event when the loop polls for it.

* `Output` : `struct DrmOutput`, the place in the loop, and what the kernel shows and is to show;
* `Output.pageFlipHandler`, `Output.drmFbGetFromBo`, `Output.turn` : the handler, the framebuffer of a buffer, one call
  of the loop;
* `Inv` : at most one flip is under way, and it is to `next`;
* `flips_safely` : if `pageFlipPending` is 0 at every call of `drmModePageFlip`, no flip is asked for too early and no
  buffer is released too early or twice.
-/

namespace SysSnippets.DrmTests
open SysSnippets.Lib

/-- A `struct gbm_bo`. -/
abbrev Bo : Type := Nat

/-- A `struct DrmFb` -/
structure DrmFb where
  bo : Bo
  fbid : U32
  deriving DecidableEq

/-- The next call of the loop. -/
inductive Pc
  | select
  | lock
  | setCrtc
  | flip
  | stopped
  deriving DecidableEq

structure Output where
  current : Option DrmFb
  next : Option DrmFb
  pageFlipPending : Bool
  pc : Pc
  /-- iterations left, with the one under way -/
  left : Nat
  /-- the user data of the buffers -/
  userData : Bo → Option DrmFb
  /-- the buffers locked and not released -/
  locked : Bo → Bool
  screen : Option Bo
  /-- the targets of the flips asked for and not completed -/
  pending : List Bo
  /-- completed flips whose events have not been read -/
  events : Nat

/-- What is done, with what the kernel shows and is to show then. -/
inductive Shown
  | flip (pageFlipPending : Bool) (pending : List Bo)
  | release (bo : Bo) (screen : Option Bo) (pending : List Bo) (locked : Bool)
  deriving DecidableEq

/-- How a call ends. -/
inductive Answer
  | done
  | failed
  | interrupted
  /-- `select`; if there are events, one and up to `k` more are read. -/
  | polled (k : Nat)
  /-- `gbm_surface_lock_front_buffer`, and what `drmModeAddFB` gives. -/
  | front (bo : Bo) (fbid : Option U32)
  deriving DecidableEq

inductive Happening
  | complete
  | turn (a : Answer)
  deriving DecidableEq

namespace Output

def start (n : Nat) : Output where
  current := none
  next := none
  pageFlipPending := false
  pc := .select
  left := n
  userData _ := none
  locked _ := false
  screen := none
  pending := []
  events := 0

/-- `gbm_surface_release_buffer` -/
def release (s : Output) (bo : Bo) : Output × List Shown :=
  ({ s with locked := Function.update s.locked bo false }, [.release bo s.screen s.pending (s.locked bo)])

/-- For one event. -/
def pageFlipHandler (s : Output) : Output × List Shown :=
  let s := { s with events := s.events - 1, pageFlipPending := false }
  let (s, shown) := match s.current with
    | some fb => s.release fb.bo
    | none => (s, [])
  ({ s with current := s.next, next := none }, shown)

/-- For some events. -/
def drmHandleEvent : Nat → Output → Output × List Shown
  | 0, s => (s, [])
  | n + 1, s =>
      let (s, shown) := s.pageFlipHandler
      let (s, more) := drmHandleEvent n s
      (s, shown ++ more)

/-- The framebuffer of a buffer: made once. -/
def drmFbGetFromBo (s : Output) (bo : Bo) (fbid : Option U32) : Output × Option DrmFb :=
  match s.userData bo, fbid with
  | some fb, _ => (s, some fb)
  | none, some fbid => ({ s with userData := Function.update s.userData bo (some ⟨bo, fbid⟩) }, some ⟨bo, fbid⟩)
  | none, none => (s, none)

/-- `if (!output.current)` -/
def present (s : Output) : Output := { s with pc := if s.current = none then .setCrtc else .flip }

/-- `if (!output.next)` -/
def render (s : Output) : Output := if s.next = none then { s with pc := .lock } else s.present

/-- `gbm_surface_lock_front_buffer`, of a buffer that is not locked, and its framebuffer. -/
def lockFrontBuffer (s : Output) (bo : Bo) (fbid : Option U32) : Output × List Shown :=
  if s.locked bo then (s, [])
  else
    match { s with locked := Function.update s.locked bo true }.drmFbGetFromBo bo fbid with
    | (s, some fb) => ({ s with next := some fb }.present, [])
    | (s, none) => { s with pc := .stopped }.release bo

/-- The next call of the loop. -/
def turn (s : Output) (a : Answer) : Output × List Shown :=
  if s.left = 0 then (s, [])
  else
    match s.pc, a with
    | .select, .interrupted => ({ s with left := s.left - 1 }, [])
    | .select, .failed => ({ s with pc := .stopped }, [])
    | .select, .polled k =>
        let (s, shown) := drmHandleEvent (min (k + 1) s.events) s
        (s.render, shown)
    | .lock, .failed => ({ s with pc := .stopped }, [])
    | .lock, .front bo fbid => s.lockFrontBuffer bo fbid
    | .setCrtc, .failed => ({ s with pc := .stopped }, [])
    | .setCrtc, .done => ({ s with pc := .flip, screen := s.next.map DrmFb.bo }, [])
    | .flip, .failed => ({ s with pc := .stopped }, [.flip s.pageFlipPending s.pending])
    | .flip, .done =>
        ({ s with
            pending := s.pending ++ (s.next.map DrmFb.bo).toList
            pageFlipPending := true
            pc := .select
            left := s.left - 1 },
          [.flip s.pageFlipPending s.pending])
    | _, _ => (s, [])

def step (s : Output) : Happening → Output × List Shown
  | .complete =>
      match s.pending with
      | [] => (s, [])
      | bo :: pending => ({ s with screen := some bo, pending, events := s.events + 1 }, [])
  | .turn a => s.turn a

end Output

/-- The loop and the kernel. -/
def drmGlTest3 : Machine Output Happening Shown := ⟨Output.step⟩

/-- No flip is pending when one is asked for; what is released is locked, not shown and not to be shown. -/
def Safe : Shown → Prop
  | .flip _ pending => pending = []
  | .release bo screen pending locked => screen ≠ some bo ∧ bo ∉ pending ∧ locked = true

/-- The event of the flip before has been handled. -/
def InTurn : Shown → Prop
  | .flip pageFlipPending _ => pageFlipPending = false
  | .release _ _ _ _ => True

instance : DecidablePred InTurn
  | .flip pageFlipPending _ => inferInstanceAs (Decidable (pageFlipPending = false))
  | .release _ _ _ _ => isTrue trivial

/-! ## One flip at a time -/

namespace Output

/-- The flip under way, if there is one, is to `next`. -/
def Flight (s : Output) : Prop :=
  s.pageFlipPending = false ∧ s.pending = [] ∧ s.events = 0 ∨
    s.pageFlipPending = true ∧ ∃ fb, s.next = some fb ∧
      (s.pending = [fb.bo] ∧ s.events = 0 ∨ s.pending = [] ∧ s.events = 1 ∧ s.screen = some fb.bo)

structure Inv (s : Output) : Prop where
  userData : ∀ bo fb, s.userData bo = some fb → fb.bo = bo
  current : ∀ fb, s.current = some fb → s.locked fb.bo = true
  next : ∀ fb, s.next = some fb → s.locked fb.bo = true
  apart : ∀ fb fb', s.current = some fb → s.next = some fb' → fb.bo ≠ fb'.bo
  screen : ∀ bo, s.screen = some bo → s.locked bo = true
  empty : s.pc = .lock → s.next = none
  ready : s.pc = .setCrtc ∨ s.pc = .flip → s.next ≠ none
  flight : s.Flight

theorem inv_start (n : Nat) : (start n).Inv where
  userData _ _ h := nomatch h
  current _ h := nomatch h
  next _ h := nomatch h
  apart _ _ h := nomatch h
  screen _ h := nomatch h
  empty _ := rfl
  ready h := by rcases h with h | h <;> cases h
  flight := Or.inl ⟨rfl, rfl, rfl⟩

variable {s : Output}

/-- No flip is under way while there is no `next`. -/
theorem Inv.quiet (h : s.Inv) (hnext : s.next = none) : s.pageFlipPending = false ∧ s.pending = [] ∧ s.events = 0 := by
  rcases h.flight with hquiet | ⟨-, fb, hfb, -⟩
  · exact hquiet
  · rw [hnext] at hfb
    cases hfb

theorem Inv.goto (h : s.Inv) {pc : Pc} (left : Nat) (hempty : pc = .lock → s.next = none)
    (hready : pc = .setCrtc ∨ pc = .flip → s.next ≠ none) : { s with pc := pc, left := left }.Inv :=
  ⟨h.userData, h.current, h.next, h.apart, h.screen, hempty, hready, h.flight⟩

theorem Inv.stop (h : s.Inv) : { s with pc := .stopped }.Inv :=
  h.goto s.left Pc.noConfusion fun hpc => by rcases hpc with hpc | hpc <;> cases hpc

theorem present_pc (s : Output) : s.present.pc ≠ .lock := by
  unfold present
  split_ifs <;> exact Pc.noConfusion

theorem Inv.present (h : s.Inv) (hnext : s.next ≠ none) : s.present.Inv :=
  h.goto s.left (fun hpc => absurd hpc s.present_pc) fun _ => hnext

theorem Inv.render (h : s.Inv) : s.render.Inv := by
  unfold Output.render
  split_ifs with hnext
  · refine h.goto s.left (fun _ => hnext) fun hpc => ?_
    rcases hpc with hpc | hpc <;> cases hpc
  · exact h.present hnext

/-- The event of the flip: what was shown before it is released. -/
theorem Inv.pageFlipHandler (h : s.Inv) (hpc : s.pc = .select) {fb : DrmFb} (hnext : s.next = some fb)
    (hpending : s.pending = []) (hevents : s.events = 1) (hscreen : s.screen = some fb.bo) :
    s.pageFlipHandler.1.Inv ∧ ∀ o ∈ s.pageFlipHandler.2, Safe o := by
  have hempty : s.pc = .lock → (none : Option DrmFb) = none := fun _ => rfl
  have hready : s.pc = .setCrtc ∨ s.pc = .flip → (none : Option DrmFb) ≠ none := by
    rw [hpc]
    intro hp
    rcases hp with hp | hp <;> cases hp
  have hquiet : s.events - 1 = 0 := by
    rw [hevents]
  unfold Output.pageFlipHandler
  cases hcurrent : s.current with
  | none =>
      refine ⟨⟨h.userData, ?_, fun _ hn => (nomatch hn), fun _ _ _ hn => (nomatch hn), h.screen, hempty, hready,
        Or.inl ⟨rfl, hpending, hquiet⟩⟩, fun _ ho => absurd ho List.not_mem_nil⟩
      exact h.next
  | some old =>
      have hother : fb.bo ≠ old.bo := (h.apart old fb hcurrent hnext).symm
      -- `next` stays locked
      have hlocked : Function.update s.locked old.bo false fb.bo = true := by
        rw [Function.update_of_ne hother]
        exact h.next fb hnext
      refine ⟨⟨h.userData, fun fb' hfb' => ?_, fun _ hn => (nomatch hn), fun _ _ _ hn => (nomatch hn), fun bo hbo => ?_,
        hempty, hready, Or.inl ⟨rfl, hpending, hquiet⟩⟩, ?_⟩
      · have hfb : s.next = some fb' := hfb'
        rw [hnext] at hfb
        cases hfb
        exact hlocked
      · have hshown : s.screen = some bo := hbo
        rw [hscreen] at hshown
        cases hshown
        exact hlocked
      · change ∀ o ∈ [Shown.release old.bo s.screen s.pending (s.locked old.bo)], Safe o
        rw [List.forall_mem_singleton, hscreen, hpending]
        exact ⟨fun e => hother (Option.some.inj e), List.not_mem_nil, h.current old hcurrent⟩

/-- There is at most one event. -/
theorem Inv.drmHandleEvent (h : s.Inv) (hpc : s.pc = .select) (k : Nat) :
    (drmHandleEvent (min (k + 1) s.events) s).1.Inv ∧ ∀ o ∈ (drmHandleEvent (min (k + 1) s.events) s).2, Safe o := by
  have hnone : s.events = 0 → (Output.drmHandleEvent (min (k + 1) s.events) s).1.Inv ∧
      ∀ o ∈ (Output.drmHandleEvent (min (k + 1) s.events) s).2, Safe o := by
    intro hevents
    rw [hevents, Nat.min_zero]
    exact ⟨h, fun _ ho => absurd ho List.not_mem_nil⟩
  rcases h.flight with ⟨-, -, hevents⟩ | ⟨-, fb, hnext, ⟨-, hevents⟩ | ⟨hpending, hevents, hscreen⟩⟩
  · exact hnone hevents
  · exact hnone hevents
  · obtain ⟨hinv, hsafe⟩ := h.pageFlipHandler hpc hnext hpending hevents hscreen
    have hone : min (k + 1) s.events = 1 := by omega
    rw [hone]
    refine ⟨hinv, ?_⟩
    change ∀ o ∈ s.pageFlipHandler.2 ++ [], Safe o
    rw [List.append_nil]
    exact hsafe

theorem drmFbGetFromBo_spec (hs : ∀ bo fb, s.userData bo = some fb → fb.bo = bo) (bo : Bo) (fbid : Option U32) :
    ∃ userData, (∀ bo' fb, userData bo' = some fb → fb.bo = bo') ∧
      ((∃ fb, fb.bo = bo ∧ s.drmFbGetFromBo bo fbid = ({ s with userData := userData }, some fb)) ∨
        s.drmFbGetFromBo bo fbid = ({ s with userData := userData }, none)) := by
  unfold drmFbGetFromBo
  cases hdata : s.userData bo with
  | some fb => exact ⟨s.userData, hs, Or.inl ⟨fb, hs bo fb hdata, rfl⟩⟩
  | none =>
      cases fbid with
      | none => exact ⟨s.userData, hs, Or.inr rfl⟩
      | some fbid =>
          refine ⟨Function.update s.userData bo (some ⟨bo, fbid⟩), fun bo' fb hfb => ?_, Or.inl ⟨⟨bo, fbid⟩, rfl, rfl⟩⟩
          by_cases hbo : bo' = bo
          · subst hbo
            rw [Function.update_self] at hfb
            cases hfb
            rfl
          · rw [Function.update_of_ne hbo] at hfb
            exact hs bo' fb hfb

/-- A flip is asked for while none is under way. -/
theorem Inv.asked (h : s.Inv) (hflip : s.pageFlipPending = false) : s.pending = [] ∧ s.events = 0 := by
  rcases h.flight with ⟨-, hpending, hevents⟩ | ⟨hflip', -⟩
  · exact ⟨hpending, hevents⟩
  · rw [hflip] at hflip'
    cases hflip'

theorem Inv.lockFrontBuffer (h : s.Inv) (hpc : s.pc = .lock) (bo : Bo) (fbid : Option U32) :
    (s.lockFrontBuffer bo fbid).1.Inv ∧ ∀ o ∈ (s.lockFrontBuffer bo fbid).2, Safe o := by
  have hnext : s.next = none := h.empty hpc
  obtain ⟨hflip, hpending, hevents⟩ := h.quiet hnext
  unfold Output.lockFrontBuffer
  split_ifs with hlocked
  · exact ⟨h, fun _ ho => absurd ho List.not_mem_nil⟩
  · -- what was locked is another buffer, and stays locked
    have hother : ∀ {b : Bo}, s.locked b = true → b ≠ bo := by
      rintro b hb rfl
      exact hlocked hb
    have hstill : ∀ {b : Bo}, s.locked b = true → Function.update s.locked bo true b = true := by
      intro b hb
      rw [Function.update_of_ne (hother hb)]
      exact hb
    obtain ⟨userData, hdata, ⟨fb, hfb, hget⟩ | hget⟩ :=
      drmFbGetFromBo_spec (s := { s with locked := Function.update s.locked bo true }) h.userData bo fbid
    · rw [hget]
      refine ⟨⟨hdata, fun c hc => hstill (h.current c hc), fun n hn => ?_, fun c n hc hn => ?_,
        fun b hb => hstill (h.screen b hb), fun hp => ?_, fun _ => Option.some_ne_none _,
        Or.inl ⟨hflip, hpending, hevents⟩⟩, fun _ ho => absurd ho List.not_mem_nil⟩
      · cases hn
        rw [hfb]
        exact Function.update_self _ _ _
      · cases hn
        rw [hfb]
        exact hother (h.current c hc)
      · exact absurd hp (present_pc _)
    · rw [hget]
      have hagain : ∀ {b : Bo}, s.locked b = true →
          Function.update (Function.update s.locked bo true) bo false b = true := by
        intro b hb
        rw [Function.update_of_ne (hother hb)]
        exact hstill hb
      refine ⟨⟨hdata, fun c hc => hagain (h.current c hc), fun n hn => hagain (h.next n hn), h.apart,
        fun b hb => hagain (h.screen b hb), Pc.noConfusion, fun hp => ?_, Or.inl ⟨hflip, hpending, hevents⟩⟩,
        List.forall_mem_singleton.2 ⟨?_, ?_, ?_⟩⟩
      · rcases hp with hp | hp <;> cases hp
      · intro hb
        exact hother (h.screen bo hb) rfl
      · change bo ∉ s.pending
        rw [hpending]
        exact List.not_mem_nil
      · exact Function.update_self _ _ _

/-- `drmModeSetCrtc` shows the next buffer, which is also that of a flip under way. -/
theorem Inv.setCrtc (h : s.Inv) (hpc : s.pc = .setCrtc) :
    Inv { s with pc := .flip, screen := s.next.map DrmFb.bo } := by
  refine ⟨h.userData, h.current, h.next, h.apart, fun bo hbo => ?_, Pc.noConfusion, fun _ => h.ready (Or.inl hpc), ?_⟩
  · obtain ⟨fb, hfb, rfl⟩ := Option.map_eq_some_iff.1 hbo
    exact h.next fb hfb
  · rcases h.flight with hquiet | ⟨hflip, fb, hnext, hflight⟩
    · exact Or.inl hquiet
    · refine Or.inr ⟨hflip, fb, hnext, hflight.imp_right fun hdone => ⟨hdone.1, hdone.2.1, ?_⟩⟩
      change s.next.map DrmFb.bo = some fb.bo
      rw [hnext]
      rfl

/-- From `drmModePageFlip` on the buffer is under way. -/
theorem Inv.flip (h : s.Inv) (hpc : s.pc = .flip) (hflip : s.pageFlipPending = false) :
    Inv { s with
      pending := s.pending ++ (s.next.map DrmFb.bo).toList
      pageFlipPending := true
      pc := .select
      left := s.left - 1 } := by
  obtain ⟨hpending, hevents⟩ := h.asked hflip
  refine ⟨h.userData, h.current, h.next, h.apart, h.screen, Pc.noConfusion, ?_, ?_⟩
  · intro hp
    rcases hp with hp | hp <;> cases hp
  · obtain ⟨fb, hnext⟩ := Option.ne_none_iff_exists'.1 (h.ready (Or.inr hpc))
    refine Or.inr ⟨rfl, fb, hnext, Or.inl ⟨?_, hevents⟩⟩
    change s.pending ++ (s.next.map DrmFb.bo).toList = [fb.bo]
    rw [hpending, hnext]
    rfl

/-- **One call of the loop.** -/
theorem Inv.turn (h : s.Inv) (a : Answer) (hturn : ∀ o ∈ (s.turn a).2, InTurn o) :
    (s.turn a).1.Inv ∧ ∀ o ∈ (s.turn a).2, Safe o := by
  have hnot : ∀ o ∈ ([] : List Shown), Safe o := fun _ ho => absurd ho List.not_mem_nil
  have hstay : s.Inv ∧ ∀ o ∈ ([] : List Shown), Safe o := ⟨h, hnot⟩
  have hstop : { s with pc := .stopped }.Inv ∧ ∀ o ∈ ([] : List Shown), Safe o := ⟨h.stop, hnot⟩
  unfold Output.turn at hturn ⊢
  split_ifs at hturn ⊢
  · exact hstay
  · cases hpc : s.pc with
    | select =>
        cases a with
        | interrupted =>
            refine ⟨h.goto (s.left - 1) Pc.noConfusion fun hp => ?_, hnot⟩
            rcases hp with hp | hp <;> cases hp
        | failed => exact hstop
        | polled k =>
            obtain ⟨hinv, hsafe⟩ := h.drmHandleEvent hpc k
            exact ⟨hinv.render, hsafe⟩
        | done => exact hstay
        | front bo fbid => exact hstay
    | lock =>
        cases a with
        | failed => exact hstop
        | front bo fbid => exact h.lockFrontBuffer hpc bo fbid
        | interrupted => exact hstay
        | polled k => exact hstay
        | done => exact hstay
    | setCrtc =>
        cases a with
        | failed => exact hstop
        | done => exact ⟨h.setCrtc hpc, hnot⟩
        | interrupted => exact hstay
        | polled k => exact hstay
        | front bo fbid => exact hstay
    | flip =>
        rw [hpc] at hturn
        cases a with
        | failed =>
            have hflip : s.pageFlipPending = false := hturn (.flip _ _) (List.mem_singleton_self _)
            refine ⟨h.stop, List.forall_mem_singleton.2 ?_⟩
            exact (h.asked hflip).1
        | done =>
            have hflip : s.pageFlipPending = false := hturn (.flip _ _) (List.mem_singleton_self _)
            refine ⟨h.flip hpc hflip, List.forall_mem_singleton.2 ?_⟩
            exact (h.asked hflip).1
        | interrupted => exact hstay
        | polled k => exact hstay
        | front bo fbid => exact hstay
    | stopped => exact hstay

theorem Inv.complete (h : s.Inv) : (s.step .complete).1.Inv := by
  unfold Output.step
  rcases h.flight with ⟨-, hpending, -⟩ | ⟨hflip, fb, hnext, ⟨hpending, hevents⟩ | ⟨hpending, -, -⟩⟩
  · rw [hpending]
    exact h
  · rw [hpending]
    refine ⟨h.userData, h.current, h.next, h.apart, fun bo hbo => ?_, h.empty, h.ready,
      Or.inr ⟨hflip, fb, hnext, Or.inr ⟨rfl, ?_, rfl⟩⟩⟩
    · cases hbo
      exact h.next fb hnext
    · change s.events + 1 = 1
      rw [hevents]
  · rw [hpending]
    exact h

end Output

/-- **Flips in turn.** In a run in which `pageFlipPending` is 0 whenever `drmModePageFlip` is called, no flip is pending
then, and every buffer released is locked, not on the screen and not the target of a pending flip. -/
theorem flips_safely (n : Nat) (happenings : List Happening)
    (h : ∀ o ∈ (drmGlTest3.run (.start n) happenings).2, InTurn o) :
    ∀ o ∈ (drmGlTest3.run (.start n) happenings).2, Safe o := by
  have hinv := Machine.run_inv_of_every (m := drmGlTest3) (P := fun _ o => InTurn o)
    (I := fun h s => s.Inv ∧ ∀ o ∈ h, Safe o) ?_ happenings [] (Output.start n)
    ⟨Output.inv_start n, fun _ ho => absurd ho List.not_mem_nil⟩ (every_const.2 h)
  · exact hinv.2
  · rintro h s i ⟨hs, hsafe⟩ hturn
    rw [every_const] at hturn
    cases i with
    | complete =>
        have hshown : (drmGlTest3.step s .complete).2 = [] := by
          change (s.step .complete).2 = []
          unfold Output.step
          cases s.pending <;> rfl
        rw [hshown, List.append_nil]
        exact ⟨hs.complete, hsafe⟩
    | turn a =>
        obtain ⟨hnext, hmore⟩ := hs.turn a hturn
        exact ⟨hnext, List.forall_mem_append.2 ⟨hsafe, hmore⟩⟩

/-- The first frame. -/
def firstFrame : List Happening :=
  [.turn (.polled 0), .turn (.front 0 (some 7)), .turn .done, .turn .done]

/-- A second and a third frame, each after the event of the flip before. -/
def afterEvent : List Happening :=
  firstFrame ++ [.complete, .turn (.polled 0), .turn (.front 1 (some 8)), .turn .done] ++
    [.complete, .turn (.polled 0), .turn (.front 0 none), .turn .done]

/-- The second event releases the buffer of the first frame. -/
theorem flips_safely_after_event :
    (∀ o ∈ (drmGlTest3.run (.start 3) afterEvent).2, InTurn o) ∧
      .release 0 (some 1) [] true ∈ (drmGlTest3.run (.start 3) afterEvent).2 ∧
        ∀ o ∈ (drmGlTest3.run (.start 3) afterEvent).2, Safe o := by
  have hturn : ∀ o ∈ (drmGlTest3.run (.start 3) afterEvent).2, InTurn o := by decide +kernel
  have hrelease : .release 0 (some 1) [] true ∈ (drmGlTest3.run (.start 3) afterEvent).2 := by decide +kernel
  exact ⟨hturn, hrelease, flips_safely 3 afterEvent hturn⟩

/-- A second flip is asked for while the first is pending. -/
def whilePending : List Happening :=
  firstFrame ++ [.turn (.polled 0), .turn .done, .turn .failed]

theorem not_flips_safely :
    ¬∀ (n : Nat) (happenings : List Happening), ∀ o ∈ (drmGlTest3.run (.start n) happenings).2, Safe o := by
  intro h
  have hsecond : Safe (.flip true [0]) := h 2 whilePending (.flip true [0]) (by decide +kernel)
  exact absurd hsecond (List.cons_ne_nil _ _)

end SysSnippets.DrmTests
