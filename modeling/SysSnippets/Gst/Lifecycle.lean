import SysSnippets.Gst.Objects
import Mathlib.Data.Fin.VecNotation

/-!
# When the sinks keep their objects in order

* `drmsink_round` : a round of `drmsink` that opens the device breaks the order: `stop` reads a NULL
  `saved_crtc`, or the saved CRTC is never freed;
* `Fresh`, `Ready`, `Partial` : `drmplanesink` between `start` and the frames being set up, after it, and
  after a setup that failed half-way;
* `blank_round`, `enabled_round` : what a round of `drmplanesink` does, by the condition `Round.Clean`;
* `sinks_tidy_iff` : the exact condition for both sinks.
-/

namespace SysSnippets.Gst
open SysSnippets.Lib

/-! ## The condition -/

/-- The device is opened. -/
def Round.opens (r : Round) : Bool := r.start.fd.isSome

/-- The plane is found and the driver is created. -/
def StartAnswers.offers (a : StartAnswers Unit) (planeId : U32) : Prop :=
  (∃ planes, a.planes = some planes ∧ some planeId ∈ planes) ∧ a.drv.isSome

/-- Frames are set up at once; before that, `kms_bo_create` may fail for the first of them, and buffers are
smaller than the last caps ask for. -/
def CleanCalls (width height : U32) : List (BaseCall Unit) → Prop
  | [] => False
  | .render buffer _ :: cs => buffer.size < 4 * width * height ∧ CleanCalls width height cs
  | .setCaps caps a :: cs =>
      ((a.frames 0).bo = none ∧ CleanCalls caps.width caps.height cs) ∨ ∀ i, (a.frames i).Complete

/-- The condition on a round of `drmplanesink`. -/
def Round.Clean (planeId : U32) (r : Round) : Prop := r.start.offers planeId ∧ CleanCalls 0 0 r.calls

/-! ## Rounds that do not open the device -/

section Shut
variable {S : Type} {K : BaseSinkClass Handle S} {base : S → Sink Handle} (hK : K.Lawful base)
include hK

theorem round_shut (w : Player S) {r : Round} (hr : r.opens = false) :
    (K.round w r).2 = [.start, .openDevice none] ∧
      (K.round w r).1.sink = (K.start w.sink (r.start.number w.count)).self ∧
      base (K.round w r).1.sink = { base w.sink with fd := none } := by
  have hfd : r.start.fd = none := by simpa [Round.opens] using hr
  have hstart := hK.start w.sink r.start w.count
  unfold BaseSinkClass.round
  generalize K.start w.sink (r.start.number w.count) = st at hstart
  obtain ⟨ret, self, calls⟩ := st
  dsimp only at hstart ⊢
  generalize hself : base self = s' at hstart
  cases hstart with
  | shut => exact ⟨rfl, rfl, hself⟩
  | failed hsome => simp [hfd] at hsome
  | running hsome => simp [hfd] at hsome

end Shut

theorem tidy_shut {t : List (Call Handle)} (h : ledger.Tidy t) : ledger.Tidy (t ++ [.start, .openDevice none]) := by
  refine ⟨?_, fun o ho => ?_⟩
  · have hsafe : ledger.Safe ((t ++ [.start]) ++ [.openDevice none]) := by
      rw [Ledger.safe_snoc, Ledger.safe_snoc]
      exact ⟨⟨h.safe, fun o ho => absurd ho List.not_mem_nil⟩, fun o ho => absurd ho List.not_mem_nil⟩
    simpa using hsafe
  · rw [Ledger.created_append] at ho
    rw [Ledger.released_append]
    have hnone : ledger.created [.start, .openDevice none] = [] ∧
      ledger.released [.start, .openDevice none] = [] := ⟨rfl, rfl⟩
    rw [hnone.1, List.append_nil] at ho
    rw [hnone.2, List.append_nil]
    exact h.once o ho

theorem tidy_nil : ledger.Tidy [] := ⟨Ledger.safe_nil, fun _ ho => absurd ho List.not_mem_nil⟩

/-- What is usable is not NULL. -/
theorem not_usable_null {n : Nat} {t : List (Call Handle)} {s : Sink Handle} (hn : Numbered n t s) (kind : Kind) :
    ¬ledger.Usable t (kind, none) :=
  fun h => (hn.created _ (Ledger.usable_mem_created h)).1 rfl

theorem numbered_nil {s : Sink Handle} (h : ∀ o, s.Holds o → o.2 = none) : Numbered 0 [] s := by
  refine ⟨fun o ho => absurd ho List.not_mem_nil, fun o ho => absurd ho List.not_mem_nil, fun o ho m i hm => ?_⟩
  rw [h o ho] at hm
  cases hm

theorem holds_zero {o : Ref} (h : (Sink.zero : Sink Handle).Holds o) : o.2 = none := by
  obtain ⟨kind, x⟩ := o
  cases kind with
  | fd => exact h
  | drv => exact h
  | fb =>
      obtain ⟨i, rfl⟩ := h
      rfl
  | bo =>
      obtain ⟨i, rfl⟩ := h
      rfl
  | mapping =>
      obtain ⟨i, rfl⟩ := h
      rfl
  | savedCrtc => exact h.elim

/-! ## `drmsink` -/

theorem savedCrtc_not_released (t : List (Call Handle)) (h : Handle) : (.savedCrtc, h) ∉ ledger.released t := by
  intro hmem
  obtain ⟨c, -, hc⟩ := List.mem_flatMap.1 hmem
  cases c <;> simp [ledger, Call.releases] at hc

/-- `stop` reads NULL, or leaves the saved CRTC behind. -/
theorem drmsink_stop {t : List (Call Handle)} {n : Nat} {s : DrmSink Handle} (hn : Numbered n t s.toSink) :
    Ruined (t ++ s.stop.calls) s.stop.self.toSink := by
  unfold DrmSink.stop
  cases s.savedCrtc with
  | none => exact Or.inl (Ledger.not_safe (List.mem_singleton_self _) (not_usable_null hn _) [])
  | some saved =>
      by_cases husable : ledger.Usable t (.savedCrtc, saved.ptr)
      · refine Or.inr ⟨(.savedCrtc, saved.ptr), Ledger.Lost.append ?_ (savedCrtc_not_released _ _), ?_⟩
        · exact ⟨Ledger.usable_mem_created husable, savedCrtc_not_released _ _⟩
        · exact id
      · exact Or.inl (Ledger.not_safe (List.mem_singleton_self _) husable _)

theorem drmsink_round {t : List (Call Handle)} {w : Player (DrmSink Handle)}
    (hn : Numbered w.count t w.sink.toSink) {r : Round} (hr : r.opens = true) :
    Broken (t ++ (drmsink.round w r).2) (drmsink.round w r).1.sink.toSink := by
  refine round_ind (P := fun t (w : Player (DrmSink Handle)) => Numbered w.count t w.sink.toSink)
    (R := fun t w => Numbered w.count t w.sink.toSink) (Q := fun t w => Broken t w.sink.toSink) ?_
    (fun t w hn => numbered_calls drmsink_lawful hn r.calls) (fun t w hn => Or.inl (drmsink_stop hn))
  rintro st rfl
  split_ifs with hret
  · exact hn.step (start_handles drmsink_lawful w.sink r.start w.count)
  · exact broken_start drmsink_lawful hn r.start hr (by simpa using hret)

theorem drmsink_trace (modeName : List Byte) (connId crtcId : U32) (rs : List Round) :
    if ∃ r ∈ rs, r.opens then
      Broken (drmsink.trace (.zero modeName connId crtcId) rs)
        (drmsink.rounds.run ⟨.zero modeName connId crtcId, 0⟩ rs).1.sink.toSink
    else ledger.Tidy (drmsink.trace (.zero modeName connId crtcId) rs) := by
  refine (Machine.run_inputs_inv (m := drmsink.rounds) (J := fun rs t w => Numbered w.count t w.sink.toSink ∧
    if ∃ r ∈ rs, r.opens then Broken t w.sink.toSink else ledger.Tidy t) ?_ ?_ rs).2
  · exact ⟨numbered_nil fun o ho => holds_zero ho, by simpa using tidy_nil⟩
  · rintro rs t w r ⟨hn, h⟩
    refine ⟨numbered_round drmsink_lawful hn r, ?_⟩
    by_cases hr : r.opens = true
    · rw [if_pos ⟨r, by simp, hr⟩]
      exact drmsink_round hn hr
    · by_cases hrs : ∃ r ∈ rs, r.opens
      · rw [if_pos hrs] at h
        rw [if_pos (hrs.imp fun q hq => ⟨List.mem_append_left _ hq.1, hq.2⟩)]
        exact h.round drmsink_lawful hn r
      · rw [if_neg hrs] at h
        rw [if_neg ?_]
        · show ledger.Tidy (t ++ (drmsink.round w r).2)
          rw [(round_shut drmsink_lawful w (by simpa using hr)).1]
          exact tidy_shut h
        · rintro ⟨q, hq, hopens⟩
          rcases List.mem_append.1 hq with hq | hq
          · exact hrs ⟨q, hq, hopens⟩
          · rw [List.mem_singleton.1 hq] at hopens
            exact hr hopens

/-! ## `drmplanesink` -/

/-- The calls of `setup` for frame `i` if all succeed. -/
def frameCalls (s : Sink Handle) (width height pitch handle : U32) (n : Nat) (i : Fin DRM_FRAMES) :
    List (Call Handle) :=
  [.kmsBoCreate s.drv width height (some (some (n, i))), .kmsBoGetPitch (some (n, i)) (some pitch),
    .kmsBoGetHandle (some (n, i)) (some handle), .kmsBoMap (some (n, i)) (some (some (n, i))),
    .drmModeAddFB s.fd width height pitch handle (some (some (n, i)))]

theorem frameCalls_opens (s : Sink Handle) (width height pitch handle : U32) (n : Nat) (i : Fin DRM_FRAMES) :
    ∀ c ∈ frameCalls s width height pitch handle n i, ledger.opens c = false := by
  simp [frameCalls, ledger, Call.isStart]

/-- The objects of frame `i`. -/
def frameObjects (n : Nat) (i : Fin DRM_FRAMES) : List Ref :=
  [(.bo, some (n, i)), (.mapping, some (n, i)), (.fb, some (n, i))]

/-- A frame adds its objects. -/
theorem frameCalls_grown {s : Sink Handle} {t : List (Call Handle)} {os : List Ref} (h : ledger.Grown t os)
    (hfd : (.fd, s.fd) ∈ os) (hdrv : (.drv, s.drv) ∈ os) (width height pitch handle : U32) (n : Nat)
    (i : Fin DRM_FRAMES) :
    ledger.Grown (t ++ frameCalls s width height pitch handle n i) (os ++ frameObjects n i) := by
  refine h.append (frameCalls_opens s width height pitch handle n i) rfl ?_
  simp [frameCalls, every_cons, every_nil, ledger, Ledger.created, Call.creates, Call.uses, hfd, hdrv]

theorem bothFrames_grown {s : Sink Handle} {t : List (Call Handle)} {os : List Ref} (h : ledger.Grown t os)
    (hfd : (.fd, s.fd) ∈ os) (hdrv : (.drv, s.drv) ∈ os) (width height : U32) (pitch handle : Fin DRM_FRAMES → U32)
    (n : Nat) :
    ledger.Grown
      (t ++ (frameCalls s width height (pitch 0) (handle 0) n 0 ++ frameCalls s width height (pitch 1) (handle 1) n 1))
      (os ++ (frameObjects n 0 ++ frameObjects n 1)) := by
  have hfirst := frameCalls_grown h hfd hdrv width height (pitch 0) (handle 0) n 0
  have hboth := frameCalls_grown hfirst (List.mem_append_left _ hfd) (List.mem_append_left _ hdrv) width height
    (pitch 1) (handle 1) n 1
  rwa [List.append_assoc, List.append_assoc] at hboth

/-- The ways the setup of both frames can go. -/
inductive FramesSetup (s : Sink Handle) (width height : U32) (a : Fin DRM_FRAMES → FrameAnswers Unit) (n : Nat) :
    Result Handle (Sink Handle) → Prop
  | refused (hbo : (a 0).bo = none) :
      FramesSetup s width height a n ⟨false, s, [.kmsBoCreate s.drv width height none]⟩
  | failed (hbo : (a 0).bo.isSome) (hnot : ¬∀ i, (a i).Complete) (self : Sink Handle)
      (calls : List (Call Handle)) (henabled : self.enabled = s.enabled) (hfb : self.fb 1 = s.fb 1)
      (hbo₀ : self.bo 0 = some (n, 0)) (hbo₁ : self.bo 1 = s.bo 1 ∨ self.bo 1 = some (n, 1))
      (hcreated : (.bo, some (n, 0)) ∈ ledger.created calls) (hreleased : ledger.released calls = []) :
      FramesSetup s width height a n ⟨false, self, calls⟩
  | complete (hcomplete : ∀ i, (a i).Complete) (pitch handle : Fin DRM_FRAMES → U32) :
      FramesSetup s width height a n
        ⟨true, { s with
            stride := pitch
            bo := fun i => some (n, i)
            frame := fun i => some (n, i)
            fb := fun i => some (n, i) },
          frameCalls s width height (pitch 0) (handle 0) n 0 ++ frameCalls s width height (pitch 1) (handle 1) n 1⟩

theorem update_both {α : Type} (f g : Fin DRM_FRAMES → α) :
    Function.update (Function.update f 0 (g 0)) 1 (g 1) = g := by
  funext i
  match i with
  | 0 => rfl
  | 1 => rfl

theorem framesSetup (s : Sink Handle) (width height : U32) (a : Fin DRM_FRAMES → FrameAnswers Unit) (n : Nat) :
    FramesSetup s width height a n
      (Sink.setupFrames width height (fun i => (a i).number n i) [0, 1] s) := by
  have hframe₀ := @frameSetup s width height (a 0) n 0
  unfold Sink.setupFrames
  generalize s.setupFrame width height ((a 0).number n 0) 0 = r at hframe₀ ⊢
  cases hframe₀ with
  | refused hbo => exact .refused hbo
  | failed hbo hnot self calls hself hcreated hreleased =>
      obtain ⟨stride, frame, rfl⟩ := hself
      exact .failed hbo (fun h => hnot (h 0)) _ _ rfl rfl rfl (Or.inl rfl) hcreated.1 hreleased
  | complete hcomplete pitch handle =>
      have hbo : (a 0).bo.isSome := hcomplete.1
      dsimp only
      rw [if_pos rfl]
      unfold Sink.setupFrames
      generalize hs' : ({ s with
        bo := Function.update s.bo 0 (some (n, 0))
        stride := Function.update s.stride 0 pitch
        frame := Function.update s.frame 0 (some (n, 0))
        fb := Function.update s.fb 0 (some (n, 0)) } : Sink Handle) = s'
      have hframe₁ := @frameSetup s' width height (a 1) n 1
      generalize s'.setupFrame width height ((a 1).number n 1) 1 = r at hframe₁ ⊢
      subst hs'
      cases hframe₁ with
      | refused hbo₁ =>
          refine .failed hbo (fun h => ?_) _ _ rfl rfl rfl (Or.inl rfl) ?_ rfl
          · have := (h 1).1
            simp [hbo₁] at this
          · simp [ledger, Ledger.created, Call.creates]
      | failed hbo₁ hnot self calls hself hcreated hreleased =>
          obtain ⟨stride, frame, rfl⟩ := hself
          refine .failed hbo (fun h => hnot (h 1)) _ _ rfl rfl rfl (Or.inr rfl) ?_ ?_
          · simp [ledger, Ledger.created, Call.creates]
          · show ledger.released (_ ++ calls) = []
            rw [Ledger.released_append, hreleased]
            rfl
      | complete hcomplete₁ pitch₁ handle₁ =>
          have hall : ∀ i, (a i).Complete := Fin.forall_fin_two.2 ⟨hcomplete, hcomplete₁⟩
          have hserial : ∀ f : Fin DRM_FRAMES → Handle,
              Function.update (Function.update f 0 (some (n, 0))) 1 (some (n, 1)) = fun i => some (n, i) :=
            fun f => update_both f fun i => some (n, i)
          have hpitch : Function.update (Function.update s.stride 0 pitch) 1 pitch₁ = ![pitch, pitch₁] :=
            update_both s.stride ![pitch, pitch₁]
          dsimp only
          rw [if_pos rfl, hserial, hserial, hserial, hpitch]
          exact .complete hall ![pitch, pitch₁] ![handle, handle₁]

/-- Between `start` and a successful setup, if the device was not opened before. -/
structure Fresh (m : Nat) (t : List (Call Handle)) (s : Sink Handle) : Prop where
  grown : ledger.Grown t [(.fd, some (m, 0)), (.drv, some (m, 0))]
  enabled : s.enabled = false
  bo : ∀ i, s.bo i = none
  fb : ∀ i, s.fb i = none
  drv : s.drv = some (m, 0)
  fd : s.fd = some (m, 0)

/-- After class call `k` set up both frames. -/
structure Ready (m k : Nat) (t : List (Call Handle)) (s : Sink Handle) : Prop where
  grown : ledger.Grown t [(.fd, some (m, 0)), (.drv, some (m, 0)),
    (.bo, some (k, 0)), (.mapping, some (k, 0)), (.fb, some (k, 0)),
    (.bo, some (k, 1)), (.mapping, some (k, 1)), (.fb, some (k, 1))]
  enabled : s.enabled = true
  bo : ∀ i, s.bo i = some (k, i)
  frame : ∀ i, s.frame i = some (k, i)
  fb : ∀ i, s.fb i = some (k, i)
  drv : s.drv = some (m, 0)
  fd : s.fd = some (m, 0)

/-- After a setup that failed behind its first call. -/
structure Partial (t : List (Call Handle)) (s : Sink Handle) : Prop where
  enabled : s.enabled = false
  fb : s.fb 1 = none
  bo : ∃ k, s.bo 0 = some (k, 0) ∧ ledger.Lost t (.bo, some (k, 0))
  other : ∀ k, s.bo 1 ≠ some (k, 0)

section Plane
variable {n m k : Nat} {t : List (Call Handle)} {s : DrmPlaneSink Handle}

theorem setcaps_enabled (h : s.enabled = true) (caps : Caps) (a : SetupAnswers Handle) :
    s.setcaps caps a = ⟨true, s, []⟩ := by
  unfold DrmPlaneSink.setcaps
  rw [if_pos h]

theorem setcaps_setup (h : s.enabled = false) (caps : Caps) (a : SetupAnswers Handle) :
    s.setcaps caps a = s.setup caps a := by
  unfold DrmPlaneSink.setcaps
  rw [if_neg (by rw [h]; exact Bool.false_ne_true)]

theorem render_refused {buffer : Buffer} (h : buffer.size < 4 * s.width * s.height) (ok : Bool) :
    s.render buffer ok = ⟨false, s, []⟩ := by
  unfold DrmPlaneSink.render Sink.refuses
  rw [if_pos (decide_eq_true h)]

/-- `setcaps` before the frames are set up. -/
theorem Fresh.setcaps (h : Fresh m t s.toSink) (hn : Numbered n t s.toSink) (caps : Caps)
    (a : SetupAnswers Unit) :
    ((a.frames 0).bo = none ∧ Fresh m (t ++ (s.setcaps caps (a.number n)).calls)
        (s.setcaps caps (a.number n)).self.toSink ∧
      (s.setcaps caps (a.number n)).self.width = caps.width ∧
      (s.setcaps caps (a.number n)).self.height = caps.height) ∨
    ((∀ i, (a.frames i).Complete) ∧ Ready m n (t ++ (s.setcaps caps (a.number n)).calls)
        (s.setcaps caps (a.number n)).self.toSink) ∨
    ((a.frames 0).bo.isSome ∧ (¬∀ i, (a.frames i).Complete) ∧
      Partial (t ++ (s.setcaps caps (a.number n)).calls) (s.setcaps caps (a.number n)).self.toSink) := by
  have hframes := framesSetup { s.toSink with width := caps.width, height := caps.height } caps.width caps.height
    a.frames n
  have hhandles := DrmPlaneSink.setcaps_handles s caps a n
  rw [setcaps_setup h.enabled] at hhandles ⊢
  unfold DrmPlaneSink.setup at hhandles ⊢
  dsimp only [SetupAnswers.number] at hframes hhandles ⊢
  generalize Sink.setupFrames caps.width caps.height (fun i => (a.frames i).number n i) [0, 1] _ = r
    at hframes hhandles ⊢
  cases hframes with
  | refused hbo =>
      left
      rw [if_neg Bool.false_ne_true]
      refine ⟨hbo, ⟨h.grown.quiet ?_ ?_, h.enabled, h.bo, h.fb, h.drv, h.fd⟩, rfl, rfl⟩
      · exact List.forall_mem_singleton.2 ⟨rfl, rfl, rfl⟩
      · refine List.forall_mem_singleton.2 fun o ho => ?_
        rw [List.mem_singleton.1 ho, h.drv]
        simp
  | failed hbo hnot self calls henabled hfb hbo₀ hbo₁ hcreated hreleased =>
      right; right
      rw [if_neg Bool.false_ne_true]
      refine ⟨hbo, hnot, henabled.trans h.enabled, hfb.trans (h.fb 1), ⟨n, hbo₀, ?_⟩, fun k' => ?_⟩
      · exact hn.lost hcreated ⟨0, rfl⟩ hreleased
      · show self.bo 1 ≠ _
        rcases hbo₁ with hbo₁ | hbo₁
        · rw [hbo₁]
          show s.bo 1 ≠ _
          rw [h.bo 1]
          simp
        · rw [hbo₁]
          simp
  | complete hcomplete pitch handle =>
      right; left
      refine ⟨hcomplete, ?_, rfl, fun i => rfl, fun i => rfl, fun i => rfl, h.drv, h.fd⟩
      exact bothFrames_grown h.grown (by simp [h.fd]) (by simp [h.drv]) caps.width caps.height pitch handle n

/-- A render that is not refused. -/
theorem render_shown {buffer : Buffer} (h : ¬buffer.size < 4 * s.width * s.height) (ok : Bool) :
    (s.render buffer ok).calls = s.copyRows buffer ++
      [.drmModeSetPlane s.fd s.planeId s.crtcId (s.fb s.current) s.posx s.posy s.width s.height
        (s.width <<< 16) (s.height <<< 16) ok] := by
  unfold DrmPlaneSink.render Sink.refuses
  rw [if_neg (by rw [decide_eq_true_eq]; exact h)]
  split_ifs <;> rfl

/-- `render` changes `current` at most. -/
theorem render_self (s : DrmPlaneSink Handle) (buffer : Buffer) (ok : Bool) :
    ∃ current, (s.render buffer ok).self = { s with current := current } := by
  unfold DrmPlaneSink.render
  split_ifs
  · exact ⟨s.current, rfl⟩
  · exact ⟨_, rfl⟩
  · exact ⟨s.current, rfl⟩

theorem render_quiet (s : DrmPlaneSink Handle) (buffer : Buffer) (ok : Bool) :
    ∀ c ∈ (s.render buffer ok).calls, ledger.Quiet c ∧ ∀ o ∈ ledger.uses c,
      o = (.fd, s.fd) ∨ o = (.mapping, s.frame s.current) ∨ o = (.fb, s.fb s.current) := by
  intro c hc
  by_cases h : buffer.size < 4 * s.width * s.height
  · rw [render_refused h] at hc
    cases hc
  · rw [render_shown h] at hc
    rcases List.mem_append.1 hc with hc | hc
    · obtain ⟨hquiet, huses⟩ := quiet_copyRows s.toSink buffer c hc
      refine ⟨hquiet, fun o ho => ?_⟩
      rw [huses, List.mem_singleton] at ho
      exact Or.inr (Or.inl ho)
    · obtain rfl := List.mem_singleton.1 hc
      refine ⟨⟨rfl, rfl, rfl⟩, fun o ho => ?_⟩
      rcases List.mem_cons.1 ho with ho | ho
      · exact Or.inl ho
      · exact Or.inr (Or.inr (List.mem_singleton.1 ho))

/-- A render before the frames are set up. -/
theorem Fresh.render (h : Fresh m t s.toSink) {buffer : Buffer} (hlarge : ¬buffer.size < 4 * s.width * s.height)
    (ok : Bool) : ¬ledger.Safe (t ++ (s.render buffer ok).calls) := by
  rw [render_shown hlarge, ← List.append_assoc]
  refine Ledger.not_safe (o := (.fb, s.fb s.current)) (by simp [ledger, Call.uses]) (fun husable => ?_) []
  have hmem := Ledger.usable_mem_created husable
  rw [Ledger.created_append, h.grown.created,
    Ledger.created_quiet fun c hc => (quiet_copyRows s.toSink buffer c hc).1] at hmem
  simp at hmem

theorem Ready.render (h : Ready m k t s.toSink) (buffer : Buffer) (ok : Bool) :
    Ready m k (t ++ (s.render buffer ok).calls) (s.render buffer ok).self.toSink := by
  have hquiet := render_quiet s buffer ok
  obtain ⟨current, hself⟩ := render_self s buffer ok
  rw [hself]
  refine ⟨h.grown.quiet (fun c hc => (hquiet c hc).1) fun c hc o ho => ?_, h.enabled, h.bo, h.frame, h.fb, h.drv,
    h.fd⟩
  rcases (hquiet c hc).2 o ho with rfl | rfl | rfl
  · simp [h.fd]
  · rw [h.frame]
    match s.current with
    | 0 => simp
    | 1 => simp
  · rw [h.fb]
    match s.current with
    | 0 => simp
    | 1 => simp

theorem Ready.stop (h : Ready m k t s.toSink) : ledger.Tidy (t ++ s.stop.calls) := by
  have hcalls : s.stop.calls = [.disablePlane (some (m, 0)) s.planeId,
      .drmModeRmFB (some (m, 0)) (some (k, 0)), .kmsBoUnmap (some (k, 0)), .kmsBoDestroy (some (k, 0)),
      .drmModeRmFB (some (m, 0)) (some (k, 1)), .kmsBoUnmap (some (k, 1)), .kmsBoDestroy (some (k, 1)),
      .kmsDestroy (some (m, 0)), .close (some (m, 0))] := by
    simp [DrmPlaneSink.stop, Sink.teardown, h.fd, h.drv, h.fb, h.bo]
  rw [hcalls]
  refine h.grown.tidy ?_ rfl ?_ ?_
  · simp [ledger, Call.isStart]
  · simp only [every_cons, every_nil, ledger, Call.uses, List.forall_mem_cons, and_true, List.not_mem_nil,
      IsEmpty.forall_iff]
    simp [Ledger.released, Call.releases]
  · intro o ho
    simp only [List.mem_cons, List.not_mem_nil, or_false] at ho
    rcases ho with rfl | rfl | rfl | rfl | rfl | rfl | rfl | rfl <;>
      simp [ledger, Ledger.released, Call.releases]

theorem stop_removes (s : DrmPlaneSink Handle) : ∀ i, ∃ pre post : List (Call Handle),
    s.stop.calls = pre ++ .drmModeRmFB s.fd (s.fb i) :: post ∧ ledger.created pre = [] := by
  refine Fin.forall_fin_two.2 ⟨?_, ?_⟩
  · exact ⟨[.disablePlane s.fd s.planeId], _, rfl, rfl⟩
  · exact ⟨[.disablePlane s.fd s.planeId, .drmModeRmFB s.fd (s.fb 0), .kmsBoUnmap (s.bo 0), .kmsBoDestroy (s.bo 0)],
      _, rfl, rfl⟩

/-- A framebuffer that is not usable when `stop` removes it. -/
theorem stop_misuse (i : Fin DRM_FRAMES) (h : ¬ledger.Usable t (.fb, s.fb i)) :
    ¬ledger.Safe (t ++ s.stop.calls) := by
  obtain ⟨pre, post, hcalls, hcreated⟩ := stop_removes s i
  rw [hcalls, ← List.append_assoc]
  exact Ledger.not_safe (o := (.fb, s.fb i)) (by simp [ledger, Call.uses])
    (fun husable => h (husable.of_append hcreated)) post

theorem Partial.render (h : Partial t s.toSink) (buffer : Buffer) (ok : Bool) :
    Partial (t ++ (s.render buffer ok).calls) (s.render buffer ok).self.toSink := by
  obtain ⟨current, hself⟩ := render_self s buffer ok
  obtain ⟨k, hbo, hlost⟩ := h.bo
  rw [hself]
  refine ⟨h.enabled, h.fb, ⟨k, hbo, hlost.append ?_⟩, h.other⟩
  rw [Ledger.released_quiet fun c hc => (render_quiet s buffer ok c hc).1]
  exact List.not_mem_nil

/-- Another `setcaps` loses the first buffer object, unless it fails at once. -/
theorem Partial.setcaps (h : Partial t s.toSink) (hn : Numbered n t s.toSink) (caps : Caps)
    (a : SetupAnswers Unit) :
    Partial (t ++ (s.setcaps caps (a.number n)).calls) (s.setcaps caps (a.number n)).self.toSink ∨
      Ruined (t ++ (s.setcaps caps (a.number n)).calls) (s.setcaps caps (a.number n)).self.toSink := by
  obtain ⟨k, hbo, hlost⟩ := h.bo
  have hfresh : ∀ i, some (k, 0) ≠ (some (n, i) : Handle) := (hn.created _ hlost.created).2.not_fresh
  have hframes := framesSetup { s.toSink with width := caps.width, height := caps.height } caps.width caps.height
    a.frames n
  rw [setcaps_setup h.enabled]
  unfold DrmPlaneSink.setup
  dsimp only [SetupAnswers.number] at hframes ⊢
  generalize Sink.setupFrames caps.width caps.height (fun i => (a.frames i).number n i) [0, 1] _ = r at hframes ⊢
  cases hframes with
  | refused hrefused =>
      left
      rw [if_neg Bool.false_ne_true]
      exact ⟨h.enabled, h.fb, ⟨k, hbo, hlost.append List.not_mem_nil⟩, h.other⟩
  | failed hsome hnot self calls henabled hfb hbo₀ hbo₁ hcreated hreleased =>
      right; right
      rw [if_neg Bool.false_ne_true]
      refine ⟨(.bo, some (k, 0)), hlost.append ?_, ?_⟩
      · show _ ∉ ledger.released calls
        rw [hreleased]
        exact List.not_mem_nil
      · rintro ⟨i, hi⟩
        match i with
        | 0 => exact hfresh 0 (hi.trans hbo₀)
        | 1 =>
            rcases hbo₁ with hbo₁ | hbo₁
            · exact h.other k (hbo₁.symm.trans hi.symm)
            · exact hfresh 1 (hi.trans hbo₁)
  | complete hcomplete pitch handle =>
      right; right
      refine ⟨(.bo, some (k, 0)), hlost.append List.not_mem_nil, ?_⟩
      rintro ⟨i, hi⟩
      exact hfresh i hi

/-! ### The calls between `start` and `stop` -/

/-- `stop` misuses a framebuffer, or something is lost. -/
def Doomed (t : List (Call Handle)) (s : Sink Handle) : Prop := Partial t s ∨ Ruined t s

theorem doomed_calls {w : Player (DrmPlaneSink Handle)} (hn : Numbered w.count t w.sink.toSink)
    (h : Doomed t w.sink.toSink) (cs : List (BaseCall Unit)) :
    Doomed (t ++ (drmplanesink.playing.run w cs).2) (drmplanesink.playing.run w cs).1.sink.toSink :=
  (Machine.run_inv (m := drmplanesink.playing)
    (I := fun t w => Numbered w.count t w.sink.toSink ∧ Doomed t w.sink.toSink)
    (fun t w c ⟨hn, h⟩ => by
      obtain ⟨hs, hcount⟩ := call_handles drmplanesink_lawful w c
      refine ⟨?_, ?_⟩
      · show Numbered (drmplanesink.call w c).1.count _ _
        rw [hcount]
        exact hn.step hs
      · rcases h with h | h
        · cases c with
          | setCaps caps a => exact h.setcaps hn caps a
          | render buffer ok => exact Or.inl (h.render buffer ok)
        · exact Or.inr (h.step hn hs)) cs t w ⟨hn, h⟩).2

theorem ready_calls {w : Player (DrmPlaneSink Handle)} (h : Ready m k t w.sink.toSink) (cs : List (BaseCall Unit)) :
    Ready m k (t ++ (drmplanesink.playing.run w cs).2) (drmplanesink.playing.run w cs).1.sink.toSink :=
  Machine.run_inv (m := drmplanesink.playing) (I := fun t w => Ready m k t w.sink.toSink)
    (fun t w c h => by
      cases c with
      | setCaps caps a =>
          show Ready m k (t ++ (w.sink.setcaps caps _).calls) (w.sink.setcaps caps _).self.toSink
          rw [setcaps_enabled h.enabled, List.append_nil]
          exact h
      | render buffer ok => exact h.render buffer ok) cs t w h

/-- A `setcaps` that gets no first buffer leaves the condition to the calls behind it. -/
theorem cleanCalls_setCaps {width height : U32} {caps : Caps} {a : SetupAnswers Unit} {cs : List (BaseCall Unit)}
    (hbo : (a.frames 0).bo = none) :
    CleanCalls width height (.setCaps caps a :: cs) ↔ CleanCalls caps.width caps.height cs := by
  refine ⟨fun hc => ?_, fun hc => Or.inl ⟨hbo, hc⟩⟩
  rcases hc with hc | hc
  · exact hc.2
  · have := (hc 0).1
    simp [hbo] at this

/-- A `render` that is refused changes nothing. -/
theorem call_refused {w : Player (DrmPlaneSink Handle)} {buffer : Buffer}
    (h : buffer.size < 4 * w.sink.width * w.sink.height) (ok : Bool) :
    (drmplanesink.call w (.render buffer ok)).2 = [] ∧ (drmplanesink.call w (.render buffer ok)).1.sink = w.sink := by
  constructor
  · show (w.sink.render buffer ok).calls = _
    rw [render_refused h]
  · show (w.sink.render buffer ok).self = _
    rw [render_refused h]

/-- **The calls of a first round**, by the condition on them. -/
theorem fresh_calls (cs : List (BaseCall Unit)) : ∀ (t : List (Call Handle)) (w : Player (DrmPlaneSink Handle)),
    Numbered w.count t w.sink.toSink → Fresh m t w.sink.toSink →
    (CleanCalls w.sink.width w.sink.height cs → ∃ k,
      Ready m k (t ++ (drmplanesink.playing.run w cs).2) (drmplanesink.playing.run w cs).1.sink.toSink) ∧
    (¬CleanCalls w.sink.width w.sink.height cs →
      Fresh m (t ++ (drmplanesink.playing.run w cs).2) (drmplanesink.playing.run w cs).1.sink.toSink ∨
      Doomed (t ++ (drmplanesink.playing.run w cs).2) (drmplanesink.playing.run w cs).1.sink.toSink) := by
  induction cs with
  | nil =>
      intro t w hn h
      rw [Machine.run_nil, List.append_nil]
      exact ⟨fun hclean => hclean.elim, fun _ => Or.inl h⟩
  | cons c cs ih =>
      intro t w hn h
      obtain ⟨hs, hcount⟩ := call_handles drmplanesink_lawful w c
      have hnext : Numbered (drmplanesink.call w c).1.count (t ++ (drmplanesink.call w c).2)
          (drmplanesink.call w c).1.sink.toSink := by
        rw [hcount]
        exact hn.step hs
      rw [Machine.run_cons, ← List.append_assoc]
      cases c with
      | setCaps caps a =>
          rcases h.setcaps hn caps a with ⟨hbo, hfresh, hwidth, hheight⟩ | ⟨hall, hready⟩ | ⟨hbo, hnot, hpartial⟩
          · have hrest := ih _ _ hnext hfresh
            rw [cleanCalls_setCaps hbo, ← hwidth, ← hheight]
            exact hrest
          · exact ⟨fun _ => ⟨_, ready_calls hready cs⟩, fun hc => absurd (Or.inr hall) hc⟩
          · refine ⟨fun hc => ?_, fun _ => Or.inr (doomed_calls hnext (Or.inl hpartial) cs)⟩
            rcases hc with hc | hc
            · simp [hc.1] at hbo
            · exact absurd hc hnot
      | render buffer ok =>
          by_cases hsmall : buffer.size < 4 * w.sink.width * w.sink.height
          · obtain ⟨hcalls, hsink⟩ := call_refused hsmall ok
            have hclean : CleanCalls w.sink.width w.sink.height (.render buffer ok :: cs) ↔
                CleanCalls w.sink.width w.sink.height cs := and_iff_right hsmall
            have hrest := ih _ _ hnext (by rw [hcalls, hsink, List.append_nil]; exact h)
            rw [hsink] at hrest
            rw [hclean]
            exact hrest
          · refine ⟨fun hc => absurd hc.1 hsmall, fun _ => Or.inr (doomed_calls hnext (Or.inr ?_) cs)⟩
            exact Or.inl (h.render hsmall ok)

/-- The calls of a round where `enabled` is left from an earlier one. -/
theorem enabled_calls {w : Player (DrmPlaneSink Handle)} (henabled : w.sink.enabled = true)
    (hfb : ∀ h, ¬ledger.Usable t (.fb, h)) (cs : List (BaseCall Unit)) :
    ∀ h, ¬ledger.Usable (t ++ (drmplanesink.playing.run w cs).2) (.fb, h) :=
  (Machine.run_inv (m := drmplanesink.playing)
    (I := fun t w => w.sink.enabled = true ∧ ∀ h, ¬ledger.Usable t (.fb, h))
    (fun t w c ⟨henabled, hfb⟩ => by
      cases c with
      | setCaps caps a =>
          show (w.sink.setcaps caps _).self.enabled = true ∧
            ∀ h, ¬ledger.Usable (t ++ (w.sink.setcaps caps _).calls) (.fb, h)
          rw [setcaps_enabled henabled, List.append_nil]
          exact ⟨henabled, hfb⟩
      | render buffer ok =>
          show (w.sink.render buffer ok).self.enabled = true ∧
            ∀ h, ¬ledger.Usable (t ++ (w.sink.render buffer ok).calls) (.fb, h)
          obtain ⟨current, hself⟩ := render_self w.sink buffer ok
          refine ⟨by rw [hself]; exact henabled, fun h => ?_⟩
          rw [Ledger.usable_quiet fun c hc => (render_quiet w.sink buffer ok c hc).1]
          exact hfb h) cs t w ⟨henabled, hfb⟩).2

/-! ### Rounds -/

theorem start_ret (s : DrmPlaneSink Handle) {a : StartAnswers Unit} (hfd : a.fd.isSome) (n : Nat) :
    (s.start (a.number n)).ret = true ↔ a.offers s.planeId := by
  obtain ⟨fd, connectors, planes, drv⟩ := a
  obtain ⟨fd, rfl⟩ := Option.isSome_iff_exists.1 hfd
  unfold DrmPlaneSink.start StartAnswers.offers StartAnswers.number
  dsimp only [Option.map_some]
  cases planes with
  | none => simp
  | some planes =>
      have hfind : ((planes.filterMap id).find? (· = s.planeId)).isSome ↔ some s.planeId ∈ planes := by
        rw [List.find?_isSome]
        simp
      dsimp only
      cases hf : (planes.filterMap id).find? (· = s.planeId) with
      | none =>
          rw [hf] at hfind
          have hnot : some s.planeId ∉ planes := fun hmem => absurd (hfind.2 hmem) Bool.false_ne_true
          simp [hnot]
      | some p =>
          rw [hf] at hfind
          have hmem : some s.planeId ∈ planes := hfind.1 rfl
          cases drv with
          | none => simp
          | some d => simp [hmem]

/-- The plane is a property: no class function changes it. -/
theorem planeId_start (s : DrmPlaneSink Handle) (a : StartAnswers Handle) :
    (s.start a).self.planeId = s.planeId := by
  unfold DrmPlaneSink.start
  split
  · rfl
  · dsimp only
    split
    · rfl
    · split
      · rfl
      · split <;> rfl

theorem planeId_setcaps (s : DrmPlaneSink Handle) (caps : Caps) (a : SetupAnswers Handle) :
    (s.setcaps caps a).self.planeId = s.planeId := by
  unfold DrmPlaneSink.setcaps DrmPlaneSink.setup
  dsimp only
  split_ifs <;> rfl

theorem planeId_round (w : Player (DrmPlaneSink Handle)) (r : Round) :
    (drmplanesink.round w r).1.sink.planeId = w.sink.planeId := by
  refine round_ind (t := []) (P := fun _ (v : Player (DrmPlaneSink Handle)) => v.sink.planeId = w.sink.planeId)
    (R := fun _ v => v.sink.planeId = w.sink.planeId) (Q := fun _ v => v.sink.planeId = w.sink.planeId) ?_
    (fun t v hv => ?_) (fun t v hv => hv)
  · rintro st rfl
    have hstart := planeId_start w.sink (r.start.number w.count)
    split_ifs <;> exact hstart
  · refine Machine.run_inv (m := drmplanesink.playing)
      (I := fun _ (v : Player (DrmPlaneSink Handle)) => v.sink.planeId = w.sink.planeId) (fun _ v c hv => ?_)
      r.calls t v hv
    cases c with
    | setCaps caps a => exact (planeId_setcaps v.sink caps _).trans hv
    | render buffer ok =>
        obtain ⟨current, hself⟩ := render_self v.sink buffer ok
        show (v.sink.render buffer ok).self.planeId = _
        rw [hself]
        exact hv

/-- No device was opened yet. -/
structure Blank (t : List (Call Handle)) (s : Sink Handle) : Prop where
  grown : ledger.Grown t []
  enabled : s.enabled = false
  bo : ∀ i, s.bo i = none
  fb : ∀ i, s.fb i = none
  size : s.width = 0 ∧ s.height = 0

/-- After `start` succeeded. -/
theorem Blank.start (h : Blank t s.toSink) {a : StartAnswers Unit} (n : Nat)
    (hret : (s.start (a.number n)).ret = true) :
    Fresh n (t ++ .start :: (s.start (a.number n)).calls) (s.start (a.number n)).self.toSink ∧
      (s.start (a.number n)).self.width = 0 ∧ (s.start (a.number n)).self.height = 0 := by
  have hstart := DrmPlaneSink.started s a n
  have hopening : ledger.Grown (t ++ [.start]) [] := h.grown.opening rfl rfl rfl
  generalize s.start (a.number n) = r at hstart hret
  obtain ⟨ret, self, calls⟩ := r
  dsimp only at hstart hret ⊢
  subst hret
  generalize self.toSink = s' at hstart ⊢
  cases hstart with
  | running hfd =>
      refine ⟨⟨?_, h.enabled, h.bo, h.fb, rfl, rfl⟩, h.size.1, h.size.2⟩
      rw [← List.singleton_append, ← List.append_assoc]
      refine hopening.append ?_ rfl ?_
      · simp [ledger, Call.isStart]
      · simp [every_cons, every_nil, ledger, Ledger.created, Call.creates, Call.uses]

/-- Where no setup succeeded, `stop` breaks the order. -/
theorem stop_ruined (hn : Numbered n t s.toSink) (h : Fresh m t s.toSink ∨ Doomed t s.toSink) :
    Ruined (t ++ s.stop.calls) s.stop.self.toSink := by
  have hnull : s.fb 1 = none → Ruined (t ++ s.stop.calls) s.stop.self.toSink := by
    intro hfb
    refine Or.inl (stop_misuse 1 ?_)
    rw [hfb]
    exact not_usable_null hn _
  rcases h with h | h | h
  · exact hnull (h.fb 1)
  · exact hnull h.fb
  · exact h.step hn (DrmPlaneSink.stop_handles s n)

/-- **The first round that opens the device.** -/
theorem blank_round {w : Player (DrmPlaneSink Handle)} (h : Blank t w.sink.toSink)
    (hn : Numbered w.count t w.sink.toSink) {r : Round} (hr : r.opens = true) :
    (r.Clean w.sink.planeId → ledger.Tidy (t ++ (drmplanesink.round w r).2) ∧
      (drmplanesink.round w r).1.sink.enabled = true) ∧
    (¬r.Clean w.sink.planeId →
      Broken (t ++ (drmplanesink.round w r).2) (drmplanesink.round w r).1.sink.toSink) := by
  refine round_ind
    (P := fun t (v : Player (DrmPlaneSink Handle)) => r.start.offers w.sink.planeId ∧
      Numbered v.count t v.sink.toSink ∧ Fresh w.count t v.sink.toSink ∧ v.sink.width = 0 ∧ v.sink.height = 0)
    (R := fun t v => Numbered v.count t v.sink.toSink ∧
      (r.Clean w.sink.planeId → ∃ k, Ready w.count k t v.sink.toSink) ∧
      (¬r.Clean w.sink.planeId → Fresh w.count t v.sink.toSink ∨ Doomed t v.sink.toSink))
    (Q := fun t v => (r.Clean w.sink.planeId → ledger.Tidy t ∧ v.sink.enabled = true) ∧
      (¬r.Clean w.sink.planeId → Broken t v.sink.toSink))
    ?_ (fun t v ⟨hoffers, hn, hfresh, hwidth, hheight⟩ => ?_) (fun t v ⟨hn, hclean, hnot⟩ => ⟨fun hc => ?_, fun hc => ?_⟩)
  · rintro st rfl
    have hret := start_ret w.sink hr w.count
    split_ifs with hst
    · exact ⟨hret.1 hst, hn.step (start_handles drmplanesink_lawful w.sink r.start w.count), h.start w.count hst⟩
    · exact ⟨fun hc => absurd (hret.2 hc.1) hst,
        fun _ => broken_start drmplanesink_lawful hn r.start hr (by simpa using hst)⟩
  · obtain ⟨hclean, hnot⟩ := fresh_calls r.calls t v hn hfresh
    rw [hwidth, hheight] at hclean hnot
    exact ⟨numbered_calls drmplanesink_lawful hn r.calls, fun hc => hclean hc.2,
      fun hc => hnot fun hcalls => hc ⟨hoffers, hcalls⟩⟩
  · obtain ⟨k, hready⟩ := hclean hc
    exact ⟨hready.stop, hready.enabled⟩
  · exact Or.inl (stop_ruined hn (hnot hc))

/-- **Any later round that opens the device.** -/
theorem enabled_round {w : Player (DrmPlaneSink Handle)} (h : w.sink.enabled = true)
    (hn : Numbered w.count t w.sink.toSink) {r : Round} (hr : r.opens = true) :
    Broken (t ++ (drmplanesink.round w r).2) (drmplanesink.round w r).1.sink.toSink := by
  refine round_ind
    (P := fun t (v : Player (DrmPlaneSink Handle)) => v.sink.enabled = true ∧ ∀ h, ¬ledger.Usable t (.fb, h))
    (R := fun t _ => ∀ h, ¬ledger.Usable t (.fb, h)) (Q := fun t v => Broken t v.sink.toSink)
    ?_ (fun t v ⟨henabled, hfb⟩ => enabled_calls henabled hfb r.calls)
    (fun t v hfb => Or.inl (Or.inl (stop_misuse 0 (hfb _))))
  rintro st rfl
  split_ifs with hret
  · have hstart := DrmPlaneSink.started w.sink r.start w.count
    show (w.sink.start (r.start.number w.count)).self.enabled = true ∧
      ∀ h, ¬ledger.Usable (t ++ .start :: (w.sink.start (r.start.number w.count)).calls) (.fb, h)
    have hret' : (w.sink.start (r.start.number w.count)).ret = true := hret
    generalize w.sink.start (r.start.number w.count) = st at hstart hret'
    obtain ⟨ret, self, calls⟩ := st
    dsimp only at hstart hret' ⊢
    subst hret'
    generalize self.toSink = s' at hstart ⊢
    cases hstart with
    | running hfd =>
        refine ⟨h, fun x husable => ?_⟩
        have hmem := husable.since rfl
        simp [ledger, Ledger.created, Call.creates] at hmem
  · exact broken_start drmplanesink_lawful hn r.start hr (by simpa using hret)

end Plane

/-- What the rounds of `drmplanesink` have come to. -/
inductive PlaneRounds (planeId : U32) (rs : List Round) (t : List (Call Handle)) (s : DrmPlaneSink Handle) : Prop
  | blank (hrs : rs.filter Round.opens = []) (h : Blank t s.toSink)
  | played (hrs : ∃ r, rs.filter Round.opens = [r] ∧ r.Clean planeId) (h : ledger.Tidy t) (henabled : s.enabled = true)
  | broken (hrs : rs.filter Round.opens ≠ [] ∧ ¬∃ r, rs.filter Round.opens = [r] ∧ r.Clean planeId)
      (h : Broken t s.toSink)

theorem plane_trace (planeId crtcId posx posy : U32) (rs : List Round) :
    PlaneRounds planeId rs (drmplanesink.trace (.zero planeId crtcId posx posy) rs)
      (drmplanesink.rounds.run ⟨.zero planeId crtcId posx posy, 0⟩ rs).1.sink := by
  refine (Machine.run_inputs_inv (m := drmplanesink.rounds) (J := fun rs t w =>
    Numbered w.count t w.sink.toSink ∧ w.sink.planeId = planeId ∧ PlaneRounds planeId rs t w.sink) ?_ ?_ rs).2.2
  · refine ⟨numbered_nil fun o ho => holds_zero ho, rfl, .blank rfl ⟨?_, rfl, fun _ => rfl, fun _ => rfl, rfl, rfl⟩⟩
    exact ⟨Ledger.safe_nil, rfl, rfl, by simp⟩
  · rintro rs t w r ⟨hn, hplane, h⟩
    refine ⟨numbered_round drmplanesink_lawful hn r, (planeId_round w r).trans hplane, ?_⟩
    show PlaneRounds planeId (rs ++ [r]) (t ++ (drmplanesink.round w r).2) (drmplanesink.round w r).1.sink
    by_cases hr : r.opens = true
    · have hfilter : (rs ++ [r]).filter Round.opens = rs.filter Round.opens ++ [r] := by
        rw [List.filter_append, List.filter_cons_of_pos hr, List.filter_nil]
      cases h with
      | blank hrs h =>
          obtain ⟨hclean, hnot⟩ := blank_round h hn hr
          rw [hplane] at hclean hnot
          rw [hrs, List.nil_append] at hfilter
          by_cases hc : r.Clean planeId
          · exact .played ⟨r, hfilter, hc⟩ (hclean hc).1 (hclean hc).2
          · refine .broken ⟨by simp [hfilter], ?_⟩ (hnot hc)
            rintro ⟨q, hq, hqc⟩
            obtain rfl := List.singleton_inj.1 (hfilter.symm.trans hq)
            exact hc hqc
      | played hrs h henabled =>
          obtain ⟨q, hq, -⟩ := hrs
          exact .broken (by simp [hfilter, hq]) (enabled_round henabled hn hr)
      | broken hrs h =>
          refine .broken ⟨by simp [hfilter], ?_⟩ (h.round drmplanesink_lawful hn r)
          rintro ⟨q, hq, -⟩
          rw [hfilter, List.append_eq_singleton_iff] at hq
          simp [hrs.1] at hq
    · have hfilter : (rs ++ [r]).filter Round.opens = rs.filter Round.opens := by
        rw [List.filter_append, List.filter_cons_of_neg hr, List.filter_nil, List.append_nil]
      obtain ⟨hcalls, -, hsink⟩ := round_shut drmplanesink_lawful w (by simpa using hr)
      cases h with
      | blank hrs h =>
          refine .blank (hfilter.trans hrs) ?_
          rw [hcalls, hsink]
          refine ⟨?_, h.enabled, h.bo, h.fb, h.size⟩
          have hgrown : ledger.Grown ((t ++ [.start]) ++ [.openDevice none]) [] :=
            (h.grown.opening rfl rfl rfl).opening rfl rfl rfl
          simpa using hgrown
      | played hrs h henabled =>
          refine .played (by rwa [hfilter]) ?_ ?_
          · rw [hcalls]
            exact tidy_shut h
          · show (drmplanesink.round w r).1.sink.toSink.enabled = true
            rw [hsink]
            exact henabled
      | broken hrs h => exact .broken (by rwa [hfilter]) (h.round drmplanesink_lawful hn r)

/-- **When the sinks keep their objects in order.** -/
theorem sinks_tidy_iff (modeName : List Byte) (connId crtcId planeId posx posy : U32) (rs : List Round) :
    (ledger.Tidy (drmsink.trace (.zero modeName connId crtcId) rs) ↔ ∀ r ∈ rs, r.opens = false) ∧
    (ledger.Tidy (drmplanesink.trace (.zero planeId crtcId posx posy) rs) ↔
      rs.filter Round.opens = [] ∨ ∃ r, rs.filter Round.opens = [r] ∧ r.Clean planeId) := by
  constructor
  · have h := drmsink_trace modeName connId crtcId rs
    split_ifs at h with hrs
    · refine iff_of_false h.not_tidy fun hall => ?_
      obtain ⟨r, hr, hopens⟩ := hrs
      simp [hall r hr] at hopens
    · refine iff_of_true h fun r hr => ?_
      simpa using fun hopens => hrs ⟨r, hr, hopens⟩
  · cases plane_trace planeId crtcId posx posy rs with
    | blank hrs h =>
        refine iff_of_true ⟨h.grown.safe, fun o ho => ?_⟩ (Or.inl hrs)
        rw [h.grown.created] at ho
        cases ho
    | played hrs h henabled => exact iff_of_true h (Or.inr hrs)
    | broken hrs h => exact iff_of_false h.not_tidy (not_or.2 hrs)

/-- A round in which every call succeeds and one frame is shown. -/
def playback : Round where
  start := ⟨some (), some [some ⟨1, [⟨[], 640, 480, []⟩]⟩], some [some 4], some ()⟩
  calls := [.setCaps ⟨16, 16, sixteen_range, sixteen_range⟩
      ⟨fun _ => ⟨some (), some 2560, some 1, some (), some ()⟩, some ⟨(), ⟨1, 7, 0, 0, true, ⟨[], 640, 480, []⟩⟩⟩⟩,
    .render ⟨List.replicate 1024 0, black_size⟩ true]

theorem not_tidy_playback : ¬ledger.Tidy (drmsink.trace (.zero [] 1 1) [playback]) ∧
    ¬ledger.Tidy (drmplanesink.trace (.zero 4 1 0 0) [playback, playback]) := by
  constructor
  · have h := drmsink_trace [] 1 1 [playback]
    rw [if_pos ⟨playback, List.mem_singleton_self _, rfl⟩] at h
    exact h.not_tidy
  · cases plane_trace 4 1 0 0 [playback, playback] with
    | blank hrs h => cases hrs
    | played hrs h henabled =>
        obtain ⟨r, hr, -⟩ := hrs
        cases hr
    | broken hrs h => exact h.not_tidy

example : playback.Clean 4 :=
  ⟨⟨⟨_, rfl, by simp⟩, rfl⟩, Or.inr fun _ => ⟨rfl, rfl, rfl, rfl, rfl⟩⟩

end SysSnippets.Gst
