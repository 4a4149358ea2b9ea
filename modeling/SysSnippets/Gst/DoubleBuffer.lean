import SysSnippets.Lib.Machine
import SysSnippets.Gst.Frame
import Mathlib.Data.BitVec

/-!
# `drmsink` draws into the frame that is not shown

* `Effect` : one byte written, or a framebuffer put on display for a buffer;
* `Screen` : the memory, the framebuffer displayed, and the buffer it was displayed for;
* `Buffering` : the invariant of the renders, which links `current` with the display;
* `drmsink_double_buffer` : the frame on display is never written to; and where the offsets of the rows stay
  below 2^32, from the first successful render on the display shows the last buffer rendered successfully, at
  every moment.

A render succeeds when its `drmModeSetCrtc` does.
-/

namespace SysSnippets.Gst
open SysSnippets.Lib

inductive Effect
  | poke (a : Nat) (b : Byte)
  | flip (fb : Nat) (buffer : Buffer)

/-- What a call made to render `buffer` does to memory and display. -/
def Call.effects (buffer : Buffer) : Call Nat → List Effect
  | .drmModeSetCrtc _ _ fb _ _ true => [.flip fb buffer]
  | c => c.pokes.map fun p => .poke p.1 p.2

structure Screen where
  mem : Nat → Byte
  fb : Nat
  shown : Option Buffer

def Screen.apply (scr : Screen) : Effect → Screen
  | .poke a b => { scr with mem := Function.update scr.mem a b }
  | .flip fb buffer => { scr with fb := fb, shown := some buffer }

def Screen.after (scr : Screen) (es : List Effect) : Screen := es.foldl Screen.apply scr

/-- The renders of a sink: a buffer, and whether `drmModeSetCrtc` succeeds. -/
def rendering : Machine (DrmSink Nat) (Buffer × Bool) Effect where
  step s i :=
    let r := s.render i.1 i.2
    (r.self, r.calls.flatMap (Call.effects i.1))

/-- The address is in the mapping of frame `i`. -/
def DrmSink.InFrame (s : DrmSink Nat) (i : Fin DRM_FRAMES) (a : Nat) : Prop :=
  s.frame i ≤ a ∧ a < s.frame i + s.mode.vdisplay.toNat * (s.stride i).toNat

/-- The two frames of a sink, while framebuffer `old` is displayed. -/
structure Framed (s : DrmSink Nat) (old : Nat) : Prop where
  pitch : ∀ i, 4 * s.mode.hdisplay.toNat ≤ (s.stride i).toNat
  disjoint : ∀ a, ¬(s.InFrame 0 a ∧ s.InFrame 1 a)
  fb_ne : s.fb 0 ≠ s.fb 1
  fb_old : ∀ i, s.fb i ≠ old

/-- The offsets of the rows fit into 32 bits. -/
def DrmSink.Unwrapped (s : DrmSink Nat) : Prop :=
  ∀ i, (s.height.toNat - 1) * (s.stride i).toNat < 2 ^ 32

/-- The effect does not write to the frame on display. -/
def Unseen (s : DrmSink Nat) (scr : Screen) (e : Effect) : Prop :=
  ∀ a b, e = .poke a b → ∀ i, s.fb i = scr.fb → ¬s.InFrame i a

/-- The display shows the last buffer rendered. -/
def Faithful (s : DrmSink Nat) (scr : Screen) : Prop :=
  ∀ buffer, scr.shown = some buffer → ∃ i, scr.fb = s.fb i ∧
    Shows scr.mem (s.frame i) (s.stride i).toNat s.width.toNat s.height.toNat buffer.data

/-! ## The frames -/

theorem xor_xor (i : Fin DRM_FRAMES) : i ^^^ 1 ^^^ 1 = i := by
  revert i
  decide

theorem xor_ne (i : Fin DRM_FRAMES) : i ^^^ 1 ≠ i := by
  revert i
  decide

theorem Framed.fb_xor {s : DrmSink Nat} {old : Nat} (h : Framed s old) (i : Fin DRM_FRAMES) :
    s.fb i ≠ s.fb (i ^^^ 1) := by
  match i with
  | 0 => exact h.fb_ne
  | 1 => exact h.fb_ne.symm

theorem Framed.apart {s : DrmSink Nat} {old : Nat} (h : Framed s old) {i j : Fin DRM_FRAMES} (hij : i ≠ j) {a : Nat}
    (hi : s.InFrame i a) : ¬s.InFrame j a := by
  intro hj
  match i, j with
  | 0, 0 => exact hij rfl
  | 0, 1 => exact h.disjoint a ⟨hi, hj⟩
  | 1, 0 => exact h.disjoint a ⟨hj, hi⟩
  | 1, 1 => exact hij rfl

/-! ## `start` and `setcaps` -/

/-- A sink whose caps fit its mode. -/
structure Fitted (s : DrmSink Nat) : Prop where
  sized : s.toSink.Sized
  width : s.width.toNat ≤ s.mode.hdisplay.toNat
  height : s.height.toNat ≤ s.mode.vdisplay.toNat

/-- A successful setup. -/
theorem setcaps_fitted {s : DrmSink Nat} (henabled : s.enabled = false) {caps : Caps} {a : SetupAnswers Nat}
    (hret : (s.setcaps caps a).ret = true) :
    Fitted (s.setcaps caps a).self ∧ (s.setcaps caps a).self.width = caps.width ∧
      (s.setcaps caps a).self.height = caps.height := by
  have hkept := setupFrames_kept { s.toSink with width := caps.width, height := caps.height }
    (s.mode.hdisplay.setWidth 32) (s.mode.vdisplay.setWidth 32) a.frames [0, 1]
  unfold DrmSink.setcaps at hret ⊢
  rw [if_neg (by rw [henabled]; exact Bool.false_ne_true)] at hret ⊢
  unfold DrmSink.setup at hret ⊢
  by_cases hbig : s.mode.hdisplay.toNat < caps.width.toNat ∨ s.mode.vdisplay.toNat < caps.height.toNat
  · rw [if_pos hbig] at hret
    cases hret
  · rw [if_neg hbig] at hret ⊢
    dsimp only at hret hkept ⊢
    generalize Sink.setupFrames _ _ a.frames [0, 1] _ = r at hret hkept ⊢
    by_cases hr : r.ret = true
    · rw [if_pos hr] at hret ⊢
      cases hcrtc : a.crtc with
      | none =>
          rw [hcrtc] at hret
          cases hret
      | some crtc =>
          refine ⟨⟨⟨?_, ?_⟩, ?_, ?_⟩, hkept.2.1, hkept.2.2⟩
          · show r.self.width.toNat ≤ 4096
            rw [hkept.2.1]
            exact caps.width_range.2
          · show r.self.height.toNat ≤ 4096
            rw [hkept.2.2]
            exact caps.height_range.2
          · show r.self.width.toNat ≤ s.mode.hdisplay.toNat
            rw [hkept.2.1]
            omega
          · show r.self.height.toNat ≤ s.mode.vdisplay.toNat
            rw [hkept.2.2]
            omega
    · rw [if_neg hr] at hret
      cases hret

/-! ## Renders -/

/-- The writes of a buffer, as effects. -/
def drawing (s : DrmSink Nat) (buffer : Buffer) : List Effect :=
  (pokes (s.copyRows buffer)).map fun p => .poke p.1 p.2

theorem render_effects (s : DrmSink Nat) (buffer : Buffer) (ok : Bool) :
    rendering.step s (buffer, ok) =
      if s.refuses buffer then (s, [])
      else if ok then
        ({ s with current := s.current ^^^ 1 }, drawing s buffer ++ [.flip (s.fb s.current) buffer])
      else (s, drawing s buffer) := by
  have hcopy : (s.copyRows buffer).flatMap (Call.effects buffer) = drawing s buffer := by
    unfold drawing pokes Sink.copyRows
    rw [List.flatMap_map, List.flatMap_map, List.map_flatMap]
    rfl
  show ((s.render buffer ok).self, (s.render buffer ok).calls.flatMap (Call.effects buffer)) = _
  unfold DrmSink.render
  by_cases hrefuses : s.refuses buffer = true
  · rw [if_pos hrefuses, if_pos hrefuses]
    rfl
  · rw [if_neg hrefuses, if_neg hrefuses]
    cases ok with
    | true => simp [List.flatMap_append, hcopy, Call.effects, Call.pokes]
    | false => simp [List.flatMap_append, hcopy, Call.effects, Call.pokes]

theorem after_append (scr : Screen) (es fs : List Effect) : scr.after (es ++ fs) = (scr.after es).after fs :=
  List.foldl_append

/-- Writes leave the display alone. -/
theorem after_pokes (scr : Screen) (ps : List (Nat × Byte)) :
    scr.after (ps.map fun p => .poke p.1 p.2) = { scr with mem := write scr.mem ps } := by
  induction ps using List.reverseRec with
  | nil => rfl
  | append_singleton ps p ih =>
      rw [List.map_append, after_append, ih, write_snoc]
      rfl

section Render
variable {s : DrmSink Nat} {old : Nat} {buffer : Buffer}

/-- A render writes into the current frame. -/
theorem pokes_inFrame (hs : Fitted s) (hf : Framed s old) {p : Nat × Byte} (hp : p ∈ pokes (s.copyRows buffer)) :
    s.InFrame s.current p.1 := by
  rw [pokes_copyRows] at hp
  obtain ⟨r, hr, i, hi, hp⟩ := mem_strided.1 hp
  have hlength : i < 4 * s.width.toNat := Nat.lt_of_lt_of_le (List.getElem?_eq_some_iff.1 hi).1 hs.sized.row_length
  have hpitch := hf.pitch s.current
  have hwidth := hs.width
  have hheight := hs.height
  -- a wrapped offset is not larger than the true one
  have hoffset : (BitVec.ofNat 32 r * s.stride s.current).toNat ≤ r * (s.stride s.current).toNat := by
    rw [BitVec.toNat_mul, BitVec.toNat_ofNat]
    exact le_trans (Nat.mod_le _ _) (Nat.mul_le_mul_right _ (Nat.mod_le _ _))
  have hrow : (r + 1) * (s.stride s.current).toNat ≤ s.mode.vdisplay.toNat * (s.stride s.current).toNat :=
    Nat.mul_le_mul_right _ (by omega)
  rw [Nat.succ_mul] at hrow
  refine ⟨?_, ?_⟩ <;> rw [hp] <;> omega

/-- The cells of an image lie in its frame. -/
theorem cell_inFrame (hs : Fitted s) (hf : Framed s old) {i : Fin DRM_FRAMES} {r x k : Nat} (hr : r < s.height.toNat)
    (hx : x < s.width.toNat) (hk : k < 4) : s.InFrame i (s.frame i + r * (s.stride i).toNat + 4 * x + k) := by
  have hpitch := hf.pitch i
  have hwidth := hs.width
  have hheight := hs.height
  have hrow : (r + 1) * (s.stride i).toNat ≤ s.mode.vdisplay.toNat * (s.stride i).toNat :=
    Nat.mul_le_mul_right _ (by omega)
  rw [Nat.succ_mul] at hrow
  refine ⟨?_, ?_⟩ <;> omega

/-- Writes into the current frame leave the image in the other one. -/
theorem shows_write (hs : Fitted s) (hf : Framed s old) {mem : Nat → Byte} {ps : List (Nat × Byte)}
    (hps : ∀ p ∈ ps, s.InFrame s.current p.1) {i : Fin DRM_FRAMES} (hi : i ≠ s.current) {data : List Byte}
    (h : Shows mem (s.frame i) (s.stride i).toNat s.width.toNat s.height.toNat data) :
    Shows (write mem ps) (s.frame i) (s.stride i).toNat s.width.toNat s.height.toNat data := by
  intro r hr x hx k hk
  rw [write_of_notMem]
  · exact h r hr x hx k hk
  · intro p hp hcell
    have hcurrent := hps p hp
    rw [hcell] at hcurrent
    exact hf.apart hi (cell_inFrame hs hf hr hx hk) hcurrent

end Render

/-! ## The invariant -/

/-- The sink with another current frame. -/
def DrmSink.at (s : DrmSink Nat) (c : Fin DRM_FRAMES) : DrmSink Nat := { s with current := c }

theorem Fitted.at {s : DrmSink Nat} (h : Fitted s) (c : Fin DRM_FRAMES) : Fitted (s.at c) :=
  ⟨⟨h.sized.width, h.sized.height⟩, h.width, h.height⟩

theorem Framed.at {s : DrmSink Nat} {old : Nat} (h : Framed s old) (c : Fin DRM_FRAMES) : Framed (s.at c) old :=
  ⟨h.pitch, h.disjoint, h.fb_ne, h.fb_old⟩

/-- The effects `h` of the renders, after which frame `c` is current. -/
structure Buffering (s : DrmSink Nat) (scr : Screen) (h : List Effect) (c : Fin DRM_FRAMES) : Prop where
  hidden : s.fb c ≠ (scr.after h).fb
  unseen : Every (fun pre e => Unseen s (scr.after pre) e) h
  shown : s.Unwrapped → ∀ buffer, (scr.after h).shown = some buffer → (scr.after h).fb = s.fb (c ^^^ 1) ∧
    Shows (scr.after h).mem (s.frame (c ^^^ 1)) (s.stride (c ^^^ 1)).toNat s.width.toNat s.height.toNat buffer.data
  faithful : s.Unwrapped → Every (fun pre e => Faithful s (scr.after (pre ++ [e]))) h

section Buffering
variable {s : DrmSink Nat} {old : Nat} {scr : Screen} {h : List Effect} {c : Fin DRM_FRAMES}

theorem buffering_start (hf : Framed s old) (c : Fin DRM_FRAMES) (hfb : scr.fb = old) (hshown : scr.shown = none) :
    Buffering s scr [] c := by
  refine ⟨?_, every_nil, fun _ buffer hbuffer => ?_, fun _ => every_nil⟩
  · show s.fb c ≠ scr.fb
    rw [hfb]
    exact hf.fb_old c
  · have hnone : scr.shown = some buffer := hbuffer
    rw [hshown] at hnone
    cases hnone

/-- The image shown stays while the current frame is drawn. -/
theorem Buffering.keep (hb : Buffering s scr h c) (hs : Fitted s) (hf : Framed s old) (hwrap : s.Unwrapped)
    {ps : List (Nat × Byte)} (hps : ∀ p ∈ ps, s.InFrame c p.1) {buffer : Buffer}
    (hshown : (scr.after h).shown = some buffer) :
    (scr.after h).fb = s.fb (c ^^^ 1) ∧ Shows (write (scr.after h).mem ps) (s.frame (c ^^^ 1))
      (s.stride (c ^^^ 1)).toNat s.width.toNat s.height.toNat buffer.data := by
  obtain ⟨hfb, hshows⟩ := hb.shown hwrap buffer hshown
  exact ⟨hfb, shows_write (hs.at c) (hf.at c) hps (xor_ne c) hshows⟩

/-- The copy loop. -/
theorem Buffering.draw (hb : Buffering s scr h c) (hs : Fitted s) (hf : Framed s old) (buffer : Buffer) :
    Buffering s scr (h ++ drawing (s.at c) buffer) c := by
  have hin : ∀ p ∈ pokes ((s.at c).copyRows buffer), s.InFrame c p.1 :=
    fun p hp => pokes_inFrame (hs.at c) (hf.at c) hp
  unfold drawing
  generalize pokes ((s.at c).copyRows buffer) = ps at hin
  have hafter : ∀ qs : List (Nat × Byte), scr.after (h ++ qs.map fun p => .poke p.1 p.2) =
      { scr.after h with mem := write (scr.after h).mem qs } := by
    intro qs
    rw [after_append, after_pokes]
  refine ⟨?_, ?_, fun hwrap buffer hbuffer => ?_, fun hwrap => ?_⟩
  · rw [hafter]
    exact hb.hidden
  · rw [every_append]
    refine ⟨hb.unseen, fun pre e post hsplit a b he i hi => ?_⟩
    obtain ⟨qs, rest, rfl, hqs, hrest⟩ := List.map_eq_append_iff.1 hsplit
    obtain ⟨p, rest, rfl, hp, -⟩ := List.map_eq_cons_iff.1 hrest
    rw [← hqs, hafter] at hi
    rw [he] at hp
    obtain ⟨rfl, -⟩ := Effect.poke.inj hp
    refine hf.apart ?_ (hin p (by simp))
    rintro rfl
    exact hb.hidden hi
  · rw [hafter] at hbuffer ⊢
    exact hb.keep hs hf hwrap hin hbuffer
  · rw [every_append]
    refine ⟨hb.faithful hwrap, fun pre e post hsplit buffer hbuffer => ?_⟩
    have hmoment : ∃ qs : List (Nat × Byte), pre ++ [e] = qs.map (fun p => Effect.poke p.1 p.2) ∧ ∀ p ∈ qs, p ∈ ps := by
      obtain ⟨qs, rest, rfl, hqs, hrest⟩ := List.map_eq_append_iff.1 hsplit
      obtain ⟨p, rest, rfl, hp, -⟩ := List.map_eq_cons_iff.1 hrest
      refine ⟨qs ++ [p], by rw [List.map_append, hqs, List.map_singleton, hp], fun q hq => ?_⟩
      rcases List.mem_append.1 hq with hq | hq
      · exact List.mem_append_left _ hq
      · rw [List.mem_singleton.1 hq]
        simp
    obtain ⟨qs, hqs, hsub⟩ := hmoment
    rw [List.append_assoc, hqs, hafter] at hbuffer ⊢
    exact ⟨c ^^^ 1, hb.keep hs hf hwrap (fun p hp => hin p (hsub p hp)) hbuffer⟩

/-- `drmModeSetCrtc` succeeds. -/
theorem Buffering.flip (hb : Buffering s scr h c) (hf : Framed s old) {buffer : Buffer}
    (hshows : s.Unwrapped → Shows (scr.after h).mem (s.frame c) (s.stride c).toNat s.width.toNat s.height.toNat
      buffer.data) : Buffering s scr (h ++ [.flip (s.fb c) buffer]) (c ^^^ 1) := by
  have hafter : scr.after (h ++ [.flip (s.fb c) buffer]) =
      { scr.after h with fb := s.fb c, shown := some buffer } := by
    rw [after_append]
    rfl
  refine ⟨?_, ?_, fun hwrap b hbuffer => ?_, fun hwrap => ?_⟩
  · rw [hafter]
    exact (hf.fb_xor c).symm
  · rw [every_snoc]
    exact ⟨hb.unseen, fun a b he => by cases he⟩
  · rw [hafter] at hbuffer ⊢
    obtain rfl := Option.some.inj hbuffer
    rw [xor_xor]
    exact ⟨rfl, hshows hwrap⟩
  · rw [every_snoc]
    refine ⟨hb.faithful hwrap, fun b hbuffer => ?_⟩
    rw [hafter] at hbuffer ⊢
    obtain rfl := Option.some.inj hbuffer
    exact ⟨c, rfl, hshows hwrap⟩

/-- **The step lemma of the renders.** -/
theorem Buffering.step (hb : Buffering s scr h c) (hs : Fitted s) (hf : Framed s old) (buffer : Buffer) (ok : Bool) :
    ∃ c', (rendering.step (s.at c) (buffer, ok)).1 = s.at c' ∧
      Buffering s scr (h ++ (rendering.step (s.at c) (buffer, ok)).2) c' := by
  rw [render_effects]
  by_cases hrefuses : (s.at c).refuses buffer = true
  · rw [if_pos hrefuses, List.append_nil]
    exact ⟨c, rfl, hb⟩
  · rw [if_neg hrefuses]
    have hdraw := hb.draw hs hf buffer
    cases ok with
    | false => exact ⟨c, rfl, hdraw⟩
    | true =>
        refine ⟨c ^^^ 1, rfl, ?_⟩
        show Buffering s scr (h ++ (drawing (s.at c) buffer ++ [.flip (s.fb c) buffer])) (c ^^^ 1)
        rw [← List.append_assoc]
        refine hdraw.flip hf fun hwrap => ?_
        unfold drawing
        rw [after_append, after_pokes]
        have hpitch : 4 * s.width.toNat ≤ (s.stride c).toNat :=
          le_trans (Nat.mul_le_mul_left 4 hs.width) (hf.pitch c)
        exact shows_copyRows (hs.at c).sized hpitch (hwrap c) _ (by simpa using hrefuses)

theorem run_buffering (hs : Fitted s) (hf : Framed s old) (hfb : scr.fb = old) (hshown : scr.shown = none)
    (is : List (Buffer × Bool)) :
    ∃ c, (rendering.run s is).1 = s.at c ∧ Buffering s scr (rendering.run s is).2 c :=
  Machine.run_inv (m := rendering) (I := fun h t => ∃ c, t = s.at c ∧ Buffering s scr h c)
    (fun h t i ⟨c, ht, hb⟩ => by
      rw [ht]
      exact hb.step hs hf i.1 i.2) is [] s ⟨s.current, rfl, buffering_start hf s.current hfb hshown⟩

end Buffering

/-- **Double buffering.** `start` and `setcaps` of a new sink succeeded, and framebuffer `old` is displayed. -/
theorem drmsink_double_buffer (modeName : List Byte) (connId crtcId : U32) (a : StartAnswers Nat) (caps : Caps)
    (b : SetupAnswers Nat) (old : Nat) (mem : Nat → Byte) (s : DrmSink Nat)
    (hself : s = (((DrmSink.zero modeName connId crtcId).start a).self.setcaps caps b).self)
    (hret : (((DrmSink.zero modeName connId crtcId).start a).self.setcaps caps b).ret = true)
    (hf : Framed s old) (is : List (Buffer × Bool)) :
    Every (fun pre e => Unseen s ((Screen.mk mem old none).after pre) e) (rendering.run s is).2 ∧
      s.width = caps.width ∧ s.height = caps.height ∧
      (s.Unwrapped → Every (fun pre e => Faithful s ((Screen.mk mem old none).after (pre ++ [e])))
        (rendering.run s is).2) := by
  obtain ⟨hs, hwidth, hheight⟩ := setcaps_fitted (DrmSink.start_enabled a _) hret
  rw [← hself] at hs hwidth hheight
  obtain ⟨c, -, hb⟩ := @run_buffering s old ⟨mem, old, none⟩ hs hf rfl rfl is
  exact ⟨hb.unseen, hwidth, hheight, hb.faithful⟩

/-! ## A mode of 16 × 16 pixels -/

def smallMode : Drm.ModeInfo := ⟨[], 16, 16, []⟩

def smallCaps : Caps := ⟨16, 16, sixteen_range, sixteen_range⟩

/-- The sink after `start` and `setcaps`, for frames of the given pitch, the second one at `gap`. -/
def smallSetup (pitch : U32) (gap : Nat) : Result Nat (DrmSink Nat) :=
  ((DrmSink.zero [] 1 1).start ⟨some 3, some [some ⟨1, [smallMode]⟩], none, some 4⟩).self.setcaps smallCaps
    ⟨fun i => ⟨some 5, some pitch, some 1, some (i.val * gap), some (i.val + 1)⟩,
      some ⟨6, ⟨1, 0, 0, 0, true, smallMode⟩⟩⟩

/-- A white image. -/
def white : Buffer := ⟨List.replicate 1024 255, by rw [List.length_replicate]; decide⟩

theorem smallSetup_ret (pitch : U32) (gap : Nat) : (smallSetup pitch gap).ret = true := rfl

section Small
variable (pitch : U32) (gap : Nat) (i : Fin DRM_FRAMES)

theorem smallSetup_frame : (smallSetup pitch gap).self.frame i = i.val * gap := by
  match i with
  | 0 => rfl
  | 1 => rfl

theorem smallSetup_stride : (smallSetup pitch gap).self.stride i = pitch := by
  match i with
  | 0 => rfl
  | 1 => rfl

theorem smallSetup_fb : (smallSetup pitch gap).self.fb i = i.val + 1 := by
  match i with
  | 0 => rfl
  | 1 => rfl

end Small

theorem smallSetup_framed {pitch : U32} {gap : Nat} (hpitch : 64 ≤ pitch.toNat) (hgap : 16 * pitch.toNat ≤ gap) :
    Framed (smallSetup pitch gap).self 0 := by
  refine ⟨fun i => ?_, fun a ⟨h₀, h₁⟩ => ?_, ?_, fun i => ?_⟩
  · rw [smallSetup_stride]
    exact hpitch
  · unfold DrmSink.InFrame at h₀ h₁
    rw [smallSetup_frame, smallSetup_stride] at h₀ h₁
    have hvdisplay : (smallSetup pitch gap).self.mode.vdisplay.toNat = 16 := rfl
    rw [hvdisplay] at h₀ h₁
    simp only [Fin.val_zero, Fin.val_one] at h₀ h₁
    omega
  · rw [smallSetup_fb, smallSetup_fb]
    decide
  · rw [smallSetup_fb]
    exact Nat.succ_ne_zero _

theorem drmsink_double_buffer_small :
    Every (fun pre e => Unseen (smallSetup 64 1024).self ((Screen.mk (fun _ => 0) 0 none).after pre) e)
        (rendering.run (smallSetup 64 1024).self [(white, true), (white, false), (white, true)]).2 ∧
      Every (fun pre e => Faithful (smallSetup 64 1024).self ((Screen.mk (fun _ => 0) 0 none).after (pre ++ [e])))
        (rendering.run (smallSetup 64 1024).self [(white, true), (white, false), (white, true)]).2 := by
  have hunwrapped : (smallSetup 64 1024).self.Unwrapped := by
    intro i
    match i with
    | 0 => decide
    | 1 => decide
  obtain ⟨hunseen, -, -, hfaithful⟩ := drmsink_double_buffer [] 1 1 _ smallCaps _ 0 (fun _ => 0)
    (smallSetup 64 1024).self rfl (smallSetup_ret 64 1024) (smallSetup_framed (by decide) (by decide))
    [(white, true), (white, false), (white, true)]
  exact ⟨hunseen, hfaithful hunwrapped⟩

/-- With a pitch of 2^31 bytes, the offset of row 2 is 0: nothing is written from 2^32 on. -/
theorem wide_unwritten {buffer : Buffer} {a : Nat} (ha : 2 ^ 32 ≤ a) :
    ∀ p ∈ pokes ((smallSetup (2 ^ 31) (2 ^ 35)).self.copyRows buffer), p.1 ≠ a := by
  have hsized : (smallSetup (2 ^ 31) (2 ^ 35)).self.toSink.Sized := ⟨by decide, by decide⟩
  intro p hp
  rw [pokes_copyRows] at hp
  obtain ⟨r, hr, j, hj, hp⟩ := mem_strided.1 hp
  have hlength := Nat.lt_of_lt_of_le (List.getElem?_eq_some_iff.1 hj).1 hsized.row_length
  have hwidth : (smallSetup (2 ^ 31) (2 ^ 35)).self.width.toNat = 16 := by decide
  have hheight : (smallSetup (2 ^ 31) (2 ^ 35)).self.height.toNat = 16 := by decide
  rw [hwidth] at hlength
  rw [hheight] at hr
  rw [smallSetup_frame, smallSetup_stride] at hp
  have hcurrent : (smallSetup (2 ^ 31) (2 ^ 35)).self.current = 0 := rfl
  rw [hcurrent] at hp
  have hoffset : ∀ r < 16, (BitVec.ofNat 32 r * 2 ^ 31).toNat ≤ 2 ^ 31 := by decide
  have := hoffset r hr
  simp only [Fin.val_zero] at hp
  omega

theorem not_faithful_wide : (smallSetup (2 ^ 31) (2 ^ 35)).ret = true ∧
    Framed (smallSetup (2 ^ 31) (2 ^ 35)).self 0 ∧
    ¬Every (fun pre e => Faithful (smallSetup (2 ^ 31) (2 ^ 35)).self
        ((Screen.mk (fun _ => 0) 0 none).after (pre ++ [e])))
      (rendering.run (smallSetup (2 ^ 31) (2 ^ 35)).self [(white, true)]).2 := by
  refine ⟨rfl, smallSetup_framed (by decide) (by decide), fun hall => ?_⟩
  have hunwritten := @wide_unwritten white
  have hfb := smallSetup_fb (2 ^ 31) (2 ^ 35)
  have hframe := smallSetup_frame (2 ^ 31) (2 ^ 35)
  have hstride := smallSetup_stride (2 ^ 31) (2 ^ 35)
  have hwidth : (smallSetup (2 ^ 31) (2 ^ 35)).self.width.toNat = 16 := by decide
  have hheight : (smallSetup (2 ^ 31) (2 ^ 35)).self.height.toNat = 16 := by decide
  have hcurrent : (smallSetup (2 ^ 31) (2 ^ 35)).self.current = 0 := rfl
  have hrefuses : ¬(smallSetup (2 ^ 31) (2 ^ 35)).self.refuses white = true := by
    rw [Sink.Sized.refuses_iff ⟨by decide, by decide⟩, hwidth, hheight]
    show ¬(List.replicate 1024 255).length < _
    rw [List.length_replicate]
    decide
  generalize (smallSetup (2 ^ 31) (2 ^ 35)).self = s at *
  rw [Machine.run_cons, Machine.run_nil, List.append_nil, render_effects, if_neg hrefuses] at hall
  -- the moment right after `drmModeSetCrtc`
  have hflip : Faithful s ((Screen.mk (fun _ => 0) 0 none).after
      (drawing s white ++ [.flip (s.fb s.current) white])) := hall (drawing s white) _ [] rfl
  have hafter : (Screen.mk (fun _ => 0) 0 none).after (drawing s white ++ [.flip (s.fb s.current) white]) =
      ⟨write (fun _ => 0) (pokes (s.copyRows white)), s.fb s.current, some white⟩ := by
    unfold drawing
    rw [after_append, after_pokes]
    rfl
  rw [hafter] at hflip
  obtain ⟨i, hi, hshows⟩ := hflip white rfl
  have hi : s.fb s.current = s.fb i := hi
  rw [hfb, hfb, hcurrent] at hi
  obtain rfl : i = 0 := Fin.ext (by simpa using hi.symm)
  have hcell := hshows 2 (by omega) 0 (by omega) 0 (by omega)
  dsimp only at hcell
  rw [write_of_notMem (hunwritten (by rw [hframe, hstride]; decide)), hwidth] at hcell
  revert hcell
  show ¬(List.replicate 1024 (255 : Byte))[128]? = some 0
  rw [List.getElem?_replicate_of_lt (by decide)]
  decide

end SysSnippets.Gst
