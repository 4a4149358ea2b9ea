import SysSnippets.Gst.Caps

/-!
# The copy of an image into a frame with a stride

* `Exact` : what the 32-bit expressions of `setup` and `render` must be;
* `Copied` : what `render` does with a buffer, to the frame and outside of it;
* `copied` : a sink that is set up does so; `Latching.setUp` : a sink stays set up;
* `strided_copy` : both sinks, from a `setcaps` that succeeds on.
-/

namespace SysSnippets.Gst
open SysSnippets.Lib

/-- No 32-bit expression wraps: the size of an image and of its rows, where a row is read and written, and the size
in the 16.16 format. -/
structure Exact (s : Sink Nat) : Prop where
  size : (4 * s.width * s.height).toNat = 4 * s.width.toNat * s.height.toNat
  row : (4 * s.width).toNat = 4 * s.width.toNat
  four : ∀ y < s.height.toNat, (4 * BitVec.ofNat 32 y).toNat = 4 * y
  source : ∀ y < s.height.toNat, (4 * BitVec.ofNat 32 y * s.width).toNat = 4 * y * s.width.toNat
  target : ∀ y < s.height.toNat, (BitVec.ofNat 32 y * s.stride s.current).toNat = y * (s.stride s.current).toNat
  scaled : (s.width <<< 16).toNat = s.width.toNat * 2 ^ 16 ∧ (s.height <<< 16).toNat = s.height.toNat * 2 ^ 16

/-- What `render` of `buffer` does on a sink for images of `width` × `height`, with frames of `rows` rows. -/
structure Copied {S : Type} (s : Sink Nat) (width height rows : Nat) (buffer : Buffer) (r : Result Nat S) : Prop where
  refused : buffer.data.length < 4 * width * height → r.ret = false ∧ r.calls = []
  cells : 4 * width * height ≤ buffer.data.length → ∀ mem, ∀ y < height, ∀ k < 4 * width,
    buffer.data[4 * y * width + k]? =
      some (write mem (pokes r.calls) (s.frame s.current + y * (s.stride s.current).toNat + k))
  others : ∀ mem a, (∀ y < height, ∀ k < 4 * width, a ≠ s.frame s.current + y * (s.stride s.current).toNat + k) →
    write mem (pokes r.calls) a = mem a
  reads : 4 * width * height ≤ buffer.data.length → ∀ y < height,
    (4 * BitVec.ofNat 32 y * s.width).toNat + (4 * s.width).toNat ≤ buffer.data.length
  writes : ∀ p ∈ pokes r.calls, s.frame s.current ≤ p.1 ∧
    p.1 < s.frame s.current + (s.stride s.current).toNat * rows
  exact : Exact s

/-! ## A sink that is set up -/

section Copied
variable {s : Sink Nat} {caps : Caps} {buffer : Buffer}

theorem SetUp.exact (h : SetUp s caps) : Exact s := by
  have hsized := h.sized
  have hwidth := hsized.width
  have hheight := hsized.height
  have hprod : s.width.toNat * s.height.toNat ≤ 4096 * 4096 := Nat.mul_le_mul hwidth hheight
  refine ⟨?_, hsized.row_size, fun y hy => ?_, fun y hy => hsized.row_start hy,
    fun y hy => offset_eq (h.wrap s.current) hheight hy, ?_, ?_⟩
  · rw [BitVec.toNat_mul, hsized.row_size, Nat.mod_eq_of_lt]
    rw [Nat.mul_assoc]
    omega
  · rw [BitVec.toNat_mul, BitVec.toNat_ofNat]
    show 4 * (y % 2 ^ 32) % 2 ^ 32 = 4 * y
    omega
  · rw [BitVec.toNat_shiftLeft, Nat.shiftLeft_eq]
    omega
  · rw [BitVec.toNat_shiftLeft, Nat.shiftLeft_eq]
    omega

/-- A cell of the image in the frame. -/
theorem mem_pokes_copyRows (h : SetUp s caps) {p : Nat × Byte} (hp : p ∈ pokes (s.copyRows buffer)) :
    ∃ y < s.height.toNat, ∃ k < 4 * s.width.toNat,
      p.1 = s.frame s.current + y * (s.stride s.current).toNat + k := by
  rw [pokes_copyRows, strided_congr fun y hy => offset_eq (h.wrap s.current) h.sized.height hy] at hp
  obtain ⟨y, hy, k, hk, hp⟩ := mem_strided.1 hp
  exact ⟨y, hy, k, Nat.lt_of_lt_of_le (List.getElem?_eq_some_iff.1 hk).1 h.sized.row_length, hp⟩

theorem row_le (width : Nat) {height y : Nat} (hy : y < height) : 4 * y * width + 4 * width ≤ 4 * width * height := by
  have hle := Nat.mul_le_mul_right (4 * width) (show y + 1 ≤ height from hy)
  rw [Nat.succ_mul, Nat.mul_comm height, Nat.mul_left_comm] at hle
  rwa [Nat.mul_assoc 4 y]

theorem copied (buffer : Buffer) {S : Type} (h : SetUp s caps) (rows : Nat) (hrows : s.height.toNat ≤ rows) {r : Result Nat S}
    (hrefused : s.refuses buffer = true → r.ret = false ∧ r.calls = [])
    (hshown : s.refuses buffer = false → pokes r.calls = pokes (s.copyRows buffer)) :
    Copied s s.width.toNat s.height.toNat rows buffer r := by
  have hsized := h.sized
  have hrefuses : s.refuses buffer = true ↔ buffer.data.length < 4 * s.width.toNat * s.height.toNat := by
    rw [hsized.refuses_iff, Nat.mul_assoc]
  -- whether refused or not, only cells of the image are written to
  have hcells : ∀ p ∈ pokes r.calls, ∃ y < s.height.toNat, ∃ k < 4 * s.width.toNat,
      p.1 = s.frame s.current + y * (s.stride s.current).toNat + k := by
    intro p hp
    cases hr : s.refuses buffer with
    | true =>
        rw [(hrefused hr).2] at hp
        cases hp
    | false =>
        rw [hshown hr] at hp
        exact mem_pokes_copyRows h hp
  refine ⟨fun hsmall => hrefused (hrefuses.2 hsmall), fun hlarge mem y hy k hk => ?_, fun mem a ha => ?_,
    fun hlarge y hy => ?_, fun p hp => ?_, h.exact⟩
  · have hbound := row_le s.width.toNat hy
    have hin := List.getElem?_eq_getElem (show 4 * y * s.width.toNat + k < buffer.data.length by omega)
    rw [hshown (by rw [← Bool.not_eq_true, hrefuses]; omega), hin]
    exact congrArg some (cell_copyRows hsized (h.pitch s.current) (h.wrap s.current) mem hy hk hin).symm
  · apply write_of_notMem
    intro p hp heq
    obtain ⟨y, hy, k, hk, hcell⟩ := hcells p hp
    exact ha y hy k hk (heq.symm.trans hcell)
  · rw [hsized.row_start hy, hsized.row_size]
    exact le_trans (row_le _ hy) hlarge
  · obtain ⟨y, hy, k, hk, hcell⟩ := hcells p hp
    have hpitch := h.pitch s.current
    have hle := Nat.mul_le_mul_right (s.stride s.current).toNat (show y + 1 ≤ rows by omega)
    rw [Nat.succ_mul, Nat.mul_comm rows] at hle
    omega

end Copied

/-! ## Calls after it -/

section Run
variable {S : Type} {K : BaseSinkClass Nat S} {base : S → Sink Nat} {Ok : S → Prop}
  {opens : Caps → SetupAnswers Nat → Bool} {request : Caps → Nat × Nat} {caps : Caps}

/-- The sink after some calls. -/
def BaseSinkClass.after (K : BaseSinkClass Nat S) (s : S) (cs : List (BaseCall Nat)) : S :=
  (K.negotiating.run ⟨s, none⟩ cs).1.sink

/-- A sink that is set up stays so, with the frames it has. -/
theorem BaseSinkClass.Latching.setUp (hK : K.Latching base Ok opens request) {s : S} (hs : Ok s)
    (hset : SetUp (base s) caps) (cs : List (BaseCall Nat)) :
    Ok (K.after s cs) ∧ SetUp (base (K.after s cs)) caps := by
  refine K.negotiating.run_inv (I := fun _ w => Ok w.sink ∧ SetUp (base w.sink) caps) (fun _ w c hw => ?_) cs []
    ⟨s, none⟩ ⟨hs, hset⟩
  obtain ⟨hok, hset⟩ := hw
  cases c with
  | setCaps caps' a =>
      show Ok (K.setCaps w.sink caps' a).self ∧ SetUp (base (K.setCaps w.sink caps' a).self) caps
      rw [hK.latched w.sink caps' a hok hset.enabled]
      exact ⟨hok, hset⟩
  | render buffer ok =>
      show Ok (K.render w.sink buffer ok).self ∧ SetUp (base (K.render w.sink buffer ok).self) caps
      obtain ⟨hok', c, hself⟩ := hK.rendered hok buffer ok
      rw [hself]
      exact ⟨hok', hset.enabled, hset.width, hset.height, hset.pitch, hset.wrap⟩

/-- From a `setcaps` that sets the frames up, every render copies. -/
theorem BaseSinkClass.Latching.copies (hK : K.Latching base Ok opens request) {s : S} (hs : Ok s)
    (henabled : (base s).enabled = false) {a : SetupAnswers Nat} (hret : (K.setCaps s caps a).ret = true)
    (hpitch : a.Pitched (request caps).1 (request caps).2) (hfits : opens caps a = true → caps.height.toNat ≤ (request caps).2)
    (cs : List (BaseCall Nat)) (buffer : Buffer) (ok : Bool) :
    Copied (base (K.after (K.setCaps s caps a).self cs)) caps.width.toNat caps.height.toNat (request caps).2 buffer
      (K.render (K.after (K.setCaps s caps a).self cs) buffer ok) := by
  have hopens : opens caps a = true := by
    by_contra hshut
    rw [Bool.not_eq_true] at hshut
    rw [(hK.shut s caps a hs henabled hshut).1] at hret
    cases hret
  obtain ⟨-, hok, hset⟩ := hK.opened s caps a hs henabled hopens hpitch
  obtain ⟨hok, hset⟩ := hK.setUp hok hset cs
  have hcopied := copied buffer
    (r := K.render (K.after (K.setCaps s caps a).self cs) buffer ok) hset (request caps).2 (by rw [hset.height]; exact hfits hopens)
    (fun hrefuses => by rw [hK.refused _ buffer ok hok hrefuses]; exact ⟨rfl, rfl⟩)
    (fun hrefuses => (hK.shown _ buffer ok hok hrefuses).2.1)
  rwa [hset.width, hset.height] at hcopied

end Run

/-- **The strided copy of both sinks.** Once `setcaps` has set the frames up, with a pitch of at least one row of the
frame, every later render, whatever came before and whether or not its frame can be shown, refuses a buffer that is too
small without a call, and otherwise copies the image into the current frame and touches nothing else. -/
theorem strided_copy (caps : Caps) (a : SetupAnswers Nat) (cs : List (BaseCall Nat)) (buffer : Buffer) (ok : Bool) :
    (∀ s : DrmSink Nat, s.enabled = false → (drmsink.setCaps s caps a).ret = true →
      a.Pitched s.mode.hdisplay.toNat s.mode.vdisplay.toNat →
      let s' := drmsink.after (drmsink.setCaps s caps a).self cs
      Copied s'.toSink caps.width.toNat caps.height.toNat s.mode.vdisplay.toNat buffer (drmsink.render s' buffer ok)) ∧
    (∀ s : DrmPlaneSink Nat, s.enabled = false → (drmplanesink.setCaps s caps a).ret = true →
      a.Pitched caps.width.toNat caps.height.toNat →
      let s' := drmplanesink.after (drmplanesink.setCaps s caps a).self cs
      Copied s'.toSink caps.width.toNat caps.height.toNat caps.height.toNat buffer
        (drmplanesink.render s' buffer ok)) := by
  constructor
  · intro s henabled hret hpitch
    refine (drmsink_latching s.mode).copies rfl henabled hret hpitch (fun hopens => ?_) cs buffer ok
    unfold DrmSink.opens at hopens
    exact (of_decide_eq_true hopens).2.1
  · intro s henabled hret hpitch
    exact drmplanesink_latching.copies trivial henabled hret hpitch (fun _ => le_refl _) cs buffer ok

/-- An image of 32 × 16 pixels. -/
def solid : Buffer := ⟨List.replicate (4 * (32 * 16)) 255, by rw [List.length_replicate]; decide⟩

/-- A render that is refused, and one whose frame cannot be shown. -/
def failing : List (BaseCall Nat) := [.render ⟨[], by decide⟩ true, .render solid false]

theorem strided_copy_solid :
    (let s := (drmsink.setCaps ((DrmSink.zero [] 1 1).start square).self landscape granted).self
     Copied (drmsink.after s failing).toSink 32 16 32 solid (drmsink.render (drmsink.after s failing) solid true)) ∧
    (let s := (drmplanesink.setCaps ((DrmPlaneSink.zero 4 1 0 0).start square).self landscape granted).self
     Copied (drmplanesink.after s failing).toSink 32 16 16 solid
       (drmplanesink.render (drmplanesink.after s failing) solid true)) := by
  have h := strided_copy landscape granted failing solid true
  constructor
  · exact h.1 ((DrmSink.zero [] 1 1).start square).self rfl (by decide) (granted_pitched (by decide) (by decide))
  · exact h.2 ((DrmPlaneSink.zero 4 1 0 0).start square).self rfl (by decide)
      (granted_pitched (by decide) (by decide))

end SysSnippets.Gst
