import SysSnippets.Lib.Machine
import SysSnippets.Gst.Frame

/-!
# Caps that change

Once its frames are set up a sink accepts all caps, and goes on with the first ones.

* `BaseSinkClass.Negotiates` : in a run of `setcaps` and `render`, every render interprets its buffer with the
  caps accepted last;
* `Steady` : the condition on the calls: no render comes after caps of another size than the first ones that
  set the frames up;
* `SetUp.interprets_iff` : what a sink that is set up for some caps makes of a buffer for others;
* `BaseSinkClass.Latching` : what the class functions of both sinks do (`drmsink_latching`,
  `drmplanesink_latching`);
* `caps_iff` : the exact condition for both sinks.
-/

namespace SysSnippets.Gst
open SysSnippets.Lib

/-- A sink, and the caps of the last `setcaps` that returned TRUE. -/
structure Negotiation (S : Type) where
  sink : S
  caps : Option Caps

section Class
variable {S : Type} (K : BaseSinkClass Nat S) (base : S → Sink Nat)

/-- A sink that is called; it shows what each render finds. -/
def BaseSinkClass.negotiating : Machine (Negotiation S) (BaseCall Nat) (Negotiation S) where
  step w
    | .setCaps caps a =>
        let r := K.setCaps w.sink caps a
        (⟨r.self, if r.ret then some caps else w.caps⟩, [])
    | .render buffer ok => (⟨(K.render w.sink buffer ok).self, w.caps⟩, [w])

/-- A buffer of the size of the caps is accepted, and its pixels are placed where they belong; `ok` is the
result of showing the frame. -/
def BaseSinkClass.Interprets (s : S) (caps : Caps) : Prop :=
  ∀ buffer : Buffer, buffer.data.length = 4 * (caps.width.toNat * caps.height.toNat) → ∀ ok mem,
    (K.render s buffer ok).ret = ok ∧
      Shows (write mem (pokes (K.render s buffer ok).calls)) ((base s).frame (base s).current)
        ((base s).stride (base s).current).toNat caps.width.toNat caps.height.toNat buffer.data

def BaseSinkClass.Negotiates (s : S) (cs : List (BaseCall Nat)) : Prop :=
  ∀ w ∈ (K.negotiating.run ⟨s, none⟩ cs).2, ∀ caps, w.caps = some caps → K.Interprets base w.sink caps

end Class

/-! ## The condition -/

def BaseCall.caps : BaseCall Nat → Option Caps
  | .setCaps caps _ => some caps
  | .render _ _ => none

/-- The caps that set the frames up. -/
def opening (opens : Caps → SetupAnswers Nat → Bool) (cs : List (BaseCall Nat)) : Option Caps :=
  cs.findSome? fun
    | .setCaps caps a => if opens caps a then some caps else none
    | .render _ _ => none

def latest (cs : List (BaseCall Nat)) : Option Caps := (cs.filterMap BaseCall.caps).getLast?

/-- The latest caps have the size of those that set the frames up. -/
def Settled (opens : Caps → SetupAnswers Nat → Bool) (cs : List (BaseCall Nat)) : Prop :=
  ∀ caps₀ caps, opening opens cs = some caps₀ → latest cs = some caps →
    caps.width = caps₀.width ∧ caps.height = caps₀.height

def Steady (opens : Caps → SetupAnswers Nat → Bool) (cs : List (BaseCall Nat)) : Prop :=
  Every (fun pre c => c.caps = none → Settled opens pre) cs

/-- `drmsink`: the image fits the mode, and all calls succeed. -/
def DrmSink.opens (mode : Drm.ModeInfo) (caps : Caps) (a : SetupAnswers Nat) : Bool :=
  decide (caps.width.toNat ≤ mode.hdisplay.toNat ∧ caps.height.toNat ≤ mode.vdisplay.toNat ∧
    (∀ i, (a.frames i).Complete) ∧ a.crtc.isSome)

/-- `drmplanesink`: all calls succeed. -/
def DrmPlaneSink.opens (_ : Caps) (a : SetupAnswers Nat) : Bool := decide (∀ i, (a.frames i).Complete)

/-- The pitches of frames of a size: a row fits, and the size of a frame fits into 32 bits. -/
def SetupAnswers.Pitched (a : SetupAnswers Nat) (width height : Nat) : Prop :=
  ∀ i stride, (a.frames i).pitch = some stride → 4 * width ≤ stride.toNat ∧ height * stride.toNat < 2 ^ 32

instance (opens : Caps → SetupAnswers Nat → Bool) (cs : List (BaseCall Nat)) : Decidable (Settled opens cs) :=
  decidable_of_iff
    (∀ caps₀ ∈ opening opens cs, ∀ caps ∈ latest cs, caps.width = caps₀.width ∧ caps.height = caps₀.height)
    ⟨fun h caps₀ caps h₀ h₁ => h caps₀ h₀ caps h₁, fun h caps₀ h₀ caps h₁ => h caps₀ caps h₀ h₁⟩

instance (opens : Caps → SetupAnswers Nat → Bool) (cs : List (BaseCall Nat)) : Decidable (Steady opens cs) :=
  inferInstanceAs (Decidable (Every _ cs))

section Condition
variable {opens : Caps → SetupAnswers Nat → Bool} {cs : List (BaseCall Nat)}

theorem opening_setCaps (caps : Caps) (a : SetupAnswers Nat) : opening opens (cs ++ [.setCaps caps a]) =
    (opening opens cs).or (if opens caps a then some caps else none) := by
  unfold opening
  rw [List.findSome?_append]
  by_cases h : opens caps a = true
  · simp [h]
  · simp [h]

theorem opening_render (buffer : Buffer) (ok : Bool) : opening opens (cs ++ [.render buffer ok]) = opening opens cs := by
  unfold opening
  rw [List.findSome?_append]
  simp

theorem latest_setCaps (caps : Caps) (a : SetupAnswers Nat) : latest (cs ++ [.setCaps caps a]) = some caps := by
  unfold latest
  rw [List.filterMap_append]
  exact List.getLast?_concat

theorem latest_render (buffer : Buffer) (ok : Bool) : latest (cs ++ [.render buffer ok]) = latest cs := by
  unfold latest
  rw [List.filterMap_append]
  exact congrArg List.getLast? (List.append_nil _)

end Condition

/-! ## A sink that is set up -/

/-- A sink whose frames are set up for some caps. -/
structure SetUp (s : Sink Nat) (caps : Caps) : Prop where
  enabled : s.enabled = true
  width : s.width = caps.width
  height : s.height = caps.height
  pitch : ∀ i, 4 * s.width.toNat ≤ (s.stride i).toNat
  wrap : ∀ i, (s.height.toNat - 1) * (s.stride i).toNat < 2 ^ 32

section SetUp
variable {s : Sink Nat} {caps₀ caps : Caps}

theorem SetUp.sized (h : SetUp s caps₀) : s.Sized := by
  refine ⟨?_, ?_⟩
  · rw [h.width]
    exact caps₀.width_range.2
  · rw [h.height]
    exact caps₀.height_range.2

/-- A buffer with a single 1 in it. -/
def probe (n i : Nat) (hn : n < 2 ^ 32) : Buffer :=
  ⟨(List.range n).map fun j => if j = i then 1 else 0, by rw [List.length_map, List.length_range]; exact hn⟩

theorem getElem?_probe {n i j : Nat} (hn : n < 2 ^ 32) (hj : j < n) :
    (probe n i hn).data[j]? = some (if j = i then 1 else 0) := by
  unfold probe
  rw [List.getElem?_map, List.getElem?_range hj]
  rfl

theorem length_probe {n i : Nat} (hn : n < 2 ^ 32) : (probe n i hn).data.length = n := by
  unfold probe
  rw [List.length_map, List.length_range]

/-- What a copy places: the image of the caps, for every buffer of its size. -/
def Places (s : Sink Nat) (caps : Caps) : Prop :=
  ∀ buffer : Buffer, buffer.data.length = 4 * (caps.width.toNat * caps.height.toNat) →
    s.refuses buffer = false ∧ ∀ mem, Shows (write mem (pokes (s.copyRows buffer))) (s.frame s.current)
      (s.stride s.current).toNat caps.width.toNat caps.height.toNat buffer.data

theorem Caps.size_lt (caps : Caps) : 4 * (caps.width.toNat * caps.height.toNat) < 2 ^ 32 := by
  have := Nat.mul_le_mul caps.width_range.2 caps.height_range.2
  omega

/-- The copy is not larger than the image. -/
theorem SetUp.le_of_places (h : SetUp s caps₀) (hplaces : Places s caps) :
    s.width.toNat * s.height.toNat ≤ caps.width.toNat * caps.height.toNat := by
  obtain ⟨hrefuses, -⟩ := hplaces (probe _ 0 caps.size_lt) (length_probe _)
  rw [← Bool.not_eq_true, h.sized.refuses_iff, length_probe] at hrefuses
  omega

/-- A copy of another width starts row 1 at the wrong pixel. -/
theorem SetUp.width_of_places (h : SetUp s caps₀) (hplaces : Places s caps) : caps.width = s.width := by
  by_contra hne
  have hne : 4 * s.width.toNat ≠ 4 * caps.width.toNat := fun he => hne (BitVec.eq_of_toNat_eq (by omega))
  have hwidth := caps.width_range
  have hheight := caps.height_range
  have hwidth₀ := caps₀.width_range
  have hheight₀ := caps₀.height_range
  rw [← h.width] at hwidth₀
  rw [← h.height] at hheight₀
  have hle := h.le_of_places hplaces
  have hrow₀ : s.width.toNat * 2 ≤ s.width.toNat * s.height.toNat := Nat.mul_le_mul_left _ (by omega)
  have hrow : caps.width.toNat * 2 ≤ caps.width.toNat * caps.height.toNat := Nat.mul_le_mul_left _ (by omega)
  obtain ⟨-, hshows⟩ := hplaces (probe _ (4 * caps.width.toNat) caps.size_lt) (length_probe _)
  have hshown := hshows (fun _ => 0) 1 (by omega) 0 (by omega) 0 (by omega)
  have hcell := cell_copyRows h.sized (h.pitch s.current) (h.wrap s.current) (fun _ => 0)
    (show 1 < s.height.toNat by omega) (show 0 < 4 * s.width.toNat by omega)
    (getElem?_probe (i := 4 * caps.width.toNat) caps.size_lt (by omega))
  simp only [Nat.mul_zero, Nat.add_zero, Nat.mul_one] at hshown hcell
  rw [hcell, Nat.one_mul, getElem?_probe _ (by omega), if_pos rfl, if_neg hne] at hshown
  exact absurd hshown (by decide)

/-- The rows below the last one copied stay as they were. -/
theorem SetUp.height_of_places (h : SetUp s caps₀) (hplaces : Places s caps) : caps.height = s.height := by
  have hwidth := h.width_of_places hplaces
  have hle := h.le_of_places hplaces
  have hrange := caps.width_range
  rw [hwidth] at hle hrange
  have hle := Nat.le_of_mul_le_mul_left hle (by omega)
  by_contra hne
  have hlt : s.height.toNat < caps.height.toNat :=
    lt_of_le_of_ne hle fun he => hne (BitVec.eq_of_toNat_eq he.symm)
  have hrow : (s.height.toNat + 1) * caps.width.toNat ≤ caps.width.toNat * caps.height.toNat := by
    rw [Nat.mul_comm caps.width.toNat]
    exact Nat.mul_le_mul_right _ hlt
  rw [Nat.succ_mul] at hrow
  obtain ⟨-, hshows⟩ := hplaces (probe _ (4 * (s.height.toNat * caps.width.toNat)) caps.size_lt) (length_probe _)
  have hshown := hshows (fun _ => 0) s.height.toNat hlt 0 (by rw [hwidth]; omega) 0 (by omega)
  have hcell := cell_below (probe _ (4 * (s.height.toNat * caps.width.toNat)) caps.size_lt) h.sized
    (h.pitch s.current) (h.wrap s.current) (fun _ => 0) (le_refl _)
  simp only [Nat.mul_zero, Nat.add_zero] at hshown hcell
  rw [hcell, getElem?_probe _ (by rw [hwidth] at hrow ⊢; omega), if_pos rfl] at hshown
  exact absurd hshown (by decide)

/-- **What a sink makes of other caps.** -/
theorem SetUp.places_iff (h : SetUp s caps₀) :
    Places s caps ↔ caps.width = caps₀.width ∧ caps.height = caps₀.height := by
  rw [← h.width, ← h.height]
  constructor
  · intro hplaces
    exact ⟨h.width_of_places hplaces, h.height_of_places hplaces⟩
  · rintro ⟨hwidth, hheight⟩ buffer hbuffer
    have hrefuses : s.refuses buffer = false := by
      rw [← Bool.not_eq_true, h.sized.refuses_iff, hbuffer, hwidth, hheight]
      exact lt_irrefl _
    refine ⟨hrefuses, fun mem => ?_⟩
    rw [hwidth, hheight]
    exact shows_copyRows h.sized (h.pitch s.current) (h.wrap s.current) mem hrefuses

end SetUp

/-! ## The class functions -/

/-- A class whose first complete `setcaps` settles the size. `Ok` is kept by all functions; frames are
requested in the size `request`. -/
structure BaseSinkClass.Latching {S : Type} (K : BaseSinkClass Nat S) (base : S → Sink Nat) (Ok : S → Prop)
    (opens : Caps → SetupAnswers Nat → Bool) (request : Caps → Nat × Nat) : Prop where
  latched : ∀ s caps a, Ok s → (base s).enabled = true → K.setCaps s caps a = ⟨true, s, []⟩
  shut : ∀ s caps a, Ok s → (base s).enabled = false → opens caps a = false →
    (K.setCaps s caps a).ret = false ∧ Ok (K.setCaps s caps a).self ∧
      (base (K.setCaps s caps a).self).enabled = false
  opened : ∀ s caps a, Ok s → (base s).enabled = false → opens caps a = true →
    a.Pitched (request caps).1 (request caps).2 →
    (K.setCaps s caps a).ret = true ∧ Ok (K.setCaps s caps a).self ∧ SetUp (base (K.setCaps s caps a).self) caps
  refused : ∀ s buffer ok, Ok s → (base s).refuses buffer = true → K.render s buffer ok = ⟨false, s, []⟩
  shown : ∀ s buffer ok, Ok s → (base s).refuses buffer = false →
    (K.render s buffer ok).ret = ok ∧ pokes (K.render s buffer ok).calls = pokes ((base s).copyRows buffer) ∧
      Ok (K.render s buffer ok).self ∧ ∃ c, base (K.render s buffer ok).self = { base s with current := c }

/-- The calls with which a copy ends write nothing. -/
theorem pokes_append_quiet {calls d : List (Call Nat)} (hd : ∀ c ∈ d, c.pokes = []) :
    pokes (calls ++ d) = pokes calls := by
  unfold pokes
  rw [List.flatMap_append, List.flatMap_eq_nil_iff.2 hd, List.append_nil]

theorem forall_frames {P : Fin DRM_FRAMES → Prop} :
    (∀ i ∈ ([0, 1] : List (Fin DRM_FRAMES)), P i) ↔ ∀ i, P i := by
  rw [List.forall_mem_cons, List.forall_mem_singleton]
  exact Fin.forall_fin_two.symm

/-- A sink whose frames were all set up. -/
theorem setUp_frames (s : Sink Nat) (width height : U32) {caps : Caps} {a : SetupAnswers Nat}
    (hwidth : s.width = caps.width) (hheight : s.height = caps.height) (ha : ∀ i, (a.frames i).Complete)
    (hpitch : a.Pitched width.toNat height.toNat) (hw : caps.width.toNat ≤ width.toNat)
    (hh : caps.height.toNat ≤ height.toNat) (c : Fin DRM_FRAMES) :
    SetUp { (Sink.setupFrames width height a.frames [0, 1] s).self with enabled := true, current := c } caps := by
  obtain ⟨-, hwidth', hheight'⟩ := setupFrames_kept s width height a.frames [0, 1]
  have hstride : ∀ i, (a.frames i).pitch = some ((Sink.setupFrames width height a.frames [0, 1] s).self.stride i) :=
    forall_frames.1 fun i hi => setupFrames_stride s width height (fun j _ => ha j) (Or.inl hi)
  rw [hwidth] at hwidth'
  rw [hheight] at hheight'
  refine ⟨rfl, hwidth', hheight', fun i => ?_, fun i => ?_⟩
  · show 4 * (Sink.setupFrames width height a.frames [0, 1] s).self.width.toNat ≤ _
    have := (hpitch i _ (hstride i)).1
    rw [hwidth']
    exact le_trans (Nat.mul_le_mul_left 4 hw) this
  · show ((Sink.setupFrames width height a.frames [0, 1] s).self.height.toNat - 1) * _ < _
    rw [hheight']
    exact lt_of_le_of_lt (Nat.mul_le_mul_right _ (by omega)) (hpitch i _ (hstride i)).2

theorem drmsink_latching (mode : Drm.ModeInfo) : drmsink.Latching DrmSink.toSink (fun s => s.mode = mode)
    (DrmSink.opens mode) (fun _ => (mode.hdisplay.toNat, mode.vdisplay.toNat)) where
  latched s caps a _ henabled := by
    show s.setcaps caps a = _
    unfold DrmSink.setcaps
    rw [if_pos henabled]
  shut s caps a hmode henabled hopens := by
    show (s.setcaps caps a).ret = false ∧ (s.setcaps caps a).self.mode = mode ∧
      (s.setcaps caps a).self.enabled = false
    unfold DrmSink.setcaps DrmSink.setup
    rw [if_neg (by rw [henabled]; exact Bool.false_ne_true)]
    by_cases hbig : s.mode.hdisplay.toNat < caps.width.toNat ∨ s.mode.vdisplay.toNat < caps.height.toNat
    · rw [if_pos hbig]
      exact ⟨rfl, hmode, henabled⟩
    · rw [if_neg hbig]
      dsimp only
      have hret := setupFrames_ret { s.toSink with width := caps.width, height := caps.height }
        (s.mode.hdisplay.setWidth 32) (s.mode.vdisplay.setWidth 32) a.frames [0, 1]
      have hkept := setupFrames_kept { s.toSink with width := caps.width, height := caps.height }
        (s.mode.hdisplay.setWidth 32) (s.mode.vdisplay.setWidth 32) a.frames [0, 1]
      rw [forall_frames] at hret
      generalize Sink.setupFrames _ _ a.frames [0, 1] _ = r at hret hkept
      by_cases hr : r.ret = true
      · rw [if_pos hr]
        cases hcrtc : a.crtc with
        | none => exact ⟨rfl, hmode, hkept.1.trans henabled⟩
        | some crtc =>
            unfold DrmSink.opens at hopens
            rw [decide_eq_false_iff_not, ← hmode] at hopens
            exact absurd ⟨by omega, by omega, hret.1 hr, by rw [hcrtc]; rfl⟩ hopens
      · rw [if_neg hr]
        exact ⟨rfl, hmode, hkept.1.trans henabled⟩
  opened s caps a hmode henabled hopens hpitch := by
    unfold DrmSink.opens at hopens
    rw [decide_eq_true_eq, ← hmode] at hopens
    rw [← hmode] at hpitch
    obtain ⟨hwidth, hheight, hframes, hcrtc⟩ := hopens
    obtain ⟨crtc, hcrtc⟩ := Option.isSome_iff_exists.1 hcrtc
    have hret := (setupFrames_ret { s.toSink with width := caps.width, height := caps.height }
      (s.mode.hdisplay.setWidth 32) (s.mode.vdisplay.setWidth 32) a.frames [0, 1]).2 fun i _ => hframes i
    have hhdisplay : (s.mode.hdisplay.setWidth 32).toNat = s.mode.hdisplay.toNat :=
      BitVec.toNat_setWidth_of_le (by decide)
    have hvdisplay : (s.mode.vdisplay.setWidth 32).toNat = s.mode.vdisplay.toNat :=
      BitVec.toNat_setWidth_of_le (by decide)
    have hset := setUp_frames { s.toSink with width := caps.width, height := caps.height }
      (s.mode.hdisplay.setWidth 32) (s.mode.vdisplay.setWidth 32) rfl rfl hframes
      (by rw [hhdisplay, hvdisplay]; exact hpitch) (by rw [hhdisplay]; exact hwidth) (by rw [hvdisplay]; exact hheight) 0
    show (s.setcaps caps a).ret = true ∧ (s.setcaps caps a).self.mode = mode ∧ SetUp (s.setcaps caps a).self.toSink caps
    unfold DrmSink.setcaps DrmSink.setup
    rw [if_neg (by rw [henabled]; exact Bool.false_ne_true), if_neg (by omega)]
    dsimp only
    rw [if_pos hret, hcrtc]
    exact ⟨rfl, hmode, hset⟩
  refused s buffer ok _ hrefuses := by
    show s.render buffer ok = _
    unfold DrmSink.render
    rw [if_pos hrefuses]
  shown s buffer ok hmode hrefuses := by
    show (s.render buffer ok).ret = ok ∧ pokes (s.render buffer ok).calls = _ ∧ (s.render buffer ok).self.mode = mode ∧
      ∃ c, (s.render buffer ok).self.toSink = _
    unfold DrmSink.render
    rw [if_neg (by rw [hrefuses]; exact Bool.false_ne_true)]
    cases ok with
    | true =>
        refine ⟨rfl, ?_, hmode, s.current ^^^ 1, rfl⟩
        show pokes (s.copyRows buffer ++ [_] ++ [_]) = _
        rw [pokes_append_quiet (by simp [Call.pokes]), pokes_append_quiet (by simp [Call.pokes])]
    | false =>
        refine ⟨rfl, ?_, hmode, s.current, rfl⟩
        show pokes (s.copyRows buffer ++ [_]) = _
        rw [pokes_append_quiet (by simp [Call.pokes])]

theorem drmplanesink_latching : drmplanesink.Latching DrmPlaneSink.toSink (fun _ => True) DrmPlaneSink.opens
    (fun caps => (caps.width.toNat, caps.height.toNat)) where
  latched s caps a _ henabled := by
    show s.setcaps caps a = _
    unfold DrmPlaneSink.setcaps
    rw [if_pos henabled]
  shut s caps a _ henabled hopens := by
    have hframes : ¬∀ i, (a.frames i).Complete := by
      unfold DrmPlaneSink.opens at hopens
      rwa [decide_eq_false_iff_not] at hopens
    have hret := setupFrames_ret { s.toSink with width := caps.width, height := caps.height }
      caps.width caps.height a.frames [0, 1]
    have hkept := setupFrames_kept { s.toSink with width := caps.width, height := caps.height }
      caps.width caps.height a.frames [0, 1]
    rw [forall_frames] at hret
    show (s.setcaps caps a).ret = false ∧ True ∧ (s.setcaps caps a).self.enabled = false
    unfold DrmPlaneSink.setcaps DrmPlaneSink.setup
    rw [if_neg (by rw [henabled]; exact Bool.false_ne_true)]
    dsimp only
    rw [if_neg fun hr => hframes (hret.1 hr)]
    exact ⟨rfl, trivial, hkept.1.trans henabled⟩
  opened s caps a _ henabled hopens hpitch := by
    have hframes : ∀ i, (a.frames i).Complete := by
      unfold DrmPlaneSink.opens at hopens
      rwa [decide_eq_true_eq] at hopens
    have hret := (setupFrames_ret { s.toSink with width := caps.width, height := caps.height }
      caps.width caps.height a.frames [0, 1]).2 fun i _ => hframes i
    show (s.setcaps caps a).ret = true ∧ True ∧ SetUp (s.setcaps caps a).self.toSink caps
    unfold DrmPlaneSink.setcaps DrmPlaneSink.setup
    rw [if_neg (by rw [henabled]; exact Bool.false_ne_true)]
    dsimp only
    rw [if_pos hret]
    exact ⟨rfl, trivial, setUp_frames _ _ _ rfl rfl hframes hpitch (le_refl _) (le_refl _) 0⟩
  refused s buffer ok _ hrefuses := by
    show s.render buffer ok = _
    unfold DrmPlaneSink.render
    rw [if_pos hrefuses]
  shown s buffer ok _ hrefuses := by
    show (s.render buffer ok).ret = ok ∧ pokes (s.render buffer ok).calls = _ ∧ True ∧
      ∃ c, (s.render buffer ok).self.toSink = _
    unfold DrmPlaneSink.render
    rw [if_neg (by rw [hrefuses]; exact Bool.false_ne_true)]
    cases ok with
    | true =>
        refine ⟨rfl, ?_, trivial, s.current ^^^ 1, rfl⟩
        exact pokes_append_quiet (by simp [Call.pokes])
    | false =>
        refine ⟨rfl, ?_, trivial, s.current, rfl⟩
        exact pokes_append_quiet (by simp [Call.pokes])

/-! ## Runs -/

/-- A sink after some calls: no frames yet, or the frames of the opening caps. -/
inductive Latched {S : Type} (base : S → Sink Nat) (opens : Caps → SetupAnswers Nat → Bool)
    (cs : List (BaseCall Nat)) (w : Negotiation S) : Prop
  | shut (hopening : opening opens cs = none) (henabled : (base w.sink).enabled = false) (hcaps : w.caps = none)
  | opened (caps₀ : Caps) (hopening : opening opens cs = some caps₀) (hset : SetUp (base w.sink) caps₀)
      (hcaps : w.caps = latest cs)

section Runs
variable {S : Type} {K : BaseSinkClass Nat S} {base : S → Sink Nat} {Ok : S → Prop}
  {opens : Caps → SetupAnswers Nat → Bool} {request : Caps → Nat × Nat}
  (hK : K.Latching base Ok opens request)
include hK

theorem BaseSinkClass.Latching.interprets_iff {s : S} (hs : Ok s) (caps : Caps) :
    K.Interprets base s caps ↔ Places (base s) caps := by
  constructor
  · intro h buffer hbuffer
    have hrefuses : (base s).refuses buffer = false := by
      by_contra hrefuses
      have hret := (h buffer hbuffer true (fun _ => 0)).1
      rw [hK.refused s buffer true hs (by simpa using hrefuses)] at hret
      cases hret
    refine ⟨hrefuses, fun mem => ?_⟩
    rw [← (hK.shown s buffer true hs hrefuses).2.1]
    exact (h buffer hbuffer true mem).2
  · intro h buffer hbuffer ok mem
    obtain ⟨hrefuses, hshows⟩ := h buffer hbuffer
    obtain ⟨hret, hpokes, -⟩ := hK.shown s buffer ok hs hrefuses
    rw [hpokes]
    exact ⟨hret, hshows mem⟩

/-- What a render finds is right if the latest caps have the size of the opening ones. -/
theorem Latched.interprets_iff {cs : List (BaseCall Nat)} {w : Negotiation S} (h : Latched base opens cs w)
    (hs : Ok w.sink) : (∀ caps, w.caps = some caps → K.Interprets base w.sink caps) ↔ Settled opens cs := by
  cases h with
  | shut hopening _ hcaps =>
      refine iff_of_true (fun caps hsome => ?_) (fun caps₀ caps hsome => ?_)
      · rw [hcaps] at hsome
        cases hsome
      · rw [hopening] at hsome
        cases hsome
  | opened caps₀ hopening hset hcaps =>
      unfold Settled
      rw [hopening, hcaps]
      constructor
      · rintro h _ caps ⟨⟩ hlatest
        exact hset.places_iff.1 ((hK.interprets_iff hs caps).1 (h caps hlatest))
      · intro h caps hlatest
        exact (hK.interprets_iff hs caps).2 (hset.places_iff.2 (h caps₀ caps rfl hlatest))

theorem Latched.setCaps {cs : List (BaseCall Nat)} {w : Negotiation S} (h : Latched base opens cs w)
    (hs : Ok w.sink) {caps : Caps} {a : SetupAnswers Nat} (ha : a.Pitched (request caps).1 (request caps).2) :
    Ok (K.setCaps w.sink caps a).self ∧ Latched base opens (cs ++ [.setCaps caps a])
      ⟨(K.setCaps w.sink caps a).self, if (K.setCaps w.sink caps a).ret then some caps else w.caps⟩ := by
  cases h with
  | shut hopening henabled hcaps =>
      by_cases hopens : opens caps a = true
      · obtain ⟨hret, hok, hset⟩ := hK.opened w.sink caps a hs henabled hopens ha
        refine ⟨hok, .opened caps ?_ hset ?_⟩
        · rw [opening_setCaps, hopening, if_pos hopens]
          rfl
        · rw [latest_setCaps, if_pos hret]
      · obtain ⟨hret, hok, henabled⟩ := hK.shut w.sink caps a hs henabled (by simpa using hopens)
        refine ⟨hok, .shut ?_ henabled ?_⟩
        · rw [opening_setCaps, hopening, if_neg hopens]
          rfl
        · rw [hret]
          exact hcaps
  | opened caps₀ hopening hset hcaps =>
      rw [hK.latched w.sink caps a hs hset.enabled]
      refine ⟨hs, .opened caps₀ ?_ hset (latest_setCaps caps a).symm⟩
      rw [opening_setCaps, hopening]
      rfl

/-- A render changes no more than which frame is the current one. -/
theorem BaseSinkClass.Latching.rendered {s : S} (hs : Ok s) (buffer : Buffer) (ok : Bool) :
    Ok (K.render s buffer ok).self ∧ ∃ c, base (K.render s buffer ok).self = { base s with current := c } := by
  by_cases hrefuses : (base s).refuses buffer = true
  · rw [hK.refused s buffer ok hs hrefuses]
    exact ⟨hs, (base s).current, rfl⟩
  · exact (hK.shown s buffer ok hs (by simpa using hrefuses)).2.2

theorem Latched.render {cs : List (BaseCall Nat)} {w : Negotiation S} (h : Latched base opens cs w)
    (hs : Ok w.sink) (buffer : Buffer) (ok : Bool) :
    Ok (K.render w.sink buffer ok).self ∧
      Latched base opens (cs ++ [.render buffer ok]) ⟨(K.render w.sink buffer ok).self, w.caps⟩ := by
  obtain ⟨hok, c, hself⟩ := hK.rendered hs buffer ok
  refine ⟨hok, ?_⟩
  cases h with
  | shut hopening henabled hcaps =>
      refine .shut ((opening_render buffer ok).trans hopening) ?_ hcaps
      show (base (K.render w.sink buffer ok).self).enabled = false
      rw [hself]
      exact henabled
  | opened caps₀ hopening hset hcaps =>
      refine .opened caps₀ ((opening_render buffer ok).trans hopening) ?_ (hcaps.trans (latest_render buffer ok).symm)
      show SetUp (base (K.render w.sink buffer ok).self) caps₀
      rw [hself]
      exact ⟨hset.enabled, hset.width, hset.height, hset.pitch, hset.wrap⟩

/-- **Runs.** -/
theorem negotiates_iff {s : S} (hs : Ok s) (henabled : (base s).enabled = false) (cs : List (BaseCall Nat))
    (hpitch : ∀ caps a, .setCaps caps a ∈ cs → a.Pitched (request caps).1 (request caps).2) :
    K.Negotiates base s cs ↔ Steady opens cs := by
  refine ((Machine.run_inputs_inv (m := K.negotiating) (J := fun cs h w =>
    (∀ caps a, .setCaps caps a ∈ cs → a.Pitched (request caps).1 (request caps).2) →
      Ok w.sink ∧ Latched base opens cs w ∧
        ((∀ v ∈ h, ∀ caps, v.caps = some caps → K.Interprets base v.sink caps) ↔ Steady opens cs)) ?_ ?_ cs)
    hpitch).2.2
  · exact fun _ => ⟨hs, .shut rfl henabled rfl, iff_of_true (fun v hv => absurd hv List.not_mem_nil) every_nil⟩
  · intro cs h w c ih hpitch
    obtain ⟨hs, hlatched, hiff⟩ := ih fun caps a hmem => hpitch caps a (List.mem_append_left _ hmem)
    unfold Steady at hiff ⊢
    rw [every_snoc, ← hiff]
    cases c with
    | setCaps caps a =>
        obtain ⟨hok, hlatched'⟩ := hlatched.setCaps hK hs (hpitch caps a (by simp))
        refine ⟨hok, hlatched', ?_⟩
        show (∀ v ∈ h ++ [], _) ↔ _
        rw [List.append_nil]
        exact (and_iff_left (fun hnone => nomatch hnone)).symm
    | render buffer ok =>
        obtain ⟨hok, hlatched'⟩ := hlatched.render hK hs buffer ok
        refine ⟨hok, hlatched', ?_⟩
        show (∀ v ∈ h ++ [w], _) ↔ _
        rw [List.forall_mem_append, List.forall_mem_singleton, hlatched.interprets_iff hK hs]
        exact and_congr_right fun _ => ⟨fun hsettled _ => hsettled, fun hsettled => hsettled rfl⟩

end Runs

section Sinks
variable (modeName : List Byte) (connId crtcId planeId posx posy : U32) (a : StartAnswers Nat) (cs : List (BaseCall Nat))

theorem drmsink_caps (hpitch : ∀ caps b, .setCaps caps b ∈ cs → b.Pitched
      ((DrmSink.zero modeName connId crtcId).start a).self.mode.hdisplay.toNat
      ((DrmSink.zero modeName connId crtcId).start a).self.mode.vdisplay.toNat) :
    drmsink.Negotiates DrmSink.toSink ((DrmSink.zero modeName connId crtcId).start a).self cs ↔
      Steady (DrmSink.opens ((DrmSink.zero modeName connId crtcId).start a).self.mode) cs :=
  negotiates_iff (drmsink_latching _) rfl (DrmSink.start_enabled a _) cs hpitch

theorem drmplanesink_caps (hpitch : ∀ caps b, .setCaps caps b ∈ cs → b.Pitched caps.width.toNat caps.height.toNat) :
    drmplanesink.Negotiates DrmPlaneSink.toSink ((DrmPlaneSink.zero planeId crtcId posx posy).start a).self cs ↔
      Steady DrmPlaneSink.opens cs :=
  negotiates_iff drmplanesink_latching trivial (DrmPlaneSink.start_enabled a _) cs hpitch

end Sinks

/-- **When renders follow the caps.** New sinks after `start`. -/
theorem caps_iff (modeName : List Byte) (connId crtcId planeId posx posy : U32) (a : StartAnswers Nat)
    (cs : List (BaseCall Nat))
    (hdrmsink : ∀ caps b, .setCaps caps b ∈ cs → b.Pitched
      ((DrmSink.zero modeName connId crtcId).start a).self.mode.hdisplay.toNat
      ((DrmSink.zero modeName connId crtcId).start a).self.mode.vdisplay.toNat)
    (hdrmplanesink : ∀ caps b, .setCaps caps b ∈ cs → b.Pitched caps.width.toNat caps.height.toNat) :
    (drmsink.Negotiates DrmSink.toSink ((DrmSink.zero modeName connId crtcId).start a).self cs ↔
      Steady (DrmSink.opens ((DrmSink.zero modeName connId crtcId).start a).self.mode) cs) ∧
    (drmplanesink.Negotiates DrmPlaneSink.toSink ((DrmPlaneSink.zero planeId crtcId posx posy).start a).self cs ↔
      Steady DrmPlaneSink.opens cs) :=
  ⟨drmsink_caps modeName connId crtcId a cs hdrmsink, drmplanesink_caps crtcId planeId posx posy a cs hdrmplanesink⟩

/-! ## A turn of the picture -/

def landscape : Caps := ⟨32, 16, by decide, sixteen_range⟩

def portrait : Caps := ⟨16, 32, sixteen_range, by decide⟩

/-- All calls succeed, with a pitch of 256 bytes. -/
def granted : SetupAnswers Nat :=
  ⟨fun i => ⟨some 5, some 256, some 1, some (i.val * 8192), some (i.val + 1)⟩,
    some ⟨6, ⟨1, 0, 0, 0, true, ⟨[], 32, 32, []⟩⟩⟩⟩

/-- A display of 32 × 32 pixels. -/
def square : StartAnswers Nat := ⟨some 3, some [some ⟨1, [⟨[], 32, 32, []⟩]⟩], some [some 4], some 4⟩

def frameOf (caps : Caps) : BaseCall Nat := .render ⟨List.replicate (4 * (caps.width.toNat * caps.height.toNat)) 255,
  by rw [List.length_replicate]; exact caps.size_lt⟩ true

theorem granted_pitched {width height : Nat} (hwidth : width ≤ 64) (hheight : height ≤ 4096) :
    granted.Pitched width height := by
  rintro i stride ⟨⟩
  show 4 * width ≤ 256 ∧ height * 256 < 2 ^ 32
  omega

theorem caps_iff_steady :
    drmsink.Negotiates DrmSink.toSink ((DrmSink.zero [] 1 1).start square).self
        [.setCaps landscape granted, frameOf landscape, .setCaps landscape granted, frameOf landscape] ∧
      drmplanesink.Negotiates DrmPlaneSink.toSink ((DrmPlaneSink.zero 4 1 0 0).start square).self
        [.setCaps landscape granted, frameOf landscape, .setCaps landscape granted, frameOf landscape] := by
  have h := caps_iff [] 1 1 4 0 0 square
    [.setCaps landscape granted, frameOf landscape, .setCaps landscape granted, frameOf landscape]
    (by
      intro caps b hmem
      obtain ⟨-, rfl⟩ : caps = landscape ∧ b = granted := by simpa [frameOf] using hmem
      exact granted_pitched (by decide) (by decide))
    (by
      intro caps b hmem
      obtain ⟨rfl, rfl⟩ : caps = landscape ∧ b = granted := by simpa [frameOf] using hmem
      exact granted_pitched (by decide) (by decide))
  exact ⟨h.1.2 (by decide), h.2.2 (by decide)⟩

/-- The image has the same area and is torn all the same. -/
theorem not_negotiates_turn :
    ¬drmsink.Negotiates DrmSink.toSink ((DrmSink.zero [] 1 1).start square).self
        [.setCaps landscape granted, .setCaps portrait granted, frameOf portrait] ∧
      ¬drmplanesink.Negotiates DrmPlaneSink.toSink ((DrmPlaneSink.zero 4 1 0 0).start square).self
        [.setCaps landscape granted, .setCaps portrait granted, frameOf portrait] := by
  have hgranted : ∀ caps b, BaseCall.setCaps caps b ∈
      [.setCaps landscape granted, .setCaps portrait granted, frameOf portrait] →
      b = granted ∧ caps.width.toNat ≤ 64 ∧ caps.height.toNat ≤ 4096 := by
    intro caps b hmem
    have hcases : caps = landscape ∧ b = granted ∨ caps = portrait ∧ b = granted := by
      simpa [frameOf] using hmem
    rcases hcases with ⟨rfl, rfl⟩ | ⟨rfl, rfl⟩
    · exact ⟨rfl, by decide, by decide⟩
    · exact ⟨rfl, by decide, by decide⟩
  constructor
  · rw [drmsink_caps]
    · decide
    · intro caps b hmem
      rw [(hgranted caps b hmem).1]
      exact granted_pitched (by decide) (by decide)
  · rw [drmplanesink_caps]
    · decide
    · intro caps b hmem
      obtain ⟨rfl, hwidth, hheight⟩ := hgranted caps b hmem
      exact granted_pitched hwidth hheight

end SysSnippets.Gst
