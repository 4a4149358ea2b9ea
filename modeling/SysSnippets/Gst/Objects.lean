import SysSnippets.Lib.Ledger
import SysSnippets.Gst.Sink

/-!
# The objects of the sinks over rounds of `start` and `stop`

An object is known by its kind and a serial number: the class call that created it and its frame. A sink's
handles are serial numbers, and `none` is NULL. The objects are mappings, buffer objects, framebuffers, the
saved CRTC, the driver and the descriptor.

* `ledger` : what each call creates, uses and releases;
* `BaseSinkClass.rounds` : `GstBaseSink` plays any number of rounds;
* `Handles` : what one class function can do to the handles of a sink (`drmsink_lawful`,
  `drmplanesink_lawful`);
* `Broken` : what a round cannot repair (`Broken.round`).
-/

namespace SysSnippets.Gst
open SysSnippets.Lib

abbrev Serial : Type := Nat × Fin DRM_FRAMES

abbrev Handle : Type := Option Serial

inductive Kind
  | mapping
  | bo
  | fb
  | savedCrtc
  | drv
  | fd
  deriving DecidableEq

abbrev Ref : Type := Kind × Handle

/-- What a call creates; a mapping has the serial number of its buffer object. -/
def Call.creates : Call Handle → List Ref
  | .openDevice (some fd) => [(.fd, fd)]
  | .kmsCreate _ (some drv) => [(.drv, drv)]
  | .kmsBoCreate _ _ _ (some bo) => [(.bo, bo)]
  | .kmsBoMap _ (some frame) => [(.mapping, frame)]
  | .drmModeAddFB _ _ _ _ _ (some fb) => [(.fb, fb)]
  | .drmModeGetCrtc _ _ (some crtc) => [(.savedCrtc, crtc.ptr)]
  | _ => []

def Call.releases : Call Handle → List Ref
  | .drmModeRmFB _ fb => [(.fb, fb)]
  | .kmsBoUnmap bo => [(.mapping, bo)]
  | .kmsBoDestroy bo => [(.bo, bo)]
  | .kmsDestroy drv => [(.drv, drv)]
  | .close fd => [(.fd, fd)]
  | _ => []

def Call.uses : Call Handle → List Ref
  | .start | .openDevice _ => []
  | .kmsCreate fd _ => [(.fd, fd)]
  | .kmsBoCreate drv _ _ _ => [(.drv, drv)]
  | .kmsBoGetPitch bo _ | .kmsBoGetHandle bo _ | .kmsBoMap bo _ => [(.bo, bo)]
  | .drmModeAddFB fd _ _ _ _ _ => [(.fd, fd)]
  | .drmModeGetCrtc fd _ _ => [(.fd, fd)]
  | .memcpy frame _ _ => [(.mapping, frame)]
  | .drmModeSetCrtc fd _ fb _ _ _ => [(.fd, fd), (.fb, fb)]
  | .drmModeDirtyFB fd fb => [(.fd, fd), (.fb, fb)]
  | .drmModeSetPlane fd _ _ fb _ _ _ _ _ _ _ => [(.fd, fd), (.fb, fb)]
  | .readSaved crtc => [(.savedCrtc, crtc.bind (·.ptr))]
  | .restoreCrtc fd crtc _ => [(.fd, fd), (.savedCrtc, crtc.ptr)]
  | .disablePlane fd _ => [(.fd, fd)]
  | .drmModeRmFB fd fb => [(.fd, fd), (.fb, fb)]
  | .kmsBoUnmap bo => [(.bo, bo), (.mapping, bo)]
  | .kmsBoDestroy bo => [(.bo, bo)]
  | .kmsDestroy drv => [(.drv, drv)]
  | .close fd => [(.fd, fd)]

def Call.isStart : Call Handle → Bool
  | .start => true
  | _ => false

/-- The objects of a trace; `start` opens a new period. -/
def ledger : Ledger (Call Handle) Ref := ⟨Call.creates, Call.uses, Call.releases, Call.isStart⟩

/-! ## Rounds -/

/-- The answers to class call number `n`, with the serial numbers of what they return. -/
def StartAnswers.number (n : Nat) (a : StartAnswers Unit) : StartAnswers Handle :=
  ⟨a.fd.map fun _ => some (n, 0), a.connectors, a.planes, a.drv.map fun _ => some (n, 0)⟩

def FrameAnswers.number (n : Nat) (i : Fin DRM_FRAMES) (a : FrameAnswers Unit) : FrameAnswers Handle :=
  ⟨a.bo.map fun _ => some (n, i), a.pitch, a.handle, a.frame.map fun _ => some (n, i),
    a.fb.map fun _ => some (n, i)⟩

def SetupAnswers.number (n : Nat) (a : SetupAnswers Unit) : SetupAnswers Handle :=
  ⟨fun i => (a.frames i).number n i, a.crtc.map fun crtc => ⟨some (n, 0), crtc.crtc⟩⟩

structure Round where
  start : StartAnswers Unit
  calls : List (BaseCall Unit)

/-- A sink and the number of class calls made so far. -/
structure Player (S : Type) where
  sink : S
  count : Nat

section Player
variable {S : Type} (K : BaseSinkClass Handle S)

def BaseSinkClass.call (w : Player S) : BaseCall Unit → Player S × List (Call Handle)
  | .setCaps caps a =>
      let r := K.setCaps w.sink caps (a.number w.count)
      (⟨r.self, w.count + 1⟩, r.calls)
  | .render buffer ok =>
      let r := K.render w.sink buffer ok
      (⟨r.self, w.count + 1⟩, r.calls)

def BaseSinkClass.playing : Machine (Player S) (BaseCall Unit) (Call Handle) := ⟨K.call⟩

/-- A round; if `start` fails nothing else is called. -/
def BaseSinkClass.round (w : Player S) (r : Round) : Player S × List (Call Handle) :=
  let st := K.start w.sink (r.start.number w.count)
  if st.ret then
    let p := K.playing.run ⟨st.self, w.count + 1⟩ r.calls
    let sp := K.stop p.1.sink
    (⟨sp.self, p.1.count + 1⟩, .start :: st.calls ++ p.2 ++ sp.calls)
  else (⟨st.self, w.count + 1⟩, .start :: st.calls)

def BaseSinkClass.rounds : Machine (Player S) Round (Call Handle) := ⟨K.round⟩

/-- All calls of some rounds of a new sink. -/
def BaseSinkClass.trace (s : S) (rs : List Round) : List (Call Handle) := (K.rounds.run ⟨s, 0⟩ rs).2

end Player

/-! ## What the class functions can do to handles -/

/-- The handles through which a sink can release an object. -/
def Sink.Holds (s : Sink Handle) : Ref → Prop
  | (.fd, h) => h = s.fd
  | (.drv, h) => h = s.drv
  | (.fb, h) => ∃ i, h = s.fb i
  | (.bo, h) | (.mapping, h) => ∃ i, h = s.bo i
  | (.savedCrtc, _) => False

/-- NULL, or created by class call `n`. -/
def New (n : Nat) (o : Ref) : Prop := o.2 = none ∨ ∃ i, o.2 = some (n, i)

/-- Class call `n` takes the sink from `s` to `s'`. -/
structure Handles (n : Nat) (s s' : Sink Handle) (calls : List (Call Handle)) : Prop where
  created : ∀ o ∈ ledger.created calls, ∃ i, o.2 = some (n, i)
  released : ∀ o ∈ ledger.released calls, s.Holds o
  held : ∀ o, s'.Holds o → s.Holds o ∨ New n o

theorem handles_refl (n : Nat) (s : Sink Handle) : Handles n s s [] :=
  ⟨by simp, by simp, fun _ h => Or.inl h⟩

/-- Steps in one class call, where the second releases nothing. -/
theorem Handles.trans {n : Nat} {s s' s'' : Sink Handle} {c d : List (Call Handle)} (h : Handles n s s' c)
    (h' : Handles n s' s'' d) (hd : ledger.released d = []) : Handles n s s'' (c ++ d) := by
  refine ⟨fun o ho => ?_, fun o ho => ?_, fun o ho => ?_⟩
  · rw [Ledger.created_append] at ho
    rcases List.mem_append.1 ho with ho | ho
    · exact h.created o ho
    · exact h'.created o ho
  · rw [Ledger.released_append, hd, List.append_nil] at ho
    exact h.released o ho
  · rcases h'.held o ho with ho | ho
    · exact h.held o ho
    · exact Or.inr ho

/-- Only the handles of a sink matter. -/
theorem Handles.congr {n : Nat} {s t s' t' : Sink Handle} {calls : List (Call Handle)} (h : Handles n s s' calls)
    (hs : ∀ o, s.Holds o → t.Holds o) (hs' : ∀ o, t'.Holds o → s'.Holds o) : Handles n t t' calls :=
  ⟨h.created, fun o ho => hs o (h.released o ho), fun o ho => (h.held o (hs' o ho)).imp (hs o) id⟩

theorem handles_quiet {n : Nat} {s : Sink Handle} {calls : List (Call Handle)}
    (h : ∀ c ∈ calls, ledger.Quiet c) : Handles n s s calls := by
  refine ⟨?_, ?_, fun o ho => Or.inl ho⟩
  · rw [Ledger.created_quiet h]
    simp
  · rw [Ledger.released_quiet h]
    simp

theorem Handles.quiet {n : Nat} {s s' : Sink Handle} {calls d : List (Call Handle)} (h : Handles n s s' calls)
    (hd : ∀ c ∈ d, ledger.Quiet c) : Handles n s s' (calls ++ d) :=
  h.trans (handles_quiet hd) (Ledger.released_quiet hd)

theorem Handles.after_quiet {n : Nat} {s s' : Sink Handle} {calls d : List (Call Handle)}
    (h : Handles n s s' calls) (hd : ∀ c ∈ d, ledger.Quiet c) : Handles n s s' (d ++ calls) := by
  refine ⟨?_, ?_, h.held⟩
  · rw [Ledger.created_append, Ledger.created_quiet hd]
    exact h.created
  · rw [Ledger.released_append, Ledger.released_quiet hd]
    exact h.released

theorem holds_bo {s : Sink Handle} {i : Fin DRM_FRAMES} {h : Handle} {o : Ref}
    (ho : ({ s with bo := Function.update s.bo i h } : Sink Handle).Holds o) : s.Holds o ∨ o.2 = h := by
  have hupdate : ∀ x, (∃ j, x = Function.update s.bo i h j) → (∃ j, x = s.bo j) ∨ x = h := by
    rintro x ⟨j, rfl⟩
    by_cases hj : j = i
    · subst hj
      exact Or.inr (Function.update_self ..)
    · exact Or.inl ⟨j, Function.update_of_ne hj ..⟩
  obtain ⟨kind, x⟩ := o
  cases kind with
  | bo => exact hupdate x ho
  | mapping => exact hupdate x ho
  | _ => exact Or.inl ho

theorem holds_fb {s : Sink Handle} {i : Fin DRM_FRAMES} {h : Handle} {o : Ref}
    (ho : ({ s with fb := Function.update s.fb i h } : Sink Handle).Holds o) : s.Holds o ∨ o.2 = h := by
  obtain ⟨kind, x⟩ := o
  cases kind with
  | fb =>
      obtain ⟨j, rfl⟩ := ho
      by_cases hj : j = i
      · subst hj
        exact Or.inr (Function.update_self ..)
      · exact Or.inl ⟨j, Function.update_of_ne hj ..⟩
  | _ => exact Or.inl ho

section Frames
variable {s : Sink Handle} {width height : U32} {a : FrameAnswers Unit} {n : Nat} {i : Fin DRM_FRAMES}

/-- The ways the setup of a frame can go. -/
inductive FrameSetup (s : Sink Handle) (width height : U32) (a : FrameAnswers Unit) (n : Nat)
    (i : Fin DRM_FRAMES) : Result Handle (Sink Handle) → Prop
  | refused (hbo : a.bo = none) : FrameSetup s width height a n i ⟨false, s, [.kmsBoCreate s.drv width height none]⟩
  | failed (hbo : a.bo.isSome) (hnot : ¬a.Complete) (self : Sink Handle) (calls : List (Call Handle))
      (hself : ∃ stride frame, self =
        { s with bo := Function.update s.bo i (some (n, i)), stride := stride, frame := frame })
      (hcreated : (.bo, some (n, i)) ∈ ledger.created calls ∧ ∀ o ∈ ledger.created calls, o.2 = some (n, i))
      (hreleased : ledger.released calls = []) : FrameSetup s width height a n i ⟨false, self, calls⟩
  | complete (hcomplete : a.Complete) (pitch handle : U32) : FrameSetup s width height a n i
      ⟨true, { s with
          bo := Function.update s.bo i (some (n, i))
          stride := Function.update s.stride i pitch
          frame := Function.update s.frame i (some (n, i))
          fb := Function.update s.fb i (some (n, i)) },
        [.kmsBoCreate s.drv width height (some (some (n, i))), .kmsBoGetPitch (some (n, i)) (some pitch),
          .kmsBoGetHandle (some (n, i)) (some handle), .kmsBoMap (some (n, i)) (some (some (n, i))),
          .drmModeAddFB s.fd width height pitch handle (some (some (n, i)))]⟩

theorem frameSetup : FrameSetup s width height a n i (s.setupFrame width height (a.number n i) i) := by
  obtain ⟨bo, pitch, handle, frame, fb⟩ := a
  cases bo with
  | none => exact .refused rfl
  | some bo =>
      cases pitch with
      | none =>
          refine .failed rfl (by simp [FrameAnswers.Complete]) _ _ ⟨s.stride, s.frame, rfl⟩ ?_ rfl
          simp [ledger, Ledger.created, Call.creates]
      | some pitch =>
          cases handle with
          | none =>
              refine .failed rfl (by simp [FrameAnswers.Complete]) _ _ ⟨_, s.frame, rfl⟩ ?_ rfl
              simp [ledger, Ledger.created, Call.creates]
          | some handle =>
              cases frame with
              | none =>
                  refine .failed rfl (by simp [FrameAnswers.Complete]) _ _ ⟨_, s.frame, rfl⟩ ?_ rfl
                  simp [ledger, Ledger.created, Call.creates]
              | some frame =>
                  cases fb with
                  | none =>
                      refine .failed rfl (by simp [FrameAnswers.Complete]) _ _ ⟨_, _, rfl⟩ ?_ rfl
                      simp [ledger, Ledger.created, Call.creates]
                  | some fb => exact .complete (by simp [FrameAnswers.Complete]) pitch handle

theorem FrameSetup.handles {r : Result Handle (Sink Handle)} (h : FrameSetup s width height a n i r) :
    Handles n s r.self r.calls ∧ ledger.released r.calls = [] := by
  cases h with
  | refused hbo =>
      exact ⟨⟨by simp [ledger, Ledger.created, Call.creates], by simp [ledger, Ledger.released, Call.releases],
        fun o ho => Or.inl ho⟩, rfl⟩
  | failed hbo hnot self calls hself hcreated hreleased =>
      obtain ⟨stride, frame, rfl⟩ := hself
      refine ⟨⟨fun o ho => ⟨i, hcreated.2 o ho⟩, by simp [hreleased], fun o ho => ?_⟩, hreleased⟩
      exact (holds_bo ho).imp id fun h => Or.inr ⟨i, h⟩
  | complete hcomplete pitch handle =>
      refine ⟨⟨?_, by simp [ledger, Ledger.released, Call.releases], fun o ho => ?_⟩, rfl⟩
      · intro o ho
        simp only [ledger, Ledger.created, Call.creates, List.flatMap_cons, List.flatMap_nil, List.cons_append,
          List.nil_append, List.mem_cons, List.not_mem_nil, or_false] at ho
        rcases ho with rfl | rfl | rfl <;> exact ⟨i, rfl⟩
      · have hfb : ({ ({ s with bo := Function.update s.bo i (some (n, i)) } : Sink Handle) with
            fb := Function.update s.fb i (some (n, i)) } : Sink Handle).Holds o := ho
        rcases holds_fb hfb with ho | ho
        · exact (holds_bo ho).imp id fun h => Or.inr ⟨i, h⟩
        · exact Or.inr (Or.inr ⟨i, ho⟩)

theorem setupFrames_handles (a : Fin DRM_FRAMES → FrameAnswers Unit) (is : List (Fin DRM_FRAMES)) :
    ∀ s : Sink Handle, Handles n s (Sink.setupFrames width height (fun i => (a i).number n i) is s).self
        (Sink.setupFrames width height (fun i => (a i).number n i) is s).calls ∧
      ledger.released (Sink.setupFrames width height (fun i => (a i).number n i) is s).calls = [] := by
  induction is with
  | nil => exact fun s => ⟨handles_refl n s, rfl⟩
  | cons i is ih =>
      intro s
      obtain ⟨hframe, hreleased⟩ := (@frameSetup s width height (a i) n i).handles
      unfold Sink.setupFrames
      dsimp only
      split_ifs
      · obtain ⟨hrest, hrest'⟩ := ih (s.setupFrame width height ((a i).number n i) i).self
        refine ⟨hframe.trans hrest hrest', ?_⟩
        rw [Ledger.released_append, hreleased, hrest']
        rfl
      · exact ⟨hframe, hreleased⟩

end Frames

theorem quiet_copyRows (s : Sink Handle) (buffer : Buffer) :
    ∀ c ∈ s.copyRows buffer, ledger.Quiet c ∧ ledger.uses c = [(.mapping, s.frame s.current)] := by
  intro c hc
  obtain ⟨k, -, rfl⟩ := List.mem_map.1 hc
  exact ⟨⟨rfl, rfl, rfl⟩, rfl⟩

theorem teardown_handles (n : Nat) (s : Sink Handle) : Handles n s s.teardown.self s.teardown.calls := by
  refine ⟨?_, ?_, ?_⟩
  · simp [Sink.teardown, ledger, Ledger.created, Call.creates]
  · intro o ho
    simp only [Sink.teardown, ledger, Ledger.released, Call.releases, List.flatMap_cons, List.flatMap_nil,
      List.cons_append, List.nil_append, List.append_nil, List.mem_cons, List.not_mem_nil, or_false] at ho
    rcases ho with rfl | rfl | rfl | rfl | rfl | rfl | rfl | rfl <;> simp [Sink.Holds]
  · rintro ⟨kind, h⟩ ho
    cases kind with
    | bo =>
        obtain ⟨i, rfl⟩ := ho
        exact Or.inr (Or.inl rfl)
    | mapping =>
        obtain ⟨i, rfl⟩ := ho
        exact Or.inr (Or.inl rfl)
    | drv =>
        obtain rfl := ho
        exact Or.inr (Or.inl rfl)
    | _ => exact Or.inl ho

/-- The ways `start` can go. -/
inductive Started (s : Sink Handle) (a : StartAnswers Unit) (n : Nat) :
    Bool → Sink Handle → List (Call Handle) → Prop
  | shut (hfd : a.fd = none) : Started s a n false { s with fd := none } [.openDevice none]
  | failed (hfd : a.fd.isSome) (calls : List (Call Handle))
      (hcalls : ledger.created calls = [(.fd, some (n, 0))] ∧ ledger.released calls = []) :
      Started s a n false { s with fd := some (n, 0) } calls
  | running (hfd : a.fd.isSome) : Started s a n true { s with fd := some (n, 0), drv := some (n, 0) }
      [.openDevice (some (some (n, 0))), .kmsCreate (some (n, 0)) (some (some (n, 0)))]

theorem Started.handles {s s' : Sink Handle} {a : StartAnswers Unit} {n : Nat} {ret : Bool}
    {calls : List (Call Handle)} (h : Started s a n ret s' calls) : Handles n s s' calls := by
  have hfd : ∀ h, New n (.fd, h) → ∀ o, ({ s with fd := h } : Sink Handle).Holds o → s.Holds o ∨ New n o := by
    rintro h hnew ⟨kind, x⟩ ho
    cases kind with
    | fd =>
        obtain rfl := ho
        exact Or.inr hnew
    | _ => exact Or.inl ho
  cases h with
  | shut =>
      refine ⟨?_, ?_, hfd none (Or.inl rfl)⟩
      · simp [ledger, Ledger.created, Call.creates]
      · simp [ledger, Ledger.released, Call.releases]
  | failed _ _ hcalls =>
      refine ⟨?_, ?_, hfd _ (Or.inr ⟨0, rfl⟩)⟩
      · rw [hcalls.1]
        exact fun o ho => ⟨0, by rw [List.mem_singleton.1 ho]⟩
      · rw [hcalls.2]
        simp
  | running =>
      refine ⟨?_, ?_, ?_⟩
      · intro o ho
        simp only [ledger, Ledger.created, Call.creates, List.flatMap_cons, List.flatMap_nil, List.cons_append,
          List.nil_append, List.mem_cons, List.not_mem_nil, or_false] at ho
        rcases ho with rfl | rfl <;> exact ⟨0, rfl⟩
      · simp [ledger, Ledger.released, Call.releases]
      · rintro ⟨kind, x⟩ ho
        cases kind with
        | fd =>
            obtain rfl := ho
            exact Or.inr (Or.inr ⟨0, rfl⟩)
        | drv =>
            obtain rfl := ho
            exact Or.inr (Or.inr ⟨0, rfl⟩)
        | _ => exact Or.inl ho

/-- `start` overwrites the descriptor and releases nothing. -/
theorem Started.overwrites {s s' : Sink Handle} {a : StartAnswers Unit} {n : Nat} {ret : Bool}
    {calls : List (Call Handle)} (h : Started s a n ret s' calls) :
    New n (.fd, s'.fd) ∧ ledger.released calls = [] := by
  cases h with
  | shut => exact ⟨Or.inl rfl, rfl⟩
  | failed _ _ hcalls => exact ⟨Or.inr ⟨0, rfl⟩, hcalls.2⟩
  | running => exact ⟨Or.inr ⟨0, rfl⟩, rfl⟩

/-- What both classes have in common. -/
structure BaseSinkClass.Lawful {S : Type} (K : BaseSinkClass Handle S) (base : S → Sink Handle) : Prop where
  start : ∀ (s : S) (a : StartAnswers Unit) (n : Nat), Started (base s) a n (K.start s (a.number n)).ret
    (base (K.start s (a.number n)).self) (K.start s (a.number n)).calls
  setCaps : ∀ (s : S) (caps : Caps) (a : SetupAnswers Unit) (n : Nat), Handles n (base s)
    (base (K.setCaps s caps (a.number n)).self) (K.setCaps s caps (a.number n)).calls
  render : ∀ (s : S) (buffer : Buffer) (ok : Bool) (n : Nat), Handles n (base s)
    (base (K.render s buffer ok).self) (K.render s buffer ok).calls
  stop : ∀ (s : S) (n : Nat), Handles n (base s) (base (K.stop s).self) (K.stop s).calls

theorem DrmSink.started (s : DrmSink Handle) (a : StartAnswers Unit) (n : Nat) :
    Started s.toSink a n (s.start (a.number n)).ret (s.start (a.number n)).self.toSink
      (s.start (a.number n)).calls := by
  obtain ⟨fd, connectors, planes, drv⟩ := a
  unfold DrmSink.start StartAnswers.number
  cases fd with
  | none => exact .shut rfl
  | some fd =>
      dsimp only [Option.map_some]
      split
      · exact .failed rfl _ ⟨rfl, rfl⟩
      · split
        · exact .failed rfl _ ⟨rfl, rfl⟩
        · split
          · exact .failed rfl _ ⟨rfl, rfl⟩
          · cases drv with
            | none => exact .failed rfl _ ⟨rfl, rfl⟩
            | some drv => exact .running rfl

theorem DrmSink.setcaps_handles (s : DrmSink Handle) (caps : Caps) (a : SetupAnswers Unit) (n : Nat) :
    Handles n s.toSink (s.setcaps caps (a.number n)).self.toSink (s.setcaps caps (a.number n)).calls := by
  unfold DrmSink.setcaps
  split_ifs
  · exact handles_refl n _
  · unfold DrmSink.setup
    split_ifs
    · exact handles_refl n _
    · have hframes := (@setupFrames_handles (s.mode.hdisplay.setWidth 32) (s.mode.vdisplay.setWidth 32) n
        a.frames [0, 1] { s.toSink with width := caps.width, height := caps.height }).1
      dsimp only [SetupAnswers.number]
      split_ifs
      · cases a.crtc with
        | none =>
            refine Handles.congr (hframes.quiet ?_) (fun _ h => h) (fun _ h => h)
            exact List.forall_mem_singleton.2 ⟨rfl, rfl, rfl⟩
        | some crtc =>
            refine Handles.congr (hframes.trans ⟨?_, ?_, fun _ h => Or.inl h⟩ rfl) (fun _ h => h) (fun _ h => h)
            · exact List.forall_mem_singleton.2 ⟨0, rfl⟩
            · exact fun _ h => absurd h List.not_mem_nil
      · exact hframes.congr (fun _ h => h) (fun _ h => h)

theorem DrmSink.render_handles (s : DrmSink Handle) (buffer : Buffer) (ok : Bool) (n : Nat) :
    Handles n s.toSink (s.render buffer ok).self.toSink (s.render buffer ok).calls := by
  have hcopy := fun c hc => (quiet_copyRows s.toSink buffer c hc).1
  unfold DrmSink.render
  split_ifs
  · exact handles_refl n _
  · refine Handles.congr ((((handles_quiet hcopy).quiet ?_).quiet ?_)) (fun _ h => h) (fun _ h => h)
    · exact List.forall_mem_singleton.2 ⟨rfl, rfl, rfl⟩
    · exact List.forall_mem_singleton.2 ⟨rfl, rfl, rfl⟩
  · exact (handles_quiet hcopy).quiet (List.forall_mem_singleton.2 ⟨rfl, rfl, rfl⟩)

theorem DrmSink.stop_handles (s : DrmSink Handle) (n : Nat) :
    Handles n s.toSink s.stop.self.toSink s.stop.calls := by
  unfold DrmSink.stop
  cases s.savedCrtc with
  | none => exact handles_quiet (List.forall_mem_singleton.2 ⟨rfl, rfl, rfl⟩)
  | some saved =>
      refine (teardown_handles n s.toSink).after_quiet ?_
      intro c hc
      rcases List.mem_cons.1 hc with rfl | hc
      · exact ⟨rfl, rfl, rfl⟩
      · split_ifs at hc
        · obtain rfl := List.mem_singleton.1 hc
          exact ⟨rfl, rfl, rfl⟩
        · cases hc

theorem drmsink_lawful : drmsink.Lawful DrmSink.toSink :=
  ⟨DrmSink.started, DrmSink.setcaps_handles, DrmSink.render_handles, DrmSink.stop_handles⟩

theorem DrmPlaneSink.started (s : DrmPlaneSink Handle) (a : StartAnswers Unit) (n : Nat) :
    Started s.toSink a n (s.start (a.number n)).ret (s.start (a.number n)).self.toSink
      (s.start (a.number n)).calls := by
  obtain ⟨fd, connectors, planes, drv⟩ := a
  unfold DrmPlaneSink.start StartAnswers.number
  cases fd with
  | none => exact .shut rfl
  | some fd =>
      dsimp only [Option.map_some]
      split
      · exact .failed rfl _ ⟨rfl, rfl⟩
      · split
        · exact .failed rfl _ ⟨rfl, rfl⟩
        · cases drv with
          | none => exact .failed rfl _ ⟨rfl, rfl⟩
          | some drv => exact .running rfl

theorem DrmPlaneSink.setcaps_handles (s : DrmPlaneSink Handle) (caps : Caps) (a : SetupAnswers Unit) (n : Nat) :
    Handles n s.toSink (s.setcaps caps (a.number n)).self.toSink (s.setcaps caps (a.number n)).calls := by
  unfold DrmPlaneSink.setcaps
  split_ifs
  · exact handles_refl n _
  · have hframes := (@setupFrames_handles caps.width caps.height n a.frames [0, 1]
      { s.toSink with width := caps.width, height := caps.height }).1
    unfold DrmPlaneSink.setup
    dsimp only [SetupAnswers.number]
    split_ifs
    · exact hframes.congr (fun _ h => h) (fun _ h => h)
    · exact hframes.congr (fun _ h => h) (fun _ h => h)

theorem DrmPlaneSink.render_handles (s : DrmPlaneSink Handle) (buffer : Buffer) (ok : Bool) (n : Nat) :
    Handles n s.toSink (s.render buffer ok).self.toSink (s.render buffer ok).calls := by
  have hcopy := fun c hc => (quiet_copyRows s.toSink buffer c hc).1
  have hcalls := (@handles_quiet n s.toSink _ hcopy).quiet (List.forall_mem_singleton.2
    (show ledger.Quiet (.drmModeSetPlane s.fd s.planeId s.crtcId (s.fb s.current) s.posx s.posy s.width s.height
      (s.width <<< 16) (s.height <<< 16) ok) from ⟨rfl, rfl, rfl⟩))
  unfold DrmPlaneSink.render
  split_ifs
  · exact handles_refl n _
  · exact hcalls.congr (fun _ h => h) (fun _ h => h)
  · exact hcalls

theorem DrmPlaneSink.stop_handles (s : DrmPlaneSink Handle) (n : Nat) :
    Handles n s.toSink s.stop.self.toSink s.stop.calls :=
  (teardown_handles n s.toSink).after_quiet (List.forall_mem_singleton.2 ⟨rfl, rfl, rfl⟩)

theorem drmplanesink_lawful : drmplanesink.Lawful DrmPlaneSink.toSink :=
  ⟨DrmPlaneSink.started, DrmPlaneSink.setcaps_handles, DrmPlaneSink.render_handles, DrmPlaneSink.stop_handles⟩

/-! ## What stays lost -/

/-- NULL, or created by a class call before number `n`. -/
def Old (n : Nat) (o : Ref) : Prop := ∀ m i, o.2 = some (m, i) → m < n

/-- The trace and the sink before class call `n`. -/
structure Numbered (n : Nat) (t : List (Call Handle)) (s : Sink Handle) : Prop where
  created : ∀ o ∈ ledger.created t, o.2 ≠ none ∧ Old n o
  released : ∀ o ∈ ledger.released t, Old n o
  held : ∀ o, s.Holds o → Old n o

/-- An object that is not released and that the sink has no handle for. -/
structure Leaked (t : List (Call Handle)) (s : Sink Handle) (o : Ref) : Prop where
  lost : ledger.Lost t o
  unheld : ¬s.Holds o

section Steps
variable {n : Nat} {t calls : List (Call Handle)} {s s' : Sink Handle} {o : Ref}

theorem Old.succ (h : Old n o) : Old (n + 1) o := fun m i hm => Nat.lt_succ_of_lt (h m i hm)

theorem New.old (h : New n o) : Old (n + 1) o := by
  intro m i hm
  rcases h with hnone | ⟨j, hj⟩
  · rw [hm] at hnone
    cases hnone
  · rw [hm] at hj
    cases hj
    omega

theorem Old.not_fresh (h : Old n o) (i : Fin DRM_FRAMES) : o.2 ≠ some (n, i) :=
  fun hi => absurd (h n i hi) (lt_irrefl n)

theorem Numbered.step (hn : Numbered n t s) (h : Handles n s s' calls) : Numbered (n + 1) (t ++ calls) s' := by
  refine ⟨fun o ho => ?_, fun o ho => ?_, fun o ho => ?_⟩
  · rw [Ledger.created_append] at ho
    rcases List.mem_append.1 ho with ho | ho
    · exact ⟨(hn.created o ho).1, (hn.created o ho).2.succ⟩
    · obtain ⟨i, hi⟩ := h.created o ho
      exact ⟨by rw [hi]; exact Option.some_ne_none _, New.old (Or.inr ⟨i, hi⟩)⟩
  · rw [Ledger.released_append] at ho
    rcases List.mem_append.1 ho with ho | ho
    · exact (hn.released o ho).succ
    · exact (hn.held o (h.released o ho)).succ
  · rcases h.held o ho with ho | ho
    · exact (hn.held o ho).succ
    · exact ho.old

theorem Numbered.not_new (hn : Numbered n t s) (ho : o ∈ ledger.created t) : ¬New n o := by
  rintro (hnone | ⟨j, hj⟩)
  · exact (hn.created o ho).1 hnone
  · exact (hn.created o ho).2.not_fresh j hj

/-- What this class call creates and does not release. -/
theorem Numbered.lost (hn : Numbered n t s) (ho : o ∈ ledger.created calls) (hfresh : ∃ i, o.2 = some (n, i))
    (hreleased : ledger.released calls = []) : ledger.Lost (t ++ calls) o := by
  obtain ⟨i, hi⟩ := hfresh
  refine ⟨?_, ?_⟩
  · rw [Ledger.created_append]
    exact List.mem_append_right _ ho
  · rw [Ledger.released_append, hreleased, List.append_nil]
    exact fun h => (hn.released o h).not_fresh i hi

theorem Leaked.step (hl : Leaked t s o) (hn : Numbered n t s) (h : Handles n s s' calls) :
    Leaked (t ++ calls) s' o := by
  refine ⟨hl.lost.append fun ho => hl.unheld (h.released o ho), fun ho => ?_⟩
  rcases h.held o ho with ho | ho
  · exact hl.unheld ho
  · exact hn.not_new hl.lost.created ho

end Steps

/-- What nothing repairs. -/
def Ruined (t : List (Call Handle)) (s : Sink Handle) : Prop := ¬ledger.Safe t ∨ ∃ o, Leaked t s o

theorem Ruined.step {n : Nat} {t calls : List (Call Handle)} {s s' : Sink Handle} (h : Ruined t s)
    (hn : Numbered n t s) (hs : Handles n s s' calls) : Ruined (t ++ calls) s' := by
  rcases h with h | ⟨o, h⟩
  · exact Or.inl fun hsafe => h hsafe.of_append
  · exact Or.inr ⟨o, h.step hn hs⟩

/-- What no later round repairs: the next `start` overwrites a descriptor that was not closed. -/
def Broken (t : List (Call Handle)) (s : Sink Handle) : Prop := Ruined t s ∨ ledger.Lost t (.fd, s.fd)

theorem Broken.not_tidy {t : List (Call Handle)} {s : Sink Handle} (h : Broken t s) : ¬ledger.Tidy t := by
  rcases h with (h | ⟨o, h⟩) | h
  · exact fun htidy => h htidy.safe
  · exact h.lost.not_tidy
  · exact h.not_tidy

section Rounds
variable {S : Type} {K : BaseSinkClass Handle S} {base : S → Sink Handle} (hK : K.Lawful base)
include hK

theorem call_handles (w : Player S) (c : BaseCall Unit) :
    Handles w.count (base w.sink) (base (K.call w c).1.sink) (K.call w c).2 ∧
      (K.call w c).1.count = w.count + 1 := by
  cases c with
  | setCaps caps a => exact ⟨hK.setCaps .., rfl⟩
  | render buffer ok => exact ⟨hK.render .., rfl⟩

theorem numbered_calls {t : List (Call Handle)} {w : Player S} (hn : Numbered w.count t (base w.sink))
    (cs : List (BaseCall Unit)) : Numbered (K.playing.run w cs).1.count (t ++ (K.playing.run w cs).2)
      (base (K.playing.run w cs).1.sink) :=
  Machine.run_inv (m := K.playing) (I := fun t w => Numbered w.count t (base w.sink))
    (fun t w c hn => by
      obtain ⟨h, hcount⟩ := call_handles hK w c
      show Numbered (K.call w c).1.count _ _
      rw [hcount]
      exact hn.step h) cs t w hn

theorem ruined_calls {t : List (Call Handle)} {w : Player S} (hn : Numbered w.count t (base w.sink))
    (h : Ruined t (base w.sink)) (cs : List (BaseCall Unit)) :
    Ruined (t ++ (K.playing.run w cs).2) (base (K.playing.run w cs).1.sink) :=
  (Machine.run_inv (m := K.playing)
    (I := fun t w => Numbered w.count t (base w.sink) ∧ Ruined t (base w.sink))
    (fun t w c ⟨hn, h⟩ => by
      obtain ⟨hs, hcount⟩ := call_handles hK w c
      show Numbered (K.call w c).1.count _ _ ∧ _
      rw [hcount]
      exact ⟨hn.step hs, h.step hn hs⟩) cs t w ⟨hn, h⟩).2

omit hK in
/-- The step of the rounds: `P` holds after `start`, `R` before `stop` and `Q` after the round. -/
theorem round_ind {t : List (Call Handle)} {w : Player S} {r : Round}
    {P R Q : List (Call Handle) → Player S → Prop}
    (hstart : ∀ st, st = K.start w.sink (r.start.number w.count) →
      if st.ret then P (t ++ .start :: st.calls) ⟨st.self, w.count + 1⟩
      else Q (t ++ .start :: st.calls) ⟨st.self, w.count + 1⟩)
    (hcalls : ∀ t w, P t w → R (t ++ (K.playing.run w r.calls).2) (K.playing.run w r.calls).1)
    (hstop : ∀ t w, R t w → Q (t ++ (K.stop w.sink).calls) ⟨(K.stop w.sink).self, w.count + 1⟩) :
    Q (t ++ (K.round w r).2) (K.round w r).1 := by
  have h := hstart _ rfl
  unfold BaseSinkClass.round
  dsimp only
  split_ifs at h ⊢
  · simpa using hstop _ _ (hcalls _ _ h)
  · exact h

/-- `start` with the marker before it. -/
theorem start_handles (s : S) (a : StartAnswers Unit) (n : Nat) :
    Handles n (base s) (base (K.start s (a.number n)).self) (.start :: (K.start s (a.number n)).calls) :=
  ⟨(hK.start s a n).handles.created, (hK.start s a n).handles.released, (hK.start s a n).handles.held⟩

theorem numbered_round {t : List (Call Handle)} {w : Player S} (hn : Numbered w.count t (base w.sink))
    (r : Round) : Numbered (K.round w r).1.count (t ++ (K.round w r).2) (base (K.round w r).1.sink) := by
  refine round_ind (P := fun t w => Numbered w.count t (base w.sink))
    (R := fun t w => Numbered w.count t (base w.sink)) (Q := fun t w => Numbered w.count t (base w.sink)) ?_
    (fun t w hn => numbered_calls hK hn r.calls) (fun t w hn => hn.step (hK.stop w.sink w.count))
  rintro st rfl
  have h := hn.step (start_handles hK w.sink r.start w.count)
  split_ifs <;> exact h

theorem Broken.start {t : List (Call Handle)} {s : S} {n : Nat} (h : Broken t (base s))
    (hn : Numbered n t (base s)) (a : StartAnswers Unit) :
    Ruined (t ++ .start :: (K.start s (a.number n)).calls) (base (K.start s (a.number n)).self) := by
  rcases h with h | h
  · exact h.step hn (start_handles hK s a n)
  · obtain ⟨hnew, hreleased⟩ := (hK.start s a n).overwrites
    refine Or.inr ⟨(.fd, (base s).fd), h.append ?_, fun hholds => ?_⟩
    · rw [Ledger.released_cons, hreleased]
      exact List.not_mem_nil
    · have hfd : (base s).fd = (base (K.start s (a.number n)).self).fd := hholds
      rw [← hfd] at hnew
      exact hn.not_new h.created hnew

/-- **A round repairs nothing.** -/
theorem Broken.round {t : List (Call Handle)} {w : Player S} (h : Broken t (base w.sink))
    (hn : Numbered w.count t (base w.sink)) (r : Round) :
    Broken (t ++ (K.round w r).2) (base (K.round w r).1.sink) := by
  refine round_ind (P := fun t w => Numbered w.count t (base w.sink) ∧ Ruined t (base w.sink))
    (R := fun t w => Numbered w.count t (base w.sink) ∧ Ruined t (base w.sink))
    (Q := fun t w => Broken t (base w.sink)) ?_
    (fun t w ⟨hn, h⟩ => ⟨numbered_calls hK hn r.calls, ruined_calls hK hn h r.calls⟩)
    (fun t w ⟨hn, h⟩ => Or.inl (h.step hn (hK.stop w.sink w.count)))
  rintro st rfl
  have hruined := h.start hK hn r.start
  split_ifs
  · exact ⟨hn.step (start_handles hK w.sink r.start w.count), hruined⟩
  · exact Or.inl hruined

/-- A round whose `start` opens the device and fails. -/
theorem broken_start {t : List (Call Handle)} {s : S} {n : Nat} (hn : Numbered n t (base s))
    (a : StartAnswers Unit) (hfd : a.fd.isSome) (hret : (K.start s (a.number n)).ret = false) :
    Broken (t ++ .start :: (K.start s (a.number n)).calls) (base (K.start s (a.number n)).self) := by
  have hstart := hK.start s a n
  generalize K.start s (a.number n) = r at hstart hret
  obtain ⟨ret, self, calls⟩ := r
  dsimp only at hstart hret ⊢
  subst hret
  generalize base self = s' at hstart
  cases hstart with
  | shut hnone => simp [hnone] at hfd
  | failed _ _ hcalls =>
      refine Or.inr (hn.lost ?_ ⟨0, rfl⟩ ?_)
      · rw [Ledger.created_cons, hcalls.1]
        exact List.mem_append_right _ (List.mem_singleton_self _)
      · rw [Ledger.released_cons, hcalls.2]
        rfl

end Rounds

end SysSnippets.Gst
