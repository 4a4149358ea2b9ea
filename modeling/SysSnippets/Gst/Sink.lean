import SysSnippets.Drm.Libdrm
import Mathlib.Logic.Function.Basic
import Mathlib.Algebra.GroupWithZero.Nat

/-!
# The sinks of `gst-drm`

`drmsink.c` shows a video on a CRTC, `drmplanesink.c` on a plane. `Sink` is what their
`struct gst_drm_sink` share, `DrmSink` and `DrmPlaneSink` add the rest.

`H` is the type of handles, which the code only stores and passes on: descriptors, pointers and ids. The
value `default` stands for the zero of a fresh object and for NULL.

* `Call` : one call out of a sink, with its result; the enumeration of connectors and planes in `start` is
  not shown;
* `Result` : what a function returns, the sink after it and the calls it made;
* `BaseSinkClass` : the functions that `class_init` enters in the `GstBaseSinkClass`; `BaseCall` : the calls of
  those that run between `start` and `stop`.
-/

namespace SysSnippets.Gst
open SysSnippets.Lib

abbrev DRM_FRAMES : Nat := 2

scoped instance instNeZeroFrames : NeZero DRM_FRAMES := ⟨Nat.succ_ne_zero 1⟩

/-- Caps that the sink template admits. -/
structure Caps where
  width : U32
  height : U32
  width_range : 16 ≤ width.toNat ∧ width.toNat ≤ 4096
  height_range : 16 ≤ height.toNat ∧ height.toNat ≤ 4096

theorem sixteen_range : 16 ≤ (16 : U32).toNat ∧ (16 : U32).toNat ≤ 4096 := by decide

/-- `GstBuffer`; `GST_BUFFER_SIZE` is a `guint`. -/
structure Buffer where
  data : List Byte
  size_lt : data.length < 2 ^ 32

theorem black_size : (List.replicate 1024 (0 : Byte)).length < 2 ^ 32 := by
  rw [List.length_replicate]
  decide

def Buffer.size (buffer : Buffer) : U32 := BitVec.ofNat 32 buffer.data.length

/-- What `drmModeGetCrtc` returned: the pointer and what it points to. -/
structure SavedCrtc (H : Type) where
  ptr : H
  crtc : Drm.Crtc

inductive Call (H : Type)
  /-- `GstBaseSink` calls `start` -/
  | start
  | openDevice (fd : Option H)
  | kmsCreate (fd : H) (drv : Option H)
  | kmsBoCreate (drv : H) (width height : U32) (bo : Option H)
  | kmsBoGetPitch (bo : H) (pitch : Option U32)
  | kmsBoGetHandle (bo : H) (handle : Option U32)
  | kmsBoMap (bo : H) (frame : Option H)
  | drmModeAddFB (fd : H) (width height stride handle : U32) (fb : Option H)
  | drmModeGetCrtc (fd : H) (crtcId : U32) (crtc : Option (SavedCrtc H))
  | memcpy (frame : H) (offset : Nat) (bytes : List Byte)
  | drmModeSetCrtc (fd : H) (crtcId : U32) (fb : H) (connId : U32) (mode : Drm.ModeInfo) (ok : Bool)
  | drmModeDirtyFB (fd fb : H)
  | drmModeSetPlane (fd : H) (planeId crtcId : U32) (fb : H) (posx posy width height srcW srcH : U32)
      (ok : Bool)
  /-- `self->saved_crtc->mode_valid` -/
  | readSaved (crtc : Option (SavedCrtc H))
  /-- `drmModeSetCrtc` with the saved configuration -/
  | restoreCrtc (fd : H) (crtc : SavedCrtc H) (connId : U32)
  /-- `drmModeSetPlane` without CRTC and framebuffer -/
  | disablePlane (fd : H) (planeId : U32)
  | drmModeRmFB (fd fb : H)
  | kmsBoUnmap (bo : H)
  | kmsBoDestroy (bo : H)
  | kmsDestroy (drv : H)
  | close (fd : H)

structure Result (H S : Type) where
  ret : Bool
  self : S
  calls : List (Call H)

/-! ## What the calls of a function return -/

structure StartAnswers (H : Type) where
  fd : Option H
  /-- `drmModeGetResources`, then `drmModeGetConnector` for each -/
  connectors : Option (List (Option Drm.Connector))
  /-- `drmModeGetPlaneResources`, then `drmModeGetPlane` for each: the plane id -/
  planes : Option (List (Option U32))
  drv : Option H

structure FrameAnswers (H : Type) where
  bo : Option H
  pitch : Option U32
  handle : Option U32
  frame : Option H
  fb : Option H

/-- All calls for a frame succeed. -/
def FrameAnswers.Complete {H : Type} (a : FrameAnswers H) : Prop :=
  a.bo.isSome ∧ a.pitch.isSome ∧ a.handle.isSome ∧ a.frame.isSome ∧ a.fb.isSome

instance {H : Type} (a : FrameAnswers H) : Decidable a.Complete :=
  inferInstanceAs (Decidable (_ ∧ _ ∧ _ ∧ _ ∧ _))

structure SetupAnswers (H : Type) where
  frames : Fin DRM_FRAMES → FrameAnswers H
  crtc : Option (SavedCrtc H)

/-! ## What the two sinks share -/

structure Sink (H : Type) where
  enabled : Bool
  drv : H
  frame : Fin DRM_FRAMES → H
  bo : Fin DRM_FRAMES → H
  stride : Fin DRM_FRAMES → U32
  fb : Fin DRM_FRAMES → H
  current : Fin DRM_FRAMES
  width : U32
  height : U32
  fd : H

section Shared
variable {H : Type} [Inhabited H]

/-- A fresh GObject. -/
def Sink.zero : Sink H :=
  ⟨false, default, fun _ => default, fun _ => default, fun _ => 0, fun _ => default, 0, 0, 0, default⟩

/-- The body of the loop over the frames in `setup`. -/
def Sink.setupFrame (self : Sink H) (width height : U32) (a : FrameAnswers H) (i : Fin DRM_FRAMES) :
    Result H (Sink H) :=
  match a.bo with
  | none => ⟨false, self, [.kmsBoCreate self.drv width height none]⟩
  | some bo =>
      let self := { self with bo := Function.update self.bo i bo }
      let calls := [.kmsBoCreate self.drv width height (some bo)]
      match a.pitch with
      | none => ⟨false, self, calls ++ [.kmsBoGetPitch bo none]⟩
      | some stride =>
          let self := { self with stride := Function.update self.stride i stride }
          let calls := calls ++ [.kmsBoGetPitch bo (some stride)]
          match a.handle with
          | none => ⟨false, self, calls ++ [.kmsBoGetHandle bo none]⟩
          | some handle =>
              let calls := calls ++ [.kmsBoGetHandle bo (some handle)]
              match a.frame with
              | none => ⟨false, self, calls ++ [.kmsBoMap bo none]⟩
              | some frame =>
                  let self := { self with frame := Function.update self.frame i frame }
                  let calls := calls ++ [.kmsBoMap bo (some frame)]
                  match a.fb with
                  | none => ⟨false, self, calls ++ [.drmModeAddFB self.fd width height stride handle none]⟩
                  | some fb =>
                      ⟨true, { self with fb := Function.update self.fb i fb },
                        calls ++ [.drmModeAddFB self.fd width height stride handle (some fb)]⟩

/-- The loop over the frames in `setup`. -/
def Sink.setupFrames (width height : U32) (a : Fin DRM_FRAMES → FrameAnswers H) :
    List (Fin DRM_FRAMES) → Sink H → Result H (Sink H)
  | [], self => ⟨true, self, []⟩
  | i :: is, self =>
      let r := self.setupFrame width height (a i) i
      if r.ret then
        let t := setupFrames width height a is r.self
        ⟨t.ret, t.self, r.calls ++ t.calls⟩
      else r

/-- The check of `render`. -/
def Sink.refuses (self : Sink H) (buffer : Buffer) : Bool :=
  decide (buffer.size < 4 * self.width * self.height)

/-- One `memcpy` of `render`. -/
def Sink.copyRow (self : Sink H) (buffer : Buffer) (s : U32) : Call H :=
  .memcpy (self.frame self.current) (s * self.stride self.current).toNat
    ((buffer.data.drop (4 * s * self.width).toNat).take (4 * self.width).toNat)

/-- The copy loop of `render`. -/
def Sink.copyRows (self : Sink H) (buffer : Buffer) : List (Call H) :=
  (List.range self.height.toNat).map fun s => self.copyRow buffer (BitVec.ofNat 32 s)

/-- What `stop` does last. `kms_bo_destroy` and `kms_destroy` clear the pointer they are given. -/
def Sink.teardown (self : Sink H) : Result H (Sink H) :=
  ⟨true, { self with bo := fun _ => default, drv := default },
    ([0, 1] : List (Fin DRM_FRAMES)).flatMap (fun i =>
      [.drmModeRmFB self.fd (self.fb i), .kmsBoUnmap (self.bo i), .kmsBoDestroy (self.bo i)]) ++
    [.kmsDestroy self.drv, .close self.fd]⟩

end Shared

/-! ## `drmsink.c` -/

structure DrmSink (H : Type) extends Sink H where
  savedCrtc : Option (SavedCrtc H)
  /-- what `mode` points to, from the first successful `start` on -/
  mode : Drm.ModeInfo
  modeName : List Byte
  connId : U32
  crtcId : U32

namespace DrmSink
variable {H : Type} [Inhabited H]

def zero (modeName : List Byte) (connId crtcId : U32) : DrmSink H :=
  ⟨.zero, none, ⟨[], 0, 0, []⟩, modeName, connId, crtcId⟩

def start (self : DrmSink H) (a : StartAnswers H) : Result H (DrmSink H) :=
  match a.fd with
  | none => ⟨false, { self with fd := default }, [.openDevice none]⟩
  | some fd =>
      let self := { self with fd := fd }
      let calls := [.openDevice (some fd)]
      match a.connectors with
      | none => ⟨false, self, calls⟩
      | some connectors =>
          match (connectors.filterMap id).find? (·.connectorId = self.connId) with
          | none => ⟨false, self, calls⟩
          | some connector =>
              match connector.modes.find? (·.name = self.modeName) with
              | none => ⟨false, self, calls⟩
              | some mode =>
                  let self := { self with mode := mode }
                  match a.drv with
                  | none => ⟨false, self, calls ++ [.kmsCreate fd none]⟩
                  | some drv => ⟨true, { self with drv := drv }, calls ++ [.kmsCreate fd (some drv)]⟩

def setup (self : DrmSink H) (caps : Caps) (a : SetupAnswers H) : Result H (DrmSink H) :=
  if self.mode.hdisplay.toNat < caps.width.toNat ∨ self.mode.vdisplay.toNat < caps.height.toNat then
    ⟨false, self, []⟩
  else
    let self := { self with width := caps.width, height := caps.height }
    let r := self.toSink.setupFrames (self.mode.hdisplay.setWidth 32) (self.mode.vdisplay.setWidth 32)
      a.frames [0, 1]
    let self := { self with toSink := r.self }
    if r.ret then
      let self := { self with savedCrtc := a.crtc }
      let calls := r.calls ++ [.drmModeGetCrtc self.fd self.crtcId a.crtc]
      match a.crtc with
      | none => ⟨false, self, calls⟩
      | some _ => ⟨true, { self with enabled := true, current := 0 }, calls⟩
    else ⟨false, self, r.calls⟩

def setcaps (self : DrmSink H) (caps : Caps) (a : SetupAnswers H) : Result H (DrmSink H) :=
  if self.enabled then ⟨true, self, []⟩ else self.setup caps a

def render (self : DrmSink H) (buffer : Buffer) (ok : Bool) : Result H (DrmSink H) :=
  if self.refuses buffer then ⟨false, self, []⟩
  else
    let fb := self.fb self.current
    let calls := self.copyRows buffer ++
      [.drmModeSetCrtc self.fd self.crtcId fb self.connId self.mode ok]
    if ok then
      ⟨true, { self with current := self.current ^^^ 1 }, calls ++ [.drmModeDirtyFB self.fd fb]⟩
    else ⟨false, self, calls⟩

def stop (self : DrmSink H) : Result H (DrmSink H) :=
  match self.savedCrtc with
  | none => ⟨false, self, [.readSaved none]⟩
  | some saved =>
      let restore := if saved.crtc.modeValid then [.restoreCrtc self.fd saved self.connId] else []
      let r := self.toSink.teardown
      ⟨r.ret, { self with toSink := r.self }, .readSaved (some saved) :: restore ++ r.calls⟩

end DrmSink

/-! ## `drmplanesink.c` -/

structure DrmPlaneSink (H : Type) extends Sink H where
  planeId : U32
  crtcId : U32
  posx : U32
  posy : U32

namespace DrmPlaneSink
variable {H : Type} [Inhabited H]

def zero (planeId crtcId posx posy : U32) : DrmPlaneSink H := ⟨.zero, planeId, crtcId, posx, posy⟩

def start (self : DrmPlaneSink H) (a : StartAnswers H) : Result H (DrmPlaneSink H) :=
  match a.fd with
  | none => ⟨false, { self with fd := default }, [.openDevice none]⟩
  | some fd =>
      let self := { self with fd := fd }
      let calls := [.openDevice (some fd)]
      match a.planes with
      | none => ⟨false, self, calls⟩
      | some planes =>
          match (planes.filterMap id).find? (· = self.planeId) with
          | none => ⟨false, self, calls⟩
          | some _ =>
              match a.drv with
              | none => ⟨false, self, calls ++ [.kmsCreate fd none]⟩
              | some drv => ⟨true, { self with drv := drv }, calls ++ [.kmsCreate fd (some drv)]⟩

def setup (self : DrmPlaneSink H) (caps : Caps) (a : SetupAnswers H) : Result H (DrmPlaneSink H) :=
  let self := { self with width := caps.width, height := caps.height }
  let r := self.toSink.setupFrames self.width self.height a.frames [0, 1]
  let self := { self with toSink := r.self }
  if r.ret then ⟨true, { self with enabled := true, current := 0 }, r.calls⟩
  else ⟨false, self, r.calls⟩

def setcaps (self : DrmPlaneSink H) (caps : Caps) (a : SetupAnswers H) : Result H (DrmPlaneSink H) :=
  if self.enabled then ⟨true, self, []⟩ else self.setup caps a

def render (self : DrmPlaneSink H) (buffer : Buffer) (ok : Bool) : Result H (DrmPlaneSink H) :=
  if self.refuses buffer then ⟨false, self, []⟩
  else
    let calls := self.copyRows buffer ++
      [.drmModeSetPlane self.fd self.planeId self.crtcId (self.fb self.current) self.posx self.posy
        self.width self.height (self.width <<< 16) (self.height <<< 16) ok]
    if ok then ⟨true, { self with current := self.current ^^^ 1 }, calls⟩ else ⟨false, self, calls⟩

def stop (self : DrmPlaneSink H) : Result H (DrmPlaneSink H) :=
  let r := self.toSink.teardown
  ⟨r.ret, { self with toSink := r.self }, .disablePlane self.fd self.planeId :: r.calls⟩

end DrmPlaneSink

/-! ## The two classes -/

/-- `GstBaseSinkClass`; `preroll` is `render` in both sinks. -/
structure BaseSinkClass (H S : Type) where
  start : S → StartAnswers H → Result H S
  setCaps : S → Caps → SetupAnswers H → Result H S
  render : S → Buffer → Bool → Result H S
  stop : S → Result H S

/-- What `GstBaseSink` calls between `start` and `stop`. -/
inductive BaseCall (H : Type)
  | setCaps (caps : Caps) (a : SetupAnswers H)
  | render (buffer : Buffer) (ok : Bool)

section Classes
variable {H : Type} [Inhabited H]

def drmsink : BaseSinkClass H (DrmSink H) :=
  ⟨DrmSink.start, DrmSink.setcaps, DrmSink.render, DrmSink.stop⟩

def drmplanesink : BaseSinkClass H (DrmPlaneSink H) :=
  ⟨DrmPlaneSink.start, DrmPlaneSink.setcaps, DrmPlaneSink.render, DrmPlaneSink.stop⟩

end Classes

end SysSnippets.Gst
