import SysSnippets.Drm.Libdrm
import SysSnippets.Lib.Scope

/-!
# The buffer programs of `drm-tests` and their cleanup labels

`drm_dumb_bo`, `drm_dumb_bo_libkms`, `drm_dumb_bo_plane` and `drm_dumb_bo_mult` open the card, make a buffer and a
framebuffer for a CRTC, a plane or both, show it, and clean up on the way out. What the calls return is the input; an
`Int` is a return value.

* `Call`, `ledger` : the calls, and the objects they create, use and release;
* `kmsBuffer` : the steps that three of the programs take to a framebuffer, once or twice;
* `findPlane` : the loop over the planes;
* `drmDumbBo`, `drmDumbBoLibkms`, `drmDumbBoPlane`, `drmDumbBoMult` : the programs, each with its labels.
-/

namespace SysSnippets.DrmTests.Buffers
open SysSnippets.Lib SysSnippets.Drm

def EFAULT : Int := 14
def ENODEV : Int := 19
def EINVAL : Int := 22

inductive Layer
  | crtc
  | plane
  deriving DecidableEq

/-- What a program holds. A picture that is shown is an object as well. -/
inductive Object
  | fd
  | drv
  | bo (l : Layer)
  | mapping (l : Layer)
  | fb (l : Layer)
  | shown (l : Layer)
  | savedCrtc
  | currentCrtc
  | planeResources
  | planeAt (i : Nat)
  /-- of `kms_data` -/
  | configuredCrtc
  deriving DecidableEq

/-- What the command line or `drm_autoconf` chose. -/
structure Display where
  connId : U32
  /-- of a CRTC that is NULL where `drm_autoconf` finds none -/
  crtcId : Option U32
  mode : ModeInfo

/-- How the configuration ends. -/
inductive Config
  | failed
  /-- `exit(0)` behind the text of `drm_cmdline_usage` -/
  | usage
  /-- `drm_autoconf` takes the first of no encoders, or shifts by 32 or more -/
  | undefined
  | chosen (kms : Display)

def Config.hasCrtc : Config → Bool
  | .chosen kms => kms.crtcId.isSome
  | _ => false

inductive Call
  | openDevice (found : Bool)
  | drmSetMaster
  | configure (kms : Config)
  | dumpDrmConfiguration
  | drmGetModeByName (connId : U32) (modeName : List Byte) (mode : Option ModeInfo)
  | drmGetCap (ret : Int) (hasDumb : Bool)
  | kmsCreate (ret : Int)
  | kmsBoCreate (l : Layer) (width height : U32) (ret : Int)
  | kmsBoGetPitch (l : Layer) (ret : Int)
  | kmsBoGetHandle (l : Layer) (ret : Int)
  | kmsBoMap (l : Layer) (ret : Int)
  | createDumb (l : Layer) (width height : U32) (ret : Int)
  | mapDumb (l : Layer) (ret : Int)
  | mmap (l : Layer) (mapped : Bool)
  /-- with a depth of 24 in 32 bits -/
  | drmModeAddFB (l : Layer) (width height pitch handle : U32) (ret : Int)
  | drmModeGetCrtc (o : Object) (crtcId : U32) (found : Bool)
  | readCrtc (o : Object)
  /-- shows the framebuffer `fb` -/
  | drmModeSetCrtc (l : Layer) (crtcId fb x y connId : U32) (mode : ModeInfo) (ret : Int)
  /-- `drmModeSetCrtc` with what was saved -/
  | restoreCrtc (l : Layer) (saved : Crtc) (connId : U32) (ret : Int)
  | drawImage (l : Layer)
  | drmModeDirtyFB (l : Layer)
  | drmModeGetPlaneResources (found : Bool)
  | drmModeGetPlane (i : Nat) (id : U32) (found : Bool)
  | readPlane (i : Nat)
  /-- `none` is NULL -/
  | drmModeFreePlane (plane : Option Nat)
  | drmModeSetPlane (l : Layer) (args : PlaneArgs) (ret : Int)
  /-- `drmModeSetPlane` with zeros -/
  | disablePlane (l : Layer) (planeId : U32) (ret : Int)
  | drmModeRmFB (l : Layer) (fb : U32)
  | kmsBoUnmap (l : Layer) (ret : Int)
  | munmap (l : Layer)
  | kmsBoDestroy (l : Layer) (ret : Int)
  | destroyDumb (l : Layer) (handle : U32) (ret : Int)
  | kmsDestroy (ret : Int)
  | close

@[simp] def Call.creates : Call → List Object
  | .openDevice found => if found then [.fd] else []
  | .configure kms => if kms.hasCrtc then [.configuredCrtc] else []
  | .kmsCreate ret => if ret = 0 then [.drv] else []
  | .kmsBoCreate l _ _ ret | .createDumb l _ _ ret => if ret = 0 then [.bo l] else []
  | .kmsBoMap l ret => if ret = 0 then [.mapping l] else []
  | .mmap l mapped => if mapped then [.mapping l] else []
  | .drmModeAddFB l _ _ _ _ ret => if ret = 0 then [.fb l] else []
  | .drmModeGetCrtc o _ found => if found then [o] else []
  | .drmModeGetPlaneResources found => if found then [.planeResources] else []
  | .drmModeGetPlane i _ found => if found then [.planeAt i] else []
  | .drmModeSetCrtc l _ _ _ _ _ _ ret | .drmModeSetPlane l _ ret => if ret = 0 then [.shown l] else []
  | _ => []

/-- What must be there when the call is made. A picture is taken away while its framebuffer is there. -/
@[simp] def Call.uses : Call → List Object
  | .openDevice _ => []
  | .drmSetMaster | .configure _ | .drmGetModeByName _ _ _ | .drmGetCap _ _ | .kmsCreate _ => [.fd]
  | .dumpDrmConfiguration => [.configuredCrtc]
  | .kmsBoCreate _ _ _ _ => [.drv]
  | .kmsBoGetPitch l _ | .kmsBoGetHandle l _ | .kmsBoMap l _ => [.drv, .bo l]
  | .createDumb _ _ _ _ => [.fd]
  | .mapDumb l _ | .mmap l _ => [.fd, .bo l]
  | .drmModeAddFB l _ _ _ _ _ => [.fd, .bo l]
  | .drmModeGetCrtc _ _ _ => [.fd]
  | .readCrtc o => [o]
  | .drmModeSetCrtc l _ _ _ _ _ _ _ => [.fd, .fb l]
  | .restoreCrtc l _ _ _ => [.fd, .savedCrtc, .fb l]
  | .drawImage l => [.mapping l]
  | .drmModeDirtyFB l => [.fd, .fb l]
  | .drmModeGetPlaneResources _ => [.fd]
  | .drmModeGetPlane _ _ _ => [.fd, .planeResources]
  | .readPlane i => [.planeAt i]
  | .drmModeFreePlane plane => (plane.map .planeAt).toList
  | .drmModeSetPlane l _ _ => [.fd, .fb l]
  | .disablePlane l _ _ => [.fd, .fb l]
  | .drmModeRmFB l _ => [.fd, .fb l]
  | .kmsBoUnmap l _ => [.drv, .bo l, .mapping l]
  | .munmap l => [.mapping l]
  | .kmsBoDestroy l _ => [.drv, .bo l]
  | .destroyDumb l _ _ => [.fd, .bo l]
  | .kmsDestroy _ => [.fd, .drv]
  | .close => [.fd]

@[simp] def Call.releases : Call → List Object
  | .restoreCrtc l _ _ ret | .disablePlane l _ ret => if ret = 0 then [.shown l] else []
  | .drmModeFreePlane plane => (plane.map .planeAt).toList
  | .drmModeRmFB l _ => [.fb l]
  | .kmsBoUnmap l _ | .munmap l => [.mapping l]
  | .kmsBoDestroy l _ | .destroyDumb l _ _ => [.bo l]
  | .kmsDestroy _ => [.drv]
  | .close => [.fd]
  | _ => []

def ledger : Ledger Call Object := ⟨Call.creates, Call.uses, Call.releases, fun _ => false⟩

/-- The rest of a program from some point on; `none` is a `ret` that was never set, or that is never returned. -/
structure Run where
  calls : List Call
  ret : Option Int

def Run.after (calls : List Call) (r : Run) : Run := ⟨calls ++ r.calls, r.ret⟩

/-! ## Steps the programs share -/

/-- How far the steps to a framebuffer got. -/
inductive Stage
  | none
  | bo
  | mapped
  | fb
  deriving DecidableEq

structure KmsAnswers where
  kmsBoCreate : Int
  pitch : Int
  stride : U32
  gemHandle : Int
  handle : U32
  kmsBoMap : Int
  addFB : Int
  fb : U32
  kmsBoUnmap : Int
  kmsBoDestroy : Int

def kmsBuffer (l : Layer) (width height : U32) (a : KmsAnswers) : List Call × Stage :=
  let create := Call.kmsBoCreate l width height a.kmsBoCreate
  if a.kmsBoCreate ≠ 0 then ([create], .none)
  else
    let pitch := Call.kmsBoGetPitch l a.pitch
    if a.pitch ≠ 0 then ([create, pitch], .bo)
    else
      let handle := Call.kmsBoGetHandle l a.gemHandle
      if a.gemHandle ≠ 0 then ([create, pitch, handle], .bo)
      else
        let map := Call.kmsBoMap l a.kmsBoMap
        if a.kmsBoMap ≠ 0 then ([create, pitch, handle, map], .bo)
        else
          let add := Call.drmModeAddFB l width height a.stride a.handle a.addFB
          if a.addFB ≠ 0 then ([create, pitch, handle, map, add], .mapped)
          else ([create, pitch, handle, map, add], .fb)

structure CrtcAnswers where
  saved : Option Crtc
  set : Int
  current : Bool
  restore : Int

/-- From the new configuration to the picture. -/
def present (crtcId : U32) (a : CrtcAnswers) : List Call :=
  .drmModeGetCrtc .currentCrtc crtcId a.current ::
    (if a.current then [.readCrtc .currentCrtc] else []) ++ [.drawImage .crtc, .drmModeDirtyFB .crtc]

/-- From `drmModeGetCrtc` to the picture, with what was saved if it gets there. -/
def showCrtc (crtcId fb connId : U32) (mode : ModeInfo) (a : CrtcAnswers) : List Call × Option Crtc :=
  match a.saved with
  | none => ([.drmModeGetCrtc .savedCrtc crtcId false], none)
  | some saved =>
      let set := [.drmModeGetCrtc .savedCrtc crtcId true, .readCrtc .savedCrtc,
        .drmModeSetCrtc .crtc crtcId fb 0 0 connId mode a.set]
      if a.set ≠ 0 then (set, none) else (set ++ present crtcId a, some saved)

/-- `if (saved_crtc->mode_valid)` -/
def restore (saved : Crtc) (connId : U32) (ret : Int) : List Call :=
  if saved.modeValid then [.readCrtc .savedCrtc, .restoreCrtc .crtc saved connId ret]
  else [.readCrtc .savedCrtc]

/-- The loop over the planes from index `i` on, each with the id of the plane got; it frees `plane`, which is NULL up to
the plane it stops at. -/
def findPlane (planeId : U32) (i : Nat) : List (U32 × Option U32) → List Call × Option Nat
  | [] => ([], none)
  | (id, none) :: rest =>
      let (calls, found) := findPlane planeId (i + 1) rest
      (.drmModeGetPlane i id false :: calls, found)
  | (id, some got) :: rest =>
      if got = planeId then ([.drmModeGetPlane i id true, .readPlane i], some i)
      else
        let (calls, found) := findPlane planeId (i + 1) rest
        (.drmModeGetPlane i id true :: .readPlane i :: .drmModeFreePlane none :: calls, found)

/-- From `drmModeGetPlaneResources` to the plane with the id; `none` are resources that are NULL. -/
def getPlane (planeId : U32) : Option (List (U32 × Option U32)) → List Call × Option Nat
  | none => ([.drmModeGetPlaneResources false], none)
  | some planes =>
      let (calls, found) := findPlane planeId 0 planes
      (.drmModeGetPlaneResources true :: calls, found)

/-- What the command line gives; a number that no option gives is 0, or what is in the variable. -/
structure Options where
  /-- of `-m` -/
  modeName : Option (List Byte)
  connId : U32
  crtcId : U32
  planeId : U32
  posx : U32
  posy : U32
  width : U32
  height : U32

def Options.planeArgs (o : Options) (fb : U32) : PlaneArgs where
  planeId := o.planeId
  crtcId := o.crtcId
  fb := fb
  flags := 0
  crtcX := o.posx
  crtcY := o.posy
  crtcW := o.width
  crtcH := o.height
  srcX := 0
  srcY := 0
  srcW := o.width <<< 16
  srcH := o.height <<< 16

/-- From `drmModeSetPlane` to the cleanup, with what the two calls of it return. -/
def showPlane (o : Options) (fb : U32) (set disable : Int) : List Call :=
  if set ≠ 0 then [.drmModeSetPlane .plane (o.planeArgs fb) set]
  else [.drmModeSetPlane .plane (o.planeArgs fb) set, .drawImage .plane, .disablePlane .plane o.planeId disable]

def modeWidth (mode : ModeInfo) : U32 := mode.hdisplay.setWidth 32
def modeHeight (mode : ModeInfo) : U32 := mode.vdisplay.setWidth 32

/-- `err_close` -/
def errClose (ret : Int) : Run := ⟨[.close], some ret⟩

/-! ## `drm_dumb_bo_mult.c` -/

structure MultAnswers where
  openDevice : Bool
  kmsCreate : Int
  mode : Option ModeInfo
  crtc : KmsAnswers
  screen : CrtcAnswers
  planes : Option (List (U32 × Option U32))
  plane : KmsAnswers
  setPlane : Int
  disablePlane : Int
  kmsDestroy : Int

namespace Mult
variable (o : Options) (a : MultAnswers)

def errDriverDestroy : Run := .after [.kmsDestroy a.kmsDestroy] (errClose a.kmsDestroy)

def errCrtcBufferDestroy : Run := .after [.kmsBoDestroy .crtc a.crtc.kmsBoDestroy] (errDriverDestroy a)

def errCrtcBufferUnmap : Run := .after [.kmsBoUnmap .crtc a.crtc.kmsBoUnmap] (errCrtcBufferDestroy a)

def errCrtcRmFb : Run := .after [.drmModeRmFB .crtc a.crtc.fb] (errCrtcBufferUnmap a)

def errCrtcExit (saved : Crtc) : Run := .after (restore saved o.connId a.screen.restore) (errCrtcRmFb a)

def errPlaneBufferDestroy (saved : Crtc) : Run :=
  .after [.kmsBoDestroy .plane a.plane.kmsBoDestroy] (errCrtcExit o a saved)

def errPlaneBufferUnmap (saved : Crtc) : Run :=
  .after [.kmsBoUnmap .plane a.plane.kmsBoUnmap] (errPlaneBufferDestroy o a saved)

def errPlaneRmFb (saved : Crtc) : Run :=
  .after [.drmModeRmFB .plane a.plane.fb] (errPlaneBufferUnmap o a saved)

/-- From `kms_bo_create(drv, attr, &bo_plane)` on. -/
def planeBuffer (saved : Crtc) : Run :=
  match kmsBuffer .plane o.width o.height a.plane with
  | (calls, .none) => .after calls (errCrtcExit o a saved)
  | (calls, .bo) => .after calls (errPlaneBufferDestroy o a saved)
  | (calls, .mapped) => .after calls (errPlaneBufferUnmap o a saved)
  | (calls, .fb) =>
      .after (calls ++ showPlane o a.plane.fb a.setPlane a.disablePlane) (errPlaneRmFb o a saved)

/-- From `drmModeGetPlaneResources` on. -/
def configurePlane (saved : Crtc) : Run :=
  match getPlane o.planeId a.planes with
  | (calls, none) => .after calls (errCrtcExit o a saved)
  | (calls, some _) => .after calls (planeBuffer o a saved)

/-- From `drmModeGetCrtc` on. -/
def configureImage (mode : ModeInfo) : Run :=
  match showCrtc o.crtcId a.crtc.fb o.connId mode a.screen with
  | (calls, none) => .after calls (errCrtcRmFb a)
  | (calls, some saved) => .after calls (configurePlane o a saved)

/-- From `drm_get_mode_by_name` on. -/
def configureCrtc (modeName : List Byte) : Run :=
  let get := Call.drmGetModeByName o.connId modeName a.mode
  match a.mode with
  | none => .after [get] (errDriverDestroy a)
  | some mode =>
      match kmsBuffer .crtc (modeWidth mode) (modeHeight mode) a.crtc with
      | (calls, .none) => .after (get :: calls) (errDriverDestroy a)
      | (calls, .bo) => .after (get :: calls) (errCrtcBufferDestroy a)
      | (calls, .mapped) => .after (get :: calls) (errCrtcBufferUnmap a)
      | (calls, .fb) => .after (get :: calls) (configureImage o a mode)

end Mult

def drmDumbBoMult (o : Options) (a : MultAnswers) : Run :=
  if a.openDevice then
    let start := [.openDevice true, .drmSetMaster, .kmsCreate a.kmsCreate]
    if a.kmsCreate ≠ 0 then .after start (errClose a.kmsCreate)
    else
      match o.modeName with
      -- `mode_name` has no value: the end of what C defines
      | none => ⟨start, none⟩
      | some modeName => .after start (Mult.configureCrtc o a modeName)
  else ⟨[.openDevice false], none⟩

/-! ## `drm_dumb_bo_plane.c` -/

/-- The answers about a dumb buffer. -/
structure DumbAnswers where
  hasDumbRet : Int
  hasDumb : Bool
  create : Int
  handle : U32
  pitch : U32
  mapDumb : Int
  mmap : Bool
  addFB : Int
  fb : U32
  destroy : Int

structure PlaneAnswers where
  openDevice : Bool
  dumb : DumbAnswers
  planes : Option (List (U32 × Option U32))
  setPlane : Int
  disablePlane : Int

namespace Plane
variable (o : Options) (a : PlaneAnswers)

def errDestroyDumb : Run := .after [.destroyDumb .plane a.dumb.handle a.dumb.destroy] (errClose a.dumb.destroy)

def errDestroyFb : Run := .after [.drmModeRmFB .plane a.dumb.fb] (errDestroyDumb a)

def errUnmap : Run := .after [.munmap .plane] (errDestroyFb a)

/-- From `DRM_IOCTL_MODE_CREATE_DUMB` on. -/
def buffer : Run :=
  let create := Call.createDumb .plane o.width o.height a.dumb.create
  if a.dumb.create ≠ 0 then .after [create] (errClose a.dumb.create)
  else
    let add := Call.drmModeAddFB .plane o.width o.height a.dumb.pitch a.dumb.handle a.dumb.addFB
    if a.dumb.addFB ≠ 0 then .after [create, add] (errDestroyDumb a)
    else
      let map := Call.mapDumb .plane a.dumb.mapDumb
      if a.dumb.mapDumb ≠ 0 then .after [create, add, map] (errDestroyFb a)
      else if a.dumb.mmap then
        .after ([create, add, map, .mmap .plane true] ++
          showPlane o a.dumb.fb a.setPlane a.disablePlane) (errUnmap a)
      else .after [create, add, map, .mmap .plane false] (errDestroyFb a)

end Plane

def drmDumbBoPlane (o : Options) (a : PlaneAnswers) : Run :=
  if a.openDevice then
    let start := [.openDevice true, .drmSetMaster, .drmGetCap a.dumb.hasDumbRet a.dumb.hasDumb]
    if a.dumb.hasDumbRet < 0 then .after start (errClose (-EFAULT))
    else if a.dumb.hasDumb then
      match getPlane o.planeId a.planes with
      | (calls, none) => .after (start ++ calls) (errClose (-ENODEV))
      | (calls, some _) => .after (start ++ calls) (Plane.buffer o a)
    else .after start (errClose (-EFAULT))
  else ⟨[.openDevice false], some (-1)⟩

/-! ## `drm_dumb_bo.c` -/

structure DumbBoAnswers where
  openDevice : Bool
  kms : Config
  dumb : DumbAnswers
  screen : CrtcAnswers

/-- From `open` to `dump_drm_configuration`, and on with the id of the CRTC. With arguments the configuration is read from
the command line, else it is chosen. -/
def configure (cmdline : Bool) (kms : Config) (rest : Display → U32 → Run) : Run :=
  let start := [.openDevice true, .drmSetMaster, .configure kms]
  match kms with
  | .failed => .after start (errClose (if cmdline then -EINVAL else -EFAULT))
  | .usage => ⟨start, some 0⟩
  -- the end of what C defines
  | .undefined => ⟨start, none⟩
  | .chosen kms =>
      match kms.crtcId with
      -- `kms->crtc` is NULL: the end of what C defines
      | none => ⟨start ++ [.dumpDrmConfiguration], none⟩
      | some crtcId => .after (start ++ [.dumpDrmConfiguration]) (rest kms crtcId)

namespace DumbBo
variable (a : DumbBoAnswers)

def errDestroy : Run := .after [.destroyDumb .crtc a.dumb.handle a.dumb.destroy] (errClose a.dumb.destroy)

/-- `fb` is `dbo.fb`, which is 0 before there is a framebuffer. -/
def errFb (fb : U32) : Run := .after [.drmModeRmFB .crtc fb] (errDestroy a)

def errUnmap : Run := .after [.munmap .crtc] (errFb a a.dumb.fb)

/-- From `drmModeGetCrtc` on. -/
def image (kms : Display) (crtcId : U32) : Run :=
  match showCrtc crtcId a.dumb.fb kms.connId kms.mode a.screen with
  | (calls, none) => .after calls (errUnmap a)
  | (calls, some saved) => .after (calls ++ restore saved kms.connId a.screen.restore) (errUnmap a)

/-- From `DRM_IOCTL_MODE_CREATE_DUMB` on. -/
def buffer (kms : Display) (crtcId : U32) : Run :=
  let width := modeWidth kms.mode
  let height := modeHeight kms.mode
  let create := Call.createDumb .crtc width height a.dumb.create
  if a.dumb.create ≠ 0 then .after [create] (errClose a.dumb.create)
  else
    let map := Call.mapDumb .crtc a.dumb.mapDumb
    if a.dumb.mapDumb ≠ 0 then .after [create, map] (errFb a 0)
    else if a.dumb.mmap then
      let add := Call.drmModeAddFB .crtc width height a.dumb.pitch a.dumb.handle a.dumb.addFB
      if a.dumb.addFB ≠ 0 then .after [create, map, .mmap .crtc true, add] (errDestroy a)
      else .after [create, map, .mmap .crtc true, add] (image a kms crtcId)
    else .after [create, map, .mmap .crtc false] (errFb a 0)

/-- From `drmGetCap` on. -/
def checked (kms : Display) (crtcId : U32) : Run :=
  let cap := Call.drmGetCap a.dumb.hasDumbRet a.dumb.hasDumb
  if a.dumb.hasDumbRet < 0 then .after [cap] (errClose (-EFAULT))
  else if a.dumb.hasDumb then .after [cap] (buffer a kms crtcId)
  else .after [cap] (errClose (-EFAULT))

end DumbBo

def drmDumbBo (cmdline : Bool) (a : DumbBoAnswers) : Run :=
  if a.openDevice then configure cmdline a.kms (DumbBo.checked a) else ⟨[.openDevice false], some (-1)⟩

/-! ## `drm_dumb_bo_libkms.c` -/

structure LibkmsAnswers where
  openDevice : Bool
  kms : Config
  kmsCreate : Int
  buffer : KmsAnswers
  screen : CrtcAnswers
  kmsDestroy : Int

namespace Libkms
variable (a : LibkmsAnswers)

def errDriverDestroy : Run := .after [.kmsDestroy a.kmsDestroy] (errClose a.kmsDestroy)

def errBufferDestroy : Run := .after [.kmsBoDestroy .crtc a.buffer.kmsBoDestroy] (errDriverDestroy a)

def errBufferUnmap : Run := .after [.kmsBoUnmap .crtc a.buffer.kmsBoUnmap] (errBufferDestroy a)

/-- From `drmModeGetCrtc` on. -/
def image (kms : Display) (crtcId : U32) : Run :=
  match showCrtc crtcId a.buffer.fb kms.connId kms.mode a.screen with
  | (calls, none) => .after calls (errBufferUnmap a)
  | (calls, some saved) =>
      .after (calls ++ restore saved kms.connId a.screen.restore ++ [.drmModeRmFB .crtc a.buffer.fb])
        (errBufferUnmap a)

/-- From `kms_bo_create` on. -/
def buffer (kms : Display) (crtcId : U32) : Run :=
  match kmsBuffer .crtc (modeWidth kms.mode) (modeHeight kms.mode) a.buffer with
  | (calls, .none) => .after calls (errDriverDestroy a)
  | (calls, .bo) => .after calls (errBufferDestroy a)
  | (calls, .mapped) => .after calls (errBufferUnmap a)
  | (calls, .fb) => .after calls (image a kms crtcId)

/-- From `kms_create` on. -/
def driver (kms : Display) (crtcId : U32) : Run :=
  if a.kmsCreate ≠ 0 then .after [.kmsCreate a.kmsCreate] (errClose a.kmsCreate)
  else .after [.kmsCreate a.kmsCreate] (buffer a kms crtcId)

end Libkms

def drmDumbBoLibkms (cmdline : Bool) (a : LibkmsAnswers) : Run :=
  if a.openDevice then configure cmdline a.kms (Libkms.driver a) else ⟨[.openDevice false], some (-1)⟩

end SysSnippets.DrmTests.Buffers
