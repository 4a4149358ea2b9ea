import SysSnippets.Lib.Text

/-!
# The libdrm objects and calls the programs use

* `ModeInfo`, `Crtc`, `Connector` : the parts of `drmModeModeInfo`, `drmModeCrtc` and
  `drmModeConnector` that the code reads or passes on;
* `DrmCall` : one call with its arguments and what it returned;
* `drmGetModeByName` : `drm_get_mode_by_name` of `drm_utils.c`, with the calls it makes.
-/

namespace SysSnippets.Drm
open SysSnippets.Lib

/-- `drmModeModeInfo`. The name is the string in `name[DRM_DISPLAY_MODE_LEN]`; the clock, the
remaining timings, flags and type are only passed on. -/
structure ModeInfo where
  name : List Byte
  hdisplay : BitVec 16
  vdisplay : BitVec 16
  timing : List U32
  deriving DecidableEq, Repr

/-- `drmModeCrtc`. -/
structure Crtc where
  crtcId : U32
  bufferId : U32
  x : U32
  y : U32
  modeValid : Bool
  mode : ModeInfo
  deriving DecidableEq, Repr

/-- `drmModeConnector`. -/
structure Connector where
  connectorId : U32
  modes : List ModeInfo
  deriving DecidableEq, Repr

/-- The arguments of `drmModeSetPlane` after the descriptor. -/
structure PlaneArgs where
  planeId : U32
  crtcId : U32
  fb : U32
  flags : U32
  crtcX : U32
  crtcY : U32
  crtcW : U32
  crtcH : U32
  srcX : U32
  srcY : U32
  srcW : U32
  srcH : U32
  deriving DecidableEq, Repr

/-- One call into libdrm, with its arguments and its result; `modeByName` marks the return of
`drm_get_mode_by_name`, after the calls made inside it. -/
inductive DrmCall
  | authMagic (magic : U32) (ret : Int)
  | getResources (found : Bool)
  | freeResources
  | getConnector (id : U32) (found : Bool)
  | freeConnector (id : U32)
  | modeByName (connId : U32) (name : List Byte) (ret : Option ModeInfo)
  | getCrtc (id : U32) (ret : Option Crtc)
  | setCrtc (crtcId bufferId x y connId : U32) (mode : ModeInfo) (ret : Int)
  | setPlane (args : PlaneArgs) (ret : Int)
  deriving DecidableEq, Repr

/-- The call succeeded, as far as the caller of it in `main` looks: the calls inside
`drm_get_mode_by_name` count through its result only. -/
def DrmCall.Ok : DrmCall → Prop
  | .authMagic _ ret => ret = 0
  | .modeByName _ _ ret => ret.isSome
  | .getCrtc _ ret => ret.isSome
  | .setCrtc _ _ _ _ _ _ ret => ret = 0
  | .setPlane _ ret => ret = 0
  | .getResources _ | .freeResources | .getConnector _ _ | .freeConnector _ => True

instance : DecidablePred DrmCall.Ok := fun c => by
  cases c <;> unfold DrmCall.Ok <;> infer_instance

/-! ## `drm_get_mode_by_name` -/

/-- What the kernel lists: the connector ids, each with what `drmModeGetConnector` returns for it. -/
abbrev Connectors := List (U32 × Option Connector)

/-- The loop over `resources->connectors`: the calls it makes and the connector it stops at. -/
def findConnector (connId : U32) : Connectors → List DrmCall × Option Connector
  | [] => ([], none)
  | (id, none) :: cs =>
      let (calls, found) := findConnector connId cs
      (.getConnector id false :: calls, found)
  | (id, some connector) :: cs =>
      if connector.connectorId = connId then ([.getConnector id true], some connector)
      else
        let (calls, found) := findConnector connId cs
        (.getConnector id true :: .freeConnector id :: calls, found)

/-- `drm_get_mode_by_name`: the calls it makes and the mode it returns. -/
def drmGetModeByName (resources : Option Connectors) (connId : U32) (modeName : List Byte) :
    List DrmCall × Option ModeInfo :=
  match resources with
  | none => ([.getResources false], none)
  | some connectors =>
      match findConnector connId connectors with
      | (calls, none) => (.getResources true :: calls ++ [.freeResources], none)
      | (calls, some connector) =>
          match connector.modes.find? (·.name = modeName) with
          | none => (.getResources true :: calls ++ [.freeConnector connector.connectorId], none)
          | some mode => (.getResources true :: calls ++ [.freeResources], some mode)

/-- The calls a lookup makes are not ones `main` judges a request by. -/
def DrmCall.Lookup : DrmCall → Prop
  | .getResources _ | .freeResources | .getConnector _ _ | .freeConnector _ => True
  | _ => False

theorem DrmCall.Lookup.ok {c : DrmCall} (h : c.Lookup) : c.Ok := by
  cases c <;> trivial

/-- The call neither changes nor reports a configuration, nor grants a client access. -/
def DrmCall.Aside : DrmCall → Prop
  | .authMagic _ _ | .getCrtc _ _ | .setCrtc _ _ _ _ _ _ _ => False
  | _ => True

theorem DrmCall.Lookup.aside {c : DrmCall} (h : c.Lookup) : c.Aside := by
  cases c <;> trivial

theorem lookup_findConnector (connId : U32) (cs : Connectors) :
    ∀ c ∈ (findConnector connId cs).1, c.Lookup := by
  induction cs with
  | nil => simp [findConnector]
  | cons e cs ih =>
      rcases e with ⟨id, _ | connector⟩
      · simpa [findConnector, DrmCall.Lookup] using ih
      · unfold findConnector
        split_ifs
        · simp [DrmCall.Lookup]
        · simpa [DrmCall.Lookup] using ih

theorem lookup_drmGetModeByName (resources : Option Connectors) (connId : U32)
    (modeName : List Byte) : ∀ c ∈ (drmGetModeByName resources connId modeName).1, c.Lookup := by
  unfold drmGetModeByName
  split
  · simp [DrmCall.Lookup]
  · next connectors =>
    have hloop := lookup_findConnector connId connectors
    split
    all_goals
      next calls _ heq =>
      rw [heq] at hloop
      first
      | simpa [DrmCall.Lookup, or_imp, forall_and] using hloop
      | split <;> simpa [DrmCall.Lookup, or_imp, forall_and] using hloop

end SysSnippets.Drm
