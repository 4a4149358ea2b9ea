import SysSnippets.Drm.Libdrm

/-!
# The client/server protocol (`drm_proto.h`)

Commands, replies, the fixed-size messages both sides exchange and `struct drm_client_info`.
-/

namespace SysSnippets.Drm
open SysSnippets.Lib

def DRM_SRV_MSGLEN : Nat := 1024

def MAXCLIENTS : Nat := 5

/-- The size of `mode_name` in `struct drm_client_info`. -/
def MODE_NAME_LEN : Nat := 20

/-- Client requests. -/
inductive Command
  | auth
  | crtc
  | plane
  | crtcStop
  | planeStop
  deriving DecidableEq, Repr

/-- The numbers of the first enumeration: `CMD_AUTH` is 0. -/
def Command.code : Command → U32
  | .auth => 0
  | .crtc => 1
  | .plane => 2
  | .crtcStop => 3
  | .planeStop => 4

/-- The `case` a command number selects; `none` is the `default`. -/
def Command.ofCode (c : U32) : Option Command :=
  if c = 0 then some .auth
  else if c = 1 then some .crtc
  else if c = 2 then some .plane
  else if c = 3 then some .crtcStop
  else if c = 4 then some .planeStop
  else none

@[simp] theorem Command.ofCode_code (c : Command) : Command.ofCode c.code = some c := by
  cases c <;> decide

/-- Server responses. -/
inductive Status
  | ok
  | error
  deriving DecidableEq, Repr

def Status.code : Status → U32
  | .ok => 0
  | .error => 1

/-! ## Messages -/

/-- Both sides print into a zeroed buffer of `DRM_SRV_MSGLEN + 1` bytes and write all of it. -/
def message (text : List Byte) : List Byte := zeroPad (DRM_SRV_MSGLEN + 1) text

/-- Words printed with `%d` and separated by colons. -/
def joinD : List U32 → List Byte
  | [] => []
  | [v] => printD v
  | v :: vs => printD v ++ ch ':' :: joinD vs

/-- The text of `"%d:%d"`. -/
def pairText (a b : U32) : List Byte := joinD [a, b]

/-- A response of the server. -/
def reply (magic : U32) (value : Status) : List Byte := message (pairText magic value.code)

/-- The format `"%d:%d"`. -/
def fmtPair : List Directive := [.d, .lit (ch ':'), .d]

/-- The format `"%d:%d:%d:%d:%d:%s"`. -/
def fmtCrtc : List Directive :=
  [.d, .lit (ch ':'), .d, .lit (ch ':'), .d, .lit (ch ':'), .d, .lit (ch ':'), .d, .lit (ch ':'), .s]

/-- The format `"%d:%d:%d:%d:%d:%d:%d:%d:%d"`. -/
def fmtPlane : List Directive :=
  [.d, .lit (ch ':'), .d, .lit (ch ':'), .d, .lit (ch ':'), .d, .lit (ch ':'), .d, .lit (ch ':'), .d,
    .lit (ch ':'), .d, .lit (ch ':'), .d, .lit (ch ':'), .d]

theorem zero_notMem_joinD (vs : List U32) : (0 : Byte) ∉ joinD vs := by
  have hcolon : (0 : Byte) ≠ ch ':' := by decide
  induction vs using joinD.induct with
  | case1 => simp [joinD]
  | case2 v => simpa [joinD] using zero_notMem_printD v
  | case3 v vs hne ih =>
      rw [joinD]
      · simp [zero_notMem_printD, hcolon, ih]
      · exact hne

theorem length_joinD_le (vs : List U32) : (joinD vs).length ≤ 12 * vs.length := by
  induction vs using joinD.induct with
  | case1 => simp [joinD]
  | case2 v =>
      have := length_printD_le v
      simp only [joinD, List.length_singleton]
      omega
  | case3 v vs hne ih =>
      have := length_printD_le v
      rw [joinD]
      · simp only [List.length_append, List.length_cons]
        omega
      · exact hne

theorem noDigit_colon (t : List Byte) : NoDigit (ch ':' :: t) := noDigit_cons (by decide)

/-- The two leading fields, whatever follows them. -/
theorem sscanf_pairText (a b : U32) {rest : List Byte} (h : NoDigit rest) :
    sscanf fmtPair (pairText a b ++ rest) = [.int a, .int b] := by
  unfold fmtPair pairText joinD joinD
  rw [List.append_assoc, List.cons_append, sscanf_d_printD _ _ (noDigit_colon _), sscanf_lit,
    sscanf_d_printD _ _ h, sscanf_nil]

theorem zero_notMem_pairText (a b : U32) : (0 : Byte) ∉ pairText a b := zero_notMem_joinD _

theorem length_pairText_le (a b : U32) : (pairText a b).length ≤ 24 := length_joinD_le _

theorem cstr_message {text : List Byte} (hlen : text.length ≤ DRM_SRV_MSGLEN)
    (h0 : (0 : Byte) ∉ text) : cstr (message text) = text :=
  cstr_zeroPad (by omega) h0

theorem length_message (text : List Byte) : (message text).length = DRM_SRV_MSGLEN + 1 :=
  length_zeroPad (by decide) text

/-- A reader of a response finds its two numbers. -/
theorem sscanf_reply (magic : U32) (value : Status) :
    sscanf fmtPair (cstr (reply magic value)) = [.int magic, .int value.code] := by
  have hlen := length_pairText_le magic value.code
  rw [reply, cstr_message (by unfold DRM_SRV_MSGLEN; omega) (zero_notMem_pairText _ _)]
  simpa using sscanf_pairText magic value.code noDigit_nil

/-! ## Requests -/

/-- `drmModeModeInfo.name`: not empty, at most 31 bytes before its NUL. -/
structure ModeName where
  bytes : List Byte
  ne : bytes ≠ []
  noNul : (0 : Byte) ∉ bytes
  le : bytes.length ≤ 31
  deriving DecidableEq

/-- The requests the clients build. -/
inductive Request
  | auth (magic : U32)
  | crtc (magic crtcId connId fb : U32) (name : ModeName)
  | plane (magic crtcId planeId fb w h x y : U32)
  | crtcStop (magic : U32)
  | planeStop (magic : U32)
  deriving DecidableEq

def Request.magic : Request → U32
  | .auth magic | .crtc magic _ _ _ _ | .plane magic _ _ _ _ _ _ _ | .crtcStop magic
  | .planeStop magic => magic

def Request.command : Request → Command
  | .auth _ => .auth
  | .crtc _ _ _ _ _ => .crtc
  | .plane _ _ _ _ _ _ _ _ => .plane
  | .crtcStop _ => .crtcStop
  | .planeStop _ => .planeStop

/-- What the clients print into `tx_buf`. -/
def Request.text : Request → List Byte
  | .crtc magic crtcId connId fb name =>
      joinD [magic, Command.crtc.code, crtcId, connId, fb] ++ ch ':' :: name.bytes
  | .plane magic crtcId planeId fb w h x y =>
      joinD [magic, Command.plane.code, crtcId, planeId, fb, w, h, x, y]
  | .auth magic => pairText magic Command.auth.code
  | .crtcStop magic => pairText magic Command.crtcStop.code
  | .planeStop magic => pairText magic Command.planeStop.code

theorem zero_notMem_text (r : Request) : (0 : Byte) ∉ r.text := by
  have hcolon : (0 : Byte) ≠ ch ':' := by decide
  cases r with
  | crtc magic crtcId connId fb name => simp [Request.text, zero_notMem_joinD, hcolon, name.noNul]
  | _ => exact zero_notMem_joinD _

theorem length_text_le (r : Request) : r.text.length ≤ DRM_SRV_MSGLEN := by
  cases r with
  | crtc magic crtcId connId fb name =>
      have hints := length_joinD_le [magic, Command.crtc.code, crtcId, connId, fb]
      have hname := name.le
      simp only [Request.text, List.length_append, List.length_cons, DRM_SRV_MSGLEN,
        List.length_nil] at hints ⊢
      omega
  | _ =>
      refine (length_joinD_le _).trans ?_
      simp [DRM_SRV_MSGLEN]

/-- The server finds the client's text in its buffer. -/
theorem cstr_message_text (r : Request) : cstr (message r.text) = r.text :=
  cstr_message (length_text_le r) (zero_notMem_text r)

/-! ## `struct drm_client_info` -/

/-- A `drmModeCrtcPtr`: NULL, a value that no assignment of the program put there, or an object
`drmModeGetCrtc` returned (none is ever freed or changed). -/
inductive CrtcPtr
  | null
  | wild
  | obj (c : Crtc)
  deriving DecidableEq, Repr

/-- The pointer `drmModeGetCrtc` returns. -/
def CrtcPtr.ofRet : Option Crtc → CrtcPtr
  | none => .null
  | some c => .obj c

/-- `struct drm_client_info`; `modeName` is the string found at `mode_name`. -/
structure ClientInfo where
  magic : U32
  savedCrtc : CrtcPtr
  currentCrtc : CrtcPtr
  crtcId : U32
  connId : U32
  planeId : U32
  w : U32
  h : U32
  x : U32
  y : U32
  fb : U32
  modeName : List Byte
  mode : Option ModeInfo
  deriving DecidableEq, Repr

/-- The entry after `bzero`. -/
def ClientInfo.zero : ClientInfo where
  magic := 0
  savedCrtc := .null
  currentCrtc := .null
  crtcId := 0
  connId := 0
  planeId := 0
  w := 0
  h := 0
  x := 0
  y := 0
  fb := 0
  modeName := []
  mode := none

end SysSnippets.Drm
