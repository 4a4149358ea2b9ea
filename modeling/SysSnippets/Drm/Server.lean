import SysSnippets.Drm.Proto
import SysSnippets.Lib.Machine
import Mathlib.Data.Fin.Basic
import Mathlib.Logic.Function.Basic

/-!
# `drm_server.c`

The locals of `main` (`Locals`), the five commands, one pass of the loop over the clients (`visit`) and
the poll loop as a machine (`Server.step`). What the kernel answers is input: what `poll` reports, what
`accept` and `read` return, what the libdrm calls of a request return and whether the peer is still
connected when its reply is written.

* A descriptor stands for the connection it was opened for: `main` only compares descriptors with -1, so
  the kernel's reuse of small numbers is not visible in it.
* Uninitialised locals are arbitrary: a run starts from `boot g`, whatever the stack `g` held.
* Undefined behaviour and death by a signal end the run with a `Fault`.
-/

namespace SysSnippets.Drm
open SysSnippets.Lib

abbrev Slot := Fin MAXCLIENTS

abbrev Conn := Nat

/-- How a request can end the process. -/
inductive Fault
  /-- `rx_buf` holds no NUL: `sscanf` reads on behind it. -/
  | rxOverread
  /-- `%s` stores more than `mode_name` holds. -/
  | modeNameOverflow
  /-- `saved_crtc` is dereferenced and is no object of `drmModeGetCrtc`. -/
  | badSavedCrtc
  /-- The reply is written to a connection whose peer has closed. -/
  | sigpipe
  deriving DecidableEq, Repr

/-- What the libdrm calls made for one request return. -/
structure DrmAnswers where
  authMagic : Int
  resources : Option Connectors
  /-- `drmModeGetCrtc` before the new mode is set, and after it. -/
  crtc : Option Crtc
  crtcAfter : Option Crtc
  setCrtc : Int
  setPlane : Int
  deriving DecidableEq

/-- What `read` stored into `rx_buf`. -/
@[ext]
structure RxBytes where
  bytes : List Byte
  pos : bytes ≠ []
  le : bytes.length ≤ DRM_SRV_MSGLEN + 1

instance : DecidableEq RxBytes := fun _ _ => decidable_of_iff _ RxBytes.ext_iff.symm

inductive ReadResult
  | error
  | eof
  | data (rx : RxBytes)
  deriving DecidableEq

/-- The kernel's side of one pass over a slot. -/
structure SlotIn where
  read : ReadResult
  answers : DrmAnswers
  peerOpen : Bool
  deriving DecidableEq

/-- The locals of `main` that live from one request to the next. -/
structure Locals where
  fds : Slot → Option Conn
  info : Slot → ClientInfo
  magic : U32
  command : U32
  txBuf : List Byte
  running : Bool

/-! ## The commands -/

/-- What a command leaves: the slot's entry, `tx_buf`, `ret` and the calls it made. -/
structure Handled where
  info : ClientInfo
  tx : List Byte
  ret : Int
  calls : List DrmCall
  deriving DecidableEq

/-- `rx_buf` as a string: `read` stored into a zeroed buffer. -/
def rxText (rx : RxBytes) : Option (List Byte) :=
  if (0 : Byte) ∈ rx.bytes ∨ rx.bytes.length < DRM_SRV_MSGLEN + 1 then some (cstr rx.bytes) else none

def cmdAuth (magic : U32) (info : ClientInfo) (tx : List Byte) (ans : DrmAnswers) : Handled :=
  let calls := [.authMagic magic ans.authMagic]
  if ans.authMagic ≠ 0 then { info, tx, ret := -1, calls }
  else { info := { ClientInfo.zero with magic }, tx := reply magic .ok, ret := 0, calls }

/-- The `sscanf` of CMD_CRTC. -/
def scanCrtc (text : List Byte) (info : ClientInfo) : Except Fault ClientInfo :=
  let items := sscanf fmtCrtc text
  let info := { info with
    crtcId := intItem items 2 info.crtcId
    connId := intItem items 3 info.connId
    fb := intItem items 4 info.fb }
  match (items[5]? : Option Item) with
  | some (.str w) =>
      if w.length < MODE_NAME_LEN then .ok { info with modeName := w } else .error .modeNameOverflow
  | _ => .ok info

/-- CMD_CRTC after its `sscanf`: save the old crtc and create the new crtc. -/
def setNewCrtc (magic : U32) (info : ClientInfo) (tx : List Byte) (ans : DrmAnswers) : Handled :=
  let (calls, tm) := drmGetModeByName ans.resources info.connId info.modeName
  let calls := calls ++ [.modeByName info.connId info.modeName tm]
  match tm with
  | none => { info, tx, ret := -1, calls }
  | some tm =>
      let info := { info with mode := some tm, savedCrtc := .ofRet ans.crtc }
      let calls := calls ++ [.getCrtc info.crtcId ans.crtc]
      match ans.crtc with
      | none => { info, tx, ret := -1, calls }
      | some _ =>
          let calls := calls ++ [.setCrtc info.crtcId info.fb 0 0 info.connId tm ans.setCrtc]
          if ans.setCrtc ≠ 0 then { info, tx, ret := -1, calls }
          else
            let info := { info with currentCrtc := .ofRet ans.crtcAfter }
            let calls := calls ++ [.getCrtc info.crtcId ans.crtcAfter]
            match ans.crtcAfter with
            | none => { info, tx, ret := -1, calls }
            | some _ => { info, tx := reply magic .ok, ret := 0, calls }

def cmdCrtc (magic : U32) (text : List Byte) (info : ClientInfo) (tx : List Byte) (ans : DrmAnswers) :
    Except Fault Handled :=
  (scanCrtc text info).map fun info => setNewCrtc magic info tx ans

/-- The `sscanf` of CMD_PLANE. -/
def scanPlane (text : List Byte) (info : ClientInfo) : ClientInfo :=
  let items := sscanf fmtPlane text
  { info with
    crtcId := intItem items 2 info.crtcId
    planeId := intItem items 3 info.planeId
    fb := intItem items 4 info.fb
    w := intItem items 5 info.w
    h := intItem items 6 info.h
    x := intItem items 7 info.x
    y := intItem items 8 info.y }

/-- The arguments CMD_PLANE passes to `drmModeSetPlane`. -/
def planeArgs (info : ClientInfo) : PlaneArgs where
  planeId := info.planeId
  crtcId := info.crtcId
  fb := info.fb
  flags := 0
  crtcX := info.x
  crtcY := info.y
  crtcW := info.w
  crtcH := info.h
  srcX := 0
  srcY := 0
  srcW := info.w <<< 16
  srcH := info.h <<< 16

/-- The arguments CMD_PLANE_STOP passes to `drmModeSetPlane`. -/
def planeOffArgs (info : ClientInfo) : PlaneArgs where
  planeId := info.planeId
  crtcId := 0
  fb := 0
  flags := 0
  crtcX := 0
  crtcY := 0
  crtcW := 0
  crtcH := 0
  srcX := 0
  srcY := 0
  srcW := 0
  srcH := 0

/-- The end CMD_PLANE and CMD_PLANE_STOP share: one `drmModeSetPlane`. -/
def setPlane (magic : U32) (info : ClientInfo) (args : PlaneArgs) (tx : List Byte) (ans : DrmAnswers) :
    Handled :=
  let calls := [.setPlane args ans.setPlane]
  if ans.setPlane ≠ 0 then { info, tx, ret := -1, calls }
  else { info, tx := reply magic .ok, ret := 0, calls }

def cmdPlane (magic : U32) (text : List Byte) (info : ClientInfo) (tx : List Byte) (ans : DrmAnswers) :
    Handled :=
  let info := scanPlane text info
  setPlane magic info (planeArgs info) tx ans

/-- CMD_CRTC_STOP; `ret` still holds what `read` returned. -/
def cmdCrtcStop (magic : U32) (ret : Int) (info : ClientInfo) (tx : List Byte) (ans : DrmAnswers) :
    Except Fault Handled :=
  match info.savedCrtc with
  | .null | .wild => .error .badSavedCrtc
  | .obj crtc =>
      if crtc.modeValid then
        let calls := [.setCrtc crtc.crtcId crtc.bufferId crtc.x crtc.y info.connId crtc.mode ans.setCrtc]
        if ans.setCrtc ≠ 0 then .ok { info, tx, ret := -1, calls }
        else .ok { info, tx := reply magic .ok, ret := 0, calls }
      else .ok { info, tx := reply magic .ok, ret, calls := [] }

def cmdPlaneStop (magic : U32) (info : ClientInfo) (tx : List Byte) (ans : DrmAnswers) : Handled :=
  setPlane magic info (planeOffArgs info) tx ans

/-- `switch (command)`. -/
def dispatch (magic command : U32) (text : List Byte) (ret : Int) (info : ClientInfo)
    (tx : List Byte) (ans : DrmAnswers) : Except Fault Handled :=
  match Command.ofCode command with
  | some .auth => .ok (cmdAuth magic info tx ans)
  | some .crtc => cmdCrtc magic text info tx ans
  | some .plane => .ok (cmdPlane magic text info tx ans)
  | some .crtcStop => cmdCrtcStop magic ret info tx ans
  | some .planeStop => .ok (cmdPlaneStop magic info tx ans)
  | none => .ok { info, tx, ret := -1, calls := [] }

/-! ## One pass over a ready slot -/

/-- What one pass over a ready slot showed; `before` and `after` are the slot's entry. -/
structure Visit where
  slot : Slot
  conn : Conn
  input : SlotIn
  /-- `magic` and `command` as the earlier requests left them -/
  held : U32 × U32
  /-- `magic` and `command` of the line "accepted request" -/
  request : Option (U32 × U32)
  before : ClientInfo
  after : ClientInfo
  calls : List DrmCall
  writes : List (Conn × List Byte)
  closed : Bool
  fault : Option Fault
  deriving DecidableEq

/-- The pass before anything but `read` happened. -/
def Visit.start (srv : Locals) (i : Slot) (c : Conn) (inp : SlotIn) : Visit where
  slot := i
  conn := c
  input := inp
  held := (srv.magic, srv.command)
  request := none
  before := srv.info i
  after := srv.info i
  calls := []
  writes := []
  closed := false
  fault := none

/-- From the dispatch to the reply, for a request in `text` on slot `i`. -/
def serve (srv : Locals) (v : Visit) (text : List Byte) (ret : Int) : Locals × Visit :=
  let v := { v with request := some (srv.magic, srv.command) }
  match dispatch srv.magic srv.command text ret (srv.info v.slot) srv.txBuf v.input.answers with
  | .error f => (srv, { v with fault := some f })
  | .ok out =>
      let tx := if out.ret = -1 then reply srv.magic .error else out.tx
      let srv := { srv with info := Function.update srv.info v.slot out.info, txBuf := tx }
      let v := { v with after := out.info, calls := out.calls }
      if v.input.peerOpen then (srv, { v with writes := [(v.conn, tx)] })
      else (srv, { v with fault := some .sigpipe })

/-- `sscanf(rx_buf, "%d:%d", &magic, &command)`. -/
def scanPair (text : List Byte) (srv : Locals) : Locals :=
  let items := sscanf fmtPair text
  { srv with magic := intItem items 0 srv.magic, command := intItem items 1 srv.command }

/-- The body of the loop over the clients, for slot `i` holding connection `c`. -/
def visit (srv : Locals) (i : Slot) (c : Conn) (inp : SlotIn) : Locals × Visit :=
  let v := Visit.start srv i c inp
  match inp.read with
  | .error | .eof => ({ srv with fds := Function.update srv.fds i none }, { v with closed := true })
  | .data rx =>
      match rxText rx with
      | none => (srv, { v with fault := some .rxOverread })
      | some text => serve (scanPair text srv) v text rx.bytes.length

/-! ## The poll loop -/

/-- The bits of `revents` the loop looks at. -/
structure Revents where
  pollin : Bool
  pollerr : Bool
  other : Bool
  deriving DecidableEq

def Revents.none : Revents := ⟨false, false, false⟩

def Revents.any (r : Revents) : Bool := r.pollin || r.pollerr || r.other

/-- `revents & (POLLIN | POLLERR)`. -/
def Revents.readable (r : Revents) : Bool := r.pollin || r.pollerr

/-- What `poll` stores: the clients' entries, the listening socket's, and whether the entry behind the
array, which `nfds = MAXCLIENTS + 2` covers too, adds to the count. -/
structure PollReturn where
  slots : Slot → Revents
  listen : Revents
  extra : Bool

/-- `poll` stores 0 for an entry whose descriptor is -1. -/
def PollReturn.stored (p : PollReturn) (fds : Slot → Option Conn) (i : Slot) : Revents :=
  if fds i = none then .none else p.slots i

/-- The value `poll` returns: the number of entries with non-zero `revents`. -/
def PollReturn.count (p : PollReturn) (fds : Slot → Option Conn) : Int :=
  ((List.finRange MAXCLIENTS).countP fun i => (p.stored fds i).any) +
    (if p.listen.any then 1 else 0) + (if p.extra then 1 else 0)

/-- Where `main` is in its loop. -/
inductive Pc
  /-- about to call `poll` -/
  | poll
  /-- `poll` returned `rc`: look at the listening socket -/
  | listen (revents : Slot → Revents) (listen : Revents) (rc : Int)
  /-- in the loop over the clients, before slot `i` -/
  | scan (revents : Slot → Revents) (rc : Int) (i : Nat)
  /-- the loop is left, by an error or since `running` is false -/
  | exited (error : Bool)
  | crashed (f : Fault)

structure Server where
  locals : Locals
  pc : Pc
  /-- the connections accepted so far; the kernel hands out each of them once -/
  accepted : List Conn

inductive Input
  /-- `poll` returns; `none` is -1 -/
  | poll (r : Option PollReturn)
  /-- `accept` returns; `none` is -1 -/
  | accept (c : Option Conn)
  /-- the loop over the clients goes on with its next slot -/
  | slot (inp : SlotIn)
  | sigint

/-- What the server shows. -/
inductive Obs
  | accepted (c : Conn) (slot : Option Slot)
  | visit (v : Visit)
  deriving DecidableEq

/-- `while (running)`. -/
def Server.endIteration (s : Server) : Server :=
  { s with pc := if s.locals.running then .poll else .exited false }

/-- The first slot whose descriptor is -1. -/
def freeSlot (fds : Slot → Option Conn) : Option Slot :=
  (List.finRange MAXCLIENTS).find? fun i => (fds i).isNone

/-- The new connection takes the first free slot; without one it is closed. -/
def Locals.store (srv : Locals) (c : Conn) : Locals :=
  match freeSlot srv.fds with
  | none => srv
  | some i => { srv with fds := Function.update srv.fds i (some c) }

/-- Go on with the loop over the clients after slot `i`, unless all events are served. -/
def Server.next (s : Server) (revents : Slot → Revents) (rc : Int) (i : Nat) : Server :=
  if rc = 0 then s.endIteration else { s with pc := .scan revents rc (i + 1) }

/-- After `poll` returned. -/
def Server.polled (s : Server) (p : PollReturn) : Server :=
  let rc := p.count s.locals.fds
  if rc = 0 then s.endIteration
  else { s with pc := .listen (p.stored s.locals.fds) p.listen rc }

/-- `accept` returned connection `c`. -/
def Server.accept (s : Server) (revents : Slot → Revents) (rc : Int) (c : Conn) : Server × List Obs :=
  let obs := [.accepted c (freeSlot s.locals.fds)]
  let s := { s with locals := s.locals.store c, accepted := c :: s.accepted }
  if rc - 1 = 0 then (s.endIteration, obs) else ({ s with pc := .scan revents (rc - 1) 0 }, obs)

/-- The loop over the clients takes slot `i`. -/
def Server.scan (s : Server) (revents : Slot → Revents) (rc : Int) (i : Slot) (inp : SlotIn) :
    Server × List Obs :=
  match s.locals.fds i with
  | none => ({ s with pc := .scan revents rc (i + 1) }, [])
  | some c =>
      if (revents i).readable then
        let (locals, v) := visit s.locals i c inp
        let s := { s with locals }
        match v.fault with
        | some f => ({ s with pc := .crashed f }, [.visit v])
        | none =>
            if v.closed then ({ s with pc := .scan revents rc (i + 1) }, [.visit v])
            else (s.next revents (rc - 1) i, [.visit v])
      else ({ s with pc := .scan revents rc (i + 1) }, [])

/-- One step of `main`. An input that does not answer what `main` waits for is not taken. -/
def Server.step (s : Server) : Input → Server × List Obs
  | .sigint => ({ s with locals := { s.locals with running := false } }, [])
  | .poll r =>
      match s.pc, r with
      | .poll, none => ({ s with pc := .exited true }, [])
      | .poll, some p => (s.polled p, [])
      | _, _ => (s, [])
  | .accept r =>
      match s.pc with
      | .listen revents listen rc =>
          if listen.pollin then
            match r with
            | none => ({ s with pc := .exited true }, [])
            | some c => if c ∈ s.accepted then (s, []) else s.accept revents rc c
          else ({ s with pc := .scan revents rc 0 }, [])
      | _ => (s, [])
  | .slot inp =>
      match s.pc with
      | .scan revents rc i =>
          if h : i < MAXCLIENTS then s.scan revents rc ⟨i, h⟩ inp else (s.endIteration, [])
      | _ => (s, [])

/-- `drm_server` as a machine. -/
def server : Machine Server Input Obs := ⟨Server.step⟩

@[simp] theorem server_step (s : Server) (k : Input) : server.step s k = s.step k := rfl

/-- What the stack held when `main` was entered: the locals it does not initialise. -/
structure Stack where
  info : Slot → ClientInfo
  magic : U32
  command : U32
  txBuf : List Byte

/-- `main` before its loop: every descriptor is -1. -/
def boot (g : Stack) : Server where
  locals :=
    { fds := fun _ => none, info := g.info, magic := g.magic, command := g.command, txBuf := g.txBuf,
      running := true }
  pc := .poll
  accepted := []

/-! ## Schedules -/

/-- The iteration in which connection `c` is accepted. -/
def connect (c : Conn) : List Input :=
  [.poll (some ⟨fun _ => .none, ⟨true, false, false⟩, false⟩), .accept (some c)]

/-- What `poll` stores when slot `i` alone is readable. -/
def PollReturn.only (i : Slot) : PollReturn :=
  ⟨fun j => if j = i then ⟨true, false, false⟩ else .none, .none, false⟩

/-- The steps of `main` up to the pass over slot `i`, after `poll` has returned. -/
def scanTo (i : Slot) (inp : SlotIn) : List Input := .accept none :: List.replicate (i + 1) (.slot inp)

/-- The iteration in which slot `i` is served. -/
def request (i : Slot) (inp : SlotIn) : List Input := .poll (some (.only i)) :: scanTo i inp

def Slot.first : Slot := ⟨0, by decide⟩

def Slot.second : Slot := ⟨1, by decide⟩

/-- A stack of zeroes. -/
def Stack.zero : Stack := ⟨fun _ => .zero, 0, 0, []⟩

/-- Every call that returns a number returns 0, and the others NULL. -/
def DrmAnswers.zero : DrmAnswers := ⟨0, none, none, none, 0, 0⟩

/-- A connected client delivers the text `t`. -/
def SlotIn.ofText (t : List Byte) (ans : DrmAnswers) : SlotIn :=
  ⟨if h : t ≠ [] ∧ t.length ≤ DRM_SRV_MSGLEN + 1 then .data ⟨t, h.1, h.2⟩ else .eof, ans, true⟩

end SysSnippets.Drm
