import SysSnippets.Lib.Machine
import Mathlib.Data.Fin.Basic
import Mathlib.Logic.Function.Basic
import Mathlib.Data.List.Pairwise

/-!
# The event loops of the C echo servers

`s_select.c` and `s_poll.c` serve two clients each. A kernel answers their calls, over any state of its own; one
step of a server is one turn of its `for (;;)`.

* `Kernel` : the calls, with what `poll`, `select` and `accept` promise;
* `place`, `serve` : what both servers do with a new connection, and with a client that is ready;
* `sSelect`, `sPoll` : the two servers. `clients[0]` of `s_poll.c` is the listening socket, `clients[i + 1]` is
  slot `i`.
-/

namespace SysSnippets.Tcp
open SysSnippets.Lib

abbrev Fd : Type := Nat

/-- The slots for clients. -/
abbrev Slot : Type := Fin 2

def slots : List Slot := [0, 1]

def POLLIN : BitVec 16 := 0x001

def POLLERR : BitVec 16 := 0x008

/-- `poll` or `select` returns: an error, or the events of each descriptor, perhaps none. -/
inductive Wait
  | interrupted
  | failed
  | returned (revents : Fd → BitVec 16)

inductive Accept
  | interrupted
  | failed
  | connected (sockfd : Fd)

/-- The system calls, and `handle_echo`, which may not return. The list for `accept` is that of the
descriptors in use. -/
structure Kernel (σ : Type) (listenfd : Fd) where
  wait : σ → σ × Wait
  accept : σ → List Fd → σ × Accept
  getpeername : σ → Fd → σ × Bool
  handleEcho : σ → Fd → σ × Option Int
  close : σ → Fd → σ
  client_ready : ∀ s revents fd, (wait s).2 = .returned revents → revents fd ≠ 0 →
    revents fd &&& (POLLIN ||| POLLERR) ≠ 0
  listener_ready : ∀ s revents, (wait s).2 = .returned revents → revents listenfd ≠ 0 →
    revents listenfd &&& POLLIN ≠ 0
  accept_fresh : ∀ s fds sockfd, (accept s fds).2 = .connected sockfd → sockfd ∉ fds

/-- What a server does to connections. -/
inductive Op
  | accept (result : Accept)
  | getpeername (fd : Fd) (ok : Bool)
  | store (slot : Slot) (fd : Fd)
  /-- the queue is full -/
  | drop (fd : Fd)
  | handleEcho (fd : Fd) (ret : Option Int)
  | close (slot : Slot) (fd : Fd)

/-- What a turn, or a part of it, comes to. -/
structure Turn (σ T : Type) where
  world : σ
  clients : T
  running : Bool
  ops : List Op

inductive Placed
  | stored (i : Slot)
  | full
  | exit

inductive Served
  | kept
  | closed
  /-- `exit`, or `handle_echo` does not return -/
  | stopped

section Servers
variable {σ : Type} {listenfd : Fd} (k : Kernel σ listenfd)

/-- The loop that finds a slot for a new connection. -/
def place (sockfd : Fd) (fds : Slot → Option Fd) : List Slot → σ → σ × Placed × List Op
  | [], w => (w, .full, [])
  | i :: is, w =>
      if fds i = none then
        match k.getpeername w sockfd with
        | (w, false) => (w, .exit, [.getpeername sockfd false])
        | (w, true) => (w, .stored i, [.getpeername sockfd true, .store i sockfd])
      else if is = [] then (k.close w sockfd, .full, [.drop sockfd])
      else place sockfd fds is w

/-- The body of the serving loop for a client that is ready. -/
def serve (i : Slot) (fd : Fd) (w : σ) : σ × Served × List Op :=
  match k.getpeername w fd with
  | (w, false) => (w, .stopped, [.getpeername fd false])
  | (w, true) =>
      match k.handleEcho w fd with
      | (w, none) => (w, .stopped, [.getpeername fd true, .handleEcho fd none])
      | (w, some ret) =>
          if ret ≤ 0 then (k.close w fd, .closed, [.getpeername fd true, .handleEcho fd (some ret), .close i fd])
          else (w, .kept, [.getpeername fd true, .handleEcho fd (some ret)])

/-! ## `s_select.c` -/

/-- The serving loop. -/
def Select.serveAll (rset : Fd → Bool) : List Slot → σ → (Slot → Option Fd) → Turn σ (Slot → Option Fd)
  | [], w, clients => ⟨w, clients, true, []⟩
  | i :: is, w, clients =>
      match clients i with
      | none => serveAll rset is w clients
      | some fd =>
          if rset fd then
            match serve k i fd w with
            | (w, .stopped, ops) => ⟨w, clients, false, ops⟩
            | (w, .kept, ops) =>
                let r := serveAll rset is w clients
                { r with ops := ops ++ r.ops }
            | (w, .closed, ops) =>
                let r := serveAll rset is w (Function.update clients i none)
                { r with ops := ops ++ r.ops }
          else serveAll rset is w clients

/-- The descriptors in use. -/
def watched (listenfd : Fd) (clients : Slot → Option Fd) : List Fd := listenfd :: slots.filterMap clients

/-- A turn of the loop. `select` leaves those descriptors in `rset` that are ready. -/
def Select.turn (w : σ) (clients : Slot → Option Fd) : Turn σ (Slot → Option Fd) :=
  match k.wait w with
  | (w, .interrupted) => ⟨w, clients, true, []⟩
  | (w, .failed) => ⟨w, clients, false, []⟩
  | (w, .returned revents) =>
      let rset := fun fd => decide (fd ∈ watched listenfd clients ∧ revents fd ≠ 0)
      -- `ret == 0`
      if (watched listenfd clients).all (fun fd => !rset fd) then ⟨w, clients, true, []⟩
      else if rset listenfd then
        match k.accept w (watched listenfd clients) with
        | (w, .interrupted) => ⟨w, clients, true, [.accept .interrupted]⟩
        | (w, .failed) => ⟨w, clients, false, [.accept .failed]⟩
        | (w, .connected sockfd) =>
            match place k sockfd clients slots w with
            | (w, .exit, ops) => ⟨w, clients, false, .accept (.connected sockfd) :: ops⟩
            | (w, .stored i, ops) =>
                let r := Select.serveAll k rset slots w (Function.update clients i (some sockfd))
                { r with ops := .accept (.connected sockfd) :: ops ++ r.ops }
            | (w, .full, ops) =>
                let r := Select.serveAll k rset slots w clients
                { r with ops := .accept (.connected sockfd) :: ops ++ r.ops }
      else Select.serveAll k rset slots w clients

/-! ## `s_poll.c` -/

/-- `struct pollfd`; `events` is `POLLIN` wherever `fd` is set. -/
structure Pollfd where
  fd : Option Fd
  revents : BitVec 16

/-- The last entry in use; `max` in the source. -/
def Poll.max (clients : Slot → Pollfd) : Nat :=
  slots.foldl (fun max i => if (clients i).fd.isSome then i.val + 1 else max) 0

/-- `poll` writes `revents` of the entries up to `max`. -/
def Poll.polled (revents : Fd → BitVec 16) (clients : Slot → Pollfd) : Slot → Pollfd := fun i =>
  if i.val < Poll.max clients then { clients i with revents := ((clients i).fd.map revents).getD 0 } else clients i

/-- The number of entries with events. -/
def Poll.count (listenfd : Fd) (revents : Fd → BitVec 16) (clients : Slot → Pollfd) : Int :=
  (if revents listenfd ≠ 0 then 1 else 0) +
    (slots.countP fun i => decide (i.val < Poll.max clients ∧ (Poll.polled revents clients i).revents ≠ 0) : Nat)

/-- The serving loop. -/
def Poll.serveAll : List Slot → σ → (Slot → Pollfd) → Int → Turn σ (Slot → Pollfd)
  | [], w, clients, _ => ⟨w, clients, true, []⟩
  | i :: is, w, clients, count =>
      match (clients i).fd with
      | none => serveAll is w clients count
      | some fd =>
          if (clients i).revents &&& (POLLIN ||| POLLERR) = 0 then serveAll is w clients count
          else
            match serve k i fd w with
            | (w, .stopped, ops) => ⟨w, clients, false, ops⟩
            | (w, .kept, ops) =>
                if count - 1 = 0 then ⟨w, clients, true, ops⟩
                else
                  let r := serveAll is w clients (count - 1)
                  { r with ops := ops ++ r.ops }
            | (w, .closed, ops) =>
                let clients := Function.update clients i { clients i with fd := none }
                if count - 1 = 0 then ⟨w, clients, true, ops⟩
                else
                  let r := serveAll is w clients (count - 1)
                  { r with ops := ops ++ r.ops }

def Poll.turn (w : σ) (clients : Slot → Pollfd) : Turn σ (Slot → Pollfd) :=
  match k.wait w with
  | (w, .interrupted) => ⟨w, clients, true, []⟩
  | (w, .failed) => ⟨w, clients, false, []⟩
  | (w, .returned revents) =>
      let count := Poll.count listenfd revents clients
      let clients := Poll.polled revents clients
      if count = 0 then ⟨w, clients, true, []⟩
      else if revents listenfd &&& POLLIN ≠ 0 then
        match k.accept w (watched listenfd fun i => (clients i).fd) with
        | (w, .interrupted) => ⟨w, clients, true, [.accept .interrupted]⟩
        | (w, .failed) => ⟨w, clients, false, [.accept .failed]⟩
        | (w, .connected sockfd) =>
            match place k sockfd (fun i => (clients i).fd) slots w with
            | (w, .exit, ops) => ⟨w, clients, false, .accept (.connected sockfd) :: ops⟩
            | (w, .stored i, ops) =>
                let clients := Function.update clients i { clients i with fd := some sockfd }
                if count - 1 = 0 then ⟨w, clients, true, .accept (.connected sockfd) :: ops⟩
                else
                  let r := Poll.serveAll k slots w clients (count - 1)
                  { r with ops := .accept (.connected sockfd) :: ops ++ r.ops }
            | (w, .full, ops) =>
                if count - 1 = 0 then ⟨w, clients, true, .accept (.connected sockfd) :: ops⟩
                else
                  let r := Poll.serveAll k slots w clients (count - 1)
                  { r with ops := .accept (.connected sockfd) :: ops ++ r.ops }
      else Poll.serveAll k slots w clients count

/-! ## Runs -/

/-- A server: the kernel, its table, and whether it has not stopped. -/
structure Server (σ T : Type) where
  world : σ
  clients : T
  running : Bool

/-- A server that takes turns. -/
def taking {T : Type} (turn : σ → T → Turn σ T) : Machine (Server σ T) Unit Op where
  step s _ :=
    if s.running then
      let r := turn s.world s.clients
      (⟨r.world, r.clients, r.running⟩, r.ops)
    else (s, [])

def sSelect : Machine (Server σ (Slot → Option Fd)) Unit Op := taking (Select.turn k)

def sPoll : Machine (Server σ (Slot → Pollfd)) Unit Op := taking (Poll.turn k)

end Servers

end SysSnippets.Tcp
