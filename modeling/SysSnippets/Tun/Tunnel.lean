import SysSnippets.Lib.Machine
import SysSnippets.Lib.Text
import Mathlib.Logic.Function.Basic

/-!
# A tunnel of two hosts

Each host reads frames from its device and sends them to the other over UDP, and writes what its socket receives to
its device; both go through one buffer. The socket is bound, not connected: it receives from anyone.

* `Endpoint` : the buffer and the place in the loop; `Tunnel.turn` : one call of a host;
* `Tunnel` : two endpoints, the datagrams between them and the datagrams they have received;
* `Pipe` : what a source has sent is what the host has written, and what is under way; `Tunnel.Inv` : the four pipes;
* `tunnelled` : what a host writes is what the other has read, and what third parties have sent to it.
-/

namespace SysSnippets.Tun
open SysSnippets.Lib

abbrev Frame := List Byte

/-- `sizeof(buf)` -/
abbrev BUFSIZE : Nat := 1600

inductive Host
  | mach1
  | mach2
  deriving DecidableEq

def Host.peer : Host → Host
  | .mach1 => .mach2
  | .mach2 => .mach1

/-- Whose datagram it is; no host asks for it. -/
inductive Source
  | peer
  | third
  deriving DecidableEq

/-- The next call of the loop; `sock` is `FD_ISSET(sock, &fds)`. -/
inductive Pc
  | select
  | readFd (sock : Bool)
  | sendto (rc : Nat) (sock : Bool)
  | readSock
  | write (rc : Nat) (src : Source)
  | stopped
  deriving DecidableEq

structure Endpoint where
  buf : List Byte
  pc : Pc

structure Tunnel where
  hosts : Host → Endpoint
  /-- sent by a host and under way -/
  flight : Host → List Frame
  /-- received by the socket of a host -/
  inbox : Host → List (Source × Frame)

inductive Shown
  | read (h : Host) (frame : Frame)
  | wrote (h : Host) (src : Source) (frame : Frame)
  /-- A datagram of a third party has reached a host. -/
  | strayed (h : Host) (frame : Frame)
  deriving DecidableEq

/-- How a call ends. -/
inductive Answer
  | ready (fd sock : Bool)
  | frame (bs : Frame)
  | done
  | failed
  deriving DecidableEq

inductive Happening
  | turn (h : Host) (a : Answer)
  /-- The next datagram of the peer reaches a host. -/
  | deliver (h : Host)
  | stray (h : Host) (frame : Frame)
  deriving DecidableEq

/-- What `read` leaves in the buffer. -/
def load (buf bs : List Byte) : List Byte := bs ++ buf.drop bs.length

namespace Tunnel

def start (buf : Host → List Byte) : Tunnel := ⟨fun h => ⟨buf h, .select⟩, fun _ => [], fun _ => []⟩

def goto (s : Tunnel) (h : Host) (e : Endpoint) : Tunnel := { s with hosts := Function.update s.hosts h e }

/-- The next call of a host; `read(sock, ..)` waits for a datagram. -/
def turn (s : Tunnel) (h : Host) (a : Answer) : Tunnel × List Shown :=
  let e := s.hosts h
  match e.pc, a with
  | .select, .ready fd sock =>
      (s.goto h { e with pc := if fd then .readFd sock else if sock then .readSock else .select }, [])
  | .readFd sock, .frame bs =>
      let bs := bs.take BUFSIZE
      (s.goto h ⟨load e.buf bs, .sendto bs.length sock⟩, [.read h bs])
  | .sendto rc sock, .done =>
      ({ s with flight := Function.update s.flight h (s.flight h ++ [e.buf.take rc]) }.goto h
        { e with pc := if sock then .readSock else .select }, [])
  | .readSock, .done =>
      match s.inbox h with
      | [] => (s, [])
      | (src, bs) :: inbox =>
          let bs := bs.take BUFSIZE
          ({ s with inbox := Function.update s.inbox h inbox }.goto h ⟨load e.buf bs, .write bs.length src⟩, [])
  | .write rc src, .done => (s.goto h { e with pc := .select }, [.wrote h src (e.buf.take rc)])
  | .select, _ => (s, [])
  | _, .failed => (s.goto h { e with pc := .stopped }, [])
  | _, _ => (s, [])

def step (s : Tunnel) : Happening → Tunnel × List Shown
  | .turn h a => s.turn h a
  | .deliver h =>
      match s.flight h.peer with
      | [] => (s, [])
      | bs :: flight =>
          ({ s with
              flight := Function.update s.flight h.peer flight
              inbox := Function.update s.inbox h (s.inbox h ++ [(.peer, bs)]) }, [])
  | .stray h bs =>
      ({ s with inbox := Function.update s.inbox h (s.inbox h ++ [(.third, bs)]) }, [.strayed h (bs.take BUFSIZE)])

end Tunnel

/-- Two hosts with mirrored addresses. -/
def tunnel : Machine Tunnel Happening Shown := ⟨Tunnel.step⟩

/-! ## Histories -/

section Histories
variable (h : Host) (src : Source) (shown : List Shown)

/-- The frames that a host has read from its device. -/
def readBy : List Frame :=
  shown.flatMap fun
    | .read k frame => if k = h then [frame] else []
    | _ => []

/-- The frames that a host has written to its device. -/
def writtenBy : List Frame :=
  shown.flatMap fun
    | .wrote k _ frame => if k = h then [frame] else []
    | _ => []

/-- Those of them that came from one source. -/
def writtenFrom : List Frame :=
  shown.flatMap fun
    | .wrote k src' frame => if k = h ∧ src' = src then [frame] else []
    | _ => []

/-- The datagrams of third parties, as a host reads them. -/
def strays : List Frame :=
  shown.flatMap fun
    | .strayed k frame => if k = h then [frame] else []
    | _ => []

variable {h src shown}

theorem readBy_append (o : List Shown) : readBy h (shown ++ o) = readBy h shown ++ readBy h o := List.flatMap_append

theorem writtenFrom_append (o : List Shown) :
    writtenFrom h src (shown ++ o) = writtenFrom h src shown ++ writtenFrom h src o := List.flatMap_append

theorem strays_append (o : List Shown) : strays h (shown ++ o) = strays h shown ++ strays h o := List.flatMap_append

theorem peer_ne (h : Host) : h.peer ≠ h := by
  cases h <;> exact Host.noConfusion

theorem peer_peer (h : Host) : h.peer.peer = h := by
  cases h <;> rfl

theorem eq_or_eq_peer (h k : Host) : h = k ∨ h = k.peer := by
  cases h <;> cases k <;> decide

end Histories

/-! ## What is under way -/

/-- What a `read` of the socket returns of a datagram. -/
def cut (bs : Frame) : Frame := bs.take BUFSIZE

/-- The datagrams from one source among those received. -/
def received (src : Source) (inbox : List (Source × Frame)) : List Frame :=
  inbox.flatMap fun d => if d.1 = src then [cut d.2] else []

/-- A frame from the socket, in the buffer; of a stopped host nothing is known. -/
def Writing (e : Endpoint) (src : Source) (head : List Frame) : Prop :=
  match e.pc with
  | .write rc src' => head = if src' = src then [e.buf.take rc] else []
  | .stopped => True
  | _ => head = []

/-- A frame from the device, in the buffer. -/
def Sending (e : Endpoint) (tail : List Frame) : Prop :=
  match e.pc with
  | .sendto rc _ => rc ≤ BUFSIZE ∧ tail = [e.buf.take rc]
  | .stopped => True
  | _ => tail = []

/-- All the frames of a source: the ones written, those in the host, and those behind them. -/
def Pipe (src : Source) (e : Endpoint) (inbox : List (Source × Frame)) (written behind all : List Frame) : Prop :=
  ∃ head, Writing e src head ∧ all = written ++ head ++ received src inbox ++ behind

/-- **The links** of the two hosts. -/
structure Tunnel.Inv (s : Tunnel) (shown : List Shown) : Prop where
  fromPeer : ∀ h : Host, ∃ tail, Sending (s.hosts h.peer) tail ∧
    Pipe .peer (s.hosts h) (s.inbox h) (writtenFrom h .peer shown) ((s.flight h.peer).map cut ++ tail)
      (readBy h.peer shown)
  fromThird : ∀ h : Host, Pipe .third (s.hosts h) (s.inbox h) (writtenFrom h .third shown) [] (strays h shown)

theorem inv_start (buf : Host → List Byte) : (Tunnel.start buf).Inv [] :=
  ⟨fun _ => ⟨[], rfl, [], rfl, rfl⟩, fun _ => ⟨[], rfl, rfl⟩⟩

/-- Both links of a host that does something, as the receiver of one and the sender of the other. -/
theorem Tunnel.Inv.act {s s' : Tunnel} {shown o : List Shown} (hs : s.Inv shown) (k : Host) {e : Endpoint}
    {inbox : List (Source × Frame)} {flight : List Frame}
    (hhosts : s'.hosts = Function.update s.hosts k e) (hinbox : s'.inbox = Function.update s.inbox k inbox)
    (hflight : s'.flight = Function.update s.flight k flight)
    (hreceive : ∀ src written behind all, Pipe src (s.hosts k) (s.inbox k) written behind all →
      Pipe src e inbox (written ++ writtenFrom k src o) behind all)
    (hsend : ∀ tail, Sending (s.hosts k) tail → ∃ tail', Sending e tail' ∧
      flight.map cut ++ tail' = (s.flight k).map cut ++ tail ++ readBy k o)
    (hother : readBy k.peer o = [] ∧ ∀ src, writtenFrom k.peer src o = []) (hstrays : ∀ h, strays h o = []) :
    s'.Inv (shown ++ o) := by
  have hpeer := peer_ne k
  constructor
  · intro h
    obtain ⟨tail, htail, hpipe⟩ := hs.fromPeer h
    rw [hhosts, hinbox, hflight, readBy_append, writtenFrom_append]
    rcases eq_or_eq_peer h k with rfl | rfl
    · rw [Function.update_self, Function.update_self, Function.update_of_ne hpeer, Function.update_of_ne hpeer,
        hother.1, List.append_nil]
      exact ⟨tail, htail, hreceive .peer _ _ _ hpipe⟩
    · rw [peer_peer] at htail hpipe ⊢
      obtain ⟨tail', htail', hbehind⟩ := hsend tail htail
      rw [Function.update_self, Function.update_self, Function.update_of_ne hpeer, Function.update_of_ne hpeer,
        hother.2, List.append_nil]
      obtain ⟨head, hhead, hall⟩ := hpipe
      refine ⟨tail', htail', head, hhead, ?_⟩
      rw [hall, hbehind]
      simp only [List.append_assoc]
  · intro h
    have hpipe := hs.fromThird h
    rw [hhosts, hinbox, writtenFrom_append, strays_append, hstrays, List.append_nil]
    rcases eq_or_eq_peer h k with rfl | rfl
    · rw [Function.update_self, Function.update_self]
      exact hreceive .third _ _ _ hpipe
    · rw [Function.update_of_ne hpeer, Function.update_of_ne hpeer, hother.2, List.append_nil]
      exact hpipe

/-! ## One call -/

section Calls
variable {e e' : Endpoint} {src : Source} {inbox : List (Source × Frame)} {written behind all : List Frame}

theorem Writing.eq_nil {head : List Frame} {pc : Pc} (hpc : e.pc = pc) (hnot : match pc with
    | .write _ _ | .stopped => False
    | _ => True) (h : Writing e src head) : head = [] := by
  unfold Writing at h
  rw [hpc] at h
  cases pc with
  | write rc src' => exact hnot.elim
  | stopped => exact hnot.elim
  | select => exact h
  | readFd sock => exact h
  | sendto rc sock => exact h
  | readSock => exact h

theorem Sending.eq_nil {tail : List Frame} {pc : Pc} (h : Sending e tail) (hpc : e.pc = pc) (hnot : match pc with
    | .sendto _ _ | .stopped => False
    | _ => True) : tail = [] := by
  unfold Sending at h
  rw [hpc] at h
  cases pc with
  | sendto rc sock => exact hnot.elim
  | stopped => exact hnot.elim
  | select => exact h
  | readFd sock => exact h
  | readSock => exact h
  | write rc src' => exact h

theorem Pipe.idle (h : Pipe src e inbox written behind all) (he : ∀ head, Writing e src head → head = [])
    (he' : Writing e' src []) : Pipe src e' inbox (written ++ []) behind all := by
  obtain ⟨head, hhead, hall⟩ := h
  rw [he head hhead] at hall
  rw [List.append_nil]
  exact ⟨[], he', hall⟩

/-- A host that stops may lose the frame in its buffer. -/
theorem Pipe.stop (h : Pipe src e inbox written behind all) (he' : e'.pc = .stopped) :
    Pipe src e' inbox (written ++ []) behind all := by
  obtain ⟨head, -, hall⟩ := h
  rw [List.append_nil]
  refine ⟨head, ?_, hall⟩
  unfold Writing
  rw [he']
  trivial

theorem Pipe.receive {src' : Source} {bs : Frame} (h : Pipe src e ((src', bs) :: inbox) written behind all)
    (he : ∀ head, Writing e src head → head = []) (buf : List Byte) :
    Pipe src ⟨load buf (cut bs), .write (cut bs).length src'⟩ inbox (written ++ []) behind all := by
  obtain ⟨head, hhead, hall⟩ := h
  rw [he head hhead, List.append_nil] at hall
  rw [List.append_nil]
  refine ⟨if src' = src then [cut bs] else [], ?_, ?_⟩
  · change _ = if src' = src then [(load buf (cut bs)).take (cut bs).length] else []
    rw [load, List.take_left]
  · have hreceived : received src ((src', bs) :: inbox) = (if src' = src then [cut bs] else []) ++ received src inbox :=
      List.flatMap_cons
    rw [hall, hreceived]
    simp only [List.append_assoc]

theorem Pipe.write {rc : Nat} {src' : Source} (h : Pipe src e inbox written behind all) (hpc : e.pc = .write rc src')
    (he' : Writing e' src []) :
    Pipe src e' inbox (written ++ if src' = src then [e.buf.take rc] else []) behind all := by
  obtain ⟨head, hhead, hall⟩ := h
  unfold Writing at hhead
  rw [hpc] at hhead
  refine ⟨[], he', ?_⟩
  rw [hall, hhead, List.append_nil]

end Calls

namespace Tunnel
variable {s : Tunnel} {shown : List Shown}

section Turn
variable {k : Host} {sock : Bool} {rc : Nat} {src : Source}

theorem Inv.quiet (hs : s.Inv shown) : s.Inv (shown ++ []) := by
  rw [List.append_nil]
  exact hs

theorem Inv.stop (hs : s.Inv shown) (k : Host) :
    (s.goto k { s.hosts k with pc := .stopped }).Inv (shown ++ []) := by
  refine hs.act k rfl (Function.update_eq_self k s.inbox).symm (Function.update_eq_self k s.flight).symm
    (fun _ _ _ _ h => h.stop rfl) (fun tail _ => ⟨tail, trivial, ?_⟩) ⟨rfl, fun _ => rfl⟩ fun _ => rfl
  exact (List.append_nil _).symm

theorem Inv.select (hs : s.Inv shown) (hpc : (s.hosts k).pc = .select) (fd sock : Bool) :
    (s.goto k { s.hosts k with pc := if fd then .readFd sock else if sock then .readSock else .select }).Inv
      (shown ++ []) := by
  refine hs.act k rfl (Function.update_eq_self k s.inbox).symm (Function.update_eq_self k s.flight).symm
    (fun src _ _ _ h => h.idle (fun _ => Writing.eq_nil hpc trivial) ?_) (fun tail h => ⟨[], ?_, ?_⟩)
    ⟨rfl, fun _ => rfl⟩ fun _ => rfl
  · cases fd <;> cases sock <;> rfl
  · cases fd <;> cases sock <;> rfl
  · rw [h.eq_nil hpc trivial]
    exact (List.append_nil _).symm

/-- The frame that was read is what `sendto` is to send. -/
theorem Inv.readFd (hs : s.Inv shown) (hpc : (s.hosts k).pc = .readFd sock) (bs : Frame) :
    (s.goto k ⟨load (s.hosts k).buf (cut bs), .sendto (cut bs).length sock⟩).Inv (shown ++ [.read k (cut bs)]) := by
  refine hs.act k rfl (Function.update_eq_self k s.inbox).symm (Function.update_eq_self k s.flight).symm
    (fun src _ _ _ h => h.idle (fun _ => Writing.eq_nil hpc trivial) rfl) (fun tail h => ⟨[cut bs], ⟨?_, ?_⟩, ?_⟩)
    ⟨?_, fun _ => rfl⟩ fun _ => rfl
  · exact List.length_take_le _ _
  · change _ = [(load (s.hosts k).buf (cut bs)).take (cut bs).length]
    rw [load, List.take_left]
  · rw [h.eq_nil hpc trivial, List.append_nil]
    simp [readBy]
  · simp [readBy, (peer_ne k).symm]

/-- What is sent is under way. -/
theorem Inv.sendto (hs : s.Inv shown) (hpc : (s.hosts k).pc = .sendto rc sock) :
    (({ s with flight := Function.update s.flight k (s.flight k ++ [(s.hosts k).buf.take rc]) } : Tunnel).goto k
      { s.hosts k with pc := if sock then .readSock else .select }).Inv (shown ++ []) := by
  refine hs.act k rfl (Function.update_eq_self k s.inbox).symm rfl
    (fun src _ _ _ h => h.idle (fun _ => Writing.eq_nil hpc trivial) ?_) (fun tail h => ⟨[], ?_, ?_⟩)
    ⟨rfl, fun _ => rfl⟩ fun _ => rfl
  · cases sock <;> rfl
  · cases sock <;> rfl
  · unfold Sending at h
    rw [hpc] at h
    obtain ⟨hrc, rfl⟩ := h
    have hcut : cut ((s.hosts k).buf.take rc) = (s.hosts k).buf.take rc := by
      rw [cut, List.take_take, Nat.min_eq_right hrc]
    rw [List.map_append, List.map_singleton, hcut]
    rfl

/-- The datagram that was received is what `write` is to write. -/
theorem Inv.readSock (hs : s.Inv shown) (hpc : (s.hosts k).pc = .readSock) {bs : Frame} {inbox : List (Source × Frame)}
    (hin : s.inbox k = (src, bs) :: inbox) :
    (({ s with inbox := Function.update s.inbox k inbox } : Tunnel).goto k
      ⟨load (s.hosts k).buf (cut bs), .write (cut bs).length src⟩).Inv (shown ++ []) := by
  refine hs.act k rfl rfl (Function.update_eq_self k s.flight).symm (fun src _ _ _ h => ?_)
    (fun tail h => ⟨[], rfl, ?_⟩) ⟨rfl, fun _ => rfl⟩ fun _ => rfl
  · rw [hin] at h
    exact h.receive (fun _ => Writing.eq_nil hpc trivial) _
  · rw [h.eq_nil hpc trivial]
    exact (List.append_nil _).symm

theorem Inv.write (hs : s.Inv shown) (hpc : (s.hosts k).pc = .write rc src) :
    (s.goto k { s.hosts k with pc := .select }).Inv (shown ++ [.wrote k src ((s.hosts k).buf.take rc)]) := by
  refine hs.act k rfl (Function.update_eq_self k s.inbox).symm (Function.update_eq_self k s.flight).symm
    (fun src' _ _ _ h => ?_) (fun tail h => ⟨[], rfl, ?_⟩) ⟨rfl, fun src' => ?_⟩ fun _ => rfl
  · have hw : writtenFrom k src' [.wrote k src ((s.hosts k).buf.take rc)] =
        if src = src' then [(s.hosts k).buf.take rc] else [] := by
      simp [writtenFrom]
    rw [hw]
    exact h.write hpc rfl
  · rw [h.eq_nil hpc trivial]
    exact (List.append_nil _).symm
  · simp [writtenFrom, (peer_ne k).symm]

/-- A turn: a call of the kind that is next, or nothing. -/
theorem Inv.turn (hs : s.Inv shown) (k : Host) (a : Answer) : (s.turn k a).1.Inv (shown ++ (s.turn k a).2) := by
  unfold Tunnel.turn
  dsimp only
  cases hpc : (s.hosts k).pc with
  | select =>
      cases a with
      | ready fd sock => exact hs.select hpc fd sock
      | frame bs => exact hs.quiet
      | done => exact hs.quiet
      | failed => exact hs.quiet
  | readFd sock =>
      cases a with
      | frame bs => exact hs.readFd hpc bs
      | failed => exact hs.stop k
      | ready fd sock => exact hs.quiet
      | done => exact hs.quiet
  | sendto rc sock =>
      cases a with
      | done => exact hs.sendto hpc
      | failed => exact hs.stop k
      | ready fd sock => exact hs.quiet
      | frame bs => exact hs.quiet
  | readSock =>
      cases a with
      | done =>
          dsimp only
          cases hin : s.inbox k with
          | nil => exact hs.quiet
          | cons d inbox => exact hs.readSock hpc hin
      | failed => exact hs.stop k
      | ready fd sock => exact hs.quiet
      | frame bs => exact hs.quiet
  | write rc src =>
      cases a with
      | done => exact hs.write hpc
      | failed => exact hs.stop k
      | ready fd sock => exact hs.quiet
      | frame bs => exact hs.quiet
  | stopped =>
      cases a with
      | failed => exact hs.stop k
      | ready fd sock => exact hs.quiet
      | frame bs => exact hs.quiet
      | done => exact hs.quiet

end Turn

theorem received_snoc (src src' : Source) (inbox : List (Source × Frame)) (bs : Frame) :
    received src (inbox ++ [(src', bs)]) = received src inbox ++ if src' = src then [cut bs] else [] := by
  unfold received
  rw [List.flatMap_append, List.flatMap_singleton]

theorem Inv.deliver (hs : s.Inv shown) (k : Host) : (s.step (.deliver k)).1.Inv (shown ++ (s.step (.deliver k)).2) := by
  unfold Tunnel.step
  dsimp only
  cases hflight : s.flight k.peer with
  | nil =>
      rw [List.append_nil]
      exact hs
  | cons bs flight =>
      dsimp only
      rw [List.append_nil]
      constructor
      · intro h
        obtain ⟨tail, htail, head, hhead, hall⟩ := hs.fromPeer h
        refine ⟨tail, htail, head, hhead, ?_⟩
        dsimp only
        rcases eq_or_eq_peer h k with rfl | rfl
        · rw [Function.update_self, Function.update_self, received_snoc, if_pos rfl, hall, hflight]
          simp only [List.map_cons, List.append_assoc, List.cons_append, List.nil_append]
        · rw [peer_peer] at hall ⊢
          rw [Function.update_of_ne (peer_ne k), Function.update_of_ne (peer_ne k).symm]
          exact hall
      · intro h
        obtain ⟨head, hhead, hall⟩ := hs.fromThird h
        refine ⟨head, hhead, ?_⟩
        dsimp only
        rcases eq_or_eq_peer h k with rfl | rfl
        · rw [Function.update_self, received_snoc, if_neg Source.noConfusion, List.append_nil (received _ _)]
          exact hall
        · rw [Function.update_of_ne (peer_ne k)]
          exact hall

theorem Inv.stray (hs : s.Inv shown) (k : Host) (bs : Frame) :
    (s.step (.stray k bs)).1.Inv (shown ++ (s.step (.stray k bs)).2) := by
  change Tunnel.Inv { s with inbox := Function.update s.inbox k (s.inbox k ++ [(.third, bs)]) }
    (shown ++ [.strayed k (cut bs)])
  constructor
  · intro h
    obtain ⟨tail, htail, head, hhead, hall⟩ := hs.fromPeer h
    refine ⟨tail, htail, head, ?_, ?_⟩
    · exact hhead
    · rw [readBy_append, writtenFrom_append]
      change readBy h.peer shown ++ [] = writtenFrom h .peer shown ++ [] ++ head ++ _ ++ _
      rw [List.append_nil, List.append_nil, hall]
      dsimp only
      rcases eq_or_eq_peer h k with rfl | rfl
      · rw [Function.update_self, received_snoc, if_neg Source.noConfusion, List.append_nil]
      · rw [Function.update_of_ne (peer_ne k)]
  · intro h
    obtain ⟨head, hhead, hall⟩ := hs.fromThird h
    refine ⟨head, hhead, ?_⟩
    rw [strays_append, writtenFrom_append]
    change strays h shown ++ strays h [.strayed k (cut bs)] = writtenFrom h .third shown ++ [] ++ head ++ _ ++ _
    rw [List.append_nil, List.append_nil, hall, List.append_nil]
    dsimp only
    rcases eq_or_eq_peer h k with rfl | rfl
    · rw [Function.update_self, received_snoc, if_pos rfl, List.append_assoc]
      congr 2
      simp [strays]
    · rw [Function.update_of_ne (peer_ne k)]
      simp [strays, (peer_ne k).symm]

theorem Inv.run (buf : Host → List Byte) (happenings : List Happening) :
    (tunnel.run (.start buf) happenings).1.Inv (tunnel.run (.start buf) happenings).2 := by
  refine Machine.run_inv (m := tunnel) (I := fun shown s => s.Inv shown) ?_ happenings [] _ (inv_start buf)
  intro shown s i hs
  cases i with
  | turn h a => exact hs.turn h a
  | deliver h => exact hs.deliver h
  | stray h bs => exact hs.stray h bs

end Tunnel

/-- Where nothing came from third parties, all came from the peer. -/
theorem writtenBy_eq {h : Host} {shown : List Shown} (hthird : writtenFrom h .third shown = []) :
    writtenBy h shown = writtenFrom h .peer shown := by
  unfold writtenFrom at hthird
  rw [List.flatMap_eq_nil_iff] at hthird
  unfold writtenBy writtenFrom
  apply List.flatMap_congr
  intro o ho
  have hnone := hthird o ho
  cases o with
  | read k frame => rfl
  | strayed k frame => rfl
  | wrote k src frame =>
      cases src with
      | peer => simp
      | third =>
          have hk : ¬k = h := by simpa using hnone
          simp [hk]

/-- **What the hosts write.** The frames that a host writes to its device and that came from the other host are the
beginning of those the other has read from its device; those that came from third parties are the beginning of what
they have sent to it; without third parties there are no others. -/
theorem tunnelled (buf : Host → List Byte) (happenings : List Happening) (h : Host) :
    writtenFrom h .peer (tunnel.run (.start buf) happenings).2 <+: readBy h.peer (tunnel.run (.start buf) happenings).2 ∧
      writtenFrom h .third (tunnel.run (.start buf) happenings).2 <+: strays h (tunnel.run (.start buf) happenings).2 ∧
      (strays h (tunnel.run (.start buf) happenings).2 = [] →
        writtenBy h (tunnel.run (.start buf) happenings).2 <+: readBy h.peer (tunnel.run (.start buf) happenings).2) := by
  have hinv := Tunnel.Inv.run buf happenings
  generalize (tunnel.run (.start buf) happenings).1 = s at hinv
  generalize (tunnel.run (.start buf) happenings).2 = shown at hinv ⊢
  obtain ⟨tail, -, head, -, hpeer⟩ := hinv.fromPeer h
  obtain ⟨head', -, hthird⟩ := hinv.fromThird h
  have hfromPeer : writtenFrom h .peer shown <+: readBy h.peer shown := by
    rw [hpeer, List.append_assoc, List.append_assoc]
    exact List.prefix_append _ _
  have hfromThird : writtenFrom h .third shown <+: strays h shown := by
    rw [hthird, List.append_nil, List.append_assoc]
    exact List.prefix_append _ _
  refine ⟨hfromPeer, hfromThird, fun hnone => ?_⟩
  rw [hnone, List.prefix_nil] at hfromThird
  rw [writtenBy_eq hfromThird]
  exact hfromPeer

/-- The header of an empty IPv4 packet, but for its addresses. -/
def ipFrame : Frame := 0x45 :: 0 :: 0 :: 20 :: List.replicate 16 0

/-- A frame goes from one device to the other. -/
def oneFrame (frame : Frame) : List Happening :=
  [.turn .mach2 (.ready true false), .turn .mach2 (.frame frame), .turn .mach2 .done, .deliver .mach1,
    .turn .mach1 (.ready false true), .turn .mach1 .done, .turn .mach1 .done]

theorem tunnelled_frame :
    writtenBy .mach1 (tunnel.run (.start fun _ => []) (oneFrame ipFrame)).2 <+:
      readBy .mach2 (tunnel.run (.start fun _ => []) (oneFrame ipFrame)).2 :=
  (tunnelled (fun _ => []) (oneFrame ipFrame) .mach1).2.2 (by decide +kernel)

/-- A datagram of a third party is written to the device. -/
theorem not_tunnelled :
    ¬∀ (buf : Host → List Byte) (happenings : List Happening) (h : Host),
      writtenBy h (tunnel.run (.start buf) happenings).2 <+: readBy h.peer (tunnel.run (.start buf) happenings).2 := by
  intro h
  have hstray := h (fun _ => [])
    [.stray .mach1 ipFrame, .turn .mach1 (.ready false true), .turn .mach1 .done, .turn .mach1 .done] .mach1
  exact absurd hstray (by decide +kernel)

end SysSnippets.Tun
