import SysSnippets.Lib.Machine
import SysSnippets.NetlinkIpc.Packets

/-!
# Clients and server of `netlink_ipc`

The server and any number of clients, over netlink sockets: a packet goes into the queue of the socket that is bound to
its port, and cannot be sent if there is none. Server and clients start at any moment, and go at any moment: a call may
fail for reasons of its own, or the process is killed.

* `Net`, `Net.clientStep`, `Net.serverStep` : the two programs, one call at a time;
* `Net.Inv` : where each request and each reply is;
* `in_turn` : each request is served and answered once, in the order of sending, each client gets its own reply, and the
  server goes down on a reply only when that client has gone;
* `nobody_waits_in_vain` : as long as nobody has gone, every client that waits will get its reply.
-/

namespace SysSnippets.NetlinkIpc
open SysSnippets.Lib SysSnippets.Rtnetlink

/-- The port of the server; no process has this id. -/
def SERVER_NL_ID : U32 := 1000

/-- `data` of the client. -/
def clientData : List Byte := zeroPad DATA_SIZE ("CLIENT TALK".toList.map ch)

/-- `data` of the server. -/
def serverData : List Byte := zeroPad DATA_SIZE ("SERVER TALK".toList.map ch)

inductive ServerPc
  /-- before `bind` -/
  | start
  | recv
  /-- before `sendto` -/
  | send (pid : U32)
  | exited
  deriving DecidableEq

inductive ClientPc
  /-- before `bind` -/
  | start
  /-- before `sendto` -/
  | bound
  /-- in `recvfrom` -/
  | waiting
  | done
  | gone
  deriving DecidableEq

inductive Out
  /-- the server is bound -/
  | up
  /-- a client has sent its request -/
  | sent (pid : U32)
  /-- a client cannot send it: no server is bound -/
  | refused (pid : U32)
  /-- "server got message with payload %d from client %d", and the message -/
  | served (pid : U32) (payload : Int) (text : List Byte)
  | replied (pid : U32)
  /-- the server cannot reply, because that client is no longer bound, and returns -/
  | down (pid : U32)
  /-- another call of the server fails, or it is killed -/
  | serverGone
  /-- "client got message from server %d", and the message -/
  | got (client : U32) (pid : U32) (text : List Byte)
  /-- a call of a client fails, or it is killed -/
  | gone (pid : U32)
  deriving DecidableEq

/-- Who makes its next call; unless `ok` it fails for a reason of its own, or the process is killed there. -/
inductive Turn
  | client (pid : U32) (ok : Bool)
  | server (ok : Bool)

structure Net where
  /-- the queues of the bound ports -/
  port : U32 → Option (List (List Byte))
  server : ServerPc
  /-- the block of the server -/
  nlh : Block
  client : U32 → ClientPc

namespace Net

def init : Net where
  port _ := none
  server := .start
  nlh _ := 0
  client _ := .start

def setPort (s : Net) (p : U32) (q : Option (List (List Byte))) : Net := { s with port := Function.update s.port p q }

def goto (s : Net) (p : U32) (pc : ClientPc) : Net := { s with client := Function.update s.client p pc }

/-- The next call of client `p`; at its end the socket is closed. -/
def clientGoes (s : Net) (p : U32) : Net × List Out :=
  match s.client p with
  | .start => if s.port p = none then ((s.setPort p (some [])).goto p .bound, []) else (s.goto p .gone, [.gone p])
  | .bound =>
      match s.port SERVER_NL_ID with
      | some q => ((s.setPort SERVER_NL_ID (some (q ++ [packetOf (build p clientData)]))).goto p .waiting, [.sent p])
      | none => ((s.setPort p none).goto p .gone, [.refused p])
  | .waiting =>
      match s.port p with
      | some (packet :: _) =>
          let nlh := recvfrom emptyBlock packet
          ((s.setPort p none).goto p .done, [.got p nlh.pid nlh.text])
      | _ => (s, [])
  | _ => (s, [])

/-- A client that fails or is killed leaves its port. -/
def clientStep (s : Net) (p : U32) (ok : Bool) : Net × List Out :=
  if ok then s.clientGoes p
  else if s.client p = .done ∨ s.client p = .gone then (s, [])
  else ((s.setPort p none).goto p .gone, [.gone p])

/-- The next call of the server, whose process id is `spid`. -/
def serverGoes (spid : U32) (s : Net) : Net × List Out :=
  match s.server with
  | .start => ({ s.setPort SERVER_NL_ID (some []) with nlh := emptyBlock, server := .recv }, [.up])
  | .recv =>
      match s.port SERVER_NL_ID with
      | some (packet :: rest) =>
          let nlh := recvfrom s.nlh packet
          ({ s.setPort SERVER_NL_ID (some rest) with nlh := build spid serverData, server := .send nlh.pid },
            [.served nlh.pid nlh.payload nlh.text])
      | _ => (s, [])
  | .send pid =>
      match s.port pid with
      | some q => ({ s.setPort pid (some (q ++ [packetOf s.nlh])) with server := .recv }, [.replied pid])
      | none => ({ s.setPort SERVER_NL_ID none with server := .exited }, [.down pid])
  | .exited => (s, [])

def serverStep (spid : U32) (s : Net) (ok : Bool) : Net × List Out :=
  if ok then s.serverGoes spid
  else if s.server = .exited then (s, [])
  else ({ s.setPort SERVER_NL_ID none with server := .exited }, [.serverGone])

def step (spid : U32) (s : Net) : Turn → Net × List Out
  | .client p ok => if p = SERVER_NL_ID then (s, []) else s.clientStep p ok
  | .server ok => s.serverStep spid ok

end Net

/-- Clients and server, in any order. -/
def net (spid : U32) : Machine Net Turn Out := ⟨Net.step spid⟩

/-! ## What a call does -/

namespace Net
variable {spid : U32} {s s' : Net} {h out : List Out} {p : U32}

/-- What can happen. -/
inductive Move (spid : U32) (s : Net) : Net → List Out → Prop
  | idle : Move spid s s []
  | bind (p : U32) (hp : p ≠ SERVER_NL_ID) (hclient : s.client p = .start) (hport : s.port p = none) :
      Move spid s ((s.setPort p (some [])).goto p .bound) []
  | taken (p : U32) (hp : p ≠ SERVER_NL_ID) (hclient : s.client p = .start) (hport : s.port p ≠ none) :
      Move spid s (s.goto p .gone) [.gone p]
  | gone (p : U32) (hp : p ≠ SERVER_NL_ID) (hclient : ¬(s.client p = .done ∨ s.client p = .gone)) :
      Move spid s ((s.setPort p none).goto p .gone) [.gone p]
  | sent (p : U32) (q : List (List Byte)) (hp : p ≠ SERVER_NL_ID) (hclient : s.client p = .bound)
      (hq : s.port SERVER_NL_ID = some q) :
      Move spid s ((s.setPort SERVER_NL_ID (some (q ++ [packetOf (build p clientData)]))).goto p .waiting) [.sent p]
  | refused (p : U32) (hp : p ≠ SERVER_NL_ID) (hclient : s.client p = .bound) (hq : s.port SERVER_NL_ID = none) :
      Move spid s ((s.setPort p none).goto p .gone) [.refused p]
  | got (p : U32) (packet : List Byte) (rest : List (List Byte)) (hp : p ≠ SERVER_NL_ID) (hclient : s.client p = .waiting)
      (hport : s.port p = some (packet :: rest)) :
      Move spid s ((s.setPort p none).goto p .done)
        [.got p (recvfrom emptyBlock packet).pid (recvfrom emptyBlock packet).text]
  | up (hserver : s.server = .start) :
      Move spid s { s.setPort SERVER_NL_ID (some []) with nlh := emptyBlock, server := .recv } [.up]
  | served (packet : List Byte) (rest : List (List Byte)) (hserver : s.server = .recv)
      (hq : s.port SERVER_NL_ID = some (packet :: rest)) :
      Move spid s { s.setPort SERVER_NL_ID (some rest) with
          nlh := build spid serverData, server := .send (recvfrom s.nlh packet).pid }
        [.served (recvfrom s.nlh packet).pid (recvfrom s.nlh packet).payload (recvfrom s.nlh packet).text]
  | replied (p : U32) (q : List (List Byte)) (hserver : s.server = .send p) (hport : s.port p = some q) :
      Move spid s { s.setPort p (some (q ++ [packetOf s.nlh])) with server := .recv } [.replied p]
  | down (p : U32) (hserver : s.server = .send p) (hport : s.port p = none) :
      Move spid s { s.setPort SERVER_NL_ID none with server := .exited } [.down p]
  | serverGone (hserver : s.server ≠ .exited) :
      Move spid s { s.setPort SERVER_NL_ID none with server := .exited } [.serverGone]

theorem clientGoes_move (spid : U32) (s : Net) (p : U32) (hp : p ≠ SERVER_NL_ID) :
    Move spid s (s.clientGoes p).1 (s.clientGoes p).2 := by
  unfold clientGoes
  split
  · next hclient =>
      split_ifs with hport
      · exact .bind p hp hclient hport
      · exact .taken p hp hclient hport
  · next hclient =>
      split
      · next q hq => exact .sent p q hp hclient hq
      · next hq => exact .refused p hp hclient hq
  · next hclient =>
      split
      · next packet rest hport => exact .got p packet rest hp hclient hport
      · exact .idle
  · exact .idle

theorem serverGoes_move (spid : U32) (s : Net) : Move spid s (s.serverGoes spid).1 (s.serverGoes spid).2 := by
  unfold serverGoes
  split
  · next hserver => exact .up hserver
  · next hserver =>
      split
      · next packet rest hq => exact .served packet rest hserver hq
      · exact .idle
  · next p hserver =>
      split
      · next q hport => exact .replied p q hserver hport
      · next hport => exact .down p hserver hport
  · exact .idle

theorem step_move (spid : U32) (s : Net) (t : Turn) : Move spid s (s.step spid t).1 (s.step spid t).2 := by
  unfold step
  split
  · next p ok =>
      split_ifs with hp
      · exact .idle
      · unfold clientStep
        split_ifs with hok hgone
        · exact clientGoes_move spid s p hp
        · exact .idle
        · exact .gone p hp hgone
  · unfold serverStep
    split_ifs with hok hexited
    · exact serverGoes_move spid s
    · exact .idle
    · exact .serverGone hexited

@[simp] theorem setPort_port (s : Net) (p r : U32) (q : Option (List (List Byte))) :
    (s.setPort p q).port r = if r = p then q else s.port r := Function.update_apply ..

theorem goto_port (s : Net) (p : U32) (pc : ClientPc) : (s.goto p pc).port = s.port := rfl

@[simp] theorem goto_client (s : Net) (p r : U32) (pc : ClientPc) :
    (s.goto p pc).client r = if r = p then pc else s.client r :=
  Function.update_apply ..

end Net

/-! ## Requests and replies -/

/-- The requests in the order of sending, of serving, and of replying. -/
def sents (h : List Out) : List U32 := h.filterMap fun | .sent p => some p | _ => none

def serveds (h : List Out) : List U32 := h.filterMap fun | .served p _ _ => some p | _ => none

def replieds (h : List Out) : List U32 := h.filterMap fun | .replied p => some p | _ => none

theorem sents_append (h out : List Out) : sents (h ++ out) = sents h ++ sents out := List.filterMap_append ..

theorem serveds_append (h out : List Out) : serveds (h ++ out) = serveds h ++ serveds out := List.filterMap_append ..

theorem replieds_append (h out : List Out) : replieds (h ++ out) = replieds h ++ replieds out := List.filterMap_append ..

theorem length_clientData : clientData.length = DATA_SIZE := length_zeroPad (Nat.succ_pos 99) _

theorem length_serverData : serverData.length = DATA_SIZE := length_zeroPad (Nat.succ_pos 99) _

/-- Whether the server is bound. -/
def ServerPc.serves : ServerPc → Bool
  | .recv | .send _ => true
  | .start | .exited => false

/-- The port of a client that has not gone: its queue, given whether it has been answered. -/
def ClientPc.queue (spid : U32) (answered : Prop) [Decidable answered] : ClientPc → Option (List (List Byte))
  | .bound => some []
  | .waiting => some (if answered then [nlmsg spid serverData] else [])
  | _ => none

namespace Net
variable {spid : U32} {s s' : Net} {h out : List Out} {p : U32}

structure Inv (spid : U32) (h : List Out) (s : Net) : Prop where
  answered : replieds h <+: serveds h
  inOrder : serveds h <+: sents h
  nodup : (sents h).Nodup
  start : s.server = .start → s.port SERVER_NL_ID = none ∧ sents h = [] ∧ .up ∉ h
  queue : s.server.serves = true → ∃ ps, s.port SERVER_NL_ID = some (ps.map fun p => nlmsg p clientData) ∧
    sents h = serveds h ++ ps
  recv : s.server = .recv → serveds h = replieds h ∧ s.nlh.len = nlmsgSpace DATA_SIZE
  send : ∀ p, s.server = .send p → serveds h = replieds h ++ [p] ∧ s.nlh = build spid serverData
  exited : s.server = .exited → .serverGone ∈ h ∨ ∃ p, .down p ∈ h ∧ .gone p ∈ h
  port : ∀ p, p ≠ SERVER_NL_ID → s.port p = (s.client p).queue spid (p ∈ replieds h)
  server : s.client SERVER_NL_ID = .start
  sent : ∀ p, p ∈ sents h → s.client p = .waiting ∨ s.client p = .done ∨ s.client p = .gone
  waiting : ∀ p, s.client p = .waiting → p ∈ sents h
  done : ∀ p, s.client p = .done → p ∈ replieds h
  gone : ∀ p, s.client p = .gone → p ∈ sents h → .gone p ∈ h

theorem inv_init (spid : U32) : init.Inv spid [] where
  answered := List.prefix_rfl
  inOrder := List.prefix_rfl
  nodup := List.nodup_nil
  start _ := ⟨rfl, rfl, List.not_mem_nil⟩
  queue hserves := nomatch hserves
  recv hserver := nomatch hserver
  send _ hserver := nomatch hserver
  exited hserver := nomatch hserver
  port _ _ := rfl
  server := rfl
  sent _ hp := absurd hp List.not_mem_nil
  waiting _ hclient := nomatch hclient
  done _ hclient := nomatch hclient
  gone _ hclient := nomatch hclient

theorem Inv.exited_append (hinv : s.Inv spid h) (hexited : s.server = .exited) :
    .serverGone ∈ h ++ out ∨ ∃ p, .down p ∈ h ++ out ∧ .gone p ∈ h ++ out := by
  rcases hinv.exited hexited with hgone | ⟨p, hdown, hgone⟩
  · exact Or.inl (List.mem_append_left out hgone)
  · exact Or.inr ⟨p, List.mem_append_left out hdown, List.mem_append_left out hgone⟩

/-- A move of a client that sends nothing. -/
theorem Inv.clientMoved {pc : ClientPc} {q : Option (List (List Byte))} (hinv : s.Inv spid h) (hp : p ≠ SERVER_NL_ID)
    (hsents : sents out = []) (hserveds : serveds out = []) (hreplieds : replieds out = []) (hup : .up ∉ out)
    (hq : q = pc.queue spid (p ∈ replieds h)) (hwaiting : pc ≠ .waiting)
    (hsent : p ∈ sents h → pc = .done ∨ pc = .gone) (hdone : pc = .done → p ∈ replieds h)
    (hgone : pc = .gone → p ∈ sents h → .gone p ∈ h ++ out) : ((s.setPort p q).goto p pc).Inv spid (h ++ out) := by
  have hclient : ∀ r, r ≠ p → ((s.setPort p q).goto p pc).client r = s.client r := by
    intro r hr
    rw [goto_client, if_neg hr]
    rfl
  have hself : ((s.setPort p q).goto p pc).client p = pc := by rw [goto_client, if_pos rfl]
  have hport : ((s.setPort p q).goto p pc).port SERVER_NL_ID = s.port SERVER_NL_ID := by
    rw [goto_port, setPort_port, if_neg hp.symm]
  constructor
  case answered =>
      rw [replieds_append, serveds_append, hreplieds, hserveds, List.append_nil, List.append_nil]
      exact hinv.answered
  case inOrder =>
      rw [serveds_append, sents_append, hserveds, hsents, List.append_nil, List.append_nil]
      exact hinv.inOrder
  case nodup =>
      rw [sents_append, hsents, List.append_nil]
      exact hinv.nodup
  case start =>
      rw [sents_append, hsents, List.append_nil, hport, List.mem_append, or_iff_left hup]
      exact hinv.start
  case queue =>
      rw [sents_append, serveds_append, hsents, hserveds, List.append_nil, List.append_nil, hport]
      exact hinv.queue
  case recv =>
      rw [serveds_append, replieds_append, hserveds, hreplieds, List.append_nil, List.append_nil]
      exact hinv.recv
  case send =>
      rw [serveds_append, replieds_append, hserveds, hreplieds, List.append_nil, List.append_nil]
      exact hinv.send
  case exited => exact hinv.exited_append
  case port =>
      intro r hr
      simp only [replieds_append, hreplieds, List.append_nil]
      rw [goto_port, setPort_port]
      by_cases hrp : r = p
      · rw [if_pos hrp, hrp, hself, hq]
      · rw [if_neg hrp, hclient r hrp]
        exact hinv.port r hr
  case server =>
      rw [hclient _ hp.symm]
      exact hinv.server
  case sent =>
      intro r hr
      rw [sents_append, hsents, List.append_nil] at hr
      by_cases hrp : r = p
      · rw [hrp] at hr ⊢
        rw [hself]
        exact Or.inr (hsent hr)
      · rw [hclient r hrp]
        exact hinv.sent r hr
  case waiting =>
      intro r hr
      rw [sents_append, hsents, List.append_nil]
      by_cases hrp : r = p
      · rw [hrp, hself] at hr
        exact absurd hr hwaiting
      · rw [hclient r hrp] at hr
        exact hinv.waiting r hr
  case done =>
      intro r hr
      rw [replieds_append, hreplieds, List.append_nil]
      by_cases hrp : r = p
      · rw [hrp, hself] at hr
        rw [hrp]
        exact hdone hr
      · rw [hclient r hrp] at hr
        exact hinv.done r hr
  case gone =>
      intro r hr hmem
      rw [sents_append, hsents, List.append_nil] at hmem
      by_cases hrp : r = p
      · rw [hrp, hself] at hr
        rw [hrp] at hmem ⊢
        exact hgone hr hmem
      · rw [hclient r hrp] at hr
        exact List.mem_append_left out (hinv.gone r hr hmem)

/-- A request that is sent. -/
theorem Inv.sentMoved {q : List (List Byte)} (hinv : s.Inv spid h) (hp : p ≠ SERVER_NL_ID) (hclient : s.client p = .bound)
    (hq : s.port SERVER_NL_ID = some q) :
    ((s.setPort SERVER_NL_ID (some (q ++ [packetOf (build p clientData)]))).goto p .waiting).Inv spid (h ++ [.sent p]) := by
  have hnew : p ∉ sents h := by
    intro hmem
    have hcases := hinv.sent p hmem
    rw [hclient] at hcases
    rcases hcases with hcase | hcase | hcase <;> cases hcase
  have hunanswered : p ∉ replieds h := fun hmem => hnew ((hinv.answered.trans hinv.inOrder).subset hmem)
  have hsents : sents (h ++ [.sent p]) = sents h ++ [p] := sents_append ..
  have hserveds : serveds (h ++ [.sent p]) = serveds h := by rw [serveds_append]; exact List.append_nil _
  have hreplieds : replieds (h ++ [.sent p]) = replieds h := by rw [replieds_append]; exact List.append_nil _
  have hother : ∀ r, r ≠ p → ((s.setPort SERVER_NL_ID (some (q ++ [packetOf (build p clientData)]))).goto p
      .waiting).client r = s.client r := by
    intro r hr
    rw [goto_client, if_neg hr]
    rfl
  have hself : ((s.setPort SERVER_NL_ID (some (q ++ [packetOf (build p clientData)]))).goto p .waiting).client p =
      .waiting := by rw [goto_client, if_pos rfl]
  constructor
  case answered =>
      rw [hreplieds, hserveds]
      exact hinv.answered
  case inOrder =>
      rw [hserveds, hsents]
      exact hinv.inOrder.trans (List.prefix_append _ _)
  case nodup =>
      rw [hsents, List.nodup_append_comm]
      exact List.nodup_cons.2 ⟨hnew, hinv.nodup⟩
  case start =>
      intro hstart
      rw [(hinv.start hstart).1] at hq
      cases hq
  case queue =>
      intro hup
      obtain ⟨ps, hps, hsplit⟩ := hinv.queue hup
      rw [hq, Option.some.injEq] at hps
      refine ⟨ps ++ [p], ?_, ?_⟩
      · rw [goto_port, setPort_port, if_pos rfl, packetOf_build length_clientData, hps, List.map_append]
        rfl
      · rw [hsents, hserveds, hsplit, List.append_assoc]
  case recv =>
      rw [hserveds, hreplieds]
      exact hinv.recv
  case send =>
      rw [hserveds, hreplieds]
      exact hinv.send
  case exited => exact hinv.exited_append
  case port =>
      intro r hr
      simp only [hreplieds]
      rw [goto_port, setPort_port, if_neg hr, hinv.port r hr]
      by_cases hrp : r = p
      · rw [hrp, hself, hclient]
        exact (congrArg some (if_neg hunanswered)).symm
      · rw [hother r hrp]
  case server =>
      rw [hother _ hp.symm]
      exact hinv.server
  case sent =>
      intro r hr
      by_cases hrp : r = p
      · rw [hrp, hself]
        exact Or.inl rfl
      · rw [hsents, List.mem_append, List.mem_singleton, or_iff_left hrp] at hr
        rw [hother r hrp]
        exact hinv.sent r hr
  case waiting =>
      intro r hr
      rw [hsents]
      by_cases hrp : r = p
      · rw [hrp]
        exact List.mem_append_right _ List.mem_cons_self
      · rw [hother r hrp] at hr
        exact List.mem_append_left _ (hinv.waiting r hr)
  case done =>
      intro r hr
      rw [hreplieds]
      by_cases hrp : r = p
      · rw [hrp, hself] at hr
        cases hr
      · rw [hother r hrp] at hr
        exact hinv.done r hr
  case gone =>
      intro r hr hmem
      by_cases hrp : r = p
      · rw [hrp, hself] at hr
        cases hr
      · rw [hsents, List.mem_append, List.mem_singleton, or_iff_left hrp] at hmem
        rw [hother r hrp] at hr
        exact List.mem_append_left _ (hinv.gone r hr hmem)

/-- Who is being answered has sent a request and has got no reply. -/
theorem Inv.sending (hinv : s.Inv spid h) (hserver : s.server = .send p) : p ∈ sents h ∧ p ∉ replieds h := by
  obtain ⟨hserveds, -⟩ := hinv.send p hserver
  have hnodup := hinv.nodup.sublist hinv.inOrder.sublist
  rw [hserveds] at hnodup
  refine ⟨hinv.inOrder.subset ?_, fun hmem => ?_⟩
  · rw [hserveds]
    exact List.mem_append_right _ List.mem_cons_self
  · exact List.disjoint_of_nodup_append hnodup hmem List.mem_cons_self

theorem Inv.ne_of_sent (hinv : s.Inv spid h) (hsent : p ∈ sents h) : p ≠ SERVER_NL_ID := by
  intro hp
  have hcases := hinv.sent p hsent
  rw [hp, hinv.server] at hcases
  rcases hcases with hcase | hcase | hcase <;> cases hcase

/-- Who is being answered waits at its port, or has gone. -/
theorem Inv.port_sending (hinv : s.Inv spid h) (hserver : s.server = .send p) :
    s.client p = .waiting ∧ s.port p = some [] ∨ s.port p = none ∧ .gone p ∈ h := by
  obtain ⟨hsent, hnot⟩ := hinv.sending hserver
  have hport := hinv.port p (hinv.ne_of_sent hsent)
  rcases hinv.sent p hsent with hclient | hclient | hclient
  · rw [hclient] at hport
    exact Or.inl ⟨hclient, hport.trans (congrArg some (if_neg hnot))⟩
  · exact absurd (hinv.done p hclient) hnot
  · rw [hclient] at hport
    exact Or.inr ⟨hport, hinv.gone p hclient hsent⟩

/-- A move of the server. -/
theorem Inv.serverMoved (hinv : s.Inv spid h) (hclient : s'.client = s.client) (hsents : sents out = [])
    (hanswered : replieds (h ++ out) <+: serveds (h ++ out)) (hinOrder : serveds (h ++ out) <+: sents h)
    (hstart : s'.server ≠ .start)
    (hqueue : s'.server.serves = true → ∃ ps, s'.port SERVER_NL_ID = some (ps.map fun p => nlmsg p clientData) ∧
      sents h = serveds (h ++ out) ++ ps)
    (hrecv : s'.server = .recv → serveds (h ++ out) = replieds (h ++ out) ∧ s'.nlh.len = nlmsgSpace DATA_SIZE)
    (hsend : ∀ p, s'.server = .send p → serveds (h ++ out) = replieds (h ++ out) ++ [p] ∧
      s'.nlh = build spid serverData)
    (hexited : s'.server = .exited → .serverGone ∈ h ++ out ∨ ∃ p, .down p ∈ h ++ out ∧ .gone p ∈ h ++ out)
    (hport : ∀ p, p ≠ SERVER_NL_ID → s'.port p = (s.client p).queue spid (p ∈ replieds (h ++ out))) :
    s'.Inv spid (h ++ out) := by
  have hsame : sents (h ++ out) = sents h := by rw [sents_append, hsents, List.append_nil]
  constructor
  case answered => exact hanswered
  case inOrder =>
      rw [hsame]
      exact hinOrder
  case nodup =>
      rw [hsame]
      exact hinv.nodup
  case start => exact fun hst => absurd hst hstart
  case queue =>
      rw [hsame]
      exact hqueue
  case recv => exact hrecv
  case send => exact hsend
  case exited => exact hexited
  case port =>
      rw [hclient]
      exact hport
  case server =>
      rw [hclient]
      exact hinv.server
  case sent =>
      rw [hsame, hclient]
      exact hinv.sent
  case waiting =>
      rw [hsame, hclient]
      exact hinv.waiting
  case done =>
      intro r hr
      rw [hclient] at hr
      rw [replieds_append]
      exact List.mem_append_left _ (hinv.done r hr)
  case gone =>
      intro r hr hmem
      rw [hclient] at hr
      rw [hsame] at hmem
      exact List.mem_append_left _ (hinv.gone r hr hmem)

/-- The request at the head of the queue is read. -/
theorem Inv.servedMoved {packet : List Byte} {rest : List (List Byte)} (hinv : s.Inv spid h)
    (hserver : s.server = .recv) (hq : s.port SERVER_NL_ID = some (packet :: rest)) :
    Inv spid (h ++ [.served (recvfrom s.nlh packet).pid (recvfrom s.nlh packet).payload (recvfrom s.nlh packet).text])
      { s.setPort SERVER_NL_ID (some rest) with
        nlh := build spid serverData, server := .send (recvfrom s.nlh packet).pid } := by
  obtain ⟨hsame, hlen⟩ := hinv.recv hserver
  obtain ⟨ps, hps, hsplit⟩ := hinv.queue (by rw [hserver]; rfl)
  rw [hq, Option.some.injEq] at hps
  cases ps with
  | nil => cases hps
  | cons p ps =>
      obtain ⟨rfl, rfl⟩ := List.cons.inj hps
      obtain ⟨-, hpid, -⟩ := recvfrom_nlmsg (p := p) hlen length_clientData
      have hserveds : ∀ n text, serveds (h ++ [.served p n text]) = serveds h ++ [p] := fun n text => serveds_append ..
      have hreplieds : ∀ n text, replieds (h ++ [.served p n text]) = replieds h := fun n text => by
        rw [replieds_append]; exact List.append_nil _
      rw [hpid]
      apply hinv.serverMoved
      · rfl
      · rfl
      · rw [hreplieds, hserveds]
        exact hinv.answered.trans (List.prefix_append _ _)
      · rw [hserveds, hsplit]
        exact (List.prefix_append_right_inj _).2 ⟨ps, rfl⟩
      · exact ServerPc.noConfusion
      · intro _
        refine ⟨ps, ?_, ?_⟩
        · exact Function.update_self SERVER_NL_ID _ s.port
        · rw [hserveds, hsplit, List.append_assoc]
          rfl
      · exact fun hrecv => nomatch hrecv
      · rintro r ⟨⟩
        rw [hserveds, hreplieds, hsame]
        exact ⟨rfl, rfl⟩
      · exact fun hexited => nomatch hexited
      · intro r hr
        simp only [hreplieds]
        exact (Function.update_of_ne hr ..).trans (hinv.port r hr)

/-- The reply reaches a client, which is still there and has an empty queue. -/
theorem Inv.repliedMoved {q : List (List Byte)} (hinv : s.Inv spid h) (hserver : s.server = .send p)
    (hport : s.port p = some q) :
    Inv spid (h ++ [.replied p]) { s.setPort p (some (q ++ [packetOf s.nlh])) with server := .recv } := by
  obtain ⟨hserveds, hnlh⟩ := hinv.send p hserver
  have hp : p ≠ SERVER_NL_ID := hinv.ne_of_sent (hinv.sending hserver).1
  obtain ⟨hclient, hq⟩ : s.client p = .waiting ∧ q = [] := by
    rcases hinv.port_sending hserver with ⟨hclient, hempty⟩ | ⟨hnone, -⟩
    · rw [hport] at hempty
      exact ⟨hclient, Option.some.inj hempty⟩
    · rw [hport] at hnone
      cases hnone
  have hserveds' : serveds (h ++ [.replied p]) = serveds h := by rw [serveds_append]; exact List.append_nil _
  have hreplieds : replieds (h ++ [.replied p]) = replieds h ++ [p] := replieds_append ..
  apply hinv.serverMoved
  · rfl
  · rfl
  · rw [hreplieds, hserveds', hserveds]
  · rw [hserveds']
    exact hinv.inOrder
  · exact ServerPc.noConfusion
  · intro _
    obtain ⟨ps, hps, hsplit⟩ := hinv.queue (by rw [hserver]; rfl)
    refine ⟨ps, ?_, ?_⟩
    · exact (Function.update_of_ne hp.symm ..).trans hps
    · rw [hserveds', hsplit]
  · intro _
    rw [hserveds', hreplieds, hserveds]
    refine ⟨rfl, ?_⟩
    change s.nlh.len = _
    rw [hnlh, len_build]
  · exact fun r hsend => nomatch hsend
  · exact fun hexited => nomatch hexited
  · intro r hr
    change (s.setPort p _).port r = (s.client r).queue _ _
    rw [setPort_port]
    by_cases hrp : r = p
    · rw [if_pos hrp, hrp, hclient, hq, hnlh, packetOf_build length_serverData]
      refine (congrArg some (if_pos ?_)).symm
      rw [hreplieds]
      exact List.mem_append_right _ List.mem_cons_self
    · rw [if_neg hrp, hinv.port r hr]
      simp only [hreplieds, List.mem_append, List.mem_singleton, or_iff_left hrp]

/-- The server is bound, and nothing has been sent yet. -/
theorem Inv.upMoved (hinv : s.Inv spid h) (hserver : s.server = .start) :
    Inv spid (h ++ [.up]) { s.setPort SERVER_NL_ID (some []) with nlh := emptyBlock, server := .recv } := by
  obtain ⟨-, hnone, -⟩ := hinv.start hserver
  have hserveds : serveds (h ++ [.up]) = serveds h := by rw [serveds_append]; exact List.append_nil _
  have hreplieds : replieds (h ++ [.up]) = replieds h := by rw [replieds_append]; exact List.append_nil _
  have hunserved : serveds h = [] := List.prefix_nil.1 (hnone ▸ hinv.inOrder)
  have hunanswered : replieds h = [] := List.prefix_nil.1 (hunserved ▸ hinv.answered)
  apply hinv.serverMoved
  · rfl
  · rfl
  · rw [hreplieds, hserveds]
    exact hinv.answered
  · rw [hserveds]
    exact hinv.inOrder
  · exact ServerPc.noConfusion
  · intro _
    refine ⟨[], ?_, ?_⟩
    · exact Function.update_self SERVER_NL_ID _ s.port
    · rw [hserveds, hunserved, hnone]
      rfl
  · intro _
    rw [hserveds, hreplieds, hunserved, hunanswered]
    exact ⟨rfl, len_emptyBlock⟩
  · exact fun r hsend => nomatch hsend
  · exact fun hexited => nomatch hexited
  · intro r hr
    simp only [hreplieds]
    exact (Function.update_of_ne hr ..).trans (hinv.port r hr)

/-- The server leaves its port. -/
theorem Inv.exitMoved (hinv : s.Inv spid h) (hsents : sents out = []) (hserveds : serveds out = [])
    (hreplieds : replieds out = [])
    (hexited : .serverGone ∈ h ++ out ∨ ∃ p, .down p ∈ h ++ out ∧ .gone p ∈ h ++ out) :
    Inv spid (h ++ out) { s.setPort SERVER_NL_ID none with server := .exited } := by
  have hserveds' : serveds (h ++ out) = serveds h := by rw [serveds_append, hserveds, List.append_nil]
  have hreplieds' : replieds (h ++ out) = replieds h := by rw [replieds_append, hreplieds, List.append_nil]
  apply hinv.serverMoved
  · rfl
  · exact hsents
  · rw [hreplieds', hserveds']
    exact hinv.answered
  · rw [hserveds']
    exact hinv.inOrder
  · exact ServerPc.noConfusion
  · exact fun hserves => nomatch hserves
  · exact fun hrecv => nomatch hrecv
  · exact fun r hsend => nomatch hsend
  · exact fun _ => hexited
  · intro r hr
    simp only [hreplieds']
    exact (Function.update_of_ne hr ..).trans (hinv.port r hr)

theorem Inv.gone_of_down (hinv : s.Inv spid h) (hserver : s.server = .send p) (hport : s.port p = none) : .gone p ∈ h := by
  rcases hinv.port_sending hserver with ⟨-, hempty⟩ | ⟨-, hgone⟩
  · rw [hport] at hempty
    cases hempty
  · exact hgone

/-- **A move keeps the invariant.** -/
theorem Inv.move (hinv : s.Inv spid h) (hm : Move spid s s' out) : s'.Inv spid (h ++ out) := by
  have hunsent : ∀ p, s.client p = .start ∨ s.client p = .bound → p ∉ sents h := by
    intro p hclient hmem
    have hcases := hinv.sent p hmem
    rcases hclient with hclient | hclient <;> rw [hclient] at hcases <;>
      rcases hcases with hcase | hcase | hcase <;> cases hcase
  cases hm with
  | idle =>
      rw [List.append_nil]
      exact hinv
  | bind p hp hclient hport =>
      refine hinv.clientMoved hp rfl rfl rfl List.not_mem_nil rfl ?_ ?_ ?_ ?_
      · exact ClientPc.noConfusion
      · exact fun hmem => absurd hmem (hunsent p (Or.inl hclient))
      · exact fun hpc => nomatch hpc
      · exact fun hpc => nomatch hpc
  | taken p hp hclient hport =>
      rw [hinv.port p hp, hclient] at hport
      exact absurd rfl hport
  | gone p hp hclient =>
      refine hinv.clientMoved hp rfl rfl rfl (by simp) rfl ?_ ?_ ?_ ?_
      · exact ClientPc.noConfusion
      · exact fun _ => Or.inr rfl
      · exact fun hpc => nomatch hpc
      · exact fun _ _ => List.mem_append_right h List.mem_cons_self
  | sent p q hp hclient hq => exact hinv.sentMoved hp hclient hq
  | refused p hp hclient hq =>
      refine hinv.clientMoved hp rfl rfl rfl (by simp) rfl ?_ ?_ ?_ ?_
      · exact ClientPc.noConfusion
      · exact fun _ => Or.inr rfl
      · exact fun hpc => nomatch hpc
      · exact fun _ hmem => absurd hmem (hunsent p (Or.inr hclient))
  | got p packet rest hp hclient hport =>
      have hanswered : p ∈ replieds h := by
        by_contra hnot
        rw [hinv.port p hp, hclient] at hport
        change some (if p ∈ replieds h then _ else _) = _ at hport
        rw [if_neg hnot] at hport
        cases hport
      refine hinv.clientMoved hp rfl rfl rfl (by simp) rfl ?_ ?_ ?_ ?_
      · exact ClientPc.noConfusion
      · exact fun _ => Or.inl rfl
      · exact fun _ => hanswered
      · exact fun hpc => nomatch hpc
  | up hserver => exact hinv.upMoved hserver
  | served packet rest hserver hq => exact hinv.servedMoved hserver hq
  | replied p q hserver hport => exact hinv.repliedMoved hserver hport
  | down p hserver hport =>
      apply hinv.exitMoved rfl rfl rfl
      exact Or.inr ⟨p, List.mem_append_right h List.mem_cons_self,
        List.mem_append_left _ (hinv.gone_of_down hserver hport)⟩
  | serverGone hserver =>
      apply hinv.exitMoved rfl rfl rfl
      exact Or.inl (List.mem_append_right h List.mem_cons_self)

end Net

/-! ## In turn -/

/-- What a line means, given the lines before it. -/
def Told (spid : U32) (pre : List Out) : Out → Prop
  | .served _ payload text => payload = DATA_SIZE ∧ text = "CLIENT TALK".toList.map ch
  | .got p pid text => pid = spid ∧ text = "SERVER TALK".toList.map ch ∧ .replied p ∈ pre
  | .down p => .gone p ∈ pre
  | .refused _ => .up ∉ pre ∨ .serverGone ∈ pre ∨ ∃ q, .down q ∈ pre ∧ .gone q ∈ pre
  | _ => True

theorem mem_replieds {p : U32} {h : List Out} : p ∈ replieds h ↔ .replied p ∈ h := by
  unfold replieds
  rw [List.mem_filterMap]
  constructor
  · rintro ⟨o, ho, hp⟩
    cases o <;> cases hp
    exact ho
  · exact fun hp => ⟨_, hp, rfl⟩

theorem cstr_clientData : cstr clientData = "CLIENT TALK".toList.map ch := by decide

theorem cstr_serverData : cstr serverData = "SERVER TALK".toList.map ch := by decide

namespace Net
variable {spid : U32} {s s' : Net} {h out : List Out} {p : U32}

theorem Inv.told (hinv : s.Inv spid h) (hm : Move spid s s' out) : Every (fun pre o => Told spid (h ++ pre) o) out := by
  cases hm with
  | idle => exact every_nil
  | bind p hp hclient hport => exact every_nil
  | taken p hp hclient hport => exact every_singleton.2 trivial
  | sent p q hp hclient hq => exact every_singleton.2 trivial
  | replied p q hserver hport => exact every_singleton.2 trivial
  | gone p hp hclient => exact every_singleton.2 trivial
  | up hserver => exact every_singleton.2 trivial
  | serverGone hserver => exact every_singleton.2 trivial
  | refused p hp hclient hq =>
      rw [every_singleton, List.append_nil]
      have hserves : s.server.serves = true → False := by
        intro hserves
        obtain ⟨ps, hps, -⟩ := hinv.queue hserves
        rw [hq] at hps
        cases hps
      cases hserver : s.server with
      | start => exact Or.inl (hinv.start hserver).2.2
      | recv => exact (hserves (by rw [hserver]; rfl)).elim
      | send q => exact (hserves (by rw [hserver]; rfl)).elim
      | exited => exact Or.inr (hinv.exited hserver)
  | got p packet rest hp hclient hport =>
      rw [every_singleton, List.append_nil]
      rw [hinv.port p hp, hclient] at hport
      change some (if p ∈ replieds h then _ else _) = _ at hport
      split_ifs at hport with hreplied
      · obtain ⟨rfl, -⟩ := List.cons.inj (Option.some.inj hport)
        obtain ⟨-, hpid, htext⟩ := recvfrom_nlmsg (p := spid) len_emptyBlock length_serverData
        exact ⟨hpid, htext.trans cstr_serverData, mem_replieds.1 hreplied⟩
      · cases hport
  | served packet rest hserver hq =>
      obtain ⟨hsame, hlen⟩ := hinv.recv hserver
      obtain ⟨ps, hps, hsplit⟩ := hinv.queue (by rw [hserver]; rfl)
      rw [hq, Option.some.injEq] at hps
      rw [every_singleton]
      cases ps with
      | nil => cases hps
      | cons p ps =>
          obtain ⟨rfl, rfl⟩ := List.cons.inj hps
          obtain ⟨hlen', -, htext⟩ := recvfrom_nlmsg (p := p) hlen length_clientData
          refine ⟨?_, htext.trans cstr_clientData⟩
          unfold Block.payload
          rw [hlen']
          rfl
  | down p hserver hport =>
      rw [every_singleton, List.append_nil]
      exact hinv.gone_of_down hserver hport

end Net

theorem inv_run (spid : U32) (is : List Turn) : ((net spid).run Net.init is).1.Inv spid ((net spid).run Net.init is).2 ∧
    Every (Told spid) ((net spid).run Net.init is).2 :=
  Machine.run_inv (m := net spid) (I := fun h s => s.Inv spid h ∧ Every (Told spid) h)
    (fun _ s i hI => ⟨hI.1.move (Net.step_move spid s i), every_append.2 ⟨hI.2, hI.1.told (Net.step_move spid s i)⟩⟩) is
    [] Net.init ⟨Net.inv_init spid, every_nil⟩

/-- **Requests are served and answered once and in the order of sending; each client gets the reply of the server.** -/
theorem in_turn (spid : U32) (is : List Turn) :
    replieds ((net spid).run Net.init is).2 <+: serveds ((net spid).run Net.init is).2 ∧
      serveds ((net spid).run Net.init is).2 <+: sents ((net spid).run Net.init is).2 ∧
      (sents ((net spid).run Net.init is).2).Nodup ∧ Every (Told spid) ((net spid).run Net.init is).2 := by
  obtain ⟨hinv, htold⟩ := inv_run spid is
  exact ⟨hinv.answered, hinv.inOrder, hinv.nodup, htold⟩

/-! ## Nobody waits in vain -/

/-- Neither the server nor a client has gone before its end. -/
def AllThere (h : List Out) : Prop := (∀ q, .gone q ∉ h) ∧ .serverGone ∉ h

theorem AllThere.append {h out : List Out} (hall : AllThere h) (hout : AllThere out) : AllThere (h ++ out) := by
  unfold AllThere
  simp only [List.mem_append, not_or]
  exact ⟨fun q => ⟨hall.1 q, hout.1 q⟩, hall.2, hout.2⟩

namespace Net
variable {spid : U32} {s s' : Net} {h out : List Out} {p : U32}

/-- As long as nobody has gone, the server goes on until `p` has its reply. -/
theorem Inv.server_goes (hinv : s.Inv spid h) (hall : AllThere h) (hsent : p ∈ sents h) (hnot : p ∉ replieds h) :
    ∃ o, (s.serverGoes spid).2 = [o] ∧ (s.serverGoes spid).1.client = s.client ∧ AllThere [o] ∧ sents [o] = [] ∧
      (serveds [o]).length + (replieds [o]).length = 1 := by
  unfold serverGoes
  cases hserver : s.server with
  | start =>
      rw [(hinv.start hserver).2.1] at hsent
      exact absurd hsent List.not_mem_nil
  | recv =>
      obtain ⟨hsame, -⟩ := hinv.recv hserver
      obtain ⟨ps, hps, hsplit⟩ := hinv.queue (by rw [hserver]; rfl)
      cases ps with
      | nil =>
          rw [hsplit, List.append_nil, hsame] at hsent
          exact absurd hsent hnot
      | cons q ps =>
          rw [hps]
          exact ⟨_, rfl, rfl, by simp [AllThere], rfl, rfl⟩
  | send q =>
      rcases hinv.port_sending hserver with ⟨-, hempty⟩ | ⟨-, hgone⟩
      · dsimp only
        rw [hempty]
        exact ⟨_, rfl, rfl, by simp [AllThere], rfl, rfl⟩
      · exact absurd hgone (hall.1 q)
  | exited =>
      rcases hinv.exited hserver with hgone | ⟨q, -, hgone⟩
      · exact absurd hgone hall.2
      · exact absurd hgone (hall.1 q)

theorem Inv.reply_got (hinv : s.Inv spid h) (hclient : s.client p = .waiting) (hreplied : p ∈ replieds h) :
    (s.step spid (.client p true)).2 = [.got p spid ("SERVER TALK".toList.map ch)] := by
  have hp : p ≠ SERVER_NL_ID := hinv.ne_of_sent (hinv.waiting p hclient)
  have hport : s.port p = some [nlmsg spid serverData] := by
    rw [hinv.port p hp, hclient]
    exact congrArg some (if_pos hreplied)
  obtain ⟨-, hpid, htext⟩ := recvfrom_nlmsg (p := spid) len_emptyBlock length_serverData
  unfold step
  dsimp only
  rw [if_neg hp]
  unfold clientStep clientGoes
  simp only [if_true, hclient, hport]
  rw [hpid, htext, cstr_serverData]

/-- The measure is the work that is left: what has not been served, and what has not been replied. -/
theorem Inv.answered_of_left (n : Nat) (hinv : s.Inv spid h) (hall : AllThere h) (hclient : s.client p = .waiting)
    (hleft : n + (serveds h).length + (replieds h).length = 2 * (sents h).length) :
    ∃ k, .got p spid ("SERVER TALK".toList.map ch) ∈
      ((net spid).run s (List.replicate k (.server true) ++ [.client p true])).2 := by
  induction n generalizing s h with
  | zero =>
      -- everything is replied
      have hreplied : replieds h = serveds h := hinv.answered.eq_of_length_le (by have := hinv.inOrder.length_le; omega)
      have hserved : serveds h = sents h := hinv.inOrder.eq_of_length_le (by have := hinv.answered.length_le; omega)
      refine ⟨0, ?_⟩
      rw [List.replicate_zero, List.nil_append, Machine.run_cons]
      apply List.mem_append_left
      change _ ∈ (s.step spid (.client p true)).2
      rw [hinv.reply_got hclient (by rw [hreplied, hserved]; exact hinv.waiting p hclient)]
      exact List.mem_cons_self
  | succ n ih =>
      by_cases hreplied : p ∈ replieds h
      · refine ⟨0, ?_⟩
        rw [List.replicate_zero, List.nil_append, Machine.run_cons]
        apply List.mem_append_left
        change _ ∈ (s.step spid (.client p true)).2
        rw [hinv.reply_got hclient hreplied]
        exact List.mem_cons_self
      · obtain ⟨o, hout, hsame, hthere, hsents, hone⟩ := hinv.server_goes hall (hinv.waiting p hclient) hreplied
        have hnext : (s.serverGoes spid).1.Inv spid (h ++ [o]) := by
          rw [← hout]
          exact hinv.move (serverGoes_move spid s)
        have hleft' : n + (serveds (h ++ [o])).length + (replieds (h ++ [o])).length = 2 * (sents (h ++ [o])).length := by
          rw [serveds_append, replieds_append, sents_append, hsents, List.length_append, List.length_append, List.append_nil]
          omega
        obtain ⟨k, hk⟩ := ih hnext (hall.append hthere) (by rw [hsame]; exact hclient) hleft'
        refine ⟨k + 1, ?_⟩
        rw [List.replicate_succ, List.cons_append, Machine.run_cons]
        exact List.mem_append_right _ hk

end Net

/-- **As long as nobody has gone, every client that waits gets its reply**, if the server goes on. -/
theorem nobody_waits_in_vain (spid : U32) (is : List Turn) (p : U32)
    (hclient : ((net spid).run Net.init is).1.client p = .waiting) :
    ((∃ q, .gone q ∈ ((net spid).run Net.init is).2) ∨ .serverGone ∈ ((net spid).run Net.init is).2) ∨
      ∃ k, .got p spid ("SERVER TALK".toList.map ch) ∈
        ((net spid).run ((net spid).run Net.init is).1 (List.replicate k (.server true) ++ [.client p true])).2 := by
  obtain ⟨hinv, -⟩ := inv_run spid is
  rw [or_iff_not_imp_left, not_or, not_exists]
  intro hall
  have hinOrder := hinv.inOrder.length_le
  have hanswered := hinv.answered.length_le
  apply hinv.answered_of_left (2 * (sents ((net spid).run Net.init is).2).length -
    (serveds ((net spid).run Net.init is).2).length - (replieds ((net spid).run Net.init is).2).length) hall hclient
  omega

/-- The server starts, and two clients send. -/
def bothSent : List Turn :=
  [.server true, .client 1 true, .client 1 true, .client 2 true, .client 2 true]

theorem nobody_waits_in_vain_once :
    ((∃ q, .gone q ∈ ((net 7).run Net.init bothSent).2) ∨ .serverGone ∈ ((net 7).run Net.init bothSent).2) ∨
      ∃ k, .got 2 7 ("SERVER TALK".toList.map ch) ∈
        ((net 7).run ((net 7).run Net.init bothSent).1 (List.replicate k (.server true) ++ [.client 2 true])).2 :=
  nobody_waits_in_vain 7 bothSent 2 rfl

end SysSnippets.NetlinkIpc
