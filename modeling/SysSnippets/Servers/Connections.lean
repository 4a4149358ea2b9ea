import SysSnippets.Lib.Connections
import SysSnippets.Tcp.Agree
import SysSnippets.Drm.ServerRuns

/-!
# The connection tables of the C servers

What `s_select`, `s_poll` and `drm_server` do to their tables is a legal history of connections.

* `Tcp.Op.events`, `Drm.Obs.events` : what they do, as events of the library;
* `Tcp.turn_follows`, `Drm.move_path` : a turn of `s_select`, and a step of `drm_server`;
* `tables_account` : the tables of the three servers account for every connection.
-/

namespace SysSnippets.Tcp
open SysSnippets.Lib SysSnippets.Lib.Connections

/-- What an operation means for the connections. -/
def Op.events : Op → List (Connections.Event Slot Fd)
  | .accept (.connected sockfd) => [.accepted sockfd]
  | .store i fd => [.stored i fd]
  | .drop fd => [.dropped fd]
  | .close i fd => [.closed i fd]
  | .accept .interrupted | .accept .failed | .getpeername _ _ | .handleEcho _ _ => []

def events (ops : List Op) : List (Connections.Event Slot Fd) := ops.flatMap Op.events

/-- A turn, or a part of it, that starts with the table `clients`. -/
def Follows {σ : Type} (clients : Slot → Option Fd) (r : Turn σ (Slot → Option Fd)) : Prop :=
  ∃ t, Path ⟨clients, none⟩ (events r.ops) t ∧ (r.running = true → t = ⟨r.clients, none⟩)

section Turn
variable {σ : Type} {listenfd : Fd} {k : Kernel σ listenfd}

theorem follows_idle (w : σ) (clients : Slot → Option Fd) (running : Bool) {ops : List Op}
    (hops : events ops = []) : Follows clients ⟨w, clients, running, ops⟩ :=
  ⟨_, hops ▸ .nil, fun _ => rfl⟩

theorem serve_events {i : Slot} {fd : Fd} {w w' : σ} {served : Served} {ops : List Op}
    (h : serve k i fd w = (w', served, ops)) :
    (served = .closed ∧ events ops = [.closed i fd]) ∨ (served ≠ .closed ∧ events ops = []) := by
  unfold serve at h
  rcases hname : k.getpeername w fd with ⟨w₁, ok⟩
  rw [hname] at h
  cases ok with
  | false =>
      obtain ⟨-, rfl, rfl⟩ := h
      exact Or.inr ⟨by simp, rfl⟩
  | true =>
      dsimp only at h
      rcases hecho : k.handleEcho w₁ fd with ⟨w₂, ret⟩
      rw [hecho] at h
      cases ret with
      | none =>
          obtain ⟨-, rfl, rfl⟩ := h
          exact Or.inr ⟨by simp, rfl⟩
      | some ret =>
          dsimp only at h
          split_ifs at h
          · obtain ⟨-, rfl, rfl⟩ := h
            exact Or.inl ⟨rfl, rfl⟩
          · obtain ⟨-, rfl, rfl⟩ := h
            exact Or.inr ⟨by simp, rfl⟩

theorem Follows.after {clients clients' : Slot → Option Fd} {r : Turn σ (Slot → Option Fd)} {ops : List Op}
    (hops : Path ⟨clients, none⟩ (events ops) ⟨clients', none⟩) (hr : Follows clients' r) :
    Follows clients { r with ops := ops ++ r.ops } := by
  obtain ⟨t, hpath, hend⟩ := hr
  refine ⟨t, ?_, hend⟩
  show Path _ (events (ops ++ r.ops)) t
  rw [events, List.flatMap_append]
  exact hops.append hpath

theorem serveAll_follows (rset : Fd → Bool) (is : List Slot) (w : σ) (clients : Slot → Option Fd) :
    Follows clients (Select.serveAll k rset is w clients) := by
  induction is generalizing w clients with
  | nil => exact follows_idle w clients true rfl
  | cons i is ih =>
      unfold Select.serveAll
      cases hfd : clients i with
      | none => exact ih w clients
      | some fd =>
          dsimp only
          by_cases hready : rset fd
          · rw [if_pos hready]
            rcases hserve : serve k i fd w with ⟨w', served, ops⟩
            have hevents := serve_events hserve
            cases served with
            | stopped =>
                have hnone : events ops = [] := by simpa using hevents
                exact follows_idle w' clients false hnone
            | kept =>
                have hnone : events ops = [] := by simpa using hevents
                apply Follows.after _ (ih w' clients)
                rw [hnone]
                exact .nil
            | closed =>
                have hclose : events ops = [.closed i fd] := by simpa using hevents
                apply Follows.after _ (ih w' (Function.update clients i none))
                rw [hclose]
                exact Path.single (.closed i fd rfl hfd)
          · rw [if_neg hready]
            exact ih w clients

theorem place_events {sockfd : Fd} {fds : Slot → Option Fd} {is : List Slot} (his : is ≠ []) {w w' : σ}
    {placed : Placed} {ops : List Op} (h : place k sockfd fds is w = (w', placed, ops)) :
    match placed with
    | .stored i => fds i = none ∧ events ops = [.stored i sockfd]
    | .full => (∀ i ∈ is, fds i ≠ none) ∧ events ops = [.dropped sockfd]
    | .exit => events ops = [] := by
  induction is with
  | nil => exact absurd rfl his
  | cons i is ih =>
      unfold place at h
      by_cases hi : fds i = none
      · rw [if_pos hi] at h
        rcases hname : k.getpeername w sockfd with ⟨w₁, ok⟩
        rw [hname] at h
        cases ok with
        | false =>
            obtain ⟨-, rfl, rfl⟩ := h
            rfl
        | true =>
            obtain ⟨-, rfl, rfl⟩ := h
            exact ⟨hi, rfl⟩
      · rw [if_neg hi] at h
        by_cases hlast : is = []
        · rw [if_pos hlast] at h
          obtain ⟨-, rfl, rfl⟩ := h
          subst hlast
          exact ⟨by simpa using hi, rfl⟩
        · rw [if_neg hlast] at h
          have hrest := ih hlast h
          cases placed with
          | stored j => exact hrest
          | full => exact ⟨List.forall_mem_cons.2 ⟨hi, hrest.1⟩, hrest.2⟩
          | exit => exact hrest

theorem accepted_path {clients : Slot → Option Fd} {sockfd : Fd} (hnew : sockfd ∉ watched listenfd clients)
    {w w' : σ} {placed : Placed} {ops : List Op} (h : place k sockfd clients slots w = (w', placed, ops)) :
    match placed with
    | .stored i => Path ⟨clients, none⟩ (events (.accept (.connected sockfd) :: ops))
        ⟨Function.update clients i (some sockfd), none⟩
    | .full => Path ⟨clients, none⟩ (events (.accept (.connected sockfd) :: ops)) ⟨clients, none⟩
    | .exit => Path ⟨clients, none⟩ (events (.accept (.connected sockfd) :: ops)) ⟨clients, some sockfd⟩ := by
  have haccept : Legal (⟨clients, none⟩ : State Slot Fd) (.accepted sockfd) := by
    refine .accepted sockfd rfl ?_
    rintro (hp | ⟨i, hi⟩)
    · exact (nomatch hp)
    · exact hnew (mem_watched hi)
  have hplace := place_events (by decide) h
  have hcons : events (.accept (.connected sockfd) :: ops) = .accepted sockfd :: events ops := rfl
  rw [hcons]
  cases placed with
  | stored i =>
      obtain ⟨hfree, hops⟩ := hplace
      dsimp only
      rw [hops]
      exact Path.cons haccept (Path.single (.stored i sockfd rfl hfree))
  | full =>
      obtain ⟨hfull, hops⟩ := hplace
      dsimp only
      rw [hops]
      exact Path.cons haccept (Path.single (.dropped sockfd rfl fun i => hfull i (mem_slots i)))
  | exit =>
      dsimp only
      rw [show events ops = [] from hplace]
      exact Path.single haccept

/-- **A turn of `s_select`.** -/
theorem turn_follows (w : σ) (clients : Slot → Option Fd) : Follows clients (Select.turn k w clients) := by
  unfold Select.turn
  rcases hw : k.wait w with ⟨w₁, r⟩
  cases r with
  | interrupted => exact follows_idle w₁ clients true rfl
  | failed => exact follows_idle w₁ clients false rfl
  | returned revents =>
      dsimp only
      split_ifs with hidle hlisten
      · exact follows_idle w₁ clients true rfl
      · rcases haccept : k.accept w₁ (watched listenfd clients) with ⟨w₂, a⟩
        cases a with
        | interrupted => exact follows_idle w₂ clients true rfl
        | failed => exact follows_idle w₂ clients false rfl
        | connected sockfd =>
            have hnew : sockfd ∉ watched listenfd clients := by
              apply k.accept_fresh w₁
              rw [haccept]
            dsimp only
            rcases hplace : place k sockfd clients slots w₂ with ⟨w₃, placed, ops⟩
            have hpath := accepted_path hnew hplace
            cases placed with
            | stored i => exact Follows.after hpath (serveAll_follows _ slots w₃ _)
            | full => exact Follows.after hpath (serveAll_follows _ slots w₃ clients)
            | exit => exact ⟨_, hpath, fun h => (nomatch h)⟩
      · exact serveAll_follows _ slots w₁ clients

theorem run_follows (w : σ) (turns : List Unit) : ∃ t,
    Path State.start (events ((sSelect k).run ⟨w, fun _ => none, true⟩ turns).2) t ∧
      (((sSelect k).run ⟨w, fun _ => none, true⟩ turns).1.running = true →
        t = ⟨((sSelect k).run ⟨w, fun _ => none, true⟩ turns).1.clients, none⟩) := by
  refine Machine.run_inv (m := sSelect k) (I := fun h s => ∃ t, Path State.start (events h) t ∧
    (s.running = true → t = ⟨s.clients, none⟩)) ?_ turns [] _ ⟨_, .nil, fun _ => rfl⟩
  rintro h s ⟨⟩ ⟨t, hpath, hend⟩
  show ∃ u, Path State.start (events (h ++ ((taking (Select.turn k)).step s ()).2)) u ∧ _
  unfold sSelect taking
  dsimp only
  by_cases hrun : s.running = true
  · rw [if_pos hrun]
    obtain rfl := hend hrun
    obtain ⟨u, hturn, hu⟩ := turn_follows (k := k) s.world s.clients
    refine ⟨u, ?_, hu⟩
    rw [events, List.flatMap_append]
    exact hpath.append hturn
  · rw [if_neg hrun, List.append_nil]
    exact ⟨t, hpath, fun h => absurd h hrun⟩

end Turn

end SysSnippets.Tcp

namespace SysSnippets.Drm
open SysSnippets.Lib SysSnippets.Lib.Connections

/-- What the server shows, as events. A connection that finds no slot is closed. -/
def Obs.events : Obs → List (Connections.Event Slot Conn)
  | .accepted c (some i) => [.accepted c, .stored i c]
  | .accepted c none => [.accepted c, .dropped c]
  | .visit v => if v.closed then [.closed v.slot v.conn] else []

def events (h : List Obs) : List (Connections.Event Slot Conn) := h.flatMap Obs.events

/-- **A step of `drm_server`.** -/
theorem move_path {s : Server} {r : Server × List Obs} (ht : Table s) (hm : Move s r) :
    Path ⟨s.locals.fds, none⟩ (events r.2) ⟨r.1.locals.fds, none⟩ := by
  cases hm with
  | silent t hfds _ _ _ =>
      rw [hfds]
      exact .nil
  | accepted t c _ hfresh hlocals _ _ =>
      have haccept : Legal (⟨s.locals.fds, none⟩ : State Slot Conn) (.accepted c) := by
        refine .accepted c rfl ?_
        rintro (hp | ⟨i, hi⟩)
        · exact (nomatch hp)
        · exact hfresh (ht.mem i c hi)
      rw [hlocals]
      unfold Locals.store
      cases hfree : freeSlot s.locals.fds with
      | none =>
          refine Path.cons haccept (Path.single (.dropped c rfl fun i => ?_))
          have hnone := List.find?_eq_none.1 hfree i (List.mem_finRange i)
          show s.locals.fds i ≠ none
          simpa using hnone
      | some i => exact Path.cons haccept (Path.single (.stored i c rfl (fds_freeSlot hfree)))
  | visited t i c inp _ hconn hlocals _ _ =>
      have hvisit := visitOf_visit s.locals i c inp
      rw [hlocals, visit_fds]
      show Path _ (Obs.events _ ++ []) _
      rw [List.append_nil, Obs.events, hvisit.slot_eq, hvisit.conn_eq]
      by_cases hclosed : (visit s.locals i c inp).2.closed
      · rw [if_pos hclosed, if_pos hclosed]
        exact Path.single (.closed i c rfl hconn)
      · rw [if_neg hclosed, if_neg hclosed]
        exact .nil

theorem run_path (g : Stack) (is : List Input) :
    Path State.start (events (server.run (boot g) is).2) ⟨(server.run (boot g) is).1.locals.fds, none⟩ := by
  refine (Machine.run_inv (m := server) (I := fun h s => Table s ∧
    Path State.start (events h) ⟨s.locals.fds, none⟩) ?_ is [] (boot g) ⟨table_boot g, .nil⟩).2
  rintro h s k ⟨ht, hpath⟩
  have hm := step_move s k
  refine ⟨ht.step hm, ?_⟩
  rw [events, List.flatMap_append]
  exact hpath.append (move_path ht hm)

end SysSnippets.Drm

namespace SysSnippets
open SysSnippets.Lib.Connections

/-- **The connection tables of the C servers.** `revents` is what the table of `s_poll` holds on the stack; `s_select`
and `s_poll` are between two turns. -/
theorem tables_account :
    (∀ {σ : Type} {listenfd : Tcp.Fd} (k : Tcp.Kernel σ listenfd) (w : σ) (turns : List Unit) (s : Tcp.Server σ _)
      (ops : List Tcp.Op), (Tcp.sSelect k).run ⟨w, fun _ => none, true⟩ turns = (s, ops) → s.running = true →
        Accounted s.clients (Tcp.events ops)) ∧
    (∀ {σ : Type} {listenfd : Tcp.Fd} (k : Tcp.Kernel σ listenfd) (w : σ) (revents : Tcp.Slot → BitVec 16)
      (turns : List Unit) (s : Tcp.Server σ _) (ops : List Tcp.Op),
      (Tcp.sPoll k).run ⟨w, fun i => ⟨none, revents i⟩, true⟩ turns = (s, ops) → s.running = true →
        Accounted (Tcp.Poll.fds s.clients) (Tcp.events ops)) ∧
    ∀ (g : Drm.Stack) (is : List Drm.Input),
      Accounted (Drm.server.run (Drm.boot g) is).1.locals.fds (Drm.events (Drm.server.run (Drm.boot g) is).2) := by
  refine ⟨fun k w turns s ops hrun hrunning => ?_, fun k w revents turns s ops hrun hrunning => ?_, fun g is => ?_⟩
  · obtain ⟨t, hpath, hend⟩ := Tcp.run_follows (k := k) w turns
    rw [hrun] at hpath hend
    have ht := hend hrunning
    subst ht
    exact hpath.accounted rfl
  · obtain ⟨hops, hsame⟩ := Tcp.run_agree k w revents turns
    obtain ⟨t, hpath, hend⟩ := Tcp.run_follows (k := k) w turns
    rw [hrun] at hops hsame
    rw [← hops] at hpath
    have ht := hend (hsame.running ▸ hrunning)
    subst ht
    rw [hsame.clients]
    exact hpath.accounted rfl
  · exact (Drm.run_path g is).accounted rfl

/-- A client connects in the first turn, as descriptor 4, and is gone in the second one. -/
def lone : Tcp.Kernel Nat 3 where
  wait turn := (turn + 1, .returned fun fd => if fd = turn + 3 then Tcp.POLLIN else 0)
  accept turn fds := (turn, if 4 ∈ fds then .failed else .connected 4)
  getpeername turn _ := (turn, true)
  handleEcho turn _ := (turn, some 0)
  close turn _ := turn
  client_ready := by
    intro turn revents fd h hne
    obtain rfl := Tcp.Wait.returned.inj h
    dsimp only at hne ⊢
    split_ifs at hne ⊢
    · decide
    · exact absurd rfl hne
  listener_ready := by
    intro turn revents h hne
    obtain rfl := Tcp.Wait.returned.inj h
    dsimp only at hne ⊢
    split_ifs at hne ⊢
    · decide
    · exact absurd rfl hne
  accept_fresh := by
    intro turn fds sockfd h
    dsimp only at h
    split_ifs at h with hmem
    obtain rfl := Tcp.Accept.connected.inj h
    exact hmem

/-- After the first turn of `s_select`, and after both turns of `s_poll`. -/
theorem tables_account_lone :
    (∃ table : Tcp.Slot → Option Tcp.Fd, table 0 = some 4 ∧ Accounted table [.accepted 4, .stored 0 4]) ∧
      ∃ table : Tcp.Slot → Option Tcp.Fd, table 0 = none ∧
        Accounted table [.accepted 4, .stored 0 4, .closed 0 4] :=
  ⟨⟨_, rfl, tables_account.1 lone 0 [()] _ _ rfl rfl⟩,
    ⟨_, rfl, tables_account.2.1 lone 0 (fun _ => 0) [(), ()] _ _ rfl rfl⟩⟩

end SysSnippets
