import SysSnippets.Tcp.Blocking
import Mathlib.Data.List.FinRange

/-!
# `s_poll.c` with a table of any size

`clients[0]` is the listening socket, `clients[i + 1]` is slot `i` of `n`: `MAXCLIENTS` is `n + 1`. Only the entries up to
the last one in use are polled, but the serving loop goes through all of them, counting down what `poll` returned.

* `turn` : a turn of the loop; `sPoll` : the server; at `n = 2` they are `Poll.turn` and `Tcp.sPoll` (`turn_two`);
* `serveAll_served` : the serving loop stops behind the last client that is due;
* `serves_reported` : it serves the clients that `poll` reported.
-/

namespace SysSnippets.Tcp.PollTable
open SysSnippets.Lib

variable {n : Nat}

/-- What the server does to connections. -/
inductive Op (n : Nat)
  | accept (result : Accept)
  | getpeername (fd : Fd) (ok : Bool)
  | store (slot : Fin n) (fd : Fd)
  /-- the queue is full -/
  | drop (fd : Fd)
  | handleEcho (fd : Fd) (ret : Option Int)
  | close (slot : Fin n) (fd : Fd)

structure Turn (σ : Type) (n : Nat) where
  world : σ
  clients : Fin n → Pollfd
  running : Bool
  ops : List (Op n)

inductive Placed (n : Nat)
  | stored (i : Fin n)
  | full
  | exit

section Server
variable {σ : Type} {listenfd : Fd} (k : Kernel σ listenfd)

/-- The descriptors of the table. -/
def fds (clients : Fin n → Pollfd) : Fin n → Option Fd := fun i => (clients i).fd

/-- The descriptors in use. -/
def watched (listenfd : Fd) (fds : Fin n → Option Fd) : List Fd := listenfd :: (List.finRange n).filterMap fds

/-- The loop that finds a slot for a new connection. -/
def place (sockfd : Fd) (fds : Fin n → Option Fd) : List (Fin n) → σ → σ × Placed n × List (Op n)
  | [], w => (w, .full, [])
  | i :: is, w =>
      if fds i = none then
        match k.getpeername w sockfd with
        | (w, false) => (w, .exit, [.getpeername sockfd false])
        | (w, true) => (w, .stored i, [.getpeername sockfd true, .store i sockfd])
      else if is = [] then (k.close w sockfd, .full, [.drop sockfd])
      else place sockfd fds is w

/-- The body of the serving loop for a client that is ready. -/
def serve (i : Fin n) (fd : Fd) (w : σ) : σ × Served × List (Op n) :=
  match k.getpeername w fd with
  | (w, false) => (w, .stopped, [.getpeername fd false])
  | (w, true) =>
      match k.handleEcho w fd with
      | (w, none) => (w, .stopped, [.getpeername fd true, .handleEcho fd none])
      | (w, some ret) =>
          if ret ≤ 0 then (k.close w fd, .closed, [.getpeername fd true, .handleEcho fd (some ret), .close i fd])
          else (w, .kept, [.getpeername fd true, .handleEcho fd (some ret)])

/-- The last entry in use; `max` in the source. -/
def max (clients : Fin n → Pollfd) : Nat :=
  (List.finRange n).foldl (fun max i => if (clients i).fd.isSome then i.val + 1 else max) 0

/-- `poll` writes `revents` of the entries up to `max`. -/
def polled (revents : Fd → BitVec 16) (clients : Fin n → Pollfd) : Fin n → Pollfd := fun i =>
  if i.val < max clients then { clients i with revents := ((clients i).fd.map revents).getD 0 } else clients i

/-- The number of entries with events. -/
def count (listenfd : Fd) (revents : Fd → BitVec 16) (clients : Fin n → Pollfd) : Int :=
  (if revents listenfd ≠ 0 then 1 else 0) +
    ((List.finRange n).countP fun i => decide (i.val < max clients ∧ (polled revents clients i).revents ≠ 0) : Nat)

/-- The serving loop. -/
def serveAll : List (Fin n) → σ → (Fin n → Pollfd) → Int → Turn σ n
  | [], w, clients, _ => ⟨w, clients, true, []⟩
  | i :: is, w, clients, count =>
      match (clients i).fd with
      | none => serveAll is w clients count
      | some fd =>
          if (clients i).revents &&& (POLLIN ||| POLLERR) = 0 then serveAll is w clients count
          else
            match serve k i fd w with
            | (w, .stopped, ops) => ⟨w, clients, false, ops⟩
            | (w, .kept, ops) =>
                if count - 1 = 0 then ⟨w, clients, true, ops⟩
                else
                  let r := serveAll is w clients (count - 1)
                  { r with ops := ops ++ r.ops }
            | (w, .closed, ops) =>
                let clients := Function.update clients i { clients i with fd := none }
                if count - 1 = 0 then ⟨w, clients, true, ops⟩
                else
                  let r := serveAll is w clients (count - 1)
                  { r with ops := ops ++ r.ops }

/-- What is left of a turn after a connection was accepted. -/
def serveRest (w : σ) (clients : Fin n → Pollfd) (count : Int) (ops : List (Op n)) : Turn σ n :=
  if count - 1 = 0 then ⟨w, clients, true, ops⟩
  else
    let r := serveAll k (List.finRange n) w clients (count - 1)
    { r with ops := ops ++ r.ops }

/-- A turn of the loop. -/
def turn (w : σ) (clients : Fin n → Pollfd) : Turn σ n :=
  match k.wait w with
  | (w, .interrupted) => ⟨w, clients, true, []⟩
  | (w, .failed) => ⟨w, clients, false, []⟩
  | (w, .returned revents) =>
      let count := count listenfd revents clients
      let clients := polled revents clients
      if count = 0 then ⟨w, clients, true, []⟩
      else if revents listenfd &&& POLLIN ≠ 0 then
        match k.accept w (watched listenfd (fds clients)) with
        | (w, .interrupted) => ⟨w, clients, true, [.accept .interrupted]⟩
        | (w, .failed) => ⟨w, clients, false, [.accept .failed]⟩
        | (w, .connected sockfd) =>
            match place k sockfd (fds clients) (List.finRange n) w with
            | (w, .exit, ops) => ⟨w, clients, false, .accept (.connected sockfd) :: ops⟩
            | (w, .stored i, ops) =>
                serveRest k w (Function.update clients i { clients i with fd := some sockfd }) count
                  (.accept (.connected sockfd) :: ops)
            | (w, .full, ops) => serveRest k w clients count (.accept (.connected sockfd) :: ops)
      else serveAll k (List.finRange n) w clients count

/-- The server. -/
def sPoll : Machine (Server σ (Fin n → Pollfd)) Unit (Op n) where
  step s _ :=
    if s.running then
      let r := turn k s.world s.clients
      (⟨r.world, r.clients, r.running⟩, r.ops)
    else (s, [])

/-- The start of the loop. `revents` is what the table holds on the stack. -/
def boot (w : σ) (revents : Fin n → BitVec 16) : Server σ (Fin n → Pollfd) := ⟨w, fun i => ⟨none, revents i⟩, true⟩

end Server

/-! ## The table of the source -/

section Two
variable {σ : Type} {listenfd : Fd} (k : Kernel σ listenfd)

def Op.two : Op 2 → Tcp.Op
  | .accept result => .accept result
  | .getpeername fd ok => .getpeername fd ok
  | .store slot fd => .store slot fd
  | .drop fd => .drop fd
  | .handleEcho fd ret => .handleEcho fd ret
  | .close slot fd => .close slot fd

def Placed.two : Placed 2 → Tcp.Placed
  | .stored i => .stored i
  | .full => .full
  | .exit => .exit

def Turn.two (t : Turn σ 2) : Tcp.Turn σ (Slot → Pollfd) := ⟨t.world, t.clients, t.running, t.ops.map Op.two⟩

theorem place_two (sockfd : Fd) (fds : Slot → Option Fd) (is : List Slot) (w : σ) :
    Tcp.place k sockfd fds is w =
      ((place k sockfd fds is w).1, (place k sockfd fds is w).2.1.two, (place k sockfd fds is w).2.2.map Op.two) := by
  induction is with
  | nil => rfl
  | cons i is ih =>
      unfold Tcp.place place
      split_ifs
      · rcases k.getpeername w sockfd with ⟨w', ok⟩
        cases ok <;> rfl
      · rfl
      · exact ih

theorem serve_two (i : Slot) (fd : Fd) (w : σ) :
    Tcp.serve k i fd w = ((serve k i fd w).1, (serve k i fd w).2.1, (serve k i fd w).2.2.map Op.two) := by
  unfold Tcp.serve serve
  rcases k.getpeername w fd with ⟨w', ok⟩
  cases ok with
  | false => rfl
  | true =>
      dsimp only
      rcases k.handleEcho w' fd with ⟨w'', ret⟩
      cases ret with
      | none => rfl
      | some ret =>
          dsimp only
          split_ifs <;> rfl

theorem two_append (t : Turn σ 2) (ops : List (Op 2)) :
    ({ t with ops := ops ++ t.ops } : Turn σ 2).two = { t.two with ops := ops.map Op.two ++ t.two.ops } := by
  unfold Turn.two
  dsimp only
  rw [List.map_append]

theorem serveAll_two (is : List Slot) : ∀ (w : σ) (clients : Slot → Pollfd) (count : Int),
    Poll.serveAll k is w clients count = (serveAll k is w clients count).two := by
  induction is with
  | nil => exact fun w clients count => rfl
  | cons i is ih =>
      intro w clients count
      unfold Poll.serveAll serveAll
      cases hfd : (clients i).fd with
      | none => exact ih w clients count
      | some fd =>
          dsimp only
          by_cases hmask : (clients i).revents &&& (POLLIN ||| POLLERR) = 0
          · rw [if_pos hmask, if_pos hmask]
            exact ih w clients count
          · rw [if_neg hmask, if_neg hmask, serve_two]
            rcases serve k i fd w with ⟨w', result, ops⟩
            cases result with
            | stopped => rfl
            | kept =>
                dsimp only
                split_ifs
                · rfl
                · rw [two_append, ih]
            | closed =>
                dsimp only
                split_ifs
                · rfl
                · rw [two_append, ih]

theorem serveRest_two (w : σ) (clients : Slot → Pollfd) (count : Int) (ops : List (Op 2)) :
    (serveRest k w clients count ops).two =
      if count - 1 = 0 then ⟨w, clients, true, ops.map Op.two⟩
      else { Poll.serveAll k slots w clients (count - 1) with
        ops := ops.map Op.two ++ (Poll.serveAll k slots w clients (count - 1)).ops } := by
  unfold serveRest
  split_ifs
  · rfl
  · rw [two_append, serveAll_two]
    rfl

/-- With two slots this is the server of `EventLoop`. -/
theorem turn_two (w : σ) (clients : Slot → Pollfd) : Poll.turn k w clients = (turn k w clients).two := by
  unfold Poll.turn turn
  rcases k.wait w with ⟨w₁, r⟩
  cases r with
  | interrupted => rfl
  | failed => rfl
  | returned revents =>
      have hpolled : Poll.polled revents clients = polled revents clients := rfl
      have hcount : Poll.count listenfd revents clients = count listenfd revents clients := rfl
      dsimp only
      rw [hcount, hpolled]
      by_cases hzero : count listenfd revents clients = 0
      · rw [if_pos hzero, if_pos hzero]
        rfl
      rw [if_neg hzero, if_neg hzero]
      by_cases hlisten : revents listenfd &&& POLLIN ≠ 0
      · rw [if_pos hlisten, if_pos hlisten,
          show (Tcp.watched listenfd fun i => (polled revents clients i).fd) =
            watched listenfd (fds (polled revents clients)) from rfl]
        rcases k.accept w₁ (watched listenfd (fds (polled revents clients))) with ⟨w₂, result⟩
        cases result with
        | interrupted => rfl
        | failed => rfl
        | connected sockfd =>
            dsimp only
            rw [place_two, show (fun i => (polled revents clients i).fd) = fds (polled revents clients) from rfl,
              show slots = List.finRange 2 from rfl]
            rcases place k sockfd (fds (polled revents clients)) (List.finRange 2) w₂ with ⟨w₃, placed, ops⟩
            cases placed with
            | exit => rfl
            | full =>
                exact (serveRest_two k w₃ (polled revents clients) (count listenfd revents clients)
                  (.accept (.connected sockfd) :: ops)).symm
            | stored i =>
                exact (serveRest_two k w₃
                  (Function.update (polled revents clients) i { polled revents clients i with fd := some sockfd })
                  (count listenfd revents clients) (.accept (.connected sockfd) :: ops)).symm
      · rw [if_neg hlisten, if_neg hlisten]
        exact serveAll_two k slots w₁ (polled revents clients) (count listenfd revents clients)

end Two

/-! ## What is served, and what was reported -/

/-- The connections that `handle_echo` is called on. -/
def served (ops : List (Op n)) : List Fd :=
  ops.filterMap fun
    | .handleEcho fd _ => some fd
    | _ => none

/-- The connections that `poll` reports, in slot order. -/
def reported (revents : Fd → BitVec 16) (clients : Fin n → Pollfd) : List Fd :=
  (List.finRange n).filterMap fun i => (clients i).fd.filter fun fd => revents fd ≠ 0

/-- What is to be served in a slot, if the events of the entries below `m` are new. -/
def due (m : Nat) (clients : Fin n → Pollfd) (i : Fin n) : Option Fd :=
  if i.val < m ∧ (clients i).revents ≠ 0 then (clients i).fd else none

theorem served_append (ops ops' : List (Op n)) : served (ops ++ ops') = served ops ++ served ops' :=
  List.filterMap_append

section Loops
variable {σ : Type} {listenfd : Fd} {k : Kernel σ listenfd}

theorem served_serve {i : Fin n} {fd : Fd} {w w' : σ} {result : Served} {ops : List (Op n)}
    (h : serve k i fd w = (w', result, ops)) (hresult : result ≠ .stopped) : served ops = [fd] := by
  unfold serve at h
  split at h
  · cases h
    exact absurd rfl hresult
  · split at h
    · cases h
      exact absurd rfl hresult
    · split_ifs at h <;> cases h <;> rfl

theorem served_place (k : Kernel σ listenfd) (sockfd : Fd) (fds : Fin n → Option Fd) (is : List (Fin n)) (w : σ) :
    served (place k sockfd fds is w).2.2 = [] := by
  induction is with
  | nil => rfl
  | cons i is ih =>
      unfold place
      split_ifs
      · split <;> rfl
      · rfl
      · exact ih

theorem place_stored {sockfd : Fd} {fds : Fin n → Option Fd} {is : List (Fin n)} {w : σ} {i : Fin n}
    (h : (place k sockfd fds is w).2.1 = .stored i) : fds i = none := by
  induction is with
  | nil => cases h
  | cons j is ih =>
      unfold place at h
      split_ifs at h with hj hlast
      · split at h
        · cases h
        · cases h
          exact hj
      · exact ih h

theorem due_congr {m : Nat} {clients clients' : Fin n → Pollfd} {is : List (Fin n)}
    (h : ∀ i ∈ is, clients' i = clients i) : is.filterMap (due m clients') = is.filterMap (due m clients) := by
  apply List.filterMap_congr
  intro i hi
  unfold due
  rw [h i hi]

/-- From entry `m` on nothing is due. -/
theorem due_behind {m : Nat} (clients : Fin n → Pollfd) {i : Fin n} {is : List (Fin n)} (hlt : ∀ j ∈ is, i < j)
    (hge : m ≤ i.val) : (i :: is).filterMap (due m clients) = [] := by
  rw [List.filterMap_eq_nil_iff]
  intro j hj
  refine if_neg fun h => ?_
  rcases List.mem_cons.1 hj with rfl | hj
  · omega
  · have : i.val < j.val := hlt j hj
    omega

/-- What comes behind `ops`: nothing once the count is zero, and otherwise `r`, which serves `l`. -/
theorem served_rest {w : σ} {clients : Fin n → Pollfd} {count : Int} {ops : List (Op n)} {r : Turn σ n} {l : List Fd}
    (hcount : count = l.length) (hr : 0 < count → r.running = true → served r.ops = l)
    (hrunning :
      (if count = 0 then (⟨w, clients, true, ops⟩ : Turn σ n) else { r with ops := ops ++ r.ops }).running = true) :
    served (if count = 0 then (⟨w, clients, true, ops⟩ : Turn σ n) else { r with ops := ops ++ r.ops }).ops =
      served ops ++ l := by
  by_cases hzero : count = 0
  · have hnil : l = [] := by
      rw [← List.length_eq_zero_iff]
      omega
    rw [if_pos hzero, hnil, List.append_nil]
  · rw [if_neg hzero] at hrunning ⊢
    dsimp only at hrunning ⊢
    rw [served_append, hr (by omega) hrunning]

/-- An entry that is not in use, or has none of the events, is passed over. -/
theorem serveAll_skip {i : Fin n} {is : List (Fin n)} {w : σ} {clients : Fin n → Pollfd} {count : Int}
    (h : (clients i).fd = none ∨ (clients i).revents &&& (POLLIN ||| POLLERR) = 0) :
    serveAll k (i :: is) w clients count = serveAll k is w clients count := by
  rw [serveAll]
  cases hfd : (clients i).fd with
  | none => rfl
  | some fd =>
      rw [hfd] at h
      exact if_pos (h.resolve_left (Option.some_ne_none fd))

/-- An entry that is ready: it is served, and the server stops, or the loop goes on unless the count is zero. Then the
table is as before, but for the entry, which may be empty. -/
theorem serveAll_ready {i : Fin n} {fd : Fd} {clients : Fin n → Pollfd} (hfd : (clients i).fd = some fd)
    (hmask : (clients i).revents &&& (POLLIN ||| POLLERR) ≠ 0) (is : List (Fin n)) (w : σ) (count : Int) :
    ∃ w' ops, (∀ result, .accept result ∉ ops) ∧
      (serveAll k (i :: is) w clients count = ⟨w', clients, false, ops⟩ ∨
        served ops = [fd] ∧ ∃ clients' : Fin n → Pollfd, (∀ j, j ≠ i → clients' j = clients j) ∧
          (∀ l, (clients' i).fd = some l → (clients i).fd = some l) ∧
          serveAll k (i :: is) w clients count =
            if count - 1 = 0 then ⟨w', clients', true, ops⟩
            else { serveAll k is w' clients' (count - 1) with ops := ops ++ (serveAll k is w' clients' (count - 1)).ops }) := by
  have haccept : ∀ result, .accept result ∉ (serve k i fd w).2.2 := by
    intro result
    unfold serve
    split
    · simp
    · split
      · simp
      · split_ifs <;> simp
  rw [serveAll, hfd]
  dsimp only
  rw [if_neg hmask]
  rcases hserve : serve k i fd w with ⟨w', result, ops⟩
  rw [hserve] at haccept
  refine ⟨w', ops, haccept, ?_⟩
  cases result with
  | stopped => exact Or.inl rfl
  | kept => exact Or.inr ⟨served_serve hserve (nomatch ·), clients, fun j _ => rfl, fun l h => hfd.symm.trans h, rfl⟩
  | closed =>
      refine Or.inr ⟨served_serve hserve (nomatch ·), _, fun j hj => Function.update_of_ne hj _ _, fun l h => ?_, rfl⟩
      rw [Function.update_self] at h
      cases h

/-- **The serving loop.** `count` clients are due, all of them below `m`. What is served is what is due: the count is
zero before an entry from `m` on is looked at. -/
theorem serveAll_served {m : Nat} {is : List (Fin n)} (hsorted : is.Pairwise (· < ·)) :
    ∀ (w : σ) (clients : Fin n → Pollfd) (count : Int),
      (∀ i ∈ is, i.val < m → (clients i).fd ≠ none → (clients i).revents ≠ 0 →
        (clients i).revents &&& (POLLIN ||| POLLERR) ≠ 0) →
      count = (is.filterMap (due m clients)).length → 0 < count →
      (serveAll k is w clients count).running = true →
      served (serveAll k is w clients count).ops = is.filterMap (due m clients) := by
  induction is with
  | nil =>
      intro w clients count _ hcount hpos
      rw [List.filterMap_nil, List.length_nil] at hcount
      omega
  | cons i is ih =>
      intro w clients count hfresh hcount hpos hrunning
      obtain ⟨hlt, hsorted⟩ := List.pairwise_cons.1 hsorted
      obtain ⟨hi, his⟩ := List.forall_mem_cons.1 hfresh
      -- something is due, so `i` is below `m`
      have him : i.val < m := by
        by_contra hge
        rw [due_behind clients hlt (by omega), List.length_nil] at hcount
        omega
      by_cases hidle : (clients i).fd = none ∨ (clients i).revents = 0
      · have hdue : due m clients i = none := by
          unfold due
          rcases hidle with hfd | hzero
          · rw [hfd, ite_self]
          · exact if_neg fun h => h.2 hzero
        have hskip : serveAll k (i :: is) w clients count = serveAll k is w clients count :=
          serveAll_skip (hidle.imp_right fun hzero => by rw [hzero]; rfl)
        rw [hskip] at hrunning ⊢
        rw [List.filterMap_cons_none hdue] at hcount ⊢
        exact ih hsorted w clients count his hcount hpos hrunning
      · obtain ⟨hne, hzero⟩ := not_or.1 hidle
        obtain ⟨fd, hfd⟩ := Option.ne_none_iff_exists'.1 hne
        have hdue : due m clients i = some fd := by
          rw [← hfd]
          exact if_pos ⟨him, hzero⟩
        rw [List.filterMap_cons_some hdue, List.length_cons] at hcount
        rw [List.filterMap_cons_some hdue]
        obtain ⟨w', ops, -, hstopped | ⟨hops, clients', hsame, -, hnext⟩⟩ :=
          serveAll_ready (k := k) hfd (hi him hne hzero) is w count
        · rw [hstopped] at hrunning
          cases hrunning
        · have hsame : ∀ j ∈ is, clients' j = clients j := fun j hj => hsame j (Fin.ne_of_lt (hlt j hj)).symm
          have hdue' : is.filterMap (due m clients') = is.filterMap (due m clients) := due_congr hsame
          rw [← hdue'] at hcount ⊢
          rw [hnext] at hrunning ⊢
          have hleft : count - 1 = (is.filterMap (due m clients')).length := by omega
          rw [served_rest hleft (fun hpos => ih hsorted w' clients' (count - 1) (fun j hj => ?_) hleft hpos) hrunning, hops]
          · rfl
          · rw [hsame j hj]
            exact his j hj

end Loops

/-! ## A turn -/

section Turn
variable {σ : Type} {listenfd : Fd} (revents : Fd → BitVec 16) (clients : Fin n → Pollfd)

/-- The loop behind `max` only raises it. -/
theorem le_foldl_max (is : List (Fin n)) (hsorted : is.Pairwise (· < ·)) :
    ∀ m : Nat, (∀ i ∈ is, m ≤ i.val) →
      m ≤ is.foldl (fun max i => if (clients i).fd.isSome then i.val + 1 else max) m ∧
      ∀ i ∈ is, (clients i).fd ≠ none →
        i.val < is.foldl (fun max i => if (clients i).fd.isSome then i.val + 1 else max) m := by
  induction is with
  | nil => exact fun m _ => ⟨le_refl m, fun i hi => absurd hi List.not_mem_nil⟩
  | cons i is ih =>
      intro m hm
      obtain ⟨hlt, hsorted⟩ := List.pairwise_cons.1 hsorted
      have hmi : m ≤ i.val := hm i List.mem_cons_self
      rw [List.foldl_cons]
      by_cases hsome : (clients i).fd.isSome = true
      · rw [if_pos hsome]
        obtain ⟨hle, hrest⟩ := ih hsorted (i.val + 1) fun j hj => hlt j hj
        refine ⟨by omega, fun j hj hfd => ?_⟩
        rcases List.mem_cons.1 hj with rfl | hj
        · exact hle
        · exact hrest j hj hfd
      · rw [if_neg hsome]
        obtain ⟨hle, hrest⟩ := ih hsorted m fun j hj => hm j (List.mem_cons_of_mem _ hj)
        refine ⟨hle, fun j hj hfd => ?_⟩
        rcases List.mem_cons.1 hj with rfl | hj
        · exact absurd (Option.isSome_iff_ne_none.2 hfd) hsome
        · exact hrest j hj hfd

theorem lt_max {i : Fin n} (h : (clients i).fd ≠ none) : i.val < max clients :=
  (le_foldl_max clients (List.finRange n) (List.pairwise_lt_finRange n) 0 fun i _ => Nat.zero_le i.val).2 i
    (List.mem_finRange i) h

theorem fds_polled : fds (polled revents clients) = fds clients := by
  funext i
  unfold fds polled
  split_ifs <;> rfl

/-- What is due after `poll` is what it reports. -/
theorem due_polled (i : Fin n) :
    due (max clients) (polled revents clients) i = (clients i).fd.filter fun fd => revents fd ≠ 0 := by
  have hfd : (polled revents clients i).fd = (clients i).fd := congrFun (fds_polled revents clients) i
  unfold due
  rw [hfd]
  cases hclient : (clients i).fd with
  | none => rw [ite_self, Option.filter_none]
  | some fd =>
      have hlt : i.val < max clients := lt_max clients (by rw [hclient]; exact Option.some_ne_none fd)
      have hrevents : (polled revents clients i).revents = revents fd := by
        unfold polled
        rw [if_pos hlt, hclient]
        rfl
      rw [hrevents, Option.filter_some]
      simp [hlt]

theorem isSome_of_polled {i : Fin n} (hlt : i.val < max clients) (h : (polled revents clients i).revents ≠ 0) :
    (polled revents clients i).fd.isSome = true := by
  unfold polled at h ⊢
  rw [if_pos hlt] at h ⊢
  cases hfd : (clients i).fd with
  | none => simp [hfd] at h
  | some fd => simp

theorem count_eq : count listenfd revents clients =
    (if revents listenfd ≠ 0 then 1 else 0) + ((reported revents clients).length : Nat) := by
  unfold count reported
  rw [List.length_filterMap_eq_countP]
  congr 2
  apply List.countP_congr
  intro i _
  rw [← due_polled, due, decide_eq_true_iff]
  by_cases h : i.val < max clients ∧ (polled revents clients i).revents ≠ 0
  · rw [if_pos h]
    exact iff_of_true h (isSome_of_polled revents clients h.1 h.2)
  · rw [if_neg h]
    exact iff_of_false h Bool.false_ne_true

variable {k : Kernel σ listenfd} {w w' : σ} {revents clients}

/-- The entries that `poll` wrote have events that the serving loop looks for. -/
theorem client_polled (hwait : (k.wait w).2 = .returned revents) {i : Fin n} (hlt : i.val < max clients)
    (hfd : (polled revents clients i).fd ≠ none) (h : (polled revents clients i).revents ≠ 0) :
    (polled revents clients i).revents &&& (POLLIN ||| POLLERR) ≠ 0 := by
  unfold polled at hfd h ⊢
  rw [if_pos hlt] at hfd h ⊢
  obtain ⟨fd, hclient⟩ := Option.ne_none_iff_exists'.1 hfd
  have hclient : (clients i).fd = some fd := hclient
  dsimp only at h ⊢
  rw [hclient] at h ⊢
  exact k.client_ready w revents fd hwait h

/-- The table after `poll` in which a free slot may have been filled. -/
structure Filled (revents : Fd → BitVec 16) (clients clients' : Fin n → Pollfd) : Prop where
  revents : ∀ i, (clients' i).revents = (polled revents clients i).revents
  fd : ∀ i, (clients' i).fd = (clients i).fd ∨ (clients i).fd = none

theorem filled_polled : Filled revents clients (polled revents clients) :=
  ⟨fun _ => rfl, fun i => Or.inl (congrFun (fds_polled revents clients) i)⟩

theorem filled_stored {sockfd : Fd} {i : Fin n} (hfree : (clients i).fd = none) :
    Filled revents clients
      (Function.update (polled revents clients) i { polled revents clients i with fd := some sockfd }) := by
  constructor
  · intro j
    by_cases hij : j = i
    · subst hij
      rw [Function.update_self]
    · rw [Function.update_of_ne hij]
  · intro j
    by_cases hij : j = i
    · subst hij
      exact Or.inr hfree
    · rw [Function.update_of_ne hij]
      exact filled_polled.fd j

/-- A slot that was just filled has no events below `max`. -/
theorem Filled.due {clients' : Fin n → Pollfd} (h : Filled revents clients clients') (i : Fin n) :
    due (max clients) clients' i = due (max clients) (polled revents clients) i := by
  unfold PollTable.due
  rw [h.revents]
  by_cases hready : i.val < max clients ∧ (polled revents clients i).revents ≠ 0
  · rw [if_pos hready, if_pos hready]
    rcases h.fd i with hfd | hfree
    · rw [hfd]
      exact (congrFun (fds_polled revents clients) i).symm
    · have hsome := isSome_of_polled revents clients hready.1 hready.2
      rw [show (polled revents clients i).fd = (clients i).fd from congrFun (fds_polled revents clients) i, hfree] at hsome
      cases hsome
  · rw [if_neg hready, if_neg hready]

theorem Filled.reported {clients' : Fin n → Pollfd} (h : Filled revents clients clients') :
    (List.finRange n).filterMap (PollTable.due (max clients) clients') = reported revents clients :=
  List.filterMap_congr fun i _ => (h.due i).trans (due_polled revents clients i)

/-- The serving loop after `poll`. -/
theorem served_filled (hwait : (k.wait w).2 = .returned revents) {clients' : Fin n → Pollfd}
    (h : Filled revents clients clients') {count : Int} (hcount : count = (reported revents clients).length)
    (hpos : 0 < count) (hrunning : (serveAll k (List.finRange n) w' clients' count).running = true) :
    served (serveAll k (List.finRange n) w' clients' count).ops = reported revents clients := by
  rw [← h.reported] at hcount ⊢
  refine serveAll_served (List.pairwise_lt_finRange n) w' clients' count (fun i _ hlt hfd hne => ?_) hcount hpos hrunning
  rw [h.revents] at hne ⊢
  refine client_polled hwait hlt ?_ hne
  exact Option.isSome_iff_ne_none.1 (isSome_of_polled revents clients hlt hne)

theorem served_serveRest (hwait : (k.wait w).2 = .returned revents) {clients' : Fin n → Pollfd}
    (h : Filled revents clients clients') {count : Int} (hcount : count - 1 = (reported revents clients).length)
    {ops : List (Op n)} (hops : served ops = []) (hrunning : (serveRest k w' clients' count ops).running = true) :
    served (serveRest k w' clients' count ops).ops = reported revents clients := by
  unfold serveRest at hrunning ⊢
  dsimp only at hrunning ⊢
  rw [served_rest hcount (served_filled hwait h hcount) hrunning, hops]
  rfl

/-- **A turn.** -/
theorem turn_served (hwait : (k.wait w).2 = .returned revents) (hcount : 0 < count listenfd revents clients)
    (haccept : .accept .interrupted ∉ (turn k w clients).ops) (hrunning : (turn k w clients).running = true) :
    served (turn k w clients).ops = reported revents clients := by
  have hcounted := @count_eq n listenfd revents clients
  unfold turn at haccept hrunning ⊢
  rcases hw : k.wait w with ⟨w₁, r⟩
  rw [hw] at hwait haccept hrunning
  dsimp only at hwait
  subst hwait
  have hwait : (k.wait w).2 = .returned revents := by rw [hw]
  dsimp only at haccept hrunning ⊢
  rw [if_neg (by omega)] at haccept hrunning ⊢
  by_cases hlisten : revents listenfd = 0
  · rw [if_neg (by simp [hlisten])] at hrunning ⊢
    rw [if_neg (by simpa using hlisten), Int.zero_add] at hcounted
    exact served_filled hwait filled_polled hcounted hcount hrunning
  · rw [if_pos (k.listener_ready w revents hwait hlisten)] at haccept hrunning ⊢
    have hrest : count listenfd revents clients - 1 = (reported revents clients).length := by
      rw [hcounted, if_pos hlisten]
      omega
    rcases hconnect : k.accept w₁ (watched listenfd (fds (polled revents clients))) with ⟨w₂, result⟩
    rw [hconnect] at haccept hrunning
    cases result with
    | interrupted => exact absurd List.mem_cons_self haccept
    | failed => cases hrunning
    | connected sockfd =>
        dsimp only at hrunning ⊢
        have hplaced := served_place k sockfd (fds (polled revents clients)) (List.finRange n) w₂
        rcases hplace : place k sockfd (fds (polled revents clients)) (List.finRange n) w₂ with ⟨w₃, placed, ops⟩
        rw [hplace] at hplaced hrunning
        cases placed with
        | exit => cases hrunning
        | full => exact served_serveRest hwait filled_polled hrest hplaced hrunning
        | stored i =>
            have hfree : fds (polled revents clients) i = none := place_stored (by rw [hplace])
            rw [fds_polled] at hfree
            exact served_serveRest hwait (filled_stored hfree) hrest hplaced hrunning

end Turn

/-! ## Connections in one slot only -/

section Distinct
variable {σ : Type} {listenfd : Fd} {k : Kernel σ listenfd}

/-- No descriptor is in two slots. -/
def Distinct (fds : Fin n → Option Fd) : Prop := ∀ i j fd, fds i = some fd → fds j = some fd → i = j

theorem Distinct.nodup {clients : Fin n → Pollfd} (h : Distinct (fds clients)) (revents : Fd → BitVec 16) :
    (reported revents clients).Nodup := by
  refine (List.nodup_finRange n).filterMap fun i j fd hi hj => h i j fd ?_ ?_
  · exact (Option.filter_eq_some_iff.1 hi).1
  · exact (Option.filter_eq_some_iff.1 hj).1

theorem Distinct.mono {fds fds' : Fin n → Option Fd} (h : Distinct fds)
    (hsub : ∀ i fd, fds' i = some fd → fds i = some fd) : Distinct fds' :=
  fun i j fd hi hj => h i j fd (hsub i fd hi) (hsub j fd hj)

theorem Distinct.stored {fds : Fin n → Option Fd} (h : Distinct fds) {sockfd : Fd} (hnew : ∀ i, fds i ≠ some sockfd)
    (i : Fin n) : Distinct (Function.update fds i (some sockfd)) := by
  have hold : ∀ j l, j ≠ l → ∀ fd, Function.update fds i (some sockfd) j = some fd →
      Function.update fds i (some sockfd) l = some fd → False := by
    intro j l hjl fd hj hl
    by_cases hji : j = i
    · subst hji
      rw [Function.update_self] at hj
      rw [Function.update_of_ne (Ne.symm hjl), ← Option.some.inj hj] at hl
      exact hnew l hl
    · rw [Function.update_of_ne hji] at hj
      by_cases hli : l = i
      · subst hli
        rw [Function.update_self] at hl
        rw [← Option.some.inj hl] at hj
        exact hnew j hj
      · rw [Function.update_of_ne hli] at hl
        exact hjl (h j l fd hj hl)
  intro j l fd hj hl
  by_contra hjl
  exact hold j l hjl fd hj hl

theorem fds_update (clients : Fin n → Pollfd) (i : Fin n) (x : Pollfd) :
    fds (Function.update clients i x) = Function.update (fds clients) i x.fd := by
  funext j
  unfold fds
  by_cases hij : j = i
  · subst hij
    rw [Function.update_self, Function.update_self]
  · rw [Function.update_of_ne hij, Function.update_of_ne hij]

/-- Serving only empties slots, and accepts nothing. -/
theorem serveAll_keeps (is : List (Fin n)) : ∀ (w : σ) (clients : Fin n → Pollfd) (count : Int),
    (∀ i fd, fds (serveAll k is w clients count).clients i = some fd → fds clients i = some fd) ∧
      ∀ result, .accept result ∉ (serveAll k is w clients count).ops := by
  induction is with
  | nil => exact fun w clients count => ⟨fun i fd h => h, fun result => List.not_mem_nil⟩
  | cons i is ih =>
      intro w clients count
      by_cases hidle : (clients i).fd = none ∨ (clients i).revents &&& (POLLIN ||| POLLERR) = 0
      · rw [serveAll_skip hidle]
        exact ih w clients count
      · obtain ⟨hne, hmask⟩ := not_or.1 hidle
        obtain ⟨fd, hfd⟩ := Option.ne_none_iff_exists'.1 hne
        obtain ⟨w', ops, haccept, hstopped | ⟨-, clients', hsame, hemptied, hnext⟩⟩ :=
          serveAll_ready (k := k) hfd hmask is w count
        · rw [hstopped]
          exact ⟨fun j fd h => h, haccept⟩
        · have hkept : ∀ j fd, fds clients' j = some fd → fds clients j = some fd := by
            intro j fd h
            by_cases hji : j = i
            · rw [hji] at h ⊢
              exact hemptied fd h
            · rwa [fds, hsame j hji] at h
          obtain ⟨hfds, hops⟩ := ih w' clients' (count - 1)
          rw [hnext]
          split_ifs
          · exact ⟨hkept, haccept⟩
          · exact ⟨fun j fd h => hkept j fd (hfds j fd h),
              fun result h => (List.mem_append.1 h).elim (haccept result) (hops result)⟩

theorem place_accepts (sockfd : Fd) (fds : Fin n → Option Fd) (is : List (Fin n)) (w : σ) :
    ∀ result, .accept result ∉ (place k sockfd fds is w).2.2 := by
  intro result
  induction is with
  | nil => exact List.not_mem_nil
  | cons i is ih =>
      unfold place
      split_ifs
      · split <;> simp
      · simp
      · exact ih

theorem serveRest_keeps (w : σ) (clients : Fin n → Pollfd) (count : Int) (ops : List (Op n)) :
    (∀ i fd, fds (serveRest k w clients count ops).clients i = some fd → fds clients i = some fd) ∧
      ∀ result, .accept result ∈ (serveRest k w clients count ops).ops → .accept result ∈ ops := by
  unfold serveRest
  split_ifs
  · exact ⟨fun i fd h => h, fun result h => h⟩
  · obtain ⟨hfds, hops⟩ := serveAll_keeps (k := k) (List.finRange n) w clients (count - 1)
    exact ⟨hfds, fun result h => (List.mem_append.1 h).elim id fun h => absurd h (hops result)⟩

theorem not_mem_fds {fds : Fin n → Option Fd} {sockfd : Fd} (h : sockfd ∉ watched listenfd fds) (i : Fin n) :
    fds i ≠ some sockfd :=
  fun hi => h (List.mem_cons_of_mem _ (List.mem_filterMap.2 ⟨i, List.mem_finRange i, hi⟩))

/-- A turn keeps the slots apart, and what it accepts was in none of them. -/
theorem turn_distinct {w : σ} {clients : Fin n → Pollfd} (h : Distinct (fds clients)) :
    Distinct (fds (turn k w clients).clients) ∧
      ∀ sockfd, .accept (.connected sockfd) ∈ (turn k w clients).ops → ∀ i, fds clients i ≠ some sockfd := by
  unfold turn
  rcases k.wait w with ⟨w₁, r⟩
  cases r with
  | interrupted => exact ⟨h, fun sockfd hmem => absurd hmem List.not_mem_nil⟩
  | failed => exact ⟨h, fun sockfd hmem => absurd hmem List.not_mem_nil⟩
  | returned revents =>
      have hpolled : Distinct (fds (polled revents clients)) := by rwa [fds_polled]
      dsimp only
      split_ifs
      · exact ⟨hpolled, fun sockfd hmem => absurd hmem List.not_mem_nil⟩
      · rcases hconnect : k.accept w₁ (watched listenfd (fds (polled revents clients))) with ⟨w₂, result⟩
        cases result with
        | interrupted => exact ⟨hpolled, fun sockfd hmem => by simp at hmem⟩
        | failed => exact ⟨hpolled, fun sockfd hmem => by simp at hmem⟩
        | connected sockfd =>
            have hnew : ∀ i, fds (polled revents clients) i ≠ some sockfd :=
              not_mem_fds (k.accept_fresh w₁ _ sockfd (by rw [hconnect]))
            have hfresh : ∀ (ops : List (Op n)) (fd : Fd), (∀ result, .accept result ∉ ops) →
                .accept (.connected fd) ∈ .accept (.connected sockfd) :: ops → ∀ i, fds clients i ≠ some fd := by
              intro ops fd hops hmem
              rcases List.mem_cons.1 hmem with heq | hmem
              · cases heq
                rwa [fds_polled] at hnew
              · exact absurd hmem (hops _)
            dsimp only
            have hplace := place_accepts (k := k) sockfd (fds (polled revents clients)) (List.finRange n) w₂
            generalize place k sockfd (fds (polled revents clients)) (List.finRange n) w₂ = x at hplace ⊢
            obtain ⟨w₃, placed, ops⟩ := x
            cases placed with
            | exit => exact ⟨hpolled, fun fd => hfresh ops fd hplace⟩
            | full =>
                obtain ⟨hfds, hops⟩ := serveRest_keeps (k := k) w₃ (polled revents clients)
                  (count listenfd revents clients) (.accept (.connected sockfd) :: ops)
                exact ⟨hpolled.mono hfds, fun fd hmem => hfresh ops fd hplace (hops _ hmem)⟩
            | stored i =>
                obtain ⟨hfds, hops⟩ := serveRest_keeps (k := k) w₃
                  (Function.update (polled revents clients) i { polled revents clients i with fd := some sockfd })
                  (count listenfd revents clients) (.accept (.connected sockfd) :: ops)
                refine ⟨Distinct.mono ?_ hfds, fun fd hmem => hfresh ops fd hplace (hops _ hmem)⟩
                rw [fds_update]
                exact hpolled.stored hnew i
      · obtain ⟨hfds, hops⟩ := serveAll_keeps (k := k) (List.finRange n) w₁ (polled revents clients)
          (count listenfd revents clients)
        exact ⟨hpolled.mono hfds, fun sockfd hmem => absurd hmem (hops _)⟩

theorem run_distinct (w : σ) (revents : Fin n → BitVec 16) (turns : List Unit) :
    Distinct (fds ((sPoll k).run (boot w revents) turns).1.clients) := by
  refine Machine.run_inv (m := sPoll k) (I := fun _ s => Distinct (fds s.clients)) ?_ turns [] _ ?_
  · intro _ s _ hs
    unfold sPoll
    dsimp only
    split_ifs
    · exact (turn_distinct hs).1
    · exact hs
  · exact fun i j fd hi => nomatch hi

end Distinct

/-- In every turn of a run in which `poll` finds something, `accept` is not interrupted and the server goes on, the
connections served are those reported, in slot order and each once; a new one is not among them. -/
theorem serves_reported {σ : Type} {listenfd : Fd} (k : Kernel σ listenfd) (w : σ) (stack : Fin n → BitVec 16)
    (turns : List Unit) {s : Server σ (Fin n → Pollfd)} {revents : Fd → BitVec 16}
    (hs : ((sPoll k).run (boot w stack) turns).1 = s) (hwait : (k.wait s.world).2 = .returned revents)
    (hcount : 0 < count listenfd revents s.clients)
    (haccept : .accept .interrupted ∉ (turn k s.world s.clients).ops)
    (hrunning : (turn k s.world s.clients).running = true) :
    served (turn k s.world s.clients).ops = reported revents s.clients ∧
      (served (turn k s.world s.clients).ops).Nodup ∧
      ∀ sockfd, .accept (.connected sockfd) ∈ (turn k s.world s.clients).ops →
        sockfd ∉ served (turn k s.world s.clients).ops := by
  have hdistinct : Distinct (fds s.clients) := hs ▸ run_distinct w stack turns
  have hserved := turn_served hwait hcount haccept hrunning
  rw [hserved]
  refine ⟨rfl, hdistinct.nodup revents, fun sockfd hmem hreported => ?_⟩
  obtain ⟨i, -, hi⟩ := List.mem_filterMap.1 hreported
  exact (turn_distinct hdistinct).2 sockfd hmem i (Option.filter_eq_some_iff.1 hi).1

/-- A client has connected to a server with three slots. -/
def connected : Server Net (Fin 3 → Pollfd) :=
  ((sPoll (kernel 3)).run (boot (.start (twoParts [ch 'h', ch '\n'] [])) fun _ => 0) [()]).1

/-- It is served in the next turn. -/
theorem serves_reported_connected : ∃ revents,
    served (turn (kernel 3) connected.world connected.clients).ops = reported revents connected.clients ∧
      (served (turn (kernel 3) connected.world connected.clients).ops).Nodup ∧
      ∀ sockfd, .accept (.connected sockfd) ∈ (turn (kernel 3) connected.world connected.clients).ops →
        sockfd ∉ served (turn (kernel 3) connected.world connected.clients).ops := by
  have hops : (turn (kernel 3) connected.world connected.clients).ops =
      [.getpeername 4 true, .handleEcho 4 (some 1)] := rfl
  refine ⟨_, serves_reported (kernel 3) (.start (twoParts [ch 'h', ch '\n'] [])) (fun _ => 0) [()] rfl rfl ?_ ?_ rfl⟩
  · decide +kernel
  · rw [hops]
    simp

end SysSnippets.Tcp.PollTable
