import SysSnippets.Drm.Client
import SysSnippets.Drm.Commands

/-!
# The clients and the server together

Any number of clients, one for each connection, and the server, over connections that deliver each message
whole and in order (`World`). A client may stop at any moment (`Action.quit`: a timeout, an error, a signal).

* `exchanges c h` : the requests the server read from connection `c`, each with the reply it wrote;
* `Linked` : the messages under way are what one side has sent and the other has not read, and replies
  carry the magic of their request;
* `lockstep` : in every run, a client's requests are those of its program in order, at most one of them is
  unanswered, its `k`-th response answers its `k`-th request, and it draws when the second one is granted.
-/

namespace SysSnippets.Drm
open SysSnippets.Lib

structure World where
  server : Server
  client : Conn → Client
  /-- messages under way to the server -/
  c2s : Conn → List RxBytes
  /-- messages under way to the client -/
  s2c : Conn → List (List Byte)

inductive Action
  | connect (c : Conn)
  | auth (c : Conn) (ok : Bool)
  | recv (c : Conn) (ok : Bool)
  | stop (c : Conn) (ok : Bool)
  | quit (c : Conn)
  | poll (r : Option PollReturn)
  | accept (r : Option Conn)
  | slot (error : Bool) (ans : DrmAnswers)
  | sigint

/-- The connection the server reads from next. -/
def Server.reading (s : Server) : Option Conn :=
  match s.pc with
  | .scan revents _ i =>
      if h : i < MAXCLIENTS then
        if (revents ⟨i, h⟩).readable then s.locals.fds ⟨i, h⟩ else none
      else none
  | _ => none

/-- Client `c` takes a step and sends messages. -/
def World.send (w : World) (c : Conn) (out : Client × List RxBytes) : World :=
  { w with
    client := Function.update w.client c out.1
    c2s := Function.update w.c2s c (w.c2s c ++ out.2) }

/-- The server takes a step; what it writes is under way to the clients. -/
def World.serve (w : World) (k : Input) : World × List Obs :=
  let r := w.server.step k
  ({ w with server := r.1, s2c := fun c => w.s2c c ++ repliesTo c r.2 }, r.2)

/-- The server's next pass: it reads the next message of the connection, or its end once the client is
gone, or fails. Without a message `read` blocks. -/
def World.slot (w : World) (error : Bool) (ans : DrmAnswers) : World × List Obs :=
  match w.server.reading with
  | none => w.serve (.slot ⟨.error, ans, true⟩)
  | some c =>
      let peerOpen := (w.client c).pc ≠ .gone
      if error then w.serve (.slot ⟨.error, ans, peerOpen⟩)
      else
        match w.c2s c with
        | rx :: rest => { w with c2s := Function.update w.c2s c rest }.serve (.slot ⟨.data rx, ans, peerOpen⟩)
        | [] => if peerOpen then (w, []) else w.serve (.slot ⟨.eof, ans, false⟩)

/-- One step of the system; a client step that is not due is not taken. -/
def World.step (prog : Conn → Program) (w : World) : Action → World × List Obs
  | .connect c =>
      if (w.client c).pc = .start then (w.send c ({ w.client c with pc := .connected }, []), [])
      else (w, [])
  | .auth c ok =>
      if (w.client c).pc = .connected then (w.send c ((w.client c).auth (prog c) ok), []) else (w, [])
  | .recv c ok =>
      if (w.client c).pc = .waiting then
        match w.s2c c with
        | [] => (w, [])
        | rx :: rest =>
            (({ w with s2c := Function.update w.s2c c rest } : World).send c
              ((w.client c).recv (prog c) rx ok), [])
      else (w, [])
  | .stop c ok =>
      if (w.client c).pc = .drawn then (w.send c ((w.client c).stop (prog c) ok), []) else (w, [])
  | .quit c => if (w.client c).pc = .start then (w, []) else (w.send c ((w.client c).quit, []), [])
  | .poll r => w.serve (.poll r)
  | .accept none => w.serve (.accept none)
  | .accept (some c) => if (w.client c).pc = .start then (w, []) else w.serve (.accept (some c))
  | .slot error ans => w.slot error ans
  | .sigint => w.serve .sigint

/-- The system as a machine that shows what the server shows. -/
def system (prog : Conn → Program) : Machine World Action Obs := ⟨World.step prog⟩

/-- The server is up, and no client has started. -/
def World.boot (g : Stack) : World := ⟨Drm.boot g, fun _ => .start, fun _ => [], fun _ => []⟩

/-- The message a pass read. -/
def Visit.received (v : Visit) : Option RxBytes :=
  match v.input.read with
  | .data rx => some rx
  | .error | .eof => none

/-- The request a pass read, and its reply. -/
def Visit.exchange (v : Visit) : Option (RxBytes × List Byte) :=
  match v.input.read, v.writes with
  | .data rx, [(_, m)] => some (rx, m)
  | _, _ => none

/-- What the server read from connection `c`. -/
def receivedFrom (c : Conn) (h : List Obs) : List RxBytes := (visitsOf c h).filterMap Visit.received

/-- The requests of connection `c` that the server answered, with the replies. -/
def exchanges (c : Conn) (h : List Obs) : List (RxBytes × List Byte) :=
  (visitsOf c h).filterMap Visit.exchange

/-- The process lives. -/
def Server.Alive (s : Server) : Prop := ∀ f, s.pc ≠ .crashed f

/-- How a client and its two queues stand to what the server shows of connection `c`. -/
structure Linked (p : Program) (c : Conn) (h : List Obs) (s : Server) (cl : Client) (c2s : List RxBytes)
    (s2c : List (List Byte)) : Prop where
  phase : Phase p cl
  sent : (sentIn cl.trace).map Request.received = receivedFrom c h ++ c2s
  read : (exchanges c h).map (·.2) = readIn cl.trace ++ s2c
  served : (exchanges c h).map (·.1) <+: receivedFrom c h
  alive : s.Alive → (exchanges c h).map (·.1) = receivedFrom c h
  magic : ∀ e ∈ exchanges c h, ∀ r : Request, e.1 = r.received → ∃ value, e.2 = reply r.magic value

/-! ## Steps of the clients -/

section Client
variable {p : Program} {cl : Client}

theorem write_trace (r : Request) (ok : Bool) :
    (sentIn (cl.write r ok).1.trace).map Request.received =
        (sentIn cl.trace).map Request.received ++ (cl.write r ok).2 ∧
      readIn (cl.write r ok).1.trace = readIn cl.trace := by
  unfold Client.write
  split_ifs <;> simp [Client.quit]

theorem recv_trace (rx : List Byte) (ok : Bool) :
    (sentIn (cl.recv p rx ok).1.trace).map Request.received =
        (sentIn cl.trace).map Request.received ++ (cl.recv p rx ok).2 ∧
      readIn (cl.recv p rx ok).1.trace = readIn cl.trace ++ [rx] := by
  unfold Client.recv
  dsimp only
  have hquit : ∀ cl' : Client, cl'.trace = cl.trace ++ [.read rx] →
      (sentIn cl'.trace).map Request.received = (sentIn cl.trace).map Request.received ++ [] ∧
        readIn cl'.trace = readIn cl.trace ++ [rx] := by
    intro cl' htrace
    simp [htrace]
  split
  · exact hquit _ rfl
  · split_ifs
    · exact hquit _ rfl
    · exact hquit _ rfl
    · unfold Client.proceed
      split_ifs
      · obtain ⟨hsent, hread⟩ := @write_trace
          { cl with trace := cl.trace ++ [.read rx], command := p.second.command } p.second ok
        rw [hsent, hread]
        simp
      · simp
      · exact hquit _ rfl
      · exact hquit _ rfl

end Client

/-! ## Steps of the server -/

section Server
variable {s : Server}

theorem visits_step {k : Input} (hk : ∀ inp, k ≠ .slot inp) : visits (s.step k).2 = [] := by
  cases k with
  | sigint => rfl
  | slot inp => exact absurd rfl (hk inp)
  | poll r =>
      unfold Server.step
      dsimp only
      split <;> rfl
  | accept r =>
      unfold Server.step
      dsimp only
      split
      · split_ifs
        · cases r with
          | none => rfl
          | some c =>
              dsimp only
              unfold Server.accept
              split_ifs <;> rfl
        · rfl
      · rfl

theorem visits_slot_none (h : s.reading = none) (inp : SlotIn) : visits (s.step (.slot inp)).2 = [] := by
  unfold Server.reading at h
  unfold Server.step
  cases hpc : s.pc with
  | scan revents rc i =>
      rw [hpc] at h
      dsimp only at h ⊢
      split_ifs with hi
      · rw [dif_pos hi] at h
        unfold Server.scan
        by_cases hready : (revents ⟨i, hi⟩).readable
        · rw [if_pos hready] at h
          rw [h]
          rfl
        · cases s.locals.fds ⟨i, hi⟩ with
          | none => rfl
          | some c =>
              dsimp only
              rw [if_neg hready]
              rfl
      · rfl
  | _ => rfl

theorem slot_some {c : Conn} (h : s.reading = some c) (inp : SlotIn) :
    ∃ i, (s.step (.slot inp)).2 = [.visit (visit s.locals i c inp).2] := by
  unfold Server.reading at h
  unfold Server.step
  cases hpc : s.pc with
  | scan revents rc i =>
      rw [hpc] at h
      dsimp only at h ⊢
      by_cases hi : i < MAXCLIENTS
      · rw [dif_pos hi] at h ⊢
        by_cases hready : (revents ⟨i, hi⟩).readable
        · rw [if_pos hready] at h
          refine ⟨⟨i, hi⟩, ?_⟩
          unfold Server.scan
          rw [h]
          dsimp only
          rw [if_pos hready]
          cases (visit s.locals ⟨i, hi⟩ c inp).2.fault with
          | some f => rfl
          | none =>
              dsimp only
              split_ifs <;> rfl
        · rw [if_neg hready] at h
          cases h
      · rw [dif_neg hi] at h
        cases h
  | _ => simp [hpc] at h

theorem received_visit (srv : Locals) (i : Slot) (c : Conn) (inp : SlotIn) :
    (visit srv i c inp).2.received = match inp.read with
      | .data rx => some rx
      | .error | .eof => none := by
  unfold Visit.received
  rw [(visitOf_visit srv i c inp).input_eq]

theorem alive_of_quiet {k : Input} (h : visits (s.step k).2 = []) : (s.step k).1.Alive ↔ s.Alive := by
  have hm := step_move s k
  generalize s.step k = r at hm h
  cases hm with
  | silent t _ _ _ hpc => exact forall_congr' fun f => not_congr (hpc f)
  | accepted t c hlive _ _ _ hpc => exact iff_of_true hpc hlive
  | visited t i c inp _ _ _ _ _ => cases h

/-- A pass is made by a living process, which then lives iff the pass did not fault. -/
theorem alive_of_visit {k : Input} {v : Visit} (h : (s.step k).2 = [.visit v]) :
    s.Alive ∧ ((s.step k).1.Alive ↔ v.fault = none) := by
  have hm := step_move s k
  generalize s.step k = r at hm h
  cases hm with
  | silent t _ _ _ hpc => cases h
  | accepted t c hlive _ _ _ hpc => cases h
  | visited t i c inp hlive _ _ _ hpc =>
      cases h
      refine ⟨hlive, fun halive => ?_, fun hnone f hf => ?_⟩
      · cases hfault : (visit s.locals i c inp).2.fault with
        | none => rfl
        | some f => exact absurd ((hpc f).2 hfault) (halive f)
      · rw [hpc, hnone] at hf
        cases hf

end Server

/-- What a pass that reads a request shows: the reply to it, with its magic, unless it faults. -/
theorem exchange_visit {srv : Locals} {i : Slot} {c : Conn} {inp : SlotIn} {v : Visit}
    (hv : VisitOf srv i c inp v) :
    (v.fault = none → v.exchange.map (·.1) = v.received) ∧
      v.writes.map (·.2) = v.exchange.toList.map (·.2) ∧
      ∀ e, v.exchange = some e → v.received = some e.1 ∧
        ∀ r : Request, e.1 = r.received → ∃ value, e.2 = reply r.magic value := by
  cases hv with
  | gone hread =>
      have hnone : Visit.exchange { Visit.start srv i c inp with closed := true } = none := by
        unfold Visit.exchange
        rcases hread with hread | hread <;> simp [Visit.start, hread]
      refine ⟨fun _ => ?_, ?_, fun e he => ?_⟩
      · rw [hnone]
        unfold Visit.received
        rcases hread with hread | hread <;> simp [Visit.start, hread]
      · rw [hnone]
        rfl
      · rw [hnone] at he
        cases he
  | overread rx hread htext =>
      refine ⟨fun h => (by cases h), ?_, fun e he => ?_⟩
      · simp [Visit.exchange, Visit.start, hread]
      · simp [Visit.exchange, Visit.start, hread] at he
  | faulted rx text f hread htext hd =>
      refine ⟨fun h => (by cases h), ?_, fun e he => ?_⟩
      · simp [Visit.exchange, Visit.start, hread]
      · simp [Visit.exchange, Visit.start, hread] at he
  | unsent rx text out hread htext hd hpeer =>
      refine ⟨fun h => (by cases h), ?_, fun e he => ?_⟩
      · simp [Visit.exchange, Visit.start, hread]
      · simp [Visit.exchange, Visit.start, hread] at he
  | replied rx text out hread htext hd hpeer =>
      refine ⟨fun _ => ?_, ?_, fun e he => ?_⟩
      · simp [Visit.exchange, Visit.received, Visit.start, hread]
      · simp [Visit.exchange, Visit.start, hread]
      · simp only [Visit.exchange, Visit.start, hread, Option.some.injEq] at he
        subst he
        refine ⟨by simp [Visit.received, Visit.start, hread], fun r hr => ?_⟩
        obtain rfl : rx = r.received := hr
        have htext' := rxText_received r
        rw [htext] at htext'
        obtain rfl := Option.some.inj htext'
        rw [(scanPair_text r srv).1] at hd ⊢
        obtain ⟨value, hsent, -⟩ := dispatch_sent (by omega) hd
        exact ⟨value, hsent⟩

/-! ## Steps of the system -/

section Linked
variable {p : Program} {c : Conn} {h : List Obs} {s : Server} {cl : Client} {c2s : List RxBytes}
  {s2c : List (List Byte)}

theorem linked_boot (p : Program) (c : Conn) (g : Stack) :
    Linked p c [] (Drm.boot g) .start [] [] :=
  ⟨phase_start, rfl, rfl, List.nil_prefix, fun _ => rfl, fun _ he => (by cases he)⟩

theorem Linked.write (hl : Linked p c h s cl c2s s2c) {out : Client × List RxBytes}
    (hphase : Phase p out.1)
    (hsent : (sentIn out.1.trace).map Request.received = (sentIn cl.trace).map Request.received ++ out.2)
    (hread : readIn out.1.trace = readIn cl.trace) : Linked p c h s out.1 (c2s ++ out.2) s2c := by
  refine ⟨hphase, ?_, ?_, hl.served, hl.alive, hl.magic⟩
  · rw [hsent, hl.sent, List.append_assoc]
  · rw [hread, hl.read]

/-- The next response is one to the client's last request. -/
theorem Linked.next (hl : Linked p c h s cl c2s s2c) {rx : List Byte}
    {rest : List (List Byte)} (hs2c : s2c = rx :: rest) : ∃ value, rx = reply p.magic value := by
  have hmagic : ∀ r ∈ p.requests, r.magic = p.magic := by
    cases p <;> simp [Program.requests, Program.first, Program.second, Program.stop, Request.magic,
      Program.magic]
  have hread := hl.read
  rw [hs2c] at hread
  -- the response is the reply of the exchange after those whose replies were read
  have hk : (readIn cl.trace).length < (exchanges c h).length := by
    have := congrArg List.length hread
    simp only [List.length_map, List.length_append, List.length_cons] at this
    omega
  have hrx : (exchanges c h)[(readIn cl.trace).length].2 = rx := by
    have := congrArg (·[(readIn cl.trace).length]?) hread
    simpa [hk] using this
  have hreq : (exchanges c h)[(readIn cl.trace).length].1 ∈ (sentIn cl.trace).map Request.received := by
    rw [hl.sent]
    apply List.mem_append_left
    apply hl.served.subset
    exact List.mem_map_of_mem (List.getElem_mem hk)
  obtain ⟨r, hr, hrec⟩ := List.mem_map.1 hreq
  obtain ⟨value, hvalue⟩ := hl.magic _ (List.getElem_mem hk) r hrec.symm
  refine ⟨value, ?_⟩
  rw [← hrx, hvalue, hmagic r (hl.phase.sent_prefix.subset hr)]

theorem Linked.recv (hl : Linked p c h s cl c2s s2c) (hpc : cl.pc = .waiting) {rx : List Byte}
    {rest : List (List Byte)} (hs2c : s2c = rx :: rest) (ok : Bool) :
    Linked p c h s (cl.recv p rx ok).1 (c2s ++ (cl.recv p rx ok).2) rest := by
  obtain ⟨value, rfl⟩ := hl.next hs2c
  obtain ⟨hsent, hread⟩ := @recv_trace p cl (reply p.magic value) ok
  refine ⟨phase_recv hl.phase hpc value ok, ?_, ?_, hl.served, hl.alive, hl.magic⟩
  · rw [hsent, hl.sent, List.append_assoc]
  · rw [hread, hl.read, hs2c]
    simp

theorem Linked.quiet (hl : Linked p c h s cl c2s s2c) {t : Server} {obs : List Obs}
    (hobs : visitsOf c obs = []) (ht : t.Alive → s.Alive) : Linked p c (h ++ obs) t cl c2s s2c := by
  have hreceived : receivedFrom c (h ++ obs) = receivedFrom c h := by
    simp [receivedFrom, hobs]
  have hexchanges : exchanges c (h ++ obs) = exchanges c h := by
    simp [exchanges, hobs]
  constructor
  · exact hl.phase
  · rw [hreceived, hl.sent]
  · rw [hexchanges, hl.read]
  · rw [hexchanges, hreceived]
    exact hl.served
  · rw [hexchanges, hreceived]
    exact fun halive => hl.alive (ht halive)
  · rw [hexchanges]
    exact hl.magic

/-- A pass over the connection takes the next message and sends its reply. -/
theorem Linked.pass {srv : Locals} {i : Slot} {inp : SlotIn} {v : Visit} {rest : List RxBytes}
    (hl : Linked p c h s cl (v.received.toList ++ rest) s2c) (hv : VisitOf srv i c inp v)
    (halive : s.Alive) {t : Server} (ht : t.Alive ↔ v.fault = none) :
    Linked p c (h ++ [.visit v]) t cl rest (s2c ++ v.writes.map (·.2)) := by
  obtain ⟨hfault, hwrites, hexchange⟩ := exchange_visit hv
  have hvisits : visitsOf c (h ++ [.visit v]) = visitsOf c h ++ [v] := by
    rw [visitsOf_append, visitsOf_visit, if_pos hv.conn_eq]
  have hreceived : receivedFrom c (h ++ [.visit v]) = receivedFrom c h ++ v.received.toList := by
    rw [receivedFrom, hvisits, List.filterMap_append]
    cases hr : v.received <;> simp [receivedFrom, hr]
  have hexchanges : exchanges c (h ++ [.visit v]) = exchanges c h ++ v.exchange.toList := by
    rw [exchanges, hvisits, List.filterMap_append]
    cases he : v.exchange <;> simp [exchanges, he]
  have hserved := hl.alive halive
  constructor
  · exact hl.phase
  · rw [hreceived, hl.sent, List.append_assoc]
  · rw [hexchanges, List.map_append, hl.read, hwrites, List.append_assoc]
  · rw [hexchanges, hreceived, List.map_append, hserved]
    cases he : v.exchange with
    | none => simp
    | some e => simp [(hexchange e he).1]
  · intro htalive
    rw [hexchanges, hreceived, List.map_append, hserved, ← hfault (ht.1 htalive)]
    cases v.exchange <;> rfl
  · intro e he
    rw [hexchanges] at he
    rcases List.mem_append.1 he with he | he
    · exact hl.magic e he
    · exact (hexchange e (by simpa using he)).2

end Linked

/-- Every client is linked with the server. -/
def AllLinked (prog : Conn → Program) (h : List Obs) (w : World) : Prop :=
  ∀ c, Linked (prog c) c h w.server (w.client c) (w.c2s c) (w.s2c c)

section World
variable {prog : Conn → Program} {h : List Obs} {w : World}

theorem AllLinked.send (hall : AllLinked prog h w) (c : Conn) {out : Client × List RxBytes}
    (hc : Linked (prog c) c h w.server out.1 (w.c2s c ++ out.2) (w.s2c c)) :
    AllLinked prog h (w.send c out) := by
  intro d
  unfold World.send
  by_cases hdc : d = c
  · subst hdc
    simpa using hc
  · simpa [hdc] using hall d

theorem AllLinked.recv (hall : AllLinked prog h w) {c : Conn} (hpc : (w.client c).pc = .waiting)
    {rx : List Byte} {rest : List (List Byte)} (hs2c : w.s2c c = rx :: rest) (ok : Bool) :
    AllLinked prog h
      (({ w with s2c := Function.update w.s2c c rest } : World).send c ((w.client c).recv (prog c) rx ok)) := by
  intro d
  unfold World.send
  by_cases hdc : d = c
  · subst hdc
    simpa using (hall d).recv hpc hs2c ok
  · simpa [hdc] using hall d

theorem AllLinked.quiet (hall : AllLinked prog h w) {k : Input} (hk : visits (w.server.step k).2 = []) :
    AllLinked prog (h ++ (w.serve k).2) (w.serve k).1 := by
  intro c
  have hreplies : repliesTo c (w.server.step k).2 = [] := by simp [repliesTo, hk]
  have hobs : visitsOf c (w.server.step k).2 = [] := by simp [visitsOf, hk]
  unfold World.serve
  dsimp only
  rw [hreplies, List.append_nil]
  exact (hall c).quiet hobs (alive_of_quiet hk).1

/-- A pass of the server over connection `c`, which reads `v.received` off the queue. -/
theorem AllLinked.pass (hall : AllLinked prog h w) {c : Conn} (hreading : w.server.reading = some c)
    (inp : SlotIn) {rest : List RxBytes}
    (hc2s : ∀ srv i, w.c2s c = (visit srv i c inp).2.received.toList ++ rest) :
    AllLinked prog (h ++ (({ w with c2s := Function.update w.c2s c rest } : World).serve (.slot inp)).2)
      (({ w with c2s := Function.update w.c2s c rest } : World).serve (.slot inp)).1 := by
  obtain ⟨i, hobs⟩ := slot_some hreading inp
  have hv := visitOf_visit w.server.locals i c inp
  obtain ⟨halive, ht⟩ := alive_of_visit hobs
  have hreplies : ∀ d, repliesTo d [.visit (visit w.server.locals i c inp).2] =
      (visitsOf d [.visit (visit w.server.locals i c inp).2]).flatMap fun v => v.writes.map (·.2) := by
    intro d
    apply filterMap_writes
    intro v hmem
    obtain rfl := List.mem_singleton.1 hmem
    exact hv.writes_own
  unfold World.serve
  dsimp only
  rw [hobs]
  intro d
  dsimp only
  rw [hreplies, visitsOf_visit]
  by_cases hdc : d = c
  · subst hdc
    have hd := hall d
    rw [hc2s w.server.locals i] at hd
    rw [if_pos hv.conn_eq, Function.update_self, List.flatMap_singleton]
    exact hd.pass hv halive ht
  · have hconn : ¬(visit w.server.locals i c inp).2.conn = d := by
      rw [hv.conn_eq]
      exact Ne.symm hdc
    rw [if_neg hconn, List.flatMap_nil, List.append_nil, Function.update_of_ne hdc]
    refine (hall d).quiet ?_ fun _ => halive
    rw [visitsOf_visit, if_neg hconn]

theorem AllLinked.slot (hall : AllLinked prog h w) (error : Bool) (ans : DrmAnswers) :
    AllLinked prog (h ++ (w.slot error ans).2) (w.slot error ans).1 := by
  unfold World.slot
  cases hreading : w.server.reading with
  | none => exact hall.quiet (visits_slot_none hreading _)
  | some c =>
      -- a pass that reads nothing leaves the queue as it is
      have hnothing : ∀ (r : ReadResult) (peerOpen : Bool), (∀ rx, r ≠ .data rx) →
          AllLinked prog (h ++ (w.serve (.slot ⟨r, ans, peerOpen⟩)).2) (w.serve (.slot ⟨r, ans, peerOpen⟩)).1 := by
        intro r peerOpen hr
        have hread : ∀ srv i, w.c2s c = (visit srv i c ⟨r, ans, peerOpen⟩).2.received.toList ++ w.c2s c := by
          intro srv i
          rw [received_visit]
          cases r with
          | data rx => exact absurd rfl (hr rx)
          | error => rfl
          | eof => rfl
        have hpass := hall.pass hreading ⟨r, ans, peerOpen⟩ hread
        rwa [Function.update_eq_self] at hpass
      dsimp only
      by_cases herror : error
      · rw [if_pos herror]
        exact hnothing _ _ (by simp)
      · rw [if_neg herror]
        cases hc2s : w.c2s c with
        | cons rx rest =>
            refine hall.pass hreading _ fun srv i => ?_
            rw [received_visit, hc2s]
            rfl
        | nil =>
            dsimp only
            by_cases hopen : (w.client c).pc ≠ .gone
            · rw [if_pos hopen, List.append_nil]
              exact hall
            · rw [if_neg hopen]
              exact hnothing _ _ (by simp)

/-- **The step lemma of the system.** -/
theorem AllLinked.step (hall : AllLinked prog h w) (a : Action) :
    AllLinked prog (h ++ (w.step prog a).2) (w.step prog a).1 := by
  cases a with
  | connect c =>
      unfold World.step
      dsimp only
      split_ifs with hpc
      · rw [List.append_nil]
        refine hall.send c ((hall c).write ?_ (by simp) rfl)
        exact phase_connect (hall c).phase hpc
      · rwa [List.append_nil]
  | auth c ok =>
      unfold World.step
      dsimp only
      split_ifs with hpc
      · rw [List.append_nil]
        obtain ⟨hsent, hread⟩ :=
          @write_trace { w.client c with command := .auth } (prog c).first ok
        exact hall.send c ((hall c).write (phase_auth (hall c).phase hpc ok) hsent hread)
      · rwa [List.append_nil]
  | recv c ok =>
      unfold World.step
      dsimp only
      split_ifs with hpc
      · cases hs2c : w.s2c c with
        | nil => rwa [List.append_nil]
        | cons rx rest =>
            rw [List.append_nil]
            exact hall.recv hpc hs2c ok
      · rwa [List.append_nil]
  | stop c ok =>
      unfold World.step
      dsimp only
      split_ifs with hpc
      · rw [List.append_nil]
        obtain ⟨hsent, hread⟩ :=
          @write_trace { w.client c with command := (prog c).stop.command } (prog c).stop ok
        exact hall.send c ((hall c).write (phase_stop (hall c).phase hpc ok) hsent hread)
      · rwa [List.append_nil]
  | quit c =>
      unfold World.step
      dsimp only
      split_ifs with hpc
      · rwa [List.append_nil]
      · rw [List.append_nil]
        exact hall.send c ((hall c).write (phase_quit (hall c).phase) (by simp [Client.quit]) rfl)
  | poll r => exact hall.quiet (visits_step fun inp => by simp)
  | accept r =>
      cases r with
      | none => exact hall.quiet (visits_step fun inp => by simp)
      | some c =>
          unfold World.step
          dsimp only
          split_ifs with hpc
          · rwa [List.append_nil]
          · exact hall.quiet (visits_step fun inp => by simp)
  | slot error ans => exact hall.slot error ans
  | sigint => exact hall.quiet (visits_step fun inp => by simp)

end World

theorem allLinked_boot (prog : Conn → Program) (g : Stack) : AllLinked prog [] (World.boot g) :=
  fun c => linked_boot (prog c) c g

/-- **Every run of the clients and the server keeps all the links.** -/
theorem run_allLinked (prog : Conn → Program) (g : Stack) (as : List Action) :
    AllLinked prog ((system prog).run (World.boot g) as).2 ((system prog).run (World.boot g) as).1 :=
  Machine.run_inv (m := system prog) (I := AllLinked prog) (fun _ _ a hall => hall.step a) as [] _
    (allLinked_boot prog g)

/-- What a client may rely on. `h` is what the server showed, `trace` what the client did. -/
structure InLockstep (p : Program) (c : Conn) (h : List Obs) (trace : List Event) : Prop where
  /-- the requests are those of the program, in order -/
  requests : sentIn trace <+: p.requests
  commands : (sentIn trace).map Request.command <+: p.commands
  /-- the server answers them in order, and at most one is not answered -/
  answered : (exchanges c h).map (·.1) <+: (sentIn trace).map Request.received
  unanswered : (sentIn trace).length ≤ (exchanges c h).length + 1
  /-- the `k`-th response is the reply to the `k`-th request -/
  response : ∀ (k : Nat) (m : List Byte), (readIn trace)[k]? = some m →
    ∃ (r : Request) (value : Status), (sentIn trace)[k]? = some r ∧
      (exchanges c h)[k]? = some (r.received, m) ∧ m = reply r.magic value
  draws : DrawsInTime p trace

theorem commands_requests (p : Program) : p.requests.map Request.command = p.commands := by
  cases p <;> rfl

theorem Linked.answered {p : Program} {c : Conn} {h : List Obs} {s : Server} {cl : Client}
    {c2s : List RxBytes} {s2c : List (List Byte)} (hl : Linked p c h s cl c2s s2c) :
    (exchanges c h).map (·.1) <+: (sentIn cl.trace).map Request.received := by
  rw [hl.sent]
  exact hl.served.trans (List.prefix_append _ _)

/-- A response read is the reply of an exchange, whose request was sent. -/
theorem Linked.response {p : Program} {c : Conn} {h : List Obs} {s : Server} {cl : Client}
    {c2s : List RxBytes} {s2c : List (List Byte)} (hl : Linked p c h s cl c2s s2c) {k : Nat} {m : List Byte}
    (hm : (readIn cl.trace)[k]? = some m) : ∃ (r : Request) (value : Status), (sentIn cl.trace)[k]? = some r ∧
      (exchanges c h)[k]? = some (r.received, m) ∧ m = reply r.magic value := by
  have hreply : ((exchanges c h).map (·.2))[k]? = some m := by
    rw [hl.read, List.getElem?_append_left (List.getElem?_eq_some_iff.1 hm).1, hm]
  rw [List.getElem?_map, Option.map_eq_some_iff] at hreply
  obtain ⟨⟨rx, m'⟩, he, rfl⟩ := hreply
  have hrequest : ((exchanges c h).map (·.1))[k]? = some rx := by
    rw [List.getElem?_map, he]
    rfl
  have hrx : ((sentIn cl.trace).map Request.received)[k]? = some rx := by
    obtain ⟨rest, hrest⟩ := hl.answered
    rw [← hrest, List.getElem?_append_left (List.getElem?_eq_some_iff.1 hrequest).1, hrequest]
  rw [List.getElem?_map, Option.map_eq_some_iff] at hrx
  obtain ⟨r, hr, rfl⟩ := hrx
  obtain ⟨value, hvalue⟩ := hl.magic _ (List.mem_of_getElem? he) r rfl
  exact ⟨r, value, hr, he, hvalue⟩

/-- **Clients and server in lockstep**, in every run and for every client. -/
theorem lockstep (prog : Conn → Program) (g : Stack) (as : List Action) (c : Conn) :
    InLockstep (prog c) c ((system prog).run (World.boot g) as).2
      (((system prog).run (World.boot g) as).1.client c).trace := by
  have hl := run_allLinked prog g as c
  generalize (system prog).run (World.boot g) as = r at hl
  refine ⟨hl.phase.sent_prefix, ?_, hl.answered, ?_, fun k m hm => hl.response hm, hl.phase.draws⟩
  · rw [← commands_requests]
    exact hl.phase.sent_prefix.map _
  · have hread := congrArg List.length hl.read
    simp only [List.length_map, List.length_append] at hread
    have hcounts := hl.phase.counts.2
    omega

end SysSnippets.Drm
