import SysSnippets.Drm.Commands
import Mathlib.Data.List.Induction

/-!
# One truthful reply per request

* `Iteration s p js` : an iteration of the poll loop that `main` starts in `s`, with the report `p` of
  `poll`, and that is over after the inputs `js`;
* `Serving`, `serving_step` : what is left to read at each point of an iteration;
* `Wellformed`, `Answered` : a request in the format the clients emit, and its reply;
* `server_replies` : every iteration reads the ready slots, each once, and every well-formed request of
  every run gets one reply that tells whether it succeeded.
-/

namespace SysSnippets.Drm
open SysSnippets.Lib

/-! ## An iteration reads the ready slots -/

/-- `poll` has returned and the loop condition is not reached yet. -/
def Pc.Busy : Pc → Prop
  | .listen _ _ _ | .scan _ _ _ => True
  | .poll | .exited _ | .crashed _ => False

/-- The loop condition was reached: the next `poll`, or the end since `running` is false. -/
def Pc.Over : Pc → Prop
  | .poll => True
  | .exited error => error = false
  | _ => False

/-- The iteration that `poll` begins with the report `p` and that is over after the inputs `js`. -/
structure Iteration (s : Server) (p : PollReturn) (js : List Input) : Prop where
  start : s.pc = .poll
  busy : ∀ pre k post, js = pre ++ k :: post →
    (server.run s (.poll (some p) :: pre)).1.pc.Busy
  ended : (server.run s (.poll (some p) :: js)).1.pc.Over

/-- The slots reported with POLLIN or POLLERR. -/
def ready (p : PollReturn) (fds : Slot → Option Conn) : List Slot :=
  (List.finRange MAXCLIENTS).filter fun i => (p.stored fds i).readable

/-- The ready slots before slot `i`. -/
def readyBefore (p : PollReturn) (fds : Slot → Option Conn) (i : Nat) : List Slot :=
  ((List.finRange MAXCLIENTS).take i).filter fun i => (p.stored fds i).readable

/-- The entries with events from slot `i` on. -/
def pending (p : PollReturn) (fds : Slot → Option Conn) (i : Nat) : Nat :=
  ((List.finRange MAXCLIENTS).drop i).countP fun i => (p.stored fds i).any

section Ready
variable {p : PollReturn} {fds : Slot → Option Conn}

variable (p fds) in
theorem readyBefore_zero : readyBefore p fds 0 = [] := rfl

theorem readyBefore_succ (i : Slot) : readyBefore p fds (i + 1) =
    readyBefore p fds i ++ if (p.stored fds i).readable then [i] else [] := by
  have hi : (i : Nat) < (List.finRange MAXCLIENTS).length := by simp
  have htake : (List.finRange MAXCLIENTS).take (i + 1) = (List.finRange MAXCLIENTS).take i ++ [i] := by
    rw [List.take_succ_eq_append_getElem hi, List.getElem_finRange]
    rfl
  rw [readyBefore, htake, List.filter_append, List.filter_cons, List.filter_nil]
  rfl

theorem readyBefore_of_le {i : Nat} (h : MAXCLIENTS ≤ i) : readyBefore p fds i = ready p fds := by
  rw [readyBefore, List.take_of_length_le (by simpa using h)]
  rfl

theorem readyBefore_isPrefix (i : Nat) : readyBefore p fds i <+: ready p fds :=
  (List.take_prefix i _).filter _

variable (p fds) in
theorem pending_eq (i : Slot) : pending p fds i =
    pending p fds (i + 1) + if (p.stored fds i).any then 1 else 0 := by
  have hi : (i : Nat) < (List.finRange MAXCLIENTS).length := by simp
  rw [pending, List.drop_eq_getElem_cons hi, List.countP_cons, List.getElem_finRange]
  rfl

theorem any_of_readable {r : Revents} (h : r.readable = true) : r.any = true := by
  simp only [Revents.readable, Revents.any, Bool.or_eq_true] at h ⊢
  exact Or.inl h

/-- Nothing is left to read once no entry with events is left. -/
theorem readyBefore_of_pending {i : Nat} (h : pending p fds i = 0) :
    readyBefore p fds i = ready p fds := by
  have hsplit : ready p fds = readyBefore p fds i ++
      ((List.finRange MAXCLIENTS).drop i).filter fun i => (p.stored fds i).readable := by
    rw [readyBefore, ← List.filter_append, List.take_append_drop]
    rfl
  rw [hsplit, List.filter_eq_nil_iff.2, List.append_nil]
  intro j hj hready
  exact List.countP_eq_zero.1 h j hj (any_of_readable hready)

/-- A slot reported as readable held a connection when `poll` was called. -/
theorem ne_none_of_readable {i : Slot} (h : (p.stored fds i).readable = true) : fds i ≠ none := by
  intro hnone
  simp [PollReturn.stored, hnone, Revents.none, Revents.readable] at h

theorem count_eq : p.count fds = pending p fds 0 + (if p.listen.any then 1 else 0) +
    (if p.extra then 1 else 0) := rfl

end Ready

/-- What holds inside an iteration that has read `slots`. -/
inductive Serving (p : PollReturn) (fds : Slot → Option Conn) (t : Server) : List Slot → Prop
  /-- the listening socket is next -/
  | listen (hpc : t.pc = .listen (p.stored fds) p.listen (p.count fds)) (hfds : t.locals.fds = fds) :
      Serving p fds t []
  /-- slot `i` is next: the count covers all that is pending, and what is ready is still open -/
  | scan (rc : Int) (i : Nat) (hpc : t.pc = .scan (p.stored fds) rc i) (hrc : pending p fds i ≤ rc)
      (hfds : ∀ j : Slot, i ≤ j → fds j ≠ none → t.locals.fds j = fds j) :
      Serving p fds t (readyBefore p fds i)
  | ended (hpc : t.pc.Over) : Serving p fds t (ready p fds)
  /-- left by an error -/
  | left (slots : List Slot) (hpc : ¬ t.pc.Busy ∧ ¬ t.pc.Over) (hslots : slots <+: ready p fds) :
      Serving p fds t slots

theorem Server.endIteration_over (s : Server) : s.endIteration.pc.Over := by
  unfold Server.endIteration
  dsimp only
  split_ifs
  · trivial
  · exact rfl

section Serving
variable {p : PollReturn} {fds : Slot → Option Conn} {t : Server} {slots : List Slot}

/-- Storing a new connection leaves the occupied slots alone. -/
theorem store_fds_of_ne {srv : Locals} {i : Slot} (c : Conn) (h : srv.fds i ≠ none) :
    (srv.store c).fds i = srv.fds i := by
  unfold Locals.store
  cases hfree : freeSlot srv.fds with
  | none => rfl
  | some j =>
      have hij : i ≠ j := by
        rintro rfl
        exact h (fds_freeSlot hfree)
      exact Function.update_of_ne hij _ _

/-- After `poll` returned. -/
theorem serving_polled (hfds : t.locals.fds = fds) : Serving p fds (t.polled p) [] := by
  unfold Server.polled
  rw [hfds]
  dsimp only
  split_ifs with hrc
  · have hpending : pending p fds 0 = 0 := by
      rw [count_eq] at hrc
      split_ifs at hrc <;> omega
    rw [← readyBefore_zero p fds, readyBefore_of_pending hpending]
    exact .ended (Server.endIteration_over t)
  · exact .listen rfl hfds

theorem visits_accept (revents : Slot → Revents) (rc : Int) (c : Conn) :
    visits (t.accept revents rc c).2 = [] := by
  unfold Server.accept
  dsimp only
  split_ifs <;> rfl

/-- After `accept` returned a connection. -/
theorem serving_accept (hfds : t.locals.fds = fds) (hlisten : p.listen.pollin = true) (c : Conn) :
    Serving p fds (t.accept (p.stored fds) (p.count fds) c).1 [] := by
  have hrc : (pending p fds 0 : Int) ≤ p.count fds - 1 := by
    have hany : p.listen.any = true := any_of_readable (by simp [Revents.readable, hlisten])
    rw [count_eq, if_pos hany]
    split_ifs <;> omega
  unfold Server.accept
  dsimp only
  split_ifs with hzero
  · have hpending : pending p fds 0 = 0 := by omega
    rw [← readyBefore_zero p fds, readyBefore_of_pending hpending]
    exact .ended (Server.endIteration_over _)
  · refine .scan _ 0 rfl hrc fun j _ hj => ?_
    rw [← hfds] at hj ⊢
    exact store_fds_of_ne c hj

/-- The loop over the clients takes slot `i`, which is ready: it still holds the connection `poll` looked at, and it
is read. -/
theorem serving_read {rc : Int} {i : Slot} (hrc : pending p fds i ≤ rc)
    (hfds : ∀ j : Slot, (i : Nat) ≤ j → fds j ≠ none → t.locals.fds j = fds j)
    (hready : (p.stored fds i).readable) (inp : SlotIn) :
    Serving p fds (t.scan (p.stored fds) rc i inp).1
      (readyBefore p fds i ++ (visits (t.scan (p.stored fds) rc i inp).2).map (·.slot)) := by
  have hpending := pending_eq p fds i
  rw [if_pos (any_of_readable hready)] at hpending
  have hopen := ne_none_of_readable hready
  obtain ⟨c, hc⟩ := Option.ne_none_iff_exists'.1 hopen
  have hconn : t.locals.fds i = some c := by rw [hfds i le_rfl hopen, hc]
  have hslot : (visit t.locals i c inp).2.slot = i := (visitOf_visit t.locals i c inp).slot_eq
  have hread : readyBefore p fds i ++ [i] = readyBefore p fds (i + 1) := by
    rw [readyBefore_succ, if_pos hready]
  have hafter : ∀ j : Slot, (i : Nat) + 1 ≤ j → fds j ≠ none → (visit t.locals i c inp).1.fds j = fds j := by
    intro j hj hne
    have hji : j ≠ i := by
      rintro rfl
      omega
    rw [visit_fds]
    split_ifs
    · rw [Function.update_of_ne hji]
      exact hfds j (by omega) hne
    · exact hfds j (by omega) hne
  unfold Server.scan
  rw [hconn]
  dsimp only
  rw [if_pos hready]
  cases hfault : (visit t.locals i c inp).2.fault with
  | some f =>
      simp only [visits_visit, List.map_cons, List.map_nil, hslot, hread]
      exact .left _ ⟨id, id⟩ (readyBefore_isPrefix _)
  | none =>
      dsimp only
      by_cases hclosed : (visit t.locals i c inp).2.closed
      · rw [if_pos hclosed]
        simp only [visits_visit, List.map_cons, List.map_nil, hslot, hread]
        exact .scan rc (i + 1) rfl (by omega) hafter
      · rw [if_neg hclosed]
        simp only [visits_visit, List.map_cons, List.map_nil, hslot, hread]
        unfold Server.next
        split_ifs with hzero
        · rw [readyBefore_of_pending (by omega)]
          exact .ended (Server.endIteration_over _)
        · exact .scan (rc - 1) (i + 1) rfl (by omega) hafter

/-- The loop over the clients takes slot `i`, which is not ready: it is passed over. -/
theorem serving_skip {rc : Int} {i : Slot} (hrc : pending p fds i ≤ rc)
    (hfds : ∀ j : Slot, (i : Nat) ≤ j → fds j ≠ none → t.locals.fds j = fds j)
    (hready : ¬ (p.stored fds i).readable) (inp : SlotIn) :
    Serving p fds (t.scan (p.stored fds) rc i inp).1
      (readyBefore p fds i ++ (visits (t.scan (p.stored fds) rc i inp).2).map (·.slot)) := by
  have hlater : ∀ j : Slot, (i : Nat) + 1 ≤ j → fds j ≠ none → t.locals.fds j = fds j :=
    fun j hj => hfds j (by omega)
  have hskip : readyBefore p fds i ++ [] = readyBefore p fds (i + 1) := by
    rw [readyBefore_succ, if_neg hready]
  have hnext : (pending p fds (i + 1) : Int) ≤ rc := by
    rw [pending_eq p fds i] at hrc
    omega
  unfold Server.scan
  cases t.locals.fds i with
  | none =>
      simp only [visits_nil, List.map_nil, hskip]
      exact .scan rc (i + 1) rfl hnext hlater
  | some c =>
      dsimp only
      rw [if_neg hready]
      simp only [visits_nil, List.map_nil, hskip]
      exact .scan rc (i + 1) rfl hnext hlater

/-- A step inside an iteration. -/
theorem serving_step (hbusy : t.pc.Busy) (h : Serving p fds t slots) (k : Input) :
    Serving p fds (t.step k).1 (slots ++ (visits (t.step k).2).map (·.slot)) := by
  cases h with
  | listen hpc hfds =>
      unfold Server.step
      rw [hpc]
      cases k with
      | sigint => exact .listen rfl hfds
      | poll r => exact .listen hpc hfds
      | slot inp => exact .listen hpc hfds
      | accept r =>
          dsimp only
          split_ifs with hlisten
          · cases r with
            | none => exact .left [] ⟨id, by simp [Pc.Over]⟩ List.nil_prefix
            | some c =>
                dsimp only
                split_ifs
                · exact .listen hpc hfds
                · rw [visits_accept]
                  exact serving_accept hfds hlisten c
          · refine .scan _ 0 rfl ?_ fun j _ _ => by rw [← hfds]
            rw [count_eq]
            split_ifs <;> omega
  | scan rc i hpc hrc hfds =>
      unfold Server.step
      rw [hpc]
      cases k with
      | sigint =>
          rw [visits_nil, List.map_nil, List.append_nil]
          exact .scan rc i rfl hrc hfds
      | poll r => simpa using Serving.scan rc i hpc hrc hfds
      | accept r => simpa using Serving.scan rc i hpc hrc hfds
      | slot inp =>
          dsimp only
          split_ifs with hi
          · by_cases hready : (p.stored fds ⟨i, hi⟩).readable
            · exact serving_read (i := ⟨i, hi⟩) hrc hfds hready inp
            · exact serving_skip (i := ⟨i, hi⟩) hrc hfds hready inp
          · rw [readyBefore_of_le (by omega), visits_nil, List.map_nil, List.append_nil]
            exact .ended (Server.endIteration_over t)
  | ended hpc =>
      revert hbusy hpc
      cases t.pc <;> simp [Pc.Busy, Pc.Over]
  | left slots hpc _ => exact absurd hbusy hpc.1

theorem serving_run {s : Server} (hs : s.pc = .poll) : ∀ js : List Input,
    (∀ pre k post, js = pre ++ k :: post → (server.run s (.poll (some p) :: pre)).1.pc.Busy) →
    Serving p s.locals.fds (server.run s (.poll (some p) :: js)).1
      ((visits (server.run s (.poll (some p) :: js)).2).map (·.slot)) := by
  intro js
  induction js using List.reverseRec with
  | nil =>
      intro _
      have hstep : s.step (.poll (some p)) = (s.polled p, []) := by
        unfold Server.step
        rw [hs]
      simpa [Machine.run_cons, hstep] using serving_polled (p := p) (t := s) rfl
  | append_singleton js k ih =>
      intro hbusy
      have hserving := ih fun pre k' post e => hbusy pre k' (post ++ [k]) (by simp [e])
      have hstep := serving_step (hbusy js k [] rfl) hserving k
      rw [← List.cons_append, Machine.run_append]
      simpa [Machine.run_cons] using hstep

/-- **An iteration reads the ready slots, each once and in order.** -/
theorem iteration_slots {s : Server} {js : List Input} (h : Iteration s p js) :
    (visits (server.run s (.poll (some p) :: js)).2).map (·.slot) = ready p s.locals.fds := by
  have hover := h.ended
  have hserving := serving_run h.start js h.busy
  generalize (visits (server.run s (.poll (some p) :: js)).2).map (·.slot) = slots at hserving
  cases hserving with
  | listen hpc _ => simp [hpc, Pc.Over] at hover
  | scan rc i hpc _ _ => simp [hpc, Pc.Over] at hover
  | ended _ => rfl
  | left _ hpc _ => exact absurd hover hpc.2

end Serving

/-! ## Well-formed requests are answered -/

/-- The text of a request with magic `magic` and number `command` that carries all its fields, with a
mode name that fits. -/
structure Wellformed (text : List Byte) (magic command : U32) : Prop where
  pair : sscanf fmtPair text = [.int magic, .int command]
  crtc : Command.ofCode command = some .crtc → ∃ a b crtc conn fb w,
    sscanf fmtCrtc text = [.int a, .int b, .int crtc, .int conn, .int fb, .str w] ∧
      w.length < MODE_NAME_LEN
  plane : Command.ofCode command = some .plane → ∃ a b crtc plane fb w h x y,
    sscanf fmtPlane text =
      [.int a, .int b, .int crtc, .int plane, .int fb, .int w, .int h, .int x, .int y]

/-- The pass `v` reads a well-formed request of a connected client; `vs` are the earlier passes of the
connection. CMD_CRTC_STOP comes while `saved_crtc` is one that a CMD_CRTC of the connection stored. -/
structure Requested (vs : List Visit) (v : Visit) (magic command : U32) : Prop where
  read : ∃ rx text, v.input.read = .data rx ∧ rxText rx = some text ∧ Wellformed text magic command
  saved : Command.ofCode command = some .crtcStop → ∃ crtc, savedOf vs = some (some crtc)
  peer : v.input.peerOpen = true

/-- The pass wrote one reply: to the connection it read from, with the request's magic, and with
DRM_OK iff the command is one of the five and what was called for it succeeded. -/
def Answered (v : Visit) (magic command : U32) : Prop :=
  v.fault = none ∧ ∃ value, v.writes = [(v.conn, reply magic value)] ∧
    (value = .ok ↔ (Command.ofCode command).isSome ∧ ∀ c ∈ v.calls, c.Ok)

theorem scanPair_wellformed {text : List Byte} {magic command : U32}
    (h : Wellformed text magic command) (srv : Locals) :
    (scanPair text srv).magic = magic ∧ (scanPair text srv).command = command := by
  simp [scanPair, h.pair, intItem]

theorem defined_wellformed {text : List Byte} {magic command : U32} {info : ClientInfo}
    (h : Wellformed text magic command)
    (hsaved : Command.ofCode command = some .crtcStop → ∃ crtc, info.savedCrtc = .obj crtc) :
    Defined command text info := by
  refine ⟨fun hcmd w hw => ?_, hsaved⟩
  obtain ⟨a, b, crtc, conn, fb, w', hscan, hlen⟩ := h.crtc hcmd
  rw [hscan] at hw
  cases hw
  exact hlen

theorem answered_visit {srv : Locals} {vs : List Visit} {v : Visit} {magic command : U32}
    (hv : VisitOf srv v.slot v.conn v.input v) (hsaved : SavedIn vs (srv.info v.slot))
    (h : Requested vs v magic command) : Answered v magic command := by
  obtain ⟨rx, text, hread, htext, hwf⟩ := h.read
  obtain ⟨hmagic, hcommand⟩ := scanPair_wellformed hwf srv
  have hdef : Defined command text (srv.info v.slot) := by
    refine defined_wellformed hwf fun hcmd => ?_
    obtain ⟨crtc, hcrtc⟩ := h.saved hcmd
    exact ⟨crtc, hsaved (some crtc) hcrtc⟩
  have hpeer := h.peer
  generalize hi : v.slot = i, hc : v.conn = c, hinp : v.input = inp at *
  cases hv with
  | gone hgone => rcases hgone with hgone | hgone <;> rw [hgone] at hread <;> cases hread
  | overread rx' hrx hnone =>
      obtain rfl : rx' = rx := by simpa [hrx] using hread
      rw [hnone] at htext
      cases htext
  | faulted rx' text' f hrx htext' hd =>
      obtain rfl : rx' = rx := by simpa [hrx] using hread
      obtain rfl : text' = text := by simpa [htext'] using htext
      rw [hcommand] at hd
      exact absurd hdef (dispatch_error hd)
  | unsent rx' text' out hrx htext' hd hclosed =>
      rw [hclosed] at hpeer
      cases hpeer
  | replied rx' text' out hrx htext' hd _ =>
      obtain rfl : rx' = rx := by simpa [hrx] using hread
      obtain rfl : text' = text := by simpa [htext'] using htext
      rw [hcommand, hmagic] at hd
      have hlen : (rx'.bytes.length : Int) ≠ -1 := by omega
      obtain ⟨value, hsent, hvalue⟩ := dispatch_sent hlen hd
      refine ⟨rfl, value, ?_, hvalue⟩
      rw [hmagic, hsent]
      rfl

/-- **One truthful reply per request.** -/
theorem server_replies (g : Stack) (is : List Input) :
    (∀ p js, Iteration (server.run (boot g) is).1 p js →
      (visits (server.run (server.run (boot g) is).1 (.poll (some p) :: js)).2).map (·.slot) =
        ready p (server.run (boot g) is).1.locals.fds) ∧
    (∀ pre v post magic command, (server.run (boot g) is).2 = pre ++ .visit v :: post →
      Requested (visitsOf v.conn pre) v magic command → Answered v magic command) := by
  refine ⟨fun p js h => iteration_slots h, fun pre v post magic command hsplit h => ?_⟩
  obtain ⟨srv, hv, hsaved⟩ := run_savedOf g is hsplit
  exact answered_visit hv hsaved h

/-- The pass over the CMD_AUTH of a first client. -/
def authVisit : Visit :=
  (visit (server.run (boot .zero) (connect 0)).1.locals .first 0 (.ofText (pairText 7 0) .zero)).2

theorem iteration_auth :
    Iteration (server.run (boot .zero) (connect 0)).1 (.only .first)
      (scanTo .first (.ofText (pairText 7 0) .zero)) where
  start := rfl
  busy := by
    intro pre k post h
    rcases pre with _ | ⟨a, _ | ⟨b, pre⟩⟩
    · trivial
    · cases h
      trivial
    · simp [scanTo, Slot.first] at h
  ended := trivial

theorem requested_auth : Requested [] authVisit 7 0 where
  read := ⟨⟨pairText 7 0, by decide, by decide⟩, pairText 7 0, rfl, by decide, by decide,
    fun h => absurd h (by decide), fun h => absurd h (by decide)⟩
  saved := fun h => absurd h (by decide)
  peer := rfl

theorem server_replies_auth :
    (visits (server.run (server.run (boot .zero) (connect 0)).1
      (request .first (.ofText (pairText 7 0) .zero))).2).map (·.slot) =
        ready (.only .first) (server.run (boot .zero) (connect 0)).1.locals.fds ∧
      Answered authVisit 7 0 :=
  ⟨(server_replies .zero (connect 0)).1 _ _ iteration_auth,
    (server_replies .zero (connect 0 ++ request .first (.ofText (pairText 7 0) .zero))).2
      [.accepted 0 (some .first)] authVisit [] 7 0 rfl requested_auth⟩

end SysSnippets.Drm
