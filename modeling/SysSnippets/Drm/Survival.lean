import SysSnippets.Drm.Commands

/-!
# What a client can do to `drm_server`

* `Survives g is` : in the run of `is` no pass ends the process, `main` leaves its loop only for a
  signal or a failed `poll` or `accept`, and a `saved_crtc` that is dereferenced was stored by a CMD_CRTC
  of the same connection;
* `Polite pre v` : what a request has to be for that, in terms of the input and the history;
* `server_survives_iff` : a run survives iff its requests are polite.
-/

namespace SysSnippets.Drm
open SysSnippets.Lib

/-- The string the pass read. -/
def Visit.text (v : Visit) : Option (List Byte) :=
  match v.input.read with
  | .data rx => rxText rx
  | .error | .eof => none

/-- The command a pass takes from the text it read. -/
def Visit.command (v : Visit) (text : List Byte) : Option Command :=
  Command.ofCode (intItem (sscanf fmtPair text) 1 v.held.2)

/-- The pass dereferences `saved_crtc`. -/
def Visit.Derefs (v : Visit) : Prop := ∃ text, v.text = some text ∧ v.command text = some .crtcStop

/-- `saved_crtc` of the slot is an object that a CMD_CRTC of the connection stored. -/
def Visit.Owns (pre : List Obs) (v : Visit) : Prop :=
  ∃ crtc, v.before.savedCrtc = .obj crtc ∧
    ∃ w ∈ visitsOf v.conn pre, savedBy w.calls = some (some crtc)

/-- The server goes on serving, whatever the clients do. -/
structure Survives (g : Stack) (is : List Input) : Prop where
  alive : ∀ f, (server.run (boot g) is).1.pc ≠ .crashed f
  loops : ∀ e, (server.run (boot g) is).1.pc = .exited e →
    .sigint ∈ is ∨ .poll none ∈ is ∨ .accept none ∈ is
  owns : ∀ pre v post, (server.run (boot g) is).2 = pre ++ .visit v :: post → v.Derefs → v.Owns pre

/-- A request is a string, a mode name in it fits, CMD_CRTC_STOP comes while `saved_crtc` is one that a
CMD_CRTC of the connection stored, and the client waits for the reply. -/
def Polite (pre : List Obs) : Obs → Prop
  | .accepted _ _ => True
  | .visit v => (∃ rx, v.input.read = .data rx) →
      (∃ text, v.text = some text ∧ (v.command text = some .crtc → NameFits text) ∧
        (v.command text = some .crtcStop →
          ∃ crtc, savedOf (visitsOf v.conn pre) = some (some crtc))) ∧
      v.input.peerOpen = true

/-! ## One pass -/

theorem mem_of_savedOf {vs : List Visit} {ret : Option Crtc} (h : savedOf vs = some ret) :
    ∃ w ∈ vs, savedBy w.calls = some ret := by
  have hmem := List.mem_of_getLast? h
  simpa only [List.mem_filterMap] using hmem

theorem savedOf_of_mem {vs : List Visit} {w : Visit} {ret : Option Crtc} (hw : w ∈ vs)
    (h : savedBy w.calls = some ret) : ∃ ret', savedOf vs = some ret' := by
  cases hs : savedOf vs with
  | some ret' => exact ⟨ret', rfl⟩
  | none =>
      rw [savedOf, List.getLast?_eq_none_iff, List.filterMap_eq_nil_iff] at hs
      rw [hs w hw] at h
      cases h

section Pass
variable {srv : Locals} {pre : List Obs} {v : Visit}

theorem VisitOf.held_eq {i : Slot} {c : Conn} {inp : SlotIn} (h : VisitOf srv i c inp v) :
    v.held = (srv.magic, srv.command) := by
  cases h <;> rfl

/-- While the entry holds what the connection stored, owning `saved_crtc` is a matter of history. -/
theorem owns_iff (hs : SavedIn (visitsOf v.conn pre) v.before) :
    v.Owns pre ↔ ∃ crtc, savedOf (visitsOf v.conn pre) = some (some crtc) := by
  constructor
  · rintro ⟨crtc, hbefore, w, hw, hby⟩
    obtain ⟨ret, hret⟩ := savedOf_of_mem hw hby
    have hptr := hs ret hret
    rw [hbefore] at hptr
    cases ret with
    | none => cases hptr
    | some c => exact ⟨c, hret⟩
  · rintro ⟨crtc, hcrtc⟩
    obtain ⟨w, hw, hby⟩ := mem_of_savedOf hcrtc
    exact ⟨crtc, hs (some crtc) hcrtc, w, hw, hby⟩

/-- A pass that does not fault handled its request. -/
theorem fault_none_iff (hv : VisitOf srv v.slot v.conn v.input v) :
    v.fault = none ↔ ((∃ rx, v.input.read = .data rx) →
      (∃ text, v.text = some text ∧ Defined (scanPair text srv).command text v.before) ∧
        v.input.peerOpen = true) := by
  generalize hi : v.slot = i, hc : v.conn = c, hinp : v.input = inp at *
  have htext : ∀ rx, inp.read = .data rx → v.text = rxText rx := by
    intro rx hrx
    simp only [Visit.text, hinp, hrx]
  have hbefore := hv.before_eq
  cases hv with
  | gone hread =>
      refine ⟨fun _ ⟨rx, hrx⟩ => ?_, fun _ => rfl⟩
      rcases hread with hread | hread <;> rw [hread] at hrx <;> cases hrx
  | overread rx hread hnone =>
      refine ⟨fun h => (by cases h), fun h => ?_⟩
      obtain ⟨⟨text, ht, -⟩, -⟩ := h ⟨rx, hread⟩
      rw [htext rx hread, hnone] at ht
      cases ht
  | faulted rx text f hread ht hd =>
      refine ⟨fun h => (by cases h), fun h => ?_⟩
      obtain ⟨⟨text', ht', hdef⟩, -⟩ := h ⟨rx, hread⟩
      rw [htext rx hread, ht] at ht'
      obtain rfl := Option.some.inj ht'
      rw [hbefore] at hdef
      exact absurd hdef (dispatch_error hd)
  | unsent rx text out hread ht hd hpeer =>
      refine ⟨fun h => (by cases h), fun h => ?_⟩
      rw [(h ⟨rx, hread⟩).2] at hpeer
      cases hpeer
  | replied rx text out hread ht hd hpeer =>
      refine ⟨fun _ _ => ⟨⟨text, ?_, ?_⟩, hpeer⟩, fun _ => rfl⟩
      · rw [htext rx hread, ht]
      · rw [hbefore]
        exact dispatch_defined hd

/-- **One pass.** -/
theorem polite_iff (hv : VisitOf srv v.slot v.conn v.input v)
    (hs : SavedIn (visitsOf v.conn pre) (srv.info v.slot)) :
    Polite pre (.visit v) ↔ v.fault = none ∧ (v.Derefs → v.Owns pre) := by
  have hcommand : ∀ text, v.command text = Command.ofCode (scanPair text srv).command := by
    intro text
    rw [Visit.command, hv.held_eq]
    rfl
  rw [← hv.before_eq] at hs
  rw [fault_none_iff hv, owns_iff hs]
  constructor
  · intro hpolite
    refine ⟨fun hdata => ?_, fun ⟨text, htext, hstop⟩ => ?_⟩
    · obtain ⟨⟨text, htext, hname, hsaved⟩, hpeer⟩ := hpolite hdata
      refine ⟨⟨text, htext, fun hcmd => hname (by rw [hcommand, hcmd]), fun hcmd => ?_⟩, hpeer⟩
      obtain ⟨crtc, hcrtc⟩ := hsaved (by rw [hcommand, hcmd])
      exact ⟨crtc, hs (some crtc) hcrtc⟩
    · have hdata : ∃ rx, v.input.read = .data rx := by
        unfold Visit.text at htext
        cases hread : v.input.read with
        | data rx => exact ⟨rx, rfl⟩
        | error => simp [hread] at htext
        | eof => simp [hread] at htext
      obtain ⟨⟨text', htext', -, hsaved⟩, -⟩ := hpolite hdata
      rw [htext] at htext'
      obtain rfl := Option.some.inj htext'
      exact hsaved hstop
  · rintro ⟨hdefined, howns⟩ hdata
    obtain ⟨⟨text, htext, hdef⟩, hpeer⟩ := hdefined hdata
    refine ⟨⟨text, htext, fun hcmd => hdef.1 (by rw [← hcommand, hcmd]), fun hcmd => ?_⟩, hpeer⟩
    exact howns ⟨text, htext, hcmd⟩

end Pass

/-! ## Runs -/

/-- The process has ended in a fault iff one of the passes faulted. -/
theorem run_alive_iff (g : Stack) (is : List Input) :
    (∀ f, (server.run (boot g) is).1.pc ≠ .crashed f) ↔
      ∀ v ∈ visits (server.run (boot g) is).2, v.fault = none := by
  refine Machine.run_inv (m := server)
    (I := fun h s => (∀ f, s.pc ≠ .crashed f) ↔ ∀ v ∈ visits h, v.fault = none) ?_ is [] (boot g) ?_
  · intro h s k hinv
    have hm := step_move s k
    rw [server_step]
    generalize s.step k = r at hm
    cases hm with
    | silent t _ _ _ hpc =>
        rw [List.append_nil, ← hinv]
        exact forall_congr' fun f => not_congr (hpc f)
    | accepted t c hlive _ _ _ hpc =>
        simp only [visits_append, visits_accepted, List.append_nil]
        exact iff_of_true hpc (hinv.1 hlive)
    | visited t i c inp hlive _ _ _ hpc =>
        simp only [visits_append, visits_visit, List.mem_append, List.mem_singleton, or_imp,
          forall_and, forall_eq]
        have hearlier := hinv.1 hlive
        constructor
        · intro h'
          refine ⟨hearlier, ?_⟩
          cases hfault : (visit s.locals i c inp).2.fault with
          | none => rfl
          | some f => exact absurd ((hpc f).2 hfault) (h' f)
        · rintro ⟨-, hnone⟩ f hf
          rw [hpc, hnone] at hf
          cases hf
  · exact iff_of_true (fun f => by simp [boot]) (by simp)

theorem visit_running (srv : Locals) (i : Slot) (c : Conn) (inp : SlotIn) :
    (visit srv i c inp).1.running = srv.running := by
  unfold visit
  cases inp.read with
  | error => rfl
  | eof => rfl
  | data rx =>
      cases htext : rxText rx with
      | none => simp [htext]
      | some text =>
          simp only [htext, serve, Visit.start]
          split
          · rfl
          · by_cases hpeer : inp.peerOpen <;> simp [hpeer, scanPair]

/-- No signal has come and the loop is not left. -/
def Server.Looping (s : Server) : Prop := s.locals.running = true ∧ ∀ e, s.pc ≠ .exited e

theorem looping_endIteration {s : Server} (h : s.locals.running = true) : s.endIteration.Looping := by
  refine ⟨h, fun e => ?_⟩
  unfold Server.endIteration
  rw [h]
  simp

theorem looping_scan {s : Server} (h : s.locals.running = true) (revents : Slot → Revents) (rc : Int)
    (i : Slot) (inp : SlotIn) : (s.scan revents rc i inp).1.Looping := by
  unfold Server.scan
  cases s.locals.fds i with
  | none => exact ⟨h, by simp⟩
  | some c =>
      have hv : (visit s.locals i c inp).1.running = true := by rw [visit_running, h]
      dsimp only
      by_cases hready : (revents i).readable
      · rw [if_pos hready]
        cases (visit s.locals i c inp).2.fault with
        | some f => exact ⟨hv, by simp⟩
        | none =>
            dsimp only
            by_cases hclosed : (visit s.locals i c inp).2.closed
            · rw [if_pos hclosed]
              exact ⟨hv, by simp⟩
            · rw [if_neg hclosed]
              unfold Server.next
              split_ifs
              · exact looping_endIteration hv
              · exact ⟨hv, by simp⟩
      · rw [if_neg hready]
        exact ⟨h, by simp⟩

/-- `main` goes on unless a signal comes or `poll` or `accept` fails. -/
theorem looping_step {s : Server} (h : s.Looping) {k : Input} (hsigint : k ≠ .sigint)
    (hpoll : k ≠ .poll none) (haccept : k ≠ .accept none) : (s.step k).1.Looping := by
  cases k with
  | sigint => exact absurd rfl hsigint
  | poll r =>
      cases r with
      | none => exact absurd rfl hpoll
      | some p =>
          unfold Server.step
          cases hpc : s.pc with
          | poll =>
              dsimp only [Server.polled]
              split_ifs
              · exact looping_endIteration h.1
              · exact ⟨h.1, by simp⟩
          | _ => exact h
  | accept r =>
      cases r with
      | none => exact absurd rfl haccept
      | some c =>
          unfold Server.step
          cases hpc : s.pc with
          | listen revents listen rc =>
              have hstore : (s.locals.store c).running = true := by
                unfold Locals.store
                split <;> exact h.1
              dsimp only [Server.accept]
              split_ifs
              · exact h
              · exact looping_endIteration hstore
              · exact ⟨hstore, by simp⟩
              · exact ⟨h.1, by simp⟩
          | _ => exact h
  | slot inp =>
      unfold Server.step
      cases hpc : s.pc with
      | scan revents rc i =>
          dsimp only
          split_ifs with hi
          · exact looping_scan h.1 revents rc ⟨i, hi⟩ inp
          · exact looping_endIteration h.1
      | _ => exact h

theorem run_looping {is : List Input} (hsigint : .sigint ∉ is) (hpoll : .poll none ∉ is)
    (haccept : .accept none ∉ is) {s : Server} (h : s.Looping) : (server.run s is).1.Looping := by
  induction is generalizing s with
  | nil => exact h
  | cons k is ih =>
      simp only [List.mem_cons, not_or] at hsigint hpoll haccept
      have hstep := looping_step h (Ne.symm hsigint.1) (Ne.symm hpoll.1) (Ne.symm haccept.1)
      exact ih hsigint.2 hpoll.2 haccept.2 hstep

theorem run_loops (g : Stack) (is : List Input) (e : Bool)
    (h : (server.run (boot g) is).1.pc = .exited e) :
    .sigint ∈ is ∨ .poll none ∈ is ∨ .accept none ∈ is := by
  by_contra hnone
  simp only [not_or] at hnone
  have hboot : (boot g).Looping := ⟨rfl, fun e => by simp [boot]⟩
  exact (run_looping hnone.1 hnone.2.1 hnone.2.2 hboot).2 e h

/-- **A client cannot take the server down, as long as every request is polite**: a run survives
exactly when all of its requests are. -/
theorem server_survives_iff (g : Stack) (is : List Input) :
    Survives g is ↔ Every Polite (server.run (boot g) is).2 := by
  constructor
  · intro h pre o post hsplit
    cases o with
    | accepted c i => trivial
    | visit v =>
        obtain ⟨srv, hv, hs⟩ := run_savedOf g is hsplit
        rw [polite_iff hv hs]
        refine ⟨(run_alive_iff g is).1 h.alive v ?_, h.owns pre v post hsplit⟩
        rw [hsplit, visits_append]
        exact List.mem_append_right _ (by simp [visits])
  · intro h
    refine ⟨(run_alive_iff g is).2 fun v hv => ?_, run_loops g is, fun pre v post hsplit => ?_⟩
    · obtain ⟨pre, post, hsplit⟩ := split_of_mem_visits hv
      obtain ⟨srv, hv, hs⟩ := run_savedOf g is hsplit
      exact ((polite_iff hv hs).1 (h pre _ post hsplit)).1
    · obtain ⟨srv, hv, hs⟩ := run_savedOf g is hsplit
      exact ((polite_iff hv hs).1 (h pre _ post hsplit)).2

/-- A client sends CMD_AUTH and is gone before its reply is written. -/
theorem not_survives_auth_gone :
    ¬ Survives .zero
      (connect 0 ++ request .first { SlotIn.ofText (pairText 7 0) .zero with peerOpen := false }) :=
  fun h => h.alive .sigpipe rfl

end SysSnippets.Drm
