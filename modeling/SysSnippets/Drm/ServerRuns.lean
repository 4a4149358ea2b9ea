import SysSnippets.Drm.Server

/-!
# What a step of `drm_server` can do, and its runs

* `VisitOf`, `visitOf_visit` : the ways a pass over a ready slot can go;
* `Move`, `step_move` : the ways a step of `main` can go;
* `visitsOf c h` : the passes that served connection `c`;
* `Table`, `run_table` : in every run the table holds pairwise distinct connections, all accepted;
* `run_session` : the invariant rule for one connection. A relation between what a connection had
  served and the entry of its slot that holds for a fresh connection and any entry, and is kept by
  each pass, holds of every connection in every run.
-/

namespace SysSnippets.Drm
open SysSnippets.Lib

/-! ## One pass -/

section VisitOf
variable (srv : Locals) (i : Slot) (c : Conn) (inp : SlotIn)

/-- The reply `main` writes for a handled request. -/
def Handled.sent (out : Handled) (magic : U32) : List Byte :=
  if out.ret = -1 then reply magic .error else out.tx

/-- The ways a pass over slot `i` holding connection `c` can go. -/
inductive VisitOf : Visit → Prop
  | gone (hread : inp.read = .error ∨ inp.read = .eof) :
      VisitOf { Visit.start srv i c inp with closed := true }
  | overread (rx : RxBytes) (hread : inp.read = .data rx) (htext : rxText rx = none) :
      VisitOf { Visit.start srv i c inp with fault := some .rxOverread }
  | faulted (rx : RxBytes) (text : List Byte) (f : Fault) (hread : inp.read = .data rx)
      (htext : rxText rx = some text)
      (hd : dispatch (scanPair text srv).magic (scanPair text srv).command text rx.bytes.length
        (srv.info i) srv.txBuf inp.answers = .error f) :
      VisitOf { Visit.start srv i c inp with
        request := some ((scanPair text srv).magic, (scanPair text srv).command)
        fault := some f }
  | unsent (rx : RxBytes) (text : List Byte) (out : Handled) (hread : inp.read = .data rx)
      (htext : rxText rx = some text)
      (hd : dispatch (scanPair text srv).magic (scanPair text srv).command text rx.bytes.length
        (srv.info i) srv.txBuf inp.answers = .ok out)
      (hpeer : inp.peerOpen = false) :
      VisitOf { Visit.start srv i c inp with
        request := some ((scanPair text srv).magic, (scanPair text srv).command)
        after := out.info
        calls := out.calls
        fault := some .sigpipe }
  | replied (rx : RxBytes) (text : List Byte) (out : Handled) (hread : inp.read = .data rx)
      (htext : rxText rx = some text)
      (hd : dispatch (scanPair text srv).magic (scanPair text srv).command text rx.bytes.length
        (srv.info i) srv.txBuf inp.answers = .ok out)
      (hpeer : inp.peerOpen = true) :
      VisitOf { Visit.start srv i c inp with
        request := some ((scanPair text srv).magic, (scanPair text srv).command)
        after := out.info
        calls := out.calls
        writes := [(c, out.sent (scanPair text srv).magic)] }

theorem visitOf_visit : VisitOf srv i c inp (visit srv i c inp).2 := by
  unfold visit
  cases hread : inp.read with
  | error => exact .gone (Or.inl hread)
  | eof => exact .gone (Or.inr hread)
  | data rx =>
      cases htext : rxText rx with
      | none => simpa [htext] using VisitOf.overread rx hread htext
      | some text =>
          simp only [htext, serve]
          have hinfo : (scanPair text srv).info (Visit.start srv i c inp).slot = srv.info i := rfl
          have htx : (scanPair text srv).txBuf = srv.txBuf := rfl
          have hans : (Visit.start srv i c inp).input = inp := rfl
          simp only [hinfo, htx, hans]
          cases hd : dispatch (scanPair text srv).magic (scanPair text srv).command text
              rx.bytes.length (srv.info i) srv.txBuf inp.answers with
          | error f => exact .faulted rx text f hread htext hd
          | ok out =>
              cases hpeer : inp.peerOpen with
              | false => exact .unsent rx text out hread htext hd hpeer
              | true => exact .replied rx text out hread htext hd hpeer

variable {srv i c inp} {v : Visit}

theorem VisitOf.slot_eq (h : VisitOf srv i c inp v) : v.slot = i := by cases h <;> rfl

theorem VisitOf.conn_eq (h : VisitOf srv i c inp v) : v.conn = c := by cases h <;> rfl

theorem VisitOf.input_eq (h : VisitOf srv i c inp v) : v.input = inp := by cases h <;> rfl

/-- A pass writes to its own connection. -/
theorem VisitOf.writes_own (h : VisitOf srv i c inp v) : ∀ w ∈ v.writes, w.1 = v.conn := by
  intro w hw
  cases h with
  | replied rx text out _ _ _ _ =>
      rw [List.mem_singleton] at hw
      rw [hw]
      rfl
  | _ => cases hw

theorem VisitOf.before_eq (h : VisitOf srv i c inp v) : v.before = srv.info i := by cases h <;> rfl

/-- A pass changes the entry of its own slot only. -/
theorem visit_info :
    (visit srv i c inp).1.info = Function.update srv.info i (visit srv i c inp).2.after := by
  unfold visit
  cases inp.read with
  | error => simp [Visit.start]
  | eof => simp [Visit.start]
  | data rx =>
      cases htext : rxText rx with
      | none => simp [htext, Visit.start]
      | some text =>
          simp only [htext, serve, Visit.start]
          split
          · simp [scanPair]
          · by_cases hpeer : inp.peerOpen <;> simp [hpeer, scanPair]

/-- A pass frees its slot if it closed the connection, and leaves the other slots alone. -/
theorem visit_fds :
    (visit srv i c inp).1.fds =
      if (visit srv i c inp).2.closed then Function.update srv.fds i none else srv.fds := by
  unfold visit
  cases inp.read with
  | error => simp
  | eof => simp
  | data rx =>
      cases htext : rxText rx with
      | none => simp [htext, Visit.start]
      | some text =>
          simp only [htext, serve, Visit.start]
          split
          · simp [scanPair]
          · by_cases hpeer : inp.peerOpen <;> simp [hpeer, scanPair]

end VisitOf

/-! ## One step -/

/-- The ways a step of `main` can go. -/
inductive Move (s : Server) : Server × List Obs → Prop
  /-- nothing is shown; the table and the entries stay -/
  | silent (t : Server) (hfds : t.locals.fds = s.locals.fds) (hinfo : t.locals.info = s.locals.info)
      (haccepted : t.accepted = s.accepted)
      (hpc : ∀ f, t.pc = .crashed f ↔ s.pc = .crashed f) : Move s (t, [])
  /-- a connection is accepted -/
  | accepted (t : Server) (c : Conn) (hlive : ∀ f, s.pc ≠ .crashed f) (hfresh : c ∉ s.accepted)
      (hlocals : t.locals = s.locals.store c) (haccepted : t.accepted = c :: s.accepted)
      (hpc : ∀ f, t.pc ≠ .crashed f) : Move s (t, [.accepted c (freeSlot s.locals.fds)])
  /-- a ready slot is served -/
  | visited (t : Server) (i : Slot) (c : Conn) (inp : SlotIn) (hlive : ∀ f, s.pc ≠ .crashed f)
      (hconn : s.locals.fds i = some c)
      (hlocals : t.locals = (visit s.locals i c inp).1) (haccepted : t.accepted = s.accepted)
      (hpc : ∀ f, t.pc = .crashed f ↔ (visit s.locals i c inp).2.fault = some f) :
      Move s (t, [.visit (visit s.locals i c inp).2])

theorem Server.endIteration_pc (s : Server) (f : Fault) : s.endIteration.pc ≠ .crashed f := by
  unfold Server.endIteration
  dsimp only
  split_ifs <;> simp

@[simp] theorem Server.next_locals (s : Server) (revents : Slot → Revents) (rc : Int) (i : Nat) :
    (s.next revents rc i).locals = s.locals := by
  unfold Server.next
  split_ifs <;> rfl

@[simp] theorem Server.next_accepted (s : Server) (revents : Slot → Revents) (rc : Int) (i : Nat) :
    (s.next revents rc i).accepted = s.accepted := by
  unfold Server.next
  split_ifs <;> rfl

theorem Server.next_pc (s : Server) (revents : Slot → Revents) (rc : Int) (i : Nat) (f : Fault) :
    (s.next revents rc i).pc ≠ .crashed f := by
  unfold Server.next
  split_ifs
  · exact Server.endIteration_pc s f
  · simp

theorem move_polled (s : Server) (p : PollReturn) (hs : ∀ f, s.pc ≠ .crashed f) :
    Move s (s.polled p, []) := by
  unfold Server.polled
  dsimp only
  split_ifs
  · exact .silent _ rfl rfl rfl fun f => by simp [hs f, Server.endIteration_pc s f]
  · exact .silent _ rfl rfl rfl fun f => by simp [hs f]

theorem move_accept (s : Server) (revents : Slot → Revents) (rc : Int) {c : Conn}
    (hs : ∀ f, s.pc ≠ .crashed f) (hfresh : c ∉ s.accepted) :
    Move s (s.accept revents rc c) := by
  unfold Server.accept
  dsimp only
  split_ifs
  · exact .accepted _ c hs hfresh rfl rfl fun f => Server.endIteration_pc _ f
  · exact .accepted _ c hs hfresh rfl rfl fun f => by simp

theorem move_scan (s : Server) (revents : Slot → Revents) (rc : Int) (i : Slot) (inp : SlotIn)
    (hs : ∀ f, s.pc ≠ .crashed f) : Move s (s.scan revents rc i inp) := by
  unfold Server.scan
  cases hconn : s.locals.fds i with
  | none => exact .silent _ rfl rfl rfl fun f => by simp [hs f]
  | some c =>
      dsimp only
      by_cases hready : (revents i).readable
      · rw [if_pos hready]
        cases hfault : (visit s.locals i c inp).2.fault with
        | some f => exact .visited _ i c inp hs hconn rfl rfl fun f' => by simp [hfault]
        | none =>
            dsimp only
            by_cases hclosed : (visit s.locals i c inp).2.closed
            · rw [if_pos hclosed]
              exact .visited _ i c inp hs hconn rfl rfl fun f' => by simp [hfault]
            · rw [if_neg hclosed]
              refine .visited _ i c inp hs hconn (Server.next_locals _ _ _ _)
                (Server.next_accepted _ _ _ _) fun f' => ?_
              simp [hfault, Server.next_pc]
      · rw [if_neg hready]
        exact .silent _ rfl rfl rfl fun f => by simp [hs f]

/-- An input that is not taken. -/
theorem move_refl (s : Server) : Move s (s, []) := .silent s rfl rfl rfl fun _ => Iff.rfl

/-- **What a step can do.** -/
theorem step_move (s : Server) (k : Input) : Move s (s.step k) := by
  cases k with
  | sigint => exact .silent _ rfl rfl rfl fun _ => Iff.rfl
  | poll r =>
      unfold Server.step
      cases hpc : s.pc with
      | poll =>
          cases r with
          | none => exact .silent _ rfl rfl rfl fun f => by simp [hpc]
          | some p => exact move_polled s p (by simp [hpc])
      | _ => exact move_refl s
  | accept r =>
      unfold Server.step
      cases hpc : s.pc with
      | listen revents listen rc =>
          dsimp only
          split_ifs
          · cases r with
            | none => exact .silent _ rfl rfl rfl fun f => by simp [hpc]
            | some c =>
                dsimp only
                split_ifs with hc
                · exact move_refl s
                · exact move_accept s revents rc (by simp [hpc]) hc
          · exact .silent _ rfl rfl rfl fun f => by simp [hpc]
      | _ => exact move_refl s
  | slot inp =>
      unfold Server.step
      cases hpc : s.pc with
      | scan revents rc i =>
          dsimp only
          split_ifs with hi
          · exact move_scan s revents rc ⟨i, hi⟩ inp (by simp [hpc])
          · exact .silent _ rfl rfl rfl fun f => by simp [hpc, Server.endIteration_pc s f]
      | _ => exact move_refl s

/-! ## The table in every run -/

/-- The connections in the table are pairwise distinct and were accepted. -/
structure Table (s : Server) : Prop where
  inj : ∀ i j c, s.locals.fds i = some c → s.locals.fds j = some c → i = j
  mem : ∀ i c, s.locals.fds i = some c → c ∈ s.accepted

theorem fds_freeSlot {fds : Slot → Option Conn} {i : Slot} (h : freeSlot fds = some i) :
    fds i = none := by
  simpa using List.find?_some h

/-- Where a connection is found after a new one took its slot. -/
theorem fds_store {srv : Locals} {c d : Conn} {i : Slot} (h : (srv.store c).fds i = some d) :
    srv.fds i = some d ∨ (d = c ∧ freeSlot srv.fds = some i) := by
  unfold Locals.store at h
  cases hfree : freeSlot srv.fds with
  | none =>
      simp only [hfree] at h
      exact Or.inl h
  | some j =>
      simp only [hfree] at h
      by_cases hij : i = j
      · subst hij
        rw [Function.update_self] at h
        exact Or.inr ⟨(Option.some.inj h).symm, rfl⟩
      · rw [Function.update_of_ne hij] at h
        exact Or.inl h

theorem store_info (srv : Locals) (c : Conn) : (srv.store c).info = srv.info := by
  unfold Locals.store
  split <;> rfl

/-- Where a connection is found after a pass. -/
theorem fds_visit {srv : Locals} {i j : Slot} {c d : Conn} {inp : SlotIn}
    (h : (visit srv i c inp).1.fds j = some d) : srv.fds j = some d := by
  rw [visit_fds] at h
  split_ifs at h
  · by_cases hji : j = i
    · subst hji
      rw [Function.update_self] at h
      cases h
    · rwa [Function.update_of_ne hji] at h
  · exact h

theorem Table.step {s : Server} {r : Server × List Obs} (ht : Table s) (hm : Move s r) :
    Table r.1 := by
  cases hm with
  | silent t hfds _ haccepted _ =>
      refine ⟨fun i j c hi hj => ?_, fun i c hi => ?_⟩
      · rw [hfds] at hi hj
        exact ht.inj i j c hi hj
      · rw [hfds] at hi
        rw [haccepted]
        exact ht.mem i c hi
  | accepted t c _ hfresh hlocals haccepted _ =>
      refine ⟨fun i j d hi hj => ?_, fun i d hi => ?_⟩
      · rw [hlocals] at hi hj
        rcases fds_store hi with hi' | ⟨hdi, hi'⟩ <;> rcases fds_store hj with hj' | ⟨hdj, hj'⟩
        · exact ht.inj i j d hi' hj'
        · exact absurd (hdj ▸ ht.mem i d hi') hfresh
        · exact absurd (hdi ▸ ht.mem j d hj') hfresh
        · exact Option.some.inj (hi'.symm.trans hj')
      · rw [hlocals] at hi
        rw [haccepted]
        rcases fds_store hi with hi' | ⟨hdi, -⟩
        · exact List.mem_cons_of_mem _ (ht.mem i d hi')
        · rw [hdi]
          exact List.mem_cons_self
  | visited t i c inp _ _ hlocals haccepted _ =>
      refine ⟨fun j k d hj hk => ?_, fun j d hj => ?_⟩
      · rw [hlocals] at hj hk
        exact ht.inj j k d (fds_visit hj) (fds_visit hk)
      · rw [hlocals] at hj
        rw [haccepted]
        exact ht.mem j d (fds_visit hj)

theorem table_boot (g : Stack) : Table (boot g) :=
  ⟨fun _ _ _ hi => (by cases hi), fun _ _ hi => (by cases hi)⟩

/-- **The connection table of every run.** -/
theorem run_table (g : Stack) (is : List Input) : Table (server.run (boot g) is).1 :=
  Machine.run_inv (m := server) (I := fun _ s => Table s)
    (fun _ s k ht => ht.step (step_move s k)) is [] (boot g) (table_boot g)

/-! ## The passes of one connection -/

/-- The passes shown in a history. -/
def visits (h : List Obs) : List Visit :=
  h.filterMap fun
    | .visit v => some v
    | .accepted _ _ => none

/-- The passes that served connection `c`. -/
def visitsOf (c : Conn) (h : List Obs) : List Visit := (visits h).filter (·.conn = c)

@[simp] theorem visits_append (h k : List Obs) : visits (h ++ k) = visits h ++ visits k := by
  simp [visits]

@[simp] theorem visits_visit (v : Visit) : visits [.visit v] = [v] := rfl

@[simp] theorem visits_accepted (c : Conn) (i : Option Slot) : visits [.accepted c i] = [] := rfl

@[simp] theorem visits_nil : visits [] = [] := rfl

@[simp] theorem visitsOf_nil (c : Conn) : visitsOf c [] = [] := rfl

@[simp] theorem visitsOf_append (c : Conn) (h k : List Obs) :
    visitsOf c (h ++ k) = visitsOf c h ++ visitsOf c k := by
  simp [visitsOf]

@[simp] theorem visitsOf_accepted (c d : Conn) (i : Option Slot) :
    visitsOf c [.accepted d i] = [] := rfl

theorem visitsOf_visit (c : Conn) (v : Visit) :
    visitsOf c [.visit v] = if v.conn = c then [v] else [] := by
  by_cases h : v.conn = c <;> simp [visitsOf, h]

/-- What was sent to connection `c`. -/
def repliesTo (c : Conn) (h : List Obs) : List (List Byte) :=
  ((visits h).flatMap (·.writes)).filterMap fun w => if w.1 = c then some w.2 else none

/-- Where every pass writes to its own connection, what is sent to `c` is what its passes write. -/
theorem filterMap_writes (c : Conn) {vs : List Visit} (hown : ∀ v ∈ vs, ∀ w ∈ v.writes, w.1 = v.conn) :
    ((vs.flatMap (·.writes)).filterMap fun w => if w.1 = c then some w.2 else none) =
      (vs.filter (·.conn = c)).flatMap fun v => v.writes.map (·.2) := by
  induction vs with
  | nil => rfl
  | cons v vs ih =>
      have hv := hown v List.mem_cons_self
      rw [List.flatMap_cons, List.filterMap_append, ih fun u hu => hown u (List.mem_cons_of_mem _ hu)]
      by_cases hvc : v.conn = c
      · have hall : (v.writes.filterMap fun w => if w.1 = c then some w.2 else none) =
            v.writes.map (·.2) := by
          rw [← List.filterMap_eq_map]
          apply List.filterMap_congr
          intro w hw
          rw [if_pos (by rw [hv w hw, hvc])]
          rfl
        rw [hall, List.filter_cons_of_pos (by simpa using hvc), List.flatMap_cons]
      · have hnone : (v.writes.filterMap fun w => if w.1 = c then some w.2 else none) = [] := by
          rw [List.filterMap_eq_nil_iff]
          intro w hw
          rw [if_neg (by rw [hv w hw]; exact hvc)]
        rw [hnone, List.filter_cons_of_neg (by simpa using hvc), List.nil_append]

/-- Where in the history a pass was made. -/
theorem split_of_visits {h : List Obs} {us ws : List Visit} {v : Visit}
    (e : visits h = us ++ v :: ws) :
    ∃ pre post, h = pre ++ .visit v :: post ∧ visits pre = us ∧ visits post = ws := by
  obtain ⟨pre, rest, rfl, hpre, hrest⟩ := List.filterMap_eq_append_iff.1 e
  obtain ⟨silent, o, post, rfl, hsilent, ho, hpost⟩ := List.filterMap_eq_cons_iff.1 hrest
  cases o with
  | accepted c i => cases ho
  | visit w =>
      obtain rfl := Option.some.inj ho
      refine ⟨pre ++ silent, post, by simp, ?_, hpost⟩
      have hnone : visits silent = [] := List.filterMap_eq_nil_iff.2 hsilent
      rw [visits_append, hnone, List.append_nil]
      exact hpre

theorem split_of_mem_visits {h : List Obs} {v : Visit} (hv : v ∈ visits h) :
    ∃ pre post, h = pre ++ .visit v :: post := by
  obtain ⟨us, ws, e⟩ := List.append_of_mem hv
  obtain ⟨pre, post, hsplit, -, -⟩ := split_of_visits e
  exact ⟨pre, post, hsplit⟩

section Session
variable {R : List Visit → ClientInfo → Prop}

/-- What `run_session` keeps: `R` for every connection in its slot, and for every connection that was
ever served some entry for which it holds. -/
structure Sessions (R : List Visit → ClientInfo → Prop) (h : List Obs) (s : Server) : Prop where
  table : Table s
  served : ∀ v ∈ visits h, v.conn ∈ s.accepted
  slot : ∀ i c, s.locals.fds i = some c → R (visitsOf c h) (s.locals.info i)
  gone : ∀ c, ∃ info, R (visitsOf c h) info

theorem Sessions.fresh {h : List Obs} {s : Server} (hs : Sessions R h s) {c : Conn}
    (hc : c ∉ s.accepted) : visitsOf c h = [] := by
  rw [visitsOf, List.filter_eq_nil_iff]
  intro v hv hvc
  rw [decide_eq_true_eq] at hvc
  rw [← hvc] at hc
  exact hc (hs.served v hv)

/-- A new connection begins with no passes. -/
theorem Sessions.accept (hfresh : ∀ info, R [] info) {h : List Obs} {s t : Server} (hs : Sessions R h s)
    (htable : Table t) {c : Conn} (hc : c ∉ s.accepted) (hlocals : t.locals = s.locals.store c)
    (haccepted : t.accepted = c :: s.accepted) (i : Option Slot) : Sessions R (h ++ [.accepted c i]) t := by
  refine ⟨htable, ?_, ?_, ?_⟩
  · intro v hv
    rw [haccepted]
    exact List.mem_cons_of_mem _ (hs.served v (by simpa using hv))
  · intro i d hi
    rw [hlocals] at hi
    rw [hlocals, store_info, visitsOf_append, visitsOf_accepted, List.append_nil]
    rcases fds_store hi with hi' | ⟨hdc, -⟩
    · exact hs.slot i d hi'
    · rw [hdc, hs.fresh hc]
      exact hfresh _
  · intro d
    simpa using hs.gone d

/-- A pass over slot `i` is one of its connection, and of no other. -/
theorem Sessions.pass {h : List Obs} {s t : Server} (hs : Sessions R h s) (htable : Table t) {i : Slot} {c : Conn}
    {inp : SlotIn} (hconn : s.locals.fds i = some c) (hlocals : t.locals = (visit s.locals i c inp).1)
    (haccepted : t.accepted = s.accepted)
    (hnew : R (visitsOf c h ++ [(visit s.locals i c inp).2]) (visit s.locals i c inp).2.after) :
    Sessions R (h ++ [.visit (visit s.locals i c inp).2]) t := by
  have hv : (visit s.locals i c inp).2.conn = c := (visitOf_visit s.locals i c inp).conn_eq
  have hself : visitsOf c (h ++ [.visit (visit s.locals i c inp).2]) =
      visitsOf c h ++ [(visit s.locals i c inp).2] := by
    rw [visitsOf_append, visitsOf_visit, if_pos hv]
  have hother : ∀ d, d ≠ c → visitsOf d (h ++ [.visit (visit s.locals i c inp).2]) = visitsOf d h := by
    intro d hd
    rw [visitsOf_append, visitsOf_visit, if_neg (by rw [hv]; exact hd.symm), List.append_nil]
  refine ⟨htable, ?_, ?_, ?_⟩
  · intro w hw
    rw [haccepted]
    simp only [visits_append, visits_visit, List.mem_append, List.mem_singleton] at hw
    rcases hw with hw | rfl
    · exact hs.served w hw
    · rw [hv]
      exact hs.table.mem i c hconn
  · intro j d hj
    rw [hlocals] at hj
    have hjs := fds_visit hj
    rw [hlocals, visit_info]
    by_cases hji : j = i
    · subst hji
      obtain rfl : c = d := Option.some.inj (hconn.symm.trans hjs)
      rw [hself, Function.update_self]
      exact hnew
    · have hdc : d ≠ c := by
        rintro rfl
        exact hji (hs.table.inj j i d hjs hconn)
      rw [hother d hdc, Function.update_of_ne hji]
      exact hs.slot j d hjs
  · intro d
    by_cases hdc : d = c
    · subst hdc
      rw [hself]
      exact ⟨_, hnew⟩
    · rw [hother d hdc]
      exact hs.gone d

theorem Sessions.step (hfresh : ∀ info, R [] info)
    (hpass : ∀ srv i c inp vs, R vs (srv.info i) →
      R (vs ++ [(visit srv i c inp).2]) (visit srv i c inp).2.after)
    {h : List Obs} {s : Server} {r : Server × List Obs} (hs : Sessions R h s) (hm : Move s r) :
    Sessions R (h ++ r.2) r.1 := by
  have htable := hs.table.step hm
  cases hm with
  | silent t hfds hinfo haccepted _ =>
      rw [List.append_nil]
      refine ⟨htable, ?_, ?_, hs.gone⟩
      · rw [haccepted]
        exact hs.served
      · rw [hfds, hinfo]
        exact hs.slot
  | accepted t c _ hc hlocals haccepted _ => exact hs.accept hfresh htable hc hlocals haccepted _
  | visited t i c inp _ hconn hlocals haccepted _ =>
      exact hs.pass htable hconn hlocals haccepted (hpass s.locals i c inp _ (hs.slot i c hconn))

theorem sessions_boot (hfresh : ∀ info, R [] info) (g : Stack) : Sessions R [] (boot g) :=
  ⟨table_boot g, by simp, fun _ _ hi => (by cases hi), fun _ => ⟨.zero, hfresh _⟩⟩

/-- **The invariant rule for one connection.** -/
theorem run_session (hfresh : ∀ info, R [] info)
    (hpass : ∀ srv i c inp vs, R vs (srv.info i) →
      R (vs ++ [(visit srv i c inp).2]) (visit srv i c inp).2.after)
    (g : Stack) (is : List Input) :
    Sessions R (server.run (boot g) is).2 (server.run (boot g) is).1 :=
  Machine.run_inv (m := server) (I := Sessions R)
    (fun _ s k hi => hi.step hfresh hpass (step_move s k)) is [] (boot g) (sessions_boot hfresh g)

/-- Every pass of a run is a pass over a slot whose entry satisfies the invariant. -/
theorem run_every_visit (hfresh : ∀ info, R [] info)
    (hpass : ∀ srv i c inp vs, R vs (srv.info i) →
      R (vs ++ [(visit srv i c inp).2]) (visit srv i c inp).2.after)
    (g : Stack) (is : List Input) {pre post : List Obs} {v : Visit}
    (h : (server.run (boot g) is).2 = pre ++ .visit v :: post) :
    ∃ srv, VisitOf srv v.slot v.conn v.input v ∧ R (visitsOf v.conn pre) (srv.info v.slot) := by
  have hinv := Machine.run_inv (m := server)
    (I := fun h s => Sessions R h s ∧ Every (fun pre o => ∀ v, o = .visit v →
      ∃ srv, VisitOf srv v.slot v.conn v.input v ∧ R (visitsOf v.conn pre) (srv.info v.slot)) h)
    (fun h s k ⟨hs, hev⟩ => by
      have hm := step_move s k
      refine ⟨hs.step hfresh hpass hm, ?_⟩
      rw [server_step]
      generalize s.step k = r at hm
      cases hm with
      | silent t _ _ _ _ => rwa [List.append_nil]
      | accepted t c _ _ _ _ _ => exact every_snoc.2 ⟨hev, fun v hv => by cases hv⟩
      | visited t i c inp _ hconn _ _ _ =>
          refine every_snoc.2 ⟨hev, fun v hv => ?_⟩
          cases hv
          have hvisit := visitOf_visit s.locals i c inp
          refine ⟨s.locals, ?_, ?_⟩
          · rwa [hvisit.slot_eq, hvisit.conn_eq, hvisit.input_eq]
          · rw [hvisit.slot_eq, hvisit.conn_eq]
            exact hs.slot i c hconn)
    is [] (boot g) ⟨sessions_boot hfresh g, every_nil⟩
  exact hinv.2 pre _ post h v rfl

end Session

end SysSnippets.Drm
