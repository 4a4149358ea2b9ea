import SysSnippets.Tcp.EventLoop

/-!
# `s_poll` and `s_select` do the same

`poll` looks at a part of the table only, and `revents` of the rest are left from earlier turns. Clients are
counted down, though, and the count is that of the clients `select` finds ready, all of which are in the part
looked at: the loop ends before a stale entry is reached.

* `Select.serveAll_idle` : where no client is ready, nothing is done;
* `serveAll_agree` : the two serving loops, under the count;
* `turn_agree` : a turn;
* `servers_agree` : any number of turns, in any kernel.
-/

namespace SysSnippets.Tcp
open SysSnippets.Lib

variable {σ : Type} {listenfd : Fd} (k : Kernel σ listenfd)

/-- The descriptors of a `pollfd` table. -/
def Poll.fds (clients : Slot → Pollfd) : Slot → Option Fd := fun i => (clients i).fd

/-- `select` finds the client ready. -/
def Selected (rset : Fd → Bool) (clients : Slot → Option Fd) (i : Slot) : Bool :=
  (clients i).any rset

/-- The events of the entry are new, and say what `select` says. -/
def Fresh (rset : Fd → Bool) (clients : Slot → Pollfd) (i : Slot) : Prop :=
  ∀ fd, (clients i).fd = some fd → ((clients i).revents &&& (POLLIN ||| POLLERR) ≠ 0 ↔ rset fd = true)

/-- The same outcome, with tables of different kinds. -/
structure SameTurn (p : Turn σ (Slot → Pollfd)) (s : Turn σ (Slot → Option Fd)) : Prop where
  world : p.world = s.world
  clients : Poll.fds p.clients = s.clients
  running : p.running = s.running
  ops : p.ops = s.ops

section Loops
variable {k} {rset : Fd → Bool}

theorem SameTurn.cons {p : Turn σ (Slot → Pollfd)} {s : Turn σ (Slot → Option Fd)} (h : SameTurn p s) (ops : List Op) :
    SameTurn { p with ops := ops ++ p.ops } { s with ops := ops ++ s.ops } :=
  ⟨h.world, h.clients, h.running, congrArg (ops ++ ·) h.ops⟩

theorem Select.serveAll_idle (clients : Slot → Option Fd) {is : List Slot}
    (his : ∀ i ∈ is, Selected rset clients i = false) (w : σ) :
    Select.serveAll k rset is w clients = ⟨w, clients, true, []⟩ := by
  induction is with
  | nil => rfl
  | cons i is ih =>
      obtain ⟨hi, his⟩ := List.forall_mem_cons.1 his
      unfold Select.serveAll
      cases hfd : clients i with
      | none => exact ih his
      | some fd =>
          rw [Selected, hfd] at hi
          dsimp only
          rw [if_neg (by simpa using hi)]
          exact ih his

theorem selected_update {clients : Slot → Option Fd} {i j : Slot} (hij : j ≠ i) (x : Option Fd) :
    Selected rset (Function.update clients i x) j = Selected rset clients j := by
  unfold Selected
  rw [Function.update_of_ne hij]

theorem fds_update (clients : Slot → Pollfd) (i : Slot) (x : Pollfd) :
    Poll.fds (Function.update clients i x) = Function.update (Poll.fds clients) i x.fd := by
  funext j
  unfold Poll.fds
  by_cases hij : j = i
  · subst hij
    rw [Function.update_self, Function.update_self]
  · rw [Function.update_of_ne hij, Function.update_of_ne hij]

/-- After a step of `poll` that may have been the last: if no client is left, `select` finds none ready either. -/
theorem SameTurn.rest {is : List Slot} {w : σ} {clients : Slot → Pollfd} {count : Int} (ops : List Op)
    (hcount : count = (is.countP (Selected rset (Poll.fds clients)) : Nat))
    (hleft : 0 < count →
      SameTurn (Poll.serveAll k is w clients count) (Select.serveAll k rset is w (Poll.fds clients))) :
    SameTurn
      (if count = 0 then ⟨w, clients, true, ops⟩
        else { Poll.serveAll k is w clients count with ops := ops ++ (Poll.serveAll k is w clients count).ops })
      { Select.serveAll k rset is w (Poll.fds clients) with
        ops := ops ++ (Select.serveAll k rset is w (Poll.fds clients)).ops } := by
  split_ifs with hzero
  · have hidle : ∀ i ∈ is, Selected rset (Poll.fds clients) i = false := by
      rw [hcount, Int.natCast_eq_zero, List.countP_eq_zero] at hzero
      exact fun i hi => by simpa using hzero i hi
    rw [Select.serveAll_idle _ hidle]
    exact ⟨rfl, rfl, rfl, (List.append_nil _).symm⟩
  · exact (hleft (by omega)).cons ops

theorem selected_congr {clients clients' : Slot → Pollfd} {i : Slot} (h : clients' i = clients i) :
    Selected rset (Poll.fds clients') i = Selected rset (Poll.fds clients) i := by
  unfold Selected Poll.fds
  rw [h]

/-- `count` clients are ready, all of them below `m`, where the events are new. -/
structure Counted (rset : Fd → Bool) (m : Nat) (is : List Slot) (clients : Slot → Pollfd) (count : Int) : Prop where
  fresh : ∀ i ∈ is, i.val < m → Fresh rset clients i
  behind : ∀ i ∈ is, m ≤ i.val → Selected rset (Poll.fds clients) i = false
  count : count = (is.countP (Selected rset (Poll.fds clients)) : Nat)

section Counted
variable {m : Nat} {clients clients' : Slot → Pollfd} {count : Int} {i : Slot} {is : List Slot}

/-- If a client from `i` on is ready, `i` is below `m`. -/
theorem Counted.lt (h : Counted rset m (i :: is) clients count) (hlt : ∀ j ∈ is, i < j) (hpos : 0 < count) :
    i.val < m := by
  have hcount := h.count
  obtain ⟨j, hj, hready⟩ := List.countP_pos_iff.1
    (show 0 < (i :: is).countP (Selected rset (Poll.fds clients)) by omega)
  by_contra hge
  have hjm : m ≤ j.val := by
    rcases List.mem_cons.1 hj with rfl | hj
    · omega
    · have : i.val < j.val := hlt j hj
      omega
  rw [h.behind j hj hjm] at hready
  cases hready

theorem Counted.skip (h : Counted rset m (i :: is) clients count)
    (hidle : Selected rset (Poll.fds clients) i = false) : Counted rset m is clients count where
  fresh j hj := h.fresh j (List.mem_cons_of_mem i hj)
  behind j hj := h.behind j (List.mem_cons_of_mem i hj)
  count := by
    rw [h.count, List.countP_cons_of_neg (by rw [hidle]; exact Bool.false_ne_true)]

/-- A ready client is counted; its own entry may have changed. -/
theorem Counted.rest (h : Counted rset m (i :: is) clients count)
    (hready : Selected rset (Poll.fds clients) i = true) (hsame : ∀ j ∈ is, clients' j = clients j) :
    Counted rset m is clients' (count - 1) where
  fresh := by
    intro j hj hjm
    unfold Fresh
    rw [hsame j hj]
    exact h.fresh j (List.mem_cons_of_mem i hj) hjm
  behind := by
    intro j hj hjm
    rw [selected_congr (hsame j hj)]
    exact h.behind j (List.mem_cons_of_mem i hj) hjm
  count := by
    have hcount := h.count
    rw [List.countP_cons_of_pos hready] at hcount
    rw [List.countP_congr fun j hj => by rw [selected_congr (hsame j hj)]]
    push_cast at hcount
    omega

end Counted

/-- **The serving loops.** They agree while clients are left to be served. -/
theorem serveAll_agree {m : Nat} {is : List Slot} (hsorted : is.Pairwise (· < ·)) :
    ∀ (w : σ) (clients : Slot → Pollfd) (count : Int), Counted rset m is clients count → 0 < count →
      SameTurn (Poll.serveAll k is w clients count) (Select.serveAll k rset is w (Poll.fds clients)) := by
  induction is with
  | nil =>
      intro w clients count hcounted hpos
      have hcount := hcounted.count
      rw [List.countP_nil] at hcount
      omega
  | cons i is ih =>
      intro w clients count hcounted hpos
      obtain ⟨hlt, hsorted⟩ := List.pairwise_cons.1 hsorted
      have him : i.val < m := hcounted.lt hlt hpos
      have hne : ∀ j ∈ is, j ≠ i := fun j hj => (Fin.ne_of_lt (hlt j hj)).symm
      unfold Poll.serveAll Select.serveAll
      cases hfd : (clients i).fd with
      | none =>
          have hfds : Poll.fds clients i = none := hfd
          have hsel : Selected rset (Poll.fds clients) i = false := by rw [Selected, hfds]; rfl
          rw [hfds]
          exact ih hsorted w clients count (hcounted.skip hsel) hpos
      | some fd =>
          have hfds : Poll.fds clients i = some fd := hfd
          have hsel : Selected rset (Poll.fds clients) i = rset fd := by rw [Selected, hfds]; rfl
          have hfresh := hcounted.fresh i List.mem_cons_self him fd hfd
          rw [hfds]
          dsimp only
          by_cases hready : rset fd = true
          · rw [if_neg (hfresh.2 hready), if_pos hready]
            have hrest (w : σ) (clients' : Slot → Pollfd) (ops : List Op) (hsame : ∀ j ∈ is, clients' j = clients j) :=
              have hleft := hcounted.rest (hsel.trans hready) hsame
              SameTurn.rest ops hleft.count (ih hsorted w clients' (count - 1) hleft)
            rcases hserve : serve k i fd w with ⟨w', served, ops⟩
            cases served with
            | stopped => exact ⟨rfl, rfl, rfl, rfl⟩
            | kept => exact hrest w' clients ops fun j _ => rfl
            | closed =>
                have hclosed := hrest w' (Function.update clients i { clients i with fd := none }) ops
                  fun j hj => Function.update_of_ne (hne j hj) _ _
                rwa [fds_update] at hclosed
          · rw [if_pos (by simpa using not_congr hfresh |>.2 hready), if_neg hready]
            exact ih hsorted w clients count (hcounted.skip (hsel.trans (Bool.eq_false_iff.2 hready))) hpos

end Loops

/-! ## A turn -/

section Turn
variable (revents : Fd → BitVec 16) (clients : Slot → Pollfd)

theorem mem_slots (i : Slot) : i ∈ slots := by
  revert i
  decide

/-- The descriptors that `select` leaves in the set. -/
def ready (listenfd : Fd) (fds : Slot → Option Fd) : Fd → Bool :=
  fun fd => decide (fd ∈ watched listenfd fds ∧ revents fd ≠ 0)

theorem mem_watched {fds : Slot → Option Fd} {i : Slot} {fd : Fd} (h : fds i = some fd) :
    fd ∈ watched listenfd fds :=
  List.mem_cons_of_mem _ (List.mem_filterMap.2 ⟨i, mem_slots i, h⟩)

theorem lt_max {clients : Slot → Pollfd} {i : Slot} (h : (clients i).fd ≠ none) : i.val < Poll.max clients := by
  have hsome : (clients i).fd.isSome = true := Option.isSome_iff_ne_none.2 h
  unfold Poll.max slots
  simp only [List.foldl_cons, List.foldl_nil]
  match i with
  | 0 =>
      rw [if_pos hsome]
      split_ifs <;> decide
  | 1 =>
      rw [if_pos hsome]
      decide

theorem fds_polled : Poll.fds (Poll.polled revents clients) = Poll.fds clients := by
  funext i
  unfold Poll.fds Poll.polled
  split_ifs <;> rfl

theorem selected_ready (i : Slot) : Selected (ready revents listenfd (Poll.fds clients)) (Poll.fds clients) i = true ↔
    ∃ fd, (clients i).fd = some fd ∧ revents fd ≠ 0 := by
  unfold Selected ready Poll.fds
  cases hfd : (clients i).fd with
  | none => simp
  | some fd =>
      have hmem : fd ∈ watched listenfd fun i => (clients i).fd := mem_watched hfd
      simp [hmem]

theorem count_eq : Poll.count listenfd revents clients = (if revents listenfd ≠ 0 then 1 else 0) +
    (slots.countP (Selected (ready revents listenfd (Poll.fds clients)) (Poll.fds clients)) : Nat) := by
  unfold Poll.count
  congr 2
  apply List.countP_congr
  intro i _
  rw [decide_eq_true_iff, selected_ready]
  unfold Poll.polled
  constructor
  · rintro ⟨hlt, hne⟩
    rw [if_pos hlt] at hne
    cases hfd : (clients i).fd with
    | none => simp [hfd] at hne
    | some fd => exact ⟨fd, rfl, by simpa [hfd] using hne⟩
  · rintro ⟨fd, hfd, hne⟩
    have hlt : i.val < Poll.max clients := lt_max (by rw [hfd]; exact Option.some_ne_none fd)
    rw [if_pos hlt]
    exact ⟨hlt, by simpa [hfd] using hne⟩

variable {k} {w w' : σ}

/-- The serving loop after `poll`, with a table in which a free entry may have been filled with a new
descriptor. -/
theorem serveAll_polled (clients' : Slot → Pollfd) (count : Int) (ops : List Op)
    (hfresh : ∀ i, i.val < Poll.max clients → Fresh (ready revents listenfd (Poll.fds clients)) clients' i)
    (hsel : ∀ i, Selected (ready revents listenfd (Poll.fds clients)) (Poll.fds clients') i =
      Selected (ready revents listenfd (Poll.fds clients)) (Poll.fds clients) i)
    (hcount : count = (slots.countP (Selected (ready revents listenfd (Poll.fds clients)) (Poll.fds clients)) : Nat)) :
    SameTurn
      (if count = 0 then ⟨w', clients', true, ops⟩
        else { Poll.serveAll k slots w' clients' count with ops := ops ++ (Poll.serveAll k slots w' clients' count).ops })
      { Select.serveAll k (ready revents listenfd (Poll.fds clients)) slots w' (Poll.fds clients') with
        ops := ops ++
          (Select.serveAll k (ready revents listenfd (Poll.fds clients)) slots w' (Poll.fds clients')).ops } := by
  have hcount' : count =
      (slots.countP (Selected (ready revents listenfd (Poll.fds clients)) (Poll.fds clients')) : Nat) := by
    rw [hcount]
    congr 1
    exact List.countP_congr fun i _ => by rw [hsel]
  apply SameTurn.rest ops hcount'
  apply serveAll_agree (m := Poll.max clients) (by decide) w' clients' count
  refine ⟨fun i _ hi => hfresh i hi, ?_, hcount'⟩
  intro i _ hi
  rw [hsel, ← Bool.not_eq_true, selected_ready]
  rintro ⟨fd, hfd, -⟩
  have : i.val < Poll.max clients := lt_max (by rw [hfd]; exact Option.some_ne_none fd)
  omega

theorem fresh_polled (hwait : (k.wait w).2 = .returned revents) (i : Slot) (hi : i.val < Poll.max clients) :
    Fresh (ready revents listenfd (Poll.fds clients)) (Poll.polled revents clients) i := by
  intro fd hfd
  unfold Poll.polled at hfd ⊢
  rw [if_pos hi] at hfd ⊢
  have hfd : (clients i).fd = some fd := hfd
  have hmem : fd ∈ watched listenfd (Poll.fds clients) := mem_watched hfd
  dsimp only
  rw [hfd, ready, decide_eq_true_iff, and_iff_right hmem]
  constructor
  · rintro hne hzero
    exact hne (by simp [hzero])
  · exact k.client_ready w revents fd hwait

theorem ready_listener : ready revents listenfd (Poll.fds clients) listenfd = true ↔ revents listenfd ≠ 0 := by
  unfold ready
  rw [decide_eq_true_iff]
  exact and_iff_right (List.mem_cons_self)

theorem all_idle : ((watched listenfd (Poll.fds clients)).all fun fd =>
      !(ready revents listenfd (Poll.fds clients)) fd) = true ↔
    Poll.count listenfd revents clients = 0 := by
  have hsel := @selected_ready listenfd revents clients
  rw [count_eq, List.all_eq_true]
  constructor
  · intro h
    have hlisten : revents listenfd = 0 := by
      by_contra hne
      have := h listenfd List.mem_cons_self
      rw [(ready_listener revents clients).2 hne] at this
      cases this
    have hnone : slots.countP (Selected (ready revents listenfd (Poll.fds clients)) (Poll.fds clients)) = 0 := by
      rw [List.countP_eq_zero]
      intro i _ hi
      obtain ⟨fd, hfd, hne⟩ := (hsel i).1 hi
      have := h fd (mem_watched hfd)
      have hmem : fd ∈ watched listenfd (Poll.fds clients) := mem_watched hfd
      exact hne (by simpa [ready, hmem] using this)
    rw [hnone, if_neg (by simpa using hlisten)]
    rfl
  · intro h fd hfd
    have hlisten : revents listenfd = 0 := by
      by_contra hne
      rw [if_pos hne] at h
      omega
    rw [if_neg (by simpa using hlisten), Int.zero_add, Int.natCast_eq_zero, List.countP_eq_zero] at h
    rcases List.mem_cons.1 hfd with rfl | hclient
    · simp [ready, hlisten]
    · obtain ⟨i, hi, hfd⟩ := List.mem_filterMap.1 hclient
      have hzero : revents fd = 0 := by
        by_contra hne
        exact h i hi ((hsel i).2 ⟨fd, hfd, hne⟩)
      simp [ready, hzero]

theorem place_stored {sockfd : Fd} {fds : Slot → Option Fd} {is : List Slot} {w : σ} {i : Slot}
    (h : (place k sockfd fds is w).2.1 = .stored i) : fds i = none := by
  induction is with
  | nil => cases h
  | cons j is ih =>
      unfold place at h
      split_ifs at h with hj hlast
      · split at h
        · cases h
        · cases h
          exact hj
      · exact ih h

/-- A free entry filled with a new descriptor: its events are new, and it is not ready. -/
theorem stored_polled {sockfd : Fd} {i : Slot} (hfree : Poll.fds clients i = none)
    (hfresh : ∀ j, j.val < Poll.max clients →
      Fresh (ready revents listenfd (Poll.fds clients)) (Poll.polled revents clients) j)
    (hunselected : ready revents listenfd (Poll.fds clients) sockfd = false) :
    (∀ j, j.val < Poll.max clients → Fresh (ready revents listenfd (Poll.fds clients))
      (Function.update (Poll.polled revents clients) i { Poll.polled revents clients i with fd := some sockfd }) j) ∧
    ∀ j, Selected (ready revents listenfd (Poll.fds clients))
      (Poll.fds (Function.update (Poll.polled revents clients) i
        { Poll.polled revents clients i with fd := some sockfd })) j =
      Selected (ready revents listenfd (Poll.fds clients)) (Poll.fds clients) j := by
  constructor
  · intro j hj
    by_cases hij : j = i
    · subst hij
      intro fd hfd
      rw [Function.update_self] at hfd ⊢
      obtain rfl := Option.some.inj hfd
      have hfree : (clients j).fd = none := hfree
      have hzero : (Poll.polled revents clients j).revents = 0 := by
        unfold Poll.polled
        rw [if_pos hj]
        simp [hfree]
      refine iff_of_false ?_ (hunselected ▸ Bool.false_ne_true)
      simp [hzero]
    · intro fd hfd
      rw [Function.update_of_ne hij] at hfd ⊢
      exact hfresh j hj fd hfd
  · intro j
    rw [fds_update, fds_polled]
    by_cases hij : j = i
    · subst hij
      unfold Selected
      rw [Function.update_self, hfree]
      exact hunselected
    · exact selected_update hij _

/-- **A turn.** -/
theorem turn_agree (w : σ) (clients : Slot → Pollfd) :
    SameTurn (Poll.turn k w clients) (Select.turn k w (Poll.fds clients)) := by
  have hfds := fun revents => fds_polled revents clients
  unfold Poll.turn Select.turn
  rcases hw : k.wait w with ⟨w', r⟩
  cases r with
  | interrupted => exact ⟨rfl, rfl, rfl, rfl⟩
  | failed => exact ⟨rfl, rfl, rfl, rfl⟩
  | returned revents =>
      have hwait : (k.wait w).2 = .returned revents := by rw [hw]
      have hidle := @all_idle listenfd revents clients
      have hcount := @count_eq listenfd revents clients
      have hfresh := fresh_polled revents clients hwait
      dsimp only
      change SameTurn _ (if ((watched listenfd (Poll.fds clients)).all fun fd =>
        !(ready revents listenfd (Poll.fds clients)) fd) = true then _ else
          if ready revents listenfd (Poll.fds clients) listenfd = true then _ else
            Select.serveAll k (ready revents listenfd (Poll.fds clients)) slots w' (Poll.fds clients))
      by_cases hzero : Poll.count listenfd revents clients = 0
      · rw [if_pos hzero, if_pos (hidle.2 hzero)]
        exact ⟨rfl, hfds revents, rfl, rfl⟩
      rw [if_neg hzero, if_neg (fun h => hzero (hidle.1 h))]
      have hsame : ∀ i, Selected (ready revents listenfd (Poll.fds clients)) (Poll.fds (Poll.polled revents clients)) i =
          Selected (ready revents listenfd (Poll.fds clients)) (Poll.fds clients) i := by
        intro i
        rw [hfds]
      by_cases hlisten : revents listenfd = 0
      · -- no connection is waiting
        rw [if_neg (by simp [hlisten]), if_neg (fun h => (ready_listener revents clients).1 h hlisten)]
        rw [if_neg (by simpa using hlisten), Int.zero_add] at hcount
        have := @serveAll_polled σ listenfd k revents clients w' (Poll.polled revents clients) _ [] hfresh hsame hcount
        rw [if_neg hzero, hfds] at this
        exact this
      · rw [if_pos (k.listener_ready w revents hwait hlisten), if_pos ((ready_listener revents clients).2 hlisten)]
        have hcount : Poll.count listenfd revents clients - 1 =
            (slots.countP (Selected (ready revents listenfd (Poll.fds clients)) (Poll.fds clients)) : Nat) := by
          rw [if_pos hlisten] at hcount
          omega
        have hpolled : (fun i => (Poll.polled revents clients i).fd) = Poll.fds clients := hfds revents
        rw [hpolled]
        rcases haccept : k.accept w' (watched listenfd (Poll.fds clients)) with ⟨w'', a⟩
        cases a with
        | interrupted => exact ⟨rfl, hfds revents, rfl, rfl⟩
        | failed => exact ⟨rfl, hfds revents, rfl, rfl⟩
        | connected sockfd =>
            have hnew : sockfd ∉ watched listenfd (Poll.fds clients) :=
              k.accept_fresh w' _ sockfd (by rw [haccept])
            have hunselected : ready revents listenfd (Poll.fds clients) sockfd = false :=
              decide_eq_false fun h => hnew h.1
            dsimp only
            rcases hplace : place k sockfd (Poll.fds clients) slots w'' with ⟨w₃, placed, ops⟩
            cases placed with
            | exit => exact ⟨rfl, hfds revents, rfl, rfl⟩
            | full =>
                have := @serveAll_polled σ listenfd k revents clients w₃ (Poll.polled revents clients) _
                  (.accept (.connected sockfd) :: ops) hfresh hsame hcount
                rw [hfds] at this
                exact this
            | stored i =>
                have hfree : Poll.fds clients i = none := place_stored (by rw [hplace])
                obtain ⟨hfresh', hsame'⟩ := stored_polled revents clients hfree hfresh hunselected
                have := @serveAll_polled σ listenfd k revents clients w₃
                  (Function.update (Poll.polled revents clients) i
                    { Poll.polled revents clients i with fd := some sockfd }) _
                  (.accept (.connected sockfd) :: ops) hfresh' hsame' hcount
                rw [fds_update, hfds] at this
                exact this

end Turn

/-- The two servers between turns. -/
structure SameServer (p : Server σ (Slot → Pollfd)) (s : Server σ (Slot → Option Fd)) : Prop where
  world : p.world = s.world
  clients : Poll.fds p.clients = s.clients
  running : p.running = s.running

theorem step_agree {p : Server σ (Slot → Pollfd)} {s : Server σ (Slot → Option Fd)} (h : SameServer p s) (i : Unit) :
    SameServer ((sPoll k).step p i).1 ((sSelect k).step s i).1 ∧
      ((sPoll k).step p i).2 = ((sSelect k).step s i).2 := by
  obtain ⟨hworld, hclients, hrunning⟩ := h
  unfold sPoll sSelect taking
  dsimp only
  rw [hrunning]
  by_cases hrun : s.running = true
  · rw [if_pos hrun, if_pos hrun, hworld, ← hclients]
    obtain ⟨hworld, hclients, hrunning, hops⟩ := turn_agree (k := k) s.world p.clients
    exact ⟨⟨hworld, hclients, hrunning⟩, hops⟩
  · rw [if_neg hrun, if_neg hrun]
    exact ⟨⟨hworld, hclients, hrunning⟩, rfl⟩

theorem run_agree (w : σ) (revents : Slot → BitVec 16) (turns : List Unit) :
    ((sPoll k).run ⟨w, fun i => ⟨none, revents i⟩, true⟩ turns).2 =
        ((sSelect k).run ⟨w, fun _ => none, true⟩ turns).2 ∧
      SameServer ((sPoll k).run ⟨w, fun i => ⟨none, revents i⟩, true⟩ turns).1
        ((sSelect k).run ⟨w, fun _ => none, true⟩ turns).1 := by
  have h := Machine.run_sim (m := sPoll k) (R := SameServer) (fun p s i h => step_agree k h i) turns
    (s := ⟨w, fun i => ⟨none, revents i⟩, true⟩) (t := ⟨w, fun _ => none, true⟩) ⟨rfl, rfl, rfl⟩
  exact ⟨h.2, h.1⟩

/-- **The two servers do the same.** `revents` is what the table of `s_poll` holds on the stack. -/
theorem servers_agree {σ : Type} {listenfd : Fd} (k : Kernel σ listenfd) (w : σ) (revents : Slot → BitVec 16)
    (turns : List Unit) :
    ((sPoll k).run ⟨w, fun i => ⟨none, revents i⟩, true⟩ turns).2 =
        ((sSelect k).run ⟨w, fun _ => none, true⟩ turns).2 ∧
      Poll.fds ((sPoll k).run ⟨w, fun i => ⟨none, revents i⟩, true⟩ turns).1.clients =
        ((sSelect k).run ⟨w, fun _ => none, true⟩ turns).1.clients := by
  obtain ⟨hops, hsame⟩ := run_agree k w revents turns
  exact ⟨hops, hsame.clients⟩

end SysSnippets.Tcp
