import Mathlib.Algebra.Group.Nat.Even
import SysSnippets.Udp.Messages

/-!
# What the message programs over UDP print

* `State.Receiving`, `State.Inv` : the server, and what has been sent, what is on the way and what has been reported;
* `told_as_sent` : each line of the server tells of a datagram that was sent;
* `datagrams_counted` : each datagram that arrives is reported once and in its turn, but for a first one that
  `s_udp_nb` may take and not report.
-/

namespace SysSnippets.Udp.Messages
open SysSnippets.Lib

/-! ## What has been sent and what has been reported -/

/-- What each client has to send. -/
def outgoing (clients : Nat → Kind × List Byte) (i : Nat) : List (List Byte) := messages (clients i).1 (clients i).2

namespace State
variable {st : Style} {len : U32} {clients : Nat → Kind × List Byte} {s s' : State} {h out : List Out}

/-- `s_udp_nb` was given a negative length, and has gone with the first datagram. -/
structure Unreported (st : Style) (len : U32) (rs : List Out) (ts : List (List Byte)) (s : State) : Prop where
  style : st = .nb
  negative : len.toInt < 0
  first : rs = []
  one : ∃ payload, ts = [payload]
  gone : s.running = false

/-- A server that has reported `rs`, and has taken `ts` without a report. -/
structure Receiving (st : Style) (len : U32) (rs : List Out) (ts : List (List Byte)) (s : State) : Prop where
  nonblock : s.running = true → (s.nonblock = true ↔ st.toggles = true ∧ Even rs.length)
  none : s.running = true → ts = []
  length : s.running = true → st.toggles = true → 0 ≤ s.len.toInt ∨ s.len = len ∧ rs = []
  taken : ts = [] ∨ Unreported st len rs ts s

structure Inv (st : Style) (len : U32) (clients : Nat → Kind × List Byte) (h : List Out) (s : State) : Prop where
  buffer : st.cleared s.buffer = st.zeros
  reported : reports h ++ (takens h ++ s.network.queue).map (report st) = (arriveds h).map (report st)
  counted : ∀ payload, (arriveds h).count payload + s.network.flight.count payload + (losts h).count payload =
    (sents h).count payload + (duplicates h).count payload
  known : ∀ payload, payload ∈ s.network.flight ∨ payload ∈ s.network.queue → ∃ i, .sent i payload ∈ h
  kind : ∀ i, (s.clients i).kind = (clients i).1
  ahead : ∀ i, sentsOf i h <+: outgoing clients i
  left : ∀ i, (s.clients i).running = true →
    sentsOf i h ++ messages (s.clients i).kind (s.clients i).stdin = outgoing clients i
  receiving : s.Receiving st len (reports h) (takens h)

theorem cleared_zeros (st : Style) : st.cleared st.zeros = st.zeros := by
  cases st <;> rfl

theorem inv_init (st : Style) (len : U32) (clients : Nat → Kind × List Byte) :
    (init st len clients).Inv st len clients [] where
  buffer := cleared_zeros st
  reported := rfl
  counted _ := rfl
  known _ hmem := absurd (hmem.elim id id) List.not_mem_nil
  kind _ := rfl
  ahead _ := List.nil_prefix
  left _ _ := rfl
  receiving := ⟨fun _ => ⟨fun h => ⟨h, Even.zero⟩, fun h => h.1⟩, fun _ => rfl, fun _ _ => Or.inr ⟨rfl, rfl⟩, Or.inl rfl⟩

/-- The clients, the network and the buffer do not matter. -/
theorem Receiving.same {rs : List Out} {ts : List (List Byte)} (h : s.Receiving st len rs ts)
    (hmode : s'.nonblock = s.nonblock) (hlen : s'.len = s.len) (hrunning : s'.running = s.running) :
    s'.Receiving st len rs ts := by
  refine ⟨?_, ?_, ?_, ?_⟩
  · rw [hrunning, hmode]
    exact h.nonblock
  · rw [hrunning]
    exact h.none
  · rw [hrunning, hlen]
    exact h.length
  · exact h.taken.imp_right fun hun => ⟨hun.style, hun.negative, hun.first, hun.one, hrunning.trans hun.gone⟩

/-- A server that exits without a datagram. -/
theorem Receiving.exit {rs : List Out} {ts : List (List Byte)} (h : s.Receiving st len rs ts) (buffer : List Byte) :
    Receiving st len rs ts { s with buffer := buffer, running := false } :=
  ⟨nofun, nofun, nofun, h.taken.imp_right fun hun => ⟨hun.style, hun.negative, hun.first, hun.one, rfl⟩⟩

/-- What a step takes from and adds to the flight is what it tells. -/
theorem Inv.balanced {flight : List (List Byte)} (hinv : s.Inv st len clients h) (payload : List Byte)
    (hstep : (arriveds out).count payload + flight.count payload + (losts out).count payload =
      s.network.flight.count payload + (sents out).count payload + (duplicates out).count payload) :
    (arriveds (h ++ out)).count payload + flight.count payload + (losts (h ++ out)).count payload =
      (sents (h ++ out)).count payload + (duplicates (h ++ out)).count payload := by
  have hcounted := hinv.counted payload
  rw [arriveds_append, losts_append, sents_append, duplicates_append, List.count_append, List.count_append,
    List.count_append, List.count_append]
  omega

/-- A step that sends, delivers and reports nothing. -/
theorem Inv.quiet {o : Out} (hinv : s.Inv st len clients h) (hnetwork : s'.network = s.network)
    (hbuffer : st.cleared s'.buffer = st.cleared s.buffer) (hkind : ∀ i, (s'.clients i).kind = (s.clients i).kind)
    (hclients : ∀ i, (s'.clients i).running = true → s'.clients i = s.clients i)
    (hreceiving : s'.Receiving st len (reports h) (takens h))
    (hreports : reports [o] = []) (htakens : takens [o] = []) (harriveds : arriveds [o] = []) (hlosts : losts [o] = []) (hsents : sents [o] = [])
    (hduplicates : duplicates [o] = []) (hsentsOf : ∀ i, sentsOf i [o] = []) : s'.Inv st len clients (h ++ [o]) := by
  refine ⟨?_, ?_, ?_, ?_, ?_, ?_, ?_, ?_⟩
  · rw [hbuffer]
    exact hinv.buffer
  · rw [reports_append, takens_append, arriveds_append, hreports, htakens, harriveds, List.append_nil, List.append_nil,
      List.append_nil, hnetwork]
    exact hinv.reported
  · intro payload
    rw [arriveds_append, losts_append, sents_append, duplicates_append, harriveds, hlosts, hsents, hduplicates, hnetwork]
    simp only [List.append_nil]
    exact hinv.counted payload
  · intro payload hmem
    rw [hnetwork] at hmem
    obtain ⟨i, hi⟩ := hinv.known payload hmem
    exact ⟨i, List.mem_append_left _ hi⟩
  · intro i
    rw [hkind]
    exact hinv.kind i
  · intro i
    rw [sentsOf_append, hsentsOf, List.append_nil]
    exact hinv.ahead i
  · intro i hrunning
    have hsame := hclients i hrunning
    rw [hsame] at hrunning ⊢
    rw [sentsOf_append, hsentsOf, List.append_nil]
    exact hinv.left i hrunning
  · rw [reports_append, takens_append, hreports, htakens, List.append_nil, List.append_nil]
    exact hreceiving

/-- A datagram that is on its way is sent again, or goes. -/
theorem Inv.flown {o : Out} {network : Network (List Byte)} (hinv : s.Inv st len clients h)
    (hreports : reports [o] = []) (htakens : takens [o] = []) (hsentsOf : ∀ i, sentsOf i [o] = [])
    (hreported : reports h ++ (takens h ++ network.queue).map (report st) = (arriveds (h ++ [o])).map (report st))
    (hstep : ∀ payload, (arriveds [o]).count payload + network.flight.count payload + (losts [o]).count payload =
      s.network.flight.count payload + (sents [o]).count payload + (duplicates [o]).count payload)
    (hknown : ∀ payload, payload ∈ network.flight ∨ payload ∈ network.queue →
      payload ∈ s.network.flight ∨ payload ∈ s.network.queue) :
    Inv st len clients (h ++ [o]) { s with network := network } := by
  refine ⟨hinv.buffer, ?_, fun payload => hinv.balanced payload (hstep payload), ?_, hinv.kind, ?_, ?_, ?_⟩
  · rw [reports_append, takens_append, hreports, htakens, List.append_nil, List.append_nil]
    exact hreported
  · intro payload hmem
    obtain ⟨i, hi⟩ := hinv.known payload (hknown payload hmem)
    exact ⟨i, List.mem_append_left _ hi⟩
  · intro i
    rw [sentsOf_append, hsentsOf, List.append_nil]
    exact hinv.ahead i
  · intro i hrunning
    rw [sentsOf_append, hsentsOf, List.append_nil]
    exact hinv.left i hrunning
  · rw [reports_append, takens_append, hreports, htakens, List.append_nil, List.append_nil]
    exact hinv.receiving.same rfl rfl rfl

theorem Inv.sent {i : Nat} {payload rest : List Byte} (hinv : s.Inv st len clients h)
    (hrunning : (s.clients i).running = true)
    (hnext : next (s.clients i).kind (s.clients i).stdin = some (payload, rest)) :
    Inv st len clients (h ++ [.sent i payload])
      { s.setClient i ⟨(s.clients i).kind, rest, true⟩ with network := s.network.send payload } := by
  have hleft := hinv.left i hrunning
  rw [messages_some hnext] at hleft
  have hself : sentsOf i (h ++ [.sent i payload]) = sentsOf i h ++ [payload] := by
    rw [sentsOf_append]
    unfold sentsOf
    simp
  have hother : ∀ j, j ≠ i → sentsOf j (h ++ [.sent i payload]) = sentsOf j h := by
    intro j hj
    rw [sentsOf_append]
    unfold sentsOf
    simp [Ne.symm hj]
  refine ⟨hinv.buffer, ?_, ?_, ?_, ?_, ?_, ?_, ?_⟩
  · rw [reports_append, takens_append, arriveds_append]
    change (reports h ++ []) ++ ((takens h ++ []) ++ s.network.queue).map (report st) = (arriveds h ++ []).map (report st)
    rw [List.append_nil, List.append_nil, List.append_nil]
    exact hinv.reported
  · intro p
    apply hinv.balanced p
    change [].count p + (s.network.send payload).flight.count p + [].count p = _ + [payload].count p + [].count p
    rw [Network.count_send, List.count_nil]
    omega
  · intro p hmem
    rcases Network.mem_send hmem with rfl | hold
    · exact ⟨i, List.mem_append_right _ List.mem_cons_self⟩
    · obtain ⟨j, hj⟩ := hinv.known p hold
      exact ⟨j, List.mem_append_left _ hj⟩
  · intro j
    change ((s.setClient i _).clients j).kind = _
    by_cases hj : j = i
    · rw [hj, setClient_self]
      exact hinv.kind i
    · rw [setClient_of_ne hj]
      exact hinv.kind j
  · intro j
    by_cases hj : j = i
    · rw [hj, hself, ← hleft]
      exact ⟨messages (s.clients i).kind rest, List.append_assoc ..⟩
    · rw [hother j hj]
      exact hinv.ahead j
  · intro j
    change ((s.setClient i _).clients j).running = true →
      _ ++ messages ((s.setClient i _).clients j).kind ((s.setClient i _).clients j).stdin = _
    by_cases hj : j = i
    · rw [hj, setClient_self, hself, ← hleft, List.append_assoc]
      exact fun _ => rfl
    · rw [setClient_of_ne hj, hother j hj]
      exact hinv.left j
  · rw [reports_append, takens_append]
    change Receiving st len (reports h ++ []) (takens h ++ []) _
    rw [List.append_nil, List.append_nil]
    exact hinv.receiving.same rfl rfl rfl

theorem reportOf_isReport (st : Style) (buffer payload : List Byte) : (reportOf st buffer payload).isReport = true := by
  unfold reportOf
  split <;> rfl

theorem cleared_leaves (st : Style) (buffer : List Byte) : st.cleared (st.leaves buffer) = st.zeros := by
  cases st <;> rfl

/-- A report: the queue gets shorter by the datagram that is reported. -/
theorem Inv.reportMoved {payload : List Byte} {rest : List (List Byte)} {len' : U32} {nonblock running : Bool}
    {post : List Out} (hinv : s.Inv st len clients h) (hrunning : s.running = true)
    (hqueue : s.network.queue = payload :: rest) (hlen : len' = if st.toggles then SOCKADDR_IN else s.len)
    (htoggle : running = true → nonblock = (s.nonblock != st.toggles)) (hpost : post = if running then [] else [.exit]) :
    Inv st len clients (h ++ (report st payload :: post))
      { s with
        network := { s.network with queue := rest }
        buffer := st.leaves (received st.size st.zeros payload)
        len := len'
        nonblock := nonblock
        running := running } := by
  have hreport : (report st payload).isReport = true := reportOf_isReport ..
  have hreports : reports (h ++ (report st payload :: post)) = reports h ++ [report st payload] := by
    rw [reports_append, hpost]
    unfold reports
    split_ifs
    · rw [List.filter_cons_of_pos hreport]
      rfl
    · rw [List.filter_cons_of_pos hreport]
      rfl
  have hnone : ∀ {β : Type} (f : Out → Option β), f (report st payload) = none → f .exit = none →
      (h ++ (report st payload :: post)).filterMap f = h.filterMap f := by
    intro β f hf hexit
    rw [List.filterMap_append, hpost]
    split_ifs <;> simp [hf, hexit]
  have hcases : (∃ n text, report st payload = .got n text) ∨ report st payload = .overrun := by
    unfold report reportOf
    split
    · exact Or.inl ⟨_, _, rfl⟩
    · exact Or.inr rfl
  have hsents : sents (h ++ (report st payload :: post)) = sents h :=
    hnone _ (by rcases hcases with ⟨n, text, heq⟩ | heq <;> rw [heq]) rfl
  have hsentsOf : ∀ i, sentsOf i (h ++ (report st payload :: post)) = sentsOf i h := fun i =>
    hnone _ (by rcases hcases with ⟨n, text, heq⟩ | heq <;> rw [heq]) rfl
  have hlosts : losts (h ++ (report st payload :: post)) = losts h :=
    hnone _ (by rcases hcases with ⟨n, text, heq⟩ | heq <;> rw [heq]) rfl
  have hduplicates : duplicates (h ++ (report st payload :: post)) = duplicates h :=
    hnone _ (by rcases hcases with ⟨n, text, heq⟩ | heq <;> rw [heq]) rfl
  have harriveds : arriveds (h ++ (report st payload :: post)) = arriveds h :=
    hnone _ (by rcases hcases with ⟨n, text, heq⟩ | heq <;> rw [heq]) rfl
  have htakens : takens (h ++ (report st payload :: post)) = [] :=
    (hnone _ (by rcases hcases with ⟨n, text, heq⟩ | heq <;> rw [heq]) rfl).trans (hinv.receiving.none hrunning)
  refine ⟨cleared_leaves st _, ?_, ?_, ?_, hinv.kind, ?_, ?_, ?_⟩
  · have hreported := hinv.reported
    rw [hinv.receiving.none hrunning, hqueue, List.nil_append, List.map_cons] at hreported
    rw [hreports, htakens, harriveds, List.append_assoc]
    exact hreported
  · intro p
    rw [harriveds, hlosts, hsents, hduplicates]
    exact hinv.counted p
  · intro p hmem
    have hmem' : p ∈ s.network.flight ∨ p ∈ s.network.queue := by
      rw [hqueue]
      exact hmem.imp id (List.mem_cons_of_mem payload)
    obtain ⟨i, hi⟩ := hinv.known p hmem'
    exact ⟨i, List.mem_append_left _ hi⟩
  · intro i
    rw [hsentsOf]
    exact hinv.ahead i
  · intro i
    rw [hsentsOf]
    exact hinv.left i
  · rw [hreports, htakens]
    refine ⟨fun hrun => ?_, fun _ => rfl, fun _ htoggles => Or.inl ?_, Or.inl rfl⟩
    · have hmode := hinv.receiving.nonblock hrunning
      change nonblock = true ↔ _
      rw [htoggle hrun, List.length_append, List.length_singleton, Nat.even_add_one]
      cases htoggles : st.toggles with
      | true =>
          rw [htoggles, eq_self_iff_true, true_and] at hmode
          rw [Bool.bne_true, Bool.not_eq_true', ← Bool.not_eq_true, hmode, eq_self_iff_true, true_and]
      | false =>
          rw [htoggles] at hmode
          rw [Bool.bne_false]
          exact hmode.trans (iff_of_false (fun hf => nomatch hf.1) (fun hf => nomatch hf.1))
    · change 0 ≤ len'.toInt
      rw [hlen, if_pos htoggles]
      decide

/-- The first datagram of `s_udp_nb` goes without a report. -/
theorem Inv.takenMoved {payload : List Byte} {rest : List (List Byte)} (hinv : s.Inv st len clients h)
    (hrunning : s.running = true) (hqueue : s.network.queue = payload :: rest) (htoggles : st.toggles = true)
    (hlen : s.len.toInt < 0) :
    Inv st len clients (h ++ [.taken payload, .exit])
      { s with
        network := { s.network with queue := rest }
        buffer := st.leaves (received st.size st.zeros payload)
        running := false } := by
  obtain ⟨hsame, hfirst⟩ := (hinv.receiving.length hrunning htoggles).resolve_left (by omega)
  have hreports : reports (h ++ [.taken payload, .exit]) = [] := by
    rw [reports_append, hfirst]
    rfl
  have htakens : takens (h ++ [.taken payload, .exit]) = [payload] := by
    rw [takens_append, hinv.receiving.none hrunning]
    rfl
  have harriveds : arriveds (h ++ [.taken payload, .exit]) = arriveds h := by
    rw [arriveds_append]
    exact List.append_nil _
  have hstyle : st = .nb := by
    cases st with
    | nb => rfl
    | sg => cases htoggles
    | rust => cases htoggles
  refine ⟨cleared_leaves st _, ?_, fun p => ?_, fun p hmem => ?_, hinv.kind, fun i => ?_, fun i => ?_, ?_⟩
  · have hreported := hinv.reported
    rw [hinv.receiving.none hrunning, hfirst, hqueue] at hreported
    rw [hreports, htakens, harriveds]
    exact hreported
  · apply hinv.balanced p
    change [].count p + s.network.flight.count p + [].count p = _ + [].count p + [].count p
    rw [List.count_nil]
    omega
  · have hmem' : p ∈ s.network.flight ∨ p ∈ s.network.queue := by
      rw [hqueue]
      exact hmem.imp id (List.mem_cons_of_mem payload)
    obtain ⟨i, hi⟩ := hinv.known p hmem'
    exact ⟨i, List.mem_append_left _ hi⟩
  · rw [sentsOf_append]
    exact (List.append_nil (sentsOf i h)).symm ▸ hinv.ahead i
  · rw [sentsOf_append]
    exact (List.append_nil (sentsOf i h)).symm ▸ hinv.left i
  · rw [hreports, htakens]
    exact ⟨nofun, nofun, nofun, Or.inr ⟨hstyle, hsame ▸ hlen, rfl, ⟨payload, rfl⟩, rfl⟩⟩

/-- **A step keeps the invariant.** -/
theorem Inv.move (hinv : s.Inv st len clients h) (hm : Move st s s' out) : s'.Inv st len clients (h ++ out) := by
  cases hm with
  | idle =>
      rw [List.append_nil]
      exact hinv
  | done i stdin =>
      refine hinv.quiet rfl rfl ?_ ?_ (hinv.receiving.same rfl rfl rfl) rfl rfl rfl rfl rfl rfl fun _ => rfl
      · intro j
        by_cases hj : j = i
        · rw [hj, setClient_self]
        · rw [setClient_of_ne hj]
      · intro j hrunning
        by_cases hj : j = i
        · rw [hj, setClient_self] at hrunning
          cases hrunning
        · rw [setClient_of_ne hj]
  | sent i payload rest hrunning hnext => exact hinv.sent hrunning hnext
  | lost k payload hk =>
      refine hinv.flown rfl rfl (fun _ => rfl) ?_ ?_ ?_
      · rw [arriveds_append]
        exact hinv.reported.trans (congrArg _ (List.append_nil _).symm)
      · intro p
        have hremove := Network.count_remove (b := p) hk
        change [].count p + (s.network.flight.eraseIdx k).count p + [payload].count p = _ + [].count p + [].count p
        rw [List.count_nil]
        omega
      · exact fun p hmem => hmem.imp Network.mem_of_remove id
  | duplicated k payload hk =>
      refine hinv.flown rfl rfl (fun _ => rfl) ?_ ?_ ?_
      · rw [arriveds_append]
        exact hinv.reported.trans (congrArg _ (List.append_nil _).symm)
      · intro p
        change [].count p + (s.network.send payload).flight.count p + [].count p = _ + [].count p + [payload].count p
        rw [Network.count_send, List.count_nil]
        omega
      · intro p hmem
        rcases Network.mem_send hmem with rfl | hold
        · exact Or.inl (List.mem_of_getElem? hk)
        · exact hold
  | arrived k payload hk =>
      refine hinv.flown rfl rfl (fun _ => rfl) ?_ ?_ ?_
      · change reports h ++ (takens h ++ (s.network.queue ++ [payload])).map (report st) = _
        rw [arriveds_append, ← List.append_assoc (takens h), List.map_append, ← List.append_assoc, hinv.reported,
          ← List.map_append]
        rfl
      · intro p
        have hremove := Network.count_remove (b := p) hk
        change [payload].count p + (s.network.flight.eraseIdx k).count p + [].count p = _ + [].count p + [].count p
        rw [List.count_nil]
        omega
      · intro p hmem
        change p ∈ s.network.flight.eraseIdx k ∨ p ∈ s.network.queue ++ [payload] at hmem
        rw [List.mem_append, List.mem_singleton] at hmem
        rcases hmem with hflight | hqueue | rfl
        · exact Or.inl (Network.mem_of_remove hflight)
        · exact Or.inr hqueue
        · exact Or.inl (List.mem_of_getElem? hk)
  | exit hrunning =>
      exact hinv.quiet rfl rfl (fun _ => rfl) (fun _ _ => rfl) (hinv.receiving.exit s.buffer) rfl rfl rfl rfl rfl rfl
        fun _ => rfl
  | noData hrunning hnonblock =>
      refine hinv.quiet rfl ?_ (fun _ => rfl) (fun _ _ => rfl) (hinv.receiving.same rfl rfl rfl) rfl rfl rfl rfl rfl rfl
        fun _ => rfl
      change st.cleared (st.cleared s.buffer) = _
      rw [hinv.buffer, cleared_zeros]
  | taken payload rest hrunning hqueue htoggles hlen =>
      rw [hinv.buffer]
      exact hinv.takenMoved hrunning hqueue htoggles hlen
  | reported payload rest hrunning hqueue len' hlen nonblock running htoggle post hpost =>
      rw [hinv.buffer]
      exact hinv.reportMoved hrunning hqueue hlen htoggle hpost

end State

/-! ## What the servers print -/

section Strings
variable {t : List Byte}

theorem cstr_append_of_mem (h : (0 : Byte) ∈ t) (r : List Byte) : cstr (t ++ r) = cstr t := by
  unfold cstr
  rw [List.takeWhile_append, if_neg]
  intro hlength
  have hall := (List.takeWhile_prefix _).eq_of_length hlength
  rw [List.takeWhile_eq_self_iff] at hall
  exact of_decide_eq_true (hall 0 h) rfl

theorem cstr_append_zeros (t : List Byte) {k : Nat} (hk : 0 < k) : cstr (t ++ List.replicate k 0) = cstr t := by
  by_cases h : (0 : Byte) ∈ t
  · exact cstr_append_of_mem h _
  · obtain ⟨k, rfl⟩ := Nat.exists_eq_succ_of_ne_zero (Nat.ne_of_gt hk)
    rw [List.replicate_succ, cstr_append_zero h]
    apply Eq.symm
    rw [cstr, List.takeWhile_eq_self_iff]
    intro b hb
    exact decide_eq_true fun hb0 => h (hb0 ▸ hb)

theorem cstr_cstr (t : List Byte) : cstr (cstr t) = cstr t := List.takeWhile_idem ..

/-- A buffer that was zero. -/
theorem received_zeros (size : Nat) (payload : List Byte) : received size (List.replicate size 0) payload =
    payload.take size ++ List.replicate (size - payload.length) 0 := by
  unfold received
  rw [List.drop_replicate]

theorem cstr_received {size : Nat} {payload : List Byte} (h : 0 ∈ received size (List.replicate size 0) payload) :
    cstr (received size (List.replicate size 0) payload) = cstr payload := by
  rw [received_zeros] at h ⊢
  by_cases hlt : payload.length < size
  · rw [List.take_of_length_le hlt.le]
    exact cstr_append_zeros payload (Nat.sub_pos_of_lt hlt)
  · rw [Nat.sub_eq_zero_of_le (Nat.le_of_not_lt hlt), List.replicate_zero, List.append_nil] at h ⊢
    conv_rhs => rw [← List.take_append_drop size payload]
    exact (cstr_append_of_mem h _).symm

/-- What a call of `fgets` stores has room. -/
theorem length_readLine_le (n : Nat) (s : List Byte) : (readLine (ch '\n') n s).1.length ≤ n := by
  induction n generalizing s with
  | zero => exact Nat.le_refl 0
  | succ n ih =>
      cases s with
      | nil => exact Nat.zero_le _
      | cons c cs =>
          unfold readLine
          split_ifs
          · exact Nat.succ_le_succ (Nat.zero_le n)
          · exact Nat.succ_le_succ (ih cs)

theorem length_piece_le {n : Nat} {buf : List Byte} (s : List Byte) (h : buf ∈ pieces (ch '\n') n s) : buf.length ≤ n := by
  induction hs : s.length using Nat.strongRecOn generalizing s with
  | ind m ih =>
      cases hgets : fgets (ch '\n') n s with
      | none =>
          rw [pieces_none hgets] at h
          exact absurd h List.not_mem_nil
      | some r =>
          obtain ⟨piece, rest⟩ := r
          rw [pieces_some hgets] at h
          rcases List.mem_cons.1 h with rfl | h
          · unfold fgets at hgets
            split_ifs at hgets
            have hle := length_readLine_le n s
            rwa [Option.some.inj hgets] at hle
          · exact ih rest.length (hs ▸ fgets_decreasing hgets) rest h rfl

end Strings

/-- The clients in C. -/
def Kind.isC : Kind → Bool
  | .simple => true
  | .sg => true
  | _ => false

/-- The text that is printed of a datagram. -/
def Style.shown : Style → List Byte → List Byte
  | .rust, payload => received 256 (List.replicate 256 0) payload
  | _, payload => cstr payload

/-- A datagram of a client in C has the text that was read, and ends in the buffer. -/
theorem sending_isC {kind : Kind} (hkind : kind.isC = true) {stdin payload : List Byte} (h : payload ∈ sending kind stdin) :
    (∃ buf ∈ pieces (ch '\n') (BUFSIZE - 2) stdin, cstr payload = cstr buf) ∧
      (payload.length < BUFSIZE ∨ 0 ∈ payload.take BUFSIZE) := by
  cases kind with
  | simple =>
      obtain ⟨buf, hbuf, rfl⟩ := List.mem_map.1 h
      have hle := length_piece_le stdin hbuf
      refine ⟨⟨buf, hbuf, ?_⟩, Or.inr ?_⟩
      · unfold zeroPad
        unfold BUFSIZE at hle ⊢
        rw [List.take_of_length_le (by omega)]
        exact cstr_append_zeros buf (by omega)
      · rw [List.take_of_length_le (length_zeroPad (by decide) buf).le]
        exact zero_mem_zeroPad (by decide) buf
  | sg =>
      obtain ⟨buf, hbuf, rfl⟩ := List.mem_map.1 h
      have hle := length_piece_le stdin hbuf
      have hcstr : (cstr buf).length ≤ buf.length := (List.takeWhile_sublist _).length_le
      refine ⟨⟨buf, hbuf, cstr_cstr buf⟩, Or.inl ?_⟩
      unfold BUFSIZE at hle ⊢
      omega
  | go => cases hkind
  | rust => cases hkind

/-- What a line of the server means, given what has happened before. -/
def Told (st : Style) (clients : Nat → Kind × List Byte) (pre : List Out) : Out → Prop
  | .got size text => ∃ i payload, .sent i payload ∈ pre ∧ size = min st.size payload.length ∧ text = st.shown payload ∧
      (st ≠ .rust → (clients i).1.isC = true → ∃ buf ∈ pieces (ch '\n') (BUFSIZE - 2) (clients i).2, text = cstr buf)
  | .overrun => st ≠ .rust ∧ ∃ i payload, .sent i payload ∈ pre ∧ (clients i).1.isC = false ∧ BUFSIZE ≤ payload.length ∧
      0 ∉ payload.take BUFSIZE
  | .noData => st = .nb ∧ Even (reports pre).length
  | _ => True

namespace State
variable {st : Style} {len : U32} {clients : Nat → Kind × List Byte} {s s' : State} {h out : List Out}

/-- What has been sent is what the client had to send. -/
theorem Inv.sending (hinv : s.Inv st len clients h) {i : Nat} {payload : List Byte} (hsent : .sent i payload ∈ h) :
    payload ∈ Messages.sending (clients i).1 (clients i).2 := by
  rw [← messages_eq]
  apply (hinv.ahead i).subset
  exact List.mem_filterMap.2 ⟨_, hsent, if_pos rfl⟩

theorem Inv.told_report (hinv : s.Inv st len clients h) {i : Nat} {payload : List Byte} (hsent : .sent i payload ∈ h) :
    Told st clients h (report st payload) := by
  have hsending := hinv.sending hsent
  have hc : ∀ hst : st ≠ .rust, st.size = BUFSIZE ∧ st.shown payload = cstr payload ∧
      st.shows (received st.size st.zeros payload) = if 0 ∈ received BUFSIZE (List.replicate BUFSIZE 0) payload then
        some (cstr (received BUFSIZE (List.replicate BUFSIZE 0) payload)) else none := by
    intro hst
    cases st with
    | rust => exact absurd rfl hst
    | nb => exact ⟨rfl, rfl, rfl⟩
    | sg => exact ⟨rfl, rfl, rfl⟩
  unfold report reportOf
  by_cases hst : st = .rust
  · rw [hst]
    exact ⟨i, payload, hsent, rfl, rfl, fun hne => absurd rfl hne⟩
  · obtain ⟨hsize, hshown, hshows⟩ := hc hst
    rw [hshows]
    split_ifs with hzero
    · refine ⟨i, payload, hsent, rfl, ?_, fun _ hkind => ?_⟩
      · rw [hshown]
        exact cstr_received hzero
      · obtain ⟨⟨buf, hbuf, hcstr⟩, -⟩ := sending_isC hkind hsending
        exact ⟨buf, hbuf, (cstr_received hzero).trans hcstr⟩
    · rw [received_zeros, List.mem_append, not_or, List.mem_replicate, not_and_or] at hzero
      have hlong : BUFSIZE ≤ payload.length := by
        have hnone := hzero.2.resolve_right (fun hne => hne rfl)
        omega
      refine ⟨hst, i, payload, hsent, ?_, hlong, hzero.1⟩
      rw [← Bool.not_eq_true]
      intro hkind
      rcases (sending_isC hkind hsending).2 with hlt | hmem
      · omega
      · exact hzero.1 hmem

theorem Inv.told (hinv : s.Inv st len clients h) (hm : Move st s s' out) :
    Every (fun pre o => Told st clients (h ++ pre) o) out := by
  cases hm with
  | idle => exact every_nil
  | done i stdin => exact every_singleton.2 trivial
  | sent i payload rest hrunning hnext => exact every_singleton.2 trivial
  | lost k payload hk => exact every_singleton.2 trivial
  | duplicated k payload hk => exact every_singleton.2 trivial
  | arrived k payload hk => exact every_singleton.2 trivial
  | exit hrunning => exact every_singleton.2 trivial
  | noData hrunning hnonblock =>
      rw [every_singleton, List.append_nil]
      obtain ⟨htoggles, heven⟩ := (hinv.receiving.nonblock hrunning).1 hnonblock
      refine ⟨?_, heven⟩
      cases st with
      | nb => rfl
      | sg => cases htoggles
      | rust => cases htoggles
  | taken payload rest hrunning hqueue htoggles hlen => exact every_cons.2 ⟨trivial, every_singleton.2 trivial⟩
  | reported payload rest hrunning hqueue len' hlen nonblock running htoggle post hpost =>
      obtain ⟨i, hsent⟩ := hinv.known payload (Or.inr (by rw [hqueue]; exact List.mem_cons_self))
      rw [hinv.buffer, every_cons, List.append_nil]
      refine ⟨hinv.told_report hsent, ?_⟩
      rw [hpost]
      split_ifs
      · exact every_nil
      · exact every_singleton.2 trivial

end State

theorem inv_run (st : Style) (len : U32) (clients : Nat → Kind × List Byte) (inputs : List Input) :
    ((udp st).run (.init st len clients) inputs).1.Inv st len clients ((udp st).run (.init st len clients) inputs).2 ∧
      Every (Told st clients) ((udp st).run (.init st len clients) inputs).2 :=
  Machine.run_inv (m := udp st) (I := fun h s => s.Inv st len clients h ∧ Every (Told st clients) h)
    (fun _ s i hI => ⟨hI.1.move (State.step_move st s i), every_append.2 ⟨hI.2, hI.1.told (State.step_move st s i)⟩⟩)
    inputs [] (.init st len clients) ⟨State.inv_init st len clients, every_nil⟩

/-- **What is printed was sent.** Whatever the network does, each client sends its lines in their order, each line of the
server tells of one datagram that was sent, and of no other; of a client in C it is a text that the client has read. The
buffer is overrun only by a datagram from Go or Rust that fills it; without data the server goes on only after an even
number of datagrams. -/
theorem told_as_sent (st : Style) (len : U32) (clients : Nat → Kind × List Byte) (inputs : List Input) :
    (∀ i, sentsOf i ((udp st).run (.init st len clients) inputs).2 <+: sending (clients i).1 (clients i).2) ∧
      Every (Told st clients) ((udp st).run (.init st len clients) inputs).2 := by
  obtain ⟨hinv, htold⟩ := inv_run st len clients inputs
  refine ⟨fun i => ?_, htold⟩
  rw [← messages_eq]
  exact hinv.ahead i

/-- **Each datagram is reported once and in its turn.** What has been reported, what was taken without a report and what
waits in the queue is what has arrived, in this order, and each datagram that was sent or duplicated has arrived, is on
its way, or is lost. Only `s_udp_nb` takes one without a report: the first, and with it the server ends. -/
theorem datagrams_counted (st : Style) (len : U32) (clients : Nat → Kind × List Byte) (inputs : List Input) :
    reports ((udp st).run (.init st len clients) inputs).2 ++
        (takens ((udp st).run (.init st len clients) inputs).2 ++
          ((udp st).run (.init st len clients) inputs).1.network.queue).map (report st) =
      (arriveds ((udp st).run (.init st len clients) inputs).2).map (report st) ∧
    (takens ((udp st).run (.init st len clients) inputs).2 = [] ∨
      ((udp st).run (.init st len clients) inputs).1.Unreported st len
        (reports ((udp st).run (.init st len clients) inputs).2)
        (takens ((udp st).run (.init st len clients) inputs).2)) ∧
    ∀ payload, (arriveds ((udp st).run (.init st len clients) inputs).2).count payload +
        ((udp st).run (.init st len clients) inputs).1.network.flight.count payload +
        (losts ((udp st).run (.init st len clients) inputs).2).count payload =
      (sents ((udp st).run (.init st len clients) inputs).2).count payload +
        (duplicates ((udp st).run (.init st len clients) inputs).2).count payload := by
  obtain ⟨hinv, -⟩ := inv_run st len clients inputs
  exact ⟨hinv.reported, hinv.receiving.taken, hinv.counted⟩

end SysSnippets.Udp.Messages
