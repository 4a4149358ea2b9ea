import SysSnippets.Multicast.Client
import SysSnippets.Multicast.Server
import Mathlib.Logic.Function.Basic

/-!
# A multicast group

Clients and servers of the multicast tools in C. What has been sent may reach each of the servers, in any order, once,
more often or never; `sendto` takes no more than fits into a datagram.

* `group` : the clients, the servers and what has been sent;
* `safe_iff` : of which length the messages must be for the servers to stay within their buffers, whatever arrives;
* `received_as_sent` : what is sent and printed then.
-/

namespace SysSnippets.Multicast.Group
open SysSnippets.Lib

/-- `mcast4` or `mcast6` -/
inductive Family
  | v4
  | v6

/-- The bytes that a datagram has room for. -/
def Family.room : Family → Nat
  | .v4 => 65507
  | .v6 => 65527

structure State where
  clients : Nat → Client
  /-- what has been sent, in this order -/
  archive : List (List Byte)
  servers : Nat → Server

inductive Input
  /-- `ok` is whether `sendto` succeeds if there is room -/
  | send (i : Nat) (ok : Bool)
  /-- what was sent as number `k` reaches server `j` -/
  | arrive (j k : Nat)
  /-- a turn of server `j` that takes no datagram -/
  | turn (j : Nat) (t : Turn)

inductive Out
  /-- what client `i` gives to `sendto` -/
  | sent (i : Nat) (packet : List Byte)
  | arrived (j : Nat) (packet : List Byte)
  | shown (j : Nat) (obs : Obs)

namespace State

def init : State := ⟨fun _ => start, [], fun _ => serving⟩

def send (fam : Family) (msgs : Nat → CString) (s : State) (i : Nat) (ok : Bool) : State × List Out :=
  let packets := ((mcastClient (msgs i)).step (s.clients i) ok).2
  -- else `EMSGSIZE`
  let ok := ok && packets.all fun p => p.length ≤ fam.room
  ({ s with
      clients := Function.update s.clients i ((mcastClient (msgs i)).step (s.clients i) ok).1
      archive := if ok then s.archive ++ packets else s.archive }, packets.map (.sent i))

/-- A turn of a server. -/
def serve (dumps : Nat → Bool) (s : State) (j : Nat) (t : Turn) : State × List Out :=
  let (server, obs) := (mcastServer (dumps j)).step (s.servers j) t
  ({ s with servers := Function.update s.servers j server }, obs.map (.shown j))

def step (fam : Family) (msgs : Nat → CString) (dumps : Nat → Bool) (s : State) : Input → State × List Out
  | .send i ok => s.send fam msgs i ok
  | .arrive j k =>
      match s.archive[k]? with
      | some packet =>
          if (s.servers j).phase = .serving then
            let (s, out) := s.serve dumps j (.readable (some packet))
            (s, .arrived j packet :: out)
          else (s, [])
      | none => (s, [])
  | .turn _ (.readable (some _)) => (s, [])
  | .turn j t => s.serve dumps j t

end State

/-- The clients have their messages, and the servers dump or print. -/
def group (fam : Family) (msgs : Nat → CString) (dumps : Nat → Bool) : Machine State Input Out :=
  ⟨State.step fam msgs dumps⟩

/-- No `read` fails. -/
def Reading (is : List Input) : Prop := ∀ j, .turn j (.readable none) ∉ is

/-! ## Histories -/

/-- What client `i` has given to `sendto`. -/
def sents (i : Nat) (h : List Out) : List (List Byte) :=
  h.filterMap fun | .sent i' packet => if i' = i then some packet else none | _ => none

def arriveds (j : Nat) (h : List Out) : List (List Byte) :=
  h.filterMap fun | .arrived j' packet => if j' = j then some packet else none | _ => none

def observed (j : Nat) (h : List Out) : List Obs :=
  h.filterMap fun | .shown j' obs => if j' = j then some obs else none | _ => none

/-- The texts that are printed, one for each call. -/
def texts (obs : List Obs) : List (List Byte) := obs.filterMap fun | .printed text => some text | .access _ => none

/-- What a server prints of a packet. -/
def line (dump : Bool) (packet : List Byte) : List Byte :=
  if dump then dumpPacket packet else ['R', 'E', 'C', 'V', ':', ' '].map ch ++ cstr packet

/-- No server accesses anything but the elements of its buffer. -/
def Inside (h : List Out) : Prop := ∀ (j : Nat) (k : Int), .access k ∈ observed j h → 0 ≤ k ∧ k < BUFFER

/-- What arrives was sent before, by a client that counts its packets, and is printed in full up to the count 10^7. -/
def Known (msgs : Nat → CString) (pre : List Out) (o : Out) : Prop :=
  ∀ j packet', o = .arrived j packet' → ∃ i cnt, .sent i packet' ∈ pre ∧ packet' = packet (msgs i) cnt ∧
    (cnt < 10 ^ 7 → cstr packet' = text (msgs i) cnt)

structure AsSent (msgs : Nat → CString) (dumps : Nat → Bool) (h : List Out) : Prop where
  counted : ∀ i, ∃ n ≤ INT_MAX + 1, sents i h = (List.range n).map (packet (msgs i))
  printed : ∀ j, texts (observed j h) = (arriveds j h).map (line (dumps j))
  known : Every (Known msgs) h

variable {fam : Family} {msgs : Nat → CString} {dumps : Nat → Bool} {s : State} {h : List Out}

theorem sents_append (i : Nat) (h out : List Out) : sents i (h ++ out) = sents i h ++ sents i out :=
  List.filterMap_append ..

theorem arriveds_append (j : Nat) (h out : List Out) : arriveds j (h ++ out) = arriveds j h ++ arriveds j out :=
  List.filterMap_append ..

theorem observed_append (j : Nat) (h out : List Out) : observed j (h ++ out) = observed j h ++ observed j out :=
  List.filterMap_append ..

theorem texts_append (a b : List Obs) : texts (a ++ b) = texts a ++ texts b := List.filterMap_append ..

theorem texts_firsts (n : Nat) : texts (firsts n) = [] := by
  unfold texts firsts
  rw [List.filterMap_eq_nil_iff]
  intro o ho
  obtain ⟨i, -, rfl⟩ := List.mem_map.1 ho
  rfl

theorem sents_sent (i i' : Nat) (packets : List (List Byte)) :
    sents i (packets.map (.sent i')) = if i' = i then packets else [] := by
  unfold sents
  rw [List.filterMap_map]
  split_ifs with hi
  · rw [hi]
    simp
  · simp [hi]

theorem sents_shown (i j : Nat) (obs : List Obs) : sents i (obs.map (.shown j)) = [] := by
  unfold sents
  simp [List.filterMap_map]

theorem arriveds_shown (j j' : Nat) (obs : List Obs) : arriveds j (obs.map (.shown j')) = [] := by
  unfold arriveds
  simp [List.filterMap_map]

theorem arriveds_sent (j i : Nat) (packets : List (List Byte)) : arriveds j (packets.map (.sent i)) = [] := by
  unfold arriveds
  simp [List.filterMap_map]

theorem observed_sent (j i : Nat) (packets : List (List Byte)) : observed j (packets.map (.sent i)) = [] := by
  unfold observed
  simp [List.filterMap_map]

theorem observed_shown (j j' : Nat) (obs : List Obs) :
    observed j (obs.map (.shown j')) = if j' = j then obs else [] := by
  unfold observed
  rw [List.filterMap_map]
  split_ifs with hj
  · rw [hj]
    simp
  · simp [hj]

/-! ## Turns -/

theorem State.serve_eq {j : Nat} {t : Turn} {server : Server} {obs : List Obs}
    (hstep : (mcastServer (dumps j)).step (s.servers j) t = (server, obs)) :
    s.serve dumps j t = ({ s with servers := Function.update s.servers j server }, obs.map (.shown j)) := by
  unfold State.serve
  rw [hstep]

theorem State.step_datagram (j : Nat) (datagram : List Byte) :
    s.step fam msgs dumps (.turn j (.readable (some datagram))) = (s, []) := rfl

theorem State.step_turn (j : Nat) {t : Turn} (ht : ∀ datagram, t ≠ .readable (some datagram)) :
    s.step fam msgs dumps (.turn j t) = s.serve dumps j t := by
  unfold State.step
  split
  · next heq => exact nomatch heq
  · next heq => exact nomatch heq
  · next datagram heq =>
    obtain ⟨-, rfl⟩ := Input.turn.inj heq
    exact absurd rfl (ht datagram)
  · next heq =>
    obtain ⟨rfl, rfl⟩ := Input.turn.inj heq
    rfl

theorem datagram_or (t : Turn) : (∃ datagram, t = .readable (some datagram)) ∨ ∀ datagram, t ≠ .readable (some datagram) := by
  rw [← not_exists]
  exact Classical.em _

/-! ## The clients -/

/-- What a client sends does not depend on what `sendto` returns for it. -/
theorem step_packets (msg : CString) (c : Client) (ok ok' : Bool) :
    ((mcastClient msg).step c ok).2 = ((mcastClient msg).step c ok').2 := by
  unfold mcastClient
  dsimp only
  by_cases hfaults : c.faults < 5
  · rw [if_pos hfaults, if_pos hfaults]
    cases c.cnt with
    | none => rfl
    | some cnt => rfl
  · rw [if_neg hfaults, if_neg hfaults]

theorem client_step (fam : Family) (msgs : Nat → CString) (dumps : Nat → Bool) (i : Nat) (s : State) (a : Input) :
    ∃ oks, (((group fam msgs dumps).step s a).1.clients i, sents i ((group fam msgs dumps).step s a).2) =
      (mcastClient (msgs i)).run (s.clients i) oks := by
  cases a with
  | send i' ok =>
      have hstep : (group fam msgs dumps).step s (.send i' ok) = s.send fam msgs i' ok := rfl
      rw [hstep]
      unfold State.send
      dsimp only
      rw [sents_sent]
      by_cases hi : i' = i
      · rw [if_pos hi, hi, Function.update_self]
        generalize (ok && ((mcastClient (msgs i)).step (s.clients i) ok).2.all _) = ok'
        refine ⟨[ok'], ?_⟩
        rw [Machine.run_cons, Machine.run_nil, List.append_nil, step_packets (msgs i) (s.clients i) ok ok']
      · rw [if_neg hi, Function.update_of_ne (Ne.symm hi)]
        exact ⟨[], rfl⟩
  | arrive j k =>
      change ∃ oks, ((s.step fam msgs dumps (.arrive j k)).1.clients i, sents i (s.step fam msgs dumps (.arrive j k)).2) =
        (mcastClient (msgs i)).run (s.clients i) oks
      unfold State.step
      dsimp only
      split
      · split_ifs
        · exact ⟨[], congrArg (Prod.mk _) (sents_shown i j _)⟩
        · exact ⟨[], rfl⟩
      · exact ⟨[], rfl⟩
  | turn j t =>
      refine ⟨[], ?_⟩
      change ((s.step fam msgs dumps (.turn j t)).1.clients i, sents i (s.step fam msgs dumps (.turn j t)).2) =
        (s.clients i, [])
      rcases datagram_or t with ⟨datagram, rfl⟩ | ht
      · rfl
      · rw [State.step_turn j ht]
        exact congrArg (Prod.mk _) (sents_shown i j _)

/-- Each client does what it does alone, for some returns of `sendto`. -/
theorem client_run (fam : Family) (msgs : Nat → CString) (dumps : Nat → Bool) (i : Nat) (is : List Input) :
    ∃ oks, (((group fam msgs dumps).run .init is).1.clients i, sents i ((group fam msgs dumps).run .init is).2) =
      (mcastClient (msgs i)).run start oks := by
  induction is using List.reverseRec with
  | nil => exact ⟨[], rfl⟩
  | append_singleton is a ih =>
      obtain ⟨oks, hrun⟩ := ih
      obtain ⟨oks', hstep⟩ := client_step fam msgs dumps i ((group fam msgs dumps).run .init is).1 a
      refine ⟨oks ++ oks', ?_⟩
      rw [Machine.run_append, Machine.run_append, Machine.run_cons, Machine.run_nil, List.append_nil, sents_append,
        ← hrun]
      dsimp only
      rw [← hstep]

/-- The packets that one call of `sendto` gets. -/
theorem packet_of_step {msg : CString} {c : Client} {ok : Bool} {p : List Byte}
    (hp : p ∈ ((mcastClient msg).step c ok).2) : ∃ cnt, p = packet msg cnt := by
  unfold mcastClient at hp
  dsimp only at hp
  split at hp
  · split at hp
    · cases hp
    · exact ⟨_, List.mem_singleton.1 hp⟩
  · cases hp

theorem length_packet (msg : CString) (cnt : Nat) :
    (packet msg cnt).length = min (msg.bytes.length + (decimal cnt).length + 3) (msg.bytes.length + 10) := by
  rw [packet_eq, List.length_append, List.length_take, length_text, List.length_singleton]
  unfold PKT
  omega

theorem packet_ne_nil (msg : CString) (cnt : Nat) : packet msg cnt ≠ [] := by
  unfold packet
  simp

theorem cstr_packet {msg : CString} {cnt : Nat} (hcnt : cnt < 10 ^ 7) : cstr (packet msg cnt) = text msg cnt := by
  rw [(packet_iff msg cnt).2 hcnt]
  exact cstr_append_zero (zero_notMem_text msg cnt)

/-! ## The servers -/

/-- A packet that leaves room for a NUL. -/
theorem step_packet (dump : Bool) {server : Server} (hserving : server.phase = .serving) {p : List Byte} (hne : p ≠ [])
    (hlen : p.length < BUFFER) :
    ∃ obs, (mcastServer dump).step server (.readable (some p)) = (server, obs) ∧
      (∀ k : Int, .access k ∈ obs → 0 ≤ k ∧ k < BUFFER) ∧ texts obs = [line dump p] := by
  have hroom : p.length ≤ 255 := Nat.le_of_lt_succ hlen
  obtain ⟨haccess, hsame⟩ := received_short dump server hroom
  rw [if_neg hne] at hsame
  refine ⟨firsts p.length ++ (server.received dump p).2, ?_, fun k hk => ?_, ?_⟩
  · rw [step_readable dump hserving (Nat.le_of_lt hlen), hsame]
  · have hbuffer : BUFFER = 256 := rfl
    rcases List.mem_append.1 hk with hk | hk
    · have hfirst := access_firsts hk
      omega
    · have hreceived := haccess k hk
      omega
  · rw [texts_append, texts_firsts, List.nil_append]
    unfold Server.received line
    rw [if_neg (Nat.ne_of_lt hlen), if_neg hne]
    split_ifs
    · rw [List.cons_append]
      change texts (firsts p.length ++ [_]) = _
      rw [texts_append, texts_firsts]
      rfl
    · rw [List.cons_append]
      change texts (firsts _ ++ [_]) = _
      rw [texts_append, texts_firsts]
      rfl

/-- A turn without a datagram prints nothing, and touches the buffer only if `read` fails. -/
theorem step_idle (dump : Bool) (server : Server) {t : Turn} (ht : ∀ datagram, t ≠ .readable (some datagram)) :
    texts ((mcastServer dump).step server t).2 = [] ∧
      (t ≠ .readable none → ((mcastServer dump).step server t).2 = []) := by
  unfold mcastServer
  dsimp only
  split_ifs
  · cases t with
    | readable datagram =>
        cases datagram with
        | none => exact ⟨rfl, fun h => absurd rfl h⟩
        | some datagram => exact absurd rfl (ht datagram)
    | timeout => exact ⟨rfl, fun _ => rfl⟩
    | interrupted => exact ⟨rfl, fun _ => rfl⟩
    | selectFailed => exact ⟨rfl, fun _ => rfl⟩
    | unset => exact ⟨rfl, fun _ => rfl⟩
  · exact ⟨rfl, fun _ => rfl⟩

/-- A message whose packets leave room for a NUL, or are too long to be sent. -/
def Fits (fam : Family) (msg : CString) : Prop := msg.bytes.length + 10 < BUFFER ∨ fam.room < msg.bytes.length + 4

theorem Fits.packet {msg : CString} {cnt : Nat} (hfit : Fits fam msg) (hsent : (packet msg cnt).length ≤ fam.room) :
    (packet msg cnt).length < BUFFER := by
  have hdigits := List.length_pos_of_ne_nil (decimal_ne_nil cnt)
  rw [length_packet] at hsent ⊢
  rcases hfit with hshort | hlong
  · omega
  · omega

structure Inv (msgs : Nat → CString) (dumps : Nat → Bool) (h : List Out) (s : State) : Prop where
  archived : ∀ p ∈ s.archive, p.length < BUFFER ∧ ∃ i cnt, .sent i p ∈ h ∧ p = packet (msgs i) cnt
  printed : ∀ j, texts (observed j h) = (arriveds j h).map (line (dumps j))
  known : Every (Known msgs) h

theorem inv_init : Inv msgs dumps [] .init where
  archived _ hp := absurd hp List.not_mem_nil
  printed _ := rfl
  known := every_nil

theorem known_sent (msgs : Nat → CString) (h : List Out) (i : Nat) (packets : List (List Byte)) :
    Every (fun pre => Known msgs (h ++ pre)) (packets.map (.sent i)) := by
  intro pre o post hsplit j p ho
  obtain ⟨q, -, hq⟩ := List.mem_map.1 (hsplit ▸ List.mem_append_right pre List.mem_cons_self)
  rw [ho] at hq
  cases hq

theorem known_shown (msgs : Nat → CString) (h : List Out) (j : Nat) (obs : List Obs) :
    Every (fun pre => Known msgs (h ++ pre)) (obs.map (.shown j)) := by
  intro pre o post hsplit j' p ho
  obtain ⟨q, -, hq⟩ := List.mem_map.1 (hsplit ▸ List.mem_append_right pre List.mem_cons_self)
  rw [ho] at hq
  cases hq

theorem observed_sents (h : List Out) (j i : Nat) (packets : List (List Byte)) :
    observed j (h ++ packets.map (.sent i)) = observed j h := by
  rw [observed_append, observed_sent, List.append_nil]

theorem Inv.send (hinv : Inv msgs dumps h s) (hfit : ∀ i, Fits fam (msgs i)) (i : Nat) (ok : Bool) :
    Inv msgs dumps (h ++ (s.send fam msgs i ok).2) (s.send fam msgs i ok).1 := by
  unfold State.send
  generalize hpackets : ((mcastClient (msgs i)).step (s.clients i) ok).2 = packets
  dsimp only
  refine ⟨fun p hp => ?_, fun j => ?_, every_append.2 ⟨hinv.known, known_sent msgs h i packets⟩⟩
  · dsimp only at hp
    have hcases : p ∈ s.archive ∨ p ∈ packets ∧ p.length ≤ fam.room := by
      split_ifs at hp with hok
      · rw [Bool.and_eq_true, List.all_eq_true] at hok
        exact (List.mem_append.1 hp).imp_right fun hnew => ⟨hnew, of_decide_eq_true (hok.2 p hnew)⟩
      · exact Or.inl hp
    rcases hcases with hold | ⟨hnew, hroom⟩
    · obtain ⟨hlen, i', cnt, hsent, hpacket⟩ := hinv.archived p hold
      exact ⟨hlen, i', cnt, List.mem_append_left _ hsent, hpacket⟩
    · obtain ⟨cnt, hpacket⟩ := packet_of_step (hpackets ▸ hnew)
      refine ⟨?_, i, cnt, List.mem_append_right h (List.mem_map_of_mem hnew), hpacket⟩
      rw [hpacket] at hroom ⊢
      exact (hfit i).packet hroom
  · rw [observed_sents, arriveds_append, arriveds_sent, List.append_nil]
    exact hinv.printed j

/-- What is read leaves the server as it is. -/
theorem Inv.serve_packet {p : List Byte} (hinv : Inv msgs dumps h s) (hp : p ∈ s.archive) {j : Nat}
    (hserving : (s.servers j).phase = .serving) :
    ∃ obs, s.serve dumps j (.readable (some p)) = (s, obs.map (.shown j)) ∧
      (∀ k : Int, .access k ∈ obs → 0 ≤ k ∧ k < BUFFER) ∧ texts obs = [line (dumps j) p] := by
  obtain ⟨hlen, i, cnt, -, hpacket⟩ := hinv.archived p hp
  obtain ⟨obs, hstep, haccess, htexts⟩ :=
    step_packet (dumps j) hserving (by rw [hpacket]; exact packet_ne_nil _ _) hlen
  refine ⟨obs, ?_, haccess, htexts⟩
  rw [State.serve_eq hstep, Function.update_eq_self]

/-- A packet that arrives is read and printed. -/
theorem Inv.arrive {p : List Byte} (hinv : Inv msgs dumps h s) (hp : p ∈ s.archive) {j : Nat}
    (hserving : (s.servers j).phase = .serving) :
    Inv msgs dumps (h ++ .arrived j p :: (s.serve dumps j (.readable (some p))).2)
      (s.serve dumps j (.readable (some p))).1 := by
  obtain ⟨-, i, cnt, hsent, hpacket⟩ := hinv.archived p hp
  obtain ⟨obs, hserve, -, htexts⟩ := hinv.serve_packet hp hserving
  have hobserved : ∀ j', observed j' (h ++ .arrived j p :: obs.map (.shown j)) =
      observed j' h ++ if j = j' then obs else [] := fun j' => by
    rw [observed_append, ← observed_shown]
    rfl
  have harriveds : ∀ j', arriveds j' (h ++ .arrived j p :: obs.map (.shown j)) =
      arriveds j' h ++ if j = j' then [p] else [] := fun j' => by
    rw [arriveds_append, ← List.singleton_append, arriveds_append, arriveds_shown, List.append_nil]
    unfold arriveds
    split_ifs with hj <;> simp [hj]
  rw [hserve]
  refine ⟨fun q hq => ?_, fun j' => ?_, ?_⟩
  · obtain ⟨hlen', i', cnt', hsent', hpacket'⟩ := hinv.archived q hq
    exact ⟨hlen', i', cnt', List.mem_append_left _ hsent', hpacket'⟩
  · rw [hobserved, harriveds, texts_append, List.map_append, hinv.printed j']
    split_ifs with hj
    · rw [htexts, hj]
      rfl
    · rfl
  · rw [every_append, every_cons]
    refine ⟨hinv.known, ?_, ?_⟩
    · intro j' p' ho
      obtain ⟨-, rfl⟩ := Out.arrived.inj ho
      rw [List.append_nil]
      refine ⟨i, cnt, hsent, hpacket, fun hcnt => ?_⟩
      rw [hpacket]
      exact cstr_packet hcnt
    · have hshown := known_shown msgs (h ++ [.arrived j p]) j obs
      simpa using hshown

/-- A turn without a datagram. -/
theorem Inv.idle (hinv : Inv msgs dumps h s) (j : Nat) {t : Turn} (ht : ∀ datagram, t ≠ .readable (some datagram)) :
    Inv msgs dumps (h ++ (s.serve dumps j t).2) (s.serve dumps j t).1 := by
  obtain ⟨htexts, -⟩ := step_idle (dumps j) (s.servers j) ht
  rcases hstep : (mcastServer (dumps j)).step (s.servers j) t with ⟨server, obs⟩
  rw [hstep] at htexts
  rw [State.serve_eq hstep]
  refine ⟨fun q hq => ?_, fun j' => ?_, every_append.2 ⟨hinv.known, known_shown msgs h j obs⟩⟩
  · obtain ⟨hlen, i, cnt, hsent, hpacket⟩ := hinv.archived q hq
    exact ⟨hlen, i, cnt, List.mem_append_left _ hsent, hpacket⟩
  · rw [observed_append, observed_shown, arriveds_append, arriveds_shown, List.append_nil, texts_append, hinv.printed j']
    split_ifs
    · rw [htexts, List.append_nil]
    · exact List.append_nil _

/-- **A step keeps the invariant.** -/
theorem Inv.step (hinv : Inv msgs dumps h s) (hfit : ∀ i, Fits fam (msgs i)) (a : Input) :
    Inv msgs dumps (h ++ (s.step fam msgs dumps a).2) (s.step fam msgs dumps a).1 := by
  have hsame : Inv msgs dumps (h ++ []) s := by
    rw [List.append_nil]
    exact hinv
  cases a with
  | send i ok => exact hinv.send hfit i ok
  | arrive j k =>
      unfold State.step
      dsimp only
      split
      · next p hp =>
        split_ifs with hserving
        · exact hinv.arrive (List.mem_of_getElem? hp) hserving
        · exact hsame
      · exact hsame
  | turn j t =>
      rcases datagram_or t with ⟨datagram, rfl⟩ | ht
      · rw [State.step_datagram]
        exact hsame
      · rw [State.step_turn j ht]
        exact hinv.idle j ht

theorem inv_run (dumps : Nat → Bool) (hfit : ∀ i, Fits fam (msgs i)) (is : List Input) :
    Inv msgs dumps ((group fam msgs dumps).run .init is).2 ((group fam msgs dumps).run .init is).1 :=
  (group fam msgs dumps).run_inputs_inv (J := fun _ h s => Inv msgs dumps h s) inv_init
    (fun _ _ _ a hinv => hinv.step hfit a) is

/-! ## The buffers -/

theorem Inside.append {h' : List Out} (hinside : Inside h) (hinside' : Inside h') : Inside (h ++ h') := by
  intro j k hk
  rw [observed_append] at hk
  rcases List.mem_append.1 hk with hk | hk
  · exact hinside j k hk
  · exact hinside' j k hk

theorem inside_shown {j : Nat} {obs : List Obs} (hobs : ∀ k : Int, .access k ∈ obs → 0 ≤ k ∧ k < BUFFER) :
    Inside (obs.map (.shown j)) := by
  intro j' k hk
  rw [observed_shown] at hk
  split_ifs at hk
  · exact hobs k hk
  · cases hk

theorem inside_nil : Inside [] := fun _ _ hk => absurd hk List.not_mem_nil

/-- A step touches the elements only, unless `read` fails. -/
theorem Inv.inside_step (hinv : Inv msgs dumps h s) {a : Input} (ha : ∀ j, a ≠ .turn j (.readable none)) :
    Inside (s.step fam msgs dumps a).2 := by
  cases a with
  | send i ok =>
      intro j k hk
      change .access k ∈ observed j (List.map (.sent i) _) at hk
      rw [observed_sent] at hk
      cases hk
  | arrive j k =>
      unfold State.step
      dsimp only
      split
      · next p hp =>
        split_ifs with hserving
        · obtain ⟨obs, hserve, haccess, -⟩ := hinv.serve_packet (List.mem_of_getElem? hp) hserving
          rw [hserve]
          exact inside_shown haccess
        · exact inside_nil
      · exact inside_nil
  | turn j t =>
      rcases datagram_or t with ⟨datagram, rfl⟩ | ht
      · exact inside_nil
      · obtain ⟨-, hnone⟩ := step_idle (dumps j) (s.servers j) ht
        have hquiet := hnone fun heq => ha j (heq ▸ rfl)
        rw [State.step_turn j ht]
        change Inside (((mcastServer (dumps j)).step (s.servers j) t).2.map (.shown j))
        rw [hquiet]
        exact inside_nil

theorem inside_run (dumps : Nat → Bool) (hfit : ∀ i, Fits fam (msgs i)) {is : List Input} (hreading : Reading is) :
    Inside ((group fam msgs dumps).run .init is).2 := by
  induction is using List.reverseRec with
  | nil => exact inside_nil
  | append_singleton is a ih =>
      rw [Machine.run_append, Machine.run_cons, Machine.run_nil, List.append_nil]
      refine (ih fun j hmem => hreading j (List.mem_append_left _ hmem)).append ?_
      exact (inv_run dumps hfit is).inside_step fun j heq => hreading j (heq ▸ by simp)

/-! ## Long messages -/

/-- A client that sends on its own, where there is room. -/
theorem run_sending (i : Nat) {n : Nat} (hn : n ≤ INT_MAX)
    (hroom : ∀ cnt < n, (packet (msgs i) cnt).length ≤ fam.room) :
    ((group fam msgs dumps).run .init (List.replicate n (.send i true))).1 =
      ⟨Function.update (fun _ => start) i ⟨some n, 0⟩, (List.range n).map (packet (msgs i)), fun _ => serving⟩ := by
  induction n with
  | zero =>
      have hstart : Function.update (fun _ => start) i (⟨some 0, 0⟩ : Client) = fun _ => start :=
        Function.update_eq_self i _
      rw [hstart]
      rfl
  | succ n ih =>
      have hstep : (mcastClient (msgs i)).step ⟨some n, 0⟩ true = (⟨some (n + 1), 0⟩, [packet (msgs i) n]) := by
        unfold mcastClient
        simp only [if_true, Nat.zero_lt_succ, show ¬n = INT_MAX by omega, if_false]
      have hfits : [packet (msgs i) n].all (fun p => decide (p.length ≤ fam.room)) = true := by
        simpa using hroom n (Nat.lt_succ_self n)
      rw [List.replicate_succ', Machine.run_snoc, ih (by omega) fun cnt hcnt => hroom cnt (Nat.lt_succ_of_lt hcnt)]
      change (State.send fam msgs _ i true).1 = _
      unfold State.send
      dsimp only
      rw [Function.update_self, hstep]
      dsimp only
      rw [hfits, Bool.and_self, hstep, if_pos rfl, Function.update_idem, List.range_succ, List.map_append]
      rfl

/-- A packet that fills the buffer. -/
theorem overrun (dumps : Nat → Bool) {i n : Nat} (hn : n < INT_MAX) (hlen : BUFFER ≤ (packet (msgs i) n).length)
    (hroom : ∀ cnt ≤ n, (packet (msgs i) cnt).length ≤ fam.room) :
    .access 256 ∈ observed 0
      ((group fam msgs dumps).run .init (List.replicate (n + 1) (.send i true) ++ [.arrive 0 n])).2 := by
  have hget : ((List.range (n + 1)).map (packet (msgs i)))[n]? = some (packet (msgs i) n) := by
    rw [List.getElem?_map, List.getElem?_range (Nat.lt_succ_self n)]
    rfl
  rw [Machine.run_append, Machine.run_cons, Machine.run_nil, List.append_nil,
    run_sending i hn fun cnt hcnt => hroom cnt (Nat.le_of_lt_succ hcnt), observed_append]
  refine List.mem_append_right _ ?_
  change .access 256 ∈ observed 0 (State.step fam msgs dumps _ _).2
  unfold State.step
  dsimp only
  rw [hget]
  dsimp only
  rw [if_pos (show serving.phase = .serving from rfl)]
  change .access 256 ∈ observed 0 (List.map (.shown 0) _)
  rw [observed_shown, if_pos rfl]
  exact access_full (s := serving) (dumps 0) rfl hlen

theorem length_decimal_zero : (decimal 0).length = 1 := by decide

theorem length_decimal_pow (k : Nat) : (decimal (10 ^ k)).length = k + 1 := by
  apply Nat.le_antisymm
  · rw [length_decimal_le_iff (Nat.succ_pos k)]
    exact Nat.pow_lt_pow_succ (by decide)
  · by_cases hk : k = 0
    · rw [hk]
      decide
    · by_contra hlt
      have hle : (decimal (10 ^ k)).length ≤ k := by omega
      rw [length_decimal_le_iff (Nat.pos_of_ne_zero hk)] at hle
      exact Nat.lt_irrefl _ hle

/-- A message that is neither short nor too long has a packet that fills the buffer, and all packets before it can be
sent. -/
theorem exists_overrun {msg : CString} (hfit : ¬Fits fam msg) :
    ∃ n < INT_MAX, BUFFER ≤ (packet msg n).length ∧ ∀ cnt ≤ n, (packet msg cnt).length ≤ fam.room := by
  have hroom : BUFFER ≤ fam.room := by cases fam <;> decide
  unfold Fits at hfit
  rw [not_or, Nat.not_lt, Nat.not_lt] at hfit
  by_cases hlong : BUFFER ≤ msg.bytes.length + 4
  · have hlen : (packet msg 0).length = msg.bytes.length + 4 := by
      rw [length_packet, length_decimal_zero]
      omega
    refine ⟨0, by decide, by omega, fun cnt hcnt => ?_⟩
    rw [Nat.le_zero.1 hcnt, hlen]
    exact hfit.2
  · -- as many digits as it takes
    obtain ⟨k, hk⟩ : ∃ k, msg.bytes.length + k + 4 = BUFFER := ⟨BUFFER - 4 - msg.bytes.length, by omega⟩
    have hpow : (10 : Nat) ^ k ≤ 10 ^ 6 := Nat.pow_le_pow_right (by decide) (by omega)
    refine ⟨10 ^ k, by unfold INT_MAX; omega, ?_, fun cnt hcnt => ?_⟩
    · rw [length_packet, length_decimal_pow]
      omega
    · have hdigits : (decimal cnt).length ≤ k + 1 := by
        rw [length_decimal_le_iff (Nat.succ_pos k)]
        exact Nat.lt_of_le_of_lt hcnt (Nat.pow_lt_pow_succ (by decide))
      rw [length_packet]
      omega

/-- Messages of at most 245 bytes, and those that are never sent, keep the servers within their buffers, whatever the
clients send and the network delivers, as long as no `read` fails; others do not. -/
theorem safe_iff (fam : Family) (msgs : Nat → CString) (dumps : Nat → Bool) :
    (∀ is, Reading is → Inside ((group fam msgs dumps).run .init is).2) ↔ ∀ i, Fits fam (msgs i) := by
  constructor
  · intro hsafe i
    by_contra hlong
    obtain ⟨n, hn, hlen, hroom⟩ := exists_overrun hlong
    have hreading : Reading (List.replicate (n + 1) (.send i true) ++ [.arrive 0 n]) := by
      intro j hmem
      simp at hmem
    have hbounds := hsafe _ hreading 0 256 (overrun dumps hn hlen hroom)
    exact absurd hbounds.2 (Int.lt_irrefl _)
  · exact fun hfit is hreading => inside_run dumps hfit hreading

/-- Where the messages are short, each client counts its packets from 0, and each server prints one text for each
packet that arrives, in this order. -/
theorem received_as_sent (fam : Family) (hfit : ∀ i, (msgs i).bytes.length + 10 < BUFFER) (is : List Input) :
    AsSent msgs dumps ((group fam msgs dumps).run .init is).2 := by
  have hinv := inv_run dumps (fun i => (Or.inl (hfit i) : Fits fam (msgs i))) is
  refine ⟨fun i => ?_, hinv.printed, hinv.known⟩
  obtain ⟨oks, hrun⟩ := client_run fam msgs dumps i is
  obtain ⟨n, hn, hpackets⟩ := run_packets (msgs i) oks
  refine ⟨n, hn, ?_⟩
  rw [← hrun] at hpackets
  exact hpackets

/-- A packet that arrives twice. -/
theorem received_as_sent_twice :
    AsSent (fun _ => hi) (fun _ => false)
      ((group .v4 (fun _ => hi) fun _ => false).run .init
        [.send 3 true, .arrive 0 0, .turn 1 .timeout, .arrive 0 0]).2 :=
  received_as_sent .v4 (fun _ => by decide) _

end SysSnippets.Multicast.Group
