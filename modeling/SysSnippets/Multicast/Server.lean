import SysSnippets.Lib.Hex
import SysSnippets.Lib.Machine

/-!
# The server of the multicast tools in C

`mcast_server` of `mcast4.c` and of `mcast6.c` differ in the socket options only, `dump_packet` is the same.

* `dumpPacket` : `dump_packet`; `readHex_dumpPacket` : when it prints the packet;
* `mcastServer` : the receive loop, with its accesses to `buffer`;
* `served` : what it does with timeouts and datagrams of up to 255 bytes.
-/

namespace SysSnippets.Multicast
open SysSnippets.Lib

/-! ## `dump_packet` -/

/-- A `char` promoted to `int`, as `%x` takes it. -/
def promoted (b : Byte) : Nat := (b.toBitVec.signExtend 32).toNat

/-- What is printed behind the byte `p`. -/
def dumpPacket.gap (p : Nat) : List Byte := if 0 < p ∧ p % 64 = 0 then [ch ' ', ch '\n'] else [ch ' ']

/-- `dump_packet` -/
def dumpPacket (b : List Byte) : List Byte :=
  b.zipIdx.flatMap (fun x => (ch '0' :: ch 'x' :: hex02 (promoted x.1)) ++ dumpPacket.gap x.2) ++ [ch '\n']

/-- From 0x80 on a byte is negative. -/
theorem promoted_eq (b : Byte) : promoted b = b.toNat + if 128 ≤ b.toNat then 2 ^ 32 - 2 ^ 8 else 0 := by
  have hlt := b.toNat_lt
  unfold promoted
  rw [BitVec.toNat_signExtend, BitVec.toNat_setWidth, UInt8.toNat_toBitVec, BitVec.msb_eq_decide,
    UInt8.toNat_toBitVec, Nat.mod_eq_of_lt (by omega)]
  simp only [decide_eq_true_eq]

theorem readByte_promoted (b : Byte) : readByte (ch '0' :: ch 'x' :: hex02 (promoted b)) = some b ↔ b < 0x80 := by
  have hlt := b.toNat_lt
  rw [readByte_prefixed, promoted_eq, UInt8.lt_iff_toNat_lt, show (0x80 : UInt8).toNat = 128 from rfl]
  by_cases h : 128 ≤ b.toNat
  · rw [if_pos h, if_neg (by omega)]
    simp [h]
  · rw [if_neg h, Nat.add_zero, if_pos hlt, UInt8.ofNat_toNat]
    simp at h
    simp [h]

/-- The text is the packet exactly if all of it is ASCII. -/
theorem readHex_dumpPacket (b : List Byte) : readHex (dumpPacket b) = some b ↔ ∀ c ∈ b, c < 0x80 := by
  unfold dumpPacket
  rw [readHex_blocks 0 (fun x => isWord_prefixed (promoted x.1)) (fun x => ?_) (by simp; decide)]
  · simp only [readByte_promoted]
    rw [← List.forall_mem_map (f := Prod.fst) (P := fun c => c < 0x80), List.zipIdx_map_fst]
  · unfold dumpPacket.gap
    have hspace : isSpace (ch ' ') = true := by decide
    have hnewline : isSpace (ch '\n') = true := by decide
    split_ifs
    · refine ⟨List.cons_ne_nil _ _, ?_⟩
      rw [List.forall_mem_cons, List.forall_mem_singleton]
      exact ⟨hspace, hnewline⟩
    · refine ⟨List.cons_ne_nil _ _, ?_⟩
      rw [List.forall_mem_singleton]
      exact hspace

/-! ## The receive loop -/

/-- `sizeof(buffer)` -/
def BUFFER : Nat := 256

/-- What a turn of the loop finds. -/
inductive Turn
  | timeout
  /-- `EINTR` -/
  | interrupted
  | selectFailed
  /-- the socket is not in the set -/
  | unset
  /-- the datagram that `read` takes; `none` is -1 -/
  | readable (datagram : Option (List Byte))

inductive Phase
  | serving
  | left
  /-- behind an access outside of `buffer` -/
  | undefined
  deriving DecidableEq

structure Server where
  phase : Phase
  faults : Nat
  deriving DecidableEq

inductive Obs
  /-- `buffer[i]` is read or written -/
  | access (i : Int)
  | printed (text : List Byte)
  deriving DecidableEq

/-- The texts of packets that are printed. -/
def printed (obs : List Obs) : List Byte := obs.flatMap fun | .printed text => text | .access _ => []

/-- `faults++`, and the test at the top of the loop. -/
def Server.fault (s : Server) : Server :=
  { s with faults := s.faults + 1, phase := if s.faults + 1 < 5 then .serving else .left }

/-- The first `n` elements. -/
def firsts (n : Nat) : List Obs := (List.range n).map fun i : Nat => .access i

/-- The part after `read`, which stored `data`. What is behind the NUL that is stored is not printed. -/
def Server.received (s : Server) (dump : Bool) (data : List Byte) : Server × List Obs :=
  if data.length = BUFFER then ({ s with phase := .undefined }, [.access data.length])
  else if data = [] then (s.fault, [.access 0])
  else if dump then (s, .access data.length :: firsts data.length ++ [.printed (dumpPacket data)])
  else
    (s, .access data.length :: firsts ((cstr data).length + 1) ++
      [.printed (['R', 'E', 'C', 'V', ':', ' '].map ch ++ cstr data)])

/-- The loop of `mcast_server`. -/
def mcastServer (dump : Bool) : Machine Server Turn Obs where
  step s i :=
    if s.phase = .serving then
      match i with
      | .timeout => (s, [])
      | .interrupted => (s.fault, [])
      | .selectFailed => ({ s with phase := .left }, [])
      | .unset => (s.fault, [])
      | .readable none => ({ s with phase := .undefined }, [.access (-1)])
      | .readable (some datagram) =>
          let data := datagram.take BUFFER
          let (s, obs) := s.received dump data
          (s, firsts data.length ++ obs)
    else (s, [])

def serving : Server := ⟨.serving, 0⟩

/-- A timeout, or a datagram of at most `n` bytes. -/
def Turn.Within (n : Nat) : Turn → Prop
  | .timeout => True
  | .readable (some datagram) => datagram.length ≤ n
  | _ => False

instance (n : Nat) : DecidablePred (Turn.Within n) := fun i => by
  cases i with
  | readable d => cases d <;> (unfold Turn.Within; infer_instance)
  | _ => unfold Turn.Within; infer_instance

/-- The empty datagrams among them. -/
def empties (is : List Turn) : Nat := is.countP fun | .readable (some []) => true | _ => false

/-! ## Short datagrams -/

theorem access_firsts {i : Int} {n : Nat} (h : .access i ∈ firsts n) : 0 ≤ i ∧ i < n := by
  obtain ⟨k, hk, heq⟩ := List.mem_map.1 h
  cases heq
  have := List.mem_range.1 hk
  omega

theorem length_cstr_le (data : List Byte) : (cstr data).length ≤ data.length := by
  unfold cstr
  exact (List.takeWhile_prefix _).length_le

/-- The accesses of a text that is printed: its NUL is stored, and its `m` bytes are read. -/
theorem access_shown {k n : Int} {m : Nat} {text : List Byte}
    (hk : .access k ∈ .access n :: firsts m ++ [.printed text]) : k = n ∨ (0 ≤ k ∧ k < m) := by
  rw [List.cons_append, List.mem_cons, List.mem_append, List.mem_singleton] at hk
  rcases hk with hk | hk | hk
  · cases hk
    exact Or.inl rfl
  · exact Or.inr (access_firsts hk)
  · cases hk

theorem received_short (dump : Bool) (s : Server) {data : List Byte} (h : data.length ≤ 255) :
    (∀ k, .access k ∈ (s.received dump data).2 → 0 ≤ k ∧ k ≤ 255) ∧
      (s.received dump data).1 = if data = [] then s.fault else s := by
  have hcstr := length_cstr_le data
  unfold Server.received
  rw [if_neg (by unfold BUFFER; omega)]
  split_ifs with hnil hdump
  · refine ⟨fun k hk => ?_, rfl⟩
    cases List.mem_singleton.1 hk
    omega
  · refine ⟨fun k hk => ?_, rfl⟩
    have := access_shown hk
    omega
  · refine ⟨fun k hk => ?_, rfl⟩
    have := access_shown hk
    omega

theorem step_readable (dump : Bool) {s : Server} (hs : s.phase = .serving) {data : List Byte}
    (h : data.length ≤ BUFFER) : (mcastServer dump).step s (.readable (some data)) =
      ((s.received dump data).1, firsts data.length ++ (s.received dump data).2) := by
  unfold mcastServer
  dsimp only
  rw [if_pos hs, List.take_of_length_le h]

/-- One turn of a server that serves: its accesses, and what it counts. -/
theorem served_step (dump : Bool) {s : Server} {i : Turn} (hs : s.phase = .serving) (hi : i.Within 255) :
    (∀ k, .access k ∈ ((mcastServer dump).step s i).2 → 0 ≤ k ∧ k ≤ 255) ∧
      ((mcastServer dump).step s i).1 = if empties [i] = 1 then s.fault else s := by
  cases i with
  | timeout =>
      unfold mcastServer
      dsimp only
      rw [if_pos hs]
      exact ⟨fun k hk => absurd hk List.not_mem_nil, rfl⟩
  | readable datagram =>
      cases datagram with
      | none => exact hi.elim
      | some data =>
          have hlen : data.length ≤ 255 := hi
          obtain ⟨haccess, hself⟩ := received_short dump s hlen
          rw [step_readable dump hs (by unfold BUFFER; omega)]
          refine ⟨fun k hk => ?_, ?_⟩
          · rcases List.mem_append.1 hk with hk | hk
            · have := access_firsts hk
              omega
            · exact haccess k hk
          · rw [hself]
            cases data with
            | nil => rfl
            | cons b data => rfl
  | interrupted => exact hi.elim
  | selectFailed => exact hi.elim
  | unset => exact hi.elim

/-- What a server has counted of the turns `is`. -/
structure Counted (is : List Turn) (s : Server) : Prop where
  phase : s.phase = if empties is < 5 then .serving else .left
  faults : s.faults = min (empties is) 5

theorem Counted.turn {is : List Turn} {s : Server} {i : Turn} (h : Counted is s) (dump : Bool) (hi : i.Within 255) :
    (∀ k, .access k ∈ ((mcastServer dump).step s i).2 → 0 ≤ k ∧ k ≤ 255) ∧
      Counted (is ++ [i]) ((mcastServer dump).step s i).1 := by
  have hphase := h.phase
  have hfaults := h.faults
  have hempties : empties (is ++ [i]) = empties is + empties [i] := List.countP_append
  have hone : empties [i] ≤ 1 := List.countP_le_length
  by_cases hs : empties is < 5
  · rw [if_pos hs] at hphase
    obtain ⟨haccess, hnext⟩ := served_step dump hphase hi
    refine ⟨haccess, ?_⟩
    rw [Nat.min_eq_left (by omega)] at hfaults
    rw [hnext]
    by_cases hempty : empties [i] = 1
    · rw [if_pos hempty]
      refine ⟨?_, ?_⟩
      · rw [hempties, hempty, ← hfaults]
        rfl
      · rw [hempties, hempty, ← hfaults]
        show s.faults + 1 = _
        omega
    · rw [if_neg hempty]
      have hsame : empties (is ++ [i]) = empties is := by omega
      refine ⟨?_, ?_⟩
      · rw [hsame, if_pos hs]
        exact hphase
      · omega
  · rw [if_neg hs] at hphase
    have hstep : (mcastServer dump).step s i = (s, []) := by
      unfold mcastServer
      dsimp only
      rw [hphase]
      rfl
    rw [hstep]
    refine ⟨fun k hk => absurd hk List.not_mem_nil, ?_, ?_⟩
    · rw [if_neg (by omega)]
      exact hphase
    · show s.faults = _
      omega

/-- While datagrams have at most 255 bytes, only the elements of `buffer` are touched, and the loop goes on until the
fifth empty datagram. -/
theorem served (dump : Bool) (is : List Turn) (his : ∀ i ∈ is, i.Within 255) :
    (∀ k, .access k ∈ ((mcastServer dump).run serving is).2 → 0 ≤ k ∧ k ≤ 255) ∧
      ((mcastServer dump).run serving is).1.phase = if empties is < 5 then .serving else .left := by
  have hinv := (mcastServer dump).run_inputs_inv (r := serving)
    (J := fun is h s => (∀ i ∈ is, i.Within 255) → (∀ k, .access k ∈ h → 0 ≤ k ∧ k ≤ 255) ∧ Counted is s)
    (fun _ => ⟨fun k hk => absurd hk List.not_mem_nil, rfl, rfl⟩) (fun is h s i hinv his => ?_) is his
  · exact ⟨hinv.1, hinv.2.phase⟩
  · obtain ⟨haccess, hcounted⟩ := hinv fun j hj => his j (List.mem_append_left _ hj)
    obtain ⟨hturn, hcounted⟩ := hcounted.turn dump (his i (by simp))
    refine ⟨fun k hk => ?_, hcounted⟩
    rcases List.mem_append.1 hk with hk | hk
    · exact haccess k hk
    · exact hturn k hk

/-- No more than four empty datagrams. -/
theorem served_datagrams :
    (∀ k, .access k ∈ ((mcastServer true).run serving
        [.readable (some []), .timeout, .readable (some (List.replicate 3 0x41))]).2 → 0 ≤ k ∧ k ≤ 255) ∧
      ((mcastServer true).run serving
        [.readable (some []), .timeout, .readable (some (List.replicate 3 0x41))]).1.phase = .serving :=
  served true _ (by decide)

/-! ## Datagrams in a dump -/

theorem printed_append (a b : List Obs) : printed (a ++ b) = printed a ++ printed b := List.flatMap_append

theorem printed_firsts (n : Nat) : printed (firsts n) = [] := by
  unfold printed firsts
  rw [List.flatMap_eq_nil_iff]
  intro o ho
  obtain ⟨i, _, rfl⟩ := List.mem_map.1 ho
  rfl

theorem printed_step {s : Server} (hs : s.phase = .serving) {data : List Byte} (h : data.length ≤ BUFFER) :
    printed ((mcastServer true).step s (.readable (some data))).2 =
      if data = [] ∨ data.length = BUFFER then [] else dumpPacket data := by
  rw [step_readable true hs h, printed_append, printed_firsts, List.nil_append]
  unfold Server.received
  by_cases hfull : data.length = BUFFER
  · rw [if_pos hfull, if_pos (Or.inr hfull)]
    rfl
  · rw [if_neg hfull]
    by_cases hnil : data = []
    · rw [if_pos hnil, if_pos (Or.inl hnil)]
      rfl
    · rw [if_neg hnil, if_pos rfl, if_neg (by simp [hnil, hfull])]
      show printed ([.access data.length] ++ firsts data.length ++ [.printed (dumpPacket data)]) = _
      rw [printed_append, printed_append, printed_firsts]
      exact List.append_nil _

/-- The server prints a datagram of ASCII that leaves room for its NUL, and no other. -/
theorem readHex_step {s : Server} (hs : s.phase = .serving) {data : List Byte} (h : data.length ≤ BUFFER) :
    readHex (printed ((mcastServer true).step s (.readable (some data))).2) = some data ↔
      (∀ c ∈ data, c < 0x80) ∧ data.length < BUFFER := by
  rw [printed_step hs h]
  by_cases hnil : data = []
  · rw [if_pos (Or.inl hnil), hnil]
    exact ⟨fun _ => ⟨fun c hc => absurd hc List.not_mem_nil, by decide⟩, fun _ => rfl⟩
  · by_cases hfull : data.length = BUFFER
    · rw [if_pos (Or.inr hfull)]
      refine ⟨fun heq => ?_, fun ⟨_, hlt⟩ => ?_⟩
      · exact absurd (Option.some.inj heq).symm hnil
      · omega
    · rw [if_neg (by simp [hnil, hfull]), readHex_dumpPacket]
      refine ⟨fun hascii => ⟨hascii, ?_⟩, fun hascii => hascii.1⟩
      omega

/-! ## Datagrams that fill the buffer -/

theorem access_full (dump : Bool) {s : Server} {data : List Byte} (hs : s.phase = .serving) (h : BUFFER ≤ data.length) :
    .access 256 ∈ ((mcastServer dump).step s (.readable (some data))).2 := by
  have hlen : (data.take BUFFER).length = BUFFER := by rw [List.length_take, Nat.min_eq_left h]
  unfold mcastServer
  dsimp only
  rw [if_pos hs]
  unfold Server.received
  rw [if_pos hlen, hlen]
  exact List.mem_append_right _ (List.mem_singleton_self _)

theorem access_run_full (dump : Bool) {s : Server} {data : List Byte} (hs : s.phase = .serving)
    (h : BUFFER ≤ data.length) : .access 256 ∈ ((mcastServer dump).run s [.readable (some data)]).2 := by
  rw [Machine.run_cons, Machine.run_nil, List.append_nil]
  exact access_full dump hs h

theorem within_full {data : List Byte} (h : data.length = BUFFER) :
    ∀ i ∈ [Turn.readable (some data)], i.Within 65507 := by
  rw [List.forall_mem_singleton]
  show data.length ≤ 65507
  rw [h]
  unfold BUFFER
  omega

/-- Five empty datagrams end the loop, and the NUL behind a datagram of 256 bytes is stored behind the buffer. -/
theorem not_served :
    (∀ i ∈ List.replicate 5 (Turn.readable (some [])), i.Within 65507) ∧
      ((mcastServer false).run serving (List.replicate 5 (.readable (some [])))).1.phase = .left ∧
      (∀ i ∈ [Turn.readable (some (List.replicate BUFFER 0x41))], i.Within 65507) ∧
      .access 256 ∈ ((mcastServer false).run serving [.readable (some (List.replicate BUFFER 0x41))]).2 := by
  refine ⟨by decide, by decide, within_full List.length_replicate, ?_⟩
  exact access_run_full false (s := serving) rfl List.length_replicate.ge

end SysSnippets.Multicast
