import SysSnippets.Lib.Machine
import SysSnippets.Lib.Text

/-!
# The client of the multicast tools in C

`mcast_client` of `mcast4.c` and of `mcast6.c` differ in the socket options only.

* `packet` : what the client sends with a counter; `complete` : message, counter and newline in full;
* `packet_iff` : when these are the same;
* `mcastClient` : the loop; `run_packets` : what it sends (`packets_iff`).
-/

namespace SysSnippets.Multicast
open SysSnippets.Lib

def INT_MAX : Nat := 2 ^ 31 - 1

/-- A string of C, without its NUL. -/
structure CString where
  bytes : List Byte
  zero_notMem : (0 : Byte) ∉ bytes

/-! ## One packet -/

/-- The size of `pkt`. -/
def PKT (msg : CString) : Nat := msg.bytes.length + 10

/-- What `"%s:%d\n"` prints. -/
def text (msg : CString) (cnt : Nat) : List Byte := msg.bytes ++ ch ':' :: (decimal cnt ++ [ch '\n'])

/-- The bytes given to `sendto`: `strlen(pkt) + 1` of them. -/
def packet (msg : CString) (cnt : Nat) : List Byte := cstr (zeroPad (PKT msg) (text msg cnt)) ++ [0]

def complete (msg : CString) (cnt : Nat) : List Byte := text msg cnt ++ [0]

section Packet
variable (msg : CString) (cnt : Nat)

theorem zero_notMem_text : (0 : Byte) ∉ text msg cnt := by
  have hcolon : (0 : Byte) ≠ ch ':' := by decide
  have hnl : (0 : Byte) ≠ ch '\n' := by decide
  simp [text, msg.zero_notMem, zero_notMem_decimal, hcolon, hnl]

theorem length_text : (text msg cnt).length = msg.bytes.length + (decimal cnt).length + 2 := by
  unfold text
  simp only [List.length_append, List.length_cons, List.length_nil]
  omega

/-- What the buffer has no room for is cut off. -/
theorem packet_eq : packet msg cnt = (text msg cnt).take (PKT msg - 1) ++ [0] := by
  have hzero : (0 : Byte) ∉ (text msg cnt).take (PKT msg - 1) :=
    fun hmem => zero_notMem_text msg cnt (List.mem_of_mem_take hmem)
  have hpad : PKT msg - min (text msg cnt).length (PKT msg - 1) =
      PKT msg - min (text msg cnt).length (PKT msg - 1) - 1 + 1 := by
    unfold PKT
    omega
  unfold packet zeroPad
  rw [hpad, List.replicate_succ, cstr_append_zero hzero]

/-- There is room for seven digits. -/
theorem packet_iff : packet msg cnt = complete msg cnt ↔ cnt < 10 ^ 7 := by
  have hlen := length_text msg cnt
  unfold complete
  rw [packet_eq, List.append_left_inj, ← length_decimal_le_iff (by decide)]
  unfold PKT
  constructor
  · intro htake
    have hlen' := congrArg List.length htake
    rw [List.length_take] at hlen'
    omega
  · intro hdigits
    apply List.take_of_length_le
    omega

theorem complete_inj {cnt cnt' : Nat} (h : complete msg cnt = complete msg cnt') : cnt = cnt' := by
  unfold complete text at h
  rw [List.append_left_inj, List.append_right_inj, List.cons_inj_right, List.append_left_inj] at h
  exact decimal_inj h

end Packet

/-! ## The loop -/

/-- `none` is the counter behind `INT_MAX`, which C does not define. -/
structure Client where
  cnt : Option Nat
  faults : Nat

/-- The loop of `mcast_client`. An input is whether `sendto` succeeds; it shows the packet. -/
def mcastClient (msg : CString) : Machine Client Bool (List Byte) where
  step c sent :=
    if c.faults < 5 then
      match c.cnt with
      | none => (c, [])
      | some cnt =>
          ({ cnt := if cnt = INT_MAX then none else some (cnt + 1),
             faults := if sent then c.faults else c.faults + 1 }, [packet msg cnt])
    else (c, [])

def start : Client := ⟨some 0, 0⟩

/-- A run sends the packets of the counters from 0 on, at most those of an `int`. -/
theorem run_packets (msg : CString) (sents : List Bool) :
    ∃ n ≤ INT_MAX + 1, ((mcastClient msg).run start sents).2 = (List.range n).map (packet msg) := by
  have hinv := (mcastClient msg).run_inputs_inv (r := start)
    (J := fun _ h c => ∃ n ≤ INT_MAX + 1, h = (List.range n).map (packet msg) ∧
      c.cnt = if n = INT_MAX + 1 then none else some n)
    ⟨0, Nat.zero_le _, rfl, rfl⟩ (fun _ h c sent hc => ?_) sents
  · obtain ⟨n, hn, hsent, -⟩ := hinv
    exact ⟨n, hn, hsent⟩
  · obtain ⟨n, hn, rfl, hcnt⟩ := hc
    by_cases hgo : c.faults < 5 ∧ n ≤ INT_MAX
    · rw [if_neg (by omega)] at hcnt
      have hstep : (mcastClient msg).step c sent =
          ({ cnt := if n = INT_MAX then none else some (n + 1),
             faults := if sent then c.faults else c.faults + 1 }, [packet msg n]) := by
        unfold mcastClient
        dsimp only
        rw [if_pos hgo.1, hcnt]
      refine ⟨n + 1, by omega, ?_, ?_⟩
      · rw [hstep, List.range_succ, List.map_append, List.map_singleton]
      · rw [hstep]
        simp only [Nat.add_right_cancel_iff]
    · have hstep : (mcastClient msg).step c sent = (c, []) := by
        unfold mcastClient
        dsimp only
        by_cases hfaults : c.faults < 5
        · rw [if_pos hfaults, hcnt, if_pos (by omega)]
        · rw [if_neg hfaults]
      refine ⟨n, hn, ?_, ?_⟩
      · rw [hstep, List.append_nil]
      · rwa [hstep]

/-- In every run the packets carry the counters from 0 on; one is complete exactly when its counter is below 10^7, and
as long as they are, no two are the same. -/
theorem packets_iff (msg : CString) :
    (∀ cnt, packet msg cnt = complete msg cnt ↔ cnt < 10 ^ 7) ∧
      ∀ (sents : List Bool) (ps : List (List Byte)), ((mcastClient msg).run start sents).2 = ps →
        (∀ k p, ps[k]? = some p → (p = complete msg k ↔ k < 10 ^ 7)) ∧
          ∀ k l p, k < l → l < 10 ^ 7 → ps[k]? = some p → ps[l]? ≠ some p := by
  refine ⟨packet_iff msg, ?_⟩
  rintro sents ps hps
  obtain ⟨n, -, hrun⟩ := run_packets msg sents
  have hget : ∀ {k p}, ps[k]? = some p → p = packet msg k := by
    intro k p hk
    rw [← hps, hrun, List.getElem?_map] at hk
    obtain ⟨i, hi, rfl⟩ := Option.map_eq_some_iff.1 hk
    obtain ⟨-, rfl⟩ := List.getElem?_eq_some_iff.1 hi
    rw [List.getElem_range]
  refine ⟨fun k p hk => ?_, fun k l p hkl hl hk hk' => ?_⟩
  · rw [hget hk]
    exact packet_iff msg k
  · have hsame : packet msg k = packet msg l := (hget hk).symm.trans (hget hk')
    rw [(packet_iff msg k).2 (by omega), (packet_iff msg l).2 hl] at hsame
    have := complete_inj msg hsame
    omega

/-- As long as `sendto` succeeds, each turn sends a packet. -/
theorem run_succeeding (msg : CString) {n : Nat} (hn : n ≤ INT_MAX) :
    (mcastClient msg).run start (List.replicate n true) = (⟨some n, 0⟩, (List.range n).map (packet msg)) := by
  induction n with
  | zero => rfl
  | succ n ih =>
      have hstep : (mcastClient msg).step ⟨some n, 0⟩ true = (⟨some (n + 1), 0⟩, [packet msg n]) := by
        unfold mcastClient
        simp only [if_true, Nat.zero_lt_succ, show ¬n = INT_MAX by omega, if_false]
      rw [List.replicate_succ', Machine.run_append, ih (by omega), Machine.run_cons, hstep, List.range_succ,
        List.map_append]
      rfl

def hi : CString := ⟨['h', 'i'].map ch, by decide⟩

theorem packets_differ : some (packet hi 1) ≠ some (packet hi 0) :=
  ((packets_iff hi).2 [true, true] [packet hi 0, packet hi 1] rfl).2 0 1 (packet hi 0) (by decide) (by decide) rfl

/-- The packet with the counter 10^7 has no newline, and that with 10^8 is the same. -/
theorem packets_cut :
    (∃ p, ((mcastClient hi).run start (List.replicate (10 ^ 7 + 1) true)).2[10 ^ 7]? = some p ∧
      p ≠ complete hi (10 ^ 7)) ∧ packet hi (10 ^ 7) = packet hi (10 ^ 8) := by
  constructor
  · refine ⟨packet hi (10 ^ 7), ?_, fun h => absurd ((packet_iff hi _).1 h) (lt_irrefl _)⟩
    rw [run_succeeding hi (by unfold INT_MAX; omega), List.getElem?_map, List.getElem?_range (by omega)]
    rfl
  · decide

end SysSnippets.Multicast
