import SysSnippets.Lib.Lines
import SysSnippets.Lib.Loop
import SysSnippets.Lib.Text

/-!
# The client of the multicast tool in Rust

* `mcastClient` : the loop of `mcast_client`, on a socket that is set up;
* `onePacketPerLine_iff` : when a client that waits for lines sends one packet for each;
* `sends_on` : what it does at the end of the input.
-/

namespace SysSnippets.Multicast.RustClient
open SysSnippets.Lib

/-- The fields of `Opt::Client` that the loop reads. -/
structure Opt where
  message : List Byte
  cont : Bool

structure Client where
  /-- what is left of the standard input -/
  stdin : List Byte
  nop : List Byte
  cnt : U32
  /-- what the calls of `send_to` return from here on -/
  sent : Nat → Bool

inductive Event
  | send (packet : List Byte)
  /-- `Ok(())` or an `Err` -/
  | returned (ok : Bool)
  /-- `attempt to add with overflow` -/
  | panicked
  deriving DecidableEq

/-- `format!("{}:{}\n", message, cnt)` -/
def packet (message : List Byte) (cnt : U32) : List Byte :=
  message ++ ch ':' :: decimal cnt.toNat ++ [ch '\n']

/-- The end of an iteration: the packet is sent and counted. A build with overflow checks panics at the last count. -/
def Client.sendTo (checked : Bool) (message : List Byte) (c : Client) : List Event × Option Client :=
  if c.sent 0 = false then ([.send (packet message c.cnt), .returned false], none)
  else if checked ∧ c.cnt = BitVec.allOnes 32 then ([.send (packet message c.cnt), .panicked], none)
  else ([.send (packet message c.cnt)], some { c with cnt := c.cnt + 1, sent := fun n => c.sent (n + 1) })

/-- `stdin().read_line(&mut nop)`: appends a line with its newline, and what is left at the end of the input. -/
def Client.readLine (c : Client) : Option Client :=
  let (line, rest) := Lib.readLine (ch '\n') c.stdin.length c.stdin
  if validUtf8 line then some { c with stdin := rest, nop := c.nop ++ line } else none

/-- The loop of `mcast_client`. -/
def mcastClient (checked : Bool) (opt : Opt) : Loop Client Event where
  step c :=
    if opt.cont then c.sendTo checked opt.message
    else
      match c.readLine with
      | none => ([.returned false], none)
      | some c => if c.nop = [] then ([.returned true], none) else c.sendTo checked opt.message

/-- Where the loop starts, with calls of `send_to` that succeed. -/
def start (stdin : List Byte) : Client := ⟨stdin, [], 0, fun _ => true⟩

/-- The first `n` packets. -/
def packets (message : List Byte) (n : Nat) : List Event :=
  (List.range n).map fun k => .send (packet message (BitVec.ofNat 32 k))

/-! ## The end of the input -/

section Loop
variable {checked : Bool} {opt : Opt} {c c' : Client} {t : List Event}

theorem readLine_some (h : c.readLine = some c') :
    ∃ line, c'.nop = c.nop ++ line ∧ (line = [] ↔ c.stdin = []) ∧ c'.cnt = c.cnt := by
  unfold Client.readLine at h
  dsimp only at h
  split_ifs at h with hutf
  cases h
  refine ⟨_, rfl, ⟨fun hline => ?_, fun hstdin => ?_⟩, rfl⟩
  · by_contra hne
    exact readLine_ne_nil (ch '\n') (by simpa using hne) hne hline
  · rw [hstdin]
    rfl

theorem sendTo_nop (h : c.sendTo checked opt.message = (t, some c')) : c'.nop = c.nop := by
  unfold Client.sendTo at h
  split_ifs at h
  all_goals cases h
  rfl

theorem sendTo_returned : .returned true ∉ (c.sendTo checked opt.message).1 := by
  unfold Client.sendTo
  split_ifs <;> simp

/-- Before a line is read `nop` is empty; afterwards it never is. -/
def Filled (c : Client) : Prop := c.nop ≠ [] ∨ c.stdin ≠ []

theorem filled_readLine (h : Filled c) (hread : c.readLine = some c') : c'.nop ≠ [] := by
  obtain ⟨line, hnop, hline, -⟩ := readLine_some hread
  rw [hnop, ne_eq, List.append_eq_nil_iff, hline]
  exact fun hempty => h.elim (fun hne => hne hempty.1) fun hne => hne hempty.2

theorem step_line (hcont : opt.cont = false) (hread : c.readLine = some c') :
    (mcastClient checked opt).step c =
      if c'.nop = [] then ([.returned true], none) else c'.sendTo checked opt.message := by
  show (if opt.cont = true then _ else _) = _
  rw [hcont, if_neg Bool.false_ne_true, hread]

theorem step_invalid (hcont : opt.cont = false) (hread : c.readLine = none) :
    (mcastClient checked opt).step c = ([.returned false], none) := by
  show (if opt.cont = true then _ else _) = _
  rw [hcont, if_neg Bool.false_ne_true, hread]

theorem filled_step (hcont : opt.cont = false) (h : Filled c) (hstep : (mcastClient checked opt).step c = (t, some c')) :
    Filled c' := by
  cases hread : c.readLine with
  | none =>
      rw [step_invalid hcont hread] at hstep
      cases hstep
  | some d =>
      have hne := filled_readLine h hread
      rw [step_line hcont hread, if_neg hne] at hstep
      refine Or.inl ?_
      rwa [sendTo_nop hstep]

theorem filled_returned (hcont : opt.cont = false) (h : Filled c) :
    .returned true ∉ ((mcastClient checked opt).step c).1 := by
  cases hread : c.readLine with
  | none =>
      rw [step_invalid hcont hread]
      simp
  | some d =>
      rw [step_line hcont hread, if_neg (filled_readLine h hread)]
      exact sendTo_returned

/-- Behind a line the loop does not come to its regular end. -/
theorem not_returned (hcont : opt.cont = false) (h : Filled c) (hends : (mcastClient checked opt).Ends c t) :
    .returned true ∉ t := by
  rw [hends.mem_iff]
  rintro ⟨d, hd, hmem⟩
  have hfilled := hd.inv h fun c t c' hc hstep => filled_step hcont hc hstep
  exact filled_returned hcont hfilled hmem

end Loop

/-- At the end of the input `read_line` leaves `nop` as it is. -/
theorem readLine_end {c : Client} (h : c.stdin = []) : c.readLine = some c := by
  obtain ⟨stdin, nop, cnt, sent⟩ := c
  cases h
  unfold Client.readLine
  dsimp only
  rw [show Lib.readLine (ch '\n') ([] : List Byte).length [] = ([], []) from rfl, if_pos validUtf8_nil,
    List.append_nil]

/-- A client that waits for lines sends a packet for each and returns `Ok(())`, whatever the lines hold, exactly when
there are none: `nop` keeps the lines read before, and is not empty any more at the end of the input. -/
theorem onePacketPerLine_iff (checked : Bool) (message : List Byte) (ls : List (List Byte)) :
    (mcastClient checked ⟨message, false⟩).Ends (start (ls.flatMap fun l => l ++ [ch '\n']))
        (packets message ls.length ++ [.returned true]) ↔ ls = [] := by
  constructor
  · intro hends
    by_contra hne
    obtain ⟨l, rest, rfl⟩ := List.exists_cons_of_ne_nil hne
    have hfilled : Filled (start ((l :: rest).flatMap fun l => l ++ [ch '\n'])) := Or.inr (by simp [start])
    exact not_returned rfl hfilled hends (by simp)
  · rintro rfl
    exact Loop.Ends.left (step_line rfl (readLine_end (c := start []) rfl))

/-- One line is not followed by the end of the client. -/
theorem not_onePacketPerLine :
    ¬(mcastClient false ⟨['h', 'i'].map ch, false⟩).Ends (start [ch '\n'])
      (packets (['h', 'i'].map ch) 1 ++ [.returned true]) :=
  fun hends => not_returned rfl (Or.inr (List.cons_ne_nil _ _)) hends (by simp)

/-- Without overflow checks, a client that has read a line and is at the end of the input sends for ever. -/
theorem sends_on (message nop : List Byte) (hnop : nop ≠ []) (cnt : U32) (n : Nat) :
    (mcastClient false ⟨message, false⟩).iterate n ⟨[], nop, cnt, fun _ => true⟩ =
      ((List.range n).map fun k => .send (packet message (cnt + BitVec.ofNat 32 k)),
        some ⟨[], nop, cnt + BitVec.ofNat 32 n, fun _ => true⟩) := by
  induction n with
  | zero => simp
  | succ n ih =>
      have hstep : (mcastClient false ⟨message, false⟩).step ⟨[], nop, cnt + BitVec.ofNat 32 n, fun _ => true⟩ =
          ([.send (packet message (cnt + BitVec.ofNat 32 n))],
            some ⟨[], nop, cnt + BitVec.ofNat 32 (n + 1), fun _ => true⟩) := by
        rw [step_line rfl (readLine_end rfl), if_neg hnop, BitVec.ofNat_add, ← BitVec.add_assoc]
        rfl
      rw [Loop.iterate_snoc (congrArg Prod.snd ih), ih, hstep, List.range_succ, List.map_append]
      rfl

end SysSnippets.Multicast.RustClient
