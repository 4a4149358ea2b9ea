import SysSnippets.Lib.Machine
import SysSnippets.Lib.Refill
import SysSnippets.Lib.Text

/-!
# The UDP receivers in Go

Each has one buffer for all datagrams, and prints all of it.

* `msgServer` : `s_msg_simple.go`; `mcastServer` : the server of `mcast4.go`, also with its option `dump`;
* `Covered` : behind the last datagram two histories left the same;
* `reports_eq_iff` : when two histories have the same line for the same last datagram;
* `dumped` : a dump shows the datagram alone.
-/

namespace SysSnippets.Udp
open SysSnippets.Lib

structure IP where
  (a b c d : Byte)
  deriving DecidableEq

def IP.IsMulticast (ip : IP) : Prop := ip.a &&& 0xf0 = 0xe0

instance (ip : IP) : Decidable ip.IsMulticast := inferInstanceAs (Decidable (_ = _))

/-- The address of a group, as the start of `mcastServer` checks it. -/
structure Group where
  ip : IP
  multicast : ip.IsMulticast

structure Datagram where
  payload : List Byte
  /-- the sender, as `%v` prints it -/
  addr : List Byte
  dst : IP

/-- `"received %v bytes from %v: %s\n"` -/
def report (size : Nat) (addr buffer : List Byte) : List Byte :=
  "received ".toList.map ch ++ decimal size ++ " bytes from ".toList.map ch ++ addr ++ ": ".toList.map ch ++ buffer ++
    [ch '\n']

/-- `"received %d bytes from %v:\n%s"` -/
def dumpReport (size : Nat) (addr dump : List Byte) : List Byte :=
  "received ".toList.map ch ++ decimal size ++ " bytes from ".toList.map ch ++ addr ++ ":\n".toList.map ch ++ dump

/-- The loop of `s_msg_simple.go`. An input is a call of `ReadFromUDP`, `none` is an error; a state without a buffer is
behind `os.Exit`. -/
def msgServer : Machine (Option (Vector Byte 256)) (Option Datagram) (List Byte) where
  step s i :=
    match s, i with
    | some buffer, some datagram =>
        let size := min datagram.payload.length 256
        let buffer := fill buffer datagram.payload
        (some buffer, [report size datagram.addr buffer.toList])
    | _, _ => (none, [])

/-- The loop of `mcastServer`; `dump` is `hex.Dump` if the option is given. -/
def mcastServer (maddr : Group) (dump : Option (List Byte → List Byte)) :
    Machine (Option (Vector Byte 1500)) (Option Datagram) (List Byte) where
  step s i :=
    match s, i with
    | some buffer, some datagram =>
        let size := min datagram.payload.length 1500
        let buffer := fill buffer datagram.payload
        (some buffer,
          if datagram.dst.IsMulticast ∧ datagram.dst = maddr.ip then
            match dump with
            | some dump => [dumpReport size datagram.addr (dump (buffer.toList.take size))]
            | none => [report size datagram.addr buffer.toList]
          else [])
    | _, _ => (none, [])

/-- What a receiver prints for a datagram behind others. -/
def reported {n : Nat} (M : Machine (Option (Vector Byte n)) (Option Datagram) (List Byte)) (h : List Datagram)
    (d : Datagram) : List (List Byte) :=
  (M.step (M.run (some (Vector.replicate n 0)) (h.map some)).1 (some d)).2

/-- Behind `d`, what the datagrams of either history left in a buffer of `n` bytes is the same. -/
def Covered (n : Nat) (h₁ h₂ : List Datagram) (d : Datagram) : Prop :=
  ∀ i < n, d.payload.length ≤ i → latest 0 (h₁.map Datagram.payload) i = latest 0 (h₂.map Datagram.payload) i

/-! ## The buffer -/

section Receiver
variable {n : Nat} {M : Machine (Option (Vector Byte n)) (Option Datagram) (List Byte)} {h h₁ h₂ : List Datagram}
  {d : Datagram}

theorem run_fills (hstep : ∀ buffer d, (M.step (some buffer) (some d)).1 = some (fill buffer d.payload))
    (h : List Datagram) (buffer : Vector Byte n) :
    (M.run (some buffer) (h.map some)).1 = some ((h.map Datagram.payload).foldl fill buffer) := by
  induction h generalizing buffer with
  | nil => rfl
  | cons d h ih =>
      rw [List.map_cons, Machine.run_cons, hstep]
      exact ih (fill buffer d.payload)

/-- A receiver that prints what it has in its buffer behind the copy. -/
theorem reported_eq (show' : Vector Byte n → Datagram → List (List Byte))
    (hstep : ∀ buffer d, M.step (some buffer) (some d) = (some (fill buffer d.payload), show' (fill buffer d.payload) d))
    (h : List Datagram) (d : Datagram) :
    reported M h d = show' ((h.map Datagram.payload ++ [d.payload]).foldl fill (Vector.replicate n 0)) d := by
  unfold reported
  rw [run_fills (fun buffer d => congrArg Prod.fst (hstep buffer d)), hstep]
  simp only [List.foldl_append, List.foldl_cons, List.foldl_nil]

theorem report_inj {size : Nat} {addr : List Byte} {b₁ b₂ : Vector Byte n} :
    [report size addr b₁.toList] = [report size addr b₂.toList] ↔ b₁ = b₂ := by
  unfold report
  rw [List.singleton_inj, List.append_cancel_right_eq, List.append_cancel_left_eq, Vector.toList_inj]

end Receiver

/-! ## Two histories -/

section Histories
variable {maddr : Group}

theorem msgServer_reported (h : List Datagram) (d : Datagram) :
    reported msgServer h d = [report (min d.payload.length 256) d.addr
      ((h.map Datagram.payload ++ [d.payload]).foldl fill (Vector.replicate 256 0)).toList] :=
  reported_eq (fun buffer d => [report (min d.payload.length 256) d.addr buffer.toList]) (fun _ _ => rfl) h d

theorem mcastServer_reported (h : List Datagram) (d : Datagram) :
    reported (mcastServer maddr none) h d = if d.dst = maddr.ip then [report (min d.payload.length 1500) d.addr
      ((h.map Datagram.payload ++ [d.payload]).foldl fill (Vector.replicate 1500 0)).toList] else [] := by
  rw [reported_eq (fun buffer d => if d.dst.IsMulticast ∧ d.dst = maddr.ip then
    [report (min d.payload.length 1500) d.addr buffer.toList] else []) (fun _ _ => rfl)]
  by_cases hdst : d.dst = maddr.ip
  · have hmulticast : d.dst.IsMulticast := hdst.symm ▸ maddr.multicast
    rw [if_pos hdst, if_pos ⟨hmulticast, hdst⟩]
  · rw [if_neg hdst, if_neg fun hboth => hdst hboth.2]

theorem msgServer_reported_eq_iff {h₁ h₂ : List Datagram} {d : Datagram} :
    reported msgServer h₁ d = reported msgServer h₂ d ↔ Covered 256 h₁ h₂ d := by
  rw [msgServer_reported, msgServer_reported, report_inj]
  exact fills_snoc_eq_iff

theorem mcastServer_reported_eq_iff {h₁ h₂ : List Datagram} {d : Datagram} :
    reported (mcastServer maddr none) h₁ d = reported (mcastServer maddr none) h₂ d ↔
      d.dst ≠ maddr.ip ∨ Covered 1500 h₁ h₂ d := by
  rw [mcastServer_reported, mcastServer_reported]
  by_cases hdst : d.dst = maddr.ip
  · rw [if_pos hdst, if_pos hdst, report_inj, fills_snoc_eq_iff]
    exact ⟨Or.inr, fun h => h.resolve_left fun hne => hne hdst⟩
  · rw [if_neg hdst, if_neg hdst]
    exact iff_of_true rfl (Or.inl hdst)

/-- For a datagram both histories have the same line exactly if what they left behind it is the same, or if no line is
printed. -/
theorem reports_eq_iff (maddr : Group) (h₁ h₂ : List Datagram) (d : Datagram) :
    (reported msgServer h₁ d = reported msgServer h₂ d ↔ Covered 256 h₁ h₂ d) ∧
      (reported (mcastServer maddr none) h₁ d = reported (mcastServer maddr none) h₂ d ↔
        d.dst ≠ maddr.ip ∨ Covered 1500 h₁ h₂ d) :=
  ⟨msgServer_reported_eq_iff, mcastServer_reported_eq_iff⟩

/-- In a dump there is the datagram alone. -/
theorem dumped (hexDump : List Byte → List Byte) (h : List Datagram) (d : Datagram) :
    reported (mcastServer maddr (some hexDump)) h d = if d.dst.IsMulticast ∧ d.dst = maddr.ip then
      [dumpReport (min d.payload.length 1500) d.addr (hexDump (d.payload.take 1500))] else [] := by
  rw [reported_eq (fun buffer d => if d.dst.IsMulticast ∧ d.dst = maddr.ip then
    [dumpReport (min d.payload.length 1500) d.addr
      (hexDump (buffer.toList.take (min d.payload.length 1500)))] else []) (fun _ _ => rfl), take_fills]

end Histories

/-! ## A longer datagram before -/

def sender : List Byte := "127.0.0.1:20002".toList.map ch

def allHosts : Group := ⟨⟨224, 0, 0, 1⟩, by decide⟩

def longer : Datagram := ⟨"hello".toList.map ch, sender, allHosts.ip⟩

def shorter : Datagram := ⟨"ab".toList.map ch, sender, allHosts.ip⟩

theorem not_covered {n : Nat} (hn : 2 < n) : ¬Covered n [longer] [] shorter := by
  intro h
  exact absurd (h 2 hn (by decide)) (by decide)

/-- Behind `hello` the datagram `ab` is printed as `abllo`. -/
theorem earlier_reported :
    reported msgServer [longer] shorter ≠ reported msgServer [] shorter ∧
      reported (mcastServer allHosts none) [longer] shorter ≠ reported (mcastServer allHosts none) [] shorter := by
  refine ⟨fun h => ?_, fun h => ?_⟩
  · exact not_covered (by omega) (msgServer_reported_eq_iff.1 h)
  · exact not_covered (by omega) ((mcastServer_reported_eq_iff.1 h).resolve_left fun hne => hne rfl)

end SysSnippets.Udp
