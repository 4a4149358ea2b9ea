import SysSnippets.Lib.Ledger
import SysSnippets.Lib.Text
import Mathlib.Data.List.Basic

/-!
# The netlink monitor `eth_monitor.c`

One step is one call of `waitForEvent`; what its calls return is the input.

* `getIfname` : `get_ifname`;
* `walk` : the loop over the messages of a datagram, by `NLMSG_OK` and `NLMSG_NEXT` on the buffer;
* `owned` : the ledger of descriptors and heap blocks;
* `same_iff` : what is held at each return to the top of the loop.
-/

namespace SysSnippets.Rtnetlink
open SysSnippets.Lib

def NL_POLL_MSG_SZ : Nat := 8 * 1024

def NLMSG_ERROR : Nat := 0x2

def NLMSG_DONE : Nat := 0x3

/-- `sizeof(struct nlmsghdr)` -/
def NLMSG_HDRLEN : Nat := 16

inductive Obs
  /-- `buff` -/
  | malloc
  | socket
  /-- `SIOCGIFNAME` on an open socket or on -1, and whether it succeeds -/
  | ioctl (onSocket : Bool) (ok : Bool)
  | close
  | strdup (text : List Byte)
  | event (name : Option (List Byte)) (index : U32) (type : Nat)

/-! ## `get_ifname` -/

/-- What the calls of `get_ifname` return. An ioctl on -1 fails. -/
structure Answers where
  socket : Bool
  ioctl : Option (List Byte)
  strdup : Bool

def Answers.copy (a : Answers) (text : List Byte) : Option (List Byte) × List Obs :=
  if a.strdup then (some text, [.strdup text]) else (none, [])

/-- `get_ifname` -/
def getIfname (a : Answers) : Option (List Byte) × List Obs :=
  match a.socket, a.ioctl with
  | true, some name =>
      let (copy, obs) := a.copy name
      (copy, .socket :: .ioctl true true :: .close :: obs)
  | true, none =>
      let (copy, obs) := a.copy (['n', 'o', 'n', 'e'].map ch)
      (copy, .socket :: .ioctl true false :: obs)
  | false, _ =>
      let (copy, obs) := a.copy (['n', 'o', 'n', 'e'].map ch)
      (copy, .ioctl false false :: obs)

/-! ## `waitForEvent` -/

section Walk
variable (buff : Nat → Byte)

/-- The number in `n` bytes at `i`. -/
def readLE (i : Nat) : Nat → Nat
  | 0 => 0
  | n + 1 => (buff i).toNat + 256 * readLE (i + 1) n

def nlmsgLen (nh : Nat) : Nat := readLE buff nh 4

def nlmsgType (nh : Nat) : Nat := readLE buff (nh + 4) 2

def ifiIndex (nh : Nat) : U32 := BitVec.ofNat 32 (readLE buff (nh + NLMSG_HDRLEN + 4) 4)

/-- `NLMSG_ALIGN` -/
def nlmsgAlign (n : Nat) : Nat := (n + 3) / 4 * 4

/-- `NLMSG_OK` -/
def NlmsgOk (nh : Nat) (len : Int) : Prop :=
  NLMSG_HDRLEN ≤ len ∧ NLMSG_HDRLEN ≤ nlmsgLen buff nh ∧ nlmsgLen buff nh ≤ len

instance (nh : Nat) (len : Int) : Decidable (NlmsgOk buff nh len) :=
  inferInstanceAs (Decidable (_ ∧ _ ∧ _))

/-- How a call ends. -/
inductive Outcome
  | returned
  | exited
  /-- `ifi_index` is read behind the end of the buffer -/
  | undefined
  deriving DecidableEq

theorem walk_decreasing {nh : Nat} {len : Int} (h : NlmsgOk buff nh len) :
    (len - nlmsgAlign (nlmsgLen buff nh)).toNat < len.toNat := by
  obtain ⟨hlen, hhdr, -⟩ := h
  unfold NLMSG_HDRLEN at hlen hhdr
  unfold nlmsgAlign
  omega

/-- The loop over the messages from `nh` on. The `n`-th of the datagram gets `answers n` for its name. -/
def walk (answers : Nat → Answers) (n nh : Nat) (len : Int) : Outcome × List Obs :=
  if _ : NlmsgOk buff nh len then
    if nlmsgType buff nh = NLMSG_DONE then (.exited, [])
    else if nlmsgType buff nh = NLMSG_ERROR then (.exited, [])
    else if NL_POLL_MSG_SZ < nh + NLMSG_HDRLEN + 8 then (.undefined, [])
    else
      let (name, obs) := getIfname (answers n)
      let rest := walk answers (n + 1) (nh + nlmsgAlign (nlmsgLen buff nh)) (len - nlmsgAlign (nlmsgLen buff nh))
      (rest.1, obs ++ .event name (ifiIndex buff nh) (nlmsgType buff nh) :: rest.2)
  else (.returned, [])
termination_by len.toNat
decreasing_by
  next hok _ _ _ => exact walk_decreasing buff hok

end Walk

/-- What the calls of `waitForEvent` return. `malloc` gives a block, with what is in it; `recvmsg` stores no more than
fits. -/
structure Call where
  malloc : Option (Nat → Byte)
  recvmsg : Option (List Byte)
  names : Nat → Answers

/-- The buffer after `recvmsg`. -/
def stored (heap : Nat → Byte) (datagram : List Byte) : Nat → Byte := fun i => datagram.getD i (heap i)

/-- `waitForEvent` -/
def waitForEvent (c : Call) : Outcome × List Obs :=
  match c.malloc with
  | none => (.exited, [])
  | some heap =>
      match c.recvmsg with
      | none => (.returned, [.malloc])
      | some datagram =>
          let datagram := datagram.take NL_POLL_MSG_SZ
          let (outcome, obs) := walk (stored heap datagram) c.names 0 0 datagram.length
          (outcome, .malloc :: obs)

/-- The loop of `main`. The state says whether it is at its top. -/
def monitor : Machine Bool Call Obs where
  step top c :=
    if top then
      let (outcome, obs) := waitForEvent c
      (outcome = .returned, obs)
    else (false, [])

/-! ## What is held -/

inductive Resource
  | descriptor
  | block
  deriving DecidableEq

/-- `free` is not called anywhere. -/
def owned : Ledger Obs Resource where
  creates
    | .malloc | .strdup _ => [.block]
    | .socket => [.descriptor]
    | _ => []
  uses _ := []
  releases
    | .close => [.descriptor]
    | _ => []
  opens _ := false

/-- The names that were copied. -/
def copies (h : List Obs) : Nat := h.countP fun | .strdup _ => true | _ => false

/-- The ioctls that failed on an open socket. -/
def unresolved (h : List Obs) : Nat := h.countP fun | .ioctl true false => true | _ => false

theorem copies_append (h₁ h₂ : List Obs) : copies (h₁ ++ h₂) = copies h₁ + copies h₂ := List.countP_append

theorem unresolved_append (h₁ h₂ : List Obs) : unresolved (h₁ ++ h₂) = unresolved h₁ + unresolved h₂ :=
  List.countP_append

/-- What a call of `get_ifname` leaves behind. -/
theorem balance_getIfname (a : Answers) :
    owned.balance .descriptor (getIfname a).2 = unresolved (getIfname a).2 ∧
      owned.balance .block (getIfname a).2 = copies (getIfname a).2 := by
  obtain ⟨socket, name, strdup⟩ := a
  cases socket <;> cases name <;> cases strdup <;> exact ⟨rfl, rfl⟩

/-- What the loop over a datagram leaves behind. -/
theorem balance_walk (buff : Nat → Byte) (answers : Nat → Answers) (n nh : Nat) (len : Int) :
    owned.balance .descriptor (walk buff answers n nh len).2 = unresolved (walk buff answers n nh len).2 ∧
      owned.balance .block (walk buff answers n nh len).2 = copies (walk buff answers n nh len).2 := by
  fun_induction walk buff answers n nh len with
  | case1 => exact ⟨rfl, rfl⟩
  | case2 => exact ⟨rfl, rfl⟩
  | case3 => exact ⟨rfl, rfl⟩
  | case4 n nh len hok _ _ _ name obs hget rest ih =>
      obtain ⟨hdescriptor, hblock⟩ := balance_getIfname (answers n)
      rw [hget] at hdescriptor hblock
      have hevent : ∀ o, owned.balance o (.event name (ifiIndex buff nh) (nlmsgType buff nh) :: rest.2) =
          owned.balance o rest.2 := by
        intro o
        rw [Ledger.balance_cons]
        exact Int.zero_add _
      constructor
      · rw [Ledger.balance_append, hevent, hdescriptor, ih.1, unresolved_append]
        exact (Int.natCast_add _ _).symm
      · rw [Ledger.balance_append, hevent, hblock, ih.2, copies_append]
        exact (Int.natCast_add _ _).symm
  | case5 => exact ⟨rfl, rfl⟩

theorem balance_waitForEvent (c : Call) :
    owned.balance .descriptor (waitForEvent c).2 = unresolved (waitForEvent c).2 ∧
      ((waitForEvent c).1 = .returned →
        owned.balance .block (waitForEvent c).2 = 1 + copies (waitForEvent c).2) := by
  unfold waitForEvent
  split
  · exact ⟨rfl, fun h => nomatch h⟩
  · next heap _ =>
    split
    · exact ⟨rfl, fun _ => rfl⟩
    · next datagram _ =>
      obtain ⟨hdescriptor, hblock⟩ := balance_walk (stored heap (datagram.take NL_POLL_MSG_SZ)) c.names 0 0
        (datagram.take NL_POLL_MSG_SZ).length
      constructor
      · rw [Ledger.balance_cons, hdescriptor]
        exact Int.zero_add _
      · intro _
        rw [Ledger.balance_cons, hblock]
        rfl

/-! ## Runs -/

/-- Each call that comes back to the top of the loop has kept its buffer, the names it copied and the sockets whose
ioctl failed. -/
theorem held (cs : List Call) (h : (monitor.run true cs).1 = true) :
    owned.balance .descriptor (monitor.run true cs).2 = unresolved (monitor.run true cs).2 ∧
      owned.balance .block (monitor.run true cs).2 = cs.length + copies (monitor.run true cs).2 := by
  revert h
  refine monitor.run_inputs_inv (J := fun cs h top => top = true →
    owned.balance .descriptor h = unresolved h ∧ owned.balance .block h = cs.length + copies h)
    (fun _ => ⟨rfl, rfl⟩) (fun cs h top c hinv hnext => ?_) cs
  cases top with
  | false => exact nomatch hnext
  | true =>
      obtain ⟨hdescriptor, hblock⟩ := hinv rfl
      obtain ⟨hdescriptor', hblock'⟩ := balance_waitForEvent c
      have hreturned : (waitForEvent c).1 = .returned := of_decide_eq_true hnext
      constructor
      · rw [Ledger.balance_append, hdescriptor, unresolved_append, Int.natCast_add]
        exact congrArg _ hdescriptor'
      · rw [Ledger.balance_append, hblock, copies_append, List.length_append, List.length_singleton,
          show (monitor.step true c).2 = (waitForEvent c).2 from rfl, hblock' hreturned]
        omega

/-- What is held is the same at every return to the top of the loop. -/
def SameAtTop (cs : List Call) (r : Resource) : Prop :=
  ∀ js, js <+: cs → (monitor.run true js).1 = true → owned.balance r (monitor.run true js).2 = 0

/-- Blocks are kept by every call that returns, a descriptor by every ioctl that fails. -/
theorem same_iff (cs : List Call) :
    ((∀ r, SameAtTop cs r) ↔ ∀ js, js <+: cs → js ≠ [] → (monitor.run true js).1 = false) ∧
      (SameAtTop cs .descriptor ↔
        ∀ js, js <+: cs → (monitor.run true js).1 = true → unresolved (monitor.run true js).2 = 0) ∧
      ∀ js, js <+: cs → (monitor.run true js).1 = true →
        js.length ≤ owned.balance .block (monitor.run true js).2 := by
  have hblocks : ∀ js, js <+: cs → (monitor.run true js).1 = true →
      js.length ≤ owned.balance .block (monitor.run true js).2 := by
    intro js _ htop
    rw [(held js htop).2]
    omega
  refine ⟨⟨fun hsame js hjs hne => ?_, fun hstop r js hjs htop => ?_⟩, ?_, hblocks⟩
  · by_contra htop
    rw [Bool.not_eq_false] at htop
    have hpos := List.length_pos_of_ne_nil hne
    have hle := hblocks js hjs htop
    rw [hsame .block js hjs htop] at hle
    omega
  · by_cases hne : js = []
    · rw [hne]
      rfl
    · rw [hstop js hjs hne] at htop
      exact nomatch htop
  · apply forall_congr'
    intro js
    apply imp_congr_right
    intro _
    apply imp_congr_right
    intro htop
    rw [(held js htop).1]
    omega

/-- `RTM_DELLINK` for interface 5, which is gone. -/
def dellink : Call where
  malloc := some fun _ => 0
  recvmsg := some ([32, 0, 0, 0, 16 + 1, 0, 0, 0, 0, 0, 0, 0, 0, 0, 0, 0] ++ [0, 0, 1, 0, 5, 0, 0, 0, 0, 0, 0, 0, 0, 0, 0, 0])
  names := fun _ => ⟨true, none, true⟩

/-- The monitor keeps a socket, its buffer and a copy of `none`. -/
theorem not_same : ¬ SameAtTop [dellink] .descriptor ∧ ¬ SameAtTop [dellink] .block := by
  have hcall : waitForEvent dellink =
      (.returned, [.malloc, .socket, .ioctl true false, .strdup (['n', 'o', 'n', 'e'].map ch),
        .event (some (['n', 'o', 'n', 'e'].map ch)) 5 17]) := by
    unfold waitForEvent
    dsimp only [dellink]
    rw [walk, dif_pos (by decide), if_neg (by decide), if_neg (by decide), if_neg (by decide), walk,
      dif_neg (by decide)]
    rfl
  have hrun : monitor.run true [dellink] = (true, (waitForEvent dellink).2) := by
    rw [Machine.run_cons, Machine.run_nil, List.append_nil]
    unfold monitor
    simp only [if_true, hcall, decide_true]
  constructor
  all_goals
    intro h
    have hzero := h _ (List.prefix_refl _) (by rw [hrun])
    rw [hrun, hcall] at hzero
    exact absurd hzero (by decide)

end SysSnippets.Rtnetlink
