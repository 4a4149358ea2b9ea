import SysSnippets.Lib.Datagrams
import SysSnippets.Lib.Lines
import SysSnippets.Lib.Machine
import SysSnippets.Lib.Text

/-!
# The message programs over UDP

Any number of clients, each in C, Go or Rust, and one server in C or Rust, all on port 20001.

* `next` : what a client sends of its standard input; `Style` : the servers;
* `State.step` : clients, network and server, in any order, and `State.Move` : what can happen;
* `messages_eq` : all that a client sends.
-/

namespace SysSnippets.Udp.Messages
open SysSnippets.Lib

/-- `BUFSIZE` of the programs in C -/
def BUFSIZE : Nat := 1024

/-- `sizeof(struct sockaddr_in)` -/
def SOCKADDR_IN : U32 := 16

/-! ## The clients -/

/-- The clients: `c_udp_simple.c`, `c_udp_sg.c`, `c_msg_simple.go` and `c_std.rs`. -/
inductive Kind
  | simple
  | sg
  | go
  | rust
  deriving DecidableEq

/-- `ReadString` and `read_line`: up to a newline, or to the end. -/
def line (stdin : List Byte) : List Byte × List Byte := readLine (ch '\n') stdin.length stdin

/-- The next datagram, and what is left of the input; `none` when the client ends. -/
def next : Kind → List Byte → Option (List Byte × List Byte)
  | .simple, stdin => (fgets (ch '\n') (BUFSIZE - 2) stdin).map fun (buf, rest) => (zeroPad BUFSIZE buf, rest)
  | .sg, stdin => (fgets (ch '\n') (BUFSIZE - 2) stdin).map fun (buf, rest) => (cstr buf, rest)
  | .go, stdin => if ch '\n' ∈ (line stdin).1 then some (line stdin) else none
  | .rust, stdin => if (line stdin).1 = [] ∨ validUtf8 (line stdin).1 = false then none else some (line stdin)

theorem next_go (stdin : List Byte) :
    next .go stdin = if ch '\n' ∈ (line stdin).1 then some (line stdin) else none := rfl

theorem next_rust (stdin : List Byte) : next .rust stdin =
    if (line stdin).1 = [] ∨ validUtf8 (line stdin).1 = false then none else some (line stdin) := rfl

structure Client where
  kind : Kind
  stdin : List Byte
  running : Bool

/-! ## The servers -/

/-- The servers: `s_udp_nb.c`, `s_udp_sg.c` and `s_std.rs`. -/
inductive Style
  | nb
  | sg
  | rust
  deriving DecidableEq

namespace Style

def size : Style → Nat
  | .rust => 256
  | _ => BUFSIZE

/-- Whether it changes between blocking and non-blocking reads. -/
def toggles : Style → Bool
  | .nb => true
  | _ => false

/-- What is printed of the buffer: the string at its start, which has to end there, or all of it. -/
def shows : Style → List Byte → Option (List Byte)
  | .rust, buf => some buf
  | _, buffer => if 0 ∈ buffer then some (cstr buffer) else none

def zeros (st : Style) : List Byte := List.replicate st.size 0

/-- The buffer that a datagram is received into: in C it is cleared before, in Rust after. -/
def cleared (st : Style) (buffer : List Byte) : List Byte :=
  match st with
  | .rust => buffer
  | _ => st.zeros

def leaves (st : Style) (buffer : List Byte) : List Byte :=
  match st with
  | .rust => st.zeros
  | _ => buffer

end Style

inductive Out
  | sent (i : Nat) (payload : List Byte)
  /-- the client has come to the end of its input, or a call has failed -/
  | done (i : Nat)
  | lost (payload : List Byte)
  | duplicated (payload : List Byte)
  | arrived (payload : List Byte)
  /-- "got %d bytes", and the text -/
  | got (size : Nat) (text : List Byte)
  /-- the text does not end in the buffer -/
  | overrun
  /-- `recvfrom` takes the datagram and fails -/
  | taken (payload : List Byte)
  /-- "non-blocking recvfrom: no data" -/
  | noData
  | exit
  deriving DecidableEq

/-- What a call of `recvfrom` leaves in a buffer. -/
def received (size : Nat) (buffer payload : List Byte) : List Byte := payload.take size ++ buffer.drop payload.length

/-- What is printed of a datagram, with this in the buffer. -/
def reportOf (st : Style) (buffer payload : List Byte) : Out :=
  match st.shows buffer with
  | some text => .got (min st.size payload.length) text
  | none => .overrun

inductive Input
  /-- a client goes through its loop, with `sendto` succeeding or not -/
  | client (i : Nat) (ok : Bool)
  | lose (k : Nat)
  | duplicate (k : Nat)
  | deliver (k : Nat)
  /-- the server goes through its loop; without success the call that follows fails -/
  | server (ok : Bool)

structure State where
  clients : Nat → Client
  network : Network (List Byte)
  nonblock : Bool
  /-- where `s_udp_nb` says how long an address may be -/
  len : U32
  buffer : List Byte
  running : Bool

namespace State

/-- `s_udp_nb` gives `len` no value. -/
def init (st : Style) (len : U32) (clients : Nat → Kind × List Byte) : State where
  clients i := ⟨(clients i).1, (clients i).2, true⟩
  network := .init
  nonblock := st.toggles
  len := len
  buffer := st.zeros
  running := true

def setClient (s : State) (i : Nat) (c : Client) : State := { s with clients := Function.update s.clients i c }

def clientStep (s : State) (i : Nat) (ok : Bool) : State × List Out :=
  let c := s.clients i
  if c.running = false then (s, [])
  else
    match next c.kind c.stdin with
    | none => (s.setClient i { c with running := false }, [.done i])
    | some (payload, rest) =>
        if ok then
          ({ s.setClient i { c with stdin := rest } with network := s.network.send payload }, [.sent i payload])
        else (s.setClient i { c with stdin := rest, running := false }, [.done i])

def serverStep (st : Style) (s : State) (ok : Bool) : State × List Out :=
  if s.running = false then (s, [])
  else
    match s.network.queue with
    | [] =>
        if ok = false then ({ s with running := false }, [.exit])
        else if s.nonblock then ({ s with buffer := st.cleared s.buffer }, [.noData])
        else (s, [])
    | payload :: rest =>
        let buffer := received st.size (st.cleared s.buffer) payload
        let s := { s with network := { s.network with queue := rest }, buffer := st.leaves buffer }
        if st.toggles then
          -- `EINVAL`, when the datagram is no longer in the queue
          if s.len.toInt < 0 then ({ s with running := false }, [.taken payload, .exit])
          else
            let s := { s with len := SOCKADDR_IN }
            if ok then ({ s with nonblock := !s.nonblock }, [reportOf st buffer payload])
            else ({ s with running := false }, [reportOf st buffer payload, .exit])
        else (s, [reportOf st buffer payload])

def step (st : Style) (s : State) : Input → State × List Out
  | .client i ok => s.clientStep i ok
  | .lose k =>
      match s.network.flight[k]? with
      | some payload => ({ s with network := s.network.remove k }, [.lost payload])
      | none => (s, [])
  | .duplicate k =>
      match s.network.flight[k]? with
      | some payload => ({ s with network := s.network.send payload }, [.duplicated payload])
      | none => (s, [])
  | .deliver k =>
      match s.network.flight[k]? with
      | some payload => ({ s with network := s.network.deliver k payload }, [.arrived payload])
      | none => (s, [])
  | .server ok => s.serverStep st ok

end State

/-- A server with its clients. -/
def udp (st : Style) : Machine State Input Out := ⟨State.step st⟩

/-! ## What a step does -/

/-- What is printed of a datagram, alone. -/
def report (st : Style) (payload : List Byte) : Out := reportOf st (received st.size st.zeros payload) payload

namespace State
variable {st : Style} {s s' : State} {h out : List Out}

inductive Move (st : Style) (s : State) : State → List Out → Prop
  | idle : Move st s s []
  | done (i : Nat) (stdin : List Byte) :
      Move st s (s.setClient i ⟨(s.clients i).kind, stdin, false⟩) [.done i]
  | sent (i : Nat) (payload rest : List Byte) (hrunning : (s.clients i).running = true)
      (hnext : next (s.clients i).kind (s.clients i).stdin = some (payload, rest)) :
      Move st s { s.setClient i ⟨(s.clients i).kind, rest, true⟩ with network := s.network.send payload } [.sent i payload]
  | lost (k : Nat) (payload : List Byte) (hk : s.network.flight[k]? = some payload) :
      Move st s { s with network := s.network.remove k } [.lost payload]
  | duplicated (k : Nat) (payload : List Byte) (hk : s.network.flight[k]? = some payload) :
      Move st s { s with network := s.network.send payload } [.duplicated payload]
  | arrived (k : Nat) (payload : List Byte) (hk : s.network.flight[k]? = some payload) :
      Move st s { s with network := s.network.deliver k payload } [.arrived payload]
  | exit (hrunning : s.running = true) : Move st s { s with running := false } [.exit]
  | noData (hrunning : s.running = true) (hnonblock : s.nonblock = true) :
      Move st s { s with buffer := st.cleared s.buffer } [.noData]
  | taken (payload : List Byte) (rest : List (List Byte)) (hrunning : s.running = true)
      (hqueue : s.network.queue = payload :: rest) (htoggles : st.toggles = true) (hlen : s.len.toInt < 0) :
      Move st s { s with
          network := { s.network with queue := rest }
          buffer := st.leaves (received st.size (st.cleared s.buffer) payload)
          running := false } [.taken payload, .exit]
  | reported (payload : List Byte) (rest : List (List Byte)) (hrunning : s.running = true)
      (hqueue : s.network.queue = payload :: rest) (len : U32)
      (hlen : len = if st.toggles then SOCKADDR_IN else s.len) (nonblock running : Bool)
      (htoggle : running = true → nonblock = (s.nonblock != st.toggles)) (post : List Out)
      (hpost : post = if running then [] else [.exit]) :
      Move st s { s with
          network := { s.network with queue := rest }
          buffer := st.leaves (received st.size (st.cleared s.buffer) payload)
          len := len
          nonblock := nonblock
          running := running }
        (reportOf st (received st.size (st.cleared s.buffer) payload) payload :: post)

theorem serverStep_move (st : Style) (s : State) (ok : Bool) : Move st s (s.serverStep st ok).1 (s.serverStep st ok).2 := by
  unfold serverStep
  by_cases hrunning : s.running = true
  · rw [if_neg (by rw [hrunning]; exact Bool.noConfusion)]
    split
    · split_ifs with hok hnonblock
      · exact .exit hrunning
      · exact .noData hrunning hnonblock
      · exact .idle
    · next payload rest hqueue =>
        dsimp only
        split_ifs with htoggles hlen hok
        · exact .taken payload rest hrunning hqueue htoggles hlen
        · exact .reported payload rest hrunning hqueue _ (if_pos htoggles).symm _ s.running
            (fun _ => by rw [htoggles, Bool.bne_true]) _ (by rw [hrunning, if_pos rfl])
        · exact .reported payload rest hrunning hqueue _ (if_pos htoggles).symm _ false (fun hfalse => nomatch hfalse) _ rfl
        · exact .reported payload rest hrunning hqueue _ (if_neg htoggles).symm _ s.running
            (fun _ => by rw [Bool.not_eq_true] at htoggles; rw [htoggles, Bool.bne_false]) _ (by rw [hrunning, if_pos rfl])
  · rw [Bool.not_eq_true] at hrunning
    rw [if_pos hrunning]
    exact .idle

theorem step_move (st : Style) (s : State) (i : Input) : Move st s (s.step st i).1 (s.step st i).2 := by
  cases i with
  | client i ok =>
      change Move st s (s.clientStep i ok).1 (s.clientStep i ok).2
      unfold clientStep
      dsimp only
      by_cases hrunning : (s.clients i).running = true
      · rw [if_neg (by rw [hrunning]; exact Bool.noConfusion)]
        split
        · exact .done i _
        · next payload rest hnext =>
            split_ifs
            · rw [hrunning]
              exact .sent i payload rest hrunning hnext
            · exact .done i rest
      · rw [Bool.not_eq_true] at hrunning
        rw [if_pos hrunning]
        exact .idle
  | lose k =>
      unfold step
      dsimp only
      split
      · next payload hk => exact .lost k payload hk
      · exact .idle
  | duplicate k =>
      unfold step
      dsimp only
      split
      · next payload hk => exact .duplicated k payload hk
      · exact .idle
  | deliver k =>
      unfold step
      dsimp only
      split
      · next payload hk => exact .arrived k payload hk
      · exact .idle
  | server ok => exact serverStep_move st s ok

theorem setClient_of_ne {i j : Nat} (hji : j ≠ i) (c : Client) : (s.setClient i c).clients j = s.clients j :=
  Function.update_of_ne hji ..

theorem setClient_self (i : Nat) (c : Client) : (s.setClient i c).clients i = c := Function.update_self ..

end State

/-! ## What there is of each datagram -/

def Out.isReport : Out → Bool
  | .got _ _ => true
  | .overrun => true
  | _ => false

def reports (h : List Out) : List Out := h.filter Out.isReport

/-- The datagrams that have been sent, by all clients and by one. -/
def sents (h : List Out) : List (List Byte) := h.filterMap fun | .sent _ payload => some payload | _ => none

def sentsOf (i : Nat) (h : List Out) : List (List Byte) :=
  h.filterMap fun | .sent j payload => if j = i then some payload else none | _ => none

def losts (h : List Out) : List (List Byte) := h.filterMap fun | .lost payload => some payload | _ => none

def duplicates (h : List Out) : List (List Byte) := h.filterMap fun | .duplicated payload => some payload | _ => none

def arriveds (h : List Out) : List (List Byte) := h.filterMap fun | .arrived payload => some payload | _ => none

def takens (h : List Out) : List (List Byte) := h.filterMap fun | .taken payload => some payload | _ => none

theorem reports_append (h out : List Out) : reports (h ++ out) = reports h ++ reports out := List.filter_append ..

theorem sents_append (h out : List Out) : sents (h ++ out) = sents h ++ sents out := List.filterMap_append ..

theorem sentsOf_append (i : Nat) (h out : List Out) : sentsOf i (h ++ out) = sentsOf i h ++ sentsOf i out :=
  List.filterMap_append ..

theorem losts_append (h out : List Out) : losts (h ++ out) = losts h ++ losts out := List.filterMap_append ..

theorem duplicates_append (h out : List Out) : duplicates (h ++ out) = duplicates h ++ duplicates out :=
  List.filterMap_append ..

theorem takens_append (h out : List Out) : takens (h ++ out) = takens h ++ takens out := List.filterMap_append ..

theorem arriveds_append (h out : List Out) : arriveds (h ++ out) = arriveds h ++ arriveds out := List.filterMap_append ..

/-! ## What the clients send -/

theorem next_decreasing {kind : Kind} {stdin payload rest : List Byte} (h : next kind stdin = some (payload, rest)) :
    rest.length < stdin.length := by
  have hline : (line stdin).1 ≠ [] → (line stdin).2.length < stdin.length := by
    intro hne
    have hsplit := congrArg List.length (readLine_append (ch '\n') stdin.length stdin)
    have hpos := List.length_pos_of_ne_nil hne
    rw [List.length_append] at hsplit
    unfold line at hpos ⊢
    omega
  cases kind with
  | simple =>
      obtain ⟨⟨buf, rest'⟩, hgets, heq⟩ := Option.map_eq_some_iff.1 h
      obtain ⟨-, rfl⟩ := Prod.mk.inj heq
      exact fgets_decreasing hgets
  | sg =>
      obtain ⟨⟨buf, rest'⟩, hgets, heq⟩ := Option.map_eq_some_iff.1 h
      obtain ⟨-, rfl⟩ := Prod.mk.inj heq
      exact fgets_decreasing hgets
  | go =>
      rw [next_go] at h
      split_ifs at h with hnl
      rw [Option.some.inj h] at hnl hline
      exact hline (List.ne_nil_of_mem hnl)
  | rust =>
      rw [next_rust] at h
      split_ifs at h with hend
      rw [Option.some.inj h] at hend hline
      exact hline fun hnil => hend (Or.inl hnil)

/-- All that a client sends of its input. -/
def messages (kind : Kind) (stdin : List Byte) : List (List Byte) :=
  match _ : next kind stdin with
  | none => []
  | some (payload, rest) => payload :: messages kind rest
termination_by stdin.length
decreasing_by exact next_decreasing ‹_›

theorem messages_some {kind : Kind} {stdin payload rest : List Byte} (h : next kind stdin = some (payload, rest)) :
    messages kind stdin = payload :: messages kind rest := by
  rw [messages]
  split
  · next heq => rw [h] at heq; exact nomatch heq
  · next payload' rest' heq =>
    rw [h] at heq
    obtain ⟨rfl, rfl⟩ := Prod.mk.inj (Option.some.inj heq)
    rfl

section Lines
variable {text rest stdin payload : List Byte}

theorem line_text (h : ch '\n' ∉ text) (rest : List Byte) :
    line (text ++ ch '\n' :: rest) = (text ++ [ch '\n'], rest) := by
  have hgets := fgets_line h (n := (text ++ ch '\n' :: rest).length) (by simp) rest
  unfold fgets at hgets
  split_ifs at hgets
  exact Option.some.inj hgets

theorem readLine_unended {n : Nat} (h : ch '\n' ∉ text) (hn : text.length ≤ n) :
    readLine (ch '\n') n text = (text, []) := by
  induction n generalizing text with
  | zero =>
      rw [List.length_eq_zero_iff.1 (Nat.le_zero.1 hn)]
      rfl
  | succ n ih =>
      cases text with
      | nil => rfl
      | cons c cs =>
          rw [List.mem_cons, not_or] at h
          rw [readLine, if_neg (Ne.symm h.1), ih h.2 (Nat.le_of_succ_le_succ hn)]

theorem messages_none {kind : Kind} (h : next kind stdin = none) : messages kind stdin = [] := by
  rw [messages]
  split
  · rfl
  · next heq => rw [h] at heq; exact nomatch heq

/-- A client in C sends what it has read call by call. -/
theorem messages_fgets {kind : Kind} {pack : List Byte → List Byte} (hkind : ∀ stdin,
    next kind stdin = (fgets (ch '\n') (BUFSIZE - 2) stdin).map fun (buf, rest) => (pack buf, rest)) (stdin : List Byte) :
    messages kind stdin = (pieces (ch '\n') (BUFSIZE - 2) stdin).map pack := by
  induction hn : stdin.length using Nat.strongRecOn generalizing stdin with
  | ind n ih =>
      have hnext := hkind stdin
      cases hgets : fgets (ch '\n') (BUFSIZE - 2) stdin with
      | none =>
          rw [hgets] at hnext
          rw [messages_none hnext, pieces_none hgets]
          rfl
      | some r =>
          obtain ⟨buf, rest⟩ := r
          rw [hgets] at hnext
          rw [messages_some hnext, pieces_some hgets, List.map_cons, ih rest.length (hn ▸ fgets_decreasing hgets) rest rfl]

/-- The client in Go sends the lines that end. -/
theorem messages_go (stdin : List Byte) : messages .go stdin = ended (ch '\n') stdin := by
  induction stdin using line_induction (ch '\n') with
  | unended text htext =>
      rw [ended_nil_iff.2 htext]
      apply messages_none
      have hline : line text = (text, []) := readLine_unended htext (Nat.le_refl _)
      rw [next_go, hline]
      exact if_neg htext
  | line text rest htext ih =>
      have hnext : next .go (text ++ ch '\n' :: rest) = some (text ++ [ch '\n'], rest) := by
        rw [next_go, line_text htext]
        exact if_pos (List.mem_append_right _ List.mem_cons_self)
      rw [messages_some hnext, ih, ended_text htext]

/-- The client in Rust sends its lines up to one that is no text. -/
theorem messages_rust (stdin : List Byte) : messages .rust stdin = (lines (ch '\n') stdin).takeWhile validUtf8 := by
  induction stdin using line_induction (ch '\n') with
  | unended text htext =>
      have hline : line text = (text, []) := readLine_unended htext (Nat.le_refl _)
      by_cases hne : text = []
      · rw [hne]
        exact messages_none rfl
      · rw [lines_rest htext hne]
        cases hvalid : validUtf8 text with
        | true =>
            have hnext : next .rust text = some (text, []) := by
              rw [next_rust, hline]
              exact if_neg (by simp [hne, hvalid])
            rw [messages_some hnext, List.takeWhile_cons_of_pos hvalid, messages_none rfl]
            rfl
        | false =>
            rw [List.takeWhile_cons_of_neg (by rw [hvalid]; exact Bool.noConfusion)]
            apply messages_none
            rw [next_rust, hline]
            exact if_pos (Or.inr hvalid)
  | line text rest htext ih =>
      rw [lines_text htext]
      cases hvalid : validUtf8 (text ++ [ch '\n']) with
      | true =>
          have hnext : next .rust (text ++ ch '\n' :: rest) = some (text ++ [ch '\n'], rest) := by
            rw [next_rust, line_text htext]
            exact if_neg (by simp [hvalid])
          rw [messages_some hnext, ih, List.takeWhile_cons_of_pos hvalid]
      | false =>
          rw [List.takeWhile_cons_of_neg (by rw [hvalid]; exact Bool.noConfusion)]
          apply messages_none
          rw [next_rust, line_text htext]
          exact if_pos (Or.inr hvalid)

end Lines

/-- The datagrams of each client. -/
def sending (kind : Kind) (stdin : List Byte) : List (List Byte) :=
  match kind with
  | .simple => (pieces (ch '\n') (BUFSIZE - 2) stdin).map (zeroPad BUFSIZE)
  | .sg => (pieces (ch '\n') (BUFSIZE - 2) stdin).map cstr
  | .go => ended (ch '\n') stdin
  | .rust => (lines (ch '\n') stdin).takeWhile validUtf8

theorem messages_eq (kind : Kind) (stdin : List Byte) : messages kind stdin = sending kind stdin := by
  cases kind with
  | simple => exact messages_fgets (fun _ => rfl) stdin
  | sg => exact messages_fgets (fun _ => rfl) stdin
  | go => exact messages_go stdin
  | rust => exact messages_rust stdin

end SysSnippets.Udp.Messages
