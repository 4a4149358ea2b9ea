import SysSnippets.Lib.Text
import SysSnippets.Tcp.Agree

/-!
# The event-driven C servers and clients that send part of a line

`handle_echo` reads byte by byte to the end of a line, on a socket that was ready once. Here sockets have
contents: a schedule says what arrives before each step of the server.

* `Net.handleEcho` : `handle_echo`, which logs for each `read` whether there is something to read;
* `kernel` : sockets as a kernel for both servers;
* `Kernel.Keeps` : what each call keeps, a run keeps (`run_keeps`);
* `reads_ready` : if every call of `handle_echo` finds a whole line, or the end of the stream, then every `read`
  finds something to read.
-/

namespace SysSnippets.Tcp
open SysSnippets.Lib

abbrev MAXLEN : Nat := 100

/-- `write` of a zeroed buffer that starts with a line. -/
def block (line : List Byte) : List Byte := line ++ List.replicate (MAXLEN - line.length) 0

/-- How a stream ends: `read` returns 0, or an error. -/
inductive End
  | eof
  | error
  deriving DecidableEq

inductive Arrival
  | bytes (fd : Fd) (bs : List Byte)
  | ended (fd : Fd) (e : End)

inductive Answer
  | ok
  | interrupted
  | failed
  | connection (fd : Fd)
  deriving DecidableEq

/-- What arrives before a step, whether a connection is waiting then, and how the call ends. -/
structure Happening where
  arrivals : List Arrival
  listener : Bool
  answer : Answer

/-- The sockets of a server, and the schedule. -/
structure Net where
  unread : Fd → List Byte
  ended : Fd → Option End
  sent : Fd → List Byte
  schedule : List Happening
  /-- the `read`s so far, and whether there was a byte, an end of stream or an error -/
  reads : List (Fd × Bool)
  /-- the calls of `handle_echo` so far, and whether there was a whole line or the end -/
  calls : List (Fd × Bool)

namespace Net

def arrive (n : Net) : Arrival → Net
  | .bytes fd bs =>
      if n.ended fd = none then { n with unread := Function.update n.unread fd (n.unread fd ++ bs) } else n
  | .ended fd e => if n.ended fd = none then { n with ended := Function.update n.ended fd (some e) } else n

def arriveAll (n : Net) (as : List Arrival) : Net := as.foldl arrive n

/-- There is something to read. -/
def Readable (n : Net) (fd : Fd) : Prop := n.unread fd ≠ [] ∨ n.ended fd ≠ none

/-- A newline is among the first `room` bytes; or no more bytes than that are left before the end. -/
def Complete (n : Net) (fd : Fd) (room : Nat) : Prop :=
  ch '\n' ∈ (n.unread fd).take room ∨ n.ended fd ≠ none ∧ (n.unread fd).length ≤ room

instance (n : Net) (fd : Fd) : Decidable (n.Readable fd) := inferInstanceAs (Decidable (_ ∨ _))

instance (n : Net) (fd : Fd) (room : Nat) : Decidable (n.Complete fd room) :=
  inferInstanceAs (Decidable (_ ∨ _ ∧ _))

/-- The next step of the schedule; after its end nothing happens any more. -/
def tick (n : Net) : Net × Happening :=
  match n.schedule with
  | [] => (n, ⟨[], false, .interrupted⟩)
  | h :: hs => ({ n with schedule := hs }.arriveAll h.arrivals, h)

/-- The loop of `handle_echo`; `issued` while a `read` waits. A line of more than `MAXLEN` bytes has no defined
outcome. -/
def echoLoop (fd : Fd) : List Happening → Net → List Byte → Bool → Net × Option Int
  | [], n, _, _ => ({ n with schedule := [] }, none)
  | h :: hs, n, line, issued =>
      let n := n.arriveAll h.arrivals
      let n := if issued then n else { n with reads := n.reads ++ [(fd, decide (n.Readable fd))] }
      match n.unread fd with
      | c :: cs =>
          let n := { n with unread := Function.update n.unread fd cs }
          if line.length = MAXLEN then ({ n with schedule := hs }, none)
          else if c = ch '\n' then
            if h.answer = .failed then ({ n with schedule := hs }, some (-1))
            else ({ n with schedule := hs, sent := Function.update n.sent fd (n.sent fd ++ block (line ++ [c])) }, some 1)
          else echoLoop fd hs n (line ++ [c]) false
      | [] =>
          match n.ended fd with
          | some .eof => ({ n with schedule := hs }, some 0)
          | some .error => ({ n with schedule := hs }, some (-1))
          | none => echoLoop fd hs n line true

/-- `handle_echo` -/
def handleEcho (n : Net) (fd : Fd) : Net × Option Int :=
  echoLoop fd n.schedule { n with calls := n.calls ++ [(fd, decide (n.Complete fd MAXLEN))] } [] false

/-- The events of a descriptor. -/
def revents (n : Net) (listenfd : Fd) (listener : Bool) (fd : Fd) : BitVec 16 :=
  if fd = listenfd then if listener then POLLIN else 0
  else if n.ended fd = some .error then POLLERR
  else if n.Readable fd then POLLIN else 0

end Net

/-- Sockets as a kernel. -/
def kernel (listenfd : Fd) : Kernel Net listenfd where
  wait n :=
    let (n, h) := n.tick
    (n, match h.answer with
      | .interrupted => .interrupted
      | .failed => .failed
      | _ => .returned (n.revents listenfd h.listener))
  accept n fds :=
    let (n, h) := n.tick
    (n, match h.answer with
      | .interrupted => .interrupted
      | .connection fd => if fd ∈ fds then .failed else .connected fd
      | _ => .failed)
  getpeername n _ :=
    let (n, h) := n.tick
    (n, decide (h.answer ≠ .failed))
  handleEcho := Net.handleEcho
  close n fd :=
    { n with unread := Function.update n.unread fd [], ended := Function.update n.ended fd none }
  client_ready n revents fd hw hne := by
    have hrevents : revents = n.tick.1.revents listenfd n.tick.2.listener := by
      dsimp only at hw
      split at hw <;> cases hw
      rfl
    rw [hrevents] at hne ⊢
    unfold Net.revents at hne ⊢
    split_ifs at hne ⊢ <;> first | decide | exact absurd rfl hne
  listener_ready n revents hw hne := by
    have hrevents : revents = n.tick.1.revents listenfd n.tick.2.listener := by
      dsimp only at hw
      split at hw <;> cases hw
      rfl
    rw [hrevents] at hne ⊢
    unfold Net.revents at hne ⊢
    rw [if_pos rfl] at hne ⊢
    split_ifs at hne ⊢ with hlistener
    · decide
    · exact absurd rfl hne
  accept_fresh n fds sockfd hw := by
    dsimp only at hw
    split at hw
    · cases hw
    · split_ifs at hw with hmem
      cases hw
      exact hmem
    · cases hw

/-! ## What every call keeps -/

section Keeps
variable {σ : Type} {listenfd : Fd}

/-- The calls keep a property of the kernel's state. -/
structure Kernel.Keeps (k : Kernel σ listenfd) (I : σ → Prop) : Prop where
  wait : ∀ w, I w → I (k.wait w).1
  accept : ∀ w fds, I w → I (k.accept w fds).1
  getpeername : ∀ w fd, I w → I (k.getpeername w fd).1
  handleEcho : ∀ w fd, I w → I (k.handleEcho w fd).1
  close : ∀ w fd, I w → I (k.close w fd)

variable {k : Kernel σ listenfd} {I : σ → Prop} (hI : k.Keeps I)
include hI

theorem place_keeps (sockfd : Fd) (fds : Slot → Option Fd) (is : List Slot) {w : σ} (hw : I w) :
    I (place k sockfd fds is w).1 := by
  induction is with
  | nil => exact hw
  | cons i is ih =>
      have hpeer := hI.getpeername w sockfd hw
      unfold place
      split_ifs
      · rcases hget : k.getpeername w sockfd with ⟨w', ok⟩
        rw [hget] at hpeer
        cases ok with
        | true => exact hpeer
        | false => exact hpeer
      · exact hI.close w sockfd hw
      · exact ih

theorem serve_keeps (i : Slot) (fd : Fd) {w : σ} (hw : I w) : I (serve k i fd w).1 := by
  have hpeer := hI.getpeername w fd hw
  unfold serve
  generalize k.getpeername w fd = x at hpeer ⊢
  obtain ⟨w', ok⟩ := x
  cases ok with
  | false => exact hpeer
  | true =>
      have hecho := hI.handleEcho w' fd hpeer
      dsimp only
      generalize k.handleEcho w' fd = x at hecho ⊢
      obtain ⟨w'', ret⟩ := x
      cases ret with
      | none => exact hecho
      | some ret =>
          dsimp only
          split_ifs
          · exact hI.close w'' fd hecho
          · exact hecho

theorem serveAll_keeps (rset : Fd → Bool) (is : List Slot) :
    ∀ (w : σ) (clients : Slot → Option Fd), I w → I (Select.serveAll k rset is w clients).world := by
  induction is with
  | nil => exact fun w clients hw => hw
  | cons i is ih =>
      intro w clients hw
      unfold Select.serveAll
      cases clients i with
      | none => exact ih w clients hw
      | some fd =>
          have hserve := serve_keeps hI i fd hw
          dsimp only
          split_ifs
          · generalize serve k i fd w = x at hserve ⊢
            obtain ⟨w', served, ops⟩ := x
            cases served with
            | stopped => exact hserve
            | kept => exact ih w' clients hserve
            | closed => exact ih w' (Function.update clients i none) hserve
          · exact ih w clients hw

theorem turn_keeps {w : σ} (hw : I w) (clients : Slot → Option Fd) : I (Select.turn k w clients).world := by
  have hwait := hI.wait w hw
  unfold Select.turn
  generalize k.wait w = x at hwait ⊢
  obtain ⟨w', r⟩ := x
  cases r with
  | interrupted => exact hwait
  | failed => exact hwait
  | returned revents =>
      dsimp only
      split_ifs
      · exact hwait
      · have haccept := hI.accept w' (watched listenfd clients) hwait
        generalize k.accept w' (watched listenfd clients) = x at haccept ⊢
        obtain ⟨w'', a⟩ := x
        cases a with
        | interrupted => exact haccept
        | failed => exact haccept
        | connected sockfd =>
            have hplace := place_keeps hI sockfd clients slots haccept
            dsimp only
            generalize place k sockfd clients slots w'' = x at hplace ⊢
            obtain ⟨w₃, placed, ops⟩ := x
            cases placed with
            | exit => exact hplace
            | full => exact serveAll_keeps hI _ slots w₃ clients hplace
            | stored i => exact serveAll_keeps hI _ slots w₃ _ hplace
      · exact serveAll_keeps hI _ slots w' clients hwait

/-- **What every call keeps, a run of either server keeps.** -/
theorem run_keeps {w : σ} (hw : I w) (revents : Slot → BitVec 16) (turns : List Unit) :
    I ((sSelect k).run ⟨w, fun _ => none, true⟩ turns).1.world ∧
      I ((sPoll k).run ⟨w, fun i => ⟨none, revents i⟩, true⟩ turns).1.world := by
  have hselect : I ((sSelect k).run ⟨w, fun _ => none, true⟩ turns).1.world := by
    refine Machine.run_inv (m := sSelect k) (I := fun _ s => I s.world) ?_ turns [] _ hw
    intro _ s i hs
    unfold sSelect taking
    dsimp only
    split_ifs
    · exact turn_keeps hI hs s.clients
    · exact hs
  refine ⟨hselect, ?_⟩
  rw [(run_agree k w revents turns).2.world]
  exact hselect

end Keeps

/-! ## Reads -/

namespace Net

/-- The arrivals do not touch the logs. -/
theorem arriveAll_logs (n : Net) (as : List Arrival) :
    (n.arriveAll as).reads = n.reads ∧ (n.arriveAll as).calls = n.calls := by
  unfold arriveAll
  induction as generalizing n with
  | nil => exact ⟨rfl, rfl⟩
  | cons a as ih =>
      have ha : (n.arrive a).reads = n.reads ∧ (n.arrive a).calls = n.calls := by
        unfold arrive
        split <;> split_ifs <;> exact ⟨rfl, rfl⟩
      obtain ⟨hreads, hcalls⟩ := ih (n.arrive a)
      exact ⟨hreads.trans ha.1, hcalls.trans ha.2⟩

theorem tick_logs (n : Net) : n.tick.1.reads = n.reads ∧ n.tick.1.calls = n.calls := by
  unfold tick
  split
  · exact ⟨rfl, rfl⟩
  · exact arriveAll_logs _ _

/-- More bytes do not undo a whole line, and after the end there are none. -/
theorem complete_arrive {n : Net} {fd : Fd} {room : Nat} (h : n.Complete fd room) (a : Arrival) :
    (n.arrive a).Complete fd room := by
  unfold arrive
  cases a with
  | bytes fd' bs =>
      dsimp only
      split_ifs with hended
      · unfold Complete at h ⊢
        by_cases hfd : fd = fd'
        · subst hfd
          dsimp only
          rw [Function.update_self]
          rcases h with hline | ⟨hend, -⟩
          · rw [List.take_append]
            exact Or.inl (List.mem_append_left _ hline)
          · exact absurd hended hend
        · dsimp only
          rw [Function.update_of_ne hfd]
          exact h
      · exact h
  | ended fd' e =>
      dsimp only
      split_ifs with hended
      · unfold Complete at h ⊢
        by_cases hfd : fd = fd'
        · subst hfd
          rcases h with hline | ⟨hend, -⟩
          · exact Or.inl hline
          · exact absurd hended hend
        · dsimp only
          rw [Function.update_of_ne hfd]
          exact h
      · exact h

theorem complete_arriveAll {n : Net} {fd : Fd} {room : Nat} (h : n.Complete fd room) (as : List Arrival) :
    (n.arriveAll as).Complete fd room := by
  unfold arriveAll
  induction as generalizing n with
  | nil => exact h
  | cons a as ih => exact ih (complete_arrive h a)

/-- A whole line, or the end, can be read. -/
theorem readable_of_complete {n : Net} {fd : Fd} {room : Nat} (h : n.Complete fd room) : n.Readable fd := by
  rcases h with hline | ⟨hend, -⟩
  · exact Or.inl (List.ne_nil_of_mem (List.mem_of_mem_take hline))
  · exact Or.inr hend

/-- After a byte that is no newline, the rest of the line is still there. -/
theorem complete_tail {n n' : Net} {fd : Fd} {room : Nat} {c : Byte} {cs : List Byte}
    (h : n.Complete fd (room + 1)) (hunread : n.unread fd = c :: cs) (hc : c ≠ ch '\n')
    (hunread' : n'.unread fd = cs) (hended : n'.ended fd = n.ended fd) : n'.Complete fd room := by
  unfold Complete at h ⊢
  rw [hunread, List.take_succ_cons, List.mem_cons, List.length_cons] at h
  rw [hunread', hended]
  rcases h with (hnew | hline) | ⟨hend, hlength⟩
  · exact absurd hnew.symm hc
  · exact Or.inl hline
  · exact Or.inr ⟨hend, by omega⟩

theorem echoLoop_calls (fd : Fd) (hs : List Happening) : ∀ (n : Net) (line : List Byte) (issued : Bool),
    (echoLoop fd hs n line issued).1.calls = n.calls := by
  induction hs with
  | nil => exact fun n line issued => rfl
  | cons h hs ih =>
      intro n line issued
      obtain ⟨-, hcalls⟩ := n.arriveAll_logs h.arrivals
      unfold echoLoop
      dsimp only
      generalize hm : (if issued = true then n.arriveAll h.arrivals else { n.arriveAll h.arrivals with
        reads := (n.arriveAll h.arrivals).reads ++ [(fd, decide ((n.arriveAll h.arrivals).Readable fd))] }) = m
      have hmcalls : m.calls = n.calls := by
        rw [← hm]
        split_ifs <;> exact hcalls
      split
      · split_ifs
        · exact hmcalls
        · exact hmcalls
        · exact hmcalls
        · exact (ih _ _ _).trans hmcalls
      · split
        · exact hmcalls
        · exact hmcalls
        · exact (ih _ _ _).trans hmcalls

/-- The arrivals of a turn and its `read`, logged if it is issued in it: with a whole line ahead it finds something. -/
theorem issued_reads {n m : Net} {fd : Fd} {room : Nat} {issued : Bool} {as : List Arrival} (h : n.Complete fd room)
    (hm : (if issued then n.arriveAll as
      else { n.arriveAll as with reads := (n.arriveAll as).reads ++ [(fd, decide ((n.arriveAll as).Readable fd))] }) = m) :
    m.Complete fd room ∧ ∀ r ∈ m.reads, r ∈ n.reads ∨ r.2 = true := by
  have hcomplete := complete_arriveAll h as
  obtain ⟨hreads, -⟩ := n.arriveAll_logs as
  rw [← hm]
  split_ifs
  · exact ⟨hcomplete, fun r hr => Or.inl (hreads ▸ hr)⟩
  · refine ⟨hcomplete, fun r hr => ?_⟩
    rcases List.mem_append.1 hr with hr | hr
    · exact Or.inl (hreads ▸ hr)
    · rw [List.mem_singleton.1 hr]
      exact Or.inr (decide_eq_true (readable_of_complete hcomplete))

/-- **The loop.** With a whole line ahead, each `read` finds something. -/
theorem echoLoop_reads (fd : Fd) (hs : List Happening) : ∀ (n : Net) (line : List Byte) (issued : Bool),
    n.Complete fd (MAXLEN - line.length) → line.length ≤ MAXLEN →
    ∀ r ∈ (echoLoop fd hs n line issued).1.reads, r ∈ n.reads ∨ r.2 = true := by
  induction hs with
  | nil => exact fun n line issued _ _ r hr => Or.inl hr
  | cons h hs ih =>
      intro n line issued hcomplete hline
      unfold echoLoop
      dsimp only
      -- the state after the arrivals, with the `read` logged
      generalize hm : (if issued = true then n.arriveAll h.arrivals else { n.arriveAll h.arrivals with
        reads := (n.arriveAll h.arrivals).reads ++ [(fd, decide ((n.arriveAll h.arrivals).Readable fd))] }) = m
      obtain ⟨hmcomplete, hmreads⟩ := issued_reads hcomplete hm
      cases hcs : m.unread fd with
      | nil =>
          cases hend : m.ended fd with
          | none =>
              -- nothing left and no end: there was no whole line
              unfold Complete at hmcomplete
              rw [hcs, hend] at hmcomplete
              rcases hmcomplete with hnew | ⟨hnone, -⟩
              · simp at hnew
              · exact absurd rfl hnone
          | some e => cases e <;> exact hmreads
      | cons c cs =>
          dsimp only
          split_ifs with hfull hnew hfailed
          · exact hmreads
          · exact hmreads
          · exact hmreads
          · have hroom : MAXLEN - line.length = MAXLEN - (line ++ [c]).length + 1 := by
              rw [List.length_append, List.length_singleton]
              omega
            rw [hroom] at hmcomplete
            have hr := ih { m with unread := Function.update m.unread fd cs } (line ++ [c]) false
              (complete_tail hmcomplete hcs hnew (Function.update_self _ _ _) rfl)
              (by rw [List.length_append, List.length_singleton]; omega)
            intro r hmem
            rcases hr r hmem with hold | hnew
            · exact hmreads r hold
            · exact Or.inr hnew

/-- The logs are kept up to date: where all calls found a whole line, all reads found something. -/
def Logged (n : Net) : Prop := (∀ c ∈ n.calls, c.2 = true) → ∀ r ∈ n.reads, r.2 = true

theorem Logged.congr {n n' : Net} (h : n.Logged) (hreads : n'.reads = n.reads) (hcalls : n'.calls = n.calls) :
    n'.Logged := by
  unfold Logged
  rw [hreads, hcalls]
  exact h

theorem Logged.handleEcho {n : Net} (h : n.Logged) (fd : Fd) : (n.handleEcho fd).1.Logged := by
  intro hall r hr
  have hcalls : (n.handleEcho fd).1.calls = n.calls ++ [(fd, decide (n.Complete fd MAXLEN))] :=
    echoLoop_calls fd n.schedule _ [] false
  rw [hcalls, List.forall_mem_append, List.forall_mem_singleton] at hall
  have hcomplete : n.Complete fd MAXLEN := of_decide_eq_true hall.2
  rcases echoLoop_reads fd n.schedule { n with calls := n.calls ++ [(fd, decide (n.Complete fd MAXLEN))] } [] false
      hcomplete (Nat.zero_le _) r hr with hold | hnew
  · exact h hall.1 r hold
  · exact hnew

end Net

theorem kernel_keeps_logged (listenfd : Fd) : (kernel listenfd).Keeps Net.Logged where
  wait n h := h.congr n.tick_logs.1 n.tick_logs.2
  accept n _ h := h.congr n.tick_logs.1 n.tick_logs.2
  getpeername n _ h := h.congr n.tick_logs.1 n.tick_logs.2
  handleEcho _ fd h := h.handleEcho fd
  close _ _ h := h.congr rfl rfl

/-- Sockets before anything has happened. -/
def Net.start (schedule : List Happening) : Net := ⟨fun _ => [], fun _ => none, fun _ => [], schedule, [], []⟩

/-- **Reads that find something.** In a run of either server in which every call of `handle_echo` finds a whole
line of at most `MAXLEN` bytes, or the end of the stream. -/
theorem reads_ready (listenfd : Fd) (schedule : List Happening) (revents : Slot → BitVec 16) (turns : List Unit) :
    ((∀ c ∈ ((sSelect (kernel listenfd)).run ⟨.start schedule, fun _ => none, true⟩ turns).1.world.calls, c.2 = true) →
      ∀ r ∈ ((sSelect (kernel listenfd)).run ⟨.start schedule, fun _ => none, true⟩ turns).1.world.reads, r.2 = true) ∧
    ((∀ c ∈ ((sPoll (kernel listenfd)).run ⟨.start schedule, fun i => ⟨none, revents i⟩, true⟩ turns).1.world.calls,
        c.2 = true) →
      ∀ r ∈ ((sPoll (kernel listenfd)).run ⟨.start schedule, fun i => ⟨none, revents i⟩, true⟩ turns).1.world.reads,
        r.2 = true) :=
  run_keeps (kernel_keeps_logged listenfd) (fun _ _ hr => absurd hr List.not_mem_nil) revents turns

/-- A client connects and sends `first`, and later `rest`. -/
def twoParts (first rest : List Byte) : List Happening :=
  [⟨[], true, .ok⟩, ⟨[], false, .connection 4⟩, ⟨[], false, .ok⟩,
    ⟨[.bytes 4 first], false, .ok⟩, ⟨[], false, .ok⟩, ⟨[], false, .ok⟩, ⟨[], false, .ok⟩, ⟨[.bytes 4 rest], false, .ok⟩]

theorem reads_ready_whole :
    (∀ r ∈ ((sSelect (kernel 3)).run ⟨.start (twoParts [ch 'h', ch '\n'] []), fun _ => none, true⟩
        [(), ()]).1.world.reads, r.2 = true) ∧
      (∀ r ∈ ((sPoll (kernel 3)).run ⟨.start (twoParts [ch 'h', ch '\n'] []), fun _ => ⟨none, 0⟩, true⟩
        [(), ()]).1.world.reads, r.2 = true) := by
  obtain ⟨hselect, hpoll⟩ := reads_ready 3 (twoParts [ch 'h', ch '\n'] []) (fun _ => 0) [(), ()]
  exact ⟨hselect (by decide +kernel), hpoll (by decide +kernel)⟩

/-- The newline has not been sent yet. -/
theorem not_reads_ready :
    ¬(∀ r ∈ ((sSelect (kernel 3)).run ⟨.start (twoParts [ch 'h'] [ch '\n']), fun _ => none, true⟩
        [(), ()]).1.world.reads, r.2 = true) ∧
      ¬(∀ r ∈ ((sPoll (kernel 3)).run ⟨.start (twoParts [ch 'h'] [ch '\n']), fun _ => ⟨none, 0⟩, true⟩
        [(), ()]).1.world.reads, r.2 = true) := by
  constructor <;> decide +kernel

end SysSnippets.Tcp
