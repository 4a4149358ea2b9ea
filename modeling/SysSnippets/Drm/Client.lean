import SysSnippets.Drm.Codec
import Mathlib.Data.List.Infix

/-!
# `drm_client_crtc.c` and `drm_client_plane.c`

The two clients differ in their requests only. `Program` holds what the command line and the DRM setup
determine, `Client.recv` is one pass of the communication loop that finds a response.

* `Phase` : the requests and responses a client has seen, at each point of its program;
* `phase_auth`, `phase_recv`, `phase_stop`, `phase_quit` : the steps of the program keep it.
-/

namespace SysSnippets.Drm
open SysSnippets.Lib

/-- What a client knows when it starts to talk to the server. -/
inductive Program
  | crtc (magic crtcId connId fb : U32) (name : ModeName)
  | plane (magic crtcId planeId fb w h x y : U32)

def Program.magic : Program → U32
  | .crtc magic _ _ _ _ | .plane magic _ _ _ _ _ _ _ => magic

/-- The request sent once the buffer is ready. -/
def Program.first (p : Program) : Request := .auth p.magic

/-- The request sent when CMD_AUTH is answered. -/
def Program.second : Program → Request
  | .crtc magic crtcId connId fb name => .crtc magic crtcId connId fb name
  | .plane magic crtcId planeId fb w h x y => .plane magic crtcId planeId fb w h x y

/-- The request sent after `getchar`. -/
def Program.stop : Program → Request
  | .crtc magic _ _ _ _ => .crtcStop magic
  | .plane magic _ _ _ _ _ _ _ => .planeStop magic

def Program.requests (p : Program) : List Request := [p.first, p.second, p.stop]

/-- The commands of a session: CMD_AUTH, CMD_CRTC, CMD_CRTC_STOP and the same for a plane. -/
def Program.commands : Program → List Command
  | .crtc _ _ _ _ _ => [.auth, .crtc, .crtcStop]
  | .plane _ _ _ _ _ _ _ _ => [.auth, .plane, .planeStop]

/-- Where a client is. -/
inductive ClientPc
  | start
  /-- the connection stands, the buffer is set up -/
  | connected
  /-- in `select` -/
  | waiting
  /-- the image is drawn, in `getchar` -/
  | drawn
  /-- left, by an error, a timeout or since all is done -/
  | gone
  deriving DecidableEq

/-- What a client does, as seen from outside. -/
inductive Event
  | sent (r : Request)
  | read (rx : List Byte)
  | drew
  deriving DecidableEq

structure Client where
  pc : ClientPc
  command : Command
  trace : List Event

def Client.start : Client := ⟨.start, .auth, []⟩

def Client.quit (cl : Client) : Client := { cl with pc := .gone }

/-- `write` of a request, which fails unless `ok`. -/
def Client.write (cl : Client) (r : Request) (ok : Bool) : Client × List RxBytes :=
  if ok then ({ cl with pc := .waiting, trace := cl.trace ++ [.sent r] }, [r.received])
  else (cl.quit, [])

/-- Everything is ready: send magic to server. -/
def Client.auth (p : Program) (cl : Client) (ok : Bool) : Client × List RxBytes :=
  { cl with command := .auth }.write p.first ok

/-- `getchar` returned. -/
def Client.stop (p : Program) (cl : Client) (ok : Bool) : Client × List RxBytes :=
  { cl with command := p.stop.command }.write p.stop ok

/-- `switch (command)`, for the response DRM_OK. -/
def Client.proceed (p : Program) (cl : Client) (ok : Bool) : Client × List RxBytes :=
  if cl.command = .auth then { cl with command := p.second.command }.write p.second ok
  else if cl.command = p.second.command then ({ cl with pc := .drawn, trace := cl.trace ++ [.drew] }, [])
  else if cl.command = p.stop.command then (cl.quit, [])
  else (cl, [])

/-- A pass of the communication loop that reads the message `rx`. -/
def Client.recv (p : Program) (cl : Client) (rx : List Byte) (ok : Bool) : Client × List RxBytes :=
  let cl := { cl with trace := cl.trace ++ [.read rx] }
  match scanReply rx with
  | none => (cl.quit, [])
  | some (mag, val) =>
      if mag ≠ p.magic then (cl, [])
      else if val ≠ Status.ok.code then (cl.quit, [])
      else cl.proceed p ok

/-- The requests sent. -/
def sentIn (trace : List Event) : List Request :=
  trace.filterMap fun
    | .sent r => some r
    | .read _ | .drew => none

/-- The responses read. -/
def readIn (trace : List Event) : List (List Byte) :=
  trace.filterMap fun
    | .read rx => some rx
    | .sent _ | .drew => none

@[simp] theorem sentIn_append (a b : List Event) : sentIn (a ++ b) = sentIn a ++ sentIn b := by
  simp [sentIn]

@[simp] theorem readIn_append (a b : List Event) : readIn (a ++ b) = readIn a ++ readIn b := by
  simp [readIn]

@[simp] theorem sentIn_nil : sentIn [] = [] := rfl
@[simp] theorem readIn_nil : readIn [] = [] := rfl
@[simp] theorem sentIn_sent (r : Request) (t : List Event) : sentIn (.sent r :: t) = r :: sentIn t := rfl
@[simp] theorem sentIn_read (rx : List Byte) (t : List Event) : sentIn (.read rx :: t) = sentIn t := rfl
@[simp] theorem sentIn_drew (t : List Event) : sentIn (.drew :: t) = sentIn t := rfl
@[simp] theorem readIn_sent (r : Request) (t : List Event) : readIn (.sent r :: t) = readIn t := rfl
@[simp] theorem readIn_read (rx : List Byte) (t : List Event) :
    readIn (.read rx :: t) = rx :: readIn t := rfl
@[simp] theorem readIn_drew (t : List Event) : readIn (.drew :: t) = readIn t := rfl

/-- When the image is drawn, two requests are sent, both are answered, and the second answer is DRM_OK. -/
def DrawsInTime (p : Program) (trace : List Event) : Prop :=
  Every (fun pre e => e = .drew → sentIn pre = [p.first, p.second] ∧
    ∃ a m, readIn pre = [a, m] ∧ scanReply m = some (p.magic, Status.ok.code)) trace

/-- What a client has sent and read, at each point of its program. -/
inductive Phase (p : Program) (cl : Client) : Prop
  | idle (hpc : cl.pc = .start ∨ cl.pc = .connected) (htrace : cl.trace = [])
  /-- request `k` is not answered -/
  | waiting (k : Nat) (r : Request) (hpc : cl.pc = .waiting) (hr : p.requests[k]? = some r)
      (hcommand : cl.command = r.command) (hsent : sentIn cl.trace = p.requests.take (k + 1))
      (hread : (readIn cl.trace).length = k) (hdraws : DrawsInTime p cl.trace)
  | drawn (hpc : cl.pc = .drawn) (hsent : sentIn cl.trace = [p.first, p.second])
      (hread : (readIn cl.trace).length = 2) (hdraws : DrawsInTime p cl.trace)
  | gone (hpc : cl.pc = .gone) (hsent : sentIn cl.trace <+: p.requests)
      (hread : (readIn cl.trace).length ≤ (sentIn cl.trace).length ∧
        (sentIn cl.trace).length ≤ (readIn cl.trace).length + 1) (hdraws : DrawsInTime p cl.trace)

section Phase
variable {p : Program} {cl : Client}

theorem phase_start : Phase p .start := .idle (Or.inl rfl) rfl

theorem phase_connect (h : Phase p cl) (hpc : cl.pc = .start) : Phase p { cl with pc := .connected } := by
  cases h with
  | idle _ htrace => exact .idle (Or.inr rfl) htrace
  | waiting k r hpc' => simp [hpc'] at hpc
  | drawn hpc' => simp [hpc'] at hpc
  | gone hpc' => simp [hpc'] at hpc

theorem Phase.draws (h : Phase p cl) : DrawsInTime p cl.trace := by
  cases h with
  | idle hpc htrace =>
      rw [htrace]
      exact every_nil
  | waiting k r hpc hr hcommand hsent hread hdraws => exact hdraws
  | drawn hpc hsent hread hdraws => exact hdraws
  | gone hpc hsent hread hdraws => exact hdraws

theorem Phase.sent_prefix (h : Phase p cl) : sentIn cl.trace <+: p.requests := by
  cases h with
  | idle hpc htrace =>
      rw [htrace]
      exact List.nil_prefix
  | waiting k r hpc hr hcommand hsent hread hdraws =>
      rw [hsent]
      exact List.take_prefix _ _
  | drawn hpc hsent hread hdraws =>
      rw [hsent]
      exact ⟨[p.stop], rfl⟩
  | gone hpc hsent hread hdraws => exact hsent

/-- A client has read at most as many responses as it has sent requests, and at most one less. -/
theorem Phase.counts (h : Phase p cl) : (readIn cl.trace).length ≤ (sentIn cl.trace).length ∧
    (sentIn cl.trace).length ≤ (readIn cl.trace).length + 1 := by
  cases h with
  | idle hpc htrace => simp [htrace]
  | waiting k r hpc hr hcommand hsent hread hdraws =>
      have hk : k < p.requests.length := (List.getElem?_eq_some_iff.1 hr).1
      rw [hsent, hread, List.length_take]
      omega
  | drawn hpc hsent hread hdraws =>
      rw [hsent, hread]
      simp
  | gone hpc hsent hread hdraws => exact hread

theorem phase_quit (h : Phase p cl) : Phase p cl.quit :=
  .gone rfl h.sent_prefix h.counts h.draws

/-- Events other than drawing. -/
theorem draws_snoc {trace : List Event} {e : Event} (h : DrawsInTime p trace) (he : e ≠ .drew) :
    DrawsInTime p (trace ++ [e]) :=
  every_snoc.2 ⟨h, fun e' => absurd e' he⟩

theorem phase_auth (h : Phase p cl) (hpc : cl.pc = .connected) (ok : Bool) :
    Phase p (cl.auth p ok).1 := by
  have htrace : cl.trace = [] := by
    cases h with
    | idle _ htrace => exact htrace
    | waiting k r hpc' => simp [hpc'] at hpc
    | drawn hpc' => simp [hpc'] at hpc
    | gone hpc' => simp [hpc'] at hpc
  unfold Client.auth Client.write
  split_ifs
  · refine .waiting 0 p.first rfl rfl rfl ?_ ?_ ?_
    · simp [htrace, sentIn, Program.requests]
    · simp [htrace, readIn]
    · rw [htrace]
      exact draws_snoc every_nil (by simp)
  · exact .gone rfl h.sent_prefix h.counts h.draws

theorem phase_stop (h : Phase p cl) (hpc : cl.pc = .drawn) (ok : Bool) : Phase p (cl.stop p ok).1 := by
  unfold Client.stop Client.write
  cases h with
  | idle hpc' => rcases hpc' with hpc' | hpc' <;> simp [hpc'] at hpc
  | waiting k r hpc' => simp [hpc'] at hpc
  | gone hpc' => simp [hpc'] at hpc
  | drawn _ hsent hread hdraws =>
      split_ifs
      · refine .waiting 2 p.stop rfl rfl rfl ?_ ?_ (draws_snoc hdraws (by simp))
        · simp [hsent, Program.requests]
        · simpa using hread
      · exact .gone rfl (hsent ▸ ⟨[p.stop], rfl⟩) (by simp [Client.quit, hsent, hread]) hdraws

theorem Program.second_ne_auth (p : Program) : p.second.command ≠ .auth := by
  cases p <;> exact Command.noConfusion

theorem Program.stop_ne_auth (p : Program) : p.stop.command ≠ .auth := by
  cases p <;> exact Command.noConfusion

theorem Program.stop_ne_second (p : Program) : p.stop.command ≠ p.second.command := by
  cases p <;> exact Command.noConfusion

/-- DRM_OK to request `k`. -/
theorem phase_proceed {k : Nat} {r : Request} {m : List Byte} (hr : p.requests[k]? = some r)
    (hcommand : cl.command = r.command) (hsent : sentIn cl.trace = p.requests.take (k + 1))
    (hread : (readIn cl.trace).length = k) (hdraws : DrawsInTime p cl.trace)
    (hok : scanReply m = some (p.magic, Status.ok.code)) (ok : Bool) :
    Phase p (({ cl with trace := cl.trace ++ [.read m] } : Client).proceed p ok).1 := by
  have hdraws' : DrawsInTime p (cl.trace ++ [.read m]) := draws_snoc hdraws (by simp)
  have hquit : Phase p ({ cl with trace := cl.trace ++ [.read m] } : Client).quit := by
    have hk : k < p.requests.length := (List.getElem?_eq_some_iff.1 hr).1
    refine .gone rfl ?_ ?_ hdraws'
    · simpa [Client.quit, hsent] using List.take_prefix (k + 1) p.requests
    · simp only [Client.quit, sentIn_append, sentIn_read, sentIn_nil, List.append_nil, readIn_append,
        readIn_read, readIn_nil, List.length_append, List.length_singleton, hsent, hread, List.length_take]
      omega
  unfold Client.proceed
  dsimp only
  match k, hr with
  | 0, hr =>
      obtain rfl : p.first = r := Option.some.inj hr
      rw [if_pos (show cl.command = .auth from hcommand)]
      unfold Client.write
      split_ifs
      · refine .waiting 1 p.second rfl rfl rfl ?_ ?_ (draws_snoc hdraws' (by simp))
        · simp [hsent, Program.requests]
        · simp [hread]
      · exact .gone rfl hquit.sent_prefix hquit.counts hdraws'
  | 1, hr =>
      obtain rfl : p.second = r := Option.some.inj hr
      rw [if_neg (by rw [hcommand]; exact p.second_ne_auth), if_pos hcommand]
      obtain ⟨a, ha⟩ := List.length_eq_one_iff.1 hread
      refine .drawn rfl ?_ ?_ (every_snoc.2 ⟨hdraws', fun _ => ⟨?_, a, m, ?_, hok⟩⟩)
      · simp [hsent, Program.requests]
      · simp [ha]
      · simp [hsent, Program.requests]
      · simp [ha]
  | 2, hr =>
      obtain rfl : p.stop = r := Option.some.inj hr
      rw [if_neg (by rw [hcommand]; exact p.stop_ne_auth),
        if_neg (by rw [hcommand]; exact p.stop_ne_second), if_pos hcommand]
      exact hquit

/-- A client that waits goes on to the next point of its program when it reads a response with its
magic. -/
theorem phase_recv (h : Phase p cl) (hpc : cl.pc = .waiting) (value : Status) (ok : Bool) :
    Phase p (cl.recv p (reply p.magic value) ok).1 := by
  cases h with
  | idle hpc' => rcases hpc' with hpc' | hpc' <;> simp [hpc'] at hpc
  | drawn hpc' => simp [hpc'] at hpc
  | gone hpc' => simp [hpc'] at hpc
  | waiting k r _ hr hcommand hsent hread hdraws =>
      have hscan := scanReply_reply p.magic value
      unfold Client.recv
      simp only [hscan]
      rw [if_neg (not_not.2 rfl)]
      cases value with
      | ok =>
          rw [if_neg (not_not.2 rfl)]
          exact phase_proceed hr hcommand hsent hread hdraws hscan ok
      | error =>
          have hk : k < p.requests.length := (List.getElem?_eq_some_iff.1 hr).1
          rw [if_pos (by decide)]
          refine .gone rfl ?_ ?_ (draws_snoc hdraws (by simp))
          · simpa [Client.quit, hsent] using List.take_prefix (k + 1) p.requests
          · simp only [Client.quit, sentIn_append, sentIn_read, sentIn_nil, List.append_nil, readIn_append,
              readIn_read, readIn_nil, List.length_append, List.length_singleton, hsent, hread,
              List.length_take]
            omega

end Phase

end SysSnippets.Drm
