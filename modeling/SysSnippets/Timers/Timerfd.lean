import Mathlib.Algebra.BigOperators.Group.List.Basic
import Mathlib.Algebra.Order.Ring.Nat
import SysSnippets.Lib.Machine
import SysSnippets.Lib.Timer

/-!
# `timerfd`

A single-shot timer, set again each time it has expired, a periodic timer, and an event descriptor that passes on what
the first has counted. Any time may pass between two calls.

* `State.step` : the program, one call at a time;
* `State.Inv` : what each descriptor holds and what has been printed of it;
* `counts_passed` : what the single-shot timer counts is passed on; `ticks_counted` : no tick of the periodic one is lost;
* `ticks_served` : the single-shot timer, which goes first, does not keep the periodic one waiting.
-/

namespace SysSnippets.Timers
open SysSnippets.Lib

/-- Nanoseconds of a second. -/
def SEC : Nat := 1000000000

/-- `KTIME_MAX` -/
def KTIME_MAX : Nat := 2 ^ 63 - 1

/-- The most that a counter of an event descriptor holds. -/
def ULLONG_MAX_LESS_1 : Nat := 2 ^ 64 - 2

/-- Before which call `main` is. -/
inductive Pc
  /-- `clock_gettime` and `timerfd_settime` before the loop, for `tfd` -/
  | clockT
  | startT (now : Nat)
  | showT
  /-- the same for `pfd` -/
  | clockP
  | startP (now : Nat)
  | showP
  /-- in `select`, called at this time -/
  | select (since : Nat)
  | readT
  | clock (exp : Nat)
  | settime (exp now : Nat)
  | write (exp : Nat)
  | readE
  | readP
  | exited
  deriving DecidableEq

/-- What is printed. -/
inductive Line
  /-- "single shot timer expires in %lu sec" -/
  | single (sec : Nat)
  /-- "periodic timer expires in %lu sec, then each %lu sec" -/
  | periodic (sec interval : Nat)
  /-- "select timeout" -/
  | timeout
  /-- "select interrupt" -/
  | interrupt
  /-- "timerfd expired %lu times" -/
  | expired (exp : Nat)
  /-- "eventfd: %lu times" -/
  | event (exp : Nat)
  /-- "periodic timerfd expired %lu times" -/
  | ticked (exp : Nat)
  deriving DecidableEq

inductive Input
  | elapse (ns : Nat)
  /-- the next call returns, with success or with an error -/
  | go (ok : Bool)
  /-- `select` returns 0 -/
  | timeout
  /-- `select` returns with `EINTR` -/
  | eintr
  | sigint

structure State where
  now : Nat
  tfd : Timer
  efd : Nat
  pfd : Timer
  pc : Pc
  deriving DecidableEq

namespace State

def init (now : Nat) : State := ⟨now, .off, 0, .off, .clockT⟩

def exit (s : State) : State × List (Nat × Line) := ({ s with pc := .exited }, [])

/-- No descriptor is ready. -/
def Idle (s : State) : Prop := s.tfd.pending s.now = 0 ∧ s.efd = 0 ∧ s.pfd.pending s.now = 0

instance (s : State) : Decidable s.Idle := instDecidableAnd

/-- The branch that is taken for what `select` finds; without a ready descriptor it goes on waiting. -/
def serve (s : State) : State :=
  if 0 < s.tfd.pending s.now then { s with pc := .readT }
  else if 0 < s.efd then { s with pc := .readE }
  else if 0 < s.pfd.pending s.now then { s with pc := .readP }
  else s

/-- A call that succeeds; `read` waits for a count, `write` for room. -/
def call (s : State) : State × List (Nat × Line) :=
  match s.pc with
  | .clockT => ({ s with pc := .startT s.now }, [])
  | .startT now => ({ s with tfd := .settime ((now / SEC + 5) * SEC) 0, pc := .showT }, [])
  | .showT => ({ s with pc := .clockP }, [(s.now, .single (s.tfd.remaining s.now / SEC))])
  | .clockP => ({ s with pc := .startP s.now }, [])
  | .startP now => ({ s with pfd := .settime ((now / SEC + 3) * SEC) (7 * SEC), pc := .showP }, [])
  | .showP =>
      ({ s with pc := .select s.now }, [(s.now, .periodic (s.pfd.remaining s.now / SEC) (s.pfd.interval / SEC))])
  | .select _ => (s.serve, [])
  | .readT =>
      if 0 < s.tfd.pending s.now then
        ({ s with tfd := s.tfd.take s.now, pc := .clock (s.tfd.pending s.now) }, [])
      else (s, [])
  | .clock exp => ({ s with pc := .settime exp s.now }, [])
  | .settime exp now =>
      ({ s with tfd := .settime ((now / SEC + 5) * SEC) 0, pc := .write exp }, [(s.now, .expired exp)])
  | .write exp =>
      if s.efd + exp ≤ ULLONG_MAX_LESS_1 then ({ s with efd := s.efd + exp, pc := .select s.now }, []) else (s, [])
  | .readE => if 0 < s.efd then ({ s with efd := 0, pc := .select s.now }, [(s.now, .event s.efd)]) else (s, [])
  | .readP =>
      if 0 < s.pfd.pending s.now then
        ({ s with pfd := s.pfd.take s.now, pc := .select s.now }, [(s.now, .ticked (s.pfd.pending s.now))])
      else (s, [])
  | .exited => (s, [])

def step (s : State) : Input → State × List (Nat × Line)
  | .elapse ns => if s.now + ns < KTIME_MAX then ({ s with now := s.now + ns }, []) else (s, [])
  | .go true => s.call
  | .go false => s.exit
  | .timeout =>
      match s.pc with
      | .select since =>
          if since + SEC ≤ s.now ∧ s.Idle then ({ s with pc := .select s.now }, [(s.now, .timeout)]) else (s, [])
      | _ => (s, [])
  | .eintr =>
      match s.pc with
      | .select _ => ({ s with pc := .select s.now }, [(s.now, .interrupt)])
      | _ => (s, [])
  | .sigint => s.exit

end State

/-- `main` of `timerfd.c`, and the time. -/
def timerfd : Machine State Input (Nat × Line) := ⟨State.step⟩

/-! ## What has been printed -/

/-- The counts of the single-shot timer, of the event descriptor and of the periodic timer. -/
def Line.ofTimer : Line → Nat
  | .expired exp => exp
  | _ => 0

def Line.ofEvent : Line → Nat
  | .event exp => exp
  | _ => 0

def Line.ofTicks : Line → Nat
  | .ticked exp => exp
  | _ => 0

/-- A line without a count. -/
def Line.isPlain : Line → Bool
  | .expired _ => false
  | .event _ => false
  | .ticked _ => false
  | _ => true

/-- The sums of the counts. -/
def total (count : Line → Nat) (h : List (Nat × Line)) : Nat := (h.map fun o => count o.2).sum

theorem total_append (count : Line → Nat) (h out : List (Nat × Line)) :
    total count (h ++ out) = total count h + total count out := by
  unfold total
  rw [List.map_append, List.sum_append]

theorem total_snoc (count : Line → Nat) (h : List (Nat × Line)) (o : Nat × Line) :
    total count (h ++ [o]) = total count h + count o.2 := by
  rw [total_append]
  rfl

theorem total_plain {out : List (Nat × Line)} (hout : ∀ o ∈ out, o.2.isPlain = true) {count : Line → Nat}
    (hcount : ∀ l, l.isPlain = true → count l = 0) : total count out = 0 := by
  apply List.sum_eq_zero_iff_forall_eq_nat.2
  intro n hn
  obtain ⟨o, ho, rfl⟩ := List.mem_map.1 hn
  exact hcount o.2 (hout o ho)

theorem Line.ofTimer_of_plain (l : Line) (h : l.isPlain = true) : l.ofTimer = 0 := by
  cases l with
  | expired exp => cases h
  | _ => rfl

theorem Line.ofEvent_of_plain (l : Line) (h : l.isPlain = true) : l.ofEvent = 0 := by
  cases l with
  | event exp => cases h
  | _ => rfl

theorem Line.ofTicks_of_plain (l : Line) (h : l.isPlain = true) : l.ofTicks = 0 := by
  cases l with
  | ticked exp => cases h
  | _ => rfl

/-- The earliest time of the next expiration of the single-shot timer, after `n` of them. -/
def due (start n : Nat) : Nat := (start / SEC + 5 * (n + 1)) * SEC

/-- What a line means, for a program started at `start` with the periodic timer `pfd`. -/
def Told (start : Nat) (pfd : Timer) (pre : List (Nat × Line)) (o : Nat × Line) : Prop :=
  match o.2 with
  | .expired exp => exp = 1 ∧ due start (total Line.ofTimer pre) ≤ o.1
  | .event exp => 0 < exp
  | .ticked exp => 0 < exp ∧ total Line.ofTicks pre + exp = pfd.expirations o.1
  | _ => True

theorem told_of_plain {start : Nat} {pfd : Timer} {out : List (Nat × Line)} (hout : ∀ o ∈ out, o.2.isPlain = true)
    (h : List (Nat × Line)) : Every (fun pre o => Told start pfd (h ++ pre) o) out := by
  intro pre o post heq
  have hplain := hout o (by rw [heq]; exact List.mem_append_right pre List.mem_cons_self)
  obtain ⟨t, l⟩ := o
  cases l with
  | expired exp => cases hplain
  | event exp => cases hplain
  | ticked exp => cases hplain
  | _ => trivial

/-- The count that has been read and not been passed on. -/
def Pc.inHand : Pc → Nat
  | .write exp => exp
  | _ => 0

/-- The periodic timer has not been set. -/
def Pc.early : Pc → Bool
  | .clockT => true
  | .startT _ => true
  | .showT => true
  | .clockP => true
  | .startP _ => true
  | _ => false

/-- The single-shot timer as `main` sets it. -/
def Armed (start n : Nat) (t : Timer) : Prop := t.interval = 0 ∧ t.read = 0 ∧ due start n ≤ t.value

/-- The periodic timer as `main` sets it. -/
def Periodic (start : Nat) (t : Timer) : Prop := t.interval = 7 * SEC ∧ ∃ now, start ≤ now ∧ t.value = (now / SEC + 3) * SEC

theorem armed_settime {start n now : Nat} (h : start / SEC + 5 * n ≤ now / SEC) :
    Armed start n (.settime ((now / SEC + 5) * SEC) 0) := by
  refine ⟨rfl, rfl, Nat.mul_le_mul_right SEC ?_⟩
  omega

/-- An expiration that is read was due, and alone. -/
theorem Armed.pending {start n now : Nat} {t : Timer} (h : Armed start n t) (hpending : 0 < t.pending now) :
    t.pending now = 1 ∧ due start n ≤ now := by
  obtain ⟨hinterval, hread, hdue⟩ := h
  unfold Timer.pending at hpending ⊢
  rw [hread, Nat.sub_zero] at hpending ⊢
  by_cases hlt : now < t.value
  · rw [Timer.expirations_of_lt hlt] at hpending
    exact absurd hpending (Nat.lt_irrefl 0)
  · have hpos : 0 < due start n := Nat.mul_pos (Nat.lt_of_lt_of_le (by omega) (Nat.le_add_left ..)) (by decide)
    exact ⟨Timer.expirations_single (by omega) hinterval (by omega), by omega⟩

/-- A descriptor that is read is ready. -/
def State.Ready (s : State) : Prop :=
  match s.pc with
  | .readT => 0 < s.tfd.pending s.now
  | .readE => 0 < s.efd
  | .readP => 0 < s.pfd.pending s.now
  | _ => True

/-- What `main` knows of the single-shot timer, after `n` expirations. -/
def State.Single (start n : Nat) (s : State) : Prop :=
  match s.pc with
  | .clockT => n = 0
  | .startT now => n = 0 ∧ start ≤ now
  | .clock exp => exp = 1 ∧ due start n ≤ s.now
  | .settime exp now => exp = 1 ∧ due start n ≤ now ∧ now ≤ s.now
  | .write exp => exp = 1 ∧ Armed start n s.tfd
  | .exited => True
  | _ => Armed start n s.tfd

namespace State

structure Inv (start : Nat) (h : List (Nat × Line)) (s : State) : Prop where
  start_le : start ≤ s.now
  now_lt : s.now < start + KTIME_MAX
  ready : s.Ready
  single : s.Single start (total Line.ofTimer h)
  due_le : total Line.ofTimer h = 0 ∨ due start (total Line.ofTimer h - 1) ≤ s.now
  passed : s.pc ≠ .exited → total Line.ofTimer h = total Line.ofEvent h + s.efd + s.pc.inHand
  passed_le : total Line.ofEvent h + s.efd ≤ total Line.ofTimer h
  early : s.pc.early = true → s.pfd = .off
  startP : ∀ now, s.pc = .startP now → start ≤ now
  pfd : s.pfd = .off ∨ Periodic start s.pfd
  ticks : s.pfd.read = total Line.ofTicks h
  ticks_le : s.pfd.read ≤ s.pfd.expirations s.now
  told : Every (Told start s.pfd) h

theorem inv_init (start : Nat) : (init start).Inv start [] where
  start_le := Nat.le_refl start
  now_lt := Nat.lt_add_of_pos_right (by decide)
  ready := trivial
  single := rfl
  due_le := Or.inl rfl
  passed _ := rfl
  passed_le := Nat.le_refl 0
  early _ := rfl
  startP _ hpc := nomatch hpc
  pfd := Or.inl rfl
  ticks := rfl
  ticks_le := Nat.zero_le _
  told := every_nil

variable {start : Nat} {s s' : State} {h : List (Nat × Line)}

/-- A step that leaves the time, the counter and the periodic timer alone, and prints no count. -/
theorem Inv.kept {out : List (Nat × Line)} (hinv : s.Inv start h) (hnow : s'.now = s.now) (hefd : s'.efd = s.efd)
    (hpfd : s'.pfd = s.pfd) (hready : s'.Ready) (hsingle : s'.Single start (total Line.ofTimer h))
    (hpc : s'.pc ≠ .exited → s.pc ≠ .exited ∧ s'.pc.inHand = s.pc.inHand)
    (hearly : s'.pc.early = true → s.pc.early = true) (hstartP : ∀ now, s'.pc = .startP now → start ≤ now)
    (hout : ∀ o ∈ out, o.2.isPlain = true) : s'.Inv start (h ++ out) := by
  have htimer : total Line.ofTimer (h ++ out) = total Line.ofTimer h := by
    rw [total_append, total_plain hout Line.ofTimer_of_plain, Nat.add_zero]
  have hevent : total Line.ofEvent (h ++ out) = total Line.ofEvent h := by
    rw [total_append, total_plain hout Line.ofEvent_of_plain, Nat.add_zero]
  have hticks : total Line.ofTicks (h ++ out) = total Line.ofTicks h := by
    rw [total_append, total_plain hout Line.ofTicks_of_plain, Nat.add_zero]
  refine ⟨?_, ?_, hready, ?_, ?_, ?_, ?_, ?_, hstartP, ?_, ?_, ?_, ?_⟩
  · rw [hnow]
    exact hinv.start_le
  · rw [hnow]
    exact hinv.now_lt
  · rw [htimer]
    exact hsingle
  · rw [htimer, hnow]
    exact hinv.due_le
  · intro hrun
    rw [htimer, hevent, hefd, (hpc hrun).2]
    exact hinv.passed (hpc hrun).1
  · rw [htimer, hevent, hefd]
    exact hinv.passed_le
  · rw [hpfd]
    exact fun he => hinv.early (hearly he)
  · rw [hpfd]
    exact hinv.pfd
  · rw [hticks, hpfd]
    exact hinv.ticks
  · rw [hpfd, hnow]
    exact hinv.ticks_le
  · rw [hpfd, every_append]
    exact ⟨hinv.told, told_of_plain hout h⟩

theorem Inv.elapse (hinv : s.Inv start h) (ns : Nat) (hns : s.now + ns < KTIME_MAX) :
    Inv start h { s with now := s.now + ns } := by
  refine ⟨?_, ?_, ?_, ?_, ?_, hinv.passed, hinv.passed_le, hinv.early, hinv.startP, hinv.pfd, hinv.ticks, ?_, hinv.told⟩
  · exact Nat.le_trans hinv.start_le (Nat.le_add_right ..)
  · change s.now + ns < _
    omega
  · have hready := hinv.ready
    unfold Ready at hready ⊢
    cases hpc : s.pc <;> rw [hpc] at hready <;> dsimp only at hready ⊢
    case readT => exact Nat.lt_of_lt_of_le hready (s.tfd.pending_mono (Nat.le_add_right ..))
    case readP => exact Nat.lt_of_lt_of_le hready (s.pfd.pending_mono (Nat.le_add_right ..))
    case readE => exact hready
  · have hsingle := hinv.single
    unfold Single at hsingle ⊢
    cases hpc : s.pc <;> rw [hpc] at hsingle <;> dsimp only at hsingle ⊢
    case clock => exact ⟨hsingle.1, Nat.le_trans hsingle.2 (Nat.le_add_right ..)⟩
    case settime => exact ⟨hsingle.1, hsingle.2.1, Nat.le_trans hsingle.2.2 (Nat.le_add_right ..)⟩
    all_goals exact hsingle
  · exact hinv.due_le.imp id fun hle => Nat.le_trans hle (Nat.le_add_right ..)
  · exact Nat.le_trans hinv.ticks_le (s.pfd.expirations_mono (Nat.le_add_right ..))

theorem Inv.write {exp : Nat} (hinv : s.Inv start h) (hpc : s.pc = .write exp) :
    Inv start h { s with efd := s.efd + exp, pc := .select s.now } := by
  have hpassed := hinv.passed (by rw [hpc]; exact Pc.noConfusion)
  have hsingle := hinv.single
  unfold Single at hsingle
  rw [hpc] at hpassed hsingle
  refine ⟨hinv.start_le, hinv.now_lt, trivial, hsingle.2, hinv.due_le, fun _ => ?_, ?_, (fun he => nomatch he),
    (fun now hnow => nomatch hnow), hinv.pfd, hinv.ticks, hinv.ticks_le, hinv.told⟩
  · change _ = _ + (s.efd + exp) + 0
    rw [hpassed, Pc.inHand]
    omega
  · change _ + (s.efd + exp) ≤ _
    rw [hpassed, Pc.inHand]
    omega

theorem Inv.readE (hinv : s.Inv start h) (hpc : s.pc = .readE) (hefd : 0 < s.efd) :
    Inv start (h ++ [(s.now, .event s.efd)]) { s with efd := 0, pc := .select s.now } := by
  have hpassed := hinv.passed (by rw [hpc]; exact Pc.noConfusion)
  have hsingle := hinv.single
  unfold Single at hsingle
  rw [hpc] at hpassed hsingle
  have htimer : total Line.ofTimer (h ++ [(s.now, .event s.efd)]) = total Line.ofTimer h := total_snoc ..
  have hevent : total Line.ofEvent (h ++ [(s.now, .event s.efd)]) = total Line.ofEvent h + s.efd := total_snoc ..
  have hticks : total Line.ofTicks (h ++ [(s.now, .event s.efd)]) = total Line.ofTicks h := total_snoc ..
  have htold : Told start s.pfd h (s.now, .event s.efd) := hefd
  refine ⟨hinv.start_le, hinv.now_lt, trivial, ?_, ?_, fun _ => ?_, ?_, (fun he => nomatch he), (fun now hnow => nomatch hnow),
    hinv.pfd, ?_, hinv.ticks_le, every_snoc.2 ⟨hinv.told, htold⟩⟩
  · rw [htimer]
    exact hsingle
  · rw [htimer]
    exact hinv.due_le
  · rw [htimer, hevent]
    exact hpassed
  · rw [htimer, hevent, hpassed]
    exact Nat.le_refl _
  · rw [hticks]
    exact hinv.ticks

theorem Inv.readP (hinv : s.Inv start h) (hpc : s.pc = .readP) (hpending : 0 < s.pfd.pending s.now) :
    Inv start (h ++ [(s.now, .ticked (s.pfd.pending s.now))]) { s with pfd := s.pfd.take s.now, pc := .select s.now } := by
  have hpassed := hinv.passed (by rw [hpc]; exact Pc.noConfusion)
  have hsingle := hinv.single
  unfold Single at hsingle
  rw [hpc] at hpassed hsingle
  have htimer : total Line.ofTimer (h ++ [(s.now, .ticked (s.pfd.pending s.now))]) = total Line.ofTimer h := total_snoc ..
  have hevent : total Line.ofEvent (h ++ [(s.now, .ticked (s.pfd.pending s.now))]) = total Line.ofEvent h := total_snoc ..
  have hticks : total Line.ofTicks (h ++ [(s.now, .ticked (s.pfd.pending s.now))]) =
      total Line.ofTicks h + s.pfd.pending s.now := total_snoc ..
  have hread : total Line.ofTicks h + s.pfd.pending s.now = s.pfd.expirations s.now := by
    rw [← hinv.ticks]
    exact Timer.read_add_pending hinv.ticks_le
  have htold : Told start s.pfd h (s.now, .ticked (s.pfd.pending s.now)) := ⟨hpending, hread⟩
  refine ⟨hinv.start_le, hinv.now_lt, trivial, ?_, ?_, fun _ => ?_, ?_, (fun he => nomatch he),
    (fun now hnow => nomatch hnow), ?_, ?_,
    Nat.le_refl _, every_snoc.2 ⟨hinv.told, htold⟩⟩
  · rw [htimer]
    exact hsingle
  · rw [htimer]
    exact hinv.due_le
  · rw [htimer, hevent]
    exact hpassed
  · rw [htimer, hevent]
    exact hinv.passed_le
  · rcases hinv.pfd with hoff | hperiodic
    · rw [hoff] at hpending
      exact absurd hpending (Nat.lt_irrefl 0)
    · exact Or.inr hperiodic
  · rw [hticks, hread]
    rfl

theorem Inv.settime {exp now : Nat} (hinv : s.Inv start h) (hpc : s.pc = .settime exp now) :
    Inv start (h ++ [(s.now, .expired exp)])
      { s with tfd := .settime ((now / SEC + 5) * SEC) 0, pc := .write exp } := by
  have hpassed := hinv.passed (by rw [hpc]; exact Pc.noConfusion)
  have hsingle := hinv.single
  unfold Single at hsingle
  rw [hpc] at hpassed hsingle
  obtain ⟨rfl, hdue, hnow⟩ := hsingle
  have htimer : total Line.ofTimer (h ++ [(s.now, .expired 1)]) = total Line.ofTimer h + 1 := total_snoc ..
  have hevent : total Line.ofEvent (h ++ [(s.now, .expired 1)]) = total Line.ofEvent h := total_snoc ..
  have hticks : total Line.ofTicks (h ++ [(s.now, .expired 1)]) = total Line.ofTicks h := total_snoc ..
  have htold : Told start s.pfd h (s.now, .expired 1) := ⟨rfl, Nat.le_trans hdue hnow⟩
  refine ⟨hinv.start_le, hinv.now_lt, trivial, ?_, ?_, fun _ => ?_, ?_, (fun he => nomatch he), (fun now hnow => nomatch hnow),
    hinv.pfd, ?_, hinv.ticks_le, every_snoc.2 ⟨hinv.told, htold⟩⟩
  · rw [htimer]
    refine ⟨rfl, armed_settime ?_⟩
    exact (Nat.le_div_iff_mul_le (by decide)).2 hdue
  · rw [htimer]
    exact Or.inr (Nat.le_trans hdue hnow)
  · rw [htimer, hevent, hpassed]
    rfl
  · rw [htimer, hevent]
    exact Nat.le_succ_of_le hinv.passed_le
  · rw [hticks]
    exact hinv.ticks

theorem Inv.setP {now : Nat} (hinv : s.Inv start h) (hpc : s.pc = .startP now) :
    Inv start h { s with pfd := .settime ((now / SEC + 3) * SEC) (7 * SEC), pc := .showP } := by
  have hoff : s.pfd = .off := hinv.early (by rw [hpc]; rfl)
  have hpassed := hinv.passed (by rw [hpc]; exact Pc.noConfusion)
  have hsingle := hinv.single
  have hticks := hinv.ticks
  unfold Single at hsingle
  rw [hpc] at hpassed hsingle
  rw [hoff] at hticks
  refine ⟨hinv.start_le, hinv.now_lt, trivial, hsingle, hinv.due_le, fun _ => hpassed, hinv.passed_le, (fun he => nomatch he),
    (fun now hnow => nomatch hnow), Or.inr ⟨rfl, now, hinv.startP now hpc, rfl⟩, hticks, Nat.zero_le _, ?_⟩
  -- nothing has been said of the periodic timer
  intro pre o post heq
  have htold := hinv.told pre o post heq
  obtain ⟨t, l⟩ := o
  cases l with
  | ticked exp =>
      rw [hoff] at htold
      obtain ⟨hexp, hsum⟩ : 0 < exp ∧ total Line.ofTicks pre + exp = 0 := htold
      omega
  | _ => exact htold

theorem Inv.readT (hinv : s.Inv start h) (hpc : s.pc = .readT) (hpending : 0 < s.tfd.pending s.now) :
    Inv start (h ++ []) { s with tfd := s.tfd.take s.now, pc := .clock (s.tfd.pending s.now) } := by
  have hsingle := hinv.single
  unfold Single at hsingle
  rw [hpc] at hsingle
  refine hinv.kept rfl rfl rfl trivial (Armed.pending hsingle hpending) (fun _ => ⟨?_, ?_⟩) (fun he => nomatch he)
    (fun now hnow => nomatch hnow) (fun o ho => absurd ho List.not_mem_nil)
  · rw [hpc]
    exact Pc.noConfusion
  · rw [hpc]
    rfl

theorem Inv.serve {since : Nat} (hinv : s.Inv start h) (hpc : s.pc = .select since) : s.serve.Inv start (h ++ []) := by
  have hsingle := hinv.single
  unfold Single at hsingle
  rw [hpc] at hsingle
  have hgo : ∀ pc, (pc = .readT ∨ pc = .readE ∨ pc = .readP) → Ready { s with pc := pc } →
      Inv start (h ++ []) { s with pc := pc } := by
    intro pc hcases hready
    refine hinv.kept rfl rfl rfl hready ?_ (fun _ => ⟨?_, ?_⟩) ?_ ?_ (fun o ho => absurd ho List.not_mem_nil)
    · rcases hcases with rfl | rfl | rfl <;> exact hsingle
    · rw [hpc]
      exact Pc.noConfusion
    · rw [hpc]
      rcases hcases with rfl | rfl | rfl <;> rfl
    · rcases hcases with rfl | rfl | rfl <;> exact fun he => nomatch he
    · rcases hcases with rfl | rfl | rfl <;> exact fun now hnow => nomatch hnow
  unfold State.serve
  split_ifs with htfd hefd hpfd
  · exact hgo .readT (Or.inl rfl) htfd
  · exact hgo .readE (Or.inr (Or.inl rfl)) hefd
  · exact hgo .readP (Or.inr (Or.inr rfl)) hpfd
  · rw [List.append_nil]
    exact hinv

/-- A step that only goes on. -/
theorem Inv.goto {out : List (Nat × Line)} (hinv : s.Inv start h) (pc : Pc) (hrun : s.pc ≠ .exited)
    (hready : Ready { s with pc := pc }) (hsingle : Single start (total Line.ofTimer h) { s with pc := pc })
    (hhand : pc.inHand = s.pc.inHand)
    (hearly : pc.early = true → s.pc.early = true) (hstartP : ∀ now, pc = .startP now → start ≤ now)
    (hout : ∀ o ∈ out, o.2.isPlain = true) : Inv start (h ++ out) { s with pc := pc } :=
  hinv.kept rfl rfl rfl hready hsingle (fun _ => ⟨hrun, hhand⟩) hearly hstartP hout

theorem Inv.call (hinv : s.Inv start h) : s.call.1.Inv start (h ++ s.call.2) := by
  have hsingle := hinv.single
  have hstay : s.Inv start (h ++ []) := by
    rw [List.append_nil]
    exact hinv
  have hnone : ∀ o ∈ ([] : List (Nat × Line)), o.2.isPlain = true := fun o ho => absurd ho List.not_mem_nil
  have hone : ∀ l : Line, l.isPlain = true → ∀ o ∈ [(s.now, l)], o.2.isPlain = true := by
    intro l hl o ho
    rw [List.mem_singleton.1 ho]
    exact hl
  unfold Single at hsingle
  unfold State.call
  cases hpc : s.pc <;> rw [hpc] at hsingle <;> dsimp only at hsingle ⊢
  case clockT =>
    exact hinv.goto (.startT s.now) (by simp [hpc]) trivial ⟨hsingle, hinv.start_le⟩ (by rw [hpc]; rfl)
      (by simp [hpc, Pc.early])
      (by simp) hnone
  case startT now =>
    refine hinv.kept rfl rfl rfl trivial ?_ (fun _ => ⟨by simp [hpc], by rw [hpc]; rfl⟩)
      (by simp [hpc, Pc.early]) (by simp) hnone
    refine armed_settime ?_
    rw [hsingle.1]
    exact Nat.div_le_div_right hsingle.2
  case showT =>
    exact hinv.goto .clockP (by simp [hpc]) trivial hsingle (by rw [hpc]; rfl) (by simp [hpc, Pc.early]) (by simp) (hone _ rfl)
  case clockP =>
    exact hinv.goto (.startP s.now) (by simp [hpc]) trivial hsingle (by rw [hpc]; rfl) (by simp [hpc, Pc.early])
      (fun now hnow => Nat.le_trans hinv.start_le (Nat.le_of_eq (Pc.startP.inj hnow))) hnone
  case startP now =>
    rw [List.append_nil]
    exact hinv.setP hpc
  case showP =>
    exact hinv.goto (.select s.now) (by simp [hpc]) trivial hsingle (by rw [hpc]; rfl) (by simp [Pc.early]) (by simp) (hone _ rfl)
  case select since => exact hinv.serve hpc
  case readT =>
    split_ifs with hpending
    · exact hinv.readT hpc hpending
    · exact hstay
  case clock exp =>
    exact hinv.goto (.settime exp s.now) (by simp [hpc]) trivial ⟨hsingle.1, hsingle.2, Nat.le_refl _⟩
      (by rw [hpc]; rfl) (by simp [Pc.early]) (by simp)
      hnone
  case settime exp now => exact hinv.settime hpc
  case write exp =>
    split_ifs
    · rw [List.append_nil]
      exact hinv.write hpc
    · exact hstay
  case readE =>
    split_ifs with hefd
    · exact hinv.readE hpc hefd
    · exact hstay
  case readP =>
    split_ifs with hpending
    · exact hinv.readP hpc hpending
    · exact hstay
  case exited => exact hstay

theorem Inv.exit (hinv : s.Inv start h) : s.exit.1.Inv start (h ++ s.exit.2) :=
  hinv.kept rfl rfl rfl trivial trivial (fun hrun => absurd rfl hrun) (fun he => nomatch he) (fun _ hpc => nomatch hpc)
    (fun _ ho => absurd ho List.not_mem_nil)

/-- **A step keeps the invariant.** -/
theorem Inv.step (hinv : s.Inv start h) (i : Input) : (s.step i).1.Inv start (h ++ (s.step i).2) := by
  have hstay : s.Inv start (h ++ []) := by
    rw [List.append_nil]
    exact hinv
  have hagain : ∀ since l, s.pc = .select since → l.isPlain = true →
      Inv start (h ++ [(s.now, l)]) { s with pc := .select s.now } := by
    intro since l hpc hl
    have hsingle := hinv.single
    unfold Single at hsingle
    rw [hpc] at hsingle
    refine hinv.goto (.select s.now) (by simp [hpc]) trivial hsingle (by rw [hpc]; rfl) (by simp [Pc.early]) (by simp) ?_
    intro o ho
    rw [List.mem_singleton.1 ho]
    exact hl
  unfold State.step
  cases i with
  | elapse ns =>
      dsimp only
      split_ifs with hns
      · rw [List.append_nil]
        exact hinv.elapse ns hns
      · exact hstay
  | go ok =>
      cases ok with
      | true => exact hinv.call
      | false => exact hinv.exit
  | timeout =>
      dsimp only
      split
      · next since hpc =>
          split_ifs
          · exact hagain since .timeout hpc rfl
          · exact hstay
      · exact hstay
  | eintr =>
      dsimp only
      split
      · next since hpc => exact hagain since .interrupt hpc rfl
      · exact hstay
  | sigint => exact hinv.exit

end State

theorem inv_run (start : Nat) (inputs : List Input) :
    (timerfd.run (.init start) inputs).1.Inv start (timerfd.run (.init start) inputs).2 :=
  Machine.run_inv (m := timerfd) (I := fun h s => s.Inv start h) (fun _ _ i hI => hI.step i) inputs [] (.init start)
    (State.inv_init start)

/-- **Nothing is counted twice or lost.** However much time passes between the calls, the single-shot timer is read when
it has expired once, at the earliest five seconds of the clock after the time before, and what it has counted is what the
event descriptor has given, what that still holds, and what is about to be written to it. -/
theorem counts_passed (start : Nat) (inputs : List Input) :
    Every (Told start (timerfd.run (.init start) inputs).1.pfd) (timerfd.run (.init start) inputs).2 ∧
    total Line.ofEvent (timerfd.run (.init start) inputs).2 + (timerfd.run (.init start) inputs).1.efd ≤
      total Line.ofTimer (timerfd.run (.init start) inputs).2 ∧
    ((timerfd.run (.init start) inputs).1.pc ≠ .exited → total Line.ofTimer (timerfd.run (.init start) inputs).2 =
      total Line.ofEvent (timerfd.run (.init start) inputs).2 + (timerfd.run (.init start) inputs).1.efd +
        (timerfd.run (.init start) inputs).1.pc.inHand) :=
  ⟨(inv_run start inputs).told, (inv_run start inputs).passed_le, (inv_run start inputs).passed⟩

/-- **No tick of the periodic timer is lost.** What has been printed and what is pending are the ticks that are due: the
first three whole seconds after the clock was read, and then one every seven seconds, however late they are read. -/
theorem ticks_counted (start : Nat) (inputs : List Input) (k : Nat) :
    k < total Line.ofTicks (timerfd.run (.init start) inputs).2 +
        (timerfd.run (.init start) inputs).1.pfd.pending (timerfd.run (.init start) inputs).1.now ↔
      Periodic start (timerfd.run (.init start) inputs).1.pfd ∧
        (timerfd.run (.init start) inputs).1.pfd.value + k * (7 * SEC) ≤ (timerfd.run (.init start) inputs).1.now := by
  have hinv := inv_run start inputs
  rw [← hinv.ticks, Timer.read_add_pending hinv.ticks_le]
  rcases hinv.pfd with hoff | hperiodic
  · rw [hoff]
    refine iff_of_false (Nat.not_lt_zero k) fun h => ?_
    obtain ⟨hinterval, -⟩ := h.1
    cases hinterval
  · have hboth := hperiodic
    obtain ⟨hinterval, now, -, hvalue⟩ := hboth
    have hon : (timerfd.run (.init start) inputs).1.pfd.value ≠ 0 := by
      rw [hvalue]
      exact Nat.ne_of_gt (Nat.mul_pos (Nat.succ_pos _) (by decide))
    rw [Timer.lt_expirations hon (by rw [hinterval]; decide), hinterval, and_iff_right hperiodic]

/-! ## The periodic timer has its turn -/

/-- Calls alone lead to the line that says how many ticks are pending. -/
def State.Ticks (s : State) : Prop :=
  ∃ k, (s.now, .ticked (s.pfd.pending s.now)) ∈ (timerfd.run s (List.replicate k (.go true))).2

namespace State
variable {start : Nat} {s s' : State} {h : List (Nat × Line)}

theorem Ticks.of_call (hcall : s.call.1 = s') (hnow : s'.now = s.now) (hpfd : s'.pfd = s.pfd) (h : s'.Ticks) : s.Ticks := by
  obtain ⟨k, hk⟩ := h
  rw [hnow, hpfd, ← hcall] at hk
  refine ⟨k + 1, ?_⟩
  rw [List.replicate_succ, Machine.run_cons]
  exact List.mem_append_right _ hk

section Pending
variable (hpending : 0 < s.pfd.pending s.now)
include hpending

theorem ticks_readP (hpc : s.pc = .readP) : s.Ticks := by
  refine ⟨1, ?_⟩
  rw [List.replicate_one, Machine.run_cons]
  apply List.mem_append_left
  change _ ∈ s.call.2
  unfold call
  rw [hpc]
  dsimp only
  rw [if_pos hpending]
  exact List.mem_cons_self

/-- The periodic timer is the last that `select` looks at. -/
theorem ticks_last {since : Nat} (hpc : s.pc = .select since) (htfd : s.tfd.pending s.now = 0) (hefd : s.efd = 0) :
    s.Ticks := by
  refine Ticks.of_call (?_ : s.call.1 = { s with pc := .readP }) rfl rfl (ticks_readP hpending rfl)
  unfold call
  rw [hpc]
  dsimp only
  unfold serve
  rw [htfd, hefd, if_neg (Nat.lt_irrefl 0), if_neg (Nat.lt_irrefl 0), if_pos hpending]

theorem ticks_readE_last (hpc : s.pc = .readE) (hefd : 0 < s.efd) (htfd : s.tfd.pending s.now = 0) : s.Ticks := by
  refine Ticks.of_call (?_ : s.call.1 = { s with efd := 0, pc := .select s.now }) rfl rfl
    (ticks_last hpending rfl htfd rfl)
  unfold call
  rw [hpc]
  dsimp only
  rw [if_pos hefd]

theorem ticks_select_last {since : Nat} (hpc : s.pc = .select since) (htfd : s.tfd.pending s.now = 0) : s.Ticks := by
  by_cases hefd : 0 < s.efd
  · refine Ticks.of_call (?_ : s.call.1 = { s with pc := .readE }) rfl rfl (ticks_readE_last hpending rfl hefd htfd)
    unfold call
    rw [hpc]
    dsimp only
    unfold serve
    rw [htfd, if_neg (Nat.lt_irrefl 0), if_pos hefd]
  · exact ticks_last hpending hpc htfd (by omega)

theorem ticks_write_last {exp : Nat} (hpc : s.pc = .write exp) (hroom : s.efd + exp ≤ ULLONG_MAX_LESS_1)
    (htfd : s.tfd.pending s.now = 0) : s.Ticks := by
  refine Ticks.of_call (?_ : s.call.1 = { s with efd := s.efd + exp, pc := .select s.now }) rfl rfl
    (ticks_select_last hpending rfl htfd)
  unfold call
  rw [hpc]
  dsimp only
  rw [if_pos hroom]

/-- A timer that is set by the clock has not expired. -/
theorem ticks_settime_now {exp : Nat} (hpc : s.pc = .settime exp s.now) (hroom : s.efd + exp ≤ ULLONG_MAX_LESS_1) :
    s.Ticks := by
  refine Ticks.of_call (?_ : s.call.1 = { s with tfd := .settime ((s.now / SEC + 5) * SEC) 0, pc := .write exp }) rfl rfl
    (ticks_write_last hpending rfl hroom ?_)
  · unfold call
    rw [hpc]
  · unfold Timer.pending
    rw [Timer.expirations_of_lt, Nat.zero_sub]
    change s.now < (s.now / SEC + 5) * SEC
    unfold SEC
    omega

theorem ticks_clock {exp : Nat} (hpc : s.pc = .clock exp) (hroom : s.efd + exp ≤ ULLONG_MAX_LESS_1) : s.Ticks := by
  refine Ticks.of_call (?_ : s.call.1 = { s with pc := .settime exp s.now }) rfl rfl
    (ticks_settime_now hpending rfl hroom)
  unfold call
  rw [hpc]

theorem ticks_readT (hpc : s.pc = .readT) (hready : 0 < s.tfd.pending s.now)
    (hroom : s.efd + s.tfd.pending s.now ≤ ULLONG_MAX_LESS_1) : s.Ticks := by
  refine Ticks.of_call (?_ : s.call.1 = { s with tfd := s.tfd.take s.now, pc := .clock (s.tfd.pending s.now) }) rfl rfl
    (ticks_clock hpending rfl hroom)
  unfold call
  rw [hpc]
  dsimp only
  rw [if_pos hready]

theorem ticks_select {since : Nat} (hpc : s.pc = .select since) (hinterval : s.tfd.interval = 0)
    (hroom : s.efd + 1 ≤ ULLONG_MAX_LESS_1) : s.Ticks := by
  have hone := s.tfd.pending_le_one hinterval s.now
  by_cases htfd : 0 < s.tfd.pending s.now
  · refine Ticks.of_call (?_ : s.call.1 = { s with pc := .readT }) rfl rfl (ticks_readT hpending rfl htfd ?_)
    · unfold call
      rw [hpc]
      dsimp only
      unfold serve
      rw [if_pos htfd]
    · change s.efd + s.tfd.pending s.now ≤ _
      omega
  · exact ticks_select_last hpending hpc (by omega)

theorem ticks_write {exp : Nat} (hpc : s.pc = .write exp) (hinterval : s.tfd.interval = 0)
    (hroom : s.efd + exp + 1 ≤ ULLONG_MAX_LESS_1) : s.Ticks := by
  refine Ticks.of_call (?_ : s.call.1 = { s with efd := s.efd + exp, pc := .select s.now }) rfl rfl
    (ticks_select hpending rfl hinterval hroom)
  unfold call
  rw [hpc]
  dsimp only
  rw [if_pos (by omega)]

theorem ticks_settime {exp now : Nat} (hpc : s.pc = .settime exp now) (hroom : s.efd + exp + 1 ≤ ULLONG_MAX_LESS_1) :
    s.Ticks := by
  refine Ticks.of_call (?_ : s.call.1 = { s with tfd := .settime ((now / SEC + 5) * SEC) 0, pc := .write exp }) rfl rfl
    (ticks_write hpending rfl rfl hroom)
  unfold call
  rw [hpc]

theorem ticks_readE (hpc : s.pc = .readE) (hefd : 0 < s.efd) (hinterval : s.tfd.interval = 0) : s.Ticks := by
  refine Ticks.of_call (?_ : s.call.1 = { s with efd := 0, pc := .select s.now }) rfl rfl
    (ticks_select hpending rfl hinterval (show 0 + 1 ≤ ULLONG_MAX_LESS_1 by decide))
  unfold call
  rw [hpc]
  dsimp only
  rw [if_pos hefd]

theorem ticks_showP (hpc : s.pc = .showP) (hinterval : s.tfd.interval = 0) (hroom : s.efd + 1 ≤ ULLONG_MAX_LESS_1) :
    s.Ticks := by
  refine Ticks.of_call (?_ : s.call.1 = { s with pc := .select s.now }) rfl rfl
    (ticks_select hpending rfl hinterval hroom)
  unfold call
  rw [hpc]

end Pending

/-- The counter of the event descriptor is far from full. -/
theorem Inv.room (hinv : s.Inv start h) : s.efd + 2 ≤ ULLONG_MAX_LESS_1 := by
  have hpassed := hinv.passed_le
  have hnow := hinv.now_lt
  have hmod := Nat.div_add_mod start SEC
  have hlt := Nat.mod_lt start (show 0 < SEC by decide)
  rcases hinv.due_le with hnone | hdue
  · rw [hnone] at hpassed
    have hefd : s.efd = 0 := by omega
    rw [hefd]
    decide
  · unfold due at hdue
    unfold KTIME_MAX at hnow
    unfold ULLONG_MAX_LESS_1
    unfold SEC at hdue hmod hlt
    omega

/-- Where `main` can be when the periodic timer is set and it has not ended. -/
theorem Inv.ticks_pending (hinv : s.Inv start h) (hpc : s.pc ≠ .exited) (hpending : 0 < s.pfd.pending s.now) : s.Ticks := by
  have hroom := hinv.room
  have hsingle := hinv.single
  have hready := hinv.ready
  have hearly : s.pc.early = false := by
    rw [← Bool.not_eq_true]
    intro he
    rw [hinv.early he] at hpending
    exact Nat.lt_irrefl 0 hpending
  unfold Single at hsingle
  unfold Ready at hready
  cases hat : s.pc <;> rw [hat] at hsingle hready hearly <;> dsimp only at hsingle hready
  case showP => exact ticks_showP hpending hat hsingle.1 (by omega)
  case select since => exact ticks_select hpending hat hsingle.1 (by omega)
  case readT =>
    have hone := s.tfd.pending_le_one hsingle.1 s.now
    exact ticks_readT hpending hat hready (by omega)
  case clock exp => exact ticks_clock hpending hat (by omega)
  case settime exp now => exact ticks_settime hpending hat (by omega)
  case write exp => exact ticks_write hpending hat hsingle.2.1 (by omega)
  case readE => exact ticks_readE hpending hat hready hsingle.1
  case readP => exact ticks_readP hpending hat
  case exited => exact absurd hat hpc
  all_goals cases hearly

end State

/-- **The periodic timer has its turn.** The single-shot timer and the event descriptor go before it, but whatever they
hold, the calls of `main` get to the pending ticks. -/
theorem ticks_served (start : Nat) (inputs : List Input) (hpc : (timerfd.run (.init start) inputs).1.pc ≠ .exited)
    (hpending : 0 < (timerfd.run (.init start) inputs).1.pfd.pending (timerfd.run (.init start) inputs).1.now) :
    (timerfd.run (.init start) inputs).1.Ticks :=
  (inv_run start inputs).ticks_pending hpc hpending

theorem ticks_served_late : (timerfd.run (.init 0)
    [.go true, .go true, .go true, .go true, .go true, .go true, .elapse 9000000000]).1.Ticks :=
  ticks_served 0 [.go true, .go true, .go true, .go true, .go true, .go true, .elapse 9000000000] (by decide) (by decide)

end SysSnippets.Timers
