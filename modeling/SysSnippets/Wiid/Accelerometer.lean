import SysSnippets.Lib.Machine
import SysSnippets.Lib.Text

/-!
# The rate limit of the Wii accelerometer (`wiid-tests/wii_acc.c`)

`wii_handle_accelerometer` forwards a message when 100 ms have passed since the last one it forwarded. The time is
computed in milliseconds as a `long` of 32 bits, where it wraps, and then widened with its sign to the 64 bits in which
it is compared.

* `wide` : the time as the comparison sees it (`newTimeMsec_eq`);
* `Faithful P T` : between a message forwarded at `P` and one at `T` the comparison is right (`faithful_iff`);
* `law_iff` : the runs in which the messages forwarded are those that are due.
-/

namespace SysSnippets.Wiid

open SysSnippets.Lib

/-- A reading of the monotonic clock. -/
structure Timespec where
  tv_sec : BitVec 32
  tv_nsec : BitVec 32
  sec_lt : tv_sec.toNat < 2 ^ 31
  nsec_lt : tv_nsec.toNat < 10 ^ 9

namespace Timespec

def nsec (t : Timespec) : Nat := t.tv_sec.toNat * 10 ^ 9 + t.tv_nsec.toNat

/-- The reading in whole milliseconds. -/
def msec (t : Timespec) : Nat := t.nsec / 10 ^ 6

end Timespec

/-- What the remote reports, and the reading of the clock in the call that handles it. -/
structure Message where
  tick : Timespec
  x : Byte
  y : Byte
  z : Byte

/-- `struct input_event`, whose time is left at zero. -/
structure InputEvent where
  type : BitVec 16
  code : BitVec 16
  value : BitVec 32
  deriving DecidableEq

def evSyn : BitVec 16 := 0
def evRel : BitVec 16 := 2
def relX : BitVec 16 := 0
def relY : BitVec 16 := 1
def relZ : BitVec 16 := 2

def widen (b : Byte) : BitVec 32 := BitVec.ofNat 32 b.toNat

/-- The events that forward a message. -/
def report (m : Message) : List InputEvent :=
  [ ⟨evRel, relX, widen m.x⟩,
    ⟨evRel, relY, widen m.y⟩,
    ⟨evRel, relZ, widen m.z⟩,
    ⟨evSyn, 0, 0⟩ ]

def accRateMsec : BitVec 32 := 100

/-- `tick.tv_sec*1000 + tick.tv_nsec/1000000`, of type `long`, as an `unsigned long long`. -/
def newTimeMsec (tick : Timespec) : BitVec 64 := (tick.tv_sec * 1000 + tick.tv_nsec.sdiv 1000000).signExtend 64

/-- Each call shows its message and the events it sends; the state is `acc_time_msec`. -/
def wiiHandleAccelerometer : Machine (BitVec 64) Message (Message × List InputEvent) where
  step accTimeMsec m :=
    if accTimeMsec + accRateMsec.signExtend 64 ≤ newTimeMsec m.tick then
      (newTimeMsec m.tick, [(m, report m)])
    else (accTimeMsec, [(m, [])])

/-! ## The rate limit -/

/-- The time of the last message forwarded. -/
def lastForwarded (h : List (Message × List InputEvent)) : Nat :=
  h.foldl (fun last o => if o.2 = [] then last else o.1.tick.msec) 0

/-- A message is forwarded if and only if 100 ms have passed. -/
def Law (h : List (Message × List InputEvent)) (o : Message × List InputEvent) : Prop :=
  o.2 = if lastForwarded h + 100 ≤ o.1.tick.msec then report o.1 else []

/-- The time of the last message that is due, `m` coming after one that is due at `last`. -/
def nextDue (last : Nat) (m : Message) : Nat := if last + 100 ≤ m.tick.msec then m.tick.msec else last

/-- The time of the last message that is due. -/
def lastDue (ms : List Message) : Nat := ms.foldl nextDue 0

/-! ## The comparison -/

/-- A time of the clock, in the bits that are compared. -/
def wide (T : Nat) : BitVec 64 := (BitVec.ofNat 32 T).signExtend 64

theorem newTimeMsec_eq (tick : Timespec) : newTimeMsec tick = wide tick.msec := by
  have hsec := tick.sec_lt
  have hnsec := tick.nsec_lt
  have hmsb : tick.tv_nsec.msb = false := by
    rw [BitVec.msb_eq_false_iff_two_mul_lt]
    omega
  have hdiv : (tick.tv_nsec.sdiv 1000000).toNat = tick.tv_nsec.toNat / 10 ^ 6 := by
    rw [BitVec.sdiv_eq, hmsb]
    exact BitVec.toNat_udiv
  unfold newTimeMsec wide
  congr 1
  apply BitVec.eq_of_toNat_eq
  rw [BitVec.toNat_add, BitVec.toNat_mul, hdiv, BitVec.toNat_ofNat, Timespec.msec, Timespec.nsec]
  show (tick.tv_sec.toNat * 1000 % 2 ^ 32 + tick.tv_nsec.toNat / 10 ^ 6) % 2 ^ 32 = _
  omega

theorem toNat_wide (T : Nat) :
    (wide T).toNat = if T % 2 ^ 32 < 2 ^ 31 then T % 2 ^ 32 else 2 ^ 64 - 2 ^ 32 + T % 2 ^ 32 := by
  rw [wide, BitVec.toNat_signExtend, BitVec.toNat_setWidth, BitVec.toNat_ofNat, BitVec.msb_eq_decide, BitVec.toNat_ofNat]
  by_cases hT : T % 2 ^ 32 < 2 ^ 31
  · rw [if_pos hT, if_neg (by rw [decide_eq_true_eq]; omega)]
    omega
  · rw [if_neg hT, if_pos (by rw [decide_eq_true_eq]; omega)]
    omega

theorem due_iff {P T : Nat} :
    wide P + accRateMsec.signExtend 64 ≤ wide T ↔ ((wide P).toNat + 100) % 2 ^ 64 ≤ (wide T).toNat := by
  rw [BitVec.le_def, BitVec.toNat_add]
  rfl

/-- Where the comparison is right for a message at `T`, the last one that was due being at `P`. The wrapped times `p` and
`t` are negative from 2^31 on. -/
def Faithful (P T : Nat) : Prop :=
  let p := P % 2 ^ 32
  let t := T % 2 ^ 32
  if p < 2 ^ 31 then
    if t < 2 ^ 31 then P / 2 ^ 32 = T / 2 ^ 32 ∨ p + 100 ≤ t
    -- `t` is widened to more than any `p`
    else P + 100 ≤ T
  else if p + 100 < 2 ^ 32 then
    -- a `t` that is not negative is less than `p`
    2 ^ 31 ≤ t ∧ (P / 2 ^ 32 = T / 2 ^ 32 ∨ p + 100 ≤ t)
  else
    -- 100 ms after `p` the 64 bits wrap as well
    if t < 2 ^ 31 then T / 2 ^ 32 = P / 2 ^ 32 + 1 ∨ p + 100 ≤ t + 2 ^ 32
    else P + 100 ≤ T

theorem faithful_iff {P T : Nat} (h : P ≤ T) :
    Faithful P T ↔ (wide P + accRateMsec.signExtend 64 ≤ wide T ↔ P + 100 ≤ T) := by
  rw [due_iff, toNat_wide, toNat_wide]
  unfold Faithful
  by_cases hp : P % 2 ^ 32 < 2 ^ 31
  · by_cases ht : T % 2 ^ 32 < 2 ^ 31
    · simp only [hp, ht, if_true]
      omega
    · simp only [hp, ht, if_true, if_false]
      omega
  · by_cases hwrap : P % 2 ^ 32 + 100 < 2 ^ 32
    · by_cases ht : T % 2 ^ 32 < 2 ^ 31
      · simp only [hp, hwrap, ht, if_true, if_false]
        omega
      · simp only [hp, hwrap, ht, if_true, if_false]
        omega
    · by_cases ht : T % 2 ^ 32 < 2 ^ 31
      · simp only [hp, hwrap, ht, if_true, if_false]
        omega
      · simp only [hp, hwrap, ht, if_false]
        omega

/-- In the first 2^31 ms the times do not wrap. -/
theorem faithful_of_lt {P T : Nat} (hPT : P ≤ T) (hT : T < 2 ^ 31) : Faithful P T := by
  unfold Faithful
  rw [if_pos (by omega), if_pos (by omega)]
  omega

/-! ## Runs -/

theorem report_ne_nil (m : Message) : report m ≠ [] := List.cons_ne_nil _ _

theorem lastDue_snoc (ms : List Message) (m : Message) :
    lastDue (ms ++ [m]) = if lastDue ms + 100 ≤ m.tick.msec then m.tick.msec else lastDue ms := by
  rw [lastDue, List.foldl_append, List.foldl_cons, List.foldl_nil, nextDue, lastDue]

theorem lastForwarded_snoc (h : List (Message × List InputEvent)) (o : Message × List InputEvent) :
    lastForwarded (h ++ [o]) = if o.2 = [] then lastForwarded h else o.1.tick.msec := by
  simp only [lastForwarded, List.foldl_append, List.foldl_cons, List.foldl_nil]

/-- The messages come with readings that do not decrease. -/
def InOrder (ms : List Message) : Prop := ms.Pairwise fun m m' => m.tick.nsec ≤ m'.tick.nsec

theorem InOrder.init {ms : List Message} {m : Message} (h : InOrder (ms ++ [m])) : InOrder ms :=
  (List.pairwise_append.1 h).1

theorem InOrder.lastDue_le {ms : List Message} {m : Message} (h : InOrder (ms ++ [m])) :
    lastDue ms ≤ m.tick.msec := by
  induction ms using List.reverseRec generalizing m with
  | nil => exact Nat.zero_le _
  | append_singleton ms m' ih =>
      have hle : m'.tick.msec ≤ m.tick.msec :=
        Nat.div_le_div_right ((List.pairwise_append.1 h).2.2 m' (by simp) m (by simp))
      rw [lastDue_snoc]
      split
      · exact hle
      · exact (ih h.init).trans hle

/-- What a call does where the state is the time of the last message that was due. -/
theorem step_wide (P : Nat) (m : Message) :
    wiiHandleAccelerometer.step (wide P) m =
      if wide P + accRateMsec.signExtend 64 ≤ wide m.tick.msec then (wide m.tick.msec, [(m, report m)])
      else (wide P, [(m, [])]) := by
  simp only [wiiHandleAccelerometer, newTimeMsec_eq]

theorem step_faithful {P : Nat} {m : Message} (hle : P ≤ m.tick.msec) (h : Faithful P m.tick.msec) :
    wiiHandleAccelerometer.step (wide P) m =
      if P + 100 ≤ m.tick.msec then (wide m.tick.msec, [(m, report m)]) else (wide P, [(m, [])]) := by
  rw [step_wide]
  exact if_congr ((faithful_iff hle).1 h) rfl rfl

/-- The run so far and the messages that were due agree. -/
structure Agrees (ms : List Message) (h : List (Message × List InputEvent)) (s : BitVec 64) : Prop where
  state : s = wide (lastDue ms)
  last : lastForwarded h = lastDue ms

theorem agrees {ms : List Message} (horder : InOrder ms)
    (hfaithful : Every (fun pre m => Faithful (lastDue pre) m.tick.msec) ms) :
    Agrees ms (wiiHandleAccelerometer.run 0 ms).2 (wiiHandleAccelerometer.run 0 ms).1 := by
  induction ms using List.reverseRec with
  | nil => exact ⟨rfl, rfl⟩
  | append_singleton ms m ih =>
      rw [every_snoc] at hfaithful
      obtain ⟨hstate, hlast⟩ := ih horder.init hfaithful.1
      rw [Machine.run_append, Machine.run_cons, Machine.run_nil, hstate,
        step_faithful horder.lastDue_le hfaithful.2, List.append_nil]
      by_cases hdue : lastDue ms + 100 ≤ m.tick.msec
      · rw [if_pos hdue]
        constructor
        · rw [lastDue_snoc, if_pos hdue]
        · rw [lastDue_snoc, if_pos hdue, lastForwarded_snoc, if_neg (report_ne_nil m)]
      · rw [if_neg hdue]
        constructor
        · rw [lastDue_snoc, if_neg hdue]
        · rw [lastDue_snoc, if_neg hdue, lastForwarded_snoc, if_pos rfl, hlast]

/-- A call forwards the message if it is due, and only then, where the comparison is right, and only there. -/
theorem law_step_iff {ms : List Message} {h : List (Message × List InputEvent)} {m : Message}
    (hlast : lastForwarded h = lastDue ms) (hle : lastDue ms ≤ m.tick.msec) :
    Every (fun pre => Law (h ++ pre)) (wiiHandleAccelerometer.step (wide (lastDue ms)) m).2 ↔
      Faithful (lastDue ms) m.tick.msec := by
  rw [faithful_iff hle, step_wide]
  by_cases hcode : wide (lastDue ms) + accRateMsec.signExtend 64 ≤ wide m.tick.msec
  · rw [if_pos hcode, every_singleton, List.append_nil, Law, hlast]
    by_cases hdue : lastDue ms + 100 ≤ m.tick.msec
    · simp [hcode, hdue]
    · simp [hcode, hdue, report_ne_nil]
  · rw [if_neg hcode, every_singleton, List.append_nil, Law, hlast]
    by_cases hdue : lastDue ms + 100 ≤ m.tick.msec
    · simp [hcode, hdue, (report_ne_nil m).symm]
    · simp [hcode, hdue]

theorem law_snoc {ms : List Message} {m : Message} (horder : InOrder (ms ++ [m]))
    (hfaithful : Every (fun pre m => Faithful (lastDue pre) m.tick.msec) ms) :
    Every Law (wiiHandleAccelerometer.run 0 (ms ++ [m])).2 ↔
      Every Law (wiiHandleAccelerometer.run 0 ms).2 ∧ Faithful (lastDue ms) m.tick.msec := by
  obtain ⟨hstate, hlast⟩ := agrees horder.init hfaithful
  rw [Machine.run_append, Machine.run_cons, Machine.run_nil, List.append_nil, every_append, hstate]
  exact and_congr_right fun _ => law_step_iff hlast horder.lastDue_le

theorem law_of_faithful {ms : List Message} (horder : InOrder ms)
    (hfaithful : Every (fun pre m => Faithful (lastDue pre) m.tick.msec) ms) :
    Every Law (wiiHandleAccelerometer.run 0 ms).2 := by
  induction ms using List.reverseRec with
  | nil => exact every_nil
  | append_singleton ms m ih =>
      rw [every_snoc] at hfaithful
      rw [law_snoc horder hfaithful.1]
      exact ⟨ih horder.init hfaithful.1, hfaithful.2⟩

/-- Up to 2^31 ms after the start of the clock the messages forwarded are those that are due. -/
theorem law_of_lt {ms : List Message} (horder : InOrder ms) (hlt : ∀ m ∈ ms, m.tick.msec < 2 ^ 31) :
    Every Law (wiiHandleAccelerometer.run 0 ms).2 := by
  apply law_of_faithful horder
  rintro pre m post rfl
  rw [List.append_cons] at horder
  exact faithful_of_lt (InOrder.lastDue_le (List.pairwise_append.1 horder).1) (hlt m (by simp))

/-- **The rate limit.** The messages forwarded in a run are those that are due if and only if every comparison on the way
is right. -/
theorem law_iff (ms : List Message) (horder : InOrder ms) :
    Every Law (wiiHandleAccelerometer.run 0 ms).2 ↔
      Every (fun pre m => Faithful (lastDue pre) m.tick.msec) ms := by
  constructor
  · intro hlaw
    induction ms using List.reverseRec with
    | nil => exact every_nil
    | append_singleton ms m ih =>
        have hprev : Every Law (wiiHandleAccelerometer.run 0 ms).2 := by
          rw [Machine.run_append, every_append] at hlaw
          exact hlaw.1
        have hfaithful := ih horder.init hprev
        rw [law_snoc horder hfaithful] at hlaw
        exact every_snoc.2 ⟨hfaithful, hlaw.2⟩
  · exact law_of_faithful horder

/-- A message whose time is `ms` milliseconds, below 2^31 seconds. -/
def messageAt (s ms : Nat) (hs : s < 2 ^ 31) (hms : ms < 1000) : Message where
  tick :=
    { tv_sec := BitVec.ofNat 32 s
      tv_nsec := BitVec.ofNat 32 (ms * 10 ^ 6)
      sec_lt := by
        rw [BitVec.toNat_ofNat]
        omega
      nsec_lt := by
        rw [BitVec.toNat_ofNat]
        apply Nat.lt_of_le_of_lt (Nat.mod_le _ _)
        omega }
  x := 0
  y := 0
  z := 0

def soon : List Message :=
  [ messageAt 0 100 (by decide) (by decide),
    messageAt 0 150 (by decide) (by decide),
    messageAt 0 250 (by decide) (by decide) ]

/-- Messages at 100, 150 and 250 ms. -/
theorem law_soon :
    Every Law (wiiHandleAccelerometer.run 0 soon).2 ↔
      Every (fun pre m => Faithful (lastDue pre) m.tick.msec) soon := by
  apply law_iff
  simp [InOrder, soon, messageAt, Timespec.nsec]

/-- 2^32 + 50 ms after the start of the clock. -/
def late : Message := messageAt 4294967 346 (by decide) (by decide)

/-- The first message, 50 ms after the wrapped time is zero again, is not forwarded. -/
theorem not_law_late : InOrder [late] ∧ ¬ Every Law (wiiHandleAccelerometer.run 0 [late]).2 := by
  have hmsec : late.tick.msec = 2 ^ 32 + 50 := rfl
  have horder : InOrder ([] ++ [late]) := List.pairwise_singleton _ _
  refine ⟨horder, fun hlaw => ?_⟩
  have hfaithful := ((law_snoc horder every_nil).1 hlaw).2
  rw [hmsec] at hfaithful
  unfold Faithful at hfaithful
  revert hfaithful
  decide

end SysSnippets.Wiid
