import Mathlib.Data.Nat.Basic

/-!
# Timers behind descriptors

A timer expires at `value`, and then every `interval` if that is not 0; a read gives the number of expirations since the
read before.

* `expirations` : how often it has expired, and `lt_expirations` : when;
* `pending`, `take` : what a read gives, and what it leaves.
-/

namespace SysSnippets.Lib

structure Timer where
  /-- the first expiration; 0 when the timer is off -/
  value : Nat
  interval : Nat
  /-- how many expirations have been read -/
  read : Nat
  deriving DecidableEq

namespace Timer

def off : Timer := ⟨0, 0, 0⟩

def settime (value interval : Nat) : Timer := ⟨value, interval, 0⟩

def expirations (t : Timer) (now : Nat) : Nat :=
  if t.value = 0 ∨ now < t.value then 0 else if t.interval = 0 then 1 else (now - t.value) / t.interval + 1

def pending (t : Timer) (now : Nat) : Nat := t.expirations now - t.read

def take (t : Timer) (now : Nat) : Timer := { t with read := t.expirations now }

/-- The time until the next expiration, 0 if there is none. -/
def remaining (t : Timer) (now : Nat) : Nat :=
  if t.value = 0 then 0
  else if now < t.value then t.value - now
  else if t.interval = 0 then 0
  else t.interval - (now - t.value) % t.interval

variable {t : Timer} {now later k : Nat}

theorem expirations_of_lt (h : now < t.value) : t.expirations now = 0 := if_pos (Or.inr h)

theorem expirations_single (hvalue : t.value ≠ 0) (hinterval : t.interval = 0) (h : t.value ≤ now) :
    t.expirations now = 1 := by
  unfold expirations
  rw [if_neg (by omega), if_pos hinterval]

/-- **When a periodic timer expires.** -/
theorem lt_expirations (hvalue : t.value ≠ 0) (hinterval : t.interval ≠ 0) :
    k < t.expirations now ↔ t.value + k * t.interval ≤ now := by
  unfold expirations
  by_cases hlt : now < t.value
  · rw [if_pos (Or.inr hlt)]
    omega
  · rw [if_neg (by omega), if_neg hinterval, Nat.lt_succ_iff, Nat.le_div_iff_mul_le (Nat.pos_of_ne_zero hinterval)]
    omega

theorem expirations_mono (t : Timer) (h : now ≤ later) : t.expirations now ≤ t.expirations later := by
  unfold expirations
  by_cases hoff : t.value = 0 ∨ now < t.value
  · rw [if_pos hoff]
    exact Nat.zero_le _
  · have hon : ¬(t.value = 0 ∨ later < t.value) := by omega
    rw [if_neg hoff, if_neg hon]
    by_cases hinterval : t.interval = 0
    · rw [if_pos hinterval, if_pos hinterval]
    · rw [if_neg hinterval, if_neg hinterval]
      exact Nat.succ_le_succ (Nat.div_le_div_right (Nat.sub_le_sub_right h _))

theorem pending_mono (t : Timer) (h : now ≤ later) : t.pending now ≤ t.pending later :=
  Nat.sub_le_sub_right (t.expirations_mono h) t.read

theorem pending_le_one (t : Timer) (hinterval : t.interval = 0) (now : Nat) : t.pending now ≤ 1 := by
  apply Nat.le_trans (Nat.sub_le ..)
  unfold expirations
  split_ifs
  · exact Nat.zero_le 1
  · exact Nat.le_refl 1

@[simp] theorem expirations_take : (t.take now).expirations later = t.expirations later := rfl

/-- What has been read and what is pending is all. -/
theorem read_add_pending (h : t.read ≤ t.expirations now) : t.read + t.pending now = t.expirations now :=
  Nat.add_sub_cancel' h

end Timer

end SysSnippets.Lib
