import Mathlib.Data.List.Basic
import Mathlib.Data.List.Induction

/-!
# Buffers filled again and again

A buffer that each message is copied to the start of keeps, behind it, what was there.

* `fill` : one copy, cut where the buffer ends;
* `latest z h i` : the element `i` of the last of the messages `h` that has one, else `z` (`getElem_fills`);
* `fills_snoc_eq_iff` : when two histories that end with one message leave the same behind; `take_fills` : what is not behind.
-/

namespace SysSnippets.Lib
variable {α : Type*} {n : Nat}

/-- `data` copied to the start of `buf`. -/
def fill (buf : Vector α n) (data : List α) : Vector α n := Vector.ofFn fun i => data[i.val]?.getD buf[i]

def latest (z : α) (h : List (List α)) (i : Nat) : α :=
  ((h.filter fun data => i < data.length).getLast?.bind (·[i]?)).getD z

variable {z : α} {h h₁ h₂ : List (List α)} {data : List α} {i : Nat}

theorem getElem_fill (buf : Vector α n) (hi : i < n) : (fill buf data)[i] = data[i]?.getD buf[i] := by
  unfold fill
  rw [Vector.getElem_ofFn]
  rfl

/-- A message longer than `i` is the last that has an element `i`, another one changes nothing. -/
theorem latest_snoc : latest z (h ++ [data]) i = data[i]?.getD (latest z h i) := by
  unfold latest
  rw [List.filter_append]
  by_cases hi : i < data.length
  · rw [List.filter_cons_of_pos (by simpa using hi), List.filter_nil, List.getLast?_append, List.getLast?_singleton,
      Option.some_or, Option.bind_some, List.getElem?_eq_getElem hi]
    rfl
  · rw [List.filter_cons_of_neg (by simpa using hi), List.filter_nil, List.append_nil,
      List.getElem?_eq_none (Nat.le_of_not_lt hi)]
    rfl

theorem getElem_fills (hi : i < n) : (h.foldl fill (Vector.replicate n z))[i] = latest z h i := by
  induction h using List.reverseRecOn with
  | nil => exact Vector.getElem_replicate hi
  | append_singleton h data ih =>
      rw [latest_snoc, ← ih, ← getElem_fill _ hi]
      simp only [List.foldl_append, List.foldl_cons, List.foldl_nil]

theorem fills_eq_iff :
    h₁.foldl fill (Vector.replicate n z) = h₂.foldl fill (Vector.replicate n z) ↔
      ∀ i < n, latest z h₁ i = latest z h₂ i := by
  refine ⟨fun heq i hi => ?_, fun heq => ?_⟩
  · rw [← getElem_fills hi, ← getElem_fills hi, heq]
  · ext i hi
    rw [getElem_fills hi, getElem_fills hi]
    exact heq i hi

/-- What counts is behind the last message. -/
theorem fills_snoc_eq_iff :
    (h₁ ++ [data]).foldl fill (Vector.replicate n z) = (h₂ ++ [data]).foldl fill (Vector.replicate n z) ↔
      ∀ i < n, data.length ≤ i → latest z h₁ i = latest z h₂ i := by
  rw [fills_eq_iff]
  apply forall₂_congr
  intro i hi
  rw [latest_snoc, latest_snoc]
  by_cases hlen : data.length ≤ i
  · rw [List.getElem?_eq_none hlen]
    exact ⟨fun heq _ => heq, fun heq => heq hlen⟩
  · rw [List.getElem?_eq_getElem (Nat.lt_of_not_le hlen)]
    exact iff_of_true rfl fun hle => absurd hle hlen

/-- Up to its end there is the last message alone. -/
theorem take_fills (buf : Vector α n) : ((h ++ [data]).foldl fill buf).toList.take (min data.length n) = data.take n := by
  simp only [List.foldl_append, List.foldl_cons, List.foldl_nil]
  apply List.ext_getElem
  · rw [List.length_take, List.length_take, Vector.length_toList]
    omega
  · intro i hi _
    rw [List.length_take] at hi
    rw [List.getElem_take, List.getElem_take, Vector.getElem_toList, getElem_fill _ (by omega),
      List.getElem?_eq_getElem (by omega)]
    rfl

end SysSnippets.Lib
