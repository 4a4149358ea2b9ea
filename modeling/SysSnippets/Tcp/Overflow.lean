import SysSnippets.Lib.Lines
import SysSnippets.Tcp.Client

/-!
# The stores of `handle_echo`

`handle_echo` of the C servers stores each byte it reads through `ptr`, up to a newline, into `line` of `MAXLEN` bytes.
The stream is what the peer sends; behind it `read` gives the end, an error, or nothing.

* `readLoop` : the loop of `s_select.c` and of `s_poll.c`, with the indexes it stores to;
* `SFork.stores` : the two loops of `s_fork.c`;
* `inside_iff` : when every store is inside `line`;
* `echoHandler_up` : a line of any length gets from the input of `c_select.c` to the server.
-/

namespace SysSnippets.Tcp
open SysSnippets.Lib

/-- The loop of `handle_echo` with `ptr` at an index of `line`: where it stores, and what it leaves of the stream. After
a store outside of `line` nothing is defined. -/
def readLoop (ptr : Nat) : List Byte → List Nat × Option (List Byte)
  | [] => ([], none)
  | c :: cs =>
      if MAXLEN ≤ ptr then ([ptr], none)
      else if c = ch '\n' then ([ptr], some cs)
      else (ptr :: (readLoop (ptr + 1) cs).1, (readLoop (ptr + 1) cs).2)

/-- `s_select.c` and `s_poll.c` call `handle_echo` once for a line. -/
def Select.stores (stream : List Byte) : List Nat := (readLoop 0 stream).1

/-- `s_fork.c` goes on with the next line, unless the `write` of this one fails. -/
def SFork.stores (write : Nat → Bool) (n ptr : Nat) : List Byte → List Nat
  | [] => []
  | c :: cs =>
      if MAXLEN ≤ ptr then [ptr]
      else if c = ch '\n' then ptr :: if write n then SFork.stores write (n + 1) 0 cs else []
      else ptr :: SFork.stores write n (ptr + 1) cs

/-- Every store is inside `line[0..MAXLEN-1]`. -/
def Inside (stores : List Nat) : Prop := ∀ ptr ∈ stores, ptr < MAXLEN

instance (stores : List Nat) : Decidable (Inside stores) := inferInstanceAs (Decidable (∀ ptr ∈ stores, ptr < MAXLEN))

theorem inside_cons {ptr : Nat} {stores : List Nat} : Inside (ptr :: stores) ↔ ptr < MAXLEN ∧ Inside stores :=
  List.forall_mem_cons

theorem readLoop_stores (ptr : Nat) (stream : List Byte) :
    (readLoop ptr stream).1 = SFork.stores (fun _ => false) 0 ptr stream := by
  induction stream generalizing ptr with
  | nil => rfl
  | cons c cs ih =>
      rw [readLoop, SFork.stores, if_neg Bool.false_ne_true]
      by_cases hptr : MAXLEN ≤ ptr
      · rw [if_pos hptr, if_pos hptr]
      · rw [if_neg hptr, if_neg hptr]
        by_cases hc : c = ch '\n'
        · rw [if_pos hc, if_pos hc]
        · rw [if_neg hc, if_neg hc]
          exact congrArg (ptr :: ·) (ih (ptr + 1))

section Stores
variable (write : Nat → Bool)

theorem inside_rest {text : List Byte} (h : ch '\n' ∉ text) (n ptr : Nat) :
    Inside (SFork.stores write n ptr text) ↔ text = [] ∨ ptr + text.length ≤ MAXLEN := by
  induction text generalizing ptr with
  | nil => exact iff_of_true (fun _ hp => absurd hp List.not_mem_nil) (Or.inl rfl)
  | cons c cs ih =>
      rw [List.mem_cons, not_or] at h
      rw [SFork.stores, if_neg (Ne.symm h.1), List.length_cons]
      by_cases hptr : MAXLEN ≤ ptr
      · rw [if_pos hptr, inside_cons]
        refine iff_of_false (fun hin => ?_) ?_
        · omega
        · simp only [List.cons_ne_nil, false_or]
          omega
      · rw [if_neg hptr, inside_cons, ih h.2]
        simp only [List.cons_ne_nil, false_or]
        cases cs with
        | nil =>
            simp only [true_or, and_true, List.length_nil]
            omega
        | cons d ds =>
            simp only [List.cons_ne_nil, false_or]
            omega

theorem inside_line {text : List Byte} (h : ch '\n' ∉ text) (rest : List Byte) (n ptr : Nat) :
    Inside (SFork.stores write n ptr (text ++ ch '\n' :: rest)) ↔
      ptr + text.length < MAXLEN ∧ (write n = true → Inside (SFork.stores write (n + 1) 0 rest)) := by
  induction text generalizing ptr with
  | nil =>
      rw [List.nil_append, SFork.stores, if_pos rfl, List.length_nil]
      by_cases hptr : MAXLEN ≤ ptr
      · rw [if_pos hptr, inside_cons]
        omega
      · rw [if_neg hptr, inside_cons, Nat.add_zero]
        refine and_congr_right fun _ => ?_
        split_ifs with hwrite
        · simp [hwrite]
        · simp [hwrite, Inside]
  | cons c cs ih =>
      rw [List.mem_cons, not_or] at h
      rw [List.cons_append, SFork.stores, if_neg (Ne.symm h.1), List.length_cons]
      by_cases hptr : MAXLEN ≤ ptr
      · rw [if_pos hptr, inside_cons]
        omega
      · rw [if_neg hptr, inside_cons, ih h.2, show ptr + 1 + cs.length = ptr + (cs.length + 1) by omega]
        exact and_iff_right_of_imp fun hin => by omega

/-- The stores are inside `line` if each line up to a failing `write` fits. -/
theorem inside_stores (stream : List Byte) (n : Nat) :
    Inside (SFork.stores write n 0 stream) ↔ ∀ i line, (lines (ch '\n') stream)[i]? = some line →
      (∀ j < i, write (n + j) = true) → line.length ≤ MAXLEN := by
  induction stream using line_induction (ch '\n') generalizing n with
  | unended text h =>
      rw [inside_rest write h]
      by_cases hne : text = []
      · simp [hne]
      · rw [lines_rest h hne]
        simp only [hne, Nat.zero_add, false_or]
        constructor
        · intro hle i line hline _
          obtain ⟨hlt, rfl⟩ := List.getElem?_eq_some_iff.1 hline
          simpa using hle
        · intro hall
          exact hall 0 text rfl fun j hj => absurd hj (Nat.not_lt_zero j)
  | line text rest h ih =>
      rw [inside_line write h, ih (n + 1), lines_text h]
      constructor
      · rintro ⟨hle, hrest⟩ i line hline hwrite
        cases i with
        | zero =>
            obtain rfl : text ++ [ch '\n'] = line := by simpa using hline
            rw [List.length_append, List.length_singleton]
            omega
        | succ i =>
            refine hrest (hwrite 0 (Nat.succ_pos i)) i line hline fun j hj => ?_
            rw [Nat.add_assoc, Nat.add_comm 1 j]
            exact hwrite (j + 1) (Nat.succ_lt_succ hj)
      · intro hall
        have hfirst := hall 0 _ rfl fun j hj => absurd hj (Nat.not_lt_zero j)
        rw [List.length_append, List.length_singleton] at hfirst
        refine ⟨by omega, fun hwrite i line hline hrest => hall (i + 1) line hline fun j hj => ?_⟩
        cases j with
        | zero => exact hwrite
        | succ j =>
            rw [← Nat.add_assoc, Nat.add_right_comm]
            exact hrest j (Nat.lt_of_succ_lt_succ hj)

end Stores

/-- In each server the stores are inside `line` if and only if every line that is read fits with its newline: the
first line of what a call of `s_select.c` and `s_poll.c` reads, and in `s_fork.c` each line up to a `write` that
fails. -/
theorem inside_iff (stream : List Byte) (write : Nat → Bool) :
    (Inside (Select.stores stream) ↔
      ∀ line, (lines (ch '\n') stream).head? = some line → line.length ≤ MAXLEN) ∧
    (Inside (SFork.stores write 0 0 stream) ↔ ∀ i line, (lines (ch '\n') stream)[i]? = some line →
      (∀ j < i, write j = true) → line.length ≤ MAXLEN) := by
  constructor
  · rw [Select.stores, readLoop_stores, inside_stores, List.head?_eq_getElem?]
    constructor
    · intro hall line hline
      exact hall 0 line hline fun j hj => absurd hj (Nat.not_lt_zero j)
    · intro hfirst i line hline hwrite
      cases i with
      | zero => exact hfirst line hline
      | succ i => exact absurd (hwrite 0 (Nat.succ_pos i)) (by simp)
  · rw [inside_stores]
    simp only [Nat.zero_add]

theorem not_inside : ¬ Inside (Select.stores (longLine 100)) ∧ ¬ Inside (SFork.stores (fun _ => true) 0 0 (longLine 100)) := by
  decide

theorem handleEcho_eq_none_iff (stream : List Byte) :
    SFork.handleEcho stream = none ↔ ¬ Inside (SFork.stores (fun _ => true) 0 0 stream) := by
  have hloop : ∀ (line : List Byte) (n : Nat), line.length ≤ MAXLEN →
      (SFork.echoLoop line stream = none ↔ ¬ Inside (SFork.stores (fun _ => true) n line.length stream)) := by
    induction stream with
    | nil => exact fun line n _ => iff_of_false (fun h => nomatch h) (fun h => h fun _ hp => absurd hp List.not_mem_nil)
    | cons c cs ih =>
        intro line n hline
        rw [SFork.echoLoop, SFork.stores, if_pos rfl]
        by_cases hroom : line.length = MAXLEN
        · rw [if_pos hroom, if_pos (Nat.le_of_eq hroom.symm), inside_cons]
          exact iff_of_true rfl fun h => absurd hroom (Nat.ne_of_lt h.1)
        · have hlt : line.length < MAXLEN := by omega
          rw [if_neg hroom, if_neg (Nat.not_le.2 hlt)]
          by_cases hc : c = ch '\n'
          · rw [if_pos hc, if_pos hc, Option.map_eq_none_iff, ih [] (n + 1) (Nat.zero_le _), inside_cons,
              and_iff_right hlt]
            rfl
          · rw [if_neg hc, if_neg hc, ih (line ++ [c]) n (by rw [List.length_append, List.length_singleton]; omega), inside_cons,
              and_iff_right hlt, List.length_append, List.length_singleton]
  exact hloop [] 0 (Nat.zero_le _)

/-! ## What `c_select.c` sends -/

theorem receive_up (s : Wire) (n : Nat) : (s.receive n).1.up ++ (s.receive n).1.stdin = s.up ++ s.stdin := by
  unfold Wire.receive
  dsimp only
  split_ifs <;> rfl

/-- The client cuts an input line into pieces, which make up the same line for the server. -/
theorem echoHandler_up {s : Wire} (h : (0 : Byte) ∉ s.stdin) (ready : Bool) (n : Nat) :
    (s.echoHandler ready n).1.up ++ (s.echoHandler ready n).1.stdin = s.up ++ s.stdin := by
  have hfgets := fgets_spec h
  unfold Wire.echoHandler
  split_ifs
  · rfl
  · dsimp only
    split_ifs with hend
    · rw [hend, List.nil_append] at hfgets
      exact congrArg (s.up ++ ·) hfgets
    · rw [receive_up]
      dsimp only
      rw [List.append_assoc, hfgets]
  · exact receive_up s n

end SysSnippets.Tcp
