import SysSnippets.Lib.Text
import SysSnippets.Tcp.Blocking

/-!
# One echo service in three languages

What a client that sends its lines and closes its side gets back:

* `SFork.handleEcho` : from the C server, one block of `MAXLEN` bytes for a line (`SFork.handleEcho_lines`);
* `Goroutines.handleEcho`, `StdThreaded.serve` : from the Go and the Rust server, the lines
  (`Goroutines.handleEcho_lines`, `StdThreaded.serve_lines`);
* `one_service` : the three agree if and only if no line leaves room in its block.
-/

namespace SysSnippets.Tcp
open SysSnippets.Lib

/-- The bytes up to a delimiter, or to the end of the stream, and what is left. -/
def readUntil (delim : Byte) : List Byte → List Byte × List Byte
  | [] => ([], [])
  | c :: cs => if c = delim then ([c], cs) else (c :: (readUntil delim cs).1, (readUntil delim cs).2)

theorem readUntil_length (delim : Byte) (bs : List Byte) :
    (readUntil delim bs).1.length + (readUntil delim bs).2.length = bs.length := by
  induction bs with
  | nil => rfl
  | cons c cs ih =>
      unfold readUntil
      split_ifs
      · exact Nat.add_comm 1 cs.length
      · simp only [List.length_cons]
        omega

theorem readUntil_line {delim : Byte} {text : List Byte} (h : delim ∉ text) (rest : List Byte) :
    readUntil delim (text ++ [delim] ++ rest) = (text ++ [delim], rest) := by
  induction text with
  | nil => exact if_pos rfl
  | cons c cs ih =>
      rw [List.mem_cons, not_or] at h
      have hc : ¬c = delim := fun e => h.1 e.symm
      rw [List.cons_append, List.cons_append, readUntil, if_neg hc, ih h.2]

/-- A line as clients send it. -/
structure IsLine (line : List Byte) : Prop where
  ended : ∃ text, line = text ++ [ch '\n'] ∧ ch '\n' ∉ text ∧ text.length < MAXLEN
  noNul : 0 ∉ line
  utf8 : validUtf8 line = true

theorem IsLine.length_le {line : List Byte} (h : IsLine line) : line.length ≤ MAXLEN := by
  obtain ⟨text, rfl, -, hlen⟩ := h.ended
  rw [List.length_append, List.length_singleton]
  omega

theorem IsLine.readUntil {line : List Byte} (h : IsLine line) (rest : List Byte) :
    readUntil (ch '\n') (line ++ rest) = (line, rest) := by
  obtain ⟨text, rfl, hnew, -⟩ := h.ended
  exact readUntil_line hnew rest

theorem IsLine.ne_nil {line : List Byte} (h : IsLine line) : line ≠ [] := by
  obtain ⟨text, rfl, -, -⟩ := h.ended
  simp

/-! ## C -/

namespace SFork

/-- The loops of `handle_echo` over what is left to read, with the line so far: what is written. A line of more
than `MAXLEN` bytes has no defined outcome. -/
def echoLoop (line : List Byte) : List Byte → Option (List Byte)
  | [] => some []
  | c :: cs =>
      if line.length = MAXLEN then none
      else if c = ch '\n' then (echoLoop [] cs).map (block (line ++ [c]) ++ ·)
      else echoLoop (line ++ [c]) cs

/-- `handle_echo` -/
def handleEcho (stream : List Byte) : Option (List Byte) := echoLoop [] stream

theorem echoLoop_text {text : List Byte} (hnew : ch '\n' ∉ text) (line rest : List Byte)
    (hlen : line.length + text.length < MAXLEN) :
    echoLoop line (text ++ [ch '\n'] ++ rest) =
      (echoLoop [] rest).map (block (line ++ text ++ [ch '\n']) ++ ·) := by
  induction text generalizing line with
  | nil =>
      rw [List.length_nil] at hlen
      have hroom : ¬line.length = MAXLEN := by omega
      change (if line.length = MAXLEN then _ else _) = _
      rw [if_neg hroom, if_pos rfl, List.append_nil]
      rfl
  | cons c cs ih =>
      rw [List.mem_cons, not_or] at hnew
      rw [List.length_cons] at hlen
      have hroom : ¬line.length = MAXLEN := by omega
      have hc : ¬c = ch '\n' := fun e => hnew.1 e.symm
      change (if line.length = MAXLEN then _ else _) = _
      rw [if_neg hroom, if_neg hc]
      refine (ih hnew.2 (line ++ [c]) ?_).trans ?_
      · rw [List.length_append, List.length_singleton]
        omega
      · rw [List.append_assoc line [c] cs]
        rfl

/-- The server answers a line with a block. -/
theorem handleEcho_lines {lines : List (List Byte)} (h : ∀ line ∈ lines, IsLine line) :
    handleEcho lines.flatten = some (lines.map block).flatten := by
  unfold handleEcho
  induction lines with
  | nil => rfl
  | cons line lines ih =>
      rw [List.forall_mem_cons] at h
      obtain ⟨text, rfl, hnew, hlen⟩ := h.1.ended
      have htext := echoLoop_text hnew [] lines.flatten (by rw [List.length_nil]; omega)
      rw [ih h.2] at htext
      exact htext

end SFork

/-! ## Go -/

namespace Goroutines

/-- `ReadBytes`: the bytes, the error, and what is left. -/
def readBytes (stream : List Byte) (delim : Byte) : List Byte × Bool × List Byte :=
  ((readUntil delim stream).1, decide ((readUntil delim stream).1.getLast? ≠ some delim), (readUntil delim stream).2)

/-- `handleEcho`: what is written. -/
def handleEcho (stream : List Byte) : List Byte :=
  match _h : readBytes stream (ch '\n') with
  | (_, true, _) => []
  | (b, false, rest) => b ++ handleEcho rest
termination_by stream.length
decreasing_by
  simp only [readBytes, Prod.mk.injEq, decide_eq_false_iff_not, not_not] at _h
  obtain ⟨-, hlast, rfl⟩ := _h
  have hlength := readUntil_length (ch '\n') stream
  have hpos : 0 < (readUntil (ch '\n') stream).1.length := by
    rw [List.length_pos_iff]
    intro hnil
    rw [hnil] at hlast
    cases hlast
  omega

theorem readBytes_line {line : List Byte} (h : IsLine line) (rest : List Byte) :
    readBytes (line ++ rest) (ch '\n') = (line, false, rest) := by
  unfold readBytes
  rw [h.readUntil]
  obtain ⟨text, rfl, -, -⟩ := h.ended
  rw [List.getLast?_concat]
  rfl

/-- The server answers a line with the line. -/
theorem handleEcho_lines {lines : List (List Byte)} (h : ∀ line ∈ lines, IsLine line) :
    handleEcho lines.flatten = lines.flatten := by
  induction lines with
  | nil =>
      rw [handleEcho]
      rfl
  | cons line lines ih =>
      rw [List.forall_mem_cons] at h
      rw [List.flatten_cons, handleEcho]
      split
      · rename_i hread
        rw [readBytes_line h.1] at hread
        cases hread
      · rename_i b rest hread
        rw [readBytes_line h.1] at hread
        cases hread
        rw [ih h.2]

end Goroutines

/-! ## Rust -/

namespace StdThreaded

/-- `read_line` into an empty string: the string, or an error; and what is left. -/
def readLine (stream : List Byte) : Option (List Byte) × List Byte :=
  (if validUtf8 (readUntil (ch '\n') stream).1 then some (readUntil (ch '\n') stream).1 else none,
    (readUntil (ch '\n') stream).2)

/-- `serve`: what is written. -/
def serve (stream : List Byte) : List Byte :=
  match _h : readLine stream with
  | (none, _) => []
  | (some msg, rest) => if msg = [] then [] else msg ++ serve rest
termination_by stream.length
decreasing_by
  rename_i hmsg
  simp only [readLine, Prod.mk.injEq] at _h
  obtain ⟨hread, rfl⟩ := _h
  split_ifs at hread
  cases hread
  have hlength := readUntil_length (ch '\n') stream
  have hpos : 0 < (readUntil (ch '\n') stream).1.length := List.length_pos_iff.2 hmsg
  omega

theorem readLine_line {line : List Byte} (h : IsLine line) (rest : List Byte) :
    readLine (line ++ rest) = (some line, rest) := by
  unfold readLine
  rw [h.readUntil, if_pos h.utf8]

/-- The server answers a line with the line. -/
theorem serve_lines {lines : List (List Byte)} (h : ∀ line ∈ lines, IsLine line) :
    serve lines.flatten = lines.flatten := by
  induction lines with
  | nil =>
      rw [serve]
      split
      · rfl
      · rename_i hread
        cases hread
        rfl
  | cons line lines ih =>
      rw [List.forall_mem_cons] at h
      rw [List.flatten_cons, serve]
      split
      · rename_i hread
        rw [readLine_line h.1] at hread
        cases hread
      · rename_i msg rest hread
        rw [readLine_line h.1] at hread
        cases hread
        rw [if_neg h.1.ne_nil, ih h.2]

end StdThreaded

/-! ## One service -/

/-- Padding shows: a block is followed by the next line only if it has none. -/
theorem blocks_eq_lines {lines : List (List Byte)} (h : ∀ line ∈ lines, IsLine line) :
    (lines.map block).flatten = lines.flatten ↔ ∀ line ∈ lines, line.length = MAXLEN := by
  induction lines with
  | nil => simp
  | cons line lines ih =>
      rw [List.forall_mem_cons] at h ⊢
      have hlen := h.1.length_le
      rw [List.map_cons, List.flatten_cons, List.flatten_cons, block, List.append_assoc, List.append_cancel_left_eq,
        ← ih h.2]
      constructor
      · intro heq
        by_cases hroom : MAXLEN - line.length = 0
        · rw [hroom, List.replicate_zero, List.nil_append] at heq
          exact ⟨by omega, heq⟩
        · -- a NUL of the padding would have to be in a line
          have hzero : (0 : Byte) ∈ lines.flatten := by
            rw [← heq]
            exact List.mem_append_left _ (List.mem_replicate.2 ⟨hroom, rfl⟩)
          obtain ⟨l, hl, hnul⟩ := List.mem_flatten.1 hzero
          exact absurd hnul (h.2 l hl).noNul
      · rintro ⟨hfull, heq⟩
        rw [hfull, Nat.sub_self, List.replicate_zero, List.nil_append]
        exact heq

/-- **One service.** The three servers write the lines they have read if and only if every line, with its newline,
has `MAXLEN` bytes. -/
theorem one_service (lines : List (List Byte)) (h : ∀ line ∈ lines, IsLine line) :
    (SFork.handleEcho lines.flatten = some lines.flatten ∧ Goroutines.handleEcho lines.flatten = lines.flatten ∧
      StdThreaded.serve lines.flatten = lines.flatten) ↔ ∀ line ∈ lines, line.length = MAXLEN := by
  rw [SFork.handleEcho_lines h, Goroutines.handleEcho_lines h, StdThreaded.serve_lines h, Option.some_inj,
    ← blocks_eq_lines h]
  exact and_iff_left ⟨rfl, rfl⟩

/-- `n` times the letter a, and a newline. -/
def longLine (n : Nat) : List Byte := List.replicate n (ch 'a') ++ [ch '\n']

theorem one_service_long :
    SFork.handleEcho [longLine 99].flatten = some [longLine 99].flatten ∧
      Goroutines.handleEcho [longLine 99].flatten = [longLine 99].flatten ∧
      StdThreaded.serve [longLine 99].flatten = [longLine 99].flatten := by
  refine (one_service [longLine 99] ?_).2 ?_
  · rw [List.forall_mem_singleton]
    exact ⟨⟨List.replicate 99 (ch 'a'), rfl, by decide, by decide⟩, by decide, by decide +kernel⟩
  · rw [List.forall_mem_singleton]
    rfl

/-- A short line comes back from the C server with 98 NULs. -/
theorem not_one_service :
    ¬∀ lines : List (List Byte), (∀ line ∈ lines, IsLine line) →
      SFork.handleEcho lines.flatten = some lines.flatten ∧ Goroutines.handleEcho lines.flatten = lines.flatten ∧
        StdThreaded.serve lines.flatten = lines.flatten := by
  intro h
  have hshort : IsLine (longLine 1) := by
    exact ⟨⟨[ch 'a'], rfl, by decide, by decide⟩, by decide, by decide +kernel⟩
  exact absurd (h [longLine 1] (by rwa [List.forall_mem_singleton])).1 (by decide)

end SysSnippets.Tcp
