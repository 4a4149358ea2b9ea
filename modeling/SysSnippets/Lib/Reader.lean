import SysSnippets.Lib.Lines

/-!
# Buffered readers

A `Reader` takes what a read of its source returns, and keeps what it has not returned.

* `readString` : the text up to a delimiter; `readString_line` : when it is buffered, `readString_read` : when it comes
  with a read, `readString_unended` : when it does not come;
* `read_induction` : the reads up to the one that brings the next delimiter.
-/

namespace SysSnippets.Lib
variable {α : Type*} [DecidableEq α]

structure Reader (α : Type*) where
  /-- what is read and not yet returned -/
  buf : List α
  /-- what the reads to come return; behind them is the end of the source, or an error -/
  source : List (List α)

namespace Reader

/-- A reader of a source. -/
def new (source : List (List α)) : Reader α := ⟨[], source⟩

/-- What is left of the stream. -/
def stream (r : Reader α) : List α := r.buf ++ r.source.flatten

/-- `readString` with what is buffered and the reads to come. -/
def readString.go (nl : α) (buf : List α) : List (List α) → Except (List α) (List α) × Reader α
  | [] =>
      if nl ∈ buf then (.ok (buf.take (buf.idxOf nl + 1)), ⟨buf.drop (buf.idxOf nl + 1), []⟩)
      else (.error buf, ⟨[], []⟩)
  | c :: cs =>
      if nl ∈ buf then (.ok (buf.take (buf.idxOf nl + 1)), ⟨buf.drop (buf.idxOf nl + 1), c :: cs⟩)
      else go nl (buf ++ c) cs

/-- The text up to the first delimiter and with it, or what there is when the source fails. -/
def readString (nl : α) (r : Reader α) : Except (List α) (List α) × Reader α := readString.go nl r.buf r.source

variable {nl : α} {buf text a rest : List α} {c : List α} {cs pre post : List (List α)}

theorem readString_line (h : nl ∉ text) (rest : List α) (cs : List (List α)) :
    readString nl ⟨text ++ nl :: rest, cs⟩ = (.ok (text ++ [nl]), ⟨rest, cs⟩) := by
  have hmem : nl ∈ text ++ nl :: rest := by simp
  have hidx : (text ++ nl :: rest).idxOf nl + 1 = (text ++ [nl]).length := by
    rw [List.idxOf_append_of_notMem h, List.idxOf_cons_self, List.length_append]
    rfl
  have hsplit : text ++ nl :: rest = (text ++ [nl]) ++ rest := (List.append_cons text nl rest)
  unfold readString
  cases cs with
  | nil =>
      show (if nl ∈ text ++ nl :: rest then _ else _) = _
      rw [if_pos hmem, hidx, hsplit, List.take_left, List.drop_left]
  | cons c cs =>
      show (if nl ∈ text ++ nl :: rest then _ else _) = _
      rw [if_pos hmem, hidx, hsplit, List.take_left, List.drop_left]

theorem readString_fill (h : nl ∉ buf) : readString nl ⟨buf, c :: cs⟩ = readString nl ⟨buf ++ c, cs⟩ := by
  show (if nl ∈ buf then _ else _) = _
  rw [if_neg h]
  rfl

/-- The delimiter does not come. -/
theorem readString_unended {r : Reader α} (h : nl ∉ r.stream) : readString nl r = (.error r.stream, ⟨[], []⟩) := by
  obtain ⟨buf, cs⟩ := r
  unfold stream at *
  induction cs generalizing buf with
  | nil =>
      rw [List.flatten_nil, List.append_nil] at *
      exact if_neg h
  | cons c cs ih =>
      have hbuf : nl ∉ buf := fun hmem => h (List.mem_append_left _ hmem)
      rw [readString_fill hbuf]
      dsimp only at *
      rw [List.flatten_cons, ← List.append_assoc] at *
      exact ih _ h

/-- The delimiter comes with a read. -/
theorem readString_read (hbuf : nl ∉ buf) (hpre : nl ∉ pre.flatten) (ha : nl ∉ a) :
    readString nl ⟨buf, pre ++ (a ++ nl :: rest) :: post⟩ = (.ok (buf ++ pre.flatten ++ a ++ [nl]), ⟨rest, post⟩) := by
  induction pre generalizing buf with
  | nil =>
      rw [List.nil_append, readString_fill hbuf, ← List.append_assoc,
        readString_line (by rw [List.mem_append, not_or]; exact ⟨hbuf, ha⟩), List.flatten_nil, List.append_nil]
  | cons c pre ih =>
      rw [List.flatten_cons, List.mem_append, not_or] at hpre
      rw [List.cons_append, readString_fill hbuf, ih (by rw [List.mem_append, not_or]; exact ⟨hbuf, hpre.1⟩) hpre.2,
        List.flatten_cons, ← List.append_assoc buf c]

/-- What a reader does with a stream does not depend on its reads. -/
theorem readString_stream {r : Reader α} (h : nl ∉ text) (hstream : r.stream = text ++ nl :: rest) :
    ∃ r', readString nl r = (.ok (text ++ [nl]), r') ∧ r'.stream = rest := by
  obtain ⟨buf, cs⟩ := r
  unfold stream at hstream
  dsimp only at hstream
  induction cs generalizing buf with
  | nil =>
      rw [List.flatten_nil, List.append_nil] at hstream
      rw [hstream, readString_line h]
      exact ⟨_, rfl, List.append_nil rest⟩
  | cons c cs ih =>
      by_cases hbuf : nl ∈ buf
      · obtain ⟨t, b, rfl, ht⟩ := List.eq_append_cons_of_mem hbuf
        rw [List.append_assoc, List.cons_append] at hstream
        obtain ⟨rfl, hrest⟩ := first_line_inj ht h hstream
        rw [readString_line h]
        exact ⟨_, rfl, hrest⟩
      · rw [readString_fill hbuf]
        apply ih
        rw [List.append_assoc]
        exact hstream

/-- What was returned is the first line of the stream. -/
theorem readString_ok {r r' : Reader α} {str : List α} (h : readString nl r = (.ok str, r')) :
    ∃ text, nl ∉ text ∧ str = text ++ [nl] ∧ r.stream = text ++ nl :: r'.stream := by
  rcases exists_line nl r.stream with hend | ⟨text, rest, htext, hstream⟩
  · rw [readString_unended hend] at h
    exact nomatch congrArg Prod.fst h
  · obtain ⟨r'', hread, hrest⟩ := readString_stream htext hstream
    rw [hread, Prod.mk.injEq] at h
    obtain ⟨hstr, rfl⟩ := h
    cases hstr
    exact ⟨text, htext, rfl, by rw [hstream, hrest]⟩

end Reader

/-! ## The reads of a stream -/

theorem exists_read (nl : α) (cs : List (List α)) :
    nl ∉ cs.flatten ∨ ∃ pre a rest post, nl ∉ pre.flatten ∧ nl ∉ a ∧ cs = pre ++ (a ++ nl :: rest) :: post := by
  induction cs with
  | nil => exact Or.inl List.not_mem_nil
  | cons c cs ih =>
      rcases exists_line nl c with hc | ⟨a, rest, ha, rfl⟩
      · rcases ih with hcs | ⟨pre, a, rest, post, hpre, ha, rfl⟩
        · refine Or.inl ?_
          rw [List.flatten_cons, List.mem_append, not_or]
          exact ⟨hc, hcs⟩
        · refine Or.inr ⟨c :: pre, a, rest, post, ?_, ha, rfl⟩
          rw [List.flatten_cons, List.mem_append, not_or]
          exact ⟨hc, hpre⟩
      · exact Or.inr ⟨[], a, rest, cs, List.not_mem_nil, ha, rfl⟩

theorem read_induction {p : List (List α) → Prop} (nl : α) (unended : ∀ cs, nl ∉ cs.flatten → p cs)
    (read : ∀ pre a rest post, nl ∉ pre.flatten → nl ∉ a → p post → p (pre ++ (a ++ nl :: rest) :: post))
    (cs : List (List α)) : p cs := by
  induction hn : cs.length using Nat.strongRecOn generalizing cs with
  | ind n ih =>
      obtain h | ⟨pre, a, rest, post, hpre, ha, rfl⟩ := exists_read nl cs
      · exact unended cs h
      · refine read pre a rest post hpre ha (ih post.length ?_ post rfl)
        rw [List.length_append, List.length_cons] at hn
        omega

end SysSnippets.Lib
