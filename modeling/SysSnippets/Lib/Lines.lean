import Mathlib.Data.List.Basic

/-!
# Lines

* `lines nl s` : the lines of a stream, each with the delimiter that ends it; the last may have none;
* `lines_text`, `lines_rest` : a first line, and a last one;
* `line_induction` : what holds of an unended line, and of a line and more if it holds of what comes after it, holds
  of every stream;
* `ended nl s` : the lines that end, one for each delimiter (`length_ended`);
* `fgets` : what one call reads; `pieces` : the calls up to the end of a stream, line by line (`pieces_lines`).
-/

namespace SysSnippets.Lib
variable {α : Type*} [DecidableEq α]

def lines (nl : α) : List α → List (List α)
  | [] => []
  | c :: cs =>
      if c = nl then [c] :: lines nl cs
      else
        match lines nl cs with
        | [] => [[c]]
        | l :: ls => (c :: l) :: ls

variable {nl : α} {text : List α}

@[simp] theorem lines_nil : lines nl [] = [] := rfl

theorem lines_text (h : nl ∉ text) (rest : List α) : lines nl (text ++ nl :: rest) = (text ++ [nl]) :: lines nl rest := by
  induction text with
  | nil => exact if_pos rfl
  | cons c cs ih =>
      rw [List.mem_cons, not_or] at h
      rw [List.cons_append, lines, if_neg (Ne.symm h.1), ih h.2]
      rfl

theorem lines_rest (h : nl ∉ text) (hne : text ≠ []) : lines nl text = [text] := by
  induction text with
  | nil => exact absurd rfl hne
  | cons c cs ih =>
      rw [List.mem_cons, not_or] at h
      rw [lines, if_neg (Ne.symm h.1)]
      by_cases hcs : cs = []
      · rw [hcs]
        rfl
      · rw [ih h.2 hcs]

/-- A stream has an unended line, or a line and more. -/
theorem exists_line (nl : α) (s : List α) :
    nl ∉ s ∨ ∃ text rest, nl ∉ text ∧ s = text ++ nl :: rest := by
  by_cases h : nl ∈ s
  · obtain ⟨text, rest, rfl, htext⟩ := List.eq_append_cons_of_mem h
    exact Or.inr ⟨text, rest, htext, rfl⟩
  · exact Or.inl h

theorem line_induction {p : List α → Prop} (nl : α) (unended : ∀ text, nl ∉ text → p text)
    (line : ∀ text rest, nl ∉ text → p rest → p (text ++ nl :: rest)) (s : List α) : p s := by
  induction hn : s.length using Nat.strongRecOn generalizing s with
  | ind n ih =>
      obtain h | ⟨text, rest, htext, rfl⟩ := exists_line nl s
      · exact unended s h
      · refine line text rest htext (ih rest.length ?_ rest rfl)
        rw [List.length_append, List.length_cons] at hn
        omega

/-- A stream has one first line. -/
theorem first_line_inj {text' rest rest' : List α} (h : nl ∉ text) (h' : nl ∉ text')
    (heq : text ++ nl :: rest = text' ++ nl :: rest') : text = text' ∧ rest = rest' := by
  have hidx := congrArg (List.idxOf nl) heq
  rw [List.idxOf_append_of_notMem h, List.idxOf_append_of_notMem h', List.idxOf_cons_self, List.idxOf_cons_self] at hidx
  obtain ⟨htext, hrest⟩ := List.append_inj heq hidx
  exact ⟨htext, (List.cons_inj_right nl).1 hrest⟩

theorem mem_lines {s line : List α} (h : line ∈ lines nl s) : ∃ text, nl ∉ text ∧ (line = text ∨ line = text ++ [nl]) := by
  induction s using line_induction nl with
  | unended text htext =>
      by_cases hne : text = []
      · rw [hne] at h
        exact absurd h List.not_mem_nil
      · rw [lines_rest htext hne] at h
        exact ⟨text, htext, Or.inl (List.mem_singleton.1 h)⟩
  | line text rest htext ih =>
      rw [lines_text htext] at h
      rcases List.mem_cons.1 h with rfl | h
      · exact ⟨text, htext, Or.inr rfl⟩
      · exact ih h

theorem flatten_lines (nl : α) (s : List α) : (lines nl s).flatten = s := by
  induction s using line_induction nl with
  | unended text htext =>
      by_cases hne : text = []
      · rw [hne]
        rfl
      · rw [lines_rest htext hne]
        exact List.append_nil text
  | line text rest htext ih =>
      rw [lines_text htext, List.flatten_cons, ih, List.append_assoc]
      rfl

/-- The lines of a stream that end. -/
def ended (nl : α) (s : List α) : List (List α) := (lines nl s).filter (nl ∈ ·)

theorem ended_nil_iff {s : List α} : ended nl s = [] ↔ nl ∉ s := by
  induction s using line_induction nl with
  | unended text htext =>
      refine iff_of_true ?_ htext
      unfold ended
      by_cases hne : text = []
      · rw [hne]
        rfl
      · rw [lines_rest htext hne]
        exact List.filter_cons_of_neg (by simpa using htext)
  | line text rest htext _ =>
      refine iff_of_false ?_ (by simp)
      unfold ended
      rw [lines_text htext, List.filter_cons_of_pos (by simp)]
      exact List.cons_ne_nil _ _

theorem ended_text (h : nl ∉ text) (rest : List α) :
    ended nl (text ++ nl :: rest) = (text ++ [nl]) :: ended nl rest := by
  unfold ended
  rw [lines_text h, List.filter_cons_of_pos (by simp)]

theorem length_ended (nl : α) (s : List α) : (ended nl s).length = s.count nl := by
  induction s using line_induction nl with
  | unended text htext => rw [ended_nil_iff.2 htext, List.count_eq_zero.2 htext, List.length_nil]
  | line text rest htext ih =>
      rw [ended_text htext, List.length_cons, ih, List.count_append, List.count_cons_self,
        List.count_eq_zero.2 htext]
      omega

/-- Two ways to replace each element, of which one gives no less: they agree in total only if they agree at each. -/
theorem flatMap_eq_iff {β γ : Type*} {f g : β → List γ} {l : List β} (hle : ∀ x ∈ l, (g x).length ≤ (f x).length) :
    l.flatMap f = l.flatMap g ↔ ∀ x ∈ l, f x = g x := by
  have hlength : ∀ l : List β, (∀ x ∈ l, (g x).length ≤ (f x).length) →
      (l.flatMap g).length ≤ (l.flatMap f).length := by
    intro l
    induction l with
    | nil => exact fun _ => Nat.le_refl _
    | cons x l ih =>
        intro hle
        obtain ⟨hx, hl⟩ := List.forall_mem_cons.1 hle
        rw [List.flatMap_cons, List.flatMap_cons, List.length_append, List.length_append]
        exact Nat.add_le_add hx (ih hl)
  induction l with
  | nil => exact iff_of_true rfl fun x hx => absurd hx List.not_mem_nil
  | cons x l ih =>
      obtain ⟨hx, hl⟩ := List.forall_mem_cons.1 hle
      rw [List.flatMap_cons, List.flatMap_cons, List.forall_mem_cons]
      constructor
      · intro h
        have hsum := congrArg List.length h
        rw [List.length_append, List.length_append] at hsum
        have hrest := hlength l hl
        obtain ⟨hfirst, hrest⟩ := List.append_inj h (by omega)
        exact ⟨hfirst, (ih hl).1 hrest⟩
      · rintro ⟨hfirst, hrest⟩
        rw [hfirst, (ih hl).2 hrest]

/-! ## `fgets` -/

/-- The first `n` elements up to a delimiter, and the rest. -/
def readLine (nl : α) : Nat → List α → List α × List α
  | 0, s => ([], s)
  | _ + 1, [] => ([], [])
  | n + 1, c :: cs => if c = nl then ([c], cs) else (c :: (readLine nl n cs).1, (readLine nl n cs).2)

/-- `fgets` with room for `n` elements and a NUL: what it stores and leaves, or NULL at the end of the stream. -/
def fgets (nl : α) (n : Nat) (s : List α) : Option (List α × List α) :=
  if s = [] ∨ n = 0 then none else some (readLine nl n s)

theorem readLine_append (nl : α) (n : Nat) (s : List α) : (readLine nl n s).1 ++ (readLine nl n s).2 = s := by
  induction n generalizing s with
  | zero => rfl
  | succ n ih =>
      cases s with
      | nil => rfl
      | cons c cs =>
          unfold readLine
          split_ifs
          · rfl
          · exact congrArg (c :: ·) (ih cs)

theorem readLine_ne_nil (nl : α) {n : Nat} {s : List α} (hn : n ≠ 0) (hs : s ≠ []) : (readLine nl n s).1 ≠ [] := by
  obtain ⟨n, rfl⟩ := Nat.exists_eq_succ_of_ne_zero hn
  obtain ⟨c, cs, rfl⟩ := List.exists_cons_of_ne_nil hs
  unfold readLine
  split_ifs <;> exact List.cons_ne_nil _ _

variable {n : Nat} {s piece rest : List α}

theorem fgets_some (h : fgets nl n s = some (piece, rest)) : piece ++ rest = s ∧ piece ≠ [] := by
  unfold fgets at h
  split_ifs at h with hend
  rw [not_or] at hend
  have hsplit := readLine_append nl n s
  have hne := readLine_ne_nil nl hend.2 hend.1
  rw [Option.some.inj h] at hsplit hne
  exact ⟨hsplit, hne⟩

theorem fgets_decreasing (h : fgets nl n s = some (piece, rest)) : rest.length < s.length := by
  obtain ⟨rfl, hne⟩ := fgets_some h
  have hpos := List.length_pos_of_ne_nil hne
  rw [List.length_append]
  omega

/-- What the calls of `fgets` store. -/
def pieces (nl : α) (n : Nat) (s : List α) : List (List α) :=
  match _ : fgets nl n s with
  | none => []
  | some (piece, rest) => piece :: pieces nl n rest
termination_by s.length
decreasing_by exact fgets_decreasing ‹_›

theorem pieces_none (h : fgets nl n s = none) : pieces nl n s = [] := by
  rw [pieces]
  split
  · rfl
  · next heq => rw [h] at heq; exact nomatch heq

theorem pieces_some (h : fgets nl n s = some (piece, rest)) : pieces nl n s = piece :: pieces nl n rest := by
  rw [pieces]
  split
  · next heq => rw [h] at heq; exact nomatch heq
  · next piece' rest' heq =>
    rw [h] at heq
    obtain ⟨rfl, rfl⟩ := Prod.mk.inj (Option.some.inj heq)
    rfl

theorem flatten_pieces (nl : α) (hn : n ≠ 0) (s : List α) : (pieces nl n s).flatten = s := by
  induction hs : s.length using Nat.strongRecOn generalizing s with
  | ind m ih =>
      cases hgets : fgets nl n s with
      | none =>
          rw [pieces_none hgets]
          unfold fgets at hgets
          split_ifs at hgets with hend
          exact (hend.resolve_right hn).symm
      | some r =>
          obtain ⟨piece, rest⟩ := r
          rw [pieces_some hgets, List.flatten_cons, ih rest.length (hs ▸ fgets_decreasing hgets) rest rfl]
          exact (fgets_some hgets).1

/-- A call does not read behind the first delimiter. -/
theorem readLine_line (h : nl ∉ text) (n : Nat) (rest : List α) :
    readLine nl n (text ++ nl :: rest) =
      ((readLine nl n (text ++ [nl])).1, (readLine nl n (text ++ [nl])).2 ++ rest) ∧
      ((readLine nl n (text ++ [nl])).2 = [] ∨
        ∃ text', nl ∉ text' ∧ (readLine nl n (text ++ [nl])).2 = text' ++ [nl]) := by
  induction n generalizing text with
  | zero =>
      refine ⟨?_, Or.inr ⟨text, h, rfl⟩⟩
      unfold readLine
      simp
  | succ n ih =>
      cases text with
      | nil => simp [readLine]
      | cons c cs =>
          rw [List.mem_cons, not_or] at h
          obtain ⟨heq, hrest⟩ := ih h.2
          have hc : ¬c = nl := Ne.symm h.1
          rw [List.cons_append, List.cons_append, readLine, readLine, if_neg hc, if_neg hc, heq]
          exact ⟨rfl, hrest⟩

/-- A line for which there is room. -/
theorem fgets_line (h : nl ∉ text) (hlen : text.length < n) (rest : List α) :
    fgets nl n (text ++ nl :: rest) = some (text ++ [nl], rest) := by
  have hread : ∀ (n : Nat) (text : List α), nl ∉ text → text.length < n →
      readLine nl n (text ++ nl :: rest) = (text ++ [nl], rest) := by
    intro n
    induction n with
    | zero => exact fun text _ hlen => absurd hlen (Nat.not_lt_zero _)
    | succ n ih =>
        intro text h hlen
        cases text with
        | nil => exact if_pos rfl
        | cons c cs =>
            rw [List.mem_cons, not_or] at h
            rw [List.cons_append, readLine, if_neg (Ne.symm h.1), ih cs h.2 (Nat.lt_of_succ_lt_succ hlen)]
            rfl
  unfold fgets
  rw [if_neg (by simp; omega), hread n text h hlen]

/-- The calls go line by line. -/
theorem pieces_line (hn : n ≠ 0) (h : nl ∉ text) (rest : List α) :
    pieces nl n (text ++ nl :: rest) = pieces nl n (text ++ [nl]) ++ pieces nl n rest := by
  induction hs : text.length using Nat.strongRecOn generalizing text with
  | ind m ih =>
      have hgets : ∀ rest : List α, fgets nl n (text ++ nl :: rest) = some (readLine nl n (text ++ nl :: rest)) :=
        fun rest => if_neg (by simp [hn])
      obtain ⟨heq, hrest⟩ := readLine_line h n rest
      have hsplit := readLine_append nl n (text ++ [nl])
      have hne := readLine_ne_nil nl hn (s := text ++ [nl]) (by simp)
      rw [pieces_some (heq ▸ hgets rest), pieces_some (hgets []), List.cons_append]
      rcases hrest with hnil | ⟨text', htext', hrest⟩
      · rw [hnil, List.nil_append, show pieces nl n ([] : List α) = [] from pieces_none (if_pos (Or.inl rfl))]
        rfl
      · have hlen := congrArg List.length hsplit
        have hpos := List.length_pos_of_ne_nil hne
        rw [hrest] at hlen ⊢
        simp only [List.length_append, List.length_singleton] at hlen
        rw [List.append_assoc, List.singleton_append, ih text'.length (by omega) htext' rfl]

theorem pieces_lines (hn : n ≠ 0) (s : List α) : pieces nl n s = (lines nl s).flatMap (pieces nl n) := by
  induction s using line_induction nl with
  | unended text h =>
      by_cases hne : text = []
      · rw [hne]
        exact pieces_none (if_pos (Or.inl rfl))
      · rw [lines_rest h hne, List.flatMap_singleton]
  | line text rest h ih => rw [pieces_line hn h, lines_text h, List.flatMap_cons, ih]

end SysSnippets.Lib
