import Mathlib.Data.List.TakeWhile

/-!
# Tokens: `strtok`

* `strtok p s` : the first token of `s` between delimiters `p`, and where the next call goes on;
* `exists_token` : a text that is not only delimiters is delimiters, a token, and nothing or a delimiter and more;
  `strtok_token` reads it off;
* `strtok_drop`, `strtok_append` : delimiters before and behind a text do not change its token.
-/

namespace SysSnippets.Lib
variable {α : Type*} (p : α → Bool)

/-- The token, or NULL, and what the call after it gets to see. -/
def strtok (s : List α) : Option (List α) × List α :=
  match s.dropWhile p with
  | [] => (none, [])
  | c :: cs => (some (c :: cs.takeWhile (!p ·)), (cs.dropWhile (!p ·)).tail)

/-- Not empty and without delimiters. -/
structure IsToken (w : List α) : Prop where
  ne_nil : w ≠ []
  free : ∀ b ∈ w, p b = false

variable {p} in
theorem isToken_of_all {w : List α} (hne : w ≠ []) (hall : (w.all fun b => !p b) = true) : IsToken p w := by
  refine ⟨hne, fun b hb => ?_⟩
  simpa using List.all_eq_true.1 hall b hb

/-- Only delimiters. -/
def Blank (s : List α) : Prop := ∀ b ∈ s, p b = true

instance (s : List α) : Decidable (Blank p s) := inferInstanceAs (Decidable (∀ b ∈ s, p b = true))

variable {p} {s l w t r : List α}

theorem Blank.dropWhile (h : Blank p s) : s.dropWhile p = [] := List.dropWhile_eq_nil_iff.2 h

theorem blank_append : Blank p (s ++ t) ↔ Blank p s ∧ Blank p t := List.forall_mem_append

theorem Blank.tail (h : Blank p s) : Blank p s.tail := fun b hb => h b (List.mem_of_mem_tail hb)

theorem blank_flatten {ss : List (List α)} : Blank p ss.flatten ↔ ∀ s ∈ ss, Blank p s := by
  constructor
  · exact fun h s hs b hb => h b (List.mem_flatten.2 ⟨s, hs, hb⟩)
  · intro h b hb
    obtain ⟨s, hs, hb⟩ := List.mem_flatten.1 hb
    exact h s hs b hb

theorem strtok_blank (h : Blank p s) : strtok p s = (none, []) := by
  unfold strtok
  rw [h.dropWhile]

theorem strtok_drop (h : Blank p l) (s : List α) : strtok p (l ++ s) = strtok p s := by
  unfold strtok
  rw [List.dropWhile_append_of_pos h]

/-- A token that is followed by nothing, or by a delimiter. -/
theorem strtok_token (hw : IsToken p w) (ht : ∀ c ∈ t.head?, p c = true) : strtok p (w ++ t) = (some w, t.tail) := by
  obtain ⟨c, cs, rfl⟩ := List.exists_cons_of_ne_nil hw.ne_nil
  have hc : p c = false := hw.free c List.mem_cons_self
  have hcs : ∀ b ∈ cs, (!p b) = true := fun b hb => by simp [hw.free b (List.mem_cons_of_mem _ hb)]
  unfold strtok
  rw [List.cons_append, List.dropWhile_cons_of_neg (by simp [hc])]
  dsimp only
  rw [List.takeWhile_append_of_pos hcs, List.dropWhile_append_of_pos hcs]
  cases t with
  | nil => simp
  | cons d ds => simp [ht d rfl]

theorem exists_token (h : ¬ Blank p s) :
    ∃ l w t, s = l ++ (w ++ t) ∧ Blank p l ∧ IsToken p w ∧ ∀ c ∈ t.head?, p c = true := by
  refine ⟨s.takeWhile p, (s.dropWhile p).takeWhile (!p ·), (s.dropWhile p).dropWhile (!p ·), ?_, ?_, ⟨?_, ?_⟩, ?_⟩
  · rw [List.takeWhile_append_dropWhile, List.takeWhile_append_dropWhile]
  · exact fun b hb => List.mem_takeWhile_imp hb
  · intro hnil
    have hne : s.dropWhile p ≠ [] := fun hnil => h (List.dropWhile_eq_nil_iff.1 hnil)
    have hhead := List.head_dropWhile_not p hne
    rw [← List.cons_head_tail hne, List.takeWhile_cons, hhead] at hnil
    exact List.cons_ne_nil _ _ hnil
  · exact fun b hb => by simpa using List.mem_takeWhile_imp hb
  · intro c hc
    have hne : (s.dropWhile p).dropWhile (!p ·) ≠ [] := by
      intro hnil
      rw [hnil] at hc
      exact nomatch hc
    rw [List.head?_eq_some_head hne] at hc
    obtain rfl := Option.some.inj hc
    simpa using List.head_dropWhile_not (!p ·) hne

theorem strtok_eq_none_iff : (strtok p s).1 = none ↔ Blank p s := by
  constructor
  · intro h
    by_contra hblank
    obtain ⟨l, w, t, rfl, hl, hw, ht⟩ := exists_token hblank
    rw [strtok_drop hl, strtok_token hw ht] at h
    exact nomatch h
  · intro h
    rw [strtok_blank h]

/-- Delimiters behind the text go on behind what the next call sees. -/
theorem strtok_append (hr : Blank p r) (s : List α) :
    ∃ r', Blank p r' ∧ strtok p (s ++ r) = ((strtok p s).1, (strtok p s).2 ++ r') := by
  by_cases hs : Blank p s
  · refine ⟨[], fun b hb => absurd hb List.not_mem_nil, ?_⟩
    rw [strtok_blank hs, strtok_blank (blank_append.2 ⟨hs, hr⟩)]
    rfl
  · obtain ⟨l, w, t, rfl, hl, hw, ht⟩ := exists_token hs
    rw [List.append_assoc, strtok_drop hl, strtok_drop hl, List.append_assoc, strtok_token hw ht]
    cases t with
    | nil =>
        refine ⟨r.tail, hr.tail, ?_⟩
        rw [List.nil_append, strtok_token hw fun c hc => hr c (List.mem_of_head? hc)]
        rfl
    | cons c t =>
        refine ⟨r, hr, ?_⟩
        rw [strtok_token hw (t := c :: t ++ r) fun d hd => ht d hd]
        rfl

end SysSnippets.Lib
