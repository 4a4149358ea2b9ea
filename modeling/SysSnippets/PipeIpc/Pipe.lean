import SysSnippets.Lib.Lines
import SysSnippets.Lib.Text
import SysSnippets.Lib.Tokens

/-!
# The command stream of `pipe.c`

The parent reads what the child writes to a pipe with `fgets` into a buffer of 1024 bytes, and parses each buffer with
`strtok`. It does not include `<string.h>`: the compiler takes `strtok` to return an `int`.

* `report` : the body of the loop on one buffer, where an `int` holds a pointer; `body` : on either target;
* `commands` : the loop;
* `OneBuffer`, `TwoArguments` : a line that is parsed as it should be;
* `commands_iff` : the reports are those of the lines if and only if an `int` holds a pointer, or nothing but blanks
  comes, and every line is one of these;
* `commands_xmit` : the lines of `xmit.c` are.
-/

namespace SysSnippets.PipeIpc
open SysSnippets.Lib

/-- `sizeof(buffer) - 1` -/
def ROOM : Nat := 1023

def newline : Byte := ch '\n'

/-- In `" \n"`. -/
def isBlank (b : Byte) : Bool := b = ch ' ' || b = newline

/-- In `"\n"`. -/
def isNewline (b : Byte) : Bool := b = newline

def PROGRESS : List Byte := ['p', 'r', 'o', 'g', 'r', 'e', 's', 's'].map ch

def UI_PRINT : List Byte := ['u', 'i', '_', 'p', 'r', 'i', 'n', 't'].map ch

/-- What the program is built for. -/
inductive Target
  /-- an `int`, a `long` and a pointer have 32 bits -/
  | ilp32
  /-- a `long` and a pointer have 64 bits, and the stack is where no `int` points to -/
  | lp64
  deriving DecidableEq

/-- `strtol(s, NULL, 10)`, with a `long` of 32 bits. -/
def strtol (s : List Byte) : U32 :=
  let (neg, s) := takeSign (s.dropWhile isSpace)
  let n : Int := digitsValue (s.takeWhile isDigit)
  BitVec.ofInt 32 (max (-2 ^ 31) (min (if neg then -n else n) (2 ^ 31 - 1)))

/-- What a buffer comes to. -/
inductive Report (F : Type)
  | progress (fraction : F) (seconds : U32)
  | uiPrint (str : Option (List Byte))
  | unknown (command : List Byte)
  /-- `strtof` or `strtol` is called with NULL: the end of what C defines -/
  | null
  /-- `strcmp` is called with a pointer that was cut to an `int`: the same -/
  | cut
  deriving DecidableEq

section Parent
variable {F : Type} (strtof : List Byte → F)

/-- The body of the loop, where an `int` holds a pointer. -/
def report (buffer : List Byte) : Option (Report F) :=
  match strtok isBlank buffer with
  | (none, _) => none
  | (some command, rest) =>
      if command = PROGRESS then
        let (fraction_s, rest) := strtok isBlank rest
        let (seconds_s, _) := strtok isBlank rest
        match fraction_s, seconds_s with
        | some fraction_s, some seconds_s => some (.progress (strtof fraction_s) (strtol seconds_s))
        | _, _ => some .null
      else if command = UI_PRINT then some (.uiPrint (strtok isNewline rest).1)
      else some (.unknown command)

/-- The body of the loop: of a pointer to `command`, an `int` keeps the lower half. -/
def body (target : Target) (buffer : List Byte) : Option (Report F) :=
  match target, (strtok isBlank buffer).1 with
  | .lp64, some _ => some .cut
  | _, _ => report strtof buffer

/-- The reports of what is left to read. -/
def commands (target : Target) (stream : List Byte) : List (Report F) :=
  match _ : fgets newline ROOM stream with
  | none => []
  | some (buffer, rest) =>
      match body strtof target (cstr buffer) with
      | none => commands target rest
      | some .null => [.null]
      | some .cut => [.cut]
      | some r => r :: commands target rest
termination_by stream.length
decreasing_by all_goals exact fgets_decreasing ‹_›

end Parent

/-! ## Lines that are parsed as they should be -/

/-- `fraction_s` and `seconds_s` are there. -/
def TwoArguments (line : List Byte) : Prop :=
  (strtok isBlank line).1 = some PROGRESS →
    (strtok isBlank (strtok isBlank line).2).1 ≠ none ∧
      (strtok isBlank (strtok isBlank (strtok isBlank line).2).2).1 ≠ none

/-- Nothing but the command is in the buffer. -/
def EndsWithCommand (buffer : List Byte) : Prop := ∀ b ∈ buffer.dropWhile isBlank, isBlank b = false

/-- What matters of a line comes with one call of `fgets`: behind the first buffer that has a command there are only
blanks, and for `ui_print` not even spaces, but for the one that ends the command. -/
def OneBuffer (line : List Byte) : Prop :=
  ∀ buffer after, (pieces newline ROOM line).dropWhile (fun b => decide (Blank isBlank b)) = buffer :: after →
    (∀ b ∈ after, Blank isBlank b) ∧
      ((strtok isBlank buffer).1 = some UI_PRINT →
        after.flatten.count (ch ' ') = 0 ∨ EndsWithCommand buffer ∧ after.flatten.count (ch ' ') = 1)

section Reports
variable {F : Type} (strtof : List Byte → F)

theorem report_eq_none_iff {s : List Byte} : report strtof s = none ↔ Blank isBlank s := by
  rw [← strtok_eq_none_iff]
  unfold report
  split
  · next heq => rw [heq]; exact iff_of_true rfl rfl
  · next heq =>
    rw [heq]
    refine iff_of_false ?_ (Option.some_ne_none _)
    split_ifs
    · dsimp only
      split <;> exact Option.some_ne_none _
    · simp
    · simp

theorem report_drop {l : List Byte} (hl : Blank isBlank l) (s : List Byte) :
    report strtof (l ++ s) = report strtof s := by
  unfold report
  rw [strtok_drop hl]

theorem twoArguments_drop {l : List Byte} (hl : Blank isBlank l) (s : List Byte) :
    TwoArguments (l ++ s) ↔ TwoArguments s := by
  unfold TwoArguments
  rw [strtok_drop hl]

theorem report_ne_cut (s : List Byte) : report strtof s ≠ some .cut := by
  unfold report
  split
  · exact nofun
  · split_ifs
    · dsimp only
      split <;> exact nofun
    · exact nofun
    · exact nofun

/-- NULL is passed on where an argument is missing. -/
theorem report_null_iff {s : List Byte} : report strtof s = some .null ↔ ¬ TwoArguments s := by
  unfold report TwoArguments
  rcases hcommand : strtok isBlank s with ⟨_ | command, rest⟩
  · simp
  · dsimp only
    rcases hfraction : strtok isBlank rest with ⟨fraction_s, rest'⟩
    rcases hseconds : strtok isBlank rest' with ⟨seconds_s, rest''⟩
    by_cases hprogress : command = PROGRESS
    · rw [if_pos hprogress, hprogress]
      cases fraction_s <;> cases seconds_s <;> simp
    · rw [if_neg hprogress]
      split_ifs <;> simp [hprogress]

/-- Blanks behind the line change nothing but the text of `ui_print`. -/
theorem report_append {r : List Byte} (hr : Blank isBlank r) {s : List Byte}
    (hs : (strtok isBlank s).1 ≠ some UI_PRINT) :
    report strtof (s ++ r) = report strtof s := by
  obtain ⟨r₁, hr₁, hcommand⟩ := strtok_append hr s
  obtain ⟨r₂, hr₂, hfraction⟩ := strtok_append hr₁ (strtok isBlank s).2
  obtain ⟨r₃, -, hseconds⟩ := strtok_append hr₂ (strtok isBlank (strtok isBlank s).2).2
  unfold report
  rw [hcommand]
  generalize strtok isBlank s = x at hs hfraction hseconds ⊢
  obtain ⟨_ | command, rest⟩ := x
  · rfl
  · dsimp only at hs hfraction hseconds ⊢
    rw [if_neg (c := command = UI_PRINT) fun h => hs (congrArg some h),
      if_neg (c := command = UI_PRINT) fun h => hs (congrArg some h), hfraction]
    dsimp only
    rw [hseconds]

theorem twoArguments_append {r : List Byte} (hr : Blank isBlank r) (s : List Byte) :
    TwoArguments (s ++ r) ↔ TwoArguments s := by
  obtain ⟨r₁, hr₁, hcommand⟩ := strtok_append hr s
  obtain ⟨r₂, hr₂, hfraction⟩ := strtok_append hr₁ (strtok isBlank s).2
  obtain ⟨r₃, -, hseconds⟩ := strtok_append hr₂ (strtok isBlank (strtok isBlank s).2).2
  unfold TwoArguments
  rw [hcommand]
  dsimp only
  rw [hfraction]
  dsimp only
  rw [hseconds]

/-! ## The text of `ui_print` -/

/-- The text up to the end of the line. -/
theorem strtok_newline {x : List Byte} (hx : newline ∉ x) {e : List Byte} (he : e = [] ∨ e = [newline]) :
    (strtok isNewline (x ++ e)).1 = if x = [] then none else some x := by
  have hblank : Blank isNewline e := by
    rcases he with rfl | rfl
    · exact fun b hb => absurd hb List.not_mem_nil
    · exact fun b hb => decide_eq_true (List.mem_singleton.1 hb)
  split_ifs with hnil
  · rw [hnil]
    exact strtok_eq_none_iff.2 hblank
  · have htoken : IsToken isNewline x :=
      ⟨hnil, fun b hb => decide_eq_false fun h => hx (h ▸ hb)⟩
    rw [strtok_token htoken fun c hc => hblank c (List.mem_of_head? hc)]

/-- A text and the spaces behind it. -/
theorem text_eq_iff {x : List Byte} (hx : newline ∉ x) {e : List Byte} (he : e = [] ∨ e = [newline]) (n : Nat) :
    (strtok isNewline (x ++ (List.replicate n (ch ' ') ++ e))).1 = (strtok isNewline x).1 ↔ n = 0 := by
  have hspaces : newline ∉ x ++ List.replicate n (ch ' ') := by
    rw [List.mem_append, not_or]
    exact ⟨hx, fun h => absurd (List.eq_of_mem_replicate h) (by decide)⟩
  have htext := strtok_newline hx (Or.inl rfl)
  rw [List.append_nil] at htext
  rw [← List.append_assoc, strtok_newline hspaces he, htext]
  constructor
  · intro h
    have hlen := congrArg (fun o : Option (List Byte) => (o.getD []).length) h
    by_contra hn
    rw [if_neg (by simp [hn])] at hlen
    split_ifs at hlen with hnil
    · simp [hnil] at hlen
      omega
    · simp at hlen
      omega
  · rintro rfl
    rw [List.replicate_zero, List.append_nil]

theorem endsWithCommand_iff {l w t : List Byte} (hl : Blank isBlank l) (hw : IsToken isBlank w)
    (ht : ∀ c ∈ t.head?, isBlank c = true) : EndsWithCommand (l ++ (w ++ t)) ↔ t = [] := by
  obtain ⟨c, cs, rfl⟩ := List.exists_cons_of_ne_nil hw.ne_nil
  have hc : isBlank c = false := hw.free c List.mem_cons_self
  unfold EndsWithCommand
  rw [List.dropWhile_append_of_pos hl, List.cons_append, List.dropWhile_cons_of_neg (by simp [hc]), ← List.cons_append,
    List.forall_mem_append]
  constructor
  · rintro ⟨-, hfree⟩
    by_contra hne
    obtain ⟨d, ds, rfl⟩ := List.exists_cons_of_ne_nil hne
    exact absurd (ht d rfl) (by rw [hfree d List.mem_cons_self]; exact Bool.false_ne_true)
  · rintro rfl
    exact ⟨hw.free, fun b hb => absurd hb List.not_mem_nil⟩

/-- Spaces behind a buffer with `ui_print` are text, all but one that ends the command. -/
theorem report_uiPrint {s : List Byte} (hs : (strtok isBlank s).1 = some UI_PRINT) {e : List Byte}
    (he : e = [] ∨ e = [newline]) (n : Nat) (hnl : List.replicate n (ch ' ') ++ e = [] ∨ newline ∉ s) :
    report strtof (s ++ (List.replicate n (ch ' ') ++ e)) = report strtof s ↔ n = 0 ∨ EndsWithCommand s ∧ n = 1 := by
  rcases hnl with hnil | hnl
  · rw [hnil, List.append_nil]
    rw [List.append_eq_nil_iff, List.replicate_eq_nil_iff] at hnil
    exact iff_of_true rfl (Or.inl hnil.1)
  have hblank : Blank isBlank (List.replicate n (ch ' ') ++ e) := by
    rw [blank_append]
    constructor
    · exact fun b hb => by rw [List.eq_of_mem_replicate hb]; rfl
    · rcases he with rfl | rfl
      · exact fun b hb => absurd hb List.not_mem_nil
      · exact fun b hb => by rw [List.mem_singleton.1 hb]; rfl
  have hsome : ¬ Blank isBlank s := by
    rw [← strtok_eq_none_iff, hs]
    exact Option.some_ne_none _
  obtain ⟨l, w, t, rfl, hl, hw, ht⟩ := exists_token hsome
  rw [strtok_drop hl, strtok_token hw ht] at hs
  obtain rfl := Option.some.inj hs
  have hreport : ∀ {t : List Byte}, (∀ c ∈ t.head?, isBlank c = true) →
      report strtof (l ++ (UI_PRINT ++ t)) = some (.uiPrint (strtok isNewline t.tail).1) := by
    intro t ht
    unfold report
    rw [strtok_drop hl, strtok_token hw ht]
    rfl
  rw [hreport ht, endsWithCommand_iff hl hw ht, List.append_assoc, List.append_assoc]
  have hnew : newline ∉ t := fun h => hnl (by simp [h])
  cases t with
  | nil =>
      rw [List.nil_append, hreport fun c hc => hblank c (List.mem_of_head? hc), Option.some_inj, Report.uiPrint.injEq]
      cases n with
      | zero =>
          refine iff_of_true ?_ (Or.inl rfl)
          rcases he with rfl | rfl <;> rfl
      | succ n =>
          rw [List.replicate_succ, List.cons_append, List.tail_cons, List.tail_nil]
          have htext := text_eq_iff (x := []) List.not_mem_nil he n
          rw [List.nil_append] at htext
          rw [htext]
          simp
  | cons c t =>
      rw [hreport (t := c :: t ++ _) fun d hd => ht d hd, Option.some_inj, Report.uiPrint.injEq, List.cons_append,
        List.tail_cons, List.tail_cons, text_eq_iff (fun h => hnew (List.mem_cons_of_mem _ h)) he]
      simp

/-! ## A line -/

/-- Blanks at the end of a line are spaces and its newline. -/
theorem blanks_of_line {line text s r : List Byte} (hline : line = text ∨ line = text ++ [newline])
    (htext : newline ∉ text) (hsplit : s ++ r = line) (hr : Blank isBlank r) :
    ∃ e, (e = [] ∨ e = [newline]) ∧ r = List.replicate (r.count (ch ' ')) (ch ' ') ++ e ∧
      (r = [] ∨ newline ∉ s) := by
  have hspaces : ∀ r : List Byte, Blank isBlank r → newline ∉ r → r = List.replicate (r.count (ch ' ')) (ch ' ') := by
    intro r hr hnew
    have hall : ∀ b ∈ r, b = ch ' ' := by
      intro b hb
      have hblank := hr b hb
      rw [isBlank, Bool.or_eq_true, decide_eq_true_iff, decide_eq_true_iff] at hblank
      exact hblank.resolve_right fun h => hnew (h ▸ hb)
    have hreplicate : r = List.replicate r.length (ch ' ') := List.eq_replicate_iff.2 ⟨rfl, hall⟩
    rw [List.count_eq_length.2 fun b hb => (hall b hb).symm]
    exact hreplicate
  rcases hline with rfl | rfl
  · have hnew : newline ∉ s ∧ newline ∉ r := by
      rw [← not_or, ← List.mem_append, hsplit]
      exact htext
    exact ⟨[], Or.inl rfl, by rw [List.append_nil]; exact hspaces r hr hnew.2, Or.inr hnew.1⟩
  · rcases List.eq_nil_or_concat r with rfl | ⟨r, b, rfl⟩
    · exact ⟨[], Or.inl rfl, rfl, Or.inl rfl⟩
    · rw [List.concat_eq_append] at hsplit hr ⊢
      rw [← List.append_assoc] at hsplit
      obtain ⟨rfl, hb⟩ := List.append_inj' hsplit rfl
      obtain rfl := List.singleton_inj.1 hb
      have hnew : newline ∉ s ∧ newline ∉ r := by
        rw [← not_or, ← List.mem_append]
        exact htext
      refine ⟨[newline], Or.inr rfl, ?_, Or.inr hnew.1⟩
      have hcount : (r ++ [newline]).count (ch ' ') = r.count (ch ' ') := by
        rw [List.count_append]
        rfl
      rw [hcount, ← hspaces r (blank_append.1 hr).1 hnew.2]

/-- Blanks behind a buffer at the end of a line change its report only behind `ui_print`. -/
theorem report_behind {line text : List Byte} (hline : line = text ∨ line = text ++ [newline]) (htext : newline ∉ text)
    {before buffer rest : List Byte} (hsplit : before ++ (buffer ++ rest) = line) (hrest : Blank isBlank rest) :
    report strtof (buffer ++ rest) = report strtof buffer ↔
      ((strtok isBlank buffer).1 = some UI_PRINT →
        rest.count (ch ' ') = 0 ∨ EndsWithCommand buffer ∧ rest.count (ch ' ') = 1) := by
  obtain ⟨e, he, hspaces, hend⟩ := blanks_of_line hline htext (s := before ++ buffer)
    (by rw [List.append_assoc, hsplit]) hrest
  by_cases hprint : (strtok isBlank buffer).1 = some UI_PRINT
  · have hnl : List.replicate (rest.count (ch ' ')) (ch ' ') ++ e = [] ∨ newline ∉ buffer := by
      rw [← hspaces]
      exact hend.imp_right fun h hmem => h (List.mem_append_right _ hmem)
    have hiff := report_uiPrint strtof hprint he (rest.count (ch ' ')) hnl
    rw [← hspaces] at hiff
    rw [hiff]
    exact (imp_iff_right hprint).symm
  · exact iff_of_true (report_append strtof hrest hprint) fun h => absurd h hprint

theorem filterMap_report_eq_nil_iff {buffers : List (List Byte)} :
    buffers.filterMap (report strtof) = [] ↔ ∀ b ∈ buffers, Blank isBlank b := by
  rw [List.filterMap_eq_nil_iff]
  exact forall₂_congr fun b _ => report_eq_none_iff strtof

/-- The buffers up to the first that is not blank. -/
theorem blank_split (buffers : List (List Byte)) :
    ((∀ b ∈ buffers, Blank isBlank b) ∧ buffers.dropWhile (fun b => decide (Blank isBlank b)) = []) ∨
      ∃ before buffer after, buffers = before ++ buffer :: after ∧ (∀ b ∈ before, Blank isBlank b) ∧
        ¬Blank isBlank buffer ∧ buffers.dropWhile (fun b => decide (Blank isBlank b)) = buffer :: after := by
  induction buffers with
  | nil => exact Or.inl ⟨fun b hb => absurd hb List.not_mem_nil, rfl⟩
  | cons b buffers ih =>
      by_cases hb : Blank isBlank b
      · rw [List.dropWhile_cons_of_pos (by simpa using hb)]
        rcases ih with ⟨hall, hdrop⟩ | ⟨before, buffer, after, rfl, hbefore, hbuffer, hdrop⟩
        · exact Or.inl ⟨List.forall_mem_cons.2 ⟨hb, hall⟩, hdrop⟩
        · exact Or.inr ⟨b :: before, buffer, after, rfl, List.forall_mem_cons.2 ⟨hb, hbefore⟩, hbuffer, hdrop⟩
      · rw [List.dropWhile_cons_of_neg (by simpa using hb)]
        exact Or.inr ⟨[], b, buffers, rfl, fun b hb => absurd hb List.not_mem_nil, hb, rfl⟩

theorem blank_line {line : List Byte} (hline : Blank isBlank line) : OneBuffer line ∧ TwoArguments line := by
  have hpieces : ∀ b ∈ pieces newline ROOM line, Blank isBlank b := by
    rw [← blank_flatten, flatten_pieces newline (by decide)]
    exact hline
  constructor
  · intro buffer after heq
    rcases blank_split (pieces newline ROOM line) with ⟨-, hdrop⟩ | ⟨before, buffer', after', hsplit, -, hbuffer, -⟩
    · rw [hdrop] at heq
      exact nomatch heq
    · exact absurd (hpieces buffer' (by rw [hsplit]; simp)) hbuffer
  · intro hcommand
    rw [strtok_eq_none_iff.2 hline] at hcommand
    exact nomatch hcommand

/-- The buffers of a line are reported as the line, without a NULL. -/
theorem line_iff {line text : List Byte} (hline : line = text ∨ line = text ++ [newline]) (htext : newline ∉ text) :
    ((pieces newline ROOM line).filterMap (report strtof) = (report strtof line).toList ∧
      .null ∉ (pieces newline ROOM line).filterMap (report strtof)) ↔ OneBuffer line ∧ TwoArguments line := by
  have hflatten := flatten_pieces newline (n := ROOM) (by decide) line
  unfold OneBuffer
  rcases blank_split (pieces newline ROOM line) with ⟨hall, hdrop⟩ | ⟨before, buffer, after, hsplit, hbefore, hbuffer, hdrop⟩
  · -- only blanks
    have hblank : Blank isBlank line := hflatten ▸ blank_flatten.2 hall
    rw [hdrop, (filterMap_report_eq_nil_iff strtof).2 hall, (report_eq_none_iff strtof).2 hblank]
    refine iff_of_true ⟨rfl, List.not_mem_nil⟩ ⟨fun _ _ h => (nomatch h), fun h => ?_⟩
    rw [strtok_eq_none_iff.2 hblank] at h
    exact nomatch h
  · have hnone : before.filterMap (report strtof) = [] := (filterMap_report_eq_nil_iff strtof).2 hbefore
    have hdropped : Blank isBlank before.flatten := blank_flatten.2 hbefore
    rw [hsplit, List.flatten_append, List.flatten_cons] at hflatten
    obtain ⟨x, hx⟩ := Option.ne_none_iff_exists'.1 fun h => hbuffer ((report_eq_none_iff strtof).1 h)
    have hreport : report strtof line = report strtof (buffer ++ after.flatten) := by
      rw [← hflatten, report_drop strtof hdropped]
    have hsome : report strtof line ≠ none := by
      rw [hreport, Ne, report_eq_none_iff, blank_append]
      exact fun h => hbuffer h.1
    obtain ⟨y, hy⟩ := Option.ne_none_iff_exists'.1 hsome
    have harguments : TwoArguments line ↔ TwoArguments (buffer ++ after.flatten) := by
      rw [← hflatten, twoArguments_drop hdropped]
    have hafter : after.filterMap (report strtof) = [] ↔ ∀ b ∈ after, Blank isBlank b :=
      filterMap_report_eq_nil_iff strtof
    rw [hdrop, hsplit, List.filterMap_append, hnone, List.nil_append, List.filterMap_cons_some hx, hy, Option.toList_some,
      List.cons_eq_cons, hafter]
    -- a buffer behind the command is either blank, or a report too many
    by_cases hblank : ∀ b ∈ after, Blank isBlank b
    · have hrest : Blank isBlank after.flatten := blank_flatten.2 hblank
      have hsame : x = y ↔ report strtof (buffer ++ after.flatten) = report strtof buffer := by
        rw [← hreport, hx, hy, Option.some_inj]
        exact eq_comm
      have hnull : .null ∉ x :: after.filterMap (report strtof) ↔ TwoArguments line := by
        rw [hafter.2 hblank, List.mem_singleton, harguments, twoArguments_append hrest, ← not_iff_not,
          ← report_null_iff strtof, hx, Option.some_inj, not_not]
        exact eq_comm
      rw [hnull, hsame, report_behind strtof hline htext hflatten hrest]
      refine and_congr_left fun _ => ?_
      rw [and_iff_left hblank]
      constructor
      · rintro h buffer' after' heq
        obtain ⟨rfl, rfl⟩ := List.cons.inj heq
        exact ⟨hblank, h⟩
      · exact fun h => (h buffer after rfl).2
    · exact iff_of_false (fun h => hblank h.1.2) fun h => hblank (h.1 buffer after rfl).1

/-! ## A stream -/

theorem commands_none {target : Target} {stream : List Byte} (h : fgets newline ROOM stream = none) :
    commands strtof target stream = [] := by
  rw [commands]
  split
  · rfl
  · next heq => rw [h] at heq; exact nomatch heq

theorem commands_some {target : Target} {stream buffer rest : List Byte}
    (h : fgets newline ROOM stream = some (buffer, rest)) :
    commands strtof target stream =
      match body strtof target (cstr buffer) with
      | none => commands strtof target rest
      | some .null => [.null]
      | some .cut => [.cut]
      | some r => r :: commands strtof target rest := by
  rw [commands]
  split
  · next heq => rw [h] at heq; exact nomatch heq
  · next buffer' rest' heq =>
    rw [h] at heq
    obtain ⟨rfl, rfl⟩ := Prod.mk.inj (Option.some.inj heq)
    rfl

theorem cstr_eq {s : List Byte} (hs : (0 : Byte) ∉ s) : cstr s = s := by
  unfold cstr
  rw [List.takeWhile_eq_self_iff]
  exact fun b hb => decide_eq_true fun h => hs (h ▸ hb)

/-- The reports end where NULL is passed. -/
theorem commands_pieces {stream : List Byte} (hstream : (0 : Byte) ∉ stream) :
    (.null ∈ commands strtof .ilp32 stream ↔ .null ∈ (pieces newline ROOM stream).filterMap (report strtof)) ∧
      (.null ∉ commands strtof .ilp32 stream →
        commands strtof .ilp32 stream = (pieces newline ROOM stream).filterMap (report strtof)) := by
  induction hlen : stream.length using Nat.strongRecOn generalizing stream with
  | ind m ih =>
      cases hgets : fgets newline ROOM stream with
      | none =>
          rw [commands_none strtof hgets, pieces_none hgets]
          exact ⟨Iff.rfl, fun _ => rfl⟩
      | some r =>
          obtain ⟨buffer, rest⟩ := r
          have hsplit := (fgets_some hgets).1
          rw [← hsplit, List.mem_append, not_or] at hstream
          obtain ⟨hmem, heq⟩ := ih rest.length (hlen ▸ fgets_decreasing hgets) hstream.2 rfl
          have hbody : body strtof .ilp32 buffer = report strtof buffer := rfl
          rw [commands_some strtof hgets, pieces_some hgets, cstr_eq hstream.1, hbody]
          split
          · next hreport => rw [List.filterMap_cons_none hreport]; exact ⟨hmem, heq⟩
          · next hreport =>
            rw [List.filterMap_cons_some hreport]
            exact ⟨iff_of_true List.mem_cons_self List.mem_cons_self, fun h => absurd List.mem_cons_self h⟩
          · next hreport => exact absurd hreport (report_ne_cut strtof buffer)
          · next r hne _ hreport =>
            have hnull : .null ≠ r := fun h => hne h.symm
            rw [List.filterMap_cons_some hreport, List.mem_cons, List.mem_cons, or_iff_right hnull, or_iff_right hnull]
            exact ⟨hmem, fun h => congrArg (r :: ·) (heq h)⟩

/-- The first command is the end where an `int` holds no pointer. -/
theorem commands_lp64 {stream : List Byte} (hstream : (0 : Byte) ∉ stream) :
    commands strtof .lp64 stream = if Blank isBlank stream then [] else [.cut] := by
  induction hlen : stream.length using Nat.strongRecOn generalizing stream with
  | ind m ih =>
      cases hgets : fgets newline ROOM stream with
      | none =>
          have hblank : Blank isBlank stream := by
            rw [← flatten_pieces newline (n := ROOM) (by decide) stream, pieces_none hgets]
            exact fun b hb => absurd hb List.not_mem_nil
          rw [commands_none strtof hgets, if_pos hblank]
      | some r =>
          obtain ⟨buffer, rest⟩ := r
          have hsplit := (fgets_some hgets).1
          rw [← hsplit, List.mem_append, not_or] at hstream
          have hrest := ih rest.length (hlen ▸ fgets_decreasing hgets) hstream.2 rfl
          rw [commands_some strtof hgets, cstr_eq hstream.1, ← hsplit]
          by_cases hblank : Blank isBlank buffer
          · have hbody : body strtof .lp64 buffer = none := by
              unfold body
              rw [strtok_eq_none_iff.2 hblank]
              exact (report_eq_none_iff strtof).2 hblank
            have hiff : Blank isBlank (buffer ++ rest) ↔ Blank isBlank rest := by
              rw [blank_append]
              exact and_iff_right hblank
            rw [hbody, if_congr hiff rfl rfl]
            exact hrest
          · have hbody : body strtof .lp64 buffer = some .cut := by
              obtain ⟨command, hcommand⟩ := Option.ne_none_iff_exists'.1 fun h => hblank (strtok_eq_none_iff.1 h)
              unfold body
              rw [hcommand]
            rw [hbody, if_neg fun h => hblank (blank_append.1 h).1]

theorem commands_ilp32_iff {stream : List Byte} (hstream : (0 : Byte) ∉ stream) :
    (commands strtof .ilp32 stream = (lines newline stream).filterMap (report strtof) ∧
      .null ∉ commands strtof .ilp32 stream) ↔
      ∀ line ∈ lines newline stream, OneBuffer line ∧ TwoArguments line := by
  obtain ⟨hmem, heq⟩ := commands_pieces strtof hstream
  have hpieces : (pieces newline ROOM stream).filterMap (report strtof) =
      (lines newline stream).flatMap fun line => (pieces newline ROOM line).filterMap (report strtof) := by
    rw [pieces_lines (by decide), List.filterMap_flatMap]
  have hlines : (lines newline stream).filterMap (report strtof) =
      (lines newline stream).flatMap fun line => (report strtof line).toList := by
    exact List.filterMap_eq_flatMap_toList _ _
  have hline : ∀ line ∈ lines newline stream,
      (((pieces newline ROOM line).filterMap (report strtof) = (report strtof line).toList ∧
        .null ∉ (pieces newline ROOM line).filterMap (report strtof)) ↔ OneBuffer line ∧ TwoArguments line) := by
    intro line hmem
    obtain ⟨text, htext, hline⟩ := mem_lines hmem
    exact line_iff strtof hline htext
  -- a line that is reported alone is reported from its buffers too
  have hlength : ∀ line ∈ lines newline stream,
      (report strtof line).toList.length ≤ ((pieces newline ROOM line).filterMap (report strtof)).length := by
    intro line _
    cases hreport : report strtof line with
    | none => exact Nat.zero_le _
    | some r =>
        by_contra hlt
        have hnil : (pieces newline ROOM line).filterMap (report strtof) = [] := by
          apply List.eq_nil_of_length_eq_zero
          rw [Option.toList_some, List.length_singleton] at hlt
          omega
        have hblank : Blank isBlank line := by
          rw [← flatten_pieces newline (n := ROOM) (by decide) line, blank_flatten]
          rw [List.filterMap_eq_nil_iff] at hnil
          exact fun b hb => (report_eq_none_iff strtof).1 (hnil b hb)
        rw [(report_eq_none_iff strtof).2 hblank] at hreport
        exact nomatch hreport
  rw [hpieces] at hmem heq
  rw [hlines]
  constructor
  · rintro ⟨hsame, hnull⟩ line hmemline
    rw [← hline line hmemline]
    rw [heq hnull, flatMap_eq_iff hlength] at hsame
    exact ⟨hsame line hmemline, fun h => hnull (hmem.2 (List.mem_flatMap.2 ⟨line, hmemline, h⟩))⟩
  · intro hall
    have hnull : .null ∉ commands strtof .ilp32 stream := by
      rw [hmem, List.mem_flatMap]
      rintro ⟨line, hmemline, h⟩
      exact ((hline line hmemline).2 (hall line hmemline)).2 h
    refine ⟨?_, hnull⟩
    rw [heq hnull, flatMap_eq_iff hlength]
    exact fun line hmemline => ((hline line hmemline).2 (hall line hmemline)).1

/-- The reports of a stream are those of its lines, each parsed alone and in full, and NULL is never passed, if and only
if an `int` holds a pointer, or nothing but blanks comes, and every line fits its buffer and has its arguments. -/
theorem commands_iff (target : Target) {stream : List Byte} (hstream : (0 : Byte) ∉ stream) :
    (commands strtof target stream = (lines newline stream).filterMap (report strtof) ∧
      .null ∉ commands strtof target stream) ↔
      (target = .ilp32 ∨ Blank isBlank stream) ∧
        ∀ line ∈ lines newline stream, OneBuffer line ∧ TwoArguments line := by
  cases target with
  | ilp32 =>
      rw [commands_ilp32_iff strtof hstream]
      exact (and_iff_right (Or.inl rfl)).symm
  | lp64 =>
      rw [commands_lp64 strtof hstream]
      split_ifs with hblank
      · have hlines : ∀ line ∈ lines newline stream, Blank isBlank line := by
          rw [← blank_flatten, flatten_lines]
          exact hblank
        have hnil := (filterMap_report_eq_nil_iff strtof).2 hlines
        rw [hnil]
        exact iff_of_true ⟨rfl, List.not_mem_nil⟩ ⟨Or.inr hblank, fun line hline => blank_line (hlines line hline)⟩
      · refine iff_of_false ?_ ?_
        · rintro ⟨hsame, -⟩
          obtain ⟨line, -, hcut⟩ := List.mem_filterMap.1 (hsame ▸ List.mem_singleton_self Report.cut)
          exact report_ne_cut strtof line hcut
        · rintro ⟨htarget | h, -⟩
          · exact nomatch htarget
          · exact hblank h

/-! ## What `xmit.c` sends -/

theorem commands_line (text : List Byte) (htext : newline ∉ text) (hnul : (0 : Byte) ∉ text) (hlen : text.length < ROOM)
    (rest : List Byte) {r : Report F} (hr : report strtof (text ++ [newline]) = some r) (hne : r ≠ .null) :
    commands strtof .ilp32 (text ++ newline :: rest) = r :: commands strtof .ilp32 rest := by
  have hline : (0 : Byte) ∉ text ++ [newline] := by
    rw [List.mem_append, not_or]
    exact ⟨hnul, by decide⟩
  have hbody : body strtof .ilp32 (text ++ [newline]) = some r := hr
  rw [commands_some strtof (fgets_line htext hlen rest), cstr_eq hline, hbody]
  split
  · next heq => exact nomatch heq
  · next heq => exact absurd (Option.some.inj heq) hne
  · next heq => exact absurd (hr.trans heq) (report_ne_cut strtof _)
  · next r' _ _ heq => rw [Option.some.inj heq]

/-- A command with its two arguments. -/
theorem report_progress {fraction seconds : List Byte} (hfraction : IsToken isBlank fraction)
    (hseconds : IsToken isBlank seconds) :
    report strtof (PROGRESS ++ ch ' ' :: (fraction ++ ch ' ' :: (seconds ++ [newline]))) =
      some (.progress (strtof fraction) (strtol seconds)) := by
  have hcommand : IsToken isBlank PROGRESS := isToken_of_all (by decide) (by decide)
  have hspace : ∀ (t : List Byte), ∀ c ∈ (ch ' ' :: t).head?, isBlank c = true := by
    intro t c hc
    rw [← Option.some.inj hc]
    rfl
  unfold report
  rw [strtok_token hcommand (hspace _)]
  dsimp only [List.tail_cons]
  rw [strtok_token hfraction (hspace _)]
  dsimp only [List.tail_cons]
  rw [strtok_token (t := [newline]) hseconds fun c hc => by rw [← Option.some.inj hc]; rfl]
  rfl

/-- `printf("%f", 0.5)` -/
def FRAC : List Byte := ['0', '.', '5', '0', '0', '0', '0', '0'].map ch

def HELLO : List Byte := ['h', 'e', 'l', 'l', 'o'].map ch

/-- `progress %f %d`, without the newline -/
def progressLine (sec : U32) : List Byte := PROGRESS ++ ch ' ' :: (FRAC ++ ch ' ' :: printD sec)

/-- `ui_print %s`, without the newline -/
def uiPrintLine : List Byte := UI_PRINT ++ ch ' ' :: HELLO

theorem not_mem_progressLine {b : Byte} (hb : b ∉ PROGRESS ++ ch ' ' :: FRAC) {sec : U32} (hsec : b ∉ printD sec) :
    b ∉ progressLine sec := by
  simp only [progressLine, List.mem_append, List.mem_cons, not_or] at hb ⊢
  exact ⟨hb.1, hb.2.1, hb.2.2, hb.2.1, hsec⟩

theorem length_progressLine (sec : U32) : (progressLine sec).length < ROOM := by
  have hsec := length_printD_le sec
  have hprogress : PROGRESS.length = 8 := rfl
  have hfrac : FRAC.length = 8 := rfl
  simp only [progressLine, List.length_append, List.length_cons, hprogress, hfrac, ROOM]
  omega

/-- What the child writes while `sec` counts. -/
def xmit (secs : List U32) : List Byte :=
  secs.flatMap fun sec => progressLine sec ++ newline :: (uiPrintLine ++ [newline])

theorem isToken_printD (v : U32) : IsToken isBlank (printD v) := by
  have hdigit : ∀ b : Byte, isDigit b = true → isBlank b = false := by
    intro b hb
    rw [isBlank, Bool.or_eq_false_iff, decide_eq_false_iff_not, decide_eq_false_iff_not]
    exact ⟨ne_ch_of_isDigit hb (by decide), ne_ch_of_isDigit hb (by decide)⟩
  unfold printD
  split_ifs
  · refine ⟨List.cons_ne_nil _ _, fun b hb => ?_⟩
    rcases List.mem_cons.1 hb with rfl | hb
    · decide
    · exact hdigit b (isDigit_of_mem_decimal hb)
  · exact ⟨decimal_ne_nil _, fun b hb => hdigit b (isDigit_of_mem_decimal hb)⟩

theorem strtol_printD (v : U32) : strtol (printD v) = v := by
  obtain ⟨htake, -⟩ := span_decimal v.toInt.natAbs noDigit_nil
  rw [List.append_nil] at htake
  have hle := BitVec.le_toInt v
  have hlt := BitVec.toInt_lt (x := v)
  unfold strtol printD
  split_ifs with hneg
  · have hsign := takeSign_minus v.toInt.natAbs []
    rw [List.append_nil] at hsign
    have hword : max (-2 ^ 31) (min (-(v.toInt.natAbs : Int)) (2 ^ 31 - 1)) = v.toInt := by omega
    rw [hsign]
    dsimp only
    rw [htake, digitsValue_decimal, if_pos rfl, hword, BitVec.ofInt_toInt]
  · have hsign := takeSign_decimal v.toInt.natAbs []
    rw [List.append_nil] at hsign
    have hword : max (-2 ^ 31) (min (v.toInt.natAbs : Int) (2 ^ 31 - 1)) = v.toInt := by omega
    rw [hsign]
    dsimp only
    rw [htake, digitsValue_decimal, if_neg Bool.false_ne_true, hword, BitVec.ofInt_toInt]

/-- The parent reports what the child counts, where an `int` holds a pointer. -/
theorem commands_xmit (secs : List U32) :
    commands strtof .ilp32 (xmit secs) = secs.flatMap fun sec => [.progress (strtof FRAC) sec, .uiPrint (some HELLO)] := by
  induction secs with
  | nil => exact commands_none strtof (if_pos (Or.inl rfl))
  | cons sec secs ih =>
      have hprint := isToken_printD sec
      have hnew : newline ∉ printD sec := fun h => absurd (hprint.free _ h) (by decide)
      have hreport : report strtof (progressLine sec ++ [newline]) = some (.progress (strtof FRAC) sec) := by
        have hfrac : IsToken isBlank FRAC := isToken_of_all (by decide) (by decide)
        have hprogress := report_progress strtof hfrac hprint
        rw [strtol_printD] at hprogress
        rw [← hprogress]
        simp [progressLine]
      have hui : report strtof (uiPrintLine ++ [newline]) = some (.uiPrint (some HELLO)) := rfl
      have hstream : xmit (sec :: secs) = progressLine sec ++ newline :: (uiPrintLine ++ newline :: xmit secs) := by
        simp [xmit]
      rw [hstream, commands_line strtof (progressLine sec) (not_mem_progressLine (by decide) hnew)
          (not_mem_progressLine (by decide) (zero_notMem_printD sec)) (length_progressLine sec) _ hreport (by simp),
        commands_line strtof uiPrintLine (by decide) (by decide) (by decide) _ hui (by simp), ih]
      rfl

end Reports

/-! ## Streams that are not handled line by line -/

/-- `ui_print` with a text of `n` letters, a space and one more letter. -/
def longText (n : Nat) : List Byte := UI_PRINT ++ ch ' ' :: (List.replicate n (ch 'a') ++ [ch ' ', ch 'b', newline])

theorem commands_iff_short :
    (commands (fun s => s) .ilp32 (longText 3) = (lines newline (longText 3)).filterMap (report fun s => s) ∧
      .null ∉ commands (fun s => s) .ilp32 (longText 3)) ↔
      (Target.ilp32 = .ilp32 ∨ Blank isBlank (longText 3)) ∧
        ∀ line ∈ lines newline (longText 3), OneBuffer line ∧ TwoArguments line :=
  commands_iff (fun s => s) .ilp32 (by decide)

/-- The end of a text that is too long is taken for a command, and `strtof` gets NULL if an argument is missing; where
an `int` does not hold a pointer, the line "ui_print hello" is too much. -/
theorem not_line_by_line :
    commands (fun s => s) .ilp32 (longText 1013) =
        [.uiPrint (some (List.replicate 1013 (ch 'a') ++ [ch ' '])), .unknown [ch 'b']] ∧
      (lines newline (longText 1013)).filterMap (report fun s => s) =
        [.uiPrint (some (List.replicate 1013 (ch 'a') ++ [ch ' ', ch 'b']))] ∧
      .null ∈ commands (fun s => s) .ilp32 (PROGRESS ++ [newline]) ∧
      commands (fun s => s) .lp64 (uiPrintLine ++ [newline]) = [.cut] := by
  refine ⟨?_, by decide +kernel, ?_, ?_⟩
  · have hfirst : fgets newline ROOM (longText 1013) =
        some (UI_PRINT ++ ch ' ' :: (List.replicate 1013 (ch 'a') ++ [ch ' ']), [ch 'b', newline]) := by
      decide +kernel
    have hreport : report (fun s => s) (cstr (UI_PRINT ++ ch ' ' :: (List.replicate 1013 (ch 'a') ++ [ch ' ']))) =
        some (.uiPrint (some (List.replicate 1013 (ch 'a') ++ [ch ' ']))) := by
      decide +kernel
    have hbody : ∀ buffer, body (fun s => s) .ilp32 buffer = report (fun s => s) buffer := fun _ => rfl
    have hrest : fgets newline ROOM [ch 'b', newline] = some ([ch 'b', newline], []) := rfl
    rw [commands_some _ hfirst, hbody, hreport, commands_some _ hrest, commands_none _ rfl]
    rfl
  · rw [commands_some _ (show fgets newline ROOM (PROGRESS ++ [newline]) = _ from rfl)]
    decide
  · rw [commands_lp64 _ (by decide), if_neg (by decide)]

end SysSnippets.PipeIpc
