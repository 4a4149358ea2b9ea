import SysSnippets.Tcp.Service

/-!
# The C client and a C server

`echo_handler` of the client prints what each `read` of up to `MAXLEN` bytes stores as a string; `handle_echo` of the
server answers a line with a block of `MAXLEN` bytes. Between them TCP keeps bytes under way and hands them out in
chunks of any length.

* `Wire` : the two programs and the bytes under way; `echo` : their steps in any order;
* `NulsLast` : no text after a NUL; `texts_eq_iff` : what is printed of chunks is their text if and only if they have
  none;
* `Wire.Inv` : what was entered is what was echoed, and what is under way;
* `echoed_iff` : when all is read, what was entered has been printed if and only if every chunk has its NULs last.
-/

namespace SysSnippets.Tcp
open SysSnippets.Lib

/-- `fgets(send, sizeof(send) - 1, stdin)` with a zeroed `send`, and what is left of `stdin`. -/
def fgets (stdin : List Byte) : List Byte × List Byte :=
  let s := (readUntil (ch '\n') (stdin.take (MAXLEN - 2))).1
  (zeroPad MAXLEN s, stdin.drop s.length)

/-- `printf("%s", b)`, if there is a NUL to stop at. -/
def printS (b : List Byte) : Option (List Byte) := if 0 ∈ b then some (cstr b) else none

/-- A `read` of the client: what it has stored, and what is printed of it after the heading. -/
structure Reading where
  chunk : List Byte
  text : Option (List Byte)
  deriving DecidableEq

/-- Client and server, and the bytes between them. -/
structure Wire where
  /-- entered and not yet read -/
  stdin : List Byte
  exited : Bool
  /-- from the client to the server -/
  up : List Byte
  /-- `line` of the server, unless it was written past its end -/
  line : Option (List Byte)
  /-- from the server to the client -/
  down : List Byte
  deriving DecidableEq

inductive Move
  /-- One turn of the client: whether `select` finds input, and how many bytes of the server's are there to read. -/
  | client (ready : Bool) (n : Nat)
  /-- One `read` of the server. -/
  | server
  deriving DecidableEq

namespace Wire

/-- `read(sockfd, recv, MAXLEN)` with a zeroed `recv`, and what is printed. -/
def receive (s : Wire) (n : Nat) : Wire × List Reading :=
  let chunk := s.down.take (min n MAXLEN)
  if chunk = [] then (s, [])
  else ({ s with down := s.down.drop (min n MAXLEN) }, [⟨chunk, printS (block chunk)⟩])

/-- A turn of the loop of `echo_handler`. -/
def echoHandler (s : Wire) (ready : Bool) (n : Nat) : Wire × List Reading :=
  if s.exited then (s, [])
  else if ready then
    let (send, stdin) := fgets s.stdin
    if cstr send = [] then ({ s with stdin, exited := true }, [])
    else { s with stdin, up := s.up ++ cstr send }.receive n
  else s.receive n

/-- A turn of the inner loop of `handle_echo`, with the `write` after it. -/
def handleEcho (s : Wire) : Wire :=
  match s.up, s.line with
  | c :: up, some line =>
      if line.length = MAXLEN then { s with up, line := none }
      else if c = ch '\n' then { s with up, line := some [], down := s.down ++ block (line ++ [c]) }
      else { s with up, line := some (line ++ [c]) }
  | _, _ => s

def step (s : Wire) : Move → Wire × List Reading
  | .client ready n => s.echoHandler ready n
  | .server => (s.handleEcho, [])

def start (stdin : List Byte) : Wire := ⟨stdin, false, [], some [], []⟩

/-- Everything entered has been sent, echoed and read. -/
def Quiet (s : Wire) : Prop := s.stdin = [] ∧ s.up = [] ∧ s.down = []

instance (s : Wire) : Decidable s.Quiet := inferInstanceAs (Decidable (_ ∧ _ ∧ _))

end Wire

def echo : Machine Wire Move Reading := ⟨Wire.step⟩

/-- The readings have printed a text. -/
def Prints (rs : List Reading) (t : List Byte) : Prop :=
  ∃ texts : List (List Byte), rs.map Reading.text = texts.map some ∧ texts.flatten = t

/-! ## Strings in chunks -/

/-- After a NUL there are only NULs. -/
def NulsLast (t : List Byte) : Prop := t.Pairwise fun a b => a = 0 → b = 0

instance (t : List Byte) : Decidable (NulsLast t) := inferInstanceAs (Decidable (t.Pairwise _))

theorem cstr_append_zeros (t : List Byte) (n : Nat) : cstr (t ++ List.replicate n 0) = cstr t := by
  induction t with
  | nil => cases n <;> rfl
  | cons c t ih =>
      unfold cstr at ih ⊢
      rw [List.cons_append, List.takeWhile_cons, List.takeWhile_cons, ih]

/-- What is printed of a chunk. -/
theorem printS_block {t : List Byte} (h : 0 ∈ block t) : printS (block t) = some (cstr t) := by
  rw [printS, if_pos h, block, cstr_append_zeros]

/-- The text of a list of bytes. -/
def textOf (t : List Byte) : List Byte := t.filter (· ≠ 0)

theorem cstr_sublist_textOf (t : List Byte) : (cstr t).Sublist (textOf t) := by
  induction t with
  | nil => exact List.Sublist.slnil
  | cons c t ih =>
      unfold cstr textOf
      by_cases hc : c = 0
      · rw [List.takeWhile_cons_of_neg (by simpa using hc)]
        exact List.nil_sublist _
      · rw [List.takeWhile_cons_of_pos (by simpa using hc), List.filter_cons_of_pos (by simpa using hc)]
        exact ih.cons_cons c

theorem cstr_eq_textOf_iff (t : List Byte) : cstr t = textOf t ↔ NulsLast t := by
  induction t with
  | nil => exact iff_of_true rfl List.Pairwise.nil
  | cons c t ih =>
      unfold cstr textOf NulsLast
      rw [List.pairwise_cons]
      by_cases hc : c = 0
      · rw [List.takeWhile_cons_of_neg (by simpa using hc), List.filter_cons_of_neg (by simpa using hc), eq_comm,
          List.filter_eq_nil_iff]
        constructor
        · intro hall
          have hzero : ∀ b ∈ t, b = 0 := by simpa using hall
          exact ⟨fun b hb _ => hzero b hb, List.pairwise_of_forall_mem_list fun a _ b hb _ => hzero b hb⟩
        · rintro ⟨hall, -⟩
          simpa using fun b hb => hall b hb hc
      · rw [List.takeWhile_cons_of_pos (by simpa using hc), List.filter_cons_of_pos (by simpa using hc),
          List.cons_inj_right]
        exact ih.trans (and_iff_right fun b _ h => absurd h hc).symm

/-- **What is printed of chunks** is their text if and only if there is no text after a NUL in any of them. -/
theorem texts_eq_iff (chunks : List (List Byte)) :
    (chunks.map cstr).flatten = textOf chunks.flatten ↔ ∀ c ∈ chunks, NulsLast c := by
  induction chunks with
  | nil => simp [textOf]
  | cons c cs ih =>
      have htexts : ((cs.map cstr).flatten).Sublist (textOf cs.flatten) := by
        clear ih
        induction cs with
        | nil => exact List.Sublist.slnil
        | cons d ds ih =>
            rw [List.map_cons, List.flatten_cons, List.flatten_cons, textOf, List.filter_append]
            exact (cstr_sublist_textOf d).append ih
      rw [List.forall_mem_cons, ← ih, ← cstr_eq_textOf_iff, List.map_cons, List.flatten_cons, List.flatten_cons,
        textOf, List.filter_append]
      constructor
      · intro h
        -- both parts are sublists, so neither can be shorter
        have hlen := congrArg List.length h
        rw [List.length_append, List.length_append] at hlen
        have hc := (cstr_sublist_textOf c).length_le
        have hcs := htexts.length_le
        unfold textOf at hc hcs
        exact ⟨(cstr_sublist_textOf c).eq_of_length (by unfold textOf; omega), htexts.eq_of_length (by unfold textOf; omega)⟩
      · rintro ⟨hc, hcs⟩
        rw [hc, hcs]
        rfl

/-! ## Lines and blocks -/

/-- A line as it is entered. -/
structure IsEntered (line : List Byte) : Prop where
  ended : ∃ text, line = text ++ [ch '\n'] ∧ ch '\n' ∉ text ∧ text.length ≤ MAXLEN - 2
  noNul : 0 ∉ line

theorem IsEntered.length_lt {line : List Byte} (h : IsEntered line) : line.length < MAXLEN := by
  obtain ⟨text, rfl, -, hlen⟩ := h.ended
  have hmax : MAXLEN = 100 := rfl
  rw [List.length_append, List.length_singleton]
  omega

/-- The text of the blocks is the lines. -/
theorem textOf_blocks {lines : List (List Byte)} (h : ∀ line ∈ lines, IsEntered line) :
    textOf (lines.map block).flatten = lines.flatten := by
  induction lines with
  | nil => rfl
  | cons line lines ih =>
      rw [List.forall_mem_cons] at h
      have hline : line.filter (· ≠ 0) = line := by
        rw [List.filter_eq_self]
        intro b hb
        have hne : b ≠ 0 := fun e => h.1.noNul (e ▸ hb)
        simpa using hne
      have hzeros : (List.replicate (MAXLEN - line.length) (0 : Byte)).filter (· ≠ 0) = [] := by
        rw [List.filter_eq_nil_iff]
        intro b hb
        simp [List.eq_of_mem_replicate hb]
      have ih := ih h.2
      unfold textOf at ih ⊢
      rw [List.map_cons, List.flatten_cons, List.flatten_cons, List.filter_append, ih, block, List.filter_append, hline,
        hzeros, List.append_nil]

theorem length_block {line : List Byte} (h : line.length ≤ MAXLEN) : (block line).length = MAXLEN := by
  rw [block, List.length_append, List.length_replicate]
  omega

/-- **Any `MAXLEN` bytes of the blocks have a NUL.** -/
theorem zero_mem_window {lines : List (List Byte)} (h : ∀ line ∈ lines, IsEntered line) {before w after : List Byte}
    (hw : (lines.map block).flatten = before ++ w ++ after) (hlen : w.length = MAXLEN) : 0 ∈ w := by
  induction lines generalizing before with
  | nil =>
      have hnil := congrArg List.length hw
      rw [List.length_append, List.length_append, hlen] at hnil
      have hmax : MAXLEN = 100 := rfl
      have hzero : (List.map block []).flatten.length = 0 := rfl
      omega
  | cons line lines ih =>
      rw [List.forall_mem_cons] at h
      rw [List.map_cons, List.flatten_cons, List.append_assoc] at hw
      have hline := h.1.length_lt
      have hblock := length_block hline.le
      rcases List.append_eq_append_iff.1 hw with ⟨more, hbefore, hrest⟩ | ⟨more, hfirst, hrest⟩
      · -- the window starts after the block
        rw [← List.append_assoc] at hrest
        exact ih h.2 hrest
      · cases more with
        | nil =>
            rw [List.nil_append, ← List.nil_append (w ++ after), ← List.append_assoc] at hrest
            exact ih h.2 hrest.symm
        | cons m more =>
            -- the end of the block, a NUL, is in the window
            have hlast : (m :: more).getLast? = some 0 := by
              have hpad : MAXLEN - line.length = MAXLEN - line.length - 1 + 1 := by omega
              have hend : (block line).getLast? = some 0 := by
                rw [block, hpad, List.replicate_succ', ← List.append_assoc, List.getLast?_concat]
              rw [hfirst, List.getLast?_append] at hend
              exact hend
            have hmem : (0 : Byte) ∈ m :: more := List.mem_of_getLast? hlast
            have hshort : (m :: more).length ≤ w.length := by
              have hlen' := congrArg List.length hfirst
              rw [List.length_append] at hlen'
              omega
            have hin : (m :: more) <+: w :=
              List.prefix_of_prefix_length_le ⟨_, rfl⟩ ⟨after, hrest⟩ hshort
            exact hin.subset hmem

/-- The rest of a line that has no newline yet. -/
theorem rest_of_line {nl : Byte} {line text xs rest : List Byte} (hline : nl ∉ line)
    (h : line ++ xs = text ++ nl :: rest) : ∃ more, text = line ++ more ∧ xs = more ++ nl :: rest := by
  rcases List.append_eq_append_iff.1 h with ⟨more, htext, hxs⟩ | ⟨more, hlong, hxs⟩
  · exact ⟨more, htext, hxs⟩
  · cases more with
    | nil =>
        rw [List.append_nil] at hlong
        exact ⟨[], by rw [List.append_nil, hlong], hxs.symm⟩
    | cons m more =>
        rw [List.cons_append, List.cons.injEq] at hxs
        rw [hlong, hxs.1] at hline
        simp at hline

/-- `fgets` loses nothing. -/
theorem fgets_spec {stdin : List Byte} (h : 0 ∉ stdin) : cstr (fgets stdin).1 ++ (fgets stdin).2 = stdin := by
  have hsplit : ∀ bs : List Byte, (readUntil (ch '\n') bs).1 ++ (readUntil (ch '\n') bs).2 = bs := by
    intro bs
    induction bs with
    | nil => rfl
    | cons c cs ih =>
        unfold readUntil
        split_ifs
        · rfl
        · rw [List.cons_append, ih]
  have hread := hsplit (stdin.take (MAXLEN - 2))
  have hpre : (readUntil (ch '\n') (stdin.take (MAXLEN - 2))).1 <+: stdin :=
    List.IsPrefix.trans ⟨_, hread⟩ (List.take_prefix _ _)
  have hlen : (readUntil (ch '\n') (stdin.take (MAXLEN - 2))).1.length < MAXLEN := by
    have hcut := congrArg List.length hread
    have hmax : MAXLEN = 100 := rfl
    rw [List.length_append, List.length_take] at hcut
    omega
  have hnul : (0 : Byte) ∉ (readUntil (ch '\n') (stdin.take (MAXLEN - 2))).1 := fun hmem => h (hpre.subset hmem)
  obtain ⟨rest, hrest⟩ := hpre
  unfold fgets
  dsimp only
  rw [cstr_zeroPad hlen hnul]
  generalize (readUntil (ch '\n') (stdin.take (MAXLEN - 2))).1 = s at hrest
  rw [← hrest, List.drop_left]

/-! ## What is under way -/

namespace Wire

/-- `done` has been echoed, `rest` has not; `rs` has been read. -/
structure Under (done rest : List (List Byte)) (line : List Byte) (rs : List Reading) (s : Wire) : Prop where
  reading : s.line = some line
  noNewline : ch '\n' ∉ line
  sent : rest.flatten = line ++ s.up ++ s.stdin
  echoed : (done.map block).flatten = (rs.map Reading.chunk).flatten ++ s.down
  printed : ∀ r ∈ rs, r.text = some (cstr r.chunk)

def Inv (lines : List (List Byte)) (rs : List Reading) (s : Wire) : Prop :=
  ∃ done rest line, lines = done ++ rest ∧ s.Under done rest line rs

variable {lines : List (List Byte)} {rs : List Reading} {s : Wire}

theorem inv_start (lines : List (List Byte)) : (start lines.flatten).Inv lines [] :=
  ⟨[], lines, [], rfl, rfl, List.not_mem_nil, rfl, rfl, fun _ hr => absurd hr List.not_mem_nil⟩

theorem Inv.receive (h : ∀ line ∈ lines, IsEntered line) (hs : s.Inv lines rs) (n : Nat) :
    (s.receive n).1.Inv lines (rs ++ (s.receive n).2) := by
  obtain ⟨done, rest, line, hlines, hu⟩ := hs
  unfold Wire.receive
  dsimp only
  split_ifs with hchunk
  · rw [List.append_nil]
    exact ⟨done, rest, line, hlines, hu⟩
  · refine ⟨done, rest, line, hlines, hu.reading, hu.noNewline, hu.sent, ?_, ?_⟩
    · rw [List.map_append, List.flatten_append, hu.echoed, List.append_assoc]
      simp
    · -- a chunk that leaves no room in `recv` has a NUL
      have hnul : (0 : Byte) ∈ block (s.down.take (min n MAXLEN)) := by
        unfold block
        by_cases hfull : (s.down.take (min n MAXLEN)).length = MAXLEN
        · have hwindow : (done.map block).flatten =
              (rs.map Reading.chunk).flatten ++ s.down.take (min n MAXLEN) ++ s.down.drop (min n MAXLEN) := by
            rw [hu.echoed, List.append_assoc, List.take_append_drop]
          exact List.mem_append_left _ (zero_mem_window (fun l hl => h l (by simp [hlines, hl])) hwindow hfull)
        · have hlen : (s.down.take (min n MAXLEN)).length ≤ MAXLEN :=
            (List.length_take_le _ _).trans (Nat.min_le_right _ _)
          exact List.mem_append_right _ (List.mem_replicate.2 ⟨by omega, rfl⟩)
      intro r hr
      rcases List.mem_append.1 hr with hr | hr
      · exact hu.printed r hr
      · rw [List.mem_singleton.1 hr]
        exact printS_block hnul

theorem Inv.echoHandler (h : ∀ line ∈ lines, IsEntered line) (hs : s.Inv lines rs) (ready : Bool) (n : Nat) :
    (s.echoHandler ready n).1.Inv lines (rs ++ (s.echoHandler ready n).2) := by
  have hfgets : s.Inv lines rs → cstr (fgets s.stdin).1 ++ (fgets s.stdin).2 = s.stdin := by
    rintro ⟨done, rest, line, hlines, hu⟩
    refine fgets_spec fun hnul => ?_
    have hmem : (0 : Byte) ∈ rest.flatten := by
      rw [hu.sent]
      exact List.mem_append_right _ hnul
    obtain ⟨l, hl, hnul⟩ := List.mem_flatten.1 hmem
    exact (h l (by simp [hlines, hl])).noNul hnul
  have hread := hfgets hs
  unfold Wire.echoHandler
  dsimp only
  split_ifs with hexited hready hnone
  · rw [List.append_nil]
    exact hs
  · rw [hnone, List.nil_append] at hread
    rw [hread, List.append_nil]
    obtain ⟨done, rest, line, hlines, hu⟩ := hs
    exact ⟨done, rest, line, hlines, hu.reading, hu.noNewline, hu.sent, hu.echoed, hu.printed⟩
  · refine Inv.receive h ?_ n
    obtain ⟨done, rest, line, hlines, hu⟩ := hs
    refine ⟨done, rest, line, hlines, hu.reading, hu.noNewline, ?_, hu.echoed, hu.printed⟩
    rw [hu.sent, ← List.append_assoc, List.append_assoc (line ++ s.up), hread]
  · exact hs.receive h n

theorem Inv.handleEcho (h : ∀ line ∈ lines, IsEntered line) (hs : s.Inv lines rs) : s.handleEcho.Inv lines rs := by
  obtain ⟨done, rest, line, hlines, hu⟩ := hs
  unfold Wire.handleEcho
  rw [hu.reading]
  cases hup : s.up with
  | nil => exact ⟨done, rest, line, hlines, hu⟩
  | cons c up =>
      have hsent := hu.sent
      rw [hup] at hsent
      -- the line that is being sent
      cases rest with
      | nil => simp at hsent
      | cons l rest =>
          have hl : IsEntered l := h l (by simp [hlines])
          obtain ⟨text, rfl, hnew, hlen⟩ := hl.ended
          rw [List.flatten_cons, List.append_assoc, List.append_assoc] at hsent
          obtain ⟨more, rfl, hmore⟩ := rest_of_line hu.noNewline hsent.symm
          have hmax : MAXLEN = 100 := rfl
          have hroom : ¬line.length = MAXLEN := by
            rw [List.length_append] at hlen
            omega
          dsimp only
          rw [if_neg hroom]
          cases more with
          | nil =>
              rw [List.cons_append, List.nil_append, List.cons.injEq] at hmore
              obtain ⟨rfl, hrest⟩ := hmore
              rw [if_pos rfl]
              rw [List.append_nil] at hlines
              refine ⟨done ++ [line ++ [ch '\n']], rest, [], by simp [hlines], rfl, List.not_mem_nil, hrest.symm, ?_,
                hu.printed⟩
              rw [List.map_append, List.flatten_append, hu.echoed, List.append_assoc]
              simp
          | cons m more =>
              rw [List.cons_append, List.cons_append, List.cons.injEq] at hmore
              obtain ⟨rfl, hrest⟩ := hmore
              change up ++ s.stdin = more ++ ch '\n' :: rest.flatten at hrest
              have hc : ¬c = ch '\n' := by
                rintro rfl
                exact hnew (List.mem_append_right _ List.mem_cons_self)
              rw [if_neg hc]
              refine ⟨done, (line ++ c :: more ++ [ch '\n']) :: rest, line ++ [c], hlines, rfl, ?_, ?_, hu.echoed,
                hu.printed⟩
              · rw [List.mem_append, List.mem_singleton, not_or]
                exact ⟨hu.noNewline, fun e => hc e.symm⟩
              · simp only [List.flatten_cons, List.append_assoc, hrest, List.cons_append, List.nil_append]

theorem Inv.run (h : ∀ line ∈ lines, IsEntered line) (moves : List Move) :
    (echo.run (start lines.flatten) moves).1.Inv lines (echo.run (start lines.flatten) moves).2 := by
  refine Machine.run_inv (m := echo) (I := fun rs s => s.Inv lines rs) ?_ moves [] _ (inv_start lines)
  intro rs s move hs
  cases move with
  | client ready n => exact hs.echoHandler h ready n
  | server =>
      change s.handleEcho.Inv lines (rs ++ [])
      rw [List.append_nil]
      exact hs.handleEcho h

end Wire

/-- **What is printed.** When everything entered has been sent, echoed and read, it has been printed if and only if no
chunk has text after a NUL. -/
theorem echoed_iff (lines : List (List Byte)) (h : ∀ line ∈ lines, IsEntered line) (moves : List Move)
    (hquiet : (echo.run (.start lines.flatten) moves).1.Quiet) :
    Prints (echo.run (.start lines.flatten) moves).2 lines.flatten ↔
      ∀ r ∈ (echo.run (.start lines.flatten) moves).2, NulsLast r.chunk := by
  obtain ⟨done, rest, line, hlines, hu⟩ := Wire.Inv.run h moves
  generalize echo.run (.start lines.flatten) moves = run at hquiet hu ⊢
  obtain ⟨s, rs⟩ := run
  obtain ⟨hstdin, hup, hdown⟩ := hquiet
  -- every line has been echoed
  have hrest : rest = [] := by
    have hsent := hu.sent
    rw [hstdin, hup, List.append_nil, List.append_nil] at hsent
    cases rest with
    | nil => rfl
    | cons l rest =>
        obtain ⟨text, rfl, -, -⟩ := (h l (by simp [hlines])).ended
        exact absurd (hsent ▸ by simp) hu.noNewline
  rw [hrest, List.append_nil] at hlines
  have hechoed := hu.echoed
  rw [hdown, List.append_nil, ← hlines] at hechoed
  have htexts : rs.map Reading.text = ((rs.map Reading.chunk).map cstr).map some := by
    rw [List.map_map, List.map_map]
    exact List.map_congr_left hu.printed
  have hprints : Prints rs lines.flatten ↔ ((rs.map Reading.chunk).map cstr).flatten = lines.flatten := by
    constructor
    · rintro ⟨texts, hmap, hflat⟩
      rw [htexts] at hmap
      rw [List.map_injective_iff.2 (fun _ _ => Option.some.inj) hmap, hflat]
    · intro hflat
      exact ⟨_, htexts, hflat⟩
  rw [hprints, ← textOf_blocks h, hechoed, texts_eq_iff, List.forall_mem_map]

/-- One line comes back in two parts. -/
def inTwoParts : List Move :=
  [.client true 0, .server, .server, .server, .client false 2, .client false 100]

theorem echoed_two_parts : Prints (echo.run (.start [ch 'h', ch 'i', ch '\n']) inTwoParts).2 [ch 'h', ch 'i', ch '\n'] := by
  refine (echoed_iff [[ch 'h', ch 'i', ch '\n']] ?_ inTwoParts (by decide +kernel)).2 (by decide +kernel)
  rw [List.forall_mem_singleton]
  exact ⟨⟨[ch 'h', ch 'i'], rfl, by decide, by decide⟩, by decide⟩

/-- Of two lines the second comes back behind the NULs of the first. -/
def behindNuls : List Move :=
  [.client true 0, .client true 0, .server, .server, .server, .server, .server, .server, .client false 3,
    .client false 100, .client false 100]

theorem not_echoed :
    ¬∀ lines : List (List Byte), (∀ line ∈ lines, IsEntered line) → ∀ moves : List Move,
      (echo.run (.start lines.flatten) moves).1.Quiet → Prints (echo.run (.start lines.flatten) moves).2 lines.flatten := by
  intro h
  have hlines : ∀ line ∈ [[ch 'h', ch 'i', ch '\n'], [ch 'y', ch 'o', ch '\n']], IsEntered line := by
    rw [List.forall_mem_cons, List.forall_mem_singleton]
    exact ⟨⟨⟨[ch 'h', ch 'i'], rfl, by decide, by decide⟩, by decide⟩,
      ⟨⟨[ch 'y', ch 'o'], rfl, by decide, by decide⟩, by decide⟩⟩
  obtain ⟨texts, hmap, hflat⟩ := h _ hlines behindNuls (by decide +kernel)
  have htexts : texts = [[ch 'h', ch 'i', ch '\n'], [], []] := by
    refine List.map_injective_iff.2 (fun _ _ => Option.some.inj) (hmap.symm.trans ?_)
    decide +kernel
  rw [htexts] at hflat
  exact absurd hflat (by decide)

end SysSnippets.Tcp
