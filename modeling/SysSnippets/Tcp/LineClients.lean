import SysSnippets.Lib.Lines
import SysSnippets.Lib.Progress
import SysSnippets.Tcp.Service

/-!
# The line clients and their servers

`c_std` in Rust or `c_simple` in Go, with the server in Rust or Go: the client sends a line and waits for a line, over a
connection that splits and joins the bytes as it likes.

* `Pair.step` : the two programs, one read or write at a time;
* `transcript` : what the client prints, as a function of its input;
* `transcribed` : it prints that, whatever the reads give, and where it ends, it has printed all of it;
* `completes_iff` : when `c_std` completes, and when it and its server wait for each other.
-/

namespace SysSnippets.Tcp.LineClients
open SysSnippets.Lib

/-- The language of a client or a server. -/
inductive Lang
  | rust
  | go
  deriving DecidableEq

/-- What the client prints. -/
inductive Out
  | xmit (line : List Byte)
  | recv (line : List Byte)
  /-- the end of the input: "client completed", "client done" -/
  | done
  | panicked
  /-- "server closed connection" -/
  | closed
  deriving DecidableEq

/-- After it the client prints nothing. -/
def Out.isLast : Out → Bool
  | .xmit _ => false
  | .recv _ => false
  | .done => true
  | .panicked => true
  | .closed => true

inductive Pc
  /-- before the line is read from the input -/
  | entering
  /-- in the read of the reply -/
  | waiting
  | gone
  deriving DecidableEq

/-- A client with its server. -/
structure Pair where
  stdin : List Byte
  pc : Pc
  /-- the buffer of the client's reader -/
  cbuf : List Byte
  /-- on the way to the server, and to the client -/
  up : List Byte
  down : List Byte
  /-- the buffer of the server's reader -/
  sbuf : List Byte
  serving : Bool
  deriving DecidableEq

/-- Whose next call returns; a read gives at most so many bytes and one. -/
inductive Turn
  | client (k : Nat)
  | server (k : Nat)

namespace Pair

def start (stdin : List Byte) : Pair := ⟨stdin, .entering, [], [], [], [], true⟩

/-- The start of the client's loop: a line is read and sent. `read_line` takes an unended line, if it is text;
`ReadString` does not. -/
def enter (lang : Lang) (s : Pair) : Pair × List Out :=
  let line := (readUntil (ch '\n') s.stdin).1
  let rest := (readUntil (ch '\n') s.stdin).2
  match lang with
  | .rust =>
      if validUtf8 line = false then ({ s with stdin := rest, pc := .gone }, [.panicked])
      else if line = [] then ({ s with stdin := rest, pc := .gone }, [.done])
      else ({ s with stdin := rest, pc := .waiting, up := s.up ++ line }, [.xmit line])
  | .go =>
      if ch '\n' ∉ line then ({ s with stdin := rest, pc := .gone }, [.done])
      else ({ s with stdin := rest, pc := .waiting, up := s.up ++ line }, [.xmit line])

/-- The read of the reply: `read_line` takes it if it is text. `c_simple` makes a new reader for each. -/
def await (lang : Lang) (k : Nat) (s : Pair) : Pair × List Out :=
  if ch '\n' ∈ s.cbuf then
    let line := (readUntil (ch '\n') s.cbuf).1
    let rest := (readUntil (ch '\n') s.cbuf).2
    match lang with
    | .rust =>
        if validUtf8 line = false then ({ s with pc := .gone, cbuf := rest }, [.panicked])
        else ({ s with pc := .entering, cbuf := rest }, [.recv line])
    | .go => ({ s with pc := .entering, cbuf := [] }, [.recv line])
  else if s.down ≠ [] then ({ s with cbuf := s.cbuf ++ s.down.take (k + 1), down := s.down.drop (k + 1) }, [])
  else if s.serving then (s, [])
  else
    match lang with
    | .rust =>
        if validUtf8 s.cbuf = false then ({ s with pc := .gone, cbuf := [] }, [.panicked])
        else ({ s with pc := .entering, cbuf := [] }, [.recv s.cbuf])
    | .go => ({ s with pc := .gone }, [.closed])

/-- The server's loop; when its client has gone it echoes what is left, in Rust, and ends. -/
def serve (lang : Lang) (k : Nat) (s : Pair) : Pair × List Out :=
  if s.serving = false then (s, [])
  else if ch '\n' ∈ s.sbuf then
    let line := (readUntil (ch '\n') s.sbuf).1
    let rest := (readUntil (ch '\n') s.sbuf).2
    if lang = .rust ∧ validUtf8 line = false then ({ s with sbuf := rest, serving := false }, [])
    else ({ s with sbuf := rest, down := s.down ++ line }, [])
  else if s.up ≠ [] then ({ s with sbuf := s.sbuf ++ s.up.take (k + 1), up := s.up.drop (k + 1) }, [])
  else if s.pc = .gone then
    if lang = .rust ∧ s.sbuf ≠ [] ∧ validUtf8 s.sbuf = true then ({ s with sbuf := [], down := s.down ++ s.sbuf }, [])
    else ({ s with sbuf := [], serving := false }, [])
  else (s, [])

def step (c srv : Lang) (s : Pair) : Turn → Pair × List Out
  | .client k =>
      match s.pc with
      | .entering => s.enter c
      | .waiting => s.await c k
      | .gone => (s, [])
  | .server k => s.serve srv k

end Pair

/-- A client and a server, in these languages. -/
def pair (c srv : Lang) : Machine Pair Turn Out := ⟨Pair.step c srv⟩

/-- What a client prints of its lines. -/
def transcript (c srv : Lang) : List (List Byte) → List Out
  | [] => [.done]
  | line :: lines =>
      if c = .rust ∧ validUtf8 line = false then [.panicked]
      else if ch '\n' ∉ line then if c = .go then [.done] else [.xmit line]
      else if srv = .rust ∧ validUtf8 line = false then [.xmit line, .closed]
      else .xmit line :: .recv line :: transcript c srv lines

/-! ## Where the line is -/

section Lines
variable {text rest line : List Byte}

/-- The bytes of a line: a newline ends it, or the input. -/
def IsEnded (line : List Byte) : Prop := ∃ text, ch '\n' ∉ text ∧ line = text ++ [ch '\n']

theorem readUntil_unended (h : ch '\n' ∉ text) : readUntil (ch '\n') text = (text, []) := by
  induction text with
  | nil => rfl
  | cons c cs ih =>
      rw [List.mem_cons, not_or] at h
      have hc : ¬c = ch '\n' := fun e => h.1 e.symm
      rw [readUntil, if_neg hc, ih h.2]

theorem IsEnded.mem (h : IsEnded line) : ch '\n' ∈ line := by
  obtain ⟨text, -, rfl⟩ := h
  exact List.mem_append_right text List.mem_cons_self

theorem IsEnded.readUntil (h : IsEnded line) : readUntil (ch '\n') line = (line, []) := by
  obtain ⟨text, htext, rfl⟩ := h
  have hread := readUntil_line htext []
  rwa [List.append_nil] at hread

/-- A part of a line has its newline only if it is all of it. -/
theorem IsEnded.part {part : List Byte} (h : IsEnded line) (hpart : part ++ rest = line) (hmem : ch '\n' ∈ part) :
    part = line ∧ rest = [] := by
  obtain ⟨text, htext, rfl⟩ := h
  obtain ⟨text', rest', htext', rfl⟩ := (exists_line (ch '\n') part).resolve_left (fun hnot => hnot hmem)
  rw [List.append_assoc, List.cons_append] at hpart
  obtain ⟨rfl, hnil⟩ := first_line_inj htext' htext hpart
  obtain ⟨rfl, rfl⟩ := List.append_eq_nil_iff.1 hnil
  exact ⟨rfl, rfl⟩

end Lines

/-- What is still to be printed when a line has been sent and this input is left. -/
def after (c srv : Lang) (line stdin : List Byte) : List Out :=
  if ch '\n' ∉ line then []
  else if srv = .rust ∧ validUtf8 line = false then [.closed]
  else .recv line :: transcript c srv (lines (ch '\n') stdin)

theorem transcript_ne_nil (c srv : Lang) (ls : List (List Byte)) : transcript c srv ls ≠ [] := by
  cases ls with
  | nil => exact List.cons_ne_nil _ _
  | cons line ls =>
      rw [transcript]
      split_ifs <;> exact List.cons_ne_nil _ _

/-- Where the line is, and what is still to be printed. -/
inductive Phase (c srv : Lang) : Pair → List Out → Prop
  | entering (stdin : List Byte) : Phase c srv (.start stdin) (transcript c srv (lines (ch '\n') stdin))
  | request {line up sbuf stdin : List Byte} (hline : IsEnded line ∨ c = .rust ∧ ch '\n' ∉ line)
      (hvalid : c = .rust → validUtf8 line = true) (h : sbuf ++ up = line) :
      Phase c srv ⟨stdin, .waiting, [], up, [], sbuf, true⟩ (after c srv line stdin)
  | reply {line cbuf down stdin : List Byte} (hline : IsEnded line) (hvalid : c = .rust → validUtf8 line = true)
      (h : cbuf ++ down = line) :
      Phase c srv ⟨stdin, .waiting, cbuf, [], down, [], true⟩
        (.recv line :: transcript c srv (lines (ch '\n') stdin))
  | refused (hc : c = .go) (stdin : List Byte) : Phase c srv ⟨stdin, .waiting, [], [], [], [], false⟩ [.closed]
  | gone (stdin : List Byte) (serving : Bool) : Phase c srv ⟨stdin, .gone, [], [], [], [], serving⟩ []

/-- The work that is left: bytes go from the input to the server and back, then both end. -/
def Pair.rank (s : Pair) : Nat :=
  5 * s.stdin.length + 4 * s.up.length + 3 * s.sbuf.length + 2 * s.down.length + s.cbuf.length +
    (if s.pc = .gone then 0 else 1) + if s.serving then 1 else 0

/-- A step from a phase: it prints what comes next, and leaves less to do if it does anything. -/
structure Goes (c srv : Lang) (s : Pair) (todo : List Out) (r : Pair × List Out) : Prop where
  prints : ∃ todo', todo = r.2 ++ todo' ∧ Phase c srv r.1 todo'
  rank : r.1 ≠ s → r.1.rank < s.rank

variable {c srv : Lang} {s : Pair} {todo : List Out}

theorem Phase.stay (h : Phase c srv s todo) : Goes c srv s todo (s, []) :=
  ⟨⟨todo, rfl, h⟩, fun hne => absurd rfl hne⟩

theorem goes_done (c srv : Lang) (stdin rest : List Byte) (o : Out) (hrest : rest.length ≤ stdin.length) :
    Goes c srv (.start stdin) [o] ({ Pair.start stdin with stdin := rest, pc := .gone }, [o]) := by
  refine ⟨⟨[], rfl, .gone rest true⟩, fun _ => ?_⟩
  unfold Pair.rank Pair.start
  dsimp only
  simp only [List.length_nil, if_pos, reduceCtorEq, if_false]
  omega

theorem goes_xmit {line stdin rest : List Byte} (hline : IsEnded line ∨ c = .rust ∧ ch '\n' ∉ line)
    (hvalid : c = .rust → validUtf8 line = true) (hrest : line ++ rest = stdin) (hne : line ≠ []) :
    Goes c srv (.start stdin) (.xmit line :: after c srv line rest)
      ({ Pair.start stdin with stdin := rest, pc := .waiting, up := (Pair.start stdin).up ++ line }, [.xmit line]) := by
  refine ⟨⟨after c srv line rest, rfl, .request hline hvalid rfl⟩, fun _ => ?_⟩
  have hlength := congrArg List.length hrest
  have hpos := List.length_pos_of_ne_nil hne
  rw [List.length_append] at hlength
  unfold Pair.rank Pair.start
  dsimp only
  simp only [List.length_nil, List.nil_append, reduceCtorEq, if_false]
  omega

theorem transcript_ended {line : List Byte} (hline : IsEnded line) (hvalid : c = .rust → validUtf8 line = true)
    (stdin : List Byte) :
    transcript c srv (line :: lines (ch '\n') stdin) = .xmit line :: after c srv line stdin := by
  have hnot : ¬(c = .rust ∧ validUtf8 line = false) := by
    rintro ⟨hc, hinvalid⟩
    rw [hvalid hc] at hinvalid
    cases hinvalid
  have hmem : ¬ch '\n' ∉ line := fun hnot => hnot hline.mem
  rw [transcript, after, if_neg hnot, if_neg hmem, if_neg hmem]
  split_ifs <;> rfl

theorem goes_enter (c srv : Lang) (stdin : List Byte) :
    Goes c srv (.start stdin) (transcript c srv (lines (ch '\n') stdin)) ((Pair.start stdin).enter c) := by
  unfold Pair.enter
  rcases exists_line (ch '\n') stdin with hnot | ⟨text, rest, htext, hstdin⟩
  · have hread : readUntil (ch '\n') (Pair.start stdin).stdin = (stdin, []) := readUntil_unended hnot
    rw [hread]
    dsimp only
    by_cases hnil : stdin = []
    · rw [hnil]
      cases c with
      | rust => exact goes_done .rust srv [] [] .done (Nat.le_refl 0)
      | go => exact goes_done .go srv [] [] .done (Nat.le_refl 0)
    · rw [lines_rest hnot hnil]
      cases c with
      | rust =>
          dsimp only
          split_ifs with hinvalid
          · rw [transcript, if_pos ⟨rfl, hinvalid⟩]
            exact goes_done .rust srv stdin [] .panicked (Nat.zero_le _)
          · have hvalid : validUtf8 stdin = true := (Bool.not_eq_false _).mp hinvalid
            have htodo : transcript .rust srv [stdin] = .xmit stdin :: after .rust srv stdin [] := by
              rw [transcript, if_neg (fun h => hinvalid h.2), if_pos hnot, if_neg Lang.noConfusion, after, if_pos hnot]
            rw [htodo]
            exact goes_xmit (Or.inr ⟨rfl, hnot⟩) (fun _ => hvalid) (List.append_nil stdin) hnil
      | go =>
          dsimp only
          rw [if_pos hnot, transcript, if_neg (fun h => nomatch h.1), if_pos hnot, if_pos rfl]
          exact goes_done .go srv stdin [] .done (Nat.zero_le _)
  · have hline : IsEnded (text ++ [ch '\n']) := ⟨text, htext, rfl⟩
    have hsplit : text ++ [ch '\n'] ++ rest = stdin := by
      rw [hstdin, List.append_assoc]
      rfl
    have hread : readUntil (ch '\n') (Pair.start stdin).stdin = (text ++ [ch '\n'], rest) := by
      change readUntil (ch '\n') stdin = _
      rw [← hsplit]
      exact readUntil_line htext rest
    have hne : text ++ [ch '\n'] ≠ [] := List.append_ne_nil_of_right_ne_nil text (List.cons_ne_nil _ _)
    have hrest : rest.length ≤ stdin.length := by
      rw [← hsplit, List.length_append]
      exact Nat.le_add_left ..
    have hlines : lines (ch '\n') stdin = (text ++ [ch '\n']) :: lines (ch '\n') rest := by
      rw [hstdin]
      exact lines_text htext rest
    rw [hread, hlines]
    dsimp only
    cases c with
    | rust =>
        dsimp only
        split_ifs with hinvalid
        · rw [transcript, if_pos ⟨rfl, hinvalid⟩]
          exact goes_done .rust srv stdin rest .panicked hrest
        · have hvalid : validUtf8 (text ++ [ch '\n']) = true := (Bool.not_eq_false _).mp hinvalid
          rw [transcript_ended hline (fun _ => hvalid)]
          exact goes_xmit (Or.inl hline) (fun _ => hvalid) hsplit hne
    | go =>
        dsimp only
        rw [if_neg (fun hnot => hnot hline.mem), transcript_ended hline Lang.noConfusion]
        exact goes_xmit (Or.inl hline) Lang.noConfusion hsplit hne

/-- Bytes that go from one place to the next. -/
theorem length_moved (k : Nat) {bs : List Byte} (h : bs ≠ []) :
    (bs.take (k + 1)).length + (bs.drop (k + 1)).length = bs.length ∧ 0 < (bs.take (k + 1)).length := by
  have hpos := List.length_pos_of_ne_nil h
  rw [List.length_take, List.length_drop]
  omega

theorem goes_serve_request {line up sbuf stdin : List Byte} (hline : IsEnded line ∨ c = .rust ∧ ch '\n' ∉ line)
    (hvalid : c = .rust → validUtf8 line = true) (h : sbuf ++ up = line) (k : Nat) :
    Goes c srv ⟨stdin, .waiting, [], up, [], sbuf, true⟩ (after c srv line stdin)
      (Pair.serve srv k ⟨stdin, .waiting, [], up, [], sbuf, true⟩) := by
  unfold Pair.serve
  rw [if_neg Bool.true_eq_false.mp]
  dsimp only
  by_cases hmem : ch '\n' ∈ sbuf
  · -- the line is there
    have hended : IsEnded line := hline.resolve_right (fun hnot => hnot.2 (h ▸ List.mem_append_left up hmem))
    obtain ⟨rfl, rfl⟩ := hended.part h hmem
    rw [if_pos hmem, hended.readUntil, after, if_neg (fun hnot => hnot hended.mem)]
    dsimp only
    split_ifs with hinvalid
    · have hgo : c = .go := by
        cases c with
        | rust =>
            rw [hvalid rfl] at hinvalid
            cases hinvalid.2
        | go => rfl
      refine ⟨⟨_, rfl, .refused hgo stdin⟩, fun _ => ?_⟩
      unfold Pair.rank
      simp only [List.length_nil, reduceCtorEq, if_false, if_true, Bool.false_eq_true]
      omega
    · refine ⟨⟨_, rfl, .reply hended hvalid (List.nil_append _)⟩, fun _ => ?_⟩
      have hpos := List.length_pos_of_ne_nil (List.ne_nil_of_mem hmem)
      unfold Pair.rank
      simp only [List.length_nil, List.length_append]
      omega
  · rw [if_neg hmem]
    by_cases hup : up ≠ []
    · obtain ⟨hlength, hpos⟩ := length_moved k hup
      rw [if_pos hup]
      refine ⟨⟨_, rfl, .request hline hvalid ?_⟩, fun _ => ?_⟩
      · rw [List.append_assoc, List.take_append_drop, h]
      · unfold Pair.rank
        dsimp only
        simp only [List.length_append, List.length_nil]
        omega
    · rw [if_neg hup, if_neg Pc.noConfusion]
      exact (Phase.request hline hvalid h).stay

theorem goes_await_reply {line cbuf down stdin : List Byte} (hline : IsEnded line)
    (hvalid : c = .rust → validUtf8 line = true) (h : cbuf ++ down = line) (k : Nat) :
    Goes c srv ⟨stdin, .waiting, cbuf, [], down, [], true⟩ (.recv line :: transcript c srv (lines (ch '\n') stdin))
      (Pair.await c k ⟨stdin, .waiting, cbuf, [], down, [], true⟩) := by
  unfold Pair.await
  dsimp only
  by_cases hmem : ch '\n' ∈ cbuf
  · obtain ⟨rfl, rfl⟩ := hline.part h hmem
    rw [if_pos hmem, hline.readUntil]
    have hpos := List.length_pos_of_ne_nil (List.ne_nil_of_mem hmem)
    cases c with
    | rust =>
        dsimp only
        rw [if_neg (by rw [hvalid rfl]; exact Bool.true_eq_false.mp)]
        refine ⟨⟨_, rfl, .entering stdin⟩, fun _ => ?_⟩
        unfold Pair.rank
        simp only [List.length_nil, reduceCtorEq, if_false]
        omega
    | go =>
        refine ⟨⟨_, rfl, .entering stdin⟩, fun _ => ?_⟩
        unfold Pair.rank
        simp only [List.length_nil, reduceCtorEq, if_false]
        omega
  · have hdown : down ≠ [] := by
      intro hnil
      rw [hnil, List.append_nil] at h
      exact hmem (h ▸ hline.mem)
    obtain ⟨hlength, hpos⟩ := length_moved k hdown
    rw [if_neg hmem, if_pos hdown]
    refine ⟨⟨_, rfl, .reply hline hvalid ?_⟩, fun _ => ?_⟩
    · rw [List.append_assoc, List.take_append_drop, h]
    · unfold Pair.rank
      dsimp only
      simp only [List.length_append, List.length_nil]
      omega

/-- **A step prints what comes next.** -/
theorem Phase.step (h : Phase c srv s todo) (t : Turn) : Goes c srv s todo (s.step c srv t) := by
  cases h with
  | entering stdin =>
      cases t with
      | client k => exact goes_enter c srv stdin
      | server k => exact (Phase.entering stdin).stay
  | request hline hvalid h =>
      cases t with
      | client k => exact (Phase.request hline hvalid h).stay
      | server k => exact goes_serve_request hline hvalid h k
  | reply hline hvalid h =>
      cases t with
      | client k => exact goes_await_reply hline hvalid h k
      | server k => exact (Phase.reply hline hvalid h).stay
  | refused hc stdin =>
      cases t with
      | client k =>
          have hstep : Pair.step c srv ⟨stdin, .waiting, [], [], [], [], false⟩ (.client k) =
              (⟨stdin, .gone, [], [], [], [], false⟩, [.closed]) := by
            rw [hc]
            rfl
          rw [hstep]
          refine ⟨⟨_, rfl, .gone stdin false⟩, fun _ => ?_⟩
          unfold Pair.rank
          simp only [List.length_nil, if_true, reduceCtorEq, if_false, Bool.false_eq_true]
          omega
      | server k => exact (Phase.refused hc stdin).stay
  | gone stdin serving =>
      cases t with
      | client k => exact (Phase.gone stdin serving).stay
      | server k =>
          cases serving with
          | true =>
              have hstep : Pair.step c srv ⟨stdin, .gone, [], [], [], [], true⟩ (.server k) =
                  (⟨stdin, .gone, [], [], [], [], false⟩, []) := by
                change Pair.serve srv k _ = _
                unfold Pair.serve
                simp
              rw [hstep]
              refine ⟨⟨[], rfl, .gone stdin false⟩, fun _ => ?_⟩
              unfold Pair.rank
              simp only [List.length_nil, if_true, Bool.false_eq_true, if_false]
              omega
          | false => exact (Phase.gone stdin false).stay

/-- **Who waits for ever has nothing to print.** -/
theorem Phase.todo_of_stuck (h : Phase c srv s todo) (hstuck : (pair c srv).Stuck s) : todo = [] := by
  cases h with
  | entering stdin =>
      have hpc := congrArg Pair.pc (hstuck (.client 0))
      change ((Pair.start stdin).enter c).1.pc = .entering at hpc
      unfold Pair.enter at hpc
      dsimp only at hpc
      cases c with
      | rust =>
          dsimp only at hpc
          split_ifs at hpc
      | go =>
          dsimp only at hpc
          split_ifs at hpc
  | @request line up sbuf stdin hline hvalid h =>
      have hserve : (Pair.serve srv 0 ⟨stdin, .waiting, [], up, [], sbuf, true⟩).1 = _ := hstuck (.server 0)
      unfold Pair.serve at hserve
      rw [if_neg Bool.true_eq_false.mp] at hserve
      dsimp only at hserve
      by_cases hmem : ch '\n' ∈ sbuf
      · -- a line is taken out of the buffer
        have hended : IsEnded line := hline.resolve_right (fun hnot => hnot.2 (h ▸ List.mem_append_left up hmem))
        obtain ⟨rfl, rfl⟩ := hended.part h hmem
        rw [if_pos hmem, hended.readUntil] at hserve
        have hnil : [] = sbuf := by
          dsimp only at hserve
          split_ifs at hserve
          · exact congrArg Pair.sbuf hserve
          · exact congrArg Pair.sbuf hserve
        rw [← hnil] at hmem
        exact absurd hmem List.not_mem_nil
      · rw [if_neg hmem] at hserve
        by_cases hup : up ≠ []
        · rw [if_pos hup] at hserve
          have hlength := congrArg List.length (congrArg Pair.up hserve)
          have hmoved := length_moved 0 hup
          dsimp only at hlength
          omega
        · rw [not_not.1 hup, List.append_nil] at h
          rw [after, if_pos (h ▸ hmem)]
  | @reply line cbuf down stdin hline hvalid h =>
      have hawait : (Pair.await c 0 ⟨stdin, .waiting, cbuf, [], down, [], true⟩).1 = _ := hstuck (.client 0)
      unfold Pair.await at hawait
      dsimp only at hawait
      by_cases hmem : ch '\n' ∈ cbuf
      · obtain ⟨rfl, rfl⟩ := hline.part h hmem
        rw [if_pos hmem, hline.readUntil] at hawait
        have hcbuf := congrArg Pair.cbuf hawait
        have hnil : [] = cbuf := by
          cases c with
          | rust =>
              dsimp only at hcbuf
              split_ifs at hcbuf
              · exact hcbuf
              · exact hcbuf
          | go => exact hcbuf
        rw [← hnil] at hmem
        exact absurd hmem List.not_mem_nil
      · have hdown : down ≠ [] := by
          intro hnil
          rw [hnil, List.append_nil] at h
          exact hmem (h ▸ hline.mem)
        rw [if_neg hmem, if_pos hdown] at hawait
        have hlength := congrArg List.length (congrArg Pair.down hawait)
        have hmoved := length_moved 0 hdown
        dsimp only at hlength
        omega
  | refused hc stdin =>
      have hpc := congrArg Pair.pc (hstuck (.client 0))
      rw [hc] at hpc
      cases hpc
  | gone stdin serving => rfl

theorem phase_run (c srv : Lang) (stdin : List Byte) (schedule : List Turn) :
    ∃ todo, transcript c srv (lines (ch '\n') stdin) = ((pair c srv).run (.start stdin) schedule).2 ++ todo ∧
      Phase c srv ((pair c srv).run (.start stdin) schedule).1 todo := by
  refine Machine.run_inv (m := pair c srv) (I := fun h s => ∃ todo,
    transcript c srv (lines (ch '\n') stdin) = h ++ todo ∧ Phase c srv s todo) ?_ schedule [] (.start stdin)
    ⟨_, rfl, .entering stdin⟩
  rintro h s t ⟨todo, hh, hphase⟩
  obtain ⟨todo', htodo, hphase'⟩ := (hphase.step t).prints
  refine ⟨todo', ?_, hphase'⟩
  rw [hh, htodo, List.append_assoc]
  rfl

theorem phase_keep (s : Pair) (t : Turn) (h : ∃ todo, Phase c srv s todo) :
    ∃ todo, Phase c srv ((pair c srv).step s t).1 todo := by
  obtain ⟨todo, hphase⟩ := h
  obtain ⟨todo', -, hphase'⟩ := (hphase.step t).prints
  exact ⟨todo', hphase'⟩

theorem rank_lt (s : Pair) (t : Turn) (h : ∃ todo, Phase c srv s todo) (hne : ((pair c srv).step s t).1 ≠ s) :
    ((pair c srv).step s t).1.rank < s.rank := by
  obtain ⟨todo, hphase⟩ := h
  exact (hphase.step t).rank hne

theorem printed_of_stuck (stdin : List Byte) (schedule : List Turn)
    (hstuck : (pair c srv).Stuck ((pair c srv).run (.start stdin) schedule).1) :
    ((pair c srv).run (.start stdin) schedule).2 = transcript c srv (lines (ch '\n') stdin) := by
  obtain ⟨todo, htodo, hphase⟩ := phase_run c srv stdin schedule
  rw [htodo, hphase.todo_of_stuck hstuck, List.append_nil]

theorem exists_printed (c srv : Lang) (stdin : List Byte) (schedule : List Turn) :
    ∃ rest, ((pair c srv).run (.start stdin) (schedule ++ rest)).2 = transcript c srv (lines (ch '\n') stdin) := by
  obtain ⟨todo, -, hphase⟩ := phase_run c srv stdin schedule
  obtain ⟨rest, -, hend⟩ := Machine.exists_stuck phase_keep rank_lt ⟨todo, hphase⟩
  refine ⟨rest, printed_of_stuck stdin (schedule ++ rest) ?_⟩
  rw [Machine.run_append]
  exact hend

/-- **The bytes may come as they like.** However the connection cuts the stream, the client prints the transcript of its
input, and nothing else: what it has printed is the start of it, and when nobody can go on, all of it. This is so after a
number of steps that the input bounds, and from every state that can be reached. -/
theorem transcribed (c srv : Lang) (stdin : List Byte) (schedule : List Turn) :
    ((pair c srv).run (.start stdin) schedule).2 <+: transcript c srv (lines (ch '\n') stdin) ∧
    ((pair c srv).Stuck ((pair c srv).run (.start stdin) schedule).1 →
      ((pair c srv).run (.start stdin) schedule).2 = transcript c srv (lines (ch '\n') stdin)) ∧
    ((pair c srv).Busy (.start stdin) schedule → schedule.length ≤ 5 * stdin.length + 2) ∧
    ∃ rest, ((pair c srv).run (.start stdin) (schedule ++ rest)).2 = transcript c srv (lines (ch '\n') stdin) := by
  obtain ⟨todo, htodo, -⟩ := phase_run c srv stdin schedule
  refine ⟨⟨todo, htodo.symm⟩, printed_of_stuck stdin schedule, fun hbusy => ?_, exists_printed c srv stdin schedule⟩
  have hlength := hbusy.length_add_le phase_keep rank_lt ⟨_, .entering stdin⟩
  have hrank : (Pair.start stdin).rank = 5 * stdin.length + 2 := rfl
  omega

theorem done_mem_transcript (srv : Lang) (ls : List (List Byte)) :
    .done ∈ transcript .rust srv ls ↔ ∀ line ∈ ls, validUtf8 line = true ∧ ch '\n' ∈ line := by
  induction ls with
  | nil => exact iff_of_true List.mem_cons_self fun line hline => absurd hline List.not_mem_nil
  | cons line ls ih =>
      rw [transcript, List.forall_mem_cons, ← ih]
      cases hvalid : validUtf8 line with
      | false => simp
      | true =>
          by_cases hmem : ch '\n' ∈ line
          · simp [hmem]
          · simp [hmem]

/-! ## How `c_std` ends -/

theorem gone_enter (lang : Lang) (s : Pair) :
    (s.enter lang).1.pc = .gone ↔ ∃ o ∈ (s.enter lang).2, o.isLast = true := by
  unfold Pair.enter
  cases lang with
  | rust =>
      dsimp only
      split_ifs <;> simp [Out.isLast]
  | go =>
      dsimp only
      split_ifs <;> simp [Out.isLast]

theorem gone_await (lang : Lang) (k : Nat) {s : Pair} (hs : s.pc = .waiting) :
    (s.await lang k).1.pc = .gone ↔ ∃ o ∈ (s.await lang k).2, o.isLast = true := by
  unfold Pair.await
  cases lang with
  | rust =>
      dsimp only
      split_ifs <;> simp [Out.isLast, hs]
  | go =>
      dsimp only
      split_ifs <;> simp [Out.isLast, hs]

theorem serve_pc (lang : Lang) (k : Nat) (s : Pair) : (s.serve lang k).1.pc = s.pc ∧ (s.serve lang k).2 = [] := by
  unfold Pair.serve
  dsimp only
  split_ifs <;> exact ⟨rfl, rfl⟩

theorem gone_step (c srv : Lang) (s : Pair) (t : Turn) :
    (s.step c srv t).1.pc = .gone ↔ s.pc = .gone ∨ ∃ o ∈ (s.step c srv t).2, o.isLast = true := by
  cases t with
  | client k =>
      unfold Pair.step
      cases hpc : s.pc with
      | entering =>
          dsimp only
          rw [gone_enter, or_iff_right Pc.noConfusion]
      | waiting =>
          dsimp only
          rw [gone_await c k hpc, or_iff_right Pc.noConfusion]
      | gone => exact iff_of_true hpc (Or.inl rfl)
  | server k =>
      obtain ⟨hpc, hout⟩ := serve_pc srv k s
      change (s.serve srv k).1.pc = .gone ↔ s.pc = .gone ∨ ∃ o ∈ (s.serve srv k).2, _
      rw [hpc, hout]
      simp

/-- The client has gone once it has printed its last line. -/
theorem gone_run (c srv : Lang) (stdin : List Byte) (schedule : List Turn) :
    ((pair c srv).run (.start stdin) schedule).1.pc = .gone ↔
      ∃ o ∈ ((pair c srv).run (.start stdin) schedule).2, o.isLast = true := by
  refine Machine.run_inv (m := pair c srv) (I := fun h s => s.pc = .gone ↔ ∃ o ∈ h, o.isLast = true) ?_ schedule []
    (.start stdin) (iff_of_false Pc.noConfusion (by simp))
  intro h s t hgone
  change (s.step c srv t).1.pc = .gone ↔ ∃ o ∈ h ++ (s.step c srv t).2, o.isLast = true
  rw [gone_step, hgone]
  simp only [List.mem_append, or_and_right, exists_or]

/-- An input of text whose last line has no newline. -/
def Unended (stdin : List Byte) : Prop :=
  (∀ line ∈ lines (ch '\n') stdin, validUtf8 line = true) ∧ ∃ line ∈ lines (ch '\n') stdin, ch '\n' ∉ line

theorem last_mem_transcript (srv : Lang) (stdin : List Byte) :
    (∃ o ∈ transcript .rust srv (lines (ch '\n') stdin), o.isLast = true) ↔ ¬Unended stdin := by
  unfold Unended
  induction stdin using line_induction (ch '\n') with
  | unended text htext =>
      by_cases hne : text = []
      · rw [hne]
        exact iff_of_true ⟨.done, List.mem_singleton_self _, rfl⟩ fun h => by simp at h
      · rw [lines_rest htext hne]
        cases hvalid : validUtf8 text with
        | false => simp [transcript, hvalid, Out.isLast]
        | true => simp [transcript, hvalid, htext, Out.isLast]
  | line text rest htext ih =>
      rw [lines_text htext]
      cases hvalid : validUtf8 (text ++ [ch '\n']) with
      | false => simp [transcript, hvalid, Out.isLast]
      | true =>
          rw [transcript_ended ⟨text, htext, rfl⟩ (fun _ => hvalid)]
          simp [after, hvalid, Out.isLast] at ih ⊢
          exact ih

/-- The client waits for the reply, the server for the rest of the line, and nothing changes that. -/
structure WaitForEachOther (c srv : Lang) (s : Pair) : Prop where
  client : s.pc = .waiting
  server : s.serving = true
  stuck : (pair c srv).Stuck s

/-- Where nobody can go on, `c_std` has gone or waits. -/
theorem Phase.ends_of_stuck (h : Phase .rust srv s todo) (hstuck : (pair .rust srv).Stuck s) :
    s.pc = .gone ∨ WaitForEachOther .rust srv s := by
  have htodo := h.todo_of_stuck hstuck
  cases h with
  | entering stdin => exact absurd htodo (transcript_ne_nil _ _ _)
  | request hline hvalid h => exact Or.inr ⟨rfl, rfl, hstuck⟩
  | reply hline hvalid h => exact nomatch htodo
  | refused hc stdin => exact nomatch htodo
  | gone stdin serving => exact Or.inl rfl

theorem waits_iff (srv : Lang) (stdin : List Byte) :
    (∀ schedule, ∃ rest, WaitForEachOther .rust srv ((pair .rust srv).run (.start stdin) (schedule ++ rest)).1) ↔
      Unended stdin := by
  have hlast := last_mem_transcript srv stdin
  constructor
  · intro h
    obtain ⟨rest, hwait⟩ := h []
    by_contra hnot
    rw [← hlast, ← printed_of_stuck stdin _ hwait.stuck, ← gone_run, hwait.client] at hnot
    exact nomatch hnot
  · intro h schedule
    obtain ⟨todo, -, hphase⟩ := phase_run .rust srv stdin schedule
    obtain ⟨rest, -, hend⟩ := Machine.exists_stuck phase_keep rank_lt ⟨todo, hphase⟩
    have hend : (pair .rust srv).Stuck ((pair .rust srv).run (.start stdin) (schedule ++ rest)).1 := by
      rw [Machine.run_append]
      exact hend
    obtain ⟨todo', -, hphase'⟩ := phase_run .rust srv stdin (schedule ++ rest)
    refine ⟨rest, (hphase'.ends_of_stuck hend).resolve_left fun hgone => ?_⟩
    rw [gone_run, printed_of_stuck stdin _ hend, hlast] at hgone
    exact hgone h

/-- **When `c_std` comes to an end.** It completes if each line of its input is text and has its newline. Every schedule
comes to where client and server wait for each other if all is text and the last line has no newline. -/
theorem completes_iff (srv : Lang) (stdin : List Byte) :
    ((∃ schedule, .done ∈ ((pair .rust srv).run (.start stdin) schedule).2) ↔
      ∀ line ∈ lines (ch '\n') stdin, validUtf8 line = true ∧ ch '\n' ∈ line) ∧
    ((∀ schedule, ∃ rest, WaitForEachOther .rust srv ((pair .rust srv).run (.start stdin) (schedule ++ rest)).1) ↔
      Unended stdin) := by
  refine ⟨?_, waits_iff srv stdin⟩
  rw [← done_mem_transcript srv]
  constructor
  · rintro ⟨schedule, hdone⟩
    obtain ⟨todo, htodo, -⟩ := phase_run .rust srv stdin schedule
    rw [htodo]
    exact List.mem_append_left todo hdone
  · intro hdone
    obtain ⟨rest, hrest⟩ := exists_printed .rust srv stdin []
    exact ⟨[] ++ rest, by rw [hrest]; exact hdone⟩

end SysSnippets.Tcp.LineClients
