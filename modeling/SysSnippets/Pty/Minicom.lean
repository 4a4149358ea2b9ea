import SysSnippets.Lib.Machine
import SysSnippets.Lib.Text
import Mathlib.Data.List.Basic

/-!
# The pty bridge of `minicom_tty.c`

Bytes that arrive on the master pty go out on the serial line, and back. One step is one turn of `while(1)`; what
`select`, `read` and `write` return is the input.

* `forward` : a read into `line`, and the write of `strlen(line)` bytes of it;
* `minicom` : the loop;
* `bridge_iff` : when what is written is what was read, and when `strlen` keeps to what was read.
-/

namespace SysSnippets.Pty
open SysSnippets.Lib

def STR_LEN : Nat := 100

/-- `fdm` and `tty`. -/
inductive Side
  | pty
  | tty
  deriving DecidableEq

def Side.other : Side → Side
  | .pty => .tty
  | .tty => .pty

inductive Write
  | failed
  /-- it accepts all bytes it is given -/
  | all
  | short (n : Nat)

/-- What a turn gets from its calls. `data` is what `read` returns for the descriptor that the turn reads. -/
inductive Select
  | timeout
  | interrupted
  | failed
  | ready (fdm tty : Bool) (data : Option (List Byte)) (write : Write)

/-- `line`, and whether the process has not stopped. -/
structure Minicom where
  line : List Byte
  running : Bool

inductive Obs
  | read (side : Side) (bytes : List Byte)
  /-- `strlen(line)` and the `%s` around it: how many bytes the read stored, and how many are examined, unless the
  end of `line` is passed -/
  | strlen (stored : Nat) (examined : Option Nat)
  | write (side : Side) (bytes : List Byte)

/-- `bzero(line, sizeof(line))` -/
def bzero : List Byte := List.replicate STR_LEN 0

/-- One branch of the loop. A `strlen` that finds no NUL in `line` is the end of what C defines. -/
def forward (s : Minicom) (side : Side) (data : List Byte) (write : Write) : Minicom × List Obs :=
  let line := data ++ s.line.drop data.length
  if 0 ∈ line then
    let examined := .strlen data.length (some ((cstr line).length + 1))
    match write with
    | .failed => (⟨line, false⟩, [.read side data, examined])
    | .all => (⟨bzero, true⟩, [.read side data, examined, .write side.other (cstr line)])
    | .short n => (⟨bzero, true⟩, [.read side data, examined, .write side.other ((cstr line).take n)])
  else (⟨line, false⟩, [.read side data, .strlen data.length none])

/-- The descriptor that a turn reads: the master pty comes first. -/
def Select.readable : Select → Option (Side × Option (List Byte) × Write)
  | .ready true _ data write => some (.pty, data, write)
  | .ready false true data write => some (.tty, data, write)
  | _ => none

def minicom : Machine Minicom Select Obs where
  step s i :=
    if s.running then
      match i.readable with
      | none => (⟨s.line, match i with | .failed => false | _ => true⟩, [])
      | some (_, none, _) => (⟨s.line, false⟩, [])
      | some (side, some data, write) => forward s side data write
    else (s, [])

/-- The start of the loop. Nothing has set `line` yet. -/
def boot (line : Fin STR_LEN → Byte) : Minicom := ⟨List.ofFn line, true⟩

/-- A read gives 1 to 100 bytes, and a write accepts all it is given. -/
def Select.Ordinary (i : Select) : Prop :=
  ∀ side data write, i.readable = some (side, some data, write) →
    0 < data.length ∧ data.length ≤ STR_LEN ∧ write = .all

/-- What the turn reads. -/
def Minicom.reads (s : Minicom) (i : Select) : Option (List Byte) :=
  if s.running then i.readable.bind fun r => r.2.1 else none

/-! ## What the bridge is for -/

def received (side : Side) (h : List Obs) : List Byte :=
  h.flatMap fun
    | .read source bytes => if source = side then bytes else []
    | _ => []

def sent (side : Side) (h : List Obs) : List Byte :=
  h.flatMap fun
    | .write target bytes => if target = side then bytes else []
    | _ => []

/-- What was written to each side is what was read from the other. -/
def Transparent (h : List Obs) : Prop := ∀ side, sent side.other h = received side h

/-- Only bytes that the read stored are examined. -/
def Obs.Stored : Obs → Prop
  | .strlen stored examined => ∃ n, examined = some n ∧ n ≤ stored
  | _ => True

/-- The text that `strlen` finds is what was just read. -/
def Exact (m : Minicom × Select) : Prop :=
  ∀ data, m.1.reads m.2 = some data → (0 : Byte) ∉ data ∧ (m.1.line.drop data.length).head? = some 0

/-- What was just read has a NUL. -/
def Ended (m : Minicom × Select) : Prop :=
  ∀ data, m.1.reads m.2 = some data → (0 : Byte) ∈ data

/-! ## Strings that end in a chunk, or behind it -/

theorem cstr_append_of_mem {data : List Byte} (rest : List Byte) (h : (0 : Byte) ∈ data) :
    cstr (data ++ rest) = cstr data ∧ (cstr data).length < data.length := by
  induction data with
  | nil => simp at h
  | cons b data ih =>
      by_cases hb : b = 0
      · simp [cstr, hb]
      · have hmem : (0 : Byte) ∈ data := by simpa [Ne.symm hb] using h
        simpa [cstr, hb] using ih hmem

theorem cstr_append_of_not_mem {data rest : List Byte} (h : (0 : Byte) ∉ data) :
    cstr (data ++ rest) = data ++ cstr rest := by
  unfold cstr
  apply List.takeWhile_append_of_pos
  intro b hb
  simpa using fun he : b = 0 => h (he ▸ hb)

theorem zero_not_mem_cstr (l : List Byte) : (0 : Byte) ∉ cstr l := by
  intro h
  simpa using List.mem_takeWhile_imp h

theorem cstr_eq_left_iff {data rest : List Byte} :
    (0 ∈ data ++ rest ∧ cstr (data ++ rest) = data) ↔ (0 : Byte) ∉ data ∧ rest.head? = some 0 := by
  constructor
  · rintro ⟨hmem, heq⟩
    have hdata : (0 : Byte) ∉ data := heq ▸ zero_not_mem_cstr (data ++ rest)
    refine ⟨hdata, ?_⟩
    rw [cstr_append_of_not_mem hdata] at heq
    cases rest with
    | nil => simp [hdata] at hmem
    | cons b rest => simpa [cstr] using heq
  · rintro ⟨hdata, hhead⟩
    obtain ⟨rest, rfl⟩ := List.head?_eq_some_iff.1 hhead
    exact ⟨by simp, cstr_append_zero hdata⟩

/-! ## A turn -/

theorem sent_append (side : Side) (h₁ h₂ : List Obs) : sent side (h₁ ++ h₂) = sent side h₁ ++ sent side h₂ :=
  List.flatMap_append

theorem received_append (side : Side) (h₁ h₂ : List Obs) :
    received side (h₁ ++ h₂) = received side h₁ ++ received side h₂ :=
  List.flatMap_append

/-- What a turn shows. -/
theorem step_shows (s : Minicom) {i : Select} (hi : i.Ordinary) :
    (s.reads i = none ∧ (minicom.step s i).2 = []) ∨
      ∃ side data, s.reads i = some data ∧ 0 < data.length ∧
        (minicom.step s i).2 = (forward s side data .all).2 := by
  unfold minicom Minicom.reads
  by_cases hrunning : s.running = true
  · simp only [hrunning, if_true]
    cases hread : i.readable with
    | none => exact Or.inl ⟨rfl, rfl⟩
    | some r =>
        obtain ⟨side, _ | data, write⟩ := r
        · exact Or.inl ⟨rfl, rfl⟩
        · obtain ⟨hpos, -, rfl⟩ := hi side data write hread
          exact Or.inr ⟨side, data, rfl, hpos, rfl⟩
  · exact Or.inl (by simp [hrunning])

theorem forward_shows (s : Minicom) (side : Side) (data : List Byte) :
    (forward s side data .all).2 =
      if 0 ∈ data ++ s.line.drop data.length then
        [.read side data, .strlen data.length (some ((cstr (data ++ s.line.drop data.length)).length + 1)),
          .write side.other (cstr (data ++ s.line.drop data.length))]
      else [.read side data, .strlen data.length none] := by
  unfold forward
  dsimp only
  split_ifs <;> rfl

theorem transparent_forward (s : Minicom) (side : Side) {data : List Byte} (hpos : 0 < data.length) :
    Transparent (forward s side data .all).2 ↔ (0 : Byte) ∉ data ∧ (s.line.drop data.length).head? = some 0 := by
  rw [← cstr_eq_left_iff, forward_shows]
  split_ifs with hmem
  · rw [and_iff_right hmem]
    constructor
    · intro h
      simpa [sent, received] using h side
    · intro h source
      rw [h]
      cases side <;> cases source <;> simp [sent, received, Side.other]
  · refine iff_of_false (fun h => ?_) (fun h => hmem h.1)
    have hnil : data = [] := by simpa [sent, received] using h side
    exact List.ne_nil_of_length_pos hpos hnil

theorem stored_forward (s : Minicom) (side : Side) (data : List Byte) :
    (∀ o ∈ (forward s side data .all).2, o.Stored) ↔ (0 : Byte) ∈ data := by
  rw [forward_shows]
  by_cases hdata : (0 : Byte) ∈ data
  · obtain ⟨heq, hlt⟩ := cstr_append_of_mem (s.line.drop data.length) hdata
    rw [if_pos (List.mem_append_left _ hdata), heq]
    refine iff_of_true ?_ hdata
    simpa [Obs.Stored] using Nat.succ_le_of_lt hlt
  · refine iff_of_false (fun h => ?_) hdata
    split_ifs at h
    · have hlt : data.length < (data ++ cstr (s.line.drop data.length)).length + 1 := by
        rw [List.length_append]
        omega
      rw [cstr_append_of_not_mem hdata] at h
      obtain ⟨n, hn, hle⟩ := h (.strlen _ _) (List.mem_cons_of_mem _ List.mem_cons_self)
      obtain rfl := Option.some.inj hn
      omega
    · simp [Obs.Stored] at h

theorem transparent_step (s : Minicom) {i : Select} (hi : i.Ordinary) :
    Transparent (minicom.step s i).2 ↔ Exact (s, i) := by
  obtain ⟨hread, hstep⟩ | ⟨side, data, hread, hpos, hstep⟩ := step_shows s hi
  · rw [hstep]
    refine iff_of_true (fun _ => rfl) ?_
    intro data hdata
    rw [hread] at hdata
    exact nomatch hdata
  · rw [hstep, transparent_forward s side hpos]
    simp [Exact, hread]

theorem stored_step (s : Minicom) {i : Select} (hi : i.Ordinary) :
    (∀ o ∈ (minicom.step s i).2, o.Stored) ↔ Ended (s, i) := by
  obtain ⟨hread, hstep⟩ | ⟨side, data, hread, -, hstep⟩ := step_shows s hi
  · simp [hstep, Ended, hread]
  · rw [hstep, stored_forward]
    simp [Ended, hread]

/-! ## Runs -/

section Runs
variable (line : Fin STR_LEN → Byte)

/-- The bridge is transparent after each turn of a run. -/
def TransparentRun (is : List Select) : Prop := ∀ js, js <+: is → Transparent (minicom.run (boot line) js).2

theorem transparentRun_snoc {is : List Select} {i : Select} (hi : i.Ordinary) :
    TransparentRun line (is ++ [i]) ↔
      TransparentRun line is ∧ Exact ((minicom.run (boot line) is).1, i) := by
  have hlast : (minicom.run (boot line) (is ++ [i])).2 =
      (minicom.run (boot line) is).2 ++ (minicom.step (minicom.run (boot line) is).1 i).2 := by
    rw [Machine.run_append, Machine.run_cons, Machine.run_nil, List.append_nil]
  have hstep : Transparent (minicom.run (boot line) is).2 →
      (Transparent (minicom.run (boot line) (is ++ [i])).2 ↔ Exact ((minicom.run (boot line) is).1, i)) := by
    intro h
    rw [hlast, ← transparent_step _ hi]
    apply forall_congr'
    intro side
    rw [sent_append, received_append, h side, List.append_cancel_left_eq]
  constructor
  · intro h
    have hbefore : TransparentRun line is := fun js hjs => h js (hjs.trans (List.prefix_append is [i]))
    exact ⟨hbefore, (hstep (hbefore is (List.prefix_refl is))).1 (h _ (List.prefix_refl _))⟩
  · rintro ⟨hbefore, hexact⟩ js hjs
    rcases List.prefix_concat_iff.1 hjs with rfl | hjs
    · exact (hstep (hbefore is (List.prefix_refl is))).2 hexact
    · exact hbefore js hjs

theorem transparentRun_iff {is : List Select} (his : ∀ i ∈ is, i.Ordinary) :
    TransparentRun line is ↔ ∀ m ∈ minicom.moments (boot line) is, Exact m := by
  induction is using List.reverseRec with
  | nil =>
      refine iff_of_true (fun js hjs => ?_) (by simp [Machine.moments])
      rw [List.prefix_nil.1 hjs]
      exact fun _ => rfl
  | append_singleton is i ih =>
      rw [transparentRun_snoc line (his i (by simp)), ih fun j hj => his j (List.mem_append_left _ hj),
        Machine.moments_snoc, List.forall_mem_append, List.forall_mem_singleton]

theorem storedRun_iff {is : List Select} (his : ∀ i ∈ is, i.Ordinary) :
    (∀ o ∈ (minicom.run (boot line) is).2, o.Stored) ↔ ∀ m ∈ minicom.moments (boot line) is, Ended m := by
  generalize boot line = s
  induction is generalizing s with
  | nil => simp [Machine.moments]
  | cons i is ih =>
      rw [Machine.run_cons, List.forall_mem_append, stored_step s (his i List.mem_cons_self),
        ih (fun j hj => his j (List.mem_cons_of_mem _ hj))]
      exact List.forall_mem_cons.symm

/-- What is written is what was read if each chunk is free of NULs and followed by one; `strlen` keeps to what was
read if each chunk has a NUL. So a run that reads anything fails one of the two. -/
theorem bridge_iff {is : List Select} (his : ∀ i ∈ is, i.Ordinary) :
    (TransparentRun line is ↔ ∀ m ∈ minicom.moments (boot line) is, Exact m) ∧
    ((∀ o ∈ (minicom.run (boot line) is).2, o.Stored) ↔ ∀ m ∈ minicom.moments (boot line) is, Ended m) ∧
    ((TransparentRun line is ∧ ∀ o ∈ (minicom.run (boot line) is).2, o.Stored) ↔
      ∀ m ∈ minicom.moments (boot line) is, m.1.reads m.2 = none) := by
  refine ⟨transparentRun_iff line his, storedRun_iff line his, ?_⟩
  rw [transparentRun_iff line his, storedRun_iff line his]
  constructor
  · rintro ⟨hexact, hended⟩ m hm
    rw [Option.eq_none_iff_forall_ne_some]
    intro data hdata
    exact (hexact m hm data hdata).1 (hended m hm data hdata)
  · intro h
    constructor
    all_goals
      intro m hm data hdata
      rw [h m hm] at hdata
      exact nomatch hdata

end Runs

theorem ordinary_ready {data : List Byte} (hpos : 0 < data.length) (hle : data.length ≤ STR_LEN) :
    (Select.ready true false (some data) .all).Ordinary := by
  rintro side data' write hread
  obtain ⟨rfl, rfl, rfl⟩ : Side.pty = side ∧ data = data' ∧ Write.all = write := by
    simpa [Select.readable] using hread
  exact ⟨hpos, hle, rfl⟩

/-- A read of three bytes from the master pty. -/
def chunk : List Select := [.ready true false (some [1, 0, 2]) .all]

theorem ordinary_chunk : ∀ i ∈ chunk, i.Ordinary := by
  intro i hi
  rw [List.mem_singleton.1 hi]
  exact ordinary_ready (by decide) (by decide)

theorem bridge_iff_chunk :
    (TransparentRun (fun _ => 0) chunk ↔ ∀ m ∈ minicom.moments (boot fun _ => 0) chunk, Exact m) ∧
    ((∀ o ∈ (minicom.run (boot fun _ => 0) chunk).2, o.Stored) ↔
      ∀ m ∈ minicom.moments (boot fun _ => 0) chunk, Ended m) ∧
    ((TransparentRun (fun _ => 0) chunk ∧ ∀ o ∈ (minicom.run (boot fun _ => 0) chunk).2, o.Stored) ↔
      ∀ m ∈ minicom.moments (boot fun _ => 0) chunk, m.1.reads m.2 = none) :=
  bridge_iff (fun _ => 0) ordinary_chunk

/-- A NUL ends what is forwarded of a chunk. -/
theorem not_transparent : (∀ i ∈ chunk, i.Ordinary) ∧ ¬ TransparentRun (fun _ => 0) chunk := by
  refine ⟨ordinary_chunk, fun h => ?_⟩
  have hpty := h _ (List.prefix_refl _) .pty
  revert hpty
  decide

end SysSnippets.Pty
