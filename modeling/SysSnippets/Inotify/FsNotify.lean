import SysSnippets.Lib.Loop
import SysSnippets.Lib.Words

/-!
# The event loop of `fs_notify.c`

* `InotifyEvent`, `encode` : what the kernel stores for a list of events;
* `parse` : the loop over the events of a read;
* `trace` : what it does on an encoding (`parse_encode`, `parse_events`).
-/

namespace SysSnippets.Inotify
open SysSnippets.Lib

/-- `sizeof(events)` -/
def EVENTS_SIZE : Nat := 4096

/-- `sizeof(struct inotify_event)`, of which `name` is no part -/
def EVENT_SIZE : Nat := 16

def IN_ACCESS : U32 := 0x1
def IN_MODIFY : U32 := 0x2
def IN_CLOSE_WRITE : U32 := 0x8
def IN_CLOSE_NOWRITE : U32 := 0x10
def IN_CLOSE : U32 := IN_CLOSE_WRITE ||| IN_CLOSE_NOWRITE
def IN_OPEN : U32 := 0x20
def IN_CREATE : U32 := 0x100
def IN_DELETE : U32 := 0x200
def IN_ISDIR : U32 := 0x40000000

/-- The names of a mask, in the order in which they are printed. -/
def FLAGS : List (U32 × List Char) :=
  [(IN_ISDIR, ['I', 'S', 'D', 'I', 'R', ' ']), (IN_ACCESS, ['A', 'C', 'C', 'E', 'S', 'S', ' ']),
    (IN_OPEN, ['O', 'P', 'E', 'N', ' ']), (IN_MODIFY, ['M', 'O', 'D', 'I', 'F', 'Y', ' ']),
    (IN_CREATE, ['C', 'R', 'E', 'A', 'T', 'E', ' ']), (IN_DELETE, ['D', 'E', 'L', 'E', 'T', 'E', ' ']),
    (IN_CLOSE, ['C', 'L', 'O', 'S', 'E', ' '])]

def flags (mask : U32) : List Byte :=
  FLAGS.flatMap fun flag => if mask &&& flag.1 ≠ 0 then flag.2.map ch else []

/-- `struct inotify_event`; `name` with its padding, `len` is its length. -/
structure InotifyEvent where
  wd : U32
  mask : U32
  cookie : U32
  name : List Byte
  deriving DecidableEq

def InotifyEvent.bytes (e : InotifyEvent) : List Byte :=
  wordBytes e.wd ++ wordBytes e.mask ++ wordBytes e.cookie ++ wordBytes (BitVec.ofNat 32 e.name.length) ++ e.name

def encode (es : List InotifyEvent) : List Byte := es.flatMap InotifyEvent.bytes

/-- The two lines printed for an event. -/
structure Report where
  number : Nat
  wd : U32
  mask : U32
  flags : List Byte
  deriving DecidableEq

inductive Obs
  /-- the header at this index of `events` is read -/
  | header (i : Nat)
  | report (r : Report)
  /-- the header is not in `events` -/
  | outside
  deriving DecidableEq

/-- The loop over the events of a read of `len` bytes. The state is `i` and `j`. The size of an event is added to `i` as
a `size_t`, and the sum cut to an `int`. -/
def parse (events : Nat → Byte) (len : Int) : Loop (U32 × Nat) Obs where
  step s :=
    if s.1.toInt < len then
      if 0 ≤ s.1.toInt ∧ s.1.toInt + EVENT_SIZE ≤ EVENTS_SIZE then
        let i := s.1.toNat
        let mask := wordAt events (i + 4)
        ([.header i, .report ⟨s.2 + 1, wordAt events i, mask, flags mask⟩],
          some (s.1 + (BitVec.ofNat 32 EVENT_SIZE + wordAt events (i + 12)), s.2 + 1))
      else ([.outside], none)
    else ([], none)

/-! ## On an encoding -/

/-- What the loop does from index `i` on, with `j` events reported before. -/
def trace (i j : Nat) : List InotifyEvent → List Obs
  | [] => []
  | e :: es =>
      .header i :: .report ⟨j + 1, e.wd, e.mask, flags e.mask⟩ :: trace (i + EVENT_SIZE + e.name.length) (j + 1) es

theorem length_bytes (e : InotifyEvent) : e.bytes.length = EVENT_SIZE + e.name.length := by
  unfold InotifyEvent.bytes EVENT_SIZE
  simp only [List.length_append, length_wordBytes]

theorem length_encode_cons (e : InotifyEvent) (es : List InotifyEvent) :
    (encode (e :: es)).length = EVENT_SIZE + e.name.length + (encode es).length := by
  unfold encode
  rw [List.flatMap_cons, List.length_append, length_bytes]

theorem fields_at {events : Nat → Byte} {i : Nat} {e : InotifyEvent} (h : Holds events i e.bytes) :
    wordAt events i = e.wd ∧ wordAt events (i + 4) = e.mask ∧
      wordAt events (i + 12) = BitVec.ofNat 32 e.name.length := by
  unfold InotifyEvent.bytes at h
  simp only [holds_append, List.length_append, length_wordBytes] at h
  obtain ⟨⟨⟨⟨hwd, hmask⟩, -⟩, hlen⟩, -⟩ := h
  exact ⟨wordAt_wordBytes hwd, wordAt_wordBytes hmask, wordAt_wordBytes hlen⟩

/-- An index that fits is not negative as an `int`. -/
theorem toInt_index {i : Nat} (h : i ≤ EVENTS_SIZE) :
    (BitVec.ofNat 32 i).toInt = i ∧ (BitVec.ofNat 32 i).toNat = i := by
  unfold EVENTS_SIZE at h
  have hnat : (BitVec.ofNat 32 i).toNat = i := by
    rw [BitVec.toNat_ofNat, Nat.mod_eq_of_lt (by omega)]
  refine ⟨?_, hnat⟩
  rw [BitVec.toInt_eq_toNat_of_lt (by omega), hnat]

theorem step_event {events : Nat → Byte} {i : Nat} (j : Nat) (len : Int) {e : InotifyEvent} (h : Holds events i e.bytes)
    (hfit : i + e.bytes.length ≤ EVENTS_SIZE) (hlen : i < len) :
    (parse events len).step (BitVec.ofNat 32 i, j) =
      ([.header i, .report ⟨j + 1, e.wd, e.mask, flags e.mask⟩],
        some (BitVec.ofNat 32 (i + EVENT_SIZE + e.name.length), j + 1)) := by
  rw [length_bytes] at hfit
  obtain ⟨hint, hnat⟩ := toInt_index (i := i) (by omega)
  obtain ⟨hwd, hmask, hname⟩ := fields_at h
  unfold parse
  dsimp only
  rw [hint, hnat, if_pos hlen, if_pos (by omega), hwd, hmask, hname, ← BitVec.ofNat_add, ← BitVec.ofNat_add,
    ← Nat.add_assoc]

/-- The rest of the encoding is at `i`, and the read ended where it ends. -/
theorem parse_encode {events : Nat → Byte} {len : Nat} (es : List InotifyEvent) (i j : Nat)
    (h : Holds events i (encode es)) (hlen : i + (encode es).length = len) (hfit : len ≤ EVENTS_SIZE) :
    (parse events len).Ends (BitVec.ofNat 32 i, j) (trace i j es) := by
  induction es generalizing i j with
  | nil =>
      apply Loop.Ends.left
      unfold parse
      dsimp only
      rw [(toInt_index (i := i) (by omega)).1, if_neg]
      · rfl
      · rw [← hlen]
        simp [encode]
  | cons e es ih =>
      rw [length_encode_cons] at hlen
      obtain ⟨hevent, hrest⟩ := holds_append.1 (show Holds events i (e.bytes ++ encode es) from h)
      rw [length_bytes, ← Nat.add_assoc] at hrest
      have hstep := step_event j len hevent (by rw [length_bytes]; omega)
        (by unfold EVENT_SIZE at hlen; omega)
      exact Loop.Ends.next hstep (ih _ (j + 1) hrest (by omega))

/-! ## What is reported -/

def reported (t : List Obs) : List Report := t.filterMap fun | .report r => some r | _ => none

/-- One report for each event, numbered from 1, with its own `wd` and `mask`. -/
def reports (es : List InotifyEvent) : List Report :=
  (es.zipIdx 1).map fun e => ⟨e.2, e.1.wd, e.1.mask, flags e.1.mask⟩

theorem reported_trace (es : List InotifyEvent) (i j : Nat) :
    reported (trace i j es) = (es.zipIdx (j + 1)).map fun e => ⟨e.2, e.1.wd, e.1.mask, flags e.1.mask⟩ := by
  induction es generalizing i j with
  | nil => rfl
  | cons e es ih =>
      rw [List.zipIdx_cons, List.map_cons, ← ih (i + EVENT_SIZE + e.name.length) (j + 1)]
      rfl

/-- All headers read are in the encoding. -/
theorem header_trace (es : List InotifyEvent) (i j : Nat) {k : Nat} (h : .header k ∈ trace i j es) :
    k + EVENT_SIZE ≤ i + (encode es).length := by
  induction es generalizing i j with
  | nil => cases h
  | cons e es ih =>
      rw [length_encode_cons]
      rw [trace, List.mem_cons, List.mem_cons] at h
      rcases h with h | h | h
      · cases h
        omega
      · cases h
      · have := ih _ _ h
        omega

theorem outside_trace (es : List InotifyEvent) (i j : Nat) : .outside ∉ trace i j es := by
  induction es generalizing i j with
  | nil => exact List.not_mem_nil
  | cons e es ih => simpa [trace] using ih _ _

/-- For every list of events that fits, whatever the buffer held before: the loop ends, reports these events in order,
and reads headers only in the bytes of the read. -/
theorem parse_events (heap : Nat → Byte) (es : List InotifyEvent) (hfit : (encode es).length ≤ EVENTS_SIZE) :
    ∃ t, (parse (write heap (bytesAt 0 (encode es))) (encode es).length).Ends (0, 0) t ∧ reported t = reports es ∧
      (∀ i, .header i ∈ t → i + EVENT_SIZE ≤ (encode es).length) ∧ .outside ∉ t := by
  refine ⟨trace 0 0 es, ?_, reported_trace es 0 0, fun i hi => ?_, outside_trace es 0 0⟩
  · exact parse_encode es 0 0 (holds_write heap 0 (encode es)) (Nat.zero_add _) hfit
  · have := header_trace es 0 0 hi
    omega

/-- A named event between two without names. -/
theorem parse_named :
    let es : List InotifyEvent := [⟨1, 0x20, 0, []⟩, ⟨1, 0x100, 7, [97, 0, 0, 0]⟩, ⟨2, 0x8, 0, []⟩]
    ∃ t, (parse (write (fun _ => 0xff) (bytesAt 0 (encode es))) (encode es).length).Ends (0, 0) t ∧
      reported t = reports es ∧ (∀ i, .header i ∈ t → i + EVENT_SIZE ≤ (encode es).length) ∧ .outside ∉ t :=
  parse_events _ _ (by decide)

end SysSnippets.Inotify
