import SysSnippets.Lib.Loop
import SysSnippets.Rtnetlink.EthMonitor

/-!
# What the loop over netlink messages in `eth_monitor.c` reads

* `messages` : the loop, with the parts of the buffer that it touches;
* `Begins` : where a message of the datagram begins that the loop may reach;
* `contained_iff` : when the loop keeps inside the messages.
-/

namespace SysSnippets.Rtnetlink
open SysSnippets.Lib

inductive Touch
  /-- `NLMSG_OK` looks at the header -/
  | header (nh : Nat)
  /-- the body of the loop is entered -/
  | visit (nh : Nat)
  /-- `ifi_index` is read -/
  | index (nh : Nat)
  deriving DecidableEq

section Messages
variable (buff : Nat → Byte)

/-- The types that end the program. -/
def Closing (nh : Nat) : Prop := nlmsgType buff nh = NLMSG_DONE ∨ nlmsgType buff nh = NLMSG_ERROR

instance (nh : Nat) : Decidable (Closing buff nh) := inferInstanceAs (Decidable (_ ∨ _))

/-- The loop of `waitForEvent`. The state is `nh` and `len`. -/
def messages : Loop (Nat × Int) Touch where
  step s :=
    if s.2 < NLMSG_HDRLEN then ([], none)
    else if NlmsgOk buff s.1 s.2 then
      if Closing buff s.1 then ([.header s.1, .visit s.1], none)
      else
        ([.header s.1, .visit s.1, .index s.1],
          some (s.1 + nlmsgAlign (nlmsgLen buff s.1), s.2 - nlmsgAlign (nlmsgLen buff s.1)))
    else ([.header s.1], none)

/-- The bytes behind `ifi_index` in a message. -/
def INDEX_END : Nat := NLMSG_HDRLEN + 8

def visits (t : List Touch) : List Nat := t.filterMap fun | .visit nh => some nh | _ => none

/-- What the loop touches is in the first `len` bytes and in the message it belongs to. -/
structure Contained (len : Nat) (t : List Touch) : Prop where
  header : ∀ nh, .header nh ∈ t → nh + NLMSG_HDRLEN ≤ len
  visit : ∀ nh, .visit nh ∈ t → nh + NLMSG_HDRLEN ≤ len
  increasing : (visits t).Pairwise (· < ·)
  index : ∀ nh, .index nh ∈ t → INDEX_END ≤ nlmsgLen buff nh ∧ nh + INDEX_END ≤ len

/-- A message begins here, behind complete ones that do not end the program. -/
inductive Begins (len : Nat) : Nat → Prop
  | first : Begins len 0
  | next {nh : Nat} : Begins len nh → NlmsgOk buff nh (len - nh) → ¬Closing buff nh →
      Begins len (nh + nlmsgAlign (nlmsgLen buff nh))

/-- Each such message that is complete, and does not end the program, has room for the interface index. -/
def Roomy (len : Nat) : Prop :=
  ∀ nh, Begins buff len nh → NlmsgOk buff nh (len - nh) → ¬Closing buff nh → INDEX_END ≤ nlmsgLen buff nh

variable {buff}
variable {len : Nat} {s s' : Nat × Int} {t : List Touch} {nh : Nat}

/-! ## One iteration -/

theorem step_short (h : s.2 < NLMSG_HDRLEN) : (messages buff).step s = ([], none) := if_pos h

theorem step_ok (h : NlmsgOk buff s.1 s.2) :
    (messages buff).step s =
      if Closing buff s.1 then ([.header s.1, .visit s.1], none)
      else
        ([.header s.1, .visit s.1, .index s.1],
          some (s.1 + nlmsgAlign (nlmsgLen buff s.1), s.2 - nlmsgAlign (nlmsgLen buff s.1))) := by
  have hlen := h.1
  exact (if_neg (by omega)).trans (if_pos h)

theorem step_incomplete (hlen : ¬s.2 < NLMSG_HDRLEN) (h : ¬NlmsgOk buff s.1 s.2) :
    (messages buff).step s = ([.header s.1], none) := (if_neg hlen).trans (if_neg h)

theorem step_closing (h : NlmsgOk buff s.1 s.2) (hclosing : Closing buff s.1) :
    (messages buff).step s = ([.header s.1, .visit s.1], none) := by
  rw [step_ok h, if_pos hclosing]

theorem step_next (h : NlmsgOk buff s.1 s.2) (hclosing : ¬Closing buff s.1) :
    (messages buff).step s =
      ([.header s.1, .visit s.1, .index s.1],
        some (s.1 + nlmsgAlign (nlmsgLen buff s.1), s.2 - nlmsgAlign (nlmsgLen buff s.1))) := by
  rw [step_ok h, if_neg hclosing]

/-- An iteration that goes on: what it found, and where it goes. -/
theorem messages_next (h : (messages buff).step s = (t, some s')) :
    NlmsgOk buff s.1 s.2 ∧ ¬Closing buff s.1 ∧ t = [.header s.1, .visit s.1, .index s.1] ∧
      s' = (s.1 + nlmsgAlign (nlmsgLen buff s.1), s.2 - nlmsgAlign (nlmsgLen buff s.1)) := by
  unfold messages at h
  dsimp only at h
  split_ifs at h with hlen hok hclosing
  all_goals cases h
  exact ⟨hok, hclosing, rfl, rfl⟩

theorem header_mem : .header nh ∈ ((messages buff).step s).1 ↔ nh = s.1 ∧ NLMSG_HDRLEN ≤ s.2 := by
  unfold messages
  dsimp only
  split_ifs <;> simp <;> omega

theorem visit_mem : .visit nh ∈ ((messages buff).step s).1 ↔ nh = s.1 ∧ NlmsgOk buff s.1 s.2 := by
  unfold messages
  dsimp only
  split_ifs with hlen hok hclosing
  · have hno : ¬NlmsgOk buff s.1 s.2 := fun h => absurd h.1 (by omega)
    simp [hno]
  · simp [hok]
  · simp [hok]
  · simp [hok]

theorem index_mem :
    .index nh ∈ ((messages buff).step s).1 ↔ nh = s.1 ∧ NlmsgOk buff s.1 s.2 ∧ ¬Closing buff s.1 := by
  unfold messages
  dsimp only
  split_ifs with hlen hok hclosing
  · have hno : ¬NlmsgOk buff s.1 s.2 := fun h => absurd h.1 (by omega)
    simp [hno]
  · simp [hclosing]
  · simp [hok, hclosing]
  · simp [hok]

theorem visits_step : visits ((messages buff).step s).1 = if NlmsgOk buff s.1 s.2 then [s.1] else [] := by
  by_cases hok : NlmsgOk buff s.1 s.2
  · rw [if_pos hok, step_ok hok]
    split_ifs
    · rfl
    · rfl
  · rw [if_neg hok]
    by_cases hlen : s.2 < NLMSG_HDRLEN
    · rw [step_short hlen]
      rfl
    · rw [step_incomplete hlen hok]
      rfl

theorem visits_append (t u : List Touch) : visits (t ++ u) = visits t ++ visits u := List.filterMap_append

/-- A message takes some bytes. -/
theorem nlmsgAlign_pos {len : Int} (h : NlmsgOk buff nh len) : 0 < nlmsgAlign (nlmsgLen buff nh) := by
  have hhdr := h.2.1
  unfold NLMSG_HDRLEN at hhdr
  unfold nlmsgAlign
  omega

/-! ## The whole loop -/

theorem messages_ends (buff : Nat → Byte) (s : Nat × Int) : ∃ t, (messages buff).Ends s t := by
  apply Loop.ends_of_decreasing (μ := fun s => s.2.toNat)
  intro s t s' h
  obtain ⟨hok, -, -, rfl⟩ := messages_next h
  exact walk_decreasing buff hok

/-- Where the iterations start. -/
theorem reaches_iff : (messages buff).Reaches (0, (len : Int)) s ↔ Begins buff len s.1 ∧ s.2 = len - s.1 := by
  constructor
  · intro h
    apply h.inv (J := fun s : Nat × Int => Begins buff len s.1 ∧ s.2 = len - s.1)
    · exact ⟨.first, by simp⟩
    · rintro s t s' ⟨hbegins, hlen⟩ hstep
      obtain ⟨hok, hclosing, -, rfl⟩ := messages_next hstep
      rw [hlen] at hok ⊢
      refine ⟨.next hbegins hok hclosing, ?_⟩
      rw [Int.natCast_add]
      omega
  · obtain ⟨nh, rest⟩ := s
    rintro ⟨hbegins, hrest⟩
    dsimp only at hbegins hrest
    subst hrest
    induction hbegins with
    | first =>
        rw [show ((0, (len : Int) - (0 : Nat)) : Nat × Int) = (0, (len : Int)) by simp]
        exact Loop.Reaches.refl _
    | @next nh _ hok hclosing ih =>
        have hstep := step_next (s := (nh, len - nh)) hok hclosing
        rw [Int.sub_sub, ← Int.natCast_add] at hstep
        exact ih.snoc hstep

/-- The messages are visited at increasing offsets. -/
theorem increasing_visits (h : (messages buff).Ends s t) : (visits t).Pairwise (· < ·) := by
  have hinv := h.inv (J := fun t r => (visits t).Pairwise (· < ·) ∧ ∀ s', r = some s' → ∀ nh ∈ visits t, nh < s'.1)
    ⟨List.Pairwise.nil, fun _ _ nh hnh => absurd hnh List.not_mem_nil⟩ fun t s' hinv => ?_
  · exact hinv.1
  · obtain ⟨hpair, hlt⟩ := hinv
    have hbelow := hlt s' rfl
    rw [visits_append, visits_step]
    refine ⟨?_, fun s'' hs'' nh hnh => ?_⟩
    · rw [List.pairwise_append]
      split_ifs
      · simpa using ⟨hpair, hbelow⟩
      · simpa using hpair
    · obtain ⟨hok, -, -, rfl⟩ := messages_next (Prod.ext rfl hs'')
      have hsize := nlmsgAlign_pos hok
      rw [if_pos hok, List.mem_append, List.mem_singleton] at hnh
      dsimp only
      rcases hnh with hnh | hnh
      · have := hbelow nh hnh
        omega
      · omega

/-- An index that is read is in a message of the datagram; it is in the message's own bytes if these are enough. -/
theorem index_iff (h : (messages buff).Ends (0, (len : Int)) t) :
    .index nh ∈ t ↔ Begins buff len nh ∧ NlmsgOk buff nh (len - nh) ∧ ¬Closing buff nh := by
  rw [h.mem_iff]
  constructor
  · rintro ⟨s, hs, hmem⟩
    obtain ⟨hbegins, hlen⟩ := reaches_iff.1 hs
    obtain ⟨rfl, hok, hclosing⟩ := index_mem.1 hmem
    rw [hlen] at hok
    exact ⟨hbegins, hok, hclosing⟩
  · rintro ⟨hbegins, hok, hclosing⟩
    exact ⟨(nh, len - nh), reaches_iff.2 ⟨hbegins, rfl⟩, index_mem.2 ⟨rfl, hok, hclosing⟩⟩

theorem header_bound (h : (messages buff).Ends (0, (len : Int)) t) (hmem : .header nh ∈ t) :
    nh + NLMSG_HDRLEN ≤ len := by
  obtain ⟨s, hs, hmem⟩ := h.mem_iff.1 hmem
  obtain ⟨-, hlen⟩ := reaches_iff.1 hs
  obtain ⟨rfl, hle⟩ := header_mem.1 hmem
  omega

theorem visit_bound (h : (messages buff).Ends (0, (len : Int)) t) (hmem : .visit nh ∈ t) :
    nh + NLMSG_HDRLEN ≤ len := by
  obtain ⟨s, hs, hmem⟩ := h.mem_iff.1 hmem
  obtain ⟨-, hlen⟩ := reaches_iff.1 hs
  obtain ⟨rfl, hok⟩ := visit_mem.1 hmem
  have hle := hok.1
  omega

variable (buff len) in
/-- For every content of the buffer and every length the loop ends, having visited headers in the bytes received, at
increasing offsets. The interface indices it reads are in their messages exactly if these have room for one. -/
theorem contained_iff :
    (∃ t, (messages buff).Ends (0, (len : Int)) t ∧ (∀ nh, .header nh ∈ t → nh + NLMSG_HDRLEN ≤ len) ∧
        (∀ nh, .visit nh ∈ t → nh + NLMSG_HDRLEN ≤ len) ∧ (visits t).Pairwise (· < ·)) ∧
      ((∃ t, (messages buff).Ends (0, (len : Int)) t ∧ Contained buff len t) ↔ Roomy buff len) := by
  obtain ⟨t, ht⟩ := messages_ends buff (0, (len : Int))
  refine ⟨⟨t, ht, fun nh => header_bound ht, fun nh => visit_bound ht, increasing_visits ht⟩, ?_⟩
  constructor
  · rintro ⟨u, hu, hcontained⟩ nh hbegins hok hclosing
    exact (hcontained.index nh ((index_iff hu).2 ⟨hbegins, hok, hclosing⟩)).1
  · intro hroomy
    refine ⟨t, ht, fun nh => header_bound ht, fun nh => visit_bound ht, increasing_visits ht, fun nh hmem => ?_⟩
    obtain ⟨hbegins, hok, hclosing⟩ := (index_iff ht).1 hmem
    have hroom := hroomy nh hbegins hok hclosing
    have hle := hok.2.2
    exact ⟨hroom, by omega⟩

end Messages

/-- A datagram that is one header, of a message without a body. -/
def bare : List Byte := [16, 0, 0, 0, 16, 0, 0, 0, 0, 0, 0, 0, 0, 0, 0, 0]

/-- The interface index of such a message is read behind the datagram. -/
theorem bare_not_contained :
    ¬∃ t, (messages (stored (fun _ => 0) bare)).Ends (0, ((16 : Nat) : Int)) t ∧
      Contained (stored (fun _ => 0) bare) 16 t := by
  rintro ⟨t, ht, hcontained⟩
  have hmem : Touch.index 0 ∈ t := (index_iff ht).2 ⟨.first, by decide, by decide⟩
  have hroom := (hcontained.index 0 hmem).2
  unfold INDEX_END NLMSG_HDRLEN at hroom
  omega

/-! ## The loop of the whole function -/

def indices (t : List Touch) : List Nat := t.filterMap fun | .index nh => some nh | _ => none

/-- The interface index and the type that are printed for a message. -/
def printed : Obs → Option (U32 × Nat)
  | .event _ index type => some (index, type)
  | _ => none

theorem printed_getIfname (a : Answers) : (getIfname a).2.filterMap printed = [] := by
  obtain ⟨socket, name, strdup⟩ := a
  cases socket <;> cases name <;> cases strdup <;> rfl

/-- The loop of `waitForEvent` prints what is read of the messages, in order, while it stays in the buffer. -/
theorem printed_walk (buff : Nat → Byte) (answers : Nat → Answers) (n nh : Nat) (len : Int)
    (h : (walk buff answers n nh len).1 ≠ .undefined) :
    ∃ t, (messages buff).Ends (nh, len) t ∧
      (walk buff answers n nh len).2.filterMap printed =
        (indices t).map fun nh => (ifiIndex buff nh, nlmsgType buff nh) := by
  fun_induction walk buff answers n nh len with
  | case1 n nh len hok hdone => exact ⟨_, Loop.Ends.left (step_closing hok (Or.inl hdone)), rfl⟩
  | case2 n nh len hok _ herror => exact ⟨_, Loop.Ends.left (step_closing hok (Or.inr herror)), rfl⟩
  | case3 => exact absurd rfl h
  | case4 n nh len hok hdone herror _ name obs hget rest ih =>
      obtain ⟨t, ht, hprinted⟩ := ih h
      refine ⟨_, Loop.Ends.next (step_next hok (not_or.2 ⟨hdone, herror⟩)) ht, ?_⟩
      have hquiet := printed_getIfname (answers n)
      rw [hget] at hquiet
      rw [List.filterMap_append, hquiet, List.nil_append, List.filterMap_cons]
      exact congrArg _ hprinted
  | case5 n nh len hok =>
      by_cases hlen : len < NLMSG_HDRLEN
      · exact ⟨_, Loop.Ends.left (step_short hlen), rfl⟩
      · exact ⟨_, Loop.Ends.left (step_incomplete hlen hok), rfl⟩

end SysSnippets.Rtnetlink
