import SysSnippets.Lib.Ledger
import Mathlib.Data.List.TakeWhile
import Mathlib.Logic.Function.Basic

/-!
# Tables of connections

A server accepts connections, stores each in a free slot of a table or drops it, and closes what a slot holds.
Descriptors are handed out again once they are closed.

* `Event`, `State.step` : what happens to connections, and what it does to the table;
* `Legal`, `Path` : which event may come when, and the histories made of such events;
* `descriptors` : the ledger of the descriptors a history opens and closes;
* `life` : what happened to a connection since it was accepted;
* `Accounted`, `Path.accounted` : the table after a history accounts for every connection of it.
-/

namespace SysSnippets.Lib.Connections

/-- Something happens to connection `c`. -/
inductive Event (ι κ : Type*)
  | accepted (c : κ)
  | stored (i : ι) (c : κ)
  /-- closed instead of being stored -/
  | dropped (c : κ)
  | closed (i : ι) (c : κ)
  deriving DecidableEq

def Event.conn {ι κ : Type*} : Event ι κ → κ
  | .accepted c | .stored _ c | .dropped c | .closed _ c => c

/-- The table, and the connection that was accepted and is neither stored nor dropped yet. -/
structure State (ι κ : Type*) where
  table : ι → Option κ
  pending : Option κ

variable {ι κ : Type*}

/-- Nothing is connected. -/
def State.start : State ι κ := ⟨fun _ => none, none⟩

/-- The connection has a descriptor in the process. -/
def State.Holds (s : State ι κ) (c : κ) : Prop := s.pending = some c ∨ ∃ i, s.table i = some c

/-- What the server may do next, and what the kernel may hand out. -/
inductive Legal (s : State ι κ) : Event ι κ → Prop
  | accepted (c : κ) (hidle : s.pending = none) (hfresh : ¬ s.Holds c) : Legal s (.accepted c)
  | stored (i : ι) (c : κ) (hpending : s.pending = some c) (hfree : s.table i = none) : Legal s (.stored i c)
  | dropped (c : κ) (hpending : s.pending = some c) (hfull : ∀ i, s.table i ≠ none) : Legal s (.dropped c)
  | closed (i : ι) (c : κ) (hidle : s.pending = none) (hheld : s.table i = some c) : Legal s (.closed i c)

/-- No connection is in two places. -/
structure Distinct (s : State ι κ) : Prop where
  slots : ∀ i j c, s.table i = some c → s.table j = some c → i = j
  pending : ∀ i c, s.pending = some c → s.table i ≠ some c

theorem distinct_start : Distinct (State.start : State ι κ) :=
  ⟨fun _ _ _ hi => (nomatch hi), fun _ _ hp => (nomatch hp)⟩

section Path
variable [DecidableEq ι]

def State.step (s : State ι κ) : Event ι κ → State ι κ
  | .accepted c => { s with pending := some c }
  | .stored i c => ⟨Function.update s.table i (some c), none⟩
  | .dropped _ => { s with pending := none }
  | .closed i _ => { s with table := Function.update s.table i none }

/-- A history of legal events. -/
inductive Path (s : State ι κ) : List (Event ι κ) → State ι κ → Prop
  | nil : Path s [] s
  | snoc {h : List (Event ι κ)} {t : State ι κ} {e : Event ι κ} (hpath : Path s h t) (hlegal : Legal t e) :
      Path s (h ++ [e]) (t.step e)

/-- The table after a history. -/
def tableAfter (h : List (Event ι κ)) : ι → Option κ := (h.foldl State.step State.start).table

variable {s t u : State ι κ} {h h' : List (Event ι κ)} {e : Event ι κ} {i j : ι} {c d : κ}

theorem table_stored : (s.step (.stored i c)).table j = some d ↔ (j = i ∧ c = d) ∨ (j ≠ i ∧ s.table j = some d) := by
  show Function.update s.table i (some c) j = some d ↔ _
  by_cases hji : j = i
  · subst hji
    simp
  · simp [hji]

theorem table_closed : (s.step (.closed i c)).table j = some d ↔ j ≠ i ∧ s.table j = some d := by
  show Function.update s.table i none j = some d ↔ _
  by_cases hji : j = i
  · subst hji
    simp
  · simp [hji]

theorem Path.append (hst : Path s h t) (htu : Path t h' u) : Path s (h ++ h') u := by
  induction htu with
  | nil => rwa [List.append_nil]
  | snoc _ hlegal ih =>
      rw [← List.append_assoc]
      exact ih.snoc hlegal

theorem Path.single (hlegal : Legal s e) : Path s [e] (s.step e) := Path.nil.snoc hlegal

theorem Path.cons (hlegal : Legal s e) (hpath : Path (s.step e) h t) : Path s (e :: h) t :=
  (Path.single hlegal).append hpath

theorem Path.eq_foldl (hpath : Path s h t) : t = h.foldl State.step s := by
  induction hpath with
  | nil => rfl
  | snoc _ _ ih =>
      rw [List.foldl_append, ← ih]
      rfl

/-- Each event is legal after those before it. -/
theorem Path.every (hpath : Path s h t) : Every (fun pre e => ∃ u, Path s pre u ∧ Legal u e) h := by
  induction hpath with
  | nil => exact every_nil
  | snoc hpath hlegal ih => exact every_snoc.2 ⟨ih, _, hpath, hlegal⟩

theorem Distinct.step (hs : Distinct s) (hlegal : Legal s e) : Distinct (s.step e) := by
  cases hlegal with
  | accepted c hidle hfresh =>
      refine ⟨hs.slots, fun i d hd hi => hfresh (Or.inr ⟨i, ?_⟩)⟩
      obtain rfl : c = d := Option.some.inj hd
      exact hi
  | stored i c hpending hfree =>
      refine ⟨fun j k d hj hk => ?_, fun _ _ hd => (nomatch hd)⟩
      rw [table_stored] at hj hk
      rcases hj with ⟨rfl, rfl⟩ | ⟨-, hj⟩ <;> rcases hk with ⟨rfl, hd⟩ | ⟨-, hk⟩
      · rfl
      · exact absurd hk (hs.pending k c hpending)
      · exact absurd hj (hs.pending j d (hd ▸ hpending))
      · exact hs.slots j k d hj hk
  | dropped c hpending hfull => exact ⟨hs.slots, fun _ _ hd => (nomatch hd)⟩
  | closed i c hidle hheld =>
      refine ⟨fun j k d hj hk => ?_, fun j d hd => ?_⟩
      · rw [table_closed] at hj hk
        exact hs.slots j k d hj.2 hk.2
      · have hd : s.pending = some d := hd
        rw [hidle] at hd
        exact (nomatch hd)

theorem Path.distinct (hpath : Path s h t) (hs : Distinct s) : Distinct t := by
  induction hpath with
  | nil => exact hs
  | snoc _ hlegal ih => exact ih.step hlegal

end Path

/-! ## Open descriptors -/

/-- `accept` opens a descriptor, and it is used until it is closed. -/
def descriptors : Ledger (Event ι κ) κ where
  creates
    | .accepted c => [c]
    | .stored _ _ | .dropped _ | .closed _ _ => []
  uses
    | .accepted _ => []
    | .stored _ c | .dropped c | .closed _ c => [c]
  releases
    | .dropped c | .closed _ c => [c]
    | .accepted _ | .stored _ _ => []
  opens _ := false

section Open
variable [DecidableEq ι] {s t : State ι κ} {h : List (Event ι κ)} {e : Event ι κ} {c : κ}

/-- What one event does to the open descriptors. -/
theorem holds_step (hs : Distinct s) (hlegal : Legal s e) :
    (s.step e).Holds c ↔ c ∈ descriptors.creates e ∨ (c ∉ descriptors.releases e ∧ s.Holds c) := by
  unfold State.Holds
  cases hlegal with
  | accepted d hidle hfresh => simp [State.step, descriptors, hidle, eq_comm]
  | stored i d hpending hfree =>
      show (none = some c ∨ ∃ j, (s.step (.stored i d)).table j = some c) ↔ c ∈ [] ∨ (c ∉ [] ∧ _)
      rw [hpending]
      simp only [table_stored, reduceCtorEq, false_or, List.not_mem_nil, not_false_eq_true, true_and,
        Option.some.injEq]
      constructor
      · rintro ⟨j, ⟨-, hd⟩ | ⟨-, hj⟩⟩
        · exact Or.inl hd
        · exact Or.inr ⟨j, hj⟩
      · rintro (hd | ⟨j, hj⟩)
        · exact ⟨i, Or.inl ⟨rfl, hd⟩⟩
        · refine ⟨j, Or.inr ⟨?_, hj⟩⟩
          rintro rfl
          rw [hfree] at hj
          exact (nomatch hj)
  | dropped d hpending hfull =>
      show (none = some c ∨ ∃ j, s.table j = some c) ↔ c ∈ [] ∨ (c ∉ [d] ∧ _)
      rw [hpending]
      simp only [reduceCtorEq, false_or, List.not_mem_nil, List.mem_singleton, Option.some.injEq]
      constructor
      · rintro ⟨j, hj⟩
        refine ⟨?_, Or.inr ⟨j, hj⟩⟩
        rintro rfl
        exact hs.pending j c hpending hj
      · rintro ⟨hne, hd | hj⟩
        · exact absurd hd.symm hne
        · exact hj
  | closed i d hidle hheld =>
      show (s.pending = some c ∨ ∃ j, (s.step (.closed i d)).table j = some c) ↔ c ∈ [] ∨ (c ∉ [d] ∧ _)
      rw [hidle]
      simp only [table_closed, reduceCtorEq, false_or, List.not_mem_nil, List.mem_singleton]
      constructor
      · rintro ⟨j, hji, hj⟩
        refine ⟨?_, j, hj⟩
        rintro rfl
        exact hji (hs.slots j i c hj hheld)
      · rintro ⟨hne, j, hj⟩
        refine ⟨j, ?_, hj⟩
        rintro rfl
        exact hne (Option.some.inj (hj.symm.trans hheld))

/-- The descriptors open are those in the table and the one on its way there. -/
theorem Path.usable_iff (hpath : Path State.start h t) : descriptors.Usable h c ↔ t.Holds c := by
  induction hpath with
  | nil =>
      refine iff_of_false (fun hu => ?_) ?_
      · exact List.not_mem_nil (Ledger.usable_mem_created hu)
      · rintro (hp | ⟨i, hi⟩)
        · exact (nomatch hp)
        · exact (nomatch hi)
  | snoc hpath hlegal ih =>
      rw [holds_step (hpath.distinct distinct_start) hlegal, Ledger.usable_snoc, ih]
      exact or_congr_right (and_iff_right rfl)

end Open

/-! ## What becomes of a connection -/

section Life
variable [DecidableEq ι] [DecidableEq κ]

/-- What happened to connection `c` before its descriptor was handed out again. -/
def life (c : κ) (post : List (Event ι κ)) : List (Event ι κ) :=
  (post.takeWhile (· ≠ .accepted c)).filter (·.conn = c)

/-- It was closed at once, or stored in one slot and perhaps closed there. -/
def Settled (c : κ) (l : List (Event ι κ)) : Prop :=
  l = [.dropped c] ∨ ∃ i, l = [.stored i c] ∨ l = [.stored i c, .closed i c]

variable {s t : State ι κ} {h post : List (Event ι κ)} {e : Event ι κ} {c : κ}

theorem life_again (hpost : .accepted c ∈ post) (e : Event ι κ) : life c (post ++ [e]) = life c post := by
  unfold life
  congr 1
  rw [List.takeWhile_append, if_neg]
  intro hlen
  have heq := List.IsPrefix.eq_of_length (List.takeWhile_prefix _) hlen
  have hne := List.takeWhile_eq_self_iff.1 heq _ hpost
  simp at hne

theorem takeWhile_accepted (hpost : .accepted c ∉ post) (l : List (Event ι κ)) :
    (post ++ l).takeWhile (· ≠ .accepted c) = post ++ l.takeWhile (· ≠ .accepted c) := by
  apply List.takeWhile_append_of_pos
  intro e he
  rw [decide_eq_true_iff]
  rintro rfl
  exact hpost he

theorem life_snoc (hpost : .accepted c ∉ post) (he : e ≠ .accepted c) :
    life c (post ++ [e]) = life c post ++ if e.conn = c then [e] else [] := by
  have hself := takeWhile_accepted hpost []
  rw [List.append_nil, List.takeWhile_nil, List.append_nil] at hself
  unfold life
  rw [takeWhile_accepted hpost, hself, List.filter_append]
  by_cases hc : e.conn = c <;> simp [he, hc]

theorem life_accepted (hpost : .accepted c ∉ post) : life c (post ++ [.accepted c]) = life c post := by
  have hself := takeWhile_accepted hpost []
  rw [List.append_nil, List.takeWhile_nil, List.append_nil] at hself
  unfold life
  rw [takeWhile_accepted hpost, hself]
  simp

/-- An event of another connection. -/
theorem life_other (he : e.conn ≠ c) : life c (post ++ [e]) = life c post := by
  by_cases hpost : .accepted c ∈ post
  · exact life_again hpost e
  · have hne : e ≠ .accepted c := by
      rintro rfl
      exact he rfl
    rw [life_snoc hpost hne, if_neg he, List.append_nil]

/-- What is known of a connection when the history `post` has passed since it was accepted. -/
inductive Phase (s : State ι κ) (c : κ) (post : List (Event ι κ)) : Prop
  | pending (hpost : .accepted c ∉ post) (hpending : s.pending = some c) (hlife : life c post = [])
  | stored (i : ι) (hpost : .accepted c ∉ post) (htable : s.table i = some c) (hlife : life c post = [.stored i c])
  | finished (hgone : .accepted c ∉ post → ¬ s.Holds c)
      (hlife : life c post = [.dropped c] ∨ ∃ i, life c post = [.stored i c, .closed i c])

omit [DecidableEq ι] [DecidableEq κ] in
/-- Only a connection that is held is stored, dropped or closed. -/
theorem Legal.holds (hlegal : Legal s e) (he : e ≠ .accepted e.conn) : s.Holds e.conn := by
  cases hlegal with
  | accepted c hidle hfresh => exact absurd rfl he
  | stored i c hpending hfree => exact Or.inl hpending
  | dropped c hpending hfull => exact Or.inl hpending
  | closed i c hidle hheld => exact Or.inr ⟨i, hheld⟩

theorem Phase.step_pending (hs : Distinct s) (hlegal : Legal s e) (hpost : .accepted c ∉ post)
    (hpending : s.pending = some c) (hlife : life c post = []) : Phase (s.step e) c (post ++ [e]) := by
  cases hlegal with
  | accepted d hidle hfresh => exact (nomatch hidle.symm.trans hpending)
  | stored i d hd hfree =>
      obtain rfl : c = d := Option.some.inj (hpending.symm.trans hd)
      refine .stored i (by simpa using hpost) (table_stored.2 (Or.inl ⟨rfl, rfl⟩)) ?_
      rw [life_snoc hpost (by simp), hlife]
      exact if_pos rfl
  | dropped d hd hfull =>
      obtain rfl : c = d := Option.some.inj (hpending.symm.trans hd)
      refine .finished (fun _ => ?_) (Or.inl ?_)
      · rintro (hp | ⟨i, hi⟩)
        · exact (nomatch hp)
        · exact hs.pending i c hpending hi
      · rw [life_snoc hpost (by simp), hlife]
        exact if_pos rfl
  | closed i d hidle hheld => exact (nomatch hidle.symm.trans hpending)

theorem Phase.step_stored (hs : Distinct s) (hlegal : Legal s e) {i : ι} (hpost : .accepted c ∉ post)
    (htable : s.table i = some c) (hlife : life c post = [.stored i c]) :
    Phase (s.step e) c (post ++ [e]) := by
  cases hlegal with
  | accepted d hidle hfresh =>
      have hd : d ≠ c := by
        rintro rfl
        exact hfresh (Or.inr ⟨i, htable⟩)
      refine .stored i ?_ htable ?_
      · simpa [hpost] using hd.symm
      · rw [life_other (by exact hd), hlife]
  | stored j d hpending hfree =>
      have hd : d ≠ c := by
        rintro rfl
        exact hs.pending i d hpending htable
      have hij : i ≠ j := by
        rintro rfl
        exact (nomatch htable.symm.trans hfree)
      refine .stored i (by simpa using hpost) (table_stored.2 (Or.inr ⟨hij, htable⟩)) ?_
      rw [life_other (by exact hd), hlife]
  | dropped d hpending hfull =>
      have hd : d ≠ c := by
        rintro rfl
        exact hs.pending i d hpending htable
      refine .stored i (by simpa using hpost) htable ?_
      rw [life_other (by exact hd), hlife]
  | closed j d hidle hheld =>
      by_cases hd : d = c
      · subst hd
        obtain rfl := hs.slots i j d htable hheld
        refine .finished (fun _ => ?_) (Or.inr ⟨i, ?_⟩)
        · rintro (hp | ⟨k, hk⟩)
          · exact (nomatch hidle.symm.trans hp)
          · obtain ⟨hki, hk⟩ := table_closed.1 hk
            exact hki (hs.slots k i d hk htable)
        · rw [life_snoc hpost (by simp), hlife]
          exact congrArg (_ :: ·) (if_pos rfl)
      · have hij : i ≠ j := by
          rintro rfl
          exact hd (Option.some.inj (hheld.symm.trans htable))
        refine .stored i (by simpa using hpost) (table_closed.2 ⟨hij, htable⟩) ?_
        rw [life_other (by exact hd), hlife]

theorem Phase.step_finished (hs : Distinct s) (hlegal : Legal s e) (hgone : .accepted c ∉ post → ¬ s.Holds c)
    (hlife : life c post = [.dropped c] ∨ ∃ i, life c post = [.stored i c, .closed i c]) :
    Phase (s.step e) c (post ++ [e]) := by
  have hsame : life c (post ++ [e]) = life c post := by
    by_cases hpost : .accepted c ∈ post
    · exact life_again hpost e
    · by_cases hc : e.conn = c
      · have he : e = .accepted c := by
          by_contra he
          subst hc
          exact hgone hpost (hlegal.holds he)
        rw [he]
        exact life_accepted hpost
      · exact life_other hc
  refine .finished (fun hpost => ?_) (hsame ▸ hlife)
  rw [List.mem_append, List.mem_singleton, not_or] at hpost
  rw [holds_step hs hlegal]
  rintro (hcreated | ⟨-, hheld⟩)
  · apply hpost.2
    cases e with
    | accepted d => rw [List.mem_singleton.1 hcreated]
    | stored i d => exact (nomatch hcreated)
    | dropped d => exact (nomatch hcreated)
    | closed i d => exact (nomatch hcreated)
  · exact hgone hpost.1 hheld

/-- One event, for a connection accepted before it. -/
theorem Phase.step (hp : Phase s c post) (hs : Distinct s) (hlegal : Legal s e) :
    Phase (s.step e) c (post ++ [e]) := by
  cases hp with
  | pending hpost hpending hlife => exact step_pending hs hlegal hpost hpending hlife
  | stored i hpost htable hlife => exact step_stored hs hlegal hpost htable hlife
  | finished hgone hlife => exact step_finished hs hlegal hgone hlife

/-- Every connection accepted in a history is in one of the phases. -/
theorem Path.phase (hpath : Path State.start h t) :
    ∀ pre c post, h = pre ++ .accepted c :: post → Phase t c post := by
  induction hpath with
  | nil => exact fun pre c post hsplit => absurd hsplit (by simp)
  | snoc hpath hlegal ih =>
      intro pre c post hsplit
      rcases snoc_split hsplit with ⟨-, rfl, rfl⟩ | ⟨post, rfl, hbefore⟩
      · exact .pending List.not_mem_nil rfl rfl
      · exact (ih pre c post hbefore).step (hpath.distinct distinct_start) hlegal

/-! ## What the table accounts for -/

/-- The table accounts for every connection of the history. -/
structure Accounted (table : ι → Option κ) (h : List (Event ι κ)) : Prop where
  current : table = tableAfter h
  /-- the descriptors held open are the entries of the table -/
  held : ∀ c, descriptors.Usable h c ↔ ∃ i, table i = some c
  distinct : ∀ i j c, table i = some c → table j = some c → i = j
  /-- every accepted connection was stored in one slot or closed at once -/
  settled : ∀ pre c post, h = pre ++ .accepted c :: post → Settled c (life c post)
  /-- a connection is dropped only when every slot is occupied -/
  full : ∀ pre c post, h = pre ++ .dropped c :: post → ∀ i, tableAfter pre i ≠ none

/-- **The table after a legal history.** -/
theorem Path.accounted (hpath : Path State.start h t) (hidle : t.pending = none) : Accounted t.table h where
  current := by rw [hpath.eq_foldl, tableAfter]
  held c := by
    rw [hpath.usable_iff]
    refine or_iff_right fun hp => ?_
    exact (nomatch hidle.symm.trans hp)
  distinct := (hpath.distinct distinct_start).slots
  settled pre c post hsplit := by
    cases hpath.phase pre c post hsplit with
    | pending _ hpending _ => exact (nomatch hidle.symm.trans hpending)
    | stored i _ _ hlife => exact Or.inr ⟨i, Or.inl hlife⟩
    | finished _ hlife =>
        rcases hlife with hlife | ⟨i, hlife⟩
        · exact Or.inl hlife
        · exact Or.inr ⟨i, Or.inr hlife⟩
  full pre c post hsplit := by
    obtain ⟨u, hu, hlegal⟩ := hpath.every pre _ post hsplit
    cases hlegal with
    | dropped _ _ hfull =>
        rw [tableAfter, ← hu.eq_foldl]
        exact hfull

end Life

end SysSnippets.Lib.Connections
