import SysSnippets.Lib.Machine
import SysSnippets.Lib.Text
import SysSnippets.Tcp.Blocking

/-!
# The Rust server on an event loop

* `Server` : `sockets`, what is registered with the poll, the events still to be handled, and the connections;
* `Server.turn` : one call of the loop: `accept`, `read_to_string` or `write_all`, or the next event;
* `sMioPoll` : the loop and its clients in any order;
* `Sound` : a token with an event is in the map and not handled twice;
* `never_panics` : the loop goes on if and only if no `accept` fails, and no `read_to_string` finds a reset, or the end
  of the stream after bytes that are no UTF-8;
* `echoes` : what is written to a client is what was read from it, if what is read between two events is UTF-8 and
  no UTF-8 comes with the end of the stream.
-/

namespace SysSnippets.Tcp.Mio
open SysSnippets.Lib

abbrev Token : Type := Nat

abbrev SERVER : Token := 0

/-- What a socket is registered for; it is what its events say. -/
inductive Interest
  | readable
  | writable
  deriving DecidableEq

/-- Where the loop is: at the next event, in the loop of `accept`, in the loop of `read_to_string`. -/
inductive Pc
  | handling
  | accepting
  | reading (token : Token)
  | panicked
  deriving DecidableEq

structure Server where
  /-- The connections made so far: the first is the first to be accepted, under token 1. -/
  connections : Nat
  unread : Token → List Byte
  ended : Token → Option End
  registered : Token → Option Interest
  /-- the `message` of a client -/
  sockets : Token → Option (List Byte)
  counter : Token
  /-- of the last `poll`, not yet handled -/
  events : List (Token × Interest)
  pc : Pc

inductive Shown
  | accepted (token : Token)
  | acceptFailed
  /-- A `read_to_string`: what it reads, and how the stream ends; `none` is `WouldBlock`. -/
  | read (token : Token) (bs : List Byte) (e : Option End)
  | wrote (token : Token) (bs : List Byte)
  /-- The client is dropped at the end of the stream. -/
  | closed (token : Token)
  deriving DecidableEq

inductive Happening
  | connect
  | arrive (token : Token) (bs : List Byte)
  | finish (token : Token) (e : End)
  | poll (events : List (Token × Interest))
  /-- Whether an `accept` succeeds, and how many bytes a socket takes. -/
  | turn (accepts : Bool) (takes : Nat)
  deriving DecidableEq

namespace Server

def start : Server where
  connections := 0
  unread _ := []
  ended _ := none
  registered := Function.update (fun _ => none) SERVER (some .readable)
  sockets _ := none
  counter := 1
  events := []
  pc := .handling

def panic (s : Server) : Server := { s with pc := .panicked }

/-- `poll.reregister(..).unwrap()` -/
def reregister (s : Server) (token : Token) (i : Interest) : Server :=
  if s.registered token = none then s.panic
  else { s with registered := Function.update s.registered token (some i) }

/-- `sockets.insert(token, ..)` -/
def store (s : Server) (token : Token) (message : List Byte) : Server :=
  { s with sockets := Function.update s.sockets token (some message) }

/-- `sockets.remove(token)`, which closes the socket. -/
def remove (s : Server) (token : Token) : Server :=
  { s with
    sockets := Function.update s.sockets token none
    registered := Function.update s.registered token none }

/-- A turn of the loop of `accept`. -/
def accept (s : Server) (accepts : Bool) : Server × List Shown :=
  if s.counter ≤ s.connections then
    if accepts then
      ({ s with
          counter := s.counter + 1
          registered := Function.update s.registered s.counter (some .readable) }.store s.counter [],
        [.accepted s.counter])
    else (s.panic, [.acceptFailed])
  else ({ s with pc := .handling }, [])

/-- A turn of the loop of `read_to_string`: bytes that are no UTF-8 are not kept. -/
def readToString (s : Server) (token : Token) : Server × List Shown :=
  match s.sockets token with
  | none => (s.panic, [])
  | some message =>
      let bs := s.unread token
      let s := { s with unread := Function.update s.unread token [] }
      match s.ended token with
      | none =>
          let message := if validUtf8 bs then message ++ bs else message
          (({ s with pc := .handling }.store token message).reregister token .writable, [.read token bs none])
      | some .eof =>
          if validUtf8 bs then
            if bs = [] then ({ s with pc := .handling }.remove token, [.read token bs (some .eof), .closed token])
            else (s.store token (message ++ bs), [.read token bs (some .eof)])
          else (s.panic, [.read token bs (some .eof)])
      | some .error => (s.panic, [.read token bs (some .error)])

/-- An event. -/
def handle (s : Server) (token : Token) (i : Interest) (takes : Nat) : Server × List Shown :=
  if token = SERVER then ({ s with pc := .accepting }, [])
  else
    match s.sockets token with
    | none => (s.panic, [])
    | some message =>
        match i with
        | .readable => ({ s with pc := .reading token }, [])
        | .writable =>
            -- `write_all`
            if message.length ≤ takes then ((s.store token []).reregister token .readable, [.wrote token message])
            else (s.remove token, [.wrote token (message.take takes)])

def turn (s : Server) (accepts : Bool) (takes : Nat) : Server × List Shown :=
  match s.pc with
  | .panicked => (s, [])
  | .accepting => s.accept accepts
  | .reading token => s.readToString token
  | .handling =>
      match s.events with
      | [] => (s, [])
      | (token, i) :: events => { s with events }.handle token i takes

/-- `poll.poll(..)`: at most one event of a socket. -/
def poll (s : Server) (events : List (Token × Interest)) : Server :=
  if s.pc = .handling ∧ s.events = [] ∧ (events.map Prod.fst).Nodup ∧ ∀ e ∈ events, s.registered e.1 = some e.2 then
    { s with events }
  else s

def step (s : Server) : Happening → Server × List Shown
  | .connect => ({ s with connections := s.connections + 1 }, [])
  | .arrive token bs =>
      if token ≤ s.connections ∧ s.ended token = none then
        ({ s with unread := Function.update s.unread token (s.unread token ++ bs) }, [])
      else (s, [])
  | .finish token e =>
      if token ≤ s.connections ∧ s.ended token ≠ some .error then
        ({ s with ended := Function.update s.ended token (some e) }, [])
      else (s, [])
  | .poll events => (s.poll events, [])
  | .turn accepts takes => s.turn accepts takes

/-! ## Tokens with events -/

/-- The registered sockets are those in the map; each event is of one of them, and of no other event's. -/
structure Sound (s : Server) : Prop where
  server : s.registered SERVER = some .readable
  mapped : ∀ t, t ≠ SERVER → (s.registered t = none ↔ s.sockets t = none)
  counter_pos : SERVER < s.counter
  fresh : ∀ t, s.counter ≤ t → s.registered t = none
  nodup : (s.events.map Prod.fst).Nodup
  pending : ∀ e ∈ s.events, s.registered e.1 = some e.2
  reading : ∀ t, s.pc = .reading t → t ≠ SERVER ∧ s.registered t = some .readable ∧ t ∉ s.events.map Prod.fst

theorem registered_start {t : Token} (ht : t ≠ SERVER) : start.registered t = none := by
  exact Function.update_of_ne ht (some Interest.readable) fun _ => none

theorem sound_start : start.Sound where
  server := rfl
  mapped _ ht := iff_of_true (registered_start ht) rfl
  counter_pos := Nat.one_pos
  fresh _ ht := registered_start (Nat.ne_of_gt ht)
  nodup := List.nodup_nil
  pending _ he := absurd he List.not_mem_nil
  reading _ ht := nomatch ht

namespace Sound
variable {s : Server} (h : s.Sound)
include h

/-- The loop goes somewhere else, but not to that of `read_to_string`. -/
theorem atPc {pc : Pc} (hpc : ∀ t, pc ≠ .reading t) : { s with pc := pc }.Sound :=
  ⟨h.server, h.mapped, h.counter_pos, h.fresh, h.nodup, h.pending, fun t ht => absurd ht (hpc t)⟩

theorem panic : s.panic.Sound := h.atPc fun _ => Pc.noConfusion

theorem clients (connections : Nat) (unread : Token → List Byte) (ended : Token → Option End) :
    { s with connections := connections, unread := unread, ended := ended }.Sound :=
  ⟨h.server, h.mapped, h.counter_pos, h.fresh, h.nodup, h.pending, h.reading⟩

theorem store {t : Token} (ht : s.registered t ≠ none) (message : List Byte) : (s.store t message).Sound := by
  refine ⟨h.server, fun t' ht' => ?_, h.counter_pos, h.fresh, h.nodup, h.pending, h.reading⟩
  simp only [Server.store, Function.update_apply]
  split_ifs with htt
  · rw [htt]
    exact iff_of_false ht nofun
  · exact h.mapped t' ht'

/-- A client in the map is registered, and is no new one. -/
theorem client {t : Token} {message : List Byte} (ht : t ≠ SERVER) (hm : s.sockets t = some message) :
    s.registered t ≠ none ∧ t < s.counter := by
  have hreg : s.registered t ≠ none := by
    rw [ne_eq, h.mapped t ht, hm]
    exact Option.some_ne_none _
  refine ⟨hreg, ?_⟩
  by_contra hlt
  exact hreg (h.fresh t (Nat.not_lt.1 hlt))

/-- Another message and registration of a client without events, or none. -/
theorem replace {t : Token} (ht : t ≠ SERVER) (hlt : t < s.counter) (hevents : t ∉ s.events.map Prod.fst)
    (hpc : s.pc ≠ .reading t) (c : Option (List Byte × Interest)) :
    { s with
      sockets := Function.update s.sockets t (c.map Prod.fst)
      registered := Function.update s.registered t (c.map Prod.snd) }.Sound where
  server := by
    dsimp only
    rw [Function.update_of_ne ht.symm]
    exact h.server
  mapped t' ht' := by
    simp only [Function.update_apply]
    split_ifs
    · rw [Option.map_eq_none_iff, Option.map_eq_none_iff]
    · exact h.mapped t' ht'
  counter_pos := h.counter_pos
  fresh t' ht' := by
    have hne : t' ≠ t := Nat.ne_of_gt (Nat.lt_of_lt_of_le hlt ht')
    dsimp only
    rw [Function.update_of_ne hne]
    exact h.fresh t' ht'
  nodup := h.nodup
  pending e he := by
    have hne : e.1 ≠ t := by
      rintro rfl
      exact hevents (List.mem_map_of_mem he)
    dsimp only
    rw [Function.update_of_ne hne]
    exact h.pending e he
  reading t' ht' := by
    obtain ⟨hserver, hreg, hmem⟩ := h.reading t' ht'
    have hne : t' ≠ t := by
      rintro rfl
      exact hpc ht'
    dsimp only
    rw [Function.update_of_ne hne]
    exact ⟨hserver, hreg, hmem⟩

end Sound

/-- The next event. -/
theorem Sound.next {s : Server} {t : Token} {i : Interest} {events : List (Token × Interest)} (h : s.Sound)
    (hpc : ∀ t, s.pc ≠ .reading t) (hevents : s.events = (t, i) :: events) :
    { s with events := events }.Sound ∧ s.registered t = some i ∧ t ∉ events.map Prod.fst := by
  have hnodup := h.nodup
  have hpending := h.pending
  rw [hevents, List.map_cons, List.nodup_cons] at hnodup
  rw [hevents, List.forall_mem_cons] at hpending
  exact ⟨⟨h.server, h.mapped, h.counter_pos, h.fresh, hnodup.2, hpending.2, fun t ht => absurd ht (hpc t)⟩,
    hpending.1, hnodup.1⟩

/-- A client that is read from does not stop the loop. -/
def Harmless : Shown → Prop
  | .acceptFailed => False
  | .read _ bs (some .eof) => validUtf8 bs = true
  | .read _ _ (some .error) => False
  | _ => True

instance : DecidablePred Harmless
  | .acceptFailed | .read _ _ (some .error) => isFalse id
  | .read _ bs (some .eof) => inferInstanceAs (Decidable (validUtf8 bs = true))
  | .accepted _ | .read _ _ none | .wrote _ _ | .closed _ => isTrue trivial

/-- A turn that stays sound, and panics if and only if it has shown why. -/
def Goes (r : Server × List Shown) : Prop := r.1.Sound ∧ (r.1.pc = .panicked ↔ ∃ o ∈ r.2, ¬Harmless o)

theorem goes_on {s : Server} {shown : List Shown} (h : s.Sound) (hpc : s.pc ≠ .panicked)
    (hshown : ∀ o ∈ shown, Harmless o) : Goes (s, shown) :=
  ⟨h, iff_of_false hpc fun ⟨o, ho, hharm⟩ => hharm (hshown o ho)⟩

theorem goes_wrong {s : Server} {shown : List Shown} (h : s.Sound) {o : Shown} (ho : o ∈ shown) (hharm : ¬Harmless o) :
    Goes (s.panic, shown) :=
  ⟨h.panic, iff_of_true rfl ⟨o, ho, hharm⟩⟩

theorem goes_accept {s : Server} (h : s.Sound) (hpc : s.pc = .accepting) (accepts : Bool) : Goes (s.accept accepts) := by
  unfold accept
  split_ifs
  · have hmore : { s with counter := s.counter + 1 }.Sound :=
      ⟨h.server, h.mapped, Nat.succ_pos _, fun t ht => h.fresh t (Nat.le_of_succ_le ht), h.nodup, h.pending, h.reading⟩
    have hnew : s.registered s.counter = none := h.fresh _ (Nat.le_refl _)
    have hevents : s.counter ∉ s.events.map Prod.fst := by
      intro hmem
      obtain ⟨e, he, hfst⟩ := List.mem_map.1 hmem
      have hreg := h.pending e he
      rw [hfst, hnew] at hreg
      cases hreg
    refine goes_on (hmore.replace (t := s.counter) (Nat.ne_of_gt h.counter_pos) (Nat.lt_succ_self _) hevents ?_
      (some ([], .readable))) ?_ ?_
    · rw [hpc]
      exact Pc.noConfusion
    · change s.pc ≠ .panicked
      rw [hpc]
      exact Pc.noConfusion
    · rw [List.forall_mem_singleton]
      trivial
  · exact goes_wrong h (List.mem_singleton_self _) id
  · exact goes_on (h.atPc fun _ => Pc.noConfusion) Pc.noConfusion fun _ ho => absurd ho List.not_mem_nil

/-- `reregister` finds the socket registered. -/
theorem reregister_eq {s : Server} {t : Token} (ht : s.registered t ≠ none) (i : Interest) :
    s.reregister t i = { s with registered := Function.update s.registered t (some i) } := if_neg ht

theorem goes_readToString {s : Server} (h : s.Sound) {t : Token} (hpc : s.pc = .reading t) :
    Goes (s.readToString t) := by
  obtain ⟨hserver, hreg, hevents⟩ := h.reading t hpc
  have hregistered : s.registered t ≠ none := by
    rw [hreg]
    exact Option.some_ne_none _
  have hlt : t < s.counter := by
    by_contra hge
    exact hregistered (h.fresh t (Nat.not_lt.1 hge))
  -- after the bytes have been read
  have hread : { s with unread := Function.update s.unread t [] }.Sound := h.clients _ _ _
  have hdone : { s with unread := Function.update s.unread t [], pc := .handling }.Sound :=
    hread.atPc fun _ => Pc.noConfusion
  unfold readToString
  cases hm : s.sockets t with
  | none => exact absurd ((h.mapped t hserver).2 hm) hregistered
  | some message =>
      dsimp only
      cases hend : s.ended t with
      | none =>
          dsimp only
          rw [reregister_eq (by exact hregistered)]
          exact goes_on (hdone.replace hserver hlt hevents Pc.noConfusion (some (_, .writable))) Pc.noConfusion
            (List.forall_mem_singleton.2 trivial)
      | some e =>
          cases e with
          | error => exact goes_wrong hread (List.mem_singleton_self _) id
          | eof =>
              dsimp only
              split_ifs with hutf8 hnil
              · refine goes_on (hdone.replace hserver hlt hevents Pc.noConfusion none) Pc.noConfusion ?_
                rw [List.forall_mem_cons, List.forall_mem_singleton]
                exact ⟨hutf8, trivial⟩
              · refine goes_on (hread.store hregistered (message ++ s.unread t)) ?_ ?_
                · change s.pc ≠ .panicked
                  rw [hpc]
                  exact Pc.noConfusion
                · rw [List.forall_mem_singleton]
                  exact hutf8
              · exact goes_wrong hread (List.mem_singleton_self _) hutf8

theorem goes_handle {s : Server} (h : s.Sound) (hpc : s.pc = .handling) {t : Token} {i : Interest}
    (hreg : s.registered t = some i) (hevents : t ∉ s.events.map Prod.fst) (takes : Nat) :
    Goes (s.handle t i takes) := by
  have hnot : ∀ o ∈ ([] : List Shown), Harmless o := fun _ ho => absurd ho List.not_mem_nil
  have hquiet : s.pc ≠ .panicked ∧ s.pc ≠ .reading t := by
    rw [hpc]
    exact ⟨Pc.noConfusion, Pc.noConfusion⟩
  unfold handle
  split_ifs with hserver
  · exact goes_on (h.atPc fun _ => Pc.noConfusion) Pc.noConfusion hnot
  · cases hm : s.sockets t with
    | none =>
        rw [(h.mapped t hserver).2 hm] at hreg
        cases hreg
    | some message =>
        obtain ⟨hregistered, hlt⟩ := h.client hserver hm
        cases i with
        | readable =>
            refine goes_on ⟨h.server, h.mapped, h.counter_pos, h.fresh, h.nodup, h.pending, ?_⟩ Pc.noConfusion hnot
            intro t' ht'
            cases ht'
            exact ⟨hserver, hreg, hevents⟩
        | writable =>
            dsimp only
            split_ifs
            · rw [reregister_eq (by exact hregistered)]
              exact goes_on (h.replace hserver hlt hevents hquiet.2 (some ([], .readable))) hquiet.1
                (List.forall_mem_singleton.2 trivial)
            · exact goes_on (h.replace hserver hlt hevents hquiet.2 none) hquiet.1 (List.forall_mem_singleton.2 trivial)

/-- Nothing is done after a panic. -/
theorem goes_turn {s : Server} (h : s.Sound) (hpc : s.pc ≠ .panicked) (accepts : Bool) (takes : Nat) :
    Goes (s.turn accepts takes) := by
  unfold turn
  split
  · rename_i hp
    exact absurd hp hpc
  · rename_i hp
    exact goes_accept h hp accepts
  · rename_i t hp
    exact goes_readToString h hp
  · rename_i hp
    split
    · exact goes_on h hpc fun _ ho => absurd ho List.not_mem_nil
    · rename_i t i events hevents
      obtain ⟨hnext, hreg, hmem⟩ := h.next (by
        rw [hp]
        exact fun _ => Pc.noConfusion) hevents
      exact goes_handle hnext hp hreg hmem takes

theorem Sound.poll {s : Server} (h : s.Sound) (events : List (Token × Interest)) : (s.poll events).Sound := by
  unfold Server.poll
  split_ifs with hpoll
  · obtain ⟨hpc, -, hnodup, hpending⟩ := hpoll
    refine ⟨h.server, h.mapped, h.counter_pos, h.fresh, hnodup, hpending, fun t ht => ?_⟩
    rw [hpc] at ht
    cases ht
  · exact h

theorem turn_panicked {s : Server} (hpc : s.pc = .panicked) (accepts : Bool) (takes : Nat) :
    s.turn accepts takes = (s, []) := by
  unfold turn
  rw [hpc]

theorem Sound.turn {s : Server} (h : s.Sound) (accepts : Bool) (takes : Nat) : (s.turn accepts takes).1.Sound := by
  by_cases hpc : s.pc = .panicked
  · rw [turn_panicked hpc]
    exact h
  · exact (goes_turn h hpc accepts takes).1

/-- What the clients do, and `poll`, show nothing and leave the map alone. -/
theorem turn_or_quiet (s : Server) (i : Happening) : (∃ accepts takes, i = .turn accepts takes) ∨
    (s.step i).2 = [] ∧ (s.step i).1.pc = s.pc ∧ (s.step i).1.sockets = s.sockets ∧
      (s.step i).1.registered = s.registered ∧ (s.step i).1.counter = s.counter ∧ (s.Sound → (s.step i).1.Sound) := by
  cases i with
  | connect => exact Or.inr ⟨rfl, rfl, rfl, rfl, rfl, fun h => h.clients _ _ _⟩
  | arrive token bs =>
      unfold step
      dsimp only
      split_ifs
      · exact Or.inr ⟨rfl, rfl, rfl, rfl, rfl, fun h => h.clients _ _ _⟩
      · exact Or.inr ⟨rfl, rfl, rfl, rfl, rfl, id⟩
  | finish token e =>
      unfold step
      dsimp only
      split_ifs
      · exact Or.inr ⟨rfl, rfl, rfl, rfl, rfl, fun h => h.clients _ _ _⟩
      · exact Or.inr ⟨rfl, rfl, rfl, rfl, rfl, id⟩
  | poll events =>
      have hpoll : (s.poll events).pc = s.pc ∧ (s.poll events).sockets = s.sockets ∧
          (s.poll events).registered = s.registered ∧ (s.poll events).counter = s.counter := by
        unfold poll
        split_ifs
        · exact ⟨rfl, rfl, rfl, rfl⟩
        · exact ⟨rfl, rfl, rfl, rfl⟩
      exact Or.inr ⟨rfl, hpoll.1, hpoll.2.1, hpoll.2.2.1, hpoll.2.2.2, fun h => h.poll events⟩
  | turn accepts takes => exact Or.inl ⟨accepts, takes, rfl⟩

end Server

/-- The loop of `main`, and its clients. -/
def sMioPoll : Machine Server Happening Shown := ⟨Server.step⟩

/-- **Every run is sound**, and has panicked if and only if it has shown why. -/
theorem run_sound (happenings : List Happening) :
    (sMioPoll.run .start happenings).1.Sound ∧ ((sMioPoll.run .start happenings).1.pc = .panicked ↔
      ∃ o ∈ (sMioPoll.run .start happenings).2, ¬Server.Harmless o) := by
  refine Machine.run_inv (m := sMioPoll) (I := fun h s => s.Sound ∧ (s.pc = .panicked ↔ ∃ o ∈ h, ¬Server.Harmless o)) ?_
    happenings [] Server.start ⟨Server.sound_start, by simp [Server.start]⟩
  rintro h s i ⟨hs, hpanicked⟩
  rcases s.turn_or_quiet i with ⟨accepts, takes, rfl⟩ | ⟨hshown, hpc, -, -, -, hsound⟩
  · change (s.turn accepts takes).1.Sound ∧
      ((s.turn accepts takes).1.pc = .panicked ↔ ∃ o ∈ h ++ (s.turn accepts takes).2, ¬Server.Harmless o)
    by_cases hpc : s.pc = .panicked
    · rw [Server.turn_panicked hpc, List.append_nil]
      exact ⟨hs, hpanicked⟩
    · obtain ⟨hsound, hiff⟩ := Server.goes_turn hs hpc accepts takes
      refine ⟨hsound, hiff.trans ?_⟩
      constructor
      · rintro ⟨o, ho, hharm⟩
        exact ⟨o, List.mem_append_right _ ho, hharm⟩
      · rintro ⟨o, ho, hharm⟩
        rcases List.mem_append.1 ho with ho | ho
        · exact absurd (hpanicked.2 ⟨o, ho, hharm⟩) hpc
        · exact ⟨o, ho, hharm⟩
  · change (s.step i).1.Sound ∧ ((s.step i).1.pc = .panicked ↔ ∃ o ∈ h ++ (s.step i).2, ¬Server.Harmless o)
    rw [hshown, hpc, List.append_nil]
    exact ⟨hsound hs, hpanicked⟩

/-- **The loop goes on** if and only if no `accept` fails, no `read_to_string` finds a reset, and none finds the end of
the stream after bytes that are no UTF-8. -/
theorem never_panics (happenings : List Happening) :
    (sMioPoll.run .start happenings).1.pc ≠ .panicked ↔
      ∀ o ∈ (sMioPoll.run .start happenings).2, Server.Harmless o := by
  rw [ne_eq, (run_sound happenings).2]
  constructor
  · intro hnone o ho
    by_contra hharm
    exact hnone ⟨o, ho, hharm⟩
  · rintro hall ⟨o, ho, hharm⟩
    exact hharm (hall o ho)

/-- A client sends bytes, and closes its side. -/
def atOnce (bs : List Byte) : List Happening :=
  [.connect, .arrive 1 bs, .finish 1 .eof, .poll [(SERVER, .readable)], .turn true 0, .turn true 0, .turn true 0,
    .poll [(1, .readable)], .turn true 0, .turn true 0, .turn true 0]

theorem not_never_panics :
    ¬∀ happenings : List Happening, (∀ takes, Happening.turn false takes ∉ happenings) →
      (sMioPoll.run .start happenings).1.pc ≠ .panicked := by
  intro h
  refine h (atOnce [0xff]) (fun takes hmem => ?_) (by decide +kernel)
  simp [atOnce] at hmem

/-! ## What is written back -/

/-- The bytes read from a client. -/
def readFrom (token : Token) (h : List Shown) : List Byte :=
  h.flatMap fun
    | .read t bs _ => if t = token then bs else []
    | _ => []

/-- The bytes written to a client. -/
def writtenTo (token : Token) (h : List Shown) : List Byte :=
  h.flatMap fun
    | .wrote t bs => if t = token then bs else []
    | _ => []

/-- What is written is the beginning of what was read, and all of it for a client that is dropped at its end. -/
def Faithful (h : List Shown) (o : Shown) : Prop :=
  (∀ t, writtenTo t (h ++ [o]) <+: readFrom t (h ++ [o])) ∧ ∀ t, o = .closed t → writtenTo t h = readFrom t h

/-- What is read before the next event is UTF-8, and no UTF-8 comes with the end of the stream. -/
def Whole : Shown → Prop
  | .read _ bs none => validUtf8 bs = true
  | .read _ bs (some .eof) => validUtf8 bs = true → bs = []
  | _ => True

section Histories
variable (h : List Shown) (t : Token)

theorem readFrom_append (h' : List Shown) : readFrom t (h ++ h') = readFrom t h ++ readFrom t h' :=
  List.flatMap_append

theorem writtenTo_append (h' : List Shown) : writtenTo t (h ++ h') = writtenTo t h ++ writtenTo t h' :=
  List.flatMap_append

theorem read_read (t' : Token) (bs : List Byte) (e : Option End) :
    readFrom t [.read t' bs e] = (if t' = t then bs else []) ∧ writtenTo t [.read t' bs e] = [] :=
  ⟨List.flatMap_singleton _ _, rfl⟩

theorem wrote_wrote (t' : Token) (bs : List Byte) :
    readFrom t [.wrote t' bs] = [] ∧ writtenTo t [.wrote t' bs] = (if t' = t then bs else []) :=
  ⟨rfl, List.flatMap_singleton _ _⟩

end Histories

namespace Server

/-- What a client is still to get back is its message. -/
structure Kept (h : List Shown) (s : Server) : Prop where
  message : s.pc ≠ .panicked → ∀ t m, s.sockets t = some m → readFrom t h = writtenTo t h ++ m
  empty : ∀ t m, s.sockets t = some m → s.registered t = some .readable → m = []
  written : ∀ t, writtenTo t h <+: readFrom t h
  fresh : ∀ t, s.counter ≤ t → readFrom t h = [] ∧ writtenTo t h = []
  faithful : Every Faithful h

theorem kept_start : start.Kept [] :=
  ⟨fun _ _ _ hm => (nomatch hm), fun _ _ hm => (nomatch hm), fun _ => List.prefix_rfl, fun _ _ => ⟨rfl, rfl⟩, every_nil⟩

namespace Kept
variable {h : List Shown} {s s' : Server} {t : Token} {o : Shown} (hk : s.Kept h)
include hk

theorem same (hsockets : s'.sockets = s.sockets) (hregistered : s'.registered = s.registered)
    (hcounter : s'.counter = s.counter) (hpc : s'.pc ≠ .panicked → s.pc ≠ .panicked) : s'.Kept h where
  message hs' t m := by
    rw [hsockets]
    exact hk.message (hpc hs') t m
  empty t m := by
    rw [hsockets, hregistered]
    exact hk.empty t m
  written := hk.written
  fresh t := by
    rw [hcounter]
    exact hk.fresh t
  faithful := hk.faithful

/-- **One observation of one client.** -/
theorem next (c : Option (List Byte)) (hsockets : s'.sockets = Function.update s.sockets t c)
    (hregistered : ∀ t', t' ≠ t → s'.registered t' = s.registered t') (hcounter : s.counter ≤ s'.counter)
    (hlt : t < s'.counter) (hpc : s.pc ≠ .panicked)
    (hother : ∀ t', t' ≠ t → readFrom t' [o] = [] ∧ writtenTo t' [o] = [])
    (hempty : ∀ m, c = some m → s'.registered t = some .readable → m = [])
    (hwritten : writtenTo t (h ++ [o]) <+: readFrom t (h ++ [o]))
    (hclosed : ∀ t', o = .closed t' → writtenTo t' h = readFrom t' h)
    (hmessage : s'.pc ≠ .panicked → ∀ m, c = some m → readFrom t (h ++ [o]) = writtenTo t (h ++ [o]) ++ m) :
    s'.Kept (h ++ [o]) := by
  have hsame : ∀ t', t' ≠ t → readFrom t' (h ++ [o]) = readFrom t' h ∧ writtenTo t' (h ++ [o]) = writtenTo t' h := by
    intro t' ht'
    rw [readFrom_append, writtenTo_append, (hother t' ht').1, (hother t' ht').2, List.append_nil, List.append_nil]
    exact ⟨rfl, rfl⟩
  have hall : ∀ t', writtenTo t' (h ++ [o]) <+: readFrom t' (h ++ [o]) := by
    intro t'
    by_cases ht' : t' = t
    · rw [ht']
      exact hwritten
    · rw [(hsame t' ht').1, (hsame t' ht').2]
      exact hk.written t'
  refine ⟨fun hs' t' m hm => ?_, fun t' m hm hreg => ?_, hall, fun t' ht' => ?_,
    every_snoc.2 ⟨hk.faithful, hall, hclosed⟩⟩
  · by_cases ht' : t' = t
    · subst ht'
      rw [hsockets, Function.update_self] at hm
      exact hmessage hs' m hm
    · rw [hsockets, Function.update_of_ne ht'] at hm
      rw [(hsame t' ht').1, (hsame t' ht').2]
      exact hk.message hpc t' m hm
  · by_cases ht' : t' = t
    · subst ht'
      rw [hsockets, Function.update_self] at hm
      exact hempty m hm hreg
    · rw [hsockets, Function.update_of_ne ht'] at hm
      rw [hregistered t' ht'] at hreg
      exact hk.empty t' m hm hreg
  · have hne : t' ≠ t := Nat.ne_of_gt (Nat.lt_of_lt_of_le hlt ht')
    rw [(hsame t' hne).1, (hsame t' hne).2]
    exact hk.fresh t' (Nat.le_trans hcounter ht')

/-- A `read_to_string` that reads `bs`. -/
theorem read {message : List Byte} (hm : s.sockets t = some message) (hlt : t < s.counter) (hpc : s.pc ≠ .panicked)
    {bs : List Byte} {e : Option End} {c : Option (List Byte)}
    (hsockets : s'.sockets = Function.update s.sockets t c)
    (hregistered : ∀ t', t' ≠ t → s'.registered t' = s.registered t') (hcounter : s'.counter = s.counter)
    (hempty : ∀ m, c = some m → s'.registered t = some .readable → m = [])
    (hmessage : s'.pc ≠ .panicked → c = some (message ++ bs)) : s'.Kept (h ++ [.read t bs e]) := by
  have hread : readFrom t (h ++ [.read t bs e]) = writtenTo t (h ++ [.read t bs e]) ++ (message ++ bs) := by
    rw [readFrom_append, writtenTo_append, (read_read t t bs e).1, (read_read t t bs e).2, if_pos rfl, List.append_nil,
      hk.message hpc t message hm, List.append_assoc]
  refine hk.next c hsockets hregistered (Nat.le_of_eq hcounter.symm) (by rwa [hcounter]) hpc (fun t' ht' => ?_) hempty
    ⟨_, hread.symm⟩ (fun _ => Shown.noConfusion) fun hs' m hc => ?_
  · rw [(read_read t' t bs e).1, if_neg ht'.symm]
    exact ⟨rfl, rfl⟩
  · rw [hmessage hs'] at hc
    cases hc
    exact hread

/-- A `write` to a client of the first bytes of its message, if there is no room for all. -/
theorem wrote {message : List Byte} (hm : s.sockets t = some message) (hlt : t < s.counter) (hpc : s.pc ≠ .panicked)
    {takes : Nat} {c : Option (List Byte)} (hsockets : s'.sockets = Function.update s.sockets t c)
    (hregistered : ∀ t', t' ≠ t → s'.registered t' = s.registered t') (hcounter : s'.counter = s.counter)
    (hc : c = none ∨ c = some [] ∧ message.length ≤ takes) : s'.Kept (h ++ [.wrote t (message.take takes)]) := by
  have hread : readFrom t (h ++ [.wrote t (message.take takes)]) =
      writtenTo t (h ++ [.wrote t (message.take takes)]) ++ message.drop takes := by
    rw [readFrom_append, writtenTo_append, (wrote_wrote t t _).1, (wrote_wrote t t _).2, if_pos rfl, List.append_nil,
      hk.message hpc t message hm, List.append_assoc, List.take_append_drop]
  refine hk.next c hsockets hregistered (Nat.le_of_eq hcounter.symm) (by rwa [hcounter]) hpc (fun t' ht' => ?_) ?_
    ⟨_, hread.symm⟩ (fun _ => Shown.noConfusion) fun _ m hm' => ?_
  · rw [(wrote_wrote t' t _).2, if_neg ht'.symm]
    exact ⟨rfl, rfl⟩
  · intro m hm' _
    rcases hc with hnone | ⟨hsome, -⟩
    · rw [hnone] at hm'
      cases hm'
    · rw [hsome] at hm'
      cases hm'
      rfl
  · rcases hc with hnone | ⟨hsome, hroom⟩
    · rw [hnone] at hm'
      cases hm'
    · rw [hsome] at hm'
      cases hm'
      rw [hread, List.drop_eq_nil_of_le hroom]

/-- A client to which nothing is left to write is closed. -/
theorem closed (hm : s.sockets t = some []) (hlt : t < s.counter) (hpc : s.pc ≠ .panicked) :
    (s.remove t).Kept (h ++ [.closed t]) := by
  have hall := hk.message hpc t [] hm
  rw [List.append_nil] at hall
  have hclosed : readFrom t (h ++ [.closed t]) = writtenTo t (h ++ [.closed t]) := by
    rw [readFrom_append, writtenTo_append, hall]
    rfl
  refine hk.next none rfl (fun t' ht' => Function.update_of_ne ht' _ _) (Nat.le_refl _) hlt hpc (fun _ _ => ⟨rfl, rfl⟩)
    (fun _ hnone => nomatch hnone) ?_ (fun t' ht' => ?_) fun _ _ hnone => nomatch hnone
  · exact hclosed ▸ List.prefix_rfl
  · cases ht'
    exact hall.symm

end Kept

variable {h : List Shown} {s : Server}

theorem kept_accept (hk : s.Kept h) (hpc : s.pc = .accepting) (accepts : Bool) :
    (s.accept accepts).1.Kept (h ++ (s.accept accepts).2) := by
  have hrunning : s.pc ≠ .panicked := by
    rw [hpc]
    exact Pc.noConfusion
  unfold accept
  split_ifs
  · obtain ⟨hread, hwritten⟩ := hk.fresh s.counter (Nat.le_refl _)
    have hread' : readFrom s.counter (h ++ [.accepted s.counter]) = [] := by
      rw [readFrom_append, hread]
      rfl
    have hwritten' : writtenTo s.counter (h ++ [.accepted s.counter]) = [] := by
      rw [writtenTo_append, hwritten]
      rfl
    refine hk.next (some []) rfl (fun t' ht' => Function.update_of_ne ht' _ _) (Nat.le_succ _) (Nat.lt_succ_self _)
      hrunning (fun _ _ => ⟨rfl, rfl⟩) (fun m hm _ => ?_) ?_ (fun _ => Shown.noConfusion) fun _ m hm => ?_
    · cases hm
      rfl
    · rw [hwritten']
      exact List.nil_prefix
    · cases hm
      rw [hread', hwritten']
      rfl
  · -- nothing of any client
    have hshown : ∀ t, readFrom t (h ++ [.acceptFailed]) = readFrom t h ∧
        writtenTo t (h ++ [.acceptFailed]) = writtenTo t h := by
      intro t
      rw [readFrom_append, writtenTo_append]
      exact ⟨List.append_nil _, List.append_nil _⟩
    refine ⟨fun hs' => absurd rfl hs', hk.empty, fun t => ?_, fun t ht => ?_, every_snoc.2 ⟨hk.faithful, fun t => ?_,
      fun _ => Shown.noConfusion⟩⟩
    · rw [(hshown t).1, (hshown t).2]
      exact hk.written t
    · rw [(hshown t).1, (hshown t).2]
      exact hk.fresh t ht
    · rw [(hshown t).1, (hshown t).2]
      exact hk.written t
  · rw [List.append_nil]
    exact hk.same rfl rfl rfl fun _ => hrunning

theorem kept_readToString (hk : s.Kept h) (hs : s.Sound) {t : Token} (hpc : s.pc = .reading t)
    (hwhole : ∀ o ∈ (s.readToString t).2, Whole o) : (s.readToString t).1.Kept (h ++ (s.readToString t).2) := by
  obtain ⟨hserver, hreg, -⟩ := hs.reading t hpc
  have hrunning : s.pc ≠ .panicked := by
    rw [hpc]
    exact Pc.noConfusion
  unfold readToString at hwhole ⊢
  cases hm : s.sockets t with
  | none =>
      rw [List.append_nil]
      exact hk.same rfl rfl rfl fun _ => hrunning
  | some message =>
      obtain ⟨hregistered, hlt⟩ := hs.client hserver hm
      have hkeep : s.sockets = Function.update s.sockets t (some message) := by
        rw [← hm, Function.update_eq_self]
      have hmessage : message = [] := hk.empty t message hm hreg
      have hempty : ∀ {i : Option Interest} (m : List Byte), some message = some m → i = some .readable → m = [] := by
        rintro i m ⟨⟩ -
        exact hmessage
      rw [hm] at hwhole
      dsimp only at hwhole ⊢
      cases hend : s.ended t with
      | none =>
          rw [hend] at hwhole
          dsimp only at hwhole ⊢
          rw [List.forall_mem_singleton] at hwhole
          have hutf8 : validUtf8 (s.unread t) = true := hwhole
          rw [if_pos hutf8, reregister_eq (by exact hregistered)]
          refine hk.read hm hlt hrunning rfl (fun t' ht' => Function.update_of_ne ht' _ _) rfl (fun m _ hnow => ?_)
            fun _ => rfl
          -- it is registered as writable
          have hw : Function.update s.registered t (some Interest.writable) t = some Interest.readable := hnow
          rw [Function.update_self] at hw
          cases hw
      | some e =>
          rw [hend] at hwhole
          cases e with
          | error =>
              exact hk.read hm hlt hrunning hkeep (fun _ _ => rfl) rfl hempty fun hs' => absurd rfl hs'
          | eof =>
              dsimp only at hwhole ⊢
              by_cases hbs : s.unread t = []
              · rw [hbs, if_pos validUtf8_nil, if_pos rfl]
                have hk' : { s with unread := Function.update s.unread t [], pc := .handling }.Kept
                    (h ++ [Shown.read t [] (some .eof)]) :=
                  hk.read hm hlt hrunning hkeep (fun _ _ => rfl) rfl hempty fun _ => by rw [List.append_nil]
                rw [hmessage] at hm
                have hclosed := hk'.closed hm hlt Pc.noConfusion
                rw [List.append_assoc] at hclosed
                exact hclosed
              · -- bytes with the end of the stream
                have hnoUtf8 : ¬validUtf8 (s.unread t) = true := by
                  intro hutf8
                  rw [if_pos hutf8, if_neg hbs, List.forall_mem_singleton] at hwhole
                  exact hbs (hwhole hutf8)
                rw [if_neg hnoUtf8]
                exact hk.read hm hlt hrunning hkeep (fun _ _ => rfl) rfl hempty fun hs' => absurd rfl hs'

theorem kept_handle (hk : s.Kept h) (hs : s.Sound) (hpc : s.pc = .handling) {t : Token} {i : Interest} (takes : Nat) :
    (s.handle t i takes).1.Kept (h ++ (s.handle t i takes).2) := by
  have hrunning : s.pc ≠ .panicked := by
    rw [hpc]
    exact Pc.noConfusion
  unfold handle
  split_ifs with hserver
  · rw [List.append_nil]
    exact hk.same rfl rfl rfl fun _ => hrunning
  · cases hm : s.sockets t with
    | none =>
        rw [List.append_nil]
        exact hk.same rfl rfl rfl fun _ => hrunning
    | some message =>
        obtain ⟨hregistered, hlt⟩ := hs.client hserver hm
        cases i with
        | readable =>
            rw [List.append_nil]
            exact hk.same rfl rfl rfl fun _ => hrunning
        | writable =>
            dsimp only
            split_ifs with hroom
            · rw [reregister_eq (by exact hregistered)]
              have htake : message.take takes = message := List.take_of_length_le hroom
              have hwrote : Kept (h ++ [.wrote t (message.take takes)]) { s.store t [] with
                  registered := Function.update s.registered t (some .readable) } :=
                hk.wrote hm hlt hrunning rfl (fun t' ht' => Function.update_of_ne ht' _ _) rfl (Or.inr ⟨rfl, hroom⟩)
              rwa [htake] at hwrote
            · exact hk.wrote hm hlt hrunning rfl (fun t' ht' => Function.update_of_ne ht' _ _) rfl (Or.inl rfl)

theorem kept_turn (hk : s.Kept h) (hs : s.Sound) (accepts : Bool) (takes : Nat)
    (hwhole : ∀ o ∈ (s.turn accepts takes).2, Whole o) :
    (s.turn accepts takes).1.Kept (h ++ (s.turn accepts takes).2) := by
  unfold turn at hwhole ⊢
  split at hwhole
  · rw [List.append_nil]
    exact hk
  · rename_i hp
    exact kept_accept hk hp accepts
  · rename_i t hp
    exact kept_readToString hk hs hp hwhole
  · rename_i hp
    split at hwhole
    · rw [List.append_nil]
      exact hk
    · rename_i t i events hevents
      obtain ⟨hnext, -, -⟩ := hs.next (by
        rw [hp]
        exact fun _ => Pc.noConfusion) hevents
      have hk' : { s with events := events }.Kept h := hk.same rfl rfl rfl id
      exact kept_handle hk' hnext hp takes

end Server

/-- **What is written back.** In a run in which what is read before the next event is UTF-8 and no UTF-8 comes with the
end of the stream, what is written to a client is always the beginning of what was read from it, and all of it when
the client is dropped at its end. -/
theorem echoes (happenings : List Happening) (h : ∀ o ∈ (sMioPoll.run .start happenings).2, Whole o) :
    Every Faithful (sMioPoll.run .start happenings).2 := by
  have hinv := Machine.run_inv_of_every (m := sMioPoll) (P := fun _ o => Whole o)
    (I := fun h s => s.Sound ∧ s.Kept h) ?_ happenings [] Server.start ⟨Server.sound_start, Server.kept_start⟩
    (every_const.2 h)
  · exact hinv.2.faithful
  · rintro h s i ⟨hs, hk⟩ hwhole
    rw [every_const] at hwhole
    rcases s.turn_or_quiet i with ⟨accepts, takes, rfl⟩ | ⟨hshown, hpc, hsockets, hregistered, hcounter, hsound⟩
    · exact ⟨hs.turn accepts takes, Server.kept_turn hk hs accepts takes hwhole⟩
    · change (s.step i).1.Sound ∧ (s.step i).1.Kept (h ++ (s.step i).2)
      rw [hshown, List.append_nil]
      refine ⟨hsound hs, hk.same hsockets hregistered hcounter ?_⟩
      rw [hpc]
      exact id

/-- A client sends bytes; it gets them back, and closes its side. -/
def inTurn (bs : List Byte) : List Happening :=
  [.connect, .arrive 1 bs, .poll [(SERVER, .readable)], .turn true 0, .turn true 0, .turn true 0,
    .poll [(1, .readable)], .turn true 0, .turn true 0, .poll [(1, .writable)], .turn true bs.length,
    .finish 1 .eof, .poll [(1, .readable)], .turn true 0, .turn true 0]

instance : DecidablePred Whole
  | .read _ bs none => inferInstanceAs (Decidable (validUtf8 bs = true))
  | .read _ bs (some .eof) => inferInstanceAs (Decidable (validUtf8 bs = true → bs = []))
  | .read _ _ (some .error) | .accepted _ | .acceptFailed | .wrote _ _ | .closed _ => isTrue trivial

theorem echoes_in_turn : Every Faithful (sMioPoll.run .start (inTurn [ch 'h', ch 'i'])).2 :=
  echoes (inTurn [ch 'h', ch 'i']) (by decide +kernel)

/-- The bytes that a client sends. -/
def sentBy (token : Token) (happenings : List Happening) : List Byte :=
  happenings.flatMap fun
    | .arrive t bs => if t = token then bs else []
    | _ => []

/-- Bytes that come with the end of the stream are lost. -/
theorem not_echoes :
    ¬∀ happenings : List Happening, (∀ t, validUtf8 (sentBy t happenings) = true) →
      Every Faithful (sMioPoll.run .start happenings).2 := by
  intro h
  have hvalid : ∀ t, validUtf8 (sentBy t (atOnce [ch 'h', ch 'i'])) = true := by
    intro t
    have hsent : sentBy t (atOnce [ch 'h', ch 'i']) = if 1 = t then [ch 'h', ch 'i'] else [] := by
      simp [sentBy, atOnce]
    rw [hsent]
    split_ifs
    · decide +kernel
    · exact validUtf8_nil
  have hlost := h (atOnce [ch 'h', ch 'i']) hvalid
    [.accepted 1, .read 1 [ch 'h', ch 'i'] (some .eof), .read 1 [] (some .eof)] (.closed 1) [] (by decide +kernel)
  exact absurd (hlost.2 1 rfl) (by decide)

end SysSnippets.Tcp.Mio
