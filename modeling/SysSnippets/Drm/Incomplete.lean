import SysSnippets.Drm.Codec
import SysSnippets.Drm.Survival

/-!
# Incomplete requests

* `Incomplete text` : the fields a request needs are not all there;
* `Rejected v` : the pass made no call, left the entry alone and replied DRM_ERROR;
* `rejected_iff` : when a pass over an incomplete request rejects it.
-/

namespace SysSnippets.Drm
open SysSnippets.Lib

/-! ## Fields -/

/-- The format that lists the fields of a command. -/
def Command.fmt : Command → List Directive
  | .auth => fmtPair
  | .crtc => fmtCrtc
  | .plane => fmtPlane
  | .crtcStop => fmtPair
  | .planeStop => fmtPair

/-- The number of fields a command needs. -/
def Command.fields : Command → Nat
  | .auth => 2
  | .crtc => 6
  | .plane => 9
  | .crtcStop => 2
  | .planeStop => 2

/-- The text does not begin with two integers separated by a colon, or it does and fields of the command
they name are missing. -/
def Incomplete (text : List Byte) : Prop :=
  (sscanf fmtPair text).length < 2 ∨ ∃ mag num command, sscanf fmtPair text = [.int mag, .int num] ∧
    Command.ofCode num = some command ∧ (sscanf command.fmt text).length < command.fields

/-- The server does nothing but refuse. -/
structure Rejected (v : Visit) : Prop where
  calls : v.calls = []
  after : v.after = v.before
  writes : ∃ magic, v.writes = [(v.conn, reply magic .error)]

theorem scanPair_command {text : List Byte} (h : (sscanf fmtPair text).length < 2) (srv : Locals) :
    (scanPair text srv).command = srv.command := by
  have hnone : (sscanf fmtPair text)[1]? = none := List.getElem?_eq_none (by omega)
  simp [scanPair, intItem, hnone]

/-- An incomplete request that is not taken for one of the five commands has no second field. -/
theorem Incomplete.short {text : List Byte} (h : Incomplete text) {srv : Locals}
    (hcommand : Command.ofCode (scanPair text srv).command = none) : (sscanf fmtPair text).length < 2 := by
  rcases h with h | ⟨mag, num, command, hpair, hnum, -⟩
  · exact h
  · have : (scanPair text srv).command = num := by simp [scanPair, hpair, intItem]
    rw [this, hnum] at hcommand
    exact absurd hcommand (Option.some_ne_none command)

/-! ## One pass -/

section Pass
variable {magic command : U32} {text tx : List Byte} {ret : Int} {info : ClientInfo} {ans : DrmAnswers}
  {out : Handled}

theorem dispatch_refuses (hret : ret ≠ -1) (h : dispatch magic command text ret info tx ans = .ok out) :
    (out.calls = [] ∧ out.info = info ∧ ∃ m, out.sent magic = reply m .error) ↔
      Command.ofCode command = none := by
  constructor
  · rintro ⟨hcalls, -, m, hsent⟩
    obtain ⟨value, hvalue, hok⟩ := dispatch_sent hret h
    by_contra hknown
    have : value = .ok := hok.2 ⟨Option.isSome_iff_ne_none.2 hknown, by simp [hcalls]⟩
    rw [this, hsent] at hvalue
    exact reply_ok_ne_error magic m hvalue.symm
  · intro hnone
    unfold dispatch at h
    rw [hnone] at h
    obtain rfl := Except.ok.inj h
    exact ⟨rfl, rfl, magic, if_pos rfl⟩

variable {srv : Locals} {i : Slot} {c : Conn} {inp : SlotIn} {v : Visit} {rx : RxBytes}

theorem VisitOf.rejected (hv : VisitOf srv i c inp v) (hread : inp.read = .data rx)
    (hinc : Incomplete (cstr rx.bytes)) :
    Rejected v ↔ rxText rx ≠ none ∧ (sscanf fmtPair (cstr rx.bytes)).length < 2 ∧
      Command.ofCode srv.command = none ∧ inp.peerOpen = true := by
  have hunsent : v.writes = [] → ¬ Rejected v := by
    rintro hw ⟨-, -, m, hwrites⟩
    rw [hw] at hwrites
    exact (nomatch hwrites)
  have hcstr : ∀ {text}, rxText rx = some text → cstr rx.bytes = text := by
    intro text htext
    unfold rxText at htext
    split_ifs at htext
    exact Option.some.inj htext
  cases hv with
  | gone hgone => rcases hgone with hgone | hgone <;> exact (nomatch hread.symm.trans hgone)
  | overread rx' hrx hnone =>
      obtain rfl : rx = rx' := ReadResult.data.inj (hread.symm.trans hrx)
      exact iff_of_false (hunsent rfl) fun h => h.1 hnone
  | faulted rx' text f hrx htext hd =>
      obtain rfl : rx = rx' := ReadResult.data.inj (hread.symm.trans hrx)
      refine iff_of_false (hunsent rfl) ?_
      rintro ⟨-, hshort, hnone, -⟩
      rw [hcstr htext] at hshort
      unfold dispatch at hd
      rw [scanPair_command hshort, hnone] at hd
      exact (nomatch hd)
  | unsent rx' text out hrx htext hd hpeer =>
      refine iff_of_false (hunsent rfl) fun h => ?_
      rw [hpeer] at h
      exact (nomatch h.2.2.2)
  | replied rx' text out hrx htext hd hpeer =>
      obtain rfl : rx = rx' := ReadResult.data.inj (hread.symm.trans hrx)
      rw [hcstr htext] at hinc ⊢
      have hlen : (rx.bytes.length : Int) ≠ -1 := by omega
      have hrefuses := dispatch_refuses hlen hd
      constructor
      · rintro ⟨hcalls, hafter, m, hwrites⟩
        have hsent : out.sent (scanPair text srv).magic = reply m .error :=
          congrArg Prod.snd (List.head_eq_of_cons_eq hwrites)
        have hnone := hrefuses.1 ⟨hcalls, hafter, m, hsent⟩
        have hshort := hinc.short hnone
        rw [scanPair_command hshort] at hnone
        exact ⟨by simp [htext], hshort, hnone, hpeer⟩
      · rintro ⟨-, hshort, hnone, -⟩
        rw [scanPair_command hshort] at hrefuses
        obtain ⟨hcalls, hinfo, m, hsent⟩ := hrefuses.2 hnone
        exact ⟨hcalls, hinfo, m, by rw [hsent]; rfl⟩

end Pass

/-- **Incomplete requests**: every run rejects those, and only those, that have no second field while
`command` still holds none of the five numbers, and whose reply can be written. -/
theorem rejected_iff (g : Stack) (is : List Input) {pre post : List Obs} {v : Visit} {rx : RxBytes}
    (h : (server.run (boot g) is).2 = pre ++ .visit v :: post) (hread : v.input.read = .data rx)
    (hinc : Incomplete (cstr rx.bytes)) :
    Rejected v ↔ rxText rx ≠ none ∧ (sscanf fmtPair (cstr rx.bytes)).length < 2 ∧
      Command.ofCode v.held.2 = none ∧ v.input.peerOpen = true := by
  obtain ⟨srv, hv, -⟩ := run_savedOf g is h
  rw [hv.held_eq]
  exact hv.rejected hread hinc

/-- The first client of a server that started with 9 in `command` sends "x". -/
def nonsense : List Input := connect 0 ++ request .first (.ofText [ch 'x'] .zero)

theorem rejected_iff_nonsense :
    ∃ v, (server.run (boot { Stack.zero with command := 9 }) nonsense).2 =
      [.accepted 0 (some .first), .visit v] ∧ Rejected v := by
  let v := (visit (server.run (boot { Stack.zero with command := 9 }) (connect 0)).1.locals .first 0
    (.ofText [ch 'x'] .zero)).2
  have hrun : (server.run (boot { Stack.zero with command := 9 }) nonsense).2 =
      [.accepted 0 (some .first)] ++ .visit v :: [] := by rfl
  have hread : v.input.read = .data ⟨[ch 'x'], by decide, by decide⟩ := rfl
  refine ⟨v, hrun, (rejected_iff _ _ hrun hread ?_).2 ?_⟩
  · exact Or.inl (by decide)
  · exact ⟨by decide, by decide, by decide, rfl⟩

/-- CMD_PLANE without a single field of its own: the server sets the plane of the slot's entry. -/
theorem not_rejected :
    ¬ ∀ (g : Stack) (is : List Input) (pre post : List Obs) (v : Visit) (rx : RxBytes),
      (server.run (boot g) is).2 = pre ++ .visit v :: post → v.input.read = .data rx →
        Incomplete (cstr rx.bytes) → Rejected v := by
  intro h
  let v := (visit (server.run (boot .zero) (connect 0)).1.locals .first 0 (.ofText (pairText 7 2) .zero)).2
  have hrun : (server.run (boot .zero) (connect 0 ++ request .first (.ofText (pairText 7 2) .zero))).2 =
      [.accepted 0 (some .first)] ++ .visit v :: [] := by rfl
  have hrejected : Rejected v := by
    refine h _ _ _ _ v ⟨pairText 7 2, by decide, by decide⟩ hrun rfl ?_
    exact Or.inr ⟨7, 2, .plane, by decide, by decide, by decide⟩
  have hcalls : v.calls = [.setPlane (planeArgs ClientInfo.zero) 0] := by decide +kernel
  exact List.cons_ne_nil _ _ (hcalls.symm.trans hrejected.calls)

end SysSnippets.Drm
