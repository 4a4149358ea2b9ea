import SysSnippets.Drm.Commands
import SysSnippets.Lib.SaveRestore

/-!
# Display restoration in `drm_server`

* `display d calls` : the configurations of the CRTCs after the calls, starting from `d`;
* `DrmCall.Truthful` : a call that succeeds, and reports the current configuration if it reports one;
* `Visit.op` : CMD_CRTC and CMD_CRTC_STOP as operations on shared settings;
* `Effect`, `effect_visit` : what a pass does to the display and to `saved_crtc`;
* `Restores`, `restores_visits` : the server's display is the one of the library's `Values`;
* `server_restores` : as long as every CMD_CRTC_STOP is proper, a CRTC that all its clients have stopped
  using is back at the configuration it had before the first of them.
-/

namespace SysSnippets.Drm
open SysSnippets.Lib

/-- What `drmModeSetCrtc` installs on a CRTC. -/
structure Config where
  bufferId : U32
  x : U32
  y : U32
  mode : ModeInfo
  deriving DecidableEq

def Crtc.config (c : Crtc) : Config := ⟨c.bufferId, c.x, c.y, c.mode⟩

/-- The CRTCs with their configurations. -/
abbrev Display := U32 → Config

/-- The configuration a call installs. -/
def DrmCall.sets : DrmCall → Option (U32 × Config)
  | .setCrtc id bufferId x y _ mode ret => if ret = 0 then some (id, ⟨bufferId, x, y, mode⟩) else none
  | _ => none

def DrmCall.apply (d : Display) (c : DrmCall) : Display :=
  match c.sets with
  | none => d
  | some (id, config) => Function.update d id config

/-- The display after the calls. -/
def display (d : Display) (calls : List DrmCall) : Display := calls.foldl DrmCall.apply d

/-- The call succeeds, and `drmModeGetCrtc` returns the current configuration with `mode_valid` set. -/
def DrmCall.Truthful (d : Display) (c : DrmCall) : Prop :=
  c.Ok ∧ ∀ id r, c = .getCrtc id (some r) → r.crtcId = id ∧ r.modeValid = true ∧ r.config = d id

instance (d : Display) : DecidablePred (DrmCall.Truthful d) := fun c =>
  match c with
  | .getCrtc id (some r) =>
      decidable_of_iff (r.crtcId = id ∧ r.modeValid = true ∧ r.config = d id)
        ⟨fun h => ⟨rfl, fun _ _ e => by cases e; exact h⟩, fun h => h.2 id r rfl⟩
  | .authMagic _ _ | .getResources _ | .freeResources | .getConnector _ _ | .freeConnector _
  | .modeByName _ _ _ | .getCrtc _ none | .setCrtc _ _ _ _ _ _ _ | .setPlane _ _ =>
      decidable_of_iff (DrmCall.Ok _) ⟨fun h => ⟨h, fun _ _ e => by cases e⟩, fun h => h.1⟩

/-- All DRM calls of a history. -/
def callsOf (h : List Obs) : List DrmCall := (visits h).flatMap (·.calls)

/-- The command of the accepted request. -/
def Visit.cmd (v : Visit) : Option Command := v.request.bind fun r => Command.ofCode r.2

/-- An executed CMD_CRTC takes a CRTC, and an executed CMD_CRTC_STOP puts back what was saved. -/
def Visit.op (v : Visit) : Option (SettingOp Conn U32 Config) :=
  match v.cmd, v.calls.findSome? DrmCall.sets with
  | some .crtc, some (k, config) => some (.take v.conn k config)
  | some .crtcStop, some _ => some (.put v.conn)
  | _, _ => none

/-- The requests of a history that change the display. -/
def opsOf (vs : List Visit) : List (SettingOp Conn U32 Config) := vs.filterMap Visit.op

/-- The pass executed a CMD_CRTC on CRTC `k`. -/
def Visit.Took (v : Visit) (k : U32) : Prop := ∃ config, v.op = some (.take v.conn k config)

/-- The pass answered a CMD_CRTC_STOP with DRM_OK. -/
def Visit.Stopped (v : Visit) : Prop :=
  v.cmd = some .crtcStop ∧ ∃ r ∈ v.request, v.writes = [(v.conn, reply r.1 .ok)]

instance (v : Visit) : Decidable v.Stopped := inferInstanceAs (Decidable (_ ∧ _))

instance (v : Visit) (k : U32) : Decidable (v.Took k) :=
  match h : v.op with
  | some (.take c j config) =>
      decidable_of_iff (c = v.conn ∧ j = k)
        ⟨fun e => ⟨config, by rw [h, e.1, e.2]⟩, fun ⟨_, e⟩ => by rw [h] at e; cases e; exact ⟨rfl, rfl⟩⟩
  | some (.put _) => isFalse fun ⟨_, e⟩ => by rw [h] at e; cases e
  | none => isFalse fun ⟨_, e⟩ => by rw [h] at e; cases e

/-! ## One pass -/

theorem DrmCall.Aside.sets {c : DrmCall} (h : c.Aside) : c.sets = none := by
  cases c <;> first | rfl | exact h.elim

/-- What a pass whose calls succeed does. -/
inductive Effect (v : Visit) : Prop
  | take (ls : List DrmCall) (k conn fb : U32) (mode : ModeInfo) (old new : Crtc)
      (hls : ∀ c ∈ ls, c.Aside)
      (hcalls : v.calls = ls ++ [.getCrtc k (some old), .setCrtc k fb 0 0 conn mode 0,
        .getCrtc k (some new)])
      (hop : v.op = some (.take v.conn k ⟨fb, 0, 0, mode⟩))
  | put (conn : U32) (crtc : Crtc) (hbefore : v.before.savedCrtc = .obj crtc)
      (hcalls : v.calls = [.setCrtc crtc.crtcId crtc.bufferId crtc.x crtc.y conn crtc.mode 0])
      (hop : v.op = some (.put v.conn))
  | aside (hsets : ∀ c ∈ v.calls, c.sets = none) (hsaved : ∀ crtc, savedBy v.calls ≠ some (some crtc))
      (hop : v.op = none)

theorem findSome_sets_none {calls : List DrmCall} (h : ∀ c ∈ calls, c.sets = none) :
    calls.findSome? DrmCall.sets = none :=
  List.findSome?_eq_none_iff.2 h

theorem op_aside {v : Visit} (h : ∀ c ∈ v.calls, c.sets = none) : v.op = none := by
  unfold Visit.op
  rw [findSome_sets_none h]
  split <;> simp_all

theorem effect_aside {v : Visit} (hsets : ∀ c ∈ v.calls, c.sets = none)
    (hsaved : ∀ crtc, savedBy v.calls ≠ some (some crtc)) : Effect v :=
  .aside hsets hsaved (op_aside hsets)

section Dispatch
variable {v : Visit} {magic command : U32} {text tx : List Byte} {ret : Int} {info : ClientInfo}
  {ans : DrmAnswers} {out : Handled}

theorem effect_setNewCrtc (hcmd : v.cmd = some .crtc) (hok : ∀ c ∈ v.calls, c.Ok)
    (hcalls : v.calls = (setNewCrtc magic info tx ans).calls) : Effect v := by
  have hcases := newCrtc_setNewCrtc magic info tx ans
  generalize setNewCrtc magic info tx ans = out at hcalls hcases
  cases hcases with
  | noMode calls hm =>
      have := hok (.modeByName info.connId info.modeName none) (by simp [hcalls])
      simp [DrmCall.Ok] at this
  | noCrtc calls tm hm hc =>
      have := hok (.getCrtc info.crtcId none) (by simp [hcalls])
      simp [DrmCall.Ok] at this
  | notSet calls tm old hm hc hs =>
      have := hok (.setCrtc info.crtcId info.fb 0 0 info.connId tm ans.setCrtc) (by simp [hcalls])
      simp [DrmCall.Ok, hs] at this
  | noCurrent calls tm old hm hc hs ha =>
      have := hok (.getCrtc info.crtcId none) (by simp [hcalls])
      simp [DrmCall.Ok] at this
  | done calls tm old new hm hc hs ha =>
      have hls : ∀ c ∈ calls ++ [.modeByName info.connId info.modeName (some tm)], c.Aside := by
        intro c hc
        rcases List.mem_append.1 hc with hc | hc
        · exact aside_of_eq hm c hc
        · rw [List.mem_singleton] at hc
          rw [hc]
          trivial
      have hcalls' : v.calls = (calls ++ [.modeByName info.connId info.modeName (some tm)]) ++
          [.getCrtc info.crtcId (some old), .setCrtc info.crtcId info.fb 0 0 info.connId tm 0,
            .getCrtc info.crtcId (some new)] := by
        rw [hcalls]
        simp
      refine .take _ info.crtcId info.connId info.fb tm old new hls hcalls' ?_
      unfold Visit.op
      rw [hcmd, hcalls', List.findSome?_append, findSome_sets_none fun c hc => (hls c hc).sets]
      rfl

theorem effect_cmdCrtcStop (hcmd : v.cmd = some .crtcStop) (hok : ∀ c ∈ v.calls, c.Ok)
    (hbefore : v.before = info) (hd : cmdCrtcStop magic ret info tx ans = .ok out)
    (hcalls : v.calls = out.calls) : Effect v := by
  unfold cmdCrtcStop at hd
  cases hsaved : info.savedCrtc with
  | null => simp [hsaved] at hd
  | wild => simp [hsaved] at hd
  | obj crtc =>
      rw [hsaved] at hd
      dsimp only at hd
      by_cases hvalid : crtc.modeValid
      · have hset : v.calls = [.setCrtc crtc.crtcId crtc.bufferId crtc.x crtc.y info.connId crtc.mode
            ans.setCrtc] := by
          rw [if_pos hvalid] at hd
          split_ifs at hd <;> cases hd <;> exact hcalls
        have hret : ans.setCrtc = 0 := by
          have := hok _ (by rw [hset]; exact List.mem_singleton_self _)
          simpa [DrmCall.Ok] using this
        rw [hret] at hset
        refine .put info.connId crtc (by rw [hbefore, hsaved]) hset ?_
        unfold Visit.op
        rw [hcmd, hset]
        rfl
      · rw [if_neg hvalid] at hd
        cases hd
        have hnil : v.calls = [] := hcalls
        exact effect_aside (by simp [hnil]) (by simp [hnil, savedBy])

theorem effect_dispatch (hcmd : v.cmd = Command.ofCode command) (hok : ∀ c ∈ v.calls, c.Ok)
    (hbefore : v.before = info) (hd : dispatch magic command text ret info tx ans = .ok out)
    (hcalls : v.calls = out.calls) : Effect v := by
  unfold dispatch at hd
  generalize Command.ofCode command = cmd at hcmd hd
  have hplane : ∀ args, out = setPlane magic info args tx ans ∨
      (∃ info', out = setPlane magic info' args tx ans) → Effect v := by
    rintro args hout
    have hone : v.calls = [.setPlane args ans.setPlane] := by
      rcases hout with rfl | ⟨info', rfl⟩ <;> rw [hcalls] <;> unfold setPlane <;> dsimp only <;>
        split_ifs <;> rfl
    exact effect_aside (by simp [hone, DrmCall.sets]) (by simp [hone, savedBy])
  cases cmd with
  | none =>
      cases hd
      have hnil : v.calls = [] := hcalls
      exact effect_aside (by simp [hnil]) (by simp [hnil, savedBy])
  | some cmd =>
      cases cmd with
      | auth =>
          cases hd
          have hone : v.calls = [.authMagic magic ans.authMagic] := by
            rw [hcalls]
            unfold cmdAuth
            dsimp only
            split_ifs <;> rfl
          refine effect_aside (by simp [hone, DrmCall.sets]) fun crtc => ?_
          rw [hone]
          unfold savedBy
          split_ifs <;> simp
      | crtc =>
          dsimp only [cmdCrtc] at hd
          cases hscan : scanCrtc text info with
          | error f => simp [hscan, Except.map] at hd
          | ok info' =>
              simp only [hscan, Except.map, Except.ok.injEq] at hd
              rw [← hd] at hcalls
              exact effect_setNewCrtc hcmd hok hcalls
      | plane =>
          cases hd
          exact hplane _ (Or.inr ⟨_, rfl⟩)
      | crtcStop => exact effect_cmdCrtcStop hcmd hok hbefore hd hcalls
      | planeStop =>
          cases hd
          exact hplane _ (Or.inl rfl)

end Dispatch

theorem effect_visit {srv : Locals} {v : Visit} (hv : VisitOf srv v.slot v.conn v.input v)
    (hok : ∀ c ∈ v.calls, c.Ok) : Effect v := by
  have hbefore := hv.before_eq
  generalize hi : v.slot = i, hc : v.conn = c, hinp : v.input = inp at hv hbefore
  cases hv with
  | gone _ => exact effect_aside (by simp [Visit.start]) (by simp [Visit.start, savedBy])
  | overread rx _ _ => exact effect_aside (by simp [Visit.start]) (by simp [Visit.start, savedBy])
  | faulted rx text f _ _ _ => exact effect_aside (by simp [Visit.start]) (by simp [Visit.start, savedBy])
  | unsent rx text out hread htext hd hpeer => exact effect_dispatch rfl hok hbefore hd rfl
  | replied rx text out hread htext hd hpeer => exact effect_dispatch rfl hok hbefore hd rfl

/-! ## Runs -/

theorem display_append (d : Display) (a b : List DrmCall) :
    display d (a ++ b) = display (display d a) b := by
  simp [display]

theorem display_of_sets_none (d : Display) {calls : List DrmCall} (h : ∀ c ∈ calls, c.sets = none) :
    display d calls = d := by
  induction calls with
  | nil => rfl
  | cons c calls ih =>
      have hc : c.apply d = d := by
        unfold DrmCall.apply
        rw [h c List.mem_cons_self]
      show display (c.apply d) calls = d
      rw [hc, ih fun e he => h e (List.mem_cons_of_mem _ he)]

/-- Each pass is one over a slot whose entry agrees with what its connection stored. -/
def Genuine (vs : List Visit) : Prop :=
  Every (fun us v => ∃ srv, VisitOf srv v.slot v.conn v.input v ∧
    SavedIn (us.filter (·.conn = v.conn)) (srv.info v.slot)) vs

theorem run_genuine (g : Stack) (is : List Input) : Genuine (visits (server.run (boot g) is).2) := by
  intro us v ws e
  obtain ⟨pre, post, hsplit, hpre, -⟩ := split_of_visits e
  obtain ⟨srv, hv, hs⟩ := run_savedOf g is hsplit
  rw [visitsOf, hpre] at hs
  exact ⟨srv, hv, hs⟩

/-- The server against the library: the display is `cur`, and `saved_crtc` is `saved`. -/
structure Restores (d : Display) (us : List Visit) : Prop where
  cur : display d (us.flatMap (·.calls)) = ((Values.start d).after (opsOf us)).cur
  saved : ∀ c crtc, savedOf (us.filter (·.conn = c)) = some (some crtc) →
    crtc.modeValid = true ∧
      ((Values.start d).after (opsOf us)).saved c = some (crtc.crtcId, crtc.config)
  unsaved : ∀ c, savedOf (us.filter (·.conn = c)) = none →
    ((Values.start d).after (opsOf us)).saved c = none

/-- The calls are truthful, from the display `d` on. -/
def TruthfulFrom (d : Display) (calls : List DrmCall) : Prop :=
  Every (fun pre c => c.Truthful (display d pre)) calls

instance (d : Display) : DecidablePred (TruthfulFrom d) := fun calls =>
  inferInstanceAs (Decidable (Every (fun pre c => c.Truthful (display d pre)) calls))

theorem restores_nil (d : Display) : Restores d [] :=
  ⟨rfl, fun _ _ h => (by cases h), fun _ _ => rfl⟩

theorem opsOf_snoc (us : List Visit) (v : Visit) : opsOf (us ++ [v]) = opsOf us ++ v.op.toList := by
  unfold opsOf
  rw [List.filterMap_append]
  cases h : v.op with
  | none => simp [h]
  | some op => simp [h]

/-- What a connection stored, after one more pass. -/
theorem savedOf_filter_snoc (us : List Visit) (v : Visit) (c : Conn) :
    savedOf ((us ++ [v]).filter (·.conn = c)) =
      if v.conn = c then (savedBy v.calls).or (savedOf (us.filter (·.conn = c)))
      else savedOf (us.filter (·.conn = c)) := by
  rw [List.filter_append]
  split_ifs with hc
  · rw [List.filter_cons_of_pos (by simpa using hc), List.filter_nil, savedOf_snoc]
    cases savedBy v.calls <;> rfl
  · rw [List.filter_cons_of_neg (by simpa using hc), List.filter_nil, List.append_nil]

section Step
variable {d : Display} {us : List Visit} {srv : Locals} {v : Visit}

theorem Restores.take (h : Restores d us) {ls : List DrmCall} {k conn fb : U32} {mode : ModeInfo}
    {old new : Crtc} (hls : ∀ c ∈ ls, c.Aside)
    (hcalls : v.calls = ls ++ [.getCrtc k (some old), .setCrtc k fb 0 0 conn mode 0,
      .getCrtc k (some new)])
    (hop : v.op = some (.take v.conn k ⟨fb, 0, 0, mode⟩))
    (ht : TruthfulFrom (display d (us.flatMap (·.calls))) v.calls) : Restores d (us ++ [v]) := by
  have hquiet := display_of_sets_none (display d (us.flatMap (·.calls))) fun c hc => (hls c hc).sets
  have hby : savedBy v.calls = some (some old) := by
    rw [hcalls, savedBy_aside hls]
    rfl
  obtain ⟨hid, hvalid, hconfig⟩ := (ht ls _ _ hcalls).2 k old rfl
  rw [hquiet, h.cur] at hconfig
  refine ⟨?_, fun c crtc hc => ?_, fun c hc => ?_⟩
  · rw [List.flatMap_append, List.flatMap_singleton, display_append, hcalls, display_append, hquiet,
      h.cur, opsOf_snoc, hop, Option.toList_some, Values.after_snoc]
    rfl
  · rw [savedOf_filter_snoc, hby] at hc
    rw [opsOf_snoc, hop, Option.toList_some, Values.after_snoc]
    show crtc.modeValid = true ∧ Function.update _ v.conn _ c = _
    by_cases hvc : v.conn = c
    · rw [if_pos hvc] at hc
      obtain rfl : old = crtc := by simpa using hc
      rw [hvc, Function.update_self, hid, hconfig]
      exact ⟨hvalid, rfl⟩
    · rw [if_neg hvc] at hc
      rw [Function.update_of_ne (Ne.symm hvc)]
      exact h.saved c crtc hc
  · rw [savedOf_filter_snoc, hby] at hc
    rw [opsOf_snoc, hop, Option.toList_some, Values.after_snoc]
    show Function.update ((Values.start d).after (opsOf us)).saved v.conn (some _) c = none
    by_cases hvc : v.conn = c
    · simp [hvc] at hc
    · rw [if_neg hvc] at hc
      rw [Function.update_of_ne (Ne.symm hvc)]
      exact h.unsaved c hc

/-- An object in `saved_crtc` is the one the connection stored, if it took a CRTC at all. -/
theorem Restores.own (h : Restores d us) {crtc : Crtc} (hbefore : v.before.savedCrtc = .obj crtc)
    (hs : SavedIn (us.filter (·.conn = v.conn)) v.before)
    (hsome : ((Values.start d).after (opsOf us)).saved v.conn ≠ none) :
    savedOf (us.filter (·.conn = v.conn)) = some (some crtc) := by
  cases hof : savedOf (us.filter (·.conn = v.conn)) with
  | none => exact absurd (h.unsaved v.conn hof) hsome
  | some ret =>
      have hptr := hs ret hof
      rw [hbefore] at hptr
      cases ret with
      | none => cases hptr
      | some r =>
          cases hptr
          rfl

theorem Restores.put (h : Restores d us) {conn : U32} {crtc : Crtc}
    (hbefore : v.before.savedCrtc = .obj crtc)
    (hcalls : v.calls = [.setCrtc crtc.crtcId crtc.bufferId crtc.x crtc.y conn crtc.mode 0])
    (hop : v.op = some (.put v.conn)) (hs : SavedIn (us.filter (·.conn = v.conn)) v.before)
    (hsome : ((Values.start d).after (opsOf us)).saved v.conn ≠ none) : Restores d (us ++ [v]) := by
  have hown := h.own hbefore hs hsome
  have hput : ((Values.start d).after (opsOf us)).step (.put v.conn) =
      { ((Values.start d).after (opsOf us)) with
        cur := Function.update ((Values.start d).after (opsOf us)).cur crtc.crtcId crtc.config } := by
    simp only [Values.step, (h.saved v.conn crtc hown).2]
  have hby : savedBy v.calls = none := by rw [hcalls]; rfl
  have hkeep : ∀ c, savedOf ((us ++ [v]).filter (·.conn = c)) = savedOf (us.filter (·.conn = c)) := by
    intro c
    rw [savedOf_filter_snoc, hby]
    split_ifs <;> rfl
  refine ⟨?_, fun c r hc => ?_, fun c hc => ?_⟩
  · rw [List.flatMap_append, List.flatMap_singleton, display_append, hcalls, h.cur, opsOf_snoc, hop,
      Option.toList_some, Values.after_snoc, hput]
    rfl
  · rw [hkeep] at hc
    rw [opsOf_snoc, hop, Option.toList_some, Values.after_snoc, hput]
    exact h.saved c r hc
  · rw [hkeep] at hc
    rw [opsOf_snoc, hop, Option.toList_some, Values.after_snoc, hput]
    exact h.unsaved c hc

theorem Restores.aside (h : Restores d us) (hsets : ∀ c ∈ v.calls, c.sets = none)
    (hsaved : ∀ crtc, savedBy v.calls ≠ some (some crtc)) (hop : v.op = none) :
    Restores d (us ++ [v]) := by
  have hops : opsOf (us ++ [v]) = opsOf us := by
    rw [opsOf_snoc, hop, Option.toList_none, List.append_nil]
  refine ⟨?_, fun c r hc => ?_, fun c hc => ?_⟩
  · rw [List.flatMap_append, List.flatMap_singleton, display_append, display_of_sets_none _ hsets,
      h.cur, hops]
  · rw [hops]
    rw [savedOf_filter_snoc] at hc
    cases hby : savedBy v.calls with
    | none =>
        rw [hby, Option.none_or, ite_self] at hc
        exact h.saved c r hc
    | some ret =>
        split_ifs at hc
        · rw [hby] at hc
          exact absurd (hby.trans (congrArg some (Option.some.inj hc))) (hsaved r)
        · exact h.saved c r hc
  · rw [hops]
    rw [savedOf_filter_snoc] at hc
    apply h.unsaved
    split_ifs at hc
    · exact (Option.or_eq_none_iff.1 hc).2
    · exact hc

end Step

/-- **The server refines the library.** -/
theorem restores_visits (d : Display) : ∀ us : List Visit, Genuine us →
    TruthfulFrom d (us.flatMap (·.calls)) → ProperOps (opsOf us) → Restores d us := by
  intro us
  induction us using List.reverseRec with
  | nil => exact fun _ _ _ => restores_nil d
  | append_singleton us v ih =>
      intro hgen htruth hproper
      obtain ⟨hgenus, srv, hv, hs⟩ := every_snoc.1 hgen
      rw [List.flatMap_append, List.flatMap_singleton] at htruth
      obtain ⟨htruthus, htruthv⟩ := every_append.1 htruth
      have htruthv : TruthfulFrom (display d (us.flatMap (·.calls))) v.calls := by
        intro pre c post e
        rw [← display_append]
        exact htruthv pre c post e
      have hok : ∀ c ∈ v.calls, c.Ok := by
        intro c hc
        obtain ⟨pre, post, e⟩ := List.append_of_mem hc
        exact (htruthv pre c post e).1
      rw [opsOf_snoc] at hproper
      obtain ⟨hproperus, hproperv⟩ := every_append.1 hproper
      have hus := ih hgenus htruthus hproperus
      cases effect_visit hv hok with
      | take ls k conn fb mode old new hls hcalls hop => exact hus.take hls hcalls hop htruthv
      | aside hsets hsaved hop => exact hus.aside hsets hsaved hop
      | put conn crtc hbefore hcalls hop =>
          rw [hop, Option.toList_some, every_singleton, List.append_nil] at hproperv
          obtain ⟨k, outermost, hlast⟩ := (hproperv v.conn rfl).1
          obtain ⟨w, hw, -⟩ := (restoring_after d _ hproperus).taken v.conn k outermost hlast
          rw [← hv.before_eq] at hs
          exact hus.put hbefore hcalls hop hs (by rw [hw]; simp)

/-! ## CRTCs that all clients have stopped using -/

/-- Every connection that had a CMD_CRTC on CRTC `k` executed has afterwards had a CMD_CRTC_STOP answered
with DRM_OK. -/
def Released (vs : List Visit) (k : U32) : Prop :=
  ∀ us w ws, vs = us ++ w :: ws → w.Took k → ∃ u ∈ ws, u.conn = w.conn ∧ u.Stopped

theorem released_cons {w : Visit} {ws : List Visit} {k : U32} :
    Released (w :: ws) k ↔ (w.Took k → ∃ u ∈ ws, u.conn = w.conn ∧ u.Stopped) ∧ Released ws k := by
  constructor
  · intro h
    exact ⟨fun hw => h [] w ws rfl hw, fun us x xs e hx => h (w :: us) x xs (by rw [e]; rfl) hx⟩
  · rintro ⟨hw, hws⟩ us x xs e hx
    cases us with
    | nil =>
        cases e
        exact hw hx
    | cons u us =>
        simp only [List.cons_append, List.cons.injEq] at e
        exact hws us x xs e.2 hx

instance Released.decidable (k : U32) : ∀ vs, Decidable (Released vs k)
  | [] => isTrue fun us w ws e => by simp at e
  | _ :: ws =>
      have := Released.decidable k ws
      decidable_of_iff _ released_cons.symm

/-- If `v` is the first CMD_CRTC on CRTC `k` and the CRTC is released, then it is configured as before `v`. -/
def Restored (d : Display) (h : List Obs) (k : U32) : Prop :=
  ∀ pre v post, h = pre ++ .visit v :: post → v.Took k → (∀ w ∈ visits pre, ¬ w.Took k) →
    Released (visits h) k → display d (callsOf h) k = display d (callsOf pre) k

theorem op_take {v : Visit} {c : Conn} {k : U32} {config : Config} (h : v.op = some (.take c k config)) :
    v.cmd = some .crtc ∧ v.conn = c := by
  unfold Visit.op at h
  split at h
  · next hcmd _ =>
    cases h
    exact ⟨hcmd, rfl⟩
  · cases h
  · cases h

theorem split_of_ops {vs : List Visit} {a b : List (SettingOp Conn U32 Config)}
    {op : SettingOp Conn U32 Config} (h : opsOf vs = a ++ op :: b) :
    ∃ us w ws, vs = us ++ w :: ws ∧ w.op = some op ∧ opsOf ws = b := by
  obtain ⟨us, rest, rfl, -, hrest⟩ := List.filterMap_eq_append_iff.1 h
  obtain ⟨silent, w, ws, rfl, -, hw, hws⟩ := List.filterMap_eq_cons_iff.1 hrest
  exact ⟨us ++ silent, w, ws, by simp, hw, hws⟩

theorem stopped_saved {srv : Locals} {v : Visit} (hv : VisitOf srv v.slot v.conn v.input v)
    (h : v.Stopped) : ∃ crtc, v.before.savedCrtc = .obj crtc ∧ (crtc.modeValid = true →
      ∃ conn ret, v.calls =
        [.setCrtc crtc.crtcId crtc.bufferId crtc.x crtc.y conn crtc.mode ret]) := by
  obtain ⟨hcmd, r, -, hwrites⟩ := h
  have hbefore := hv.before_eq
  generalize hi : v.slot = i, hc : v.conn = c, hinp : v.input = inp at hv hbefore hwrites
  cases hv with
  | replied rx text out hread htext hd hpeer =>
      have hcmd : Command.ofCode (scanPair text srv).command = some .crtcStop := hcmd
      unfold dispatch at hd
      rw [hcmd] at hd
      dsimp only [cmdCrtcStop] at hd
      rw [hbefore]
      cases hsaved : (srv.info i).savedCrtc with
      | null => simp [hsaved] at hd
      | wild => simp [hsaved] at hd
      | obj crtc =>
          rw [hsaved] at hd
          refine ⟨crtc, rfl, fun hvalid => ⟨(srv.info i).connId, inp.answers.setCrtc, ?_⟩⟩
          dsimp only at hd
          rw [if_pos hvalid] at hd
          split_ifs at hd <;> cases hd <;> rfl
  | _ => cases hwrites

theorem put_of_stopped {d : Display} {us : List Visit} {srv : Locals} {v : Visit}
    (hv : VisitOf srv v.slot v.conn v.input v) (hs : SavedIn (us.filter (·.conn = v.conn)) v.before)
    (hok : ∀ c ∈ v.calls, c.Ok) (hus : Restores d us)
    (hsome : ((Values.start d).after (opsOf us)).saved v.conn ≠ none) (h : v.Stopped) :
    v.op = some (.put v.conn) := by
  obtain ⟨crtc, hbefore, hcalls⟩ := stopped_saved hv h
  cases effect_visit hv hok with
  | put conn crtc hbefore hcalls hop => exact hop
  | take ls k conn fb mode old new hls hcalls hop =>
      have := (op_take hop).1
      rw [h.1] at this
      cases this
  | aside hsets hsaved hop =>
      have hown := hus.own hbefore hs hsome
      obtain ⟨conn, ret, hset⟩ := hcalls (hus.saved v.conn crtc hown).1
      have hmem : DrmCall.setCrtc crtc.crtcId crtc.bufferId crtc.x crtc.y conn crtc.mode ret ∈ v.calls := by
        rw [hset]
        exact List.mem_singleton_self _
      have hret : ret = 0 := hok _ hmem
      have hnone := hsets _ hmem
      simp [DrmCall.sets, hret] at hnone

section Release
variable {d : Display} {vs us ws : List Visit} {k : U32}

/-- No client has a released CRTC open. -/
theorem closed_of_released (hgen : Genuine vs) (htruth : TruthfulFrom d (vs.flatMap (·.calls)))
    (hproper : ProperOps (opsOf vs)) (hreleased : Released vs k) :
    (Order.start.after (opsOf vs)).Closed k := by
  intro c
  by_contra hopen
  obtain ⟨a, config, b, hops, hput⟩ := exists_take_of_opened _ (by simpa using hopen)
  obtain ⟨us, w, ws, rfl, hw, hb⟩ := split_of_ops hops
  obtain ⟨-, rfl⟩ := op_take hw
  obtain ⟨u, hu, huw, hstop⟩ := hreleased us w ws rfl ⟨config, hw⟩
  obtain ⟨xs, ys, rfl⟩ := List.append_of_mem hu
  -- what precedes the CMD_CRTC_STOP `u`
  have hvs : us ++ w :: (xs ++ u :: ys) = (us ++ w :: xs) ++ u :: ys := by simp
  rw [hvs] at hgen htruth hproper
  obtain ⟨srv, hv, hs⟩ := hgen (us ++ w :: xs) u ys rfl
  rw [List.flatMap_append] at htruth
  obtain ⟨htruthus, htruthu⟩ := every_append.1 htruth
  rw [opsOf, List.filterMap_append] at hproper
  have hus := restores_visits d _ (every_append.1 hgen).1 htruthus (every_append.1 hproper).1
  have hok : ∀ c ∈ u.calls, c.Ok := by
    intro c hc
    obtain ⟨pre, post, e⟩ := List.append_of_mem hc
    exact (htruthu pre c (post ++ ys.flatMap (·.calls)) (by simp [e])).1
  have htake : .take w.conn k config ∈ opsOf (us ++ w :: xs) := by
    simp only [opsOf, List.mem_filterMap]
    exact ⟨w, by simp, hw⟩
  rw [← hv.before_eq] at hs
  have hop := put_of_stopped hv hs hok hus (by rw [huw]; exact saved_of_take htake) hstop
  apply hput
  rw [← hb, ← huw]
  simp only [opsOf, List.mem_filterMap]
  exact ⟨u, hu, hop⟩

/-- A CRTC that no client took is as it was at the start. -/
theorem closed_of_untaken (hnone : ∀ w ∈ us, ¬ w.Took k) : (Order.start.after (opsOf us)).Closed k := by
  intro c
  by_contra hopen
  obtain ⟨a, config, b, hops, -⟩ := exists_take_of_opened _ (by simpa using hopen)
  obtain ⟨xs, w, ys, rfl, hw, -⟩ := split_of_ops hops
  obtain ⟨-, rfl⟩ := op_take hw
  exact hnone w (by simp) ⟨config, hw⟩

theorem display_of_closed (hgen : Genuine us) (htruth : TruthfulFrom d (us.flatMap (·.calls)))
    (hproper : ProperOps (opsOf us)) (hclosed : (Order.start.after (opsOf us)).Closed k) :
    display d (us.flatMap (·.calls)) k = d k := by
  rw [(restores_visits d us hgen htruth hproper).cur]
  exact restored hproper hclosed

end Release

/-- **Display restoration.** All DRM calls succeed and report truthfully. If every CMD_CRTC_STOP is proper,
then a CRTC that all its clients have released has the configuration it had before the first CMD_CRTC. -/
theorem server_restores {g : Stack} {is : List Input} {d : Display}
    (htruth : TruthfulFrom d (callsOf (server.run (boot g) is).2))
    (hproper : ProperOps (opsOf (visits (server.run (boot g) is).2))) (k : U32) :
    Restored d (server.run (boot g) is).2 k := by
  intro pre v post hsplit hv hfirst hreleased
  have hgen := run_genuine g is
  have hclosed := closed_of_released hgen htruth hproper hreleased
  have hend := display_of_closed hgen htruth hproper hclosed
  have hvisits : visits (server.run (boot g) is).2 = visits pre ++ v :: visits post := by
    rw [hsplit]
    simp [visits]
  rw [hvisits] at hgen hproper
  rw [callsOf, hvisits, List.flatMap_append] at htruth
  rw [opsOf, List.filterMap_append] at hproper
  have hstart := display_of_closed (every_append.1 hgen).1 (every_append.1 htruth).1
    (every_append.1 hproper).1 (closed_of_untaken hfirst)
  exact hend.trans hstart.symm

/-! ## Two clients -/

def plainMode : ModeInfo := ⟨[ch 'm'], 16, 16, []⟩

/-- Every CRTC shows framebuffer 5. -/
def plainDisplay : Display := fun _ => ⟨5, 0, 0, plainMode⟩

/-- A client sets framebuffer `fb` on CRTC 1, which shows framebuffer `old`. -/
def crtcInput (fb old : U32) : SlotIn :=
  .ofText (joinD [7, 1, 1, 3, fb] ++ ch ':' :: plainMode.name)
    { DrmAnswers.zero with
      resources := some [(3, some ⟨3, [plainMode]⟩)]
      crtc := some ⟨1, old, 0, 0, true, plainMode⟩
      crtcAfter := some ⟨1, fb, 0, 0, true, plainMode⟩ }

def stopInput : SlotIn := .ofText (pairText 7 3) .zero

/-- Two clients set their framebuffers on CRTC 1 and stop in the same order. -/
def unnested : List Obs :=
  (server.run (boot .zero) (connect 0 ++ connect 1 ++ request .first (crtcInput 10 5) ++
    request .second (crtcInput 20 10) ++ request .first stopInput ++ request .second stopInput)).2

/-- The display is left with the first client's framebuffer. -/
theorem not_restored_unnested :
    TruthfulFrom plainDisplay (callsOf unnested) ∧ ¬ Restored plainDisplay unnested 1 := by
  refine ⟨by decide +kernel, fun h => ?_⟩
  have hsplit : unnested = unnested.take 2 ++
      .visit ((visits unnested).head (by decide +kernel)) :: unnested.drop 3 := by
    decide +kernel
  have hequal := h _ _ _ hsplit (by decide +kernel) (by decide +kernel) (by decide +kernel)
  revert hequal
  decide +kernel

/-- Two clients set their framebuffers on CRTC 1, and the second one stops first. -/
def nested : List Input :=
  connect 0 ++ connect 1 ++ request .first (crtcInput 10 5) ++ request .second (crtcInput 20 10) ++
    request .second stopInput ++ request .first stopInput

theorem server_restores_nested :
    display plainDisplay (callsOf (server.run (boot .zero) nested).2) 1 =
      display plainDisplay (callsOf ((server.run (boot .zero) nested).2.take 2)) 1 := by
  have hops : opsOf (visits (server.run (boot .zero) nested).2) =
      [.take 0 1 ⟨10, 0, 0, plainMode⟩, .take 1 1 ⟨20, 0, 0, plainMode⟩, .put 1, .put 0] := by
    decide +kernel
  have hsplit : (server.run (boot .zero) nested).2 = (server.run (boot .zero) nested).2.take 2 ++
      .visit ((visits (server.run (boot .zero) nested).2).head (by decide +kernel)) ::
        (server.run (boot .zero) nested).2.drop 3 := by
    decide +kernel
  exact server_restores (by decide +kernel) (hops ▸ properOps_nested (by decide) 1 _ _) 1 _ _ _ hsplit
    (by decide +kernel) (by decide +kernel) (by decide +kernel)

end SysSnippets.Drm
