import SysSnippets.Drm.ServerRuns

/-!
# The five commands of `drm_server`

* `NewCrtc`, `newCrtc_setNewCrtc` : the ways CMD_CRTC can go after its `sscanf`;
* `dispatch_error` : which requests are undefined behaviour;
* `dispatch_agrees` : `ret` is -1 iff the command is unknown or a call failed, and otherwise
  `tx_buf` holds the DRM_OK response;
* `savedBy`, `dispatch_saved` : the assignments to `saved_crtc` are the ones the calls show;
* `savedOf`, `run_savedOf` : while a connection holds its slot, `saved_crtc` is what its own requests
  last stored there.
-/

namespace SysSnippets.Drm
open SysSnippets.Lib

/-! ## CMD_CRTC -/

/-- The ways CMD_CRTC can go after its `sscanf`. -/
inductive NewCrtc (magic : U32) (info : ClientInfo) (tx : List Byte) (ans : DrmAnswers) : Handled → Prop
  | noMode (calls : List DrmCall)
      (hm : drmGetModeByName ans.resources info.connId info.modeName = (calls, none)) :
      NewCrtc magic info tx ans
        { info, tx, ret := -1, calls := calls ++ [.modeByName info.connId info.modeName none] }
  | noCrtc (calls : List DrmCall) (tm : ModeInfo)
      (hm : drmGetModeByName ans.resources info.connId info.modeName = (calls, some tm))
      (hc : ans.crtc = none) :
      NewCrtc magic info tx ans
        { info := { info with mode := some tm, savedCrtc := .null }
          tx
          ret := -1
          calls := calls ++ [.modeByName info.connId info.modeName (some tm),
            .getCrtc info.crtcId none] }
  | notSet (calls : List DrmCall) (tm : ModeInfo) (old : Crtc)
      (hm : drmGetModeByName ans.resources info.connId info.modeName = (calls, some tm))
      (hc : ans.crtc = some old) (hs : ans.setCrtc ≠ 0) :
      NewCrtc magic info tx ans
        { info := { info with mode := some tm, savedCrtc := .obj old }
          tx
          ret := -1
          calls := calls ++ [.modeByName info.connId info.modeName (some tm),
            .getCrtc info.crtcId (some old),
            .setCrtc info.crtcId info.fb 0 0 info.connId tm ans.setCrtc] }
  | noCurrent (calls : List DrmCall) (tm : ModeInfo) (old : Crtc)
      (hm : drmGetModeByName ans.resources info.connId info.modeName = (calls, some tm))
      (hc : ans.crtc = some old) (hs : ans.setCrtc = 0) (ha : ans.crtcAfter = none) :
      NewCrtc magic info tx ans
        { info := { info with mode := some tm, savedCrtc := .obj old, currentCrtc := .null }
          tx
          ret := -1
          calls := calls ++ [.modeByName info.connId info.modeName (some tm),
            .getCrtc info.crtcId (some old),
            .setCrtc info.crtcId info.fb 0 0 info.connId tm 0, .getCrtc info.crtcId none] }
  | done (calls : List DrmCall) (tm : ModeInfo) (old new : Crtc)
      (hm : drmGetModeByName ans.resources info.connId info.modeName = (calls, some tm))
      (hc : ans.crtc = some old) (hs : ans.setCrtc = 0) (ha : ans.crtcAfter = some new) :
      NewCrtc magic info tx ans
        { info := { info with mode := some tm, savedCrtc := .obj old, currentCrtc := .obj new }
          tx := reply magic .ok
          ret := 0
          calls := calls ++ [.modeByName info.connId info.modeName (some tm),
            .getCrtc info.crtcId (some old),
            .setCrtc info.crtcId info.fb 0 0 info.connId tm 0, .getCrtc info.crtcId (some new)] }

theorem newCrtc_setNewCrtc (magic : U32) (info : ClientInfo) (tx : List Byte) (ans : DrmAnswers) :
    NewCrtc magic info tx ans (setNewCrtc magic info tx ans) := by
  unfold setNewCrtc
  rcases hm : drmGetModeByName ans.resources info.connId info.modeName with ⟨calls, _ | tm⟩
  · exact .noMode calls hm
  · cases hc : ans.crtc with
    | none => simpa [CrtcPtr.ofRet] using @NewCrtc.noCrtc magic info tx ans calls tm hm hc
    | some old =>
        by_cases hs : ans.setCrtc = 0
        · cases ha : ans.crtcAfter with
          | none =>
              simpa [CrtcPtr.ofRet, hs] using
                @NewCrtc.noCurrent magic info tx ans calls tm old hm hc hs ha
          | some new =>
              simpa [CrtcPtr.ofRet, hs] using
                @NewCrtc.done magic info tx ans calls tm old new hm hc hs ha
        · simpa [CrtcPtr.ofRet, hs] using
            @NewCrtc.notSet magic info tx ans calls tm old hm hc hs

/-- The calls of the lookup, seen from the caller. -/
theorem lookup_of_eq {resources : Option Connectors} {connId : U32} {name : List Byte}
    {calls : List DrmCall} {tm : Option ModeInfo}
    (h : drmGetModeByName resources connId name = (calls, tm)) : ∀ c ∈ calls, c.Lookup := by
  have := lookup_drmGetModeByName resources connId name
  rwa [h] at this

theorem aside_of_eq {resources : Option Connectors} {connId : U32} {name : List Byte}
    {calls : List DrmCall} {tm : Option ModeInfo}
    (h : drmGetModeByName resources connId name = (calls, tm)) : ∀ c ∈ calls, c.Aside :=
  fun c hc => (lookup_of_eq h c hc).aside

/-! ## Undefined behaviour -/

/-- The mode name of a request fits into `mode_name`. -/
def NameFits (text : List Byte) : Prop :=
  ∀ w, (sscanf fmtCrtc text)[5]? = some (.str w) → w.length < MODE_NAME_LEN

/-- What a request has to satisfy for its command to be defined. -/
def Defined (command : U32) (text : List Byte) (info : ClientInfo) : Prop :=
  (Command.ofCode command = some .crtc → NameFits text) ∧
    (Command.ofCode command = some .crtcStop → ∃ crtc, info.savedCrtc = .obj crtc)

theorem scanCrtc_error {text : List Byte} {info : ClientInfo} {f : Fault}
    (h : scanCrtc text info = .error f) : ¬ NameFits text := by
  unfold scanCrtc at h
  dsimp only at h
  split at h
  · next w hw =>
    split_ifs at h with hlen
    exact fun hfits => hlen (hfits w hw)
  · cases h

theorem scanCrtc_ok {text : List Byte} {info info' : ClientInfo}
    (h : scanCrtc text info = .ok info') : NameFits text := by
  unfold scanCrtc at h
  dsimp only at h
  intro w hw
  rw [hw] at h
  dsimp only at h
  split_ifs at h with hlen
  exact hlen

section Dispatch
variable {magic command : U32} {text tx : List Byte} {ret : Int} {info : ClientInfo}
  {ans : DrmAnswers} {out : Handled} {f : Fault}

theorem dispatch_error (h : dispatch magic command text ret info tx ans = .error f) :
    ¬ Defined command text info := by
  unfold dispatch at h
  intro hdef
  split at h
  · cases h
  · next hcmd =>
    unfold cmdCrtc at h
    cases hscan : scanCrtc text info with
    | error f' => exact scanCrtc_error hscan (hdef.1 hcmd)
    | ok info' => simp [hscan, Except.map] at h
  · cases h
  · next hcmd =>
    obtain ⟨crtc, hcrtc⟩ := hdef.2 hcmd
    unfold cmdCrtcStop at h
    rw [hcrtc] at h
    dsimp only at h
    split_ifs at h
  · cases h
  · cases h

theorem dispatch_defined (h : dispatch magic command text ret info tx ans = .ok out) :
    Defined command text info := by
  unfold dispatch at h
  constructor
  · intro hcmd
    rw [hcmd] at h
    dsimp only [cmdCrtc] at h
    cases hscan : scanCrtc text info with
    | error f => simp [hscan, Except.map] at h
    | ok info' => exact scanCrtc_ok hscan
  · intro hcmd
    rw [hcmd] at h
    dsimp only [cmdCrtcStop] at h
    cases hsaved : info.savedCrtc with
    | null => simp [hsaved] at h
    | wild => simp [hsaved] at h
    | obj crtc => exact ⟨crtc, rfl⟩

/-! ## Results and responses -/

/-- A handled request succeeded or failed: `ret`, the calls and `tx_buf` agree on it. -/
def Handled.Agrees (out : Handled) (magic : U32) : Prop :=
  (out.ret = -1 ∧ ∃ c ∈ out.calls, ¬ c.Ok) ∨
    (out.ret ≠ -1 ∧ (∀ c ∈ out.calls, c.Ok) ∧ out.tx = reply magic .ok)

theorem agrees_cmdAuth : (cmdAuth magic info tx ans).Agrees magic := by
  unfold cmdAuth Handled.Agrees
  by_cases h : ans.authMagic = 0 <;> simp [h, DrmCall.Ok]

theorem agrees_setPlane (args : PlaneArgs) : (setPlane magic info args tx ans).Agrees magic := by
  unfold setPlane Handled.Agrees
  by_cases h : ans.setPlane = 0 <;> simp [h, DrmCall.Ok]

theorem agrees_setNewCrtc : (setNewCrtc magic info tx ans).Agrees magic := by
  have hcases := newCrtc_setNewCrtc magic info tx ans
  generalize setNewCrtc magic info tx ans = out at hcases
  cases hcases with
  | noMode calls hm =>
      exact Or.inl ⟨rfl, .modeByName info.connId info.modeName none, by simp, by simp [DrmCall.Ok]⟩
  | noCrtc calls tm hm hc =>
      exact Or.inl ⟨rfl, .getCrtc info.crtcId none, by simp, by simp [DrmCall.Ok]⟩
  | notSet calls tm old hm hc hs =>
      exact Or.inl ⟨rfl, .setCrtc info.crtcId info.fb 0 0 info.connId tm ans.setCrtc, by simp,
        by simp [DrmCall.Ok, hs]⟩
  | noCurrent calls tm old hm hc hs ha =>
      exact Or.inl ⟨rfl, .getCrtc info.crtcId none, by simp, by simp [DrmCall.Ok]⟩
  | done calls tm old new hm hc hs ha =>
      refine Or.inr ⟨show (0 : Int) ≠ -1 by decide, fun c hc => ?_, rfl⟩
      rcases List.mem_append.1 hc with hc | hc
      · exact (lookup_of_eq hm c hc).ok
      · simp only [List.mem_cons, List.not_mem_nil, or_false] at hc
        rcases hc with rfl | rfl | rfl | rfl <;> simp [DrmCall.Ok]

theorem agrees_cmdCrtcStop (hret : ret ≠ -1)
    (h : cmdCrtcStop magic ret info tx ans = .ok out) : out.Agrees magic := by
  unfold cmdCrtcStop at h
  cases hsaved : info.savedCrtc with
  | null => simp [hsaved] at h
  | wild => simp [hsaved] at h
  | obj crtc =>
      rw [hsaved] at h
      dsimp only at h
      split_ifs at h with hvalid hset
      · cases h
        exact Or.inl ⟨rfl, _, List.mem_singleton_self _, by simpa [DrmCall.Ok] using hset⟩
      · cases h
        refine Or.inr ⟨show (0 : Int) ≠ -1 by decide, fun c hc => ?_, rfl⟩
        rw [List.mem_singleton] at hc
        rw [hc]
        simpa [DrmCall.Ok] using hset
      · cases h
        exact Or.inr ⟨hret, by simp, rfl⟩

/-- **`ret` after the dispatch.** It is -1 iff the command is unknown or one of the calls failed;
otherwise `tx_buf` holds the DRM_OK response. -/
theorem dispatch_agrees (hret : ret ≠ -1)
    (h : dispatch magic command text ret info tx ans = .ok out) :
    (Command.ofCode command = none ∧ out.ret = -1) ∨
      ((Command.ofCode command).isSome ∧ out.Agrees magic) := by
  unfold dispatch at h
  split at h
  · next hcmd =>
    cases h
    exact Or.inr ⟨by simp [hcmd], agrees_cmdAuth⟩
  · next hcmd =>
    unfold cmdCrtc at h
    cases hscan : scanCrtc text info with
    | error f => simp [hscan, Except.map] at h
    | ok info' =>
        simp only [hscan, Except.map, Except.ok.injEq] at h
        rw [← h]
        exact Or.inr ⟨by simp [hcmd], agrees_setNewCrtc⟩
  · next hcmd =>
    cases h
    exact Or.inr ⟨by simp [hcmd], agrees_setPlane _⟩
  · next hcmd => exact Or.inr ⟨by simp [hcmd], agrees_cmdCrtcStop hret h⟩
  · next hcmd =>
    cases h
    exact Or.inr ⟨by simp [hcmd], agrees_setPlane _⟩
  · next hcmd =>
    cases h
    exact Or.inl ⟨hcmd, rfl⟩

/-- The response to a handled request: DRM_OK iff the command is one of the five and every call
made for it succeeded. -/
theorem dispatch_sent (hret : ret ≠ -1)
    (h : dispatch magic command text ret info tx ans = .ok out) :
    ∃ value, out.sent magic = reply magic value ∧
      (value = .ok ↔ (Command.ofCode command).isSome ∧ ∀ c ∈ out.calls, c.Ok) := by
  unfold Handled.sent
  rcases dispatch_agrees hret h with ⟨hcmd, hr⟩ | ⟨hcmd, ⟨hr, c, hc, hbad⟩ | ⟨hr, hok, htx⟩⟩
  · exact ⟨.error, by rw [if_pos hr], by simp [hcmd]⟩
  · exact ⟨.error, by rw [if_pos hr], by simpa [hcmd] using ⟨c, hc, hbad⟩⟩
  · exact ⟨.ok, by rw [if_neg hr, htx], by simpa [hcmd] using hok⟩

/-! ## `saved_crtc` -/

/-- The value a request stores in `saved_crtc`, read off its calls: a granted CMD_AUTH clears the entry,
CMD_CRTC stores what `drmModeGetCrtc` returns. -/
def savedBy : List DrmCall → Option (Option Crtc)
  | [] => none
  | .authMagic _ ret :: _ => if ret = 0 then some none else none
  | .getCrtc _ ret :: _ => some ret
  | _ :: calls => savedBy calls

theorem savedBy_aside {calls : List DrmCall} (h : ∀ c ∈ calls, c.Aside) (rest : List DrmCall) :
    savedBy (calls ++ rest) = savedBy rest := by
  induction calls with
  | nil => rfl
  | cons c calls ih =>
      have hc : c.Aside := h c (by simp)
      have ih := ih fun d hd => h d (by simp [hd])
      cases c <;> first | exact ih | exact hc.elim

/-- The entry after a request holds in `saved_crtc` what the request stored, or what was there. -/
def Handled.Saves (out : Handled) (info : ClientInfo) : Prop :=
  out.info.savedCrtc = match savedBy out.calls with
    | some ret => .ofRet ret
    | none => info.savedCrtc

theorem saves_setNewCrtc : (setNewCrtc magic info tx ans).Saves info := by
  have hcases := newCrtc_setNewCrtc magic info tx ans
  generalize setNewCrtc magic info tx ans = out at hcases
  cases hcases with
  | noMode calls hm => simp [Handled.Saves, savedBy_aside (aside_of_eq hm), savedBy]
  | noCrtc calls tm hm hc =>
      simp [Handled.Saves, savedBy_aside (aside_of_eq hm), savedBy, CrtcPtr.ofRet]
  | notSet calls tm old hm hc hs =>
      simp [Handled.Saves, savedBy_aside (aside_of_eq hm), savedBy, CrtcPtr.ofRet]
  | noCurrent calls tm old hm hc hs ha =>
      simp [Handled.Saves, savedBy_aside (aside_of_eq hm), savedBy, CrtcPtr.ofRet]
  | done calls tm old new hm hc hs ha =>
      simp [Handled.Saves, savedBy_aside (aside_of_eq hm), savedBy, CrtcPtr.ofRet]

theorem scanCrtc_savedCrtc {info' : ClientInfo} (h : scanCrtc text info = .ok info') :
    info'.savedCrtc = info.savedCrtc := by
  unfold scanCrtc at h
  dsimp only at h
  split at h
  · split_ifs at h
    cases h
    rfl
  · cases h
    rfl

theorem dispatch_saved (h : dispatch magic command text ret info tx ans = .ok out) :
    out.Saves info := by
  unfold dispatch at h
  split at h
  · cases h
    unfold cmdAuth Handled.Saves
    by_cases hans : ans.authMagic = 0 <;> simp [hans, savedBy, CrtcPtr.ofRet, ClientInfo.zero]
  · unfold cmdCrtc at h
    cases hscan : scanCrtc text info with
    | error f => simp [hscan, Except.map] at h
    | ok info' =>
        simp only [hscan, Except.map, Except.ok.injEq] at h
        rw [← h]
        have := @saves_setNewCrtc magic tx info' ans
        unfold Handled.Saves at this ⊢
        rw [← scanCrtc_savedCrtc hscan]
        exact this
  · cases h
    unfold cmdPlane setPlane Handled.Saves
    by_cases hans : ans.setPlane = 0 <;> simp [hans, savedBy, scanPlane]
  · unfold cmdCrtcStop at h
    split at h
    · cases h
    · cases h
    · split_ifs at h <;> cases h <;> simp [Handled.Saves, savedBy]
  · cases h
    unfold cmdPlaneStop setPlane Handled.Saves
    by_cases hans : ans.setPlane = 0 <;> simp [hans, savedBy]
  · cases h
    simp [Handled.Saves, savedBy]

end Dispatch

/-- The value the passes of one connection last stored in `saved_crtc`. -/
def savedOf (vs : List Visit) : Option (Option Crtc) :=
  (vs.filterMap fun v => savedBy v.calls).getLast?

@[simp] theorem savedOf_nil : savedOf [] = none := rfl

theorem savedOf_snoc (vs : List Visit) (v : Visit) :
    savedOf (vs ++ [v]) = match savedBy v.calls with
      | some ret => some ret
      | none => savedOf vs := by
  unfold savedOf
  rw [List.filterMap_append]
  cases h : savedBy v.calls with
  | none => simp [h]
  | some ret => simp [h]

/-- The entry agrees with what the connection stored. -/
def SavedIn (vs : List Visit) (info : ClientInfo) : Prop :=
  ∀ ret, savedOf vs = some ret → info.savedCrtc = .ofRet ret

theorem savedIn_visit {srv : Locals} {i : Slot} {c : Conn} {inp : SlotIn} {v : Visit}
    {vs : List Visit} (hv : VisitOf srv i c inp v) (hs : SavedIn vs (srv.info i)) :
    SavedIn (vs ++ [v]) v.after := by
  have hquiet : v.calls = [] → v.after = srv.info i → SavedIn (vs ++ [v]) v.after := by
    intro hcalls hafter ret hret
    rw [savedOf_snoc, hcalls] at hret
    rw [hafter]
    exact hs ret hret
  have hout : ∀ out : Handled, out.Saves (srv.info i) → v.calls = out.calls → v.after = out.info →
      SavedIn (vs ++ [v]) v.after := by
    intro out hsaves hcalls hafter ret hret
    rw [savedOf_snoc, hcalls] at hret
    rw [hafter, hsaves]
    cases hby : savedBy out.calls with
    | none =>
        rw [hby] at hret
        exact hs ret hret
    | some r =>
        rw [hby] at hret
        rw [Option.some.inj hret]
  cases hv with
  | gone hread => exact hquiet rfl rfl
  | overread rx hread htext => exact hquiet rfl rfl
  | faulted rx text f hread htext hd => exact hquiet rfl rfl
  | unsent rx text out hread htext hd hpeer => exact hout out (dispatch_saved hd) rfl rfl
  | replied rx text out hread htext hd hpeer => exact hout out (dispatch_saved hd) rfl rfl

theorem savedIn_fresh (info : ClientInfo) : SavedIn [] info := fun _ h => by cases h

theorem savedIn_pass (srv : Locals) (i : Slot) (c : Conn) (inp : SlotIn) (vs : List Visit)
    (hs : SavedIn vs (srv.info i)) : SavedIn (vs ++ [(visit srv i c inp).2]) (visit srv i c inp).2.after :=
  savedIn_visit (visitOf_visit srv i c inp) hs

/-- **`saved_crtc` in every run**: it holds what the connection in the slot last stored there. -/
theorem run_savedOf (g : Stack) (is : List Input) {pre post : List Obs} {v : Visit}
    (h : (server.run (boot g) is).2 = pre ++ .visit v :: post) :
    ∃ srv, VisitOf srv v.slot v.conn v.input v ∧ SavedIn (visitsOf v.conn pre) (srv.info v.slot) :=
  run_every_visit savedIn_fresh savedIn_pass g is h

end SysSnippets.Drm
