import SysSnippets.Drm.Commands

/-!
# Session isolation in `drm_server`

* `Known` : the fields of a slot's entry that are determined by the requests of its own connection;
* `Known.next`, `SelfContained` : a request uses known fields only;
* `alone` : the passes over a connection that has the server to itself;
* `visit_alike` : the step lemma. Two passes over the same request show the same, if the two entries
  agree on what is known;
* `server_isolated` : what a connection is shown depends on its own requests only, if these are
  self-contained.
-/

namespace SysSnippets.Drm
open SysSnippets.Lib

/-! ## What is known of an entry -/

/-- The value `a` claims for `v`, if it claims one. -/
def Tells {α : Type} (a : Option α) (v : α) : Prop := ∀ u, a = some u → v = u

/-- The fields the commands use, each with its value where the connection's own requests determine it. -/
structure Known where
  savedCrtc : Option CrtcPtr
  crtcId : Option U32
  connId : Option U32
  planeId : Option U32
  w : Option U32
  h : Option U32
  x : Option U32
  y : Option U32
  fb : Option U32
  modeName : Option (List Byte)

/-- The entry has the values that are known. -/
structure Known.Holds (k : Known) (info : ClientInfo) : Prop where
  savedCrtc : Tells k.savedCrtc info.savedCrtc
  crtcId : Tells k.crtcId info.crtcId
  connId : Tells k.connId info.connId
  planeId : Tells k.planeId info.planeId
  w : Tells k.w info.w
  h : Tells k.h info.h
  x : Tells k.x info.x
  y : Tells k.y info.y
  fb : Tells k.fb info.fb
  modeName : Tells k.modeName info.modeName

/-- Nothing is known of a slot that was just given to a connection. -/
def Known.nothing : Known := ⟨none, none, none, none, none, none, none, none, none, none⟩

/-- After a granted CMD_AUTH. -/
def Known.cleared : Known :=
  ⟨some .null, some 0, some 0, some 0, some 0, some 0, some 0, some 0, some 0, some []⟩

/-- What is known of a `%d` argument after the scan. -/
def knownItem (items : List Item) (n : Nat) (old : Option U32) : Option U32 :=
  match items[n]? with
  | some (.int v) => some v
  | _ => old

/-- After the `sscanf` of CMD_CRTC; `none` if the mode name does not fit. -/
def Known.scanCrtc (text : List Byte) (k : Known) : Option Known :=
  let items := sscanf fmtCrtc text
  let k := { k with
    crtcId := knownItem items 2 k.crtcId
    connId := knownItem items 3 k.connId
    fb := knownItem items 4 k.fb }
  match (items[5]? : Option Item) with
  | some (.str w) => if w.length < MODE_NAME_LEN then some { k with modeName := some w } else none
  | _ => some k

/-- CMD_CRTC uses the CRTC, the connector, the framebuffer and the mode name. -/
def Known.newCrtc (ans : DrmAnswers) (k : Known) : Option Known :=
  match k.crtcId, k.connId, k.fb, k.modeName with
  | some _, some connId, some _, some modeName =>
      if (drmGetModeByName ans.resources connId modeName).2.isSome then
        some { k with savedCrtc := some (.ofRet ans.crtc) }
      else some k
  | _, _, _, _ => none

def Known.crtc (text : List Byte) (ans : DrmAnswers) (k : Known) : Option Known :=
  match k.scanCrtc text with
  | none => some k
  | some k => k.newCrtc ans

/-- After the `sscanf` of CMD_PLANE. -/
def Known.scanPlane (text : List Byte) (k : Known) : Known :=
  let items := sscanf fmtPlane text
  { k with
    crtcId := knownItem items 2 k.crtcId
    planeId := knownItem items 3 k.planeId
    fb := knownItem items 4 k.fb
    w := knownItem items 5 k.w
    h := knownItem items 6 k.h
    x := knownItem items 7 k.x
    y := knownItem items 8 k.y }

/-- CMD_PLANE uses all it scans. -/
def Known.plane (text : List Byte) (k : Known) : Option Known :=
  let k := k.scanPlane text
  if k.crtcId.isSome ∧ k.planeId.isSome ∧ k.fb.isSome ∧ k.w.isSome ∧ k.h.isSome ∧ k.x.isSome ∧ k.y.isSome
  then some k
  else none

/-- What is known after a command; `none` if the command uses a field that is not known. -/
def Known.command (command : U32) (text : List Byte) (ans : DrmAnswers) (k : Known) : Option Known :=
  match Command.ofCode command with
  | some .auth => if ans.authMagic = 0 then some .cleared else some k
  | some .crtc => k.crtc text ans
  | some .plane => k.plane text
  | some .crtcStop => if k.savedCrtc.isSome ∧ k.connId.isSome then some k else none
  | some .planeStop => if k.planeId.isSome then some k else none
  | none => some k

/-- What is known after a pass; `none` if the request leaves out its magic or its command, or uses a
field that is not known. -/
def Known.next (k : Known) (inp : SlotIn) : Option Known :=
  match inp.read with
  | .error | .eof => some k
  | .data rx =>
      match rxText rx with
      | none => some k
      | some text =>
          match sscanf fmtPair text with
          | [.int _, .int command] => k.command command text inp.answers
          | _ => none

/-- The requests of a connection only use what the connection itself has set. -/
def SelfContained (inputs : List SlotIn) : Prop := (inputs.foldlM Known.next .nothing).isSome

instance : DecidablePred SelfContained := fun inputs =>
  inferInstanceAs (Decidable ((inputs.foldlM Known.next .nothing).isSome = true))

section Tells
variable {α : Type}

@[simp] theorem tells_none (v : α) : Tells none v := fun _ h => by cases h

@[simp] theorem tells_some {u v : α} : Tells (some u) v ↔ v = u :=
  ⟨fun h => h u rfl, fun h _ hu => h.trans (Option.some.inj hu)⟩

theorem Tells.eq {a : Option α} {u v : α} (h : Tells a v) (h' : Tells a u) (ha : a.isSome) : v = u := by
  obtain ⟨t, rfl⟩ := Option.isSome_iff_exists.1 ha
  rw [h t rfl, h' t rfl]

theorem tells_item {a : Option U32} {v : U32} (h : Tells a v) (items : List Item) (n : Nat) :
    Tells (knownItem items n a) (intItem items n v) := by
  unfold knownItem intItem
  cases items[n]? with
  | none => exact h
  | some item =>
      cases item with
      | int u => simp
      | str w => exact h

end Tells

theorem holds_nothing (info : ClientInfo) : Known.nothing.Holds info := by
  constructor <;> exact tells_none _

theorem holds_cleared (magic : U32) : Known.cleared.Holds { ClientInfo.zero with magic } := by
  constructor <;> exact tells_some.2 rfl

/-! ## The commands -/

/-- The results of a command on two entries: the same calls, or the same fault. Either way the entries
then have the known values. -/
inductive Alike (k : Known) (info info' : ClientInfo) : Except Fault Handled → Except Fault Handled → Prop
  | fault (f : Fault) (h : k.Holds info) (h' : k.Holds info') : Alike k info info' (.error f) (.error f)
  | done (out out' : Handled) (hcalls : out.calls = out'.calls) (h : k.Holds out.info)
      (h' : k.Holds out'.info) : Alike k info info' (.ok out) (.ok out')

/-- The `sscanf` of CMD_CRTC on an entry with known values. -/
inductive Scanned : Option Known → Except Fault ClientInfo → Prop
  | fault : Scanned none (.error .modeNameOverflow)
  | done (k : Known) (info : ClientInfo) (h : k.Holds info) : Scanned (some k) (.ok info)

section Commands
variable {k k' : Known} {info info' : ClientInfo} {magic command : U32} {text tx tx' : List Byte}
  {ret : Int} {ans : DrmAnswers}

variable (text) in
theorem scanned_scanCrtc (h : k.Holds info) : Scanned (k.scanCrtc text) (scanCrtc text info) := by
  unfold Known.scanCrtc scanCrtc
  dsimp only
  have hints : ∀ modeName name, Tells modeName name → ({ k with
      crtcId := knownItem (sscanf fmtCrtc text) 2 k.crtcId
      connId := knownItem (sscanf fmtCrtc text) 3 k.connId
      fb := knownItem (sscanf fmtCrtc text) 4 k.fb
      modeName } : Known).Holds { info with
        crtcId := intItem (sscanf fmtCrtc text) 2 info.crtcId
        connId := intItem (sscanf fmtCrtc text) 3 info.connId
        fb := intItem (sscanf fmtCrtc text) 4 info.fb
        modeName := name } := fun _ _ hname =>
    ⟨h.savedCrtc, tells_item h.crtcId _ _, tells_item h.connId _ _, h.planeId, h.w, h.h, h.x, h.y,
      tells_item h.fb _ _, hname⟩
  rcases (sscanf fmtCrtc text)[5]? with _ | _ | w
  · exact .done _ _ (hints _ _ h.modeName)
  · exact .done _ _ (hints _ _ h.modeName)
  · dsimp only
    split_ifs
    · exact .done _ _ (hints _ _ (tells_some.2 rfl))
    · exact .fault

variable (text) in
theorem holds_scanPlane (h : k.Holds info) : (k.scanPlane text).Holds (scanPlane text info) :=
  ⟨h.savedCrtc, tells_item h.crtcId _ _, h.connId, tells_item h.planeId _ _, tells_item h.w _ _,
    tells_item h.h _ _, tells_item h.x _ _, tells_item h.y _ _, tells_item h.fb _ _, h.modeName⟩

/-- The entry CMD_CRTC leaves: `mode`, `saved_crtc` and `current_crtc` are what it assigns. -/
theorem holds_setNewCrtc (h : k.Holds info) (hk : k.newCrtc ans = some k') :
    k'.Holds (setNewCrtc magic info tx ans).info := by
  have hcases := newCrtc_setNewCrtc magic info tx ans
  generalize setNewCrtc magic info tx ans = out at hcases
  have hassigned : ∀ mode current, ({ k with savedCrtc := some (.ofRet ans.crtc) } : Known).Holds
      { info with mode, savedCrtc := .ofRet ans.crtc, currentCrtc := current } := fun _ _ =>
    ⟨tells_some.2 rfl, h.crtcId, h.connId, h.planeId, h.w, h.h, h.x, h.y, h.fb, h.modeName⟩
  unfold Known.newCrtc at hk
  split at hk
  · next crtcId connId fb modeName hcrtc hconn hfb hname =>
    rw [← h.connId connId hconn, ← h.modeName modeName hname] at hk
    cases hcases with
    | noMode calls hm =>
        simp only [hm, Option.isSome_none, Bool.false_eq_true, if_false, Option.some.injEq] at hk
        rwa [← hk]
    | noCrtc calls tm hm hc =>
        simp only [hm, Option.isSome_some, if_true, Option.some.injEq] at hk
        rw [← hk]
        simpa [hc, CrtcPtr.ofRet] using hassigned (some tm) info.currentCrtc
    | notSet calls tm old hm hc hs =>
        simp only [hm, Option.isSome_some, if_true, Option.some.injEq] at hk
        rw [← hk]
        simpa [hc, CrtcPtr.ofRet] using hassigned (some tm) info.currentCrtc
    | noCurrent calls tm old hm hc hs ha =>
        simp only [hm, Option.isSome_some, if_true, Option.some.injEq] at hk
        rw [← hk]
        simpa [hc, CrtcPtr.ofRet] using hassigned (some tm) .null
    | done calls tm old new hm hc hs ha =>
        simp only [hm, Option.isSome_some, if_true, Option.some.injEq] at hk
        rw [← hk]
        simpa [hc, CrtcPtr.ofRet] using hassigned (some tm) (.obj new)
  · cases hk

/-- The calls of CMD_CRTC depend on the four fields it uses. -/
theorem calls_setNewCrtc (hcrtc : info.crtcId = info'.crtcId) (hconn : info.connId = info'.connId)
    (hfb : info.fb = info'.fb) (hname : info.modeName = info'.modeName) :
    (setNewCrtc magic info tx ans).calls = (setNewCrtc magic info' tx' ans).calls := by
  unfold setNewCrtc
  rw [hconn, hname]
  rcases drmGetModeByName ans.resources info'.connId info'.modeName with ⟨calls, _ | tm⟩
  · rfl
  · cases ans.crtc with
    | none => simp [hcrtc]
    | some old =>
        by_cases hs : ans.setCrtc = 0
        · cases ans.crtcAfter <;> simp [hs, hcrtc, hfb]
        · simp [hs, hcrtc, hfb]

theorem isSome_newCrtc (hk : k.newCrtc ans = some k') :
    k.crtcId.isSome ∧ k.connId.isSome ∧ k.fb.isSome ∧ k.modeName.isSome := by
  unfold Known.newCrtc at hk
  split at hk
  · next hcrtc hconn hfb hname => simp [hcrtc, hconn, hfb, hname]
  · cases hk

theorem alike_setNewCrtc (hk : k.newCrtc ans = some k') (h : k.Holds info) (h' : k.Holds info')
    (old old' : ClientInfo) :
    Alike k' old old' (.ok (setNewCrtc magic info tx ans)) (.ok (setNewCrtc magic info' tx' ans)) := by
  obtain ⟨hcrtc, hconn, hfb, hname⟩ := isSome_newCrtc hk
  exact .done _ _ (calls_setNewCrtc (h.crtcId.eq h'.crtcId hcrtc) (h.connId.eq h'.connId hconn)
    (h.fb.eq h'.fb hfb) (h.modeName.eq h'.modeName hname)) (holds_setNewCrtc h hk)
    (holds_setNewCrtc h' hk)

theorem alike_cmdCrtc (hk : k.crtc text ans = some k') (h : k.Holds info) (h' : k.Holds info') :
    Alike k' info info' (cmdCrtc magic text info tx ans) (cmdCrtc magic text info' tx' ans) := by
  have hscan := scanned_scanCrtc text h
  have hscan' := scanned_scanCrtc text h'
  unfold Known.crtc at hk
  unfold cmdCrtc
  generalize k.scanCrtc text = ks at hk hscan hscan'
  generalize scanCrtc text info = r at hscan
  generalize scanCrtc text info' = r' at hscan'
  cases hscan with
  | fault =>
      cases hscan' with
      | fault =>
          obtain rfl := Option.some.inj hk
          exact .fault _ h h'
  | done ks i hi =>
      cases hscan' with
      | done _ i' hi' => exact alike_setNewCrtc hk hi hi' info info'

theorem alike_setPlane {args args' : PlaneArgs} (hargs : args = args') (h : k.Holds info)
    (h' : k.Holds info') (old old' : ClientInfo) :
    Alike k old old' (.ok (setPlane magic info args tx ans)) (.ok (setPlane magic info' args' tx' ans)) := by
  rw [hargs]
  unfold setPlane
  dsimp only
  split_ifs <;> exact .done _ _ rfl h h'

theorem alike_cmdPlane (hk : k.plane text = some k') (h : k.Holds info) (h' : k.Holds info') :
    Alike k' info info' (.ok (cmdPlane magic text info tx ans)) (.ok (cmdPlane magic text info' tx' ans)) := by
  have hscan := holds_scanPlane text h
  have hscan' := holds_scanPlane text h'
  unfold Known.plane at hk
  dsimp only at hk
  split_ifs at hk with hall
  obtain rfl := Option.some.inj hk
  obtain ⟨hcrtc, hplane, hfb, hw, hh, hx, hy⟩ := hall
  refine alike_setPlane ?_ hscan hscan' info info'
  unfold planeArgs
  rw [hscan.crtcId.eq hscan'.crtcId hcrtc, hscan.planeId.eq hscan'.planeId hplane,
    hscan.fb.eq hscan'.fb hfb, hscan.w.eq hscan'.w hw, hscan.h.eq hscan'.h hh,
    hscan.x.eq hscan'.x hx, hscan.y.eq hscan'.y hy]

theorem alike_cmdCrtcStop (hsaved : k.savedCrtc.isSome) (hconn : k.connId.isSome) (h : k.Holds info)
    (h' : k.Holds info') :
    Alike k info info' (cmdCrtcStop magic ret info tx ans) (cmdCrtcStop magic ret info' tx' ans) := by
  unfold cmdCrtcStop
  rw [h.savedCrtc.eq h'.savedCrtc hsaved, h.connId.eq h'.connId hconn]
  cases info'.savedCrtc with
  | null => exact .fault _ h h'
  | wild => exact .fault _ h h'
  | obj crtc =>
      dsimp only
      split_ifs <;> exact .done _ _ rfl h h'

theorem alike_cmdAuth (hk : (if ans.authMagic = 0 then some .cleared else some k) = some k')
    (h : k.Holds info) (h' : k.Holds info') :
    Alike k' info info' (.ok (cmdAuth magic info tx ans)) (.ok (cmdAuth magic info' tx' ans)) := by
  unfold cmdAuth
  by_cases hans : ans.authMagic = 0
  · rw [if_pos hans] at hk
    obtain rfl := Option.some.inj hk
    simpa [hans] using Alike.done _ _ rfl (holds_cleared magic) (holds_cleared magic)
  · rw [if_neg hans] at hk
    obtain rfl := Option.some.inj hk
    dsimp only
    rw [if_pos hans, if_pos hans]
    exact .done _ _ rfl h h'

variable (magic ret tx tx') in
/-- **The commands use nothing but what is known.** -/
theorem alike_dispatch (hk : k.command command text ans = some k') (h : k.Holds info)
    (h' : k.Holds info') :
    Alike k' info info' (dispatch magic command text ret info tx ans)
      (dispatch magic command text ret info' tx' ans) := by
  unfold Known.command at hk
  unfold dispatch
  generalize Command.ofCode command = cmd at hk
  cases cmd with
  | none =>
      obtain rfl := Option.some.inj hk
      exact .done _ _ rfl h h'
  | some cmd =>
      cases cmd with
      | auth => exact alike_cmdAuth hk h h'
      | crtc => exact alike_cmdCrtc hk h h'
      | plane => exact alike_cmdPlane hk h h'
      | crtcStop =>
          dsimp only at hk
          split_ifs at hk with huses
          obtain rfl := Option.some.inj hk
          exact alike_cmdCrtcStop huses.1 huses.2 h h'
      | planeStop =>
          dsimp only at hk
          split_ifs at hk with huses
          obtain rfl := Option.some.inj hk
          refine alike_setPlane ?_ h h' info info'
          unfold planeOffArgs
          rw [h.planeId.eq h'.planeId huses]

end Commands

/-! ## Passes -/

/-- What the server does for a connection in one pass: the DRM calls and the bytes it sends. -/
def Visit.shown (v : Visit) : List DrmCall × List (List Byte) := (v.calls, v.writes.map (·.2))

section Pass
variable {k k' : Known} {srv srv' : Locals} {i i' : Slot} {c c' : Conn} {inp : SlotIn}

/-- Equal calls give equal replies. -/
theorem sent_eq {magic command : U32} {text tx tx' : List Byte} {ret : Int} {info info' : ClientInfo}
    {ans : DrmAnswers} {out out' : Handled} (hret : ret ≠ -1)
    (hd : dispatch magic command text ret info tx ans = .ok out)
    (hd' : dispatch magic command text ret info' tx' ans = .ok out') (hcalls : out.calls = out'.calls) :
    out.sent magic = out'.sent magic := by
  obtain ⟨value, hsent, hvalue⟩ := dispatch_sent hret hd
  obtain ⟨value', hsent', hvalue'⟩ := dispatch_sent hret hd'
  rw [hsent, hsent']
  rw [hcalls, ← hvalue'] at hvalue
  cases value <;> cases value' <;> simp_all

theorem visit_alike (hk : k.next inp = some k') (h : k.Holds (srv.info i)) (h' : k.Holds (srv'.info i')) :
    (visit srv i c inp).2.shown = (visit srv' i' c' inp).2.shown ∧
      k'.Holds (visit srv i c inp).2.after ∧ k'.Holds (visit srv' i' c' inp).2.after := by
  unfold Known.next at hk
  unfold visit
  cases hread : inp.read with
  | error =>
      rw [hread] at hk
      obtain rfl := Option.some.inj hk
      exact ⟨rfl, h, h'⟩
  | eof =>
      rw [hread] at hk
      obtain rfl := Option.some.inj hk
      exact ⟨rfl, h, h'⟩
  | data rx =>
      rw [hread] at hk
      dsimp only at hk ⊢
      cases htext : rxText rx with
      | none =>
          rw [htext] at hk
          obtain rfl := Option.some.inj hk
          exact ⟨rfl, h, h'⟩
      | some text =>
          rw [htext] at hk
          dsimp only at hk ⊢
          split at hk
          · next magic command hpair =>
            have hscan : ∀ srv : Locals, scanPair text srv = { srv with magic, command } := by
              intro srv
              simp [scanPair, hpair, intItem]
            have hret : (rx.bytes.length : Int) ≠ -1 := by omega
            have halike := alike_dispatch magic srv.txBuf srv'.txBuf rx.bytes.length hk h h'
            unfold serve
            simp only [hscan, Visit.start]
            generalize hd : dispatch magic command text rx.bytes.length (srv.info i) srv.txBuf
              inp.answers = r at halike
            generalize hd' : dispatch magic command text rx.bytes.length (srv'.info i') srv'.txBuf
              inp.answers = r' at halike
            cases halike with
            | fault f hi hi' => exact ⟨rfl, hi, hi'⟩
            | done out out' hcalls hout hout' =>
                have hsent := sent_eq hret hd hd' hcalls
                unfold Handled.sent at hsent
                by_cases hpeer : inp.peerOpen
                · simp [hpeer, Visit.shown, hcalls, hsent, hout, hout']
                · simp [hpeer, Visit.shown, hcalls, hout, hout']
          · cases hk

end Pass

/-! ## Runs -/

/-- The locals of a server with one entry. -/
def Locals.solo (info : ClientInfo) : Locals := ⟨fun _ => none, fun _ => info, 0, 0, [], true⟩

/-- A connection that has the server to itself, on an entry of zeroes. -/
def alone : Machine ClientInfo SlotIn (List DrmCall × List (List Byte)) where
  step info inp :=
    let v := (visit (.solo info) .first 0 inp).2
    (v.after, [v.shown])

/-- What connection `c` delivers. -/
def inputsOf (c : Conn) (h : List Obs) : List SlotIn := (visitsOf c h).map (·.input)

/-- The DRM calls made while serving connection `c`, request by request. -/
def callsFor (c : Conn) (h : List Obs) : List (List DrmCall) := (visitsOf c h).map (·.calls)

/-- As long as the requests are self-contained, the connection was shown what it would have been shown
alone, and its entry has the known values. -/
def LikeAlone (vs : List Visit) (info : ClientInfo) : Prop :=
  ∀ k, (vs.map (·.input)).foldlM Known.next .nothing = some k →
    k.Holds info ∧ k.Holds (alone.run .zero (vs.map (·.input))).1 ∧
      vs.map (·.shown) = (alone.run .zero (vs.map (·.input))).2

theorem likeAlone_fresh (info : ClientInfo) : LikeAlone [] info := by
  intro k hk
  obtain rfl := Option.some.inj hk
  exact ⟨holds_nothing _, holds_nothing _, rfl⟩

theorem likeAlone_pass (srv : Locals) (i : Slot) (c : Conn) (inp : SlotIn) (vs : List Visit)
    (h : LikeAlone vs (srv.info i)) :
    LikeAlone (vs ++ [(visit srv i c inp).2]) (visit srv i c inp).2.after := by
  intro k' hk'
  have hinput : (visit srv i c inp).2.input = inp := (visitOf_visit srv i c inp).input_eq
  rw [List.map_append, List.map_singleton, hinput] at hk' ⊢
  rw [List.foldlM_append] at hk'
  obtain ⟨k, hk, hnext⟩ := Option.bind_eq_some_iff.1 hk'
  have hnext : k.next inp = some k' := by simpa using hnext
  obtain ⟨hinfo, halone, hshown⟩ := h k hk
  obtain ⟨hsame, hafter, hafter'⟩ : (visit srv i c inp).2.shown =
      (visit (.solo (alone.run .zero (vs.map (·.input))).1) .first 0 inp).2.shown ∧ _ ∧ _ :=
    visit_alike hnext hinfo halone
  rw [Machine.run_append]
  refine ⟨hafter, hafter', ?_⟩
  rw [List.map_append, hshown, List.map_singleton, hsame]
  rfl

theorem run_likeAlone (g : Stack) (is : List Input) (c : Conn) :
    ∃ info, LikeAlone (visitsOf c (server.run (boot g) is).2) info :=
  (run_session likeAlone_fresh likeAlone_pass g is).gone c

/-- Replies go to the connection that is served. -/
theorem repliesTo_eq (g : Stack) (is : List Input) (c : Conn) :
    repliesTo c (server.run (boot g) is).2 =
      (visitsOf c (server.run (boot g) is).2).flatMap fun v => v.writes.map (·.2) := by
  apply filterMap_writes
  intro v hv w hw
  obtain ⟨pre, post, hsplit⟩ := split_of_mem_visits hv
  obtain ⟨srv, hvisit, -⟩ := run_savedOf g is hsplit
  exact hvisit.writes_own w hw

/-- The bytes sent and the calls made for a connection are what it was shown. -/
theorem shown_eq (vs : List Visit) :
    vs.map (·.calls) = (vs.map (·.shown)).map (·.1) ∧
      (vs.flatMap fun v => v.writes.map (·.2)) = (vs.map (·.shown)).flatMap (·.2) := by
  constructor
  · rw [List.map_map]
    rfl
  · rw [List.flatMap_map]
    rfl

section Isolation
variable {g₁ g₂ : Stack} {is₁ is₂ : List Input} {c : Conn}

/-- **Session isolation.** Two runs in which connection `c` delivers the same make the same DRM calls for
it and send it the same, as long as its requests are self-contained. -/
theorem server_isolated
    (hin : inputsOf c (server.run (boot g₁) is₁).2 = inputsOf c (server.run (boot g₂) is₂).2)
    (hself : SelfContained (inputsOf c (server.run (boot g₁) is₁).2)) :
    callsFor c (server.run (boot g₁) is₁).2 = callsFor c (server.run (boot g₂) is₂).2 ∧
      repliesTo c (server.run (boot g₁) is₁).2 = repliesTo c (server.run (boot g₂) is₂).2 := by
  obtain ⟨k, hk⟩ := Option.isSome_iff_exists.1 hself
  obtain ⟨info₁, h₁⟩ := run_likeAlone g₁ is₁ c
  obtain ⟨info₂, h₂⟩ := run_likeAlone g₂ is₂ c
  have hshown₁ := (h₁ k hk).2.2
  have hshown₂ := (h₂ k (by rw [← hk]; exact congrArg (List.foldlM Known.next .nothing) hin.symm)).2.2
  have hshown : (visitsOf c (server.run (boot g₁) is₁).2).map (·.shown) =
      (visitsOf c (server.run (boot g₂) is₂).2).map (·.shown) := by
    rw [hshown₁, hshown₂]
    exact congrArg (fun ins => (alone.run .zero ins).2) hin
  rw [repliesTo_eq, repliesTo_eq, callsFor, callsFor, (shown_eq _).1, (shown_eq _).2, (shown_eq _).1,
    (shown_eq _).2, hshown]
  exact ⟨rfl, rfl⟩

end Isolation

/-- Connection 0 sets plane 5 and is gone; then connection 1 has the slot. -/
def afterPlane : List Input :=
  connect 0 ++ request .first (.ofText (joinD [7, 2, 1, 5, 9, 64, 64, 0, 0]) .zero) ++
    request .first ⟨.eof, .zero, true⟩ ++ List.replicate MAXCLIENTS (.slot ⟨.eof, .zero, true⟩) ++ connect 1

/-- Connection 1 sends CMD_PLANE_STOP alone. In one run it turns plane 5 off, which another client set, and
in the other plane 0. -/
theorem not_isolated_planeStop :
    inputsOf 1 (server.run (boot .zero)
        (afterPlane ++ request .first (.ofText (pairText 8 4) .zero))).2 =
      inputsOf 1 (server.run (boot .zero)
        (connect 1 ++ request .first (.ofText (pairText 8 4) .zero))).2 ∧
    callsFor 1 (server.run (boot .zero)
        (afterPlane ++ request .first (.ofText (pairText 8 4) .zero))).2 ≠
      callsFor 1 (server.run (boot .zero)
        (connect 1 ++ request .first (.ofText (pairText 8 4) .zero))).2 := by
  decide +kernel

theorem server_isolated_auth :
    callsFor 1 (server.run (boot .zero)
        (afterPlane ++ request .first (.ofText (pairText 8 0) .zero) ++
          request .first (.ofText (pairText 8 4) .zero))).2 =
      callsFor 1 (server.run (boot .zero)
        (connect 1 ++ request .first (.ofText (pairText 8 0) .zero) ++
          request .first (.ofText (pairText 8 4) .zero))).2 ∧
    repliesTo 1 (server.run (boot .zero)
        (afterPlane ++ request .first (.ofText (pairText 8 0) .zero) ++
          request .first (.ofText (pairText 8 4) .zero))).2 =
      repliesTo 1 (server.run (boot .zero)
        (connect 1 ++ request .first (.ofText (pairText 8 0) .zero) ++
          request .first (.ofText (pairText 8 4) .zero))).2 :=
  server_isolated (by decide +kernel) (by decide +kernel)

end SysSnippets.Drm
