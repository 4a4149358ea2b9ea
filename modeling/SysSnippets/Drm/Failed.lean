import SysSnippets.Drm.Codec
import SysSnippets.Drm.Replies
import SysSnippets.Drm.Restore

/-!
# Requests that fail

* `Screen`, `screen` : what the CRTCs and the planes show after some calls;
* `Unchanged s v` : the pass left the screen `s` and the entry of its slot alone;
* `Kept` : what a request that fails must repeat, so that nothing changes;
* `unchanged_iff` : a well-formed request that fails changes nothing exactly if it is `Kept`.
-/

namespace SysSnippets.Drm
open SysSnippets.Lib

/-! ## The screen -/

/-- What the CRTCs show, and what each plane was last set to. -/
structure Screen where
  crtcs : Display
  planes : U32 → PlaneArgs

/-- A call that succeeds may change the screen; one that fails does not. -/
def DrmCall.shows (s : Screen) (c : DrmCall) : Screen where
  crtcs := c.apply s.crtcs
  planes :=
    match c with
    | .setPlane args ret => if ret = 0 then Function.update s.planes args.planeId args else s.planes
    | _ => s.planes

/-- The screen after the calls. -/
def screen (s : Screen) (calls : List DrmCall) : Screen := calls.foldl DrmCall.shows s

theorem screen_append (s : Screen) (a b : List DrmCall) : screen s (a ++ b) = screen (screen s a) b := by
  simp [screen]

/-- The call is not a request to show something, or it failed. -/
def DrmCall.Idle : DrmCall → Prop
  | .setCrtc _ _ _ _ _ _ ret => ret ≠ 0
  | .setPlane _ ret => ret ≠ 0
  | _ => True

theorem DrmCall.Idle.shows {c : DrmCall} (h : c.Idle) (s : Screen) : c.shows s = s := by
  cases c with
  | setCrtc crtcId bufferId x y connId mode ret => simp [DrmCall.shows, DrmCall.apply, DrmCall.sets, show ret ≠ 0 from h]
  | setPlane args ret => simp [DrmCall.shows, DrmCall.apply, DrmCall.sets, show ret ≠ 0 from h]
  | _ => rfl

theorem DrmCall.Lookup.idle {c : DrmCall} (h : c.Lookup) : c.Idle := by
  cases c <;> trivial

theorem screen_idle {calls : List DrmCall} (h : ∀ c ∈ calls, c.Idle) (s : Screen) : screen s calls = s := by
  induction calls with
  | nil => rfl
  | cons c calls ih =>
      show screen (c.shows s) calls = s
      rw [(h c List.mem_cons_self).shows]
      exact ih fun d hd => h d (List.mem_cons_of_mem _ hd)

/-- The pass leaves everything as it was. -/
structure Unchanged (s : Screen) (v : Visit) : Prop where
  screen : screen s v.calls = s
  entry : v.after = v.before

/-! ## Requests that repeat what the entry holds -/

/-- The five fields of a CMD_CRTC in `text` are those of the entry. -/
def RepeatsCrtc (info : ClientInfo) (text : List Byte) : Prop :=
  ∃ a b, sscanf fmtCrtc text =
    [.int a, .int b, .int info.crtcId, .int info.connId, .int info.fb, .str info.modeName]

/-- The seven fields of a CMD_PLANE in `text` are those of the entry. -/
def RepeatsPlane (info : ClientInfo) (text : List Byte) : Prop :=
  ∃ a b, sscanf fmtPlane text = [.int a, .int b, .int info.crtcId, .int info.planeId, .int info.fb,
    .int info.w, .int info.h, .int info.x, .int info.y]

/-- What a CMD_CRTC stores before the call that fails is in the entry already, and if it is the last call
that fails, the CRTC shows already what was asked for. -/
def KeepsCrtc (s : Screen) (info : ClientInfo) (ans : DrmAnswers) : Prop :=
  match (drmGetModeByName ans.resources info.connId info.modeName).2 with
  | none => True
  | some tm => info.mode = some tm ∧
      match ans.crtc with
      | none => info.savedCrtc = .null
      | some old => info.savedCrtc = .obj old ∧
          (ans.setCrtc = 0 → info.currentCrtc = .null ∧ s.crtcs info.crtcId = ⟨info.fb, 0, 0, tm⟩)

/-- What a failing request must be to change nothing. -/
def Kept (s : Screen) (command : Option Command) (text : List Byte) (info : ClientInfo) (ans : DrmAnswers) :
    Prop :=
  match command with
  | some .crtc => RepeatsCrtc info text ∧ KeepsCrtc s info ans
  | some .plane => RepeatsPlane info text
  | some .auth | some .crtcStop | some .planeStop | none => True

/-! ## One request -/

section Dispatch
variable {s : Screen} {magic command : U32} {text tx : List Byte} {ret : Int} {info : ClientInfo}
  {ans : DrmAnswers} {out : Handled}

/-- A handled request whose response is DRM_ERROR. -/
def Handled.Fails (out : Handled) (magic : U32) : Prop := ∃ m, out.sent magic = reply m .error

theorem not_fails {out : Handled} (hret : out.ret ≠ -1) (htx : out.tx = reply magic .ok) :
    ¬ out.Fails magic := by
  rintro ⟨m, hsent⟩
  rw [Handled.sent, if_neg hret, htx] at hsent
  exact reply_ok_ne_error _ _ hsent

theorem idle_cmdAuth : screen s (cmdAuth magic info tx ans).calls = s ∧
    ((cmdAuth magic info tx ans).Fails magic → (cmdAuth magic info tx ans).info = info) := by
  unfold cmdAuth
  dsimp only
  split_ifs with h
  · exact ⟨screen_idle (by simp [DrmCall.Idle]) s, fun _ => rfl⟩
  · exact ⟨screen_idle (by simp [DrmCall.Idle]) s, fun hf => absurd hf (not_fails (show (0 : Int) ≠ -1 by decide) rfl)⟩

/-- A plane request that fails shows nothing new. -/
theorem idle_setPlane {args : PlaneArgs} (hf : (setPlane magic info args tx ans).Fails magic) :
    screen s (setPlane magic info args tx ans).calls = s ∧ (setPlane magic info args tx ans).info = info := by
  unfold setPlane at hf ⊢
  dsimp only at hf ⊢
  by_cases h : ans.setPlane ≠ 0
  · rw [if_pos h]
    exact ⟨screen_idle (by simpa [DrmCall.Idle] using h) s, rfl⟩
  · rw [if_neg h] at hf
    exact absurd hf (not_fails (show (0 : Int) ≠ -1 by decide) rfl)

theorem idle_cmdCrtcStop (hret : ret ≠ -1) (h : cmdCrtcStop magic ret info tx ans = .ok out)
    (hf : out.Fails magic) : screen s out.calls = s ∧ out.info = info := by
  unfold cmdCrtcStop at h
  cases hsaved : info.savedCrtc with
  | null => simp [hsaved] at h
  | wild => simp [hsaved] at h
  | obj crtc =>
      rw [hsaved] at h
      dsimp only at h
      split_ifs at h with hvalid hset
      · obtain rfl := Except.ok.inj h
        exact ⟨screen_idle (by simpa [DrmCall.Idle] using hset) s, rfl⟩
      · obtain rfl := Except.ok.inj h
        exact absurd hf (not_fails (show (0 : Int) ≠ -1 by decide) rfl)
      · obtain rfl := Except.ok.inj h
        exact absurd hf (not_fails hret rfl)

/-- CMD_PLANE leaves the entry alone exactly if it repeats it. -/
theorem scanPlane_eq_iff (h : ∃ a b crtc plane fb w h x y, sscanf fmtPlane text =
      [.int a, .int b, .int crtc, .int plane, .int fb, .int w, .int h, .int x, .int y]) :
    scanPlane text info = info ↔ RepeatsPlane info text := by
  obtain ⟨a, b, crtc, plane, fb, w, h, x, y, hscan⟩ := h
  unfold scanPlane RepeatsPlane
  rw [hscan]
  obtain ⟨magic', saved', current', crtc', conn', plane', w', h', x', y', fb', name', mode'⟩ := info
  simp only [intItem, List.getElem?_cons_succ, List.getElem?_cons_zero, ClientInfo.mk.injEq, List.cons.injEq,
    Item.int.injEq, exists_and_left, exists_eq_left', and_true, true_and]
  tauto

theorem kept_cmdPlane (h : ∃ a b crtc plane fb w h x y, sscanf fmtPlane text =
      [.int a, .int b, .int crtc, .int plane, .int fb, .int w, .int h, .int x, .int y])
    (hf : (cmdPlane magic text info tx ans).Fails magic) :
    (screen s (cmdPlane magic text info tx ans).calls = s ∧ (cmdPlane magic text info tx ans).info = info) ↔
      RepeatsPlane info text := by
  obtain ⟨hscreen, hinfo⟩ := idle_setPlane (s := s) hf
  rw [← scanPlane_eq_iff h]
  show (_ ∧ (setPlane magic (scanPlane text info) (planeArgs (scanPlane text info)) tx ans).info = info) ↔ _
  rw [hinfo]
  exact and_iff_right hscreen

/-! CMD_CRTC. -/

/-- The entry with the fields of a CMD_CRTC. -/
def ClientInfo.request (info : ClientInfo) (crtcId connId fb : U32) (modeName : List Byte) : ClientInfo :=
  { info with crtcId, connId, fb, modeName }

theorem request_eq_iff {crtc conn fb : U32} {name : List Byte} : info.request crtc conn fb name = info ↔
    crtc = info.crtcId ∧ conn = info.connId ∧ fb = info.fb ∧ name = info.modeName := by
  obtain ⟨magic', saved', current', crtc', conn', plane', w', h', x', y', fb', name', mode'⟩ := info
  simp [ClientInfo.request]

/-- The fields that CMD_CRTC stores after its `sscanf`. -/
theorem stored_eq_iff {mode : Option ModeInfo} {saved current : CrtcPtr} :
    { info with mode := mode, savedCrtc := saved, currentCrtc := current } = info ↔
      info.mode = mode ∧ info.savedCrtc = saved ∧ info.currentCrtc = current := by
  obtain ⟨magic', saved', current', crtc', conn', plane', w', h', x', y', fb', name', mode'⟩ := info
  simp only [ClientInfo.mk.injEq, true_and]
  tauto

/-- The calls of CMD_CRTC do not touch the fields it was given. -/
theorem setNewCrtc_request {info' : ClientInfo} (h : (setNewCrtc magic info' tx ans).info = info) :
    info'.crtcId = info.crtcId ∧ info'.connId = info.connId ∧ info'.fb = info.fb ∧
      info'.modeName = info.modeName := by
  have hcases := newCrtc_setNewCrtc magic info' tx ans
  rw [← h]
  generalize setNewCrtc magic info' tx ans = out at hcases
  cases hcases <;> exact ⟨rfl, rfl, rfl, rfl⟩

/-- The lookup of the mode shows nothing. -/
theorem idle_lookup {resources : Option Connectors} {connId : U32} {name : List Byte} {calls rest : List DrmCall}
    {tm : Option ModeInfo} (h : drmGetModeByName resources connId name = (calls, tm))
    (hrest : ∀ c ∈ rest, c.Idle) : ∀ c ∈ calls ++ rest, c.Idle := by
  intro c hc
  rcases List.mem_append.1 hc with hc | hc
  · exact (lookup_of_eq h c hc).idle
  · exact hrest c hc

/-- A CMD_CRTC that repeats the entry. -/
theorem kept_setNewCrtc (hf : (setNewCrtc magic info tx ans).Fails magic) :
    (screen s (setNewCrtc magic info tx ans).calls = s ∧ (setNewCrtc magic info tx ans).info = info) ↔
      KeepsCrtc s info ans := by
  have hcases := newCrtc_setNewCrtc magic info tx ans
  unfold KeepsCrtc
  generalize setNewCrtc magic info tx ans = out at hf hcases
  cases hcases with
  | noMode calls hm =>
      rw [hm]
      exact iff_of_true ⟨screen_idle (idle_lookup hm (by simp [DrmCall.Idle])) s, rfl⟩ trivial
  | noCrtc calls tm hm hc =>
      rw [hm, hc]
      have hidle : ∀ c ∈ calls ++ [.modeByName info.connId info.modeName (some tm),
          .getCrtc info.crtcId none], c.Idle := idle_lookup hm (by simp [DrmCall.Idle])
      refine (and_iff_right (screen_idle hidle s)).trans (stored_eq_iff.trans ?_)
      rw [eq_self_iff_true, and_true]
  | notSet calls tm old hm hc hs =>
      rw [hm, hc]
      have hidle : ∀ c ∈ calls ++ [.modeByName info.connId info.modeName (some tm),
          .getCrtc info.crtcId (some old), .setCrtc info.crtcId info.fb 0 0 info.connId tm ans.setCrtc],
          c.Idle := idle_lookup hm (by simp [DrmCall.Idle, hs])
      refine (and_iff_right (screen_idle hidle s)).trans (stored_eq_iff.trans ?_)
      simp [hs]
  | noCurrent calls tm old hm hc hs ha =>
      rw [hm, hc]
      -- the CRTC was set before the call that fails
      have hscreen : screen s (calls ++ [.modeByName info.connId info.modeName (some tm),
          .getCrtc info.crtcId (some old), .setCrtc info.crtcId info.fb 0 0 info.connId tm 0,
          .getCrtc info.crtcId none]) =
            { s with crtcs := Function.update s.crtcs info.crtcId ⟨info.fb, 0, 0, tm⟩ } := by
        rw [screen_append, screen_idle fun c hc => (lookup_of_eq hm c hc).idle]
        rfl
      have hsame : ({ s with crtcs := Function.update s.crtcs info.crtcId ⟨info.fb, 0, 0, tm⟩ } : Screen) = s ↔
          s.crtcs info.crtcId = ⟨info.fb, 0, 0, tm⟩ := by
        obtain ⟨crtcs, planes⟩ := s
        rw [Screen.mk.injEq, and_iff_left rfl, Function.update_eq_self_iff]
        exact eq_comm
      show (screen s (calls ++ _) = s ∧ _) ↔ _
      rw [hscreen, hsame, stored_eq_iff]
      simp only [hs, true_implies]
      tauto
  | done calls tm old new hm hc hs ha => exact absurd hf (not_fails (show (0 : Int) ≠ -1 by decide) rfl)

theorem kept_cmdCrtc (h : ∃ a b crtc conn fb w, sscanf fmtCrtc text =
      [.int a, .int b, .int crtc, .int conn, .int fb, .str w] ∧ w.length < MODE_NAME_LEN)
    (hd : cmdCrtc magic text info tx ans = .ok out) (hf : out.Fails magic) :
    (screen s out.calls = s ∧ out.info = info) ↔ RepeatsCrtc info text ∧ KeepsCrtc s info ans := by
  obtain ⟨a, b, crtc, conn, fb, name, hscan, hlen⟩ := h
  have hout : setNewCrtc magic (info.request crtc conn fb name) tx ans = out := by
    have hok : scanCrtc text info = .ok (info.request crtc conn fb name) := by
      unfold scanCrtc
      rw [hscan]
      simp [intItem, hlen, ClientInfo.request]
    rw [cmdCrtc, hok] at hd
    exact Except.ok.inj hd
  have hrepeats : RepeatsCrtc info text ↔ info.request crtc conn fb name = info := by
    rw [request_eq_iff, RepeatsCrtc, hscan]
    simp
  rw [hrepeats]
  by_cases hsame : info.request crtc conn fb name = info
  · rw [hsame] at hout
    rw [and_iff_right hsame, ← hout]
    exact kept_setNewCrtc (hout ▸ hf)
  · refine iff_of_false (fun h => hsame ?_) fun h => hsame h.1
    rw [← hout] at h
    exact request_eq_iff.2 (setNewCrtc_request h.2)

/-- **A request that fails.** -/
theorem kept_dispatch (hwf : Wellformed text magic command) (hret : ret ≠ -1)
    (hd : dispatch magic command text ret info tx ans = .ok out) (hf : out.Fails magic) :
    (screen s out.calls = s ∧ out.info = info) ↔ Kept s (Command.ofCode command) text info ans := by
  unfold dispatch at hd
  cases hcommand : Command.ofCode command with
  | none =>
      rw [hcommand] at hd
      obtain rfl := Except.ok.inj hd
      exact iff_of_true ⟨rfl, rfl⟩ trivial
  | some c =>
      rw [hcommand] at hd
      cases c with
      | auth =>
          obtain rfl := Except.ok.inj hd
          exact iff_of_true ⟨idle_cmdAuth.1, idle_cmdAuth (s := s).2 hf⟩ trivial
      | crtc => exact kept_cmdCrtc (hwf.crtc hcommand) hd hf
      | plane =>
          obtain rfl := Except.ok.inj hd
          exact kept_cmdPlane (hwf.plane hcommand) hf
      | crtcStop => exact iff_of_true (idle_cmdCrtcStop hret hd hf) trivial
      | planeStop =>
          obtain rfl := Except.ok.inj hd
          exact iff_of_true (idle_setPlane hf) trivial

end Dispatch

/-- **Requests that fail change nothing**, in every run, exactly if they are `Kept`. `s` is the screen at the
start of the run. -/
theorem unchanged_iff (g : Stack) (is : List Input) (s : Screen) {pre post : List Obs} {v : Visit}
    {rx : RxBytes} {text : List Byte} {magic command m : U32}
    (h : (server.run (boot g) is).2 = pre ++ .visit v :: post) (hread : v.input.read = .data rx)
    (htext : rxText rx = some text) (hwf : Wellformed text magic command)
    (hwrites : v.writes = [(v.conn, reply m .error)]) :
    Unchanged (screen s (callsOf pre)) v ↔
      Kept (screen s (callsOf pre)) (Command.ofCode command) text v.before v.input.answers := by
  obtain ⟨srv, hv, -⟩ := run_savedOf g is h
  obtain ⟨hmagic, hcommand⟩ := scanPair_wellformed hwf srv
  generalize hi : v.slot = i, hc : v.conn = c, hinp : v.input = inp at *
  cases hv with
  | replied rx' text' out hrx htext' hd hpeer =>
      obtain rfl : rx = rx' := ReadResult.data.inj (hread.symm.trans hrx)
      obtain rfl : text = text' := Option.some.inj (htext.symm.trans htext')
      have hlen : (rx.bytes.length : Int) ≠ -1 := by omega
      rw [hmagic, hcommand] at hd
      have hf : out.Fails magic := by
        refine ⟨m, ?_⟩
        rw [← hmagic]
        exact congrArg Prod.snd (List.head_eq_of_cons_eq hwrites)
      have hkept := kept_dispatch (s := screen s (callsOf pre)) hwf hlen hd hf
      exact ⟨fun hu => hkept.1 ⟨hu.screen, hu.entry⟩, fun hk => ⟨(hkept.2 hk).1, (hkept.2 hk).2⟩⟩
  | _ => exact (nomatch hwrites)

/-! ## A client whose second request fails -/

/-- CMD_PLANE for plane 4 on CRTC 1 with framebuffer 9; `drmModeSetPlane` returns `ret`. -/
def planeInput (ret : Int) : SlotIn :=
  .ofText (joinD [7, 2, 1, 4, 9, 8, 8, 0, 0]) { DrmAnswers.zero with setPlane := ret }

def planeText : List Byte := joinD [7, 2, 1, 4, 9, 8, 8, 0, 0]

def planeRx : RxBytes := ⟨planeText, by decide, by decide⟩

/-- The pass over the first of two equal requests, and over the second one, which fails. -/
def repeatedVisits : Visit × Visit :=
  let first := visit (server.run (boot .zero) (connect 0)).1.locals .first 0 (planeInput 0)
  (first.2, (visit first.1 .first 0 (planeInput (-22))).2)

/-- Every CRTC shows framebuffer 5, and the planes are off. -/
def plainScreen : Screen := ⟨plainDisplay, fun _ => planeOffArgs .zero⟩

theorem unchanged_iff_repeated :
    Unchanged (screen plainScreen (callsOf [.accepted 0 (some .first), .visit repeatedVisits.1]))
      repeatedVisits.2 := by
  have hrun : (server.run (boot .zero)
      (connect 0 ++ request .first (planeInput 0) ++ request .first (planeInput (-22)))).2 =
        [.accepted 0 (some .first), .visit repeatedVisits.1] ++ .visit repeatedVisits.2 :: [] := by
    decide +kernel
  have hread : repeatedVisits.2.input.read = .data planeRx := by decide +kernel
  have htext : rxText planeRx = some planeText := by decide +kernel
  have hscan : sscanf fmtPlane planeText =
      [.int 7, .int 2, .int 1, .int 4, .int 9, .int 8, .int 8, .int 0, .int 0] := by decide +kernel
  have hwf : Wellformed planeText 7 2 :=
    ⟨by decide +kernel, fun h => absurd h (by decide), fun _ => ⟨_, _, _, _, _, _, _, _, _, hscan⟩⟩
  have hwrites : repeatedVisits.2.writes = [(repeatedVisits.2.conn, reply 7 .error)] := by decide +kernel
  exact (unchanged_iff _ _ plainScreen hrun hread htext hwf hwrites).2 ⟨7, 2, hscan⟩

/-- The last call of a CMD_CRTC fails. -/
def halfway : SlotIn :=
  { crtcInput 10 5 with answers := { (crtcInput 10 5).answers with crtcAfter := none } }

def crtcText : List Byte := joinD [7, 1, 1, 3, 10] ++ ch ':' :: plainMode.name

/-- DRM_ERROR is sent, and CRTC 1 shows the framebuffer of the client. -/
theorem not_unchanged :
    ¬ ∀ (g : Stack) (is : List Input) (s : Screen) (pre post : List Obs) (v : Visit) (rx : RxBytes)
      (text : List Byte) (magic command m : U32), (server.run (boot g) is).2 = pre ++ .visit v :: post →
        v.input.read = .data rx → rxText rx = some text → Wellformed text magic command →
          v.writes = [(v.conn, reply m .error)] → Unchanged (screen s (callsOf pre)) v := by
  intro h
  let v := (visit (server.run (boot .zero) (connect 0)).1.locals .first 0 halfway).2
  have hrun : (server.run (boot .zero) (connect 0 ++ request .first halfway)).2 =
      [.accepted 0 (some .first)] ++ .visit v :: [] := by decide +kernel
  have hwf : Wellformed crtcText 7 1 := by
    refine ⟨by decide +kernel, fun _ => ⟨7, 1, 1, 3, 10, plainMode.name, by decide +kernel, by decide⟩, fun h => ?_⟩
    exact absurd h (by decide)
  have hscreen : screen plainScreen v.calls = plainScreen :=
    (h _ _ plainScreen _ _ v ⟨crtcText, by decide, by decide⟩ crtcText 7 1 7 hrun (by decide +kernel) (by decide +kernel) hwf
      (by decide +kernel)).screen
  have hconfig : (screen plainScreen v.calls).crtcs 1 = ⟨10, 0, 0, plainMode⟩ := by decide +kernel
  rw [hscreen] at hconfig
  revert hconfig
  decide +kernel

end SysSnippets.Drm
