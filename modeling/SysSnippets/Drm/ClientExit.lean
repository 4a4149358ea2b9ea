import SysSnippets.Drm.Client

/-!
# What the DRM clients return

`main` of `drm_client_crtc.c` and `drm_client_plane.c` from `socket` to its `return`. What the calls return
is input (`CallResults`), so is what each pass of the communication loop finds (`Pass`).

* `talk` : the loop;
* `errFb` to `errExit` : the labels behind the loop, with what each of them stores into `ret`;
* `reports_iff` : when a `main` that returns 0 has been told that its stop request succeeded.
-/

namespace SysSnippets.Drm
open SysSnippets.Lib

/-- What the calls in front of the loop and behind it return, with what they store through a pointer. -/
structure CallResults where
  socket : Bool
  connect : Bool
  openDevice : Bool
  /-- what `ret` holds when `main` is entered -/
  uninit : Int
  getMagic : Int
  magic : U32
  kmsCreate : Int
  boCreate : Int
  getPitch : Int
  getHandle : Int
  boMap : Int
  addFB : Int
  fb : U32
  writeAuth : Bool
  boUnmap : Int
  boDestroy : Int
  kmsDestroy : Int

/-- What a pass of the communication loop finds. -/
inductive Pass
  /-- `select` returns 0 -/
  | timeout
  /-- `select` returns -1 -/
  | selectError
  /-- `select` reports something else than the socket -/
  | otherReady
  /-- `read` returns 0 or -1 -/
  | readError
  /-- `read` stores `rx`; `written` is whether the `write` of this pass succeeds -/
  | message (rx : RxBytes) (written : Bool)

/-! ## The communication loop -/

/-- A pass that reads `rx`, together with what it does after `getchar`. -/
def Client.pass (p : Program) (cl : Client) (rx : RxBytes) (written : Bool) : Client :=
  let cl := (cl.recv p rx.bytes written).1
  if cl.pc = .drawn then (cl.stop p written).1 else cl

/-- What `ret` holds when a pass that reads `rx` leaves the loop: the value of `sscanf` at the end of the
session, and -1 otherwise. -/
def Client.passRet (p : Program) (cl : Client) (rx : RxBytes) : Int :=
  if scanReply rx.bytes = some (p.magic, Status.ok.code) ∧ cl.command = p.stop.command then 2 else -1

/-- The loop, with what `ret` holds when it is left. `none` : it is not left, or `sscanf` reads on behind
`rx_buf`. -/
def talk (p : Program) : Client → List Pass → Option (Int × Client)
  | _, [] => none
  | cl, .timeout :: _ => some (-1, cl.quit)
  | cl, .selectError :: _ => some (-1, cl.quit)
  | cl, .otherReady :: passes => talk p cl passes
  | cl, .readError :: _ => some (-1, cl.quit)
  | cl, .message rx written :: passes =>
      if rxText rx = none then none
      else
        let next := cl.pass p rx written
        if next.pc = .gone then some (cl.passRet p rx, next) else talk p next passes

/-! ## The labels -/

def errExit (ret : Int) : Int := ret

/-- `close(sockfd)` -/
def errCloseNet (ret : Int) : Int := errExit ret

/-- `close(fd)` -/
def errCloseDrm (ret : Int) : Int := errCloseNet ret

/-- `ret = kms_destroy(&drv)` -/
def errDriverDestroy (res : CallResults) (_ret : Int) : Int := errCloseDrm res.kmsDestroy

/-- `ret = kms_bo_destroy(&bo)` -/
def errBufferDestroy (res : CallResults) (_ret : Int) : Int := errDriverDestroy res res.boDestroy

/-- `ret = kms_bo_unmap(bo)` -/
def errBufferUnmap (res : CallResults) (_ret : Int) : Int := errBufferDestroy res res.boUnmap

/-- `drmModeRmFB(fd, fb)` -/
def errFb (res : CallResults) (ret : Int) : Int := errBufferUnmap res ret

/-! ## `main` -/

/-- From `kms_create` to the request CMD_AUTH. An error is what `main` returns. -/
def createBuffer (p : Program) (res : CallResults) : Except Int Program :=
  if res.kmsCreate ≠ 0 then .error (errCloseDrm res.kmsCreate)
  else if res.boCreate ≠ 0 then .error (errDriverDestroy res res.boCreate)
  else if res.getPitch ≠ 0 then .error (errBufferDestroy res res.getPitch)
  else if res.getHandle ≠ 0 then .error (errBufferDestroy res res.getHandle)
  else if res.boMap ≠ 0 then .error (errBufferDestroy res res.boMap)
  else if res.addFB ≠ 0 then .error (errBufferUnmap res res.addFB)
  else if res.writeAuth = false then .error (errBufferUnmap res (-1))
  else .ok p

/-- What both clients do up to the loop. `target` is the program of the display or the plane they found, or
what `ret` holds when there is none. -/
def setup (target : Except Int Program) (res : CallResults) : Except Int Program :=
  if res.socket = false then .error (errExit (-1))
  else if res.connect = false then .error (errCloseNet (-1))
  else if res.openDevice = false then .error (errCloseNet res.uninit)
  else if res.getMagic ≠ 0 then .error (errCloseDrm res.getMagic)
  else
    match target with
    | .error ret => .error (errCloseDrm ret)
    | .ok p => createBuffer p res

/-- What `main` returns, with what it sent and read. -/
def clientMain (target : Except Int Program) (res : CallResults) (passes : List Pass) :
    Option (Int × List Event) :=
  match setup target res with
  | .error ret => some (ret, [])
  | .ok p => (talk p (Client.start.auth p true).1 passes).map fun out => (errFb res out.1, out.2.trace)

/-- The command line of `drm_client_crtc`. -/
structure CrtcOptions where
  connId : U32
  crtcId : U32

/-- `mode` is the name of what `drm_get_mode_by_name` returns. NULL leaves `ret` as `drmGetMagic` set it. -/
def crtcTarget (o : CrtcOptions) (mode : Option ModeName) (res : CallResults) : Except Int Program :=
  match mode with
  | none => .error res.getMagic
  | some name => .ok (.crtc res.magic o.crtcId o.connId res.fb name)

def crtcMain (o : CrtcOptions) (mode : Option ModeName) (res : CallResults) (passes : List Pass) :
    Option (Int × List Event) :=
  clientMain (crtcTarget o mode res) res passes

/-- The command line of `drm_client_plane`. -/
structure PlaneOptions where
  planeId : U32
  crtcId : U32
  width : U32
  height : U32
  posx : U32
  posy : U32

def ENODEV : Int := 19

/-- The loop over `resources->planes`: each entry is the plane id that `drmModeGetPlane` reports for it. -/
def findPlane (planeId : U32) : List (Option U32) → Bool
  | [] => false
  | none :: planes => findPlane planeId planes
  | some id :: planes => if id = planeId then true else findPlane planeId planes

def planeTarget (o : PlaneOptions) (resources : Option (List (Option U32))) (res : CallResults) :
    Except Int Program :=
  match resources with
  | none | some [] => .error (-ENODEV)
  | some planes =>
      if findPlane o.planeId planes then
        .ok (.plane res.magic o.crtcId o.planeId res.fb o.width o.height o.posx o.posy)
      else .error (-ENODEV)

def planeMain (o : PlaneOptions) (resources : Option (List (Option U32))) (res : CallResults)
    (passes : List Pass) : Option (Int × List Event) :=
  clientMain (planeTarget o resources res) res passes

/-! ## The answer to the stop request -/

/-- After `stop` was sent, DRM_OK with its magic was read. -/
def Acknowledged (stop : Request) (trace : List Event) : Prop :=
  ∃ pre rx post, trace = pre ++ .read rx :: post ∧ .sent stop ∈ pre ∧
    scanReply rx = some (stop.magic, Status.ok.code)

/-- The passes bring DRM_OK to the request sent last and to `k` requests more, each of which can be sent;
no pass before that makes the client leave. -/
def confirms (magic : U32) : Nat → List Pass → Bool
  | _, [] => false
  | k, .otherReady :: passes => confirms magic k passes
  | k, .message rx written :: passes =>
      match scanReply rx.bytes with
      | none => false
      | some (mag, val) =>
          if mag ≠ magic then confirms magic k passes
          else if val ≠ Status.ok.code then false
          else
            match k with
            | 0 => true
            | k + 1 => written && confirms magic k passes
  | _, .timeout :: _ | _, .selectError :: _ | _, .readError :: _ => false

/-- A failure that `main` returns: one before `kms_create`, unless `ret` is 0 there, that of `kms_create`,
and that of `kms_destroy`. -/
def Reports (target : Except Int Program) (res : CallResults) : Prop :=
  res.socket = false ∨ res.connect = false ∨
    if res.openDevice = false then res.uninit ≠ 0
    else res.getMagic ≠ 0 ∨
      match target with
      | .error ret => ret ≠ 0
      | .ok _ => res.kmsCreate ≠ 0 ∨ res.kmsDestroy ≠ 0

/-- Every call in front of the loop succeeds. -/
structure SetUp (target : Except Int Program) (res : CallResults) : Prop where
  socket : res.socket = true
  connect : res.connect = true
  openDevice : res.openDevice = true
  getMagic : res.getMagic = 0
  target : ∃ p, target = .ok p
  kms : ∀ ret ∈ [res.kmsCreate, res.boCreate, res.getPitch, res.getHandle, res.boMap, res.addFB], ret = 0
  writeAuth : res.writeAuth = true

theorem acknowledged_iff {stop : Request} {trace : List Event} : Acknowledged stop trace ↔
    ¬ Every (fun pre e => ∀ rx, e = .read rx → .sent stop ∈ pre →
      scanReply rx ≠ some (stop.magic, Status.ok.code)) trace := by
  unfold Every
  push Not
  constructor
  · rintro ⟨pre, rx, post, htrace, hsent, hscan⟩
    exact ⟨pre, .read rx, post, htrace, rx, rfl, hsent, hscan⟩
  · rintro ⟨pre, e, post, htrace, rx, rfl, hsent, hscan⟩
    exact ⟨pre, rx, post, htrace, hsent, hscan⟩

theorem not_acknowledged_nil (stop : Request) : ¬ Acknowledged stop [] := by
  rw [acknowledged_iff, not_not]
  exact every_nil

/-- Only a response makes a difference. -/
theorem acknowledged_snoc {stop : Request} {trace : List Event} {e : Event} (he : ∀ rx, e ≠ .read rx) :
    Acknowledged stop (trace ++ [e]) ↔ Acknowledged stop trace := by
  rw [acknowledged_iff, acknowledged_iff, every_snoc, not_iff_not]
  exact and_iff_left fun rx h => absurd h (he rx)

theorem acknowledged_snoc_read {stop : Request} {trace : List Event} {rx : List Byte} :
    Acknowledged stop (trace ++ [.read rx]) ↔ Acknowledged stop trace ∨
      (.sent stop ∈ trace ∧ scanReply rx = some (stop.magic, Status.ok.code)) := by
  rw [acknowledged_iff, acknowledged_iff, every_snoc, not_and_or]
  simp

theorem sent_mem_iff {r : Request} {trace : List Event} : .sent r ∈ trace ↔ r ∈ sentIn trace := by
  unfold sentIn
  rw [List.mem_filterMap]
  constructor
  · intro h
    exact ⟨.sent r, h, rfl⟩
  · rintro ⟨e, he, her⟩
    cases e with
    | sent r' => exact Option.some.inj her ▸ he
    | read rx => exact (nomatch her)
    | drew => exact (nomatch her)

/-! ## One pass -/

/-- Request `k` was sent last, and the stop request is not acknowledged. -/
structure Awaiting (p : Program) (k : Nat) (cl : Client) : Prop where
  pc : cl.pc = .waiting
  command : p.requests[k]?.map Request.command = some cl.command
  sent : sentIn cl.trace = p.requests.take (k + 1)
  unacknowledged : ¬ Acknowledged p.stop cl.trace

section Pass
variable {p : Program} {k : Nat} {cl : Client} {rx : RxBytes} {written : Bool}

theorem Program.stop_magic (p : Program) : p.stop.magic = p.magic := by
  cases p <;> rfl

theorem Program.stop_ne_first (p : Program) : p.stop ≠ p.first := by
  intro h
  exact p.stop_ne_auth (congrArg Request.command h)

theorem Program.stop_ne_second_request (p : Program) : p.stop ≠ p.second := by
  intro h
  exact p.stop_ne_second (congrArg Request.command h)

theorem awaiting_auth (p : Program) : Awaiting p 0 (Client.start.auth p true).1 := by
  refine ⟨rfl, rfl, rfl, ?_⟩
  show ¬ Acknowledged p.stop ([] ++ [.sent p.first])
  rw [acknowledged_snoc (by simp)]
  exact not_acknowledged_nil _

/-- Before the stop request is sent no response acknowledges it. -/
theorem Awaiting.stop_notMem (h : Awaiting p k cl) (hk : k < 2) : .sent p.stop ∉ cl.trace := by
  rw [sent_mem_iff, h.sent]
  intro hmem
  have hfirst := p.stop_ne_first
  have hsecond := p.stop_ne_second_request
  have : p.stop ∈ [p.first, p.second] :=
    (List.take_subset_take_left p.requests (show k + 1 ≤ 2 by omega)) hmem
  simp [hfirst, hsecond] at this

theorem Awaiting.stop_mem (h : Awaiting p 2 cl) : .sent p.stop ∈ cl.trace := by
  rw [sent_mem_iff, h.sent]
  simp [Program.requests]

/-- A response that is not DRM_OK with the client's magic acknowledges nothing, nor does one that comes
before the stop request. -/
theorem Awaiting.read (h : Awaiting p k cl)
    (hrx : scanReply rx.bytes ≠ some (p.magic, Status.ok.code) ∨ k < 2) :
    ¬ Acknowledged p.stop (cl.trace ++ [.read rx.bytes]) := by
  rw [acknowledged_snoc_read, not_or, not_and_or, p.stop_magic]
  refine ⟨h.unacknowledged, ?_⟩
  rcases hrx with hrx | hk
  · exact Or.inr hrx
  · exact Or.inl (h.stop_notMem hk)

theorem pass_incomplete (hscan : scanReply rx.bytes = none) :
    cl.pass p rx written = { cl with pc := .gone, trace := cl.trace ++ [.read rx.bytes] } := by
  simp [Client.pass, Client.recv, hscan, Client.quit]

theorem pass_otherMagic (hpc : cl.pc = .waiting) {mag val : U32} (hscan : scanReply rx.bytes = some (mag, val))
    (hmag : mag ≠ p.magic) : cl.pass p rx written = { cl with trace := cl.trace ++ [.read rx.bytes] } := by
  simp [Client.pass, Client.recv, hscan, hmag, hpc]

theorem pass_error {val : U32} (hscan : scanReply rx.bytes = some (p.magic, val))
    (hval : val ≠ Status.ok.code) :
    cl.pass p rx written = { cl with pc := .gone, trace := cl.trace ++ [.read rx.bytes] } := by
  simp [Client.pass, Client.recv, hscan, hval, Client.quit]

/-! The three passes that read DRM_OK. -/

theorem pass_auth (hscan : scanReply rx.bytes = some (p.magic, Status.ok.code)) (hcommand : cl.command = .auth) :
    cl.pass p rx written = (Client.write
      { cl with command := p.second.command, trace := cl.trace ++ [.read rx.bytes] } p.second written).1 := by
  cases written <;> simp [Client.pass, Client.recv, Client.proceed, Client.write, Client.quit, hscan, hcommand]

theorem pass_second (hscan : scanReply rx.bytes = some (p.magic, Status.ok.code))
    (hcommand : cl.command = p.second.command) :
    cl.pass p rx written = (Client.write { cl with
      pc := .drawn, command := p.stop.command, trace := cl.trace ++ [.read rx.bytes] ++ [.drew] }
        p.stop written).1 := by
  have hauth := p.second_ne_auth
  simp [Client.pass, Client.recv, Client.proceed, Client.stop, hscan, hcommand, hauth]

theorem pass_stop (hscan : scanReply rx.bytes = some (p.magic, Status.ok.code))
    (hcommand : cl.command = p.stop.command) :
    cl.pass p rx written = { cl with pc := .gone, trace := cl.trace ++ [.read rx.bytes] } := by
  have hauth := p.stop_ne_auth
  have hsecond := p.stop_ne_second
  simp [Client.pass, Client.recv, Client.proceed, Client.quit, hscan, hcommand, hauth, hsecond]

/-- DRM_OK to one of the first two requests: the next request is sent, or the client leaves. -/
theorem awaiting_pass (h : Awaiting p k cl) (hk : k < 2)
    (hscan : scanReply rx.bytes = some (p.magic, Status.ok.code)) :
    Awaiting p (k + 1) (cl.pass p rx true) ∧
      (cl.pass p rx false).pc = .gone ∧ ¬ Acknowledged p.stop (cl.pass p rx false).trace := by
  have hread : ¬ Acknowledged p.stop (cl.trace ++ [.read rx.bytes]) := h.read (Or.inr hk)
  have hcommand := h.command
  have hsent := h.sent
  obtain rfl | rfl : k = 0 ∨ k = 1 := by omega
  · rw [pass_auth hscan (Option.some.inj hcommand).symm, pass_auth hscan (Option.some.inj hcommand).symm]
    refine ⟨⟨rfl, rfl, ?_, ?_⟩, rfl, hread⟩
    · simp [Client.write, hsent, Program.requests]
    · show ¬ Acknowledged p.stop (cl.trace ++ [.read rx.bytes] ++ [.sent p.second])
      rwa [acknowledged_snoc (by simp)]
  · have hdrew : ¬ Acknowledged p.stop (cl.trace ++ [.read rx.bytes] ++ [.drew]) := by
      rwa [acknowledged_snoc (by simp)]
    rw [pass_second hscan (Option.some.inj hcommand).symm, pass_second hscan (Option.some.inj hcommand).symm]
    refine ⟨⟨rfl, rfl, ?_, ?_⟩, rfl, hdrew⟩
    · simp [Client.write, hsent, Program.requests]
    · show ¬ Acknowledged p.stop (cl.trace ++ [.read rx.bytes] ++ [.drew] ++ [.sent p.stop])
      rwa [acknowledged_snoc (by simp)]

/-- DRM_OK to the stop request. -/
theorem acknowledged_pass (h : Awaiting p 2 cl)
    (hscan : scanReply rx.bytes = some (p.magic, Status.ok.code)) :
    (cl.pass p rx written).pc = .gone ∧ Acknowledged p.stop (cl.pass p rx written).trace := by
  rw [pass_stop hscan (Option.some.inj h.command).symm]
  refine ⟨rfl, ?_⟩
  rw [acknowledged_snoc_read, p.stop_magic]
  exact Or.inr ⟨h.stop_mem, hscan⟩

/-- A response that is not complete, or not DRM_OK: the client leaves. -/
theorem Awaiting.leaves (h : Awaiting p k cl)
    (hscan : scanReply rx.bytes = none ∨ ∃ val, scanReply rx.bytes = some (p.magic, val) ∧ val ≠ Status.ok.code) :
    (cl.pass p rx written).pc = .gone ∧ ¬ Acknowledged p.stop (cl.pass p rx written).trace := by
  rcases hscan with hscan | ⟨val, hscan, hval⟩
  · rw [pass_incomplete hscan]
    exact ⟨rfl, h.read (Or.inl (by simp [hscan]))⟩
  · rw [pass_error hscan hval]
    exact ⟨rfl, h.read (Or.inl (by simp [hscan, hval]))⟩

/-- A response to another client: nothing changes but what was read. -/
theorem Awaiting.otherMagic (h : Awaiting p k cl) {mag val : U32} (hscan : scanReply rx.bytes = some (mag, val))
    (hmag : mag ≠ p.magic) : Awaiting p k (cl.pass p rx written) := by
  rw [pass_otherMagic h.pc hscan hmag]
  refine ⟨h.pc, h.command, ?_, h.read (Or.inl (by simp [hscan, hmag]))⟩
  simpa using h.sent

/-- After a message the loop ends or goes on. -/
theorem talk_message {passes : List Pass} {ret : Int} {cl' : Client}
    (h : talk p cl (.message rx written :: passes) = some (ret, cl')) :
    ((cl.pass p rx written).pc = .gone ∧ cl' = cl.pass p rx written) ∨
      ((cl.pass p rx written).pc ≠ .gone ∧ talk p (cl.pass p rx written) passes = some (ret, cl')) := by
  rw [talk] at h
  dsimp only at h
  split_ifs at h with hrx hgone
  · exact Or.inl ⟨hgone, (congrArg Prod.snd (Option.some.inj h)).symm⟩
  · exact Or.inr ⟨hgone, h⟩

/-- The loop: what the client reads acknowledges the stop request exactly if every request is confirmed. -/
theorem talk_confirms {passes : List Pass} {ret : Int} {cl' : Client} (h : Awaiting p k cl) (hk : k ≤ 2)
    (htalk : talk p cl passes = some (ret, cl')) :
    Acknowledged p.stop cl'.trace ↔ confirms p.magic (2 - k) passes = true := by
  induction passes generalizing cl k with
  | nil => exact (nomatch htalk)
  | cons pass passes ih =>
      have hquit : some (-1, cl.quit) = some (ret, cl') → (Acknowledged p.stop cl'.trace ↔ false = true) := by
        intro heq
        obtain ⟨-, rfl⟩ := Prod.mk.inj (Option.some.inj heq)
        exact iff_of_false h.unacknowledged (by simp)
      cases pass with
      | timeout => exact hquit htalk
      | selectError => exact hquit htalk
      | readError => exact hquit htalk
      | otherReady => exact ih h hk htalk
      | message rx written =>
          have hleave : (cl.pass p rx written).pc = .gone → cl' = cl.pass p rx written := by
            intro hgone
            exact ((talk_message htalk).resolve_right fun hstay => hstay.1 hgone).2
          have hstay {k' : Nat} : Awaiting p k' (cl.pass p rx written) →
              talk p (cl.pass p rx written) passes = some (ret, cl') := by
            intro hnext
            refine ((talk_message htalk).resolve_left fun hgone => ?_).2
            rw [hnext.pc] at hgone
            exact (nomatch hgone.1)
          rw [confirms.eq_def]
          dsimp only
          cases hscan : scanReply rx.bytes with
          | none =>
              obtain ⟨hgone, hack⟩ := @Awaiting.leaves p k cl rx written h (Or.inl hscan)
              obtain rfl := hleave hgone
              exact iff_of_false hack (by simp)
          | some answer =>
              obtain ⟨mag, val⟩ := answer
              dsimp only
              by_cases hmag : mag ≠ p.magic
              · rw [if_pos hmag]
                have hnext : Awaiting p k (cl.pass p rx written) := h.otherMagic hscan hmag
                exact ih hnext hk (hstay hnext)
              rw [if_neg hmag]
              obtain rfl := not_not.1 hmag
              by_cases hval : val ≠ Status.ok.code
              · rw [if_pos hval]
                obtain ⟨hgone, hack⟩ := @Awaiting.leaves p k cl rx written h (Or.inr ⟨val, hscan, hval⟩)
                obtain rfl := hleave hgone
                exact iff_of_false hack (by simp)
              rw [if_neg hval]
              obtain rfl := not_not.1 hval
              obtain rfl | hk' : k = 2 ∨ k < 2 := by omega
              · obtain ⟨hgone, hack⟩ := @acknowledged_pass p cl rx written h hscan
                obtain rfl := hleave hgone
                exact iff_of_true hack rfl
              · obtain ⟨hnext, hgone, hack⟩ := awaiting_pass h hk' hscan
                rw [show 2 - k = 2 - (k + 1) + 1 by omega]
                cases written with
                | false =>
                    obtain rfl := hleave hgone
                    exact iff_of_false hack (by simp)
                | true => simpa using ih hnext hk' (hstay hnext)

end Pass

/-! ## What `main` returns -/

section Main
variable {target : Except Int Program} {res : CallResults} {passes : List Pass} {ret : Int} {p q : Program}

theorem createBuffer_error (h : createBuffer p res = .error ret) :
    (ret ≠ 0 ↔ res.kmsCreate ≠ 0 ∨ res.kmsDestroy ≠ 0) := by
  unfold createBuffer at h
  by_cases hcreate : res.kmsCreate ≠ 0
  · rw [if_pos hcreate] at h
    obtain rfl : res.kmsCreate = ret := Except.error.inj h
    exact iff_of_true hcreate (Or.inl hcreate)
  · rw [if_neg hcreate] at h
    rw [or_iff_right hcreate]
    suffices hret : res.kmsDestroy = ret by rw [hret]
    -- every other failure ends at `err_driver_destroy`
    split_ifs at h <;> exact Except.error.inj h

theorem createBuffer_ok (h : createBuffer p res = .ok q) : p = q ∧
    (∀ ret ∈ [res.kmsCreate, res.boCreate, res.getPitch, res.getHandle, res.boMap, res.addFB], ret = 0) ∧
      res.writeAuth = true := by
  unfold createBuffer at h
  split_ifs at h with hcreate hbo hpitch hhandle hmap hfb hwrite
  simp_all

/-- A failure in front of the loop, as `main` returns it. -/
theorem setup_error (h : setup target res = .error ret) : ret ≠ 0 ↔ Reports target res := by
  unfold setup at h
  unfold Reports
  by_cases hsocket : res.socket = false
  · rw [if_pos hsocket] at h
    obtain rfl : -1 = ret := Except.error.inj h
    simp [hsocket]
  rw [if_neg hsocket] at h
  by_cases hconnect : res.connect = false
  · rw [if_pos hconnect] at h
    obtain rfl : -1 = ret := Except.error.inj h
    simp [hconnect]
  rw [if_neg hconnect] at h
  rw [or_iff_right hsocket, or_iff_right hconnect]
  by_cases hopen : res.openDevice = false
  · rw [if_pos hopen] at h ⊢
    obtain rfl : res.uninit = ret := Except.error.inj h
    rfl
  rw [if_neg hopen] at h ⊢
  by_cases hmagic : res.getMagic ≠ 0
  · rw [if_pos hmagic] at h
    obtain rfl : res.getMagic = ret := Except.error.inj h
    exact iff_of_true hmagic (Or.inl hmagic)
  rw [if_neg hmagic] at h
  rw [or_iff_right hmagic]
  cases target with
  | error r =>
      obtain rfl : r = ret := Except.error.inj h
      rfl
  | ok p => exact createBuffer_error h

theorem setup_ok (h : setup target res = .ok p) : SetUp target res ∧ target = .ok p := by
  unfold setup at h
  split_ifs at h with hsocket hconnect hopen hmagic
  cases target with
  | error r => exact (nomatch h)
  | ok q =>
      obtain ⟨rfl, hkms, hwrite⟩ := createBuffer_ok h
      refine ⟨⟨?_, ?_, ?_, not_not.1 hmagic, ⟨q, rfl⟩, hkms, hwrite⟩, rfl⟩
      · exact Bool.eq_true_of_not_eq_false hsocket
      · exact Bool.eq_true_of_not_eq_false hconnect
      · exact Bool.eq_true_of_not_eq_false hopen

theorem SetUp.setup (h : SetUp target res) : ∃ p, setup target res = .ok p := by
  obtain ⟨p, rfl⟩ := h.target
  have hkms := h.kms
  simp only [List.forall_mem_cons] at hkms
  refine ⟨p, ?_⟩
  simp [Drm.setup, createBuffer, h.socket, h.connect, h.openDevice, h.getMagic, hkms, h.writeAuth]

/-- **What a client's result says.** -/
theorem clientMain_reports {stop : Request} {trace : List Event} (hmagic : stop.magic = res.magic)
    (hstop : ∀ p, target = .ok p → p.stop = stop)
    (h : clientMain target res passes = some (ret, trace)) :
    (ret = 0 → Acknowledged stop trace) ↔
      Reports target res ∨ (SetUp target res ∧ confirms res.magic 2 passes = true) := by
  unfold clientMain at h
  cases hsetup : setup target res with
  | error r =>
      rw [hsetup] at h
      obtain ⟨rfl, rfl⟩ := Prod.mk.inj (Option.some.inj h)
      have hnot : ¬ SetUp target res := by
        intro hs
        obtain ⟨p, hp⟩ := hs.setup
        rw [hsetup] at hp
        exact (nomatch hp)
      rw [← setup_error hsetup, or_iff_left fun hc => hnot hc.1]
      have hack := not_acknowledged_nil stop
      exact ⟨fun hret h0 => hack (hret h0), fun hret h0 => absurd h0 hret⟩
  | ok p =>
      rw [hsetup] at h
      obtain ⟨hs, rfl⟩ := setup_ok hsetup
      obtain ⟨⟨r, cl⟩, htalk, hout⟩ := Option.map_eq_some_iff.1 h
      obtain ⟨rfl, rfl⟩ := Prod.mk.inj hout
      obtain rfl := hstop p rfl
      have hack := talk_confirms (awaiting_auth p) (by omega) htalk
      rw [← p.stop_magic, hmagic] at hack
      have hkms : res.kmsCreate = 0 := hs.kms _ (by simp)
      have hreports : Reports (.ok p) res ↔ res.kmsDestroy ≠ 0 := by
        simp [Reports, hs.socket, hs.connect, hs.openDevice, hs.getMagic, hkms]
      show (res.kmsDestroy = 0 → _) ↔ _
      rw [hack, hreports, and_iff_right hs]
      exact imp_iff_not_or

end Main

/-- **What the clients' results say.** -/
theorem reports_iff (res : CallResults) (passes : List Pass) :
    (∀ (o : CrtcOptions) (mode : Option ModeName) ret trace, crtcMain o mode res passes = some (ret, trace) →
      ((ret = 0 → Acknowledged (.crtcStop res.magic) trace) ↔ Reports (crtcTarget o mode res) res ∨
        (SetUp (crtcTarget o mode res) res ∧ confirms res.magic 2 passes = true))) ∧
    ∀ (o : PlaneOptions) (resources : Option (List (Option U32))) ret trace,
      planeMain o resources res passes = some (ret, trace) →
        ((ret = 0 → Acknowledged (.planeStop res.magic) trace) ↔ Reports (planeTarget o resources res) res ∨
          (SetUp (planeTarget o resources res) res ∧ confirms res.magic 2 passes = true)) := by
  constructor
  · intro o mode ret trace h
    refine clientMain_reports rfl (fun p hp => ?_) h
    cases mode with
    | none => exact (nomatch hp)
    | some name =>
        obtain rfl := Except.ok.inj hp
        rfl
  · intro o resources ret trace h
    refine clientMain_reports rfl (fun p hp => ?_) h
    unfold planeTarget at hp
    split at hp
    · exact (nomatch hp)
    · exact (nomatch hp)
    · split_ifs at hp
      obtain rfl := Except.ok.inj hp
      rfl

/-- Every call succeeds. -/
def CallResults.fine (magic fb : U32) : CallResults :=
  { socket := true, connect := true, openDevice := true, uninit := 0, getMagic := 0, magic, kmsCreate := 0,
    boCreate := 0, getPitch := 0, getHandle := 0, boMap := 0, addFB := 0, fb, writeAuth := true, boUnmap := 0,
    boDestroy := 0, kmsDestroy := 0 }

def mode640 : ModeName := ⟨[ch '6', ch '4', ch '0'], by decide, by decide, by decide⟩

/-- The response "7:0". -/
def ok7 : RxBytes := ⟨[ch '7', ch ':', ch '0'], by decide, by decide⟩

/-- A display client that is answered three times, and a plane client that is not answered at all. -/
theorem reports_iff_sessions :
    (∃ trace, crtcMain ⟨3, 1⟩ (some mode640) (.fine 7 9) (List.replicate 3 (.message ok7 true)) = some (0, trace) ∧
      Acknowledged (.crtcStop 7) trace) ∧
    ∃ trace, planeMain ⟨4, 1, 8, 8, 0, 0⟩ (some [none, some 4]) (.fine 7 9) [.timeout] = some (0, trace) ∧
      ¬ Acknowledged (.planeStop 7) trace := by
  have hplane : planeMain ⟨4, 1, 8, 8, 0, 0⟩ (some [none, some 4]) (.fine 7 9) [.timeout] =
      some (0, [.sent (.auth 7)]) := by decide +kernel
  constructor
  · have hcrtc : crtcMain ⟨3, 1⟩ (some mode640) (.fine 7 9) (List.replicate 3 (.message ok7 true)) =
        some (0, [.sent (.auth 7), .read ok7.bytes, .sent (.crtc 7 1 3 9 mode640), .read ok7.bytes, .drew,
          .sent (.crtcStop 7), .read ok7.bytes]) := by decide +kernel
    refine ⟨_, hcrtc, ((reports_iff _ _).1 _ _ _ _ hcrtc).2 (Or.inr ⟨?_, by decide +kernel⟩) rfl⟩
    exact ⟨rfl, rfl, rfl, rfl, ⟨_, rfl⟩, by decide, rfl⟩
  · refine ⟨_, hplane, fun hack => ?_⟩
    have h := ((reports_iff _ _).2 _ _ _ _ hplane).1 fun _ => hack
    rcases h with h | ⟨-, h⟩
    · revert h
      simp [Reports, planeTarget, findPlane, CallResults.fine]
    · exact (nomatch h)

/-- No server answers, every call succeeds. -/
theorem not_reported :
    (¬ ∀ (o : CrtcOptions) (mode : Option ModeName) res passes trace,
      crtcMain o mode res passes = some (0, trace) → Acknowledged (.crtcStop res.magic) trace) ∧
    ¬ ∀ (o : PlaneOptions) (resources : Option (List (Option U32))) res passes trace,
      planeMain o resources res passes = some (0, trace) → Acknowledged (.planeStop res.magic) trace := by
  have hlone : ∀ stop, Acknowledged stop [.sent (.auth 7)] → False := by
    intro stop h
    rw [← List.nil_append [Event.sent (.auth 7)], acknowledged_snoc (by simp)] at h
    exact not_acknowledged_nil _ h
  constructor
  · intro h
    exact hlone _ (h ⟨3, 1⟩ (some mode640) (.fine 7 9) [.timeout] [.sent (.auth 7)] (by decide +kernel))
  · intro h
    exact hlone _ (h ⟨4, 1, 8, 8, 0, 0⟩ (some [some 4]) (.fine 7 9) [.timeout] [.sent (.auth 7)] (by decide +kernel))

end SysSnippets.Drm
