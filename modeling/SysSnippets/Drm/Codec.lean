import SysSnippets.Drm.Server

/-!
# Encoding and decoding of the protocol

* `Decoded r` : the server reads out of the client's text the fields the client printed, and stores nothing
  else;
* `scanReply` : a client's reading of a reply;
* `codec_iff` : requests and replies survive the trip exactly if the mode name is one word that fits into
  `mode_name`.
-/

namespace SysSnippets.Drm
open SysSnippets.Lib

/-- What a request leaves in `rx_buf`. -/
def Request.received (r : Request) : RxBytes where
  bytes := message r.text
  pos := by
    have hlen := length_message r.text
    intro hnil
    simp [hnil] at hlen
  le := (length_message r.text).le

/-- The `sscanf` a command makes on the slot's entry. -/
def scanFields (command : Command) (text : List Byte) (info : ClientInfo) : Except Fault ClientInfo :=
  match command with
  | .crtc => scanCrtc text info
  | .plane => .ok (scanPlane text info)
  | .auth | .crtcStop | .planeStop => .ok info

/-- The entry with the fields the client encoded. -/
def Request.stored (r : Request) (info : ClientInfo) : ClientInfo :=
  match r with
  | .crtc _ crtcId connId fb name => { info with crtcId, connId, fb, modeName := name.bytes }
  | .plane _ crtcId planeId fb w h x y => { info with crtcId, planeId, fb, w, h, x, y }
  | .auth _ | .crtcStop _ | .planeStop _ => info

/-- The server decodes exactly what the client encoded. -/
structure Decoded (r : Request) : Prop where
  text : rxText r.received = some r.text
  pair : ∀ srv, (scanPair r.text srv).magic = r.magic ∧ (scanPair r.text srv).command = r.command.code
  fields : ∀ info, scanFields r.command r.text info = .ok (r.stored info)

/-- A client's `sscanf` of a reply; `none` is an incomplete response. -/
def scanReply (rx : List Byte) : Option (U32 × U32) :=
  match sscanf fmtPair (cstr rx) with
  | [.int mag, .int val] => some (mag, val)
  | _ => none

/-- The mode name is one word and fits into `mode_name`. -/
def Request.NameKept : Request → Prop
  | .crtc _ _ _ _ name => (∀ b ∈ name.bytes, isSpace b = false) ∧ name.bytes.length < MODE_NAME_LEN
  | .auth _ | .plane _ _ _ _ _ _ _ _ | .crtcStop _ | .planeStop _ => True

theorem scanReply_reply (magic : U32) (value : Status) :
    scanReply (reply magic value) = some (magic, value.code) := by
  unfold scanReply
  rw [sscanf_reply]

theorem reply_ok_ne_error (magic magic' : U32) : reply magic .ok ≠ reply magic' .error := by
  intro h
  have hscan := scanReply_reply magic .ok
  rw [h, scanReply_reply] at hscan
  have : Status.error.code = Status.ok.code := congrArg Prod.snd (Option.some.inj hscan)
  exact absurd this (by decide)

/-! ## The server's side -/

theorem rxText_received (r : Request) : rxText r.received = some r.text := by
  have hmem : (0 : Byte) ∈ r.received.bytes := zero_mem_zeroPad (by decide) _
  rw [rxText, if_pos (Or.inl hmem)]
  exact congrArg some (cstr_message_text r)

/-- Every request begins with its magic and its command. -/
theorem sscanf_fmtPair_text (r : Request) :
    sscanf fmtPair r.text = [.int r.magic, .int r.command.code] := by
  cases r with
  | crtc magic crtcId connId fb name =>
      have := sscanf_pairText magic Command.crtc.code
        (noDigit_colon (joinD [crtcId, connId, fb] ++ ch ':' :: name.bytes))
      simpa [Request.text, Request.magic, Request.command, pairText, joinD] using this
  | plane magic crtcId planeId fb w h x y =>
      have := sscanf_pairText magic Command.plane.code
        (noDigit_colon (joinD [crtcId, planeId, fb, w, h, x, y]))
      simpa [Request.text, Request.magic, Request.command, pairText, joinD] using this
  | _ => simpa [Request.text, Request.magic, Request.command] using sscanf_pairText _ _ noDigit_nil

theorem scanPair_text (r : Request) (srv : Locals) :
    (scanPair r.text srv).magic = r.magic ∧ (scanPair r.text srv).command = r.command.code := by
  simp [scanPair, sscanf_fmtPair_text, intItem]

/-- The five numbers of CMD_CRTC, and what the `%s` makes of the name. -/
theorem sscanf_fmtCrtc_text (magic crtcId connId fb : U32) (name : ModeName) :
    sscanf fmtCrtc (Request.crtc magic crtcId connId fb name).text =
      [.int magic, .int Command.crtc.code, .int crtcId, .int connId, .int fb] ++
        sscanf [.s] name.bytes := by
  simp [fmtCrtc, Request.text, joinD, sscanf_d_printD, noDigit_colon]

theorem sscanf_fmtPlane_text (magic crtcId planeId fb w h x y : U32) :
    sscanf fmtPlane (Request.plane magic crtcId planeId fb w h x y).text =
      [.int magic, .int Command.plane.code, .int crtcId, .int planeId, .int fb, .int w, .int h, .int x,
        .int y] := by
  have hlast := sscanf_d_printD [] y noDigit_nil
  rw [List.append_nil, sscanf_nil] at hlast
  simp [fmtPlane, Request.text, joinD, sscanf_d_printD, noDigit_colon, hlast]

theorem scanCrtc_text {magic crtcId connId fb : U32} {name : ModeName} (info : ClientInfo)
    (h : (Request.crtc magic crtcId connId fb name).NameKept) :
    scanCrtc (Request.crtc magic crtcId connId fb name).text info =
      .ok ((Request.crtc magic crtcId connId fb name).stored info) := by
  obtain ⟨hword, hlen⟩ := h
  have hs : sscanf [.s] name.bytes = [.str name.bytes] := by
    simp [sscanf, scanS_word ⟨name.ne, hword⟩]
  unfold scanCrtc
  rw [sscanf_fmtCrtc_text, hs]
  simp [intItem, hlen, Request.stored]

/-- A name that comes back is one word and fits. -/
theorem nameKept_of_scanCrtc {magic crtcId connId fb : U32} {name : ModeName}
    (h : ∀ info, scanCrtc (Request.crtc magic crtcId connId fb name).text info =
      .ok ((Request.crtc magic crtcId connId fb name).stored info)) :
    (Request.crtc magic crtcId connId fb name).NameKept := by
  have h := h .zero
  unfold scanCrtc at h
  rw [sscanf_fmtCrtc_text] at h
  cases hscan : scanS name.bytes with
  | none =>
      have hs : sscanf [.s] name.bytes = [] := by simp [sscanf, hscan]
      rw [hs] at h
      simp [Request.stored, ClientInfo.zero, name.ne.symm] at h
  | some wr =>
      obtain ⟨w, rest⟩ := wr
      have hs : sscanf [.s] name.bytes = [.str w] := by simp [sscanf, hscan]
      rw [hs] at h
      simp only [List.cons_append, List.nil_append, List.getElem?_cons_succ,
        List.getElem?_cons_zero] at h
      split_ifs at h with hlen
      have hname : w = name.bytes := congrArg ClientInfo.modeName (Except.ok.inj h)
      rw [hname] at hscan hlen
      exact ⟨(isWord_of_scanS hscan).2, hlen⟩

/-- **The protocol's round trip.** -/
theorem codec_iff (r : Request) :
    (Decoded r ∧ ∀ magic value, scanReply (reply magic value) = some (magic, value.code)) ↔
      r.NameKept := by
  constructor
  · rintro ⟨hdecoded, -⟩
    cases r with
    | crtc magic crtcId connId fb name => exact nameKept_of_scanCrtc hdecoded.fields
    | _ => trivial
  · intro hname
    refine ⟨⟨rxText_received r, scanPair_text r, fun info => ?_⟩, scanReply_reply⟩
    cases r with
    | crtc magic crtcId connId fb name => exact scanCrtc_text info hname
    | plane magic crtcId planeId fb w h x y =>
        simp [scanFields, Request.command, scanPlane, sscanf_fmtPlane_text, intItem, Request.stored]
    | _ => rfl

/-- A mode name of 20 characters does not fit. -/
theorem not_decoded_longName :
    ¬ Decoded (.crtc 7 1 3 9 ⟨List.replicate 20 (ch 'x'), by decide, by decide, by decide⟩) := by
  intro h
  have h := h.fields .zero
  revert h
  decide +kernel

end SysSnippets.Drm
