import SysSnippets.Drm.Libdrm
import Mathlib.Data.BitVec
import Mathlib.Data.List.Basic

/-!
# `drm_autoconf` of `drm_utils.c`

It searches what the card lists, and fills in `struct kms_display`. Each get call may return NULL.

* `Card` : what the kernel lists, with the answer to each get call;
* `scan` : the loop over connectors and the loop over encoders; `findCrtc` : the loop over CRTCs;
* `drmAutoconf` : the function, with the calls it makes;
* `Configured` : what its callers rely on.
-/

namespace SysSnippets.Drm
open SysSnippets.Lib

inductive Connection
  | connected
  | disconnected
  | unknown
  deriving DecidableEq

/-- `drmModeConnector`, with the fields that only `drm_autoconf` reads. -/
structure Output extends Connector where
  connection : Connection
  encoderId : U32
  encoders : List U32
  deriving DecidableEq

/-- `drmModeEncoder`. -/
structure Encoder where
  encoderId : U32
  crtcId : U32
  possibleCrtcs : U32
  deriving DecidableEq

/-- `struct kms_display`; `none` is NULL. -/
structure KmsDisplay where
  connector : Option Output
  encoder : Option Encoder
  mode : Option ModeInfo
  crtc : Option Crtc
  deriving DecidableEq

/-- `drmModeRes`, each id with what the get call for it returns. -/
structure Resources where
  connectors : List (U32 × Option Output)
  encoders : List (U32 × Option Encoder)
  crtcs : List (U32 × Option Crtc)

/-- `preferred` answers the get call for an encoder that is made after the loop. -/
structure Card where
  resources : Option Resources
  preferred : U32 → Option Encoder

/-- The calls of `drm_autoconf`, in libdrm's names. -/
inductive GetCall
  | getResources (found : Bool)
  | freeResources
  | getConnector (id : U32) (ret : Option Output)
  | freeConnector (connector : Output)
  | getEncoder (id : U32) (ret : Option Encoder)
  | freeEncoder (encoder : Encoder)
  | getCrtc (id : U32) (ret : Option Crtc)

/-! ## The loops -/

section Scan
variable {α : Type} (get : U32 → Option α → GetCall) (free : α → GetCall) (stop : α → Bool)

/-- Get each in turn, up to the first that `stop` accepts; the others are freed. -/
def scan : List (U32 × Option α) → List GetCall × Option α
  | [] => ([], none)
  | (id, none) :: rest =>
      let (calls, found) := scan rest
      (get id none :: calls, found)
  | (id, some a) :: rest =>
      if stop a then ([get id (some a)], some a)
      else
        let (calls, found) := scan rest
        (get id (some a) :: free a :: calls, found)

/-- Those that could be fetched. -/
def fetched (answers : List (U32 × Option α)) : List α := answers.filterMap Prod.snd

theorem scan_found (answers : List (U32 × Option α)) :
    (scan get free stop answers).2 = (fetched answers).find? stop := by
  induction answers with
  | nil => rfl
  | cons answer rest ih =>
      obtain ⟨id, _ | a⟩ := answer
      · exact ih
      · rw [show fetched ((id, some a) :: rest) = a :: fetched rest from rfl, List.find?_cons]
        unfold scan
        by_cases h : stop a = true
        · rw [if_pos h, h]
        · rw [if_neg h, (Bool.not_eq_true _).mp h]
          exact ih

end Scan

/-- `connector->connection == DRM_MODE_CONNECTED && connector->count_modes > 0` -/
def Output.active (connector : Output) : Bool :=
  connector.connection = .connected ∧ 0 < connector.modes.length

/-- `encoder->possible_crtcs & (1 << i)` -/
def Encoder.allows (encoder : Encoder) (i : Nat) : Bool := encoder.possibleCrtcs &&& (1#32 <<< i) ≠ 0

/-- The loop over CRTCs from index `i` on, and the fallback to `c` behind it. `none` is a shift by 32 or more, which
C does not define; otherwise the value of `crtc`. -/
def findCrtc (encoder : Encoder) (i : Nat) (c : Option Crtc) :
    List (U32 × Option Crtc) → List GetCall × Option (Option Crtc)
  | [] => ([], some c)
  | (id, none) :: rest =>
      let (calls, found) := findCrtc encoder (i + 1) c rest
      (.getCrtc id none :: calls, found)
  | (id, some crtc) :: rest =>
      if crtc.crtcId = encoder.crtcId then ([.getCrtc id (some crtc)], some (some crtc))
      else if c.isNone ∧ 32 ≤ i then ([.getCrtc id (some crtc)], none)
      else
        let c := if c.isNone ∧ encoder.allows i then some crtc else c
        let (calls, found) := findCrtc encoder (i + 1) c rest
        (.getCrtc id (some crtc) :: calls, found)

def PREFERRED_MODE : List Byte := ['p', 'r', 'e', 'f', 'e', 'r', 'r', 'e', 'd'].map ch

/-- The loop over the modes of the connector, and the fallback behind it. -/
def Output.findMode (connector : Output) : Option ModeInfo :=
  match connector.modes.find? (fun mode => mode.name = PREFERRED_MODE) with
  | some mode => some mode
  | none => connector.modes.head?

/-- How a call of `drm_autoconf` ends: with a result and `kms`, or in what C does not define. -/
inductive Autoconf
  | undefined
  | returned (ret : Bool) (kms : KmsDisplay)
  deriving DecidableEq

/-- The part after both an encoder and a connector are found. -/
def drmAutoconf.select (resources : Resources) (kms : KmsDisplay) (connector : Output) (encoder : Encoder) :
    List GetCall × Autoconf :=
  match findCrtc encoder 0 none resources.crtcs with
  | (calls, none) => (calls, .undefined)
  | (calls, some crtc) =>
      (calls ++ [.freeResources],
        .returned true
          { kms with connector := some connector, encoder := some encoder, crtc, mode := connector.findMode })

/-- `drm_autoconf` -/
def drmAutoconf (card : Card) (kms : KmsDisplay) : List GetCall × Autoconf :=
  match card.resources with
  | none => ([.getResources false], .returned false kms)
  | some resources =>
      match scan .getConnector .freeConnector Output.active resources.connectors with
      | (calls, none) => (.getResources true :: calls, .returned false kms)
      | (calls, some connector) =>
          let calls := .getResources true :: calls
          match scan .getEncoder .freeEncoder (fun e => e.encoderId = connector.encoderId) resources.encoders with
          | (more, some encoder) =>
              let (rest, ret) := drmAutoconf.select resources kms connector encoder
              (calls ++ more ++ rest, ret)
          | (more, none) =>
              match connector.encoders with
              -- `connector->encoders[0]` of no encoders
              | [] => (calls ++ more, .undefined)
              | id :: _ =>
                  match card.preferred id with
                  | none => (calls ++ more ++ [.getEncoder id none, .freeConnector connector], .returned false kms)
                  | some encoder =>
                      let (rest, ret) := drmAutoconf.select resources kms connector encoder
                      (calls ++ more ++ .getEncoder id (some encoder) :: rest, ret)

/-! ## What the callers rely on -/

section Chosen
variable (card : Card)

/-- The first connected connector with a mode, among those that could be fetched. -/
def Card.connector (resources : Resources) : Option Output := (fetched resources.connectors).find? Output.active

/-- The connector's current encoder if it could be fetched, and otherwise its first supported one. -/
def Card.encoder (resources : Resources) (connector : Output) : Option Encoder :=
  match (fetched resources.encoders).find? (fun e => e.encoderId = connector.encoderId) with
  | some encoder => some encoder
  | none => connector.encoders.head?.bind card.preferred

/-- The encoder's current CRTC, if it could be fetched. -/
def Resources.currentCrtc (resources : Resources) (encoder : Encoder) : Option Crtc :=
  (fetched resources.crtcs).find? fun crtc => crtc.crtcId = encoder.crtcId

/-- The first CRTC that could be fetched and that `possible_crtcs` allows; bit `i` is for the `i`-th of the list. -/
def Resources.allowedCrtc (resources : Resources) (encoder : Encoder) : Option Crtc :=
  resources.crtcs.zipIdx.findSome? fun answer => answer.1.2.filter fun _ => encoder.allows answer.2

/-- What a caller takes from `kms` after `true`. No field is NULL. -/
structure Configured (resources : Resources) (kms : KmsDisplay) : Prop where
  connector : kms.connector.isSome ∧ kms.connector = Card.connector resources
  mode : ∃ mode, kms.mode = some mode ∧ ∃ connector, kms.connector = some connector ∧ mode ∈ connector.modes
  encoder : ∃ connector, kms.connector = some connector ∧ kms.encoder.isSome ∧
    kms.encoder = card.encoder resources connector
  crtc : ∃ encoder, kms.encoder = some encoder ∧ kms.crtc.isSome ∧
    kms.crtc = (resources.currentCrtc encoder).or (resources.allowedCrtc encoder)

end Chosen

/-- A CRTC that could be fetched is the encoder's current one, or one that it may be given. -/
def Card.CrtcListed (card : Card) : Prop :=
  ∃ resources connector encoder, card.resources = some resources ∧ Card.connector resources = some connector ∧
    card.encoder resources connector = some encoder ∧
    ((∃ crtc ∈ fetched resources.crtcs, crtc.crtcId = encoder.crtcId) ∨
      ∃ i id crtc, resources.crtcs[i]? = some (id, some crtc) ∧ encoder.allows i)

/-! ## What the loops find -/

theorem findCrtc_found (encoder : Encoder) (answers : List (U32 × Option Crtc)) :
    ∀ (i : Nat) (c : Option Crtc) {crtc : Option Crtc}, (findCrtc encoder i c answers).2 = some crtc →
      crtc = ((fetched answers).find? fun crtc => crtc.crtcId = encoder.crtcId).or
        (c.or ((answers.zipIdx i).findSome? fun answer => answer.1.2.filter fun _ => encoder.allows answer.2)) := by
  induction answers with
  | nil =>
      intro i c crtc h
      rw [findCrtc] at h
      simpa [fetched] using (Option.some.inj h).symm
  | cons answer rest ih =>
      intro i c crtc h
      obtain ⟨id, _ | next⟩ := answer
      · rw [ih (i + 1) c h]
        simp [fetched]
      · rw [show fetched ((id, some next) :: rest) = next :: fetched rest from rfl, List.find?_cons]
        unfold findCrtc at h
        split_ifs at h with hcurrent hshift hallowed
        · simpa [hcurrent] using (Option.some.inj h).symm
        -- from here on `next` is not the current CRTC, and the loop goes on with what it has in `c`
        · rw [ih (i + 1) _ h]
          simp [hcurrent, Option.isNone_iff_eq_none.1 hallowed.1, hallowed.2, Option.filter_some]
        · rw [ih (i + 1) _ h]
          cases c with
          | none => simp [hcurrent, show encoder.allows i = false by simpa using hallowed]
          | some c => simp [hcurrent]

theorem findMode_mem {connector : Output} (h : connector.active) :
    ∃ mode ∈ connector.modes, connector.findMode = some mode := by
  unfold Output.findMode
  split
  · next mode hfind => exact ⟨mode, List.mem_of_find?_eq_some hfind, rfl⟩
  · have hpos : 0 < connector.modes.length := (of_decide_eq_true h).2
    exact ⟨connector.modes.head (List.ne_nil_of_length_pos hpos), List.head_mem _, List.head?_eq_some_head _⟩

/-- The end of a call that finds a connector and an encoder. -/
theorem select_true {resources : Resources} {kms kms' : KmsDisplay} {connector : Output} {encoder : Encoder}
    (h : (drmAutoconf.select resources kms connector encoder).2 = .returned true kms') :
    kms' = ⟨some connector, some encoder, connector.findMode,
      (resources.currentCrtc encoder).or (resources.allowedCrtc encoder)⟩ := by
  have hcrtc : ∀ {crtc}, (findCrtc encoder 0 none resources.crtcs).2 = some crtc →
      crtc = (resources.currentCrtc encoder).or (resources.allowedCrtc encoder) := by
    intro crtc hfound
    exact findCrtc_found encoder resources.crtcs 0 none hfound
  unfold drmAutoconf.select at h
  split at h
  · simp at h
  · next calls crtc heq =>
    rw [← hcrtc (by rw [heq])]
    simpa using h.symm

/-- A call that returns true has found a connector and an encoder. -/
theorem drmAutoconf_true {card : Card} {kms kms' : KmsDisplay}
    (h : (drmAutoconf card kms).2 = .returned true kms') :
    ∃ resources connector encoder, card.resources = some resources ∧ Card.connector resources = some connector ∧
      card.encoder resources connector = some encoder ∧
      kms' = ⟨some connector, some encoder, connector.findMode,
        (resources.currentCrtc encoder).or (resources.allowedCrtc encoder)⟩ := by
  unfold drmAutoconf at h
  split at h
  · simp at h
  next resources hresources =>
  have hconnector := scan_found .getConnector .freeConnector Output.active resources.connectors
  split at h
  · simp at h
  next calls connector heq =>
  have hencoder := scan_found .getEncoder .freeEncoder (fun e => e.encoderId = connector.encoderId) resources.encoders
  rw [heq] at hconnector
  refine ⟨resources, connector, ?_⟩
  simp only [hresources, Card.connector, ← hconnector, Card.encoder, true_and]
  rw [← hencoder]
  split at h
  · next encoder hscan => exact ⟨encoder, by rw [hscan], select_true h⟩
  · next hscan =>
    split at h
    · simp at h
    · split at h
      · simp at h
      · next id _ hids _ encoder hpreferred =>
        exact ⟨encoder, by simp [hscan, hids, hpreferred], select_true h⟩

/-- A field of `kms` is NULL only if no CRTC is listed that the encoder has or may be given. -/
theorem isSome_crtc {resources : Resources} {encoder : Encoder} :
    ((resources.currentCrtc encoder).or (resources.allowedCrtc encoder)).isSome ↔
      (∃ crtc ∈ fetched resources.crtcs, crtc.crtcId = encoder.crtcId) ∨
        ∃ i id crtc, resources.crtcs[i]? = some (id, some crtc) ∧ encoder.allows i := by
  rw [Option.isSome_or, Bool.or_eq_true]
  apply or_congr
  · simp [Resources.currentCrtc]
  · rw [Resources.allowedCrtc, List.findSome?_isSome_iff]
    constructor
    · rintro ⟨⟨⟨id, ret⟩, i⟩, hmem, hsome⟩
      obtain ⟨crtc, hfilter⟩ := Option.isSome_iff_exists.1 hsome
      obtain ⟨rfl, hallows⟩ := Option.filter_eq_some_iff.1 hfilter
      exact ⟨i, id, crtc, by simpa using List.mem_zipIdx_iff_getElem?.1 hmem, hallows⟩
    · rintro ⟨i, id, crtc, hget, hallows⟩
      exact ⟨((id, some crtc), i), List.mem_zipIdx_iff_getElem?.2 (by simpa using hget), by simp [hallows]⟩

/-- `drm_autoconf` does not look at `c` when it falls back to it. -/
theorem configured_iff (card : Card) (kms : KmsDisplay) {kms' : KmsDisplay}
    (h : (drmAutoconf card kms).2 = .returned true kms') :
    (∃ resources, card.resources = some resources ∧ Configured card resources kms') ↔ card.CrtcListed := by
  obtain ⟨resources, connector, encoder, hresources, hconnector, hencoder, rfl⟩ := drmAutoconf_true h
  constructor
  · rintro ⟨resources', hresources', hconfigured⟩
    obtain rfl : resources' = resources := by rw [hresources] at hresources'; exact (Option.some.inj hresources').symm
    obtain ⟨encoder', hencoder', hsome, -⟩ := hconfigured.crtc
    obtain rfl := Option.some.inj hencoder'
    exact ⟨resources', connector, encoder, hresources, hconnector, hencoder, isSome_crtc.1 hsome⟩
  · rintro ⟨resources', connector', encoder', hresources', hconnector', hencoder', hlisted⟩
    obtain rfl : resources' = resources := by rw [hresources] at hresources'; exact (Option.some.inj hresources').symm
    obtain rfl : connector' = connector := by rw [hconnector] at hconnector'; exact (Option.some.inj hconnector').symm
    obtain rfl : encoder' = encoder := by rw [hencoder] at hencoder'; exact (Option.some.inj hencoder').symm
    obtain ⟨mode, hmem, hmode⟩ := findMode_mem (List.find?_some hconnector)
    refine ⟨resources', hresources, ?_, ?_, ?_, ?_⟩
    · exact ⟨rfl, hconnector.symm⟩
    · exact ⟨mode, hmode, connector', rfl, hmem⟩
    · exact ⟨connector', rfl, rfl, hencoder.symm⟩
    · exact ⟨encoder', rfl, isSome_crtc.2 hlisted, rfl⟩

/-- A card with one monitor, on an encoder that has no CRTC yet and may be given the first. -/
def oneMonitor (crtcs : List (U32 × Option Crtc)) : Card where
  resources := some
    { connectors := [(1, some ⟨⟨1, [⟨[ch 'a'], 640, 480, []⟩]⟩, .connected, 2, [2]⟩)]
      encoders := [(2, some ⟨2, 0, 1⟩)]
      crtcs }
  preferred := fun _ => none

def noDisplay : KmsDisplay := ⟨none, none, none, none⟩

def crtcThree : Crtc := ⟨3, 0, 0, 0, false, ⟨[], 0, 0, []⟩⟩

theorem configured_iff_fetched :
    ∃ kms', (drmAutoconf (oneMonitor [(3, some crtcThree)]) noDisplay).2 = .returned true kms' ∧
      ((∃ resources, (oneMonitor [(3, some crtcThree)]).resources = some resources ∧
        Configured (oneMonitor [(3, some crtcThree)]) resources kms') ↔
          (oneMonitor [(3, some crtcThree)]).CrtcListed) :=
  ⟨_, rfl, configured_iff (oneMonitor [(3, some crtcThree)]) noDisplay rfl⟩

/-- The get call for the only CRTC fails. -/
theorem not_configured :
    ∃ kms', (drmAutoconf (oneMonitor [(3, none)]) noDisplay).2 = .returned true kms' ∧
      ¬ ∃ resources, (oneMonitor [(3, none)]).resources = some resources ∧
        Configured (oneMonitor [(3, none)]) resources kms' := by
  refine ⟨_, rfl, ?_⟩
  rintro ⟨resources, -, hconfigured⟩
  obtain ⟨encoder, -, hsome, -⟩ := hconfigured.crtc
  exact Bool.false_ne_true hsome

end SysSnippets.Drm
