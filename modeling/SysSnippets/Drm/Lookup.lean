import SysSnippets.Drm.Autoconf
import SysSnippets.Lib.Ledger

/-!
# Ownership in `drm_get_mode_by_name` and `drm_get_conf_cmdline` of `drm_utils.c`

A get call that does not return NULL makes an object of its own, named here by what it is and its place in the list.

* `lookup` : the loops over connectors, encoders and CRTCs, which free the others and keep the one they stop at;
* `drmGetModeByName`, `drmGetConfCmdline` : the functions, with what they do to the objects;
* `held_drmGetModeByName`, `held_drmGetConfCmdline` : which objects are still to be freed when they return.
-/

namespace SysSnippets.Drm.Lookup
open SysSnippets.Lib SysSnippets.Lib.Ledger

inductive Object
  | resources
  | connector (i : Nat)
  | encoder (i : Nat)
  | crtc (i : Nat)
  deriving DecidableEq

/-- `found` is whether the get call returned an object; `read` reads a field of one, or what the field points to. -/
inductive Event
  | get (o : Object) (found : Bool)
  | read (o : Object)
  | free (o : Object)
  deriving DecidableEq

def ledger : Ledger Event Object where
  creates
    | .get o true => [o]
    | _ => []
  uses
    | .read o | .free o => [o]
    | _ => []
  releases
    | .free o => [o]
    | _ => []
  opens _ := false

/-! ## The functions -/

section Lookup
variable {α : Type} (object : Nat → Object) (wanted : α → Bool)

/-- The loop from index `i` on: what it does, and where it stops with what object; `none` is the end of the list. -/
def lookup (i : Nat) : List (U32 × Option α) → List Event × Option (Nat × α)
  | [] => ([.read .resources], none)
  | (_, none) :: rest =>
      let (t, found) := lookup (i + 1) rest
      (.read .resources :: .get (object i) false :: t, found)
  | (_, some a) :: rest =>
      if wanted a then ([.read .resources, .get (object i) true, .read (object i)], some (i, a))
      else
        let (t, found) := lookup (i + 1) rest
        (.read .resources :: .get (object i) true :: .read (object i) :: .free (object i) :: t, found)

end Lookup

def getConnector (resources : Resources) (nid : U32) : List Event × Option (Nat × Output) :=
  lookup .connector (fun connector => connector.connectorId = nid) 0 resources.connectors

def getEncoder (resources : Resources) (eid : U32) : List Event × Option (Nat × Encoder) :=
  lookup .encoder (fun encoder => encoder.encoderId = eid) 0 resources.encoders

def getCrtc (resources : Resources) (cid : U32) : List Event × Option (Nat × Crtc) :=
  lookup .crtc (fun crtc => crtc.crtcId = cid) 0 resources.crtcs

/-- The loop over the modes, which only reads the connector. -/
def findMode (connector : Output) (modeName : List Byte) : Option ModeInfo :=
  connector.modes.find? fun mode => mode.name = modeName

/-- `drm_get_mode_by_name`. A mode is returned as a pointer into the connector whose index is given with it. -/
def drmGetModeByName (resources : Option Resources) (connectorId : U32) (modeName : List Byte) :
    List Event × Option (Nat × ModeInfo) :=
  match resources with
  | none => ([.get .resources false], none)
  | some resources =>
      let connectors := getConnector resources connectorId
      let t := .get .resources true :: connectors.1 ++ [.read .resources]
      match connectors.2 with
      | none => (t ++ [.free .resources], none)
      | some (i, connector) =>
          match findMode connector modeName with
          | none => (t ++ [.read (.connector i), .free (.connector i)], none)
          | some mode => (t ++ [.read (.connector i), .free .resources], some (i, mode))

/-- What `kms` is set to: pointers to the objects of these indices, and into the connector for the mode. -/
structure Fields where
  connector : Nat × Output
  encoder : Nat × Encoder
  mode : ModeInfo
  crtc : Nat × Crtc

/-- `drm_get_conf_cmdline` with the ids and the name of the command line; `none` is `false`, with `kms` as it was. -/
def drmGetConfCmdline (resources : Option Resources) (nid eid cid : U32) (modeName : List Byte) :
    List Event × Option Fields :=
  match resources with
  | none => ([.get .resources false], none)
  | some resources =>
      let connectors := getConnector resources nid
      let t := .get .resources true :: connectors.1 ++ [.read .resources]
      match connectors.2 with
      -- `no_connector`
      | none => (t, none)
      | some (n, connector) =>
          let encoders := getEncoder resources eid
          let t := t ++ encoders.1 ++ [.read .resources]
          match encoders.2 with
          -- `no_encoder`
          | none => (t ++ [.free (.connector n)], none)
          | some (e, encoder) =>
              let t := t ++ [.read (.connector n)]
              match findMode connector modeName with
              -- `no_mode`
              | none => (t ++ [.free (.encoder e), .free (.connector n)], none)
              | some mode =>
                  let crtcs := getCrtc resources cid
                  let t := t ++ crtcs.1 ++ [.read .resources]
                  match crtcs.2 with
                  -- `no_crtc`
                  | none => (t ++ [.free (.encoder e), .free (.connector n)], none)
                  | some (c, crtc) =>
                      (t ++ [.free .resources], some ⟨(n, connector), (e, encoder), mode, (c, crtc)⟩)

/-! ## What the loops find and keep -/

section Lookup
variable {α : Type} (object : Nat → Object) (wanted : α → Bool)

theorem lookup_found (answers : List (U32 × Option α)) (i : Nat) :
    (lookup object wanted i answers).2.map Prod.snd = (fetched answers).find? wanted := by
  induction answers generalizing i with
  | nil => rfl
  | cons answer rest ih =>
      obtain ⟨id, _ | a⟩ := answer
      · exact ih (i + 1)
      · rw [show fetched ((id, some a) :: rest) = a :: fetched rest from rfl, List.find?_cons]
        unfold lookup
        by_cases h : wanted a = true
        · rw [if_pos h, h]
          rfl
        · rw [if_neg h, (Bool.not_eq_true _).mp h]
          exact ih (i + 1)

/-- The object it stops at is the one of the index. -/
theorem lookup_index (pre : List (U32 × Option α)) {answers : List (U32 × Option α)} {i : Nat} {a : α}
    (h : (lookup object wanted pre.length answers).2 = some (i, a)) :
    ∃ id, (pre ++ answers)[i]? = some (id, some a) := by
  induction answers generalizing pre with
  | nil => cases h
  | cons answer rest ih =>
      have hrest : (lookup object wanted (pre.length + 1) rest).2 = some (i, a) →
          ∃ id, (pre ++ answer :: rest)[i]? = some (id, some a) := by
        intro hgo
        rw [List.append_cons]
        apply ih
        rwa [List.length_append, List.length_singleton]
      obtain ⟨id, _ | b⟩ := answer
      · exact hrest h
      · unfold lookup at h
        split_ifs at h
        · cases h
          exact ⟨id, by simp⟩
        · exact hrest h

/-- The objects a loop gets are those of its indices. -/
theorem created_lookup (answers : List (U32 × Option α)) (i : Nat) :
    ∀ o ∈ ledger.created (lookup object wanted i answers).1, ∃ j, i ≤ j ∧ o = object j := by
  induction answers generalizing i with
  | nil => intro o h; exact absurd h List.not_mem_nil
  | cons answer rest ih =>
      have hrest : ∀ o ∈ ledger.created (lookup object wanted (i + 1) rest).1, ∃ j, i ≤ j ∧ o = object j := by
        intro o h
        obtain ⟨j, hj, ho⟩ := ih (i + 1) o h
        exact ⟨j, by omega, ho⟩
      obtain ⟨id, _ | a⟩ := answer
      · simpa [lookup, ledger] using hrest
      · unfold lookup
        split_ifs with h
        · simpa [ledger] using ⟨i, le_refl i, rfl⟩
        · have hhere : ∃ j, i ≤ j ∧ object i = object j := ⟨i, le_refl i, rfl⟩
          simpa [ledger, hhere] using hrest

/-- `S` with the object a loop stopped at. -/
def keeping (S : Set Object) : Option (Nat × α) → Set Object
  | none => S
  | some (i, _) => insert (object i) S

variable {t : List Event} {S : Set Object} {o : Object}

theorem Held.read (h : ledger.Held t S) (ho : o ∈ S) : ledger.Held (t ++ [.read o]) S := by
  apply Ledger.Held.quiet h
  · exact ⟨rfl, rfl, rfl⟩
  · intro x hx
    rwa [List.mem_singleton.1 hx]

theorem Held.none (h : ledger.Held t S) (o : Object) : ledger.Held (t ++ [.get o false]) S := by
  apply Ledger.Held.quiet h
  · exact ⟨rfl, rfl, rfl⟩
  · intro x hx
    cases hx

theorem Held.get (h : ledger.Held t S) (ho : o ∉ ledger.created t) :
    ledger.Held (t ++ [.get o true]) (insert o S) :=
  Ledger.Held.create h rfl (fun x hx => by cases hx) rfl rfl ho

theorem Held.free (h : ledger.Held t (insert o S)) (ho : o ∉ S) : ledger.Held (t ++ [.free o]) S := by
  have hfree := Ledger.Held.release (e := Event.free o) h rfl (fun x hx => ?_) rfl rfl (Set.mem_insert o S)
  · rwa [Set.insert_sdiff_self_of_notMem ho] at hfree
  · rw [List.mem_singleton.1 hx]
    exact Set.mem_insert o S

/-- A loop frees all it gets but the object it stops at. -/
theorem held_lookup (hinj : object.Injective) (answers : List (U32 × Option α)) (i : Nat) {t : List Event}
    (h : ledger.Held t S) (hres : .resources ∈ S) (hnew : ∀ j, i ≤ j → object j ∉ ledger.created t) :
    ledger.Held (t ++ (lookup object wanted i answers).1)
      (keeping object S (lookup object wanted i answers).2) := by
  induction answers generalizing i t with
  | nil => exact Held.read h hres
  | cons answer rest ih =>
      have hread := Held.read h hres
      have hfresh : ∀ j, i ≤ j → object j ∉ ledger.created (t ++ [.read .resources]) := by
        intro j hj
        simpa [ledger] using hnew j hj
      obtain ⟨id, _ | a⟩ := answer
      · have hgo := ih (i + 1) (Held.none hread (object i)) fun j hj => by
          simpa [ledger] using hnew j (by omega)
        simpa [lookup] using hgo
      · have hget := Held.get hread (hfresh i (le_refl i))
        have hlook := Held.read hget (Set.mem_insert (object i) S)
        unfold lookup
        split_ifs with hw
        · simpa [keeping] using hlook
        · have hfree := Held.free hlook fun hmem => hfresh i (le_refl i) (hread.created hmem)
          have hgo := ih (i + 1) hfree fun j hj => by
            have hne : object j ≠ object i := fun heq => by
              have := hinj heq
              omega
            simpa [ledger, hne] using hnew j (by omega)
          simpa using hgo

theorem mem_keeping (ho : o ∈ S) (found : Option (Nat × α)) : o ∈ keeping object S found := by
  cases found with
  | none => exact ho
  | some found => exact Set.mem_insert_of_mem _ ho

/-- A loop over a whole list, and the test behind it. -/
theorem held_search (hinj : object.Injective) (answers : List (U32 × Option α)) (h : ledger.Held t S)
    (hres : .resources ∈ S) (hnew : ∀ j, object j ∉ ledger.created t) :
    ledger.Held (t ++ (lookup object wanted 0 answers).1 ++ [.read .resources])
      (keeping object S (lookup object wanted 0 answers).2) := by
  apply Held.read
  · exact held_lookup object wanted hinj answers 0 h hres fun j _ => hnew j
  · exact mem_keeping object hres _

/-- It gets no object of another kind. -/
theorem new_search (other : Nat → Object) (hother : ∀ j k, other j ≠ object k) (answers : List (U32 × Option α))
    (hnew : ∀ j, other j ∉ ledger.created t) :
    ∀ j, other j ∉ ledger.created (t ++ (lookup object wanted 0 answers).1 ++ [.read .resources]) := by
  intro j hmem
  rw [created_append, created_append, List.mem_append, List.mem_append] at hmem
  rcases hmem with (hmem | hmem) | hmem
  · exact hnew j hmem
  · obtain ⟨k, -, hk⟩ := created_lookup object wanted answers 0 _ hmem
    exact hother j k hk
  · cases hmem

end Lookup

/-! ## What is still to be freed -/

/-- The connector with the id, among those that could be fetched. -/
def connectorOf (resources : Resources) (nid : U32) : Option Output :=
  (fetched resources.connectors).find? fun connector => connector.connectorId = nid

def encoderOf (resources : Resources) (eid : U32) : Option Encoder :=
  (fetched resources.encoders).find? fun encoder => encoder.encoderId = eid

def crtcOf (resources : Resources) (cid : U32) : Option Crtc :=
  (fetched resources.crtcs).find? fun crtc => crtc.crtcId = cid

section Given
variable (resources : Option Resources) (nid eid cid : U32) (modeName : List Byte)

/-- If the resources could be fetched and the connector is there, it has the mode. -/
def ModeGiven : Prop :=
  ∀ r, resources = some r → ∀ connector, connectorOf r nid = some connector →
    ∃ mode ∈ connector.modes, mode.name = modeName

/-- If the resources could be fetched, all that the command line names is there. -/
def AllGiven : Prop :=
  ∀ r, resources = some r → (∃ connector, connectorOf r nid = some connector ∧
    ∃ mode ∈ connector.modes, mode.name = modeName) ∧ (encoderOf r eid).isSome ∧ (crtcOf r cid).isSome

end Given

/-- The objects `kms` refers to afterwards. -/
def Fields.objects : Option Fields → Set Object
  | none => ∅
  | some kms => {.connector kms.connector.1, .encoder kms.encoder.1, .crtc kms.crtc.1}

section Found
variable (resources : Resources) (nid eid cid : U32)

@[simp] theorem getConnector_found : (getConnector resources nid).2.map Prod.snd = connectorOf resources nid :=
  lookup_found ..

@[simp] theorem getEncoder_found : (getEncoder resources eid).2.map Prod.snd = encoderOf resources eid :=
  lookup_found ..

@[simp] theorem getCrtc_found : (getCrtc resources cid).2.map Prod.snd = crtcOf resources cid := lookup_found ..

theorem findMode_isSome {connector : Output} {modeName : List Byte} :
    (findMode connector modeName).isSome ↔ ∃ mode ∈ connector.modes, mode.name = modeName := by
  simp [findMode, List.find?_isSome]

theorem held_connectors :
    ledger.Held (.get .resources true :: (getConnector resources nid).1 ++ [.read .resources])
      (keeping .connector {.resources} (getConnector resources nid).2) := by
  have hget : ledger.Held ([] ++ [.get .resources true]) (insert .resources ∅) :=
    Held.get Ledger.Held.nil List.not_mem_nil
  rw [insert_empty_eq] at hget
  apply held_search .connector _ _ resources.connectors hget rfl
  · intro j
    simp [ledger]
  · intro i j h
    exact Object.connector.inj h

theorem new_connectors {other : Nat → Object} (hres : ∀ j, other j ≠ .resources)
    (hother : ∀ j k, other j ≠ .connector k) :
    ∀ j, other j ∉ ledger.created (.get .resources true :: (getConnector resources nid).1 ++ [.read .resources]) := by
  apply new_search (t := [.get .resources true]) .connector _ other hother
  intro j
  simpa [ledger] using hres j

end Found

/-! ## On return of `drm_get_mode_by_name` -/

section ModeByName
variable {resources : Resources} {connectorId : U32} {modeName : List Byte} {i : Nat} {connector : Output}

theorem held_no_connector (modeName : List Byte) (h : (getConnector resources connectorId).2 = none) :
    ledger.Held (drmGetModeByName (some resources) connectorId modeName).1 ∅ := by
  have hheld := held_connectors resources connectorId
  rw [h] at hheld
  have hfree := Held.free (S := ∅) (by rwa [insert_empty_eq]) (Set.notMem_empty Object.resources)
  simpa [drmGetModeByName, h] using hfree

/-- The connector is freed, the resources are not. -/
theorem held_no_mode (h : (getConnector resources connectorId).2 = some (i, connector))
    (hmode : findMode connector modeName = none) :
    ledger.Held (drmGetModeByName (some resources) connectorId modeName).1 {.resources} := by
  have hheld := held_connectors resources connectorId
  rw [h] at hheld
  have hread := Held.read hheld (Set.mem_insert (Object.connector i) _)
  have hfree := Held.free hread fun hmem => by cases hmem
  simpa [drmGetModeByName, h, hmode] using hfree

theorem held_mode {mode : ModeInfo} (h : (getConnector resources connectorId).2 = some (i, connector))
    (hmode : findMode connector modeName = some mode) :
    ledger.Held (drmGetModeByName (some resources) connectorId modeName).1 {.connector i} := by
  have hheld := held_connectors resources connectorId
  rw [h] at hheld
  have hread := Held.read hheld (Set.mem_insert (Object.connector i) _)
  rw [show keeping Object.connector {Object.resources} (some (i, connector)) = {.resources, .connector i} from
    Set.pair_comm ..] at hread
  have hfree := Held.free hread fun hmem => by cases hmem
  simpa [drmGetModeByName, h, hmode] using hfree

theorem modeGiven_none (h : (getConnector resources connectorId).2 = none) :
    ModeGiven (some resources) connectorId modeName := by
  intro r hr connector hc
  cases hr
  rw [← getConnector_found, h] at hc
  cases hc

theorem modeGiven_some (h : (getConnector resources connectorId).2 = some (i, connector)) :
    ModeGiven (some resources) connectorId modeName ↔ (findMode connector modeName).isSome := by
  have hfound : connectorOf resources connectorId = some connector := by
    rw [← getConnector_found, h]
    rfl
  rw [findMode_isSome]
  constructor
  · exact fun hgiven => hgiven resources rfl connector hfound
  · intro hmode r hr c hc
    cases hr
    rw [hfound] at hc
    cases hc
    exact hmode

end ModeByName

/-- Only the connector that the mode returned is in is still to be freed, unless the mode is missing. -/
theorem held_drmGetModeByName (resources : Option Resources) (connectorId : U32) (modeName : List Byte) :
    ledger.Held (drmGetModeByName resources connectorId modeName).1
        (keeping .connector ∅ (drmGetModeByName resources connectorId modeName).2) ↔
      ModeGiven resources connectorId modeName := by
  cases resources with
  | none =>
      refine iff_of_true ?_ fun r h => by cases h
      exact Held.none Ledger.Held.nil .resources
  | some resources =>
      cases h : (getConnector resources connectorId).2 with
      | none =>
          refine iff_of_true ?_ (modeGiven_none h)
          simpa [drmGetModeByName, h, keeping] using held_no_connector modeName h
      | some found =>
          obtain ⟨i, connector⟩ := found
          rw [modeGiven_some h]
          cases hmode : findMode connector modeName with
          | none =>
              rw [(held_no_mode h hmode).iff]
              simp [drmGetModeByName, h, hmode, keeping]
          | some mode =>
              rw [(held_mode h hmode).iff]
              simp [drmGetModeByName, h, hmode, keeping]

/-! ## On return of `drm_get_conf_cmdline` -/

section ConfCmdline
variable {resources : Resources} {nid eid cid : U32} {modeName : List Byte} {t : List Event}
variable {n e c : Nat} {connector : Output} {encoder : Encoder} {crtc : Crtc}

theorem held_encoders (eid : U32) (h : (getConnector resources nid).2 = some (n, connector)) :
    ledger.Held
      (.get .resources true :: (getConnector resources nid).1 ++ [.read .resources] ++ (getEncoder resources eid).1 ++
        [.read .resources])
      (keeping .encoder {.connector n, .resources} (getEncoder resources eid).2) := by
  have hheld := held_connectors resources nid
  rw [h] at hheld
  apply held_search .encoder _ _ resources.encoders hheld
  · exact Set.mem_insert_of_mem _ rfl
  · exact new_connectors resources nid (by simp) (by simp)
  · intro i j h
    exact Object.encoder.inj h

theorem held_crtcs (cid : U32) (h : (getConnector resources nid).2 = some (n, connector))
    (he : (getEncoder resources eid).2 = some (e, encoder)) :
    ledger.Held
      (.get .resources true :: (getConnector resources nid).1 ++ [.read .resources] ++ (getEncoder resources eid).1 ++
        [.read .resources] ++ [.read (.connector n)] ++ (getCrtc resources cid).1 ++ [.read .resources])
      (keeping .crtc {.encoder e, .connector n, .resources} (getCrtc resources cid).2) := by
  have hheld := held_encoders eid h
  rw [he] at hheld
  have hread : ledger.Held _ ({.encoder e, .connector n, .resources} : Set Object) :=
    Held.read hheld (Set.mem_insert_of_mem _ (Set.mem_insert (Object.connector n) _))
  apply held_search .crtc _ _ resources.crtcs hread
  · simp
  · intro j
    have hnew := new_search .encoder (fun encoder : Encoder => encoder.encoderId = eid) .crtc (by simp)
      resources.encoders (new_connectors resources nid (by simp) (by simp)) j
    rw [created_append, List.mem_append, not_or]
    exact ⟨hnew, List.not_mem_nil⟩
  · intro i j h
    exact Object.crtc.inj h

/-- `no_crtc`, `no_mode`: the encoder and the connector are freed, the resources are not. -/
theorem held_unwind (h : ledger.Held t {.encoder e, .connector n, .resources}) :
    ledger.Held (t ++ [.free (.encoder e), .free (.connector n)]) {.resources} := by
  have hencoder := Held.free h (by simp)
  have hconnector := Held.free hencoder (by simp)
  simpa using hconnector

/-- A call that returns `true` frees the resources and nothing that `kms` refers to. -/
theorem held_kms (h : ledger.Held t {.crtc c, .encoder e, .connector n, .resources}) :
    ledger.Held (t ++ [.free .resources]) {.connector n, .encoder e, .crtc c} := by
  have hset : ({.crtc c, .encoder e, .connector n, .resources} : Set Object) =
      insert .resources {.connector n, .encoder e, .crtc c} := by
    ext o
    simp only [Set.mem_insert_iff, Set.mem_singleton_iff]
    tauto
  rw [hset] at h
  exact Held.free h (by simp)

/-- What is left of a call that could fetch the resources: these when it fails. -/
def remaining : Option Fields → Set Object
  | none => {.resources}
  | some kms => Fields.objects (some kms)

theorem held_remaining (resources : Resources) (nid eid cid : U32) (modeName : List Byte) :
    ledger.Held (drmGetConfCmdline (some resources) nid eid cid modeName).1
      (remaining (drmGetConfCmdline (some resources) nid eid cid modeName).2) := by
  have hconnectors := held_connectors resources nid
  unfold drmGetConfCmdline
  dsimp only
  cases hn : (getConnector resources nid).2 with
  | none => rwa [hn] at hconnectors
  | some found =>
      obtain ⟨n, connector⟩ := found
      have hencoders := held_encoders eid hn
      dsimp only
      cases he : (getEncoder resources eid).2 with
      | none =>
          rw [he] at hencoders
          exact Held.free hencoders fun hmem => by cases hmem
      | some found =>
          obtain ⟨e, encoder⟩ := found
          have hcrtcs := held_crtcs cid hn he
          rw [he] at hencoders
          dsimp only
          cases hm : findMode connector modeName with
          | none => exact held_unwind (Held.read hencoders (by simp))
          | some mode =>
              dsimp only
              cases hc : (getCrtc resources cid).2 with
              | none =>
                  rw [hc] at hcrtcs
                  exact held_unwind hcrtcs
              | some found =>
                  rw [hc] at hcrtcs
                  exact held_kms hcrtcs

end ConfCmdline

theorem drmGetConfCmdline_isSome (resources : Resources) (nid eid cid : U32) (modeName : List Byte) :
    (drmGetConfCmdline (some resources) nid eid cid modeName).2.isSome ↔
      AllGiven (some resources) nid eid cid modeName := by
  have hall : AllGiven (some resources) nid eid cid modeName ↔
      ((connectorOf resources nid).any fun connector => (findMode connector modeName).isSome) ∧
        (encoderOf resources eid).isSome ∧ (crtcOf resources cid).isSome := by
    simp [AllGiven, Option.any_eq_true, findMode_isSome]
  rw [hall, ← getConnector_found, ← getEncoder_found, ← getCrtc_found]
  unfold drmGetConfCmdline
  dsimp only
  cases (getConnector resources nid).2 with
  | none => simp
  | some found =>
      cases (getEncoder resources eid).2 with
      | none => simp
      | some _ =>
          cases hm : findMode found.2 modeName with
          | none => simp [hm]
          | some mode => cases (getCrtc resources cid).2 <;> simp [hm]

theorem held_drmGetConfCmdline (resources : Option Resources) (nid eid cid : U32) (modeName : List Byte) :
    ledger.Held (drmGetConfCmdline resources nid eid cid modeName).1
        (Fields.objects (drmGetConfCmdline resources nid eid cid modeName).2) ↔
      AllGiven resources nid eid cid modeName := by
  cases resources with
  | none =>
      refine iff_of_true ?_ fun r h => by cases h
      exact Held.none Ledger.Held.nil .resources
  | some resources =>
      have hheld := held_remaining resources nid eid cid modeName
      rw [hheld.iff, ← drmGetConfCmdline_isSome]
      cases (drmGetConfCmdline (some resources) nid eid cid modeName).2 with
      | none => simp [remaining, Fields.objects]
      | some kms => simp [remaining]

/-! ## The results -/

section Calls

/-- What the call is for the other model of `drm_get_mode_by_name`. -/
def call (resources : Resources) : Event → Option DrmCall
  | .get .resources found => some (.getResources found)
  | .get (.connector i) found => resources.connectors[i]?.map fun answer => .getConnector answer.1 found
  | .free .resources => some .freeResources
  | .free (.connector i) => resources.connectors[i]?.map fun answer => .freeConnector answer.1
  | _ => none

/-- What that model knows of the resources. -/
def connectors (resources : Resources) : Connectors :=
  resources.connectors.map fun answer => (answer.1, answer.2.map Output.toConnector)

variable (resources : Resources) (connectorId : U32) (modeName : List Byte)

theorem calls_lookup (pre rest : List (U32 × Option Output)) (h : resources.connectors = pre ++ rest) :
    let found := lookup .connector (fun connector => connector.connectorId = connectorId) pre.length rest
    findConnector connectorId (rest.map fun answer => (answer.1, answer.2.map Output.toConnector)) =
      (found.1.filterMap (call resources), found.2.map fun c => c.2.toConnector) := by
  induction rest generalizing pre with
  | nil => rfl
  | cons answer rest ih =>
      have hgo := ih (pre ++ [answer]) (by simp [h])
      rw [List.length_append, List.length_singleton] at hgo
      have hat : resources.connectors[pre.length]? = some answer := by simp [h]
      obtain ⟨id, _ | connector⟩ := answer
      · simp [findConnector, lookup, hgo, call, hat, List.filterMap_cons]
      · by_cases hid : connector.connectorId = connectorId
        · simp [findConnector, lookup, hid, call, hat, List.filterMap_cons]
        · simp [findConnector, lookup, hid, hgo, call, hat, List.filterMap_cons]

/-- The two models of `drm_get_mode_by_name` make the same calls and return the same mode, where the connectors
have the ids that they were asked for by. -/
theorem drmGetModeByName_calls
    (hids : ∀ id connector, (id, some connector) ∈ resources.connectors → connector.connectorId = id) :
    Drm.drmGetModeByName (some (connectors resources)) connectorId modeName =
      ((drmGetModeByName (some resources) connectorId modeName).1.filterMap (call resources),
        (drmGetModeByName (some resources) connectorId modeName).2.map Prod.snd) := by
  have hloop : findConnector connectorId (connectors resources) =
      ((getConnector resources connectorId).1.filterMap (call resources),
        (getConnector resources connectorId).2.map fun c => c.2.toConnector) :=
    calls_lookup resources connectorId [] resources.connectors rfl
  unfold Drm.drmGetModeByName drmGetModeByName
  dsimp only
  rw [hloop]
  cases h : (getConnector resources connectorId).2 with
  | none => simp [call, List.filterMap_cons]
  | some found =>
      obtain ⟨i, connector⟩ := found
      obtain ⟨id, hat⟩ := lookup_index _ _ [] h
      rw [List.nil_append] at hat
      have hid := hids id connector (List.mem_of_getElem? hat)
      dsimp only [Option.map_some]
      rw [show (connector.modes.find? fun mode => decide (mode.name = modeName)) = findMode connector modeName from rfl]
      cases findMode connector modeName <;> simp [call, hat, hid, List.filterMap_cons]

end Calls

/-- The first mode of that name of the connector with the id. -/
theorem drmGetModeByName_ret (resources : Option Resources) (connectorId : U32) (modeName : List Byte) :
    (drmGetModeByName resources connectorId modeName).2.map Prod.snd =
      resources.bind fun r => (connectorOf r connectorId).bind fun connector =>
        connector.modes.find? fun mode => mode.name = modeName := by
  cases resources with
  | none => rfl
  | some r =>
      rw [Option.bind_some, ← getConnector_found]
      unfold drmGetModeByName
      dsimp only
      cases (getConnector r connectorId).2 with
      | none => rfl
      | some found =>
          rw [Option.map_some, Option.bind_some, show found.2.modes.find? _ = findMode found.2 modeName from rfl]
          dsimp only
          cases findMode found.2 modeName <;> rfl

/-- What each function owns on return, for all that libdrm may answer: what its result refers to, and nothing else,
exactly when no lookup behind the first fails. -/
theorem objects_freed_iff (resources : Option Resources) (connectorId nid eid cid : U32) (modeName : List Byte) :
    (drmGetModeByName resources connectorId modeName).2.map Prod.snd =
        (resources.bind fun r => (connectorOf r connectorId).bind fun connector =>
          connector.modes.find? fun mode => mode.name = modeName) ∧
      (ledger.Held (drmGetModeByName resources connectorId modeName).1
          (keeping .connector ∅ (drmGetModeByName resources connectorId modeName).2) ↔
        ModeGiven resources connectorId modeName) ∧
      (ledger.Held (drmGetConfCmdline resources nid eid cid modeName).1
          (Fields.objects (drmGetConfCmdline resources nid eid cid modeName).2) ↔
        AllGiven resources nid eid cid modeName) :=
  ⟨drmGetModeByName_ret resources connectorId modeName, held_drmGetModeByName resources connectorId modeName,
    held_drmGetConfCmdline resources nid eid cid modeName⟩

/-- A card with one connector, of id 7 and without modes. -/
def modeless : Resources where
  connectors := [(7, some ⟨⟨7, []⟩, .connected, 0, []⟩)]
  encoders := []
  crtcs := []

/-- The resources are not freed when the connector has no such mode, or when there is no such encoder. -/
theorem resources_lost :
    ((drmGetModeByName (some modeless) 7 PREFERRED_MODE).2 = none ∧
        ledger.Lost (drmGetModeByName (some modeless) 7 PREFERRED_MODE).1 .resources ∧
        ¬ledger.Held (drmGetModeByName (some modeless) 7 PREFERRED_MODE).1 ∅) ∧
      ledger.Lost (drmGetConfCmdline (some modeless) 7 0 0 PREFERRED_MODE).1 .resources ∧
      ¬ledger.Held (drmGetConfCmdline (some modeless) 7 0 0 PREFERRED_MODE).1 ∅ := by
  have hlost : ledger.Lost (drmGetModeByName (some modeless) 7 PREFERRED_MODE).1 .resources := ⟨by decide, by decide⟩
  have hlost' : ledger.Lost (drmGetConfCmdline (some modeless) 7 0 0 PREFERRED_MODE).1 .resources :=
    ⟨by decide, by decide⟩
  refine ⟨⟨rfl, hlost, fun hheld => ?_⟩, hlost', fun hheld => ?_⟩
  · exact hlost.mem_held hheld
  · exact hlost'.mem_held hheld

end SysSnippets.Drm.Lookup
