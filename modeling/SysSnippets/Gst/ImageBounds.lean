import SysSnippets.Gst.Gles2

/-!
# The image of the `gles2` sink and its allocation

`setcaps` stores `img_h` and `img_w` before it allocates, `render` copies what it is given, and `update_texture`
loads the three globals one by one. Any number of `setcaps`, each of which starts a GL thread.

* `InBounds` : a step does not go past the end of the allocation;
* `Guarded` : the condition on a step;
* `Sound` : what a GL thread has loaded belongs together;
* `image_in_bounds` : in a run of guarded steps, every step is in bounds.
-/

namespace SysSnippets.Gst.Gles2
open SysSnippets.Lib

/-- The bytes of an image. -/
def area (size : U32 × U32) : Nat := 4 * (size.1.toNat * size.2.toNat)

/-- What `render` is about to copy. -/
def StreamPc.copying : StreamPc → Option Buffer
  | .copy buffer => some buffer
  | _ => none

/-- What `glTexImage2D` is about to be called with. -/
def GlPc.loaded : GlPc → Option ((U32 × U32) × Nat)
  | .update _ (some w) (some h) (some ptr) => some ((w, h), ptr)
  | _ => none

/-- The copy of `render` and the read of `glTexImage2D` stay in the allocation. -/
def InBounds : State × Step → Prop
  | (s, .stream _) => ∀ buffer ∈ s.stream.copying, buffer.size.toNat ≤ s.imgPtr
  | (s, .gl k act) => act = .texImage → ∀ x ∈ (s.gl[k]?).bind GlPc.loaded, area x.1 ≤ x.2
  | _ => True

instance : DecidablePred InBounds
  | (s, .stream _) => inferInstanceAs (Decidable (∀ buffer ∈ s.stream.copying, _))
  | (s, .gl k _) => inferInstanceAs (Decidable (_ → ∀ x ∈ (s.gl[k]?).bind GlPc.loaded, _))
  | (_, .setcaps _) | (_, .render _) => isTrue trivial

/-! ## The condition -/

/-- A successful `posix_memalign`: width and height. -/
def allocation : State × Step → Option (U32 × U32)
  | (s, .stream true) => match s.stream with
    | .allocate => some (s.imgW, s.imgH)
    | _ => none
  | _ => none

/-- The last one before now. -/
def allocated (pre : List (State × Step)) : Option (U32 × U32) := (pre.filterMap allocation).getLast?

def State.sizes (s : State) : U32 × U32 × Nat := (s.imgH, s.imgW, s.imgPtr)

/-- Some of the three globals are loaded, but not all. -/
def GlPc.loading : GlPc → Bool
  | .update _ w h ptr => (w.isSome || h.isSome || ptr.isSome) && !(w.isSome && h.isSome && ptr.isSome)
  | _ => false

def GlPc.updating : GlPc → Bool
  | .update _ _ _ _ => true
  | _ => false

def GlAct.loads : GlAct → Bool
  | .loadW | .loadH | .loadPtr => true
  | _ => false

/-- A render copies no more than the last allocation holds; `setcaps` changes the globals only while no GL
thread is loading them; and these are loaded only while `img_w` and `img_h` are those of the last
allocation. -/
def Guarded (pre : List (State × Step)) : State × Step → Prop
  | (s, .stream ok) =>
      (∀ buffer ∈ s.stream.copying, buffer.size.toNat ≤ ((allocated pre).map area).getD 0) ∧
      ((s.streamNext ok).sizes ≠ s.sizes → ∀ pc ∈ s.gl, pc.loading = false)
  | (s, .gl k act) => act.loads = true → ∀ pc ∈ s.gl[k]?, pc.updating = true →
      allocated pre = some (s.imgW, s.imgH)
  | _ => True

instance (pre : List (State × Step)) : DecidablePred (Guarded pre)
  | (s, .stream _) => inferInstanceAs (Decidable ((∀ buffer ∈ s.stream.copying, _) ∧ (_ → ∀ pc ∈ s.gl, _)))
  | (s, .gl k _) => inferInstanceAs (Decidable (_ → ∀ pc ∈ s.gl[k]?, _ → _))
  | (_, .setcaps _) | (_, .render _) => isTrue trivial

/-! ## The invariant -/

/-- What a GL thread has loaded is of one size, which is the present one while it is loading. -/
def Sound (last : Option (U32 × U32)) (s : State) : GlPc → Prop
  | .update first w h ptr => ∃ size : U32 × U32, (∀ x, w = some x → x = size.1) ∧ (∀ y, h = some y → y = size.2) ∧
      (∀ p, ptr = some p → p = area size) ∧
      ((GlPc.update first w h ptr).loading = true → size = (s.imgW, s.imgH) ∧ last = some size)
  | .texImage _ w h ptr => area (w, h) ≤ ptr
  | _ => True

structure Bounded (pre : List (State × Step)) (s : State) : Prop where
  width : s.imgW.toNat ≤ 4096
  height : s.imgH.toNat ≤ 4096
  size : s.imgPtr = ((allocated pre).map area).getD 0
  sound : ∀ pc ∈ s.gl, Sound (allocated pre) s pc

theorem allocated_snoc (pre : List (State × Step)) (m : State × Step) :
    allocated (pre ++ [m]) = (allocation m).or (allocated pre) := by
  unfold allocated
  rw [List.filterMap_append]
  cases h : allocation m with
  | none => simp [h]
  | some size => simp [h]

section Step
variable {pre : List (State × Step)} {s : State}

theorem allocated_gl (k : Nat) (act : GlAct) : allocated (pre ++ [(s, .gl k act)]) = allocated pre := by
  rw [allocated_snoc]
  rfl

theorem Bounded.bufsize (h : Bounded pre s) : (s.imgH * s.imgW * 4).toNat = area (s.imgW, s.imgH) := by
  have hprod : s.imgH.toNat * s.imgW.toNat ≤ 4096 * 4096 := Nat.mul_le_mul h.height h.width
  have h4 : (4 : U32).toNat = 4 := rfl
  show _ = 4 * (s.imgW.toNat * s.imgH.toNat)
  rw [BitVec.toNat_mul, BitVec.toNat_mul, h4, Nat.mod_eq_of_lt (show s.imgH.toNat * s.imgW.toNat < 2 ^ 32 by omega),
    Nat.mod_eq_of_lt (by omega), Nat.mul_comm s.imgW.toNat]
  omega

/-- A thread that is not loading does not care about the globals. -/
theorem Sound.of_not_loading {last last' : Option (U32 × U32)} {s' : State} {pc : GlPc} (h : Sound last s pc)
    (hpc : pc.loading = false) : Sound last' s' pc := by
  cases pc with
  | update first w hh ptr =>
      obtain ⟨size, hw, hh, hptr, -⟩ := h
      refine ⟨size, hw, hh, hptr, fun hloading => ?_⟩
      rw [hpc] at hloading
      cases hloading
  | texImage first w hh ptr => exact h
  | _ => trivial

theorem Bounded.carry (h : Bounded pre s) {s' : State} {last' : Option (U32 × U32)}
    (hchange : s'.sizes ≠ s.sizes → ∀ pc ∈ s.gl, pc.loading = false)
    (hlast : last' = allocated pre ∨ last' = some (s.imgW, s.imgH)) : ∀ pc ∈ s.gl, Sound last' s' pc := by
  intro pc hpc
  have hsound := h.sound pc hpc
  by_cases hloading : pc.loading = true
  · have hsizes : s'.sizes = s.sizes := by
      by_contra hne
      rw [hchange hne pc hpc] at hloading
      cases hloading
    obtain ⟨hheight, hwidth, -⟩ : s'.imgH = s.imgH ∧ s'.imgW = s.imgW ∧ s'.imgPtr = s.imgPtr := by
      simpa [State.sizes] using hsizes
    cases pc with
    | update first w hh ptr =>
        obtain ⟨size, hw, hh, hptr, hnow⟩ := hsound
        refine ⟨size, hw, hh, hptr, fun _ => ?_⟩
        obtain ⟨hsize, hallocated⟩ := hnow hloading
        rw [hwidth, hheight]
        refine ⟨hsize, ?_⟩
        rcases hlast with hlast | hlast
        · exact hlast.trans hallocated
        · rw [hlast, hsize]
    | _ => cases hloading
  · exact hsound.of_not_loading (by simpa using hloading)

/-- A step of the streaming thread that is no allocation. -/
theorem allocated_stream {ok : Bool} (h : ok = true → s.stream ≠ .allocate) :
    allocated (pre ++ [(s, .stream ok)]) = allocated pre := by
  rw [allocated_snoc]
  cases ok with
  | false => rfl
  | true =>
      cases hstream : s.stream with
      | allocate => exact absurd hstream (h rfl)
      | _ => simp [allocation, hstream]

theorem Bounded.stream (h : Bounded pre s) (ok : Bool) (hguard : Guarded pre (s, .stream ok)) :
    Bounded (pre ++ [(s, .stream ok)]) (s.streamNext ok) := by
  have hchange : (s.streamNext ok).sizes ≠ s.sizes → ∀ pc ∈ s.gl, pc.loading = false := hguard.2
  by_cases hallocate : ok = true ∧ s.stream = .allocate
  · obtain ⟨rfl, hstream⟩ := hallocate
    have hlast : allocated (pre ++ [(s, .stream true)]) = some (s.imgW, s.imgH) := by
      rw [allocated_snoc]
      simp [allocation, hstream]
    have hsound := h.carry hchange (Or.inr hlast)
    unfold State.streamNext at hsound ⊢
    rw [hstream] at hsound ⊢
    rw [hlast] at hsound
    exact ⟨h.width, h.height, by rw [hlast]; exact h.bufsize, by rw [hlast]; exact hsound⟩
  · have hlast : allocated (pre ++ [(s, .stream ok)]) = allocated pre :=
      allocated_stream fun hok hstream => hallocate ⟨hok, hstream⟩
    have hsound := h.carry hchange (Or.inl rfl)
    obtain ⟨hwidth, hheight, hsize, -⟩ := h
    unfold State.streamNext at hsound ⊢
    cases hstream : s.stream with
    | allocate =>
        rw [hstream] at hsound
        cases ok with
        | false => exact ⟨hwidth, hheight, by rw [hlast]; exact hsize, by rw [hlast]; exact hsound⟩
        | true => exact absurd ⟨rfl, hstream⟩ hallocate
    | storeH caps =>
        rw [hstream] at hsound
        exact ⟨hwidth, caps.height_range.2, by rw [hlast]; exact hsize, by rw [hlast]; exact hsound⟩
    | storeW caps =>
        rw [hstream] at hsound
        exact ⟨caps.width_range.2, hheight, by rw [hlast]; exact hsize, by rw [hlast]; exact hsound⟩
    | createThread =>
        rw [hstream] at hsound
        refine ⟨hwidth, hheight, by rw [hlast]; exact hsize, ?_⟩
        rw [hlast]
        cases ok with
        | false => exact hsound
        | true =>
            show ∀ pc ∈ s.gl ++ [.shaders], _
            rw [List.forall_mem_append, List.forall_mem_singleton]
            exact ⟨hsound, trivial⟩
    | exchange buffer =>
        rw [hstream] at hsound
        dsimp only at hsound ⊢
        split_ifs at hsound ⊢
        · exact ⟨hwidth, hheight, by rw [hlast]; exact hsize, by rw [hlast]; exact hsound⟩
        · exact ⟨hwidth, hheight, by rw [hlast]; exact hsize, by rw [hlast]; exact hsound⟩
    | _ =>
        rw [hstream] at hsound
        exact ⟨hwidth, hheight, by rw [hlast]; exact hsize, by rw [hlast]; exact hsound⟩

theorem Sound.next {last : Option (U32 × U32)} {pc : GlPc} (h : Sound last s pc) (act : GlAct)
    (hsize : s.imgPtr = (last.map area).getD 0)
    (hloads : act.loads = true → pc.updating = true → last = some (s.imgW, s.imgH)) :
    Sound last s (pc.next s act).1 := by
  -- what is loaded by now is of the present size
  have hnow : act.loads = true → ∀ first w hh ptr, pc = .update first w hh ptr →
      ((w.isSome && hh.isSome && ptr.isSome) = false) → last = some (s.imgW, s.imgH) ∧
      (∀ x, w = some x → x = s.imgW) ∧ (∀ y, hh = some y → y = s.imgH) ∧
      (∀ p, ptr = some p → p = area (s.imgW, s.imgH)) := by
    rintro hact first w hh ptr rfl hall
    refine ⟨hloads hact rfl, ?_⟩
    obtain ⟨size, hw, hh', hptr, hpresent⟩ := h
    by_cases hany : (w.isSome || hh.isSome || ptr.isSome) = true
    · obtain ⟨rfl, -⟩ := hpresent (by rw [GlPc.loading, hany, hall]; rfl)
      exact ⟨hw, hh', hptr⟩
    · cases w <;> cases hh <;> cases ptr <;> simp at hany ⊢
  unfold GlPc.next
  split
  · split <;> simp [Sound, GlPc.loading]
  · rename_i first hh ptr
    obtain ⟨hlast, -, hheight, hptr⟩ := hnow rfl first none hh ptr rfl rfl
    exact ⟨_, fun x hx => (Option.some.inj hx).symm, hheight, hptr, fun _ => ⟨rfl, hlast⟩⟩
  · rename_i first w ptr
    obtain ⟨hlast, hwidth, -, hptr⟩ := hnow rfl first w none ptr rfl (by cases w <;> rfl)
    exact ⟨_, hwidth, fun x hx => (Option.some.inj hx).symm, hptr, fun _ => ⟨rfl, hlast⟩⟩
  · rename_i first w hh
    obtain ⟨hlast, hwidth, hheight, -⟩ := hnow rfl first w hh none rfl (by cases w <;> cases hh <;> rfl)
    refine ⟨_, hwidth, hheight, fun x hx => ?_, fun _ => ⟨rfl, hlast⟩⟩
    rw [hlast] at hsize
    rw [← Option.some.inj hx]
    exact hsize
  · rename_i first w hh ptr
    obtain ⟨size, hw, hh', hptr, -⟩ := h
    show area (w, hh) ≤ ptr
    rw [hw w rfl, hh' hh rfl, hptr ptr rfl]
  · split <;> trivial
  · trivial
  · split
    · simp [Sound, GlPc.loading]
    · trivial
  · trivial
  · exact h

theorem Bounded.glNext (h : Bounded pre s) (k : Nat) (act : GlAct) (hguard : Guarded pre (s, .gl k act)) :
    Bounded (pre ++ [(s, .gl k act)]) (s.next (.gl k act)) := by
  have hlast := @allocated_gl pre s k act
  unfold State.next
  dsimp only
  cases hk : s.gl[k]? with
  | none => exact ⟨h.width, h.height, by rw [hlast]; exact h.size, by rw [hlast]; exact h.sound⟩
  | some pc =>
      refine ⟨h.width, h.height, by rw [hlast]; exact h.size, ?_⟩
      rw [hlast]
      intro pc' hpc'
      have hpc : pc ∈ s.gl := List.mem_of_getElem? hk
      rcases List.mem_or_eq_of_mem_set hpc' with hmem | rfl
      · exact h.sound pc' hmem
      · exact (h.sound pc hpc).next act h.size fun hact => hguard hact pc hk

/-- **The step lemma.** -/
theorem Bounded.step (h : Bounded pre s) (i : Step) (hguard : Guarded pre (s, i)) :
    Bounded (pre ++ [(s, i)]) (s.next i) := by
  cases i with
  | stream ok => exact h.stream ok hguard
  | gl k act => exact h.glNext k act hguard
  | setcaps caps =>
      have hlast : allocated (pre ++ [(s, .setcaps caps)]) = allocated pre := by
        rw [allocated_snoc]
        rfl
      unfold State.next
      dsimp only
      split <;> exact ⟨h.width, h.height, by rw [hlast]; exact h.size, by rw [hlast]; exact h.sound⟩
  | render buffer =>
      have hlast : allocated (pre ++ [(s, .render buffer)]) = allocated pre := by
        rw [allocated_snoc]
        rfl
      unfold State.next
      dsimp only
      split <;> exact ⟨h.width, h.height, by rw [hlast]; exact h.size, by rw [hlast]; exact h.sound⟩

/-- What a guarded step touches is in bounds. -/
theorem Bounded.inBounds (h : Bounded pre s) (i : Step) (hguard : Guarded pre (s, i)) : InBounds (s, i) := by
  cases i with
  | stream ok =>
      intro buffer hbuffer
      rw [h.size]
      exact hguard.1 buffer hbuffer
  | gl k act =>
      rintro rfl ⟨size, ptr⟩ hx
      obtain ⟨pc, hk, hpc⟩ := Option.bind_eq_some_iff.1 hx
      have hsound := h.sound pc (List.mem_of_getElem? hk)
      unfold GlPc.loaded at hpc
      split at hpc
      · obtain ⟨rfl, rfl⟩ := Prod.mk.inj (Option.some.inj hpc)
        obtain ⟨size, hw, hh, hptr, -⟩ := hsound
        show area (_, _) ≤ _
        rw [hw _ rfl, hh _ rfl, hptr _ rfl]
      · cases hpc
  | _ => trivial

end Step

/-- **No access past the end.** Any schedule of `setcaps`, renders and GL threads whose steps are guarded. -/
theorem image_in_bounds (is : List Step) (hguard : Every Guarded (gles2.moments .zero is)) :
    ∀ m ∈ gles2.moments .zero is, InBounds m := by
  rw [← every_const]
  refine Machine.every_moments (A := fun _ => True) (I := Bounded) (G := Guarded) ?_ ?_ ?_ (fun _ _ => trivial) hguard
  · exact ⟨by decide, by decide, rfl, fun pc hpc => absurd hpc List.not_mem_nil⟩
  · exact fun pre s i _ h hguard => h.step i hguard
  · exact fun pre s i _ h hguard => h.inBounds i hguard

/-- A `setcaps`, a render of its size, and an `update_texture` after it. -/
def shown : List Step :=
  setup ⟨16, 16, sixteen_range, sixteen_range⟩ ++
    [.render ⟨List.replicate 1024 0, black_size⟩, .stream true, .stream true, .stream true,
      .gl 0 (.shaders true), .gl 0 .loadW, .gl 0 .loadH, .gl 0 .loadPtr, .gl 0 .texImage, .gl 0 .texDone]

theorem image_in_bounds_shown :
    Every Guarded (gles2.moments .zero shown) ∧ ∀ m ∈ gles2.moments .zero shown, InBounds m := by
  have hguard : Every Guarded (gles2.moments .zero shown) := by decide +kernel
  exact ⟨hguard, image_in_bounds shown hguard⟩

/-- A buffer with one byte more than the caps ask for, and an `update_texture` after the stores of a `setcaps`
with a larger size. -/
theorem not_in_bounds :
    (¬∀ m ∈ gles2.moments .zero (setup ⟨16, 16, sixteen_range, sixteen_range⟩ ++
        [.render ⟨List.replicate 1025 0, by rw [List.length_replicate]; decide⟩, .stream true, .stream true]),
      InBounds m) ∧
    ¬∀ m ∈ gles2.moments .zero (setup ⟨16, 16, sixteen_range, sixteen_range⟩ ++
        [.gl 0 (.shaders true), .setcaps ⟨32, 32, by decide, by decide⟩, .stream true, .stream true,
          .gl 0 .loadW, .gl 0 .loadH, .gl 0 .loadPtr, .gl 0 .texImage]),
      InBounds m := by
  constructor <;> decide +kernel

end SysSnippets.Gst.Gles2
