import SysSnippets.Lib.Mem
import SysSnippets.Gst.Sink

/-!
# What `render` writes into a frame

Here handles are numbers: addresses and framebuffer ids. `copyRows` computes its offsets in 32 bits.

* `pokes` : the writes of some calls;
* `cell_copyRows` : where the offsets stay below 2^32, byte `j` of row `r` of the buffer lands in row `r` of
  the frame;
* `Shows` : a frame shows an image (`shows_copyRows`).
-/

namespace SysSnippets.Gst
open SysSnippets.Lib

/-- The writes of a call. -/
def Call.pokes : Call Nat → List (Nat × Byte)
  | .memcpy frame offset bytes => bytesAt (frame + offset) bytes
  | _ => []

def pokes (calls : List (Call Nat)) : List (Nat × Byte) := calls.flatMap Call.pokes

/-- The memory shows an image of `width` × `height` pixels of 4 bytes from `base` on. -/
def Shows (mem : Nat → Byte) (base pitch width height : Nat) (data : List Byte) : Prop :=
  ∀ r < height, ∀ x < width, ∀ k < 4,
    data[4 * (r * width + x) + k]? = some (mem (base + r * pitch + 4 * x + k))

section Copy
variable {s : Sink Nat} {buffer : Buffer} {r j : Nat}

/-- The sizes that caps admit. -/
structure Sink.Sized (s : Sink Nat) : Prop where
  width : s.width.toNat ≤ 4096
  height : s.height.toNat ≤ 4096

/-- Row `r` of a buffer. -/
def Sink.row (s : Sink Nat) (buffer : Buffer) (r : Nat) : List Byte :=
  (buffer.data.drop (4 * BitVec.ofNat 32 r * s.width).toNat).take (4 * s.width).toNat

theorem pokes_copyRows (s : Sink Nat) (buffer : Buffer) : pokes (s.copyRows buffer) =
    strided (s.frame s.current) (fun r => (BitVec.ofNat 32 r * s.stride s.current).toNat) s.height.toNat
      (s.row buffer) := by
  unfold pokes Sink.copyRows strided
  rw [List.flatMap_map]
  rfl

theorem Sink.Sized.row_start (hs : s.Sized) (hr : r < s.height.toNat) :
    (4 * BitVec.ofNat 32 r * s.width).toNat = 4 * r * s.width.toNat := by
  have hheight := hs.height
  have hprod : r * s.width.toNat ≤ 4096 * 4096 := Nat.mul_le_mul (by omega) hs.width
  have h4 : (4 * BitVec.ofNat 32 r).toNat = 4 * r := by
    rw [BitVec.toNat_mul, BitVec.toNat_ofNat]
    show 4 * (r % 2 ^ 32) % 2 ^ 32 = 4 * r
    omega
  rw [BitVec.toNat_mul, h4, Nat.mod_eq_of_lt]
  rw [Nat.mul_assoc]
  omega

theorem Sink.Sized.row_size (hs : s.Sized) : (4 * s.width).toNat = 4 * s.width.toNat := by
  have hwidth := hs.width
  rw [BitVec.toNat_mul]
  show 4 * s.width.toNat % 2 ^ 32 = 4 * s.width.toNat
  omega

/-- `render` refuses exactly the buffers that are too small. -/
theorem Sink.Sized.refuses_iff (hs : s.Sized) :
    s.refuses buffer = true ↔ buffer.data.length < 4 * (s.width.toNat * s.height.toNat) := by
  have hprod : s.width.toNat * s.height.toNat ≤ 4096 * 4096 := Nat.mul_le_mul hs.width hs.height
  have hsize := buffer.size_lt
  unfold Sink.refuses Buffer.size
  rw [decide_eq_true_eq, BitVec.lt_def, BitVec.toNat_mul, hs.row_size, BitVec.toNat_ofNat,
    Nat.mod_eq_of_lt hsize, Nat.mod_eq_of_lt, Nat.mul_assoc]
  rw [Nat.mul_assoc]
  omega

theorem Sink.Sized.row_length (hs : s.Sized) : (s.row buffer r).length ≤ 4 * s.width.toNat := by
  unfold Sink.row
  rw [hs.row_size]
  exact List.length_take_le _ _

theorem Sink.Sized.getElem?_row (hs : s.Sized) (hr : r < s.height.toNat) (hj : j < 4 * s.width.toNat) :
    (s.row buffer r)[j]? = buffer.data[4 * r * s.width.toNat + j]? := by
  unfold Sink.row
  rw [hs.row_size, hs.row_start hr, List.getElem?_take_of_lt hj, List.getElem?_drop]

/-- The 32-bit offset of a row. -/
theorem offset_eq {stride : U32} {h : Nat} (hwrap : (h - 1) * stride.toNat < 2 ^ 32) (hh : h ≤ 4096) (hr : r < h) :
    (BitVec.ofNat 32 r * stride).toNat = r * stride.toNat := by
  have hle : r * stride.toNat ≤ (h - 1) * stride.toNat := Nat.mul_le_mul_right _ (by omega)
  rw [BitVec.toNat_mul, BitVec.toNat_ofNat, Nat.mod_eq_of_lt (show r < 2 ^ 32 by omega), Nat.mod_eq_of_lt]
  omega

/-- **The strided copy.** -/
theorem cell_copyRows (hs : s.Sized) (hpitch : 4 * s.width.toNat ≤ (s.stride s.current).toNat)
    (hwrap : (s.height.toNat - 1) * (s.stride s.current).toNat < 2 ^ 32) (mem : Nat → Byte)
    (hr : r < s.height.toNat) (hj : j < 4 * s.width.toNat) {b : Byte}
    (hb : buffer.data[4 * r * s.width.toNat + j]? = some b) :
    write mem (pokes (s.copyRows buffer)) (s.frame s.current + r * (s.stride s.current).toNat + j) = b := by
  rw [pokes_copyRows, strided_congr fun r hr => offset_eq hwrap hs.height hr]
  apply write_strided
  · exact fun r _ => le_trans hs.row_length hpitch
  · exact hr
  · rw [hs.getElem?_row hr hj]
    exact hb

/-- Nothing is written below the last row. -/
theorem cell_below (buffer : Buffer) (hs : s.Sized) (hpitch : 4 * s.width.toNat ≤ (s.stride s.current).toNat)
    (hwrap : (s.height.toNat - 1) * (s.stride s.current).toNat < 2 ^ 32) (mem : Nat → Byte) {a : Nat}
    (ha : s.frame s.current + s.height.toNat * (s.stride s.current).toNat ≤ a) :
    write mem (pokes (s.copyRows buffer)) a = mem a := by
  rw [pokes_copyRows, strided_congr fun r hr => offset_eq hwrap hs.height hr]
  apply write_of_notMem
  intro p hp
  obtain ⟨r, hr, j, hj, hp⟩ := mem_strided.1 hp
  have hlength := Nat.lt_of_lt_of_le (List.getElem?_eq_some_iff.1 hj).1 hs.row_length
  have hrow : (r + 1) * (s.stride s.current).toNat ≤ s.height.toNat * (s.stride s.current).toNat :=
    Nat.mul_le_mul_right _ hr
  rw [Nat.succ_mul] at hrow
  omega

theorem shows_copyRows (hs : s.Sized) (hpitch : 4 * s.width.toNat ≤ (s.stride s.current).toNat)
    (hwrap : (s.height.toNat - 1) * (s.stride s.current).toNat < 2 ^ 32) (mem : Nat → Byte)
    (hbuffer : s.refuses buffer = false) :
    Shows (write mem (pokes (s.copyRows buffer))) (s.frame s.current) (s.stride s.current).toNat s.width.toNat
      s.height.toNat buffer.data := by
  intro r hr x hx k hk
  have hlength : 4 * (s.width.toNat * s.height.toNat) ≤ buffer.data.length := by
    have := @Sink.Sized.refuses_iff s buffer hs
    rw [hbuffer] at this
    simpa using this
  have hrow : (r + 1) * s.width.toNat ≤ s.width.toNat * s.height.toNat := by
    rw [Nat.mul_comm s.width.toNat]
    exact Nat.mul_le_mul_right _ hr
  rw [Nat.succ_mul] at hrow
  have hindex : 4 * r * s.width.toNat + (4 * x + k) = 4 * (r * s.width.toNat + x) + k := by
    rw [Nat.mul_assoc]
    omega
  obtain ⟨b, hb⟩ : ∃ b, buffer.data[4 * (r * s.width.toNat + x) + k]? = some b :=
    ⟨_, List.getElem?_eq_getElem (by omega)⟩
  have hcell := cell_copyRows hs hpitch hwrap mem hr (show 4 * x + k < 4 * s.width.toNat by omega)
    (hindex.symm ▸ hb : buffer.data[4 * r * s.width.toNat + (4 * x + k)]? = some b)
  rw [hb, Nat.add_assoc _ (4 * x) k, hcell]

end Copy

/-! ## `start` -/

section Start
variable {H : Type} [Inhabited H] (a : StartAnswers H)

theorem DrmSink.start_enabled (s : DrmSink H) : (s.start a).self.enabled = s.enabled := by
  unfold DrmSink.start
  split
  · rfl
  · dsimp only
    split
    · rfl
    · split
      · rfl
      · split
        · rfl
        · split <;> rfl

theorem DrmPlaneSink.start_enabled (s : DrmPlaneSink H) : (s.start a).self.enabled = s.enabled := by
  unfold DrmPlaneSink.start
  split
  · rfl
  · dsimp only
    split
    · rfl
    · split
      · rfl
      · split <;> rfl

end Start

/-! ## The loop over the frames in `setup` -/

section Setup
variable {H : Type} (s : Sink H) (width height : U32)

/-- Setting up a frame leaves `enabled` and the size alone. -/
theorem setupFrame_kept (a : FrameAnswers H) (i : Fin DRM_FRAMES) :
    (s.setupFrame width height a i).self.enabled = s.enabled ∧
      (s.setupFrame width height a i).self.width = s.width ∧
      (s.setupFrame width height a i).self.height = s.height := by
  unfold Sink.setupFrame
  split
  · exact ⟨rfl, rfl, rfl⟩
  · dsimp only
    split
    · exact ⟨rfl, rfl, rfl⟩
    · split
      · exact ⟨rfl, rfl, rfl⟩
      · split
        · exact ⟨rfl, rfl, rfl⟩
        · split <;> exact ⟨rfl, rfl, rfl⟩

theorem setupFrames_kept (a : Fin DRM_FRAMES → FrameAnswers H) (is : List (Fin DRM_FRAMES)) :
    (Sink.setupFrames width height a is s).self.enabled = s.enabled ∧
      (Sink.setupFrames width height a is s).self.width = s.width ∧
      (Sink.setupFrames width height a is s).self.height = s.height := by
  induction is generalizing s with
  | nil => exact ⟨rfl, rfl, rfl⟩
  | cons i is ih =>
      obtain ⟨henabled, hwidth, hheight⟩ := setupFrame_kept s width height (a i) i
      obtain ⟨henabled', hwidth', hheight'⟩ := ih (s.setupFrame width height (a i) i).self
      unfold Sink.setupFrames
      dsimp only
      split_ifs
      · exact ⟨henabled'.trans henabled, hwidth'.trans hwidth, hheight'.trans hheight⟩
      · exact ⟨henabled, hwidth, hheight⟩

theorem setupFrame_ret (a : FrameAnswers H) (i : Fin DRM_FRAMES) :
    (s.setupFrame width height a i).ret = true ↔ a.Complete := by
  obtain ⟨bo, pitch, handle, frame, fb⟩ := a
  unfold Sink.setupFrame FrameAnswers.Complete
  cases bo with
  | none => simp
  | some bo =>
      cases pitch with
      | none => simp
      | some pitch =>
          cases handle with
          | none => simp
          | some handle =>
              cases frame with
              | none => simp
              | some frame => cases fb <;> simp

theorem setupFrame_stride {a : FrameAnswers H} (ha : a.Complete) (i : Fin DRM_FRAMES) :
    ∃ stride, a.pitch = some stride ∧
      (s.setupFrame width height a i).self.stride = Function.update s.stride i stride := by
  obtain ⟨hbo, hpitch, hhandle, hframe, hfb⟩ := ha
  obtain ⟨bo, hbo⟩ := Option.isSome_iff_exists.1 hbo
  obtain ⟨stride, hpitch⟩ := Option.isSome_iff_exists.1 hpitch
  obtain ⟨handle, hhandle⟩ := Option.isSome_iff_exists.1 hhandle
  obtain ⟨frame, hframe⟩ := Option.isSome_iff_exists.1 hframe
  obtain ⟨fb, hfb⟩ := Option.isSome_iff_exists.1 hfb
  refine ⟨stride, hpitch, ?_⟩
  unfold Sink.setupFrame
  rw [hbo, hpitch, hhandle, hframe, hfb]

theorem setupFrames_ret (a : Fin DRM_FRAMES → FrameAnswers H) (is : List (Fin DRM_FRAMES)) :
    (Sink.setupFrames width height a is s).ret = true ↔ ∀ i ∈ is, (a i).Complete := by
  induction is generalizing s with
  | nil => exact iff_of_true rfl (fun i hi => absurd hi List.not_mem_nil)
  | cons i is ih =>
      rw [List.forall_mem_cons, ← setupFrame_ret s width height (a i) i]
      unfold Sink.setupFrames
      dsimp only
      split_ifs with hret
      · rw [ih]
        exact (and_iff_right hret).symm
      · exact iff_of_false hret fun h => hret h.1

/-- Each frame that was set up has the pitch of its buffer object. -/
theorem setupFrames_stride {a : Fin DRM_FRAMES → FrameAnswers H} {is : List (Fin DRM_FRAMES)}
    (ha : ∀ i ∈ is, (a i).Complete) {i : Fin DRM_FRAMES}
    (hi : i ∈ is ∨ (a i).pitch = some (s.stride i)) :
    (a i).pitch = some ((Sink.setupFrames width height a is s).self.stride i) := by
  induction is generalizing s with
  | nil =>
      rcases hi with hi | hi
      · cases hi
      · exact hi
  | cons j is ih =>
      obtain ⟨hj, hrest⟩ := List.forall_mem_cons.1 ha
      obtain ⟨stride, hpitch, hstride⟩ := setupFrame_stride s width height hj j
      unfold Sink.setupFrames
      dsimp only
      rw [if_pos ((setupFrame_ret s width height (a j) j).2 hj)]
      refine ih (s.setupFrame width height (a j) j).self hrest ?_
      rw [hstride]
      by_cases hij : i = j
      · subst hij
        rw [Function.update_self]
        exact Or.inr hpitch
      · rw [Function.update_of_ne hij]
        rcases hi with hi | hi
        · exact Or.inl ((List.mem_cons.1 hi).resolve_left hij)
        · exact Or.inr hi

end Setup

end SysSnippets.Gst
