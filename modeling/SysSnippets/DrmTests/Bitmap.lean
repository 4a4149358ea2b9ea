import SysSnippets.Lib.Raster

/-!
# Test pictures (`drm-tests/bitmap_utils.c`)

`drm_dumb_bo` and `drm_dumb_bo_plane` have the driver create a buffer, announce it as a framebuffer with the pitch the
driver returned, and draw into its mapping. The drawing puts row after row without a gap; the display finds a row at a
multiple of the pitch.

* `drawTestImage`, `drawFancyImage` : the stores, and `testColor`, `fancyColor` their colours;
* `Shows` : what the display reads are these colours;
* `pictures_iff` : the buffers that show both pictures, whatever they held before.
-/

namespace SysSnippets.DrmTests

open SysSnippets.Lib

/-! ## The pictures -/

def color32 : List U32 := [0x000000FF, 0x0000FF00, 0x00FF0000, 0x00FF00FF, 0x00FFFF00, 0x0000FFFF]

/-- The colour of `draw_test_image` for a picture of `h` rows. -/
def testColor (h : Nat) (_ y : Nat) : U32 := color32.getD (6 * y / h) 0

def drawTestImage (w h : Nat) : List (Nat × U32) :=
  (List.range h).flatMap fun i =>
    let color := color32.getD (6 * i / h) 0
    (List.range w).map fun j => (i * w + j, color)

/-- The colour of `draw_fancy_image` at the time `t`, the `int`s of the computation being in their range. -/
def fancyColor (t : U32) (width height x y : Nat) : U32 :=
  let halfh : Int := height / 2
  let halfw : Int := width / 2
  let outer := (if halfw < halfh then halfw else halfh) - 8
  let inner := outer - 32
  let y2 := (y - halfh) * (y - halfh)
  let r2 := (x - halfw) * (x - halfw) + y2
  let v : U32 :=
    if r2 < inner * inner then (BitVec.ofInt 32 (r2 / 32) + t / 64) * 0x0080401
    else if r2 < outer * outer then (BitVec.ofNat 32 y + t / 32) * 0x0080401
    else (BitVec.ofNat 32 x + t / 16) * 0x0080401
  let v := v &&& 0x00ffffff
  if 6 < (x - y : Int).natAbs ∧ 6 < (x + y - height : Int).natAbs then v ||| 0xff000000 else v

def drawFancyImage (t : U32) (width height : Nat) : List (Nat × U32) := running (flat width height (fancyColor t width height))

theorem paints_test (w h : Nat) : Paints w h (testColor h) (drawTestImage w h) := paints_rows w h (testColor h)

theorem paints_fancy (t : U32) (w h : Nat) : Paints w h (fancyColor t w h) (drawFancyImage t w h) :=
  paints_flat w h (fancyColor t w h)

/-! ## The buffer -/

/-- `struct drm_mode_create_dumb`, as it is filled in. -/
structure CreateDumb where
  height : Nat
  width : Nat
  bpp : Nat

/-- And what the driver returns in it. -/
structure Created where
  handle : U32
  pitch : Nat
  size : Nat

/-- The arguments of `drmModeAddFB`. -/
structure Fb where
  width : Nat
  height : Nat
  depth : Nat
  bpp : Nat
  pitch : Nat
  handle : U32

def createRequest (w h : Nat) : CreateDumb where
  height := h
  width := w
  bpp := 32

def addFb (w h : Nat) (creq : Created) : Fb where
  width := w
  height := h
  depth := 24
  bpp := 32
  pitch := creq.pitch
  handle := creq.handle

/-- The size asked for and what the driver returned: rows that have room for their pixels. -/
structure Setup where
  w : Nat
  h : Nat
  creq : Created
  w_pos : 1 ≤ w
  h_pos : 1 ≤ h
  w_le : w ≤ 65535
  h_le : h ≤ 65535
  pitch_le : w * (createRequest w h).bpp / 8 ≤ creq.pitch

/-- The word the display reads for a pixel. -/
def Fb.pixel (fb : Fb) (mem : Nat → Byte) (x y : Nat) : U32 := wordAt mem (y * fb.pitch + x * (fb.bpp / 8))

namespace Setup
variable (s : Setup)

def fb : Fb := addFb s.w s.h s.creq

def Shows (mem : Nat → Byte) (color : Nat → Nat → U32) : Prop := ∀ y < s.h, ∀ x < s.w, s.fb.pixel mem x y = color x y

/-- There is no gap between the rows, or only one row. -/
def Tight : Prop := s.creq.pitch = 4 * s.w ∨ s.h = 1

variable {s} {ps : List (Nat × U32)} {color : Nat → Nat → U32} {mem : Nat → Byte}

theorem pixel_eq (x y : Nat) : s.fb.pixel mem x y = wordAt mem (y * s.creq.pitch + 4 * x) := by
  rw [Nat.mul_comm 4 x]
  show wordAt mem (y * s.creq.pitch + x * (32 / 8)) = _
  rfl

theorem pitch_ge : 4 * s.w ≤ s.creq.pitch := by
  have hpitch : s.w * 32 / 8 ≤ s.creq.pitch := s.pitch_le
  omega

/-- `i*w + j` is an `uint32_t`. -/
theorem index_lt (hpaints : Paints s.w s.h color ps) : ∀ p ∈ ps, p.1 < 2 ^ 32 := by
  intro p hp
  calc p.1 < s.h * s.w := hpaints.lt p hp
    _ ≤ 65535 * 65535 := Nat.mul_le_mul s.h_le s.w_le
    _ < 2 ^ 32 := by omega

theorem shows_of_tight (htight : s.Tight) (hpaints : Paints s.w s.h color ps) :
    s.Shows (write mem (wordWrites ps)) color := by
  intro y hy x hx
  have haddr : y * s.creq.pitch + 4 * x = 4 * (y * s.w + x) := by
    obtain hpitch | hone := htight
    · rw [hpitch, Nat.mul_left_comm, Nat.mul_add]
    · obtain rfl : y = 0 := by omega
      omega
  rw [pixel_eq, haddr]
  exact wordAt_wordBytes (hpaints.holds mem hx hy)

/-- Where there is a gap, the last byte of the last pixel is behind everything drawn. -/
theorem last_outside (hgap : ¬ s.Tight) : 4 * (s.h * s.w) ≤ (s.h - 1) * s.creq.pitch + 4 * (s.w - 1) + 3 := by
  have hpitch := s.pitch_ge
  have hw := s.w_pos
  have hh := s.h_pos
  have hlt : 4 * s.w + 1 ≤ s.creq.pitch := Nat.lt_of_le_of_ne hpitch fun h => hgap (Or.inl h.symm)
  obtain ⟨h', hh'⟩ : ∃ h', s.h = h' + 1 := ⟨s.h - 1, by omega⟩
  have hrows : 1 ≤ h' := Nat.pos_of_ne_zero fun h => hgap (Or.inr (by omega))
  have hmul := Nat.mul_le_mul_left h' hlt
  rw [Nat.mul_add, Nat.mul_one, Nat.mul_left_comm] at hmul
  rw [hh', Nat.add_mul, Nat.one_mul, Nat.add_sub_cancel]
  omega

theorem tight_of_shows (hpaints : Paints s.w s.h color ps)
    (h : ∀ mem, s.Shows (write mem (wordWrites ps)) color) : s.Tight := by
  by_contra hgap
  have hw := s.w_pos
  have hh := s.h_pos
  -- its last byte is what it was before
  have hlast : ∀ b : Byte, (color (s.w - 1) (s.h - 1)).toNat / 2 ^ 24 = b.toNat := by
    intro b
    have hpixel := h (fun _ => b) (s.h - 1) (by omega) (s.w - 1) (by omega)
    rw [← hpixel, pixel_eq, wordAt_high, hpaints.outside (last_outside hgap)]
  have hbytes : (0 : Byte).toNat = (1 : Byte).toNat := (hlast 0).symm.trans (hlast 1)
  revert hbytes
  decide

/-- Nor is the last pixel found where a gap is and the buffer was empty. -/
theorem tight_of_shows_empty (hpaints : Paints s.w s.h color ps) (hcolor : color (s.w - 1) (s.h - 1) ≠ 0)
    (h : s.Shows (write (fun _ => 0) (wordWrites ps)) color) : s.Tight := by
  by_contra hgap
  have hw := s.w_pos
  have hh := s.h_pos
  have hpixel := h (s.h - 1) (by omega) (s.w - 1) (by omega)
  have hlast := leAt_wordBytes
    (hpaints.holds (fun _ => 0) (show s.w - 1 < s.w by omega) (show s.h - 1 < s.h by omega))
  have hpast := last_outside hgap
  have hend : 4 * ((s.h - 1) * s.w + (s.w - 1)) + 4 = 4 * (s.h * s.w) := by
    obtain ⟨h', hh'⟩ : ∃ h', s.h = h' + 1 := ⟨s.h - 1, by omega⟩
    rw [hh', Nat.add_mul, Nat.one_mul, Nat.add_sub_cancel]
    omega
  obtain ⟨e, he⟩ : ∃ e, (s.h - 1) * s.creq.pitch + 4 * (s.w - 1) = 4 * ((s.h - 1) * s.w + (s.w - 1)) + e := by
    apply Nat.exists_eq_add_of_le
    have hmul := Nat.mul_le_mul_left (s.h - 1) s.pitch_ge
    rw [Nat.mul_left_comm] at hmul
    omega
  apply hcolor
  apply BitVec.eq_of_toNat_eq
  rw [← hlast]
  apply leAt_eq_zero_of_shift (show 0 < e by omega)
  · intro b hb
    exact hpaints.outside (by omega)
  · rw [← he, ← toNat_wordAt, ← pixel_eq, hpixel, hlast]

theorem shows_iff (hpaints : Paints s.w s.h color ps) :
    (∀ mem, s.Shows (write mem (wordWrites ps)) color) ↔ s.Tight :=
  ⟨tight_of_shows hpaints, fun htight _ => shows_of_tight htight hpaints⟩

end Setup

theorem testColor_ne_zero {h x y : Nat} (hy : y < h) : testColor h x y ≠ 0 := by
  have hcolors : ∀ i < 6, color32.getD i 0 ≠ 0 := by decide
  apply hcolors
  apply Nat.div_lt_of_lt_mul
  omega

/-- The bands show in an empty buffer only where they show in any. -/
theorem test_empty_iff (s : Setup) :
    s.Shows (write (fun _ => 0) (wordWrites (drawTestImage s.w s.h))) (testColor s.h) ↔
      s.creq.pitch = 4 * s.w ∨ s.h = 1 := by
  have hh := s.h_pos
  constructor
  · exact Setup.tight_of_shows_empty (paints_test s.w s.h) (testColor_ne_zero (by omega))
  · intro htight
    exact Setup.shows_of_tight htight (paints_test s.w s.h)

/-- **The buffers that show the pictures.** Those without a gap between the rows, and those of one row. -/
theorem pictures_iff (s : Setup) (t : U32) :
    ((∀ mem, s.Shows (write mem (wordWrites (drawTestImage s.w s.h))) (testColor s.h)) ↔
        s.creq.pitch = 4 * s.w ∨ s.h = 1) ∧
      ((∀ mem, s.Shows (write mem (wordWrites (drawFancyImage t s.w s.h))) (fancyColor t s.w s.h)) ↔
        s.creq.pitch = 4 * s.w ∨ s.h = 1) :=
  ⟨Setup.shows_iff (paints_test s.w s.h), Setup.shows_iff (paints_fancy t s.w s.h)⟩

/-- Two rows of one pixel, which the driver puts 8 bytes apart. -/
def spaced : Setup where
  w := 1
  h := 2
  creq := { handle := 1, pitch := 8, size := 16 }
  w_pos := by decide
  h_pos := by decide
  w_le := by decide
  h_le := by decide
  pitch_le := by decide

/-- The picture is not shown in the empty buffer: its second row stays black. -/
theorem not_shows_spaced : ¬ spaced.Shows (write (fun _ => 0) (wordWrites (drawTestImage 1 2))) (testColor 2) := by
  intro h
  obtain hpitch | hone := Setup.tight_of_shows_empty (s := spaced) (paints_test 1 2) (by decide) h
  · cases hpitch
  · cases hone

end SysSnippets.DrmTests
