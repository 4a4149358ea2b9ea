import SysSnippets.Lib.Raster

/-!
# Filling the framebuffer (`fbdev/c/fbdev.c`)

The program draws six bands and then fills the screen with their colours, one after the other. It stores 32-bit words,
with 16 bits per pixel two pixels at a time and `w / 2` words for a row. Where the width is odd the rows come out one
pixel short, and the last pixel of the screen is not reached.

* `Paints` for both loops : `paints_pattern`, `paints_fill_word`;
* `Correct` : the stores are on the screen, the bands and the fills are what is seen;
* `correct_iff` : the screens where this is so.
-/

namespace SysSnippets.Fbdev

open SysSnippets.Lib

def color16 : List U32 := [0x1F, 0x7E0, 0xF800, 0xF81F, 0xFFE0, 0x7FF]

def color32 : List U32 := [0x000000FF, 0x0000FF00, 0x00FF0000, 0x00FF00FF, 0x00FFFF00, 0x0000FFFF]

/-- A screen whose size in bits is an `int`, of one of the two depths. -/
structure Screen where
  w : Nat
  h : Nat
  bpp : Nat
  w_pos : 1 ≤ w
  h_pos : 1 ≤ h
  depth : bpp = 16 ∨ bpp = 32
  fits : w * h * bpp < 2 ^ 31

namespace Screen
variable (s : Screen)

/-- The bytes mapped. -/
def size : Nat := s.h * s.w * s.bpp / 8

/-- What the switch sets `color` and `xsize` to, for the colour at `i`; there are other depths, which it does not know. -/
def mode (i : Nat) : Option (U32 × Nat) :=
  match s.bpp with
  | 16 => some ((color16.getD i 0 <<< 16) ||| color16.getD i 0, s.w / 2)
  | 32 => some (color32.getD i 0, s.w)
  | _ => none

/-- The stores of row `i` of the pattern. -/
def patternRow (i : Nat) : List (Nat × U32) :=
  match s.mode (6 * i / s.h) with
  | some (color, xsize) => (List.range xsize).map fun j => (i * xsize + j, color)
  | none => []

def pattern : List (Nat × U32) := (List.range s.h).flatMap s.patternRow

/-- The stores of a fill with the colour at `i`. -/
def fill (i : Nat) : List (Nat × U32) :=
  match s.mode i with
  | some (color, xsize) => (List.range (s.h * xsize)).map fun j => (j, color)
  | none => []

/-- The mapping after the pattern and `n` fills. -/
def shown (mem : Nat → Byte) : Nat → Nat → Byte
  | 0 => write mem (wordWrites s.pattern)
  | n + 1 => write (shown mem n) (wordWrites (s.fill n))

/-! ## What is on the screen -/

/-- The pixel of column `x` and row `y`. -/
def pixel (mem : Nat → Byte) (x y : Nat) : Nat := leAt mem (y * (s.w * s.bpp / 8) + x * (s.bpp / 8)) (s.bpp / 8)

/-- The colour at `i`, as a pixel. -/
def color (i : Nat) : Nat := if s.bpp = 16 then (color16.getD i 0).toNat else (color32.getD i 0).toNat

structure Correct (mem : Nat → Byte) : Prop where
  pattern_inside : ∀ p ∈ s.pattern, 4 * p.1 + 4 ≤ s.size
  fill_inside : ∀ i, ∀ p ∈ s.fill i, 4 * p.1 + 4 ≤ s.size
  band : ∀ y < s.h, 6 * y / s.h < 6
  pattern : ∀ y < s.h, ∀ x < s.w, s.pixel (s.shown mem 0) x y = s.color (6 * y / s.h)
  fills : ∀ i < 6, ∀ y < s.h, ∀ x < s.w, s.pixel (s.shown mem (i + 1)) x y = s.color i

/-! ## The stores -/

/-- The words of a row. -/
def xsize : Nat := if s.bpp = 16 then s.w / 2 else s.w

/-- The word stored for the colour at `i`. -/
def word (i : Nat) : U32 :=
  if s.bpp = 16 then (color16.getD i 0 <<< 16) ||| color16.getD i 0 else color32.getD i 0

theorem mode_eq (i : Nat) : s.mode i = some (s.word i, s.xsize) := by
  obtain h | h := s.depth
  · simp [mode, word, xsize, h]
  · simp [mode, word, xsize, h]

theorem paints_pattern : Paints s.xsize s.h (fun _ y => s.word (6 * y / s.h)) s.pattern := by
  have hrow : s.patternRow = fun y => (List.range s.xsize).map fun x => (y * s.xsize + x, s.word (6 * y / s.h)) := by
    funext y
    rw [patternRow, mode_eq]
  rw [pattern, hrow]
  exact paints_rows s.xsize s.h fun _ y => s.word (6 * y / s.h)

theorem paints_fill_word (i : Nat) : Paints s.xsize s.h (fun _ _ => s.word i) (s.fill i) := by
  rw [fill, mode_eq]
  exact paints_fill s.xsize s.h (s.word i)

theorem size_eq : s.size = s.h * (s.w * (s.bpp / 8)) := by
  obtain h | h := s.depth
  · rw [size, h, Nat.mul_div_assoc _ (by decide), Nat.mul_assoc]
  · rw [size, h, Nat.mul_div_assoc _ (by decide), Nat.mul_assoc]

theorem row_eq : s.w * s.bpp / 8 = s.w * (s.bpp / 8) := by
  obtain h | h := s.depth
  · rw [h, Nat.mul_div_assoc _ (by decide)]
  · rw [h, Nat.mul_div_assoc _ (by decide)]

/-- The words of a row end within the row. -/
theorem words_row_le : 4 * s.xsize ≤ s.w * (s.bpp / 8) := by
  obtain h | h := s.depth
  · rw [xsize, h, if_pos rfl]
    omega
  · rw [xsize, h, if_neg (by decide)]
    omega

theorem words_le : 4 * (s.h * s.xsize) ≤ s.size := by
  rw [size_eq, Nat.mul_left_comm]
  exact Nat.mul_le_mul_left s.h s.words_row_le

theorem inside {ps : List (Nat × U32)} {color : Nat → Nat → U32} (h : Paints s.xsize s.h color ps) :
    ∀ p ∈ ps, 4 * p.1 + 4 ≤ s.size := by
  intro p hp
  have hlt := h.lt p hp
  have hle := s.words_le
  omega

/-- `i * xsize + j` and `j` are `int`s. -/
theorem index_lt {ps : List (Nat × U32)} {color : Nat → Nat → U32} (h : Paints s.xsize s.h color ps) :
    ∀ p ∈ ps, p.1 < 2 ^ 31 := by
  intro p hp
  have hinside := s.inside h p hp
  have hfits := s.fits
  rw [size, Nat.mul_comm s.h] at hinside
  omega

theorem band_lt {y : Nat} (hy : y < s.h) : 6 * y / s.h < 6 := by
  apply Nat.div_lt_of_lt_mul
  omega

/-! ## The pixels -/

/-- The rows of the stores are the rows of the screen. -/
def Whole : Prop := s.bpp = 32 ∨ s.w % 2 = 0

/-- Two equal pixels in a word. -/
theorem word_halves {i : Nat} (hbpp : s.bpp = 16) (hi : i < 6) :
    (s.word i).toNat % 2 ^ 16 = s.color i ∧ (s.word i).toNat / 2 ^ 16 = s.color i := by
  have hcolors : ∀ i < 6, ((color16.getD i 0 <<< 16) ||| color16.getD i 0).toNat % 2 ^ 16 = (color16.getD i 0).toNat ∧
      ((color16.getD i 0 <<< 16) ||| color16.getD i 0).toNat / 2 ^ 16 = (color16.getD i 0).toNat := by decide
  rw [word, color, if_pos hbpp, if_pos hbpp]
  exact hcolors i hi

/-- Two pixels are in a word. -/
theorem pixel_of_depth16 {ps : List (Nat × U32)} {index : Nat → Nat} {mem : Nat → Byte} {x y : Nat} (hbpp : s.bpp = 16)
    (heven : s.w % 2 = 0) (hpaints : Paints s.xsize s.h (fun _ y => s.word (index y)) ps) (hindex : index y < 6)
    (hy : y < s.h) (hx : x < s.w) : s.pixel (write mem (wordWrites ps)) x y = s.color (index y) := by
  have hxsize : s.w = 2 * s.xsize := by
    rw [xsize, if_pos hbpp]
    omega
  have haddr : y * (s.w * (16 / 8)) + x * (16 / 8) = 4 * (y * s.xsize) + 2 * x := by
    rw [hxsize]
    show y * (2 * s.xsize * 2) + x * 2 = _
    rw [Nat.mul_right_comm 2, Nat.mul_left_comm y, Nat.mul_comm x]
  obtain ⟨hlow, hhigh⟩ := leAt_halves (hpaints.holds mem (show x / 2 < s.xsize by omega) hy)
  obtain ⟨hword, hword'⟩ := s.word_halves hbpp hindex
  rw [pixel, row_eq, hbpp, haddr]
  obtain hq | hq : x % 2 = 0 ∨ x % 2 = 1 := by omega
  · rw [show 4 * (y * s.xsize) + 2 * x = 4 * (y * s.xsize + x / 2) by omega]
    exact hlow.trans hword
  · rw [show 4 * (y * s.xsize) + 2 * x = 4 * (y * s.xsize + x / 2) + 2 by omega]
    exact hhigh.trans hword'

theorem pixel_of_depth32 {ps : List (Nat × U32)} {index : Nat → Nat} {mem : Nat → Byte} {x y : Nat} (hbpp : s.bpp = 32)
    (hpaints : Paints s.xsize s.h (fun _ y => s.word (index y)) ps) (hy : y < s.h) (hx : x < s.w) :
    s.pixel (write mem (wordWrites ps)) x y = s.color (index y) := by
  have hxsize : s.xsize = s.w := by
    rw [xsize, if_neg (by omega)]
  have haddr : y * (s.w * (32 / 8)) + x * (32 / 8) = 4 * (y * s.xsize + x) := by
    show y * (s.w * 4) + x * 4 = _
    rw [hxsize, Nat.mul_comm x, Nat.mul_comm s.w, Nat.mul_left_comm, Nat.mul_add]
  rw [pixel, row_eq, hbpp, haddr]
  rw [← hxsize] at hx
  refine (leAt_wordBytes (hpaints.holds mem hx hy)).trans ?_
  rw [word, color, if_neg (by omega), if_neg (by omega)]

/-- A picture is on the screen where its rows are those of the screen. -/
theorem pixel_of_paints {ps : List (Nat × U32)} {mem : Nat → Byte} {x y : Nat} (index : Nat → Nat) (hwhole : s.Whole)
    (hpaints : Paints s.xsize s.h (fun _ y => s.word (index y)) ps) (hindex : index y < 6) (hy : y < s.h) (hx : x < s.w) :
    s.pixel (write mem (wordWrites ps)) x y = s.color (index y) := by
  obtain hbpp | hbpp := s.depth
  · exact s.pixel_of_depth16 hbpp (hwhole.resolve_left (by omega)) hpaints hindex hy hx
  · exact s.pixel_of_depth32 hbpp hpaints hy hx

theorem correct_of_whole (hwhole : s.Whole) (mem : Nat → Byte) : s.Correct mem where
  pattern_inside := s.inside s.paints_pattern
  fill_inside i := s.inside (s.paints_fill_word i)
  band _ hy := s.band_lt hy
  pattern _ hy _ hx := s.pixel_of_paints (fun y => 6 * y / s.h) hwhole s.paints_pattern (s.band_lt hy) hy hx
  fills i hi _ hy _ hx := s.pixel_of_paints (fun _ => i) hwhole (s.paints_fill_word i) hi hy hx

/-! ## The last pixel -/

/-- Where two pixels go into a word and one is left over, the last pixel of the screen is behind all words. -/
theorem last_outside {ps : List (Nat × U32)} {color : Nat → Nat → U32} (hodd : ¬ s.Whole)
    (hpaints : Paints s.xsize s.h color ps) (mem : Nat → Byte) :
    s.pixel (write mem (wordWrites ps)) (s.w - 1) (s.h - 1) = s.pixel mem (s.w - 1) (s.h - 1) := by
  have hbpp : s.bpp = 16 := s.depth.resolve_right fun h => hodd (Or.inl h)
  have hw : s.w = 2 * s.xsize + 1 := by
    have hmod : s.w % 2 ≠ 0 := fun h => hodd (Or.inr h)
    rw [xsize, if_pos hbpp]
    omega
  obtain ⟨h', hh⟩ : ∃ h', s.h = h' + 1 := ⟨s.h - 1, by have := s.h_pos; omega⟩
  rw [pixel, pixel, row_eq, hbpp, hw, hh, Nat.add_sub_cancel, Nat.add_sub_cancel]
  apply leAt_congr
  intro i _
  apply hpaints.outside
  have hrow : h' * ((2 * s.xsize + 1) * 2) = 4 * (h' * s.xsize) + 2 * h' := by
    rw [show (2 * s.xsize + 1) * 2 = 4 * s.xsize + 2 by omega, Nat.mul_add, Nat.mul_left_comm, Nat.mul_comm h' 2]
  show 4 * (s.h * s.xsize) ≤ h' * ((2 * s.xsize + 1) * 2) + 2 * s.xsize * 2 + i
  rw [hrow, hh, Nat.add_mul, Nat.one_mul]
  omega

/-- No fill changes it. -/
theorem last_shown (hodd : ¬ s.Whole) (mem : Nat → Byte) (n : Nat) :
    s.pixel (s.shown mem n) (s.w - 1) (s.h - 1) = s.pixel mem (s.w - 1) (s.h - 1) := by
  induction n with
  | zero => exact s.last_outside hodd s.paints_pattern mem
  | succ n ih => exact (s.last_outside hodd (s.paints_fill_word n) (s.shown mem n)).trans ih

theorem whole_of_correct {mem : Nat → Byte} (h : s.Correct mem) : s.Whole := by
  by_contra hodd
  have hw := s.w_pos
  have hh := s.h_pos
  have hfill : ∀ i < 6, s.pixel mem (s.w - 1) (s.h - 1) = s.color i := by
    intro i hi
    rw [← s.last_shown hodd mem (i + 1)]
    exact h.fills i hi (s.h - 1) (by omega) (s.w - 1) (by omega)
  -- it would have the colours of two fills
  have hcolor : s.color 0 = s.color 1 := (hfill 0 (by decide)).symm.trans (hfill 1 (by decide))
  have hbpp : s.bpp = 16 := s.depth.resolve_right fun h => hodd (Or.inl h)
  rw [color, color, if_pos hbpp, if_pos hbpp] at hcolor
  revert hcolor
  decide

end Screen

/-- **The screens that are filled.** All with 32 bits per pixel; with 16 bits those of an even width, whatever was on the
screen before. -/
theorem correct_iff (s : Screen) (mem : Nat → Byte) : s.Correct mem ↔ s.bpp = 32 ∨ s.w % 2 = 0 :=
  ⟨s.whole_of_correct, fun h => s.correct_of_whole h mem⟩

/-- Three rows of three pixels. -/
def three : Screen where
  w := 3
  h := 3
  bpp := 16
  w_pos := by omega
  h_pos := by omega
  depth := Or.inl rfl
  fits := by omega

/-- The last one stays as it is. -/
theorem not_correct_three : ¬ three.Correct fun _ => 0 := by
  intro h
  obtain hbpp | heven := three.whole_of_correct h
  · cases hbpp
  · cases heven

end SysSnippets.Fbdev
