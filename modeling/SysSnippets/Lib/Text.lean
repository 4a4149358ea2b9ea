import Mathlib.Algebra.Group.Int.Defs
import Mathlib.Algebra.Group.Nat.Defs
import Mathlib.Data.Fin.Basic
import Mathlib.Data.List.TakeWhile

/-!
# Text: strings in buffers, `printf("%d")`, `sscanf` and UTF-8

* `cstr b` : the string at the start of a buffer, up to its first NUL;
* `zeroPad n t` : a zeroed buffer of `n` bytes after `snprintf(buf, n, ...)` of the text `t`;
* `decimal`, `printD` : what `%d` prints for a natural number and for a 32-bit word;
* `scanD`, `scanS`, `sscanf` : the conversions `%d` and `%s` and a whole format (C locale, LP64:
  `%d` goes through a 64-bit `long` and stores its low 32 bits), as the list of converted items;
* `scanD_printD` : reading back a printed word gives the word;
* `validUtf8` : whether a text is UTF-8.
-/

namespace SysSnippets.Lib

/-- A byte of a buffer (`char`). -/
abbrev Byte := UInt8

/-- A 32-bit word (`int` or `uint32_t`). -/
abbrev U32 := BitVec 32

/-- A character as a byte. -/
def ch (c : Char) : Byte := UInt8.ofNat c.toNat

/-! ## Strings in buffers -/

/-- The string at the start of a buffer. -/
def cstr (b : List Byte) : List Byte := b.takeWhile (· ≠ 0)

/-- A zeroed buffer of `n` bytes that `snprintf` has printed `t` into. -/
def zeroPad (n : Nat) (t : List Byte) : List Byte :=
  t.take (n - 1) ++ List.replicate (n - min t.length (n - 1)) 0

theorem length_zeroPad {n : Nat} (hn : 0 < n) (t : List Byte) : (zeroPad n t).length = n := by
  simp only [zeroPad, List.length_append, List.length_take, List.length_replicate]
  omega

theorem zero_mem_zeroPad {n : Nat} (hn : 0 < n) (t : List Byte) : (0 : Byte) ∈ zeroPad n t := by
  refine List.mem_append_right _ (List.mem_replicate.2 ⟨?_, rfl⟩)
  omega

theorem cstr_append_zero {t r : List Byte} (ht : (0 : Byte) ∉ t) : cstr (t ++ 0 :: r) = t := by
  unfold cstr
  rw [List.takeWhile_append_of_pos]
  · simp
  · intro b hb
    simp only [ne_eq, decide_eq_true_eq]
    rintro rfl
    exact ht hb

/-- What a reader finds in the buffer is the text that was printed into it. -/
theorem cstr_zeroPad {n : Nat} {t : List Byte} (hlen : t.length < n) (ht : (0 : Byte) ∉ t) :
    cstr (zeroPad n t) = t := by
  have hmin : min t.length (n - 1) = t.length := by omega
  have hrep : n - t.length = (n - t.length - 1) + 1 := by omega
  rw [zeroPad, hmin, List.take_of_length_le (by omega), hrep, List.replicate_succ]
  exact cstr_append_zero ht

/-! ## Printing -/

/-- The decimal digits of a natural number. -/
def decimal (n : Nat) : List Byte := (Nat.toDigits 10 n).map ch

/-- `printf("%d", v)`. -/
def printD (v : U32) : List Byte :=
  if v.toInt < 0 then ch '-' :: decimal v.toInt.natAbs else decimal v.toInt.natAbs

/-! ## Scanning -/

/-- `isspace` in the C locale. -/
def isSpace (b : Byte) : Bool := b = 32 || (9 ≤ b && b ≤ 13)

/-- `isdigit`. -/
def isDigit (b : Byte) : Bool := 48 ≤ b && b ≤ 57

/-- The value of a digit string. -/
def digitsValue (l : List Byte) : Nat := l.foldl (fun n b => 10 * n + (b.toNat - 48)) 0

/-- An optional sign: whether it is a minus, and what follows it. -/
def takeSign : List Byte → Bool × List Byte
  | [] => (false, [])
  | b :: t => if b = ch '-' then (true, t) else if b = ch '+' then (false, t) else (false, b :: t)

/-- `strtol` saturates at the bounds of `long`. -/
def clampLong (z : Int) : Int := max (-2 ^ 63) (min z (2 ^ 63 - 1))

/-- The conversion `%d`. -/
def scanD (t : List Byte) : Option (U32 × List Byte) :=
  let (neg, t) := takeSign (t.dropWhile isSpace)
  let ds := t.takeWhile isDigit
  if ds = [] then none
  else
    let z : Int := if neg then -(digitsValue ds : Int) else digitsValue ds
    some (BitVec.ofInt 32 (clampLong z), t.dropWhile isDigit)

/-- The conversion `%s`. -/
def scanS (t : List Byte) : Option (List Byte × List Byte) :=
  let t := t.dropWhile isSpace
  let w := t.takeWhile (!isSpace ·)
  if w = [] then none else some (w, t.dropWhile (!isSpace ·))

/-- One element of a format. -/
inductive Directive
  | d
  | s
  | lit (b : Byte)
  deriving DecidableEq

/-- One converted item. -/
inductive Item
  | int (v : U32)
  | str (w : List Byte)
  deriving DecidableEq, Repr

/-- `sscanf`: the items converted before the first directive that does not match. -/
def sscanf : List Directive → List Byte → List Item
  | [], _ => []
  | .d :: fmt, t =>
      match scanD t with
      | none => []
      | some (v, t) => .int v :: sscanf fmt t
  | .s :: fmt, t =>
      match scanS t with
      | none => []
      | some (w, t) => .str w :: sscanf fmt t
  | .lit _ :: _, [] => []
  | .lit b :: fmt, c :: t => if c = b then sscanf fmt t else []

/-- What a `%d` argument holds after the scan: item `k`, or its old value. -/
def intItem (items : List Item) (k : Nat) (old : U32) : U32 :=
  match items[k]? with
  | some (.int v) => v
  | _ => old

/-! ## Digits -/

theorem ch_toNat {c : Char} (h : c.isDigit) : (ch c).toNat = c.toNat := by
  have : c.toNat ≤ 57 := by
    simp only [Char.isDigit, Bool.and_eq_true, decide_eq_true_eq] at h
    exact h.2
  simp only [ch, UInt8.toNat_ofNat']
  omega

theorem isDigit_ch {c : Char} (h : c.isDigit) : isDigit (ch c) = true := by
  have hb := ch_toNat h
  simp only [Char.isDigit, Bool.and_eq_true, decide_eq_true_eq] at h
  have h1 : 48 ≤ c.toNat := h.1
  have h2 : c.toNat ≤ 57 := h.2
  simp only [isDigit, Bool.and_eq_true, decide_eq_true_eq, UInt8.le_iff_toNat_le, hb]
  exact ⟨h1, h2⟩

theorem isDigit_of_mem_decimal {n : Nat} {b : Byte} (hb : b ∈ decimal n) : isDigit b = true := by
  obtain ⟨c, hc, rfl⟩ := List.mem_map.1 hb
  exact isDigit_ch (Nat.isDigit_of_mem_toDigits (by decide) (by decide) hc)

theorem decimal_ne_nil (n : Nat) : decimal n ≠ [] := by
  simp [decimal, Nat.toDigits_ne_nil]

theorem foldl_digits (l : List Char) (hl : ∀ c ∈ l, c.isDigit) (n : Nat) :
    (l.map ch).foldl (fun n b => 10 * n + (b.toNat - 48)) n = Nat.ofDigitChars 10 l n := by
  induction l generalizing n with
  | nil => simp
  | cons c l ih =>
      simp only [List.map_cons, List.foldl_cons, Nat.ofDigitChars_cons, ch_toNat (hl c (by simp))]
      exact ih (fun c hc => hl c (by simp [hc])) _

theorem digitsValue_decimal (n : Nat) : digitsValue (decimal n) = n := by
  unfold digitsValue decimal
  rw [foldl_digits _ fun c hc => Nat.isDigit_of_mem_toDigits (by decide) (by decide) hc]
  exact Nat.ofDigitChars_ten_toDigits

theorem isSpace_of_isDigit {b : Byte} (h : isDigit b = true) : isSpace b = false := by
  simp only [isDigit, Bool.and_eq_true, decide_eq_true_eq, UInt8.le_iff_toNat_le] at h
  have h48 : 48 ≤ b.toNat := h.1
  simp only [isSpace, Bool.or_eq_false_iff, Bool.and_eq_false_iff, decide_eq_false_iff_not,
    UInt8.le_iff_toNat_le]
  refine ⟨?_, Or.inr ?_⟩
  · rintro rfl
    exact absurd h48 (by decide)
  · have : (13 : UInt8).toNat = 13 := rfl
    omega

theorem ne_ch_of_isDigit {b : Byte} {c : Char} (h : isDigit b = true) (hc : isDigit (ch c) = false) :
    b ≠ ch c := by
  rintro rfl
  rw [h] at hc
  cases hc

/-! ## Reading back what was printed -/

theorem clampLong_of_word (v : U32) : clampLong v.toInt = v.toInt := by
  have h1 := BitVec.le_toInt v
  have h2 := BitVec.toInt_lt (x := v)
  unfold clampLong
  omega

/-- `rest` does not go on with a digit. -/
def NoDigit (rest : List Byte) : Prop := ∀ b ∈ rest.head?, isDigit b = false

@[simp] theorem noDigit_nil : NoDigit [] := by simp [NoDigit]

theorem noDigit_cons {b : Byte} {t : List Byte} (h : isDigit b = false) : NoDigit (b :: t) := by
  intro x hx
  simp only [List.head?_cons, Option.mem_def, Option.some.injEq] at hx
  rw [← hx]
  exact h

theorem span_decimal (n : Nat) {rest : List Byte} (h : NoDigit rest) :
    (decimal n ++ rest).takeWhile isDigit = decimal n ∧
      (decimal n ++ rest).dropWhile isDigit = rest := by
  rw [List.takeWhile_append_of_pos fun b hb => isDigit_of_mem_decimal hb,
    List.dropWhile_append_of_pos fun b hb => isDigit_of_mem_decimal hb]
  cases rest with
  | nil => simp
  | cons b t =>
      have hb : isDigit b = false := h b (by simp)
      simp [hb]

/-- A decimal number is not taken for white space or for a sign. -/
theorem takeSign_decimal (n : Nat) (rest : List Byte) :
    takeSign ((decimal n ++ rest).dropWhile isSpace) = (false, decimal n ++ rest) := by
  obtain ⟨b, t, hbt⟩ := List.exists_cons_of_ne_nil (decimal_ne_nil n)
  have hb : isDigit b = true := isDigit_of_mem_decimal (n := n) (by rw [hbt]; simp)
  rw [hbt]
  simp only [List.cons_append, List.dropWhile_cons, isSpace_of_isDigit hb, Bool.false_eq_true,
    if_false, takeSign]
  rw [if_neg (ne_ch_of_isDigit hb (by decide)), if_neg (ne_ch_of_isDigit hb (by decide))]

theorem takeSign_minus (n : Nat) (rest : List Byte) :
    takeSign ((ch '-' :: (decimal n ++ rest)).dropWhile isSpace) = (true, decimal n ++ rest) := by
  have hspace : isSpace (ch '-') = false := by decide
  simp only [List.dropWhile_cons, hspace, Bool.false_eq_true, if_false, takeSign, if_true]

/-- **Reading back a printed word.** -/
theorem scanD_printD (v : U32) {rest : List Byte} (h : NoDigit rest) :
    scanD (printD v ++ rest) = some (v, rest) := by
  obtain ⟨htake, hdrop⟩ := span_decimal v.toInt.natAbs h
  have hword : BitVec.ofInt 32 (clampLong v.toInt) = v := by
    rw [clampLong_of_word, BitVec.ofInt_toInt]
  unfold scanD printD
  split_ifs with hneg
  · have hz : -(v.toInt.natAbs : Int) = v.toInt := by omega
    simp only [List.cons_append, takeSign_minus, htake, hdrop, decimal_ne_nil, if_false, if_true,
      digitsValue_decimal, hz, hword]
  · have hz : (v.toInt.natAbs : Int) = v.toInt := by omega
    simp only [takeSign_decimal, htake, hdrop, decimal_ne_nil, if_false, Bool.false_eq_true,
      digitsValue_decimal, hz, hword]

/-- A `%d` directive reads one printed word off the text. -/
theorem sscanf_d_printD (fmt : List Directive) (v : U32) {rest : List Byte} (h : NoDigit rest) :
    sscanf (.d :: fmt) (printD v ++ rest) = .int v :: sscanf fmt rest := by
  simp only [sscanf, scanD_printD v h]

@[simp] theorem sscanf_lit (fmt : List Directive) (b : Byte) (t : List Byte) :
    sscanf (.lit b :: fmt) (b :: t) = sscanf fmt t := by
  simp [sscanf]

@[simp] theorem sscanf_nil (t : List Byte) : sscanf [] t = [] := by
  simp [sscanf]

theorem zero_notMem_decimal (n : Nat) : (0 : Byte) ∉ decimal n := by
  intro h
  exact absurd (isDigit_of_mem_decimal h) (by decide)

theorem zero_notMem_printD (v : U32) : (0 : Byte) ∉ printD v := by
  have hminus : (0 : Byte) ≠ ch '-' := by decide
  unfold printD
  split_ifs <;> simp [hminus, zero_notMem_decimal]

theorem length_decimal_le_iff {n k : Nat} (hk : 0 < k) : (decimal n).length ≤ k ↔ n < 10 ^ k := by
  rw [decimal, List.length_map]
  exact Nat.length_toDigits_le_iff (by decide) hk

theorem length_decimal_le {n k : Nat} (hk : 0 < k) (h : n < 10 ^ k) : (decimal n).length ≤ k :=
  (length_decimal_le_iff hk).2 h

theorem decimal_inj {m n : Nat} (h : decimal m = decimal n) : m = n := by
  rw [← digitsValue_decimal m, h, digitsValue_decimal]

/-- `%d` prints a 32-bit word in at most 11 characters. -/
theorem length_printD_le (v : U32) : (printD v).length ≤ 11 := by
  have h1 := BitVec.le_toInt v
  have h2 := BitVec.toInt_lt (x := v)
  have hdec : (decimal v.toInt.natAbs).length ≤ 10 := length_decimal_le (by decide) (by omega)
  unfold printD
  split_ifs
  · simp only [List.length_cons]
    omega
  · omega

/-! ## Words -/

/-- A word of a text: not empty and without white space. -/
def IsWord (w : List Byte) : Prop := w ≠ [] ∧ ∀ b ∈ w, isSpace b = false

theorem scanS_word {w : List Byte} (hw : IsWord w) : scanS w = some (w, []) := by
  obtain ⟨b, t, rfl⟩ := List.exists_cons_of_ne_nil hw.1
  have hb : isSpace b = false := hw.2 b (by simp)
  have hall : ∀ x ∈ b :: t, (!isSpace x) = true := fun x hx => by simp [hw.2 x hx]
  have hskip : (b :: t).dropWhile isSpace = b :: t := by simp [hb]
  have htake : (b :: t).takeWhile (!isSpace ·) = b :: t := List.takeWhile_eq_self_iff.2 hall
  have hdrop : (b :: t).dropWhile (!isSpace ·) = [] := List.dropWhile_eq_nil_iff.2 hall
  unfold scanS
  simp only [hskip, htake, hdrop, reduceCtorEq, if_false]

/-- `%s` only ever stores words. -/
theorem isWord_of_scanS {t w r : List Byte} (h : scanS t = some (w, r)) : IsWord w := by
  unfold scanS at h
  dsimp only at h
  split_ifs at h with hnil
  simp only [Option.some.injEq, Prod.mk.injEq] at h
  obtain ⟨rfl, -⟩ := h
  refine ⟨hnil, fun b hb => ?_⟩
  simpa using List.mem_takeWhile_imp hb

/-! ## UTF-8 -/

def validUtf8 (bs : List Byte) : Bool := bs.toByteArray.validateUTF8

theorem validUtf8_nil : validUtf8 [] = true := by
  unfold validUtf8
  rw [ByteArray.validateUTF8_eq_true_iff]
  exact ⟨[], rfl⟩

end SysSnippets.Lib
