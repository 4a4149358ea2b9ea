import SysSnippets.Lib.Text

/-!
# Bytes in hexadecimal

* `hex02` : what `"%02x"` prints;
* `words` : the words of a text between white space (`words_blocks`);
* `readHex` : the bytes of a text, each a word of two digits behind an optional `0x`;
* `readHex_blocks` : a text of one word for each byte is read back exactly if each word is read as its byte.
-/

namespace SysSnippets.Lib

def hexDigit (n : Nat) : Byte := ch (Nat.digitChar n)

/-- `"%x"` -/
def hex (n : Nat) : List Byte := (Nat.toDigits 16 n).map ch

/-- `"%02x"` -/
def hex02 (n : Nat) : List Byte := List.replicate (2 - (hex n).length) (ch '0') ++ hex n

/-- The value of a digit, in either case. -/
def hexValue (b : Byte) : Option Nat :=
  if 48 ≤ b.toNat ∧ b.toNat ≤ 57 then some (b.toNat - 48)
  else if 97 ≤ b.toNat ∧ b.toNat ≤ 102 then some (b.toNat - 87)
  else if 65 ≤ b.toNat ∧ b.toNat ≤ 70 then some (b.toNat - 55)
  else none

/-- The words of a text. -/
def words (s : List Byte) : List (List Byte) := (s.splitOnP isSpace).filter (· ≠ [])

/-- A word without the prefix `0x`. -/
def stripHex : List Byte → List Byte
  | a :: b :: w => if a = ch '0' ∧ b = ch 'x' then w else a :: b :: w
  | w => w

/-- A byte of two digits. -/
def readByte (w : List Byte) : Option Byte :=
  match stripHex w with
  | [a, b] => (hexValue a).bind fun x => (hexValue b).map fun y => UInt8.ofNat (16 * x + y)
  | _ => none

def readHex (s : List Byte) : Option (List Byte) := (words s).mapM readByte

/-! ## Words -/

section Words
variable {w : List Byte} {c : Byte} {rest : List Byte}

theorem words_space (hc : isSpace c = true) : words (c :: rest) = words rest := by
  unfold words
  rw [show c :: rest = [] ++ c :: rest from rfl, List.splitOnP_append_cons_of_forall_mem (by simp) c hc]
  rfl

theorem words_cons (hw : IsWord w) (hc : isSpace c = true) : words (w ++ c :: rest) = w :: words rest := by
  unfold words
  rw [List.splitOnP_append_cons_of_forall_mem hw.2 c hc, List.filter_cons_of_pos (by simpa using hw.1)]

theorem words_spaces {sep : List Byte} (hsep : ∀ b ∈ sep, isSpace b = true) : words (sep ++ rest) = words rest := by
  induction sep with
  | nil => rfl
  | cons c sep ih =>
      rw [List.cons_append, words_space (hsep c List.mem_cons_self)]
      exact ih fun b hb => hsep b (List.mem_cons_of_mem _ hb)

/-- A text of words, each with white space behind it. -/
theorem words_blocks {β : Type*} (word sep : β → List Byte) (xs : List β) (hword : ∀ x ∈ xs, IsWord (word x))
    (hsep : ∀ x ∈ xs, sep x ≠ [] ∧ ∀ b ∈ sep x, isSpace b = true) (rest : List Byte) :
    words (xs.flatMap (fun x => word x ++ sep x) ++ rest) = xs.map word ++ words rest := by
  induction xs with
  | nil => rfl
  | cons x xs ih =>
      obtain ⟨hne, hspace⟩ := hsep x List.mem_cons_self
      obtain ⟨c, cs, hcs⟩ := List.exists_cons_of_ne_nil hne
      rw [List.flatMap_cons, List.append_assoc, List.append_assoc, hcs, List.cons_append,
        words_cons (hword x List.mem_cons_self) (hspace c (by rw [hcs]; exact List.mem_cons_self)),
        words_spaces fun b hb => hspace b (by rw [hcs]; exact List.mem_cons_of_mem _ hb),
        ih (fun y hy => hword y (List.mem_cons_of_mem _ hy)) fun y hy => hsep y (List.mem_cons_of_mem _ hy)]
      rfl

end Words

theorem mapM_map_iff {α β γ : Type*} {f : α → Option γ} {g : β → α} {h : β → γ} {xs : List β} :
    (xs.map g).mapM f = some (xs.map h) ↔ ∀ x ∈ xs, f (g x) = some (h x) := by
  induction xs with
  | nil => simp
  | cons x xs ih =>
      rw [List.map_cons, List.map_cons, List.mapM_cons, List.forall_mem_cons]
      show ((f (g x)).bind fun y => ((xs.map g).mapM f).bind fun ys => some (y :: ys)) = _ ↔ _
      rw [Option.bind_eq_some_iff]
      constructor
      · rintro ⟨y, hy, hrest⟩
        obtain ⟨ys, hys, heq⟩ := Option.bind_eq_some_iff.1 hrest
        cases heq
        exact ⟨hy, ih.1 hys⟩
      · rintro ⟨hx, hxs⟩
        exact ⟨h x, hx, Option.bind_eq_some_iff.2 ⟨xs.map h, ih.2 hxs, rfl⟩⟩

/-! ## Digits -/

theorem hexValue_hexDigit {n : Nat} (h : n < 16) : hexValue (hexDigit n) = some n := by
  have hall : ∀ i : Fin 16, hexValue (hexDigit i) = some i.val := by decide
  exact hall ⟨n, h⟩

theorem hexDigit_ne {n : Nat} (h : n < 16) : isSpace (hexDigit n) = false ∧ hexDigit n ≠ ch 'x' := by
  have hall : ∀ i : Fin 16, isSpace (hexDigit i) = false ∧ hexDigit i ≠ ch 'x' := by decide
  exact hall ⟨n, h⟩

/-- A byte is printed as two digits. -/
theorem hex02_byte {n : Nat} (h : n < 256) : hex02 n = [hexDigit (n / 16), hexDigit (n % 16)] := by
  unfold hex02 hex
  rw [Nat.toDigits_eq_if (by omega)]
  split_ifs with hsmall
  · rw [Nat.div_eq_of_lt hsmall, Nat.mod_eq_of_lt hsmall]
    rfl
  · rw [Nat.toDigits_of_lt_base (show n / 16 < 16 by omega)]
    rfl

/-- A larger number is printed as more. -/
theorem length_hex02 {n : Nat} (h : 256 ≤ n) : 2 < (hex02 n).length := by
  have hlen : ¬(Nat.toDigits 16 n).length ≤ 2 := by
    rw [Nat.length_toDigits_le_iff (by omega) (by omega)]
    omega
  unfold hex02 hex
  rw [List.length_append, List.length_map]
  omega

theorem mem_hex {n : Nat} {b : Byte} (h : b ∈ hex n) : ∃ d < 16, b = hexDigit d := by
  induction n using Nat.strongRecOn with
  | ind n ih =>
      unfold hex at h
      rw [Nat.toDigits_eq_if (by omega)] at h
      split_ifs at h with hsmall
      · exact ⟨n, hsmall, List.mem_singleton.1 h⟩
      · rw [List.map_append, List.mem_append] at h
        rcases h with h | h
        · exact ih (n / 16) (by omega) h
        · exact ⟨n % 16, by omega, List.mem_singleton.1 h⟩

theorem isWord_hex02 (n : Nat) : IsWord (hex02 n) := by
  unfold hex02
  refine ⟨fun hnil => ?_, fun b hb => ?_⟩
  · exact Nat.toDigits_ne_nil (List.map_eq_nil_iff.1 (List.append_eq_nil_iff.1 hnil).2)
  · rcases List.mem_append.1 hb with hb | hb
    · rw [List.eq_of_mem_replicate hb]
      decide
    · obtain ⟨d, hd, rfl⟩ := mem_hex hb
      exact (hexDigit_ne hd).1

/-- With a prefix. -/
theorem isWord_prefixed (n : Nat) : IsWord (ch '0' :: ch 'x' :: hex02 n) := by
  refine ⟨List.cons_ne_nil _ _, ?_⟩
  simp only [List.forall_mem_cons]
  exact ⟨by decide, by decide, (isWord_hex02 n).2⟩

/-! ## Reading bytes back -/

theorem readByte_pair {n : Nat} (h : n < 256) {w : List Byte} (hw : stripHex w = [hexDigit (n / 16), hexDigit (n % 16)]) :
    readByte w = some (UInt8.ofNat n) := by
  unfold readByte
  rw [hw]
  dsimp only
  rw [hexValue_hexDigit (by omega), hexValue_hexDigit (by omega)]
  show some (UInt8.ofNat (16 * (n / 16) + n % 16)) = _
  rw [Nat.div_add_mod n 16]

theorem readByte_hex02 (b : Byte) : readByte (hex02 b.toNat) = some b := by
  have hlt := b.toNat_lt
  rw [hex02_byte hlt, readByte_pair hlt, UInt8.ofNat_toNat]
  exact if_neg fun h => (hexDigit_ne (show b.toNat % 16 < 16 by omega)).2 h.2

/-- Behind a prefix a number is read as a byte if it is one. -/
theorem readByte_prefixed (n : Nat) :
    readByte (ch '0' :: ch 'x' :: hex02 n) = if n < 256 then some (UInt8.ofNat n) else none := by
  have hstrip : stripHex (ch '0' :: ch 'x' :: hex02 n) = hex02 n := by
    simp [stripHex]
  split_ifs with h
  · exact readByte_pair h (by rw [hstrip, hex02_byte h])
  · unfold readByte
    have hlen := length_hex02 (show 256 ≤ n by omega)
    rw [hstrip]
    split
    · next heq =>
      rw [heq] at hlen
      exact absurd hlen (lt_irrefl 2)
    · rfl

/-- A text of a word for each of some bytes. -/
theorem readHex_blocks {bs : List Byte} {word sep : Byte × Nat → List Byte} (i : Nat) (hword : ∀ x, IsWord (word x))
    (hsep : ∀ x, sep x ≠ [] ∧ ∀ b ∈ sep x, isSpace b = true) {rest : List Byte} (hrest : ∀ b ∈ rest, isSpace b = true) :
    readHex ((bs.zipIdx i).flatMap (fun x => word x ++ sep x) ++ rest) = some bs ↔
      ∀ x ∈ bs.zipIdx i, readByte (word x) = some x.1 := by
  have hend : words rest = [] := by
    rw [← List.append_nil rest, words_spaces hrest]
    rfl
  unfold readHex
  rw [words_blocks word sep _ (fun x _ => hword x) (fun x _ => hsep x), hend, List.append_nil]
  generalize hxs : bs.zipIdx i = xs
  have hbs : bs = xs.map Prod.fst := by
    rw [← hxs, List.zipIdx_map_fst]
  rw [hbs]
  clear hxs hbs
  exact mapM_map_iff

end SysSnippets.Lib
