import Mathlib.Data.List.Basic
import Mathlib.Tactic.CasesM
import Mathlib.Tactic.SplitIfs
import Wff.Text

/-!
# Wff.Proofs.Bytes — texts in UTF-8

`Text.bytes` is what a text is stored as.  A byte below 128 is a character of its own and no part of
any other, so what ends lines is found among the bytes just where it stands in the text.  The order of the
bytes is the order of code points (`bytes_lt_iff`).
-/

namespace Wff

namespace Text

def bytes (text : Text) : List UInt8 := text.flatMap String.utf8EncodeChar

@[simp] theorem bytes_nil : bytes [] = [] := rfl

@[simp] theorem bytes_cons (c : Char) (text : Text) :
    bytes (c :: text) = String.utf8EncodeChar c ++ bytes text := rfl

@[simp] theorem bytes_append (a b : Text) : bytes (a ++ b) = bytes a ++ bytes b :=
  List.flatMap_append

@[simp] theorem length_bytes (text : Text) : (bytes text).length = byteLength text := by
  induction text with
  | nil => rfl
  | cons c text ih => rw [bytes_cons, List.length_append, ih, String.length_utf8EncodeChar,
      byteLength_cons]

theorem bytes_eq_nil_iff {text : Text} : bytes text = [] ↔ text = [] := by
  cases text with
  | nil => simp
  | cons c text =>
    have hlength := String.length_utf8EncodeChar c
    have hpos := c.utf8Size_pos
    simp only [bytes_cons, List.append_eq_nil_iff, reduceCtorEq, iff_false, not_and]
    intro hnil
    rw [hnil] at hlength
    exact absurd hlength (Nat.ne_of_lt hpos)

/-! ### Characters of one byte -/

/-- A byte below 128 is all that its character takes. -/
theorem eq_of_mem_utf8EncodeChar {c : Char} {byte : UInt8} (h : byte ∈ String.utf8EncodeChar c)
    (hascii : byte.toNat < 128) : c = Char.ofNat byte.toNat := by
  have hcode : c.toNat = byte.toNat := by
    have hval : c.toNat = c.val.toNat := rfl
    simp only [String.utf8EncodeChar] at h
    split_ifs at h with hone htwo hthree
    · obtain rfl := List.mem_singleton.mp h
      rw [UInt8.toNat_ofNat']
      omega
    -- every byte of a longer character is 128 or more
    all_goals
      exfalso
      simp only [List.mem_cons, List.not_mem_nil, or_false] at h
      casesm* _ ∨ _ <;> (subst_vars; rw [UInt8.toNat_ofNat'] at hascii; omega)
  rw [← hcode, Char.ofNat_toNat]

theorem mem_of_mem_bytes {text : Text} {byte : UInt8} (h : byte ∈ bytes text)
    (hascii : byte.toNat < 128) : Char.ofNat byte.toNat ∈ text := by
  obtain ⟨c, hc, hbyte⟩ := List.mem_flatMap.mp h
  exact eq_of_mem_utf8EncodeChar hbyte hascii ▸ hc

theorem getLast?_of_getLast?_bytes {text : Text} {byte : UInt8}
    (h : (bytes text).getLast? = some byte) (hascii : byte.toNat < 128) :
    text.getLast? = some (Char.ofNat byte.toNat) := by
  rcases List.eq_nil_or_concat text with rfl | ⟨front, c, rfl⟩
  · cases h
  · have hc : bytes [c] ≠ [] := mt bytes_eq_nil_iff.mp (by simp)
    rw [List.concat_eq_append, bytes_append, List.getLast?_append_of_ne_nil _ hc, bytes_cons,
      bytes_nil, List.append_nil] at h
    rw [List.concat_eq_append, List.getLast?_concat,
      eq_of_mem_utf8EncodeChar (List.mem_of_getLast? h) hascii]

/-! ### Order -/

/-- The bytes hold a code point by its digits to the base 64. -/
theorem digits_eq (n : Nat) :
    n = 64 * (n / 64) + n % 64 ∧ n / 64 = 64 * (n / 4096) + n / 64 % 64 ∧
      n / 4096 = 64 * (n / 262144) + n / 4096 % 64 := by
  omega

/-- The bytes of different characters differ before either ends, as the characters do. -/
theorem utf8EncodeChar_lt {c d : Char} (h : c.toNat < d.toNat) (rest rest' : List UInt8) :
    String.utf8EncodeChar c ++ rest < String.utf8EncodeChar d ++ rest' := by
  have hc : c.val.toNat = c.toNat := rfl
  have hd : d.val.toNat = d.toNat := rfl
  have hmax : d.toNat < 1114112 := by
    have hvalid := d.valid
    simp only [UInt32.isValidChar, Nat.isValidChar] at hvalid
    omega
  simp only [String.utf8EncodeChar, hc, hd]
  generalize c.toNat = m at *
  generalize d.toNat = n at *
  have hm := digits_eq m
  have hn := digits_eq n
  split_ifs
  -- a longer character has a greater first byte, and one as long the first digit that differs
  all_goals
    simp only [List.cons_append, List.nil_append, List.cons_lt_cons_iff, UInt8.lt_iff_toNat_lt,
      ← UInt8.toNat_inj, UInt8.toNat_ofNat']
    simp (disch := omega) only [Nat.mod_eq_of_lt]
    omega

theorem bytes_lt_of_precedes {a b : Text} (h : precedes a b = true) : bytes a < bytes b := by
  rw [precedes_iff] at h
  induction h with
  | @nil c rest =>
    have hne : bytes (c :: rest) ≠ [] := mt bytes_eq_nil_iff.mp (List.cons_ne_nil c rest)
    obtain ⟨byte, others, hbytes⟩ := List.exists_cons_of_ne_nil hne
    rw [bytes_nil, hbytes]
    exact List.nil_lt_cons byte others
  | cons h ih => exact List.append_left_lt ih
  | rel hchars => exact utf8EncodeChar_lt hchars _ _

/-- Texts are ordered by their bytes as by their code points. -/
theorem bytes_lt_iff {a b : Text} : bytes a < bytes b ↔ precedes a b = true := by
  refine ⟨fun h => ?_, bytes_lt_of_precedes⟩
  rcases precedes_trichotomy a b with hlt | rfl | hgt
  · exact hlt
  · exact absurd h (List.lt_irrefl _)
  · exact absurd h (List.lt_asymm (bytes_lt_of_precedes hgt))

end Text

end Wff
