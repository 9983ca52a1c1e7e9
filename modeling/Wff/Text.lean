/-!
# Wff.Text — texts and their length in bytes

A text is a list of code points.  Positions in it are byte offsets: the offset of a character is
the number of bytes that the characters before it take in UTF-8.
-/

namespace Wff

abbrev Text := List Char

namespace Text

/-- The number of bytes of the text in UTF-8. -/
def byteLength (text : Text) : Nat := text.foldl (fun n c => n + c.utf8Size) 0

def ofNat (n : Nat) : Text := Nat.toDigits 10 n

def blanks (n : Nat) : Text := List.replicate n ' '

/-- Does a text come before another in order of code points? -/
def precedes (a b : Text) : Bool := List.lex a b fun c d => decide (c.toNat < d.toNat)

/-! ### Order -/

theorem precedes_iff {a b : Text} :
    precedes a b = true ↔ List.Lex (fun c d : Char => c.toNat < d.toNat) a b := by
  simp [precedes, List.lex_eq_true_iff_lex]

theorem precedes_irrefl (a : Text) : precedes a a = false := by
  rw [Bool.eq_false_iff, ne_eq, precedes_iff]
  exact List.lex_irrefl (fun c => Nat.lt_irrefl c.toNat) a

theorem precedes_trans {a b c : Text} (hab : precedes a b = true) (hbc : precedes b c = true) :
    precedes a c = true := by
  rw [precedes_iff] at *
  exact List.lex_trans Nat.lt_trans hab hbc

theorem precedes_trichotomy (a b : Text) : precedes a b = true ∨ a = b ∨ precedes b a = true := by
  have hchars : ∀ c d : Char, ¬ c.toNat < d.toNat → ¬ d.toNat < c.toNat → c = d :=
    fun c d hcd hdc => Char.toNat_inj.mp (by omega)
  rw [precedes_iff, precedes_iff]
  by_cases hab : List.Lex (fun c d : Char => c.toNat < d.toNat) a b
  · exact Or.inl hab
  · by_cases hba : List.Lex (fun c d : Char => c.toNat < d.toNat) b a
    · exact Or.inr (Or.inr hba)
    · exact Or.inr (Or.inl (List.lex_trichotomous hchars hba hab))

theorem precedes_asymm {a b : Text} (h : precedes a b = true) : precedes b a = false := by
  rw [Bool.eq_false_iff]
  intro hba
  have hself := precedes_trans h hba
  rw [precedes_irrefl] at hself
  cases hself

theorem precedes_eq_false_trans {a b c : Text} (hab : precedes a b = false)
    (hbc : precedes b c = false) : precedes a c = false := by
  rcases precedes_trichotomy a b with hlt | rfl | hgt
  · rw [hab] at hlt
    cases hlt
  · exact hbc
  · rw [Bool.eq_false_iff]
    intro hac
    rw [precedes_trans hgt hac] at hbc
    cases hbc

theorem precedes_eq_false_or (a b : Text) : precedes a b = false ∨ precedes b a = false := by
  cases hab : precedes a b with
  | false => exact Or.inl rfl
  | true => exact Or.inr (precedes_asymm hab)

/-! ### Length -/

theorem foldl_utf8Size (text : Text) (n : Nat) :
    text.foldl (fun n c => n + c.utf8Size) n = n + byteLength text := by
  unfold byteLength
  induction text generalizing n with
  | nil => simp
  | cons c rest ih =>
    simp only [List.foldl_cons]
    rw [ih, ih (0 + c.utf8Size)]
    omega

@[simp] theorem byteLength_nil : byteLength [] = 0 := rfl

@[simp] theorem byteLength_cons (c : Char) (text : Text) :
    byteLength (c :: text) = c.utf8Size + byteLength text := by
  rw [byteLength, List.foldl_cons, foldl_utf8Size]
  omega

@[simp] theorem byteLength_append (a b : Text) :
    byteLength (a ++ b) = byteLength a + byteLength b := by
  induction a with
  | nil => simp
  | cons c a ih => simp [ih]; omega

theorem byteLength_pos {text : Text} (h : text ≠ []) : 0 < byteLength text := by
  cases text with
  | nil => exact absurd rfl h
  | cons c rest =>
    rw [byteLength_cons]
    exact Nat.add_pos_left c.utf8Size_pos _

/-- A text is split at a byte offset in one way only. -/
theorem append_inj_of_byteLength {a b a' b' : Text} (h : a ++ b = a' ++ b')
    (hlength : byteLength a = byteLength a') : a = a' ∧ b = b' := by
  rcases List.append_eq_append_iff.mp h with ⟨more, rfl, rfl⟩ | ⟨more, rfl, rfl⟩
  all_goals
    rw [byteLength_append] at hlength
    have hmore : more = [] := by
      by_cases hne : more = []
      · exact hne
      · have := byteLength_pos hne
        omega
    simp [hmore]

end Text

end Wff
