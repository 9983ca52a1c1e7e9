import Wff.Character.Classes

/-!
# Wff.Proofs.Characters — how the classes of characters relate

The classes are tables of code points, so their relations are checked on the tables.  The only range
gone through point by point is the smallest one, white space.
-/

namespace Wff.Character

theorem Ranges.exists_of_covers {ranges : Ranges} {n : Nat} (h : ranges.covers n = true) :
    ∃ r ∈ ranges, ∃ k < r.2 + 1 - r.1, n = r.1 + k := by
  induction ranges with
  | nil => cases h
  | cons r rest ih =>
    rcases covers_of_covers_tail h with ⟨hlow, hhigh⟩ | hrest
    · exact ⟨r, List.mem_cons_self, n - r.1, by omega, by omega⟩
    · obtain ⟨s, hs, hn⟩ := ih hrest
      exact ⟨s, List.mem_cons_of_mem _ hs, hn⟩

theorem continuesWord_eq_false_of_isBlank {c : Char} (h : isBlank c = true) :
    continuesWord c = false := by
  obtain ⟨r, hr, k, hk, hc⟩ := Ranges.exists_of_covers h
  have hall : ∀ r ∈ blankRanges, ∀ k < r.2 + 1 - r.1,
      letterRanges.covers (r.1 + k) = false ∧ numberRanges.covers (r.1 + k) = false ∧
        r.1 + k ≠ '_'.toNat := by
    decide +kernel
  obtain ⟨hletter, hnumber, hunderscore⟩ := hall r hr k hk
  rw [← hc] at hletter hnumber hunderscore
  have hne : c ≠ '_' := fun heq => hunderscore (heq ▸ rfl)
  simp [continuesWord, startsWord, isLetter, isNumber, hletter, hnumber, hne]

theorem isBlank_eq_false_of_continuesWord {c : Char} (h : continuesWord c = true) :
    isBlank c = false := by
  cases hblank : isBlank c with
  | false => rfl
  | true =>
    rw [continuesWord_eq_false_of_isBlank hblank] at h
    cases h

theorem startsWord_eq_false {c : Char} (h : continuesWord c = false) : startsWord c = false := by
  cases hstart : startsWord c with
  | false => rfl
  | true =>
    rw [continuesWord_of_startsWord hstart] at h
    cases h

/-- The underscore is the only character of words that is not alphanumeric. -/
theorem isAlphanumeric_or_eq_of_continuesWord {c : Char} (h : continuesWord c = true) :
    isAlphanumeric c = true ∨ c = '_' := by
  rcases Bool.or_eq_true_iff.mp h with hstart | hnumber
  · rcases Bool.or_eq_true_iff.mp hstart with hletter | hunderscore
    · exact Or.inl (isAlphanumeric_of_isLetter hletter)
    · exact Or.inr (beq_iff_eq.mp hunderscore)
  · exact Or.inl (isAlphanumeric_of_isNumber hnumber)

end Wff.Character
