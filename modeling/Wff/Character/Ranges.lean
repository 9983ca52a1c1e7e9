/-!
# Wff.Character.Ranges — sets of code points as ascending ranges

A class of characters is stored as a list of inclusive ranges in ascending order.  `Ranges.covers`
looks a code point up and stops early; `Ranges.covers_iff` says that for ascending ranges this is
plain membership in one of them.
-/

namespace Wff.Character

/-- Inclusive ranges of code points. -/
abbrev Ranges := List (Nat × Nat)

namespace Ranges

/-- Is `n` in one of the ranges?  The search ends at the first range that begins after `n`. -/
def covers : Ranges → Nat → Bool
  | [], _ => false
  | (low, high) :: rest, n =>
    if n < low then false else if n ≤ high then true else covers rest n

def Ascending (ranges : Ranges) : Prop :=
  ranges.Pairwise fun r s => r.2 < s.1

theorem covers_of_covers_tail {r : Nat × Nat} {rest : Ranges} {n : Nat}
    (h : covers (r :: rest) n = true) : (r.1 ≤ n ∧ n ≤ r.2) ∨ covers rest n = true := by
  simp only [covers] at h
  split at h
  · cases h
  · split at h
    · exact .inl ⟨by omega, by assumption⟩
    · exact .inr h

/-- In ascending ranges, the early end of the search loses nothing. -/
theorem covers_iff {ranges : Ranges} (ascending : Ascending ranges)
    (ordered : ∀ r ∈ ranges, r.1 ≤ r.2) (n : Nat) :
    covers ranges n = true ↔ ∃ r ∈ ranges, r.1 ≤ n ∧ n ≤ r.2 := by
  induction ranges with
  | nil => simp [covers]
  | cons r rest ih =>
    have ih := ih ascending.of_cons (fun s hs => ordered s (List.mem_cons_of_mem _ hs))
    constructor
    · intro h
      rcases covers_of_covers_tail h with hr | hrest
      · exact ⟨r, List.mem_cons_self, hr⟩
      · obtain ⟨s, hs, hn⟩ := ih.1 hrest
        exact ⟨s, List.mem_cons_of_mem _ hs, hn⟩
    · rintro ⟨s, hs, low, high⟩
      have before : r.1 ≤ n := by
        rcases List.mem_cons.1 hs with rfl | hs
        · exact low
        · have := List.rel_of_pairwise_cons ascending hs
          have := ordered r List.mem_cons_self
          omega
      simp only [covers]
      rw [if_neg (by omega)]
      split
      · rfl
      · rcases List.mem_cons.1 hs with rfl | hs
        · contradiction
        · exact ih.2 ⟨s, hs, low, high⟩

end Ranges

end Wff.Character
