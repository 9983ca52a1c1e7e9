import Mathlib.Data.List.Basic
import Mathlib.Order.Bounds.Defs
import Wff.Text

/-!
# Wff.Proofs.Slicing — texts by byte offsets

A text is cut at a byte offset only where a character begins or the text ends (`Text.Boundary`), and a
slice exists only between two such offsets.  What exists is told by the parts of the text
(`splitBytes?_eq_some_iff`, `slice?_append`), and so is what stepping back and searching find.
-/

namespace Wff

namespace Text

/-! ### Byte offsets -/

/-- The text cut after so many bytes; none if the text is shorter or the cut is inside a character. -/
def splitBytes? : Nat → Text → Option (Text × Text)
  | 0, text => some ([], text)
  | _ + 1, [] => none
  | n + 1, c :: rest =>
    if c.utf8Size ≤ n + 1 then
      (splitBytes? (n + 1 - c.utf8Size) rest).map fun (front, back) => (c :: front, back)
    else none

def Boundary (text : Text) (offset : Nat) : Prop := (text.splitBytes? offset).isSome

instance (text : Text) (offset : Nat) : Decidable (text.Boundary offset) :=
  inferInstanceAs (Decidable (_ = true))

/-- The part between two byte offsets; none unless the text can be cut at both, in this order. -/
def slice? (text : Text) (start stop : Nat) : Option Text := do
  let (front, _) ← text.splitBytes? stop
  let (_, part) ← front.splitBytes? start
  return part

theorem splitBytes?_eq_some_iff {n : Nat} {text front back : Text} :
    text.splitBytes? n = some (front, back) ↔ text = front ++ back ∧ byteLength front = n := by
  fun_induction splitBytes? n text generalizing front with
  | case1 text =>
    constructor
    · intro h
      obtain ⟨rfl, rfl⟩ := Prod.mk.inj (Option.some.inj h)
      exact ⟨rfl, rfl⟩
    · rintro ⟨rfl, hlength⟩
      have hnil : front = [] := by
        by_contra hne
        have := byteLength_pos hne
        omega
      rw [hnil, List.nil_append]
  | case2 n =>
    constructor
    · intro h
      cases h
    · rintro ⟨hnil, hlength⟩
      rw [(List.append_eq_nil_iff.mp hnil.symm).1, byteLength_nil] at hlength
      omega
  | case3 n c rest hfits ih =>
    constructor
    · intro h
      obtain ⟨⟨more, back'⟩, hmore, hparts⟩ := Option.map_eq_some_iff.mp h
      obtain ⟨rfl, rfl⟩ := Prod.mk.inj hparts
      obtain ⟨rfl, hlength⟩ := ih.mp hmore
      exact ⟨rfl, by rw [byteLength_cons]; omega⟩
    · rintro ⟨hsplit, hlength⟩
      cases front with
      | nil => rw [byteLength_nil] at hlength; omega
      | cons d more =>
        obtain ⟨rfl, rfl⟩ := List.cons_eq_cons.mp hsplit
        rw [byteLength_cons] at hlength
        rw [ih.mpr ⟨rfl, by omega⟩]
        rfl
  | case4 n c rest hlong =>
    -- the cut falls inside this character
    constructor
    · intro h
      cases h
    · rintro ⟨hsplit, hlength⟩
      cases front with
      | nil => rw [byteLength_nil] at hlength; omega
      | cons d more =>
        obtain ⟨rfl, rfl⟩ := List.cons_eq_cons.mp hsplit
        rw [byteLength_cons] at hlength
        omega

theorem boundary_iff {text : Text} {offset : Nat} :
    text.Boundary offset ↔ ∃ front back, text = front ++ back ∧ byteLength front = offset := by
  rw [Boundary, Option.isSome_iff_exists]
  constructor
  · rintro ⟨⟨front, back⟩, h⟩
    exact ⟨front, back, splitBytes?_eq_some_iff.mp h⟩
  · rintro ⟨front, back, h⟩
    exact ⟨(front, back), splitBytes?_eq_some_iff.mpr h⟩

theorem slice?_append (before part after : Text) :
    slice? (before ++ (part ++ after)) (byteLength before) (byteLength before + byteLength part) =
      some part := by
  have hstop : (before ++ (part ++ after)).splitBytes? (byteLength before + byteLength part) =
      some (before ++ part, after) :=
    splitBytes?_eq_some_iff.mpr ⟨(List.append_assoc _ _ _).symm, byteLength_append _ _⟩
  have hstart : (before ++ part).splitBytes? (byteLength before) = some (before, part) :=
    splitBytes?_eq_some_iff.mpr ⟨rfl, rfl⟩
  rw [slice?, hstop]
  show (do let (_, part) ← (before ++ part).splitBytes? (byteLength before); return part) = some part
  rw [hstart]
  rfl

/-- The last of the offsets up to this one at which the text can be cut. -/
def stepBack? (text : Text) : Nat → Option Nat
  | 0 => if text.Boundary 0 then some 0 else none
  | n + 1 => if text.Boundary (n + 1) then some (n + 1) else stepBack? text n

theorem stepBack?_of_isGreatest {text : Text} {n offset : Nat}
    (h : IsGreatest {o | text.Boundary o ∧ o ≤ n} offset) : text.stepBack? n = some offset := by
  obtain ⟨⟨hboundary, hle⟩, hgreatest⟩ := h
  induction n with
  | zero =>
    obtain rfl : offset = 0 := by omega
    exact if_pos hboundary
  | succ n ih =>
    unfold stepBack?
    by_cases hnext : text.Boundary (n + 1)
    · have hmax : n + 1 ≤ offset := hgreatest ⟨hnext, Nat.le_refl _⟩
      rw [if_pos hnext, Nat.le_antisymm hle hmax]
    · have hne : offset ≠ n + 1 := by
        rintro rfl
        exact hnext hboundary
      rw [if_neg hnext]
      apply ih
      · rintro o ⟨ho, hon⟩
        exact hgreatest ⟨ho, Nat.le_succ_of_le hon⟩
      · omega

/-! ### Searching -/

def firstOffset? (c : Char) : Text → Option Nat
  | [] => none
  | d :: rest => if d = c then some 0 else (firstOffset? c rest).map (d.utf8Size + ·)

def lastOffset? (c : Char) : Text → Option Nat
  | [] => none
  | d :: rest =>
    match lastOffset? c rest with
    | some offset => some (d.utf8Size + offset)
    | none => if d = c then some 0 else none

section Searching

variable {c : Char} {front back : Text}

theorem firstOffset?_of_notMem (h : c ∉ front) : firstOffset? c front = none := by
  induction front with
  | nil => rfl
  | cons d front ih =>
    rw [firstOffset?, if_neg (List.ne_of_not_mem_cons h).symm,
      ih (List.not_mem_of_not_mem_cons h)]
    rfl

theorem firstOffset?_append_cons (h : c ∉ front) (back : Text) :
    firstOffset? c (front ++ c :: back) = some (byteLength front) := by
  induction front with
  | nil => exact if_pos rfl
  | cons d front ih =>
    rw [List.cons_append, firstOffset?, if_neg (List.ne_of_not_mem_cons h).symm,
      ih (List.not_mem_of_not_mem_cons h), byteLength_cons]
    rfl

theorem lastOffset?_of_notMem (h : c ∉ back) : lastOffset? c back = none := by
  induction back with
  | nil => rfl
  | cons d back ih =>
    rw [lastOffset?, ih (List.not_mem_of_not_mem_cons h)]
    exact if_neg (List.ne_of_not_mem_cons h).symm

theorem lastOffset?_append_cons (front : Text) (h : c ∉ back) :
    lastOffset? c (front ++ c :: back) = some (byteLength front) := by
  induction front with
  | nil =>
    rw [List.nil_append, lastOffset?, lastOffset?_of_notMem h]
    exact if_pos rfl
  | cons d front ih => rw [List.cons_append, lastOffset?, ih, byteLength_cons]

end Searching

end Text

end Wff
