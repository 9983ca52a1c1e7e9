import Wff.Proofs.Alike
import Wff.Proofs.Marks

/-!
# Wff.Proofs.Alignment — places of two texts that belong together

Where two texts are compared, places of one belong to places of the other: to those where the text is
cut with the parts before and after related (`Text.Places`).  `Text.Aligned` carries this along while
both texts are cut into pieces; so texts that are respelled character by character have pieces alike
(`lexemesFrom_respelled`).  With marks, it is enough that cuts of the strokes are traced back to cuts of
the texts as given (`Table.parse_implicit_alike`).
-/

namespace Wff

open Character

variable {C : Char → Char → Prop} {P : Nat → Nat → Prop} {B A : Text → Text → Prop}

/-! ### Places -/

/-- The byte offsets lie where the texts are cut, with `B` between the parts before and `A` between the
parts after. -/
def Text.Places (B A : Text → Text → Prop) (text text' : Text) (offset offset' : Nat) : Prop :=
  ∃ before after before' after', text = before ++ after ∧ text' = before' ++ after' ∧
    B before before' ∧ A after after' ∧ offset = byteLength before ∧ offset' = byteLength before'

theorem Text.places_append {before before' after after' : Text} (hbefore : B before before')
    (hafter : A after after') :
    Places B A (before ++ after) (before' ++ after') (byteLength before) (byteLength before') :=
  ⟨before, after, before', after', rfl, rfl, hbefore, hafter, rfl, rfl⟩

theorem Text.places_end {text text' : Text} (hbefore : B text text') (hafter : A [] []) :
    Places B A text text' (byteLength text) (byteLength text') :=
  ⟨text, [], text', [], (List.append_nil _).symm, (List.append_nil _).symm, hbefore, hafter, rfl, rfl⟩

theorem Text.Places.prepend {text text' front front' : Text} {offset offset' : Nat}
    (h : Places B A text text' offset offset')
    (hfront : ∀ before before', B before before' → B (front ++ before) (front' ++ before')) :
    Places B A (front ++ text) (front' ++ text') (byteLength front + offset)
      (byteLength front' + offset') := by
  obtain ⟨before, after, before', after', rfl, rfl, hbefore, hafter, rfl, rfl⟩ := h
  rw [← List.append_assoc, ← List.append_assoc, ← byteLength_append, ← byteLength_append]
  exact places_append (hfront _ _ hbefore) hafter

/-- The places of two texts that begin at byte offsets are related. -/
def Text.Aligned (B A : Text → Text → Prop) (P : Nat → Nat → Prop) (here here' : Nat)
    (text text' : Text) : Prop :=
  ∀ offset offset', Places B A text text' offset offset' → P (here + offset) (here' + offset')

theorem Text.aligned_places (text text' : Text) :
    Aligned B A (Places B A text text') 0 0 text text' := by
  intro offset offset' hplaces
  rwa [Nat.zero_add, Nat.zero_add]

namespace Text.Aligned

variable {here here' : Nat} {text text' : Text}

theorem at_cut {before before' after after' : Text}
    (h : Aligned B A P here here' (before ++ after) (before' ++ after')) (hbefore : B before before')
    (hafter : A after after') : P (here + byteLength before) (here' + byteLength before') :=
  h _ _ (places_append hbefore hafter)

theorem of_append {front front' : Text}
    (h : Aligned B A P here here' (front ++ text) (front' ++ text'))
    (hfront : ∀ before before', B before before' → B (front ++ before) (front' ++ before')) :
    Aligned B A P (here + byteLength front) (here' + byteLength front') text text' := by
  intro offset offset' hplaces
  rw [Nat.add_assoc, Nat.add_assoc]
  exact h _ _ (hplaces.prepend hfront)

end Text.Aligned

/-! ### Texts respelled -/

namespace Text

def SameLength (text text' : Text) : Prop := text.length = text'.length

def SamePlace : Text → Text → Nat → Nat → Prop := Places SameLength fun _ _ => True

namespace Aligned

variable {here here' : Nat} {text text' : Text}

theorem start (h : Aligned SameLength (fun _ _ => True) P here here' text text') : P here here' := by
  have hcut : Aligned SameLength (fun _ _ => True) P here here' ([] ++ text) ([] ++ text') := h
  exact hcut.at_cut rfl trivial

theorem of_same_length {front front' : Text}
    (h : Aligned SameLength (fun _ _ => True) P here here' (front ++ text) (front' ++ text'))
    (hfront : front.length = front'.length) :
    Aligned SameLength (fun _ _ => True) P (here + byteLength front) (here' + byteLength front') text
      text' := by
  refine h.of_append fun before before' hbefore => ?_
  rw [SameLength, List.length_append, List.length_append, hfront, hbefore]

theorem of_cons {c d : Char}
    (h : Aligned SameLength (fun _ _ => True) P here here' (c :: text) (d :: text')) :
    Aligned SameLength (fun _ _ => True) P (here + c.utf8Size) (here' + d.utf8Size) text text' := by
  have happend : Aligned SameLength (fun _ _ => True) P here here' ([c] ++ text) ([d] ++ text') := h
  simpa using happend.of_same_length rfl

end Aligned

end Text

/-- The character is a piece of its own wherever it stands. -/
def Lone (c : Char) : Prop := isBlank c = false ∧ continuesWord c = false

section Respelled

variable (hchars : ∀ c d, C c d → c = d ∨ Lone c ∧ Lone d)
include hchars

theorem isBlank_eq_of_respelled {c d : Char} (h : C c d) : isBlank c = isBlank d := by
  rcases hchars c d h with rfl | ⟨hc, hd⟩
  · rfl
  · rw [hc.1, hd.1]

theorem takeWhile_respelled {text text' : Text} (h : List.Forall₂ C text text') :
    text.takeWhile continuesWord = text'.takeWhile continuesWord ∧
      List.Forall₂ C (text.dropWhile continuesWord) (text'.dropWhile continuesWord) := by
  induction h with
  | nil => exact ⟨rfl, .nil⟩
  | @cons c d rest rest' first others ih =>
    rcases hchars c d first with rfl | ⟨hc, hd⟩
    · by_cases hword : continuesWord c = true
      · simpa [hword] using ih
      · simpa [hword] using List.Forall₂.cons first others
    · simpa [hc.2, hd.2] using List.Forall₂.cons first others

/-- Texts of which one is the other but for lone characters have pieces alike. -/
theorem lexemesFrom_respelled {here here' : Nat} {text text' : Text}
    (h : List.Forall₂ C text text')
    (hplaces : Text.Aligned Text.SameLength (fun _ _ => True) P here here' text text') :
    List.Forall₂ (Lexeme.Alike C P) (text.lexemesFrom here) (text'.lexemesFrom here') := by
  fun_induction Text.lexemesFrom here text generalizing here' text' with
  | case1 here =>
    cases h
    rw [Text.lexemesFrom]
    exact .nil
  | case2 here c rest hblank ih =>
    obtain _ | ⟨first, others⟩ := h
    rw [Text.lexemesFrom_blank (isBlank_eq_of_respelled hchars first ▸ hblank)]
    exact ih others hplaces.of_cons
  | case3 here c rest hblank hstart ih =>
    -- a word has no lone characters, so it is the same and the cut after it belongs together
    obtain _ | ⟨first, others⟩ := h
    rcases hchars _ _ first with rfl | ⟨hc, -⟩
    · obtain ⟨hword, hafter⟩ := takeWhile_respelled hchars others
      rw [Text.lexemesFrom_letter hstart, ← hword]
      refine .cons (.word _ hplaces.start) (ih hafter (Text.Aligned.of_same_length ?_ rfl))
      rw [List.cons_append, List.takeWhile_append_dropWhile, hword, List.cons_append,
        List.takeWhile_append_dropWhile]
      exact hplaces
    · rw [startsWord_eq_false hc.2] at hstart
      cases hstart
  | @case4 here c rest hblank hstart ih =>
    -- a glyph gives way to a glyph, since neither is blank and no word begins with either
    obtain _ | ⟨first, others⟩ := h
    rename_i d rest'
    have hblank' : isBlank d = false := by
      rw [← isBlank_eq_of_respelled hchars first]
      simpa using hblank
    have hstart' : startsWord d = false := by
      rcases hchars c d first with rfl | ⟨-, hd⟩
      · simpa using hstart
      · exact startsWord_eq_false hd.2
    rw [Text.lexemesFrom_glyph hblank' hstart']
    exact .cons (.glyph first hplaces.start) (ih others hplaces.of_cons)

end Respelled

/-! ### Texts with marks -/

section Implicit

variable {table : Table} {text text' : Text}
  (hstrokes : ∀ a b a' b', table.strokesFrom none text = a ++ b →
    table.strokesFrom none text' = a' ++ b' →
    B (Stroke.shown a) (Stroke.shown a') → A (Stroke.shown b) (Stroke.shown b') →
    B (Stroke.givenText a) (Stroke.givenText a') ∧ A (Stroke.givenText b) (Stroke.givenText b'))
include hstrokes

/-- Places among marks are traced back to places of the texts as given, if this is so for the strokes
before and after them. -/
theorem Table.aligned_givenOffset :
    Text.Aligned B A
      (fun o o' => Text.Places B A text text' ((table.reveal text).givenOffset o)
        ((table.reveal text').givenOffset o'))
      0 0 (table.reveal text).text (table.reveal text').text := by
  intro offset offset' h
  rw [Nat.zero_add, Nat.zero_add]
  rw [reveal_eq, reveal_eq] at h
  obtain ⟨before, after, before', after', hcut, hcut', hbefore, hafter, rfl, rfl⟩ := h
  obtain ⟨a, b, hab, rfl, rfl⟩ := List.map_eq_append_iff.mp hcut
  obtain ⟨a', b', hab', rfl, rfl⟩ := List.map_eq_append_iff.mp hcut'
  obtain ⟨hbefore, hafter⟩ := hstrokes a b a' b' hab hab' hbefore hafter
  exact ⟨_, _, _, _, text_of_cut hab, text_of_cut hab', hbefore, hafter, givenOffset_of_cut hab,
    givenOffset_of_cut hab'⟩

/-- **Texts are read alike if they are so with their marks**, and places among the marks are traced
back to places that belong together. -/
theorem Table.parse_implicit_alike (hrefl : ∀ c, C c c)
    (hglyph : ∀ c c', C c c' → table.glyph? c = table.glyph? c')
    (hpieces : ∀ P : Nat → Nat → Prop,
      Text.Aligned B A P 0 0 (table.reveal text).text (table.reveal text').text →
      List.Forall₂ (Lexeme.Alike C P) ((table.reveal text).text.lexemesFrom 0)
        ((table.reveal text').text.lexemesFrom 0))
    (hbefore : B (table.reveal text).text (table.reveal text').text) (hafter : A [] []) :
    Alike C (Text.Places B A text text') Eq (table.parse true text) (table.parse true text') := by
  have hplaces := Table.aligned_givenOffset hstrokes
  have hend := hplaces _ _ (Text.places_end hbefore hafter)
  rw [Nat.zero_add, Nat.zero_add] at hend
  exact (Table.parseExplicit_alike hrefl hglyph (hpieces _ hplaces) hend).mapError

end Implicit

end Wff
