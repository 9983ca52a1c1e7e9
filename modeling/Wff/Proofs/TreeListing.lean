import Mathlib.Data.List.Forall2
import Mathlib.Data.Option.Basic
import Wff.Check.Run
import Wff.Proofs.Accounting
import Wff.Proofs.Identity
import Wff.Proofs.Locating

/-!
# Wff.Proofs.TreeListing — the listing of a formula shows its tree, and tells it

The lines of a listing stand for the paths from the root to the nodes, in lexicographic order
(`pairwise_paths`): a node comes before the nodes under it, and what is under the left operand before what
is under the right one.  A line is indented by the length of its path (`listing_shows`).

A listing also tells its formula.  No label has white space in it, so the text falls apart into its lines
again and a line into blanks and a label.  A label that is a word is a name and any other is a sign
(`Head.ofLabel?`), and from the nodes in preorder the formula is known, as each tells how many
children follow.
-/

namespace Wff

open Character

/-! ### Labels -/

/-- The nodes that are labelled by a sign. -/
def Head.signs : List Head :=
  [.const true, .const false, .not, .binary .and, .binary .nand, .binary .or, .binary .nor, .binary .xor,
    .binary .xnor, .binary .implies, .binary .iff]

/-- The node of a label: a name if the label is a word, or else what the sign stands for. -/
def Head.ofLabel? (label : Text) : Option Head :=
  if label.isWord then some (.var label) else signs.find? fun head => head.label = label

/-- The node of a line, whose label stands behind the blanks. -/
def Head.ofLine? (line : Text) : Option Head := ofLabel? (line.dropWhile (· == ' '))

theorem Kind.isBlank_eq_false_of_mem_glyph (kind : Kind) : ∀ c ∈ kind.glyph, isBlank c = false := by
  have hall : kind.glyph.all (fun c => !isBlank c) = true := by cases kind <;> decide +kernel
  simpa using hall

namespace Head

variable {head : Head} (h : ∀ name, head = .var name → name.isWord = true)

include h

theorem ofLabel?_label : ofLabel? head.label = some head := by
  cases head with
  | var name => exact if_pos (h name rfl)
  | const value => cases value <;> decide +kernel
  | not => decide +kernel
  | binary c => cases c <;> decide +kernel

theorem isBlank_eq_false_of_mem_label : ∀ c ∈ head.label, isBlank c = false := by
  cases head with
  | var name => exact Text.isBlank_eq_false_of_isWord (h name rfl)
  | const value => exact (Kind.ofBool value).isBlank_eq_false_of_mem_glyph
  | not => exact Kind.not.isBlank_eq_false_of_mem_glyph
  | binary c => exact c.kind.isBlank_eq_false_of_mem_glyph

theorem ofLine?_line (n : Nat) : ofLine? (Text.blanks n ++ head.label) = some head := by
  have hstops : Stops (· == ' ') head.label := by
    intro c hc
    have hblank := isBlank_eq_false_of_mem_label h c (List.mem_of_mem_head? hc)
    rw [beq_eq_false_iff_ne]
    rintro rfl
    revert hblank
    decide +kernel
  have hnone : (Text.blanks n).dropWhile (· == ' ') = [] := by
    rw [List.dropWhile_eq_nil_iff]
    intro c hc
    rw [Text.blanks] at hc
    simp [List.eq_of_mem_replicate hc]
  rw [ofLine?, hstops.dropWhile_append, hnone, List.nil_append, ofLabel?_label h]

theorem newline_notMem_line (n : Nat) : '\n' ∉ Text.blanks n ++ head.label := by
  rw [List.mem_append, not_or, Text.blanks]
  constructor
  · intro hmem
    cases List.eq_of_mem_replicate hmem
  · intro hmem
    have hblank := isBlank_eq_false_of_mem_label h '\n' hmem
    revert hblank
    decide +kernel

end Head

namespace Formula

/-! ### Paths -/

/-- The paths to all nodes, each before those to the nodes under it, and these from left to right. -/
def paths : Formula → List (List Nat)
  | var _ | const _ => [[]]
  | not operand => [] :: operand.paths.map (0 :: ·)
  | binary _ left right => [] :: (left.paths.map (0 :: ·) ++ right.paths.map (1 :: ·))

theorem mem_paths_iff {f : Formula} {path : List Nat} :
    path ∈ f.paths ↔ (f.headAt? path).isSome = true := by
  induction f generalizing path with
  | var | const =>
    cases path with
    | nil => simp [paths, headAt?]
    | cons i path => simp [paths, headAt?, children]
  | not operand ih =>
    rcases path with - | ⟨- | i, path⟩
    · simp [paths, headAt?]
    · simp [paths, headAt?, children, ih]
    · simp [paths, headAt?, children]
  | binary c left right ihLeft ihRight =>
    rcases path with - | ⟨- | - | i, path⟩
    · simp [paths, headAt?]
    · simp [paths, headAt?, children, ihLeft]
    · simp [paths, headAt?, children, ihRight]
    · simp [paths, headAt?, children]

theorem pairwise_paths (f : Formula) : f.paths.Pairwise (· < ·) := by
  have hdown : ∀ (i : Nat) {ps : List (List Nat)}, ps.Pairwise (· < ·) →
      (ps.map (i :: ·)).Pairwise (· < ·) := by
    intro i ps hps
    rw [List.pairwise_map]
    exact hps.imp List.cons_lt_cons_self.mpr
  have hroot : ∀ (i : Nat) {ps : List (List Nat)}, ∀ path ∈ ps.map (i :: ·), [] < path := by
    intro i ps path hpath
    obtain ⟨rest, -, rfl⟩ := List.mem_map.mp hpath
    exact List.nil_lt_cons i rest
  induction f with
  | var | const => exact List.pairwise_singleton _ _
  | not operand ih => exact List.pairwise_cons.mpr ⟨hroot 0, hdown 0 ih⟩
  | binary c left right ihLeft ihRight =>
    refine List.pairwise_cons.mpr ⟨List.forall_mem_append.mpr ⟨hroot 0, hroot 1⟩, ?_⟩
    refine List.pairwise_append.mpr ⟨hdown 0 ihLeft, hdown 1 ihRight, ?_⟩
    rintro path hpath path' hpath'
    obtain ⟨rest, -, rfl⟩ := List.mem_map.mp hpath
    obtain ⟨rest', -, rfl⟩ := List.mem_map.mp hpath'
    exact List.cons_lt_cons_iff.mpr (Or.inl Nat.zero_lt_one)

/-- The nodes in preorder are those that the paths lead to, as far down as the paths are long. -/
theorem preorder_at_paths (f : Formula) (level : Nat) :
    List.Forall₂ (fun path p => p.1 = level + path.length ∧ f.headAt? path = some p.2.head)
      f.paths (f.preorder level) := by
  induction f generalizing level with
  | var | const => exact .cons ⟨rfl, rfl⟩ .nil
  | not operand ih =>
    refine .cons ⟨rfl, rfl⟩ (List.forall₂_map_left_iff.mpr ((ih (level + 1)).imp ?_))
    rintro path p ⟨hlevel, hhead⟩
    exact ⟨by rw [hlevel, List.length_cons]; omega, hhead⟩
  | binary c left right ihLeft ihRight =>
    refine .cons ⟨rfl, rfl⟩ (List.rel_append
      (List.forall₂_map_left_iff.mpr ((ihLeft (level + 1)).imp ?_))
      (List.forall₂_map_left_iff.mpr ((ihRight (level + 1)).imp ?_)))
    all_goals
      rintro path p ⟨hlevel, hhead⟩
      exact ⟨by rw [hlevel, List.length_cons]; omega, hhead⟩

/-- The line that shows the node at a path: its label, indented by two blanks for each step. -/
def Shows (f : Formula) (path : List Nat) (line : Text) : Prop :=
  ∃ head, f.headAt? path = some head ∧ line = Text.blanks (2 * path.length) ++ head.label

theorem listing_shows (f : Formula) : List.Forall₂ f.Shows f.paths f.listing := by
  rw [listing, walk_eq_preorder, List.forall₂_map_right_iff]
  refine (f.preorder_at_paths 0).imp ?_
  rintro path p ⟨hlevel, hhead⟩
  exact ⟨p.2.head, hhead, by rw [hlevel, Nat.zero_add]⟩

/-- The left operand and what is under it come before the right operand. -/
example : (binary .implies (not (var ['p'])) (const true)).listing =
    ["→".toList, "  ¬".toList, "    p".toList, "  ⊤".toList] := by
  cbv

theorem length_listing (f : Formula) : f.listing.length = f.size := by
  rw [listing, List.length_map, walk_eq_preorder, length_preorder]

/-! ### What a listing tells -/

theorem fed_eq_flatMap_heads (f : Formula) : f.fed = f.heads.flatMap Head.fed := by
  induction f with
  | var | const => simp [fed]
  | not operand ih => simp [fed, ih]
  | binary c left right ihLeft ihRight => simp [fed, ihLeft, ihRight]

theorem eq_of_heads_eq {f g : Formula} (h : f.heads = g.heads) : f = g := by
  rw [← same_iff, ← fed_eq_iff, fed_eq_flatMap_heads, fed_eq_flatMap_heads, h]

section Words

variable {f : Formula} (hf : ∀ name ∈ f.leafNames, name.isWord = true)

include hf

theorem isWord_of_mem_walk {p : Nat × Formula} (hp : p ∈ f.walk) :
    ∀ name, p.2.head = .var name → name.isWord = true := by
  intro name hname
  exact hf name (var_mem_heads_iff.mp (List.mem_map.mpr ⟨p, hp, hname⟩))

theorem map_ofLine?_listing : f.listing.map Head.ofLine? = f.heads.map some := by
  rw [listing, heads, List.map_map, List.map_map]
  exact List.map_congr_left fun p hp => Head.ofLine?_line (isWord_of_mem_walk hf hp) (2 * p.1)

theorem newline_notMem_listing : ∀ line ∈ f.listing, '\n' ∉ line := by
  intro line hline
  obtain ⟨p, hp, rfl⟩ := List.mem_map.mp hline
  exact Head.newline_notMem_line (isWord_of_mem_walk hf hp) (2 * p.1)

theorem splitOn_printed_listing :
    (Check.printed f.listing).splitOn '\n' = f.listing ++ [[]] := by
  have hcut := Text.splitOn_withBreaks (newline_notMem_listing hf) []
  rwa [List.append_nil] at hcut

end Words

/-- **A listing shows the tree and tells it.**  It has a line for each node and no other; the lines go by
the paths to the nodes in lexicographic order, which is preorder, and each is the node's label behind two
blanks for every step of its path.  If the formula's names are words, this holds of the lines of the
printed text, after which nothing is left; and formulas with such names are the same if the same is
printed for them. -/
theorem listing_shows_and_tells :
    (∀ f : Formula, f.listing.length = f.size ∧
      (∀ path, path ∈ f.paths ↔ (f.headAt? path).isSome = true) ∧ f.paths.Pairwise (· < ·) ∧
      List.Forall₂ f.Shows f.paths f.listing) ∧
    (∀ f : Formula, (∀ name ∈ f.leafNames, name.isWord = true) →
      let lines := (Check.printed f.listing).splitOn '\n'
      lines = f.listing ++ [[]] ∧ lines.dropLast.length = f.size ∧
        List.Forall₂ f.Shows f.paths lines.dropLast) ∧
    ∀ f g : Formula, (∀ name ∈ f.leafNames, name.isWord = true) →
      (∀ name ∈ g.leafNames, name.isWord = true) →
      Check.printed f.listing = Check.printed g.listing → f = g := by
  refine ⟨?_, ?_, ?_⟩
  · intro f
    exact ⟨f.length_listing, fun path => mem_paths_iff, f.pairwise_paths, f.listing_shows⟩
  · intro f hf lines
    have hlines : lines = f.listing ++ [[]] := splitOn_printed_listing hf
    refine ⟨hlines, ?_, ?_⟩
    · rw [hlines, List.dropLast_concat, f.length_listing]
    · rw [hlines, List.dropLast_concat]
      exact f.listing_shows
  · intro f g hf hg hprinted
    have hlisting : f.listing = g.listing := by
      have hcut := splitOn_printed_listing hf
      rw [hprinted, splitOn_printed_listing hg] at hcut
      exact (List.append_cancel_right hcut).symm
    have hheads : f.heads.map some = g.heads.map some := by
      rw [← map_ofLine?_listing hf, ← map_ofLine?_listing hg, hlisting]
    exact eq_of_heads_eq (List.map_injective_iff.mpr (Option.some_injective Head) hheads)

/-- What is printed for a variable named `T` under a negation is not what is printed for a negated truth
constant, though `T` is read as the constant. -/
theorem listing_tells_name_from_constant :
    let named : Formula := .not (.var ['T'])
    let constant : Formula := .not (.const true)
    (∀ name ∈ named.leafNames, name.isWord = true) ∧
      (∀ name ∈ constant.leafNames, name.isWord = true) ∧
      ((Check.printed named.listing).splitOn '\n').dropLast.length = 2 ∧
      Check.printed named.listing ≠ Check.printed constant.listing := by
  intro named constant
  have hnamed : ∀ name ∈ named.leafNames, name.isWord = true := by decide +kernel
  have hconstant : ∀ name ∈ constant.leafNames, name.isWord = true := by decide
  obtain ⟨-, hlines, htells⟩ := listing_shows_and_tells
  refine ⟨hnamed, hconstant, (hlines named hnamed).2.1, fun hprinted => ?_⟩
  have hsame := htells named constant hnamed hconstant hprinted
  simp [named, constant] at hsame

end Formula

end Wff
