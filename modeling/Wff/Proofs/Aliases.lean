import Mathlib.Data.List.Forall2
import Wff.Symbol.Table

/-!
# Wff.Proofs.Aliases — which tables there are, and what they hold

A table is built unless a literal is repeated, and then the fault is the first that is
(`Table.ofAliases_eq_ok_iff`, `Table.ofAliases_eq_error_iff`).  What a table answers depends on its pairs of
literal and symbol, not on their order: look-ups are membership, and the literals of a kind are strictly
ascending.  So aliases may be rearranged (`Aliases.Rearranged`) without a difference.
-/

namespace Wff

/-! ### Repeated literals -/

theorem firstRepeat?_eq_none_iff {seen literals : List Text} :
    firstRepeat? seen literals = none ↔ literals.Nodup ∧ ∀ literal ∈ literals, literal ∉ seen := by
  refine ⟨nodup_of_firstRepeat?_eq_none, ?_⟩
  rintro ⟨nodup, apart⟩
  induction literals generalizing seen with
  | nil => rfl
  | cons literal rest ih =>
    obtain ⟨fresh, nodup⟩ := List.nodup_cons.mp nodup
    obtain ⟨unseen, apart⟩ := List.forall_mem_cons.mp apart
    rw [firstRepeat?, if_neg (by simpa using unseen)]
    apply ih nodup
    intro other hother
    rw [List.mem_cons, not_or]
    exact ⟨fun heq => fresh (heq ▸ hother), apart other hother⟩

theorem firstRepeat?_eq_some_iff {seen literals : List Text} {literal : Text} :
    firstRepeat? seen literals = some literal ↔
      ∃ before after, literals = before ++ literal :: after ∧ before.Nodup ∧
        (∀ other ∈ before, other ∉ seen) ∧ (literal ∈ before ∨ literal ∈ seen) := by
  induction literals generalizing seen with
  | nil => simp [firstRepeat?]
  | cons first rest ih =>
    unfold firstRepeat?
    by_cases hseen : first ∈ seen
    · -- the first literal is the repeated one, since nothing comes before it
      rw [if_pos (by simpa using hseen)]
      constructor
      · intro h
        obtain rfl := Option.some.inj h
        exact ⟨[], rest, rfl, .nil, by simp, Or.inr hseen⟩
      · rintro ⟨before, after, hsplit, -, apart, -⟩
        cases before with
        | nil => rw [(List.cons_eq_cons.mp hsplit).1]
        | cons other before =>
          obtain ⟨rfl, -⟩ := List.cons_eq_cons.mp hsplit
          exact absurd hseen (apart first List.mem_cons_self)
    · -- the first literal joins those seen, or those before the repeated one
      rw [if_neg (by simpa using hseen), ih]
      constructor
      · rintro ⟨before, after, rfl, nodup, apart, hrepeat⟩
        have hfirst : first ∉ before := fun hmem => apart first hmem List.mem_cons_self
        refine ⟨first :: before, after, rfl, List.nodup_cons.mpr ⟨hfirst, nodup⟩, ?_, ?_⟩
        · rw [List.forall_mem_cons]
          exact ⟨hseen, fun other hother => List.not_mem_of_not_mem_cons (apart other hother)⟩
        · rw [List.mem_cons] at hrepeat ⊢
          tauto
      · rintro ⟨before, after, hsplit, nodup, apart, hrepeat⟩
        cases before with
        | nil =>
          obtain ⟨rfl, -⟩ := List.cons_eq_cons.mp hsplit
          exact absurd hrepeat (by simp [hseen])
        | cons other before =>
          obtain ⟨rfl, rfl⟩ := List.cons_eq_cons.mp hsplit
          obtain ⟨hfirst, nodup⟩ := List.nodup_cons.mp nodup
          obtain ⟨-, apart⟩ := List.forall_mem_cons.mp apart
          refine ⟨before, after, rfl, nodup, fun other hother => ?_, ?_⟩
          · rw [List.mem_cons, not_or]
            exact ⟨fun heq => hfirst (heq ▸ hother), apart other hother⟩
          · rw [List.mem_cons] at hrepeat ⊢
            tauto

/-! ### Aliases -/

namespace Aliases

def literals (aliases : Aliases) : List Text := aliases.flatMap Prod.snd

/-- The same aliases, with the pairs and the literals of each pair in any order. -/
def Rearranged (aliases other : Aliases) : Prop :=
  ∃ between : Aliases, aliases.Perm between ∧
    List.Forall₂ (fun pair pair' => pair.1 = pair'.1 ∧ pair.2.Perm pair'.2) between other

theorem map_fst_entries (aliases : Aliases) : aliases.entries.map Prod.fst = aliases.literals := by
  simp [entries, literals, List.map_flatMap, Function.comp_def]

theorem mem_entries_iff {aliases : Aliases} {literal : Text} {s : Symbol} :
    (literal, s) ∈ aliases.entries ↔ ∃ literals, (s, literals) ∈ aliases ∧ literal ∈ literals := by
  unfold entries
  rw [List.mem_flatMap]
  constructor
  · rintro ⟨⟨s', literals⟩, hpair, hmem⟩
    obtain ⟨literal', hliteral, heq⟩ := List.mem_map.mp hmem
    obtain ⟨rfl, rfl⟩ := Prod.mk.inj heq
    exact ⟨literals, hpair, hliteral⟩
  · rintro ⟨literals, hpair, hliteral⟩
    exact ⟨(s, literals), hpair, List.mem_map.mpr ⟨literal, hliteral, rfl⟩⟩

theorem entries_cons (s : Symbol) (literals : List Text) (aliases : Aliases) :
    entries ((s, literals) :: aliases) = literals.map (fun literal => (literal, s)) ++ aliases.entries :=
  rfl

theorem Rearranged.entries_perm {aliases other : Aliases} (h : aliases.Rearranged other) :
    aliases.entries.Perm other.entries := by
  obtain ⟨between, hpairs, hliterals⟩ := h
  refine (hpairs.flatMap_right _).trans ?_
  show between.entries.Perm other.entries
  clear hpairs
  induction hliterals with
  | nil => exact .nil
  | @cons pair pair' _ _ first others ih =>
    obtain ⟨s, literals⟩ := pair
    obtain ⟨s', literals'⟩ := pair'
    obtain ⟨rfl, hperm⟩ := first
    rw [entries_cons, entries_cons]
    exact (hperm.map _).append ih

end Aliases

/-! ### Tables -/

namespace Table

variable {table table' : Table} {aliases : Aliases}

theorem ofAliases_eq_ok_iff :
    ofAliases aliases = .ok table ↔ aliases.literals.Nodup ∧ table.entries = aliases.entries := by
  have hnone : firstRepeat? [] aliases.literals = none ↔
      aliases.literals.Nodup ∧ ∀ literal ∈ aliases.literals, literal ∉ ([] : List Text) :=
    firstRepeat?_eq_none_iff
  unfold ofAliases
  split
  · rename_i literal hrepeat
    rw [Aliases.map_fst_entries] at hrepeat
    rw [hrepeat] at hnone
    simp only [reduceCtorEq, false_iff] at hnone ⊢
    exact fun h => hnone ⟨h.1, by simp⟩
  · rename_i hrepeat
    rw [Aliases.map_fst_entries] at hrepeat
    constructor
    · intro h
      obtain rfl := Except.ok.inj h
      exact ⟨(hnone.mp hrepeat).1, rfl⟩
    · rintro ⟨-, hentries⟩
      obtain ⟨entries, nodup⟩ := table
      obtain rfl : entries = aliases.entries := hentries
      rfl

theorem ofAliases_eq_error_iff {fault : Fault} :
    ofAliases aliases = .error fault ↔ ∃ before literal after,
      aliases.literals = before ++ literal :: after ∧ before.Nodup ∧ literal ∈ before ∧
        fault = .ambiguousAlias literal := by
  have hsome : ∀ literal, firstRepeat? [] (aliases.entries.map Prod.fst) = some literal ↔
      ∃ before after, aliases.literals = before ++ literal :: after ∧ before.Nodup ∧
        literal ∈ before := by
    intro literal
    rw [Aliases.map_fst_entries, firstRepeat?_eq_some_iff]
    simp
  unfold ofAliases
  split
  · rename_i literal hrepeat
    constructor
    · intro h
      obtain ⟨before, after, hsplit, nodup, hmem⟩ := (hsome literal).mp hrepeat
      exact ⟨before, literal, after, hsplit, nodup, hmem, (Except.error.inj h).symm⟩
    · rintro ⟨before, literal', after, hsplit, nodup, hmem, rfl⟩
      have hfound := (hsome literal').mpr ⟨before, after, hsplit, nodup, hmem⟩
      rw [Option.some.inj (hrepeat.symm.trans hfound)]
  · rename_i hrepeat
    constructor
    · intro h
      cases h
    · rintro ⟨before, literal, after, hsplit, nodup, hmem, -⟩
      have hfound := (hsome literal).mpr ⟨before, after, hsplit, nodup, hmem⟩
      rw [hrepeat] at hfound
      cases hfound

theorem pairwise_literals (table : Table) (kind : Kind) :
    (table.literals kind).Pairwise fun a b => Text.precedes a b = true := by
  have htrans : ∀ a b c : Text, (!Text.precedes b a) = true → (!Text.precedes c b) = true →
      (!Text.precedes c a) = true := by
    intro a b c hab hbc
    rw [Bool.not_eq_true'] at hab hbc ⊢
    exact Text.precedes_eq_false_trans hbc hab
  have htotal : ∀ a b : Text, (!Text.precedes b a || !Text.precedes a b) = true := by
    intro a b
    simpa using Text.precedes_eq_false_or b a
  have hsorted : (table.literals kind).Pairwise fun a b => (!Text.precedes b a) = true :=
    List.pairwise_mergeSort htrans htotal _
  have hnodup : (table.literals kind).Nodup := by
    refine (List.mergeSort_perm _ _).nodup_iff.mpr ?_
    exact table.nodup.sublist (List.filter_sublist.map _)
  -- sorted and without repetition is strictly ascending, as two texts are always ordered
  refine (hsorted.and hnodup).imp ?_
  rintro a b ⟨hle, hne⟩
  rcases Text.precedes_trichotomy a b with hlt | heq | hgt
  · exact hlt
  · exact absurd heq hne
  · rw [hgt] at hle
    cases hle

theorem mem_literals_iff (table : Table) (kind : Kind) (literal : Text) :
    literal ∈ table.literals kind ↔ table.resolve? literal = some kind := by
  unfold literals resolve?
  rw [List.mem_mergeSort, Option.bind_eq_some_iff]
  simp only [lookup?_eq_some_iff]
  simp

/-! ### Tables of the same pairs -/

section Same

variable (h : table.entries.Perm table'.entries)
include h

theorem lookup?_eq_of_perm : table.lookup? = table'.lookup? := by
  funext literal
  ext s
  rw [lookup?_eq_some_iff, lookup?_eq_some_iff, h.mem_iff]

theorem literals_eq_of_perm : table.literals = table'.literals := by
  funext kind
  refine List.Perm.eq_of_pairwise ?_ (table.pairwise_literals kind) (table'.pairwise_literals kind) ?_
  · intro a b _ _ hab hba
    rw [Text.precedes_asymm hab] at hba
    cases hba
  · refine (List.mergeSort_perm _ _).trans ((h.filter _ |>.map _).trans ?_)
    exact (List.mergeSort_perm _ _).symm

end Same

/-- What a table of the aliases answers. -/
structure Holds (table : Table) (aliases : Aliases) : Prop where
  lookup?_iff : ∀ literal s, table.lookup? literal = some s ↔
    ∃ literals, (s, literals) ∈ aliases ∧ literal ∈ literals
  size_eq : table.size = aliases.literals.length
  ascending : ∀ kind, (table.literals kind).Pairwise fun a b => Text.precedes a b = true
  mem_literals_iff : ∀ kind literal,
    literal ∈ table.literals kind ↔ table.resolve? literal = some kind

theorem holds_of_ofAliases (h : ofAliases aliases = .ok table) : table.Holds aliases where
  lookup?_iff literal s := by
    rw [lookup?_eq_some_iff, (ofAliases_eq_ok_iff.mp h).2, Aliases.mem_entries_iff]
  size_eq := by
    rw [size, (ofAliases_eq_ok_iff.mp h).2, ← Aliases.map_fst_entries, List.length_map]
  ascending := table.pairwise_literals
  mem_literals_iff := table.mem_literals_iff

structure Agrees (table table' : Table) : Prop where
  lookup?_eq : table.lookup? = table'.lookup?
  resolve?_eq : table.resolve? = table'.resolve?
  literals_eq : table.literals = table'.literals
  size_eq : table.size = table'.size

theorem agrees_of_perm (h : table.entries.Perm table'.entries) : table.Agrees table' where
  lookup?_eq := lookup?_eq_of_perm h
  resolve?_eq := by
    funext literal
    rw [resolve?, resolve?, lookup?_eq_of_perm h]
  literals_eq := literals_eq_of_perm h
  size_eq := h.length_eq

/-- A table can be built of the same aliases in any order, and it answers the same. -/
theorem exists_ofAliases_rearranged {other : Aliases} (h : ofAliases aliases = .ok table)
    (hother : aliases.Rearranged other) :
    ∃ table', ofAliases other = .ok table' ∧ table.Agrees table' := by
  obtain ⟨hnodup, hentries⟩ := ofAliases_eq_ok_iff.mp h
  have hperm := hother.entries_perm
  have hnodup' : (other.entries.map Prod.fst).Nodup := by
    rw [← (hperm.map Prod.fst).nodup_iff, Aliases.map_fst_entries]
    exact hnodup
  refine ⟨⟨other.entries, hnodup'⟩, ofAliases_eq_ok_iff.mpr ⟨?_, rfl⟩, agrees_of_perm ?_⟩
  · rwa [← Aliases.map_fst_entries]
  · rwa [hentries]

/-- **Aliases make a table unless one is repeated.**  If there is a repeated literal, the first is the
fault.  Else the table holds the aliases as they are given, in whatever order. -/
theorem ofAliases_outcome (aliases : Aliases) :
    ((∃ table, ofAliases aliases = .ok table) ↔ aliases.literals.Nodup) ∧
    (∀ fault, ofAliases aliases = .error fault ↔ ∃ before literal after,
      aliases.literals = before ++ literal :: after ∧ before.Nodup ∧ literal ∈ before ∧
        fault = .ambiguousAlias literal) ∧
    ∀ table, ofAliases aliases = .ok table → table.Holds aliases ∧
      ∀ other, aliases.Rearranged other →
        ∃ table', ofAliases other = .ok table' ∧ table.Agrees table' := by
  refine ⟨⟨?_, ?_⟩, fun fault => ofAliases_eq_error_iff, fun table h => ⟨holds_of_ofAliases h, ?_⟩⟩
  · rintro ⟨table, h⟩
    exact (ofAliases_eq_ok_iff.mp h).1
  · intro hnodup
    have hentries : (aliases.entries.map Prod.fst).Nodup := by rwa [Aliases.map_fst_entries]
    exact ⟨⟨aliases.entries, hentries⟩, ofAliases_eq_ok_iff.mpr ⟨hnodup, rfl⟩⟩
  · intro other hother
    exact exists_ofAliases_rearranged h hother

/-- Two lists of one symbol and two symbols of one kind, rearranged; and a literal that is repeated
within one list. -/
theorem ofAliases_outcome_rearranged :
    let aliases : Aliases :=
      [(.negationBefore, [['~'], ['n', 'o', 't']]), (.constant true, [['1']]),
        (.negationAfter, [['\x27']]), (.negationBefore, [['!']])]
    let other : Aliases :=
      [(.negationBefore, [['!']]), (.negationAfter, [['\x27']]),
        (.negationBefore, [['n', 'o', 't'], ['~']]), (.constant true, [['1']])]
    let repeated : Aliases := [(.operator .and, [['&'], ['*'], ['&'], ['*']])]
    (∃ table table', ofAliases aliases = .ok table ∧ aliases.Rearranged other ∧
      ofAliases other = .ok table' ∧ table.Agrees table' ∧ table.size = 5 ∧
      ['!'] ∈ table.literals .not ∧ ['\x27'] ∈ table.literals .not) ∧
    ofAliases repeated = .error (.ambiguousAlias ['&']) := by
  intro aliases other repeated
  have hrearranged : aliases.Rearranged other :=
    ⟨[(.negationBefore, [['!']]), (.negationAfter, [['\x27']]),
      (.negationBefore, [['~'], ['n', 'o', 't']]), (.constant true, [['1']])], by decide,
      .cons ⟨rfl, by decide⟩ (.cons ⟨rfl, by decide⟩ (.cons ⟨rfl, by decide⟩
        (.cons ⟨rfl, by decide⟩ .nil)))⟩
  obtain ⟨-, -, hholds⟩ := ofAliases_outcome aliases
  obtain ⟨hanswers, hsame⟩ := hholds ⟨aliases.entries, by decide⟩ rfl
  obtain ⟨table', htable', hagrees⟩ := hsame other hrearranged
  have hrepeated := (ofAliases_outcome repeated).2.1 (.ambiguousAlias ['&'])
  exact ⟨⟨_, table', rfl, hrearranged, htable', hagrees, hanswers.size_eq,
      (hanswers.mem_literals_iff _ _).mpr (by decide), (hanswers.mem_literals_iff _ _).mpr (by decide)⟩,
    hrepeated.mpr ⟨[['&'], ['*']], ['&'], [['*']], rfl, by decide, by decide, rfl⟩⟩

end Table

end Wff
