import Wff.Formula.Traversal
import Wff.Proofs.Spelling

/-!
# Wff.Proofs.Accounting — every token makes its nodes, and nothing else makes any

`Meaning.heads` are the nodes that a token adds to a formula: an operand adds a leaf, a negation mark a
negation, an operator what joining adds.  The nodes of a formula are those of its tokens, each as often
(`Derives.heads_perm`); so leaves, connectives and negations are counted by tokens.  Only the two converse
kinds change the order of the leaves (`Derives.leaves_eq`).
-/

namespace Wff

/-! ### Nodes of a formula -/

def Head.isLeaf : Head → Bool
  | .var _ | .const _ => true
  | .not | .binary _ => false

namespace Formula

theorem map_head_preorder (f : Formula) (m n : Nat) :
    (f.preorder m).map (fun p => p.2.head) = (f.preorder n).map fun p => p.2.head := by
  induction f generalizing m n with
  | var name => rfl
  | const value => rfl
  | not operand ih =>
    simp only [preorder, List.map_cons]
    rw [ih (m + 1) (n + 1)]
  | binary c left right ihLeft ihRight =>
    simp only [preorder, List.map_cons, List.map_append]
    rw [ihLeft (m + 1) (n + 1), ihRight (m + 1) (n + 1)]

theorem heads_eq (f : Formula) (level : Nat) :
    f.heads = (f.preorder level).map fun p => p.2.head := by
  rw [heads, walk_eq_preorder, map_head_preorder f 0 level]

@[simp] theorem heads_var (name : Text) : (var name).heads = [.var name] := by
  rw [heads_eq _ 0]
  rfl

@[simp] theorem heads_const (value : Bool) : (const value).heads = [.const value] := by
  rw [heads_eq _ 0]
  rfl

@[simp] theorem heads_not (operand : Formula) : (not operand).heads = .not :: operand.heads := by
  rw [heads_eq _ 0, operand.heads_eq 1]
  rfl

@[simp] theorem heads_binary (c : Connective) (left right : Formula) :
    (binary c left right).heads = .binary c :: (left.heads ++ right.heads) := by
  rw [heads_eq _ 0, left.heads_eq 1, right.heads_eq 1, ← List.map_append]
  rfl

theorem heads_negated (n : Nat) (f : Formula) :
    (f.negated n).heads = List.replicate n .not ++ f.heads := by
  induction n with
  | zero => rfl
  | succ n ih => rw [negated_succ, heads_not, ih, List.replicate_succ, List.cons_append]

def leaves (f : Formula) : List Head := f.heads.filter Head.isLeaf

@[simp] theorem leaves_var (name : Text) : (var name).leaves = [.var name] := by
  rw [leaves, heads_var]
  rfl

@[simp] theorem leaves_const (value : Bool) : (const value).leaves = [.const value] := by
  rw [leaves, heads_const]
  rfl

@[simp] theorem leaves_not (operand : Formula) : (not operand).leaves = operand.leaves := by
  rw [leaves, heads_not, List.filter_cons_of_neg (by simp [Head.isLeaf]), leaves]

@[simp] theorem leaves_binary (c : Connective) (left right : Formula) :
    (binary c left right).leaves = left.leaves ++ right.leaves := by
  rw [leaves, heads_binary, List.filter_cons_of_neg (by simp [Head.isLeaf]), List.filter_append]
  rfl

theorem leaves_negated (n : Nat) (f : Formula) : (f.negated n).leaves = f.leaves := by
  induction n with
  | zero => rfl
  | succ n ih => rw [negated_succ, leaves_not, ih]

end Formula

/-! ### Names of a formula -/

/-- Put the names in front of those kept, from the first on, but not one that stands in front already. -/
def keepNew (kept occurrences : List Text) : List Text :=
  occurrences.foldl (fun kept name => if kept.head? = some name then kept else name :: kept) kept

theorem keepNew_cons (kept : List Text) (first : Text) (rest : List Text) :
    keepNew kept (first :: rest) =
      keepNew (if kept.head? = some first then kept else first :: kept) rest := rfl

theorem mem_keepNew_iff {kept occurrences : List Text} {name : Text} :
    name ∈ keepNew kept occurrences ↔ name ∈ occurrences ∨ name ∈ kept := by
  induction occurrences generalizing kept with
  | nil => simp [keepNew]
  | cons first rest ih =>
    rw [keepNew_cons, ih]
    by_cases hhead : kept.head? = some first
    · have hmem : first ∈ kept := List.mem_of_head? hhead
      rw [if_pos hhead, List.mem_cons]
      exact ⟨.imp_left .inr, by rintro ((rfl | h) | h) <;> simp [*]⟩
    · rw [if_neg hhead, List.mem_cons, List.mem_cons, or_left_comm, or_assoc]

theorem pairwise_keepNew {kept occurrences : List Text}
    (hkept : kept.Pairwise fun a b => Text.precedes a b = true)
    (hdescending : occurrences.Pairwise fun a b => Text.precedes a b = false)
    (hbelow : ∀ name ∈ occurrences, ∀ other ∈ kept, Text.precedes other name = false) :
    (keepNew kept occurrences).Pairwise fun a b => Text.precedes a b = true := by
  induction occurrences generalizing kept with
  | nil => exact hkept
  | cons first rest ih =>
    obtain ⟨hfirst, hrest⟩ := List.pairwise_cons.mp hdescending
    have hbelowRest : ∀ name ∈ rest, ∀ other ∈ kept, Text.precedes other name = false :=
      fun name hname => hbelow name (List.mem_cons_of_mem _ hname)
    rw [keepNew_cons]
    by_cases hhead : kept.head? = some first
    · rw [if_pos hhead]
      exact ih hkept hrest hbelowRest
    · have hless : ∀ other ∈ kept, Text.precedes first other = true := by
        intro other hother
        have hnotAbove := hbelow first List.mem_cons_self other hother
        rcases Text.precedes_trichotomy first other with hlt | rfl | hgt
        · exact hlt
        · -- the name would be the least of those kept, but it is not their first
          cases kept with
          | nil => cases hother
          | cons least others =>
            rcases List.mem_cons.mp hother with rfl | hothers
            · exact absurd rfl hhead
            · have hlt := (List.pairwise_cons.mp hkept).1 first hothers
              rw [hbelow first List.mem_cons_self least List.mem_cons_self] at hlt
              cases hlt
        · rw [hnotAbove] at hgt
          cases hgt
      rw [if_neg hhead]
      refine ih (List.pairwise_cons.mpr ⟨hless, hkept⟩) hrest fun name hname other hother => ?_
      rcases List.mem_cons.mp hother with rfl | hother
      · exact hfirst name hname
      · exact hbelowRest name hname other hother

namespace Formula

theorem name?_eq_some_iff {f : Formula} {name : Text} :
    f.name? = some name ↔ f.head = .var name := by
  cases f <;> simp [name?, head]

theorem var_mem_heads_iff {f : Formula} {name : Text} :
    .var name ∈ f.heads ↔ name ∈ f.leafNames := by
  induction f with
  | var | const => simp [leafNames]
  | not operand ih => simp [leafNames, ih]
  | binary c left right ihLeft ihRight => simp [leafNames, ihLeft, ihRight]

theorem names_spec (f : Formula) :
    f.names.Pairwise (fun a b => Text.precedes a b = true) ∧
      ∀ name, name ∈ f.names ↔ .var name ∈ f.heads := by
  have hnames : f.names = keepNew [] ((f.walk.filterMap fun p => p.2.name?).mergeSort
      fun a b => !Text.precedes a b) := rfl
  rw [hnames]
  constructor
  · have htrans : ∀ a b c : Text, (!Text.precedes a b) = true → (!Text.precedes b c) = true →
        (!Text.precedes a c) = true := by
      intro a b c hab hbc
      rw [Bool.not_eq_true'] at hab hbc ⊢
      exact Text.precedes_eq_false_trans hab hbc
    have htotal : ∀ a b : Text, (!Text.precedes a b || !Text.precedes b a) = true := by
      intro a b
      simpa using Text.precedes_eq_false_or a b
    have hsorted := List.pairwise_mergeSort htrans htotal (f.walk.filterMap fun p => p.2.name?)
    exact pairwise_keepNew List.Pairwise.nil (hsorted.imp (by simp)) (by simp)
  · intro name
    simp [mem_keepNew_iff, heads, name?_eq_some_iff]

theorem nodup_names (f : Formula) : f.names.Nodup := by
  refine f.names_spec.1.imp ?_
  rintro a _ hless rfl
  rw [Text.precedes_irrefl] at hless
  cases hless

end Formula

/-! ### Nodes of tokens -/

/-- The connective that joins the operands in the end; a kind that is not binary has none. -/
def Kind.connective? : Kind → Option Connective
  | .and => some .and
  | .nand => some .nand
  | .or => some .or
  | .nor => some .nor
  | .xor => some .xor
  | .xnor => some .xnor
  | .implies | .converse | .nonImplication | .nonConverse => some .implies
  | .iff | .nonIff => some .iff
  | .not | .var | .verum | .falsum => none

def Kind.negates : Kind → Bool
  | .nonImplication | .nonConverse | .nonIff => true
  | _ => false

def Kind.exchanges : Kind → Bool
  | .converse | .nonConverse => true
  | _ => false

def Kind.heads (kind : Kind) : List Head :=
  (if kind.negates then [.not] else []) ++ (kind.connective?.map Head.binary).toList

namespace Meaning

def leaf? : Meaning → Option Head
  | .var name => some (.var name)
  | .symbol (.constant value) => some (.const value)
  | _ => none

def connective? : Meaning → Option Connective
  | .symbol (.operator kind) => kind.connective?
  | _ => none

def heads : Meaning → List Head
  | .var name => [.var name]
  | .symbol (.constant value) => [.const value]
  | .symbol .negationBefore | .symbol .negationAfter => [.not]
  | .symbol (.operator kind) => kind.heads
  | _ => []

theorem filter_isLeaf_heads (m : Meaning) : m.heads.filter Head.isLeaf = m.leaf?.toList := by
  cases m with
  | var name => rfl
  | stop => rfl
  | symbol s =>
    cases s with
    | operator kind => cases kind <;> rfl
    | _ => rfl

theorem count_binary_heads (m : Meaning) (c : Connective) :
    m.heads.count (.binary c) = if m.connective? = some c then 1 else 0 := by
  cases m with
  | var name => simp [heads, connective?]
  | stop => simp [heads, connective?]
  | symbol s =>
    cases s with
    | operator kind =>
      have hnegation : List.count (Head.binary c) (if kind.negates then [.not] else []) = 0 := by
        split <;> simp
      rw [heads, Kind.heads, List.count_append, hnegation, Nat.zero_add, connective?]
      cases kind.connective? with
      | none => simp
      | some d => simp [List.count_cons]
    | _ => simp [heads, connective?]

theorem mem_heads_var_iff (m : Meaning) (name : Text) : .var name ∈ m.heads ↔ m = .var name := by
  cases m with
  | var other => simp [heads, eq_comm]
  | stop => simp [heads]
  | symbol s =>
    cases s with
    | operator kind => cases kind <;> simp [heads, Kind.heads, Kind.negates, Kind.connective?]
    | _ => simp [heads]

end Meaning

section Tokens

variable (meanings : List Meaning)

theorem filter_isLeaf_flatMap_heads :
    (meanings.flatMap Meaning.heads).filter Head.isLeaf = meanings.filterMap Meaning.leaf? := by
  simp only [List.filter_flatMap, Meaning.filter_isLeaf_heads, List.filterMap_eq_flatMap_toList]

theorem count_binary_flatMap_heads (c : Connective) :
    (meanings.flatMap Meaning.heads).count (.binary c) =
      meanings.countP fun m => m.connective? = some c := by
  induction meanings with
  | nil => rfl
  | cons m rest ih =>
    rw [List.flatMap_cons, List.count_append, ih, Meaning.count_binary_heads, List.countP_cons,
      Nat.add_comm]
    simp

/-- Negations are counted by the marks and by the operators that negate what they join. -/
theorem count_not_flatMap_heads :
    (meanings.flatMap Meaning.heads).count .not =
      meanings.count (.symbol .negationBefore) + meanings.count (.symbol .negationAfter) +
        meanings.count (.symbol (.operator .nonImplication)) +
        meanings.count (.symbol (.operator .nonConverse)) +
        meanings.count (.symbol (.operator .nonIff)) := by
  induction meanings with
  | nil => rfl
  | cons m rest ih =>
    rw [List.flatMap_cons, List.count_append, ih]
    cases m with
    | var name => simp [Meaning.heads]
    | stop => simp [Meaning.heads]
    | symbol s =>
      cases s with
      | operator kind =>
        cases kind <;>
          simp [Meaning.heads, Kind.heads, Kind.negates, Kind.connective?] <;> omega
      | _ => simp [Meaning.heads] <;> omega

end Tokens

/-- Exchanged or not, joining keeps the nodes of both operands and adds its own. -/
theorem Kind.heads_of_join? {kind : Kind} {f g joined : Formula} (h : kind.join? f g = some joined) :
    joined.heads.Perm (kind.heads ++ (f.heads ++ g.heads)) := by
  have hexchanged : ∀ front, List.Perm (front ++ (g.heads ++ f.heads)) (front ++ (f.heads ++ g.heads)) :=
    fun front => List.perm_append_comm.append_left front
  cases kind with
  | converse =>
    cases h
    simpa [Kind.heads, Kind.negates, Kind.connective?] using hexchanged [.binary .implies]
  | nonConverse =>
    cases h
    simpa [Kind.heads, Kind.negates, Kind.connective?] using hexchanged [.not, .binary .implies]
  | _ =>
    cases h <;> simp [Kind.heads, Kind.negates, Kind.connective?]

/-- Where operands are not exchanged, joining keeps the order of the leaves. -/
theorem Kind.leaves_of_join? {kind : Kind} {f g joined : Formula} (h : kind.join? f g = some joined)
    (hkeeps : kind.exchanges = false) : joined.leaves = f.leaves ++ g.leaves := by
  cases kind with
  | converse | nonConverse => cases hkeeps
  | _ => cases h <;> simp

/-! ### Derivations -/

namespace Derives

variable {level : Level} {meanings : List Meaning} {f : Formula}

/-- **The nodes of a formula are those of its tokens**, each as often. -/
theorem heads_perm (h : Derives level meanings f) :
    f.heads.Perm (meanings.flatMap Meaning.heads) := by
  induction h with
  | var name => simp [Meaning.heads]
  | const value => simp [Meaning.heads]
  | brackets content ih => simpa [Meaning.heads] using ih
  | @marks before after operand f marked ih =>
    have hmarks : ∀ n m, Meaning.heads m = [.not] →
        (List.replicate n m).flatMap Meaning.heads = List.replicate n .not := by
      intro n m hm
      rw [List.flatMap_replicate, hm, List.flatten_replicate_singleton]
    rw [List.flatMap_append, List.flatMap_append, hmarks before _ rfl, hmarks after _ rfl,
      Formula.heads_negated, ← List.replicate_append_replicate, List.append_assoc, List.append_assoc]
    exact (List.perm_append_comm.trans (ih.append_right _)).append_left _
  | operand chain single ih => exact ih
  | @link _ _ _ kind left right f g joined chain ofBand shorter last join ihLeft ihRight =>
    rw [List.flatMap_append, List.flatMap_cons]
    have hsides := (ihLeft.append ihRight).append_left kind.heads
    exact (Kind.heads_of_join? join).trans (hsides.trans (List.perm_append_comm_assoc _ _ _))

/-- Without converse operators, the leaves stand in the order of the operands. -/
theorem leaves_eq (h : Derives level meanings f)
    (hkeeps : ∀ kind, .symbol (.operator kind) ∈ meanings → kind.exchanges = false) :
    f.leaves = meanings.filterMap Meaning.leaf? := by
  induction h with
  | var name => simp [Meaning.leaf?]
  | const value => simp [Meaning.leaf?]
  | brackets content ih =>
    rw [List.filterMap_cons_none rfl, List.filterMap_append, List.filterMap_cons_none rfl,
      List.filterMap_nil, List.append_nil]
    exact ih fun kind hkind => hkeeps kind (by simp [hkind])
  | marks before after marked ih =>
    rw [Formula.leaves_negated, List.filterMap_append, List.filterMap_append,
      List.filterMap_replicate_of_none rfl, List.filterMap_replicate_of_none rfl, List.nil_append,
      List.append_nil]
    exact ih fun kind hkind => hkeeps kind (by simp [hkind])
  | operand chain single ih => exact ih hkeeps
  | @link _ _ _ kind left right f g joined chain ofBand shorter last join ihLeft ihRight =>
    rw [Kind.leaves_of_join? join (hkeeps kind (by simp)),
      ihLeft fun other hother => hkeeps other (by simp [hother]),
      ihRight fun other hother => hkeeps other (by simp [hother]), List.filterMap_append,
      List.filterMap_cons_none rfl]

end Derives

/-! ### What is read -/

/-- **Nothing is lost and nothing is made twice.**  The leaves of what is read are its operands, its
connectives are counted by the operators that join by them, and its negations by the marks and the negating
operators.  Without converse operators the leaves keep the order of the operands.  So the names listed
are those that were read, each once. -/
theorem Formula.nodes_of_ofTokens {tokens : List Token} {f : Formula}
    (h : Formula.ofTokens tokens = .ok f) :
    let read := meaningsBeforeStop tokens
    f.leaves.Perm (read.filterMap Meaning.leaf?) ∧
    (∀ c, f.heads.count (.binary c) = read.countP fun m => m.connective? = some c) ∧
    f.heads.count .not =
      read.count (.symbol .negationBefore) + read.count (.symbol .negationAfter) +
        read.count (.symbol (.operator .nonImplication)) +
        read.count (.symbol (.operator .nonConverse)) + read.count (.symbol (.operator .nonIff)) ∧
    (.symbol (.operator .converse) ∉ read → .symbol (.operator .nonConverse) ∉ read →
      f.leaves = read.filterMap Meaning.leaf?) ∧
    f.names.Nodup ∧ ∀ name, name ∈ f.names ↔ .var name ∈ read := by
  intro read
  have hderives : Derives .biconditional read f := derives_of_ofTokens h
  have hnodes := hderives.heads_perm
  refine ⟨?_, fun c => ?_, ?_, fun hconverse hnonConverse => ?_, f.nodup_names, fun name => ?_⟩
  · rw [← filter_isLeaf_flatMap_heads]
    exact hnodes.filter _
  · rw [hnodes.count_eq, count_binary_flatMap_heads]
  · rw [hnodes.count_eq, count_not_flatMap_heads]
  · refine hderives.leaves_eq fun kind hkind => ?_
    cases kind with
    | converse => exact absurd hkind hconverse
    | nonConverse => exact absurd hkind hnonConverse
    | _ => rfl
  · simp [f.names_spec.2, hnodes.mem_iff, Meaning.mem_heads_var_iff]

/-- `¬(p ↛ q)′ ↔ p`, followed by a stop and a name that nobody reads. -/
theorem Formula.nodes_of_ofTokens_marked :
    let token (m : Meaning) : Token := ⟨m, [], 0⟩
    let p : Meaning := .var ['p']
    let read : List Meaning :=
      [.symbol .negationBefore, .symbol .opening, p, .symbol (.operator .nonImplication), .var ['q'],
        .symbol .closing, .symbol .negationAfter, .symbol (.operator .iff), p]
    let tokens := (read ++ [Meaning.stop, Meaning.var ['r']]).map token
    ∃ f, Formula.ofTokens tokens = .ok f ∧ f.leaves = [.var ['p'], .var ['q'], .var ['p']] ∧
      f.heads.count .not = 3 ∧ f.heads.count (.binary .implies) = 1 ∧
      ∀ name, name ∈ f.names ↔ name = ['p'] ∨ name = ['q'] := by
  intro token p read tokens
  have hinside : Derives .primary
      [.symbol .opening, p, .symbol (.operator .nonImplication), .var ['q'], .symbol .closing] _ :=
    .brackets (.joined (.unmarked (.var ['p'])) (.unmarked (.var ['q'])) rfl)
  have hread : Formula.ofTokens tokens = .ok _ :=
    ofTokens_of_derives (.joined (.marks 1 1 hinside) (.unmarked (.var ['p'])) rfl)
  obtain ⟨-, hconnectives, hnegations, hleaves, -, hnames⟩ := nodes_of_ofTokens hread
  refine ⟨_, hread, hleaves (by decide) (by decide), hnegations, hconnectives .implies, fun name => ?_⟩
  have hvariables : Meaning.var name ∈ meaningsBeforeStop tokens ↔
      name = ['p'] ∨ name = ['q'] ∨ name = ['p'] := by
    simp [tokens, meaningsBeforeStop, read, token, Token.isStop, p]
  rw [hnames, hvariables]
  exact ⟨by rintro (h | h | h) <;> simp [h], by rintro (h | h) <;> simp [h]⟩

end Wff
