import Wff.Formula.Traversal
import Wff.Proofs.Limit
import Wff.Proofs.Places

/-!
# Wff.Proofs.Chains — every chain that is read can be joined

`Formula.chain` has no result where a link's kind is not binary, and kinds that are not are operators
all the same: a table may give an alias to any of them, and that of negation even has a band.  The
links that a reader collects are all of its level's own band (`Reader.band_of_mem_links`), which is
never that of negation.  So `Fault.notBinary` is what joining can say of links made by hand
(`Formula.chain_eq_error_iff`), and never of a text.
-/

namespace Wff

/-! ### Links made by hand -/

namespace Formula

/-- The error is the first kind that is not binary. -/
theorem chain_eq_error_iff {first : Formula} {links : List (Kind × Formula)} {kind : Kind} :
    first.chain links = .error kind ↔
      ∃ before operand after, links = before ++ (kind, operand) :: after ∧ kind.isBinary = false ∧
        ∀ link ∈ before, link.1.isBinary = true := by
  induction links generalizing first with
  | nil => simp [chain]
  | cons link links ih =>
    obtain ⟨k, operand⟩ := link
    have hjoins := Kind.join?_isSome k first operand
    rw [chain]
    -- a kind joins its operands just if it is binary
    cases hjoin : k.join? first operand with
    | none =>
      rw [hjoin, Option.isSome_none] at hjoins
      constructor
      · rintro ⟨⟩
        exact ⟨[], operand, links, rfl, hjoins.symm, by simp⟩
      · rintro ⟨_ | ⟨_, before⟩, _, after, hlinks, hkind, hbefore⟩
        · cases hlinks
          rfl
        · cases hlinks
          have hbinary := hbefore _ List.mem_cons_self
          rw [← hjoins] at hbinary
          cases hbinary
    | some joined =>
      rw [hjoin, Option.isSome_some] at hjoins
      refine ih.trans ⟨?_, ?_⟩
      · rintro ⟨before, last, after, rfl, hkind, hbefore⟩
        refine ⟨(k, operand) :: before, last, after, rfl, hkind, ?_⟩
        exact List.forall_mem_cons.mpr ⟨hjoins.symm, hbefore⟩
      · rintro ⟨_ | ⟨_, before⟩, last, after, hlinks, hkind, hbefore⟩
        · cases hlinks
          rw [← hjoins] at hkind
          cases hkind
        · cases hlinks
          exact ⟨before, last, after, rfl, hkind, (List.forall_mem_cons.mp hbefore).2⟩

theorem exists_chain_eq_error_iff {first : Formula} {links : List (Kind × Formula)} :
    (∃ kind, first.chain links = .error kind) ↔ ∃ link ∈ links, link.1.isBinary = false := by
  constructor
  · rintro ⟨kind, herror⟩
    obtain ⟨before, operand, after, rfl, hkind, -⟩ := chain_eq_error_iff.mp herror
    exact ⟨(kind, operand), by simp, hkind⟩
  · rintro ⟨link, hmem, hkind⟩
    by_contra hnone
    -- of the links that are not binary, the first one is the error
    obtain ⟨found, hfound⟩ := Option.isSome_iff_exists.mp
      (List.find?_isSome (p := fun link : Kind × Formula => !link.1.isBinary)
        |>.mpr ⟨link, hmem, by simp [hkind]⟩)
    obtain ⟨hnot, before, after, hsplit, hbefore⟩ := List.find?_eq_some_iff_append.mp hfound
    refine hnone ⟨found.1, chain_eq_error_iff.mpr ⟨before, found.2, after, hsplit, ?_, ?_⟩⟩
    · simpa using hnot
    · simpa using hbefore

end Formula

/-! ### Links that are read -/

namespace Reader

theorem band_of_mem_links {band : Band} {operand : Reader} {found links : List (Kind × Formula)}
    {tokens rest : List Token} (h : Reader.links band operand found tokens = (.ok links, rest))
    (hfound : ∀ link ∈ found, link.1.band? = some band) :
    ∀ link ∈ links, link.1.band? = some band := by
  fun_induction Reader.links band operand found tokens with
  | case1 found | case2 found =>
    cases h
    simpa using hfound
  | case3 => cases h
  | case4 found token rest kind hkind reading f hf ih =>
    refine ih h (List.forall_mem_cons.mpr ⟨?_, hfound⟩)
    exact (Token.operatorOf?_eq_some_iff.mp hkind).2

theorem chain_of_links {level next : Level} {band : Band} (hchain : level.chain? = some (band, next))
    {operand : Reader} {first : Formula} {links : List (Kind × Formula)} {tokens rest left : List Token}
    (hfirst : operand.run tokens = (.ok first, rest))
    (hlinks : Reader.links band operand [] rest = (.ok links, left)) :
    (∀ link ∈ links, link.1.band? = some band) ∧
      ∃ f, first.chain links = .ok f ∧ (chain band operand).run tokens = (.ok f, left) := by
  have hband := band_of_mem_links hlinks (by simp)
  refine ⟨hband, ?_⟩
  cases hjoin : first.chain links with
  | error kind =>
    obtain ⟨link, hmem, hkind⟩ := Formula.exists_chain_eq_error_iff.mp ⟨kind, hjoin⟩
    rw [Kind.isBinary_of_band (Level.band_ne_negation hchain) (hband link hmem)] at hkind
    cases hkind
  | ok f =>
    refine ⟨f, rfl, ?_⟩
    dsimp only [chain]
    rw [hfirst]
    dsimp only
    rw [hlinks]
    dsimp only
    rw [hjoin]

/-- No reader stops for a kind that joins nothing. -/
theorem run_ne_notBinary (depth : Nat) (level : Level) (tokens : List Token) (kind : Kind) :
    ((atLevel depth level).run tokens).1 ≠ .error (.notBinary kind) := by
  intro hkind
  have hrun : (atLevel depth level).run tokens =
      (.error (.notBinary kind), ((atLevel depth level).run tokens).2) := Prod.ext hkind rfl
  by_cases hmarks : level = .primary → Stops Token.isMarkBefore tokens
  · obtain ⟨_, -, hblames⟩ := blames_of_run depth level _ _ _ hmarks hrun
    exact hblames
  · rw [run_of_mark hmarks] at hkind
    cases hkind

end Reader

/-! ### Lists and texts -/

theorem Formula.ofTokens_ne_notBinary (tokens : List Token) (kind : Kind) :
    Formula.ofTokens tokens ≠ .error (.notBinary kind) := by
  intro hfault
  rcases fault_cases hfault with hmissing | ⟨_, _, _, _, -, -, -, -, -, htrailing⟩ | ⟨_, _, -, hopen⟩
  · cases hmissing
  · cases htrailing
  · cases hopen

theorem Table.parseExplicit_ne_notBinary (table : Table) (text : Text) (kind : Kind) :
    table.parseExplicit text ≠ .error (.notBinary kind) := by
  intro hfault
  rcases blamed_of_parseExplicit hfault with hscan | ⟨scanned, -, hblamed⟩
  · obtain ⟨_, _, _, -, -, hunrecognized⟩ := stands_of_scanFrom_error hscan
    cases hunrecognized
  · cases hblamed

theorem Table.parse_ne_notBinary (table : Table) (implicit : Bool) (text : Text) (kind : Kind) :
    table.parse implicit text ≠ .error (.notBinary kind) := by
  intro hfault
  cases implicit with
  | false => exact parseExplicit_ne_notBinary table text kind hfault
  | true =>
    obtain ⟨shown, hshown, hkind⟩ := exists_of_parse_implicit hfault
    cases shown with
    | notBinary other => exact parseExplicit_ne_notBinary table _ other hshown
    | unrecognized | unmatched | missingOperand | trailing | tooDeep | ambiguousAlias => cases hkind

/-- **Every chain that is read can be joined.**  The links that a reader collects at a level of chains
are all of that level's band, so they are joined to the first operand, and that is what the level reads;
whatever operators a table has, no list and no text has a fault for a kind that joins nothing.  Joining
links as such has none exactly if one of the kinds is not binary, and then names the first that is
not. -/
theorem Formula.chains_read_are_joined :
    (∀ (depth : Nat) (level next : Level) (band : Band), level.chain? = some (band, next) →
      ∀ (tokens rest left : List Token) (first : Formula) (links : List (Kind × Formula)),
        (Reader.atLevel depth next).run tokens = (.ok first, rest) →
        Reader.links band (Reader.atLevel depth next) [] rest = (.ok links, left) →
        (∀ link ∈ links, link.1.band? = some band) ∧
          ∃ f, first.chain links = .ok f ∧ (Reader.atLevel depth level).run tokens = (.ok f, left)) ∧
    (∀ (depth : Nat) (level : Level) (tokens : List Token) (kind : Kind),
      ((Reader.atLevel depth level).run tokens).1 ≠ .error (.notBinary kind)) ∧
    (∀ (tokens : List Token) (kind : Kind), Formula.ofTokens tokens ≠ .error (.notBinary kind)) ∧
    (∀ (table : Table) (implicit : Bool) (text : Text) (kind : Kind),
      table.parse implicit text ≠ .error (.notBinary kind)) ∧
    (∀ (first : Formula) (links : List (Kind × Formula)),
      (∃ kind, first.chain links = .error kind) ↔ ∃ link ∈ links, link.1.isBinary = false) ∧
    ∀ (first : Formula) (links : List (Kind × Formula)) (kind : Kind),
      first.chain links = .error kind ↔
        ∃ before operand after, links = before ++ (kind, operand) :: after ∧ kind.isBinary = false ∧
          ∀ link ∈ before, link.1.isBinary = true := by
  refine ⟨?_, Reader.run_ne_notBinary, ofTokens_ne_notBinary, Table.parse_ne_notBinary,
    fun _ _ => exists_chain_eq_error_iff, fun _ _ _ => chain_eq_error_iff⟩
  intro depth level next band hchain tokens rest left first links hfirst hlinks
  rw [Reader.atLevel_of_chain? hchain]
  exact Reader.chain_of_links hchain hfirst hlinks

/-- `p&q n r`, where `n` is an operator of negation: the chain of `p` and `q` ends before it, and by
hand it could not be joined with `r`. -/
theorem Formula.chains_read_are_joined_before_not :
    let p : Formula := .var ['p']
    let q : Formula := .var ['q']
    let table : Table := ⟨[(['&'], .operator .and), (['n'], .operator .not)], by decide⟩
    let left : List Token := [⟨.symbol (.operator .not), ['n'], 4⟩, ⟨.var ['r'], ['r'], 6⟩]
    let tokens : List Token := [⟨.var ['p'], ['p'], 0⟩, ⟨.symbol (.operator .and), ['&'], 1⟩,
      ⟨.var ['q'], ['q'], 2⟩] ++ left
    (∃ f, p.chain [(.and, q)] = .ok f ∧ (Reader.atLevel 0 .conjunction).run tokens = (.ok f, left)) ∧
      table.parse false ['p', '&', 'q', ' ', 'n', ' ', 'r'] = .error (.trailing ['n'] 4) ∧
      ∃ kind, p.chain [(.and, q), (.not, .var ['r'])] = .error kind := by
  intro p q table left tokens
  obtain ⟨hread, -, -, -, hjoin, -⟩ := chains_read_are_joined
  have hfirst : (Reader.atLevel 0 .negation).run tokens = (.ok p, tokens.tail) := by decide +kernel
  have hlinks : Reader.links .conjunction (Reader.atLevel 0 .negation) [] tokens.tail =
      (.ok [(.and, q)], left) := by decide +kernel
  obtain ⟨-, hchain⟩ :=
    hread 0 .conjunction .negation .conjunction rfl tokens tokens.tail left p _ hfirst hlinks
  refine ⟨hchain, by decide +kernel, (hjoin _ _).mpr ⟨(.not, .var ['r']), ?_, rfl⟩⟩
  exact List.mem_cons_of_mem _ List.mem_cons_self

end Wff
