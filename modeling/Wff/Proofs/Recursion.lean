import Wff.Formula.Traversal
import Wff.Grammar
import Wff.Proofs.Limit
import Wff.Proofs.Scanning
import Wff.Symbol.Standard

/-!
# Wff.Proofs.Recursion — how deep readings nest

A reading at one level begins readings at the next, and only brackets lead back to the loosest level.
`Call.Begins` says which readings a reading begins, and `Active` which ones can be active at once;
neither mentions a limit.  They are tied to the readers by what happens when too few brackets may be
open: reading meets one too many exactly when more readings of whole formulas are active at once, the
outermost left out (`exhausts_iff_exists_active`).

Every reading of a whole formula but the outermost stands behind an opening bracket that is still
open, for reading as for bracket matching (`Active.reaches`).  So where brackets are matched within
the limit, the readings of whole formulas that are active are one more than the limit at most, and the
limit makes no difference to what is read (`Table.recursion_bounded`).
-/

namespace Wff

open Pending

/-! ### Readings that are active -/

/-- A reading that has begun at a level, with the tokens from there on. -/
structure Call where
  level : Level
  tokens : List Token
  deriving DecidableEq, Repr

/-- Where a chain reads its operands: at its first token, and behind each operator of the band that
follows an operand. -/
inductive Turn (band : Band) (next : Level) : List Token → List Token → Prop
  | first (tokens : List Token) : Turn band next tokens tokens
  /-- an operand of the chain that goes on behind an operator -/
  | again {tokens rest there : List Token} {f : Formula} {token : Token} {kind : Kind}
      (read : (Reader.atLevel tokens.length next).run tokens = (.ok f, token :: rest))
      (operator : token.operatorOf? band = some kind) (others : Turn band next rest there) :
      Turn band next tokens there

inductive Call.Begins : Call → Call → Prop
  | operand {level next : Level} {band : Band} {tokens there : List Token}
      (chain : level.chain? = some (band, next)) (turn : Turn band next tokens there) :
      Begins ⟨level, tokens⟩ ⟨next, there⟩
  | marked (tokens : List Token) :
      Begins ⟨.negation, tokens⟩ ⟨.primary, tokens.dropWhile Token.isMarkBefore⟩
  | inside {opening : Token} (bracket : opening.meaning = .symbol .opening) (rest : List Token) :
      Begins ⟨.primary, opening :: rest⟩ ⟨.biconditional, rest⟩

/-- While a formula is read off the tokens, `call` can be active, and the readings that wait for it
are `waiting`, the last one begun first. -/
inductive Active (tokens : List Token) : Call → List Call → Prop
  | outermost : Active tokens ⟨.biconditional, tokens⟩ []
  /-- a reading begun by an active one, which waits from then on -/
  | begun {caller callee : Call} {waiting : List Call} (active : Active tokens caller waiting)
      (begins : caller.Begins callee) : Active tokens callee (caller :: waiting)

def formulaCalls (calls : List Call) : Nat := calls.countP (·.level == .biconditional)

@[simp] theorem formulaCalls_nil : formulaCalls [] = 0 := rfl

@[simp] theorem formulaCalls_cons_biconditional (tokens : List Token) (calls : List Call) :
    formulaCalls (⟨.biconditional, tokens⟩ :: calls) = formulaCalls calls + 1 :=
  List.countP_cons_of_pos rfl

theorem formulaCalls_cons (call : Call) (calls : List Call) :
    formulaCalls (call :: calls) = formulaCalls [call] + formulaCalls calls := by
  show formulaCalls ([call] ++ calls) = _
  exact List.countP_append

theorem formulaCalls_cons_of_ne {level : Level} (h : level ≠ .biconditional) (tokens : List Token)
    (calls : List Call) : formulaCalls (⟨level, tokens⟩ :: calls) = formulaCalls calls :=
  List.countP_cons_of_neg (by simpa using h)

theorem Level.next_ne_biconditional {level next : Level} {band : Band}
    (h : level.chain? = some (band, next)) : next ≠ .biconditional := by
  rintro rfl
  cases level <;> cases h

/-! ### Too few brackets -/

section Chain

variable {level next : Level} {band : Band} (hchain : level.chain? = some (band, next)) {depth : Nat}

theorem exists_turn_of_grow {f : Formula} {tokens : List Token}
    (h : (Reader.grow band (Reader.atLevel depth next) f tokens).1 = .error .tooDeep) :
    ∃ token rest kind there, tokens = token :: rest ∧ token.operatorOf? band = some kind ∧
      Turn band next rest there ∧ next.Exhausts depth there := by
  fun_induction Reader.grow band (Reader.atLevel depth next) f tokens with
  | case1 | case2 => cases h
  | case3 f token rest kind hkind reading cause hcause =>
    exact ⟨token, rest, kind, rest, rfl, hkind, .first rest, hcause.trans h⟩
  | case4 f token rest kind hkind reading g hg both hboth ih =>
    obtain ⟨other, more, kind', there, hmore, hoperator, hturn, hdeep⟩ := ih h
    have hrun : (Reader.atLevel depth next).run rest = (.ok g, other :: more) := by
      rw [← hmore, ← hg]
    exact ⟨token, rest, kind, there, rfl, hkind,
      .again (Reader.run_of_run_eq_ok hrun) hoperator hturn, hdeep⟩
  | case5 => cases h

include hchain

theorem Turn.exhausts {tokens there : List Token} (h : Turn band next tokens there)
    (hthere : next.Exhausts depth there) :
    next.Exhausts depth tokens ∨
      ∃ f rest, (Reader.atLevel depth next).run tokens = (.ok f, rest) ∧
        ∀ g, (Reader.grow band (Reader.atLevel depth next) g rest).1 = .error .tooDeep := by
  induction h with
  | first tokens => exact Or.inl hthere
  | again read operator others ih =>
    rename_i tokens rest there f token kind
    by_cases hdeep : next.Exhausts depth tokens
    · exact Or.inl hdeep
    · -- read without a limit, the operand is the same
      have henough : ¬ next.Exhausts tokens.length tokens := by simp [Level.Exhausts, read]
      have hrun : (Reader.atLevel depth next).run tokens = (.ok f, token :: rest) :=
        (Level.run_eq_of_not_exhausts hdeep henough).trans read
      refine Or.inr ⟨f, token :: rest, hrun, fun g => ?_⟩
      rw [Reader.grow, operator]
      rcases ih hthere with hnext | ⟨second, more, hsecond, hgrow⟩
      · unfold Level.Exhausts at hnext
        simp only [hnext]
      · obtain ⟨both, hboth⟩ := Kind.exists_join? (Level.band_ne_negation hchain)
          (Token.operatorOf?_eq_some_iff.mp operator).2 g second
        simp only [hsecond, hboth]
        exact hgrow both

/-- A chain meets a bracket too many exactly if one of its operands does. -/
theorem Level.exhausts_chain_iff {tokens : List Token} :
    level.Exhausts depth tokens ↔
      ∃ there, Turn band next tokens there ∧ next.Exhausts depth there := by
  constructor
  · intro hdeep
    unfold Exhausts at hdeep
    rw [Reader.atLevel_of_chain? hchain, Reader.chain_run hchain] at hdeep
    rcases hrun : (Reader.atLevel depth next).run tokens with ⟨cause | f, rest⟩
    · rw [hrun] at hdeep
      exact ⟨tokens, .first tokens, (congrArg Prod.fst hrun).trans hdeep⟩
    · rw [hrun] at hdeep
      obtain ⟨token, more, kind, there, rfl, hoperator, hturn, hthere⟩ := exists_turn_of_grow hdeep
      exact ⟨there, .again (Reader.run_of_run_eq_ok hrun) hoperator hturn, hthere⟩
  · rintro ⟨there, hturn, hthere⟩
    unfold Exhausts
    rw [Reader.atLevel_of_chain? hchain, Reader.chain_run hchain]
    rcases hturn.exhausts hchain hthere with hfirst | ⟨f, rest, hrun, hgrow⟩
    · unfold Exhausts at hfirst
      rcases hrun : (Reader.atLevel depth next).run tokens with ⟨cause | f, rest⟩
      · rwa [hrun] at hfirst
      · rw [hrun] at hfirst
        cases hfirst
    · rw [hrun]
      exact hgrow f

end Chain

namespace Call

variable {caller callee : Call}

/-- A reading meets each bracket too many that a reading begun by it meets, and opens one itself if
that is of a whole formula. -/
theorem Begins.exhausts (h : caller.Begins callee) {depth : Nat}
    (hcallee : callee.level.Exhausts depth callee.tokens) :
    caller.level.Exhausts (depth + formulaCalls [callee]) caller.tokens := by
  cases h with
  | operand chain turn =>
    rw [formulaCalls_cons_of_ne (Level.next_ne_biconditional chain)]
    exact (Level.exhausts_chain_iff chain).mpr ⟨_, turn, hcallee⟩
  | marked tokens => exact Level.exhausts_negation_iff.mpr hcallee
  | inside bracket rest =>
    exact Level.exhausts_primary_succ_iff.mpr ⟨_, rest, rfl, bracket, hcallee⟩

theorem Begins.exhausts_zero (h : caller.Begins callee) (hcallee : callee.level = .biconditional) :
    caller.level.Exhausts 0 caller.tokens := by
  cases h with
  | operand chain turn => exact absurd hcallee (Level.next_ne_biconditional chain)
  | marked tokens => cases hcallee
  | inside bracket rest => exact Level.exhausts_primary_zero_iff.mpr ⟨_, rest, rfl, bracket⟩

end Call

namespace Active

variable {tokens : List Token} {call : Call} {waiting : List Call}

theorem formulaCalls_pos (h : Active tokens call waiting) : 0 < formulaCalls (call :: waiting) := by
  induction h with
  | outermost => exact Nat.zero_lt_one
  | begun active begins ih => exact ih.trans_le (List.sublist_cons_self _ _).countP_le

/-- What an active reading meets too many, the outermost does with all brackets open in between. -/
theorem exhausts (h : Active tokens call waiting) {depth : Nat}
    (hcall : call.level.Exhausts depth call.tokens) :
    Level.biconditional.Exhausts (depth + formulaCalls (call :: waiting) - 1) tokens := by
  induction h generalizing depth with
  | outermost => exact hcall
  | begun active begins ih =>
    have hpos := active.formulaCalls_pos
    rw [formulaCalls_cons]
    refine (ih (begins.exhausts hcall)).of_le ?_
    omega

/-- Where more readings of whole formulas are active than brackets may be open, the outermost left
out, one bracket is too many. -/
theorem exhausts_of_lt (h : Active tokens call waiting) {depth : Nat}
    (hlt : depth + 1 < formulaCalls (call :: waiting)) : Level.biconditional.Exhausts depth tokens := by
  induction h with
  | outermost => simp at hlt
  | begun active begins ih =>
    rename_i caller callee waiting
    by_cases hlevel : callee.level = .biconditional
    · have hcount : formulaCalls (callee :: caller :: waiting) = formulaCalls (caller :: waiting) + 1 :=
        List.countP_cons_of_pos (by simp [hlevel])
      refine (active.exhausts (begins.exhausts_zero hlevel)).of_le ?_
      omega
    · rw [formulaCalls_cons_of_ne hlevel] at hlt
      exact ih hlt

end Active

/-- A reading that meets a bracket too many begins readings, one in the other, until more of whole
formulas are active than brackets may be open. -/
theorem Level.Exhausts.exists_active {depth : Nat} {level : Level} {part : List Token}
    (h : level.Exhausts depth part) {tokens : List Token} {waiting : List Call}
    (hactive : Active tokens ⟨level, part⟩ waiting) :
    ∃ call others, Active tokens call others ∧
      formulaCalls (call :: others) = formulaCalls (⟨level, part⟩ :: waiting) + depth + 1 := by
  suffices hall : ∀ depth level, ∀ part, Level.Exhausts level depth part →
      ∀ waiting, Active tokens ⟨level, part⟩ waiting →
        ∃ call others, Active tokens call others ∧
          formulaCalls (call :: others) = formulaCalls (⟨level, part⟩ :: waiting) + depth + 1 from
    hall depth level part h waiting hactive
  -- only behind a bracket does the count go up, and the limit that is left goes down with it
  refine Level.induction ?_ ?_ ?_ ?_
  · intro part hdeep waiting hactive
    obtain ⟨token, rest, rfl, hopening⟩ := exhausts_primary_zero_iff.mp hdeep
    exact ⟨_, _, hactive.begun (.inside hopening rest), formulaCalls_cons_biconditional _ _⟩
  · intro depth ih part hdeep waiting hactive
    obtain ⟨token, rest, rfl, hopening, hinside⟩ := exhausts_primary_succ_iff.mp hdeep
    obtain ⟨call, others, hcall, hcount⟩ := ih rest hinside _ (hactive.begun (.inside hopening rest))
    refine ⟨call, others, hcall, ?_⟩
    rw [formulaCalls_cons_biconditional] at hcount
    omega
  · intro depth ih part hdeep waiting hactive
    obtain ⟨call, others, hcall, hcount⟩ :=
      ih _ (exhausts_negation_iff.mp hdeep) _ (hactive.begun (.marked part))
    refine ⟨call, others, hcall, ?_⟩
    rwa [formulaCalls_cons_of_ne (show Level.primary ≠ .biconditional by simp)] at hcount
  · intro depth level band next hchain ih part hdeep waiting hactive
    obtain ⟨there, hturn, hthere⟩ := (exhausts_chain_iff hchain).mp hdeep
    obtain ⟨call, others, hcall, hcount⟩ := ih there hthere _ (hactive.begun (.operand hchain hturn))
    refine ⟨call, others, hcall, ?_⟩
    rwa [formulaCalls_cons_of_ne (Level.next_ne_biconditional hchain)] at hcount

theorem exhausts_iff_exists_active {depth : Nat} {tokens : List Token} :
    Level.biconditional.Exhausts depth tokens ↔
      ∃ call waiting, Active tokens call waiting ∧ depth + 1 < formulaCalls (call :: waiting) := by
  constructor
  · intro hdeep
    obtain ⟨call, waiting, hactive, hcount⟩ := hdeep.exists_active .outermost
    refine ⟨call, waiting, hactive, ?_⟩
    rw [hcount, formulaCalls_cons_biconditional]
    omega
  · rintro ⟨call, waiting, hactive, hlt⟩
    exact hactive.exhausts_of_lt hlt

/-! ### Brackets that are open -/

theorem Turn.reaches {level next : Level} {band : Band} (hchain : level.chain? = some (band, next))
    {tokens there : List Token} (h : Turn band next tokens there) :
    ∃ used, tokens = used ++ there ∧ ∀ opened, Reaches (awaiting opened) used (awaiting opened) := by
  induction h with
  | first tokens => exact ⟨[], rfl, fun opened => .nil _⟩
  | again read operator others ih =>
    rename_i tokens rest there f token kind
    obtain ⟨⟨operand, rfl, hderives⟩, -⟩ := Reader.derives_of_run _ _ _ _ _ read
    obtain ⟨used, rfl, hreaches⟩ := ih
    obtain ⟨hmeaning, hband⟩ := Token.operatorOf?_eq_some_iff.mp operator
    have hbinary := Kind.isBinary_of_band (Level.band_ne_negation hchain) hband
    refine ⟨operand ++ token :: used, by simp, fun opened => ?_⟩
    exact (hderives.reaches operand rfl opened).append
      (.cons (step_operator hmeaning hbinary) (hreaches opened))

/-- What a reading has taken before it begins another leaves open a bracket more, if the other is of
a whole formula, and else the same. -/
theorem Call.Begins.reaches {caller callee : Call} (h : caller.Begins callee) (opened : List Token) :
    ∃ used inside, caller.tokens = used ++ callee.tokens ∧
      Reaches (awaiting opened) used (awaiting inside) ∧
      inside.length = opened.length + formulaCalls [callee] := by
  cases h with
  | operand chain turn =>
    obtain ⟨used, hsplit, hreaches⟩ := turn.reaches chain
    refine ⟨used, opened, hsplit, hreaches opened, ?_⟩
    rw [formulaCalls_cons_of_ne (Level.next_ne_biconditional chain)]
    rfl
  | marked tokens =>
    refine ⟨tokens.takeWhile Token.isMarkBefore, opened, List.takeWhile_append_dropWhile.symm, ?_, rfl⟩
    exact .of_forall fun token htoken => step_markBefore (List.mem_takeWhile_imp htoken)
  | inside bracket rest =>
    exact ⟨[_], _, rfl, .single (step_opening bracket), by simp⟩

namespace Active

variable {tokens : List Token} {call : Call} {waiting : List Call}

/-- The readings of whole formulas that are active are one more than the brackets open where the last
reading has begun. -/
theorem reaches (h : Active tokens call waiting) :
    ∃ used opened, tokens = used ++ call.tokens ∧ Reaches (awaiting []) used (awaiting opened) ∧
      formulaCalls (call :: waiting) = opened.length + 1 := by
  induction h with
  | outermost => exact ⟨[], [], rfl, .nil _, rfl⟩
  | begun active begins ih =>
    rename_i caller callee waiting
    obtain ⟨used, opened, hsplit, hreaches, hcount⟩ := ih
    obtain ⟨more, inside, hmore, hinside, hlength⟩ := begins.reaches opened
    refine ⟨used ++ more, inside, ?_, hreaches.append hinside, ?_⟩
    · rw [hsplit, hmore, List.append_assoc]
    · rw [formulaCalls_cons]
      omega

end Active

theorem Active.formulaCalls_le {tokens : List Token} {call : Call} {waiting : List Call}
    (h : Active (Cursor.ofTokens tokens).ahead call waiting) (hmatch : checkBrackets tokens = .ok ()) :
    formulaCalls (call :: waiting) ≤ nestingLimit + 1 := by
  obtain ⟨used, opened, hsplit, hreaches, hcount⟩ := h.reaches
  have htokens : used ++ (call.tokens ++ tokens.dropWhile (!·.isStop)) = tokens := by
    rw [← List.append_assoc, ← hsplit]
    exact List.takeWhile_append_dropWhile
  rw [← htokens] at hmatch
  rw [hcount]
  rcases hreaches.matchBrackets_append (call.tokens ++ tokens.dropWhile (!·.isStop)) with
    ⟨-, hroom⟩ | ⟨offset, hdeep⟩
  · exact Nat.succ_le_succ (hroom (Nat.zero_le _))
  · rw [show matchBrackets (awaiting []).opened _ = .ok () from hmatch] at hdeep
    cases hdeep

/-! ### Levels in between -/

/-- How many levels are at most as tight. -/
def Level.tightness : Level → Nat
  | .biconditional => 1
  | .implication => 2
  | .disjunction => 3
  | .conjunction => 4
  | .negation => 5
  | .primary => 6

theorem Level.tightness_of_chain? {level next : Level} {band : Band}
    (h : level.chain? = some (band, next)) : next.tightness = level.tightness + 1 := by
  cases level <;> cases h <;> rfl

/-- Between two readings of whole formulas, each level has one reading at most: neither negation
marks nor chains are waited for by more. -/
theorem Active.length_le {tokens : List Token} {call : Call} {waiting : List Call}
    (h : Active tokens call waiting) :
    waiting.length + 7 ≤ 6 * formulaCalls (call :: waiting) + call.level.tightness := by
  -- a reading begun is one level tighter, or behind a bracket, where six levels count as one reading
  induction h with
  | outermost => exact Nat.le_refl _
  | begun active begins ih =>
    rw [List.length_cons]
    cases begins with
    | operand chain turn =>
      have htight := Level.tightness_of_chain? chain
      rw [formulaCalls_cons_of_ne (Level.next_ne_biconditional chain)]
      dsimp only at ih ⊢
      omega
    | marked tokens =>
      rw [formulaCalls_cons_of_ne (show Level.primary ≠ .biconditional by simp)]
      simp only [Level.tightness] at ih ⊢
      omega
    | inside bracket rest =>
      rw [formulaCalls_cons_biconditional]
      simp only [Level.tightness] at ih ⊢
      omega

/-! ### Texts -/

/-- `call` can be active while the text is parsed, and `waiting` are the readings that wait for it. -/
def Table.ActiveIn (table : Table) (implicit : Bool) (text : Text) (call : Call)
    (waiting : List Call) : Prop :=
  ∃ tokens, table.tokens (if implicit then (table.reveal text).text else text) = .ok tokens ∧
    Active (Cursor.ofTokens tokens).ahead call waiting

/-- **Recursion is bounded.**  While a text is parsed, at most one reading of a whole formula more is
active than brackets may be open, and at most six readings for each, whatever negation marks and
chains it holds.  So a list whose brackets match is read the same with any number of brackets from
the limit on, and never meets one too many.  The two say the same: a bracket is too many exactly where
more readings of whole formulas are active at once.  `Formula.ofTokens` itself reads without a limit:
more brackets than tokens make no difference. -/
theorem Table.recursion_bounded :
    (∀ (table : Table) (implicit : Bool) (text : Text) (call : Call) (waiting : List Call),
      table.ActiveIn implicit text call waiting →
      formulaCalls (call :: waiting) ≤ nestingLimit + 1 ∧
        (call :: waiting).length ≤ 6 * (nestingLimit + 1)) ∧
    (∀ (tokens : List Token) (depth : Nat), checkBrackets tokens = .ok () → nestingLimit ≤ depth →
      Formula.ofTokensWithin depth tokens = Formula.ofTokens tokens ∧
        ∀ limit offset, Formula.ofTokensWithin depth tokens ≠ .error (.tooDeep limit offset)) ∧
    (∀ (tokens : List Token) (depth : Nat),
      (∃ limit offset, Formula.ofTokensWithin depth tokens = .error (.tooDeep limit offset)) ↔
        ∃ call waiting, Active (Cursor.ofTokens tokens).ahead call waiting ∧
          depth + 1 < formulaCalls (call :: waiting)) ∧
    ∀ (tokens : List Token) (depth : Nat), tokens.length ≤ depth →
      Formula.ofTokensWithin depth tokens = Formula.ofTokens tokens := by
  have hnever : ∀ (tokens : List Token) (depth : Nat), checkBrackets tokens = .ok () →
      nestingLimit ≤ depth → ¬ Level.biconditional.Exhausts depth (Cursor.ofTokens tokens).ahead := by
    intro tokens depth hmatch hdepth hdeep
    obtain ⟨call, waiting, hactive, hlt⟩ := exhausts_iff_exists_active.mp hdeep
    have hle := hactive.formulaCalls_le hmatch
    omega
  refine ⟨?_, ?_, ?_, ?_⟩
  · rintro table implicit text call waiting ⟨tokens, htokens, hactive⟩
    have hle := hactive.formulaCalls_le (checkBrackets_of_tokens htokens)
    have hlength := hactive.length_le
    have htight : call.level.tightness ≤ 6 := by cases call.level <;> decide
    refine ⟨hle, ?_⟩
    rw [List.length_cons]
    omega
  · intro tokens depth hmatch hdepth
    have hroom := hnever tokens depth hmatch hdepth
    refine ⟨Formula.ofTokensWithin_of_not_exhausts hroom, ?_⟩
    intro limit offset hfault
    exact hroom (Formula.ofTokensWithin_tooDeep_iff.mp ⟨limit, offset, hfault⟩)
  · intro tokens depth
    exact Formula.ofTokensWithin_tooDeep_iff.trans exhausts_iff_exists_active
  · intro tokens depth hle
    exact Formula.ofTokensWithin_of_length_le hle

/-- `~~((…(p)…)) & q & r` with as many brackets as may be open: there is one reading of a whole formula
more, and a bracket less would be too few. -/
theorem Table.recursion_bounded_attained :
    let text : Text := ['~', '~'] ++ List.replicate nestingLimit '(' ++ ['p'] ++
      List.replicate nestingLimit ')' ++ ['&', 'q', '&', 'r']
    (∃ call waiting, standard.ActiveIn false text call waiting ∧
      formulaCalls (call :: waiting) = nestingLimit + 1) ∧
    ∃ tokens, standard.tokens text = .ok tokens ∧
      (∃ limit offset, Formula.ofTokensWithin 127 tokens = .error (.tooDeep limit offset)) ∧
      Formula.ofTokensWithin nestingLimit tokens = Formula.ofTokensWithin 1000 tokens := by
  intro text
  have hlength : (standard.tokens text).map List.length = .ok 264 := by decide +kernel
  have hfault : (standard.tokens text).bind (Formula.ofTokensWithin 127) =
      .error (.tooDeep 127 129) := by decide +kernel
  cases htokens : standard.tokens text with
  | error fault =>
    rw [htokens] at hlength
    cases hlength
  | ok tokens =>
    rw [htokens] at hlength hfault
    have hlength : tokens.length = 264 := Except.ok.inj hlength
    have hdeep : ∃ limit offset,
        Formula.ofTokensWithin 127 tokens = .error (.tooDeep limit offset) := ⟨127, 129, hfault⟩
    obtain ⟨hbound, hsame, hexhausted, hlong⟩ := recursion_bounded
    obtain ⟨call, waiting, hactive, hlt⟩ := (hexhausted tokens 127).mp hdeep
    have hin : standard.ActiveIn false text call waiting := ⟨tokens, htokens, hactive⟩
    obtain ⟨hle, -⟩ := hbound standard false text call waiting hin
    refine ⟨⟨call, waiting, hin, Nat.le_antisymm hle hlt⟩, tokens, rfl, hdeep, ?_⟩
    obtain ⟨hlimit, -⟩ := hsame tokens nestingLimit (checkBrackets_of_tokens htokens) (Nat.le_refl _)
    rw [hlimit, hlong tokens 1000 (by omega)]

end Wff
