import Wff.Reader.Cursor

/-!
# Wff.Reader.Pointer — an index in a list of tokens

A cursor keeps only the tokens ahead; a pointer keeps the whole list and the index at which it stands.
It looks no further than the last token and does not pass one that ends the list.  A procedure reads a
formula from a pointer on and makes a fault where it meets it, without knowing what becomes of it.
-/

namespace Wff

/-- The tokens, and one that ends them unless the last one does. -/
def Token.ended (tokens : List Token) : List Token :=
  if tokens.getLast?.any Token.isStop then tokens
  else tokens ++ [.stopAt ((tokens.getLast?.map Token.endOffset).getD 0)]

theorem Token.getLast?_ended (tokens : List Token) :
    (Token.ended tokens).getLast?.any Token.isStop = true := by
  unfold Token.ended
  split
  · assumption
  · rw [List.getLast?_concat]
    rfl

/-- An index in a list whose last token ends it. -/
structure Pointer where
  list : List Token
  place : Nat
  ends : list.getLast?.any Token.isStop = true

namespace Pointer

def ofTokens (tokens : List Token) : Pointer :=
  { list := Token.ended tokens, place := 0, ends := Token.getLast?_ended tokens }

theorem length_pos (p : Pointer) : 0 < p.list.length := by
  rw [List.length_pos_iff]
  intro hnil
  have hends := p.ends
  rw [hnil] at hends
  cases hends

/-- The token at the index; behind the last one it is the last one. -/
def current (p : Pointer) : Token :=
  p.list.get ⟨min p.place (p.list.length - 1), by have hpos := p.length_pos; omega⟩

def atEnd (p : Pointer) : Bool := p.current.isStop

/-- One place further, unless the token there ends the list. -/
def advance (p : Pointer) : Pointer := if p.atEnd then p else { p with place := p.place + 1 }

def check (p : Pointer) (meaning : Meaning) : Bool := p.current.meaning == meaning

def accept (p : Pointer) (meaning : Meaning) : Bool × Pointer :=
  if p.check meaning then (true, p.advance) else (false, p)

def acceptOperator (p : Pointer) (band : Band) : Option Kind × Pointer :=
  match p.current.operatorOf? band with
  | some kind => (some kind, p.advance)
  | none => (none, p)

def missingOperand (p : Pointer) : Fault := .missingOperand p.current.offset

def trailing (p : Pointer) : Fault := .trailing p.current.literal p.current.offset

section Accepting

variable {p : Pointer} {meaning : Meaning} {band : Band} {kind : Kind}

theorem accept_of_check (h : p.check meaning = true) : p.accept meaning = (true, p.advance) :=
  if_pos h

theorem accept_of_not_check (h : p.check meaning = false) : p.accept meaning = (false, p) :=
  if_neg (by rw [h]; exact Bool.false_ne_true)

theorem acceptOperator_of_some (h : p.current.operatorOf? band = some kind) :
    p.acceptOperator band = (some kind, p.advance) := by
  rw [acceptOperator, h]

theorem acceptOperator_of_none (h : p.current.operatorOf? band = none) :
    p.acceptOperator band = (none, p) := by
  rw [acceptOperator, h]

end Accepting

/-! ### Moving on -/

/-- One pointer stands in the same list as the other, and not before it. -/
structure Precedes (before after : Pointer) : Prop where
  list_eq : after.list = before.list
  place_le : before.place ≤ after.place

theorem Precedes.refl (p : Pointer) : p.Precedes p := ⟨rfl, Nat.le_refl _⟩

theorem Precedes.trans {p q r : Pointer} (h : p.Precedes q) (hmore : q.Precedes r) : p.Precedes r :=
  ⟨hmore.list_eq.trans h.list_eq, Nat.le_trans h.place_le hmore.place_le⟩

theorem precedes_advance (p : Pointer) : p.Precedes p.advance := by
  unfold advance
  split
  · exact .refl p
  · exact ⟨rfl, Nat.le_succ _⟩

theorem precedes_of_accept {p q : Pointer} {meaning : Meaning} {accepted : Bool}
    (h : p.accept meaning = (accepted, q)) : p.Precedes q := by
  unfold accept at h
  split at h
  · exact (Prod.mk.inj h).2 ▸ p.precedes_advance
  · exact (Prod.mk.inj h).2 ▸ .refl p

theorem precedes_of_acceptOperator {p q : Pointer} {band : Band} {kind? : Option Kind}
    (h : p.acceptOperator band = (kind?, q)) : p.Precedes q := by
  unfold acceptOperator at h
  split at h
  · exact (Prod.mk.inj h).2 ▸ p.precedes_advance
  · exact (Prod.mk.inj h).2 ▸ .refl p

def left (p : Pointer) : Nat := p.list.length - p.place

theorem Precedes.left_le {p q : Pointer} (h : p.Precedes q) : q.left ≤ p.left := by
  unfold left
  rw [h.list_eq]
  exact Nat.sub_le_sub_left h.place_le _

theorem left_advance_lt {p : Pointer} (h : p.atEnd = false) : p.advance.left < p.left := by
  -- from the last place on, the current token is the last one, which ends the list
  have hlast : p.place < p.list.length - 1 := by
    refine Nat.lt_of_not_le fun hge => ?_
    have hmin : min p.place (p.list.length - 1) = p.list.length - 1 := by omega
    have hcurrent : p.list.getLast? = some p.current := by
      rw [List.getLast?_eq_getElem?, List.getElem?_eq_some_iff]
      exact ⟨by have hpos := p.length_pos; omega, by simp only [current, List.get_eq_getElem, hmin]⟩
    have hends := p.ends
    rw [hcurrent] at hends
    exact absurd (hends.symm.trans h) (by decide)
  simp only [advance, h, left, Bool.false_eq_true, if_false]
  omega

theorem left_accept_lt {p q : Pointer} {s : Symbol} (h : p.accept (.symbol s) = (true, q)) :
    q.left < p.left := by
  unfold accept check at h
  split at h
  · rename_i hmeaning
    obtain rfl := (Prod.mk.inj h).2
    refine left_advance_lt ?_
    rw [atEnd, Token.isStop, beq_iff_eq.mp hmeaning]
    rfl
  · cases h

theorem atEnd_of_operator {p : Pointer} {band : Band} {kind : Kind}
    (h : p.current.operatorOf? band = some kind) : p.atEnd = false := by
  rw [atEnd, Token.isStop, Bool.eq_false_iff]
  intro hstop
  rw [Token.operatorOf?, beq_iff_eq.mp hstop] at h
  cases h

theorem left_acceptOperator_lt {p q : Pointer} {band : Band} {kind : Kind}
    (h : p.acceptOperator band = (some kind, q)) : q.left < p.left := by
  unfold acceptOperator at h
  split at h
  · rename_i k hkind
    obtain rfl := (Prod.mk.inj h).2
    exact left_advance_lt (atEnd_of_operator hkind)
  · cases h

/-- Pass tokens of a symbol as long as there are any, and count them. -/
def acceptAll (p : Pointer) (s : Symbol) : Nat × Pointer :=
  match h : p.accept (.symbol s) with
  | (true, q) => ((q.acceptAll s).1 + 1, (q.acceptAll s).2)
  | (false, q) => (0, q)
termination_by p.left
decreasing_by all_goals exact left_accept_lt h

theorem acceptAll_of_check {p : Pointer} {s : Symbol} (h : p.check (.symbol s) = true) :
    p.acceptAll s = ((p.advance.acceptAll s).1 + 1, (p.advance.acceptAll s).2) := by
  rw [acceptAll, accept_of_check h]

theorem acceptAll_of_not_check {p : Pointer} {s : Symbol} (h : p.check (.symbol s) = false) :
    p.acceptAll s = (0, p) := by
  rw [acceptAll, accept_of_not_check h]

theorem precedes_acceptAll (p : Pointer) (s : Symbol) : p.Precedes (p.acceptAll s).2 := by
  fun_induction acceptAll p s with
  | case1 p q h ih => exact (precedes_of_accept h).trans ih
  | case2 p q h => exact precedes_of_accept h

end Pointer

/-! ### Procedures -/

/-- What was read, or the fault found, and where the pointer stands then. -/
abbrev Attempt (α : Type) := Except Fault α × Pointer

/-- A function that reads a formula from a pointer on. -/
structure Procedure where
  run : Pointer → Attempt Formula
  precedes : ∀ p : Pointer, p.Precedes (run p).2

namespace Procedure

def closeBracket (opening : Token) : Attempt Formula → Attempt Formula
  | (.error fault, p) => (.error fault, p)
  | (.ok f, p) =>
    match p.accept (.symbol .closing) with
    | (true, q) => (.ok f, q)
    | (false, q) =>
      if q.atEnd then (.error (.unmatched (opening.literal.headD '(') opening.offset), q)
      else (.error q.trailing, q)

theorem precedes_closeBracket (opening : Token) (attempt : Attempt Formula) :
    attempt.2.Precedes (closeBracket opening attempt).2 := by
  rcases attempt with ⟨fault | f, p⟩
  · exact .refl p
  · dsimp only [closeBracket]
    split
    · rename_i h
      exact Pointer.precedes_of_accept h
    · rename_i h
      split <;> exact Pointer.precedes_of_accept h

/-- Read a variable, a constant or a formula in brackets; without `inner`, a bracket is one too many
of `limit`. -/
def primaryRun (limit : Nat) (inner : Option Procedure) (p : Pointer) : Attempt Formula :=
  match p.current.meaning with
  | .var name => (.ok (.var name), p.advance)
  | .symbol (.constant value) => (.ok (.const value), p.advance)
  | .symbol .opening =>
    match inner with
    | some procedure => closeBracket p.current (procedure.run p.advance)
    | none => (.error (.tooDeep limit p.current.offset), p)
  | _ => (.error p.missingOperand, p)

def primary (limit : Nat) (inner : Option Procedure) : Procedure where
  run := primaryRun limit inner
  precedes p := by
    unfold primaryRun
    split
    · exact p.precedes_advance
    · exact p.precedes_advance
    · split
      · rename_i procedure
        exact (p.precedes_advance.trans (procedure.precedes _)).trans (precedes_closeBracket _ _)
      · exact .refl p
    · exact .refl p

def negations (operand : Procedure) : Procedure where
  run p :=
    let before := p.acceptAll .negationBefore
    match operand.run before.2 with
    | (.error fault, q) => (.error fault, q)
    | (.ok f, q) =>
      let after := q.acceptAll .negationAfter
      (.ok ((f.negated after.1).negated before.1), after.2)
  precedes p := by
    have hread := (p.precedes_acceptAll .negationBefore).trans (operand.precedes _)
    dsimp only
    split
    · rename_i h
      rwa [h] at hread
    · rename_i f q h
      rw [h] at hread
      exact hread.trans (q.precedes_acceptAll .negationAfter)

def links (band : Band) (operand : Procedure) (found : List (Kind × Formula)) (p : Pointer) :
    Attempt (List (Kind × Formula)) :=
  match _h : p.acceptOperator band with
  | (none, q) => (.ok found.reverse, q)
  | (some kind, q) =>
    let attempt := operand.run q
    match attempt.1 with
    | .error fault => (.error fault, attempt.2)
    | .ok f => links band operand ((kind, f) :: found) attempt.2
termination_by p.left
decreasing_by exact Nat.lt_of_le_of_lt (operand.precedes q).left_le (Pointer.left_acceptOperator_lt _h)

section Links

variable {band : Band} {operand : Procedure} {found : List (Kind × Formula)} {p : Pointer}

theorem links_of_none (h : p.current.operatorOf? band = none) :
    links band operand found p = (.ok found.reverse, p) := by
  rw [links, Pointer.acceptOperator_of_none h]

theorem links_of_some {kind : Kind} (h : p.current.operatorOf? band = some kind) :
    links band operand found p =
      match operand.run p.advance with
      | (.error fault, q) => (.error fault, q)
      | (.ok f, q) => links band operand ((kind, f) :: found) q := by
  rw [links, Pointer.acceptOperator_of_some h]
  dsimp only
  rcases operand.run p.advance with ⟨fault | f, q⟩ <;> rfl

end Links

theorem precedes_links (band : Band) (operand : Procedure) (found : List (Kind × Formula))
    (p : Pointer) : p.Precedes (links band operand found p).2 := by
  fun_induction links band operand found p with
  | case1 found p q h => exact Pointer.precedes_of_acceptOperator h
  | case2 found p kind q h =>
    exact (Pointer.precedes_of_acceptOperator h).trans (operand.precedes q)
  | case3 found p kind q h attempt f hf ih =>
    exact ((Pointer.precedes_of_acceptOperator h).trans (operand.precedes q)).trans ih

def chain (band : Band) (operand : Procedure) : Procedure where
  run p :=
    match operand.run p with
    | (.error fault, q) => (.error fault, q)
    | (.ok first, q) =>
      match links band operand [] q with
      | (.error fault, r) => (.error fault, r)
      | (.ok more, r) =>
        match first.chain more with
        | .ok f => (.ok f, r)
        | .error kind => (.error (.notBinary kind), r)
  precedes p := by
    have begun := operand.precedes p
    split
    · rename_i h
      rwa [h] at begun
    · rename_i first q h
      rw [h] at begun
      have linked := begun.trans (precedes_links band operand [] q)
      split
      · rename_i h
        rwa [h] at linked
      · rename_i h
        rw [h] at linked
        split <;> exact linked

/-! ### Levels -/

def conjunctions (operand : Procedure) : Procedure := chain .conjunction (negations operand)

def disjunctions (operand : Procedure) : Procedure := chain .disjunction (conjunctions operand)

def implications (operand : Procedure) : Procedure := chain .implication (disjunctions operand)

def biconditionals (operand : Procedure) : Procedure :=
  chain .biconditional (implications operand)

def ofLevel (operand : Procedure) : Level → Procedure
  | .biconditional => biconditionals operand
  | .implication => implications operand
  | .disjunction => disjunctions operand
  | .conjunction => conjunctions operand
  | .negation => negations operand
  | .primary => operand

/-- The procedure for operands with at most `depth` of `limit` brackets open at once. -/
def operand (limit : Nat) : (depth : Nat) → Procedure
  | 0 => primary limit none
  | depth + 1 => primary limit (some (biconditionals (operand limit depth)))

def atLevel (limit depth : Nat) (level : Level) : Procedure := ofLevel (operand limit depth) level

end Procedure

/-- Read a formula of a level.  No more brackets can be open than there are tokens. -/
def Pointer.read (p : Pointer) (level : Level) : Attempt Formula :=
  (Procedure.atLevel p.list.length p.list.length level).run p

end Wff
