import Wff.Formula.Traversal
import Wff.Proofs.Indexing

/-!
# Wff.Proofs.Moves — any run of operations

`Cursor.Move` is what can be done with a cursor, and `Cursor.Answer` what comes of it.  A pointer that
stands where the cursor does gives the same answers and goes on to where the cursor goes
(`Pointer.Shows.move`), so this holds after any run of moves (`Pointer.Shows.moves`), readings that fail
included: whatever was done before, a fault is named from where the cursor stands after it.
-/

namespace Wff

namespace Cursor

/-! ### Moves -/

inductive Move
  | advance
  | check (meaning : Meaning)
  | accept (meaning : Meaning)
  | acceptOperator (band : Band)
  | missingOperand
  | trailing
  | read (level : Level)
  deriving DecidableEq, Repr

/-- What comes of it, besides the place. -/
inductive Answer
  | nothing
  | truth (value : Bool)
  | kind (kind? : Option Kind)
  | fault (fault : Fault)
  | result (read : Except Fault Formula)

def move (cursor : Cursor) : Move → Cursor
  | .advance => cursor.advance
  | .check _ | .missingOperand | .trailing => cursor
  | .accept meaning => (cursor.accept meaning).2
  | .acceptOperator band => (cursor.acceptOperator band).2
  | .read level => (cursor.read level).2

def answer (cursor : Cursor) : Move → Answer
  | .advance => .nothing
  | .check meaning => .truth (cursor.check meaning)
  | .accept meaning => .truth (cursor.accept meaning).1
  | .acceptOperator band => .kind (cursor.acceptOperator band).1
  | .missingOperand => .fault cursor.missingOperand
  | .trailing => .fault cursor.trailing
  | .read level => .result (cursor.read level).1

def moves (cursor : Cursor) (done : List Move) : Cursor := done.foldl move cursor

/-- Does the move pass the current token?  A reading may pass more. -/
def passes (cursor : Cursor) : Move → Bool
  | .advance => !cursor.atEnd
  | .accept meaning => cursor.check meaning && !cursor.atEnd
  | .acceptOperator band => (cursor.current.operatorOf? band).isSome
  | .check _ | .missingOperand | .trailing | .read _ => false

end Cursor

namespace Pointer

open Cursor (Move Answer)

def move (p : Pointer) : Move → Pointer
  | .advance => p.advance
  | .check _ | .missingOperand | .trailing => p
  | .accept meaning => (p.accept meaning).2
  | .acceptOperator band => (p.acceptOperator band).2
  | .read level => (p.read level).2

def answer (p : Pointer) : Move → Answer
  | .advance => .nothing
  | .check meaning => .truth (p.check meaning)
  | .accept meaning => .truth (p.accept meaning).1
  | .acceptOperator band => .kind (p.acceptOperator band).1
  | .missingOperand => .fault p.missingOperand
  | .trailing => .fault p.trailing
  | .read level => .result (p.read level).1

def moves (p : Pointer) (done : List Move) : Pointer := done.foldl move p

/-- No move changes the list or takes the pointer back. -/
theorem precedes_move (p : Pointer) (m : Move) : p.Precedes (p.move m) := by
  cases m with
  | advance => exact p.precedes_advance
  | check | missingOperand | trailing => exact .refl p
  | accept meaning => exact precedes_of_accept rfl
  | acceptOperator band => exact precedes_of_acceptOperator rfl
  | read level => exact (Procedure.atLevel _ _ level).precedes p

theorem precedes_moves (p : Pointer) (done : List Move) : p.Precedes (p.moves done) := by
  induction done generalizing p with
  | nil => exact .refl p
  | cons m done ih => exact (p.precedes_move m).trans (ih (p.move m))

namespace Shows

variable {p : Pointer} {cursor : Cursor} (h : p.Shows cursor)
include h

/-- One move, answered alike, leaves both at the same place. -/
theorem move (m : Move) : p.answer m = cursor.answer m ∧ (p.move m).Shows (cursor.move m) := by
  cases m with
  | advance => exact ⟨rfl, h.advance⟩
  | check meaning => exact ⟨congrArg Answer.truth (h.check_eq meaning), h⟩
  | missingOperand => exact ⟨congrArg Answer.fault h.missingOperand, h⟩
  | trailing => exact ⟨congrArg Answer.fault h.trailing, h⟩
  | accept meaning => exact (h.accept meaning).imp (congrArg Answer.truth) id
  | acceptOperator band => exact (h.acceptOperator band).imp (congrArg Answer.kind) id
  | read level => exact (h.read level).imp (congrArg Answer.result) id

theorem moves (done : List Move) : (p.moves done).Shows (cursor.moves done) := by
  induction done generalizing p cursor with
  | nil => exact h
  | cons m done ih => exact ih (h.move m).2

/-- Moves other than readings go one place on where they pass the current token, and stay elsewhere. -/
theorem place_move {m : Move} (hm : ∀ level, m ≠ .read level) :
    (p.move m).place = p.place + (cursor.passes m).toNat := by
  have hadvance := h.place_advance
  cases m with
  | advance => exact hadvance
  | check | missingOperand | trailing => rfl
  | accept meaning =>
    show (p.accept meaning).2.place = p.place + (cursor.check meaning && !cursor.atEnd).toNat
    rw [← h.check_eq]
    cases hcheck : p.check meaning with
    | true =>
      rw [accept_of_check hcheck, Bool.true_and]
      exact hadvance
    | false => rw [accept_of_not_check hcheck, Bool.false_and, Bool.toNat_false, Nat.add_zero]
  | acceptOperator band =>
    show (p.acceptOperator band).2.place =
      p.place + (cursor.current.operatorOf? band).isSome.toNat
    rw [← h.current_eq]
    -- an operator never ends the list, so where one is taken there is a next place
    cases hkind : p.current.operatorOf? band with
    | some kind =>
      rw [acceptOperator_of_some hkind]
      rw [← h.atEnd_eq, atEnd_of_operator hkind] at hadvance
      exact hadvance
    | none => rw [acceptOperator_of_none hkind, Option.isSome_none, Bool.toNat_false, Nat.add_zero]
  | read level => exact absurd rfl (hm level)

end Shows

end Pointer

/-! ### Faults -/

/-- What reading promises about its fault: it is about the token at which the cursor stands after it;
only a bracket that is never closed was passed on the way, and then the cursor stands at the end. -/
def Fault.Names (before after : Cursor) : Fault → Prop
  | .missingOperand offset => offset = after.current.offset
  | .trailing found offset =>
    found = after.current.literal ∧ offset = after.current.offset ∧ after.atEnd = false
  | .unmatched found offset =>
    after.atEnd = true ∧ ∃ opening ∈ before.ahead, opening.meaning = .symbol .opening ∧
      found = opening.literal.headD '(' ∧ offset = opening.offset
  | .unrecognized _ _ | .tooDeep _ _ | .ambiguousAlias _ | .notBinary _ => False

/-- The three faults of a reading, and the bracket that was passed where it was never closed. -/
theorem Cursor.fault_cases {cursor : Cursor} {level : Level} {fault : Fault}
    (h : (cursor.read level).1 = .error fault) :
    (∃ offset, fault = .missingOperand offset) ∨ (∃ found offset, fault = .trailing found offset) ∨
      ∃ opening ∈ cursor.ahead, opening.meaning = .symbol .opening ∧
        fault = .unmatched (opening.literal.headD '(') opening.offset := by
  unfold read readWithin at h
  rcases hrun : (Reader.atLevel cursor.ahead.length level).run cursor.ahead with ⟨cause | f, rest⟩
  · rw [hrun] at h
    cases h
    rcases Reader.cause_cases (Nat.le_refl _) hrun with
      rfl | ⟨rfl, -⟩ | ⟨opening, hmem, hmeaning, rfl, -⟩
    · exact Or.inl ⟨_, rfl⟩
    · exact Or.inr (Or.inl ⟨_, _, rfl⟩)
    · exact Or.inr (Or.inr ⟨opening, hmem, hmeaning, rfl⟩)
  · rw [hrun] at h
    cases h

/-- A pointer makes the fault where it stands then, and there the cursor stands too. -/
theorem Pointer.Shows.names_of_read {p : Pointer} {cursor : Cursor} (h : p.Shows cursor)
    {level : Level} {fault : Fault} (hfault : (cursor.read level).1 = .error fault) :
    fault.Names cursor (cursor.read level).2 := by
  obtain ⟨hsame, hafter⟩ := h.read level
  have hmade : fault.MadeAt (p.read level).2 := p.madeAt_of_read (hsame.trans hfault)
  rcases Cursor.fault_cases hfault with ⟨offset, rfl⟩ | ⟨found, offset, rfl⟩ |
    ⟨opening, hmem, hmeaning, rfl⟩
  · exact hmade.trans (congrArg Token.offset hafter.current_eq)
  · obtain ⟨hfound, hoffset, hend⟩ := hmade
    rw [hafter.current_eq] at hfound hoffset
    exact ⟨hfound, hoffset, hafter.atEnd_eq.symm.trans hend⟩
  · exact ⟨hafter.atEnd_eq.symm.trans hmade, opening, hmem, hmeaning, rfl, rfl⟩

namespace Cursor

/-- **Whatever is done with a cursor, it stands where a pointer into its list does.**  After any moves,
among them readings that fail, the pointer's list is what it was; its place is never behind the first
token that ends the list, and no further moves take it back.  So the current token is the one at that
place, and ends the list exactly at the last one.  Every move is answered alike, and takes both to the
same place: one further where it passes the current token, if it is no reading.  A fault of a reading
at any level is made where the pointer is left, and named from where the cursor stands after it. -/
theorem standsAt_of_moves (tokens : List Token) (first more : List Move) :
    let list := Token.ended tokens
    let cursor := (ofTokens tokens).moves first
    let pointer := (Pointer.ofTokens tokens).moves first
    let later := pointer.moves more
    pointer.list = list ∧ later.list = list ∧ pointer.place ≤ later.place ∧
      cursor.StandsAt list pointer.place ∧ (cursor.moves more).StandsAt list later.place ∧
      Token.lastPlace list < list.length ∧
      list[pointer.place]? = some cursor.current ∧
      list[min pointer.place (list.length - 1)]? = some cursor.current ∧
      pointer.current = cursor.current ∧ pointer.atEnd = cursor.atEnd ∧
      (cursor.atEnd = true ↔ pointer.place = Token.lastPlace list) ∧
      (cursor.current.isStop = true ↔ pointer.place = Token.lastPlace list) ∧
      (∀ m, pointer.answer m = cursor.answer m ∧ (cursor.move m).StandsAt list (pointer.move m).place ∧
        ((∀ level, m ≠ .read level) →
          (pointer.move m).place = pointer.place + (cursor.passes m).toNat)) ∧
      ∀ level fault, (cursor.read level).1 = .error fault →
        fault.MadeAt (pointer.read level).2 ∧ fault.Names cursor (cursor.read level).2 := by
  intro list cursor pointer later
  have hshows : pointer.Shows cursor := (Pointer.shows_ofTokens tokens).moves first
  have hlater : later.Shows (cursor.moves more) := hshows.moves more
  have hlist : pointer.list = list := ((Pointer.ofTokens tokens).precedes_moves first).list_eq
  have hmore : pointer.Precedes later := pointer.precedes_moves more
  have hlaterList : later.list = list := hmore.list_eq.trans hlist
  have hstands : cursor.StandsAt list pointer.place := hlist ▸ hshows
  have hmin := hshows.min_place
  rw [hlist] at hmin
  refine ⟨hlist, hlaterList, hmore.place_le, hstands, hlaterList ▸ hlater, hstands.lastPlace_lt,
    hstands.getElem?_eq_current, ?_, hshows.current_eq, hshows.atEnd_eq, hstands.atEnd_iff,
    hstands.isStop_current_iff, fun m => ?_, fun level fault hfault => ?_⟩
  · rw [hmin]
    exact hstands.getElem?_eq_current
  · obtain ⟨hanswer, hmoved⟩ := hshows.move m
    have hmovedList : (pointer.move m).list = list := (pointer.precedes_move m).list_eq.trans hlist
    exact ⟨hanswer, hmovedList ▸ hmoved, hshows.place_move⟩
  · exact ⟨pointer.madeAt_of_read ((hshows.read level).1.trans hfault), hshows.names_of_read hfault⟩

/-- `(p` and `q` behind the end: reading finds the bracket open, after which no move leads further,
and an operand is missing at the end. -/
theorem standsAt_of_moves_past_faults :
    let tokens : List Token := [⟨.symbol .opening, ['('], 0⟩, ⟨.var ['p'], ['p'], 1⟩, .stopAt 2,
      ⟨.var ['q'], ['q'], 2⟩]
    let done : List Move := [.read .primary, .accept .stop, .advance]
    let cursor := (ofTokens tokens).moves done
    let pointer := (Pointer.ofTokens tokens).moves done
    let later := pointer.moves [.advance, .read .biconditional]
    ((ofTokens tokens).read .primary).1 = .error (.unmatched '(' 0) ∧
      Fault.Names (ofTokens tokens) ((ofTokens tokens).read .primary).2 (.unmatched '(' 0) ∧
      (cursor.read .negation).1 = .error (.missingOperand 2) ∧
      Fault.Names cursor (cursor.read .negation).2 (.missingOperand 2) ∧
      pointer.answer (.read .negation) = .result (.error (.missingOperand 2)) ∧
      pointer.place ≤ later.place ∧ later.place ≤ Token.lastPlace (Token.ended tokens) ∧
      cursor.atEnd = true ∧ pointer.place = Token.lastPlace (Token.ended tokens) := by
  intro tokens done cursor pointer later
  have hopen : ((ofTokens tokens).read .primary).1 = .error (.unmatched '(' 0) := by decide +kernel
  have hmissing : (cursor.read .negation).1 = .error (.missingOperand 2) := by decide +kernel
  have hend : cursor.atEnd = true := by decide +kernel
  obtain ⟨-, -, -, -, -, -, -, -, -, -, -, -, -, hbegin⟩ := standsAt_of_moves tokens [] []
  obtain ⟨-, -, hle, -, hlater, -, -, -, -, -, hatEnd, -, hanswer, hfault⟩ :=
    standsAt_of_moves tokens done [.advance, .read .biconditional]
  exact ⟨hopen, (hbegin _ _ hopen).2, hmissing, (hfault _ _ hmissing).2,
    (hanswer (.read .negation)).1.trans (congrArg Answer.result hmissing), hle, hlater.le_last, hend,
    hatEnd.mp hend⟩

end Cursor

end Wff
