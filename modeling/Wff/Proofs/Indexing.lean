import Wff.Proofs.Limit
import Wff.Reader.Pointer

/-!
# Wff.Proofs.Indexing — cursors as indices

A cursor keeps what is ahead of it and forgets what it has passed.  `Cursor.StandsAt` says at which
index of the whole list it stands: nowhere behind the first token that ends the list.  A pointer at that
index goes on as the cursor does: `Pointer.Shows.advance` for one token, `Procedure.Follows` for a
whole procedure, proved once for each way to build one (`Procedure.follows_atLevel`).

Where a pointer's procedure fails, the fault was made at the token at which the pointer is left
(`Procedure.failsInPlace_atLevel`): it is handed on without a further move.
-/

namespace Wff

/-! ### Places in a list -/

/-- The index of the first token that ends the list. -/
def Token.lastPlace (list : List Token) : Nat := list.findIdx (·.isStop)

namespace Cursor

/-- The cursor stands at this index of the list: ahead of it is the list from there on, up to the
first token that ends it. -/
structure StandsAt (list : List Token) (place : Nat) (cursor : Cursor) : Prop where
  le_last : place ≤ Token.lastPlace list
  ahead_eq : cursor.ahead = (list.take (Token.lastPlace list)).drop place
  stop_eq : list[Token.lastPlace list]? = some cursor.stop

namespace StandsAt

variable {list : List Token} {place : Nat} {cursor : Cursor} (h : cursor.StandsAt list place)
include h

theorem lastPlace_lt : Token.lastPlace list < list.length :=
  (List.getElem?_eq_some_iff.mp h.stop_eq).1

theorem length_ahead : cursor.ahead.length = Token.lastPlace list - place := by
  have hlt := h.lastPlace_lt
  rw [h.ahead_eq, List.length_drop, List.length_take]
  omega

theorem atEnd_iff : cursor.atEnd = true ↔ place = Token.lastPlace list := by
  have hlength := h.length_ahead
  have hle := h.le_last
  rw [atEnd, List.isEmpty_iff_length_eq_zero]
  omega

theorem getElem?_eq_current : list[place]? = some cursor.current := by
  rw [current, List.headD_eq_head?_getD, h.ahead_eq, List.head?_drop, List.getElem?_take]
  have hlt := h.lastPlace_lt
  rcases Nat.lt_or_eq_of_le h.le_last with hbefore | heq
  · rw [if_pos hbefore, List.getElem?_eq_getElem (hbefore.trans hlt)]
    rfl
  · rw [if_neg (by omega), heq, h.stop_eq]
    rfl

theorem isStop_current_iff : cursor.current.isStop = true ↔ place = Token.lastPlace list := by
  obtain ⟨hlt, hcurrent⟩ := List.getElem?_eq_some_iff.mp h.getElem?_eq_current
  rw [← hcurrent]
  constructor
  · intro hstop
    by_contra hne
    have hbefore := List.not_of_lt_findIdx (Nat.lt_of_le_of_ne h.le_last hne)
    exact absurd hstop (Bool.eq_false_iff.mp hbefore)
  · rintro rfl
    exact List.findIdx_getElem

theorem drop {n : Nat} (hn : n ≤ cursor.ahead.length) :
    StandsAt list (place + n) { cursor with ahead := cursor.ahead.drop n } where
  le_last := by
    have hlength := h.length_ahead
    have hle := h.le_last
    omega
  ahead_eq := by rw [h.ahead_eq, List.drop_drop]
  stop_eq := h.stop_eq

/-- Where a suffix is left of the tokens ahead, the cursor has moved on by what is missing. -/
theorem of_suffix {rest : List Token} (hrest : rest <:+ cursor.ahead) :
    StandsAt list (place + (cursor.ahead.length - rest.length)) { cursor with ahead := rest } := by
  have hdrop := h.drop (Nat.sub_le cursor.ahead.length rest.length)
  rwa [← List.suffix_iff_eq_drop.mp hrest] at hdrop

end StandsAt

theorem standsAt_ofTokens (tokens : List Token) :
    (ofTokens tokens).StandsAt (Token.ended tokens) 0 := by
  have hahead : (Token.ended tokens).takeWhile (!·.isStop) = (ofTokens tokens).ahead := by
    unfold Token.ended
    split
    · rfl
    · rw [List.takeWhile_append]
      split
      · rename_i hlength
        have hall : tokens.takeWhile (!·.isStop) = tokens :=
          (List.takeWhile_prefix _).eq_of_length hlength
        show tokens ++ [] = tokens.takeWhile (!·.isStop)
        rw [List.append_nil, hall]
      · rfl
  have hstop : (Token.ended tokens).find? (·.isStop) = some (ofTokens tokens).stop := by
    unfold Token.ended
    split
    · rename_i hlast
      obtain ⟨last, hgetLast, hisStop⟩ := (Option.any_eq_true _ _).mp hlast
      obtain ⟨first, hfirst⟩ := Option.isSome_iff_exists.mp
        (List.find?_isSome.mpr ⟨last, List.mem_of_getLast? hgetLast, hisStop⟩)
      rw [ofTokens, hfirst]
      rfl
    · rw [List.find?_append]
      exact Option.or_some
  refine ⟨Nat.zero_le _, ?_, ?_⟩
  · rw [List.drop_zero, ← hahead, List.takeWhile_eq_take_findIdx_not]
    simp [Token.lastPlace]
  · rw [← hstop, List.find?_eq_getElem?_findIdx]
    rfl

end Cursor

/-! ### One token at a time -/

/-- The cursor stands where the pointer does. -/
def Pointer.Shows (p : Pointer) (cursor : Cursor) : Prop := cursor.StandsAt p.list p.place

namespace Pointer

theorem shows_ofTokens (tokens : List Token) : (ofTokens tokens).Shows (Cursor.ofTokens tokens) :=
  Cursor.standsAt_ofTokens tokens

namespace Shows

section

variable {p : Pointer} {cursor : Cursor} (h : p.Shows cursor)
include h

/-- The index is never behind the last token, so `current` need not look out for that. -/
theorem min_place : min p.place (p.list.length - 1) = p.place := by
  have hle : p.place ≤ Token.lastPlace p.list := h.le_last
  have hlt : Token.lastPlace p.list < p.list.length := h.lastPlace_lt
  omega

theorem current_eq : p.current = cursor.current := by
  obtain ⟨hlt, hcurrent⟩ := List.getElem?_eq_some_iff.mp h.getElem?_eq_current
  simp only [current, List.get_eq_getElem, h.min_place]
  exact hcurrent

theorem atEnd_iff : p.atEnd = true ↔ p.place = Token.lastPlace p.list := by
  rw [Pointer.atEnd, h.current_eq]
  exact h.isStop_current_iff

theorem atEnd_eq : p.atEnd = cursor.atEnd :=
  Bool.eq_iff_iff.mpr (h.atEnd_iff.trans (Cursor.StandsAt.atEnd_iff h).symm)

/-- One place further, unless the cursor is at the end. -/
theorem place_advance : p.advance.place = p.place + (!cursor.atEnd).toNat := by
  rw [Pointer.advance, ← h.atEnd_eq]
  cases p.atEnd <;> rfl

theorem advance : p.advance.Shows cursor.advance := by
  have hatEnd := h.atEnd_eq
  obtain ⟨ahead, stop⟩ := cursor
  unfold Pointer.advance
  cases ahead with
  | nil =>
    have hend : p.atEnd = true := hatEnd
    rw [if_pos hend]
    exact h
  | cons token rest =>
    have hnot : p.atEnd = false := hatEnd
    rw [hnot, if_neg Bool.false_ne_true]
    exact h.drop (Nat.succ_le_succ (Nat.zero_le rest.length))

theorem check_eq (meaning : Meaning) : p.check meaning = cursor.check meaning :=
  congrArg (Token.meaning · == meaning) h.current_eq

theorem accept (meaning : Meaning) :
    (p.accept meaning).1 = (cursor.accept meaning).1 ∧
      (p.accept meaning).2.Shows (cursor.accept meaning).2 := by
  rw [Pointer.accept, Cursor.accept, h.check_eq]
  split
  · exact ⟨rfl, h.advance⟩
  · exact ⟨rfl, h⟩

theorem acceptOperator (band : Band) :
    (p.acceptOperator band).1 = (cursor.acceptOperator band).1 ∧
      (p.acceptOperator band).2.Shows (cursor.acceptOperator band).2 := by
  rw [Pointer.acceptOperator, Cursor.acceptOperator, h.current_eq]
  cases cursor.current.operatorOf? band with
  | some kind => exact ⟨rfl, h.advance⟩
  | none => exact ⟨rfl, h⟩

theorem missingOperand : p.missingOperand = cursor.missingOperand :=
  congrArg (fun token : Token => Fault.missingOperand token.offset) h.current_eq

theorem trailing : p.trailing = cursor.trailing :=
  congrArg (fun token : Token => Fault.trailing token.literal token.offset) h.current_eq

end

section

variable {p : Pointer} {stop : Token} (h : p.Shows ⟨[], stop⟩)
include h

theorem meaning_eq_stop : p.current.meaning = .stop := by
  have hend : p.atEnd = true := h.atEnd_eq
  exact beq_iff_eq.mp hend

theorem not_check_symbol (s : Symbol) : p.check (.symbol s) = false := by
  rw [check, h.meaning_eq_stop]
  rfl

end

theorem acceptAll {p : Pointer} {tokens : List Token} {stop : Token} (h : p.Shows ⟨tokens, stop⟩)
    (s : Symbol) :
    (p.acceptAll s).1 = (tokens.takeWhile (·.meaning == .symbol s)).length ∧
      (p.acceptAll s).2.Shows ⟨tokens.dropWhile (·.meaning == .symbol s), stop⟩ := by
  induction tokens generalizing p with
  | nil =>
    rw [acceptAll_of_not_check (h.not_check_symbol s)]
    exact ⟨rfl, h⟩
  | cons token rest ih =>
    have hcheck : p.check (.symbol s) = (token.meaning == .symbol s) := h.check_eq (.symbol s)
    cases hmeaning : token.meaning == .symbol s with
    | true =>
      obtain ⟨hcount, hshows⟩ := ih h.advance
      rw [acceptAll_of_check (hcheck.trans hmeaning), List.takeWhile_cons, List.dropWhile_cons,
        hmeaning]
      exact ⟨congrArg (· + 1) hcount, hshows⟩
    | false =>
      rw [acceptAll_of_not_check (hcheck.trans hmeaning), List.takeWhile_cons, List.dropWhile_cons,
        hmeaning]
      exact ⟨rfl, h⟩

end Shows

end Pointer

/-! ### Procedures and readers -/

/-- A procedure comes to what a reading comes to: the same is read, or the fault that the
cause amounts to is found, and the pointer is where the reader left off. -/
structure Attempt.Agrees {α : Type} (limit : Nat) (list : List Token) (stop : Token)
    (attempt : Attempt α) (reading : Reading α) : Prop where
  result : attempt.1 = reading.1.mapError (Cause.fault limit (Cursor.current ⟨reading.2, stop⟩))
  list_eq : attempt.2.list = list
  shows_rest : attempt.2.Shows ⟨reading.2, stop⟩

theorem Attempt.Agrees.cases {α : Type} {limit : Nat} {list : List Token} {stop : Token}
    {attempt : Attempt α} {reading : Reading α} (h : attempt.Agrees limit list stop reading) :
    ∃ q rest, q.list = list ∧ q.Shows ⟨rest, stop⟩ ∧
      ((∃ cause, reading = (.error cause, rest) ∧
          attempt = (.error (cause.fault limit (Cursor.current ⟨rest, stop⟩)), q)) ∨
        ∃ x, reading = (.ok x, rest) ∧ attempt = (.ok x, q)) := by
  obtain ⟨hresult, hlist, hshows⟩ := h
  refine ⟨attempt.2, reading.2, hlist, hshows, ?_⟩
  rcases reading with ⟨cause | x, rest⟩
  · exact Or.inl ⟨cause, rfl, Prod.ext hresult rfl⟩
  · exact Or.inr ⟨x, rfl, Prod.ext hresult rfl⟩

/-- Wherever the procedure is called, it does what the reader does with the tokens from there on. -/
def Procedure.Follows (limit : Nat) (procedure : Procedure) (reader : Reader) : Prop :=
  ∀ {p : Pointer} {tokens : List Token} {stop : Token}, p.Shows ⟨tokens, stop⟩ →
    (procedure.run p).Agrees limit p.list stop (reader.run tokens)

namespace Procedure

variable {limit : Nat}

theorem agrees_closeBracket {list : List Token} {stop : Token} {attempt : Attempt Formula}
    {reading : Reading Formula} (h : attempt.Agrees limit list stop reading) (opening : Token) :
    (closeBracket opening attempt).Agrees limit list stop (Reader.closeBracket opening reading) := by
  obtain ⟨q, rest, hlist, hshows, ⟨cause, rfl, rfl⟩ | ⟨f, rfl, rfl⟩⟩ := h.cases
  · exact ⟨rfl, hlist, hshows⟩
  · dsimp only [closeBracket]
    cases rest with
    | nil =>
      have hend : q.atEnd = true := hshows.atEnd_eq
      rw [Pointer.accept_of_not_check (hshows.not_check_symbol .closing)]
      simp only [hend, if_true]
      exact ⟨rfl, hlist, hshows⟩
    | cons token rest =>
      have hend : q.atEnd = false := hshows.atEnd_eq
      have hcheck : q.check (.symbol .closing) = token.isClosing := hshows.check_eq _
      cases hclosing : token.isClosing with
      | true =>
        rw [Pointer.accept_of_check (hcheck.trans hclosing), Reader.closeBracket, if_pos hclosing]
        exact ⟨rfl, q.precedes_advance.list_eq.trans hlist, hshows.advance⟩
      | false =>
        rw [Pointer.accept_of_not_check (hcheck.trans hclosing), Reader.closeBracket]
        simp only [hend, hclosing, hshows.trailing, Bool.false_eq_true, if_false]
        exact ⟨rfl, hlist, hshows⟩

theorem follows_primary {inner : Option Procedure} {reader : Option Reader}
    (hinner : Option.Rel (Follows limit) inner reader) :
    (primary limit inner).Follows limit (Reader.primary reader) := by
  intro p tokens stop h
  show (primaryRun limit inner p).Agrees limit p.list stop (Reader.primaryRun reader tokens)
  have hadvance : p.advance.list = p.list := p.precedes_advance.list_eq
  unfold primaryRun Reader.primaryRun
  cases tokens with
  | nil =>
    rw [h.meaning_eq_stop, h.missingOperand]
    exact ⟨rfl, rfl, h⟩
  | cons token rest =>
    have hcurrent : p.current = token := h.current_eq
    rw [hcurrent, h.missingOperand]
    dsimp only
    cases token.meaning with
    | var name => exact ⟨rfl, hadvance, h.advance⟩
    | stop => exact ⟨rfl, rfl, h⟩
    | symbol s =>
      cases s with
      | constant value => exact ⟨rfl, hadvance, h.advance⟩
      | opening =>
        cases hinner with
        | none => exact ⟨rfl, rfl, h⟩
        | some hfollows =>
          have hinside := hfollows h.advance
          rw [hadvance] at hinside
          exact agrees_closeBracket hinside token
      | operator | negationBefore | negationAfter | closing => exact ⟨rfl, rfl, h⟩

theorem follows_negations {operand : Procedure} {reader : Reader} (h : operand.Follows limit reader) :
    (negations operand).Follows limit (Reader.negations reader) := by
  intro p tokens stop hp
  obtain ⟨hbefore, hshows⟩ := hp.acceptAll .negationBefore
  obtain ⟨q, rest, hlist, hq, ⟨cause, hreading, hattempt⟩ | ⟨f, hreading, hattempt⟩⟩ :=
    (h hshows).cases
  all_goals
    have hreader : reader.run (tokens.dropWhile Token.isMarkBefore) = _ := hreading
    rw [(p.precedes_acceptAll .negationBefore).list_eq] at hlist
    dsimp only [negations, Reader.negations]
    rw [hattempt, hreader]
  · exact ⟨rfl, hlist, hq⟩
  · obtain ⟨hafter, hrest⟩ := hq.acceptAll .negationAfter
    dsimp only
    -- the marks behind the operand negate first
    rw [hbefore, hafter, ← Formula.negated_add]
    exact ⟨rfl, (q.precedes_acceptAll .negationAfter).list_eq.trans hlist, hrest⟩

theorem agrees_links {operand : Procedure} {reader : Reader} (h : operand.Follows limit reader)
    (band : Band) (found : List (Kind × Formula)) {p : Pointer} {tokens : List Token} {stop : Token}
    (hp : p.Shows ⟨tokens, stop⟩) :
    (links band operand found p).Agrees limit p.list stop
      (Reader.links band reader found tokens) := by
  -- as the reader goes from operand to operand, the pointer does
  fun_induction Reader.links band reader found tokens generalizing p with
  | case1 found =>
    have hnone : p.current.operatorOf? band = none := by
      rw [Token.operatorOf?, hp.meaning_eq_stop]
    rw [links_of_none hnone]
    exact ⟨rfl, rfl, hp⟩
  | case2 found token rest hnone =>
    have hcurrent : p.current = token := hp.current_eq
    rw [links_of_none (hcurrent ▸ hnone)]
    exact ⟨rfl, rfl, hp⟩
  | case3 found token rest kind hkind reading cause =>
    rename_i hcause
    have hcurrent : p.current = token := hp.current_eq
    rw [links_of_some (hcurrent ▸ hkind)]
    rcases hrun : operand.run p.advance with ⟨result, q⟩
    obtain ⟨hresult, hlist, hrest⟩ := hrun ▸ h hp.advance
    obtain rfl : result = .error _ := hresult.trans (congrArg _ hcause)
    exact ⟨rfl, hlist.trans p.precedes_advance.list_eq, hrest⟩
  | case4 found token rest kind hkind reading f hf =>
    rename_i ih
    have hcurrent : p.current = token := hp.current_eq
    rw [links_of_some (hcurrent ▸ hkind)]
    rcases hrun : operand.run p.advance with ⟨result, q⟩
    obtain ⟨hresult, hlist, hrest⟩ := hrun ▸ h hp.advance
    obtain rfl : result = .ok f := hresult.trans (congrArg _ hf)
    have hlinks := ih hrest
    rwa [hlist.trans p.precedes_advance.list_eq] at hlinks

theorem follows_chain {operand : Procedure} {reader : Reader} (h : operand.Follows limit reader)
    (band : Band) : (chain band operand).Follows limit (Reader.chain band reader) := by
  intro p tokens stop hp
  obtain ⟨q, rest, hlist, hq, ⟨cause, hreading, hattempt⟩ | ⟨first, hreading, hattempt⟩⟩ :=
    (h hp).cases
  · simp only [chain, Reader.chain, hattempt, hreading]
    exact ⟨rfl, hlist, hq⟩
  · have hlinks := agrees_links h band [] hq
    rw [hlist] at hlinks
    obtain ⟨r, more, hlist, hr, ⟨cause, hreads, hruns⟩ | ⟨links, hreads, hruns⟩⟩ := hlinks.cases
    · simp only [chain, Reader.chain, hattempt, hreading, hreads, hruns]
      exact ⟨rfl, hlist, hr⟩
    · simp only [chain, Reader.chain, hattempt, hreading, hreads, hruns]
      cases first.chain links with
      | ok f => exact ⟨rfl, hlist, hr⟩
      | error kind => exact ⟨rfl, hlist, hr⟩

theorem atLevel_of_chain? {level next : Level} {band : Band}
    (hchain : level.chain? = some (band, next)) (depth : Nat) :
    atLevel limit depth level = chain band (atLevel limit depth next) := by
  cases level <;> cases hchain <;> rfl

/-- **Procedures follow readers**, at all levels. -/
theorem follows_atLevel (limit depth : Nat) (level : Level) :
    (atLevel limit depth level).Follows limit (Reader.atLevel depth level) := by
  induction depth, level using Level.induction with
  | zero => exact follows_primary .none
  | succ depth ih =>
    rw [Reader.atLevel_primary_succ]
    exact follows_primary (.some ih)
  | marked depth ih => exact follows_negations ih
  | chained depth level band next hchain ih =>
    rw [atLevel_of_chain? hchain, Reader.atLevel_of_chain? hchain]
    exact follows_chain ih band

end Procedure

/-! ### Faults are made in place -/

/-- The fault is about the token at which the pointer stands, or about the bracket that is open there
at the end. -/
def Fault.MadeAt (p : Pointer) : Fault → Prop
  | .missingOperand offset | .tooDeep _ offset => offset = p.current.offset
  | .trailing found offset =>
    found = p.current.literal ∧ offset = p.current.offset ∧ p.atEnd = false
  | .unmatched _ _ => p.atEnd = true
  | .notBinary _ => True
  | .unrecognized _ _ | .ambiguousAlias _ => False

/-- Where the procedure fails, the pointer is left where the fault was made. -/
def Procedure.FailsInPlace (procedure : Procedure) : Prop :=
  ∀ {p q : Pointer} {fault : Fault}, procedure.run p = (.error fault, q) → fault.MadeAt q

namespace Procedure

variable {limit : Nat}

theorem madeAt_of_closeBracket {opening : Token} {attempt : Attempt Formula} {q : Pointer}
    {fault : Fault} (hattempt : ∀ {r inner}, attempt = (.error inner, r) → inner.MadeAt r)
    (h : closeBracket opening attempt = (.error fault, q)) : fault.MadeAt q := by
  rcases attempt with ⟨inner | f, r⟩
  · cases h
    exact hattempt rfl
  · dsimp only [closeBracket] at h
    split at h
    · cases h
    · split at h
      · cases h
        assumption
      · rename_i hend
        cases h
        exact ⟨rfl, rfl, Bool.eq_false_iff.mpr hend⟩

theorem failsInPlace_primary {inner : Option Procedure}
    (hinner : ∀ procedure, inner = some procedure → procedure.FailsInPlace) :
    (primary limit inner).FailsInPlace := by
  intro p q fault h
  have hrun : primaryRun limit inner p = (.error fault, q) := h
  unfold primaryRun at hrun
  split at hrun
  · cases hrun
  · cases hrun
  · split at hrun
    · rename_i procedure
      exact madeAt_of_closeBracket (fun hinside => hinner procedure rfl hinside) hrun
    · cases hrun
      exact rfl
  · cases hrun
    exact rfl

theorem failsInPlace_negations {operand : Procedure} (h : operand.FailsInPlace) :
    (negations operand).FailsInPlace := by
  intro p q fault hrun
  dsimp only [negations] at hrun
  split at hrun
  · rename_i hoperand
    cases hrun
    exact h hoperand
  · cases hrun

theorem madeAt_of_links {operand : Procedure} (h : operand.FailsInPlace) {band : Band}
    {found : List (Kind × Formula)} {p q : Pointer} {fault : Fault}
    (hrun : links band operand found p = (.error fault, q)) : fault.MadeAt q := by
  fun_induction links band operand found p with
  | case1 => cases hrun
  | case2 found p kind r hsign attempt inner hinner =>
    cases hrun
    exact h (Prod.ext hinner rfl)
  | case3 found p kind r hsign attempt f hf ih => exact ih hrun

theorem failsInPlace_chain {operand : Procedure} (h : operand.FailsInPlace) (band : Band) :
    (chain band operand).FailsInPlace := by
  intro p q fault hrun
  dsimp only [chain] at hrun
  split at hrun
  · rename_i hfirst
    cases hrun
    exact h hfirst
  · split at hrun
    · rename_i hlinks
      cases hrun
      exact madeAt_of_links h hlinks
    · split at hrun
      · cases hrun
      · cases hrun
        trivial

/-- **Faults are made in place**: the error of a procedure is handed on as it is, without a move. -/
theorem failsInPlace_atLevel (depth : Nat) (level : Level) :
    (atLevel limit depth level).FailsInPlace := by
  induction depth, level using Level.induction with
  | zero => exact failsInPlace_primary (fun _ hnone => by cases hnone)
  | succ depth ih =>
    refine failsInPlace_primary ?_
    rintro _ ⟨⟩
    exact ih
  | marked depth ih => exact failsInPlace_negations ih
  | chained depth level band next hchain ih =>
    rw [atLevel_of_chain? hchain]
    exact failsInPlace_chain ih band

end Procedure

theorem Pointer.madeAt_of_read {p : Pointer} {level : Level} {fault : Fault}
    (h : (p.read level).1 = .error fault) : fault.MadeAt (p.read level).2 :=
  Procedure.failsInPlace_atLevel _ _ (Prod.ext h rfl)

/-! ### Reading -/

theorem Cursor.readWithin_eq_read {cursor : Cursor} {depth : Nat} {level : Level}
    (h : cursor.ahead.length ≤ depth) : cursor.readWithin depth level = cursor.read level := by
  unfold read readWithin
  dsimp only
  rw [Level.run_eq_of_length_le h]
  rcases hrun : (Reader.atLevel cursor.ahead.length level).run cursor.ahead with ⟨cause | f, rest⟩
  · have hcause : cause ≠ .tooDeep := by
      rintro rfl
      exact Level.not_exhausts_of_length_le (Nat.le_refl _) (congrArg Prod.fst hrun)
    simp only [Except.mapError, Cause.fault_eq hcause depth cursor.ahead.length]
  · rfl

/-- A pointer reads what the cursor there does, and stands where that one does afterwards. -/
theorem Pointer.Shows.read {p : Pointer} {cursor : Cursor} (h : p.Shows cursor) (level : Level) :
    (p.read level).1 = (cursor.read level).1 ∧ (p.read level).2.Shows (cursor.read level).2 := by
  have hdepth : cursor.ahead.length ≤ p.list.length := by
    have hlength : cursor.ahead.length = Token.lastPlace p.list - p.place := h.length_ahead
    have hlt : Token.lastPlace p.list < p.list.length := h.lastPlace_lt
    omega
  have hagrees := Procedure.follows_atLevel p.list.length p.list.length level h
  rw [← Cursor.readWithin_eq_read hdepth]
  exact ⟨hagrees.result, hagrees.shows_rest⟩

end Wff
