import Mathlib.Data.List.Forall2
import Wff.Grammar
import Wff.Proofs.Pending
import Wff.Proofs.Scanning

/-!
# Wff.Proofs.Alike — texts that are read alike

Two texts are compared by two relations: `C` says which characters may stand for each other, and `P`
which byte offset of one belongs to which of the other.  Pieces, tokens and faults are alike if they
agree but for characters and offsets so related, and two outcomes are alike if both are results that
agree or both are faults that are alike (`Alike`).

Each stage keeps this: the table (`token?_alike`), bracket matching (`matchBrackets_alike`), and the
readers, by way of the walk over what is pending (`ofTokens_alike`).  So two texts whose pieces are
alike are read alike (`parseExplicit_alike`).
-/

namespace Wff

section Relations

variable (C : Char → Char → Prop) (P : Nat → Nat → Prop)

/-- The same piece, but for characters and offsets. -/
inductive Lexeme.Alike : Lexeme → Lexeme → Prop
  | word (letters : Text) {offset offset' : Nat} (places : P offset offset') :
      Lexeme.Alike (.word letters offset) (.word letters offset')
  | glyph {c c' : Char} {offset offset' : Nat} (chars : C c c') (places : P offset offset') :
      Lexeme.Alike (.glyph c offset) (.glyph c' offset')

structure Token.Alike (token token' : Token) : Prop where
  meaning : token.meaning = token'.meaning
  literal : List.Forall₂ C token.literal token'.literal
  place : P token.offset token'.offset

inductive Fault.Alike : Fault → Fault → Prop
  | unrecognized {found found' : Char} {offset offset' : Nat} (chars : C found found')
      (places : P offset offset') :
      Fault.Alike (.unrecognized found offset) (.unrecognized found' offset')
  | unmatched {found found' : Char} {offset offset' : Nat} (chars : C found found')
      (places : P offset offset') :
      Fault.Alike (.unmatched found offset) (.unmatched found' offset')
  | missingOperand {offset offset' : Nat} (places : P offset offset') :
      Fault.Alike (.missingOperand offset) (.missingOperand offset')
  | trailing {found found' : Text} {offset offset' : Nat} (chars : List.Forall₂ C found found')
      (places : P offset offset') :
      Fault.Alike (.trailing found offset) (.trailing found' offset')
  | tooDeep (limit : Nat) {offset offset' : Nat} (places : P offset offset') :
      Fault.Alike (.tooDeep limit offset) (.tooDeep limit offset')

inductive Alike {α : Type} (R : α → α → Prop) : Except Fault α → Except Fault α → Prop
  | ok {x x' : α} (agree : R x x') : Alike R (.ok x) (.ok x')
  | error {fault fault' : Fault} (alike : Fault.Alike C P fault fault') :
      Alike R (.error fault) (.error fault')

end Relations

variable {C : Char → Char → Prop} {P : Nat → Nat → Prop}

theorem Alike.eq_ok {α : Type} {x : α} {outcome : Except Fault α}
    (h : Alike C P Eq (.ok x) outcome) : outcome = .ok x := by
  cases h with
  | ok agree => rw [agree]

theorem Alike.exists_ok {α : Type} {R : α → α → Prop} {x : α} {outcome : Except Fault α}
    (h : Alike C P R (.ok x) outcome) : ∃ x', outcome = .ok x' ∧ R x x' := by
  cases h with
  | ok agree => exact ⟨_, rfl, agree⟩

theorem Alike.exists_error {α : Type} {R : α → α → Prop} {fault : Fault} {outcome : Except Fault α}
    (h : Alike C P R (.error fault) outcome) :
    ∃ fault', outcome = .error fault' ∧ Fault.Alike C P fault fault' := by
  cases h with
  | error alike => exact ⟨_, rfl, alike⟩

/-! ### Moving offsets -/

section Moving

variable {move move' : Nat → Nat}

theorem Fault.Alike.mapOffset {fault fault' : Fault}
    (h : Fault.Alike C (fun o o' => P (move o) (move' o')) fault fault') :
    Fault.Alike C P (fault.mapOffset move) (fault'.mapOffset move') := by
  cases h with
  | unrecognized chars places => exact .unrecognized chars places
  | unmatched chars places => exact .unmatched chars places
  | missingOperand places => exact .missingOperand places
  | trailing chars places => exact .trailing chars places
  | tooDeep limit places => exact .tooDeep limit places

theorem Alike.mapError {α : Type} {R : α → α → Prop} {x x' : Except Fault α}
    (h : Alike C (fun o o' => P (move o) (move' o')) R x x') :
    Alike C P R (x.mapError (Fault.mapOffset move)) (x'.mapError (Fault.mapOffset move')) := by
  cases h with
  | ok agree => exact .ok agree
  | error alike => exact .error alike.mapOffset

end Moving

/-! ### Pieces and tokens -/

theorem map_eq_of_forall₂ {α β γ : Type} {g : α → γ} {g' : β → γ} {xs : List α} {ys : List β}
    (h : List.Forall₂ (fun x y => g x = g' y) xs ys) : xs.map g = ys.map g' := by
  rwa [← List.forall₂_eq_eq_eq, List.forall₂_map_left_iff, List.forall₂_map_right_iff]

theorem map_meaning_eq_of_alike {tokens tokens' : List Token}
    (h : List.Forall₂ (Token.Alike C P) tokens tokens') :
    tokens.map Token.meaning = tokens'.map Token.meaning :=
  map_eq_of_forall₂ (h.imp fun _ _ halike => halike.meaning)

/-- A function that keeps members alike keeps lists alike; the first fault counts on both sides. -/
theorem mapM_alike {α β : Type} {Q : α → α → Prop} {R : β → β → Prop} {f : α → Except Fault β}
    (hf : ∀ x x', Q x x' → Alike C P R (f x) (f x')) {xs xs' : List α}
    (h : List.Forall₂ Q xs xs') : Alike C P (List.Forall₂ R) (xs.mapM f) (xs'.mapM f) := by
  induction h with
  | nil => exact .ok .nil
  | @cons x x' xs xs' first rest ih =>
    rw [List.mapM_cons, List.mapM_cons]
    have hfirst := hf x x' first
    generalize f x = y, f x' = y' at hfirst ⊢
    generalize xs.mapM f = ys, xs'.mapM f = ys' at ih ⊢
    cases hfirst with
    | error alike => exact .error alike
    | ok agree =>
      cases ih with
      | error alike => exact .error alike
      | ok others => exact .ok (.cons agree others)

section Table

variable {table : Table}

/-- Pieces alike make tokens alike, if the table does not tell their characters apart. -/
theorem Table.token?_alike (hrefl : ∀ c, C c c)
    (hglyph : ∀ c c', C c c' → table.glyph? c = table.glyph? c') {piece piece' : Lexeme}
    (h : Lexeme.Alike C P piece piece') :
    Alike C P (Token.Alike C P) (table.token? piece) (table.token? piece') := by
  cases h with
  | word letters places =>
    have hletters : List.Forall₂ C letters letters := List.forall₂_same.mpr fun c _ => hrefl c
    unfold token?
    dsimp only
    cases table.lookup? letters with
    | none => exact .ok ⟨rfl, hletters, places⟩
    | some s => exact .ok ⟨rfl, hletters, places⟩
  | glyph chars places =>
    unfold token?
    dsimp only
    rw [hglyph _ _ chars]
    cases table.glyph? _ with
    | none => exact .error (.unrecognized chars places)
    | some s => exact .ok ⟨rfl, .cons chars .nil, places⟩

end Table

/-! ### Brackets -/

section Reflexive

variable (hrefl : ∀ c, C c c)
include hrefl

theorem headD_alike {l l' : Text} (h : List.Forall₂ C l l') (default : Char) :
    C (l.headD default) (l'.headD default) := by
  cases h with
  | nil => exact hrefl default
  | cons first rest => exact first

theorem Token.Alike.unmatched {token token' : Token} (h : Token.Alike C P token token') :
    Fault.Alike C P token.unmatched token'.unmatched :=
  .unmatched (headD_alike hrefl h.literal _) h.place

theorem matchBrackets_alike {tokens tokens' : List Token}
    (h : List.Forall₂ (Token.Alike C P) tokens tokens') {opened opened' : List Token}
    (hopened : List.Forall₂ (Token.Alike C P) opened opened') :
    Alike C P Eq (matchBrackets opened tokens) (matchBrackets opened' tokens') := by
  induction h generalizing opened opened' with
  | nil =>
    cases hopened with
    | nil => exact .ok rfl
    | cons last others => exact .error (last.unmatched hrefl)
  | @cons token token' rest rest' first others ih =>
    -- both stacks are of one height, so they overflow and run empty together
    by_cases hopening : token.meaning = .symbol .opening
    · rw [matchBrackets_opening hopening, matchBrackets_opening (first.meaning ▸ hopening),
        hopened.length_eq]
      by_cases hroom : opened'.length < nestingLimit
      · rw [if_pos hroom, if_pos hroom]
        exact ih (.cons first hopened)
      · rw [if_neg hroom, if_neg hroom]
        exact .error (.tooDeep _ first.place)
    · by_cases hclosing : token.meaning = .symbol .closing
      · have hclosing' := first.meaning ▸ hclosing
        cases hopened with
        | nil =>
          rw [matchBrackets_unopened hclosing, matchBrackets_unopened hclosing']
          exact .error (first.unmatched hrefl)
        | cons last before =>
          rw [matchBrackets_closing hclosing, matchBrackets_closing hclosing']
          exact ih before
      · rw [matchBrackets_other hopening hclosing,
          matchBrackets_other (first.meaning ▸ hopening) (first.meaning ▸ hclosing)]
        exact ih hopened

end Reflexive

/-! ### The walk over what is pending -/

namespace Pending

variable (C P) in
/-- The same is pending, but for how the open brackets are written. -/
inductive Alike : Pending → Pending → Prop
  | awaiting {opened opened' : List Token} (brackets : List.Forall₂ (Token.Alike C P) opened opened') :
      Alike (.awaiting opened) (.awaiting opened')
  | complete {opened opened' : List Token} (brackets : List.Forall₂ (Token.Alike C P) opened opened') :
      Alike (.complete opened) (.complete opened')

end Pending

variable (C P) in
inductive Cause.Alike : Cause → Cause → Prop
  | missingOperand : Cause.Alike .missingOperand .missingOperand
  | trailing : Cause.Alike .trailing .trailing
  | unclosed {opening opening' : Token} (brackets : Token.Alike C P opening opening') :
      Cause.Alike (.unclosed opening) (.unclosed opening')

namespace Pending

theorem Alike.step {pending pending' : Pending} (h : Pending.Alike C P pending pending')
    {token token' : Token} (htoken : Token.Alike C P token token') :
    (∃ next next', pending.step token = .ok next ∧ pending'.step token' = .ok next' ∧
      Pending.Alike C P next next') ∨
    ∃ cause, pending.step token = .error cause ∧ pending'.step token' = .error cause ∧
      Cause.Alike C P cause cause := by
  have hmeaning := htoken.meaning
  cases h with
  | awaiting brackets =>
    unfold Pending.step
    dsimp only
    rw [← hmeaning]
    split
    · exact Or.inl ⟨_, _, rfl, rfl, .complete brackets⟩
    · exact Or.inl ⟨_, _, rfl, rfl, .complete brackets⟩
    · exact Or.inl ⟨_, _, rfl, rfl, .awaiting brackets⟩
    · exact Or.inl ⟨_, _, rfl, rfl, .awaiting (.cons htoken brackets)⟩
    · exact Or.inr ⟨_, rfl, rfl, .missingOperand⟩
  | @complete opened opened' brackets =>
    unfold Pending.step
    dsimp only
    rw [← hmeaning]
    cases token.meaning with
    | var name => exact Or.inr ⟨_, rfl, rfl, .trailing⟩
    | stop => exact Or.inr ⟨_, rfl, rfl, .trailing⟩
    | symbol s =>
      cases s with
      | negationAfter => exact Or.inl ⟨_, _, rfl, rfl, .complete brackets⟩
      | operator kind =>
        dsimp only
        split
        · exact Or.inl ⟨_, _, rfl, rfl, .awaiting brackets⟩
        · exact Or.inr ⟨_, rfl, rfl, .trailing⟩
      | closing =>
        cases brackets with
        | nil => exact Or.inr ⟨_, rfl, rfl, .trailing⟩
        | cons last others => exact Or.inl ⟨_, _, rfl, rfl, .complete others⟩
      | constant | negationBefore | opening => exact Or.inr ⟨_, rfl, rfl, .trailing⟩

theorem Alike.finish? {pending pending' : Pending} (h : Pending.Alike C P pending pending') :
    Option.Rel (Cause.Alike C P) pending.finish? pending'.finish? := by
  cases h with
  | awaiting brackets => exact .some .missingOperand
  | complete brackets =>
    cases brackets with
    | nil => exact .none
    | cons last others => exact .some (.unclosed last)

theorem Alike.walk {tokens tokens' : List Token}
    (h : List.Forall₂ (Token.Alike C P) tokens tokens') {pending pending' : Pending}
    (hpending : Pending.Alike C P pending pending') :
    Option.Rel (Cause.Alike C P) (pending.walk tokens).1 (pending'.walk tokens').1 ∧
      List.Forall₂ (Token.Alike C P) (pending.walk tokens).2 (pending'.walk tokens').2 := by
  induction h generalizing pending pending' with
  | nil => exact ⟨hpending.finish?, .nil⟩
  | cons first others ih =>
    rcases hpending.step first with ⟨next, next', hstep, hstep', hnext⟩ | ⟨cause, hstep, hstep', hcause⟩
    · rw [walk_cons_of_ok hstep, walk_cons_of_ok hstep']
      exact ih hnext
    · rw [walk_cons_of_error hstep, walk_cons_of_error hstep']
      exact ⟨.some hcause, .cons first others⟩

end Pending

/-! ### Formulas -/

theorem Token.Alike.isStop_eq {token token' : Token} (h : Token.Alike C P token token') :
    token.isStop = token'.isStop := by
  rw [Token.isStop, Token.isStop, h.meaning]

theorem find?_isStop_alike {tokens tokens' : List Token}
    (h : List.Forall₂ (Token.Alike C P) tokens tokens') :
    List.Forall₂ (Token.Alike C P) (tokens.takeWhile (!·.isStop)) (tokens'.takeWhile (!·.isStop)) ∧
      Option.Rel (Token.Alike C P) (tokens.find? (·.isStop)) (tokens'.find? (·.isStop)) := by
  induction h with
  | nil => exact ⟨.nil, .none⟩
  | @cons token token' rest rest' first others ih =>
    have hsame := first.isStop_eq
    cases hstop : token.isStop with
    | true =>
      rw [hstop] at hsame
      simpa [hstop, ← hsame] using Option.Rel.some first
    | false =>
      rw [hstop] at hsame
      simpa [hstop, ← hsame] using ⟨⟨first, ih.1⟩, ih.2⟩

theorem Cursor.ofTokens_alike {tokens tokens' : List Token}
    (h : List.Forall₂ (Token.Alike C P) tokens tokens')
    (hstop : ∃ token ∈ tokens, token.isStop = true) :
    List.Forall₂ (Token.Alike C P) (Cursor.ofTokens tokens).ahead (Cursor.ofTokens tokens').ahead ∧
      Token.Alike C P (Cursor.ofTokens tokens).stop (Cursor.ofTokens tokens').stop := by
  obtain ⟨hahead, hend⟩ := find?_isStop_alike h
  obtain ⟨stop, hfind⟩ := Option.isSome_iff_exists.mp (List.find?_isSome.mpr hstop)
  refine ⟨hahead, ?_⟩
  unfold Cursor.ofTokens
  rw [hfind] at hend ⊢
  generalize tokens'.find? (·.isStop) = found at hend ⊢
  cases hend with
  | some first => exact first

section Reflexive

variable (hrefl : ∀ c, C c c)
include hrefl

theorem Cause.Alike.fault {cause cause' : Cause} (h : Cause.Alike C P cause cause')
    {token token' : Token} (htoken : Token.Alike C P token token') (depth : Nat) :
    Fault.Alike C P (cause.fault depth token) (cause'.fault depth token') := by
  cases h with
  | missingOperand => exact .missingOperand htoken.place
  | trailing => exact .trailing htoken.literal htoken.place
  | unclosed brackets => exact .unmatched (headD_alike hrefl brackets.literal _) brackets.place

/-- Tokens alike that hold their end are read as one formula, or their faults are alike. -/
theorem ofTokens_alike {tokens tokens' : List Token}
    (h : List.Forall₂ (Token.Alike C P) tokens tokens')
    (hstop : ∃ token ∈ tokens, token.isStop = true) :
    Alike C P Eq (Formula.ofTokens tokens) (Formula.ofTokens tokens') := by
  obtain ⟨hahead, hend⟩ := Cursor.ofTokens_alike h hstop
  obtain ⟨hcauses, hrests⟩ := Pending.Alike.walk hahead (.awaiting .nil)
  have hread := Formula.ofTokens_of_walk tokens
  have hread' := Formula.ofTokens_of_walk tokens'
  rcases hwalk : (Pending.awaiting []).walk (Cursor.ofTokens tokens).ahead with ⟨cause?, rest⟩
  rcases hwalk' : (Pending.awaiting []).walk (Cursor.ofTokens tokens').ahead with ⟨cause?', rest'⟩
  rw [hwalk] at hread hcauses hrests
  rw [hwalk'] at hread' hcauses hrests
  cases hcauses with
  | none =>
    -- lists of the same meanings are read as the same formula
    obtain ⟨f, hf⟩ := hread
    have hmeanings : meaningsBeforeStop tokens = meaningsBeforeStop tokens' :=
      map_meaning_eq_of_alike hahead
    have hf' := Formula.ofTokens_of_derives (hmeanings ▸ Formula.derives_of_ofTokens hf)
    rw [hf, hf']
    exact .ok rfl
  | @some cause cause' hcause =>
    obtain ⟨hfault, hrest⟩ := hread
    obtain ⟨hfault', hrest'⟩ := hread'
    have hcurrent : ∀ tokens, (Cursor.afterReading tokens).current =
        (Cursor.afterReading tokens).ahead.headD (Cursor.ofTokens tokens).stop := fun _ => rfl
    have hnext : Token.Alike C P (Cursor.afterReading tokens).current
        (Cursor.afterReading tokens').current := by
      rw [hcurrent, hcurrent, hrest, hrest']
      cases hrests with
      | nil => exact hend
      | cons first others => exact first
    rw [hfault, hfault', h.length_eq]
    exact .error (hcause.fault hrefl hnext _)

theorem Table.scanFrom_alike {table : Table}
    (hglyph : ∀ c c', C c c' → table.glyph? c = table.glyph? c') {here here' : Nat}
    {text text' : Text}
    (h : List.Forall₂ (Lexeme.Alike C P) (text.lexemesFrom here) (text'.lexemesFrom here')) :
    Alike C P (List.Forall₂ (Token.Alike C P)) (table.scanFrom here text)
      (table.scanFrom here' text') :=
  mapM_alike (fun _ _ hpiece => table.token?_alike hrefl hglyph hpiece) h

theorem Table.tokens_alike {table : Table}
    (hglyph : ∀ c c', C c c' → table.glyph? c = table.glyph? c') {text text' : Text}
    (hpieces : List.Forall₂ (Lexeme.Alike C P) (text.lexemesFrom 0) (text'.lexemesFrom 0))
    (hend : P (Text.byteLength text) (Text.byteLength text')) :
    Alike C P (List.Forall₂ (Token.Alike C P)) (table.tokens text) (table.tokens text') := by
  have hstop : Token.Alike C P (.stopAt (Text.byteLength text)) (.stopAt (Text.byteLength text')) :=
    ⟨rfl, .nil, hend⟩
  have hscans := Table.scanFrom_alike hrefl hglyph hpieces
  generalize hscan : table.scanFrom 0 text = scan, hscan' : table.scanFrom 0 text' = scan'
    at hscans
  cases hscans with
  | error alike =>
    rw [tokens_of_scanFrom_error hscan, tokens_of_scanFrom_error hscan']
    exact .error alike
  | @ok scanned scanned' htokens =>
    have hall : List.Forall₂ (Token.Alike C P) (scanned ++ [.stopAt (Text.byteLength text)])
        (scanned' ++ [.stopAt (Text.byteLength text')]) :=
      List.rel_append htokens (.cons hstop .nil)
    have hmatches := matchBrackets_alike hrefl hall .nil
    rw [tokens_of_scanFrom hscan, tokens_of_scanFrom hscan']
    generalize matchBrackets [] (scanned ++ _) = outcome at hmatches ⊢
    generalize matchBrackets [] (scanned' ++ _) = outcome' at hmatches ⊢
    cases hmatches with
    | error alike => exact .error alike
    | ok => exact .ok hall

/-- **Texts whose pieces are alike are read alike**, if the table does not tell characters apart that
may stand for each other. -/
theorem Table.parseExplicit_alike {table : Table}
    (hglyph : ∀ c c', C c c' → table.glyph? c = table.glyph? c') {text text' : Text}
    (hpieces : List.Forall₂ (Lexeme.Alike C P) (text.lexemesFrom 0) (text'.lexemesFrom 0))
    (hend : P (Text.byteLength text) (Text.byteLength text')) :
    Alike C P Eq (table.parseExplicit text) (table.parseExplicit text') := by
  have houtcomes := tokens_alike hrefl hglyph hpieces hend
  rw [parseExplicit, parseExplicit]
  cases htokens : table.tokens text with
  | error fault =>
    rw [htokens] at houtcomes
    obtain ⟨fault', htokens', halike⟩ := houtcomes.exists_error
    rw [htokens']
    exact .error halike
  | ok tokens =>
    rw [htokens] at houtcomes
    generalize table.tokens text' = outcome at houtcomes ⊢
    cases houtcomes with
    | ok halike => exact ofTokens_alike hrefl halike (exists_isStop_of_tokens htokens)

end Reflexive

end Wff
