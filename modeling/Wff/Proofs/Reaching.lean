import Wff.Proofs.Pending

/-!
# Wff.Proofs.Reaching — what the tokens passed lead to

`Pending.Reaches` says what a walk has come to after some tokens.  All that a token does on the way is
in `Pending.step_eq_ok`, and all causes that stop it in `Pending.step_eq_error`; so the last token
tells whether an operand has to come (`Reaches.awaits_getLast?`), bracket matching goes over the same
tokens with the same brackets open (`Reaches.matchBrackets_append`), and two operands are never
passed side by side (`walk_side_by_side`).

From whatever has been reached, the end can be reached (`exists_walk_eq_none`).  Where reading a list
fails, the tokens before the fault have been passed (`Formula.exists_reaches_of_ofTokens`), in one of
three ways (`Formula.fault_cases`).
-/

namespace Wff

open Pending

/-! ### What is reached -/

namespace Pending

/-- The tokens lead from what is pending before them to what is pending after them. -/
inductive Reaches : Pending → List Token → Pending → Prop
  | nil (pending : Pending) : Reaches pending [] pending
  | cons {before next after : Pending} {token : Token} {rest : List Token}
      (first : before.step token = .ok next) (others : Reaches next rest after) :
      Reaches before (token :: rest) after

/-- The walk ends here: no token is left, or the first one cannot come. -/
def Halts (pending : Pending) (cause? : Option Cause) : List Token → Prop
  | [] => pending.finish? = cause?
  | token :: _ => ∃ cause, cause? = some cause ∧ pending.step token = .error cause

theorem Reaches.walk_append {before after : Pending} {used : List Token}
    (h : Reaches before used after) (more : List Token) :
    before.walk (used ++ more) = after.walk more := by
  induction h with
  | nil pending => rfl
  | cons first others ih => rw [List.cons_append, walk_cons_of_ok first, ih]

theorem Reaches.append {before middle after : Pending} {used more : List Token}
    (h : Reaches before used middle) (hmore : Reaches middle more after) :
    Reaches before (used ++ more) after := by
  induction h with
  | nil pending => exact hmore
  | cons first others ih => exact .cons first (ih hmore)

theorem Reaches.single {before after : Pending} {token : Token} (h : before.step token = .ok after) :
    Reaches before [token] after :=
  .cons h (.nil after)

theorem Reaches.of_forall {pending : Pending} {tokens : List Token}
    (h : ∀ token ∈ tokens, pending.step token = .ok pending) : Reaches pending tokens pending := by
  induction tokens with
  | nil => exact .nil pending
  | cons token rest ih =>
    exact .cons (h token List.mem_cons_self) (ih fun t ht => h t (List.mem_cons_of_mem _ ht))

theorem exists_reaches_of_walk {before : Pending} {tokens rest : List Token}
    {cause? : Option Cause} (h : before.walk tokens = (cause?, rest)) :
    ∃ used after, tokens = used ++ rest ∧ Reaches before used after ∧ after.Halts cause? rest := by
  -- one token at a time: one that can come is passed, and the walk halts before the first that cannot
  induction tokens generalizing before with
  | nil =>
    cases h
    exact ⟨[], before, rfl, .nil before, rfl⟩
  | cons token tail ih =>
    cases hstep : before.step token with
    | ok next =>
      rw [walk_cons_of_ok hstep] at h
      obtain ⟨used, after, hsplit, hreaches, hhalts⟩ := ih h
      refine ⟨token :: used, after, ?_, .cons hstep hreaches, hhalts⟩
      rw [hsplit, List.cons_append]
    | error cause =>
      rw [walk_cons_of_error hstep] at h
      cases h
      exact ⟨[], before, rfl, .nil before, cause, rfl, hstep⟩

/-- What cannot come: no operand where one has to come, or what no complete formula goes on with. -/
theorem step_eq_error {pending : Pending} {token : Token} {cause : Cause}
    (h : pending.step token = .error cause) :
    (∃ opened, pending = awaiting opened ∧ cause = .missingOperand ∧
      token.meaning.begins = false) ∨
    ∃ opened, pending = complete opened ∧ cause = .trailing ∧
      Level.biconditional.goesOn token.meaning = false ∧
      (token.meaning = .symbol .closing → opened = []) := by
  cases pending with
  | awaiting opened =>
    refine Or.inl ⟨opened, rfl, ?_⟩
    cases hbegins : token.meaning.begins with
    | false =>
      rw [step_missingOperand hbegins] at h
      exact ⟨(Except.error.inj h).symm, rfl⟩
    | true =>
      rcases Meaning.begins_cases hbegins with ⟨_, hm⟩ | ⟨_, hm⟩ | hm | hm <;> simp [step, hm] at h
  | complete opened =>
    have hgoesOn : Level.biconditional.goesOn token.meaning = false := by
      rw [Bool.eq_false_iff]
      intro hgoesOn
      rcases goesOn_biconditional_cases hgoesOn with hafter | ⟨kind, hkind, hbinary⟩
      · rw [step_markAfter (by simp [Token.isMarkAfter, hafter])] at h
        cases h
      · rw [step_operator hkind hbinary] at h
        cases h
    have hopened : token.meaning = .symbol .closing → opened = [] := by
      intro hclosing
      cases opened with
      | nil => rfl
      | cons opening opened =>
        rw [step_closing hclosing] at h
        cases h
    -- marks, operators and brackets that close one are excluded, so the token cannot come
    rw [step_trailing hgoesOn hopened] at h
    exact Or.inr ⟨opened, rfl, (Except.error.inj h).symm, hgoesOn, hopened⟩

/-- The three ways in which a walk halts for a cause: an operand has to come and does not, a token does
not go on with a complete operand, or the tokens end inside a bracket. -/
theorem Halts.cases {pending : Pending} {cause : Cause} {rest : List Token}
    (h : pending.Halts (some cause) rest) :
    cause = .missingOperand ∨
    (∃ opened next others, pending = complete opened ∧ rest = next :: others ∧ cause = .trailing ∧
      Level.biconditional.goesOn next.meaning = false ∧
      (next.meaning = .symbol .closing → opened = [])) ∨
    ∃ opening opened, pending = complete (opening :: opened) ∧ rest = [] ∧
      cause = .unclosed opening := by
  cases rest with
  | nil =>
    -- at the end only what is still pending can be the cause
    cases pending with
    | awaiting opened => exact Or.inl (Option.some.inj h).symm
    | complete opened =>
      cases opened with
      | nil => cases h
      | cons opening opened =>
        exact Or.inr (Or.inr ⟨opening, opened, rfl, rfl, (Option.some.inj h).symm⟩)
  | cons next others =>
    obtain ⟨_, hcause, hstep⟩ := h
    obtain rfl := Option.some.inj hcause
    rcases step_eq_error hstep with ⟨_, -, rfl, -⟩ | ⟨opened, rfl, rfl, hgoesOn, hclosing⟩
    · exact Or.inl rfl
    · exact Or.inr (Or.inl ⟨opened, next, others, rfl, rfl, rfl, hgoesOn, hclosing⟩)

/-- Everything that a token that can come does to what is pending. -/
theorem step_eq_ok {before after : Pending} {token : Token} (h : before.step token = .ok after) :
    (∃ opened, before = awaiting opened ∧
      ((after = complete opened ∧
          ((∃ name, token.meaning = .var name) ∨ ∃ value, token.meaning = .symbol (.constant value))) ∨
        (after = awaiting opened ∧ token.meaning = .symbol .negationBefore) ∨
        (after = awaiting (token :: opened) ∧ token.meaning = .symbol .opening))) ∨
    ∃ opened, before = complete opened ∧
      ((after = complete opened ∧ token.meaning = .symbol .negationAfter) ∨
        (after = awaiting opened ∧ ∃ kind, token.meaning = .symbol (.operator kind)) ∨
        ∃ opening others, opened = opening :: others ∧ after = complete others ∧
          token.meaning = .symbol .closing) := by
  cases before with
  | awaiting opened =>
    refine Or.inl ⟨opened, rfl, ?_⟩
    unfold step at h
    dsimp only at h
    split at h
    · rename_i name hmeaning
      exact Or.inl ⟨(Except.ok.inj h).symm, Or.inl ⟨name, hmeaning⟩⟩
    · rename_i value hmeaning
      exact Or.inl ⟨(Except.ok.inj h).symm, Or.inr ⟨value, hmeaning⟩⟩
    · rename_i hmeaning
      exact Or.inr (Or.inl ⟨(Except.ok.inj h).symm, hmeaning⟩)
    · rename_i hmeaning
      exact Or.inr (Or.inr ⟨(Except.ok.inj h).symm, hmeaning⟩)
    · cases h
  | complete opened =>
    refine Or.inr ⟨opened, rfl, ?_⟩
    unfold step at h
    dsimp only at h
    split at h
    · rename_i hmeaning
      exact Or.inl ⟨(Except.ok.inj h).symm, hmeaning⟩
    · rename_i kind hmeaning
      split at h
      · exact Or.inr (Or.inl ⟨(Except.ok.inj h).symm, kind, hmeaning⟩)
      · cases h
    · rename_i opening others hmeaning
      exact Or.inr (Or.inr ⟨opening, others, rfl, (Except.ok.inj h).symm, hmeaning⟩)
    · cases h

def awaits : Pending → Bool
  | awaiting _ => true
  | complete _ => false

/-- Whether an operand has to come is seen from the last token. -/
theorem awaits_of_step {before after : Pending} {token : Token}
    (h : before.step token = .ok after) : after.awaits = token.meaning.awaits := by
  rcases step_eq_ok h with
    ⟨_, -, ⟨rfl, ⟨_, hm⟩ | ⟨_, hm⟩⟩ | ⟨rfl, hm⟩ | ⟨rfl, hm⟩⟩ |
    ⟨_, -, ⟨rfl, hm⟩ | ⟨rfl, _, hm⟩ | ⟨_, _, -, rfl, hm⟩⟩
  all_goals
    rw [hm]
    rfl

theorem Reaches.awaits_getLast? {before after : Pending} {used : List Token}
    (h : Reaches before used after) : ∀ last ∈ used.getLast?, after.awaits = last.meaning.awaits := by
  induction h with
  | nil pending => simp
  | cons first others ih =>
    intro last hlast
    -- only the very last token counts, so the one before it is passed over
    cases others with
    | nil =>
      have hsame := Option.some.inj hlast
      rw [← hsame]
      exact awaits_of_step first
    | cons second others =>
      rw [List.getLast?_cons_cons] at hlast
      exact ih last hlast

theorem Reaches.isStop_eq_false {before after : Pending} {used : List Token}
    (h : Reaches before used after) : ∀ token ∈ used, token.isStop = false := by
  induction h with
  | nil pending => simp
  | cons first others ih =>
    rename_i pending _ _ token rest
    intro other hother
    rcases List.mem_cons.mp hother with rfl | hother
    · rw [Bool.eq_false_iff]
      intro hstop
      have hmeaning : other.meaning = .stop := by simpa [Token.isStop] using hstop
      cases pending <;> simp [step, hmeaning] at first
    · exact ih other hother

theorem mem_opened_of_step {before after : Pending} {token opening : Token}
    (h : before.step token = .ok after) (hmem : opening ∈ after.opened) :
    opening ∈ before.opened ∨ opening = token ∧ token.meaning = .symbol .opening := by
  rcases step_eq_ok h with
    ⟨opened, rfl, ⟨rfl, -⟩ | ⟨rfl, -⟩ | ⟨rfl, hm⟩⟩ |
    ⟨opened, rfl, ⟨rfl, -⟩ | ⟨rfl, -⟩ | ⟨_, _, rfl, rfl, -⟩⟩
  · exact Or.inl hmem
  · exact Or.inl hmem
  · exact (List.mem_cons.mp hmem).symm.imp_right fun heq => ⟨heq, hm⟩
  · exact Or.inl hmem
  · exact Or.inl hmem
  · exact Or.inl (List.mem_cons_of_mem _ hmem)

theorem Reaches.mem_opened {before after : Pending} {used : List Token}
    (h : Reaches before used after) {opening : Token} (hmem : opening ∈ after.opened) :
    opening ∈ before.opened ∨ opening ∈ used ∧ opening.meaning = .symbol .opening := by
  induction h with
  | nil pending => exact Or.inl hmem
  | cons first others ih =>
    rcases ih hmem with hnext | ⟨hused, hopening⟩
    · rcases mem_opened_of_step first hnext with hbefore | ⟨rfl, hopening⟩
      · exact Or.inl hbefore
      · exact Or.inr ⟨List.mem_cons_self, hopening⟩
    · exact Or.inr ⟨List.mem_cons_of_mem _ hused, hopening⟩

/-- Bracket matching keeps the brackets that are open on the way; it only stops at a token that can
come where too many are open at once. -/
theorem matchBrackets_of_step {before after : Pending} {token : Token}
    (h : before.step token = .ok after) (rest : List Token) :
    (matchBrackets before.opened (token :: rest) = matchBrackets after.opened rest ∧
      (before.opened.length ≤ nestingLimit → after.opened.length ≤ nestingLimit)) ∨
    ∃ offset, matchBrackets before.opened (token :: rest) =
      .error (.tooDeep nestingLimit offset) := by
  rcases step_eq_ok h with
    ⟨opened, rfl, ⟨rfl, ⟨_, hm⟩ | ⟨_, hm⟩⟩ | ⟨rfl, hm⟩ | ⟨rfl, hm⟩⟩ |
    ⟨opened, rfl, ⟨rfl, hm⟩ | ⟨rfl, _, hm⟩ | ⟨_, _, rfl, rfl, hm⟩⟩
  · exact Or.inl ⟨matchBrackets_other (by simp [hm]) (by simp [hm]), id⟩
  · exact Or.inl ⟨matchBrackets_other (by simp [hm]) (by simp [hm]), id⟩
  · exact Or.inl ⟨matchBrackets_other (by simp [hm]) (by simp [hm]), id⟩
  · -- an opening bracket is the only token that can be one too many
    rw [matchBrackets_opening hm]
    by_cases hroom : opened.length < nestingLimit
    · exact Or.inl ⟨if_pos hroom, fun _ => hroom⟩
    · exact Or.inr ⟨token.offset, if_neg hroom⟩
  · exact Or.inl ⟨matchBrackets_other (by simp [hm]) (by simp [hm]), id⟩
  · exact Or.inl ⟨matchBrackets_other (by simp [hm]) (by simp [hm]), id⟩
  · exact Or.inl ⟨matchBrackets_closing hm _, (Nat.le_succ _).trans⟩

theorem Reaches.matchBrackets_append {before after : Pending} {used : List Token}
    (h : Reaches before used after) (rest : List Token) :
    (matchBrackets before.opened (used ++ rest) = matchBrackets after.opened rest ∧
      (before.opened.length ≤ nestingLimit → after.opened.length ≤ nestingLimit)) ∨
    ∃ offset, matchBrackets before.opened (used ++ rest) =
      .error (.tooDeep nestingLimit offset) := by
  induction h with
  | nil pending => exact Or.inl ⟨rfl, id⟩
  | cons first others ih =>
    rcases matchBrackets_of_step first _ with ⟨hsame, hroom⟩ | hdeep
    · rw [List.cons_append, hsame]
      exact ih.imp_left fun ⟨hrest, hmore⟩ => ⟨hrest, hmore ∘ hroom⟩
    · exact Or.inr hdeep

theorem Reaches.matchBrackets_eq_ok {before after : Pending} {used rest : List Token}
    (h : Reaches before used after) (hmatch : matchBrackets before.opened (used ++ rest) = .ok ()) :
    matchBrackets after.opened rest = .ok () := by
  rcases h.matchBrackets_append rest with ⟨hsame, -⟩ | ⟨offset, hdeep⟩
  · rw [← hsame, hmatch]
  · rw [hmatch] at hdeep
    cases hdeep

/-- Where the brackets of all tokens match, none closes what was never opened. -/
theorem Reaches.ne_closing {used rest : List Token} {opened : List Token} {next : Token}
    (h : Reaches (awaiting []) used (complete opened))
    (hopened : next.meaning = .symbol .closing → opened = [])
    (hmatch : checkBrackets (used ++ next :: rest) = .ok ()) : next.meaning ≠ .symbol .closing := by
  intro hclosing
  -- matching would come to this token with the same brackets open, which are none
  have hrest : matchBrackets opened (next :: rest) = .ok () := h.matchBrackets_eq_ok hmatch
  rw [hopened hclosing, matchBrackets_unopened hclosing] at hrest
  cases hrest

/-! ### Operands side by side -/

theorem step_begins {token : Token} (h : token.meaning.begins = true) (opened : List Token) :
    (complete opened).step token = .error .trailing := by
  rcases Meaning.begins_cases h with ⟨_, hm⟩ | ⟨_, hm⟩ | hm | hm
  all_goals
    refine step_trailing ?_ ?_
    · rw [hm]
      rfl
    · rw [hm]
      simp

/-- The end is never reached over two operands side by side. -/
theorem walk_side_by_side {last next : Token} (hlast : last.meaning.awaits = false)
    (hnext : next.meaning.begins = true) (pending : Pending) (before after : List Token) :
    (pending.walk (before ++ last :: next :: after)).1 ≠ none := by
  induction before generalizing pending with
  | nil =>
    -- after the first of the two an operand is complete, where no other can begin
    cases hstep : pending.step last with
    | error cause => simp [walk_cons_of_error hstep]
    | ok middle =>
      rw [List.nil_append, walk_cons_of_ok hstep]
      have hcomplete : middle.awaits = false := (awaits_of_step hstep).trans hlast
      cases middle with
      | awaiting opened => cases hcomplete
      | complete opened => simp [walk_cons_of_error (step_begins hnext opened)]
  | cons token before ih =>
    cases hstep : pending.step token with
    | error cause => simp [walk_cons_of_error hstep]
    | ok middle =>
      rw [List.cons_append, walk_cons_of_ok hstep]
      exact ih middle

/-! ### What is pending can be done -/

theorem walk_closings {opened closings : List Token} (hlength : closings.length = opened.length)
    (hclosings : ∀ token ∈ closings, token.meaning = .symbol .closing) :
    (complete opened).walk closings = (none, []) := by
  induction closings generalizing opened with
  | nil =>
    have hnil : opened = [] := List.eq_nil_of_length_eq_zero hlength.symm
    rw [hnil]
    rfl
  | cons token rest ih =>
    cases opened with
    | nil => cases hlength
    | cons opening opened =>
      have hclosing := hclosings token List.mem_cons_self
      rw [walk_cons_of_ok (step_closing hclosing opening)]
      exact ih (Nat.succ.inj hlength) fun t ht => hclosings t (List.mem_cons_of_mem _ ht)

/-- Whatever is pending, some tokens end it. -/
theorem exists_walk_eq_none (pending : Pending) :
    ∃ more, (∀ token ∈ more, token.isStop = false) ∧ pending.walk more = (none, []) := by
  -- one closing bracket for each that is open, after an operand where one has to come
  let closing : Token := ⟨.symbol .closing, [')'], 0⟩
  have hclosings : ∀ opened, (complete opened).walk (List.replicate opened.length closing) =
      (none, []) := by
    intro opened
    refine walk_closings List.length_replicate ?_
    intro token htoken
    rw [List.eq_of_mem_replicate htoken]
  have hstops : ∀ n, ∀ token ∈ List.replicate n closing, token.isStop = false := by
    intro n token htoken
    rw [List.eq_of_mem_replicate htoken]
    rfl
  cases pending with
  | complete opened => exact ⟨_, hstops opened.length, hclosings opened⟩
  | awaiting opened =>
    let operand : Token := ⟨.var ['p'], ['p'], 0⟩
    refine ⟨operand :: List.replicate opened.length closing, ?_, ?_⟩
    · intro token htoken
      rcases List.mem_cons.mp htoken with rfl | htoken
      · rfl
      · exact hstops opened.length token htoken
    · exact hclosings opened

end Pending

/-! ### Derivations -/

/-- A derivation leads from where an operand has to come to where it is complete, with the same
brackets open. -/
theorem Derives.reaches {level : Level} {meanings : List Meaning} {f : Formula}
    (h : Derives level meanings f) :
    ∀ tokens : List Token, tokens.map Token.meaning = meanings →
      ∀ opened, Reaches (awaiting opened) tokens (complete opened) := by
  induction h with
  | var name =>
    intro tokens htokens opened
    obtain ⟨token, rfl, hmeaning⟩ := List.map_eq_singleton_iff.mp htokens
    exact .single (by simp only [step, hmeaning])
  | const value =>
    intro tokens htokens opened
    obtain ⟨token, rfl, hmeaning⟩ := List.map_eq_singleton_iff.mp htokens
    exact .single (by simp only [step, hmeaning])
  | brackets content ih =>
    intro tokens htokens opened
    obtain ⟨opening, tail, rfl, hopening, htail⟩ := List.map_eq_cons_iff.mp htokens
    obtain ⟨inside, last, rfl, hinside, hlast⟩ := List.map_eq_append_iff.mp htail
    obtain ⟨closing, rfl, hclosing⟩ := List.map_eq_singleton_iff.mp hlast
    -- the inside is derived with one more bracket open, which the closing one takes off again
    have hcontent := ih inside hinside (opening :: opened)
    exact .cons (step_opening hopening) (hcontent.append (.single (step_closing hclosing opening)))
  | marks before after marked ih =>
    intro tokens htokens opened
    obtain ⟨front, behind, rfl, hfront, hbehind⟩ := List.map_eq_append_iff.mp htokens
    obtain ⟨ahead, operand, rfl, hahead, hoperand⟩ := List.map_eq_append_iff.mp hfront
    obtain ⟨-, hmarkBefore⟩ := Reader.map_meaning_eq_replicate_iff.mp hahead
    obtain ⟨-, hmarkAfter⟩ := Reader.map_meaning_eq_replicate_iff.mp hbehind
    have hbefore : Reaches (awaiting opened) ahead (awaiting opened) := by
      refine .of_forall fun token htoken => step_markBefore ?_
      simp [Token.isMarkBefore, hmarkBefore token htoken]
    have hafter : Reaches (complete opened) behind (complete opened) := by
      refine .of_forall fun token htoken => step_markAfter ?_
      simp [Token.isMarkAfter, hmarkAfter token htoken]
    exact (hbefore.append (ih operand hoperand opened)).append hafter
  | operand chain single ih => exact ih
  | link chain ofBand shorter last join ihLeft ihRight =>
    intro tokens htokens opened
    obtain ⟨left, tail, rfl, hleft, htail⟩ := List.map_eq_append_iff.mp htokens
    obtain ⟨sign, right, rfl, hsign, hright⟩ := List.map_eq_cons_iff.mp htail
    have hbinary := Kind.isBinary_of_band (Level.band_ne_negation chain) ofBand
    exact (ihLeft left hleft opened).append
      (.cons (step_operator hsign hbinary) (ihRight right hright opened))

/-! ### Faults -/

/-- With as many brackets as tokens, a reader of any level stops in three ways: where an operand is
missing, at a token too many, or at the end inside a bracket that it has opened. -/
theorem Reader.cause_cases {depth : Nat} {level : Level} {tokens rest : List Token} {cause : Cause}
    (hle : tokens.length ≤ depth) (h : (atLevel depth level).run tokens = (.error cause, rest)) :
    cause = .missingOperand ∨ (cause = .trailing ∧ rest ≠ []) ∨
      ∃ opening ∈ tokens, opening.meaning = .symbol .opening ∧ cause = .unclosed opening ∧
        rest = [] := by
  -- before a mark a reader of primary operands fails at once, anywhere else it does what the walk does
  by_cases hmarks : level = .primary → Stops Token.isMarkBefore tokens
  · have hwalk := follows_of_run depth level tokens hle hmarks []
    rw [h] at hwalk
    obtain ⟨_, pending, -, -, hhalts⟩ := exists_reaches_of_walk hwalk
    rcases hhalts.cases with rfl | ⟨_, next, others, -, rfl, rfl, -, -⟩ | ⟨opening, _, -, rfl, rfl⟩
    · exact Or.inl rfl
    · exact Or.inr (Or.inl ⟨rfl, List.cons_ne_nil next others⟩)
    · obtain ⟨used, hused, hmem, hopening⟩ := blames_of_run _ _ _ _ _ hmarks h
      rw [List.append_nil] at hused
      exact Or.inr (Or.inr ⟨opening, hused ▸ hmem, hopening, rfl, rfl⟩)
  · rw [run_of_mark hmarks] at h
    cases h
    exact Or.inl rfl

/-- Where a list is found at fault, the walk over the tokens before halts for the cause. -/
theorem Formula.exists_reaches_of_ofTokens {tokens : List Token} {fault : Fault}
    (h : Formula.ofTokens tokens = .error fault) :
    ∃ passed pending cause,
      (Cursor.ofTokens tokens).ahead = passed ++ (Cursor.afterReading tokens).ahead ∧
      Reaches (awaiting []) passed pending ∧
      pending.Halts (some cause) (Cursor.afterReading tokens).ahead ∧
      fault = cause.fault tokens.length (Cursor.afterReading tokens).current := by
  have hread := Formula.ofTokens_of_walk tokens
  rcases hwalk : (awaiting []).walk (Cursor.ofTokens tokens).ahead with ⟨_ | cause, rest⟩
  · rw [hwalk] at hread
    obtain ⟨f, hf⟩ := hread
    rw [hf] at h
    cases h
  · rw [hwalk] at hread
    obtain ⟨hfault, hahead⟩ := hread
    obtain ⟨passed, pending, hsplit, hreaches, hhalts⟩ := exists_reaches_of_walk hwalk
    rw [hfault] at h
    rw [hahead]
    exact ⟨passed, pending, cause, hsplit, hreaches, hhalts, (Except.error.inj h).symm⟩

theorem Formula.reaches_of_ofTokens {tokens : List Token} {f : Formula}
    (h : Formula.ofTokens tokens = .ok f) :
    Reaches (awaiting []) (Cursor.ofTokens tokens).ahead (complete []) := by
  have hread := Formula.ofTokens_of_walk tokens
  rcases hwalk : (awaiting []).walk (Cursor.ofTokens tokens).ahead with ⟨_ | cause, rest⟩
  · obtain ⟨used, pending, hsplit, hreaches, hhalts⟩ := exists_reaches_of_walk hwalk
    -- a walk without a cause ends with the tokens, and no bracket is left open
    cases rest with
    | nil =>
      rw [List.append_nil] at hsplit
      rw [hsplit]
      cases pending with
      | awaiting opened => cases hhalts
      | complete opened =>
        cases opened with
        | nil => exact hreaches
        | cons opening opened => cases hhalts
    | cons token rest =>
      obtain ⟨cause, hcause, -⟩ := hhalts
      cases hcause
  · rw [hwalk, h] at hread
    cases hread.1

/-- The three ways in which a list is found at fault: an operand is missing, a complete operand is
followed by a token that it does not go on with, or the list ends in open brackets. -/
theorem Formula.fault_cases {tokens : List Token} {fault : Fault}
    (h : Formula.ofTokens tokens = .error fault) :
    fault = (Cursor.afterReading tokens).missingOperand ∨
    (∃ used opened next rest, (Cursor.ofTokens tokens).ahead = used ++ next :: rest ∧
      (Cursor.afterReading tokens).current = next ∧ Reaches (awaiting []) used (complete opened) ∧
      Level.biconditional.goesOn next.meaning = false ∧
      (next.meaning = .symbol .closing → opened = []) ∧
      fault = .trailing next.literal next.offset) ∨
    ∃ opening opened,
      Reaches (awaiting []) (Cursor.ofTokens tokens).ahead (complete (opening :: opened)) ∧
      fault = .unmatched (opening.literal.headD '(') opening.offset := by
  obtain ⟨used, pending, cause, hsplit, hreaches, hhalts, hfault⟩ := exists_reaches_of_ofTokens h
  rcases hhalts.cases with rfl | ⟨opened, next, rest, rfl, hahead, rfl, hgoesOn, hclosing⟩ |
    ⟨opening, opened, rfl, hahead, rfl⟩
  · exact Or.inl hfault
  · have hcurrent : (Cursor.afterReading tokens).current = next := by
      rw [Cursor.current, hahead]
      rfl
    rw [hahead] at hsplit
    rw [hcurrent] at hfault
    exact Or.inr (Or.inl
      ⟨used, opened, next, rest, hsplit, hcurrent, hreaches, hgoesOn, hclosing, hfault⟩)
  · rw [hahead, List.append_nil] at hsplit
    rw [hsplit]
    exact Or.inr (Or.inr ⟨opening, opened, hreaches, hfault⟩)

theorem Formula.exists_reaches_of_trailing {tokens : List Token} {found : Text} {offset : Nat}
    (h : Formula.ofTokens tokens = .error (.trailing found offset)) :
    ∃ used opened next rest, (Cursor.ofTokens tokens).ahead = used ++ next :: rest ∧
      (Cursor.afterReading tokens).current = next ∧ Reaches (awaiting []) used (complete opened) ∧
      Level.biconditional.goesOn next.meaning = false ∧
      (next.meaning = .symbol .closing → opened = []) ∧
      found = next.literal ∧ offset = next.offset := by
  rcases fault_cases h with hfault |
    ⟨used, opened, next, rest, hsplit, hcurrent, hreaches, hgoesOn, hclosing, hfault⟩ |
    ⟨_, _, -, hfault⟩
  · cases hfault
  · exact ⟨used, opened, next, rest, hsplit, hcurrent, hreaches, hgoesOn, hclosing,
      Fault.trailing.inj hfault⟩
  · cases hfault

end Wff
