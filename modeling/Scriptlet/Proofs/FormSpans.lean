import Scriptlet.Proofs.Soundness
import Scriptlet.Proofs.Spans

/-!
# What forms take

Each form of the language spans the phrase that it reads, if what lies below it does. So every level
does (`spans_level`), and reading with any number of levels (`spans_read`).
-/

namespace Scriptlet

open Rule Form Computability

/-! ## Productions -/

/-- The weakest power that the operators of a part read above the power may have. A sign before an
operand is read above every power. -/
def Power.operand (above : Power) : Power := if above < .unary then above.next else .unary

/-- The phrase that a part of the sort is. -/
def Goal.phrase : Goal → Phrase
  | .declaration => .declaration
  | .statement => .statement
  | .expression above => .expression above.operand

/-- What extends an expression that is read above a power, by one operator or one call. -/
inductive Links (above : Power) : List Kind → Prop
  | operator {operator : Kind} {power : Power} {right : List Kind} :
      operator.binaryPower? = some power → above < power →
      Derives (.expression power.next) right → Links above (operator :: right)
  | arguments {arguments : List Kind} : Derives (.list (.expression .lowest)) arguments →
      Links above (.leftParen :: arguments)

/-- The language of the links. -/
def Power.links (above : Power) : Language Kind := {w | Links above w}

theorem Power.operand_le_unary (above : Power) : above.operand ≤ .unary := by
  cases above <;> decide

theorem Power.operand_le_of_lt {above p : Power} (h : above < p) (hp : p < .unary) :
    above.operand ≤ p := by
  have hunary : above < .unary := Nat.lt_trans h hp
  rw [operand, if_pos hunary]
  exact next_le_of_lt h

theorem Power.operand_eq_next {p : Power} (hp : p < .unary) : p.operand = p.next := if_pos hp

namespace Phrase

/-- Links extend the expressions that are read above the power. -/
theorem language_mul_links_le (above : Power) :
    language (.expression above.operand) * above.links ≤ language (.expression above.operand) := by
  rintro _ ⟨left, hleft, _, hlink, rfl⟩
  cases hlink with
  | operator hpower hlt hright =>
    have hle := Power.operand_le_of_lt hlt (Kind.binaryPower?_bounds hpower).2
    exact hleft.extend_binary hpower hle hright
  | arguments h =>
    exact hleft.extend_call (Nat.le_trans above.operand_le_unary (by decide)) h

theorem language_weaken {p q : Power} (h : p ≤ q) :
    language (.expression q) ≤ language (.expression p) :=
  fun _ hw => hw.weaken h

/-- There is a word of every phrase that a part can be. -/
theorem exists_mem_language (goal : Goal) : ∃ w, w ∈ goal.phrase.language := by
  have hname : Derives (.expression .primary) [.identifier] := .reference
  cases goal with
  | declaration => exact ⟨_, .statement (.line (hname.weaken (by decide)))⟩
  | statement => exact ⟨_, .line (hname.weaken (by decide))⟩
  | expression above =>
    exact ⟨_, hname.weaken (Nat.le_trans above.operand_le_unary (by decide))⟩

end Phrase

/-! ## Forms -/

variable {below : Goal → Rule Tree}

/-- Every part that lies below spans its phrase. -/
def SpansPhrases (below : Goal → Rule Tree) : Prop :=
  ∀ goal, (below goal).Spans fun _ => goal.phrase.language

namespace SpansPhrases

/-- Items and the parenthesis that closes them span a list of items. -/
theorem closedList {α : Type} {item : Rule α} {x : Phrase} (h : item.Spans fun _ => x.language)
    (closing : Complaint) :
    (closedList item closing).Spans fun _ => (Phrase.list x).language := by
  have hlater : (do if ← accept .comma then some <$> item else pure none : Rule (Option α)).Spans
      (·.elim 1 fun _ => {[.comma]} * x.language) := by
    have hnext : (some <$> item).Spans (·.elim 0 fun _ => x.language) := h.map some fun _ => le_rfl
    have hnone : (pure none : Rule (Option α)).Spans (·.elim 1 fun _ => 0) := .pure le_rfl
    refine (Rule.Spans.accept_bind hnext hnone).mono fun a? => ?_
    cases a? <;> simp
  have hseparated : (separated item).Spans
      fun _ => x.language * (({[.comma]} * x.language)∗ * 1 * 1) :=
    h.seq fun first => .seq (.many hlater le_rfl) fun others => .pure le_rfl
  have hclose (items : List α) :
      (do let _ ← expect .rightParen closing; return items : Rule (List α)).Spans
        fun _ => {[.rightParen]} * 1 :=
    (Rule.Spans.expect _ _).seq fun _ => .pure le_rfl
  refine Rule.Spans.kind?.bind (F := fun _ _ => (Phrase.list x).language) (fun k => ?_)
    fun _ _ => (one_mul _).le
  split
  · refine ((Rule.Spans.pure (L := fun _ => 1) le_rfl).seq hclose).mono fun _ => ?_
    rw [one_mul, mul_one]
    rintro _ rfl
    exact .noItem
  · refine (hseparated.seq hclose).mono fun _ => ?_
    rw [mul_one, mul_one, mul_one, mul_assoc]
    have hothers : ({[.comma]} * x.language)∗ * {[.rightParen]} ≤
        (Phrase.laterItems x).language := by
      refine kstar_mul_le ?_ ?_
      · rintro _ rfl
        exact .noLaterItem
      · rintro _ ⟨_, ⟨_, rfl, next, hnext, rfl⟩, others, hothers, rfl⟩
        exact .laterItem hnext hothers
    rintro _ ⟨first, hfirst, others, hmore, rfl⟩
    exact .firstItem hfirst (hothers hmore)

variable (hb : SpansPhrases below) {t : Token} {us : List Token}

/-- A name or a literal. -/
theorem primary (ht : t.kind = .identifier ∨ t.kind = .integer ∨ t.kind = .floating ∨
    t.kind = .text) :
    (primary (t :: us)).Spans (fun _ => (Phrase.expression .primary).language) (t :: us) := by
  rcases ht with hname | hliteral
  · rw [primary_eq_ok_iff.mpr ⟨t, rfl, .inl ⟨hname, rfl⟩⟩]
    refine ⟨[t], rfl, ?_⟩
    rw [List.map_singleton, hname]
    exact .reference
  · rw [primary_eq_ok_iff.mpr ⟨t, rfl, .inr ⟨hliteral, rfl⟩⟩]
    exact ⟨[t], rfl, .literal hliteral⟩

include hb

theorem wholeExpression :
    (wholeExpression below).Spans fun _ => (Phrase.expression .lowest).language :=
  (hb (.expression .lowest)).mono fun _ => Phrase.language_weaken (by decide)

theorem unary (ht : t.kind = .minus) :
    (unary below (t :: us)).Spans (fun _ => (Phrase.expression .unary).language) (t :: us) := by
  have hrest : (do let operand ← below (.expression .unary)
                   return .unary t operand : Rule Tree).Spans
      fun _ => (Phrase.expression .unary).language * 1 :=
    (hb (.expression .unary)).seq fun _ => .pure le_rfl
  refine (hrest.outcome us).cons fun _ => ?_
  rw [mul_one, ht]
  rintro _ ⟨_, rfl, operand, hoperand, rfl⟩
  exact .sign hoperand

theorem group : (group below).Spans fun _ => (Phrase.expression .primary).language := by
  have hparts : (Form.group below).Spans fun _ =>
      {[.leftParen]} * ((Phrase.expression .lowest).language * ({[.rightParen]} * 1)) := by
    apply (Rule.Spans.expect _ _).seq
    intro _
    apply hb.wholeExpression.seq
    intro inner
    apply (Rule.Spans.expect _ _).seq
    intro _
    exact .pure le_rfl
  refine hparts.mono fun _ => ?_
  rw [mul_one]
  rintro _ ⟨_, rfl, _, ⟨inner, hinner, _, rfl, rfl⟩, rfl⟩
  exact .group hinner

theorem binary {above : Power} {left : Tree} {power : Power}
    (hpower : t.kind.binaryPower? = some power) (hlt : above < power) :
    (binary below left power (t :: us)).Spans (fun _ => above.links) (t :: us) := by
  have hrest : (do let right ← below (.expression power)
                   return .binary left t right : Rule Tree).Spans
      fun _ => (Phrase.expression power.next).language * 1 := by
    rw [← Power.operand_eq_next (Kind.binaryPower?_bounds hpower).2]
    exact (hb (.expression power)).seq fun _ => .pure le_rfl
  refine (hrest.outcome us).cons fun _ => ?_
  rw [mul_one]
  rintro _ ⟨_, rfl, right, hright, rfl⟩
  exact .operator hpower hlt hright

theorem call (above : Power) (callee : Tree) : (call below callee).Spans fun _ => above.links := by
  refine ((Rule.Spans.expect _ _).seq fun _ =>
    (closedList hb.wholeExpression _).seq fun _ => .pure le_rfl).mono fun _ => ?_
  rw [mul_one]
  rintro _ ⟨_, rfl, arguments, harguments, rfl⟩
  exact .arguments harguments

/-- What extends an expression that is read above a power is one of its links. -/
theorem extend (above : Power) (left : Tree) :
    (Tables.standard.extend below above left).Spans (·.elim 1 fun _ => above.links) := by
  refine ⟨⟨none, [], rfl⟩, fun ts => ?_⟩
  rw [Tables.extend, Tables.lookup_bind_apply]
  cases ts with
  | nil => exact ⟨[], rfl, rfl⟩
  | cons t us =>
    rw [List.head?_cons, Option.bind_some]
    cases ho : Tables.standard.operators t.kind with
    | none => exact ⟨[], rfl, rfl⟩
    | some o =>
      by_cases hle : o.power ≤ above
      · simp only [hle, ↓reduceIte]
        exact ⟨[], rfl, rfl⟩
      · simp only [hle, ↓reduceIte]
        refine Outcome.Spans.map (L := fun _ => above.links) ?_ some fun _ => le_rfl
        rcases Tables.standard_operators_cases ho with ⟨hpower, hextension⟩ | ⟨-, rfl⟩
        · rw [hextension]
          exact hb.binary hpower (Nat.lt_of_not_le hle)
        · exact (hb.call above left).outcome (t :: us)

/-- An expression is what starts it and the links that extend it. -/
theorem expression_level (above : Power) :
    (Tables.standard.expression below above).Spans
      fun _ => (Phrase.expression above.operand).language := by
  obtain ⟨w, hw⟩ := Phrase.exists_mem_language (.expression above)
  have hmem : ∃ (_ : Tree) (w : List Kind), w ∈ (Phrase.expression above.operand).language :=
    ⟨.reference (.bare .identifier .origin), w, hw⟩
  refine ⟨hmem, fun ts => ?_⟩
  rw [Tables.expression, Tables.lookup_bind_apply]
  have hfail := (Rule.Spans.fail (c := .expression) hmem).outcome ts
  cases ts with
  | nil => exact hfail
  | cons t us =>
    rw [List.head?_cons, Option.bind_some]
    cases hh : Tables.standard.expressions t.kind with
    | none => exact hfail
    | some handler =>
      have hstart : (handler.rule below (t :: us)).Spans
          (fun _ => (Phrase.expression .unary).language) (t :: us) := by
        have hprimary := Phrase.language_weaken (p := .unary) (q := .primary) (by decide)
        rcases Tables.standard_expressions_cases hh with ⟨hk, rfl⟩ | ⟨hk, rfl⟩ | ⟨-, rfl⟩
        · exact (primary hk).mono fun _ => hprimary
        · exact hb.unary hk
        · exact (hb.group.outcome (t :: us)).mono fun _ => hprimary
      refine Outcome.Spans.bind (K := fun _ _ => above.links∗) hstart
        (fun left => .chain (hb.extend above) left) fun _ _ => ?_
      calc (Phrase.expression .unary).language * above.links∗
          ≤ (Phrase.expression above.operand).language * above.links∗ :=
            mul_le_mul_left (Phrase.language_weaken above.operand_le_unary) _
        _ ≤ (Phrase.expression above.operand).language :=
            mul_kstar_le le_rfl (Phrase.language_mul_links_le above)

/-! ## Statements and declarations -/

theorem expressionStatement :
    (expressionStatement below).Spans fun _ => Phrase.statement.language := by
  refine (hb.wholeExpression.seq fun _ =>
    (Rule.Spans.expect _ _).seq fun _ => .pure le_rfl).mono fun _ => ?_
  rw [mul_one]
  rintro _ ⟨e, he, _, rfl, rfl⟩
  exact .line he

/-- A declaration with a value or without, after its word and name. -/
theorem declare (ht : t.kind = .letWord ∨ t.kind = .varWord) :
    (declare below (t :: us)).Spans (fun _ => Phrase.declaration.language) (t :: us) := by
  have hend (name : Token) (value? : Option Tree) :
      (do let _ ← expect .lineEnd .lineEndAfterDeclaration
          return .declare name value? (t.kind = .varWord) : Rule Tree).Spans
        fun _ => {[.lineEnd]} * 1 :=
    (Rule.Spans.expect _ _).seq fun _ => .pure le_rfl
  have hrest : (do let name ← expect .identifier .variableName
                   let value? ← if ← accept .equal then some <$> Form.wholeExpression below
                     else pure none
                   let _ ← expect .lineEnd .lineEndAfterDeclaration
                   return .declare name value? (t.kind = .varWord) : Rule Tree).Spans
      fun _ => {[.identifier]} * ({[.equal]} * ((Phrase.expression .lowest).language *
        ({[.lineEnd]} * 1)) + 1 * ({[.lineEnd]} * 1)) :=
    (Rule.Spans.expect _ _).seq fun name => .accept_bind
      ((hb.wholeExpression.map some fun _ => le_rfl).seq (hend name))
      ((Rule.Spans.pure (L := fun _ => 1) le_rfl).seq (hend name))
  refine (hrest.outcome us).cons fun _ => ?_
  rw [mul_one, one_mul]
  rintro _ ⟨_, rfl, _, ⟨_, rfl, _, ⟨_, rfl, _, ⟨value, hvalue, _, rfl, rfl⟩, rfl⟩ | rfl, rfl⟩, rfl⟩
  · exact .declareValue ht hvalue
  · exact .declare ht

/-- Declarations and line ends, and the brace that closes them. -/
theorem blockBody : (blockBody below).Spans fun _ => Phrase.block.language := by
  have hitem : (blockItem below).Spans
      (·.elim {[.lineEnd]}∗ fun _ => {[.lineEnd]}∗ * Phrase.declaration.language) := by
    refine Rule.Spans.skipLineEnds.bind (F := fun _ a? =>
      a?.elim 1 fun _ => Phrase.declaration.language) (fun _ => ?_) fun _ a? => ?_
    · refine Rule.Spans.kind?.bind (F := fun _ a? =>
        a?.elim 1 fun _ => Phrase.declaration.language) (fun k => ?_) fun _ a? => (one_mul _).le
      split
      · exact .pure le_rfl
      · exact (hb .declaration).map some fun _ => le_rfl
    · cases a? with
      | none => exact (mul_one _).le
      | some a => exact le_rfl
  refine ((Rule.Spans.many hitem one_le_kstar).seq fun _ =>
    (Rule.Spans.expect .rightBrace .blockEnd).seq fun _ => .pure le_rfl).mono fun _ => ?_
  have hlines {L : Language Kind} (hL : L ≤ Phrase.block.language) :
      {[.lineEnd]}∗ * L ≤ Phrase.block.language := by
    refine kstar_mul_le hL ?_
    rintro _ ⟨_, rfl, body, hbody, rfl⟩
    exact .blockLineEnd hbody
  rw [mul_one, mul_assoc]
  refine kstar_mul_le (hlines ?_) ?_
  · rintro _ rfl
    exact .blockEnd
  · rw [mul_assoc]
    refine hlines ?_
    rintro _ ⟨d, hd, body, hbody, rfl⟩
    exact .blockDeclaration hd hbody

theorem block : (block below).Spans fun _ => Phrase.statement.language := by
  refine ((Rule.Spans.expect _ _).seq fun _ => hb.blockBody.seq fun _ =>
    .pure le_rfl).mono fun _ => ?_
  rw [mul_one]
  rintro _ ⟨_, rfl, body, hbody, rfl⟩
  exact .braces hbody

theorem conditional : (conditional below).Spans fun _ => Phrase.statement.language := by
  have hparts : (Form.conditional below).Spans fun _ =>
      {[.ifWord]} * ({[.leftParen]} * ((Phrase.expression .lowest).language * ({[.rightParen]} *
        (Phrase.statement.language *
          ({[.elseWord]} * (Phrase.statement.language * 1) + 1 * 1))))) := by
    apply (Rule.Spans.expect _ _).seq
    intro _
    apply (Rule.Spans.expect _ _).seq
    intro _
    apply hb.wholeExpression.seq
    intro condition
    apply (Rule.Spans.expect _ _).seq
    intro _
    apply (hb .statement).seq
    intro thenBranch
    have hbranch : (some <$> below .statement).Spans fun _ => Phrase.statement.language :=
      (hb .statement).map some fun _ => le_rfl
    have hnone : (pure none : Rule (Option Tree)).Spans fun _ => 1 := .pure le_rfl
    exact .accept_bind (hbranch.seq fun _ => .pure le_rfl) (hnone.seq fun _ => .pure le_rfl)
  refine hparts.mono fun _ => ?_
  rw [mul_one, mul_one, mul_add, mul_one]
  rintro _ ⟨_, rfl, _, ⟨_, rfl, _, ⟨condition, hcondition, _, ⟨_, rfl, thenBranch, hbranches, rfl⟩,
    rfl⟩, rfl⟩, rfl⟩
  rcases hbranches with ⟨thenBranch, hthen, _, ⟨_, rfl, elseBranch, helse, rfl⟩, rfl⟩ | hthen
  · exact .choiceElse hcondition hthen helse
  · exact .choice hcondition hthen

theorem function : (function below).Spans fun _ => Phrase.declaration.language := by
  have hname : (expect .identifier .parameterName).Spans fun _ => Phrase.name.language :=
    (Rule.Spans.expect _ _).mono fun _ => by rintro _ rfl; exact .name
  have hparts : (Form.function below).Spans fun _ =>
      {[.funWord]} * ({[.identifier]} * ({[.leftParen]} * ((Phrase.list .name).language *
        ({[.leftBrace]} * (Phrase.block.language * 1))))) := by
    apply (Rule.Spans.expect _ _).seq
    intro _
    apply (Rule.Spans.expect _ _).seq
    intro name
    apply (Rule.Spans.expect _ _).seq
    intro _
    apply (closedList hname _).seq
    intro parameters
    apply (Rule.Spans.expect _ _).seq
    intro _
    apply hb.blockBody.seq
    intro body
    exact .pure le_rfl
  refine hparts.mono fun _ => ?_
  rw [mul_one]
  rintro _ ⟨_, rfl, _, ⟨_, rfl, _, ⟨_, rfl, _, ⟨parameters, hparameters, _,
    ⟨_, rfl, body, hbody, rfl⟩, rfl⟩, rfl⟩, rfl⟩, rfl⟩
  exact .function hparameters hbody

/-! ## Levels -/

theorem statement_level :
    (Tables.standard.level below .statement).Spans fun _ => Phrase.statement.language := by
  refine ⟨hb.expressionStatement.exists_mem, fun ts => ?_⟩
  cases hk : ts.head?.bind fun t => Tables.standard.statements t.kind with
  | none =>
    rw [Tables.level_statement_of_none (fun t ht => by simpa [Option.mem_def.mp ht] using hk)]
    exact hb.expressionStatement.outcome ts
  | some handler =>
    obtain ⟨t, ht, hk⟩ := Option.bind_eq_some_iff.mp hk
    obtain ⟨us, rfl⟩ := List.head?_eq_some_iff.mp ht
    rw [Tables.level_statement_of_some hk]
    rcases Tables.standard_statements_cases hk with ⟨-, rfl⟩ | ⟨-, rfl⟩
    · exact hb.conditional.outcome (t :: us)
    · exact hb.block.outcome (t :: us)

theorem declaration_level :
    (Tables.standard.level below .declaration).Spans fun _ => Phrase.declaration.language := by
  have hstatement : (below .statement).Spans fun _ => Phrase.declaration.language :=
    (hb .statement).mono fun _ _ hs => .statement hs
  refine ⟨hstatement.exists_mem, fun ts => ?_⟩
  cases hk : ts.head?.bind fun t => Tables.standard.declarations t.kind with
  | none =>
    rw [Tables.level_declaration_of_none (fun t ht => by simpa [Option.mem_def.mp ht] using hk)]
    exact hstatement.outcome ts
  | some handler =>
    obtain ⟨t, ht, hk⟩ := Option.bind_eq_some_iff.mp hk
    obtain ⟨us, rfl⟩ := List.head?_eq_some_iff.mp ht
    rw [Tables.level_declaration_of_some hk]
    rcases Tables.standard_declarations_cases hk with ⟨hword, rfl⟩ | ⟨-, rfl⟩
    · exact hb.declare hword
    · exact hb.function.outcome (t :: us)

end SpansPhrases

/-- A level spans the phrases if what lies below it does. -/
theorem spans_level (hb : SpansPhrases below) : SpansPhrases (Tables.standard.level below)
  | .declaration => hb.declaration_level
  | .statement => hb.statement_level
  | .expression above => hb.expression_level above

/-- Whatever the number of levels, no token is taken that could not be right. -/
theorem spans_read (levels : Nat) : SpansPhrases (Tables.standard.read levels) := by
  induction levels with
  | zero =>
    intro goal
    obtain ⟨w, hw⟩ := Phrase.exists_mem_language goal
    exact ⟨⟨.reference (.bare .identifier .origin), w, hw⟩, fun _ => .inl rfl⟩
  | succ levels ih => exact spans_level ih

end Scriptlet
