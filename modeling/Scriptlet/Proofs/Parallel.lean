import Scriptlet.Grammar.Tables
import Scriptlet.Proofs.Progress

/-!
# Rules put together in the same way

Every form of the language is put together from a few rules about tokens, from the rules for its
parts, and from sequences and loops. `Parallel` says that two rules are put together in the same way
from corresponding parts, and `consuming_level` that one nesting level of any grammar is. So what is
to hold of reading with any tables has to be shown once for each way of putting rules together, and
not for each form.
-/

namespace Scriptlet

open Rule

/-- Two rules put together in the same way, from parts that `Part` relates. The rounds of a loop
take tokens, so that its bound does not matter. -/
inductive Rule.Parallel (Part : Rule Tree → Rule Tree → Prop) :
    {α : Type} → Rule α → Rule α → Prop
  | part {r r' : Rule Tree} : Part r r' → Forward r → Forward r' → Parallel Part r r'
  | pure {α : Type} (a : α) : Parallel Part (pure a) (pure a)
  | fail {α : Type} (c : Complaint) : Parallel Part (fail c : Rule α) (fail c)
  | kind? : Parallel Part kind? kind?
  | take (c : Complaint) : Parallel Part (take c) (take c)
  | expect (k : Kind) (c : Complaint) : Parallel Part (expect k c) (expect k c)
  | acceptAny (ks : List Kind) : Parallel Part (acceptAny ks) (acceptAny ks)
  | skipLineEnds : Parallel Part skipLineEnds skipLineEnds
  | bind {α β : Type} {r r' : Rule α} {f f' : α → Rule β} :
      Parallel Part r r' → (∀ a, Parallel Part (f a) (f' a)) → Parallel Part (r >>= f) (r' >>= f')
  | many {α : Type} {item item' : Rule (Option α)} :
      Parallel Part item item' → TakesSome item → Parallel Part (many item) (many item')
  | chain {α : Type} {link link' : α → Rule (Option α)} (a : α) :
      (∀ a, Parallel Part (link a) (link' a)) → (∀ a, TakesSome (link a)) →
      Parallel Part (chain link a) (chain link' a)

/-- Two rules put together in the same way, of which the first takes a token when it succeeds. -/
structure Rule.Consuming (Part : Rule Tree → Rule Tree → Prop) {α : Type} (r r' : Rule α) :
    Prop where
  parallel : Parallel Part r r'
  takes : Takes r

/-- A rule put together from the rules about tokens alone, which takes a token when it succeeds. -/
def Rule.Consumes {α : Type} (r : Rule α) : Prop := Consuming (fun _ _ => False) r r

variable {Part : Rule Tree → Rule Tree → Prop} {α β : Type}

namespace Rule.Parallel

theorem map {r r' : Rule α} (h : Parallel Part r r') (g : α → β) :
    Parallel Part (g <$> r) (g <$> r') :=
  .bind h fun a => .pure (g a)

theorem accept (k : Kind) : Parallel Part (accept k) (accept k) := .acceptAny [k]

/-- Whatever the rule is made of, it leaves an end of its tokens. -/
theorem forward {r r' : Rule α} (h : Parallel Part r r') : Forward r := by
  induction h with
  | part _ hf _ => exact hf
  | pure a => exact forward_pure a
  | fail c => exact forward_fail c
  | kind? => exact forward_kind?
  | take c => exact forward_take c
  | expect k c => exact forward_expect k c
  | acceptAny ks => exact forward_acceptAny ks
  | skipLineEnds => exact forward_skipLineEnds
  | bind _ _ ihr ihf => exact ihr.bind ihf
  | many _ _ ih => exact ih.many
  | chain a _ _ ih => exact Forward.chain ih a

theorem forward_right {r r' : Rule α} (h : Parallel Part r r') : Forward r' := by
  induction h with
  | part _ _ hf => exact hf
  | pure a => exact forward_pure a
  | fail c => exact forward_fail c
  | kind? => exact forward_kind?
  | take c => exact forward_take c
  | expect k c => exact forward_expect k c
  | acceptAny ks => exact forward_acceptAny ks
  | skipLineEnds => exact forward_skipLineEnds
  | bind _ _ ihr ihf => exact ihr.bind ihf
  | many _ _ ih => exact ih.many
  | chain a _ _ ih => exact Forward.chain ih a

end Rule.Parallel

namespace Rule.Consuming

theorem take (c : Complaint) : Consuming Part (take c) (take c) := ⟨.take c, takes_take c⟩

theorem expect (k : Kind) (c : Complaint) : Consuming Part (expect k c) (expect k c) :=
  ⟨.expect k c, takes_expect k c⟩

theorem fail (c : Complaint) : Consuming Part (fail c : Rule α) (fail c) :=
  ⟨.fail c, takes_fail c⟩

theorem bind {r r' : Rule α} {f f' : α → Rule β} (hr : Consuming Part r r')
    (hf : ∀ a, Parallel Part (f a) (f' a)) : Consuming Part (r >>= f) (r' >>= f') :=
  ⟨.bind hr.parallel hf, hr.takes.bind fun a => (hf a).forward⟩

theorem bind_right {r r' : Rule α} {f f' : α → Rule β} (hr : Parallel Part r r')
    (hf : ∀ a, Consuming Part (f a) (f' a)) : Consuming Part (r >>= f) (r' >>= f') :=
  ⟨.bind hr fun a => (hf a).parallel, takes_bind_of_forward hr.forward fun a => (hf a).takes⟩

end Rule.Consuming

/-! ## Forms -/

namespace Form

variable {below below' : Goal → Rule Tree}

theorem takesSome_separated {item : Rule α} (h : Takes item) :
    TakesSome (do if ← accept .comma then some <$> item else pure none) := by
  refine takesSome_bind (forward_acceptAny _) fun more => ?_
  cases more with
  | true => exact takesSome_map h
  | false => exact takesSome_pure_none

theorem consuming_separated {item item' : Rule α} (h : Consuming Part item item') :
    Consuming Part (separated item) (separated item') := by
  refine h.bind fun first => .bind (.many ?_ (takesSome_separated h.takes)) fun others => .pure _
  refine .bind (.accept .comma) fun more => ?_
  cases more with
  | true => exact h.parallel.map some
  | false => exact .pure none

theorem consuming_closedList {item item' : Rule α} (h : Consuming Part item item')
    (closing : Complaint) :
    Consuming Part (closedList item closing) (closedList item' closing) := by
  refine .bind_right .kind? fun k => ?_
  -- Whether there are items or not, the closing parenthesis is what takes a token for certain.
  have hclose (items : List α) : Consuming Part
      (do let _ ← Rule.expect .rightParen closing; return items)
      (do let _ ← Rule.expect .rightParen closing; return items) :=
    (Consuming.expect _ _).bind fun _ => .pure items
  by_cases hk : k = some .rightParen
  · simp only [hk, ↓reduceIte]
    exact .bind_right (.pure _) hclose
  · simp only [hk, ↓reduceIte]
    exact .bind_right (consuming_separated h).parallel hclose

theorem consuming_primary : Consuming Part primary primary := by
  refine (Consuming.take _).bind fun token => ?_
  cases token.kind <;> first | exact .pure _ | exact .fail _

variable (hb : ∀ goal, Consuming Part (below goal) (below' goal))
include hb

theorem consuming_unary : Consuming Part (unary below) (unary below') :=
  (Consuming.take _).bind fun _ => .bind (hb _).parallel fun _ => .pure _

theorem consuming_group : Consuming Part (group below) (group below') := by
  apply (Consuming.expect _ _).bind
  intro _
  apply Parallel.bind (hb _).parallel
  intro inner
  apply Parallel.bind (.expect _ _)
  intro _
  exact .pure _

theorem consuming_binary (left : Tree) (power : Power) :
    Consuming Part (binary below left power) (binary below' left power) :=
  (Consuming.take _).bind fun _ => .bind (hb _).parallel fun _ => .pure _

theorem consuming_call (callee : Tree) : Consuming Part (call below callee) (call below' callee) :=
  (Consuming.expect _ _).bind fun _ =>
    .bind (consuming_closedList (hb _) _).parallel fun _ => .pure _

theorem consuming_expressionStatement :
    Consuming Part (expressionStatement below) (expressionStatement below') :=
  (hb _).bind fun _ => .bind (.expect _ _) fun _ => .pure _

theorem consuming_declare : Consuming Part (declare below) (declare below') := by
  apply (Consuming.take _).bind
  intro keyword
  apply Parallel.bind (.expect _ _)
  intro name
  apply Parallel.bind (.accept _)
  intro hasValue
  cases hasValue with
  | true => exact .bind ((hb _).parallel.map some) fun _ => .bind (.expect _ _) fun _ => .pure _
  | false => exact .bind (.pure none) fun _ => .bind (.expect _ _) fun _ => .pure _

theorem consuming_blockBody : Consuming Part (blockBody below) (blockBody below') := by
  refine .bind_right (.many ?_ ?_) fun statements => (Consuming.expect _ _).bind fun _ => .pure _
  · refine .bind .skipLineEnds fun _ => .bind .kind? fun k => ?_
    split
    · exact .pure none
    · exact (hb _).parallel.map some
  · refine takesSome_bind forward_skipLineEnds fun _ => takesSome_bind forward_kind? fun k => ?_
    split
    · exact takesSome_pure_none
    · exact takesSome_map (hb _).takes

theorem consuming_function : Consuming Part (function below) (function below') := by
  -- The word takes a token, and what comes after it need not.
  apply (Consuming.expect _ _).bind
  intro _
  apply Parallel.bind (.expect _ _)
  intro name
  apply Parallel.bind (.expect _ _)
  intro _
  apply Parallel.bind (consuming_closedList (.expect _ _) _).parallel
  intro parameters
  apply Parallel.bind (.expect _ _)
  intro _
  apply Parallel.bind (consuming_blockBody hb).parallel
  intro body
  exact .pure _

theorem consuming_conditional : Consuming Part (conditional below) (conditional below') := by
  apply (Consuming.expect _ _).bind
  intro _
  apply Parallel.bind (.expect _ _)
  intro _
  apply Parallel.bind (hb _).parallel
  intro condition
  apply Parallel.bind (.expect _ _)
  intro _
  apply Parallel.bind (hb _).parallel
  intro thenBranch
  apply Parallel.bind (.accept _)
  intro hasElse
  cases hasElse with
  | true => exact .bind ((hb _).parallel.map some) fun _ => .pure _
  | false => exact .bind (.pure none) fun _ => .pure _

theorem consuming_block : Consuming Part (block below) (block below') :=
  (Consuming.expect _ _).bind fun _ => .bind (consuming_blockBody hb).parallel fun _ => .pure _

end Form

/-! ## Levels -/

variable {below below' : Goal → Rule Tree}
  (hb : ∀ goal, Consuming Part (below goal) (below' goal))
include hb

theorem Handler.consuming_rule (h : Handler) : Consuming Part (h.rule below) (h.rule below') := by
  cases h with
  | declaration => exact hb _
  | statement => exact hb _
  | expressionStatement => exact Form.consuming_expressionStatement hb
  | declare => exact Form.consuming_declare hb
  | function => exact Form.consuming_function hb
  | conditional => exact Form.consuming_conditional hb
  | block => exact Form.consuming_block hb
  | primary => exact Form.consuming_primary
  | unary => exact Form.consuming_unary hb
  | group => exact Form.consuming_group hb

theorem Extension.consuming_rule (left : Tree) (power : Power) (e : Extension) :
    Consuming Part (e.rule below left power) (e.rule below' left power) := by
  cases e with
  | binary => exact Form.consuming_binary hb left power
  | call => exact Form.consuming_call hb left

namespace Tables

variable (tables : Tables)

omit hb in
theorem parallel_lookup (entries : Kind → Option α) :
    Parallel Part (lookup entries) (lookup entries) :=
  .bind .kind? fun _ => .pure _

theorem parallel_extend (above : Power) (left : Tree) :
    Parallel Part (tables.extend below above left) (tables.extend below' above left) := by
  refine .bind (parallel_lookup _) fun operator? => ?_
  cases operator? with
  | none => exact .pure none
  | some operator =>
    by_cases hp : operator.power ≤ above
    · simp only [hp, ↓reduceIte]
      exact .pure none
    · simp only [hp, ↓reduceIte]
      exact (Extension.consuming_rule hb left _ _).parallel.map some

theorem takesSome_extend (above : Power) (left : Tree) :
    TakesSome (tables.extend below above left) := by
  refine takesSome_bind (forward_kind?.bind fun _ => forward_pure _) fun operator? => ?_
  cases operator? with
  | none => exact takesSome_pure_none
  | some operator =>
    by_cases hp : operator.power ≤ above
    · simp only [hp, ↓reduceIte]
      exact takesSome_pure_none
    · simp only [hp, ↓reduceIte]
      exact takesSome_map (Extension.consuming_rule hb left _ _).takes

theorem consuming_expression (above : Power) :
    Consuming Part (tables.expression below above) (tables.expression below' above) := by
  refine .bind_right (parallel_lookup _) fun handler? => ?_
  cases handler? with
  | none => exact .fail _
  | some handler =>
    exact (handler.consuming_rule hb).bind fun left =>
      .chain left (tables.parallel_extend hb above) (tables.takesSome_extend hb above)

/-- One nesting level is put together in the same way whatever lies below, and takes a token. -/
theorem consuming_level (goal : Goal) :
    Consuming Part (tables.level below goal) (tables.level below' goal) := by
  cases goal with
  | declaration =>
    refine .bind_right (parallel_lookup _) fun handler? => ?_
    cases handler? with
    | none => exact hb .statement
    | some handler => exact handler.consuming_rule hb
  | statement =>
    refine .bind_right (parallel_lookup _) fun handler? => ?_
    cases handler? with
    | none => exact Form.consuming_expressionStatement hb
    | some handler => exact handler.consuming_rule hb
  | expression above => exact tables.consuming_expression hb above

omit hb in
/-- Reading is put together from the rules about tokens alone. -/
theorem consumes_read (levels : Nat) (goal : Goal) :
    Consumes (tables.read levels goal) := by
  -- Below the last level everything fails in the same way, so no part is left to relate.
  induction levels generalizing goal with
  | zero => exact .fail _
  | succ levels ih => exact tables.consuming_level ih goal

omit hb in
theorem forward_read (levels : Nat) (goal : Goal) : Forward (tables.read levels goal) :=
  (tables.consumes_read levels goal).parallel.forward

omit hb in
/-- Every part that is read takes a token. -/
theorem takes_read (levels : Nat) (goal : Goal) : Takes (tables.read levels goal) :=
  (tables.consumes_read levels goal).takes

end Tables

end Scriptlet
