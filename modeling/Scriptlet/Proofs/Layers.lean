import Scriptlet.Proofs.Parallel

/-!
# Layers of expressions

The expressions of the language read by plain descent along their grammar, one rule for each line
of it:

    equality   := comparison ('=' comparison)*
    comparison := term ('>' term)*
    term       := factor (('+' | '-') factor)*
    factor     := unary (('*' | '/') unary)*
    unary      := '-' unary | call
    call       := primary ('(' (equality (',' equality)*)? ')')*
    primary    := literal | name | '(' equality ')'

Every repetition folds to the left, and goes on for as long as the next token lets it
(`Descent.eq_chain_link_iff`, `Descent.eq_chain_arguments_iff`, `Rule.eq_many_accept_comma_iff`).
There are no tables, no powers, and nothing limits the nesting: the descent is what the grammar says
(`Layer.read_eq`), and nothing else is (`Layer.eq_read`).
-/

namespace Scriptlet

open Rule

/-- The layers of the grammar between which an operand is looked for. -/
inductive Layer where
  | equality
  | comparison
  | term
  | factor
  | unary
deriving DecidableEq, Repr

namespace Descent

/-- An operator of one of the kinds with its right operand, after the left one. -/
def link (operand : Rule Tree) (operators : List Kind) (left : Tree) : Rule (Option Tree) := do
  if (← kind?).any operators.contains then
    let operator ← take .expression
    let right ← operand
    return some (.binary left operator right)
  else return none

/-- Operands with operators of the kinds between them, grouped to the left. -/
def row (operand : Rule Tree) (operators : List Kind) : Rule Tree :=
  operand >>= chain (link operand operators)

section

/-! What stands in parentheses, between commas or after a sign is a layer that starts further on. -/

variable (inner : Layer → Rule Tree)

/-- A literal, a name, or an expression in parentheses. -/
def primary : Rule Tree := do
  match ← kind? with
  | some .integer | some .floating | some .text => Tree.literal <$> take .expression
  | some .identifier => Tree.reference <$> take .expression
  | some .leftParen =>
    let _ ← take .expression
    let e ← inner .equality
    let _ ← expect .rightParen .groupEnd
    return .group e
  | _ => fail .expression

/-- Arguments in parentheses, after what is called. -/
def arguments (callee : Tree) : Rule (Option Tree) := do
  if (← kind?) = some .leftParen then
    let _ ← take .argumentsStart
    let arguments ← Form.closedList (inner .equality) .argumentsEnd
    return some (.call callee arguments)
  else return none

/-- What is called, with any number of lists of arguments. -/
def call : Rule Tree := primary inner >>= chain (arguments inner)

/-- Signs, and what they stand before. -/
def unary : Rule Tree := do
  if (← kind?) = some .minus then
    let operator ← take .expression
    let operand ← inner .unary
    return .unary operator operand
  else call inner

def factor : Rule Tree := row (unary inner) [.times, .divide]

def term : Rule Tree := row (factor inner) [.plus, .minus]

def comparison : Rule Tree := row (term inner) [.greater]

def equality : Rule Tree := row (comparison inner) [.equal]

/-- The rule of a layer. -/
def rule : Layer → Rule Tree
  | .equality => equality inner
  | .comparison => comparison inner
  | .term => term inner
  | .factor => factor inner
  | .unary => unary inner

end

/-- Reads a layer of fewer tokens than `budget` has. -/
def readWithin : List Token → Layer → Rule Tree
  | [], _ => fail .expression
  | _ :: budget, layer => rule (readWithin budget) layer

end Descent

/-- Reads a layer. What starts further on has fewer tokens, so there is no bound to it. -/
def Layer.read (layer : Layer) : Rule Tree := fun ts =>
  Descent.rule (Descent.readWithin ts) layer ts

/-! ## What the descent takes -/

namespace Descent

section Consuming

variable {Part : Rule Tree → Rule Tree → Prop}

theorem parallel_link {operand operand' : Rule Tree} (h : Parallel Part operand operand')
    (operators : List Kind) (left : Tree) :
    Parallel Part (link operand operators left) (link operand' operators left) := by
  refine .bind .kind? fun k => ?_
  split
  · exact .bind (.take _) fun _ => .bind h fun _ => .pure _
  · exact .pure none

theorem takesSome_link {operand : Rule Tree} (h : Forward operand) (operators : List Kind)
    (left : Tree) : TakesSome (link operand operators left) := by
  refine takesSome_bind forward_kind? fun k => ?_
  split
  · have htakes : Takes (do
        let operator ← take .expression
        let right ← operand
        return some (Tree.binary left operator right)) :=
      (takes_take _).bind fun _ => h.bind fun _ => forward_pure _
    exact fun ts e rest => htakes ts (some e) rest
  · exact takesSome_pure_none

theorem consuming_links {first first' operand operand' : Rule Tree}
    (hfirst : Consuming Part first first') (h : Parallel Part operand operand')
    (operators : List Kind) :
    Consuming Part (first >>= chain (link operand operators))
      (first' >>= chain (link operand' operators)) :=
  hfirst.bind fun left => .chain left (parallel_link h operators)
    (takesSome_link h.forward operators)

theorem consuming_row {operand operand' : Rule Tree} (h : Consuming Part operand operand')
    (operators : List Kind) : Consuming Part (row operand operators) (row operand' operators) :=
  consuming_links h h.parallel operators

variable {inner inner' : Layer → Rule Tree}
  (hb : ∀ layer, Consuming Part (inner layer) (inner' layer))
include hb

theorem consuming_primary : Consuming Part (primary inner) (primary inner') := by
  refine .bind_right .kind? fun k => ?_
  split
  · exact (Consuming.take _).bind fun _ => .pure _
  · exact (Consuming.take _).bind fun _ => .pure _
  · exact (Consuming.take _).bind fun _ => .pure _
  · exact (Consuming.take _).bind fun _ => .pure _
  · exact (Consuming.take _).bind fun _ => .bind (hb _).parallel fun _ =>
      .bind (.expect _ _) fun _ => .pure _
  · exact .fail _

theorem parallel_arguments (callee : Tree) :
    Parallel Part (arguments inner callee) (arguments inner' callee) := by
  refine .bind .kind? fun k => ?_
  by_cases hk : k = some .leftParen
  · simp only [hk, ↓reduceIte]
    exact .bind (.take _) fun _ =>
      .bind (Form.consuming_closedList (hb _) _).parallel fun _ => .pure _
  · simp only [hk, ↓reduceIte]
    exact .pure none

theorem takesSome_arguments (callee : Tree) : TakesSome (arguments inner callee) := by
  refine takesSome_bind forward_kind? fun k => ?_
  split
  · have htakes : Takes (do
        let _ ← take .argumentsStart
        let arguments ← Form.closedList (inner .equality) .argumentsEnd
        return some (Tree.call callee arguments)) :=
      (takes_take _).bind fun _ =>
        (Form.consuming_closedList (hb _) _).parallel.forward.bind fun _ => forward_pure _
    exact fun ts e rest => htakes ts (some e) rest
  · exact takesSome_pure_none

theorem consuming_call : Consuming Part (call inner) (call inner') :=
  (consuming_primary hb).bind fun callee =>
    .chain callee (parallel_arguments hb) (takesSome_arguments hb)

theorem consuming_unary : Consuming Part (unary inner) (unary inner') := by
  refine .bind_right .kind? fun k => ?_
  by_cases hk : k = some .minus
  · simp only [hk, ↓reduceIte]
    exact (Consuming.take _).bind fun _ => .bind (hb _).parallel fun _ => .pure _
  · simp only [hk, ↓reduceIte]
    exact consuming_call hb

/-- A layer is put together in the same way whatever reads further on, and takes a token. -/
theorem consuming_rule (layer : Layer) : Consuming Part (rule inner layer) (rule inner' layer) := by
  have hunary := consuming_unary hb
  have hfactor := consuming_row hunary [.times, .divide]
  have hterm := consuming_row hfactor [.plus, .minus]
  have hcomparison := consuming_row hterm [.greater]
  cases layer with
  | equality => exact consuming_row hcomparison [.equal]
  | comparison => exact hcomparison
  | term => exact hterm
  | factor => exact hfactor
  | unary => exact hunary

omit hb in
theorem consumes_readWithin (budget : List Token) (layer : Layer) :
    Consumes (readWithin budget layer) := by
  induction budget generalizing layer with
  | nil => exact .fail _
  | cons _ budget ih => exact consuming_rule ih layer

end Consuming

end Descent

/-! ## Rules on short token lists -/

section EqBelow

variable {α β : Type} {n : Nat}

/-- The rules end in the same way on fewer than `n` tokens. -/
def Rule.EqBelow (n : Nat) (r r' : Rule α) : Prop := ∀ ts, ts.length < n → r ts = r' ts

namespace Rule.EqBelow

theorem refl (r : Rule α) : EqBelow n r r := fun _ _ => rfl

theorem bind {r r' : Rule α} {f f' : α → Rule β} (hr : EqBelow n r r') (hforward : Forward r)
    (hf : ∀ a, EqBelow n (f a) (f' a)) : EqBelow n (r >>= f) (r' >>= f') := by
  intro ts hts
  rw [bind_apply, bind_apply, ← hr ts hts]
  cases ha : r ts with
  | fail c rest => rfl
  | ok a rest =>
    have hle := hforward.length_le ha
    exact hf a rest (by omega)

/-- After a token that is taken there is one token less. -/
theorem take_bind {c : Complaint} {f f' : Token → Rule β} (hf : ∀ t, EqBelow n (f t) (f' t)) :
    EqBelow (n + 1) (take c >>= f) (take c >>= f') := by
  intro ts hts
  cases ts with
  | nil => rfl
  | cons t us => exact hf t us (Nat.lt_of_succ_lt_succ hts)

theorem map {r r' : Rule α} (hr : EqBelow n r r') (hforward : Forward r) (g : α → β) :
    EqBelow n (g <$> r) (g <$> r') :=
  hr.bind hforward fun a => refl (pure (g a))

theorem manyWithin {item item' : Rule (Option α)} (h : EqBelow n item item')
    (hforward : Forward item) (budget : List Token) :
    EqBelow n (manyWithin item budget) (manyWithin item' budget) := by
  induction budget with
  | nil => exact h.map hforward Option.toList
  | cons _ budget ih =>
    refine h.bind hforward fun a? => ?_
    cases a? with
    | none => exact refl _
    | some a => exact ih.map (forward_manyWithin hforward budget) (a :: ·)

theorem chainWithin {link link' : α → Rule (Option α)} (h : ∀ a, EqBelow n (link a) (link' a))
    (hforward : ∀ a, Forward (link a)) (budget : List Token) (a : α) :
    EqBelow n (chainWithin link budget a) (chainWithin link' budget a) := by
  induction budget generalizing a with
  | nil => exact (h a).map (hforward a) (·.getD a)
  | cons _ budget ih =>
    refine (h a).bind (hforward a) fun b? => ?_
    cases b? with
    | none => exact refl _
    | some b => exact ih b

theorem chain {link link' : α → Rule (Option α)} (h : ∀ a, EqBelow n (link a) (link' a))
    (hforward : ∀ a, Forward (link a)) (a : α) :
    EqBelow n (Rule.chain link a) (Rule.chain link' a) :=
  fun ts hts => chainWithin h hforward ts a ts hts

theorem separated {item item' : Rule α} (h : EqBelow n item item') (hforward : Forward item) :
    EqBelow n (separated item) (separated item') := by
  refine h.bind hforward fun first => ?_
  have hlater : EqBelow n (do if ← accept .comma then some <$> item else pure none)
      (do if ← accept .comma then some <$> item' else pure none) := by
    refine (refl _).bind (forward_acceptAny _) fun more => ?_
    cases more with
    | true => exact h.map hforward some
    | false => exact refl _
  have hforwardLater : Forward (do if ← accept .comma then some <$> item else pure none) := by
    refine (forward_acceptAny _).bind fun more => ?_
    cases more with
    | true => exact hforward.bind fun a => forward_pure (some a)
    | false => exact forward_pure none
  have hothers : EqBelow n (many (do if ← accept .comma then some <$> item else pure none))
      (many (do if ← accept .comma then some <$> item' else pure none)) :=
    fun ts hts => hlater.manyWithin hforwardLater ts ts hts
  exact hothers.bind hforwardLater.many fun others => refl _

theorem closedList {item item' : Rule α} (h : EqBelow n item item') (hc : Consumes item)
    (closing : Complaint) :
    EqBelow n (Form.closedList item closing) (Form.closedList item' closing) := by
  refine (refl _).bind forward_kind? fun k => ?_
  by_cases hk : k = some .rightParen
  · simp only [hk, ↓reduceIte]
    exact refl _
  · simp only [hk, ↓reduceIte]
    exact (h.separated hc.parallel.forward).bind (Form.consuming_separated hc).parallel.forward
      fun items => refl _

end Rule.EqBelow

end EqBelow

namespace Descent

variable {n : Nat}

theorem eqBelow_row {operand operand' : Rule Tree} (h : EqBelow n operand operand')
    (hc : Consumes operand) (operators : List Kind) :
    EqBelow n (row operand operators) (row operand' operators) := by
  have hforward := hc.parallel.forward
  refine h.bind hforward fun left => .chain (fun left => ?_)
    (fun left => (parallel_link hc.parallel operators left).forward) left
  refine (EqBelow.refl _).bind forward_kind? fun k => ?_
  split
  · exact (EqBelow.refl _).bind (forward_take _) fun operator =>
      h.bind hforward fun right => .refl _
  · exact .refl _

section

variable {inner inner' : Layer → Rule Tree} (h : ∀ layer, EqBelow n (inner layer) (inner' layer))
  (hc : ∀ layer, Consumes (inner layer))
include h hc

theorem eqBelow_primary : EqBelow (n + 1) (primary inner) (primary inner') := by
  refine (EqBelow.refl _).bind forward_kind? fun k => ?_
  split
  · exact .refl _
  · exact .refl _
  · exact .refl _
  · exact .refl _
  -- Only a parenthesis lets a layer start again, with one token less.
  · exact .take_bind fun _ => (h _).bind (hc _).parallel.forward fun e => .refl _
  · exact .refl _

theorem eqBelow_arguments (callee : Tree) :
    EqBelow (n + 1) (arguments inner callee) (arguments inner' callee) := by
  refine (EqBelow.refl _).bind forward_kind? fun k => ?_
  by_cases hk : k = some .leftParen
  · simp only [hk, ↓reduceIte]
    exact .take_bind fun _ => ((h _).closedList (hc _) _).bind
      (Form.consuming_closedList (hc _) _).parallel.forward fun _ => .refl _
  · simp only [hk, ↓reduceIte]
    exact .refl _

theorem eqBelow_call : EqBelow (n + 1) (call inner) (call inner') :=
  (eqBelow_primary h hc).bind (consuming_primary hc).parallel.forward fun callee =>
    .chain (eqBelow_arguments h hc) (fun callee => (parallel_arguments hc callee).forward) callee

theorem eqBelow_unary : EqBelow (n + 1) (unary inner) (unary inner') := by
  refine (EqBelow.refl _).bind forward_kind? fun k => ?_
  by_cases hk : k = some .minus
  · simp only [hk, ↓reduceIte]
    exact .take_bind fun _ => (h _).bind (hc _).parallel.forward fun _ => .refl _
  · simp only [hk, ↓reduceIte]
    exact eqBelow_call h hc

/-- A layer depends only on what is read of fewer tokens. -/
theorem eqBelow_rule (layer : Layer) : EqBelow (n + 1) (rule inner layer) (rule inner' layer) := by
  have hunary := eqBelow_unary h hc
  have hfactor := eqBelow_row hunary (consuming_rule hc .unary) [.times, .divide]
  have hterm := eqBelow_row hfactor (consuming_rule hc .factor) [.plus, .minus]
  have hcomparison := eqBelow_row hterm (consuming_rule hc .term) [.greater]
  cases layer with
  | equality => exact eqBelow_row hcomparison (consuming_rule hc .comparison) [.equal]
  | comparison => exact hcomparison
  | term => exact hterm
  | factor => exact hfactor
  | unary => exact hunary

end

/-- On fewer tokens than it has, the bound does not matter. -/
theorem eqBelow_readWithin {budget budget' : List Token} (hn : n ≤ budget.length)
    (hn' : n ≤ budget'.length) (layer : Layer) :
    EqBelow n (readWithin budget layer) (readWithin budget' layer) := by
  induction n generalizing budget budget' layer with
  | zero => exact fun ts hts => absurd hts (Nat.not_lt_zero _)
  | succ n ih =>
    cases budget with
    | nil => exact absurd hn (Nat.not_succ_le_zero n)
    | cons _ budget =>
      cases budget' with
      | nil => exact absurd hn' (Nat.not_succ_le_zero n)
      | cons _ budget' =>
        exact eqBelow_rule (ih (Nat.le_of_succ_le_succ hn) (Nat.le_of_succ_le_succ hn'))
          (consumes_readWithin budget) layer

end Descent

/-! ## Repetitions -/

instance : LawfulMonad Rule := by
  apply LawfulMonad.mk' Rule
  · intro α r
    funext ts
    rw [map_eq_bind, bind_apply]
    cases r ts <;> rfl
  · intro α β a f
    rfl
  · intro α β γ r f g
    funext ts
    rw [bind_apply, bind_apply, bind_apply]
    cases r ts <;> rfl

section Repetitions

variable {α : Type}

namespace Descent

theorem link_bind (operand : Rule Tree) (operators : List Kind) (left : Tree)
    (f : Option Tree → Rule α) :
    link operand operators left >>= f = (do
      if (← kind?).any operators.contains then
        let operator ← take .expression
        let right ← operand
        f (some (.binary left operator right))
      else f none) := by
  rw [link, bind_assoc]
  refine congrArg _ (funext fun k => ?_)
  split
  · simp only [bind_assoc, pure_bind]
  · rw [pure_bind]

theorem arguments_bind (inner : Layer → Rule Tree) (callee : Tree) (f : Option Tree → Rule α) :
    arguments inner callee >>= f = (do
      if (← kind?) = some .leftParen then
        let _ ← take .argumentsStart
        let arguments ← Form.closedList (inner .equality) .argumentsEnd
        f (some (.call callee arguments))
      else f none) := by
  rw [arguments, bind_assoc]
  refine congrArg _ (funext fun k => ?_)
  split
  · simp only [bind_assoc, pure_bind]
  · rw [pure_bind]

/-- After its first operand a row goes on for as long as one of its operators comes next, with what
is read so far as the left operand. Nothing else goes on so. -/
theorem eq_chain_link_iff {operand : Rule Tree} (h : Forward operand) (operators : List Kind)
    {more : Tree → Rule Tree} :
    more = chain (link operand operators) ↔ ∀ left, more left = do
      if (← kind?).any operators.contains then
        let operator ← take .expression
        let right ← operand
        more (.binary left operator right)
      else return left := by
  have htakes := takesSome_link h operators
  constructor
  · rintro rfl left
    rw [chain_eq htakes, link_bind]
  · intro hmore
    apply eq_chain htakes
    intro left
    rw [link_bind]
    exact hmore left

/-- After what is called, calls go on for as long as a parenthesis comes next, with the call so far
as what is called. Nothing else goes on so. -/
theorem eq_chain_arguments_iff {inner : Layer → Rule Tree} (h : ∀ layer, Consumes (inner layer))
    {more : Tree → Rule Tree} :
    more = chain (arguments inner) ↔ ∀ callee, more callee = do
      if (← kind?) = some .leftParen then
        let _ ← take .argumentsStart
        let arguments ← Form.closedList (inner .equality) .argumentsEnd
        more (.call callee arguments)
      else return callee := by
  have htakes := takesSome_arguments h
  constructor
  · rintro rfl callee
    rw [chain_eq htakes, arguments_bind]
  · intro hmore
    apply eq_chain htakes
    intro callee
    rw [arguments_bind]
    exact hmore callee

end Descent

namespace Rule

theorem accept_comma_bind {β : Type} (item : Rule α) (f : Option α → Rule β) :
    (do if ← accept .comma then some <$> item else pure none) >>= f = (do
      if ← accept .comma then
        let a ← item
        f (some a)
      else f none) := by
  rw [bind_assoc]
  refine congrArg _ (funext fun hasComma => ?_)
  cases hasComma with
  | true => simp only [map_eq_bind, bind_assoc, pure_bind, if_true]
  | false => rfl

/-- After its first item a list goes on for as long as a comma comes next. Nothing else goes on
so. -/
theorem eq_many_accept_comma_iff {item : Rule α} (h : Takes item) {more : Rule (List α)} :
    more = many (do if ← accept .comma then some <$> item else pure none) ↔ more = do
      if ← accept .comma then
        let first ← item
        let others ← more
        return first :: others
      else return [] := by
  have htakes := Form.takesSome_separated h
  constructor
  · rintro rfl
    exact (many_eq htakes).trans (accept_comma_bind item _)
  · intro hmore
    apply eq_many htakes
    rw [accept_comma_bind]
    exact hmore

end Rule

end Repetitions

/-! ## The grammar of the layers -/

namespace Layer

open Descent

/-- The descent is what the grammar says, with itself wherever a layer starts further on. -/
theorem read_eq (layer : Layer) : layer.read = rule read layer := by
  funext ts
  apply eqBelow_rule (fun layer us hus => ?_) (consumes_readWithin ts) layer ts (Nat.lt_succ_self _)
  cases ts with
  | nil => exact absurd hus (Nat.not_lt_zero _)
  | cons t ts =>
    have hle : us.length ≤ ts.length := Nat.le_of_lt_succ hus
    exact eqBelow_rule (eqBelow_readWithin hle (Nat.le_refl _)) (consumes_readWithin ts) layer us
      (Nat.lt_succ_self _)

/-- The grammar leaves no choice: whatever else is what it says is the descent. -/
theorem eq_read {reader : Layer → Rule Tree} (h : ∀ layer, reader layer = rule reader layer)
    (layer : Layer) : reader layer = layer.read := by
  have hbelow {n : Nat} {budget : List Token} (hn : n ≤ budget.length) (layer : Layer) :
      EqBelow n (readWithin budget layer) (reader layer) := by
    induction n generalizing budget layer with
    | zero => exact fun ts hts => absurd hts (Nat.not_lt_zero _)
    | succ n ih =>
      cases budget with
      | nil => exact absurd hn (Nat.not_succ_le_zero n)
      | cons _ budget =>
        rw [h]
        exact eqBelow_rule (ih (Nat.le_of_succ_le_succ hn)) (consumes_readWithin budget) layer
  funext ts
  rw [h]
  exact (eqBelow_rule (hbelow (Nat.le_refl _)) (consumes_readWithin ts) layer ts
    (Nat.lt_succ_self _)).symm

theorem read_equality : read .equality = row (read .comparison) [.equal] := by
  rw [read_eq, read_eq .comparison]
  rfl

theorem read_comparison : read .comparison = row (read .term) [.greater] := by
  rw [read_eq, read_eq .term]
  rfl

theorem read_term : read .term = row (read .factor) [.plus, .minus] := by
  rw [read_eq, read_eq .factor]
  rfl

theorem read_factor : read .factor = row (read .unary) [.times, .divide] := by
  rw [read_eq, read_eq .unary]
  rfl

theorem read_unary : read .unary = Descent.unary read := read_eq .unary

theorem forward_read (layer : Layer) : Forward layer.read :=
  fun ts => (consuming_rule (consumes_readWithin ts) layer).parallel.forward ts

theorem takes_read (layer : Layer) : Takes layer.read :=
  fun ts => (consuming_rule (consumes_readWithin ts) layer).takes ts

end Layer

end Scriptlet
