import Mathlib.Computability.Language
import Mathlib.Order.CompletePartialOrder
import Scriptlet.Proofs.Grammatical

/-!
# Phrases

The grammar of the language as productions over the kinds of tokens, with no limit to the nesting:

    declaration := ('let' | 'var') name ('=' expression)? lineEnd
                 | 'fun' name '(' (name (',' name)*)? ')' '{' block
                 | statement
    statement   := 'if' '(' expression ')' statement ('else' statement)?
                 | '{' block | expression lineEnd
    block       := (lineEnd | declaration)* '}'
    expression  := equality
    equality    := comparison ('=' comparison)*
    comparison  := term ('>' term)*
    term        := factor (('+' | '-') factor)*
    factor      := unary (('*' | '/') unary)*
    unary       := '-' unary | call
    call        := primary ('(' (expression (',' expression)*)? ')')*
    primary     := integer | floating | text | name | '(' expression ')'

The rows from `equality` on are one family, numbered by how tightly their operators bind.
-/

namespace Scriptlet

/-- The next tighter power. -/
def Power.next : Power → Power
  | .lowest => .equality
  | .equality => .comparison
  | .comparison => .additive
  | .additive => .multiplicative
  | .multiplicative => .unary
  | .unary => .call
  | .call | .primary => .primary

namespace Power

theorem next_le_of_lt {p q : Power} (h : p < q) : p.next ≤ q := by
  revert h
  cases p <;> cases q <;> decide

theorem lt_of_next_le {p q : Power} (hp : p < .primary) (h : p.next ≤ q) : p < q := by
  revert hp h
  cases p <;> cases q <;> decide

theorem le_next (p : Power) : p ≤ p.next := by
  cases p <;> decide

/-- What holds of a power, and of each power below if it holds of the next tighter one, holds of all
that are no tighter. -/
theorem le_induction {q : Power} {motive : Power → Prop} (self : motive q)
    (step : ∀ p, p < q → motive p.next → motive p) {p : Power} (h : p ≤ q) : motive p := by
  induction hn : q.rank - p.rank generalizing p with
  | zero =>
    have hle : p.rank ≤ q.rank := h
    have heq : p.rank = q.rank := by omega
    rw [rank_inj.mp heq]
    exact self
  | succ n ih =>
    have hlt : p.rank < q.rank := by omega
    have hnext : p.next.rank = p.rank + 1 := by
      revert hlt
      cases p <;> cases q <;> decide
    exact step p hlt (ih (next_le_of_lt hlt) (by omega))

end Power

/-- The phrases of the grammar. -/
inductive Phrase where
  | declaration
  | statement
  /-- Declarations and line ends up to the closing brace. -/
  | block
  /-- An expression whose operators outside of parentheses bind at least as tightly as the power. -/
  | expression (power : Power)
  | name
  /-- Items with commas between, possibly none, up to the closing parenthesis. -/
  | list (item : Phrase)
  /-- The same after the first item. -/
  | laterItems (item : Phrase)
deriving DecidableEq, Repr

/-- The kinds are those of a phrase. -/
inductive Derives : Phrase → List Kind → Prop
  | declare {word : Kind} : word = .letWord ∨ word = .varWord →
      Derives .declaration [word, .identifier, .lineEnd]
  | declareValue {word : Kind} {value : List Kind} : word = .letWord ∨ word = .varWord →
      Derives (.expression .lowest) value →
      Derives .declaration (word :: .identifier :: .equal :: (value ++ [.lineEnd]))
  | function {parameters body : List Kind} : Derives (.list .name) parameters →
      Derives .block body →
      Derives .declaration
        (.funWord :: .identifier :: .leftParen :: (parameters ++ .leftBrace :: body))
  | statement {s : List Kind} : Derives .statement s → Derives .declaration s
  | choice {condition thenBranch : List Kind} : Derives (.expression .lowest) condition →
      Derives .statement thenBranch →
      Derives .statement (.ifWord :: .leftParen :: (condition ++ .rightParen :: thenBranch))
  | choiceElse {condition thenBranch elseBranch : List Kind} :
      Derives (.expression .lowest) condition → Derives .statement thenBranch →
      Derives .statement elseBranch →
      Derives .statement (.ifWord :: .leftParen ::
        (condition ++ .rightParen :: (thenBranch ++ .elseWord :: elseBranch)))
  | braces {body : List Kind} : Derives .block body → Derives .statement (.leftBrace :: body)
  | line {e : List Kind} : Derives (.expression .lowest) e → Derives .statement (e ++ [.lineEnd])
  | blockEnd : Derives .block [.rightBrace]
  | blockLineEnd {body : List Kind} : Derives .block body → Derives .block (.lineEnd :: body)
  | blockDeclaration {d body : List Kind} : Derives .declaration d → Derives .block body →
      Derives .block (d ++ body)
  | tighter {power : Power} {e : List Kind} : Derives (.expression power.next) e →
      Derives (.expression power) e
  | binary {operator : Kind} {power : Power} {left right : List Kind} :
      operator.binaryPower? = some power → Derives (.expression power) left →
      Derives (.expression power.next) right →
      Derives (.expression power) (left ++ operator :: right)
  | sign {operand : List Kind} : Derives (.expression .unary) operand →
      Derives (.expression .unary) (.minus :: operand)
  | call {callee arguments : List Kind} : Derives (.expression .call) callee →
      Derives (.list (.expression .lowest)) arguments →
      Derives (.expression .call) (callee ++ .leftParen :: arguments)
  | literal {value : Kind} : value = .integer ∨ value = .floating ∨ value = .text →
      Derives (.expression .primary) [value]
  | reference : Derives (.expression .primary) [.identifier]
  | group {inner : List Kind} : Derives (.expression .lowest) inner →
      Derives (.expression .primary) (.leftParen :: (inner ++ [.rightParen]))
  | name : Derives .name [.identifier]
  | noItem {item : Phrase} : Derives (.list item) [.rightParen]
  | firstItem {item : Phrase} {first others : List Kind} : Derives item first →
      Derives (.laterItems item) others → Derives (.list item) (first ++ others)
  | noLaterItem {item : Phrase} : Derives (.laterItems item) [.rightParen]
  | laterItem {item : Phrase} {next others : List Kind} : Derives item next →
      Derives (.laterItems item) others →
      Derives (.laterItems item) (.comma :: (next ++ others))

/-- The language of a phrase. -/
def Phrase.language (x : Phrase) : Language Kind := {w | Derives x w}

theorem cons_mem_singleton_mul {k : Kind} {w : List Kind} {L : Language Kind} (h : w ∈ L) :
    k :: w ∈ ({[k]} * L : Language Kind) :=
  Language.append_mem_mul (a := [k]) rfl h

namespace Derives

variable {p q : Power} {u v : List Kind}

/-! ## Expressions -/

/-- What binds tightly enough for one level is an expression of every weaker level. -/
theorem weaken (h : Derives (.expression q) u) (hpq : p ≤ q) : Derives (.expression p) u :=
  Power.le_induction (motive := fun p => Derives (.expression p) u) h
    (fun _ _ ih => .tighter ih) hpq

/-- An operator and its right operand extend every expression whose operators bind no tighter: they
belong to its last operand of that level. -/
theorem extend_binary {operator : Kind} (hpower : operator.binaryPower? = some p)
    (hu : Derives (.expression q) u) (hqp : q ≤ p) (hv : Derives (.expression p.next) v) :
    Derives (.expression q) (u ++ operator :: v) := by
  have hbounds := Kind.binaryPower?_bounds hpower
  generalize hx : Phrase.expression q = x at hu
  -- Down the right end of `u`, until the level of the operator is reached.
  induction hu generalizing q with
  | @tighter q' e he ih =>
    cases hx
    rcases Nat.lt_or_eq_of_le hqp with hlt | heq
    · exact .tighter (ih (Power.next_le_of_lt hlt) rfl)
    · obtain rfl := Power.rank_inj.mp heq
      exact .binary hpower (.tighter he) hv
  | @binary operator' q' left right hpower' hleft hright _ ih =>
    cases hx
    rcases Nat.lt_or_eq_of_le hqp with hlt | heq
    · rw [List.append_assoc, List.cons_append]
      exact .binary hpower' hleft (ih (Power.next_le_of_lt hlt) rfl)
    · obtain rfl := Power.rank_inj.mp heq
      exact .binary hpower (.binary hpower' hleft hright) hv
  -- No operator between operands binds as tightly as the rest.
  | _ => cases hx <;>
    exact absurd hbounds.2 (Nat.not_lt_of_le (Nat.le_trans (by decide) hqp))

/-- Arguments extend every expression: they belong to what stands last in it. -/
theorem extend_call (hu : Derives (.expression q) u) (hq : q ≤ .call)
    (hv : Derives (.list (.expression .lowest)) v) :
    Derives (.expression q) (u ++ .leftParen :: v) := by
  generalize hx : Phrase.expression q = x at hu
  induction hu generalizing q with
  | @tighter q' e he ih =>
    cases hx
    rcases Nat.lt_or_eq_of_le hq with hlt | heq
    · exact .tighter (ih (Power.next_le_of_lt hlt) rfl)
    · obtain rfl := Power.rank_inj.mp heq
      exact .call (.tighter he) hv
  | binary hpower hleft _ _ ih =>
    cases hx
    rw [List.append_assoc, List.cons_append]
    have hlt := (Kind.binaryPower?_bounds hpower).2
    exact .binary hpower hleft (ih (Power.next_le_of_lt (Nat.lt_trans hlt (by decide))) rfl)
  | sign _ ih =>
    cases hx
    exact .sign (ih (by decide) rfl)
  | call hcallee harguments _ _ =>
    cases hx
    exact .call (.call hcallee harguments) hv
  | _ => cases hx <;> exact absurd hq (by decide)

end Derives

end Scriptlet
