import Scriptlet.Grammar.Power
import Scriptlet.Proofs.Written

/-!
# Grammatical trees

The trees of the language, said of trees alone: which operators stand over which operands, what may
be a statement and what only a declaration, and which `if` an `else` belongs to. `levels` counts the
nesting levels that are open at once while a tree is read.
-/

namespace Scriptlet

/-- How tightly a token of the kind binds as an operator between two operands, if it is one. -/
def Kind.binaryPower? : Kind → Option Power
  | .equal => some .equality
  | .greater => some .comparison
  | .plus | .minus => some .additive
  | .times | .divide => some .multiplicative
  | _ => none

/-- Every operator between operands binds tighter than a whole expression and less tightly than a
sign before its operand. -/
theorem Kind.binaryPower?_bounds {k : Kind} {p : Power} (h : k.binaryPower? = some p) :
    .lowest < p ∧ p < .unary := by
  unfold binaryPower? at h
  split at h <;> cases h <;> decide

namespace Tree

/-- How tightly the top of an expression binds. What is no operator binds tightest. -/
def tightness : Tree → Power
  | .binary _ operator _ => operator.kind.binaryPower?.getD .lowest
  | .unary _ _ => .unary
  | .call _ _ => .call
  | _ => .primary

/-- The trees that are expressions. Operators of one power group to the left, and only operators
that bind tighter may stand in a right operand without parentheses. -/
inductive IsExpression : Tree → Prop
  | literal {value : Token} :
      value.kind = .integer ∨ value.kind = .floating ∨ value.kind = .text →
      IsExpression (.literal value)
  | reference {name : Token} : name.kind = .identifier → IsExpression (.reference name)
  | group {inner : Tree} : IsExpression inner → IsExpression (.group inner)
  | unary {operator : Token} {operand : Tree} : operator.kind = .minus →
      IsExpression operand → .unary ≤ operand.tightness → IsExpression (.unary operator operand)
  | binary {left right : Tree} {operator : Token} {power : Power} :
      operator.kind.binaryPower? = some power →
      IsExpression left → power ≤ left.tightness →
      IsExpression right → power < right.tightness →
      IsExpression (.binary left operator right)
  | call {callee : Tree} {arguments : List Tree} :
      IsExpression callee → .call ≤ callee.tightness →
      (∀ a ∈ arguments, IsExpression a) → IsExpression (.call callee arguments)

/-- The top of an expression that is read above a power binds tighter than it. A sign before its
operand is read above every power. -/
def Fits (above : Power) (e : Tree) : Prop := above < e.tightness ∨ .unary ≤ e.tightness

theorem fits_of_primary {e : Tree} (h : e.tightness = .primary) (above : Power) :
    e.Fits above := by
  rw [Fits, h]
  exact .inr (by decide)

namespace Fits

variable {above : Power} {e : Tree}

theorem lt (h : e.Fits above) (ha : above < .unary) : above < e.tightness := by
  rcases h with h | h
  · exact h
  · exact Nat.lt_of_lt_of_le ha h

theorem le (h : e.Fits above) (ha : above ≤ .unary) : above ≤ e.tightness := by
  rcases h with h | h
  · exact Nat.le_of_lt h
  · exact Nat.le_trans ha h

end Fits

theorem IsExpression.fits_lowest {e : Tree} (h : e.IsExpression) : e.Fits .lowest := by
  cases h with
  | binary hpower _ _ _ _ =>
    apply Or.inl
    rw [tightness, hpower]
    exact (Kind.binaryPower?_bounds hpower).1
  | unary _ _ _ => exact .inr (Nat.le_refl _)
  | call _ _ _ => exact .inr (by rw [tightness]; decide)
  | _ => exact fits_of_primary rfl _

/-- Whether an expression compares a name with something by the sign that would assign to it. -/
def isAssignment : Tree → Bool
  | .binary (.reference _) operator _ => operator.kind = .equal
  | _ => false

theorem isAssignment_iff {e : Tree} :
    e.isAssignment = true ↔
      ∃ name operator value, e = .binary (.reference name) operator value ∧
        operator.kind = .equal := by
  constructor
  · intro h
    unfold isAssignment at h
    split at h
    · exact ⟨_, _, _, rfl, of_decide_eq_true h⟩
    · cases h
  · rintro ⟨name, operator, value, rfl, h⟩
    exact decide_eq_true h

/-- Whether a statement ends in a choice without an `else`, to which an `else` after it would
belong. -/
def endsOpen : Tree → Bool
  | .conditional _ _ none => true
  | .conditional _ _ (some elseBranch) => elseBranch.endsOpen
  | _ => false

mutual

/-- The trees that are statements: what may stand as a branch of a choice. -/
inductive IsStatement : Tree → Prop
  | expression {e : Tree} : IsExpression e → e.isAssignment = false → IsStatement e
  | assign {name : Token} {value : Tree} : name.kind = .identifier →
      IsExpression value → .equality < value.tightness → IsStatement (.assign name value)
  | choice {condition thenBranch : Tree} :
      IsExpression condition → IsStatement thenBranch →
      IsStatement (.conditional condition thenBranch none)
  | choiceElse {condition thenBranch elseBranch : Tree} :
      IsExpression condition → IsStatement thenBranch → thenBranch.endsOpen = false →
      IsStatement elseBranch →
      IsStatement (.conditional condition thenBranch (some elseBranch))
  | block {statements : List Tree} :
      (∀ s ∈ statements, IsDeclaration s) → IsStatement (.block statements)

/-- The trees that are declarations: what may stand at the top or inside braces. -/
inductive IsDeclaration : Tree → Prop
  | statement {s : Tree} : IsStatement s → IsDeclaration s
  | declare {name : Token} {isMutable : Bool} : name.kind = .identifier →
      IsDeclaration (.declare name none isMutable)
  | declareValue {name : Token} {value : Tree} {isMutable : Bool} : name.kind = .identifier →
      IsExpression value → IsDeclaration (.declare name (some value) isMutable)
  | function {name : Token} {parameters : List Token} {body : List Tree} :
      name.kind = .identifier → (∀ p ∈ parameters, p.kind = .identifier) →
      (∀ s ∈ body, IsDeclaration s) → IsDeclaration (.function name parameters body)

end

/-! ## Nesting -/

/-- The levels that are opened before the form of a declaration is reached: one for every
declaration, one more for a statement, and one more for an expression. -/
def entry : Tree → Nat
  | .declare .. | .function .. => 1
  | .assign .. | .conditional .. | .block .. => 2
  | _ => 3

mutual

/-- The levels that are open at once inside the form that reads the tree. A left operand and what is
called are read on the level of the whole; every other part opens its own. -/
def inside : Tree → Nat
  | .binary left _ right => max left.inside (right.inside + 1)
  | .unary _ operand => operand.inside + 1
  | .literal _ => 0
  | .group inner => inner.inside + 1
  | .reference _ => 0
  | .assign _ value => value.inside + 2
  | .declare _ none _ => 0
  | .declare _ (some value) _ => value.inside + 1
  | .function _ _ body => deepest body
  | .conditional condition thenBranch none =>
    max (condition.inside + 1) (thenBranch.entry + thenBranch.inside - 1)
  | .conditional condition thenBranch (some elseBranch) =>
    max (max (condition.inside + 1) (thenBranch.entry + thenBranch.inside - 1))
      (elseBranch.entry + elseBranch.inside - 1)
  | .call callee arguments => max callee.inside (deepestArgument arguments)
  | .block statements => deepest statements

/-- The most levels that one of the declarations needs. -/
def deepest : List Tree → Nat
  | [] => 0
  | t :: ts => max (t.entry + t.inside) (deepest ts)

/-- The most levels that one of the arguments needs. -/
def deepestArgument : List Tree → Nat
  | [] => 0
  | t :: ts => max (t.inside + 1) (deepestArgument ts)

end

/-- The levels that are open at once while the tree is read as a declaration. -/
def levels (t : Tree) : Nat := t.entry + t.inside

namespace IsExpression

variable {e : Tree} (h : e.IsExpression)
include h

theorem ending : e.ending = [.any .lineEnd] := by
  cases h <;> rfl

theorem endsOpen : e.endsOpen = false := by
  cases h <;> rfl

theorem entry : e.entry = 3 := by
  cases h <;> rfl

end IsExpression

theorem IsStatement.two_le_entry {e : Tree} (h : e.IsStatement) : 2 ≤ e.entry := by
  cases h with
  | expression hexp _ =>
    rw [hexp.entry]
    omega
  | _ => exact Nat.le_refl 2

theorem entry_pos (t : Tree) : 0 < t.entry := by
  unfold entry
  split <;> omega

theorem deepest_le_iff {ts : List Tree} {n : Nat} : deepest ts ≤ n ↔ ∀ t ∈ ts, t.levels ≤ n := by
  induction ts with
  | nil => simp [deepest]
  | cons t ts ih => rw [deepest, Nat.max_le, List.forall_mem_cons, ih, levels]

theorem deepestArgument_le_iff {ts : List Tree} {n : Nat} :
    deepestArgument ts ≤ n ↔ ∀ t ∈ ts, t.inside < n := by
  induction ts with
  | nil => simp [deepestArgument]
  | cons t ts ih => rw [deepestArgument, Nat.max_le, List.forall_mem_cons, ih, Nat.succ_le_iff]

end Tree

end Scriptlet
