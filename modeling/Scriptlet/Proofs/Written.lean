import Scriptlet.Tree.Basic

/-!
# Written form

How a tree is written: the tokens that it keeps, each in its place, and between them tokens of which
only the kind is fixed. Inside braces empty lines may stand before each declaration and before the
closing brace. `Spells` says that a token list is written so.
-/

namespace Scriptlet

/-- What stands at one place of a written form. -/
inductive Mark where
  /-- A token that the tree keeps. -/
  | this (t : Token)
  /-- A token that holds the tree together, of which the tree keeps nothing. -/
  | any (kind : Kind)
  /-- Any number of line ends. -/
  | lineEnds
deriving DecidableEq, Repr

/-- The tokens are what the marks ask for, in order and with nothing between. -/
inductive Spells : List Mark → List Token → Prop
  | nil : Spells [] []
  | this {t : Token} {ms : List Mark} {ts : List Token} :
      Spells ms ts → Spells (.this t :: ms) (t :: ts)
  | any {k : Kind} {t : Token} {ms : List Mark} {ts : List Token} :
      t.kind = k → Spells ms ts → Spells (.any k :: ms) (t :: ts)
  | noLineEnd {ms : List Mark} {ts : List Token} : Spells ms ts → Spells (.lineEnds :: ms) ts
  | lineEnd {t : Token} {ms : List Mark} {ts : List Token} :
      t.kind = .lineEnd → Spells (.lineEnds :: ms) ts → Spells (.lineEnds :: ms) (t :: ts)

namespace Mark

/-- Items with commas between, after the first of them, up to the closing parenthesis. -/
def laterItems : List (List Mark) → List Mark
  | [] => [.any .rightParen]
  | item :: items => .any .comma :: item ++ laterItems items

/-- Items with commas between, possibly none, up to the closing parenthesis. -/
def items : List (List Mark) → List Mark
  | [] => [.any .rightParen]
  | item :: items => item ++ laterItems items

end Mark

namespace Tree

/-- The word that opens the declaration of a name. -/
def declareKind (isMutable : Bool) : Kind := if isMutable then .varWord else .letWord

/-- The line end after a tree that stands on a line of its own. Functions, choices and blocks end in
a brace or in a part that has its line end. -/
def ending : Tree → List Mark
  | .function .. | .conditional .. | .block .. => []
  | _ => [.any .lineEnd]

mutual

/-- The written form of a tree, without the line end after it. -/
def written : Tree → List Mark
  | .binary left operator right => left.written ++ .this operator :: right.written
  | .unary operator operand => .this operator :: operand.written
  | .literal value => [.this value]
  | .group inner => .any .leftParen :: (inner.written ++ [.any .rightParen])
  | .reference name => [.this name]
  | .assign name value => .this name :: .any .equal :: value.written
  | .declare name none isMutable => [.any (declareKind isMutable), .this name]
  | .declare name (some value) isMutable =>
    .any (declareKind isMutable) :: .this name :: .any .equal :: value.written
  | .function name parameters body =>
    .any .funWord :: .this name :: .any .leftParen ::
      (Mark.items (parameters.map fun p => [.this p]) ++ .any .leftBrace :: braced body)
  | .conditional condition thenBranch none =>
    .any .ifWord :: .any .leftParen ::
      (condition.written ++ .any .rightParen :: (thenBranch.written ++ thenBranch.ending))
  | .conditional condition thenBranch (some elseBranch) =>
    .any .ifWord :: .any .leftParen ::
      (condition.written ++ .any .rightParen :: (thenBranch.written ++ thenBranch.ending ++
        .any .elseWord :: (elseBranch.written ++ elseBranch.ending)))
  | .call callee arguments =>
    callee.written ++ .any .leftParen :: Mark.items (writtens arguments)
  | .block statements => .any .leftBrace :: braced statements

/-- The written forms of the trees of a list. -/
def writtens : List Tree → List (List Mark)
  | [] => []
  | t :: ts => t.written :: writtens ts

/-- Declarations up to the closing brace. -/
def braced : List Tree → List Mark
  | [] => [.lineEnds, .any .rightBrace]
  | t :: ts => .lineEnds :: (t.written ++ t.ending ++ braced ts)

end

/-- The written form of a declaration or a statement, to its end. -/
def lines (t : Tree) : List Mark := t.written ++ t.ending

/-- The written form of a program: declarations with empty lines before and after each. -/
def program : List Tree → List Mark
  | [] => [.lineEnds]
  | t :: ts => .lineEnds :: (t.lines ++ program ts)

theorem writtens_eq_map (ts : List Tree) : writtens ts = ts.map written := by
  induction ts with
  | nil => rfl
  | cons t ts ih => rw [writtens, ih, List.map_cons]

end Tree

/-! ## Spelling -/

/-- The tokens of the plainest spelling: no empty lines, and nothing in a token that is not kept. -/
def Mark.plain : Mark → List Token
  | .this t => [t]
  | .any k => [.bare k .origin]
  | .lineEnds => []

namespace Spells

variable {ms ms' : List Mark} {ts ts' : List Token}

theorem this_iff {t : Token} : Spells (.this t :: ms) ts ↔ ∃ us, ts = t :: us ∧ Spells ms us := by
  constructor
  · intro h
    cases h with
    | this h => exact ⟨_, rfl, h⟩
  · rintro ⟨us, rfl, h⟩
    exact .this h

theorem any_iff {k : Kind} :
    Spells (.any k :: ms) ts ↔ ∃ t us, ts = t :: us ∧ t.kind = k ∧ Spells ms us := by
  constructor
  · intro h
    cases h with
    | any hk h => exact ⟨_, _, rfl, hk, h⟩
  · rintro ⟨t, us, rfl, hk, h⟩
    exact .any hk h

theorem lineEnds_iff :
    Spells (.lineEnds :: ms) ts ↔
      ∃ us us', ts = us ++ us' ∧ (∀ t ∈ us, t.kind = .lineEnd) ∧ Spells ms us' := by
  constructor
  · intro h
    generalize hm : Mark.lineEnds :: ms = marks at h
    induction h with
    | nil => cases hm
    | this _ _ => cases hm
    | any _ _ _ => cases hm
    | @noLineEnd _ ts h _ =>
      cases hm
      exact ⟨[], ts, rfl, by simp, h⟩
    | @lineEnd t _ _ hk _ ih =>
      obtain ⟨us, us', rfl, hus, h⟩ := ih hm
      exact ⟨t :: us, us', rfl, List.forall_mem_cons.mpr ⟨hk, hus⟩, h⟩
  · rintro ⟨us, us', rfl, hus, h⟩
    induction us with
    | nil => exact .noLineEnd h
    | cons t us ih =>
      obtain ⟨hk, hus⟩ := List.forall_mem_cons.mp hus
      exact .lineEnd hk (ih hus)

theorem exists_of_append (h : Spells (ms ++ ms') ts) :
    ∃ us us', ts = us ++ us' ∧ Spells ms us ∧ Spells ms' us' := by
  induction ms generalizing ts with
  | nil => exact ⟨[], ts, rfl, .nil, h⟩
  | cons m ms ih =>
    cases m with
    | this t =>
      obtain ⟨vs, rfl, hvs⟩ := this_iff.mp h
      obtain ⟨us, us', rfl, hus, hus'⟩ := ih hvs
      exact ⟨t :: us, us', rfl, .this hus, hus'⟩
    | any k =>
      obtain ⟨t, vs, rfl, hk, hvs⟩ := any_iff.mp h
      obtain ⟨us, us', rfl, hus, hus'⟩ := ih hvs
      exact ⟨t :: us, us', rfl, .any hk hus, hus'⟩
    | lineEnds =>
      obtain ⟨ls, vs, rfl, hls, hvs⟩ := lineEnds_iff.mp h
      obtain ⟨us, us', rfl, hus, hus'⟩ := ih hvs
      exact ⟨ls ++ us, us', (List.append_assoc _ _ _).symm,
        lineEnds_iff.mpr ⟨ls, us, rfl, hls, hus⟩, hus'⟩

theorem append (h : Spells ms ts) (h' : Spells ms' ts') : Spells (ms ++ ms') (ts ++ ts') := by
  induction h with
  | nil => exact h'
  | this _ ih => exact .this ih
  | any hk _ ih => exact .any hk ih
  | noLineEnd _ ih => exact .noLineEnd ih
  | lineEnd hk _ ih => exact .lineEnd hk ih

/-- Every written form can be spelled. -/
theorem plain (ms : List Mark) : Spells ms (ms.flatMap Mark.plain) := by
  induction ms with
  | nil => exact .nil
  | cons m ms ih =>
    cases m with
    | this t => exact .this ih
    | any k => exact .any rfl ih
    | lineEnds => exact .noLineEnd ih

end Spells

/-- The tokens spell the marks, and the rest comes after. -/
def SpellsTo (ms : List Mark) (ts rest : List Token) : Prop :=
  ∃ read, ts = read ++ rest ∧ Spells ms read

namespace SpellsTo

variable {ms ms' : List Mark} {ts rest : List Token}

theorem nil_iff : SpellsTo [] ts rest ↔ rest = ts := by
  constructor
  · rintro ⟨read, rfl, h⟩
    cases h
    rfl
  · rintro rfl
    exact ⟨[], rfl, .nil⟩

theorem this_iff {t : Token} :
    SpellsTo (.this t :: ms) ts rest ↔ ∃ us, ts = t :: us ∧ SpellsTo ms us rest := by
  constructor
  · rintro ⟨read, rfl, h⟩
    obtain ⟨us, rfl, hus⟩ := Spells.this_iff.mp h
    exact ⟨us ++ rest, rfl, us, rfl, hus⟩
  · rintro ⟨_, rfl, us, rfl, h⟩
    exact ⟨t :: us, rfl, .this h⟩

theorem any_iff {k : Kind} :
    SpellsTo (.any k :: ms) ts rest ↔
      ∃ t us, ts = t :: us ∧ t.kind = k ∧ SpellsTo ms us rest := by
  constructor
  · rintro ⟨read, rfl, h⟩
    obtain ⟨t, us, rfl, hk, hus⟩ := Spells.any_iff.mp h
    exact ⟨t, us ++ rest, rfl, hk, us, rfl, hus⟩
  · rintro ⟨t, _, rfl, hk, us, rfl, h⟩
    exact ⟨t :: us, rfl, .any hk h⟩

theorem lineEnds_iff :
    SpellsTo (.lineEnds :: ms) ts rest ↔
      ∃ ls us, ts = ls ++ us ∧ (∀ t ∈ ls, t.kind = .lineEnd) ∧ SpellsTo ms us rest := by
  constructor
  · rintro ⟨read, rfl, h⟩
    obtain ⟨ls, us, rfl, hls, hus⟩ := Spells.lineEnds_iff.mp h
    exact ⟨ls, us ++ rest, List.append_assoc _ _ _, hls, us, rfl, hus⟩
  · rintro ⟨ls, _, rfl, hls, us, rfl, h⟩
    exact ⟨ls ++ us, (List.append_assoc _ _ _).symm, Spells.lineEnds_iff.mpr ⟨ls, us, rfl, hls, h⟩⟩

theorem append_iff :
    SpellsTo (ms ++ ms') ts rest ↔ ∃ mid, SpellsTo ms ts mid ∧ SpellsTo ms' mid rest := by
  constructor
  · rintro ⟨read, rfl, h⟩
    obtain ⟨us, us', rfl, hus, hus'⟩ := h.exists_of_append
    exact ⟨us' ++ rest, ⟨us, List.append_assoc _ _ _, hus⟩, us', rfl, hus'⟩
  · rintro ⟨_, ⟨us, rfl, hus⟩, us', rfl, hus'⟩
    exact ⟨us ++ us', (List.append_assoc _ _ _).symm, hus.append hus'⟩

end SpellsTo

end Scriptlet
