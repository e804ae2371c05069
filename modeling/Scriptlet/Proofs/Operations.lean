import Scriptlet.Proofs.Rounds
import Scriptlet.Proofs.Runs

/-!
# Cursors driven by hand

Whoever drives a cursor can move it, enter forms in its tables, read, and do all this inside of
further nesting levels. Whatever is done, in whatever order and with whatever tables, the cursor
stays in its token list and within the nesting limit, and reading comes to an end
(`Cursor.Reached.keeps`).
-/

namespace Scriptlet

open Rule

/-! ## Operations -/

/-- What can be read from a cursor: an expression, a form, or what extends an expression. -/
inductive Reading where
  | expression (above : Power)
  | form (handler : Handler)
  | extension (e : Extension) (left : Tree) (power : Power)

/-- The rule of a reading, with what lies below as given. -/
def Reading.rule (below : Goal → Rule Tree) : Reading → Rule Tree
  | .expression above => below (.expression above)
  | .form handler => handler.rule below
  | .extension e left power => e.rule below left power

/-- Reads from the cursor. -/
def Cursor.read (c : Cursor) : Reading → Except Error Tree × Cursor
  | .expression above => c.expression above
  | .form handler => c.handle handler
  | .extension e left power => c.extend e left power

/-- What can be done with a cursor. -/
inductive Operation where
  | advance
  | acceptAny (kinds : List Kind)
  | expect (kind : Kind) (complaint : Complaint)
  | take (complaint : Complaint)
  | skipLineEnds
  | resume
  /-- Enters the tables of the language. -/
  | enterStandard
  | enterDeclaration (kind : Kind) (handler : Handler)
  | enterStatement (kind : Kind) (handler : Handler)
  | enterExpression (kind : Kind) (handler : Handler)
  | enterOperator (kind : Kind) (operator : Operator)
  | read (reading : Reading)
  /-- Operations with one more level open, which end well or not. -/
  | nested (inner : List Operation) (result : Except Error Unit)

mutual

/-- The cursor after an operation. -/
def Operation.perform : Operation → Cursor → Cursor
  | .advance, c => c.advance.2
  | .acceptAny kinds, c => (c.acceptAny kinds).2
  | .expect kind complaint, c => (c.expect kind complaint).2
  | .take complaint, c => (c.take complaint).2
  | .skipLineEnds, c => c.skipLineEnds
  | .resume, c => c.resume
  | .enterStandard, c => c.withTables (c.tables.override .standard)
  | .enterDeclaration kind handler, c => c.withTables (c.tables.withDeclaration kind handler)
  | .enterStatement kind handler, c => c.withTables (c.tables.withStatement kind handler)
  | .enterExpression kind handler, c => c.withTables (c.tables.withExpression kind handler)
  | .enterOperator kind operator, c => c.withTables (c.tables.withOperator kind operator)
  | .read reading, c => (c.read reading).2
  | .nested inner result, c => (c.nested fun opened => (result, Operation.performAll inner opened)).2

/-- The cursor after operations one after the other. -/
def Operation.performAll : List Operation → Cursor → Cursor
  | [], c => c
  | operation :: operations, c => Operation.performAll operations (operation.perform c)

end

/-! ## What an operation keeps -/

/-- The same kinds have a form and a power, so that every operator has both. -/
def Tables.SameKeys (tables : Tables) : Prop :=
  ∀ kind, (tables.extensions kind).isSome = (tables.powers kind).isSome

namespace Tables.SameKeys

theorem empty : Tables.empty.SameKeys := fun _ => rfl

theorem standard : Tables.standard.SameKeys := by
  intro kind
  cases kind <;> rfl

variable {tables other : Tables}

theorem override (h : tables.SameKeys) (h' : other.SameKeys) :
    (tables.override other).SameKeys := by
  intro kind
  simp only [Tables.override, Option.orElse_eq_orElse, Option.orElse_eq_or, Option.isSome_or,
    h kind, h' kind]

theorem withOperator (h : tables.SameKeys) (kind : Kind) (operator : Operator) :
    (tables.withOperator kind operator).SameKeys := by
  intro k
  simp only [Tables.withOperator, update]
  split
  · rfl
  · exact h k

end Tables.SameKeys

namespace Cursor

/-- The second cursor is valid and stands where the first one does or further on, in the same token
list and with as many levels open. The tables of operators still go together if they did. -/
structure Keeps (c m : Cursor) : Prop where
  tokens : m.tokens = c.tokens
  index_le : c.index ≤ m.index
  depth : m.depth = c.depth
  valid : m.Valid
  sameKeys : c.tables.SameKeys → m.tables.SameKeys

variable {c m m' : Cursor}

namespace Keeps

theorem refl (hc : c.Valid) : c.Keeps c := ⟨rfl, Nat.le_refl _, rfl, hc, id⟩

theorem trans (h : c.Keeps m) (h' : m.Keeps m') : c.Keeps m' where
  tokens := h'.tokens.trans h.tokens
  index_le := Nat.le_trans h.index_le h'.index_le
  depth := h'.depth.trans h.depth
  valid := h'.valid
  sameKeys := h'.sameKeys ∘ h.sameKeys

theorem moveTo (hc : c.Valid) {rest : List Token} (h : rest <:+ c.rest) :
    c.Keeps (c.moveTo rest) :=
  ⟨rfl, index_le_moveTo h hc.index_le, rfl, ⟨index_moveTo_le c rest, hc.depth_le⟩, id⟩

theorem run {α : Type} (hc : c.Valid) {rule : Rule α} (hforward : Forward rule) :
    c.Keeps (c.run rule).2 := by
  rw [run_snd]
  exact .moveTo hc (hforward _)

theorem withTables (hc : c.Valid) {tables : Tables}
    (h : c.tables.SameKeys → tables.SameKeys) : c.Keeps (c.withTables tables) :=
  ⟨rfl, Nat.le_refl _, rfl, ⟨hc.index_le, hc.depth_le⟩, h⟩

theorem advance (hc : c.Valid) : c.Keeps c.advance.2 := by
  by_cases hmore : c.index < c.tokens.length
  · rw [advance_of_lt hmore]
    exact ⟨rfl, Nat.le_succ _, rfl, ⟨hmore, hc.depth_le⟩, id⟩
  · rw [advance_of_le (Nat.le_of_not_lt hmore)]
    exact .refl hc

theorem acceptAny (hc : c.Valid) (kinds : List Kind) : c.Keeps (c.acceptAny kinds).2 := by
  have hrun : (c.acceptAny kinds).2 = (c.run (Rule.acceptAny kinds)).2 := by
    rw [Cursor.acceptAny]
    rcases c.run (Rule.acceptAny kinds) with ⟨_ | _, moved⟩ <;> rfl
  rw [hrun]
  exact .run hc (forward_acceptAny kinds)

/-- A level that is opened is closed again, however the operations inside of it end. -/
theorem nested (hc : c.Valid) {inner : Cursor → Except Error Unit × Cursor}
    (h : c.opened.Valid → c.opened.Keeps (inner c.opened).2) : c.Keeps (c.nested inner).2 := by
  rw [Cursor.nested]
  split
  · exact .refl hc
  · rename_i hdepth
    have hin := h ⟨hc.index_le, Nat.lt_of_not_le hdepth⟩
    exact {
      tokens := hin.tokens
      index_le := hin.index_le
      depth := by
        show (inner c.opened).2.depth - 1 = c.depth
        rw [hin.depth]
        rfl
      valid := ⟨hin.valid.index_le, Nat.le_trans (Nat.sub_le _ _) hin.valid.depth_le⟩
      sameKeys := hin.sameKeys }

end Keeps

theorem read_eq_run (c : Cursor) (reading : Reading) :
    c.read reading = c.run (reading.rule c.below) := by
  cases reading <;> rfl

/-- Every reading takes a token when it succeeds, and is put together from parts. -/
theorem consuming_reading (c : Cursor) (reading : Reading) :
    Consuming (fun r _ => ∃ goal, r = c.below goal) (reading.rule c.below)
      (reading.rule c.below) := by
  cases reading with
  | expression above => exact c.consuming_below _
  | form handler => exact handler.consuming_rule c.consuming_below
  | extension e left power => exact e.consuming_rule c.consuming_below left power

end Cursor

mutual

theorem Operation.keeps_perform (operation : Operation) {c : Cursor} (hc : c.Valid) :
    c.Keeps (operation.perform c) := by
  cases operation with
  | advance => exact .advance hc
  | acceptAny kinds => exact .acceptAny hc kinds
  | expect kind complaint => exact .run hc (forward_expect kind complaint)
  | take complaint => exact .run hc (forward_take complaint)
  | skipLineEnds => exact .moveTo hc (List.dropWhile_suffix _)
  | resume => exact .moveTo hc (Program.resume_suffix _)
  | enterStandard => exact .withTables hc (·.override .standard)
  | enterDeclaration kind handler => exact .withTables hc id
  | enterStatement kind handler => exact .withTables hc id
  | enterExpression kind handler => exact .withTables hc id
  | enterOperator kind operator => exact .withTables hc (·.withOperator kind operator)
  | read reading =>
    rw [perform, Cursor.read_eq_run]
    exact .run hc (c.consuming_reading reading).parallel.forward
  | nested inner result =>
    rw [perform]
    exact .nested hc fun hopened => Operation.keeps_performAll inner hopened

theorem Operation.keeps_performAll (operations : List Operation) {c : Cursor} (hc : c.Valid) :
    c.Keeps (performAll operations c) := by
  cases operations with
  | nil => exact .refl hc
  | cons operation operations =>
    have hfirst := operation.keeps_perform hc
    exact hfirst.trans (Operation.keeps_performAll operations hfirst.valid)

end

/-! ## Reachable cursors -/

/-- The cursors that can be reached from the start of a token list, those inside of levels too. -/
inductive Cursor.Reached (ts : List Token) : Cursor → Prop
  | start : Reached ts (ofTokens ts)
  | perform {c : Cursor} (operation : Operation) : Reached ts c → Reached ts (operation.perform c)
  | opened {c : Cursor} : Reached ts c → c.depth < nestingLimit → Reached ts c.opened

namespace Cursor.Reached

variable {ts : List Token} {c : Cursor}

theorem invariant (h : Reached ts c) : c.tokens = ts ∧ c.Valid ∧ c.tables.SameKeys := by
  induction h with
  | start => exact ⟨rfl, ⟨Nat.zero_le _, Nat.zero_le _⟩, .empty⟩
  | perform operation _ ih =>
    obtain ⟨htokens, hvalid, hkeys⟩ := ih
    have hkeeps := operation.keeps_perform hvalid
    exact ⟨hkeeps.tokens.trans htokens, hkeeps.valid, hkeeps.sameKeys hkeys⟩
  | opened _ hdepth ih =>
    obtain ⟨htokens, hvalid, hkeys⟩ := ih
    exact ⟨htokens, ⟨hvalid.index_le, hdepth⟩, hkeys⟩

/-- Whatever is done with a cursor and whatever its tables hold, it stands in the token list that it
was made from, with no more levels open than there are, and every operator in its tables has both a
form and a power. An operation never moves it back and leaves as many levels open as before. Every
reading comes to an end, with one result only, keeps within these bounds on the way, and takes a
token if it succeeds. -/
theorem keeps (h : Reached ts c) :
    c.tokens = ts ∧ c.index ≤ ts.length ∧ c.depth ≤ nestingLimit ∧ c.tables.SameKeys ∧
      (∀ operation : Operation, c.index ≤ (operation.perform c).index ∧
        (operation.perform c).depth = c.depth) ∧
      ∀ reading : Reading,
        (∃ trace, Runs c (reading.rule c.below) trace (c.read reading).1 (c.read reading).2) ∧
        (∀ trace result m, Runs c (reading.rule c.below) trace result m →
          c.read reading = (result, m) ∧ c.Steady trace m) ∧
        ∀ e m, c.read reading = (.ok e, m) → c.index < m.index := by
  obtain ⟨htokens, hvalid, hkeys⟩ := h.invariant
  refine ⟨htokens, htokens ▸ hvalid.index_le, hvalid.depth_le, hkeys, fun operation => ?_,
    fun reading => ⟨?_, fun trace result m hrun => ?_, fun e m hread => ?_⟩⟩
  · have hkeeps := operation.keeps_perform hvalid
    exact ⟨hkeeps.index_le, hkeeps.depth⟩
  · rw [read_eq_run]
    exact completes_of_consuming hvalid (c.consuming_reading reading)
  · rw [read_eq_run]
    exact ⟨(hrun.eq_run hvalid).1, hrun.steady hvalid⟩
  · rw [read_eq_run] at hread
    exact index_lt_of_run hread (c.consuming_reading reading).takes

/-- A minus that is to be read as a declaration, though a minus announces what is to be read as a
declaration. -/
theorem keeps_selfCalling :
    let ts : List Token := [.bare .minus .origin, .bare .plus .origin]
    let c := (Operation.enterDeclaration .minus .declaration).perform (ofTokens ts)
    let reading : Reading := .form .declaration
    Reached ts c ∧
      ∃ trace, Runs c (reading.rule c.below) trace (c.read reading).1 (c.read reading).2 := by
  intro ts c reading
  have hc : Reached ts c := .perform _ .start
  obtain ⟨-, -, -, -, -, hreading⟩ := keeps hc
  exact ⟨hc, (hreading reading).1⟩

end Cursor.Reached

end Scriptlet
