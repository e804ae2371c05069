import Scriptlet.Cursor
import Scriptlet.Proofs.Progress

/-!
# Rules run from a cursor

A rule that is run from a cursor reads the tokens ahead and moves the cursor before those that it
leaves. Nothing else of the cursor changes, it moves forward or stays, and it gets past a token when
a rule that takes one succeeds. Rules one after the other are run one after the other.
-/

namespace Scriptlet.Cursor

open Rule

variable {α β : Type} {c c' : Cursor} {rule : Rule α} {a : α} {e : Error}

/-! ## Results -/

theorem run_eq_ok_iff :
    c.run rule = (.ok a, c') ↔ ∃ rest, rule c.rest = .ok a rest ∧ c' = c.moveTo rest := by
  rw [run]
  cases rule c.rest with
  | ok b rest =>
    constructor
    · intro h
      cases h
      exact ⟨rest, rfl, rfl⟩
    · rintro ⟨_, hrule, rfl⟩
      cases hrule
      rfl
  | fail complaint rest => simp

theorem run_eq_error_iff :
    c.run rule = (.error e, c') ↔ ∃ complaint rest, rule c.rest = .fail complaint rest ∧
      e = complaint.toError (Token.endPosition c.tokens) rest ∧ c' = c.moveTo rest := by
  rw [run]
  cases rule c.rest with
  | ok b rest => simp
  | fail complaint rest =>
    constructor
    · intro h
      cases h
      exact ⟨complaint, rest, rfl, rfl, rfl⟩
    · rintro ⟨_, _, hrule, rfl, rfl⟩
      cases hrule
      rfl

/-! ## Moves -/

theorem run_snd (c : Cursor) (rule : Rule α) : (c.run rule).2 = c.moveTo (rule c.rest).rest := by
  rw [run]
  cases rule c.rest <;> rfl

theorem length_rest (c : Cursor) : c.rest.length = c.tokens.length - c.index := List.length_drop

theorem moveTo_of_rest_eq {read rest : List Token} (h : c.rest = read ++ rest)
    (hc : c.index ≤ c.tokens.length) :
    c.moveTo rest = { c with index := c.index + read.length } := by
  have hlength := congrArg List.length h
  rw [length_rest, List.length_append] at hlength
  have hindex : c.tokens.length - rest.length = c.index + read.length := by omega
  rw [moveTo, hindex]

theorem moveTo_rest (hc : c.index ≤ c.tokens.length) : c.moveTo c.rest = c :=
  moveTo_of_rest_eq (List.nil_append c.rest).symm hc

/-- The cursor stands before the tokens to which it is moved. -/
theorem rest_moveTo {rest : List Token} (h : rest <:+ c.rest) : (c.moveTo rest).rest = rest :=
  (List.suffix_iff_eq_drop.mp (h.trans (List.drop_suffix _ _))).symm

theorem index_le_moveTo {rest : List Token} (h : rest <:+ c.rest)
    (hc : c.index ≤ c.tokens.length) : c.index ≤ (c.moveTo rest).index := by
  have hle := h.length_le
  rw [length_rest] at hle
  show c.index ≤ c.tokens.length - rest.length
  omega

theorem index_moveTo_le (c : Cursor) (rest : List Token) :
    (c.moveTo rest).index ≤ c.tokens.length :=
  Nat.sub_le _ _

/-- A rule that takes a token moves the cursor when it succeeds. -/
theorem index_lt_of_run (h : c.run rule = (.ok a, c')) (htakes : Takes rule) :
    c.index < c'.index := by
  obtain ⟨rest, hrule, rfl⟩ := run_eq_ok_iff.mp h
  have hlt := htakes _ _ _ hrule
  rw [length_rest] at hlt
  show c.index < c.tokens.length - rest.length
  omega

/-! ## One token on -/

theorem advance_of_lt (h : c.index < c.tokens.length) :
    c.advance.2 = { c with index := c.index + 1 } := by
  have hmore : c.atEnd = false := decide_eq_false (Nat.not_le_of_lt h)
  simp only [advance, hmore, Bool.false_eq_true, if_false]

theorem advance_of_le (h : c.tokens.length ≤ c.index) : c.advance.2 = c := by
  have hend : c.atEnd = true := decide_eq_true h
  simp only [advance, hend, if_true]

theorem rest_advance (h : c.index < c.tokens.length) :
    c.advance.2.rest = c.tokens.drop (c.index + 1) := by
  rw [advance_of_lt h, rest]

/-- Where a cursor is moved to does not depend on where it stands. -/
theorem moveTo_rest_advance (h : c.index < c.tokens.length) :
    c.moveTo (c.tokens.drop (c.index + 1)) = c.advance.2 := by
  rw [advance_of_lt h]
  exact moveTo_rest (c := { c with index := c.index + 1 }) h

/-! ## Sequences -/

/-- When a rule succeeds without going back, the next one goes on where it ended. -/
theorem bind_rest_of_ok (h : c.run rule = (.ok a, c')) (hsuffix : (rule c.rest).rest <:+ c.rest)
    (f : α → Rule β) : (rule >>= f) c.rest = f a c'.rest := by
  obtain ⟨rest, hrule, rfl⟩ := run_eq_ok_iff.mp h
  rw [hrule] at hsuffix
  have hrest : rest <:+ c.rest := hsuffix
  rw [bind_apply, hrule, rest_moveTo hrest]

theorem run_bind_of_ok (h : c.run rule = (.ok a, c')) (hsuffix : (rule c.rest).rest <:+ c.rest)
    (f : α → Rule β) : c.run (rule >>= f) = c'.run (f a) := by
  have hbind := bind_rest_of_ok h hsuffix f
  obtain ⟨rest, -, rfl⟩ := run_eq_ok_iff.mp h
  rw [run, run, hbind]
  rfl

theorem run_bind_of_error (h : c.run rule = (.error e, c')) (f : α → Rule β) :
    c.run (rule >>= f) = (.error e, c') := by
  obtain ⟨complaint, rest, hrule, rfl, rfl⟩ := run_eq_error_iff.mp h
  rw [run, bind_apply, hrule]

end Scriptlet.Cursor
