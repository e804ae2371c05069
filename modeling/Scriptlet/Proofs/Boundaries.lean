import Mathlib.Order.Bounds.Defs
import Scriptlet.Proofs.Cursors

/-!
# Where reading resumes

After an error reading resumes at the next boundary: the first place further on at which the tokens
end, a line ends, or a word stands that starts a statement. A cursor gets there one token after the
other (`Cursor.resume_eq_ite`), and leaves out the token that it stands before, whatever it is.
-/

namespace Scriptlet

namespace Program

/-! ## Boundaries -/

/-- A statement can begin at the index, or no more can: the tokens end there, the one before it is a
line end, or the one at it is a word that starts a statement. -/
def IsBoundary (ts : List Token) (q : Nat) : Prop :=
  q = ts.length ∨ (0 < q ∧ ∃ t ∈ ts[q - 1]?, t.kind = .lineEnd) ∨
    ∃ t ∈ ts[q]?, t.kind ∈ [Kind.letWord, .varWord, .funWord, .ifWord, .whenWord]

instance (ts : List Token) (q : Nat) : Decidable (IsBoundary ts q) :=
  inferInstanceAs (Decidable (_ ∨ _ ∨ _))

/-- The boundaries beyond an index. -/
def boundariesAfter (ts : List Token) (p : Nat) : Set Nat :=
  {q | p < q ∧ q ≤ ts.length ∧ IsBoundary ts q}

variable {ts : List Token} {p : Nat} {u t : Token}

theorem isBoundary_length (ts : List Token) : IsBoundary ts ts.length := .inl rfl

/-- Between two tokens there is a boundary if the first ends a line or the second starts a
statement. -/
theorem isBoundary_succ_iff (hu : ts[p]? = some u) (ht : ts[p + 1]? = some t) :
    IsBoundary ts (p + 1) ↔ u.kind = .lineEnd ∨ t.kind.startsStatement = true := by
  have hlt : p + 1 < ts.length := (List.getElem?_eq_some_iff.mp ht).1
  rw [IsBoundary, Nat.add_sub_cancel, hu, ht, Kind.startsStatement_iff]
  constructor
  · rintro (hend | ⟨-, u', hu', hline⟩ | ⟨t', ht', hword⟩)
    · omega
    · obtain rfl := Option.some.inj hu'
      exact .inl hline
    · obtain rfl := Option.some.inj ht'
      exact .inr hword
  · rintro (hline | hword)
    · exact .inr (.inl ⟨Nat.zero_lt_succ p, u, rfl, hline⟩)
    · exact .inr (.inr ⟨t, rfl, hword⟩)

theorem isLeast_boundariesAfter_succ (hp : p < ts.length) (h : IsBoundary ts (p + 1)) :
    IsLeast (boundariesAfter ts p) (p + 1) :=
  ⟨⟨Nat.lt_succ_self p, hp, h⟩, fun _ hq => hq.1⟩

theorem boundariesAfter_of_not_isBoundary (h : ¬ IsBoundary ts (p + 1)) :
    boundariesAfter ts p = boundariesAfter ts (p + 1) := by
  ext q
  constructor
  · rintro ⟨hlt, hle, hq⟩
    have hne : q ≠ p + 1 := by
      rintro rfl
      exact h hq
    exact ⟨by omega, hle, hq⟩
  · rintro ⟨hlt, hle, hq⟩
    exact ⟨by omega, hle, hq⟩

end Program

open Program

namespace Cursor

variable {c : Cursor}

/-! ## One token -/

/-- To resume is to advance, and to stop there or to resume from there. -/
theorem resume_eq_ite (h : c.index < c.tokens.length) :
    c.resume = if IsBoundary c.tokens (c.index + 1) then c.advance.2 else c.advance.2.resume := by
  have hrest : c.rest = c.tokens[c.index] :: c.tokens.drop (c.index + 1) :=
    List.drop_eq_getElem_cons h
  rw [← moveTo_rest_advance h, resume, hrest]
  cases hnext : c.tokens.drop (c.index + 1) with
  | nil =>
    have hend : c.index + 1 = c.tokens.length :=
      Nat.le_antisymm h (List.drop_eq_nil_iff.mp hnext)
    rw [if_pos (hend ▸ isBoundary_length c.tokens)]
    rfl
  | cons t ts =>
    have ht : c.tokens[c.index + 1]? = some t := by
      rw [← List.head?_drop, hnext, List.head?_cons]
    have htest := isBoundary_succ_iff (List.getElem?_eq_getElem h) ht
    rw [Program.resume, resumeAfter]
    by_cases hstop : IsBoundary c.tokens (c.index + 1)
    · rw [if_pos hstop, if_pos (by simpa using htest.mp hstop)]
    · rw [if_neg hstop, if_neg (by simpa using mt htest.mpr hstop), ← hnext, resume,
        moveTo_rest_advance h, rest_advance h, hnext]
      -- The token looked at is the one left out next.
      rfl

/-! ## Token after token -/

theorem resume_of_index_eq (h : c.index = c.tokens.length) : c.resume = c := by
  have hstay : c.moveTo c.rest = c := moveTo_rest (Nat.le_of_eq h)
  have hrest : c.rest = [] := List.drop_eq_nil_iff.mpr (Nat.le_of_eq h.symm)
  rw [hrest] at hstay
  rw [resume, hrest, Program.resume, hstay]

/-- A cursor resumes at the first boundary beyond the place where it stands, or stays there if it
has read all tokens. Nothing else of it changes. -/
theorem resume_isLeast (c : Cursor) :
    (c.index = c.tokens.length → c.resume = c) ∧
      (c.index < c.tokens.length →
        ∃ q, IsLeast (boundariesAfter c.tokens c.index) q ∧ c.resume = { c with index := q }) := by
  refine ⟨resume_of_index_eq, fun h => ?_⟩
  induction hleft : c.tokens.length - c.index generalizing c with
  | zero => omega
  | succ n ih =>
    rw [resume_eq_ite h, advance_of_lt h]
    by_cases hstop : IsBoundary c.tokens (c.index + 1)
    · rw [if_pos hstop]
      exact ⟨c.index + 1, isLeast_boundariesAfter_succ h hstop, rfl⟩
    · -- No boundary is passed over, and there is a token left to go on with.
      have hne : c.index + 1 ≠ c.tokens.length := fun hend =>
        hstop (hend ▸ isBoundary_length c.tokens)
      have hmore : c.index + 1 < c.tokens.length := by omega
      have hless : c.tokens.length - (c.index + 1) = n := by omega
      rw [if_neg hstop, boundariesAfter_of_not_isBoundary hstop]
      exact ih { c with index := c.index + 1 } hmore hless

/-- A word that starts a statement is left out when the cursor stands before it, together with the
line that it stands in. -/
theorem resume_isLeast_letWord :
    let kinds : List Kind := [.minus, .letWord, .plus, .lineEnd, .identifier]
    let c : Cursor := ⟨kinds.map fun kind => .bare kind .origin, 1, .empty, 0⟩
    let e : Cursor := { c with index := 5 }
    c.index < c.tokens.length ∧ c.resume.index = 4 ∧
      (∃ q, IsLeast (boundariesAfter c.tokens c.index) q ∧ c.resume = { c with index := q }) ∧
      e.index = e.tokens.length ∧ e.resume = e := by
  intro kinds c e
  have hc : c.index < c.tokens.length := by decide
  exact ⟨hc, rfl, (resume_isLeast c).2 hc, rfl, (resume_isLeast e).1 rfl⟩

end Cursor

end Scriptlet
