import Scriptlet.Proofs.Completeness
import Scriptlet.Proofs.Rounds
import Scriptlet.Proofs.Soundness

/-!
# Blank lines

A line end after another one, or at the start, is never read as part of anything, unless an `else`
comes next. So a token list with such a line end put in is read as without it, at every depth and
around every error: `blind_read` says so of one part, and `Program.ofTokens_insertIdx` of programs.
-/

namespace Scriptlet

open Rule

variable {α β : Type} {b : Bool} {n t : Token} {us vs : List Token}

/-- The second list is the first one, possibly with a line end put in: after a line end or, if the
flag is set, at the start. No `else` comes after it. -/
inductive Padded : Bool → List Token → List Token → Prop
  | same {b : Bool} {us : List Token} : Padded b us us
  | here {n : Token} {us : List Token} : n.kind = .lineEnd → ¬ StartsWith .elseWord us →
      Padded true us (n :: us)
  | cons {b : Bool} {t : Token} {us vs : List Token} : Padded (t.kind = .lineEnd) us vs →
      Padded b (t :: us) (t :: vs)

namespace Padded

theorem mono {b' : Bool} (h : Padded b us vs) (hb : b = true → b' = true) : Padded b' us vs := by
  cases h with
  | same => exact .same
  | here hn hus =>
    rw [hb rfl]
    exact .here hn hus
  | cons h => exact .cons h

/-- Where nothing is put in at the start, both lists start with the same token. -/
theorem exists_cons (h : Padded false (t :: us) vs) :
    ∃ vs', vs = t :: vs' ∧ Padded (t.kind = .lineEnd) us vs' := by
  cases h with
  | same => exact ⟨us, rfl, .same⟩
  | cons h => exact ⟨_, rfl, h⟩

theorem eq_nil (h : Padded false [] vs) : vs = [] := by
  cases h
  rfl

theorem head?_eq (h : Padded false us vs) : vs.head? = us.head? := by
  cases us with
  | nil => rw [h.eq_nil]
  | cons t us =>
    rcases h.exists_cons with ⟨vs', rfl, -⟩
    rfl

/-- After the line ends that are skipped nothing is put in at the start. -/
theorem afterLineEnds (h : Padded b us vs) :
    Padded false (afterLineEnds us) (afterLineEnds vs) := by
  induction h with
  | same => exact .same
  | @here n us hn _ =>
    have hskip : Rule.afterLineEnds (n :: us) = Rule.afterLineEnds us :=
      List.dropWhile_cons_of_pos (by simpa using hn)
    rw [hskip]
    exact .same
  | @cons _ t us vs h ih =>
    unfold Rule.afterLineEnds at ih ⊢
    rw [List.dropWhile_cons, List.dropWhile_cons]
    split
    · exact ih
    · exact .cons h

/-- An error complains of the same token, or of the end. -/
theorem toError (h : Padded false us vs) (c : Complaint) (p : Position) :
    c.toError p us = c.toError p vs := by
  cases us with
  | nil => rw [h.eq_nil]
  | cons t us =>
    rcases h.exists_cons with ⟨vs', rfl, -⟩
    rfl

end Padded

/-! ## Rules -/

/-- Both have the same value or the same complaint. What they leave differs by a line end at most,
which may come first if the flag of the value is set. -/
inductive Outcome.Blind (b : α → Bool) : Outcome α → Outcome α → Prop
  | ok {a : α} {rest rest' : List Token} : Padded (b a) rest rest' →
      Blind b (.ok a rest) (.ok a rest')
  | fail {c : Complaint} {rest rest' : List Token} : Padded false rest rest' →
      Blind b (.fail c rest) (.fail c rest')

/-- The rule does not see a line end that is put in, at the start of the tokens only if the flag is
set. It may leave one at the start of the rest if the flag of the value is set. -/
def Rule.Blind (b : Bool) (b' : α → Bool) (r : Rule α) : Prop :=
  ∀ us vs, Padded b us vs → (r us).Blind b' (r vs)

/-- The same for tokens of which the first is of the kind. -/
def Rule.BlindFrom (k : Kind) (b' : α → Bool) (r : Rule α) : Prop :=
  ∀ t us vs, t.kind = k → Padded (k = .lineEnd) us vs → (r (t :: us)).Blind b' (r (t :: vs))

namespace Rule

variable {b₁ b' : α → Bool} {b₂ : β → Bool} {r : Rule α} {k : Kind}

theorem blind_pure {a : α} (h : b = true → b' a = true) : Blind b b' (pure a) :=
  fun _ _ hpadded => .ok (hpadded.mono h)

theorem blind_fail (c : Complaint) : Blind false b' (fail c) := fun _ _ hpadded => .fail hpadded

/-- A rule that may be given less and leave more at the start. -/
theorem Blind.imp {b₀ : Bool} (h : Blind b b₁ r) (hb : b₀ = true → b = true)
    (hb' : ∀ a, b₁ a = true → b' a = true) : Blind b₀ b' r := by
  intro us vs hpadded
  have hr := h us vs (hpadded.mono hb)
  generalize r us = o at hr
  generalize r vs = o' at hr
  cases hr with
  | ok hrest => exact .ok (hrest.mono (hb' _))
  | fail hrest => exact .fail hrest

theorem Blind.blindFrom (h : Blind false b' r) (k : Kind) : BlindFrom k b' r := by
  intro t us vs ht hpadded
  apply h
  subst ht
  exact .cons hpadded

/-- One rule after the other: what the first one leaves is what the second one starts with. -/
theorem blind_bind_apply {f : α → Rule β} (h : (r us).Blind b₁ (r vs))
    (hf : ∀ a, Blind (b₁ a) b₂ (f a)) : ((r >>= f) us).Blind b₂ ((r >>= f) vs) := by
  rw [bind_apply, bind_apply]
  generalize r us = o at h
  generalize r vs = o' at h
  cases h with
  | ok hrest => exact hf _ _ _ hrest
  | fail hrest => exact .fail hrest

theorem Blind.bind {f : α → Rule β} (hr : Blind b b₁ r) (hf : ∀ a, Blind (b₁ a) b₂ (f a)) :
    Blind b b₂ (r >>= f) :=
  fun us vs hpadded => blind_bind_apply (hr us vs hpadded) hf

theorem Blind.map {g : α → β} (hr : Blind b b₁ r) (h : ∀ a, b₁ a = true → b₂ (g a) = true) :
    Blind b b₂ (g <$> r) :=
  hr.bind fun a => blind_pure (h a)

theorem blind_kind? : Blind false (fun _ => false) kind? := by
  intro us vs hpadded
  unfold kind?
  rw [hpadded.head?_eq]
  exact .ok hpadded

theorem blind_expect (k : Kind) (c : Complaint) :
    Blind false (fun _ => k = .lineEnd) (expect k c) := by
  intro us vs hpadded
  cases us with
  | nil =>
    rw [hpadded.eq_nil]
    exact .fail .same
  | cons t us =>
    rcases hpadded.exists_cons with ⟨vs, rfl, htail⟩
    rw [expect, expect]
    split
    · rename_i hk
      rw [hk] at htail
      exact .ok htail
    · exact .fail (.cons htail)

theorem blind_accept (hk : k ≠ .lineEnd) : Blind false (fun _ => false) (accept k) := by
  intro us vs hpadded
  cases us with
  | nil =>
    rw [hpadded.eq_nil]
    exact .ok .same
  | cons t us =>
    rcases hpadded.exists_cons with ⟨vs, rfl, htail⟩
    rw [accept, acceptAny, acceptAny]
    split
    · rename_i hkind
      have ht : t.kind = k := by simpa [Token.isOneOf] using hkind
      -- The token that is taken is no line end, so none is put in right after it.
      exact .ok (htail.mono (by simp [ht, hk]))
    · exact .ok (.cons htail)

/-- Whether an `else` comes next does not depend on a line end that is put in. -/
theorem blind_accept_else : Blind true (fun more => !more) (accept .elseWord) := by
  intro us vs hpadded
  cases hpadded with
  | same =>
    generalize accept .elseWord us = o
    cases o with
    | ok more rest => exact .ok .same
    | fail c rest => exact .fail .same
  | @here n _ hn helse =>
    -- What comes next is the line end that is put in, or what it is put before: no `else` either way.
    have hus : accept .elseWord us = .ok false us := accept_false_iff.mpr ⟨rfl, helse⟩
    have hvs : accept .elseWord (n :: us) = .ok false (n :: us) :=
      accept_false_iff.mpr ⟨rfl, by simp [hn]⟩
    rw [hus, hvs]
    exact .ok (.here hn helse)
  | @cons _ t us vs htail =>
    rw [accept, acceptAny, acceptAny]
    split
    · rename_i hkind
      have ht : t.kind = .elseWord := by simpa [Token.isOneOf] using hkind
      exact .ok (htail.mono (by simp [ht]))
    · exact .ok (.cons htail)

theorem blind_skipLineEnds : Blind b (fun _ => false) skipLineEnds :=
  fun _ _ hpadded => .ok hpadded.afterLineEnds

theorem BlindFrom.bind {f : α → Rule β} (hr : BlindFrom k b₁ r)
    (hf : ∀ a, Blind (b₁ a) b₂ (f a)) : BlindFrom k b₂ (r >>= f) :=
  fun t us vs ht hpadded => blind_bind_apply (hr t us vs ht hpadded) hf

theorem BlindFrom.map {g : α → β} (hr : BlindFrom k b₁ r)
    (h : ∀ a, b₁ a = true → b₂ (g a) = true) : BlindFrom k b₂ (g <$> r) :=
  hr.bind fun a => blind_pure (h a)

/-- A token that is no line end is taken. -/
theorem blindFrom_take {f : Token → Rule β} {c : Complaint} (hk : k ≠ .lineEnd)
    (hf : ∀ t, Blind false b₂ (f t)) : BlindFrom k b₂ (take c >>= f) := by
  intro t us vs _ hpadded
  exact hf t _ _ (hpadded.mono (by simp [hk]))

/-- What a table has for the next token starts there. -/
theorem blind_lookup {entries : Kind → Option α} {f : Option α → Rule β}
    (hnone : Blind false b₂ (f none))
    (hsome : ∀ k a, entries k = some a → BlindFrom k b₂ (f (some a))) :
    Blind false b₂ (Tables.lookup entries >>= f) := by
  intro us vs hpadded
  rw [Tables.lookup_bind_apply, Tables.lookup_bind_apply, hpadded.head?_eq]
  cases us with
  | nil => exact hnone _ _ hpadded
  | cons t us =>
    rcases hpadded.exists_cons with ⟨vs, rfl, htail⟩
    rw [List.head?_cons, Option.bind_some]
    cases ha : entries t.kind with
    | none => exact hnone _ _ hpadded
    | some a => exact hsome t.kind a ha t us vs rfl htail

/-- Rounds that have an item go on as they began, and the last one ends the loop. -/
theorem Blind.many {item : Rule (Option α)} {last : Bool} (h : Blind b (·.elim last fun _ => b) item)
    (ht : TakesSome item) : Blind b (fun _ => last) (many item) := by
  intro us vs hpadded
  -- The induction is on the tokens that are left, of which every further round takes one.
  induction hn : us.length using Nat.strongRecOn generalizing us vs with
  | ind n ih =>
    subst hn
    have hround := h us vs hpadded
    rw [many_eq ht, bind_apply, bind_apply]
    generalize hus : item us = o at hround
    generalize item vs = o' at hround
    cases hround with
    | fail hrest => exact .fail hrest
    | @ok a? rest rest' hrest =>
      cases a? with
      | none => exact .ok hrest
      | some a =>
        have hlater := ih _ (ht _ _ _ hus) _ _ hrest rfl
        exact blind_bind_apply hlater fun as => blind_pure id

theorem blind_chain {link : α → Rule (Option α)} (h : ∀ a, Blind b (fun _ => b) (link a))
    (ht : ∀ a, TakesSome (link a)) (a : α) : Blind b (fun _ => b) (chain link a) := by
  intro us vs hpadded
  -- As for `many`, with the value that has been made so far.
  induction hn : us.length using Nat.strongRecOn generalizing us vs a with
  | ind n ih =>
    subst hn
    have hround := h a us vs hpadded
    rw [chain_eq ht, bind_apply, bind_apply]
    generalize hus : link a us = o at hround
    generalize link a vs = o' at hround
    cases hround with
    | fail hrest => exact .fail hrest
    | @ok a? rest rest' hrest =>
      cases a? with
      | none => exact .ok hrest
      | some a' => exact ih _ (ht a _ _ _ hus) a' _ _ hrest rfl

theorem blind_separated {item : Rule α} (h : Blind false (fun _ => false) item) (ht : Takes item) :
    Blind false (fun _ => false) (separated item) := by
  have hlater : Blind false (·.elim false fun _ => false)
      (do if ← accept .comma then some <$> item else pure none) := by
    refine (blind_accept (by decide)).bind fun more => ?_
    cases more with
    | true => exact h.map nofun
    | false => exact blind_pure nofun
  exact h.bind fun first => (hlater.many (Form.takesSome_separated ht)).bind fun others =>
    blind_pure nofun

end Rule

/-! ## Forms -/

/-- Whether the parts of the sort may end a line. -/
def Goal.endsLine : Goal → Bool
  | .declaration | .statement => true
  | .expression _ => false

/-- No part that is read below sees a line end that is put in. -/
structure BlindBelow (below : Goal → Rule Tree) : Prop where
  consumes (goal : Goal) : Consumes (below goal)
  blind (goal : Goal) : Blind false (fun _ => goal.endsLine) (below goal)

namespace BlindBelow

theorem closedList {item : Rule α} (h : Blind false (fun _ => false) item) (ht : Takes item)
    (closing : Complaint) : Blind false (fun _ => false) (Form.closedList item closing) := by
  refine blind_kind?.bind fun k => ?_
  have hclose (items : List α) : Blind false (fun _ => false)
      (do let _ ← expect .rightParen closing; return items) :=
    (blind_expect .rightParen closing).bind fun _ => blind_pure nofun
  by_cases hk : k = some .rightParen
  · simp only [hk, ↓reduceIte]
    exact hclose []
  · simp only [hk, ↓reduceIte]
    exact (blind_separated h ht).bind hclose

variable {below : Goal → Rule Tree} (hb : BlindBelow below)
include hb

theorem expression (above : Power) : Blind false (fun _ => false) (below (.expression above)) :=
  hb.blind (.expression above)

theorem handler {k : Kind} {h : Handler} (hk : Tables.standard.expressions k = some h) :
    BlindFrom k (fun _ => false) (h.rule below) := by
  -- Inside an expression no line end is read, so none can be put in.
  have hline : k ≠ .lineEnd := (Tables.standard_of_expressions hk).2.2.2.2.1
  rcases Tables.standard_expressions_cases hk with ⟨-, rfl⟩ | ⟨-, rfl⟩ | ⟨-, rfl⟩
  · refine blindFrom_take hline fun t => ?_
    split
    · exact blind_pure nofun
    · exact blind_pure nofun
    · exact blind_pure nofun
    · exact blind_pure nofun
    · exact blind_fail _
  · exact blindFrom_take hline fun t => (hb.expression _).bind fun _ => blind_pure nofun
  · apply Blind.blindFrom
    apply (blind_expect .leftParen _).bind
    intro _
    apply (hb.expression _).bind
    intro inner
    apply (blind_expect .rightParen _).bind
    intro _
    exact blind_pure nofun

theorem extension {k : Kind} {o : Operator} (hk : Tables.standard.operators k = some o)
    (left : Tree) : BlindFrom k (fun _ => false) (o.extension.rule below left o.power) := by
  rcases Tables.standard_operators_cases hk with ⟨hpower, hbinary⟩ | ⟨-, rfl⟩
  · have hline : k ≠ .lineEnd := by
      rintro rfl
      cases hpower
    rw [hbinary]
    exact blindFrom_take hline fun t => (hb.expression _).bind fun _ => blind_pure nofun
  · have harguments := closedList (hb.expression .lowest) (hb.consumes _).takes .argumentsEnd
    apply Blind.blindFrom
    apply (blind_expect .leftParen _).bind
    intro _
    apply harguments.bind
    intro arguments
    exact blind_pure nofun

theorem extend (above : Power) (left : Tree) :
    Blind false (fun _ => false) (Tables.standard.extend below above left) := by
  apply blind_lookup
  · exact blind_pure nofun
  · intro k o ho
    by_cases hle : o.power ≤ above
    · simp only [hle, ↓reduceIte]
      apply Blind.blindFrom
      exact blind_pure nofun
    · simp only [hle, ↓reduceIte]
      exact (hb.extension ho left).map nofun

theorem expression_level (above : Power) :
    Blind false (fun _ => false) (Tables.standard.expression below above) := by
  apply blind_lookup
  · exact blind_fail .expression
  · intro k h hk
    exact (hb.handler hk).bind fun left =>
      blind_chain (hb.extend above) (Tables.standard.takesSome_extend hb.consumes above) left

/-! What ends a line. -/

theorem expressionStatement :
    Blind false (fun _ => true) (Form.expressionStatement below) := by
  apply (hb.expression _).bind
  intro e
  apply (blind_expect .lineEnd _).bind
  intro _
  exact blind_pure fun _ => rfl

theorem declare {k : Kind} (hk : k ≠ .lineEnd) :
    BlindFrom k (fun _ => true) (Form.declare below) := by
  apply blindFrom_take hk
  intro keyword
  apply (blind_expect .identifier _).bind
  intro name
  apply (blind_accept (by decide)).bind
  intro hasValue
  have hend (value? : Option Tree) : Blind false (fun _ => true)
      (do let _ ← expect .lineEnd .lineEndAfterDeclaration
          return Tree.declare name value? (keyword.kind = .varWord)) :=
    (blind_expect .lineEnd _).bind fun _ => blind_pure fun _ => rfl
  cases hasValue with
  | true => exact ((hb.expression _).map nofun).bind hend
  | false => exact hend none

/-- Between braces a line end may be put in before every declaration and before the end. -/
theorem blockBody : Blind b (fun _ => false) (Form.blockBody below) := by
  -- Every round skips line ends first; the last one leaves none before the brace.
  have hitem : Blind true (·.elim false fun _ => true) (Form.blockItem below) := by
    refine blind_skipLineEnds.bind fun _ => blind_kind?.bind fun k => ?_
    split
    · exact blind_pure nofun
    · exact (hb.blind .declaration).map fun _ _ => rfl
  have hmany := hitem.many (Form.takesSome_blockItem (hb.consumes _).takes)
  apply (hmany.imp (fun _ => rfl) fun _ => id).bind
  intro statements
  apply (blind_expect .rightBrace _).bind
  intro _
  exact blind_pure nofun

theorem function : Blind false (fun _ => false) (Form.function below) := by
  have hparameters : Blind false (fun _ => false)
      (Form.closedList (expect .identifier .parameterName) .parametersEnd) :=
    closedList (blind_expect .identifier _) (takes_expect _ _) _
  apply (blind_expect .funWord _).bind
  intro _
  apply (blind_expect .identifier _).bind
  intro name
  apply (blind_expect .leftParen _).bind
  intro _
  apply hparameters.bind
  intro parameters
  apply (blind_expect .leftBrace _).bind
  intro _
  apply hb.blockBody.bind
  intro body
  exact blind_pure nofun

/-- After the first branch a line end is seen only by an `else`, which it is not put before. -/
theorem conditional : Blind false (fun _ => true) (Form.conditional below) := by
  apply (blind_expect .ifWord _).bind
  intro _
  apply (blind_expect .leftParen _).bind
  intro _
  apply (hb.expression _).bind
  intro condition
  apply (blind_expect .rightParen _).bind
  intro _
  apply (hb.blind .statement).bind
  intro thenBranch
  apply blind_accept_else.bind
  intro hasElse
  cases hasElse with
  | true =>
    have helse : Blind false (fun _ => true) (some <$> below .statement) :=
      (hb.blind .statement).map fun _ => id
    exact helse.bind fun _ => blind_pure fun _ => rfl
  | false => exact blind_pure fun _ => rfl

theorem block : Blind false (fun _ => false) (Form.block below) := by
  apply (blind_expect .leftBrace _).bind
  intro _
  apply hb.blockBody.bind
  intro statements
  exact blind_pure nofun

theorem statement_level :
    Blind false (fun _ => true) (Tables.standard.level below .statement) := by
  apply blind_lookup
  · exact hb.expressionStatement
  · intro k h hk
    rcases Tables.standard_statements_cases hk with ⟨-, rfl⟩ | ⟨-, rfl⟩
    · exact hb.conditional.blindFrom k
    · exact (hb.block.imp id fun _ => nofun).blindFrom k

theorem declaration_level :
    Blind false (fun _ => true) (Tables.standard.level below .declaration) := by
  apply blind_lookup
  · exact hb.blind .statement
  · intro k h hk
    rcases Tables.standard_declarations_cases hk with ⟨hword, rfl⟩ | ⟨-, rfl⟩
    · apply hb.declare
      rcases hword with rfl | rfl <;> decide
    · exact (hb.function.imp id fun _ => nofun).blindFrom k

end BlindBelow

/-- No part sees a line end that is put in if the parts below it see none. -/
theorem blindBelow_level {below : Goal → Rule Tree} (hb : BlindBelow below) :
    BlindBelow (Tables.standard.level below) where
  consumes := Tables.standard.consuming_level hb.consumes
  blind
    | .declaration => hb.declaration_level
    | .statement => hb.statement_level
    | .expression above => hb.expression_level above

/-- Whatever the number of levels, no part sees a line end that is put in. -/
theorem blind_read (levels : Nat) : BlindBelow (Tables.standard.read levels) := by
  induction levels with
  | zero =>
    exact {
      consumes := Tables.standard.consumes_read 0
      blind := fun _ => blind_fail .nestingTooDeep }
  | succ levels ih => exact blindBelow_level ih

/-! ## Programs -/

namespace Program

variable {p : Position} {ts : List Token} {i : Nat}

theorem resumeAfter_lineEnd (ts : List Token) : resumeAfter .lineEnd ts = ts := by
  cases ts <;> rfl

theorem padded_resumeAfter {previous : Kind} (h : Padded b us vs)
    (hb : b = true → previous = .lineEnd) :
    Padded true (resumeAfter previous us) (resumeAfter previous vs) := by
  induction h generalizing previous with
  | same => exact .same
  | here hn helse =>
    rw [hb rfl, resumeAfter_lineEnd, resumeAfter_lineEnd]
    exact .here hn helse
  | @cons _ t us vs htail ih =>
    rw [resumeAfter, resumeAfter]
    split
    · exact .cons htail
    · exact ih of_decide_eq_true

/-- Where reading resumes after an error, a line end that is put in is skipped. -/
theorem padded_resume (h : Padded false us vs) : Padded true (resume us) (resume vs) := by
  cases us with
  | nil =>
    rw [h.eq_nil]
    exact .same
  | cons t us =>
    -- The token at which the error stands is left out, and it may be the line end before.
    rcases h.exists_cons with ⟨vs, rfl, htail⟩
    exact padded_resumeAfter htail of_decide_eq_true

theorem blind_declaration (h : Padded false us vs) :
    (declaration us).Blind (fun _ => true) (declaration vs) :=
  (blind_read nestingLimit).blind .declaration us vs h

/-- A line end that is put in at the start is skipped in the first round. -/
theorem pieces_of_padded (h : ∀ vs, Padded false us vs → pieces p us us = pieces p vs vs)
    (hpadded : Padded true us vs) : pieces p us us = pieces p vs vs := by
  cases hpadded with
  | same => rfl
  | here hn _ => exact (pieces_lineEnd hn).symm
  | cons htail => exact h _ (.cons htail)

/-- Round by round the same is found with and without the line end. -/
theorem pieces_padded (h : Padded true us vs) : pieces p us us = pieces p vs vs := by
  -- Whatever a round does, it leaves the tokens at a place before which the line end is skipped.
  induction us using round_induction generalizing vs with
  | nil =>
    apply pieces_of_padded _ h
    intro vs hpadded
    rw [hpadded.eq_nil]
  | lineEnd t us ht ih =>
    apply pieces_of_padded _ h
    intro vs hpadded
    rcases hpadded.exists_cons with ⟨vs, rfl, htail⟩
    rw [pieces_lineEnd ht, pieces_lineEnd ht, ih (htail.mono fun _ => rfl)]
  | ok t us tree rest ht hread ih =>
    apply pieces_of_padded _ h
    intro vs hpadded
    rcases hpadded.exists_cons with ⟨vs, rfl, -⟩
    have hblind := blind_declaration hpadded
    rw [hread] at hblind
    generalize hread' : declaration (t :: vs) = o at hblind
    cases hblind with
    | ok hrest => rw [pieces_ok ht hread, pieces_ok ht hread', ih hrest]
  | fail t us c left ht hread ih =>
    apply pieces_of_padded _ h
    intro vs hpadded
    rcases hpadded.exists_cons with ⟨vs, rfl, -⟩
    have hblind := blind_declaration hpadded
    rw [hread] at hblind
    generalize hread' : declaration (t :: vs) = o at hblind
    cases hblind with
    | fail hrest =>
      rw [pieces_fail ht hread, pieces_fail ht hread', hrest.toError c p, ih (padded_resume hrest)]

theorem padded_insertIdx (hi : i < ts.length) (hstart : i = 0 → b = true)
    (hline : i = 0 ∨ ts[i - 1].kind = .lineEnd) (helse : ts[i].kind ≠ .elseWord)
    (hn : n.kind = .lineEnd) : Padded b ts (ts.insertIdx i n) := by
  induction i generalizing b ts with
  | zero =>
    rw [hstart rfl]
    cases ts with
    | nil => cases hi
    | cons t us => exact .here hn (by simpa using helse)
  | succ i ih =>
    cases ts with
    | nil => cases hi
    | cons t us =>
      rw [List.insertIdx_succ_cons]
      apply Padded.cons
      have hline' : (t :: us)[i].kind = .lineEnd := hline.resolve_left (Nat.succ_ne_zero i)
      apply ih (Nat.lt_of_succ_lt_succ hi)
      · rintro rfl
        exact decide_eq_true hline'
      · cases i with
        | zero => exact .inl rfl
        | succ i => exact .inr hline'
      · exact helse

theorem endPosition_insertIdx (hi : i < ts.length) (n : Token) :
    Token.endPosition (ts.insertIdx i n) = Token.endPosition ts := by
  rw [Token.endPosition, Token.endPosition, List.getLast?_eq_getElem?, List.getLast?_eq_getElem?,
    List.length_insertIdx_of_le_length (Nat.le_of_lt hi), Nat.add_sub_cancel,
    List.getElem?_insertIdx_of_gt hi]

/-- Blank lines never matter. With a line end put in before a token other than `else`, at the start
or after another line end, the same declarations are read and the same errors reported, whether the
tokens are well formed or not. -/
theorem ofTokens_insertIdx (hi : i < ts.length) (hline : i = 0 ∨ ts[i - 1].kind = .lineEnd)
    (helse : ts[i].kind ≠ .elseWord) (hn : n.kind = .lineEnd) :
    ofTokens (ts.insertIdx i n) = ofTokens ts := by
  have hpadded : Padded true ts (ts.insertIdx i n) :=
    padded_insertIdx hi (fun _ => rfl) hline helse hn
  rw [ofTokens_eq, ofTokens_eq, endPosition_insertIdx hi, pieces_padded hpadded]

/-- A block with a line that cannot be read and a line after it, before which the line end comes. -/
theorem ofTokens_insertIdx_block :
    let t (k : Kind) (line : UInt32) : Token := .bare k ⟨line, 0⟩
    let ts := [t .leftBrace 0, t .lineEnd 0, t .plus 1, t .lineEnd 1, t .rightBrace 2]
    let n := t .lineEnd 9
    ∃ hi : 4 < ts.length, (4 = 0 ∨ ts[4 - 1].kind = .lineEnd) ∧ ts[4].kind ≠ .elseWord ∧
      n.kind = .lineEnd ∧ ofTokens (ts.insertIdx 4 n) = ofTokens ts :=
  ⟨by decide, .inr rfl, by decide, rfl,
    ofTokens_insertIdx (by decide) (.inr rfl) (by decide) rfl⟩

end Program

end Scriptlet
