import Scriptlet.Proofs.Accounting
import Scriptlet.Proofs.Isolation

/-!
# Braces that are not closed

When the last token is a line end, reading runs out of tokens only inside of braces. Every other
token that a rule can ask for is asked for before that line end is read, so `Balances` keeps two
accounts of a rule: whether a line end is still to come, and how many braces have been opened and
not closed. A declaration that fails at the end of its tokens lacks a closing brace
(`Tables.balances_read`), and a program that does so has opened more braces than it has closed
(`Program.ofTokens_unexpectedEnd`).
-/

namespace Scriptlet

open Rule Form Program

variable {α β : Type} {ts us rest : List Token} {t : Token}

/-! ## Counting braces -/

/-- How many braces a token of the kind opens. A brace that it closes counts against it. -/
def Kind.braces : Kind → Int
  | .leftBrace => 1
  | .rightBrace => -1
  | _ => 0

/-- How many more braces the tokens open than they close. -/
def surplus (ts : List Token) : Int :=
  ts.countP (·.kind = .leftBrace) - ts.countP (·.kind = .rightBrace)

theorem surplus_cons (t : Token) (ts : List Token) :
    surplus (t :: ts) = t.kind.braces + surplus ts := by
  unfold surplus
  rw [List.countP_cons, List.countP_cons]
  cases hk : t.kind <;> simp [Kind.braces] <;> omega

theorem surplus_afterLineEnds (ts : List Token) : surplus (afterLineEnds ts) = surplus ts := by
  induction ts with
  | nil => rfl
  | cons t ts ih =>
    by_cases hk : t.kind = .lineEnd
    · have hskip : afterLineEnds (t :: ts) = afterLineEnds ts :=
        List.dropWhile_cons_of_pos (by simpa using hk)
      have hnone : t.kind.braces = 0 := by
        rw [hk]
        rfl
      rw [hskip, ih, surplus_cons, hnone, Int.zero_add]
    · rw [afterLineEnds_cons_of_ne hk]

/-! ## Where a line end is still to come -/

/-- There are tokens ahead, and the last of them is a line end. -/
def WithinLine (ts : List Token) : Prop := ts ≠ [] ∧ EndsLine ts

theorem withinLine_iff : WithinLine ts ↔ ∃ t ∈ ts.getLast?, t.kind = .lineEnd := by
  unfold WithinLine EndsLine
  cases h : ts.getLast? with
  | none => simp [List.getLast?_eq_none_iff.mp h]
  | some t =>
    have hne : ts ≠ [] := by
      intro hnil
      simp [hnil] at h
    simp [hne]

/-- A line end further on is not read with a token that is none. -/
theorem WithinLine.of_cons (h : WithinLine (t :: us)) (ht : t.kind ≠ .lineEnd) :
    WithinLine us := by
  refine ⟨fun hnil => ?_, h.2.of_suffix (List.suffix_cons t us)⟩
  subst hnil
  exact ht (h.2 t rfl)

/-- The next token neither ends the line nor is it a brace. -/
def AtWord (ts : List Token) : Prop :=
  WithinLine ts ∧ ∀ t ∈ ts.head?, t.kind ∉ [Kind.lineEnd, .leftBrace, .rightBrace]

theorem Kind.braces_eq_zero {k : Kind} (h : k ∉ [Kind.lineEnd, .leftBrace, .rightBrace]) :
    k.braces = 0 := by
  cases k <;> first | rfl | exact absurd (by decide) h

theorem atWord_cons (h : WithinLine (t :: us))
    (ht : t.kind ∉ [Kind.lineEnd, .leftBrace, .rightBrace]) : AtWord (t :: us) := by
  refine ⟨h, fun u hu => ?_⟩
  rw [← Option.some.inj hu]
  exact ht

/-! ## Rules that balance their braces -/

/-- What is taken opens `n` braces more than it closes, and what is left is as `R` says. Tokens
run out only for want of a closing brace, and then there are more braces open than `n`. -/
def Outcome.Balances (R : α → List Token → Prop) (n : Int) (ts : List Token) :
    Outcome α → Prop
  | .ok a rest => R a rest ∧ surplus ts = n + surplus rest
  | .fail c rest => rest = [] → c = .blockEnd ∧ n < surplus ts

/-- The rule does so on all tokens that are as `P` says. -/
def Rule.Balances (P : List Token → Prop) (R : α → List Token → Prop) (n : Int)
    (r : Rule α) : Prop :=
  ∀ ts, P ts → (r ts).Balances R n ts

section Rules

variable {P P' : List Token → Prop} {Q : α → List Token → Prop}
  {R : β → List Token → Prop} {n m k : Int}

theorem Outcome.Balances.bind {r : Rule α} {f : α → Rule β} (hr : (r ts).Balances Q n ts)
    (hf : ∀ a, (f a).Balances (Q a) R m) (hm : m ≤ 0) (hk : n + m = k) :
    ((r >>= f) ts).Balances R k ts := by
  rw [bind_apply]
  cases hts : r ts with
  | ok a us =>
    rw [hts] at hr
    have hus := hf a us hr.1
    have hsurplus : surplus ts = n + surplus us := hr.2
    show (f a us).Balances R k ts
    cases hfa : f a us with
    | ok b rest =>
      rw [hfa] at hus
      have hrest : surplus us = m + surplus rest := hus.2
      exact ⟨hus.1, by omega⟩
    | fail c rest =>
      rw [hfa] at hus
      intro hnil
      have hopen := hus hnil
      exact ⟨hopen.1, by omega⟩
  | fail c rest =>
    rw [hts] at hr
    intro hnil
    have hopen := hr hnil
    exact ⟨hopen.1, by omega⟩

namespace Rule.Balances

theorem bind {r : Rule α} {f : α → Rule β} (hr : r.Balances P Q n)
    (hf : ∀ a, (f a).Balances (Q a) R m) (hm : m ≤ 0) (hk : n + m = k) :
    (r >>= f).Balances P R k :=
  fun ts hts => (hr ts hts).bind hf hm hk

/-- One rule after the other, when neither opens nor closes a brace for the other. -/
theorem seq {r : Rule α} {f : α → Rule β} (hr : r.Balances P Q 0)
    (hf : ∀ a, (f a).Balances (Q a) R 0) : (r >>= f).Balances P R 0 :=
  hr.bind hf (Int.le_refl 0) (Int.add_zero 0)

theorem pure {a : β} (h : ∀ ts, P ts → R a ts) :
    (Pure.pure a : Rule β).Balances P R 0 :=
  fun ts hts => ⟨h ts hts, (Int.zero_add _).symm⟩

theorem map {r : Rule α} (hr : r.Balances P Q n) (g : α → β)
    (h : ∀ a ts, Q a ts → R (g a) ts) : (g <$> r).Balances P R n :=
  hr.bind (fun a => .pure (h a)) (Int.le_refl 0) (Int.add_zero n)

theorem mono {r : Rule α} (hr : r.Balances P Q n) (h : ∀ ts, P' ts → P ts) :
    r.Balances P' Q n :=
  fun ts hts => hr ts (h ts hts)

/-- Where a line end is still to come, tokens have not run out. -/
theorem fail (c : Complaint) : (Rule.fail c : Rule β).Balances WithinLine R n :=
  fun _ hts hnil => absurd hnil hts.1

theorem take (c : Complaint) : (take c).Balances AtWord (fun _ => WithinLine) 0 := by
  intro ts hts
  cases ts with
  | nil => exact absurd rfl hts.1.1
  | cons t us =>
    have ht := hts.2 t rfl
    refine ⟨hts.1.of_cons fun hk => ht (by simp [hk]), ?_⟩
    rw [surplus_cons, Kind.braces_eq_zero ht]

theorem expect {k : Kind} (hk : k ≠ .lineEnd) (c : Complaint) :
    (expect k c).Balances WithinLine (fun _ => WithinLine) k.braces := by
  intro ts hts
  cases ts with
  | nil => exact absurd rfl hts.1
  | cons t us =>
    rw [Rule.expect]
    split
    · rename_i ht
      subst ht
      exact ⟨hts.of_cons hk, surplus_cons t us⟩
    · exact fun hnil => absurd hnil (List.cons_ne_nil t us)

theorem expect_lineEnd (c : Complaint) :
    (Rule.expect .lineEnd c).Balances WithinLine (fun _ => EndsLine) 0 := by
  intro ts hts
  cases ts with
  | nil => exact absurd rfl hts.1
  | cons t us =>
    rw [Rule.expect]
    split
    · rename_i ht
      refine ⟨hts.2.of_suffix (List.suffix_cons t us), ?_⟩
      rw [surplus_cons, ht]
      rfl
    · exact fun hnil => absurd hnil (List.cons_ne_nil t us)

/-- The closing brace is the one token that can be missing at the end of all lines. -/
theorem expect_rightBrace :
    (Rule.expect .rightBrace .blockEnd).Balances EndsLine (fun _ => EndsLine) (-1) := by
  intro ts hts
  cases ts with
  | nil => exact fun _ => ⟨rfl, by decide⟩
  | cons t us =>
    rw [Rule.expect]
    split
    · rename_i ht
      refine ⟨hts.of_suffix (List.suffix_cons t us), ?_⟩
      rw [surplus_cons, ht]
      rfl
    · exact fun hnil => absurd hnil (List.cons_ne_nil t us)

theorem kind? : kind?.Balances P (fun k ts => P ts ∧ k = ts.head?.map Token.kind) 0 :=
  fun _ hts => ⟨⟨hts, rfl⟩, (Int.zero_add _).symm⟩

/-- A token that is read if it is there. Without it the rule has changed nothing. -/
theorem accept {k : Kind} (hk : k ∉ [Kind.lineEnd, .leftBrace, .rightBrace])
    (hpre : ∀ ts, P ts → EndsLine ts) :
    (accept k).Balances P (fun more ts => if more then WithinLine ts else P ts) 0 := by
  intro ts hts
  cases ts with
  | nil => exact ⟨hts, (Int.zero_add _).symm⟩
  | cons t us =>
    cases h : Rule.accept k (t :: us) with
    | ok more rest =>
      cases more with
      | true =>
        rcases accept_true_iff.mp h with ⟨u, hu, hkind⟩
        cases hu
        have hline : WithinLine (t :: us) := ⟨List.cons_ne_nil t us, hpre _ hts⟩
        refine ⟨hline.of_cons fun ht => hk (by simp [← hkind, ht]), ?_⟩
        rw [surplus_cons, hkind, Kind.braces_eq_zero hk]
      | false =>
        rcases accept_false_iff.mp h with ⟨rfl, -⟩
        exact ⟨hts, (Int.zero_add _).symm⟩
    | fail c rest =>
      -- Not to find the token is no failure.
      rw [Rule.accept, acceptAny] at h
      split at h <;> cases h

theorem skipLineEnds : skipLineEnds.Balances EndsLine (fun _ => EndsLine) 0 := by
  intro ts hts
  refine ⟨hts.of_suffix (List.dropWhile_suffix _), ?_⟩
  rw [surplus_afterLineEnds, Int.zero_add]

theorem manyWithin {item : Rule (Option α)} (h : item.Balances P (fun _ => P) 0)
    (budget : List Token) : (manyWithin item budget).Balances P (fun _ => P) 0 := by
  induction budget with
  | nil => exact h.map _ fun _ _ => id
  | cons _ budget ih =>
    refine h.seq fun a? => ?_
    cases a? with
    | none => exact .pure fun _ => id
    | some a => exact ih.seq fun as => .pure fun _ => id

theorem many {item : Rule (Option α)} (h : item.Balances P (fun _ => P) 0) :
    (many item).Balances P (fun _ => P) 0 :=
  fun ts hts => h.manyWithin ts ts hts

theorem chain {link : α → Rule (Option α)} (h : ∀ a, (link a).Balances P (fun _ => P) 0)
    (a : α) : (chain link a).Balances P (fun _ => P) 0 := by
  have hwithin (budget : List Token) :
      ∀ a, (chainWithin link budget a).Balances P (fun _ => P) 0 := by
    induction budget with
    | nil => exact fun a => (h a).map _ fun _ _ => id
    | cons _ budget ih =>
      intro a
      refine (h a).seq fun b? => ?_
      cases b? with
      | none => exact .pure fun _ => id
      | some b => exact ih b
  exact fun ts hts => hwithin ts a ts hts

end Rule.Balances

end Rules

/-! ## Forms -/

/-- Where a part of the sort ends: an expression before the end of its line, and a statement or a
declaration after it. -/
def Goal.After : Goal → List Token → Prop
  | .expression _ => WithinLine
  | .statement | .declaration => EndsLine

/-- Every part that lies below balances its braces, if a line end is still to come. -/
def BalancesParts (below : Goal → Rule Tree) : Prop :=
  ∀ goal, (below goal).Balances WithinLine (fun _ => goal.After) 0

/-- Items and the parenthesis that closes them stay within the line. -/
theorem balances_closedList {item : Rule α}
    (h : item.Balances WithinLine (fun _ => WithinLine) 0) (closing : Complaint) :
    (closedList item closing).Balances WithinLine (fun _ => WithinLine) 0 := by
  have hnext : (do if ← accept .comma then some <$> item else pure none : Rule (Option α)).Balances
      WithinLine (fun _ => WithinLine) 0 := by
    refine (Balances.accept (by decide) fun _ => And.right).seq fun more => ?_
    cases more with
    | true => exact h.map some fun _ _ => id
    | false => exact .pure fun _ => id
  have hseparated : (separated item).Balances WithinLine (fun _ => WithinLine) 0 :=
    h.seq fun first => (Balances.many hnext).seq fun others => .pure fun _ => id
  refine (Balances.kind?.seq fun k => ?_)
  refine Balances.mono (P := WithinLine) ?_ fun _ => And.left
  have hclose (items : List α) :
      (do let _ ← expect .rightParen closing; return items : Rule (List α)).Balances
        WithinLine (fun _ => WithinLine) 0 :=
    (Balances.expect (by decide) closing).seq fun _ => .pure fun _ => id
  split
  · exact (Balances.pure (R := fun _ => WithinLine) fun _ => id).seq hclose
  · exact hseparated.seq hclose

theorem balances_primary : primary.Balances AtWord (fun _ => WithinLine) 0 := by
  refine (Balances.take .expression).seq fun token => ?_
  split
  · exact .pure fun _ => id
  · exact .pure fun _ => id
  · exact .pure fun _ => id
  · exact .pure fun _ => id
  · exact .fail .expression

namespace BalancesParts

variable {below : Goal → Rule Tree} (hb : BalancesParts below)
include hb

theorem unary : (unary below).Balances AtWord (fun _ => WithinLine) 0 := by
  apply (Balances.take _).seq
  intro operator
  apply (hb (.expression .unary)).seq
  intro operand
  exact .pure fun _ => id

theorem group : (group below).Balances WithinLine (fun _ => WithinLine) 0 := by
  apply (Balances.expect (by decide) _).seq
  intro _
  apply (hb (.expression .lowest)).seq
  intro inner
  apply (Balances.expect (by decide) _).seq
  intro _
  exact .pure fun _ => id

theorem binary (left : Tree) (power : Power) :
    (binary below left power).Balances AtWord (fun _ => WithinLine) 0 := by
  apply (Balances.take _).seq
  intro operator
  apply (hb (.expression power)).seq
  intro right
  exact .pure fun _ => id

theorem call (callee : Tree) :
    (call below callee).Balances WithinLine (fun _ => WithinLine) 0 := by
  apply (Balances.expect (by decide) _).seq
  intro _
  apply (balances_closedList (hb (.expression .lowest)) _).seq
  intro arguments
  exact .pure fun _ => id

theorem expressionStatement :
    (expressionStatement below).Balances WithinLine (fun _ => EndsLine) 0 := by
  apply (hb (.expression .lowest)).seq
  intro e
  apply (Balances.expect_lineEnd _).seq
  intro _
  exact .pure fun _ => id

theorem declare : (declare below).Balances AtWord (fun _ => EndsLine) 0 := by
  apply (Balances.take _).seq
  intro keyword
  apply (Balances.expect (by decide) _).seq
  intro name
  apply (Balances.accept (by decide) fun _ => And.right).seq
  intro hasValue
  have hend (value? : Option Tree) :
      (do let _ ← expect .lineEnd .lineEndAfterDeclaration
          return .declare name value? (keyword.kind = .varWord) : Rule Tree).Balances
        WithinLine (fun _ => EndsLine) 0 :=
    (Balances.expect_lineEnd _).seq fun _ => .pure fun _ => id
  cases hasValue with
  | true => exact ((hb (.expression .lowest)).map some fun _ _ => id).seq hend
  | false => exact (Balances.pure (R := fun _ => WithinLine) fun _ => id).seq hend

/-- What stands in braces, after the opening one, closes a brace more than it opens. -/
theorem blockBody : (blockBody below).Balances EndsLine (fun _ => EndsLine) (-1) := by
  have hitem : (blockItem below).Balances EndsLine (fun _ => EndsLine) 0 := by
    refine Balances.skipLineEnds.seq fun _ => Balances.kind?.seq fun k => ?_
    split
    · exact .pure fun _ => And.left
    · -- There is a token ahead, and so a line end.
      rename_i hk
      refine Balances.mono ((hb .declaration).map some fun _ _ => id) fun ts hts => ?_
      refine ⟨fun hnil => hk ?_, hts.1⟩
      rw [hts.2, hnil]
      rfl
  refine (Balances.many hitem).bind (fun statements => ?_) (by decide) (Int.zero_add _)
  exact Balances.expect_rightBrace.bind (fun _ => .pure fun _ => id) (Int.le_refl 0) rfl

theorem block : (block below).Balances WithinLine (fun _ => EndsLine) 0 := by
  refine (Balances.expect (by decide) _).bind (fun _ => ?_) (by decide) (Int.add_right_neg 1)
  refine Balances.mono (P := EndsLine) ?_ fun _ => And.right
  exact hb.blockBody.bind (fun _ => .pure fun _ => id) (Int.le_refl 0) rfl

theorem function : (function below).Balances WithinLine (fun _ => EndsLine) 0 := by
  have hparameters : (closedList (expect .identifier .parameterName) .parametersEnd).Balances
      WithinLine (fun _ => WithinLine) 0 :=
    balances_closedList (Balances.expect (by decide) _) _
  apply (Balances.expect (by decide) _).seq
  intro _
  apply (Balances.expect (by decide) _).seq
  intro name
  apply (Balances.expect (by decide) _).seq
  intro _
  apply hparameters.seq
  intro parameters
  -- The brace that is opened here is the one that the body closes.
  refine (Balances.expect (by decide) _).bind (fun _ => ?_) (by decide) (Int.add_right_neg 1)
  refine Balances.mono (P := EndsLine) ?_ fun _ => And.right
  exact hb.blockBody.bind (fun _ => .pure fun _ => id) (Int.le_refl 0) rfl

theorem conditional : (conditional below).Balances WithinLine (fun _ => EndsLine) 0 := by
  apply (Balances.expect (by decide) _).seq
  intro _
  apply (Balances.expect (by decide) _).seq
  intro _
  apply (hb (.expression .lowest)).seq
  intro condition
  apply (Balances.expect (by decide) _).seq
  intro _
  apply (hb .statement).seq
  intro thenBranch
  apply (Balances.accept (by decide) fun _ => id).seq
  intro hasElse
  cases hasElse with
  | true => exact ((hb .statement).map some fun _ _ => id).seq fun _ => .pure fun _ => id
  | false =>
    exact (Balances.pure (R := fun _ => EndsLine) fun _ => id).seq fun _ => .pure fun _ => id

/-! ## Levels -/

theorem extend (above : Power) (left : Tree) :
    (Tables.standard.extend below above left).Balances WithinLine (fun _ => WithinLine) 0 := by
  intro ts hts
  rw [Tables.extend, Tables.lookup_bind_apply]
  cases ts with
  | nil => exact absurd rfl hts.1
  | cons t us =>
    rw [List.head?_cons, Option.bind_some]
    cases ho : Tables.standard.operators t.kind with
    | none => exact ⟨hts, (Int.zero_add _).symm⟩
    | some o =>
      by_cases hle : o.power ≤ above
      · simp only [hle, ↓reduceIte]
        exact ⟨hts, (Int.zero_add _).symm⟩
      · simp only [hle, ↓reduceIte]
        have hrule : (o.extension.rule below left o.power (t :: us)).Balances
            (fun _ => WithinLine) 0 (t :: us) := by
          rcases Tables.standard_operators_cases ho with ⟨hpower, hextension⟩ | ⟨-, rfl⟩
          · rw [hextension]
            refine hb.binary left o.power _ (atWord_cons hts fun hmem => ?_)
            cases hk : t.kind <;> simp_all [Kind.binaryPower?]
          · exact hb.call left _ hts
        exact hrule.bind (fun e => .pure fun _ => id) (Int.le_refl 0) (Int.add_zero 0)

theorem expression_level (above : Power) :
    (Tables.standard.expression below above).Balances WithinLine (fun _ => WithinLine) 0 := by
  intro ts hts
  rw [Tables.expression, Tables.lookup_bind_apply]
  have hfail (us : List Token) (hus : WithinLine us) :=
    Balances.fail (R := fun _ : Tree => WithinLine) (n := 0) .expression us hus
  cases ts with
  | nil => exact absurd rfl hts.1
  | cons t us =>
    rw [List.head?_cons, Option.bind_some]
    cases hh : Tables.standard.expressions t.kind with
    | none => exact hfail (t :: us) hts
    | some handler =>
      have hstart : (handler.rule below (t :: us)).Balances (fun _ => WithinLine) 0 (t :: us) := by
        rcases Tables.standard_expressions_cases hh with ⟨hk, rfl⟩ | ⟨hk, rfl⟩ | ⟨-, rfl⟩
        · apply balances_primary _ (atWord_cons hts _)
          rcases hk with hk | hk | hk | hk <;> simp [hk]
        · exact hb.unary _ (atWord_cons hts (by simp [hk]))
        · exact hb.group _ hts
      exact hstart.bind (fun left => .chain (hb.extend above) left) (Int.le_refl 0)
        (Int.add_zero 0)

theorem statement_level :
    (Tables.standard.level below .statement).Balances WithinLine (fun _ => EndsLine) 0 := by
  intro ts hts
  cases ts with
  | nil => exact absurd rfl hts.1
  | cons t us =>
    cases hk : Tables.standard.statements t.kind with
    | none =>
      rw [Tables.level_statement_of_none (by simpa using hk)]
      exact hb.expressionStatement _ hts
    | some handler =>
      rw [Tables.level_statement_of_some hk]
      rcases Tables.standard_statements_cases hk with ⟨-, rfl⟩ | ⟨-, rfl⟩
      · exact hb.conditional _ hts
      · exact hb.block _ hts

theorem declaration_level :
    (Tables.standard.level below .declaration).Balances WithinLine (fun _ => EndsLine) 0 := by
  intro ts hts
  cases ts with
  | nil => exact absurd rfl hts.1
  | cons t us =>
    cases hk : Tables.standard.declarations t.kind with
    | none =>
      rw [Tables.level_declaration_of_none (by simpa using hk)]
      exact hb .statement _ hts
    | some handler =>
      rw [Tables.level_declaration_of_some hk]
      rcases Tables.standard_declarations_cases hk with ⟨hword, rfl⟩ | ⟨-, rfl⟩
      · apply hb.declare _ (atWord_cons hts _)
        rcases hword with hword | hword <;> simp [hword]
      · exact hb.function _ hts

end BalancesParts

/-- A level balances its braces if what lies below it does. -/
theorem Tables.balances_level {below : Goal → Rule Tree} (hb : BalancesParts below) :
    BalancesParts (Tables.standard.level below)
  | .declaration => hb.declaration_level
  | .statement => hb.statement_level
  | .expression above => hb.expression_level above

/-- Whatever the number of levels, tokens that end in a line end run out only for want of a closing
brace. -/
theorem Tables.balances_read (levels : Nat) : BalancesParts (Tables.standard.read levels) := by
  induction levels with
  | zero => exact fun goal => .fail .nestingTooDeep
  | succ levels ih => exact balances_level ih

/-! ## Programs -/

namespace Program

theorem declaration_fail_nil (hts : WithinLine ts) {c : Complaint}
    (h : declaration ts = .fail c []) : c = .blockEnd ∧ 0 < surplus ts := by
  have hbalances := Tables.balances_read nestingLimit .declaration ts hts
  change (declaration ts).Balances _ 0 ts at hbalances
  rw [h] at hbalances
  exact hbalances rfl

namespace Covers

variable {segments : List Segment}

theorem eq_nil (h : Covers segments []) : segments = [] := by
  cases segments with
  | nil => rfl
  | cons s segments =>
    have hflatten := h.flatten
    rw [List.map_cons, List.flatten_cons] at hflatten
    exact absurd (List.append_eq_nil_iff.mp hflatten).1 (h.tokens_ne_nil s List.mem_cons_self)

/-- Every segment is a round, with the segments after it. -/
theorem exists_round (h : Covers segments ts) {s : Segment} (hs : s ∈ segments) :
    ∃ front back rest, segments = front ++ s :: back ∧ s.IsRound rest ∧ Covers back rest ∧
      ts = (front.map Segment.tokens).flatten ++ (s.tokens ++ rest) := by
  induction h with
  | nil => cases hs
  | @cons s' segments rest hround hcovers ih =>
    rcases List.mem_cons.mp hs with rfl | hs
    · exact ⟨[], segments, rest, rfl, hround, hcovers, rfl⟩
    · rcases ih hs with ⟨front, back, rest', rfl, hround', hcovers', rfl⟩
      refine ⟨s' :: front, back, rest', rfl, hround', hcovers', ?_⟩
      rw [List.map_cons, List.flatten_cons, List.append_assoc]

end Covers

/-- The error is that of the last segment, a declaration that is given up at the end of the tokens,
and from its start to there more braces are opened than closed. -/
def LeavesOpen (ts : List Token) (e : Error) : Prop :=
  ∃ segments read c, Covers (segments ++ [.abandoned read [] c]) ts ∧
    (ofTokens ts).errors = (segments ++ [.abandoned read [] c]).filterMap
      (Segment.error? (Token.endPosition ts)) ∧
    e = c.toError (Token.endPosition ts) [] ∧
    ts = (segments.map Segment.tokens).flatten ++ read ∧
    read.countP (·.kind = .rightBrace) < read.countP (·.kind = .leftBrace)

/-- An error about the end of the tokens comes from a segment that skips nothing, so it is the last
one. -/
theorem exists_last_segment {e : Error} (he : e ∈ (ofTokens ts).errors) {m : String}
    (hm : e.cause = .unexpectedEnd m) :
    ∃ segments read c, Covers (segments ++ [.abandoned read [] c]) ts ∧
      (ofTokens ts).errors = (segments ++ [.abandoned read [] c]).filterMap
        (Segment.error? (Token.endPosition ts)) ∧
      e = c.toError (Token.endPosition ts) [] ∧
      ts = (segments.map Segment.tokens).flatten ++ read ∧ read ≠ [] ∧
      declaration read = .fail c [] := by
  rcases exists_covers (Token.endPosition ts) ts with ⟨segments, hcovers, -, herrors⟩
  change (ofTokens ts).errors = _ at herrors
  rw [herrors] at he
  rcases List.mem_filterMap.mp he with ⟨s, hs, hse⟩
  cases s with
  | blank lineEnd => cases hse
  | declared read tree => cases hse
  | abandoned read skipped c =>
    have herror : c.toError (Token.endPosition ts) skipped = e := Option.some.inj hse
    cases skipped with
    | cons t skipped =>
      -- The error would name this token.
      rw [← herror] at hm
      cases hm
    | nil =>
      rcases hcovers.exists_round hs with ⟨front, back, rest, rfl, hround, hback, hts⟩
      have hrest : rest = [] := hround.2.2.2.2 rfl
      subst hrest
      have hlast := hback.eq_nil
      subst hlast
      have hne := hround.1
      have hfail := hround.2.2.1
      rw [List.append_nil] at hne
      rw [List.append_nil, List.append_nil] at hfail
      rw [Segment.tokens, List.append_nil, List.append_nil] at hts
      exact ⟨front, read, c, hcovers, herrors, herror.symm, hts, hne, hfail⟩

/-- Where a line end is the last token, an error about the end of the tokens is about a brace. -/
theorem leavesOpen_of_unexpectedEnd (hline : WithinLine ts) {e : Error}
    (he : e ∈ (ofTokens ts).errors) {m : String} (hm : e.cause = .unexpectedEnd m) :
    m = Complaint.blockEnd.message ∧ LeavesOpen ts e := by
  rcases exists_last_segment he hm with ⟨segments, read, c, hcovers, herrors, he, hts, hne, hfail⟩
  have hread : WithinLine read := ⟨hne, hline.2.of_suffix ⟨_, hts.symm⟩⟩
  have hblock := declaration_fail_nil hread hfail
  have hmessage : c.message = m := by
    rw [he] at hm
    exact Cause.unexpectedEnd.inj hm
  have hsurplus : (0 : Int) < read.countP (·.kind = .leftBrace) -
      read.countP (·.kind = .rightBrace) := hblock.2
  refine ⟨?_, segments, read, c, hcovers, herrors, he, hts, by omega⟩
  rw [← hmessage, hblock.1]

/-- In tokens that end in a line end, to run out of them always means a brace that is not closed.
The error about the end of the tokens says so, and from the start of the declaration that is given
up there to the end more braces are opened than closed. In particular there is no such error where
no brace is opened. -/
theorem ofTokens_unexpectedEnd (hend : ∃ t ∈ ts.getLast?, t.kind = .lineEnd) :
    (∀ e ∈ (ofTokens ts).errors, ∀ m, e.cause = .unexpectedEnd m →
      m = "Expect '\x7d' after block." ∧ LeavesOpen ts e) ∧
    ((∀ t ∈ ts, t.kind ≠ .leftBrace) →
      ∀ e ∈ (ofTokens ts).errors, ∀ m, e.cause ≠ .unexpectedEnd m) := by
  have hline := withinLine_iff.mpr hend
  constructor
  · intro e he m hm
    exact leavesOpen_of_unexpectedEnd hline he hm
  · intro hno e he m hm
    rcases (leavesOpen_of_unexpectedEnd hline he hm).2 with ⟨segments, read, c, -, -, -, hts, hlt⟩
    have hnone : read.countP (·.kind = .leftBrace) = 0 := by
      apply List.countP_eq_zero.mpr
      intro t ht
      have hmem : t ∈ ts := hts ▸ List.mem_append_right _ ht
      simpa using hno t hmem
    omega

/-- A line that cannot be read, and a block with a block in it, of which one is closed. -/
theorem ofTokens_unexpectedEnd_blocks :
    let ts : List Token := [.bare .plus ⟨0, 0⟩, .bare .lineEnd ⟨0, 1⟩, .bare .leftBrace ⟨1, 0⟩,
      .bare .leftBrace ⟨1, 1⟩, .bare .rightBrace ⟨1, 2⟩, ⟨.identifier, .name "x", ⟨1, 3⟩⟩,
      .bare .lineEnd ⟨1, 4⟩]
    (∃ t ∈ ts.getLast?, t.kind = .lineEnd) ∧
      (ofTokens ts).errors = [⟨.unexpectedToken "+" "Expect expression.", ⟨0, 0⟩⟩,
        ⟨.unexpectedEnd "Expect '\x7d' after block.", ⟨1, 4⟩⟩] ∧
      (∀ e ∈ (ofTokens ts).errors, ∀ m, e.cause = .unexpectedEnd m →
        m = "Expect '\x7d' after block." ∧ LeavesOpen ts e) ∧
      ((∀ t ∈ ts, t.kind ≠ .leftBrace) →
        ∀ e ∈ (ofTokens ts).errors, ∀ m, e.cause ≠ .unexpectedEnd m) :=
  ⟨⟨_, rfl, rfl⟩, rfl, ofTokens_unexpectedEnd ⟨_, rfl, rfl⟩⟩

end Program

end Scriptlet
