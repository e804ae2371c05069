import Scriptlet.Proofs.Grammatical
import Scriptlet.Proofs.Parallel

/-!
# What a form reads

When a form succeeds: which tokens it finds, which parts are read between them, and what tree it
makes. Each statement gives the whole condition, so that it serves in both directions. Lists in
parentheses and the declarations in braces are taken one item at a time.
-/

namespace Scriptlet

open Rule

variable {below : Goal → Rule Tree} {ts rest : List Token} {e : Tree} {α : Type}

namespace Form

theorem primary_eq_ok_iff :
    primary ts = .ok e rest ↔ ∃ t, ts = t :: rest ∧
      (t.kind = .identifier ∧ e = .reference t ∨
        (t.kind = .integer ∨ t.kind = .floating ∨ t.kind = .text) ∧ e = .literal t) := by
  simp only [primary, bind_eq_ok_iff, take_eq_ok_iff]
  constructor
  · rintro ⟨t, mid, rfl, h⟩
    cases hk : t.kind <;> simp only [hk] at h <;> cases h
    · exact ⟨t, rfl, .inl ⟨hk, rfl⟩⟩
    · exact ⟨t, rfl, .inr ⟨.inl hk, rfl⟩⟩
    · exact ⟨t, rfl, .inr ⟨.inr (.inl hk), rfl⟩⟩
    · exact ⟨t, rfl, .inr ⟨.inr (.inr hk), rfl⟩⟩
  · rintro ⟨t, rfl, ⟨hk, rfl⟩ | ⟨hk | hk | hk, rfl⟩⟩ <;> exact ⟨t, rest, rfl, by simp [hk]⟩

theorem unary_eq_ok_iff :
    unary below ts = .ok e rest ↔ ∃ o mid operand, ts = o :: mid ∧
      below (.expression .unary) mid = .ok operand rest ∧ e = .unary o operand := by
  simp only [unary, bind_eq_ok_iff, take_eq_ok_iff, pure_eq_ok_iff]
  constructor
  · rintro ⟨o, mid, rfl, operand, _, h, rfl, rfl⟩
    exact ⟨o, mid, operand, rfl, h, rfl⟩
  · rintro ⟨o, mid, operand, rfl, h, rfl⟩
    exact ⟨o, mid, rfl, operand, rest, h, rfl, rfl⟩

theorem group_eq_ok_iff :
    group below ts = .ok e rest ↔ ∃ l mid inner r, ts = l :: mid ∧ l.kind = .leftParen ∧
      below (.expression .lowest) mid = .ok inner (r :: rest) ∧ r.kind = .rightParen ∧
      e = .group inner := by
  simp only [group, wholeExpression, bind_eq_ok_iff, expect_eq_ok_iff, pure_eq_ok_iff]
  constructor
  · rintro ⟨l, mid, ⟨rfl, hl⟩, inner, _, h, r, _, ⟨rfl, hr⟩, rfl, rfl⟩
    exact ⟨l, mid, inner, r, rfl, hl, h, hr, rfl⟩
  · rintro ⟨l, mid, inner, r, rfl, hl, h, hr, rfl⟩
    exact ⟨l, mid, ⟨rfl, hl⟩, inner, _, h, r, rest, ⟨rfl, hr⟩, rfl, rfl⟩

theorem binary_eq_ok_iff {left : Tree} {power : Power} :
    binary below left power ts = .ok e rest ↔ ∃ o mid right, ts = o :: mid ∧
      below (.expression power) mid = .ok right rest ∧ e = .binary left o right := by
  simp only [binary, bind_eq_ok_iff, take_eq_ok_iff, pure_eq_ok_iff]
  constructor
  · rintro ⟨o, mid, rfl, right, _, h, rfl, rfl⟩
    exact ⟨o, mid, right, rfl, h, rfl⟩
  · rintro ⟨o, mid, right, rfl, h, rfl⟩
    exact ⟨o, mid, rfl, right, rest, h, rfl, rfl⟩

/-! ## Lists in parentheses -/

/-- The items after the first one, and the closing parenthesis. -/
def laterItems (item : Rule α) (closing : Complaint) : Rule (List α) := do
  let items ← many (do if ← accept .comma then some <$> item else pure none)
  let _ ← expect .rightParen closing
  return items

theorem laterItem_none_iff {item : Rule α} :
    (do if ← accept .comma then some <$> item else pure none) ts = .ok none rest ↔
      rest = ts ∧ ¬ StartsWith .comma ts := by
  rw [bind_eq_ok_iff]
  constructor
  · rintro ⟨more, mid, hmore, h⟩
    cases more with
    | true =>
      obtain ⟨a, -, ha⟩ := map_eq_ok_iff.mp h
      cases ha
    | false =>
      cases h
      exact accept_false_iff.mp hmore
  · rintro ⟨rfl, h⟩
    exact ⟨false, rest, accept_false_iff.mpr ⟨rfl, h⟩, rfl⟩

theorem laterItem_some_iff {item : Rule α} {a : α} :
    (do if ← accept .comma then some <$> item else pure none) ts = .ok (some a) rest ↔
      ∃ c us, ts = c :: us ∧ c.kind = .comma ∧ item us = .ok a rest := by
  rw [bind_eq_ok_iff]
  constructor
  · rintro ⟨more, mid, hmore, h⟩
    cases more with
    | true =>
      obtain ⟨c, rfl, hc⟩ := accept_true_iff.mp hmore
      obtain ⟨b, hb, hab⟩ := map_eq_ok_iff.mp h
      cases hab
      exact ⟨c, mid, rfl, hc, hb⟩
    | false => cases h
  · rintro ⟨c, us, rfl, hc, ha⟩
    exact ⟨true, us, accept_true_iff.mpr ⟨c, rfl, hc⟩, map_eq_ok_iff.mpr ⟨a, ha, rfl⟩⟩

theorem laterItems_nil_iff {item : Rule α} (ht : Takes item) {closing : Complaint} :
    laterItems item closing ts = .ok [] rest ↔ ∃ t, ts = t :: rest ∧ t.kind = .rightParen := by
  simp only [laterItems, bind_eq_ok_iff, expect_eq_ok_iff, pure_eq_ok_iff]
  constructor
  · rintro ⟨_, mid, hmany, t, _, ⟨rfl, ht'⟩, rfl, rfl⟩
    obtain ⟨rfl, -⟩ := laterItem_none_iff.mp ((many_nil_iff (takesSome_separated ht)).mp hmany)
    exact ⟨t, rfl, ht'⟩
  · rintro ⟨t, rfl, hk⟩
    refine ⟨[], t :: rest, ?_, t, rest, ⟨rfl, hk⟩, rfl, rfl⟩
    rw [many_nil_iff (takesSome_separated ht), laterItem_none_iff]
    exact ⟨rfl, by simp [hk]⟩

theorem laterItems_cons_iff {item : Rule α} (ht : Takes item) {closing : Complaint} {a : α}
    {as : List α} :
    laterItems item closing ts = .ok (a :: as) rest ↔
      ∃ c us mid, ts = c :: us ∧ c.kind = .comma ∧ item us = .ok a mid ∧
        laterItems item closing mid = .ok as rest := by
  simp only [laterItems, bind_eq_ok_iff, expect_eq_ok_iff, pure_eq_ok_iff]
  constructor
  · rintro ⟨_, mid, hmany, t, _, ⟨rfl, ht'⟩, rfl, rfl⟩
    obtain ⟨mid', hi, has⟩ := (many_cons_iff (takesSome_separated ht)).mp hmany
    obtain ⟨c, us, rfl, hc, ha⟩ := laterItem_some_iff.mp hi
    exact ⟨c, us, mid', rfl, hc, ha, as, _, has, t, rest, ⟨rfl, ht'⟩, rfl, rfl⟩
  · rintro ⟨c, us, mid, rfl, hc, ha, _, mid', has, t, _, ⟨rfl, hk⟩, rfl, rfl⟩
    refine ⟨a :: as, _, ?_, t, rest, ⟨rfl, hk⟩, rfl, rfl⟩
    rw [many_cons_iff (takesSome_separated ht)]
    exact ⟨mid, laterItem_some_iff.mpr ⟨c, us, rfl, hc, ha⟩, has⟩

theorem closedList_nil_iff {item : Rule α} {closing : Complaint} :
    closedList item closing ts = .ok [] rest ↔ ∃ t, ts = t :: rest ∧ t.kind = .rightParen := by
  simp only [closedList, bind_eq_ok_iff, kind?_eq_ok_iff]
  constructor
  · rintro ⟨k, _, ⟨rfl, rfl⟩, h⟩
    split at h
    · simp only [bind_eq_ok_iff, expect_eq_ok_iff, pure_eq_ok_iff] at h
      obtain ⟨_, _, ⟨rfl, rfl⟩, t, _, ⟨rfl, ht⟩, -, rfl⟩ := h
      exact ⟨t, rfl, ht⟩
    · simp only [separated, bind_eq_ok_iff, expect_eq_ok_iff, pure_eq_ok_iff] at h
      obtain ⟨_, _, ⟨a, _, -, as, _, -, rfl, rfl⟩, t, _, -, hnil, -⟩ := h
      cases hnil
  · rintro ⟨t, rfl, ht⟩
    refine ⟨some .rightParen, _, ⟨by simp [ht], rfl⟩, ?_⟩
    simp only [↓reduceIte, bind_eq_ok_iff, expect_eq_ok_iff, pure_eq_ok_iff]
    exact ⟨[], _, ⟨rfl, rfl⟩, t, rest, ⟨rfl, ht⟩, rfl, rfl⟩

theorem closedList_cons_iff {item : Rule α} {closing : Complaint} {a : α} {as : List α} :
    closedList item closing ts = .ok (a :: as) rest ↔
      ¬ StartsWith .rightParen ts ∧
        ∃ mid, item ts = .ok a mid ∧ laterItems item closing mid = .ok as rest := by
  simp only [closedList, bind_eq_ok_iff, kind?_eq_ok_iff]
  constructor
  · rintro ⟨k, _, ⟨rfl, rfl⟩, h⟩
    split at h
    · simp only [bind_eq_ok_iff, expect_eq_ok_iff, pure_eq_ok_iff] at h
      obtain ⟨_, _, ⟨rfl, rfl⟩, t, _, -, hnil, -⟩ := h
      cases hnil
    · rename_i hk
      simp only [separated, bind_eq_ok_iff, expect_eq_ok_iff, pure_eq_ok_iff] at h
      obtain ⟨_, _, ⟨_, mid, ha, _, _, has, rfl, rfl⟩, t, _, ⟨rfl, ht⟩, hcons, rfl⟩ := h
      cases hcons
      refine ⟨hk, mid, ha, ?_⟩
      simp only [laterItems, bind_eq_ok_iff, expect_eq_ok_iff, pure_eq_ok_iff]
      exact ⟨as, _, has, t, rest, ⟨rfl, ht⟩, rfl, rfl⟩
  · rintro ⟨hk, mid, ha, h⟩
    refine ⟨_, ts, ⟨rfl, rfl⟩, ?_⟩
    rw [if_neg (show ts.head?.map Token.kind ≠ some .rightParen from hk)]
    simp only [laterItems, separated, bind_eq_ok_iff, expect_eq_ok_iff, pure_eq_ok_iff] at h ⊢
    obtain ⟨_, _, has, t, _, ⟨rfl, ht⟩, rfl, rfl⟩ := h
    exact ⟨a :: as, _, ⟨a, mid, ha, as, _, has, rfl, rfl⟩, t, rest, ⟨rfl, ht⟩, rfl, rfl⟩

theorem call_eq_ok_iff {callee : Tree} :
    call below callee ts = .ok e rest ↔ ∃ l mid arguments, ts = l :: mid ∧ l.kind = .leftParen ∧
      closedList (below (.expression .lowest)) .argumentsEnd mid = .ok arguments rest ∧
      e = .call callee arguments := by
  simp only [call, wholeExpression, bind_eq_ok_iff, expect_eq_ok_iff, pure_eq_ok_iff]
  constructor
  · rintro ⟨l, mid, ⟨rfl, hl⟩, arguments, _, h, rfl, rfl⟩
    exact ⟨l, mid, arguments, rfl, hl, h, rfl⟩
  · rintro ⟨l, mid, arguments, rfl, hl, h, rfl⟩
    exact ⟨l, mid, ⟨rfl, hl⟩, arguments, rest, h, rfl, rfl⟩

/-! ## Declarations in braces -/

/-- One declaration of those in braces, if there is a further one. -/
def blockItem (below : Goal → Rule Tree) : Rule (Option Tree) := do
  skipLineEnds
  let kind ← kind?
  if kind = some .rightBrace || kind = none then return none
  some <$> below .declaration

theorem takesSome_blockItem (h : Takes (below .declaration)) : TakesSome (blockItem below) := by
  refine takesSome_bind forward_skipLineEnds fun _ => takesSome_bind forward_kind? fun k => ?_
  split
  · exact takesSome_pure_none
  · exact takesSome_map h

theorem blockItem_none_iff :
    blockItem below ts = .ok none rest ↔
      rest = afterLineEnds ts ∧ ∀ t ∈ rest.head?, t.kind = .rightBrace := by
  simp only [blockItem, bind_eq_ok_iff, kind?_eq_ok_iff, skipLineEnds, Outcome.ok.injEq]
  constructor
  · rintro ⟨_, _, ⟨-, rfl⟩, k, _, ⟨rfl, rfl⟩, h⟩
    split at h
    · rename_i hk
      cases h
      refine ⟨rfl, fun t ht => ?_⟩
      simpa [Option.mem_def.mp ht] using hk
    · obtain ⟨a, -, ha⟩ := map_eq_ok_iff.mp h
      cases ha
  · rintro ⟨rfl, h⟩
    refine ⟨(), _, ⟨trivial, rfl⟩, _, _, ⟨rfl, rfl⟩, ?_⟩
    rw [if_pos]
    · rfl
    · cases hts : (afterLineEnds ts).head? with
      | none => simp
      | some t => simp [h t hts]

theorem blockItem_some_iff :
    blockItem below ts = .ok (some e) rest ↔ ∃ t us, afterLineEnds ts = t :: us ∧
      t.kind ≠ .rightBrace ∧ below .declaration (t :: us) = .ok e rest := by
  simp only [blockItem, bind_eq_ok_iff, kind?_eq_ok_iff, skipLineEnds, Outcome.ok.injEq]
  constructor
  · rintro ⟨_, _, ⟨-, rfl⟩, k, _, ⟨rfl, rfl⟩, h⟩
    split at h
    · cases h
    · rename_i hk
      obtain ⟨a, ha, hae⟩ := map_eq_ok_iff.mp h
      cases hae
      cases hts : afterLineEnds ts with
      | nil => simp [hts] at hk
      | cons t us =>
        rw [hts] at ha
        exact ⟨t, us, rfl, by simpa [hts] using hk, ha⟩
  · rintro ⟨t, us, hts, hk, he⟩
    refine ⟨(), _, ⟨trivial, rfl⟩, _, _, ⟨rfl, rfl⟩, ?_⟩
    rw [hts, if_neg (by simpa using hk)]
    exact map_eq_ok_iff.mpr ⟨e, he, rfl⟩

theorem blockBody_eq_ok_iff {statements : List Tree} :
    blockBody below ts = .ok statements rest ↔
      ∃ b, many (blockItem below) ts = .ok statements (b :: rest) ∧ b.kind = .rightBrace := by
  have heq : blockBody below = do
      let statements ← many (blockItem below)
      let _ ← expect .rightBrace .blockEnd
      return statements := rfl
  simp only [heq, bind_eq_ok_iff, expect_eq_ok_iff, pure_eq_ok_iff]
  constructor
  · rintro ⟨_, _, hmany, b, _, ⟨rfl, hb⟩, rfl, rfl⟩
    exact ⟨b, hmany, hb⟩
  · rintro ⟨b, hmany, hb⟩
    exact ⟨statements, _, hmany, b, rest, ⟨rfl, hb⟩, rfl, rfl⟩

theorem blockBody_nil_iff (h : Takes (below .declaration)) :
    blockBody below ts = .ok [] rest ↔
      ∃ b, afterLineEnds ts = b :: rest ∧ b.kind = .rightBrace := by
  simp only [blockBody_eq_ok_iff, many_nil_iff (takesSome_blockItem h), blockItem_none_iff]
  constructor
  · rintro ⟨b, ⟨hts, -⟩, hb⟩
    exact ⟨b, hts.symm, hb⟩
  · rintro ⟨b, hts, hb⟩
    exact ⟨b, ⟨hts.symm, by simpa using hb⟩, hb⟩

theorem blockBody_cons_iff (h : Takes (below .declaration)) {statements : List Tree} :
    blockBody below ts = .ok (e :: statements) rest ↔
      ∃ t us mid, afterLineEnds ts = t :: us ∧ t.kind ≠ .rightBrace ∧
        below .declaration (t :: us) = .ok e mid ∧ blockBody below mid = .ok statements rest := by
  simp only [blockBody_eq_ok_iff, many_cons_iff (takesSome_blockItem h), blockItem_some_iff]
  constructor
  · rintro ⟨b, ⟨mid, ⟨t, us, hts, hk, he⟩, hmany⟩, hb⟩
    exact ⟨t, us, mid, hts, hk, he, b, hmany, hb⟩
  · rintro ⟨t, us, mid, hts, hk, he, b, hmany, hb⟩
    exact ⟨b, ⟨mid, ⟨t, us, hts, hk, he⟩, hmany⟩, hb⟩

/-! ## Statements and declarations -/

theorem ofExpression_eq_self (h : e.isAssignment = false) : ofExpression e = e := by
  unfold ofExpression
  split
  · rename_i operator _
    have hne : operator.kind ≠ .equal := of_decide_eq_false h
    rw [if_neg hne]
  · rfl

theorem ofExpression_assignment {name operator : Token} {value : Tree}
    (h : operator.kind = .equal) :
    ofExpression (.binary (.reference name) operator value) = .assign name value := by
  rw [ofExpression, if_pos h]

theorem expressionStatement_eq_ok_iff :
    expressionStatement below ts = .ok e rest ↔ ∃ e' l,
      below (.expression .lowest) ts = .ok e' (l :: rest) ∧ l.kind = .lineEnd ∧
      e = ofExpression e' := by
  simp only [expressionStatement, wholeExpression, bind_eq_ok_iff, expect_eq_ok_iff,
    pure_eq_ok_iff]
  constructor
  · rintro ⟨e', _, h, l, _, ⟨rfl, hl⟩, rfl, rfl⟩
    exact ⟨e', l, h, hl, rfl⟩
  · rintro ⟨e', l, h, hl, rfl⟩
    exact ⟨e', _, h, l, rest, ⟨rfl, hl⟩, rfl, rfl⟩

theorem declare_eq_ok_iff :
    declare below ts = .ok e rest ↔ ∃ word name mid, ts = word :: name :: mid ∧
      name.kind = .identifier ∧
      ((∃ l, mid = l :: rest ∧ l.kind = .lineEnd ∧
          e = .declare name none (word.kind = .varWord)) ∨
        ∃ sign us value l, mid = sign :: us ∧ sign.kind = .equal ∧
          below (.expression .lowest) us = .ok value (l :: rest) ∧ l.kind = .lineEnd ∧
          e = .declare name (some value) (word.kind = .varWord)) := by
  simp only [declare, wholeExpression, bind_eq_ok_iff, expect_eq_ok_iff, take_eq_ok_iff]
  constructor
  · rintro ⟨word, _, rfl, name, mid, ⟨rfl, hname⟩, hasValue, us, hsign, h⟩
    refine ⟨word, name, mid, rfl, hname, ?_⟩
    cases hasValue with
    | false =>
      obtain ⟨rfl, -⟩ := accept_false_iff.mp hsign
      simp only [Bool.false_eq_true, ↓reduceIte, bind_eq_ok_iff, expect_eq_ok_iff,
        pure_eq_ok_iff] at h
      obtain ⟨_, _, ⟨rfl, rfl⟩, l, _, ⟨rfl, hl⟩, rfl, rfl⟩ := h
      exact .inl ⟨l, rfl, hl, rfl⟩
    | true =>
      obtain ⟨sign, rfl, hk⟩ := accept_true_iff.mp hsign
      simp only [↓reduceIte, bind_eq_ok_iff, map_eq_ok_iff, expect_eq_ok_iff,
        pure_eq_ok_iff] at h
      obtain ⟨_, _, ⟨value, hv, rfl⟩, l, _, ⟨rfl, hl⟩, rfl, rfl⟩ := h
      exact .inr ⟨sign, us, value, l, rfl, hk, hv, hl, rfl⟩
  · rintro ⟨word, name, mid, rfl, hname, ⟨l, rfl, hl, rfl⟩ |
      ⟨sign, us, value, l, rfl, hk, hv, hl, rfl⟩⟩
    · refine ⟨word, _, rfl, name, _, ⟨rfl, hname⟩, false, l :: rest,
        accept_false_iff.mpr ⟨rfl, by simp [hl]⟩, ?_⟩
      simp only [Bool.false_eq_true, ↓reduceIte, bind_eq_ok_iff, expect_eq_ok_iff, pure_eq_ok_iff]
      exact ⟨none, _, ⟨rfl, rfl⟩, l, rest, ⟨rfl, hl⟩, rfl, rfl⟩
    · refine ⟨word, _, rfl, name, _, ⟨rfl, hname⟩, true, us,
        accept_true_iff.mpr ⟨sign, rfl, hk⟩, ?_⟩
      simp only [↓reduceIte, bind_eq_ok_iff, map_eq_ok_iff, expect_eq_ok_iff, pure_eq_ok_iff]
      exact ⟨some value, _, ⟨value, hv, rfl⟩, l, rest, ⟨rfl, hl⟩, rfl, rfl⟩

theorem function_eq_ok_iff :
    function below ts = .ok e rest ↔ ∃ word name l mid parameters b mid' body,
      ts = word :: name :: l :: mid ∧ word.kind = .funWord ∧ name.kind = .identifier ∧
      l.kind = .leftParen ∧
      closedList (expect .identifier .parameterName) .parametersEnd mid =
        .ok parameters (b :: mid') ∧ b.kind = .leftBrace ∧
      blockBody below mid' = .ok body rest ∧ e = .function name parameters body := by
  simp only [function, bind_eq_ok_iff, expect_eq_ok_iff, pure_eq_ok_iff]
  constructor
  · rintro ⟨word, _, ⟨rfl, hword⟩, name, _, ⟨rfl, hname⟩, l, mid, ⟨rfl, hl⟩, parameters, _, hps,
      b, mid', ⟨rfl, hb⟩, body, _, hbody, rfl, rfl⟩
    exact ⟨word, name, l, mid, parameters, b, mid', body, rfl, hword, hname, hl, hps, hb, hbody,
      rfl⟩
  · rintro ⟨word, name, l, mid, parameters, b, mid', body, rfl, hword, hname, hl, hps, hb, hbody,
      rfl⟩
    exact ⟨word, _, ⟨rfl, hword⟩, name, _, ⟨rfl, hname⟩, l, mid, ⟨rfl, hl⟩, parameters, _, hps,
      b, mid', ⟨rfl, hb⟩, body, rest, hbody, rfl, rfl⟩

theorem conditional_eq_ok_iff :
    conditional below ts = .ok e rest ↔ ∃ word l mid condition r mid' thenBranch mid'',
      ts = word :: l :: mid ∧ word.kind = .ifWord ∧ l.kind = .leftParen ∧
      below (.expression .lowest) mid = .ok condition (r :: mid') ∧ r.kind = .rightParen ∧
      below .statement mid' = .ok thenBranch mid'' ∧
      ((¬ StartsWith .elseWord mid'' ∧ rest = mid'' ∧ e = .conditional condition thenBranch none) ∨
        ∃ word' us elseBranch, mid'' = word' :: us ∧ word'.kind = .elseWord ∧
          below .statement us = .ok elseBranch rest ∧
          e = .conditional condition thenBranch (some elseBranch)) := by
  simp only [conditional, wholeExpression, bind_eq_ok_iff, expect_eq_ok_iff]
  constructor
  · rintro ⟨word, _, ⟨rfl, hword⟩, l, mid, ⟨rfl, hl⟩, condition, _, hc, r, mid', ⟨rfl, hr⟩,
      thenBranch, mid'', ht, hasElse, us, helse, h⟩
    refine ⟨word, l, mid, condition, r, mid', thenBranch, mid'', rfl, hword, hl, hc, hr, ht, ?_⟩
    cases hasElse with
    | false =>
      obtain ⟨rfl, hno⟩ := accept_false_iff.mp helse
      simp only [Bool.false_eq_true, ↓reduceIte, bind_eq_ok_iff, pure_eq_ok_iff] at h
      obtain ⟨_, _, ⟨rfl, rfl⟩, rfl, rfl⟩ := h
      exact .inl ⟨hno, rfl, rfl⟩
    | true =>
      obtain ⟨word', rfl, hk⟩ := accept_true_iff.mp helse
      simp only [↓reduceIte, bind_eq_ok_iff, map_eq_ok_iff, pure_eq_ok_iff] at h
      obtain ⟨_, _, ⟨elseBranch, he, rfl⟩, rfl, rfl⟩ := h
      exact .inr ⟨word', us, elseBranch, rfl, hk, he, rfl⟩
  · rintro ⟨word, l, mid, condition, r, mid', thenBranch, mid'', rfl, hword, hl, hc, hr, ht, h⟩
    refine ⟨word, _, ⟨rfl, hword⟩, l, mid, ⟨rfl, hl⟩, condition, _, hc, r, mid', ⟨rfl, hr⟩,
      thenBranch, mid'', ht, ?_⟩
    rcases h with ⟨hno, rfl, rfl⟩ | ⟨word', us, elseBranch, rfl, hk, he, rfl⟩
    · refine ⟨false, rest, accept_false_iff.mpr ⟨rfl, hno⟩, ?_⟩
      simp only [Bool.false_eq_true, ↓reduceIte, bind_eq_ok_iff, pure_eq_ok_iff]
      exact ⟨none, _, ⟨rfl, rfl⟩, rfl, rfl⟩
    · refine ⟨true, us, accept_true_iff.mpr ⟨word', rfl, hk⟩, ?_⟩
      simp only [↓reduceIte, bind_eq_ok_iff, map_eq_ok_iff, pure_eq_ok_iff]
      exact ⟨some elseBranch, rest, ⟨elseBranch, he, rfl⟩, rfl, rfl⟩

theorem block_eq_ok_iff :
    block below ts = .ok e rest ↔ ∃ b mid statements, ts = b :: mid ∧ b.kind = .leftBrace ∧
      blockBody below mid = .ok statements rest ∧ e = .block statements := by
  simp only [block, bind_eq_ok_iff, expect_eq_ok_iff, pure_eq_ok_iff]
  constructor
  · rintro ⟨b, mid, ⟨rfl, hb⟩, statements, _, h, rfl, rfl⟩
    exact ⟨b, mid, statements, rfl, hb, h, rfl⟩
  · rintro ⟨b, mid, statements, rfl, hb, h, rfl⟩
    exact ⟨b, mid, ⟨rfl, hb⟩, statements, rest, h, rfl, rfl⟩

end Form

/-! ## Levels -/

/-- Nothing ahead extends an expression whose operators bind tighter than the power. -/
def Stops (tables : Tables) (above : Power) (ts : List Token) : Prop :=
  ∀ t ∈ ts.head?, ∀ o ∈ tables.operators t.kind, o.power ≤ above

namespace Tables

variable {tables : Tables}

/-- A table is looked up by the kind of the next token. -/
theorem lookup_bind_apply {β : Type} {entries : Kind → Option α} {f : Option α → Rule β} :
    (lookup entries >>= f) ts = f (ts.head?.bind fun t => entries t.kind) ts := by
  cases ts <;> rfl

theorem extend_none_iff {above : Power} {left : Tree} :
    tables.extend below above left ts = .ok none rest ↔ rest = ts ∧ Stops tables above ts := by
  rw [extend, lookup_bind_apply]
  cases ts with
  | nil => simp [Stops, eq_comm]
  | cons t us =>
    simp only [List.head?_cons, Option.bind_some, Stops, Option.mem_def, Option.some.injEq,
      forall_eq']
    cases tables.operators t.kind with
    | none => simp [eq_comm]
    | some o =>
      by_cases hle : o.power ≤ above
      · simp [hle, eq_comm]
      · simp [hle, map_eq_ok_iff]

theorem extend_some_iff {above : Power} {left : Tree} :
    tables.extend below above left ts = .ok (some e) rest ↔ ∃ t us o, ts = t :: us ∧
      tables.operators t.kind = some o ∧ above < o.power ∧
      o.extension.rule below left o.power ts = .ok e rest := by
  rw [extend, lookup_bind_apply]
  cases ts with
  | nil => simp
  | cons t us =>
    simp only [List.head?_cons, Option.bind_some]
    constructor
    · intro h
      cases ho : tables.operators t.kind with
      | none =>
        rw [ho] at h
        cases h
      | some o =>
        simp only [ho] at h
        split at h
        · cases h
        · rename_i hnle
          obtain ⟨a, ha, hae⟩ := map_eq_ok_iff.mp h
          cases hae
          exact ⟨t, us, o, rfl, ho, Nat.lt_of_not_le hnle, ha⟩
    · rintro ⟨_, _, o, ⟨rfl, rfl⟩, ho, hlt, he⟩
      have hnle : ¬ o.power ≤ above := Nat.not_le_of_lt hlt
      simp only [ho, hnle, ↓reduceIte]
      exact map_eq_ok_iff.mpr ⟨e, he, rfl⟩

theorem expression_eq_ok_iff {above : Power} :
    tables.expression below above ts = .ok e rest ↔ ∃ t us handler left mid, ts = t :: us ∧
      tables.expressions t.kind = some handler ∧ handler.rule below ts = .ok left mid ∧
      chain (tables.extend below above) left mid = .ok e rest := by
  rw [expression, lookup_bind_apply]
  cases ts with
  | nil => simp [Rule.fail]
  | cons t us =>
    simp only [List.head?_cons, Option.bind_some]
    constructor
    · intro h
      cases hh : tables.expressions t.kind with
      | none =>
        rw [hh] at h
        cases h
      | some handler =>
        rw [hh] at h
        obtain ⟨left, mid, hleft, hchain⟩ := bind_eq_ok_iff.mp h
        exact ⟨t, us, handler, left, mid, rfl, hh, hleft, hchain⟩
    · rintro ⟨_, _, handler, left, mid, ⟨rfl, rfl⟩, hh, hleft, hchain⟩
      rw [hh]
      exact bind_eq_ok_iff.mpr ⟨left, mid, hleft, hchain⟩

/-- What starts an expression stands before the chain of operators. -/
theorem expression_eq_of_start {above : Power} {t : Token} {us mid : List Token}
    {left : Tree} (handler : Handler) (hk : tables.expressions t.kind = some handler)
    (hleft : handler.rule below (t :: us) = .ok left mid) :
    tables.expression below above (t :: us) = chain (tables.extend below above) left mid := by
  rw [expression, lookup_bind_apply, List.head?_cons, Option.bind_some, hk]
  show (handler.rule below >>= _) (t :: us) = _
  rw [bind_apply, hleft]

/-- A token that announces a declaration is read by its form. -/
theorem level_declaration_of_some {t : Token} {us : List Token} {handler : Handler}
    (h : tables.declarations t.kind = some handler) :
    tables.level below .declaration (t :: us) = handler.rule below (t :: us) := by
  rw [level, lookup_bind_apply, List.head?_cons, Option.bind_some, h]

/-- Any other token starts a statement. -/
theorem level_declaration_of_none (h : ∀ t ∈ ts.head?, tables.declarations t.kind = none) :
    tables.level below .declaration ts = below .statement ts := by
  rw [level, lookup_bind_apply]
  cases ts with
  | nil => rfl
  | cons t us => rw [List.head?_cons, Option.bind_some, h t rfl]

/-- A token that announces a statement is read by its form. -/
theorem level_statement_of_some {t : Token} {us : List Token} {handler : Handler}
    (h : tables.statements t.kind = some handler) :
    tables.level below .statement (t :: us) = handler.rule below (t :: us) := by
  rw [level, lookup_bind_apply, List.head?_cons, Option.bind_some, h]

/-- Any other token starts an expression on a line of its own. -/
theorem level_statement_of_none (h : ∀ t ∈ ts.head?, tables.statements t.kind = none) :
    tables.level below .statement ts = Form.expressionStatement below ts := by
  rw [level, lookup_bind_apply]
  cases ts with
  | nil => rfl
  | cons t us => rw [List.head?_cons, Option.bind_some, h t rfl]

end Tables

end Scriptlet
