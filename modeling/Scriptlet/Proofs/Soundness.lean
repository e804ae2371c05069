import Scriptlet.Proofs.Cursors
import Scriptlet.Proofs.Forms
import Scriptlet.Proofs.Grammatical
import Scriptlet.Proofs.Written

/-!
# Soundness of reading

What is read is there: when a part is read, the tokens taken are a written form of its tree, every
token that the tree keeps is the one at its place, and the tree is one of the language and nests no
deeper than the levels left. One level is sound if what lies below it is (`sound_level`), and so
reading is (`sound_read`).
-/

namespace Scriptlet

open Rule Form

/-! ## The tables of the language -/

namespace Tables

theorem standard_expressions_cases {k : Kind} {h : Handler} (hk : standard.expressions k = some h) :
    (k = .identifier ∨ k = .integer ∨ k = .floating ∨ k = .text) ∧ h = .primary ∨
      k = .minus ∧ h = .unary ∨ k = .leftParen ∧ h = .group := by
  cases k <;> cases hk <;> simp

theorem standard_operators_cases {k : Kind} {o : Operator} (hk : standard.operators k = some o) :
    k.binaryPower? = some o.power ∧ o.extension = .binary ∨
      k = .leftParen ∧ o = ⟨.call, .call⟩ := by
  cases k <;> cases hk <;> simp [Kind.binaryPower?, standard]

theorem standard_declarations_cases {k : Kind} {h : Handler}
    (hk : standard.declarations k = some h) :
    (k = .letWord ∨ k = .varWord) ∧ h = .declare ∨ k = .funWord ∧ h = .function := by
  cases k <;> cases hk <;> simp

theorem standard_statements_cases {k : Kind} {h : Handler}
    (hk : standard.statements k = some h) :
    k = .ifWord ∧ h = .conditional ∨ k = .leftBrace ∧ h = .block := by
  cases k <;> cases hk <;> simp

/-- No operator binds tighter than a call. -/
theorem stops_of_call_le {p : Power} (hp : .call ≤ p) (ts : List Token) :
    Stops standard p ts := by
  intro t _ o ho
  rcases standard_operators_cases ho with ⟨hpower, -⟩ | ⟨-, rfl⟩
  · have hlt := (Kind.binaryPower?_bounds hpower).2
    exact Nat.le_trans (Nat.le_of_lt hlt) (Nat.le_trans (by decide) hp)
  · exact hp

theorem stops_of_primary {e : Tree} (h : e.tightness = .primary) (ts : List Token) :
    Stops standard e.tightness ts := by
  rw [h]
  exact stops_of_call_le (by decide) ts

end Tables

/-! ## What a sound level gives -/

/-- What is read of a declaration or of a statement: its lines are there, it is a tree of its sort,
no `else` that would belong to it follows, and it nests within the levels. -/
structure ReadLines (IsPart : Tree → Prop) (levels : Nat) (ts : List Token) (e : Tree)
    (rest : List Token) : Prop where
  spells : SpellsTo e.lines ts rest
  isPart : IsPart e
  closed : e.endsOpen → ¬ StartsWith .elseWord rest
  levels_le : e.levels ≤ levels

/-- Everything that is read with so many levels left is there, and is a tree of the language. -/
structure Sound (levels : Nat) (below : Goal → Rule Tree) : Prop where
  consumes (goal : Goal) : Consumes (below goal)
  expression {above : Power} {ts rest : List Token} {e : Tree} :
    below (.expression above) ts = .ok e rest →
      SpellsTo e.written ts rest ∧ e.IsExpression ∧ e.Fits above ∧
        Stops .standard above rest ∧ e.inside < levels
  statement {ts rest : List Token} {e : Tree} :
    below .statement ts = .ok e rest → ReadLines Tree.IsStatement (levels + 1) ts e rest
  declaration {ts rest : List Token} {e : Tree} :
    below .declaration ts = .ok e rest → ReadLines Tree.IsDeclaration levels ts e rest

/-- The line ends that are skipped are those that the mark asks for. -/
theorem SpellsTo.of_afterLineEnds {ms : List Mark} {ts rest : List Token}
    (h : SpellsTo ms (afterLineEnds ts) rest) : SpellsTo (.lineEnds :: ms) ts rest := by
  refine SpellsTo.lineEnds_iff.mpr ⟨_, _, List.takeWhile_append_dropWhile.symm, ?_, h⟩
  intro t ht
  simpa using List.all_eq_true.mp List.all_takeWhile t ht

namespace Sound

variable {levels : Nat} {below : Goal → Rule Tree} (hb : Sound levels below)
  {ts rest : List Token} {e : Tree}

/-! ## Lists -/

theorem laterItems {α : Type} {item : Rule α} (form : α → List Mark) (P : α → Prop)
    (ht : Takes item)
    (hitem : ∀ ts a rest, item ts = .ok a rest → SpellsTo (form a) ts rest ∧ P a)
    {closing : Complaint} {as : List α} (h : laterItems item closing ts = .ok as rest) :
    SpellsTo (Mark.laterItems (as.map form)) ts rest ∧ ∀ a ∈ as, P a := by
  induction as generalizing ts with
  | nil =>
    obtain ⟨t, rfl, hk⟩ := (laterItems_nil_iff ht).mp h
    refine ⟨?_, by simp⟩
    rw [List.map_nil, Mark.laterItems, SpellsTo.any_iff]
    exact ⟨t, rest, rfl, hk, SpellsTo.nil_iff.mpr rfl⟩
  | cons a as ih =>
    obtain ⟨c, us, mid, rfl, hc, ha, has⟩ := (laterItems_cons_iff ht).mp h
    obtain ⟨hspell, hP⟩ := hitem _ _ _ ha
    obtain ⟨hspells, hPs⟩ := ih has
    refine ⟨?_, List.forall_mem_cons.mpr ⟨hP, hPs⟩⟩
    rw [List.map_cons, Mark.laterItems, List.cons_append, SpellsTo.any_iff]
    exact ⟨c, us, rfl, hc, SpellsTo.append_iff.mpr ⟨mid, hspell, hspells⟩⟩

theorem closedList {α : Type} {item : Rule α} (form : α → List Mark) (P : α → Prop)
    (ht : Takes item)
    (hitem : ∀ ts a rest, item ts = .ok a rest → SpellsTo (form a) ts rest ∧ P a)
    {closing : Complaint} {as : List α} (h : closedList item closing ts = .ok as rest) :
    SpellsTo (Mark.items (as.map form)) ts rest ∧ ∀ a ∈ as, P a := by
  cases as with
  | nil =>
    obtain ⟨t, rfl, hk⟩ := closedList_nil_iff.mp h
    refine ⟨?_, by simp⟩
    rw [List.map_nil, Mark.items, SpellsTo.any_iff]
    exact ⟨t, rest, rfl, hk, SpellsTo.nil_iff.mpr rfl⟩
  | cons a as =>
    obtain ⟨-, mid, ha, has⟩ := closedList_cons_iff.mp h
    obtain ⟨hspell, hP⟩ := hitem _ _ _ ha
    obtain ⟨hspells, hPs⟩ := laterItems form P ht hitem has
    refine ⟨?_, List.forall_mem_cons.mpr ⟨hP, hPs⟩⟩
    rw [List.map_cons, Mark.items]
    exact SpellsTo.append_iff.mpr ⟨mid, hspell, hspells⟩

include hb

theorem blockBody {statements : List Tree} (h : blockBody below ts = .ok statements rest) :
    SpellsTo (Tree.braced statements) ts rest ∧
      ∀ s ∈ statements, s.IsDeclaration ∧ s.levels ≤ levels := by
  induction statements generalizing ts with
  | nil =>
    obtain ⟨b, hts, hk⟩ := (blockBody_nil_iff (hb.consumes _).takes).mp h
    refine ⟨.of_afterLineEnds ?_, by simp⟩
    rw [hts, SpellsTo.any_iff]
    exact ⟨b, rest, rfl, hk, SpellsTo.nil_iff.mpr rfl⟩
  | cons s statements ih =>
    obtain ⟨t, us, mid, hts, -, hs, hrest⟩ := (blockBody_cons_iff (hb.consumes _).takes).mp h
    obtain ⟨hspell, hdecl, -, hlevels⟩ := hb.declaration hs
    obtain ⟨hspells, hall⟩ := ih hrest
    refine ⟨.of_afterLineEnds ?_, List.forall_mem_cons.mpr ⟨⟨hdecl, hlevels⟩, hall⟩⟩
    rw [hts]
    exact SpellsTo.append_iff.mpr ⟨mid, hspell, hspells⟩

/-! ## Expressions -/

/-- What holds of an expression and the tokens after it at every point of the chain of operators:
nothing ahead could have been taken into its right end. -/
structure Chained (levels : Nat) (above : Power) (ts : List Token) (e : Tree) (rest : List Token) :
    Prop where
  spells : SpellsTo e.written ts rest
  isExpression : e.IsExpression
  fits : e.Fits above
  stops : Stops .standard e.tightness rest
  inside_le : e.inside ≤ levels

theorem chained_start {above : Power} {t : Token} {us : List Token} {handler : Handler}
    (hk : Tables.standard.expressions t.kind = some handler)
    (h : handler.rule below (t :: us) = .ok e rest) : Chained levels above (t :: us) e rest := by
  rcases Tables.standard_expressions_cases hk with ⟨-, rfl⟩ | ⟨hminus, rfl⟩ | ⟨-, rfl⟩
  · obtain ⟨t', hts, ⟨hkind, rfl⟩ | ⟨hkind, rfl⟩⟩ := primary_eq_ok_iff.mp h
    · exact {
        spells := SpellsTo.this_iff.mpr ⟨rest, hts, SpellsTo.nil_iff.mpr rfl⟩
        isExpression := .reference hkind
        fits := Tree.fits_of_primary rfl above
        stops := Tables.stops_of_primary rfl rest
        inside_le := Nat.zero_le _ }
    · exact {
        spells := SpellsTo.this_iff.mpr ⟨rest, hts, SpellsTo.nil_iff.mpr rfl⟩
        isExpression := .literal hkind
        fits := Tree.fits_of_primary rfl above
        stops := Tables.stops_of_primary rfl rest
        inside_le := Nat.zero_le _ }
  · obtain ⟨o, mid, operand, hts, hoperand, rfl⟩ := unary_eq_ok_iff.mp h
    obtain ⟨rfl, rfl⟩ := List.cons.inj hts
    obtain ⟨hspell, hexp, hfits, hstops, hinside⟩ := hb.expression hoperand
    exact {
      spells := SpellsTo.this_iff.mpr ⟨us, rfl, hspell⟩
      isExpression := .unary hminus hexp (hfits.le (Nat.le_refl _))
      fits := .inr (Nat.le_refl _)
      stops := hstops
      inside_le := hinside }
  · obtain ⟨l, mid, inner, r, hts, hl, hinner, hr, rfl⟩ := group_eq_ok_iff.mp h
    obtain ⟨hspell, hexp, -, -, hinside⟩ := hb.expression hinner
    refine {
      spells := ?_
      isExpression := .group hexp
      fits := Tree.fits_of_primary rfl above
      stops := Tables.stops_of_primary rfl rest
      inside_le := hinside }
    refine SpellsTo.any_iff.mpr ⟨l, mid, hts, hl, SpellsTo.append_iff.mpr ⟨_, hspell, ?_⟩⟩
    exact SpellsTo.any_iff.mpr ⟨r, rest, rfl, hr, SpellsTo.nil_iff.mpr rfl⟩

theorem chained_extend {above : Power} {left : Tree} {mid : List Token}
    (hleft : Chained levels above ts left mid)
    (h : Tables.standard.extend below above left mid = .ok (some e) rest) :
    Chained levels above ts e rest := by
  obtain ⟨t, us, o, rfl, ho, hlt, he⟩ := Tables.extend_some_iff.mp h
  -- Had the operator bound tighter than the top of what is read, it would have been taken into it.
  have hle : o.power ≤ left.tightness := hleft.stops t rfl o ho
  rcases Tables.standard_operators_cases ho with ⟨hpower, hbinary⟩ | ⟨hk, rfl⟩
  · rw [hbinary] at he
    obtain ⟨t', mid, right, hts, hright, rfl⟩ := binary_eq_ok_iff.mp he
    obtain ⟨rfl, rfl⟩ := List.cons.inj hts
    obtain ⟨hspell, hexp, hfits, hstops, hinside⟩ := hb.expression hright
    have hbounds := Kind.binaryPower?_bounds hpower
    have htight : (Tree.binary left t right).tightness = o.power := by
      rw [Tree.tightness, hpower, Option.getD_some]
    exact {
      spells := SpellsTo.append_iff.mpr ⟨_, hleft.spells, SpellsTo.this_iff.mpr ⟨us, rfl, hspell⟩⟩
      isExpression := .binary hpower hleft.isExpression hle hexp (hfits.lt hbounds.2)
      fits := .inl (htight ▸ hlt)
      stops := htight ▸ hstops
      inside_le := Nat.max_le.mpr ⟨hleft.inside_le, hinside⟩ }
  · obtain ⟨l, mid, arguments, hts, hl, hargs, rfl⟩ := call_eq_ok_iff.mp he
    obtain ⟨hspell, hall⟩ := closedList Tree.written
      (fun a => a.IsExpression ∧ a.inside < levels) (hb.consumes _).takes
      (fun ts a rest ha => by
        obtain ⟨hspell, hexp, -, -, hinside⟩ := hb.expression ha
        exact ⟨hspell, hexp, hinside⟩) hargs
    refine {
      spells := SpellsTo.append_iff.mpr ⟨_, hleft.spells, ?_⟩
      isExpression := .call hleft.isExpression hle fun a ha => (hall a ha).1
      fits := .inl hlt
      stops := Tables.stops_of_call_le (Nat.le_refl _) rest
      inside_le := Nat.max_le.mpr ⟨hleft.inside_le, ?_⟩ }
    · rw [SpellsTo.any_iff, Tree.writtens_eq_map]
      exact ⟨l, mid, hts, hl, hspell⟩
    · exact Tree.deepestArgument_le_iff.mpr fun a ha => (hall a ha).2

/-- What the chain of operators leaves is not a further operator for it. -/
theorem chained_chain {above : Power} {left : Tree} {mid : List Token}
    (hleft : Chained levels above ts left mid)
    (h : chain (Tables.standard.extend below above) left mid = .ok e rest) :
    Chained levels above ts e rest ∧ Stops .standard above rest := by
  have htakes := Tables.standard.takesSome_extend hb.consumes above
  -- The induction is on the tokens left, of which every link takes one; `Chained` is the invariant.
  induction hn : mid.length using Nat.strongRecOn generalizing left mid with
  | ind n ih =>
    subst hn
    rcases (chain_eq_ok_iff htakes).mp h with ⟨hnone, rfl⟩ | ⟨left', mid', hsome, hchain⟩
    · obtain ⟨rfl, hstops⟩ := Tables.extend_none_iff.mp hnone
      exact ⟨hleft, hstops⟩
    · exact ih _ (htakes left _ _ _ hsome) (hb.chained_extend hleft hsome) hchain rfl

theorem expression_level {above : Power}
    (h : Tables.standard.expression below above ts = .ok e rest) :
    Chained levels above ts e rest ∧ Stops .standard above rest := by
  obtain ⟨t, us, handler, left, mid, rfl, hk, hleft, hchain⟩ := Tables.expression_eq_ok_iff.mp h
  exact hb.chained_chain (hb.chained_start hk hleft) hchain

/-! ## Statements -/

theorem expressionStatement (h : Form.expressionStatement below ts = .ok e rest) :
    ReadLines Tree.IsStatement (levels + 2) ts e rest := by
  obtain ⟨e', l, he, hl, rfl⟩ := expressionStatement_eq_ok_iff.mp h
  obtain ⟨hspell, hexp, -, -, hinside⟩ := hb.expression he
  have hline : SpellsTo [.any .lineEnd] (l :: rest) rest :=
    SpellsTo.any_iff.mpr ⟨l, rest, rfl, hl, SpellsTo.nil_iff.mpr rfl⟩
  cases hassign : e'.isAssignment with
  | false =>
    rw [ofExpression_eq_self hassign]
    refine ⟨?_, .expression hexp hassign, by simp [hexp.endsOpen], ?_⟩
    · rw [Tree.lines, hexp.ending]
      exact SpellsTo.append_iff.mpr ⟨_, hspell, hline⟩
    · rw [Tree.levels, hexp.entry]
      omega
  | true =>
    obtain ⟨name, operator, value, rfl, hk⟩ := Tree.isAssignment_iff.mp hassign
    rw [ofExpression_assignment hk]
    -- The sign is no longer kept, and the value stands where the right operand did.
    cases hexp with
    | @binary _ _ _ power hpower href _ hvalue hlt =>
      have hname : name.kind = .identifier := by
        cases href
        assumption
      have hequality : power = .equality := by
        rw [hk, Kind.binaryPower?, Option.some.injEq] at hpower
        exact hpower.symm
      subst hequality
      refine ⟨?_, .assign hname hvalue hlt, by simp [Tree.endsOpen], ?_⟩
      · obtain ⟨us, hts, hrest⟩ := SpellsTo.this_iff.mp hspell
        obtain ⟨vs, rfl, hspell⟩ := SpellsTo.this_iff.mp hrest
        refine SpellsTo.this_iff.mpr ⟨_, hts, SpellsTo.any_iff.mpr ⟨operator, vs, rfl, hk, ?_⟩⟩
        exact SpellsTo.append_iff.mpr ⟨_, hspell, hline⟩
      · rw [Tree.inside, Tree.inside] at hinside
        rw [Tree.levels, Tree.entry, Tree.inside]
        omega

theorem conditional (h : Form.conditional below ts = .ok e rest) :
    ReadLines Tree.IsStatement (levels + 2) ts e rest := by
  obtain ⟨word, l, mid, condition, r, mid', thenBranch, mid'', rfl, hword, hl, hc, hr, ht, h⟩ :=
    conditional_eq_ok_iff.mp h
  obtain ⟨hcspell, hcexp, -, -, hcinside⟩ := hb.expression hc
  obtain ⟨htspell, htstmt, htopen, htlevels⟩ := hb.statement ht
  rw [Tree.levels] at htlevels
  -- What the two forms of a choice share.
  have hhead {ms : List Mark} (hms : SpellsTo ms mid'' rest) :
      SpellsTo (.any .ifWord :: .any .leftParen ::
        (condition.written ++ .any .rightParen :: (thenBranch.lines ++ ms)))
        (word :: l :: mid) rest := by
    refine SpellsTo.any_iff.mpr ⟨_, _, rfl, hword, SpellsTo.any_iff.mpr ⟨_, _, rfl, hl, ?_⟩⟩
    refine SpellsTo.append_iff.mpr ⟨_, hcspell, SpellsTo.any_iff.mpr ⟨_, _, rfl, hr, ?_⟩⟩
    exact SpellsTo.append_iff.mpr ⟨_, htspell, hms⟩
  rcases h with ⟨hno, rfl, rfl⟩ | ⟨word', us, elseBranch, rfl, hword', he, rfl⟩
  · refine ⟨?_, .choice hcexp htstmt, fun _ => hno, ?_⟩
    · have hspell := hhead (SpellsTo.nil_iff.mpr rfl)
      simpa only [Tree.lines, Tree.written, Tree.ending, List.append_nil] using hspell
    · rw [Tree.levels, Tree.entry, Tree.inside]
      omega
  · obtain ⟨hespell, hestmt, heopen, helevels⟩ := hb.statement he
    rw [Tree.levels] at helevels
    -- An `else` that follows an open branch is read as part of the branch.
    have hclosed : thenBranch.endsOpen = false := by
      cases hopen : thenBranch.endsOpen with
      | false => rfl
      | true => exact absurd (startsWith_cons.mpr hword') (htopen hopen)
    refine ⟨?_, .choiceElse hcexp htstmt hclosed hestmt, heopen, ?_⟩
    · have hspell := hhead (SpellsTo.any_iff.mpr ⟨word', us, rfl, hword', hespell⟩)
      simpa only [Tree.lines, Tree.written, Tree.ending, List.append_nil] using hspell
    · rw [Tree.levels, Tree.entry, Tree.inside]
      omega

theorem block (h : Form.block below ts = .ok e rest) :
    ReadLines Tree.IsStatement (levels + 2) ts e rest := by
  obtain ⟨b, mid, statements, rfl, hk, hbody, rfl⟩ := block_eq_ok_iff.mp h
  obtain ⟨hspell, hall⟩ := hb.blockBody hbody
  refine ⟨?_, .block fun s hs => (hall s hs).1, by simp [Tree.endsOpen], ?_⟩
  · rw [Tree.lines, Tree.written, Tree.ending, List.append_nil]
    exact SpellsTo.any_iff.mpr ⟨b, mid, rfl, hk, hspell⟩
  · have hdeepest := Tree.deepest_le_iff.mpr fun s hs => (hall s hs).2
    rw [Tree.levels, Tree.entry, Tree.inside]
    omega

theorem statement_level (h : Tables.standard.level below .statement ts = .ok e rest) :
    ReadLines Tree.IsStatement (levels + 2) ts e rest := by
  cases hk : ts.head?.bind fun t => Tables.standard.statements t.kind with
  | none =>
    rw [Tables.level_statement_of_none (fun t ht => by simpa [Option.mem_def.mp ht] using hk)] at h
    exact hb.expressionStatement h
  | some handler =>
    obtain ⟨t, ht, hk⟩ := Option.bind_eq_some_iff.mp hk
    obtain ⟨us, rfl⟩ := List.head?_eq_some_iff.mp ht
    rw [Tables.level_statement_of_some hk] at h
    rcases Tables.standard_statements_cases hk with ⟨-, rfl⟩ | ⟨-, rfl⟩
    · exact hb.conditional h
    · exact hb.block h

/-! ## Declarations -/

theorem declare {word : Token} {us : List Token}
    (hword : word.kind = .letWord ∨ word.kind = .varWord)
    (h : Form.declare below (word :: us) = .ok e rest) :
    ReadLines Tree.IsDeclaration (levels + 1) (word :: us) e rest := by
  obtain ⟨word', name, mid, hts, hname, hvalue?⟩ := declare_eq_ok_iff.mp h
  obtain ⟨rfl, rfl⟩ := List.cons.inj hts
  have hkind : word.kind = Tree.declareKind (word.kind = .varWord) := by
    rcases hword with hk | hk <;> simp [hk, Tree.declareKind]
  have hhead {ms : List Mark} (hms : SpellsTo ms mid rest) :
      SpellsTo (.any (Tree.declareKind (word.kind = .varWord)) :: .this name :: ms)
        (word :: name :: mid) rest :=
    SpellsTo.any_iff.mpr ⟨_, _, rfl, hkind, SpellsTo.this_iff.mpr ⟨mid, rfl, hms⟩⟩
  rcases hvalue? with ⟨l, rfl, hl, rfl⟩ | ⟨sign, vs, value, l, rfl, hsign, hvalue, hl, rfl⟩
  · refine ⟨?_, .declare hname, by simp [Tree.endsOpen], ?_⟩
    · exact hhead (SpellsTo.any_iff.mpr ⟨l, rest, rfl, hl, SpellsTo.nil_iff.mpr rfl⟩)
    · rw [Tree.levels, Tree.entry, Tree.inside]
      omega
  · obtain ⟨hspell, hexp, -, -, hinside⟩ := hb.expression hvalue
    refine ⟨?_, .declareValue hname hexp, by simp [Tree.endsOpen], ?_⟩
    · refine hhead (SpellsTo.any_iff.mpr ⟨sign, vs, rfl, hsign, ?_⟩)
      refine SpellsTo.append_iff.mpr ⟨_, hspell, ?_⟩
      exact SpellsTo.any_iff.mpr ⟨l, rest, rfl, hl, SpellsTo.nil_iff.mpr rfl⟩
    · rw [Tree.levels, Tree.entry, Tree.inside]
      omega

theorem function (h : Form.function below ts = .ok e rest) :
    ReadLines Tree.IsDeclaration (levels + 1) ts e rest := by
  obtain ⟨word, name, l, mid, parameters, b, mid', body, rfl, hword, hname, hl, hps, hk, hbody,
    rfl⟩ := function_eq_ok_iff.mp h
  obtain ⟨hpspell, hpall⟩ := closedList (fun p => [.this p])
    (fun p => p.kind = .identifier) (takes_expect _ _)
    (fun ts p rest hp => by
      obtain ⟨rfl, hk⟩ := expect_eq_ok_iff.mp hp
      exact ⟨SpellsTo.this_iff.mpr ⟨rest, rfl, SpellsTo.nil_iff.mpr rfl⟩, hk⟩) hps
  obtain ⟨hspell, hall⟩ := hb.blockBody hbody
  refine ⟨?_, .function hname hpall fun s hs => (hall s hs).1, by simp [Tree.endsOpen], ?_⟩
  · rw [Tree.lines, Tree.written, Tree.ending, List.append_nil]
    refine SpellsTo.any_iff.mpr ⟨word, _, rfl, hword, SpellsTo.this_iff.mpr ⟨_, rfl, ?_⟩⟩
    refine SpellsTo.any_iff.mpr ⟨l, mid, rfl, hl, SpellsTo.append_iff.mpr ⟨_, hpspell, ?_⟩⟩
    exact SpellsTo.any_iff.mpr ⟨b, mid', rfl, hk, hspell⟩
  · have hdeepest := Tree.deepest_le_iff.mpr fun s hs => (hall s hs).2
    rw [Tree.levels, Tree.entry, Tree.inside]
    omega

theorem declaration_level (h : Tables.standard.level below .declaration ts = .ok e rest) :
    ReadLines Tree.IsDeclaration (levels + 1) ts e rest := by
  cases hk : ts.head?.bind fun t => Tables.standard.declarations t.kind with
  | none =>
    rw [Tables.level_declaration_of_none
      (fun t ht => by simpa [Option.mem_def.mp ht] using hk)] at h
    obtain ⟨hspell, hstmt, hopen, hlevels⟩ := hb.statement h
    exact ⟨hspell, .statement hstmt, hopen, hlevels⟩
  | some handler =>
    obtain ⟨t, ht, hk⟩ := Option.bind_eq_some_iff.mp hk
    obtain ⟨us, rfl⟩ := List.head?_eq_some_iff.mp ht
    rw [Tables.level_declaration_of_some hk] at h
    rcases Tables.standard_declarations_cases hk with ⟨hword, rfl⟩ | ⟨-, rfl⟩
    · exact hb.declare hword h
    · exact hb.function h

end Sound

/-! ## Levels -/

/-- A level is sound if what lies below it is. -/
theorem sound_level {levels : Nat} {below : Goal → Rule Tree} (hb : Sound levels below) :
    Sound (levels + 1) (Tables.standard.level below) where
  consumes := Tables.standard.consuming_level hb.consumes
  expression h := by
    obtain ⟨hchained, hstops⟩ := hb.expression_level h
    exact ⟨hchained.spells, hchained.isExpression, hchained.fits, hstops,
      Nat.lt_succ_of_le hchained.inside_le⟩
  statement h := hb.statement_level h
  declaration h := hb.declaration_level h

/-- Whatever the number of levels, what is read is there. -/
theorem sound_read (levels : Nat) : Sound levels (Tables.standard.read levels) := by
  induction levels with
  | zero =>
    exact {
      consumes := Tables.standard.consumes_read 0
      expression := fun h => nomatch h
      statement := fun h => nomatch h
      declaration := fun h => nomatch h }
  | succ levels ih => exact sound_level ih

/-! ## Declarations read from a cursor -/

namespace Cursor

/-- A declaration that a cursor has read is there, wherever the cursor stood and whatever comes
before and after: the tokens between the two places of the cursor are its written form, and it is a
declaration of the language within the nesting limit. -/
theorem handle_declaration_sound {ts : List Token} {p : Nat} {e : Tree} {c : Cursor}
    (h : Cursor.handle ⟨ts, p, .standard, 0⟩ .declaration = (.ok e, c)) :
    ∃ q, c = ⟨ts, q, .standard, 0⟩ ∧ p < q ∧ q ≤ ts.length ∧
      Spells e.lines ((ts.drop p).take (q - p)) ∧
      e.IsDeclaration ∧ (e.endsOpen → ¬ StartsWith .elseWord (ts.drop q)) ∧
      e.levels ≤ nestingLimit := by
  obtain ⟨rest, hread, rfl⟩ := run_eq_ok_iff.mp h
  change Tables.standard.read nestingLimit .declaration (ts.drop p) = .ok e rest at hread
  obtain ⟨⟨read, hts, hspell⟩, hdecl, hopen, hlevels⟩ := (sound_read nestingLimit).declaration hread
  have hlt := Tables.standard.takes_read _ _ _ _ _ hread
  have hlength := congrArg List.length hts
  rw [List.length_append] at hlength
  rw [List.length_drop] at hlt hlength
  have hq : ts.length - rest.length = p + read.length := by omega
  -- The cursor has moved by as many places as tokens were read.
  have htaken : (ts.drop p).take (ts.length - rest.length - p) = read := by
    rw [hts, hq, Nat.add_sub_cancel_left, List.take_left]
  have hleft : ts.drop (ts.length - rest.length) = rest := by
    rw [hq, ← List.drop_drop, hts, List.drop_left]
  refine ⟨ts.length - rest.length, rfl, by omega, by omega, ?_, hdecl, ?_, hlevels⟩
  · rw [htaken]
    exact hspell
  · rw [hleft]
    exact hopen

/-- After a line end `{ f ( x , - 1 ) * x + 1 }`, with empty lines inside of the braces, and a token
that cannot be read. -/
theorem handle_declaration_sound_block :
    let t (k : Kind) (line column : UInt32) : Token := .bare k ⟨line, column⟩
    let name (s : String) (column : UInt32) : Token := ⟨.identifier, .name s, ⟨3, column⟩⟩
    let one (column : UInt32) : Token := ⟨.integer, .integer 1, ⟨3, column⟩⟩
    let ts := [t .lineEnd 0 0, t .leftBrace 1 0, t .lineEnd 1 1, t .lineEnd 2 0, name "f" 2,
      t .leftParen 3 3, name "x" 4, t .comma 3 5, t .minus 3 6, one 7, t .rightParen 3 8,
      t .times 3 9, name "x" 10, t .plus 3 11, one 12, t .lineEnd 3 13, t .lineEnd 4 0,
      t .rightBrace 5 0, t .plus 5 1]
    let call : Tree := .call (.reference (name "f" 2))
      [.reference (name "x" 4), .unary (t .minus 3 6) (.literal (one 7))]
    let product : Tree := .binary call (t .times 3 9) (.reference (name "x" 10))
    let e : Tree := .block [.binary product (t .plus 3 11) (.literal (one 12))]
    Cursor.handle ⟨ts, 1, .standard, 0⟩ .declaration = (.ok e, ⟨ts, 18, .standard, 0⟩) ∧
      ∃ q, (⟨ts, 18, .standard, 0⟩ : Cursor) = ⟨ts, q, .standard, 0⟩ ∧ 1 < q ∧ q ≤ ts.length ∧
        Spells e.lines ((ts.drop 1).take (q - 1)) ∧ e.IsDeclaration ∧
        (e.endsOpen → ¬ StartsWith .elseWord (ts.drop q)) ∧ e.levels ≤ nestingLimit := by
  intro t name one ts call product e
  have hread : Cursor.handle ⟨ts, 1, .standard, 0⟩ .declaration =
      (.ok e, ⟨ts, 18, .standard, 0⟩) := rfl
  exact ⟨hread, handle_declaration_sound hread⟩

end Cursor

end Scriptlet
