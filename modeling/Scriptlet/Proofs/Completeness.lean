import Scriptlet.Proofs.Forms
import Scriptlet.Proofs.Grammatical
import Scriptlet.Proofs.Written

/-!
# Completeness of reading

What is written is read: the written form of a tree of the language is read as that tree, with as
many levels as the tree nests and whatever follows that cannot belong to it. One level is complete
if what lies below it is (`complete_level`), and so reading is (`complete_read`).
-/

namespace Scriptlet

open Rule Form

variable {ts rest : List Token} {e : Tree}

/-! ## First tokens -/

theorem Tables.standard_operators_of_binaryPower? {k : Kind} {p : Power}
    (h : k.binaryPower? = some p) : standard.operators k = some ⟨p, .binary⟩ := by
  cases k <;> cases h <;> rfl

theorem Tables.declarations_declareKind {k : Kind} {isMutable : Bool}
    (h : k = Tree.declareKind isMutable) : standard.declarations k = some .declare := by
  subst h
  cases isMutable <;> rfl

theorem Tree.eq_varWord_of_declareKind {k : Kind} {isMutable : Bool}
    (h : k = Tree.declareKind isMutable) : decide (k = .varWord) = isMutable := by
  subst h
  cases isMutable <;> rfl

/-- The kind of the first token of an expression opens nothing else and closes nothing. -/
theorem Tables.standard_of_expressions {k : Kind} {h : Handler}
    (hk : standard.expressions k = some h) :
    standard.declarations k = none ∧ standard.statements k = none ∧
      k ≠ .rightParen ∧ k ≠ .rightBrace ∧ k ≠ .lineEnd ∧ k ≠ .elseWord := by
  cases k <;> cases hk <;> simp [standard]

theorem Tree.IsExpression.starts (h : e.IsExpression) (hts : SpellsTo e.written ts rest) :
    ∃ t us handler, ts = t :: us ∧ Tables.standard.expressions t.kind = some handler := by
  induction h generalizing rest with
  | @literal value hk =>
    obtain ⟨us, rfl, -⟩ := SpellsTo.this_iff.mp hts
    refine ⟨value, us, .primary, rfl, ?_⟩
    rcases hk with hk | hk | hk <;> rw [hk] <;> rfl
  | @reference name hk =>
    obtain ⟨us, rfl, -⟩ := SpellsTo.this_iff.mp hts
    exact ⟨name, us, .primary, rfl, by rw [hk]; rfl⟩
  | group _ _ =>
    obtain ⟨t, us, rfl, hk, -⟩ := SpellsTo.any_iff.mp hts
    exact ⟨t, us, .group, rfl, by rw [hk]; rfl⟩
  | @unary operator _ hk _ _ _ =>
    obtain ⟨us, rfl, -⟩ := SpellsTo.this_iff.mp hts
    exact ⟨operator, us, .unary, rfl, by rw [hk]; rfl⟩
  | binary _ _ _ _ _ ihl _ =>
    obtain ⟨mid, hleft, -⟩ := SpellsTo.append_iff.mp hts
    exact ihl hleft
  | call _ _ _ ihc _ =>
    obtain ⟨mid, hcallee, -⟩ := SpellsTo.append_iff.mp hts
    exact ihc hcallee

/-- A token that no declaration starts with: it ends something, or is skipped before one. -/
def Kind.closes (k : Kind) : Prop := k = .rightBrace ∨ k = .lineEnd ∨ k = .elseWord

theorem Tree.IsStatement.starts (h : e.IsStatement) (hts : SpellsTo e.lines ts rest) :
    ∃ t us, ts = t :: us ∧ Tables.standard.declarations t.kind = none ∧ ¬ t.kind.closes := by
  cases h with
  | expression hexp _ =>
    obtain ⟨mid, hwritten, -⟩ := SpellsTo.append_iff.mp hts
    obtain ⟨t, us, handler, rfl, hk⟩ := hexp.starts hwritten
    obtain ⟨hdecl, -, -, hbrace, hline, helse⟩ := Tables.standard_of_expressions hk
    exact ⟨t, us, rfl, hdecl, by simp [Kind.closes, hbrace, hline, helse]⟩
  | @assign name _ hk _ _ =>
    obtain ⟨us, rfl, -⟩ := SpellsTo.this_iff.mp hts
    exact ⟨name, us, rfl, by rw [hk]; rfl, by simp [Kind.closes, hk]⟩
  | choice _ _ =>
    obtain ⟨t, us, rfl, hk, -⟩ := SpellsTo.any_iff.mp hts
    exact ⟨t, us, rfl, by rw [hk]; rfl, by simp [Kind.closes, hk]⟩
  | choiceElse _ _ _ _ =>
    obtain ⟨t, us, rfl, hk, -⟩ := SpellsTo.any_iff.mp hts
    exact ⟨t, us, rfl, by rw [hk]; rfl, by simp [Kind.closes, hk]⟩
  | block _ =>
    obtain ⟨t, us, rfl, hk, -⟩ := SpellsTo.any_iff.mp hts
    exact ⟨t, us, rfl, by rw [hk]; rfl, by simp [Kind.closes, hk]⟩

theorem Tree.IsDeclaration.starts (h : e.IsDeclaration) (hts : SpellsTo e.lines ts rest) :
    ∃ t us, ts = t :: us ∧ ¬ t.kind.closes := by
  cases h with
  | statement hstmt =>
    obtain ⟨t, us, rfl, -, hk⟩ := hstmt.starts hts
    exact ⟨t, us, rfl, hk⟩
  | @declare _ isMutable _ =>
    obtain ⟨t, us, rfl, hk, -⟩ := SpellsTo.any_iff.mp hts
    exact ⟨t, us, rfl, by cases isMutable <;> simp [Kind.closes, hk, Tree.declareKind]⟩
  | @declareValue _ _ isMutable _ _ =>
    obtain ⟨t, us, rfl, hk, -⟩ := SpellsTo.any_iff.mp hts
    exact ⟨t, us, rfl, by cases isMutable <;> simp [Kind.closes, hk, Tree.declareKind]⟩
  | function _ _ _ =>
    obtain ⟨t, us, rfl, hk, -⟩ := SpellsTo.any_iff.mp hts
    exact ⟨t, us, rfl, by simp [Kind.closes, hk]⟩

/-! ## What follows -/

/-- Nothing extends an expression before a token that is no operator. -/
theorem Tables.stops_of_startsWith {k : Kind} (h : StartsWith k ts)
    (hk : standard.operators k = none) (above : Power) : Stops standard above ts := by
  cases ts with
  | nil => simp at h
  | cons t us =>
    intro u hu o ho
    cases hu
    rw [startsWith_cons.mp h, hk] at ho
    cases ho

/-- Before an operator only what binds less tightly goes on. -/
theorem Tables.stops_of_operator {t : Token} {us : List Token} {o : Operator} {p : Power}
    (h : standard.operators t.kind = some o) (hp : o.power ≤ p) : Stops standard p (t :: us) := by
  intro u hu o' ho'
  cases hu
  rw [Option.mem_def, h] at ho'
  cases ho'
  exact hp

theorem Stops.mono {tables : Tables} {p q : Power} (h : Stops tables p ts) (hpq : p ≤ q) :
    Stops tables q ts :=
  fun t ht o ho => Nat.le_trans (h t ht o ho) hpq

/-- Line ends before something else are skipped. -/
theorem Rule.afterLineEnds_of_forall {ls : List Token} {t : Token} {us : List Token}
    (hls : ∀ l ∈ ls, l.kind = .lineEnd) (ht : t.kind ≠ .lineEnd) :
    afterLineEnds (ls ++ t :: us) = t :: us := by
  rw [afterLineEnds, List.dropWhile_append_of_pos (by simpa using hls), List.dropWhile_cons_of_neg]
  simpa using ht

/-- Without a line end ahead none is skipped. -/
theorem SpellsTo.of_lineEnds {ms : List Mark} (h : SpellsTo (.lineEnds :: ms) ts rest)
    (hts : ¬ StartsWith .lineEnd ts) : SpellsTo ms ts rest := by
  obtain ⟨ls, us, rfl, hls, hus⟩ := SpellsTo.lineEnds_iff.mp h
  cases ls with
  | nil => exact hus
  | cons l ls => exact absurd (startsWith_cons.mpr (hls l (List.mem_cons_self ..))) hts

/-- No declaration starts with an `else`, and none is among the line ends before one. -/
theorem Tree.IsDeclaration.not_startsWith_else {ms : List Mark} (h : e.IsDeclaration)
    (hts : SpellsTo (.lineEnds :: (e.lines ++ ms)) ts rest) : ¬ StartsWith .elseWord ts := by
  intro helse
  have hline : ¬ StartsWith .lineEnd ts := by
    rw [StartsWith, helse]
    simp
  obtain ⟨mid, he, -⟩ := SpellsTo.append_iff.mp (hts.of_lineEnds hline)
  obtain ⟨t, us, rfl, hk⟩ := h.starts he
  exact hk (.inr (.inr (startsWith_cons.mp helse)))

/-- Inside braces no declaration is followed by an `else`. -/
theorem Tree.not_startsWith_else_of_braced {statements : List Tree}
    (hall : ∀ s ∈ statements, s.IsDeclaration) (hts : SpellsTo (Tree.braced statements) ts rest) :
    ¬ StartsWith .elseWord ts := by
  cases statements with
  | nil =>
    obtain ⟨ls, us, rfl, hls, hus⟩ := SpellsTo.lineEnds_iff.mp hts
    obtain ⟨t, us, rfl, hk, -⟩ := SpellsTo.any_iff.mp hus
    cases ls with
    | nil => simp [hk]
    | cons l ls => simp [hls l (List.mem_cons_self ..)]
  | cons s statements => exact (hall s (List.mem_cons_self ..)).not_startsWith_else hts

/-- At the top no declaration is followed by an `else`. -/
theorem Tree.not_startsWith_else_of_program {ds : List Tree}
    (hall : ∀ d ∈ ds, d.IsDeclaration) (hts : SpellsTo (Tree.program ds) ts []) :
    ¬ StartsWith .elseWord ts := by
  cases ds with
  | nil =>
    obtain ⟨ls, us, rfl, hls, hus⟩ := SpellsTo.lineEnds_iff.mp hts
    obtain rfl := SpellsTo.nil_iff.mp hus
    cases ls with
    | nil => simp
    | cons l ls => simp [hls l (List.mem_cons_self ..)]
  | cons d ds => exact (hall d (List.mem_cons_self ..)).not_startsWith_else hts

/-! ## What a complete level gives -/

/-- Every tree of the language that nests within so many levels is read from its written form. -/
structure Complete (levels : Nat) (below : Goal → Rule Tree) : Prop where
  consumes (goal : Goal) : Consumes (below goal)
  expression {above : Power} {ts rest : List Token} {e : Tree} :
    e.IsExpression → e.Fits above → above ≤ .unary → e.inside < levels →
      SpellsTo e.written ts rest → Stops .standard above rest →
      below (.expression above) ts = .ok e rest
  statement {ts rest : List Token} {e : Tree} :
    e.IsStatement → e.levels ≤ levels + 1 → SpellsTo e.lines ts rest →
      (e.endsOpen → ¬ StartsWith .elseWord rest) → below .statement ts = .ok e rest
  declaration {ts rest : List Token} {e : Tree} :
    e.IsDeclaration → e.levels ≤ levels → SpellsTo e.lines ts rest →
      (e.endsOpen → ¬ StartsWith .elseWord rest) → below .declaration ts = .ok e rest

namespace Complete

/-! ## Lists -/

section Lists

variable {α : Type} {item : Rule α} {form : α → List Mark}

theorem laterItems (ht : Takes item) (closing : Complaint) {as : List α}
    (hitem : ∀ a ∈ as, ∀ ts rest, SpellsTo (form a) ts rest →
      StartsWith .comma rest ∨ StartsWith .rightParen rest → item ts = .ok a rest)
    (h : SpellsTo (Mark.laterItems (as.map form)) ts rest) :
    Form.laterItems item closing ts = .ok as rest ∧
      (StartsWith .comma ts ∨ StartsWith .rightParen ts) := by
  induction as generalizing ts with
  | nil =>
    rw [List.map_nil, Mark.laterItems] at h
    obtain ⟨t, us, rfl, hk, hus⟩ := SpellsTo.any_iff.mp h
    obtain rfl := SpellsTo.nil_iff.mp hus
    exact ⟨(laterItems_nil_iff ht).mpr ⟨t, rfl, hk⟩, .inr (startsWith_cons.mpr hk)⟩
  | cons a as ih =>
    rw [List.map_cons, Mark.laterItems, List.cons_append] at h
    obtain ⟨c, us, rfl, hc, hus⟩ := SpellsTo.any_iff.mp h
    obtain ⟨mid, ha, has⟩ := SpellsTo.append_iff.mp hus
    obtain ⟨hitem', hitems⟩ := List.forall_mem_cons.mp hitem
    obtain ⟨hread, hfollow⟩ := ih hitems has
    exact ⟨(laterItems_cons_iff ht).mpr ⟨c, us, mid, rfl, hc, hitem' _ _ ha hfollow, hread⟩,
      .inl (startsWith_cons.mpr hc)⟩

theorem closedList (ht : Takes item) (closing : Complaint) {as : List α}
    (hstart : ∀ a ∈ as, ∀ ts rest, SpellsTo (form a) ts rest → ¬ StartsWith .rightParen ts)
    (hitem : ∀ a ∈ as, ∀ ts rest, SpellsTo (form a) ts rest →
      StartsWith .comma rest ∨ StartsWith .rightParen rest → item ts = .ok a rest)
    (h : SpellsTo (Mark.items (as.map form)) ts rest) :
    Form.closedList item closing ts = .ok as rest := by
  cases as with
  | nil =>
    rw [List.map_nil, Mark.items] at h
    obtain ⟨t, us, rfl, hk, hus⟩ := SpellsTo.any_iff.mp h
    obtain rfl := SpellsTo.nil_iff.mp hus
    exact closedList_nil_iff.mpr ⟨t, rfl, hk⟩
  | cons a as =>
    rw [List.map_cons, Mark.items] at h
    obtain ⟨mid, ha, has⟩ := SpellsTo.append_iff.mp h
    obtain ⟨hitem', hitems⟩ := List.forall_mem_cons.mp hitem
    obtain ⟨hread, hfollow⟩ := laterItems ht closing hitems has
    exact closedList_cons_iff.mpr ⟨hstart a (List.mem_cons_self ..) _ _ ha, mid,
      hitem' _ _ ha hfollow, hread⟩

end Lists

variable {levels : Nat} {below : Goal → Rule Tree} (hb : Complete levels below)
include hb

theorem blockBody {statements : List Tree}
    (hall : ∀ s ∈ statements, s.IsDeclaration ∧ s.levels ≤ levels)
    (h : SpellsTo (Tree.braced statements) ts rest) :
    Form.blockBody below ts = .ok statements rest := by
  have htakes := (hb.consumes .declaration).takes
  induction statements generalizing ts with
  | nil =>
    obtain ⟨ls, us, rfl, hls, hus⟩ := SpellsTo.lineEnds_iff.mp h
    obtain ⟨t, us, rfl, hk, hus⟩ := SpellsTo.any_iff.mp hus
    obtain rfl := SpellsTo.nil_iff.mp hus
    exact (blockBody_nil_iff htakes).mpr
      ⟨t, afterLineEnds_of_forall hls (by simp [hk]), hk⟩
  | cons s statements ih =>
    obtain ⟨⟨hdecl, hlevels⟩, hrest⟩ := List.forall_mem_cons.mp hall
    obtain ⟨ls, us, rfl, hls, hus⟩ := SpellsTo.lineEnds_iff.mp h
    obtain ⟨mid, hs, hbraced⟩ := SpellsTo.append_iff.mp hus
    obtain ⟨t, us, rfl, hk⟩ := hdecl.starts hs
    have helse := Tree.not_startsWith_else_of_braced (fun s hs => (hrest s hs).1) hbraced
    exact (blockBody_cons_iff htakes).mpr ⟨t, us, mid,
      afterLineEnds_of_forall hls fun hline => hk (.inr (.inl hline)),
      fun hbrace => hk (.inl hbrace),
      hb.declaration hdecl hlevels hs fun _ => helse, ih hrest hbraced⟩

/-! ## Expressions -/

/-- An expression is read along its left spine: what starts it, and then one operator after the
other, until it stands before the chain as a whole. -/
theorem expression_eq_chain {above : Power} {mid : List Token} (hexp : e.IsExpression)
    (hfits : e.Fits above) (ha : above ≤ .unary) (hinside : e.inside ≤ levels)
    (hspell : SpellsTo e.written ts mid) (hstops : Stops .standard e.tightness mid) :
    Tables.standard.expression below above ts =
      chain (Tables.standard.extend below above) e mid := by
  have htakes := Tables.standard.takesSome_extend hb.consumes above
  -- Only the left operand and what is called are read on this level: the induction goes along them.
  induction hexp generalizing mid with
  | @literal value hk =>
    obtain ⟨us, rfl, hus⟩ := SpellsTo.this_iff.mp hspell
    obtain rfl := SpellsTo.nil_iff.mp hus
    apply Tables.expression_eq_of_start .primary
    · rcases hk with hk | hk | hk <;> rw [hk] <;> rfl
    · exact primary_eq_ok_iff.mpr ⟨value, rfl, .inr ⟨hk, rfl⟩⟩
  | @reference name hk =>
    obtain ⟨us, rfl, hus⟩ := SpellsTo.this_iff.mp hspell
    obtain rfl := SpellsTo.nil_iff.mp hus
    apply Tables.expression_eq_of_start .primary
    · rw [hk]
      rfl
    · exact primary_eq_ok_iff.mpr ⟨name, rfl, .inl ⟨hk, rfl⟩⟩
  | @group inner hinner _ =>
    obtain ⟨l, us, rfl, hl, hus⟩ := SpellsTo.any_iff.mp hspell
    obtain ⟨vs, hvs, hend⟩ := SpellsTo.append_iff.mp hus
    obtain ⟨r, ws, rfl, hr, hws⟩ := SpellsTo.any_iff.mp hend
    obtain rfl := SpellsTo.nil_iff.mp hws
    have hread := hb.expression hinner hinner.fits_lowest (by decide) hinside hvs
      (Tables.stops_of_startsWith (startsWith_cons.mpr hr) rfl _)
    apply Tables.expression_eq_of_start .group
    · rw [hl]
      rfl
    · exact group_eq_ok_iff.mpr ⟨l, us, inner, r, rfl, hl, hread, hr, rfl⟩
  | @unary operator operand hk hoperand hle _ =>
    obtain ⟨us, rfl, hus⟩ := SpellsTo.this_iff.mp hspell
    have hread := hb.expression hoperand (.inr hle) (Nat.le_refl _) hinside hus hstops
    apply Tables.expression_eq_of_start .unary
    · rw [hk]
      rfl
    · exact unary_eq_ok_iff.mpr ⟨operator, us, operand, rfl, hread, rfl⟩
  | @binary left right operator power hpower hleft hle hright hlt ihl _ =>
    obtain ⟨us, hus, hright'⟩ := SpellsTo.append_iff.mp hspell
    obtain ⟨vs, rfl, hvs⟩ := SpellsTo.this_iff.mp hright'
    have hoperator := Tables.standard_operators_of_binaryPower? hpower
    have hbounds := Kind.binaryPower?_bounds hpower
    have htight : (Tree.binary left operator right).tightness = power := by
      rw [Tree.tightness, hpower, Option.getD_some]
    have habove : above < power := by
      rcases hfits with h | h
      · rwa [htight] at h
      · rw [htight] at h
        exact absurd hbounds.2 (Nat.not_lt_of_le h)
    rw [htight] at hstops
    obtain ⟨hleftInside, hrightInside⟩ := Nat.max_le.mp hinside
    have hread := hb.expression hright (.inl hlt) (Nat.le_of_lt hbounds.2) hrightInside hvs hstops
    -- The chain of the left operand goes on with this operator.
    rw [ihl (.inl (Nat.lt_of_lt_of_le habove hle)) hleftInside hus
      (Tables.stops_of_operator hoperator hle), chain_eq htakes, bind_apply,
      Tables.extend_some_iff.mpr ⟨operator, vs, _, rfl, hoperator, habove,
        binary_eq_ok_iff.mpr ⟨operator, vs, right, rfl, hread, rfl⟩⟩]
  | @call callee arguments hcallee hle hargs ihc _ =>
    obtain ⟨us, hus, hlist⟩ := SpellsTo.append_iff.mp hspell
    obtain ⟨l, vs, rfl, hl, hvs⟩ := SpellsTo.any_iff.mp hlist
    rw [Tree.writtens_eq_map] at hvs
    have hoperator : Tables.standard.operators l.kind = some ⟨.call, .call⟩ := by
      rw [hl]
      rfl
    have habove : above < .call := Nat.lt_of_le_of_lt ha (by decide)
    -- Every argument is followed by a comma or by the closing parenthesis, which are no operators.
    obtain ⟨hcalleeInside, hargsInside⟩ := Nat.max_le.mp hinside
    have hread := closedList (hb.consumes (.expression .lowest)).takes .argumentsEnd
      (fun a h ts rest hts => ?_) (fun a h ts rest hts hfollow => ?_) hvs
    · rw [ihc (.inr (Nat.le_trans (by decide) hle)) hcalleeInside hus
        (Tables.stops_of_operator hoperator hle), chain_eq htakes, bind_apply,
        Tables.extend_some_iff.mpr ⟨l, vs, _, rfl, hoperator, habove,
          call_eq_ok_iff.mpr ⟨l, vs, arguments, rfl, hl, hread, rfl⟩⟩]
    · obtain ⟨t, us, handler, rfl, hk⟩ := (hargs a h).starts hts
      rw [startsWith_cons]
      exact (Tables.standard_of_expressions hk).2.2.1
    · refine hb.expression (hargs a h) (hargs a h).fits_lowest (by decide)
        (Tree.deepestArgument_le_iff.mp hargsInside a h) hts ?_
      rcases hfollow with hfollow | hfollow <;>
        exact Tables.stops_of_startsWith hfollow rfl _

theorem expression_level {above : Power} (hexp : e.IsExpression) (hfits : e.Fits above)
    (ha : above ≤ .unary) (hinside : e.inside ≤ levels) (hspell : SpellsTo e.written ts rest)
    (hstops : Stops .standard above rest) :
    Tables.standard.expression below above ts = .ok e rest := by
  have htight : Stops .standard e.tightness rest := hstops.mono (hfits.le ha)
  rw [hb.expression_eq_chain hexp hfits ha hinside hspell htight,
    chain_eq_ok_iff (Tables.standard.takesSome_extend hb.consumes above)]
  exact .inl ⟨Tables.extend_none_iff.mpr ⟨rfl, hstops⟩, rfl⟩

/-! ## Statements -/

/-- An expression before the end of its line. -/
theorem expression_lineEnd (hexp : e.IsExpression) (hinside : e.inside < levels)
    (hspell : SpellsTo (e.written ++ [.any .lineEnd]) ts rest) :
    ∃ l, below (.expression .lowest) ts = .ok e (l :: rest) ∧ l.kind = .lineEnd := by
  obtain ⟨us, hus, hend⟩ := SpellsTo.append_iff.mp hspell
  obtain ⟨l, vs, rfl, hl, hvs⟩ := SpellsTo.any_iff.mp hend
  obtain rfl := SpellsTo.nil_iff.mp hvs
  refine ⟨l, hb.expression hexp hexp.fits_lowest (by decide) hinside hus ?_, hl⟩
  exact Tables.stops_of_startsWith (startsWith_cons.mpr hl) rfl _

theorem assign {name : Token} {value : Tree} (hname : name.kind = .identifier)
    (hvalue : value.IsExpression) (hlt : .equality < value.tightness)
    (hinside : value.inside + 1 < levels)
    (hspell : SpellsTo (Tree.lines (.assign name value)) ts rest) :
    Form.expressionStatement below ts = .ok (.assign name value) rest := by
  obtain ⟨us, rfl, hus⟩ := SpellsTo.this_iff.mp hspell
  obtain ⟨sign, vs, rfl, hsign, hvs⟩ := SpellsTo.any_iff.mp hus
  -- An assignment is read as the comparison that looks the same.
  have hpower : sign.kind.binaryPower? = some .equality := by rw [hsign]; rfl
  have hcompare : Tree.IsExpression (.binary (.reference name) sign value) :=
    .binary hpower (.reference hname) (show Power.equality ≤ .primary by decide) hvalue hlt
  have hdeep : (Tree.binary (.reference name) sign value).inside < levels := by
    rw [Tree.inside, Tree.inside]
    omega
  obtain ⟨l, hread, hl⟩ := hb.expression_lineEnd hcompare hdeep
    (SpellsTo.this_iff.mpr ⟨_, rfl, SpellsTo.this_iff.mpr ⟨vs, rfl, hvs⟩⟩)
  exact expressionStatement_eq_ok_iff.mpr ⟨_, l, hread, hl, (ofExpression_assignment hsign).symm⟩

/-- A choice up to its `else`, or to its end if it has none. -/
theorem conditional_head {condition thenBranch : Tree} {ms : List Mark}
    (hcexp : condition.IsExpression) (hcinside : condition.inside < levels)
    (htstmt : thenBranch.IsStatement) (htlevels : thenBranch.levels ≤ levels + 1)
    (hspell : SpellsTo (.any .ifWord :: .any .leftParen ::
      (condition.written ++ .any .rightParen :: (thenBranch.lines ++ ms))) ts rest) :
    ∃ word l mid r mid' mid'', ts = word :: l :: mid ∧ word.kind = .ifWord ∧
      l.kind = .leftParen ∧ below (.expression .lowest) mid = .ok condition (r :: mid') ∧
      r.kind = .rightParen ∧ SpellsTo ms mid'' rest ∧
      ((thenBranch.endsOpen → ¬ StartsWith .elseWord mid'') →
        below .statement mid' = .ok thenBranch mid'') := by
  obtain ⟨word, us, rfl, hword, hus⟩ := SpellsTo.any_iff.mp hspell
  obtain ⟨l, mid, rfl, hl, hmid⟩ := SpellsTo.any_iff.mp hus
  obtain ⟨vs, hc, hvs⟩ := SpellsTo.append_iff.mp hmid
  obtain ⟨r, mid', rfl, hr, hmid'⟩ := SpellsTo.any_iff.mp hvs
  obtain ⟨mid'', ht, hms⟩ := SpellsTo.append_iff.mp hmid'
  have hread := hb.expression hcexp hcexp.fits_lowest (by decide) hcinside hc
    (Tables.stops_of_startsWith (startsWith_cons.mpr hr) rfl _)
  exact ⟨word, l, mid, r, mid', mid'', rfl, hword, hl, hread, hr, hms,
    hb.statement htstmt htlevels ht⟩

theorem statement_level (hstmt : e.IsStatement) (hlevels : e.levels ≤ levels + 2)
    (hspell : SpellsTo e.lines ts rest) (hopen : e.endsOpen → ¬ StartsWith .elseWord rest) :
    Tables.standard.level below .statement ts = .ok e rest := by
  rw [Tree.levels] at hlevels
  cases hstmt with
  | expression hexp hassign =>
    obtain ⟨mid, hwritten, -⟩ := SpellsTo.append_iff.mp hspell
    obtain ⟨t, us, handler, rfl, hk⟩ := hexp.starts hwritten
    rw [hexp.entry] at hlevels
    rw [Tree.lines, hexp.ending] at hspell
    obtain ⟨l, hread, hl⟩ := hb.expression_lineEnd hexp (by omega) hspell
    rw [Tables.level_statement_of_none (by simp [(Tables.standard_of_expressions hk).2.1])]
    exact expressionStatement_eq_ok_iff.mpr ⟨e, l, hread, hl, (ofExpression_eq_self hassign).symm⟩
  | @assign name value hname hvalue hlt =>
    rw [Tree.entry, Tree.inside] at hlevels
    have hread := hb.assign hname hvalue hlt (by omega) hspell
    obtain ⟨us, rfl, -⟩ := SpellsTo.this_iff.mp hspell
    rwa [Tables.level_statement_of_none (by simp [hname, Tables.standard])]
  | @choice condition thenBranch hcexp htstmt =>
    rw [Tree.entry, Tree.inside] at hlevels
    rw [Tree.lines, Tree.written, Tree.ending, List.append_nil,
      ← List.append_nil (_ ++ thenBranch.ending)] at hspell
    obtain ⟨word, l, mid, r, mid', mid'', rfl, hword, hl, hc, hr, hms, ht⟩ :=
      hb.conditional_head hcexp (by omega) htstmt (by rw [Tree.levels]; omega) hspell
    obtain rfl := SpellsTo.nil_iff.mp hms
    rw [Tables.level_statement_of_some (by rw [hword]; rfl)]
    exact conditional_eq_ok_iff.mpr ⟨word, l, mid, condition, r, mid', thenBranch, _, rfl, hword,
      hl, hc, hr, ht fun _ => hopen rfl, .inl ⟨hopen rfl, rfl, rfl⟩⟩
  | @choiceElse condition thenBranch elseBranch hcexp htstmt hclosed hestmt =>
    rw [Tree.entry, Tree.inside] at hlevels
    rw [Tree.lines, Tree.written, Tree.ending, List.append_nil] at hspell
    obtain ⟨word, l, mid, r, mid', mid'', rfl, hword, hl, hc, hr, hms, ht⟩ :=
      hb.conditional_head hcexp (by omega) htstmt (by rw [Tree.levels]; omega) hspell
    obtain ⟨word', us, rfl, hword', hus⟩ := SpellsTo.any_iff.mp hms
    have he := hb.statement hestmt (by rw [Tree.levels]; omega) hus hopen
    rw [Tables.level_statement_of_some (by rw [hword]; rfl)]
    exact conditional_eq_ok_iff.mpr ⟨word, l, mid, condition, r, mid', thenBranch, _, rfl, hword,
      hl, hc, hr, ht (by simp [hclosed]), .inr ⟨word', us, elseBranch, rfl, hword', he, rfl⟩⟩
  | @block statements hall =>
    rw [Tree.entry, Tree.inside] at hlevels
    rw [Tree.lines, Tree.written, Tree.ending, List.append_nil] at hspell
    obtain ⟨b, mid, rfl, hk, hmid⟩ := SpellsTo.any_iff.mp hspell
    have hdeepest := Tree.deepest_le_iff.mp (show Tree.deepest statements ≤ levels by omega)
    have hread := hb.blockBody (fun s hs => ⟨hall s hs, hdeepest s hs⟩) hmid
    rw [Tables.level_statement_of_some (by rw [hk]; rfl)]
    exact block_eq_ok_iff.mpr ⟨b, mid, statements, rfl, hk, hread, rfl⟩

/-! ## Declarations -/

theorem declaration_level (hdecl : e.IsDeclaration) (hlevels : e.levels ≤ levels + 1)
    (hspell : SpellsTo e.lines ts rest) (hopen : e.endsOpen → ¬ StartsWith .elseWord rest) :
    Tables.standard.level below .declaration ts = .ok e rest := by
  cases hdecl with
  | statement hstmt =>
    obtain ⟨t, us, rfl, hnone, -⟩ := hstmt.starts hspell
    rw [Tables.level_declaration_of_none (by simp [hnone])]
    exact hb.statement hstmt hlevels hspell hopen
  | @declare name isMutable hname =>
    obtain ⟨word, us, rfl, hword, hus⟩ := SpellsTo.any_iff.mp hspell
    obtain ⟨vs, rfl, hvs⟩ := SpellsTo.this_iff.mp hus
    obtain ⟨l, ws, rfl, hl, hws⟩ := SpellsTo.any_iff.mp hvs
    obtain rfl := SpellsTo.nil_iff.mp hws
    rw [Tables.level_declaration_of_some (Tables.declarations_declareKind hword)]
    refine declare_eq_ok_iff.mpr ⟨word, name, _, rfl, hname, .inl ⟨l, rfl, hl, ?_⟩⟩
    rw [Tree.eq_varWord_of_declareKind hword]
  | @declareValue name value isMutable hname hvalue =>
    rw [Tree.levels, Tree.entry, Tree.inside] at hlevels
    obtain ⟨word, us, rfl, hword, hus⟩ := SpellsTo.any_iff.mp hspell
    obtain ⟨vs, rfl, hvs⟩ := SpellsTo.this_iff.mp hus
    obtain ⟨sign, ws, rfl, hsign, hws⟩ := SpellsTo.any_iff.mp hvs
    obtain ⟨l, hread, hl⟩ := hb.expression_lineEnd hvalue (by omega) hws
    rw [Tables.level_declaration_of_some (Tables.declarations_declareKind hword)]
    refine declare_eq_ok_iff.mpr ⟨word, name, _, rfl, hname,
      .inr ⟨sign, ws, value, l, rfl, hsign, hread, hl, ?_⟩⟩
    rw [Tree.eq_varWord_of_declareKind hword]
  | @function name parameters body hname hparameters hall =>
    rw [Tree.levels, Tree.entry, Tree.inside] at hlevels
    rw [Tree.lines, Tree.written, Tree.ending, List.append_nil] at hspell
    obtain ⟨word, us, rfl, hword, hus⟩ := SpellsTo.any_iff.mp hspell
    obtain ⟨vs, rfl, hvs⟩ := SpellsTo.this_iff.mp hus
    obtain ⟨l, mid, rfl, hl, hmid⟩ := SpellsTo.any_iff.mp hvs
    obtain ⟨ws, hws, hbraced⟩ := SpellsTo.append_iff.mp hmid
    obtain ⟨b, mid', rfl, hk, hmid'⟩ := SpellsTo.any_iff.mp hbraced
    have hlist := closedList (takes_expect .identifier .parameterName) .parametersEnd
      (fun p hp ts rest hts => ?_) (fun p hp ts rest hts _ => ?_) hws
    · have hdeepest := Tree.deepest_le_iff.mp (show Tree.deepest body ≤ levels by omega)
      have hread := hb.blockBody (fun s hs => ⟨hall s hs, hdeepest s hs⟩) hmid'
      rw [Tables.level_declaration_of_some (by rw [hword]; rfl)]
      exact function_eq_ok_iff.mpr ⟨word, name, l, mid, parameters, b, mid', body, rfl, hword,
        hname, hl, hlist, hk, hread, rfl⟩
    · obtain ⟨us, rfl, -⟩ := SpellsTo.this_iff.mp hts
      simp [hparameters p hp]
    · obtain ⟨us, rfl, hus⟩ := SpellsTo.this_iff.mp hts
      obtain rfl := SpellsTo.nil_iff.mp hus
      exact expect_eq_ok_iff.mpr ⟨rfl, hparameters p hp⟩

end Complete

/-! ## Levels -/

/-- A level is complete if what lies below it is. -/
theorem complete_level {levels : Nat} {below : Goal → Rule Tree} (hb : Complete levels below) :
    Complete (levels + 1) (Tables.standard.level below) where
  consumes := Tables.standard.consuming_level hb.consumes
  expression hexp hfits ha hinside hspell hstops :=
    hb.expression_level hexp hfits ha (Nat.le_of_lt_succ hinside) hspell hstops
  statement hstmt hlevels hspell hopen := hb.statement_level hstmt hlevels hspell hopen
  declaration hdecl hlevels hspell hopen := hb.declaration_level hdecl hlevels hspell hopen

/-- What nests within the levels that are left is read from its written form. -/
theorem complete_read (levels : Nat) : Complete levels (Tables.standard.read levels) := by
  induction levels with
  | zero =>
    exact {
      consumes := Tables.standard.consumes_read 0
      expression := fun _ _ _ hinside => absurd hinside (Nat.not_lt_zero _)
      statement := fun hstmt hlevels => by
        have hentry := hstmt.two_le_entry
        rw [Tree.levels] at hlevels
        omega
      declaration := fun {_ _ e} _ hlevels => by
        have hentry := e.entry_pos
        rw [Tree.levels] at hlevels
        omega }
  | succ levels ih => exact complete_level ih

end Scriptlet
