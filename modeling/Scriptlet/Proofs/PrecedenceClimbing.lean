import Scriptlet.Proofs.EarliestError
import Scriptlet.Proofs.Layers
import Scriptlet.Proofs.Phrases
import Scriptlet.Proofs.Soundness

/-!
# Precedence climbing

One loop over two tables reads what the layers of the grammar read. The operators of a power are
those that the loop takes at this power and no longer at the next tighter one, so that the loop at
a power is the loop at the next one with a row of these operators after it (`expression_eq_row`);
and the tightest loop takes nothing but arguments (`expression_eq_unary`). Level by level, the
climb then ends as the plain descent does wherever it does not give up for the nesting.
-/

namespace Scriptlet

open Rule

variable {α : Type} {levels : Nat} {below : Goal → Rule Tree} {above p : Power} {k : Kind}
  {t : Token} {ts us rest : List Token} {left e : Tree}

/-! ## Rules one after the other -/

namespace Rule

theorem kind?_bind_apply {f : Option Kind → Rule α} :
    (kind? >>= f) ts = f (ts.head?.map Token.kind) ts := rfl

theorem take_bind_apply {c : Complaint} {f : Token → Rule α} :
    (take c >>= f) (t :: us) = f t us := rfl

theorem expect_bind_apply {c : Complaint} {f : Token → Rule α} (h : t.kind = k) :
    (expect k c >>= f) (t :: us) = f t us := by
  rw [bind_apply, expect, if_pos h]

section Chains

variable {link link₁ link₂ : α → Rule (Option α)} {a b : α}

theorem chain_of_none (h : ∀ a, TakesSome (link a)) (hnone : link a ts = .ok none rest) :
    chain link a ts = .ok a rest := by
  rw [chain_eq h, bind_apply, hnone]
  rfl

theorem chain_of_some (h : ∀ a, TakesSome (link a)) (hsome : link a ts = .ok (some b) rest) :
    chain link a ts = chain link b rest := by
  rw [chain_eq h, bind_apply, hsome]

theorem chain_of_fail (h : ∀ a, TakesSome (link a)) {c : Complaint}
    (hfail : link a ts = .fail c rest) : chain link a ts = .fail c rest := by
  rw [chain_eq h, bind_apply, hfail]

/-- The next link of a chain is one of the first sort; or there is none of this sort, and after one
of the second sort, if it is that, there is none of the first sort either. -/
inductive Splits (link link₁ link₂ : α → Rule (Option α)) (a : α) (ts : List Token) : Prop
  | first : link a ts = link₁ a ts → (∀ rest, link₁ a ts ≠ .ok none rest) →
      Splits link link₁ link₂ a ts
  | second : link₁ a ts = .ok none ts → link a ts = link₂ a ts →
      (∀ b rest, link₂ a ts = .ok (some b) rest → link₁ b rest = .ok none rest) →
      Splits link link₁ link₂ a ts

/-- A chain of which links of the first sort come first is a chain of these, and then one of the
others. -/
theorem chain_eq_of_splits (h : ∀ a, TakesSome (link a)) (h₁ : ∀ a, TakesSome (link₁ a))
    (h₂ : ∀ a, TakesSome (link₂ a)) (hsplits : ∀ a ts, Splits link link₁ link₂ a ts) (a : α) :
    chain link a = chain link₁ a >>= chain link₂ := by
  funext ts
  -- The induction is on the tokens, of which every link takes one.
  induction hn : ts.length using Nat.strongRecOn generalizing a ts with
  | ind n ih =>
    subst hn
    rw [bind_apply]
    cases hsplits a ts with
    | first heq hne =>
      -- The chain of the first sort goes on by the same link.
      cases hround : link₁ a ts with
      | fail c rest => rw [chain_of_fail h (heq.trans hround), chain_of_fail h₁ hround]
      | ok b? rest =>
        cases b? with
        | none => exact absurd hround (hne rest)
        | some b =>
          rw [chain_of_some h (heq.trans hround), chain_of_some h₁ hround, ← bind_apply]
          exact ih _ (h₁ a _ _ _ hround) b rest rfl
    | second hnone heq hafter =>
      -- The chain of the first sort is over, and stays over after every link of the second sort.
      rw [chain_of_none h₁ hnone]
      cases hround : link₂ a ts with
      | fail c rest => exact (chain_of_fail h (heq.trans hround)).trans (chain_of_fail h₂ hround).symm
      | ok b? rest =>
        cases b? with
        | none => exact (chain_of_none h (heq.trans hround)).trans (chain_of_none h₂ hround).symm
        | some b =>
          rw [chain_of_some h (heq.trans hround), ih _ (h₂ a _ _ _ hround) b rest rfl, bind_apply,
            chain_of_none h₁ (hafter b rest hround)]
          exact (chain_of_some h₂ hround).symm

end Chains

end Rule

/-! ## What comes next -/

namespace Tables

variable {tables : Tables} {o : Operator}

theorem extend_of_stops (h : Stops tables above ts) :
    tables.extend below above left ts = .ok none ts :=
  extend_none_iff.mpr ⟨rfl, h⟩

/-- An operator that binds tightly enough is taken, whatever the power. -/
theorem extend_of_lt (below : Goal → Rule Tree) (left : Tree) (us : List Token)
    (ho : tables.operators t.kind = some o) (hlt : above < o.power) :
    tables.extend below above left (t :: us) =
      (some <$> o.extension.rule below left o.power) (t :: us) := by
  have hnle : ¬ o.power ≤ above := Nat.not_le_of_lt hlt
  rw [extend, lookup_bind_apply, List.head?_cons, Option.bind_some, ho]
  simp only [hnle, ↓reduceIte]

theorem extend_ne_none (below : Goal → Rule Tree) (left : Tree)
    (ho : tables.operators t.kind = some o) (hlt : above < o.power) (rest : List Token) :
    tables.extend below above left (t :: us) ≠ .ok none rest := by
  intro h
  exact absurd ((extend_none_iff.mp h).2 t rfl o ho) (Nat.not_le_of_lt hlt)

theorem exists_of_not_stops (h : ¬ Stops tables above ts) :
    ∃ t us o, ts = t :: us ∧ tables.operators t.kind = some o ∧ above < o.power := by
  unfold Stops at h
  push Not at h
  rcases h with ⟨t, ht, o, ho, hlt⟩
  rcases List.head?_eq_some_iff.mp ht with ⟨us, rfl⟩
  exact ⟨t, us, o, rfl, ho, Nat.lt_of_not_le hlt⟩

end Tables

namespace Descent

variable {operand : Rule Tree} {operators : List Kind} {inner : Layer → Rule Tree}

theorem link_of_not_mem (h : ∀ t ∈ ts.head?, t.kind ∉ operators) :
    link operand operators left ts = .ok none ts := by
  unfold link
  rw [kind?_bind_apply]
  cases ts with
  | nil => rfl
  | cons t us => simp [h t rfl]

/-- An operator of the row is read with its operand as the loop reads it. -/
theorem link_of_mem (below : Goal → Rule Tree) (p : Power) (left : Tree) (us : List Token)
    (h : t.kind ∈ operators) :
    link (below (.expression p)) operators left (t :: us) =
      (some <$> Form.binary below left p) (t :: us) := by
  have hcontains : operators.contains t.kind = true := List.contains_iff_mem.mpr h
  unfold link Form.binary
  rw [kind?_bind_apply]
  simp only [List.head?_cons, Option.map_some, Option.any_some, hcontains, ↓reduceIte, map_bind,
    map_pure]

theorem arguments_of_not_startsWith (h : ¬ StartsWith .leftParen ts) :
    arguments inner left ts = .ok none ts := by
  have hk : ts.head?.map Token.kind ≠ some .leftParen := h
  unfold arguments
  rw [kind?_bind_apply]
  simp only [hk, ↓reduceIte]
  rfl

theorem arguments_of_startsWith (hinner : inner .equality = below (.expression .lowest))
    (h : t.kind = .leftParen) :
    arguments inner left (t :: us) = (some <$> Form.call below left) (t :: us) := by
  unfold arguments Form.call Form.wholeExpression
  rw [kind?_bind_apply]
  simp only [List.head?_cons, Option.map_some, h, ↓reduceIte, map_bind, map_pure]
  rw [take_bind_apply, expect_bind_apply h, hinner]

end Descent

/-! ## The tables of the language -/

namespace Tables

/-- An operator of the next tighter power stands between operands. -/
theorem extension_eq_binary {o : Operator} (hp : p < .multiplicative)
    (ho : standard.operators k = some o) (hpower : o.power = p.next) :
    k.binaryPower? = some p.next ∧ o.extension = .binary := by
  rcases standard_operators_cases ho with ⟨hk, hbinary⟩ | ⟨-, rfl⟩
  · rw [← hpower]
    exact ⟨hk, hbinary⟩
  · have hcall : Power.call ≠ p.next := by
      revert hp
      cases p <;> decide
    exact absurd hpower hcall

/-- Where operators between operands bind no tighter, only arguments go on. -/
theorem stops_iff_of_multiplicative_le (hp : .multiplicative ≤ p) (hcall : p < .call) :
    Stops standard p ts ↔ ¬ StartsWith .leftParen ts := by
  cases ts with
  | nil => simp [Stops]
  | cons t us =>
    rw [startsWith_cons]
    constructor
    · intro h hk
      have hle : Power.call ≤ p := by
        apply h t rfl ⟨.call, .call⟩
        rw [hk]
        rfl
      exact absurd hcall (Nat.not_lt_of_le hle)
    · intro hk u hu o ho
      cases hu
      rcases standard_operators_cases ho with ⟨hpower, -⟩ | ⟨hk', -⟩
      · have hle : o.power ≤ .multiplicative :=
          Nat.le_of_lt_succ (Kind.binaryPower?_bounds hpower).2
        exact Nat.le_trans hle hp
      · exact absurd hk' hk

end Tables

namespace Sound

variable (hb : Sound levels below) {operators : List Kind} {inner : Layer → Rule Tree}
include hb

/-- What the loop at a power takes, the loop at the next tighter one takes too, or it is an operator
of this power with its operand, after which that loop takes nothing. -/
theorem splits_extend (hp : p < .multiplicative)
    (hoperators : ∀ k, k ∈ operators ↔ k.binaryPower? = some p.next) (left : Tree)
    (ts : List Token) :
    Splits (Tables.standard.extend below p) (Tables.standard.extend below p.next)
      (Descent.link (below (.expression p.next)) operators) left ts := by
  by_cases hstops : Stops .standard p ts
  -- Nothing goes on at this power, so nothing does at the next one or in the row.
  · have hnone : ∀ t ∈ ts.head?, t.kind ∉ operators := by
      intro t ht hmem
      have ho := Tables.standard_operators_of_binaryPower? ((hoperators _).mp hmem)
      have hlt : p < p.next := Power.lt_of_next_le (Nat.lt_trans hp (by decide)) (Nat.le_refl _)
      exact absurd (hstops t ht _ ho) (Nat.not_le_of_lt hlt)
    apply Splits.second (Tables.extend_of_stops (hstops.mono p.le_next))
    · rw [Tables.extend_of_stops hstops, Descent.link_of_not_mem hnone]
    · intro e rest h
      rw [Descent.link_of_not_mem hnone] at h
      cases h
  · rcases Tables.exists_of_not_stops hstops with ⟨t, us, o, rfl, ho, hlt⟩
    have htaken := Tables.extend_of_lt below left us ho hlt
    rcases Nat.lt_or_eq_of_le (Power.next_le_of_lt hlt) with hnext | hnext
    -- An operator that binds tighter than the row is taken by both loops.
    · apply Splits.first
      · rw [htaken, Tables.extend_of_lt below left us ho hnext]
      · exact Tables.extend_ne_none below left ho hnext
    -- An operator of the row ends the tighter loop, and its operand leaves nothing for this loop.
    · have hpower : o.power = p.next := (Power.rank_inj.mp hnext).symm
      rcases Tables.extension_eq_binary hp ho hpower with ⟨hk, hbinary⟩
      have hlink := Descent.link_of_mem below p.next left us ((hoperators _).mpr hk)
      apply Splits.second
      · exact Tables.extend_of_stops (Tables.stops_of_operator ho (Nat.le_of_eq hnext.symm))
      · rw [htaken, hlink, hbinary, hpower]
        rfl
      · intro e rest h
        rw [hlink] at h
        rcases map_eq_ok_iff.mp h with ⟨_, hread, he⟩
        cases he
        rcases Form.binary_eq_ok_iff.mp hread with ⟨_, _, right, -, hright, -⟩
        exact Tables.extend_of_stops (hb.expression hright).2.2.2.1

/-- The loop at a power is the loop at the next tighter one, and a row of operators after it. -/
theorem expression_eq_row (hp : p < .multiplicative)
    (hoperators : ∀ k, k ∈ operators ↔ k.binaryPower? = some p.next) :
    Tables.standard.expression below p = Tables.standard.expression below p.next >>=
      chain (Descent.link (below (.expression p.next)) operators) := by
  have htakes (above : Power) := Tables.standard.takesSome_extend hb.consumes above
  have hlinks := Descent.takesSome_link (hb.consumes (.expression p.next)).parallel.forward operators
  unfold Tables.expression
  rw [bind_assoc]
  apply bind_congr
  intro handler?
  cases handler? with
  | none => rfl
  | some handler =>
    show _ = handler.rule below >>= _ >>= _
    rw [bind_assoc]
    apply bind_congr
    exact chain_eq_of_splits (htakes p) (htakes p.next) hlinks (hb.splits_extend hp hoperators)

omit hb in
theorem extend_eq_arguments (hp : .multiplicative ≤ p) (hcall : p < .call)
    (hinner : inner .equality = below (.expression .lowest)) :
    Tables.standard.extend below p = Descent.arguments inner := by
  funext left ts
  by_cases hparen : StartsWith .leftParen ts
  · cases ts with
    | nil => exact absurd hparen (not_startsWith_nil _)
    | cons t us =>
      have hk := startsWith_cons.mp hparen
      have ho : Tables.standard.operators t.kind = some ⟨.call, .call⟩ := by
        rw [hk]
        rfl
      rw [Tables.extend_of_lt below left us ho hcall, Descent.arguments_of_startsWith hinner hk]
      rfl
  · rw [Descent.arguments_of_not_startsWith hparen, Tables.extend_of_stops]
    exact (Tables.stops_iff_of_multiplicative_le hp hcall).mpr hparen

omit hb in
/-- What starts an expression other than by a sign is what the tables have for it. -/
theorem primary_eq (hinner : inner .equality = below (.expression .lowest)) (hk : t.kind ≠ .minus) :
    Descent.primary inner (t :: us) =
      (match Tables.standard.expressions t.kind with
        | none => fail .expression
        | some handler => handler.rule below) (t :: us) := by
  unfold Descent.primary
  rw [kind?_bind_apply, List.head?_cons, Option.map_some]
  cases hkind : t.kind with
  | minus => exact absurd hkind hk
  | leftParen =>
    show _ = Form.group below (t :: us)
    unfold Form.group
    rw [expect_bind_apply hkind, hinner]
    rfl
  | identifier | integer | floating | text =>
    show _ = Form.primary (t :: us)
    unfold Form.primary
    rw [take_bind_apply, hkind]
    rfl
  | _ => rfl

/-- The tightest loops take arguments only, so they read signs and calls. -/
theorem expression_eq_unary (inner : Layer → Rule Tree) (hp : .multiplicative ≤ p)
    (hcall : p < .call) (hinner : inner .equality = below (.expression .lowest))
    (hsign : inner .unary = below (.expression .unary)) :
    Tables.standard.expression below p = Descent.unary inner := by
  funext ts
  unfold Tables.expression Descent.unary
  rw [extend_eq_arguments hp hcall hinner, Tables.lookup_bind_apply, kind?_bind_apply]
  cases ts with
  | nil => rfl
  | cons t us =>
    rw [List.head?_cons, Option.bind_some, Option.map_some]
    by_cases hk : t.kind = .minus
    · have harguments (callee : Tree) : TakesSome (Descent.arguments inner callee) := by
        rw [← extend_eq_arguments hp hcall hinner]
        exact Tables.standard.takesSome_extend hb.consumes p callee
      simp only [hk, ↓reduceIte]
      show (Form.unary below >>= chain (Descent.arguments inner)) (t :: us) = _
      unfold Form.unary
      rw [bind_assoc, take_bind_apply, take_bind_apply, hsign, bind_assoc, bind_apply, bind_apply]
      cases hread : below (.expression .unary) us with
      | fail c rest => rfl
      | ok operand rest =>
        -- The operand has taken the arguments that come next.
        have hstops := (hb.expression hread).2.2.2.1
        have hparen := (Tables.stops_iff_of_multiplicative_le (by decide) (by decide)).mp hstops
        exact chain_of_none harguments (Descent.arguments_of_not_startsWith hparen)
    · have hne : some t.kind ≠ some .minus := fun h => hk (Option.some.inj h)
      simp only [hne, ↓reduceIte]
      unfold Descent.call
      rw [bind_apply, primary_eq hinner hk]
      cases Tables.standard.expressions t.kind with
      | none => rfl
      | some handler => rfl

end Sound

/-! ## Climbing and descending -/

/-- The layer whose operators are the loosest that bind tighter than the power. -/
def Power.layer? : Power → Option Layer
  | .lowest => some .equality
  | .equality => some .comparison
  | .comparison => some .term
  | .additive => some .factor
  | .multiplicative | .unary => some .unary
  | .call | .primary => none

/-- The power at which a layer is read. -/
def Layer.power : Layer → Power
  | .equality => .lowest
  | .comparison => .equality
  | .term => .comparison
  | .factor => .additive
  | .unary => .unary

theorem Layer.layer?_power (layer : Layer) : layer.power.layer? = some layer := by
  cases layer <;> rfl

namespace Tables

/-- One level of the climb is put together as the descent is, if what lies below it is. -/
theorem consuming_expression_read (hb : Sound levels below)
    (h : ∀ p layer, p.layer? = some layer →
      Consuming NoLevelLeft (below (.expression p)) layer.read)
    {p : Power} {layer : Layer} (hlayer : p.layer? = some layer) :
    Consuming NoLevelLeft (standard.expression below p) layer.read := by
  have hunary (p : Power) (hp : .multiplicative ≤ p) (hcall : p < .call) :
      Consuming NoLevelLeft (standard.expression below p) (Layer.read .unary) := by
    have heq := hb.expression_eq_unary (fun layer => below (.expression layer.power)) hp hcall rfl rfl
    rw [heq, Layer.read_unary]
    exact Descent.consuming_unary fun layer => h _ _ layer.layer?_power
  have hrow (p : Power) {outer inner : Layer} {operators : List Kind} (hp : p < .multiplicative)
      (hoperators : ∀ k, k ∈ operators ↔ k.binaryPower? = some p.next)
      (hnext : p.next.layer? = some inner) (hread : outer.read = Descent.row inner.read operators)
      (hfirst : Consuming NoLevelLeft (standard.expression below p.next) inner.read) :
      Consuming NoLevelLeft (standard.expression below p) outer.read := by
    rw [hb.expression_eq_row hp hoperators, hread]
    exact Descent.consuming_links hfirst (h _ _ hnext).parallel operators
  have hfactor : Consuming NoLevelLeft (standard.expression below .additive)
      (Layer.read .factor) := by
    apply hrow .additive (by decide) _ rfl Layer.read_factor (hunary _ (by decide) (by decide))
    intro k
    cases k <;> decide
  have hterm : Consuming NoLevelLeft (standard.expression below .comparison)
      (Layer.read .term) := by
    apply hrow .comparison (by decide) _ rfl Layer.read_term hfactor
    intro k
    cases k <;> decide
  have hcomparison : Consuming NoLevelLeft (standard.expression below .equality)
      (Layer.read .comparison) := by
    apply hrow .equality (by decide) _ rfl Layer.read_comparison hterm
    intro k
    cases k <;> decide
  have hequality : Consuming NoLevelLeft (standard.expression below .lowest)
      (Layer.read .equality) := by
    apply hrow .lowest (by decide) _ rfl Layer.read_equality hcomparison
    intro k
    cases k <;> decide
  cases p <;> cases hlayer
  · exact hequality
  · exact hcomparison
  · exact hterm
  · exact hfactor
  · exact hunary _ (by decide) (by decide)
  · exact hunary _ (by decide) (by decide)

/-- With any number of levels an expression is read as its layer is, unless it is given up for its
nesting. -/
theorem deepens_expression_read (levels : Nat) {p : Power} {layer : Layer}
    (hlayer : p.layer? = some layer) :
    Deepens (standard.read levels (.expression p)) layer.read := by
  apply Parallel.deepens
  apply Consuming.parallel
  -- Level by level the climb goes down to where no level is left, and the descent goes on.
  induction levels generalizing p layer with
  | zero =>
    have hpart : NoLevelLeft (fail .nestingTooDeep) layer.read := ⟨rfl, layer.takes_read⟩
    exact ⟨.part hpart (forward_fail _) layer.forward_read, takes_fail _⟩
  | succ levels ih =>
    exact consuming_expression_read (sound_read levels) (fun _ _ h => ih h) hlayer

end Tables

/-! ## Expressions read from a cursor -/

namespace Cursor

variable {c : Cursor} {layer : Layer}

/-- Precedence climbing agrees with the layered grammar. Wherever a cursor with the tables of the
language stands, and however deep: an expression that is not given up for its nesting is what the
plain descent reads there, with the same tree or the same error, and ends at the same token. -/
theorem expression_eq_run_read (hc : c.tables = .standard) (hlayer : p.layer? = some layer)
    (hdeep : ∀ e, (c.expression p).1 = .error e →
      e.cause.message? ≠ some "Nesting too deep.") :
    c.expression p = c.run layer.read := by
  unfold Cursor.expression Cursor.below at hdeep ⊢
  rw [hc] at hdeep ⊢
  rcases Tables.deepens_expression_read (nestingLimit - c.depth) hlayer c.rest with
    heq | ⟨rest, hfail, -⟩
  · unfold run
    rw [heq]
  · have herror := run_eq_error_iff.mpr ⟨_, rest, hfail, rfl, rfl⟩
    exact absurd (Complaint.message?_toError _ _ _) (hdeep _ (congrArg Prod.fst herror))

/-- The cursor stands before `- x ( ) * x + x >`, at depth 3, and what it reads lacks an operand. -/
theorem expression_eq_run_read_operand :
    let t (k : Kind) : Token := .bare k .origin
    let c : Cursor := ⟨[t .lineEnd, t .minus, t .identifier, t .leftParen, t .rightParen, t .times,
      t .identifier, t .plus, t .identifier, t .greater], 1, .standard, 3⟩
    c.tables = .standard ∧ Power.layer? .equality = some .comparison ∧
      (∀ e, (c.expression .equality).1 = .error e →
        e.cause.message? ≠ some "Nesting too deep.") ∧
      c.expression .equality = c.run (Layer.read .comparison) := by
  intro t c
  have hdeep : ∀ e, (c.expression .equality).1 = .error e →
      e.cause.message? ≠ some "Nesting too deep." := by
    rintro e ⟨⟩
    decide
  exact ⟨rfl, rfl, hdeep, expression_eq_run_read rfl rfl hdeep⟩

end Cursor

end Scriptlet
