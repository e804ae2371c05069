import Scriptlet.Proofs.Completeness
import Scriptlet.Proofs.Phrases
import Scriptlet.Proofs.Soundness

/-!
# Trees of derived phrases

Whatever the grammar derives is the written form of a tree of the language (`Derives.exists_form`).
The grammar leaves open to which `if` an `else` belongs and the trees do not, so a derivation may
have to be regrouped.
-/

namespace Scriptlet

open Rule Form

variable {ts : List Token} {ms : List Mark}

/-! ## Written forms of phrases -/

/-- The marks are the written form of what the phrase stands for. -/
def Phrase.IsForm : Phrase → List Mark → Prop
  | .declaration, ms => ∃ d : Tree, d.IsDeclaration ∧ ms = d.lines
  | .statement, ms => ∃ s : Tree, s.IsStatement ∧ ms = s.lines
  | .block, ms => ∃ ss : List Tree, (∀ s ∈ ss, s.IsDeclaration) ∧ ms = Tree.braced ss
  | .expression power, ms => ∃ e : Tree, (e.IsExpression ∧ power ≤ e.tightness) ∧ ms = e.written
  | .name, ms => ∃ t : Token, t.kind = .identifier ∧ ms = [.this t]
  | .list item, ms => ∃ forms, (∀ form ∈ forms, item.IsForm form) ∧ ms = Mark.items forms
  | .laterItems item, ms => ∃ forms, (∀ form ∈ forms, item.IsForm form) ∧ ms = Mark.laterItems forms

/-- Forms that are each made from something are made from a list of such things. -/
theorem exists_map_eq_of_forall {α : Type} {P : α → Prop} {form : α → List Mark}
    {forms : List (List Mark)} (h : ∀ f ∈ forms, ∃ a, P a ∧ f = form a) :
    ∃ as : List α, (∀ a ∈ as, P a) ∧ forms = as.map form := by
  induction forms with
  | nil => exact ⟨[], by simp, rfl⟩
  | cons f forms ih =>
    obtain ⟨⟨a, ha, rfl⟩, hforms⟩ := List.forall_mem_cons.mp h
    obtain ⟨as, has, rfl⟩ := ih hforms
    exact ⟨a :: as, List.forall_mem_cons.mpr ⟨ha, has⟩, rfl⟩

/-! ## Statements -/

/-- An expression on a line of its own is a statement, be it an assignment or not. -/
theorem Tree.IsExpression.exists_statement {e : Tree} (he : e.IsExpression)
    (h : Spells (e.written ++ [.any .lineEnd]) ts) :
    ∃ s : Tree, s.IsStatement ∧ Spells s.lines ts := by
  obtain ⟨l, hread, hl⟩ := (complete_read (e.inside + 1)).expression_lineEnd he
    (Nat.lt_succ_self _) ⟨ts, (List.append_nil ts).symm, h⟩
  obtain ⟨⟨read, hts, hspell⟩, hstmt, -, -⟩ := (sound_read (e.inside + 1)).expressionStatement
    (expressionStatement_eq_ok_iff.mpr ⟨e, l, hread, hl, rfl⟩)
  rw [List.append_nil] at hts
  exact ⟨ofExpression e, hstmt, hts ▸ hspell⟩

theorem Tree.lines_choice (condition thenBranch : Tree) :
    (Tree.conditional condition thenBranch none).lines = .any .ifWord :: .any .leftParen ::
      (condition.written ++ .any .rightParen :: thenBranch.lines) := by
  simp only [lines, written, ending, List.append_nil]

theorem Tree.lines_choiceElse (condition thenBranch elseBranch : Tree) :
    (Tree.conditional condition thenBranch (some elseBranch)).lines = .any .ifWord ::
      .any .leftParen :: (condition.written ++ .any .rightParen ::
        (thenBranch.lines ++ .any .elseWord :: elseBranch.lines)) := by
  simp only [lines, written, ending, List.append_nil]

/-- An `else` after a statement that ends in a choice without one belongs to that choice. -/
theorem Tree.IsStatement.exists_else {s s' : Tree} (hs' : s'.IsStatement) (hs : s.IsStatement)
    (hopen : s.endsOpen = true) :
    ∃ e : Tree, e.IsStatement ∧ e.lines = s.lines ++ .any .elseWord :: s'.lines := by
  -- The choice that the `else` belongs to is the last branch of the last branch, and so on.
  induction hsize : s.size using Nat.strongRecOn generalizing s with
  | ind n ih =>
    subst hsize
    cases hs with
    | @choice c t hc ht =>
      cases htopen : t.endsOpen with
      | false =>
        refine ⟨.conditional c t (some s'), .choiceElse hc ht htopen hs', ?_⟩
        simp [lines_choice, lines_choiceElse]
      | true =>
        have hlt : t.size < (Tree.conditional c t none).size := by
          rw [Tree.size]
          omega
        obtain ⟨e, he, hlines⟩ := ih _ hlt ht htopen rfl
        refine ⟨.conditional c e none, .choice hc he, ?_⟩
        simp [lines_choice, hlines]
    | @choiceElse c t f hc ht hclosed hf =>
      have hlt : f.size < (Tree.conditional c t (some f)).size := by
        rw [Tree.size]
        omega
      obtain ⟨e, he, hlines⟩ := ih _ hlt hf hopen rfl
      refine ⟨.conditional c t (some e), .choiceElse hc ht hclosed he, ?_⟩
      simp [lines_choiceElse, hlines]
    | expression he _ =>
      rw [he.endsOpen] at hopen
      cases hopen
    | assign => cases hopen
    | block => cases hopen

/-- Two statements with an `else` between them are what follows the condition of a choice. -/
theorem Tree.IsStatement.exists_choiceElse {c t f : Tree} (hc : c.IsExpression)
    (ht : t.IsStatement) (hf : f.IsStatement) :
    ∃ e : Tree, e.IsStatement ∧ e.lines = .any .ifWord :: .any .leftParen ::
      (c.written ++ .any .rightParen :: (t.lines ++ .any .elseWord :: f.lines)) := by
  cases hopen : t.endsOpen with
  | false => exact ⟨_, .choiceElse hc ht hopen hf, lines_choiceElse c t f⟩
  | true =>
    obtain ⟨e, he, hlines⟩ := hf.exists_else ht hopen
    exact ⟨.conditional c e none, .choice hc he, by rw [lines_choice, hlines]⟩

/-! ## Derivations -/

/-- The marks of declarations in braces begin with empty lines. -/
theorem Tree.exists_braced_eq (ss : List Tree) : ∃ ms, Tree.braced ss = .lineEnds :: ms := by
  cases ss with
  | nil => exact ⟨_, rfl⟩
  | cons s ss => exact ⟨_, rfl⟩

theorem exists_declareKind {word : Kind} (h : word = .letWord ∨ word = .varWord) :
    ∃ isMutable, word = Tree.declareKind isMutable := by
  rcases h with rfl | rfl
  · exact ⟨false, rfl⟩
  · exact ⟨true, rfl⟩

theorem spells_any {k : Kind} (h : ts.map Token.kind = [k]) : Spells [.any k] ts := by
  obtain ⟨t, us, rfl, ht, hus⟩ := List.map_eq_cons_iff.mp h
  obtain rfl := List.map_eq_nil_iff.mp hus
  exact .any ht .nil

theorem exists_spells_this {k : Kind} (h : ts.map Token.kind = [k]) :
    ∃ t : Token, t.kind = k ∧ Spells [.this t] ts := by
  obtain ⟨t, us, rfl, ht, hus⟩ := List.map_eq_cons_iff.mp h
  obtain rfl := List.map_eq_nil_iff.mp hus
  exact ⟨t, ht, .this .nil⟩

/-- Tokens whose kinds the grammar derives are written forms. -/
theorem Derives.exists_form {x : Phrase} {w : List Kind} (h : Derives x w)
    (hts : ts.map Token.kind = w) : ∃ ms, x.IsForm ms ∧ Spells ms ts := by
  induction h generalizing ts with
  | @declare _ hword =>
    obtain ⟨isMutable, rfl⟩ := exists_declareKind hword
    obtain ⟨word, _, rfl, hk, hts⟩ := List.map_eq_cons_iff.mp hts
    obtain ⟨name, us, rfl, hname, hus⟩ := List.map_eq_cons_iff.mp hts
    exact ⟨_, ⟨.declare name none isMutable, .declare hname, rfl⟩,
      .any hk (.this (spells_any hus))⟩
  | declareValue hword _ ih =>
    obtain ⟨isMutable, rfl⟩ := exists_declareKind hword
    obtain ⟨word, _, rfl, hk, hts⟩ := List.map_eq_cons_iff.mp hts
    obtain ⟨name, _, rfl, hname, hts⟩ := List.map_eq_cons_iff.mp hts
    obtain ⟨sign, _, rfl, hsign, hts⟩ := List.map_eq_cons_iff.mp hts
    obtain ⟨us, vs, rfl, hus, hvs⟩ := List.map_eq_append_iff.mp hts
    obtain ⟨_, ⟨e, ⟨he, -⟩, rfl⟩, hspell⟩ := ih hus
    exact ⟨_, ⟨.declare name (some e) isMutable, .declareValue hname he, rfl⟩,
      .any hk (.this (.any hsign (hspell.append (spells_any hvs))))⟩
  | function _ _ ihp ihb =>
    obtain ⟨word, _, rfl, hk, hts⟩ := List.map_eq_cons_iff.mp hts
    obtain ⟨name, _, rfl, hname, hts⟩ := List.map_eq_cons_iff.mp hts
    obtain ⟨l, _, rfl, hl, hts⟩ := List.map_eq_cons_iff.mp hts
    obtain ⟨us, _, rfl, hus, hts⟩ := List.map_eq_append_iff.mp hts
    obtain ⟨b, vs, rfl, hb, hvs⟩ := List.map_eq_cons_iff.mp hts
    obtain ⟨_, ⟨forms, hforms, rfl⟩, hparameters⟩ := ihp hus
    obtain ⟨ps, hps, rfl⟩ := exists_map_eq_of_forall hforms
    obtain ⟨_, ⟨ss, hss, rfl⟩, hbody⟩ := ihb hvs
    refine ⟨_, ⟨.function name ps ss, .function hname hps hss, rfl⟩, ?_⟩
    rw [Tree.lines, Tree.written, Tree.ending, List.append_nil]
    exact .any hk (.this (.any hl (hparameters.append (.any hb hbody))))
  | statement _ ih =>
    obtain ⟨_, ⟨s, hs, rfl⟩, hspell⟩ := ih hts
    exact ⟨_, ⟨s, .statement hs, rfl⟩, hspell⟩
  | choice _ _ ihc iht =>
    obtain ⟨word, _, rfl, hk, hts⟩ := List.map_eq_cons_iff.mp hts
    obtain ⟨l, _, rfl, hl, hts⟩ := List.map_eq_cons_iff.mp hts
    obtain ⟨us, _, rfl, hus, hts⟩ := List.map_eq_append_iff.mp hts
    obtain ⟨r, vs, rfl, hr, hvs⟩ := List.map_eq_cons_iff.mp hts
    obtain ⟨_, ⟨c, ⟨hc, -⟩, rfl⟩, hcspell⟩ := ihc hus
    obtain ⟨_, ⟨t, ht, rfl⟩, htspell⟩ := iht hvs
    refine ⟨_, ⟨.conditional c t none, .choice hc ht, rfl⟩, ?_⟩
    rw [Tree.lines_choice]
    exact .any hk (.any hl (hcspell.append (.any hr htspell)))
  | choiceElse _ _ _ ihc iht ihf =>
    obtain ⟨word, _, rfl, hk, hts⟩ := List.map_eq_cons_iff.mp hts
    obtain ⟨l, _, rfl, hl, hts⟩ := List.map_eq_cons_iff.mp hts
    obtain ⟨us, _, rfl, hus, hts⟩ := List.map_eq_append_iff.mp hts
    obtain ⟨r, _, rfl, hr, hts⟩ := List.map_eq_cons_iff.mp hts
    obtain ⟨vs, _, rfl, hvs, hts⟩ := List.map_eq_append_iff.mp hts
    obtain ⟨word', zs, rfl, hk', hzs⟩ := List.map_eq_cons_iff.mp hts
    obtain ⟨_, ⟨c, ⟨hc, -⟩, rfl⟩, hcspell⟩ := ihc hus
    obtain ⟨_, ⟨t, ht, rfl⟩, htspell⟩ := iht hvs
    obtain ⟨_, ⟨f, hf, rfl⟩, hfspell⟩ := ihf hzs
    obtain ⟨e, he, hlines⟩ := Tree.IsStatement.exists_choiceElse hc ht hf
    refine ⟨_, ⟨e, he, rfl⟩, ?_⟩
    rw [hlines]
    exact .any hk (.any hl (hcspell.append (.any hr (htspell.append (.any hk' hfspell)))))
  | braces _ ih =>
    obtain ⟨b, us, rfl, hb, hus⟩ := List.map_eq_cons_iff.mp hts
    obtain ⟨_, ⟨ss, hss, rfl⟩, hspell⟩ := ih hus
    refine ⟨_, ⟨.block ss, .block hss, rfl⟩, ?_⟩
    rw [Tree.lines, Tree.written, Tree.ending, List.append_nil]
    exact .any hb hspell
  | line _ ih =>
    obtain ⟨us, vs, rfl, hus, hvs⟩ := List.map_eq_append_iff.mp hts
    obtain ⟨_, ⟨e, ⟨he, -⟩, rfl⟩, hspell⟩ := ih hus
    obtain ⟨s, hs, hlines⟩ := he.exists_statement (hspell.append (spells_any hvs))
    exact ⟨_, ⟨s, hs, rfl⟩, hlines⟩
  | blockEnd =>
    exact ⟨_, ⟨[], by simp, rfl⟩, .noLineEnd (spells_any hts)⟩
  | blockLineEnd _ ih =>
    obtain ⟨l, us, rfl, hl, hus⟩ := List.map_eq_cons_iff.mp hts
    obtain ⟨_, ⟨ss, hss, rfl⟩, hspell⟩ := ih hus
    obtain ⟨ms, hms⟩ := Tree.exists_braced_eq ss
    refine ⟨_, ⟨ss, hss, rfl⟩, ?_⟩
    rw [hms] at hspell ⊢
    exact .lineEnd hl hspell
  | blockDeclaration _ _ ihd ihb =>
    obtain ⟨us, vs, rfl, hus, hvs⟩ := List.map_eq_append_iff.mp hts
    obtain ⟨_, ⟨d, hd, rfl⟩, hdspell⟩ := ihd hus
    obtain ⟨_, ⟨ss, hss, rfl⟩, hspell⟩ := ihb hvs
    exact ⟨_, ⟨d :: ss, List.forall_mem_cons.mpr ⟨hd, hss⟩, rfl⟩,
      .noLineEnd (hdspell.append hspell)⟩
  | @tighter power _ _ ih =>
    obtain ⟨_, ⟨e, ⟨he, hle⟩, rfl⟩, hspell⟩ := ih hts
    exact ⟨_, ⟨e, ⟨he, Nat.le_trans power.le_next hle⟩, rfl⟩, hspell⟩
  | @binary _ power _ _ hpower _ _ ihl ihr =>
    obtain ⟨us, _, rfl, hus, hts⟩ := List.map_eq_append_iff.mp hts
    obtain ⟨operator, vs, rfl, rfl, hvs⟩ := List.map_eq_cons_iff.mp hts
    obtain ⟨_, ⟨l, ⟨hl, hle⟩, rfl⟩, hlspell⟩ := ihl hus
    obtain ⟨_, ⟨r, ⟨hr, hnext⟩, rfl⟩, hrspell⟩ := ihr hvs
    have htight : (Tree.binary l operator r).tightness = power := by
      rw [Tree.tightness, hpower, Option.getD_some]
    have hlt : power < .primary :=
      Nat.lt_trans (Kind.binaryPower?_bounds hpower).2 (by decide)
    exact ⟨_, ⟨.binary l operator r, ⟨.binary hpower hl hle hr (Power.lt_of_next_le hlt hnext),
      Nat.le_of_eq (congrArg Power.rank htight.symm)⟩, rfl⟩, hlspell.append (.this hrspell)⟩
  | sign _ ih =>
    obtain ⟨operator, us, rfl, hk, hus⟩ := List.map_eq_cons_iff.mp hts
    obtain ⟨_, ⟨e, ⟨he, hle⟩, rfl⟩, hspell⟩ := ih hus
    exact ⟨_, ⟨.unary operator e, ⟨.unary hk he hle, Nat.le_refl _⟩, rfl⟩, .this hspell⟩
  | call _ _ ihc iha =>
    obtain ⟨us, _, rfl, hus, hts⟩ := List.map_eq_append_iff.mp hts
    obtain ⟨l, vs, rfl, hl, hvs⟩ := List.map_eq_cons_iff.mp hts
    obtain ⟨_, ⟨c, ⟨hc, hle⟩, rfl⟩, hcspell⟩ := ihc hus
    obtain ⟨_, ⟨forms, hforms, rfl⟩, harguments⟩ := iha hvs
    obtain ⟨as, has, rfl⟩ := exists_map_eq_of_forall hforms
    refine ⟨_, ⟨.call c as, ⟨.call hc hle fun a ha => (has a ha).1, Nat.le_refl _⟩, rfl⟩, ?_⟩
    rw [Tree.written, Tree.writtens_eq_map]
    exact hcspell.append (.any hl harguments)
  | literal hk =>
    obtain ⟨t, ht, hspell⟩ := exists_spells_this hts
    exact ⟨_, ⟨.literal t, ⟨.literal (ht ▸ hk), Nat.le_refl _⟩, rfl⟩, hspell⟩
  | reference =>
    obtain ⟨t, ht, hspell⟩ := exists_spells_this hts
    exact ⟨_, ⟨.reference t, ⟨.reference ht, Nat.le_refl _⟩, rfl⟩, hspell⟩
  | group _ ih =>
    obtain ⟨l, _, rfl, hl, hts⟩ := List.map_eq_cons_iff.mp hts
    obtain ⟨us, vs, rfl, hus, hvs⟩ := List.map_eq_append_iff.mp hts
    obtain ⟨_, ⟨e, ⟨he, -⟩, rfl⟩, hspell⟩ := ih hus
    exact ⟨_, ⟨.group e, ⟨.group he, Nat.le_refl _⟩, rfl⟩,
      .any hl (hspell.append (spells_any hvs))⟩
  | name =>
    obtain ⟨t, ht, hspell⟩ := exists_spells_this hts
    exact ⟨_, ⟨t, ht, rfl⟩, hspell⟩
  | noItem => exact ⟨_, ⟨[], by simp, rfl⟩, spells_any hts⟩
  | noLaterItem => exact ⟨_, ⟨[], by simp, rfl⟩, spells_any hts⟩
  | firstItem _ _ ihf iho =>
    obtain ⟨us, vs, rfl, hus, hvs⟩ := List.map_eq_append_iff.mp hts
    obtain ⟨first, hfirst, hspell⟩ := ihf hus
    obtain ⟨_, ⟨forms, hforms, rfl⟩, hothers⟩ := iho hvs
    exact ⟨_, ⟨first :: forms, List.forall_mem_cons.mpr ⟨hfirst, hforms⟩, rfl⟩,
      hspell.append hothers⟩
  | laterItem _ _ ihn iho =>
    obtain ⟨c, _, rfl, hc, hts⟩ := List.map_eq_cons_iff.mp hts
    obtain ⟨us, vs, rfl, hus, hvs⟩ := List.map_eq_append_iff.mp hts
    obtain ⟨next, hnext, hspell⟩ := ihn hus
    obtain ⟨_, ⟨forms, hforms, rfl⟩, hothers⟩ := iho hvs
    exact ⟨_, ⟨next :: forms, List.forall_mem_cons.mpr ⟨hnext, hforms⟩, rfl⟩,
      .any hc (hspell.append hothers)⟩

end Scriptlet
