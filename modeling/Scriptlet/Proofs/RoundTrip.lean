import Scriptlet.Proofs.Completeness
import Scriptlet.Proofs.Levels
import Scriptlet.Proofs.Rounds
import Scriptlet.Proofs.Soundness

/-!
# Programs read from their written form

However a list of declarations is written, with whatever empty lines, reading gives them back, up to
the first one that nests too deep.
-/

namespace Scriptlet.Program

open Rule

variable {p : Position} {ts : List Token}

/-- A declaration within the nesting limit is read, if no `else` comes after it. -/
theorem declaration_of_spellsTo {d : Tree} {rest : List Token} (hd : d.IsDeclaration)
    (hlevels : d.levels ≤ nestingLimit) (h : SpellsTo d.lines ts rest)
    (helse : ¬ StartsWith .elseWord rest) : declaration ts = .ok d rest :=
  (complete_read nestingLimit).declaration hd hlevels h fun _ => helse

/-- A declaration beyond the nesting limit is given up for its nesting, at one of its tokens. -/
theorem declaration_too_deep {d : Tree} {rest : List Token} (hd : d.IsDeclaration)
    (hlevels : nestingLimit < d.levels) (h : SpellsTo d.lines ts rest)
    (helse : ¬ StartsWith .elseWord rest) :
    ∃ t left, declaration ts = .fail .nestingTooDeep (t :: left) ∧ t ∈ ts := by
  -- With more levels it would be read, to its end. So it is given up before that.
  have henough : d.levels ≤ nestingLimit + (d.levels - nestingLimit) := by omega
  have hread := (complete_read _).declaration hd henough h fun _ => helse
  rcases Tables.standard.deepens_read nestingLimit (d.levels - nestingLimit) .declaration ts with
    heq | ⟨left, hfail, hpast⟩
  · rw [hread] at heq
    obtain ⟨-, -, -, hwithin⟩ := (sound_read nestingLimit).declaration heq.symm
    exact absurd hlevels (Nat.not_lt_of_le hwithin)
  · have hlt := hpast d rest hread
    have hsuffix := suffix_of_declaration_fail hfail
    cases left with
    | nil => exact absurd hlt (Nat.not_lt_zero _)
    | cons t left => exact ⟨t, left, hfail, hsuffix.mem (List.mem_cons_self ..)⟩

/-- Declarations within the nesting limit are read one after the other. -/
theorem pieces_append_of_spells {before after : List Tree}
    (hbefore : ∀ d ∈ before, d.IsDeclaration ∧ d.levels ≤ nestingLimit)
    (hafter : ∀ d ∈ after, d.IsDeclaration) (h : Spells (Tree.program (before ++ after)) ts) :
    ∃ rest, rest <:+ ts ∧ Spells (Tree.program after) rest ∧
      pieces p ts ts = before.map .ok ++ pieces p rest rest := by
  induction before generalizing ts with
  | nil => exact ⟨ts, List.suffix_refl ts, h, rfl⟩
  | cons d before ih =>
    obtain ⟨⟨hd, hlevels⟩, hbefore⟩ := List.forall_mem_cons.mp hbefore
    have hall : ∀ d ∈ before ++ after, d.IsDeclaration := by
      intro d' hd'
      rcases List.mem_append.mp hd' with hd' | hd'
      · exact (hbefore d' hd').1
      · exact hafter d' hd'
    obtain ⟨ls, us, rfl, hls, hus⟩ := Spells.lineEnds_iff.mp h
    obtain ⟨read, mid, rfl, hread, hmid⟩ := hus.exists_of_append
    have hspell : SpellsTo d.lines (read ++ mid) mid := ⟨read, rfl, hread⟩
    have helse := Tree.not_startsWith_else_of_program hall ⟨mid, (List.append_nil mid).symm, hmid⟩
    have hok := declaration_of_spellsTo hd hlevels hspell helse
    obtain ⟨rest, hsuffix, hrest, hpieces⟩ := ih hbefore hmid
    refine ⟨rest, ?_, hrest, ?_⟩
    · rw [← List.append_assoc]
      exact hsuffix.trans (List.suffix_append _ _)
    · obtain ⟨t, us, hts, hk⟩ := hd.starts hspell
      rw [hts] at hok ⊢
      rw [pieces_lineEnds hls, pieces_ok (fun hline => hk (.inr (.inl hline))) hok, hpieces]
      rfl

/-- After the last declaration there are line ends at most. -/
theorem pieces_of_spells_nil (h : Spells (Tree.program []) ts) : pieces p ts ts = [] := by
  obtain ⟨ls, us, rfl, hls, hus⟩ := Spells.lineEnds_iff.mp h
  cases hus
  rw [pieces_lineEnds hls, pieces_nil]

/-- A declaration beyond the nesting limit is reported as one. -/
theorem pieces_of_spells_too_deep {d : Tree} {after : List Tree} (hd : d.IsDeclaration)
    (hlevels : nestingLimit < d.levels) (hafter : ∀ d ∈ after, d.IsDeclaration)
    (h : Spells (Tree.program (d :: after)) ts) :
    ∃ t ∈ ts, ∃ others, pieces p ts ts = .error
      ⟨.unexpectedToken t.lexeme Complaint.nestingTooDeep.message, t.position⟩ :: others := by
  obtain ⟨ls, us, rfl, hls, hus⟩ := Spells.lineEnds_iff.mp h
  obtain ⟨read, mid, rfl, hread, hmid⟩ := hus.exists_of_append
  have hspell : SpellsTo d.lines (read ++ mid) mid := ⟨read, rfl, hread⟩
  have helse := Tree.not_startsWith_else_of_program hafter ⟨mid, (List.append_nil mid).symm, hmid⟩
  obtain ⟨t, left, hfail, ht⟩ := declaration_too_deep hd hlevels hspell helse
  refine ⟨t, List.mem_append_right ls ht, pieces p (resume (t :: left)) (resume (t :: left)), ?_⟩
  obtain ⟨u, us, hts, hk⟩ := hd.starts hspell
  rw [hts] at hfail ⊢
  rw [pieces_lineEnds hls, pieces_fail (fun hline => hk (.inr (.inl hline))) hfail]
  rfl

/-- A list of declarations is read back from every written form of it exactly if no declaration
nests beyond the limit. Else the ones before the first that does are read, and the first error is
that this one, at one of the tokens, nests too deep. -/
theorem ofTokens_of_spells {ds : List Tree} (hds : ∀ d ∈ ds, d.IsDeclaration)
    (h : Spells (Tree.program ds) ts) :
    (ofTokens ts = ⟨ds, []⟩ ↔ ∀ d ∈ ds, d.levels ≤ nestingLimit) ∧
      ∀ before d after, ds = before ++ d :: after → (∀ b ∈ before, b.levels ≤ nestingLimit) →
        nestingLimit < d.levels → ∃ t ∈ ts, ∃ body errors, ofTokens ts =
          ⟨before ++ body,
            ⟨.unexpectedToken t.lexeme "Nesting too deep.", t.position⟩ :: errors⟩ := by
  have hdeep : ∀ before d after, ds = before ++ d :: after →
      (∀ b ∈ before, b.levels ≤ nestingLimit) → nestingLimit < d.levels →
      ∃ t ∈ ts, ∃ body errors, ofTokens ts =
        ⟨before ++ body,
          ⟨.unexpectedToken t.lexeme "Nesting too deep.", t.position⟩ :: errors⟩ := by
    rintro before d after rfl hbefore hd
    obtain ⟨hbefore', hafter⟩ := List.forall_mem_append.mp hds
    obtain ⟨rest, hsuffix, hrest, hpieces⟩ := pieces_append_of_spells (p := Token.endPosition ts)
      (fun b hb => ⟨hbefore' b hb, hbefore b hb⟩) hafter h
    obtain ⟨hdecl, hafter⟩ := List.forall_mem_cons.mp hafter
    obtain ⟨t, ht, others, hfirst⟩ := pieces_of_spells_too_deep hdecl hd hafter hrest
    refine ⟨t, hsuffix.mem ht, trees others, failures others, ?_⟩
    rw [ofTokens_eq, hpieces, hfirst]
    simp [Complaint.message]
  refine ⟨⟨fun hread d hd => ?_, fun hlevels => ?_⟩, hdeep⟩
  · -- The first declaration beyond the limit would have been reported.
    cases hfirst : ds.find? fun d => nestingLimit < d.levels with
    | none =>
      have hnone := List.find?_eq_none.mp hfirst d hd
      exact Nat.le_of_not_lt (by simpa using hnone)
    | some d' =>
      obtain ⟨hd', before, after, hsplit, hbefore⟩ := List.find?_eq_some_iff_append.mp hfirst
      obtain ⟨t, -, body, errors, htoo⟩ := hdeep before d' after hsplit
        (fun b hb => Nat.le_of_not_lt (by simpa using hbefore b hb)) (of_decide_eq_true hd')
      rw [hread] at htoo
      cases htoo
  · rw [← List.append_nil ds] at h
    obtain ⟨rest, -, hrest, hpieces⟩ := pieces_append_of_spells (p := Token.endPosition ts)
      (fun d hd => ⟨hds d hd, hlevels d hd⟩) (by simp) h
    rw [ofTokens_eq, hpieces, pieces_of_spells_nil hrest]
    simp

/-- A choice between an assignment and a block, and the declaration of a name after it. -/
theorem ofTokens_of_spells_choice :
    let x : Token := ⟨.identifier, .name "x", ⟨0, 0⟩⟩
    let one : Tree := .literal ⟨.integer, .integer 1, ⟨0, 0⟩⟩
    let sum : Tree := .binary one (.bare .plus ⟨0, 0⟩) (.call (.reference x) [one])
    let ds : List Tree :=
      [.conditional (.reference x) (.assign x sum) (some (.block [])), .declare x (some sum) true]
    ofTokens ((Tree.program ds).flatMap Mark.plain) = ⟨ds, []⟩ := by
  intro x one sum ds
  have hx : (Tree.reference x).IsExpression := .reference rfl
  have hone : one.IsExpression := .literal (.inl rfl)
  have hcall : (Tree.call (.reference x) [one]).IsExpression :=
    .call hx (by decide) (by simp [hone])
  have hsum : sum.IsExpression := .binary rfl hone (by decide) hcall (by decide)
  have hassign : (Tree.assign x sum).IsStatement := .assign rfl hsum (by decide)
  have hds : ∀ d ∈ ds, d.IsDeclaration := by
    simp only [ds, List.forall_mem_cons]
    exact ⟨.statement (.choiceElse hx hassign rfl (.block (by simp))), .declareValue rfl hsum,
      by simp⟩
  exact (ofTokens_of_spells hds (.plain _)).1.mpr (by decide)

end Scriptlet.Program
