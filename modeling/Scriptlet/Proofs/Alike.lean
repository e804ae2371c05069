import Mathlib.Data.List.Forall2
import Scriptlet.Proofs.Rounds

/-!
# Reading by kinds alone

A rule looks at the kinds of the tokens and passes the tokens on, whatever they carry. So token
lists of the same kinds are read alike: where the tokens of two lists are related one by one, and
related tokens are of one kind, the trees have the same shape with related tokens in the same
places, and the rules fail in the same way at the same place (`Tables.alike_read`). The same holds
of whole programs (`Program.ofTokens_alike`).
-/

namespace Scriptlet

variable {R : Token → Token → Prop} {α β γ δ : Type} {S : α → β → Prop} {T : γ → δ → Prop}

/-- The trees have the same shape, and the tokens at the same places of it are related. -/
inductive Tree.Alike (R : Token → Token → Prop) : Tree → Tree → Prop
  | binary {l l' r r' : Tree} {o o' : Token} : Alike R l l' → R o o' → Alike R r r' →
      Alike R (.binary l o r) (.binary l' o' r')
  | unary {o o' : Token} {e e' : Tree} : R o o' → Alike R e e' →
      Alike R (.unary o e) (.unary o' e')
  | literal {v v' : Token} : R v v' → Alike R (.literal v) (.literal v')
  | group {e e' : Tree} : Alike R e e' → Alike R (.group e) (.group e')
  | reference {n n' : Token} : R n n' → Alike R (.reference n) (.reference n')
  | assign {n n' : Token} {v v' : Tree} : R n n' → Alike R v v' →
      Alike R (.assign n v) (.assign n' v')
  | declare {n n' : Token} {v? v?' : Option Tree} {m : Bool} : R n n' →
      Option.Rel (Alike R) v? v?' → Alike R (.declare n v? m) (.declare n' v?' m)
  | function {n n' : Token} {ps ps' : List Token} {b b' : List Tree} : R n n' →
      List.Forall₂ R ps ps' → List.Forall₂ (Alike R) b b' →
      Alike R (.function n ps b) (.function n' ps' b')
  | conditional {c c' t t' : Tree} {e? e?' : Option Tree} : Alike R c c' → Alike R t t' →
      Option.Rel (Alike R) e? e?' → Alike R (.conditional c t e?) (.conditional c' t' e?')
  | call {f f' : Tree} {as as' : List Tree} : Alike R f f' → List.Forall₂ (Alike R) as as' →
      Alike R (.call f as) (.call f' as')
  | block {ss ss' : List Tree} : List.Forall₂ (Alike R) ss ss' →
      Alike R (.block ss) (.block ss')

/-- Both have values, which are related, or both fail with the same complaint; and they leave as
many tokens, which are related one by one. -/
inductive Outcome.Alike (R : Token → Token → Prop) (S : α → β → Prop) :
    Outcome α → Outcome β → Prop
  | ok {a : α} {b : β} {rest rest' : List Token} : S a b → List.Forall₂ R rest rest' →
      Alike R S (.ok a rest) (.ok b rest')
  | fail {c : Complaint} {rest rest' : List Token} : List.Forall₂ R rest rest' →
      Alike R S (.fail c rest) (.fail c rest')

/-- The rules end alike on tokens that are related one by one. -/
def Rule.Alike (R : Token → Token → Prop) (S : α → β → Prop) (r : Rule α) (r' : Rule β) : Prop :=
  ∀ ts us, List.Forall₂ R ts us → (r ts).Alike R S (r' us)

/-! ## Rules -/

namespace Rule

theorem alike_pure {a : α} {b : β} (h : S a b) : Alike R S (pure a) (pure b) :=
  fun _ _ hts => .ok h hts

theorem alike_fail (c : Complaint) : Alike R S (fail c) (fail c) := fun _ _ hts => .fail hts

theorem alike_take (c : Complaint) : Alike R R (take c) (take c) := by
  intro ts us hts
  cases hts with
  | nil => exact .fail .nil
  | cons ht hts => exact .ok ht hts

theorem Alike.bind {r : Rule α} {r' : Rule β} {f : α → Rule γ} {f' : β → Rule δ}
    (hr : Alike R S r r') (hf : ∀ a b, S a b → Alike R T (f a) (f' b)) :
    Alike R T (r >>= f) (r' >>= f') := by
  intro ts us hts
  rw [bind_apply, bind_apply]
  have ho := hr ts us hts
  generalize r ts = o at ho
  generalize r' us = o' at ho
  cases ho with
  | ok hab hrest => exact hf _ _ hab _ _ hrest
  | fail hrest => exact .fail hrest

theorem Alike.map {r : Rule α} {r' : Rule β} {g : α → γ} {g' : β → δ} (hr : Alike R S r r')
    (hg : ∀ a b, S a b → T (g a) (g' b)) : Alike R T (g <$> r) (g' <$> r') :=
  hr.bind fun a b hab => alike_pure (hg a b hab)

theorem Alike.map_some {r : Rule α} {r' : Rule β} (hr : Alike R S r r') :
    Alike R (Option.Rel S) (some <$> r) (some <$> r') :=
  hr.map fun _ _ hab => .some hab

theorem Alike.manyWithin {item : Rule (Option α)} {item' : Rule (Option β)}
    (h : Alike R (Option.Rel S) item item') {budget budget' : List Token}
    (hbudget : List.Forall₂ R budget budget') :
    Alike R (List.Forall₂ S) (manyWithin item budget) (manyWithin item' budget') := by
  induction hbudget with
  | nil =>
    refine h.map fun a? b? hab => ?_
    cases hab with
    | none => exact .nil
    | some hab => exact .cons hab .nil
  | cons _ _ ih =>
    refine h.bind fun a? b? hab => ?_
    cases hab with
    | none => exact alike_pure .nil
    | some hab => exact ih.bind fun as bs habs => alike_pure (.cons hab habs)

theorem Alike.many {item : Rule (Option α)} {item' : Rule (Option β)}
    (h : Alike R (Option.Rel S) item item') : Alike R (List.Forall₂ S) (many item) (many item') :=
  fun ts us hts => h.manyWithin hts ts us hts

theorem alike_chainWithin {link : α → Rule (Option α)} {link' : β → Rule (Option β)}
    (h : ∀ a b, S a b → Alike R (Option.Rel S) (link a) (link' b)) {budget budget' : List Token}
    (hbudget : List.Forall₂ R budget budget') {a : α} {b : β} (hab : S a b) :
    Alike R S (chainWithin link budget a) (chainWithin link' budget' b) := by
  induction hbudget generalizing a b with
  | nil =>
    refine (h a b hab).map fun a? b? hab' => ?_
    cases hab' with
    | none => exact hab
    | some hab' => exact hab'
  | cons _ _ ih =>
    refine (h a b hab).bind fun a? b? hab' => ?_
    cases hab' with
    | none => exact alike_pure hab
    | some hab' => exact ih hab'

theorem alike_chain {link : α → Rule (Option α)} {link' : β → Rule (Option β)}
    (h : ∀ a b, S a b → Alike R (Option.Rel S) (link a) (link' b)) {a : α} {b : β} (hab : S a b) :
    Alike R S (chain link a) (chain link' b) :=
  fun ts us hts => alike_chainWithin h hts hab ts us hts

/-! What a rule decides on is the kind of the next token. -/

section Kinds

variable (hR : ∀ t u, R t u → t.kind = u.kind)
include hR

theorem alike_kind? : Alike R Eq kind? kind? := by
  intro ts us hts
  refine .ok ?_ hts
  cases hts with
  | nil => rfl
  | cons ht _ => exact congrArg some (hR _ _ ht)

theorem alike_expect (k : Kind) (c : Complaint) : Alike R R (expect k c) (expect k c) := by
  intro ts us hts
  cases hts with
  | nil => exact .fail .nil
  | cons ht hts =>
    rw [expect, expect, hR _ _ ht]
    split
    · exact .ok ht hts
    · exact .fail (.cons ht hts)

theorem alike_acceptAny (ks : List Kind) : Alike R Eq (acceptAny ks) (acceptAny ks) := by
  intro ts us hts
  cases hts with
  | nil => exact .ok rfl .nil
  | cons ht hts =>
    rw [acceptAny, acceptAny, Token.isOneOf, Token.isOneOf, hR _ _ ht]
    split
    · exact .ok rfl hts
    · exact .ok rfl (.cons ht hts)

theorem forall₂_afterLineEnds {ts us : List Token} (hts : List.Forall₂ R ts us) :
    List.Forall₂ R (afterLineEnds ts) (afterLineEnds us) := by
  induction hts with
  | nil => exact .nil
  | cons ht hts ih =>
    rw [afterLineEnds, afterLineEnds, List.dropWhile_cons, List.dropWhile_cons, hR _ _ ht]
    split
    · exact ih
    · exact .cons ht hts

theorem alike_skipLineEnds : Alike R Eq skipLineEnds skipLineEnds :=
  fun _ _ hts => .ok rfl (forall₂_afterLineEnds hR hts)

theorem alike_separated {item : Rule α} {item' : Rule β} (h : Alike R S item item') :
    Alike R (List.Forall₂ S) (separated item) (separated item') := by
  refine h.bind fun a b hab => Alike.bind (S := List.Forall₂ S) (.many ?_)
    fun as bs habs => alike_pure (.cons hab habs)
  refine (alike_acceptAny hR _).bind fun more more' hmore => ?_
  subst hmore
  cases more with
  | true => exact h.map_some
  | false => exact alike_pure .none

end Kinds

end Rule

/-! ## Forms -/

section Forms

open Rule

variable (hR : ∀ t u, R t u → t.kind = u.kind) {below : Goal → Rule Tree}
  (hb : ∀ goal, Rule.Alike R (Tree.Alike R) (below goal) (below goal))

namespace Form

include hR

theorem alike_primary : Alike R (Tree.Alike R) primary primary := by
  refine (alike_take _).bind fun t u htu => ?_
  rw [hR t u htu]
  split
  · exact alike_pure (.reference htu)
  · exact alike_pure (.literal htu)
  · exact alike_pure (.literal htu)
  · exact alike_pure (.literal htu)
  · exact alike_fail _

theorem alike_closedList {item : Rule α} {item' : Rule β} (h : Alike R S item item')
    (closing : Complaint) :
    Alike R (List.Forall₂ S) (closedList item closing) (closedList item' closing) := by
  refine (alike_kind? hR).bind fun k k' hk => ?_
  subst hk
  have hclose (as : List α) (bs : List β) (habs : List.Forall₂ S as bs) :
      Alike R (List.Forall₂ S) (do let _ ← expect .rightParen closing; return as)
        (do let _ ← expect .rightParen closing; return bs) :=
    (alike_expect hR _ _).bind fun _ _ _ => alike_pure habs
  by_cases hk : k = some .rightParen
  · simp only [hk, ↓reduceIte]
    exact Alike.bind (S := List.Forall₂ S) (alike_pure .nil) hclose
  · simp only [hk, ↓reduceIte]
    exact (alike_separated hR h).bind hclose

/-- Whether a line assigns is a matter of its shape and of the kind of its operator. -/
theorem alike_ofExpression {e e' : Tree} (h : e.Alike R e') :
    (ofExpression e).Alike R (ofExpression e') := by
  have hsame := h
  cases h with
  | binary hl ho hr =>
    cases hl with
    | reference hn =>
      rw [ofExpression, ofExpression, hR _ _ ho]
      split
      · exact .assign hn hr
      · exact hsame
    | _ => exact hsame
  | _ => exact hsame

include hb

omit hR in
theorem alike_unary : Alike R (Tree.Alike R) (unary below) (unary below) := by
  apply (alike_take _).bind
  intro operator operator' hoperator
  apply (hb _).bind
  intro operand operand' hoperand
  exact alike_pure (.unary hoperator hoperand)

theorem alike_group : Alike R (Tree.Alike R) (group below) (group below) := by
  apply (alike_expect hR _ _).bind
  intro _ _ _
  apply (hb _).bind
  intro inner inner' hinner
  apply (alike_expect hR _ _).bind
  intro _ _ _
  exact alike_pure (.group hinner)

omit hR in
theorem alike_binary {left left' : Tree} (hleft : left.Alike R left') (power : Power) :
    Alike R (Tree.Alike R) (binary below left power) (binary below left' power) := by
  apply (alike_take _).bind
  intro operator operator' hoperator
  apply (hb _).bind
  intro right right' hright
  exact alike_pure (.binary hleft hoperator hright)

theorem alike_call {callee callee' : Tree} (hcallee : callee.Alike R callee') :
    Alike R (Tree.Alike R) (call below callee) (call below callee') := by
  apply (alike_expect hR _ _).bind
  intro _ _ _
  apply (alike_closedList hR (hb _) _).bind
  intro arguments arguments' harguments
  exact alike_pure (.call hcallee harguments)

theorem alike_expressionStatement :
    Alike R (Tree.Alike R) (expressionStatement below) (expressionStatement below) := by
  apply (hb _).bind
  intro e e' he
  apply (alike_expect hR _ _).bind
  intro _ _ _
  exact alike_pure (alike_ofExpression hR he)

theorem alike_declare : Alike R (Tree.Alike R) (declare below) (declare below) := by
  apply (alike_take _).bind
  intro keyword keyword' hkeyword
  apply (alike_expect hR _ _).bind
  intro name name' hname
  apply (alike_acceptAny hR _).bind
  intro hasValue hasValue' hsame
  subst hsame
  have hend (v? v?' : Option Tree) (hv : Option.Rel (Tree.Alike R) v? v?') :
      Alike R (Tree.Alike R)
        (do let _ ← expect .lineEnd .lineEndAfterDeclaration
            return .declare name v? (keyword.kind = .varWord))
        (do let _ ← expect .lineEnd .lineEndAfterDeclaration
            return .declare name' v?' (keyword'.kind = .varWord)) := by
    rw [hR _ _ hkeyword]
    exact (alike_expect hR _ _).bind fun _ _ _ => alike_pure (.declare hname hv)
  cases hasValue with
  | true => exact (hb _).map_some.bind hend
  | false => exact Alike.bind (S := Option.Rel (Tree.Alike R)) (alike_pure .none) hend

theorem alike_blockBody :
    Alike R (List.Forall₂ (Tree.Alike R)) (blockBody below) (blockBody below) := by
  refine Alike.bind (S := List.Forall₂ (Tree.Alike R)) (.many ?_) fun ss ss' hss =>
    (alike_expect hR _ _).bind fun _ _ _ => alike_pure hss
  apply (alike_skipLineEnds hR).bind
  intro _ _ _
  apply (alike_kind? hR).bind
  intro k k' hk
  subst hk
  split
  · exact alike_pure .none
  · exact (hb _).map_some

theorem alike_function : Alike R (Tree.Alike R) (function below) (function below) := by
  apply (alike_expect hR _ _).bind
  intro _ _ _
  apply (alike_expect hR _ _).bind
  intro name name' hname
  apply (alike_expect hR _ _).bind
  intro _ _ _
  apply (alike_closedList hR (alike_expect hR _ _) _).bind
  intro parameters parameters' hparameters
  apply (alike_expect hR _ _).bind
  intro _ _ _
  apply (alike_blockBody hR hb).bind
  intro body body' hbody
  exact alike_pure (.function hname hparameters hbody)

theorem alike_conditional : Alike R (Tree.Alike R) (conditional below) (conditional below) := by
  apply (alike_expect hR _ _).bind
  intro _ _ _
  apply (alike_expect hR _ _).bind
  intro _ _ _
  apply (hb _).bind
  intro condition condition' hcondition
  apply (alike_expect hR _ _).bind
  intro _ _ _
  apply (hb _).bind
  intro thenBranch thenBranch' hthen
  apply (alike_acceptAny hR _).bind
  intro hasElse hasElse' hsame
  subst hsame
  have hend (e? e?' : Option Tree) (he : Option.Rel (Tree.Alike R) e? e?') :
      Alike R (Tree.Alike R) (pure (.conditional condition thenBranch e?))
        (pure (.conditional condition' thenBranch' e?')) :=
    alike_pure (.conditional hcondition hthen he)
  cases hasElse with
  | true => exact (hb _).map_some.bind hend
  | false => exact Alike.bind (S := Option.Rel (Tree.Alike R)) (alike_pure .none) hend

theorem alike_block : Alike R (Tree.Alike R) (block below) (block below) := by
  apply (alike_expect hR _ _).bind
  intro _ _ _
  apply (alike_blockBody hR hb).bind
  intro statements statements' hstatements
  exact alike_pure (.block hstatements)

end Form

/-! ## Levels -/

include hR hb

theorem Handler.alike_rule (h : Handler) :
    Rule.Alike R (Tree.Alike R) (h.rule below) (h.rule below) := by
  cases h with
  | declaration => exact hb _
  | statement => exact hb _
  | expressionStatement => exact Form.alike_expressionStatement hR hb
  | declare => exact Form.alike_declare hR hb
  | function => exact Form.alike_function hR hb
  | conditional => exact Form.alike_conditional hR hb
  | block => exact Form.alike_block hR hb
  | primary => exact Form.alike_primary hR
  | unary => exact Form.alike_unary hb
  | group => exact Form.alike_group hR hb

theorem Extension.alike_rule {left left' : Tree} (hleft : left.Alike R left') (power : Power)
    (e : Extension) :
    Rule.Alike R (Tree.Alike R) (e.rule below left power) (e.rule below left' power) := by
  cases e with
  | binary => exact Form.alike_binary hb hleft power
  | call => exact Form.alike_call hR hb hleft

namespace Tables

variable (tables : Tables)

omit hb in
theorem alike_lookup (entries : Kind → Option α) :
    Rule.Alike R Eq (lookup entries) (lookup entries) := by
  refine (alike_kind? hR).bind fun k k' hk => ?_
  subst hk
  exact alike_pure rfl

theorem alike_extend (above : Power) {left left' : Tree} (hleft : left.Alike R left') :
    Rule.Alike R (Option.Rel (Tree.Alike R)) (tables.extend below above left)
      (tables.extend below above left') := by
  refine (alike_lookup hR _).bind fun operator? operator?' hsame => ?_
  subst hsame
  cases operator? with
  | none => exact alike_pure .none
  | some operator =>
    by_cases hp : operator.power ≤ above
    · simp only [hp, ↓reduceIte]
      exact alike_pure .none
    · simp only [hp, ↓reduceIte]
      exact (operator.extension.alike_rule hR hb hleft operator.power).map_some

theorem alike_expression (above : Power) :
    Rule.Alike R (Tree.Alike R) (tables.expression below above)
      (tables.expression below above) := by
  refine (alike_lookup hR _).bind fun handler? handler?' hsame => ?_
  subst hsame
  cases handler? with
  | none => exact alike_fail _
  | some handler =>
    exact (handler.alike_rule hR hb).bind fun left left' hleft =>
      alike_chain (fun _ _ h => tables.alike_extend hR hb above h) hleft

theorem alike_level (goal : Goal) :
    Rule.Alike R (Tree.Alike R) (tables.level below goal) (tables.level below goal) := by
  cases goal with
  | declaration =>
    refine (alike_lookup hR _).bind fun handler? handler?' hsame => ?_
    subst hsame
    cases handler? with
    | none => exact hb .statement
    | some handler => exact handler.alike_rule hR hb
  | statement =>
    refine (alike_lookup hR _).bind fun handler? handler?' hsame => ?_
    subst hsame
    cases handler? with
    | none => exact Form.alike_expressionStatement hR hb
    | some handler => exact handler.alike_rule hR hb
  | expression above => exact tables.alike_expression hR hb above

omit hb in
/-- Whatever the tables, related tokens are read alike. -/
theorem alike_read (levels : Nat) (goal : Goal) :
    Rule.Alike R (Tree.Alike R) (tables.read levels goal) (tables.read levels goal) := by
  induction levels generalizing goal with
  | zero => exact alike_fail _
  | succ levels ih => exact tables.alike_level hR ih goal

end Tables

end Forms

/-! ## Programs -/

/-- The tokens stand at the same place of the two lists. -/
def Token.SamePlace (ts us : List Token) (t u : Token) : Prop :=
  ∃ i : Nat, ts[i]? = some t ∧ us[i]? = some u

/-- The errors say the same about the tokens at the same place of the two lists, or about their
ends, and then stand at the last tokens. -/
inductive Error.SamePlace (ts us : List Token) : Error → Error → Prop
  | token {i : Nat} {t u : Token} {m : String} : ts[i]? = some t → us[i]? = some u →
      SamePlace ts us ⟨.unexpectedToken t.lexeme m, t.position⟩
        ⟨.unexpectedToken u.lexeme m, u.position⟩
  | ending {i : Nat} {t u : Token} {m : String} : ts[i]? = some t → us[i]? = some u →
      i + 1 = ts.length → i + 1 = us.length →
      SamePlace ts us ⟨.unexpectedEnd m, t.position⟩ ⟨.unexpectedEnd m, u.position⟩

namespace Program

variable {ts us : List Token}

theorem samePlace_kind (h : ts.map Token.kind = us.map Token.kind) (t u : Token)
    (htu : Token.SamePlace ts us t u) : t.kind = u.kind := by
  obtain ⟨i, ht, hu⟩ := htu
  have hi := congrArg (·[i]?) h
  simpa only [List.getElem?_map, ht, hu, Option.map_some, Option.some.injEq] using hi

theorem forall₂_samePlace (h : ts.length = us.length) :
    List.Forall₂ (Token.SamePlace ts us) ts us :=
  List.forall₂_iff_get.mpr ⟨h, fun i hts hus =>
    ⟨i, List.getElem?_eq_getElem hts, List.getElem?_eq_getElem hus⟩⟩

theorem forall₂_resumeAfter (hR : ∀ t u, R t u → t.kind = u.kind) (previous : Kind)
    (hts : List.Forall₂ R ts us) :
    List.Forall₂ R (resumeAfter previous ts) (resumeAfter previous us) := by
  induction hts generalizing previous with
  | nil => exact .nil
  | cons ht hts ih =>
    rw [resumeAfter, resumeAfter, hR _ _ ht]
    split
    · exact .cons ht hts
    · exact ih _

theorem forall₂_resume (hR : ∀ t u, R t u → t.kind = u.kind) (hts : List.Forall₂ R ts us) :
    List.Forall₂ R (resume ts) (resume us) := by
  cases hts with
  | nil => exact .nil
  | cons ht hts =>
    rw [resume, resume, hR _ _ ht]
    exact forall₂_resumeAfter hR _ hts

/-- A complaint about what is left of the two lists is about the same place of both. -/
theorem samePlace_toError (hne : ts ≠ []) (hlength : ts.length = us.length) (c : Complaint)
    {rest rest' : List Token} (hrest : List.Forall₂ (Token.SamePlace ts us) rest rest') :
    Error.SamePlace ts us (c.toError (Token.endPosition ts) rest)
      (c.toError (Token.endPosition us) rest') := by
  cases hrest with
  | cons htu _ =>
    obtain ⟨i, ht, hu⟩ := htu
    exact .token ht hu
  | nil =>
    obtain ⟨init, t, rfl⟩ := (List.eq_nil_or_concat ts).resolve_left hne
    have hne' : us ≠ [] := by
      rintro rfl
      simp at hlength
    obtain ⟨init', u, rfl⟩ := (List.eq_nil_or_concat us).resolve_left hne'
    simp only [List.concat_eq_append, List.length_append, List.length_singleton,
      Nat.add_right_cancel_iff] at hlength ⊢
    have ht : Token.endPosition (init ++ [t]) = t.position := by simp [Token.endPosition]
    have hu : Token.endPosition (init' ++ [u]) = u.position := by simp [Token.endPosition]
    rw [Complaint.toError, Complaint.toError, ht, hu]
    refine .ending (i := init.length) ?_ ?_ ?_ ?_
    · exact List.getElem?_concat_length
    · rw [hlength]
      exact List.getElem?_concat_length
    · simp
    · simp [hlength]

/-- Round by round the same is found in both lists. -/
theorem alike_pieces (h : ts.map Token.kind = us.map Token.kind) (hne : ts ≠ [])
    {budget budget' vs ws : List Token} (hbudget : budget.length = budget'.length)
    (hvs : List.Forall₂ (Token.SamePlace ts us) vs ws) :
    let found := pieces (Token.endPosition ts) budget vs
    let found' := pieces (Token.endPosition us) budget' ws
    List.Forall₂ (Tree.Alike (Token.SamePlace ts us)) (trees found) (trees found') ∧
      List.Forall₂ (Error.SamePlace ts us) (failures found) (failures found') := by
  have hR := samePlace_kind h
  have hlength : ts.length = us.length := by simpa using congrArg List.length h
  induction budget generalizing budget' vs ws with
  | nil =>
    obtain rfl := List.eq_nil_of_length_eq_zero hbudget.symm
    exact ⟨.nil, .nil⟩
  | cons _ budget ih =>
    cases budget' with
    | nil => cases hbudget
    | cons _ budget' =>
      have hstart := Rule.forall₂_afterLineEnds hR hvs
      have hbudget := Nat.succ.inj hbudget
      rw [pieces, pieces]
      generalize Rule.afterLineEnds vs = start at hstart
      generalize Rule.afterLineEnds ws = start' at hstart
      cases hstart with
      | nil => exact ⟨.nil, .nil⟩
      | cons ht hstart =>
        have hread := Tables.standard.alike_read hR nestingLimit .declaration _ _ (.cons ht hstart)
        simp only [declaration]
        generalize Tables.standard.read nestingLimit .declaration _ = o at hread
        generalize Tables.standard.read nestingLimit .declaration _ = o' at hread
        cases hread with
        | ok htree hrest =>
          obtain ⟨htrees, hfailures⟩ := ih hbudget hrest
          exact ⟨.cons htree htrees, hfailures⟩
        | fail hrest =>
          obtain ⟨htrees, hfailures⟩ := ih hbudget (forall₂_resume hR hrest)
          exact ⟨htrees, .cons (samePlace_toError hne hlength _ hrest) hfailures⟩

/-- What is read depends on the kinds of the tokens alone. From lists of the same kinds, whatever
their tokens carry and wherever they stand, as many declarations are read and as many errors
reported; declarations have the same shape, with tokens of the same places of the lists at the same
places of the trees, and errors complain in the same words of the same places. -/
theorem ofTokens_alike (h : ts.map Token.kind = us.map Token.kind) :
    List.Forall₂ (Tree.Alike (Token.SamePlace ts us)) (ofTokens ts).body (ofTokens us).body ∧
      List.Forall₂ (Error.SamePlace ts us) (ofTokens ts).errors (ofTokens us).errors := by
  have hlength : ts.length = us.length := by simpa using congrArg List.length h
  by_cases hne : ts = []
  · subst hne
    obtain rfl := List.eq_nil_of_length_eq_zero hlength.symm
    exact ⟨.nil, .nil⟩
  · rw [ofTokens_eq, ofTokens_eq]
    exact alike_pieces h hne hlength (forall₂_samePlace hlength)

/-- A declaration of a name and a line that starts with an operator, as a scanner would give them
and with payloads and positions that fit nothing. -/
theorem ofTokens_alike_payloads :
    let ts : List Token := [⟨.letWord, .none, ⟨0, 0⟩⟩, ⟨.identifier, .name "x", ⟨0, 4⟩⟩,
      ⟨.lineEnd, .none, ⟨0, 5⟩⟩, ⟨.plus, .none, ⟨1, 0⟩⟩]
    let us : List Token := [⟨.letWord, .text "y", ⟨7, 3⟩⟩, ⟨.identifier, .integer 1, ⟨0, 0⟩⟩,
      ⟨.lineEnd, .name "z", ⟨0, 0⟩⟩, ⟨.plus, .floating ⟨0⟩, ⟨2, 9⟩⟩]
    ts.map Token.kind = us.map Token.kind ∧
      List.Forall₂ (Tree.Alike (Token.SamePlace ts us)) (ofTokens ts).body (ofTokens us).body ∧
      List.Forall₂ (Error.SamePlace ts us) (ofTokens ts).errors (ofTokens us).errors :=
  ⟨rfl, ofTokens_alike rfl⟩

end Program

end Scriptlet
