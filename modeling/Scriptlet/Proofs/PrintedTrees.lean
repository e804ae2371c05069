import Scriptlet.Proofs.Alike
import Scriptlet.Proofs.Parenthesised
import Scriptlet.Proofs.Soundness

/-!
# Reading printed trees

The printed form of a tree that was read from a source says all of the tree but where its tokens
stand (`Program.alike_of_toString_eq`). The word after the parenthesis and the number of parts tell
the form of a node, so that a name may be the same as one of these words; and the words tell the
tokens.
-/

namespace Scriptlet

namespace Tree

/-! ## Trees as words in parentheses -/

mutual

/-- The words and parentheses that the tree is printed as. -/
def sexpr : Tree → Sexpr
  | .binary left operator right => .list [.word operator.lexeme, left.sexpr, right.sexpr]
  | .unary operator operand => .list [.word operator.lexeme, operand.sexpr]
  | .literal value => .word value.lexeme
  | .group inner => .list [.word "group", inner.sexpr]
  | .reference name => .word name.lexeme
  | .assign name value => .list [.word "assign", .word name.lexeme, value.sexpr]
  | .declare name none isMutable => .list [.word (declareWord isMutable), .word name.lexeme]
  | .declare name (some value) isMutable =>
    .list [.word (declareWord isMutable), .word name.lexeme, value.sexpr]
  | .function name parameters body =>
    .list (.word "fun" :: .word name.lexeme ::
      .list (parameters.map fun p => .word p.lexeme) :: sexprs body)
  | .conditional condition thenBranch none =>
    .list [.word "if", condition.sexpr, thenBranch.sexpr]
  | .conditional condition thenBranch (some elseBranch) =>
    .list [.word "if", condition.sexpr, thenBranch.sexpr, elseBranch.sexpr]
  | .call callee arguments => .list (.word "call" :: callee.sexpr :: sexprs arguments)
  | .block statements => .list (.word "block" :: sexprs statements)

/-- The same of each tree of a list. -/
def sexprs : List Tree → List Sexpr
  | [] => []
  | t :: ts => t.sexpr :: sexprs ts

end

theorem texts_map_word (ps : List Token) :
    Sexpr.texts (ps.map fun p => .word p.lexeme) = ps.map Token.lexeme := by
  induction ps with
  | nil => rfl
  | cons p ps ih => rw [List.map_cons, Sexpr.texts, ih, Sexpr.toString, List.map_cons]

mutual

theorem toString_sexpr (e : Tree) : e.sexpr.toString = e.toString := by
  cases e with
  | binary l o r =>
    rw [toString, ← toString_sexpr l, ← toString_sexpr r]
    rfl
  | unary o e =>
    rw [toString, ← toString_sexpr e]
    rfl
  | literal v => rfl
  | group e =>
    rw [toString, ← toString_sexpr e]
    rfl
  | reference n => rfl
  | assign n v =>
    rw [toString, ← toString_sexpr v]
    rfl
  | declare n v? m =>
    cases v? with
    | none => rfl
    | some v =>
      rw [toString, ← toString_sexpr v]
      rfl
  | function n ps b =>
    rw [toString, ← texts_sexprs b, ← texts_map_word]
    rfl
  | conditional c t e? =>
    cases e? with
    | none =>
      rw [toString, ← toString_sexpr c, ← toString_sexpr t]
      rfl
    | some e =>
      rw [toString, ← toString_sexpr c, ← toString_sexpr t, ← toString_sexpr e]
      rfl
  | call f as =>
    rw [toString, ← toString_sexpr f, ← texts_sexprs as]
    rfl
  | block ss =>
    rw [toString, ← texts_sexprs ss]
    rfl

theorem texts_sexprs (es : List Tree) : Sexpr.texts (sexprs es) = texts es := by
  cases es with
  | nil => rfl
  | cons e es => rw [sexprs, Sexpr.texts, toString_sexpr e, texts_sexprs es, texts]

end

/-! ## Trees of a source -/

/-- The token is a name that can stand in a source. -/
def IsName (t : Token) : Prop := t.Writable ∧ t.kind = .identifier

/-- The token is a number or a text that can stand in a source, and no floating number. -/
def IsLiteral (t : Token) : Prop := t.Writable ∧ (t.kind = .integer ∨ t.kind = .text)

/-- The token is an operator that can stand between operands in a source. -/
def IsOperator (t : Token) : Prop := t.Writable ∧ t.kind.binaryPower? ≠ none

/-- The tokens that the tree keeps can stand in a source, and are of the kinds that the form of each
node has. -/
inductive Legible : Tree → Prop
  | binary {l r : Tree} {o : Token} : IsOperator o → Legible l → Legible r →
      Legible (.binary l o r)
  | unary {o : Token} {e : Tree} : o.Writable → o.kind = .minus → Legible e → Legible (.unary o e)
  | literal {v : Token} : IsLiteral v → Legible (.literal v)
  | group {e : Tree} : Legible e → Legible (.group e)
  | reference {n : Token} : IsName n → Legible (.reference n)
  | assign {n : Token} {v : Tree} : IsName n → Legible v → Legible (.assign n v)
  | declare {n : Token} {m : Bool} : IsName n → Legible (.declare n none m)
  | declareValue {n : Token} {v : Tree} {m : Bool} : IsName n → Legible v →
      Legible (.declare n (some v) m)
  | function {n : Token} {ps : List Token} {b : List Tree} : IsName n → (∀ p ∈ ps, IsName p) →
      (∀ s ∈ b, Legible s) → Legible (.function n ps b)
  | choice {c t : Tree} : Legible c → Legible t → Legible (.conditional c t none)
  | choiceElse {c t e : Tree} : Legible c → Legible t → Legible e →
      Legible (.conditional c t (some e))
  | call {f : Tree} {as : List Tree} : Legible f → (∀ a ∈ as, Legible a) → Legible (.call f as)
  | block {ss : List Tree} : (∀ s ∈ ss, Legible s) → Legible (.block ss)

section Tokens

variable {t u : Token}

theorem IsName.ne_lineEnd (h : IsName t) : t.kind ≠ .lineEnd := by
  rw [h.2]
  decide

theorem IsLiteral.ne_lineEnd (h : IsLiteral t) : t.kind ≠ .lineEnd := by
  rcases h.2 with hk | hk <;> rw [hk] <;> decide

theorem IsOperator.ne_lineEnd (h : IsOperator t) : t.kind ≠ .lineEnd := by
  intro hk
  have hpower := h.2
  rw [hk] at hpower
  exact hpower rfl

theorem isOperator_of_minus (h : t.Writable) (hk : t.kind = .minus) : IsOperator t := by
  refine ⟨h, ?_⟩
  rw [hk]
  decide

theorem IsName.isWord (h : IsName t) : IsWord t.lexeme.toList := by
  apply h.1.isWord_lexeme
  rw [h.2]
  decide

theorem IsLiteral.isWord (h : IsLiteral t) : IsWord t.lexeme.toList := by
  apply h.1.isWord_lexeme
  rcases h.2 with hk | hk <;> rw [hk] <;> decide

/-- A literal does not look like a name. -/
theorem IsLiteral.lexeme_ne (h : IsLiteral t) (hu : IsName u) : t.lexeme ≠ u.lexeme := by
  intro hlexeme
  have hcontent := h.1.content_eq hu.1 h.ne_lineEnd hu.ne_lineEnd hlexeme
  have hkind : t.kind = .identifier := (congrArg Prod.fst hcontent).trans hu.2
  rcases h.2 with hk | hk <;> cases hk.symm.trans hkind

end Tokens

/-! ## Words of a printed tree -/

/-- The lexemes of the operators that stand between operands. -/
def operatorWords : List String := ["=", ">", "+", "-", "*", "/"]

/-- The other words that come first in a printed node. -/
def nodeWords : List String := ["group", "assign", "let", "var", "fun", "if", "call", "block"]

theorem IsOperator.lexeme_mem {o : Token} (h : IsOperator o) : o.lexeme ∈ operatorWords := by
  have hk := h.2
  cases h.1 with
  | @symbol k p =>
    show k.symbol?.getD "" ∈ operatorWords
    cases k <;> first | decide | exact absurd rfl hk
  | name => exact absurd rfl hk
  | integer => exact absurd rfl hk
  | text => exact absurd rfl hk

theorem declareWord_mem_nodeWords (isMutable : Bool) : declareWord isMutable ∈ nodeWords := by
  cases isMutable <;> decide

theorem clean_word {w : String} (h : w ∈ nodeWords ++ operatorWords) : (Sexpr.word w).Clean := by
  have hwords : ∀ w ∈ nodeWords ++ operatorWords, w.toList ≠ [] ∧ w.toList.all Text.inWord := by
    decide
  have hw := hwords w h
  exact .word (.plain hw.1 (List.all_eq_true.mp hw.2))

theorem IsOperator.clean {o : Token} (h : IsOperator o) : (Sexpr.word o.lexeme).Clean :=
  clean_word (List.mem_append_right _ h.lexeme_mem)

theorem clean_sexprs {es : List Tree} (h : ∀ e ∈ es, e.sexpr.Clean) :
    (Sexpr.list (sexprs es)).Clean := by
  induction es with
  | nil => exact .nil
  | cons e es ih =>
    have hes := List.forall_mem_cons.mp h
    exact .cons hes.1 (ih hes.2)

theorem clean_names {ps : List Token} (h : ∀ p ∈ ps, IsName p) :
    (Sexpr.list (ps.map fun p => .word p.lexeme)).Clean := by
  induction ps with
  | nil => exact .nil
  | cons p ps ih =>
    have hps := List.forall_mem_cons.mp h
    exact .cons (.word hps.1.isWord) (ih hps.2)

/-- What is printed as a word is one. -/
theorem Legible.clean {e : Tree} (h : e.Legible) : e.sexpr.Clean := by
  induction h with
  | binary ho _ _ hl hr => exact .cons ho.clean (.cons hl (.cons hr .nil))
  | unary ho hk _ he => exact .cons (isOperator_of_minus ho hk).clean (.cons he .nil)
  | literal hv => exact .word hv.isWord
  | group _ he => exact .cons (clean_word (by decide)) (.cons he .nil)
  | reference hn => exact .word hn.isWord
  | assign hn _ hv => exact .cons (clean_word (by decide)) (.cons (.word hn.isWord) (.cons hv .nil))
  | @declare _ m hn =>
    exact .cons (clean_word (List.mem_append_left _ (declareWord_mem_nodeWords m)))
      (.cons (.word hn.isWord) .nil)
  | @declareValue _ _ m hn _ hv =>
    exact .cons (clean_word (List.mem_append_left _ (declareWord_mem_nodeWords m)))
      (.cons (.word hn.isWord) (.cons hv .nil))
  | function hn hps _ hb =>
    exact .cons (clean_word (by decide))
      (.cons (.word hn.isWord) (.cons (clean_names hps) (clean_sexprs hb)))
  | choice _ _ hc ht => exact .cons (clean_word (by decide)) (.cons hc (.cons ht .nil))
  | choiceElse _ _ _ hc ht he =>
    exact .cons (clean_word (by decide)) (.cons hc (.cons ht (.cons he .nil)))
  | call _ _ hf has => exact .cons (clean_word (by decide)) (.cons hf (clean_sexprs has))
  | block _ hss => exact .cons (clean_word (by decide)) (clean_sexprs hss)

/-! ## Forms of nodes -/

/-- What the printed form shows of the form of a node at once. -/
inductive Shape where
  | leaf
  | binary
  | unary
  | group
  | assign
  | declare (isMutable hasValue : Bool)
  | function
  | conditional (hasElse : Bool)
  | call
  | block

/-- The form of the root. -/
def shape : Tree → Shape
  | .binary .. => .binary
  | .unary .. => .unary
  | .literal _ => .leaf
  | .group _ => .group
  | .reference _ => .leaf
  | .assign .. => .assign
  | .declare _ v? m => .declare m v?.isSome
  | .function .. => .function
  | .conditional _ _ e? => .conditional e?.isSome
  | .call .. => .call
  | .block _ => .block

end Tree

/-- The form of a printed node: the first word tells it, and the number of parts. -/
def Sexpr.shape : Sexpr → Tree.Shape
  | .list [.word "group", _] => .group
  | .list [.word "assign", _, _] => .assign
  | .list [.word "let", _] => .declare false false
  | .list [.word "let", _, _] => .declare false true
  | .list [.word "var", _] => .declare true false
  | .list [.word "var", _, _] => .declare true true
  | .list (.word "fun" :: _) => .function
  | .list [.word "if", _, _] => .conditional false
  | .list [.word "if", _, _, _] => .conditional true
  | .list (.word "call" :: _) => .call
  | .list (.word "block" :: _) => .block
  | .list [_, _] => .unary
  | .list [_, _, _] => .binary
  | _ => .leaf

namespace Tree

namespace Legible

variable {e e' : Tree}

theorem shape_sexpr (h : e.Legible) : e.sexpr.shape = e.shape := by
  cases h with
  | @binary l r o ho _ _ =>
    have hmem := ho.lexeme_mem
    simp only [operatorWords, List.mem_cons, List.not_mem_nil, or_false] at hmem
    rcases hmem with h | h | h | h | h | h <;> rw [sexpr, h] <;> rfl
  | @unary o e ho hk _ =>
    have hminus : o.lexeme = "-" := by
      have hnone : o.payload = .none := ho.payload_eq_none_iff.mpr (by rw [hk]; decide)
      rw [Token.lexeme, hnone, hk]
      rfl
    rw [sexpr, hminus]
    rfl
  | @declare _ m _ => cases m <;> rfl
  | @declareValue _ _ m _ _ => cases m <;> rfl
  | _ => rfl

end Legible

/-! ## Reading the words -/

/-- The tokens are the same but for their positions. -/
def SameContent (t u : Token) : Prop := t.content = u.content

theorem IsName.sameContent {n n' : Token} (h : IsName n) (h' : IsName n')
    (hlexeme : n.lexeme = n'.lexeme) : SameContent n n' :=
  h.1.content_eq h'.1 h.ne_lineEnd h'.ne_lineEnd hlexeme

theorem IsLiteral.sameContent {v v' : Token} (h : IsLiteral v) (h' : IsLiteral v')
    (hlexeme : v.lexeme = v'.lexeme) : SameContent v v' :=
  h.1.content_eq h'.1 h.ne_lineEnd h'.ne_lineEnd hlexeme

theorem IsOperator.sameContent {o o' : Token} (h : IsOperator o) (h' : IsOperator o')
    (hlexeme : o.lexeme = o'.lexeme) : SameContent o o' :=
  h.1.content_eq h'.1 h.ne_lineEnd h'.ne_lineEnd hlexeme

theorem sameContent_names {ps ps' : List Token} (h : ∀ p ∈ ps, IsName p)
    (h' : ∀ p ∈ ps', IsName p)
    (hwords : ps.map (fun p => Sexpr.word p.lexeme) = ps'.map fun p => .word p.lexeme) :
    List.Forall₂ SameContent ps ps' := by
  induction ps generalizing ps' with
  | nil =>
    cases ps' with
    | nil => exact .nil
    | cons p' ps' => cases hwords
  | cons p ps ih =>
    cases ps' with
    | nil => cases hwords
    | cons p' ps' =>
      have hps := List.forall_mem_cons.mp h
      have hps' := List.forall_mem_cons.mp h'
      have heq := List.cons.inj hwords
      exact .cons (hps.1.sameContent hps'.1 (Sexpr.word.inj heq.1)) (ih hps.2 hps'.2 heq.2)

theorem forall₂_alike_of_sexprs {es es' : List Tree}
    (h : ∀ e ∈ es, ∀ ⦃e' : Tree⦄, e'.Legible → e.sexpr = e'.sexpr → e.Alike SameContent e')
    (h' : ∀ e ∈ es', Legible e) (hwords : sexprs es = sexprs es') :
    List.Forall₂ (Tree.Alike SameContent) es es' := by
  induction es generalizing es' with
  | nil =>
    cases es' with
    | nil => exact .nil
    | cons e' es' => cases hwords
  | cons e es ih =>
    cases es' with
    | nil => cases hwords
    | cons e' es' =>
      have hes := List.forall_mem_cons.mp h
      have hes' := List.forall_mem_cons.mp h'
      have heq := List.cons.inj hwords
      exact .cons (hes.1 hes'.1 heq.1) (ih hes.2 hes'.2 heq.2)

theorem Legible.shape_eq {e e' : Tree} (he : e.Legible) (he' : e'.Legible)
    (h : e.sexpr = e'.sexpr) : e.shape = e'.shape := by
  rw [← he.shape_sexpr, ← he'.shape_sexpr, h]

/-- Trees of the same words are the same but for the positions of their tokens. -/
theorem Legible.alike {e e' : Tree} (he : e.Legible) (he' : e'.Legible)
    (h : e.sexpr = e'.sexpr) : e.Alike SameContent e' := by
  -- One tree is taken apart. The shape that the words show leaves one form for the other, or two
  -- where a word stands alone.
  induction he generalizing e' with
  | binary ho hl hr ihl ihr =>
    have hshape := (Legible.binary ho hl hr).shape_eq he' h
    cases he' with
    | binary ho' hl' hr' =>
      simp only [sexpr, Sexpr.list.injEq, List.cons.injEq, Sexpr.word.injEq, and_true] at h
      exact .binary (ihl hl' h.2.1) (ho.sameContent ho' h.1) (ihr hr' h.2.2)
    | _ => cases hshape
  | unary ho hk he ih =>
    have hshape := (Legible.unary ho hk he).shape_eq he' h
    cases he' with
    | unary ho' hk' he' =>
      simp only [sexpr, Sexpr.list.injEq, List.cons.injEq, Sexpr.word.injEq, and_true] at h
      have hminus := (isOperator_of_minus ho hk).sameContent (isOperator_of_minus ho' hk') h.1
      exact .unary hminus (ih he' h.2)
    | _ => cases hshape
  | literal hv =>
    have hshape := (Legible.literal hv).shape_eq he' h
    cases he' with
    | literal hv' => exact .literal (hv.sameContent hv' (Sexpr.word.inj h))
    | reference hn' => exact absurd (Sexpr.word.inj h) (hv.lexeme_ne hn')
    | _ => cases hshape
  | group he ih =>
    have hshape := (Legible.group he).shape_eq he' h
    cases he' with
    | group he' =>
      simp only [sexpr, Sexpr.list.injEq, List.cons.injEq, true_and, and_true] at h
      exact .group (ih he' h)
    | _ => cases hshape
  | reference hn =>
    have hshape := (Legible.reference hn).shape_eq he' h
    cases he' with
    | literal hv' => exact absurd (Sexpr.word.inj h).symm (hv'.lexeme_ne hn)
    | reference hn' => exact .reference (hn.sameContent hn' (Sexpr.word.inj h))
    | _ => cases hshape
  | assign hn hv ih =>
    have hshape := (Legible.assign hn hv).shape_eq he' h
    cases he' with
    | assign hn' hv' =>
      simp only [sexpr, Sexpr.list.injEq, List.cons.injEq, Sexpr.word.injEq, true_and,
        and_true] at h
      exact .assign (hn.sameContent hn' h.1) (ih hv' h.2)
    | _ => cases hshape
  | declare hn =>
    have hshape := (Legible.declare hn).shape_eq he' h
    cases he' with
    | declare hn' =>
      cases hshape
      simp only [sexpr, Sexpr.list.injEq, List.cons.injEq, Sexpr.word.injEq, true_and,
        and_true] at h
      exact .declare (hn.sameContent hn' h) .none
    | _ => cases hshape
  | declareValue hn hv ih =>
    have hshape := (Legible.declareValue hn hv).shape_eq he' h
    cases he' with
    | declareValue hn' hv' =>
      cases hshape
      simp only [sexpr, Sexpr.list.injEq, List.cons.injEq, Sexpr.word.injEq, true_and,
        and_true] at h
      exact .declare (hn.sameContent hn' h.1) (.some (ih hv' h.2))
    | _ => cases hshape
  | function hn hps hb ih =>
    have hshape := (Legible.function hn hps hb).shape_eq he' h
    cases he' with
    | function hn' hps' hb' =>
      simp only [sexpr, Sexpr.list.injEq, List.cons.injEq, Sexpr.word.injEq, true_and] at h
      exact .function (hn.sameContent hn' h.1) (sameContent_names hps hps' h.2.1)
        (forall₂_alike_of_sexprs ih hb' h.2.2)
    | _ => cases hshape
  | choice hc ht ihc iht =>
    have hshape := (Legible.choice hc ht).shape_eq he' h
    cases he' with
    | choice hc' ht' =>
      simp only [sexpr, Sexpr.list.injEq, List.cons.injEq, true_and, and_true] at h
      exact .conditional (ihc hc' h.1) (iht ht' h.2) .none
    | _ => cases hshape
  | choiceElse hc ht he ihc iht ihe =>
    have hshape := (Legible.choiceElse hc ht he).shape_eq he' h
    cases he' with
    | choiceElse hc' ht' he' =>
      simp only [sexpr, Sexpr.list.injEq, List.cons.injEq, true_and, and_true] at h
      exact .conditional (ihc hc' h.1) (iht ht' h.2.1) (.some (ihe he' h.2.2))
    | _ => cases hshape
  | call hf has ihf ihas =>
    have hshape := (Legible.call hf has).shape_eq he' h
    cases he' with
    | call hf' has' =>
      simp only [sexpr, Sexpr.list.injEq, List.cons.injEq, true_and] at h
      exact .call (ihf hf' h.1) (forall₂_alike_of_sexprs ihas has' h.2)
    | _ => cases hshape
  | block hss ih =>
    have hshape := (Legible.block hss).shape_eq he' h
    cases he' with
    | block hss' =>
      simp only [sexpr, Sexpr.list.injEq, List.cons.injEq, true_and] at h
      exact .block (forall₂_alike_of_sexprs ih hss' h)
    | _ => cases hshape

/-! ## Trees that are read -/

/-- The tokens are one, and it can stand in a source. -/
def SameWritable (t u : Token) : Prop := t = u ∧ t.Writable

theorem IsExpression.legible {e : Tree} (h : e.IsExpression) (hkept : e.Alike SameWritable e) :
    e.Legible := by
  induction h with
  | literal hk =>
    cases hkept with
    | literal hv => exact .literal ⟨hv.2, hk.imp_right fun hk => hk.resolve_left hv.2.ne_floating⟩
  | reference hk =>
    cases hkept with
    | reference hn => exact .reference ⟨hn.2, hk⟩
  | group _ ih =>
    cases hkept with
    | group he => exact .group (ih he)
  | unary hk _ _ ih =>
    cases hkept with
    | unary ho he => exact .unary ho.2 hk (ih he)
  | binary hpower _ _ _ _ ihl ihr =>
    cases hkept with
    | binary hl ho hr =>
      have hoperator : IsOperator _ := ⟨ho.2, Option.ne_none_iff_exists'.mpr ⟨_, hpower⟩⟩
      exact .binary hoperator (ihl hl) (ihr hr)
  | call _ _ _ ihf ihas =>
    cases hkept with
    | call hf has =>
      have hall := List.forall₂_same.mp has
      exact .call (ihf hf) fun a ha => ihas a ha (hall a ha)

mutual

theorem IsStatement.legible {e : Tree} (h : e.IsStatement) (hkept : e.Alike SameWritable e) :
    e.Legible := by
  cases h with
  | expression hexp _ => exact hexp.legible hkept
  | assign hk hvalue _ =>
    cases hkept with
    | assign hn hv => exact .assign ⟨hn.2, hk⟩ (hvalue.legible hv)
  | choice hcondition hthen =>
    cases hkept with
    | conditional hc ht _ => exact .choice (hcondition.legible hc) (hthen.legible ht)
  | choiceElse hcondition hthen _ helse =>
    cases hkept with
    | conditional hc ht he =>
      cases he with
      | some he =>
        exact .choiceElse (hcondition.legible hc) (hthen.legible ht) (helse.legible he)
  | block hall =>
    cases hkept with
    | block hss =>
      have hkept := List.forall₂_same.mp hss
      exact .block fun s hs => (hall s hs).legible (hkept s hs)

theorem IsDeclaration.legible {e : Tree} (h : e.IsDeclaration) (hkept : e.Alike SameWritable e) :
    e.Legible := by
  cases h with
  | statement hstmt => exact hstmt.legible hkept
  | declare hk =>
    cases hkept with
    | declare hn _ => exact .declare ⟨hn.2, hk⟩
  | declareValue hk hvalue =>
    cases hkept with
    | declare hn hv =>
      cases hv with
      | some hv => exact .declareValue ⟨hn.2, hk⟩ (hvalue.legible hv)
  | function hk hps hall =>
    cases hkept with
    | function hn hkeptps hb =>
      have hkeptps := List.forall₂_same.mp hkeptps
      have hkept := List.forall₂_same.mp hb
      exact .function ⟨hn.2, hk⟩ (fun p hp => ⟨(hkeptps p hp).2, hps p hp⟩)
        fun s hs => (hall s hs).legible (hkept s hs)

end

end Tree

namespace Program

variable {ts us : List Token} {e e' : Tree}

theorem legible_of_declaration {rest : List Token} (hts : ∀ t ∈ ts, t.Writable)
    (h : declaration ts = .ok e rest) : e.Legible := by
  -- Read alike to themselves, the tokens are found again in the tree.
  have hsame : List.Forall₂ Tree.SameWritable ts ts :=
    List.forall₂_same.mpr fun t ht => ⟨rfl, hts t ht⟩
  have hkind (t u : Token) (htu : Tree.SameWritable t u) : t.kind = u.kind :=
    congrArg Token.kind htu.1
  have hread := Tables.standard.alike_read hkind nestingLimit .declaration ts ts hsame
  change (declaration ts).Alike _ _ (declaration ts) at hread
  rw [h] at hread
  cases hread with
  | ok hkept _ => exact ((sound_read nestingLimit).declaration h).isPart.legible hkept

/-- What is read of tokens that can stand in a source keeps only such tokens. -/
theorem legible_of_mem_body (hts : ∀ t ∈ ts, t.Writable) (he : e ∈ (ofTokens ts).body) :
    e.Legible := by
  rcases exists_declaration_of_mem_body he with ⟨vs, rest, hsuffix, hread⟩
  exact legible_of_declaration (fun t ht => hts t (hsuffix.mem ht)) hread

/-- A printed tree says all of the tree but where its tokens stand. Two trees that are read from
sources without floating numbers, and are printed alike, have the same form at each node, the same
tokens there, and as many parts. -/
theorem alike_of_toString_eq {source source' : String} (hts : tokenize source = .ok ts)
    (hus : tokenize source' = .ok us) (hno : ∀ t ∈ ts, t.kind ≠ .floating)
    (hno' : ∀ u ∈ us, u.kind ≠ .floating) (he : e ∈ (ofTokens ts).body)
    (he' : e' ∈ (ofTokens us).body) (h : e.toString = e'.toString) :
    e.Alike (fun t u => t.content = u.content) e' := by
  rcases exists_munches_of_tokenize hts with ⟨texts, -, hyields⟩
  rcases exists_munches_of_tokenize hus with ⟨texts', -, hyields'⟩
  have hlegible := legible_of_mem_body (fun t ht => hyields.writable t ht (hno t ht)) he
  have hlegible' := legible_of_mem_body (fun u hu => hyields'.writable u hu (hno' u hu)) he'
  have hsexpr : e.sexpr = e'.sexpr := by
    apply hlegible.clean.toString_inj hlegible'.clean
    rw [Tree.toString_sexpr, Tree.toString_sexpr, h]
  exact hlegible.alike hlegible' hsexpr

/-- A name that is the same as the first word of the node, called with a text in which a list ends;
and the same on the second line of a source. -/
theorem alike_of_toString_eq_call :
    let call (p : Position) : Token := ⟨.identifier, .name "call", p⟩
    let text (p : Position) : Token := ⟨.text, .text ") (", p⟩
    let ts : List Token := [call ⟨0, 0⟩, .bare .leftParen ⟨0, 4⟩, text ⟨0, 5⟩,
      .bare .rightParen ⟨0, 10⟩, .bare .lineEnd ⟨0, 11⟩]
    let us : List Token := [.bare .lineEnd ⟨0, 0⟩, call ⟨1, 1⟩, .bare .leftParen ⟨1, 5⟩,
      text ⟨1, 6⟩, .bare .rightParen ⟨1, 11⟩, .bare .lineEnd ⟨1, 12⟩]
    let e : Tree := .call (.reference (call ⟨0, 0⟩)) [.literal (text ⟨0, 5⟩)]
    let e' : Tree := .call (.reference (call ⟨1, 1⟩)) [.literal (text ⟨1, 6⟩)]
    tokenize "call(\x22) (\x22)\n" = .ok ts ∧ tokenize "\n call(\x22) (\x22)\n" = .ok us ∧
      (∀ t ∈ ts, t.kind ≠ .floating) ∧ (∀ u ∈ us, u.kind ≠ .floating) ∧
      e ∈ (ofTokens ts).body ∧ e' ∈ (ofTokens us).body ∧ e.toString = e'.toString ∧
      e.Alike (fun t u => t.content = u.content) e' := by
  intro call text ts us e e'
  have hts : tokenize "call(\x22) (\x22)\n" = .ok ts := by decide +kernel
  have hus : tokenize "\n call(\x22) (\x22)\n" = .ok us := by decide +kernel
  have hno : ∀ t ∈ ts, t.kind ≠ .floating := by decide
  have hno' : ∀ u ∈ us, u.kind ≠ .floating := by decide
  have hbody : (ofTokens ts).body = [e] := rfl
  have hbody' : (ofTokens us).body = [e'] := rfl
  have he : e ∈ (ofTokens ts).body := hbody ▸ List.mem_singleton_self e
  have he' : e' ∈ (ofTokens us).body := hbody' ▸ List.mem_singleton_self e'
  exact ⟨hts, hus, hno, hno', he, he', rfl, alike_of_toString_eq hts hus hno hno' he he' rfl⟩

end Program

end Scriptlet
