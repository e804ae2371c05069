import Scriptlet.Proofs.RoundTrip

/-!
# Heights of trees

The nesting limit counts the levels that are open at once. A left operand and what is called are
read before the node that they become a part of, on its level, so a step down to one of them adds to
the height of a tree and not to its nesting. Every other step opens a level: with only these counted
no tree is higher than the limit (`Program.count_nested_lt`), but operators and calls in a row make
a tree as high as one likes (`Program.exists_path_chained`).
-/

namespace Scriptlet

open Rule

/-- A step from a node of a tree down to one of its parts. -/
inductive Step where
  /-- Down to a left operand or to what is called. -/
  | chained
  /-- Down to any other part. -/
  | nested
deriving DecidableEq, Repr

/-- The levels that a step opens. -/
def Step.levels : Step → Nat
  | .chained => 0
  | .nested => 1

namespace Tree

/-- The step leads from the root of the first tree down to the root of the second one. -/
inductive Part : Tree → Step → Tree → Prop
  | left {l r : Tree} {o : Token} : Part (.binary l o r) .chained l
  | right {l r : Tree} {o : Token} : Part (.binary l o r) .nested r
  | operand {o : Token} {e : Tree} : Part (.unary o e) .nested e
  | inner {e : Tree} : Part (.group e) .nested e
  | assigned {name : Token} {value : Tree} : Part (.assign name value) .nested value
  | declared {name : Token} {value : Tree} {isMutable : Bool} :
      Part (.declare name (some value) isMutable) .nested value
  | body {name : Token} {parameters : List Token} {body : List Tree} {s : Tree} : s ∈ body →
      Part (.function name parameters body) .nested s
  | condition {c t : Tree} {e? : Option Tree} : Part (.conditional c t e?) .nested c
  | thenBranch {c t : Tree} {e? : Option Tree} : Part (.conditional c t e?) .nested t
  | elseBranch {c t e : Tree} : Part (.conditional c t (some e)) .nested e
  | callee {f : Tree} {as : List Tree} : Part (.call f as) .chained f
  | argument {f a : Tree} {as : List Tree} : a ∈ as → Part (.call f as) .nested a
  | statement {ss : List Tree} {s : Tree} : s ∈ ss → Part (.block ss) .nested s

/-- The steps lead from the root of the tree down to one of its nodes. There is one node more on
the way than there are steps, and the longest way ends at a leaf. -/
inductive Path : Tree → List Step → Prop
  | root {e : Tree} : Path e []
  | step {e e' : Tree} {s : Step} {path : List Step} : e.Part s e' → Path e' path →
      Path e (s :: path)

/-! ## Steps and levels -/

theorem inside_lt_deepest {ts : List Tree} {t : Tree} (h : t ∈ ts) : t.inside < deepest ts := by
  have hle : t.levels ≤ deepest ts := deepest_le_iff.mp (Nat.le_refl _) t h
  have hpos := t.entry_pos
  unfold levels at hle
  omega

theorem inside_lt_deepestArgument {ts : List Tree} {t : Tree} (h : t ∈ ts) :
    t.inside < deepestArgument ts :=
  deepestArgument_le_iff.mp (Nat.le_refl _) t h

variable {e e' : Tree} {s : Step} {path : List Step}

/-- A step down an expression opens its levels, and leads to an expression. -/
theorem IsExpression.of_part (h : e.IsExpression) (hpart : e.Part s e') :
    e'.IsExpression ∧ e'.inside + s.levels ≤ e.inside := by
  cases h with
  | literal _ => cases hpart
  | reference _ => cases hpart
  | group hinner =>
    cases hpart with
    | inner => exact ⟨hinner, Nat.le_refl _⟩
  | unary _ hoperand _ =>
    cases hpart with
    | operand => exact ⟨hoperand, Nat.le_refl _⟩
  | binary _ hleft _ hright _ =>
    cases hpart with
    | left => exact ⟨hleft, Nat.le_max_left _ _⟩
    | right => exact ⟨hright, Nat.le_max_right _ _⟩
  | call hcallee _ hargs =>
    cases hpart with
    | callee => exact ⟨hcallee, Nat.le_max_left _ _⟩
    | argument hmem =>
      have hlt := inside_lt_deepestArgument hmem
      exact ⟨hargs _ hmem, Nat.le_trans hlt (Nat.le_max_right _ _)⟩

/-- So does a step down a statement. -/
theorem IsStatement.of_part (h : e.IsStatement) (hpart : e.Part s e') :
    (e'.IsExpression ∨ e'.IsDeclaration) ∧ e'.inside + s.levels ≤ e.inside := by
  cases h with
  | expression hexp _ =>
    rcases hexp.of_part hpart with ⟨hexp', hle⟩
    exact ⟨.inl hexp', hle⟩
  | assign _ hvalue _ =>
    cases hpart with
    | assigned => exact ⟨.inl hvalue, Nat.le_succ _⟩
  | choice hcondition hthen =>
    have hentry := hthen.two_le_entry
    cases hpart with
    | condition => exact ⟨.inl hcondition, Nat.le_max_left _ _⟩
    | thenBranch =>
      -- A statement opens two levels at least, of which the choice has opened one.
      refine ⟨.inr (.statement hthen), ?_⟩
      rw [inside, Step.levels]
      omega
  | choiceElse hcondition hthen _ helse =>
    have hentry := hthen.two_le_entry
    have hentry' := helse.two_le_entry
    cases hpart with
    | condition =>
      refine ⟨.inl hcondition, ?_⟩
      rw [inside, Step.levels]
      omega
    | thenBranch =>
      refine ⟨.inr (.statement hthen), ?_⟩
      rw [inside, Step.levels]
      omega
    | elseBranch =>
      refine ⟨.inr (.statement helse), ?_⟩
      rw [inside, Step.levels]
      omega
  | block hall =>
    cases hpart with
    | statement hmem => exact ⟨.inr (hall _ hmem), inside_lt_deepest hmem⟩

theorem IsDeclaration.of_part (h : e.IsDeclaration) (hpart : e.Part s e') :
    (e'.IsExpression ∨ e'.IsDeclaration) ∧ e'.inside + s.levels ≤ e.inside := by
  cases h with
  | statement hstmt => exact hstmt.of_part hpart
  | declare _ => cases hpart
  | declareValue _ hvalue =>
    cases hpart with
    | declared => exact ⟨.inl hvalue, Nat.le_refl _⟩
  | function _ _ hall =>
    cases hpart with
    | body hmem => exact ⟨.inr (hall _ hmem), inside_lt_deepest hmem⟩

/-- No way down a tree of the language has more steps that open a level than there are levels. -/
theorem Path.count_nested_le (h : e.Path path) (he : e.IsExpression ∨ e.IsDeclaration) :
    path.count .nested ≤ e.inside := by
  induction h with
  | root => exact Nat.zero_le _
  | @step e e' s path hpart _ ih =>
    have hstep : (e'.IsExpression ∨ e'.IsDeclaration) ∧ e'.inside + s.levels ≤ e.inside := by
      rcases he with hexp | hdecl
      · rcases hexp.of_part hpart with ⟨hexp', hle⟩
        exact ⟨.inl hexp', hle⟩
      · exact hdecl.of_part hpart
    have hle := ih hstep.1
    have hcount : (s :: path).count .nested = path.count .nested + s.levels := by
      cases s with
      | chained => exact List.count_cons_of_ne (by decide)
      | nested => exact List.count_cons_self
    omega

/-! ## Chains -/

/-- A name that is called so many times, without arguments. -/
def calls : Nat → Tree
  | 0 => .reference (.bare .identifier .origin)
  | n + 1 => .call (calls n) []

/-- The same with so many additions after it. -/
def chain (m : Nat) : Nat → Tree
  | 0 => calls m
  | n + 1 => .binary (chain m n) (.bare .plus .origin) (calls 0)

theorem isExpression_calls (m : Nat) :
    (calls m).IsExpression ∧ .call ≤ (calls m).tightness := by
  induction m with
  | zero => exact ⟨.reference rfl, by decide⟩
  | succ m ih => exact ⟨.call ih.1 ih.2 (by simp), Nat.le_refl _⟩

theorem isExpression_chain (m n : Nat) :
    (chain m n).IsExpression ∧ .additive ≤ (chain m n).tightness := by
  have hcalls := isExpression_calls m
  have hone := (isExpression_calls 0).1
  induction n with
  | zero => exact ⟨hcalls.1, Nat.le_trans (by decide) hcalls.2⟩
  | succ n ih => exact ⟨.binary rfl ih.1 ih.2 hone (by decide), Nat.le_refl _⟩

theorem isAssignment_chain (m n : Nat) : (chain m n).isAssignment = false := by
  cases n with
  | zero => cases m <;> rfl
  | succ n =>
    rw [Bool.eq_false_iff]
    intro h
    rcases isAssignment_iff.mp h with ⟨name, operator, value, heq, hk⟩
    have hplus : (.bare .plus .origin : Token) = operator := (binary.inj heq).2.1
    rw [← hplus] at hk
    cases hk

theorem isDeclaration_chain (m n : Nat) : (chain m n).IsDeclaration :=
  .statement (.expression (isExpression_chain m n).1 (isAssignment_chain m n))

theorem inside_calls (m : Nat) : (calls m).inside = 0 := by
  induction m with
  | zero => rfl
  | succ m ih => rw [calls, inside, ih, deepestArgument, Nat.max_self]

theorem inside_chain_le (m n : Nat) : (chain m n).inside ≤ 1 := by
  induction n with
  | zero => exact Nat.le_trans (Nat.le_of_eq (inside_calls m)) (Nat.zero_le 1)
  | succ n ih => exact Nat.max_le.mpr ⟨ih, Nat.le_refl 1⟩

/-- Whatever its length a chain needs four levels at most. -/
theorem levels_chain_le (m n : Nat) : (chain m n).levels ≤ 4 := by
  have hle := inside_chain_le m n
  unfold levels
  rw [(isExpression_chain m n).1.entry]
  omega

/-- Left operands and callees lead down a chain to its first name. -/
theorem path_chain (m n : Nat) : (chain m n).Path (List.replicate (m + n) .chained) := by
  have hcalls : (calls m).Path (List.replicate m .chained) := by
    induction m with
    | zero => exact .root
    | succ m ih => exact .step .callee ih
  induction n with
  | zero => exact hcalls
  | succ n ih => exact .step .left ih

end Tree

/-! ## Programs -/

namespace Program

variable {ts : List Token} {e : Tree} {path : List Step}

/-- Every declaration that is read is one of the language, within the nesting limit. -/
theorem isDeclaration_of_mem_body (he : e ∈ (ofTokens ts).body) :
    e.IsDeclaration ∧ e.levels ≤ nestingLimit := by
  rcases exists_declaration_of_mem_body he with ⟨us, rest, -, hread⟩
  have hlines := (sound_read nestingLimit).declaration hread
  exact ⟨hlines.isPart, hlines.levels_le⟩

/-- The nesting limit bounds the trees that are read, but for chains. However long the input, and
whatever else is in it: on every way down a tree that is read there are at most as many nodes as the
limit, if those are left out from which it goes on to a left operand or to what is called. -/
theorem count_nested_lt (he : e ∈ (ofTokens ts).body) (hpath : e.Path path) :
    path.count .nested + 1 ≤ nestingLimit := by
  rcases isDeclaration_of_mem_body he with ⟨hdecl, hlevels⟩
  have hle := hpath.count_nested_le (.inr hdecl)
  have hpos := e.entry_pos
  unfold Tree.levels at hlevels
  omega

/-- `x ( - x ) + x`: the way to the `x` after the sign goes down to a left operand first. -/
theorem count_nested_lt_sum :
    let x : Token := .bare .identifier .origin
    let ts : List Token := [x, .bare .leftParen .origin, .bare .minus .origin, x,
      .bare .rightParen .origin, .bare .plus .origin, x, .bare .lineEnd .origin]
    let call : Tree := .call (.reference x) [.unary (.bare .minus .origin) (.reference x)]
    let e : Tree := .binary call (.bare .plus .origin) (.reference x)
    let path : List Step := [.chained, .nested, .nested]
    e ∈ (ofTokens ts).body ∧ e.Path path ∧ path.count .nested + 1 ≤ nestingLimit := by
  intro x ts call e path
  have hbody : (ofTokens ts).body = [e] := rfl
  have he : e ∈ (ofTokens ts).body := by
    rw [hbody]
    exact List.mem_singleton_self e
  have hsign : call.Path [.nested, .nested] :=
    .step (.argument (List.mem_singleton_self _)) (.step .operand .root)
  have hpath : e.Path path := .step .left hsign
  exact ⟨he, hpath, count_nested_lt he hpath⟩

/-- A chain is read, however long it is. -/
theorem ofTokens_chain (m n : Nat) :
    (ofTokens ((Tree.program [Tree.chain m n]).flatMap Mark.plain)).body = [Tree.chain m n] := by
  have hread : ∀ d ∈ [Tree.chain m n], d.IsDeclaration ∧ d.levels ≤ nestingLimit := by
    intro d hd
    rw [List.mem_singleton.mp hd]
    exact ⟨Tree.isDeclaration_chain m n, Nat.le_trans (Tree.levels_chain_le m n) (by decide)⟩
  generalize hts : (Tree.program [Tree.chain m n]).flatMap Mark.plain = ts
  have hspells : Spells (Tree.program ([Tree.chain m n] ++ [])) ts := hts ▸ Spells.plain _
  rcases pieces_append_of_spells (p := Token.endPosition ts) hread (by simp) hspells with
    ⟨rest, -, hrest, hpieces⟩
  rw [ofTokens_eq, hpieces, pieces_of_spells_nil hrest]
  rfl

/-- Nothing bounds the height of what is read: calls and additions may be as many as one likes, and
every one of them adds a node to the way down. -/
theorem exists_path_chained (m n : Nat) :
    ∃ ts, ∃ e ∈ (ofTokens ts).body, e.levels ≤ 4 ∧ e.Path (List.replicate (m + n) .chained) := by
  refine ⟨(Tree.program [Tree.chain m n]).flatMap Mark.plain, Tree.chain m n, ?_,
    Tree.levels_chain_le m n, Tree.path_chain m n⟩
  rw [ofTokens_chain]
  exact List.mem_singleton_self _

/-- The line `x + x + … + x`, with so many additions. -/
def sumLine (n : Nat) : List Token :=
  let x : Token := .bare .identifier .origin
  x :: (List.replicate n [.bare .plus .origin, x]).flatten ++ [.bare .lineEnd .origin]

/-- It spells the chain of these additions. -/
theorem flatMap_plain_chain (n : Nat) :
    (Tree.program [Tree.chain 0 n]).flatMap Mark.plain = sumLine n := by
  have hwritten : (Tree.chain 0 n).written.flatMap Mark.plain =
      .bare .identifier .origin ::
        (List.replicate n [Token.bare .plus .origin, .bare .identifier .origin]).flatten := by
    induction n with
    | zero => rfl
    | succ n ih =>
      rw [Tree.chain, Tree.written, List.flatMap_append, ih, List.replicate_succ',
        List.flatten_append]
      rfl
  have hending : (Tree.chain 0 n).ending = [.any .lineEnd] := by cases n <;> rfl
  rw [Tree.program, Tree.program, Tree.lines, hending, List.flatMap_cons, List.flatMap_append,
    List.flatMap_append, hwritten]
  simp [Mark.plain, sumLine]

/-- The limit does not bound the height: the sum of 257 names is read, one name more than there are
levels, and from its root there are 256 steps down to the first name. -/
theorem not_forall_length_lt : ¬ ∀ ts, ∀ e ∈ (ofTokens ts).body, ∀ path, e.Path path →
    path.length + 1 ≤ nestingLimit := by
  intro h
  have he : Tree.chain 0 256 ∈ (ofTokens (sumLine 256)).body := by
    rw [← flatMap_plain_chain, ofTokens_chain]
    exact List.mem_singleton_self _
  have hle := h (sumLine 256) (Tree.chain 0 256) he _ (Tree.path_chain 0 256)
  rw [List.length_replicate] at hle
  exact absurd hle (by decide)

end Program

end Scriptlet
