import Scriptlet.Proofs.Cursors
import Scriptlet.Proofs.Parallel

/-!
# Runs of a rule

`Cursor.Runs` follows a rule from cursor to cursor: a loop goes on round by round for as long as it
finds something, and every part opens a nesting level, is read there and closes the level. Nothing
bounds the rounds or the parts. Whatever the grammar tables, the rules of the grammar come to an end
all the same (`Cursor.completes_of_parallel`), and on the way the cursor never leaves the token list,
never goes back, and never opens more levels than there are (`Cursor.Runs.steady`). A run ends as the
rule does, so that there is one end only (`Cursor.Runs.eq_run`).
-/

namespace Scriptlet

open Rule

variable {α β : Type}

/-- A rule that looks at the next tokens and reads no part. -/
inductive Rule.Primitive : {α : Type} → Rule α → Prop
  | pure {α : Type} (a : α) : Primitive (pure a)
  | fail {α : Type} (c : Complaint) : Primitive (fail c : Rule α)
  | kind? : Primitive kind?
  | take (c : Complaint) : Primitive (take c)
  | expect (k : Kind) (c : Complaint) : Primitive (expect k c)
  | acceptAny (ks : List Kind) : Primitive (acceptAny ks)
  | skipLineEnds : Primitive skipLineEnds

theorem Rule.Primitive.forward {rule : Rule α} (h : Primitive rule) : Forward rule := by
  cases h with
  | pure a => exact forward_pure a
  | fail c => exact forward_fail c
  | kind? => exact forward_kind?
  | take c => exact forward_take c
  | expect k c => exact forward_expect k c
  | acceptAny ks => exact forward_acceptAny ks
  | skipLineEnds => exact forward_skipLineEnds

/-- How a loop goes on after a round. -/
def Rule.manyAfter (item : Rule (Option α)) : Option α → Rule (List α)
  | none => pure []
  | some a => many item >>= fun as => pure (a :: as)

/-- How a chain goes on after a link. -/
def Rule.chainAfter (link : α → Rule (Option α)) (a : α) : Option α → Rule α
  | none => pure a
  | some b => chain link b

theorem Rule.many_eq_bind {item : Rule (Option α)} (h : TakesSome item) :
    many item = item >>= manyAfter item := by
  rw [many_eq h]
  refine congrArg _ (funext fun a? => ?_)
  cases a? <;> rfl

theorem Rule.chain_eq_bind {link : α → Rule (Option α)} (h : ∀ a, TakesSome (link a)) (a : α) :
    chain link a = link a >>= chainAfter link a := by
  rw [chain_eq h]
  refine congrArg _ (funext fun b? => ?_)
  cases b? <;> rfl

namespace Cursor

/-- The cursor with one more nesting level open. -/
def opened (c : Cursor) : Cursor := { c with depth := c.depth + 1 }

/-- The cursor with one nesting level less open. -/
def closed (c : Cursor) : Cursor := { c with depth := c.depth - 1 }

/-- The rule, run from the cursor, passes the cursors of the trace, one after the other, and ends
with the result at the last cursor. -/
inductive Runs : {α : Type} → Cursor → Rule α → List Cursor → Except Error α → Cursor → Prop
  | primitive {α : Type} {c : Cursor} {rule : Rule α} : Primitive rule →
      Runs c rule [(c.run rule).2] (c.run rule).1 (c.run rule).2
  | tooDeep {c : Cursor} {goal : Goal} : nestingLimit ≤ c.depth →
      Runs c (c.below goal) [] (.error (c.errorHere .nestingTooDeep)) c
  | part {c m : Cursor} {goal : Goal} {trace : List Cursor} {result : Except Error Tree} :
      c.depth < nestingLimit →
      Runs c.opened (c.tables.level c.opened.below goal) trace result m →
      Runs c (c.below goal) (c.opened :: trace ++ [m.closed]) result m.closed
  | bind {α β : Type} {c m m' : Cursor} {rule : Rule α} {f : α → Rule β}
      {trace trace' : List Cursor} {a : α} {result : Except Error β} :
      Runs c rule trace (.ok a) m → Runs m (f a) trace' result m' →
      Runs c (rule >>= f) (trace ++ trace') result m'
  | bindError {α β : Type} {c m : Cursor} {rule : Rule α} {f : α → Rule β}
      {trace : List Cursor} {e : Error} :
      Runs c rule trace (.error e) m → Runs c (rule >>= f) trace (.error e) m
  | many {α : Type} {c m : Cursor} {item : Rule (Option α)} {trace : List Cursor}
      {result : Except Error (List α)} : TakesSome item →
      Runs c (item >>= manyAfter item) trace result m →
      Runs c (many item) trace result m
  | chain {α : Type} {c m : Cursor} {link : α → Rule (Option α)} {a : α} {trace : List Cursor}
      {result : Except Error α} : (∀ a, TakesSome (link a)) →
      Runs c (link a >>= chainAfter link a) trace result m →
      Runs c (chain link a) trace result m

/-! ## What a run keeps -/

/-- The cursor stands in its token list, with no more levels open than there are. -/
structure Valid (c : Cursor) : Prop where
  index_le : c.index ≤ c.tokens.length
  depth_le : c.depth ≤ nestingLimit

/-- The second cursor stands where the first one does or further on, in the same token list and with
the same tables. -/
structure Onward (c m : Cursor) : Prop where
  tokens : m.tokens = c.tokens
  tables : m.tables = c.tables
  index_le : c.index ≤ m.index

theorem Onward.refl (c : Cursor) : c.Onward c := ⟨rfl, rfl, Nat.le_refl _⟩

theorem onward_opened (c : Cursor) : c.Onward c.opened := ⟨rfl, rfl, Nat.le_refl _⟩

theorem onward_closed (c : Cursor) : c.Onward c.closed := ⟨rfl, rfl, Nat.le_refl _⟩

theorem Onward.trans {c m m' : Cursor} (h : c.Onward m) (h' : m.Onward m') : c.Onward m' :=
  ⟨h'.tokens.trans h.tokens, h'.tables.trans h.tables, Nat.le_trans h.index_le h'.index_le⟩

/-- From the first cursor through the trace to the last one, the cursor stays within its bounds and
only moves forward, with no fewer levels open than at the start, and in the end with as many. -/
structure Steady (c : Cursor) (trace : List Cursor) (m : Cursor) : Prop where
  onward : c.Onward m
  valid : m.Valid
  depth : m.depth = c.depth
  passed {k : Cursor} : k ∈ trace → c.Onward k ∧ k.Onward m ∧ k.Valid ∧ c.depth ≤ k.depth
  ordered : trace.Pairwise Onward

namespace Steady

variable {c m m' : Cursor} {trace trace' : List Cursor}

theorem nil (hc : c.Valid) : c.Steady [] c :=
  ⟨.refl c, hc, rfl, fun h => absurd h List.not_mem_nil, .nil⟩

/-- A single step, which leaves the levels alone. -/
theorem singleton (h : c.Onward m) (hm : m.Valid) (hdepth : m.depth = c.depth) :
    c.Steady [m] m := by
  refine ⟨h, hm, hdepth, fun hk => ?_, List.pairwise_singleton _ _⟩
  rw [List.mem_singleton.mp hk]
  exact ⟨h, .refl m, hm, Nat.le_of_eq hdepth.symm⟩

theorem append (h : c.Steady trace m) (h' : m.Steady trace' m') :
    c.Steady (trace ++ trace') m' := by
  refine ⟨h.onward.trans h'.onward, h'.valid, h'.depth.trans h.depth, fun hk => ?_, ?_⟩
  · rcases List.mem_append.mp hk with hk | hk
    · obtain ⟨hfrom, hto, hvalid, hdepth⟩ := h.passed hk
      exact ⟨hfrom, hto.trans h'.onward, hvalid, hdepth⟩
    · obtain ⟨hfrom, hto, hvalid, hdepth⟩ := h'.passed hk
      exact ⟨h.onward.trans hfrom, hto, hvalid, h.depth ▸ hdepth⟩
  · refine List.pairwise_append.mpr ⟨h.ordered, h'.ordered, fun k hk k' hk' => ?_⟩
    exact (h.passed hk).2.1.trans (h'.passed hk').1

/-- A level is opened, and closed again in the end. -/
theorem nested (hc : c.Valid) (hdepth : c.depth < nestingLimit) (h : c.opened.Steady trace m) :
    c.Steady (c.opened :: trace ++ [m.closed]) m.closed := by
  have hto : m.Onward m.closed := onward_closed m
  have hend : c.opened.Onward m.closed := h.onward.trans hto
  have hclosed : m.closed.Valid :=
    ⟨h.valid.index_le, Nat.le_trans (Nat.sub_le _ _) h.valid.depth_le⟩
  have hlast : m.closed.depth = c.depth := by
    show m.depth - 1 = c.depth
    rw [h.depth]
    rfl
  refine ⟨(onward_opened c).trans hend, hclosed, hlast, fun hk => ?_, ?_⟩
  · rcases List.mem_append.mp hk with hk | hk
    · rcases List.mem_cons.mp hk with rfl | hk
      · exact ⟨onward_opened c, hend, ⟨hc.index_le, hdepth⟩, Nat.le_succ _⟩
      · obtain ⟨hfrom, hon, hvalid, hle⟩ := h.passed hk
        exact ⟨(onward_opened c).trans hfrom, hon.trans hto, hvalid, Nat.le_of_succ_le hle⟩
    · rw [List.mem_singleton.mp hk]
      exact ⟨(onward_opened c).trans hend, .refl _, hclosed, Nat.le_of_eq hlast.symm⟩
  · refine List.pairwise_append.mpr ⟨List.pairwise_cons.mpr ⟨fun k hk => (h.passed hk).1,
      h.ordered⟩, List.pairwise_singleton _ _, fun k hk k' hk' => ?_⟩
    rw [List.mem_singleton.mp hk']
    rcases List.mem_cons.mp hk with rfl | hk
    · exact hend
    · exact (h.passed hk).2.1.trans hto

end Steady

theorem onward_run {c : Cursor} {rule : Rule α} (hc : c.Valid) (hforward : Forward rule) :
    c.Onward (c.run rule).2 ∧ (c.run rule).2.Valid := by
  rw [run_snd]
  exact ⟨⟨rfl, rfl, index_le_moveTo (hforward _) hc.index_le⟩, index_moveTo_le c _, hc.depth_le⟩

/-- Whatever a rule is made of, a run of it keeps the cursor within its bounds. -/
theorem Runs.steady {c m : Cursor} {rule : Rule α} {trace : List Cursor}
    {result : Except Error α} (h : Runs c rule trace result m) (hc : c.Valid) :
    c.Steady trace m := by
  induction h with
  | primitive hrule =>
    obtain ⟨honward, hvalid⟩ := onward_run hc hrule.forward
    refine .singleton honward hvalid ?_
    rw [run_snd]
    rfl
  | tooDeep _ => exact .nil hc
  | part hdepth _ ih => exact .nested hc hdepth (ih ⟨hc.index_le, hdepth⟩)
  | bind _ _ ih ih' => exact (ih hc).append (ih' (ih hc).valid)
  | bindError _ ih => exact ih hc
  | many _ _ ih => exact ih hc
  | chain _ _ ih => exact ih hc

/-! ## The parts at a cursor -/

section Below

variable {c : Cursor}

theorem below_of_tooDeep (h : nestingLimit ≤ c.depth) (goal : Goal) :
    c.below goal = Rule.fail .nestingTooDeep := by
  rw [below, Nat.sub_eq_zero_of_le h]
  rfl

theorem below_of_lt (h : c.depth < nestingLimit) (goal : Goal) :
    c.below goal = c.tables.level c.opened.below goal := by
  have hlevels : nestingLimit - c.depth = nestingLimit - (c.depth + 1) + 1 := by omega
  rw [below, hlevels]
  rfl

/-- Neither the result nor the place depends on the levels that are open. -/
theorem run_closed_opened (c : Cursor) (rule : Rule α) :
    c.run rule = ((c.opened.run rule).1, (c.opened.run rule).2.closed) := by
  cases h : rule c.rest with
  | ok a rest =>
    have hopened : rule c.opened.rest = .ok a rest := h
    rw [run, run, h, hopened]
    rfl
  | fail complaint rest =>
    have hopened : rule c.opened.rest = .fail complaint rest := h
    rw [run, run, h, hopened]
    rfl

theorem run_below_of_tooDeep (hc : c.Valid) (h : nestingLimit ≤ c.depth) (goal : Goal) :
    c.run (c.below goal) = (.error (c.errorHere .nestingTooDeep), c) := by
  rw [below_of_tooDeep h, run_eq_error_iff]
  exact ⟨_, _, rfl, rfl, (moveTo_rest hc.index_le).symm⟩

end Below

/-! ## What a run yields -/

/-- A run ends with the result of the rule, where the rule ends: no other run is possible. -/
theorem Runs.eq_run {c m : Cursor} {rule : Rule α} {trace : List Cursor}
    {result : Except Error α} (h : Runs c rule trace result m) (hc : c.Valid) :
    c.run rule = (result, m) ∧ (rule c.rest).rest <:+ c.rest := by
  -- That the rule does not go back is needed for the next one: the cursor before it is made from the
  -- number of tokens that are left, and only a suffix is known by its length.
  induction h with
  | primitive hrule => exact ⟨rfl, hrule.forward _⟩
  | tooDeep hdeep =>
    refine ⟨run_below_of_tooDeep hc hdeep _, ?_⟩
    rw [below_of_tooDeep hdeep]
    exact List.suffix_refl _
  | @part c m goal trace result hdepth _ ih =>
    obtain ⟨hrun, hsuffix⟩ := ih ⟨hc.index_le, hdepth⟩
    rw [below_of_lt hdepth, run_closed_opened, hrun]
    exact ⟨rfl, hsuffix⟩
  | @bind _ _ c m m' rule f _ _ a result hfirst _ ih ih' =>
    obtain ⟨hrun, hsuffix⟩ := ih hc
    obtain ⟨hrun', hsuffix'⟩ := ih' (hfirst.steady hc).valid
    have hback : m.rest <:+ c.rest := by
      obtain ⟨rest, hrule, rfl⟩ := run_eq_ok_iff.mp hrun
      rw [hrule] at hsuffix
      exact (rest_moveTo hsuffix).symm ▸ hsuffix
    rw [run_bind_of_ok hrun hsuffix, bind_rest_of_ok hrun hsuffix]
    exact ⟨hrun', hsuffix'.trans hback⟩
  | @bindError _ _ c m rule f _ e _ ih =>
    obtain ⟨hrun, hsuffix⟩ := ih hc
    refine ⟨run_bind_of_error hrun f, ?_⟩
    obtain ⟨complaint, rest, hrule, -, -⟩ := run_eq_error_iff.mp hrun
    rw [hrule] at hsuffix
    rw [bind_apply, hrule]
    exact hsuffix
  | many htakes _ ih =>
    rw [many_eq_bind htakes]
    exact ih hc
  | chain htakes _ ih =>
    rw [chain_eq_bind htakes]
    exact ih hc

/-! ## The end of a run -/

/-- The rule comes to an end when it is run step by step, and its result is that of the rule. -/
def Completes (c : Cursor) (rule : Rule α) : Prop :=
  ∃ trace, Runs c rule trace (c.run rule).1 (c.run rule).2

namespace Completes

variable {c : Cursor}

theorem primitive {rule : Rule α} (h : Primitive rule) : c.Completes rule := ⟨_, .primitive h⟩

theorem bind {rule : Rule α} {f : α → Rule β} (hforward : Forward rule) (h : c.Completes rule)
    (hf : ∀ a m, c.run rule = (.ok a, m) → m.Completes (f a)) : c.Completes (rule >>= f) := by
  obtain ⟨trace, htrace⟩ := h
  generalize hrun : c.run rule = ending at htrace
  obtain ⟨result, m⟩ := ending
  cases result with
  | ok a =>
    obtain ⟨trace', htrace'⟩ := hf a m hrun
    refine ⟨trace ++ trace', ?_⟩
    rw [run_bind_of_ok hrun (hforward _)]
    exact .bind htrace htrace'
  | error e =>
    refine ⟨trace, ?_⟩
    rw [run_bind_of_error hrun]
    exact .bindError htrace

end Completes

/-- A valid cursor, with the given tables and as many levels open. -/
structure Under (tables : Tables) (depth : Nat) (c : Cursor) : Prop where
  valid : c.Valid
  tables : c.tables = tables
  depth : c.depth = depth

section Levels

variable {tables : Tables} {depth : Nat} {c m : Cursor}

theorem Under.of_run {rule : Rule α} {result : Except Error α} (hc : c.Under tables depth)
    (hforward : Forward rule) (h : c.run rule = (result, m)) : m.Under tables depth := by
  have hrun := onward_run hc.valid hforward
  have hmove := run_snd c rule
  rw [h] at hrun hmove
  exact ⟨hrun.2, hrun.1.tables.trans hc.tables, (congrArg Cursor.depth hmove).trans hc.depth⟩

/-- After a round that had a value there are fewer tokens ahead. -/
theorem length_rest_lt {item : Rule (Option α)} {a : α} (hforward : Forward item)
    (htakes : TakesSome item) (h : c.run item = (.ok (some a), m)) :
    m.rest.length < c.rest.length := by
  obtain ⟨rest, hitem, rfl⟩ := run_eq_ok_iff.mp h
  rw [rest_moveTo (hforward.suffix hitem)]
  exact htakes _ _ _ hitem

theorem completes_many {item : Rule (Option α)} (hforward : Forward item)
    (htakes : TakesSome item) (hi : ∀ c, Under tables depth c → c.Completes item)
    (hc : c.Under tables depth) : c.Completes (many item) := by
  induction hn : c.rest.length using Nat.strongRecOn generalizing c with
  | ind n ih =>
    subst hn
    have hround : c.Completes (item >>= manyAfter item) := by
      refine .bind hforward (hi c hc) fun a? m hrun => ?_
      cases a? with
      | none => exact .primitive (.pure _)
      | some a =>
        have hrest := ih _ (length_rest_lt hforward htakes hrun) (hc.of_run hforward hrun) rfl
        exact .bind hforward.many hrest fun as _ _ => .primitive (.pure _)
    obtain ⟨trace, htrace⟩ := hround
    have hloop := Runs.many htakes htrace
    rw [← many_eq_bind htakes] at hloop
    exact ⟨trace, hloop⟩

theorem completes_chain {link : α → Rule (Option α)} (hforward : ∀ a, Forward (link a))
    (htakes : ∀ a, TakesSome (link a))
    (hl : ∀ a c, Under tables depth c → c.Completes (link a)) (a : α)
    (hc : c.Under tables depth) : c.Completes (chain link a) := by
  induction hn : c.rest.length using Nat.strongRecOn generalizing c a with
  | ind n ih =>
    subst hn
    have hround : c.Completes (link a >>= chainAfter link a) := by
      refine .bind (hforward a) (hl a c hc) fun b? m hrun => ?_
      cases b? with
      | none => exact .primitive (.pure _)
      | some b =>
        have hlt := length_rest_lt (hforward a) (htakes a) hrun
        exact ih _ hlt b (hc.of_run (hforward a) hrun) rfl
    obtain ⟨trace, htrace⟩ := hround
    have hloop := Runs.chain htakes htrace
    rw [← chain_eq_bind htakes] at hloop
    exact ⟨trace, hloop⟩

/-- A rule that is put together from parts comes to an end if all parts do. -/
theorem completes_of_parallel {Part : Rule Tree → Rule Tree → Prop} {rule rule' : Rule α}
    (h : Rule.Parallel Part rule rule')
    (hparts : ∀ r r', Part r r' → ∀ c, Under tables depth c → c.Completes r)
    (hc : c.Under tables depth) : c.Completes rule := by
  induction h generalizing c with
  | part hp _ _ => exact hparts _ _ hp c hc
  | pure a => exact .primitive (.pure a)
  | fail cause => exact .primitive (.fail cause)
  | kind? => exact .primitive .kind?
  | take cause => exact .primitive (.take cause)
  | expect k cause => exact .primitive (.expect k cause)
  | acceptAny ks => exact .primitive (.acceptAny ks)
  | skipLineEnds => exact .primitive .skipLineEnds
  | bind hr _ ihr ihf =>
    exact .bind hr.forward (ihr hc) fun a m hrun => ihf a (hc.of_run hr.forward hrun)
  | many hi htakes ih => exact completes_many hi.forward htakes (fun c hc => ih hc) hc
  | chain a hl htakes ih =>
    exact completes_chain (fun a => (hl a).forward) htakes (fun a c hc => ih a hc) a hc

end Levels

/-! ## Parts of any grammar -/

variable {c : Cursor}

/-- One part stands for itself, and takes a token. -/
theorem consuming_below (c : Cursor) (goal : Goal) :
    Consuming (fun r _ => ∃ goal, r = c.below goal) (c.below goal) (c.below goal) :=
  ⟨.part ⟨goal, rfl⟩ (c.tables.forward_read _ goal) (c.tables.forward_read _ goal),
    c.tables.takes_read _ goal⟩

/-- A part comes to an end: either no level is left, or it is put together from parts one level
further down. -/
theorem completes_below (hc : c.Valid) (goal : Goal) : c.Completes (c.below goal) := by
  induction hn : nestingLimit - c.depth generalizing c goal with
  | zero =>
    have hdeep : nestingLimit ≤ c.depth := Nat.le_of_sub_eq_zero hn
    refine ⟨[], ?_⟩
    rw [run_below_of_tooDeep hc hdeep]
    exact .tooDeep hdeep
  | succ n ih =>
    have hdepth : c.depth < nestingLimit := by omega
    have hopened : Under c.tables (c.depth + 1) c.opened := ⟨⟨hc.index_le, hdepth⟩, rfl, rfl⟩
    have hparts (r r' : Rule Tree) (hr : ∃ goal, r = c.opened.below goal) (c' : Cursor)
        (hc' : Under c.tables (c.depth + 1) c') : c'.Completes r := by
      obtain ⟨goal, rfl⟩ := hr
      have hsame : c.opened.below goal = c'.below goal := by
        rw [below, below, hc'.tables, hc'.depth]
        rfl
      rw [hsame]
      refine ih hc'.valid goal ?_
      rw [hc'.depth]
      omega
    have hlevel := (c.tables.consuming_level c.opened.consuming_below goal).parallel
    obtain ⟨trace, htrace⟩ := completes_of_parallel hlevel hparts hopened
    have hpart := Runs.part hdepth htrace
    rw [← below_of_lt hdepth] at hpart
    refine ⟨c.opened :: trace ++ [(c.opened.run (c.below goal)).2.closed], ?_⟩
    rw [run_closed_opened c]
    exact hpart

/-- Whatever the tables hold, a rule that is put together from the parts of the cursor comes to an
end. -/
theorem completes_of_consuming (hc : c.Valid) {rule : Rule α}
    (h : Consuming (fun r _ => ∃ goal, r = c.below goal) rule rule) : c.Completes rule := by
  refine completes_of_parallel h.parallel ?_ (⟨hc, rfl, rfl⟩ : Under c.tables c.depth c)
  rintro _ _ ⟨goal, rfl⟩ c' hc'
  have hsame : c.below goal = c'.below goal := by
    rw [below, below, hc'.tables, hc'.depth]
  rw [hsame]
  exact completes_below hc'.valid goal

end Cursor

end Scriptlet
