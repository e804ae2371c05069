import Scriptlet.Proofs.Forms
import Scriptlet.Proofs.Phrases

/-!
# What rules take

A rule spans a language if it takes a word of it when it succeeds and, unless it gives up for the
nesting, the beginning of a word of it when it fails. Rules that span languages span their product
one after the other and their star in a loop, so reading with the tables of the language spans the
phrases of the grammar (`spans_read`): no form ever takes a token that could not be right.
-/

namespace Scriptlet

open Rule Form Computability

variable {α β : Type} {ts : List Token}

/-- The kinds of the tokens that were taken are a word of the language of the value or, where there
is none, the beginning of a word of some language. Nothing is said of what nests too deep. -/
def Outcome.Spans (L : α → Language Kind) (ts : List Token) : Outcome α → Prop
  | .ok a rest => ∃ read, ts = read ++ rest ∧ read.map Token.kind ∈ L a
  | .fail c rest => c = .nestingTooDeep ∨
      ∃ read more a, ts = read ++ rest ∧ read.map Token.kind ++ more ∈ L a

/-- Whatever the tokens, the rule takes a word of the language of its value, or the beginning of a
word. -/
structure Rule.Spans (L : α → Language Kind) (r : Rule α) : Prop where
  exists_mem : ∃ a w, w ∈ L a
  outcome (ts : List Token) : (r ts).Spans L ts

/-! ## Sequences -/

namespace Outcome.Spans

variable {L M : α → Language Kind} {N : β → Language Kind}

theorem mono {o : Outcome α} (h : o.Spans L ts) (hle : ∀ a, L a ≤ M a) : o.Spans M ts := by
  cases o with
  | ok a rest =>
    obtain ⟨read, hts, hread⟩ := h
    exact ⟨read, hts, hle a hread⟩
  | fail c rest =>
    rcases h with hc | ⟨read, more, a, hts, hread⟩
    · exact .inl hc
    · exact .inr ⟨read, more, a, hts, hle a hread⟩

/-- A token before what is taken. -/
theorem cons {o : Outcome α} {t : Token} {us : List Token} (h : o.Spans L us)
    (hle : ∀ a, {[t.kind]} * L a ≤ M a) : o.Spans M (t :: us) := by
  cases o with
  | ok a rest =>
    obtain ⟨read, rfl, hread⟩ := h
    exact ⟨t :: read, rfl, hle a (cons_mem_singleton_mul hread)⟩
  | fail c rest =>
    rcases h with hc | ⟨read, more, a, rfl, hread⟩
    · exact .inl hc
    · exact .inr ⟨t :: read, more, a, rfl, hle a (cons_mem_singleton_mul hread)⟩

theorem bind {r : Rule α} {f : α → Rule β} {K : α → β → Language Kind} (hr : (r ts).Spans L ts)
    (hf : ∀ a, (f a).Spans (K a)) (hle : ∀ a b, L a * K a b ≤ N b) :
    ((r >>= f) ts).Spans N ts := by
  rw [bind_apply]
  cases hts : r ts with
  | ok a mid =>
    rw [hts] at hr
    obtain ⟨read, rfl, hread⟩ := hr
    have hmid := (hf a).outcome mid
    show (f a mid).Spans N (read ++ mid)
    cases hfa : f a mid with
    | ok b rest =>
      rw [hfa] at hmid
      obtain ⟨read', rfl, hread'⟩ := hmid
      refine ⟨read ++ read', (List.append_assoc ..).symm, ?_⟩
      rw [List.map_append]
      exact hle a b (Language.append_mem_mul hread hread')
    | fail c rest =>
      rw [hfa] at hmid
      rcases hmid with hc | ⟨read', more, b, rfl, hread'⟩
      · exact .inl hc
      · refine .inr ⟨read ++ read', more, b, (List.append_assoc ..).symm, ?_⟩
        rw [List.map_append, List.append_assoc]
        exact hle a b (Language.append_mem_mul hread hread')
  | fail c rest =>
    rw [hts] at hr
    rcases hr with hc | ⟨read, more, a, rfl, hread⟩
    · exact .inl hc
    -- The word that was begun can be completed, and then one of the second rule put after it.
    · obtain ⟨b, w, hw⟩ := (hf a).exists_mem
      refine .inr ⟨read, more ++ w, b, rfl, ?_⟩
      rw [← List.append_assoc]
      exact hle a b (Language.append_mem_mul hread hw)

theorem map {r : Rule α} (h : (r ts).Spans L ts) (g : α → β) (hle : ∀ a, L a ≤ N (g a)) :
    ((g <$> r) ts).Spans N ts := by
  rw [map_eq_bind, bind_apply]
  cases hr : r ts with
  | ok a rest =>
    rw [hr] at h
    obtain ⟨read, hsplit, hread⟩ := h
    exact ⟨read, hsplit, hle a hread⟩
  | fail c rest =>
    rw [hr] at h
    rcases h with hc | ⟨read, more, a, hsplit, hread⟩
    · exact .inl hc
    · exact .inr ⟨read, more, g a, hsplit, hle a hread⟩

end Outcome.Spans

namespace Rule.Spans

variable {L M : α → Language Kind} {N : β → Language Kind} {K K' : Language Kind}

theorem mono {r : Rule α} (h : r.Spans L) (hle : ∀ a, L a ≤ M a) : r.Spans M := by
  obtain ⟨a, w, hw⟩ := h.exists_mem
  exact ⟨⟨a, w, hle a hw⟩, fun ts => (h.outcome ts).mono hle⟩

theorem bind {r : Rule α} {f : α → Rule β} {F : α → β → Language Kind} (hr : r.Spans L)
    (hf : ∀ a, (f a).Spans (F a)) (hle : ∀ a b, L a * F a b ≤ N b) : (r >>= f).Spans N := by
  obtain ⟨a, w, hw⟩ := hr.exists_mem
  obtain ⟨b, w', hw'⟩ := (hf a).exists_mem
  exact ⟨⟨b, w ++ w', hle a b (Language.append_mem_mul hw hw')⟩,
    fun ts => (hr.outcome ts).bind hf hle⟩

/-- One rule after the other, when the languages do not depend on the values. -/
theorem seq {r : Rule α} {f : α → Rule β} (hr : r.Spans fun _ => K)
    (hf : ∀ a, (f a).Spans fun _ => K') : (r >>= f).Spans fun _ => K * K' :=
  hr.bind hf fun _ _ => le_rfl

theorem map {r : Rule α} (h : r.Spans L) (g : α → β) (hle : ∀ a, L a ≤ N (g a)) :
    (g <$> r).Spans N := by
  obtain ⟨a, w, hw⟩ := h.exists_mem
  exact ⟨⟨g a, w, hle a hw⟩, fun ts => (h.outcome ts).map g hle⟩

theorem pure {a : α} (h : 1 ≤ L a) : (Pure.pure a : Rule α).Spans L :=
  ⟨⟨a, [], h rfl⟩, fun _ => ⟨[], rfl, h rfl⟩⟩

theorem fail {c : Complaint} (h : ∃ a w, w ∈ L a) : (Rule.fail c : Rule α).Spans L := by
  obtain ⟨a, w, hw⟩ := h
  exact ⟨⟨a, w, hw⟩, fun _ => .inr ⟨[], w, a, rfl, hw⟩⟩

theorem expect (k : Kind) (c : Complaint) : (expect k c).Spans fun _ => {[k]} := by
  refine ⟨⟨.bare k .origin, [k], rfl⟩, fun ts => ?_⟩
  have hfail (us : List Token) : (Outcome.fail c us : Outcome Token).Spans (fun _ => {[k]}) us :=
    .inr ⟨[], [k], .bare k .origin, rfl, rfl⟩
  cases ts with
  | nil => exact hfail []
  | cons t us =>
    rw [Rule.expect]
    split
    · rename_i hk
      exact ⟨[t], rfl, congrArg ([·]) hk⟩
    · exact hfail (t :: us)

theorem kind? : kind?.Spans fun _ => 1 := ⟨⟨none, [], rfl⟩, fun _ => ⟨[], rfl, rfl⟩⟩

theorem accept (k : Kind) : (accept k).Spans fun more => if more then {[k]} else 1 := by
  refine ⟨⟨false, [], rfl⟩, fun ts => ?_⟩
  cases h : Rule.accept k ts with
  | ok more rest =>
    cases more with
    | true =>
      obtain ⟨t, rfl, hk⟩ := accept_true_iff.mp h
      exact ⟨[t], rfl, congrArg ([·]) hk⟩
    | false =>
      obtain ⟨rfl, -⟩ := accept_false_iff.mp h
      exact ⟨[], rfl, rfl⟩
  | fail c rest =>
    -- Not to find the token is no failure.
    cases ts with
    | nil => cases h
    | cons t us =>
      rw [Rule.accept, acceptAny] at h
      split at h <;> cases h

/-- A choice by whether a token of the kind comes next. -/
theorem accept_bind {k : Kind} {f : Bool → Rule α} (ht : (f true).Spans L)
    (hf : (f false).Spans M) : (Rule.accept k >>= f).Spans fun a => {[k]} * L a + M a := by
  refine (accept k).bind (F := fun more => if more then L else M) (fun more => ?_) fun more a => ?_
  · cases more with
    | true => exact ht
    | false => exact hf
  · cases more with
    | true => exact le_self_add
    | false => exact (one_mul (M a)).le.trans le_add_self

theorem skipLineEnds : skipLineEnds.Spans fun _ => {[.lineEnd]}∗ := by
  refine ⟨⟨(), [], Language.nil_mem_kstar _⟩, fun ts => ?_⟩
  refine ⟨ts.takeWhile (·.kind = .lineEnd), List.takeWhile_append_dropWhile.symm, ?_⟩
  refine ⟨(ts.takeWhile (·.kind = .lineEnd)).map fun t => [t.kind], ?_, ?_⟩
  · rw [← List.flatMap_def, ← List.map_eq_flatMap]
  · intro w hw
    obtain ⟨t, ht, rfl⟩ := List.mem_map.mp hw
    have hk := List.all_eq_true.mp List.all_takeWhile t ht
    exact congrArg ([·]) (of_decide_eq_true hk)

/-! ## Loops -/

theorem many {item : Rule (Option α)} (h : item.Spans (·.elim K' fun _ => K)) (hone : 1 ≤ K') :
    (many item).Spans fun _ => K∗ * K' := by
  have hwithin (budget : List Token) : (manyWithin item budget).Spans fun _ => K∗ * K' := by
    induction budget with
    | nil =>
      refine h.map _ fun a? => ?_
      cases a? with
      | none => exact le_mul_of_one_le_left' one_le_kstar
      | some a => exact le_mul_of_le_of_one_le le_kstar hone
    | cons _ budget ih =>
      refine h.bind (F := fun a? _ => a?.elim 1 fun _ => K∗ * K') (fun a? => ?_) fun a? _ => ?_
      · cases a? with
        | none => exact .pure le_rfl
        | some a => exact (ih.seq fun as => .pure le_rfl).mono fun _ => (mul_one _).le
      · cases a? with
        | none => exact (mul_one K').le.trans (le_mul_of_one_le_left' one_le_kstar)
        | some a =>
          show K * (K∗ * K') ≤ K∗ * K'
          rw [← mul_assoc]
          exact mul_le_mul_left mul_kstar_le_kstar _
  exact ⟨(hwithin []).exists_mem, fun ts => (hwithin ts).outcome ts⟩

theorem chain {link : α → Rule (Option α)}
    (h : ∀ a, (link a).Spans (·.elim 1 fun _ => K)) (a : α) :
    (chain link a).Spans fun _ => K∗ := by
  have hwithin (budget : List Token) : ∀ a, (chainWithin link budget a).Spans fun _ => K∗ := by
    induction budget with
    | nil =>
      intro a
      refine (h a).map _ fun b? => ?_
      cases b? with
      | none => exact one_le_kstar
      | some b => exact le_kstar
    | cons _ budget ih =>
      intro a
      refine (h a).bind (F := fun b? _ => b?.elim 1 fun _ => K∗) (fun b? => ?_) fun b? _ => ?_
      · cases b? with
        | none => exact .pure le_rfl
        | some b => exact ih b
      · cases b? with
        | none => exact (mul_one 1).le.trans one_le_kstar
        | some b => exact mul_kstar_le_kstar
  exact ⟨(hwithin [] a).exists_mem, fun ts => (hwithin ts a).outcome ts⟩

end Rule.Spans

end Scriptlet
