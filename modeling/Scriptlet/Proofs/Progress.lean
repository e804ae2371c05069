import Scriptlet.Grammar.Rule

/-!
# Progress of rules

What it takes for a rule to succeed, and what a rule leaves: always an end of the tokens it was
given, and a shorter one when it takes a token. A loop whose rounds take tokens is its own first
round followed by the loop, so its bound by the token list never shows.
-/

namespace Scriptlet.Rule

variable {α β : Type} {ts rest : List Token}

/-! ## Success -/

theorem bind_eq_ok_iff {r : Rule α} {f : α → Rule β} {b : β} :
    (r >>= f) ts = .ok b rest ↔ ∃ a mid, r ts = .ok a mid ∧ f a mid = .ok b rest := by
  rw [bind_apply]
  cases r ts with
  | ok a mid =>
    constructor
    · intro h
      exact ⟨a, mid, rfl, h⟩
    · rintro ⟨a', mid', ha, h⟩
      cases ha
      exact h
  | fail c mid => simp

theorem pure_eq_ok_iff {a b : α} : (pure a : Rule α) ts = .ok b rest ↔ b = a ∧ rest = ts := by
  rw [pure_apply, Outcome.ok.injEq, eq_comm, @eq_comm _ ts]

theorem map_eq_bind (g : α → β) (r : Rule α) : g <$> r = r >>= fun a => pure (g a) := rfl

theorem map_eq_ok_iff {r : Rule α} {g : α → β} {b : β} :
    (g <$> r) ts = .ok b rest ↔ ∃ a, r ts = .ok a rest ∧ b = g a := by
  rw [map_eq_bind, bind_eq_ok_iff]
  constructor
  · rintro ⟨a, mid, hr, hb⟩
    obtain ⟨rfl, rfl⟩ := pure_eq_ok_iff.mp hb
    exact ⟨a, hr, rfl⟩
  · rintro ⟨a, hr, rfl⟩
    exact ⟨a, rest, hr, rfl⟩

theorem kind?_eq_ok_iff {k : Option Kind} :
    kind? ts = .ok k rest ↔ k = ts.head?.map Token.kind ∧ rest = ts := by
  rw [kind?, Outcome.ok.injEq, eq_comm, @eq_comm _ ts]

theorem take_eq_ok_iff {c : Complaint} {t : Token} : take c ts = .ok t rest ↔ ts = t :: rest := by
  cases ts with
  | nil => simp [take]
  | cons u us => simp [take]

theorem expect_eq_ok_iff {k : Kind} {c : Complaint} {t : Token} :
    expect k c ts = .ok t rest ↔ ts = t :: rest ∧ t.kind = k := by
  cases ts with
  | nil => simp [expect]
  | cons u us =>
    rw [expect]
    split
    · rename_i hk
      simp only [Outcome.ok.injEq, List.cons.injEq]
      constructor
      · rintro ⟨rfl, rfl⟩
        exact ⟨⟨rfl, rfl⟩, hk⟩
      · exact And.left
    · rename_i hk
      simp only [reduceCtorEq, false_iff, List.cons.injEq]
      rintro ⟨⟨rfl, rfl⟩, h⟩
      exact hk h

/-- Whether the first token is of the kind. -/
def StartsWith (k : Kind) (ts : List Token) : Prop := ts.head?.map Token.kind = some k

@[simp] theorem not_startsWith_nil (k : Kind) : ¬ StartsWith k [] := by
  simp [StartsWith]

@[simp] theorem startsWith_cons {k : Kind} {t : Token} {us : List Token} :
    StartsWith k (t :: us) ↔ t.kind = k := by
  simp [StartsWith]

theorem accept_true_iff {k : Kind} :
    accept k ts = .ok true rest ↔ ∃ t, ts = t :: rest ∧ t.kind = k := by
  cases ts with
  | nil => simp [accept, acceptAny]
  | cons u us =>
    rw [accept, acceptAny]
    simp only [Token.isOneOf, List.contains_cons, List.contains_nil, Bool.or_false, beq_iff_eq]
    split
    · rename_i hk
      constructor
      · intro h
        cases h
        exact ⟨u, rfl, hk⟩
      · rintro ⟨t, ht, -⟩
        cases ht
        rfl
    · rename_i hk
      simp only [Outcome.ok.injEq, Bool.false_eq_true, false_and, List.cons.injEq, false_iff]
      rintro ⟨t, ⟨rfl, -⟩, h⟩
      exact hk h

theorem accept_false_iff {k : Kind} :
    accept k ts = .ok false rest ↔ rest = ts ∧ ¬ StartsWith k ts := by
  cases ts with
  | nil => simp [accept, acceptAny, eq_comm]
  | cons u us =>
    rw [accept, acceptAny]
    simp only [Token.isOneOf, List.contains_cons, List.contains_nil, Bool.or_false, beq_iff_eq]
    split
    · rename_i hk
      simp [hk]
    · rename_i hk
      simp [hk, eq_comm]

/-! ## What is left -/

/-- The rule leaves an end of the tokens, whether it succeeds or fails. -/
def Forward (r : Rule α) : Prop := ∀ ts, (r ts).rest <:+ ts

/-- The rule takes a token when it succeeds. -/
def Takes (r : Rule α) : Prop := ∀ ts a rest, r ts = .ok a rest → rest.length < ts.length

/-- The rule takes a token when there is a value. -/
def TakesSome (r : Rule (Option α)) : Prop :=
  ∀ ts a rest, r ts = .ok (some a) rest → rest.length < ts.length

theorem Forward.suffix {r : Rule α} (h : Forward r) {a : α} (hr : r ts = .ok a rest) :
    rest <:+ ts := by
  have hs := h ts
  rwa [hr] at hs

theorem Forward.length_le {r : Rule α} (h : Forward r) {a : α} (hr : r ts = .ok a rest) :
    rest.length ≤ ts.length :=
  (h.suffix hr).length_le

theorem Takes.bind {r : Rule α} {f : α → Rule β} (hr : Takes r) (hf : ∀ a, Forward (f a)) :
    Takes (r >>= f) := by
  intro ts b rest h
  obtain ⟨a, mid, ha, hb⟩ := bind_eq_ok_iff.mp h
  have hlt := hr _ _ _ ha
  have hle := (hf a).length_le hb
  omega

theorem takes_bind_of_forward {r : Rule α} {f : α → Rule β} (hr : Forward r)
    (hf : ∀ a, Takes (f a)) : Takes (r >>= f) := by
  intro ts b rest h
  obtain ⟨a, mid, ha, hb⟩ := bind_eq_ok_iff.mp h
  have hle := hr.length_le ha
  have hlt := hf a _ _ _ hb
  omega

theorem takes_take (c : Complaint) : Takes (take c) := by
  intro ts t rest h
  rw [take_eq_ok_iff.mp h]
  exact Nat.lt_succ_self _

theorem takes_expect (k : Kind) (c : Complaint) : Takes (expect k c) := by
  intro ts t rest h
  rw [(expect_eq_ok_iff.mp h).1]
  exact Nat.lt_succ_self _

theorem takes_fail (c : Complaint) : Takes (fail c : Rule α) := by
  intro ts a rest h
  cases h

theorem takesSome_map {r : Rule α} (h : Takes r) : TakesSome (some <$> r) := by
  intro ts a rest hr
  obtain ⟨b, hb, -⟩ := map_eq_ok_iff.mp hr
  exact h _ _ _ hb

theorem takesSome_bind {r : Rule α} {f : α → Rule (Option β)} (hr : Forward r)
    (hf : ∀ a, TakesSome (f a)) : TakesSome (r >>= f) := by
  intro ts b rest h
  obtain ⟨a, mid, ha, hb⟩ := bind_eq_ok_iff.mp h
  have hle := hr.length_le ha
  have hlt := hf a _ _ _ hb
  omega

theorem takesSome_pure_none : TakesSome (pure none : Rule (Option α)) := by
  intro ts a rest h
  cases h

theorem forward_pure (a : α) : Forward (pure a : Rule α) := fun ts => List.suffix_refl ts

theorem forward_fail (c : Complaint) : Forward (fail c : Rule α) := fun ts => List.suffix_refl ts

theorem forward_kind? : Forward kind? := fun ts => List.suffix_refl ts

theorem forward_take (c : Complaint) : Forward (take c) := by
  intro ts
  cases ts with
  | nil => exact List.suffix_refl _
  | cons t us => exact List.suffix_cons t us

theorem forward_expect (k : Kind) (c : Complaint) : Forward (expect k c) := by
  intro ts
  cases ts with
  | nil => exact List.suffix_refl _
  | cons t us =>
    rw [expect]
    split
    · exact List.suffix_cons t us
    · exact List.suffix_refl _

theorem forward_acceptAny (ks : List Kind) : Forward (acceptAny ks) := by
  intro ts
  cases ts with
  | nil => exact List.suffix_refl _
  | cons t us =>
    rw [acceptAny]
    split
    · exact List.suffix_cons t us
    · exact List.suffix_refl _

theorem forward_skipLineEnds : Forward skipLineEnds := fun _ => List.dropWhile_suffix _

theorem Forward.bind {r : Rule α} {f : α → Rule β} (hr : Forward r) (hf : ∀ a, Forward (f a)) :
    Forward (r >>= f) := by
  intro ts
  have hs := hr ts
  rw [bind_apply]
  cases hts : r ts with
  | ok a mid =>
    rw [hts] at hs
    exact (hf a mid).trans hs
  | fail c mid =>
    rw [hts] at hs
    exact hs

theorem forward_manyWithin {item : Rule (Option α)} (h : Forward item) (budget : List Token) :
    Forward (manyWithin item budget) := by
  induction budget with
  | nil => exact h.bind fun _ => forward_pure _
  | cons _ budget ih =>
    refine h.bind fun a? => ?_
    cases a? with
    | none => exact forward_pure _
    | some a => exact ih.bind fun _ => forward_pure _

theorem Forward.many {item : Rule (Option α)} (h : Forward item) : Forward (many item) :=
  fun ts => forward_manyWithin h ts ts

theorem forward_chainWithin {link : α → Rule (Option α)} (h : ∀ a, Forward (link a))
    (budget : List Token) (a : α) : Forward (chainWithin link budget a) := by
  induction budget generalizing a with
  | nil => exact (h a).bind fun _ => forward_pure _
  | cons _ budget ih =>
    refine (h a).bind fun b? => ?_
    cases b? with
    | none => exact forward_pure _
    | some b => exact ih b

theorem Forward.chain {link : α → Rule (Option α)} (h : ∀ a, Forward (link a)) (a : α) :
    Forward (chain link a) :=
  fun ts => forward_chainWithin h ts a ts

/-! ## Loops -/

/-- Without tokens a loop makes at most one round, whatever its bound. -/
theorem manyWithin_nil {item : Rule (Option α)} (h : TakesSome item) (budget : List Token) :
    manyWithin item budget [] = (Option.toList <$> item) [] := by
  cases budget with
  | nil => rfl
  | cons _ budget =>
    rw [manyWithin, map_eq_bind, bind_apply, bind_apply]
    cases hi : item [] with
    | fail c mid => rfl
    | ok a? mid =>
      cases a? with
      | none => rfl
      | some a => exact absurd (h _ _ _ hi) (Nat.not_lt_zero _)

/-- With at least as many rounds as tokens, the bound of a loop is never the reason to stop. -/
theorem manyWithin_congr {item : Rule (Option α)} (h : TakesSome item) {b b' ts : List Token}
    (hb : ts.length ≤ b.length) (hb' : ts.length ≤ b'.length) :
    manyWithin item b ts = manyWithin item b' ts := by
  induction b generalizing b' ts with
  | nil =>
    have hnil : ts = [] := List.eq_nil_of_length_eq_zero (Nat.le_zero.mp hb)
    rw [hnil, manyWithin_nil h, manyWithin_nil h]
  | cons u b ih =>
    cases b' with
    | nil =>
      have hnil : ts = [] := List.eq_nil_of_length_eq_zero (Nat.le_zero.mp hb')
      rw [hnil, manyWithin_nil h, manyWithin_nil h]
    | cons u' b' =>
      rw [manyWithin, manyWithin, bind_apply, bind_apply]
      -- Both make the same first round, which leaves fewer tokens than there are rounds left.
      cases hi : item ts with
      | fail c mid => rfl
      | ok a? mid =>
        cases a? with
        | none => rfl
        | some a =>
          have hlt := h _ _ _ hi
          simp only [List.length_cons] at hb hb'
          have hmid : manyWithin item b mid = manyWithin item b' mid := ih (by omega) (by omega)
          show (manyWithin item b >>= _) mid = (manyWithin item b' >>= _) mid
          rw [bind_apply, bind_apply, hmid]

/-- A loop is its first round, and then the loop again if the round had a value. -/
theorem many_eq {item : Rule (Option α)} (h : TakesSome item) :
    many item = item >>= fun
      | none => pure []
      | some a => many item >>= fun as => pure (a :: as) := by
  funext ts
  -- One round more than there are tokens, so that the first one can be split off.
  have hround : many item ts = manyWithin item (.bare .lineEnd .origin :: ts) ts :=
    manyWithin_congr h (Nat.le_refl _) (Nat.le_succ _)
  rw [hround, manyWithin, bind_apply, bind_apply]
  cases hi : item ts with
  | fail c mid => rfl
  | ok a? mid =>
    cases a? with
    | none => rfl
    | some a =>
      have hmid : manyWithin item ts mid = many item mid :=
        manyWithin_congr h (Nat.le_of_lt (h _ _ _ hi)) (Nat.le_refl _)
      show (manyWithin item ts >>= _) mid = (many item >>= _) mid
      rw [bind_apply, bind_apply, hmid]

/-- Whatever goes on round by round is the loop. -/
theorem eq_many {item : Rule (Option α)} (h : TakesSome item) {r : Rule (List α)}
    (hr : r = item >>= fun
      | none => pure []
      | some a => r >>= fun as => pure (a :: as)) : r = many item := by
  funext ts
  -- The induction is on the tokens that are left, of which every further round takes one.
  induction hn : ts.length using Nat.strongRecOn generalizing ts with
  | ind n ih =>
    subst hn
    rw [hr, many_eq h, bind_apply, bind_apply]
    cases hi : item ts with
    | fail c mid => rfl
    | ok a? mid =>
      cases a? with
      | none => rfl
      | some a =>
        have hmid : r mid = many item mid := ih _ (h _ _ _ hi) mid rfl
        show (r >>= _) mid = (many item >>= _) mid
        rw [bind_apply, bind_apply, hmid]

theorem many_nil_iff {item : Rule (Option α)} (h : TakesSome item) :
    many item ts = .ok [] rest ↔ item ts = .ok none rest := by
  rw [many_eq h, bind_eq_ok_iff]
  constructor
  · rintro ⟨a?, mid, hi, hm⟩
    cases a? with
    | none =>
      cases hm
      exact hi
    | some a =>
      obtain ⟨as, mid', -, has⟩ := bind_eq_ok_iff.mp hm
      cases has
  · intro hi
    exact ⟨none, rest, hi, rfl⟩

theorem many_cons_iff {item : Rule (Option α)} (h : TakesSome item) {a : α} {as : List α} :
    many item ts = .ok (a :: as) rest ↔
      ∃ mid, item ts = .ok (some a) mid ∧ many item mid = .ok as rest := by
  rw [congrFun (many_eq h) ts, bind_eq_ok_iff]
  constructor
  · rintro ⟨a?, mid, hi, hm⟩
    cases a? with
    | none => cases hm
    | some b =>
      obtain ⟨bs, mid', hbs, hcons⟩ := bind_eq_ok_iff.mp hm
      cases hcons
      exact ⟨mid, hi, hbs⟩
  · rintro ⟨mid, hi, has⟩
    exact ⟨some a, mid, hi, bind_eq_ok_iff.mpr ⟨as, rest, has, rfl⟩⟩

theorem chainWithin_nil {link : α → Rule (Option α)} (h : ∀ a, TakesSome (link a))
    (budget : List Token) (a : α) :
    chainWithin link budget a [] = ((·.getD a) <$> link a) [] := by
  cases budget with
  | nil => rfl
  | cons _ budget =>
    rw [chainWithin, map_eq_bind, bind_apply, bind_apply]
    cases hi : link a [] with
    | fail c mid => rfl
    | ok b? mid =>
      cases b? with
      | none => rfl
      | some b => exact absurd (h a _ _ _ hi) (Nat.not_lt_zero _)

theorem chainWithin_congr {link : α → Rule (Option α)} (h : ∀ a, TakesSome (link a)) {a : α}
    {b b' ts : List Token} (hb : ts.length ≤ b.length) (hb' : ts.length ≤ b'.length) :
    chainWithin link b a ts = chainWithin link b' a ts := by
  induction b generalizing a b' ts with
  | nil =>
    have hnil : ts = [] := List.eq_nil_of_length_eq_zero (Nat.le_zero.mp hb)
    rw [hnil, chainWithin_nil h, chainWithin_nil h]
  | cons u b ih =>
    cases b' with
    | nil =>
      have hnil : ts = [] := List.eq_nil_of_length_eq_zero (Nat.le_zero.mp hb')
      rw [hnil, chainWithin_nil h, chainWithin_nil h]
    | cons u' b' =>
      rw [chainWithin, chainWithin, bind_apply, bind_apply]
      cases hi : link a ts with
      | fail c mid => rfl
      | ok c? mid =>
        cases c? with
        | none => rfl
        | some c =>
          have hlt := h a _ _ _ hi
          simp only [List.length_cons] at hb hb'
          exact ih (by omega) (by omega)

/-- A chain is its first link, and then the chain of what the link made. -/
theorem chain_eq {link : α → Rule (Option α)} (h : ∀ a, TakesSome (link a)) (a : α) :
    chain link a = link a >>= fun
      | none => pure a
      | some b => chain link b := by
  funext ts
  have hround : chain link a ts = chainWithin link (.bare .lineEnd .origin :: ts) a ts :=
    chainWithin_congr h (Nat.le_refl _) (Nat.le_succ _)
  rw [hround, chainWithin, bind_apply, bind_apply]
  cases hi : link a ts with
  | fail c mid => rfl
  | ok b? mid =>
    cases b? with
    | none => rfl
    | some b => exact chainWithin_congr h (Nat.le_of_lt (h a _ _ _ hi)) (Nat.le_refl _)

/-- Whatever goes on link by link is the chain. -/
theorem eq_chain {link : α → Rule (Option α)} (h : ∀ a, TakesSome (link a)) {r : α → Rule α}
    (hr : ∀ a, r a = link a >>= fun
      | none => pure a
      | some b => r b) : r = chain link := by
  funext a ts
  -- As for `eq_many`, with the value that has been made so far.
  induction hn : ts.length using Nat.strongRecOn generalizing a ts with
  | ind n ih =>
    subst hn
    rw [hr, chain_eq h, bind_apply, bind_apply]
    cases hi : link a ts with
    | fail c mid => rfl
    | ok b? mid =>
      cases b? with
      | none => rfl
      | some b => exact ih _ (h a _ _ _ hi) b mid rfl

theorem chain_eq_ok_iff {link : α → Rule (Option α)} (h : ∀ a, TakesSome (link a)) {a b : α} :
    chain link a ts = .ok b rest ↔
      (link a ts = .ok none rest ∧ b = a) ∨
        ∃ a' mid, link a ts = .ok (some a') mid ∧ chain link a' mid = .ok b rest := by
  rw [chain_eq h, bind_eq_ok_iff]
  constructor
  · rintro ⟨a?, mid, hi, hb⟩
    cases a? with
    | none =>
      cases hb
      exact .inl ⟨hi, rfl⟩
    | some a' => exact .inr ⟨a', mid, hi, hb⟩
  · rintro (⟨hi, rfl⟩ | ⟨a', mid, hi, hb⟩)
    · exact ⟨none, rest, hi, rfl⟩
    · exact ⟨some a', mid, hi, hb⟩

end Scriptlet.Rule
