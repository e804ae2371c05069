import Scriptlet.Proofs.Parallel

/-!
# Lookahead

No rule looks further than one token past what it takes. So how it ends, and where, stays the same
when the tokens after that are replaced by others: `local_read` says so of reading by any tables.
-/

namespace Scriptlet

open Rule

variable {α β : Type}

/-- The outcome with more tokens after those that are left. -/
def Outcome.followedBy (o : Outcome α) (us : List Token) : Outcome α :=
  match o with
  | .ok a rest => .ok a (rest ++ us)
  | .fail c rest => .fail c (rest ++ us)

@[simp] theorem Outcome.rest_followedBy (o : Outcome α) (us : List Token) :
    (o.followedBy us).rest = o.rest ++ us := by
  cases o <;> rfl

theorem Outcome.eq_ok_of_followedBy {o : Outcome α} {a : α} {rest us : List Token}
    (h : .ok a (rest ++ us) = o.followedBy us) : o = .ok a rest := by
  cases o with
  | ok b rest' =>
    obtain ⟨rfl, hrest⟩ := Outcome.ok.inj h
    rw [List.append_cancel_right hrest]
  | fail c rest' => cases h

theorem Outcome.eq_fail_of_followedBy {o : Outcome α} {c : Complaint} {rest us : List Token}
    (h : .fail c (rest ++ us) = o.followedBy us) : o = .fail c rest := by
  cases o with
  | ok b rest' => cases h
  | fail c' rest' =>
    obtain ⟨rfl, hrest⟩ := Outcome.fail.inj h
    rw [List.append_cancel_right hrest]

namespace Rule

/-- When the rule stops within `p`, leaving a token of it, what comes after `p` does not matter. -/
def LocalAt (r : Rule α) (p : List Token) : Prop :=
  ∀ (x y : List Token) (o : Outcome α), o.rest ≠ [] → r (p ++ x) = o.followedBy x →
    r (p ++ y) = o.followedBy y

/-- The rule looks no further than one token past what it takes. -/
def Local (r : Rule α) : Prop := ∀ p, r.LocalAt p

/-- What a rule leaves of `p`, if it leaves the rest as it was, is an end of `p`. -/
theorem Forward.suffix_left {r : Rule α} (h : Forward r) {p x : List Token} {o : Outcome α}
    (hr : r (p ++ x) = o.followedBy x) : o.rest <:+ p := by
  have hs := h (p ++ x)
  rw [hr, Outcome.rest_followedBy] at hs
  obtain ⟨k, hk⟩ := hs
  rw [← List.append_assoc] at hk
  exact ⟨k, List.append_cancel_right hk⟩

/-- It is enough to look at lists that are not empty. -/
theorem Forward.local_of_cons {r : Rule α} (h : Forward r)
    (hl : ∀ (t : Token) (p x y : List Token) (o : Outcome α),
      r (t :: (p ++ x)) = o.followedBy x → r (t :: (p ++ y)) = o.followedBy y) : Local r := by
  intro p x y o ho hr
  cases p with
  | nil => exact absurd (List.suffix_nil.mp (h.suffix_left hr)) ho
  | cons t p => exact hl t p x y o hr

theorem local_pure (a : α) : Local (pure a : Rule α) := by
  intro p x y o _ hr
  rw [Outcome.eq_ok_of_followedBy hr]
  rfl

theorem local_fail (c : Complaint) : Local (fail c : Rule α) := by
  intro p x y o _ hr
  rw [Outcome.eq_fail_of_followedBy hr]
  rfl

theorem local_kind? : Local kind? := by
  refine forward_kind?.local_of_cons fun t p x y o hr => ?_
  have ho : o = .ok (some t.kind) (t :: p) := Outcome.eq_ok_of_followedBy hr
  rw [ho]
  rfl

theorem local_take (c : Complaint) : Local (take c) := by
  refine (forward_take c).local_of_cons fun t p x y o hr => ?_
  rw [Outcome.eq_ok_of_followedBy hr]
  rfl

theorem local_expect (k : Kind) (c : Complaint) : Local (expect k c) := by
  refine (forward_expect k c).local_of_cons fun t p x y o hr => ?_
  rw [expect] at hr ⊢
  by_cases hk : t.kind = k
  · rw [if_pos hk] at hr ⊢
    rw [Outcome.eq_ok_of_followedBy hr]
    rfl
  · rw [if_neg hk] at hr ⊢
    have ho : o = .fail c (t :: p) := Outcome.eq_fail_of_followedBy hr
    rw [ho]
    rfl

theorem local_acceptAny (ks : List Kind) : Local (acceptAny ks) := by
  refine (forward_acceptAny ks).local_of_cons fun t p x y o hr => ?_
  rw [acceptAny] at hr ⊢
  by_cases hk : t.isOneOf ks
  · rw [if_pos hk] at hr ⊢
    rw [Outcome.eq_ok_of_followedBy hr]
    rfl
  · rw [if_neg hk] at hr ⊢
    have ho : o = .ok false (t :: p) := Outcome.eq_ok_of_followedBy hr
    rw [ho]
    rfl

theorem afterLineEnds_append {p : List Token} (h : afterLineEnds p ≠ []) (x : List Token) :
    afterLineEnds (p ++ x) = afterLineEnds p ++ x := by
  rw [afterLineEnds] at h ⊢
  rw [List.dropWhile_append, if_neg (by simpa using h)]
  rfl

theorem afterLineEnds_append_of_nil {p : List Token} (h : afterLineEnds p = []) (x : List Token) :
    afterLineEnds (p ++ x) = afterLineEnds x := by
  rw [afterLineEnds] at h ⊢
  rw [List.dropWhile_append, if_pos (by simpa using h)]
  rfl

theorem local_skipLineEnds : Local skipLineEnds := by
  intro p x y o ho hr
  -- If `p` were line ends only, none of it would be left.
  have hne : afterLineEnds p ≠ [] := by
    intro hnil
    rw [skipLineEnds, afterLineEnds_append_of_nil hnil] at hr
    have hrest := congrArg (List.length ∘ Outcome.rest) hr
    simp only [Function.comp_apply, Outcome.rest_followedBy, List.length_append] at hrest
    have hle : (afterLineEnds x).length ≤ x.length := (List.dropWhile_suffix _).length_le
    have hpos : 0 < o.rest.length := List.length_pos_iff.mpr ho
    have hx : (Outcome.ok () (afterLineEnds x)).rest = afterLineEnds x := rfl
    rw [hx] at hrest
    omega
  rw [skipLineEnds, afterLineEnds_append hne] at hr
  rw [Outcome.eq_ok_of_followedBy hr, skipLineEnds, afterLineEnds_append hne]
  rfl

/-- What the first rule leaves decides where the second one starts, so it is enough that the second
one is local there. -/
theorem LocalAt.bind {r : Rule α} {f : α → Rule β} {p : List Token} (hr : r.LocalAt p)
    (hf : ∀ a, Forward (f a))
    (hl : ∀ a m x, r (p ++ x) = .ok a (m ++ x) → (f a).LocalAt m) : (r >>= f).LocalAt p := by
  intro x y o ho h
  rw [bind_apply] at h
  cases hpx : r (p ++ x) with
  | fail c mid =>
    rw [hpx] at h
    have hmid : mid = o.rest ++ x := by
      rw [← Outcome.rest_followedBy, ← h]
      rfl
    subst hmid
    have ho' := Outcome.eq_fail_of_followedBy h
    have hpy := hr x y (.fail c o.rest) ho hpx
    rw [bind_apply, hpy, ho']
    rfl
  | ok a mid =>
    rw [hpx] at h
    change f a mid = o.followedBy x at h
    -- The second rule leaves a token of `p`, so the first one left that token and those before it.
    have hs := hf a mid
    rw [h, Outcome.rest_followedBy] at hs
    obtain ⟨k, hk⟩ := hs
    rw [← List.append_assoc] at hk
    subst hk
    have hne : k ++ o.rest ≠ [] := List.append_ne_nil_of_right_ne_nil k ho
    have hpy := hr x y (.ok a (k ++ o.rest)) hne hpx
    have hfy := hl a (k ++ o.rest) x hpx x y o ho h
    rw [bind_apply, hpy]
    exact hfy

theorem Local.many {item : Rule (Option α)} (h : Local item) (hf : Forward item)
    (ht : TakesSome item) : Local (many item) := by
  intro p
  -- The induction is on the tokens of `p` that are left: every further round takes one of them.
  induction hn : p.length using Nat.strongRecOn generalizing p with
  | ind n ih =>
    subst hn
    rw [many_eq ht]
    refine (h p).bind ?_ ?_
    · intro a?
      cases a? with
      | none => exact forward_pure _
      | some a => exact hf.many.bind fun _ => forward_pure _
    · intro a? m x hm
      cases a? with
      | none => exact local_pure _ m
      | some a =>
        have hlt := ht _ _ _ hm
        simp only [List.length_append] at hlt
        exact (ih m.length (by omega) m rfl).bind (fun _ => forward_pure _)
          fun as m' _ _ => local_pure _ m'

theorem Local.chain {link : α → Rule (Option α)} (h : ∀ a, Local (link a))
    (hf : ∀ a, Forward (link a)) (ht : ∀ a, TakesSome (link a)) (a : α) :
    Local (chain link a) := by
  intro p
  -- As for `many`, with the value that has been made so far.
  induction hn : p.length using Nat.strongRecOn generalizing p a with
  | ind n ih =>
    subst hn
    rw [chain_eq ht]
    refine (h a p).bind ?_ ?_
    · intro b?
      cases b? with
      | none => exact forward_pure _
      | some b => exact Forward.chain hf b
    · intro b? m x hm
      cases b? with
      | none => exact local_pure _ m
      | some b =>
        have hlt := ht a _ _ _ hm
        simp only [List.length_append] at hlt
        exact ih m.length (by omega) b m rfl

/-- A rule that is made of the rules about tokens looks no further than one token ahead. -/
theorem Parallel.isLocal {r r' : Rule α} (h : Parallel (fun _ _ => False) r r') : Local r := by
  induction h with
  | part hp => exact hp.elim
  | pure a => exact local_pure a
  | fail c => exact local_fail c
  | kind? => exact local_kind?
  | take c => exact local_take c
  | expect k c => exact local_expect k c
  | acceptAny ks => exact local_acceptAny ks
  | skipLineEnds => exact local_skipLineEnds
  | bind _ hf ihr ihf =>
    exact fun p => (ihr p).bind (fun a => (hf a).forward) fun a m _ _ => ihf a m
  | many hi ht ih => exact ih.many hi.forward ht
  | chain a hl ht ih => exact Local.chain ih (fun a => (hl a).forward) ht a

end Rule

/-- Reading looks no further than one token ahead, whatever the tables. -/
theorem Tables.local_read (tables : Tables) (levels : Nat) (goal : Goal) :
    Local (tables.read levels goal) :=
  (tables.consumes_read levels goal).parallel.isLocal

end Scriptlet
