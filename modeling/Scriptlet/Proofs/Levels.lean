import Scriptlet.Proofs.Parallel

/-!
# Nesting levels

The number of levels left decides only whether reading gets through: `deepens_read` says that with
more levels a part is read as it was, unless it was given up for its nesting, and that what is then
read goes past the token at which it was given up.
-/

namespace Scriptlet

open Rule

variable {α β : Type}

/-- The second rule ends as the first one does, except where that gives up for the nesting. If it
succeeds there, it takes the token at which the first one gave up. -/
def Rule.Deepens (r r' : Rule α) : Prop :=
  ∀ ts, r' ts = r ts ∨
    ∃ rest, r ts = .fail .nestingTooDeep rest ∧
      ∀ a rest', r' ts = .ok a rest' → rest'.length < rest.length

namespace Rule.Deepens

theorem refl (r : Rule α) : Deepens r r := fun _ => .inl rfl

theorem bind {r r' : Rule α} {f f' : α → Rule β} (hr : Deepens r r')
    (hf : ∀ a, Deepens (f a) (f' a)) (hforward : ∀ a, Forward (f' a)) :
    Deepens (r >>= f) (r' >>= f') := by
  intro ts
  rcases hr ts with heq | ⟨rest, hfail, hpast⟩
  · rw [bind_apply, bind_apply, heq]
    cases hts : r ts with
    | ok a mid => exact hf a mid
    | fail c mid => exact .inl rfl
  -- If the first rule gives up, so does the whole, and what follows only takes more tokens.
  · refine .inr ⟨rest, ?_, ?_⟩
    · rw [bind_apply, hfail]
    · intro b rest' hb
      obtain ⟨a, mid, ha, hfb⟩ := bind_eq_ok_iff.mp hb
      have hlt := hpast a mid ha
      have hle := (hforward a).length_le hfb
      omega

theorem manyWithin {item item' : Rule (Option α)} (h : Deepens item item')
    (hforward : Forward item') (budget : List Token) :
    Deepens (manyWithin item budget) (manyWithin item' budget) := by
  induction budget with
  | nil => exact h.bind (fun _ => refl _) fun _ => forward_pure _
  | cons _ budget ih =>
    refine h.bind (fun a? => ?_) fun a? => ?_
    · cases a? with
      | none => exact refl _
      | some a => exact ih.bind (fun _ => refl _) fun _ => forward_pure _
    · cases a? with
      | none => exact forward_pure _
      | some a => exact (forward_manyWithin hforward budget).bind fun _ => forward_pure _

theorem chainWithin {link link' : α → Rule (Option α)} (h : ∀ a, Deepens (link a) (link' a))
    (hforward : ∀ a, Forward (link' a)) (budget : List Token) (a : α) :
    Deepens (chainWithin link budget a) (chainWithin link' budget a) := by
  induction budget generalizing a with
  | nil => exact (h a).bind (fun _ => refl _) fun _ => forward_pure _
  | cons _ budget ih =>
    refine (h a).bind (fun b? => ?_) fun b? => ?_
    · cases b? with
      | none => exact refl _
      | some b => exact ih b
    · cases b? with
      | none => exact forward_pure _
      | some b => exact forward_chainWithin hforward budget b

end Rule.Deepens

/-- Where one rule has no level left, another one may read the part. -/
def Rule.NoLevelLeft (r r' : Rule Tree) : Prop := r = Rule.fail .nestingTooDeep ∧ Takes r'

theorem Rule.Parallel.deepens {r r' : Rule α} (h : Parallel NoLevelLeft r r') : Deepens r r' := by
  induction h with
  | part hp =>
    obtain ⟨rfl, htakes⟩ := hp
    exact fun ts => .inr ⟨ts, rfl, htakes ts⟩
  | bind _ hf ihr ihf => exact ihr.bind ihf fun a => (hf a).forward_right
  | many hi _ ih => exact fun ts => ih.manyWithin hi.forward_right ts ts
  | chain a hl _ ih =>
    exact fun ts => Deepens.chainWithin ih (fun a => (hl a).forward_right) ts a ts
  | _ => exact .refl _

/-- With more levels, what was read is read in the same way, and what failed for another reason than
its nesting fails in the same way. -/
theorem Tables.deepens_read (tables : Tables) (levels more : Nat) (goal : Goal) :
    Deepens (tables.read levels goal) (tables.read (levels + more) goal) := by
  apply Parallel.deepens
  apply Consuming.parallel
  -- Level by level both are put together in the same way, down to where the first has none left.
  induction levels generalizing goal with
  | zero =>
    rw [Nat.zero_add]
    exact ⟨.part ⟨rfl, tables.takes_read more goal⟩ (forward_fail _)
      (tables.forward_read more goal), takes_fail _⟩
  | succ levels ih =>
    rw [Nat.succ_add]
    exact tables.consuming_level ih goal

end Scriptlet
