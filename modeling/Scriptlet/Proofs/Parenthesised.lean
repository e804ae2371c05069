import Scriptlet.Proofs.PrintedWords
import Scriptlet.Tree.Printed

/-!
# Words in parentheses

Words and lists in parentheses, one inside the other to any depth, can be told from the text that
they are printed as (`Sexpr.Clean.toString_inj`). Quoted words may hold spaces and parentheses of
their own.
-/

namespace Scriptlet

/-- A word, or such things in parentheses. -/
inductive Sexpr where
  | word (text : String)
  | list (items : List Sexpr)

namespace Sexpr

mutual

/-- The printed form. -/
def toString : Sexpr → String
  | .word text => text
  | .list items => Tree.parenthesised (texts items)

/-- The printed forms of the items of a list. -/
def texts : List Sexpr → List String
  | [] => []
  | x :: xs => x.toString :: texts xs

end

/-- What is printed as a word is one. -/
inductive Clean : Sexpr → Prop
  | word {text : String} : IsWord text.toList → Clean (.word text)
  | list {items : List Sexpr} : (∀ x ∈ items, Clean x) → Clean (.list items)

theorem Clean.nil : (Sexpr.list []).Clean := .list (List.forall_mem_nil _)

theorem Clean.cons {x : Sexpr} {xs : List Sexpr} (hx : x.Clean) (hxs : (Sexpr.list xs).Clean) :
    (Sexpr.list (x :: xs)).Clean := by
  cases hxs with
  | list hxs => exact .list (List.forall_mem_cons.mpr ⟨hx, hxs⟩)

/-! ## Lists as text -/

/-- What a list writes after its first item. -/
def later : List Sexpr → List Char
  | [] => [')']
  | x :: xs => ' ' :: (x.toString.toList ++ later xs)

theorem endsWord_later (xs : List Sexpr) (r : List Char) : EndsWord (later xs ++ r) := by
  cases xs with
  | nil => exact endsWord_cons rfl
  | cons x xs => exact endsWord_cons rfl

theorem toList_list_nil : (list []).toString.toList = ['(', ')'] := rfl

theorem toList_list_cons (x : Sexpr) (xs : List Sexpr) :
    (list (x :: xs)).toString.toList = '(' :: (x.toString.toList ++ later xs) := by
  have hlater : " ".toList.intercalate ((texts (x :: xs)).map String.toList) ++ [')'] =
      x.toString.toList ++ later xs := by
    induction xs generalizing x with
    | nil =>
      rw [texts, texts, List.map_cons, List.map_nil, List.intercalate_singleton]
      rfl
    | cons y ys ih =>
      have hys := ih y
      rw [texts, List.map_cons] at hys
      rw [texts, texts, List.map_cons, List.map_cons, List.intercalate_cons_cons,
        List.append_assoc, hys, List.append_assoc]
      rfl
  rw [toString, Tree.parenthesised, String.toList_append, String.toList_append,
    String.toList_intercalate, List.append_assoc]
  exact congrArg ('(' :: ·) hlater

/-! ## Reading the text -/

/-- From a text that begins with the printed form, it can be told, and what comes after. -/
def Cancels (x : Sexpr) : Prop :=
  ∀ ⦃y : Sexpr⦄ ⦃r s : List Char⦄, y.Clean → EndsWord r → EndsWord s →
    x.toString.toList ++ r = y.toString.toList ++ s → x = y ∧ r = s

variable {x y : Sexpr} {xs ys : List Sexpr} {r s : List Char}

/-- Nothing that is printed begins with a closing parenthesis. -/
theorem Clean.append_ne_close (h : x.Clean) : x.toString.toList ++ r ≠ ')' :: s := by
  intro heq
  cases h with
  | word hword =>
    rw [toString] at heq
    exact hword.append_ne_cons (by decide) rfl heq
  | @list items _ =>
    cases items with
    | nil =>
      rw [toList_list_nil] at heq
      exact absurd (List.cons.inj heq).1 (by decide)
    | cons y ys =>
      rw [toList_list_cons] at heq
      exact absurd (List.cons.inj heq).1 (by decide)

theorem word_append_ne_list {text : String} (h : IsWord text.toList) :
    (word text).toString.toList ++ r ≠ (list xs).toString.toList ++ s := by
  cases xs with
  | nil =>
    rw [toList_list_nil]
    exact h.append_ne_cons (by decide) rfl
  | cons x xs =>
    rw [toList_list_cons]
    exact h.append_ne_cons (by decide) rfl

/-- The items after the first one can be told if each of them can. -/
theorem later_append_inj (hxs : ∀ x ∈ xs, x.Cancels) (hys : ∀ y ∈ ys, y.Clean)
    (h : later xs ++ r = later ys ++ s) : xs = ys ∧ r = s := by
  induction xs generalizing ys with
  | nil =>
    cases ys with
    | nil => exact ⟨rfl, (List.cons.inj h).2⟩
    | cons y ys => exact absurd (List.cons.inj h).1 (by decide)
  | cons x xs ih =>
    cases ys with
    | nil => exact absurd (List.cons.inj h).1 (by decide)
    | cons y ys =>
      obtain ⟨hx, hlaterxs⟩ := List.forall_mem_cons.mp hxs
      obtain ⟨hy, hlaterys⟩ := List.forall_mem_cons.mp hys
      rw [later, later, List.cons_append, List.cons_append, List.append_assoc,
        List.append_assoc] at h
      obtain ⟨rfl, hlater⟩ := hx hy (endsWord_later xs r) (endsWord_later ys s)
        (List.cons.inj h).2
      obtain ⟨rfl, hrest⟩ := ih hlaterxs hlaterys hlater
      exact ⟨rfl, hrest⟩

theorem Clean.cancels (hx : x.Clean) : x.Cancels := by
  -- After an item there is a space or a closing parenthesis, so no word of it is prolonged.
  induction hx with
  | @word text hword =>
    intro y r s hy hr hs h
    cases hy with
    | word hword' =>
      obtain ⟨htext, hrest⟩ := hword.append_inj hword' hr hs h
      rw [String.toList_inj.mp htext]
      exact ⟨rfl, hrest⟩
    | list _ => exact absurd h (word_append_ne_list hword)
  | @list xs hxs ih =>
    intro y r s hy hr hs h
    cases hy with
    | word hword' => exact absurd h.symm (word_append_ne_list hword')
    | @list ys hys =>
      cases xs with
      | nil =>
        cases ys with
        | nil => exact ⟨rfl, (List.cons.inj (List.cons.inj h).2).2⟩
        | cons y ys =>
          rw [toList_list_cons, List.cons_append, List.append_assoc] at h
          exact absurd (List.cons.inj h).2.symm (hys y List.mem_cons_self).append_ne_close
      | cons x xs =>
        obtain ⟨hx, hlaterxs⟩ := List.forall_mem_cons.mp ih
        cases ys with
        | nil =>
          rw [toList_list_cons, List.cons_append, List.append_assoc] at h
          exact absurd (List.cons.inj h).2 (hxs x List.mem_cons_self).append_ne_close
        | cons y ys =>
          obtain ⟨hy, hlaterys⟩ := List.forall_mem_cons.mp hys
          rw [toList_list_cons, toList_list_cons, List.cons_append, List.cons_append,
            List.append_assoc, List.append_assoc] at h
          obtain ⟨rfl, hlater⟩ := hx hy (endsWord_later xs r) (endsWord_later ys s)
            (List.cons.inj h).2
          obtain ⟨rfl, hrest⟩ := later_append_inj hlaterxs hlaterys hlater
          exact ⟨rfl, hrest⟩

/-- The text says what was printed. -/
theorem Clean.toString_inj (hx : x.Clean) (hy : y.Clean) (h : x.toString = y.toString) : x = y := by
  have htext : x.toString.toList ++ [] = y.toString.toList ++ [] := by rw [h]
  exact (hx.cancels hy endsWord_nil endsWord_nil htext).1

end Sexpr

end Scriptlet
