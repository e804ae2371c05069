import Scriptlet.Program
import Scriptlet.Proofs.Parallel

/-!
# Rounds of reading a program

What one round of reading a program does, without the bound on their number: it skips a line end,
reads a declaration, or gives one up and resumes further on. Every round takes a token
(`round_induction`), so a program is what its rounds say.
-/

namespace Scriptlet.Program

open Rule

variable {p : Position} {t : Token} {us rest : List Token}

theorem resume_suffix (ts : List Token) : resume ts <:+ ts := by
  have hafter (previous : Kind) (ts : List Token) : resumeAfter previous ts <:+ ts := by
    induction ts generalizing previous with
    | nil => exact List.suffix_refl _
    | cons t ts ih =>
      rw [resumeAfter]
      split
      · exact List.suffix_refl _
      · exact (ih t.kind).trans (List.suffix_cons t ts)
  cases ts with
  | nil => exact List.suffix_refl _
  | cons t ts => exact (hafter t.kind ts).trans (List.suffix_cons t ts)

theorem length_lt_of_declaration_ok {ts : List Token} {tree : Tree}
    (h : declaration ts = .ok tree rest) : rest.length < ts.length :=
  Tables.standard.takes_read _ _ _ _ _ h

theorem suffix_of_declaration_ok {ts : List Token} {tree : Tree}
    (h : declaration ts = .ok tree rest) : rest <:+ ts :=
  (Tables.standard.forward_read nestingLimit .declaration).suffix h

theorem suffix_of_declaration_fail {ts left : List Token} {c : Complaint}
    (h : declaration ts = .fail c left) : left <:+ ts := by
  have hs := Tables.standard.forward_read nestingLimit .declaration ts
  change (declaration ts).rest <:+ ts at hs
  rwa [h] at hs

/-- Giving up leaves fewer tokens, even when the first one is where it fails. -/
theorem length_resume_lt_of_declaration_fail {left : List Token} {c : Complaint}
    (h : declaration (t :: us) = .fail c left) : (resume left).length < (t :: us).length := by
  have hle := (suffix_of_declaration_fail h).length_le
  by_cases hleft : left = []
  · subst hleft
    exact Nat.zero_lt_succ _
  · have hlt := length_resume_lt hleft
    omega

/-! ## One round -/

theorem afterLineEnds_cons_of_ne (ht : t.kind ≠ .lineEnd) : afterLineEnds (t :: us) = t :: us :=
  List.dropWhile_cons_of_neg (by simpa using ht)

theorem length_afterLineEnds_le (ts : List Token) : (afterLineEnds ts).length ≤ ts.length :=
  (List.dropWhile_suffix _).length_le

/-- With at least as many rounds as tokens, the bound is never the reason to stop. -/
theorem pieces_congr {budget budget' ts : List Token} (h : ts.length ≤ budget.length)
    (h' : ts.length ≤ budget'.length) : pieces p budget ts = pieces p budget' ts := by
  induction budget generalizing budget' ts with
  | nil =>
    obtain rfl := List.eq_nil_of_length_eq_zero (Nat.le_zero.mp h)
    cases budget' <;> rfl
  | cons _ budget ih =>
    cases budget' with
    | nil =>
      obtain rfl := List.eq_nil_of_length_eq_zero (Nat.le_zero.mp h')
      rfl
    | cons _ budget' =>
      simp only [List.length_cons] at h h'
      have hle := length_afterLineEnds_le ts
      -- The same first round for both, and it leaves fewer tokens than there are rounds left.
      rw [pieces, pieces]
      cases hstart : afterLineEnds ts with
      | nil => rfl
      | cons t us =>
        rw [hstart] at hle
        simp only
        cases hread : declaration (t :: us) with
        | ok tree rest =>
          have hlt := length_lt_of_declaration_ok hread
          have hrest : pieces p budget rest = pieces p budget' rest := ih (by omega) (by omega)
          simp only [hrest]
        | fail c left =>
          have hlt := length_resume_lt_of_declaration_fail hread
          have hrest : pieces p budget (resume left) = pieces p budget' (resume left) :=
            ih (by omega) (by omega)
          simp only [hrest]

theorem pieces_nil : pieces p [] [] = [] := rfl

theorem pieces_lineEnd (ht : t.kind = .lineEnd) :
    pieces p (t :: us) (t :: us) = pieces p us us := by
  have hskip : afterLineEnds (t :: us) = afterLineEnds us :=
    List.dropWhile_cons_of_pos (by simpa using ht)
  have hbudget : pieces p us us = pieces p (t :: us) us :=
    pieces_congr (Nat.le_refl _) (Nat.le_succ _)
  rw [hbudget, pieces, pieces, hskip]

theorem pieces_lineEnds {ls : List Token} (hls : ∀ l ∈ ls, l.kind = .lineEnd) :
    pieces p (ls ++ us) (ls ++ us) = pieces p us us := by
  induction ls with
  | nil => rfl
  | cons l ls ih =>
    obtain ⟨hl, hls⟩ := List.forall_mem_cons.mp hls
    rw [List.cons_append, pieces_lineEnd hl, ih hls]

theorem pieces_ok {tree : Tree} (ht : t.kind ≠ .lineEnd)
    (h : declaration (t :: us) = .ok tree rest) :
    pieces p (t :: us) (t :: us) = .ok tree :: pieces p rest rest := by
  have hlt := length_lt_of_declaration_ok h
  rw [List.length_cons] at hlt
  rw [pieces, afterLineEnds_cons_of_ne ht]
  simp only [h]
  rw [pieces_congr (Nat.le_of_lt_succ hlt) (Nat.le_refl _)]

theorem pieces_fail {c : Complaint} {left : List Token} (ht : t.kind ≠ .lineEnd)
    (h : declaration (t :: us) = .fail c left) :
    pieces p (t :: us) (t :: us) =
      .error (c.toError p left) :: pieces p (resume left) (resume left) := by
  have hlt := length_resume_lt_of_declaration_fail h
  rw [List.length_cons] at hlt
  rw [pieces, afterLineEnds_cons_of_ne ht]
  simp only [h]
  rw [pieces_congr (Nat.le_of_lt_succ hlt) (Nat.le_refl _)]

/-! ## What is found -/

/-- The declarations among what is found. -/
def trees (found : List (Except Error Tree)) : List Tree :=
  found.filterMap fun
    | .ok tree => some tree
    | .error _ => none

/-- The errors among what is found. -/
def failures (found : List (Except Error Tree)) : List Error :=
  found.filterMap fun
    | .ok _ => none
    | .error e => some e

theorem ofTokens_eq (ts : List Token) :
    ofTokens ts = ⟨trees (pieces (Token.endPosition ts) ts ts),
      failures (pieces (Token.endPosition ts) ts ts)⟩ := rfl

section Found

variable (found found' : List (Except Error Tree))

@[simp] theorem trees_ok (tree : Tree) : trees (.ok tree :: found) = tree :: trees found := rfl

@[simp] theorem trees_error (e : Error) : trees (.error e :: found) = trees found := rfl

@[simp] theorem failures_ok (tree : Tree) : failures (.ok tree :: found) = failures found := rfl

@[simp] theorem failures_error (e : Error) :
    failures (.error e :: found) = e :: failures found := rfl

@[simp] theorem trees_append : trees (found ++ found') = trees found ++ trees found' :=
  List.filterMap_append

@[simp] theorem failures_append :
    failures (found ++ found') = failures found ++ failures found' :=
  List.filterMap_append

@[simp] theorem trees_map_ok (ds : List Tree) : trees (ds.map .ok) = ds := by
  induction ds with
  | nil => rfl
  | cons d ds ih => rw [List.map_cons, trees_ok, ih]

@[simp] theorem failures_map_ok (ds : List Tree) : failures (ds.map .ok) = [] := by
  induction ds with
  | nil => rfl
  | cons d ds ih => rw [List.map_cons, failures_ok, ih]

end Found

/-! ## Round after round -/

/-- What holds of no tokens, and of any tokens if it holds of what the first round leaves, holds of
all token lists. -/
theorem round_induction {motive : List Token → Prop} (nil : motive [])
    (lineEnd : ∀ t us, t.kind = .lineEnd → motive us → motive (t :: us))
    (ok : ∀ t us tree rest, t.kind ≠ .lineEnd → declaration (t :: us) = .ok tree rest →
      motive rest → motive (t :: us))
    (fail : ∀ t us c left, t.kind ≠ .lineEnd → declaration (t :: us) = .fail c left →
      motive (resume left) → motive (t :: us))
    (ts : List Token) : motive ts := by
  induction hn : ts.length using Nat.strongRecOn generalizing ts with
  | ind n ih =>
    subst hn
    cases ts with
    | nil => exact nil
    | cons t us =>
      by_cases ht : t.kind = .lineEnd
      · exact lineEnd t us ht (ih _ (Nat.lt_succ_self _) us rfl)
      · cases hread : declaration (t :: us) with
        | ok tree rest =>
          exact ok t us tree rest ht hread (ih _ (length_lt_of_declaration_ok hread) rest rfl)
        | fail c left =>
          exact fail t us c left ht hread
            (ih _ (length_resume_lt_of_declaration_fail hread) _ rfl)

/-- Every declaration that is found was read from some place of the tokens on. -/
theorem exists_declaration_of_mem_body {ts : List Token} {e : Tree} (he : e ∈ (ofTokens ts).body) :
    ∃ us rest, us <:+ ts ∧ declaration us = .ok e rest := by
  rw [ofTokens_eq] at he
  change e ∈ trees _ at he
  generalize Token.endPosition ts = p at he
  induction ts using round_induction with
  | nil => cases he
  | lineEnd t us ht ih =>
    rw [pieces_lineEnd ht] at he
    rcases ih he with ⟨vs, rest, hsuffix, hread⟩
    exact ⟨vs, rest, hsuffix.trans (List.suffix_cons t us), hread⟩
  | ok t us tree rest ht hread ih =>
    rw [pieces_ok ht hread, trees_ok] at he
    rcases List.mem_cons.mp he with rfl | he
    · exact ⟨t :: us, rest, List.suffix_refl _, hread⟩
    · rcases ih he with ⟨vs, rest', hsuffix, hread'⟩
      exact ⟨vs, rest', hsuffix.trans (suffix_of_declaration_ok hread), hread'⟩
  | fail t us c left ht hread ih =>
    rw [pieces_fail ht hread, trees_error] at he
    rcases ih he with ⟨vs, rest, hsuffix, hread'⟩
    have hleft := (resume_suffix left).trans (suffix_of_declaration_fail hread)
    exact ⟨vs, rest, hsuffix.trans hleft, hread'⟩

end Scriptlet.Program
