import Scriptlet.Proofs.Completeness
import Scriptlet.Proofs.Lookahead
import Scriptlet.Proofs.Rounds
import Scriptlet.Proofs.Soundness

/-!
# Programs one after the other

Reading does not carry anything over the end of a line at which no declaration is left unfinished:
what stands before it and what comes after are read as if each stood alone, errors included.
-/

namespace Scriptlet.Program

open Rule

variable {p : Position} {a b : List Token}

/-- The tokens are none, or the last one is a line end. -/
def EndsLine (ts : List Token) : Prop := ∀ t ∈ ts.getLast?, t.kind = .lineEnd

/-- What is left of the tokens ends where they do. -/
theorem EndsLine.of_suffix {ts rest : List Token} (h : EndsLine ts) (hs : rest <:+ ts) :
    EndsLine rest := by
  intro t ht
  obtain ⟨read, rfl⟩ := hs
  apply h t
  rw [Option.mem_def] at ht ⊢
  rw [List.getLast?_append, ht]
  rfl

/-! ## Where reading resumes -/

theorem resumeAfter_append (previous : Kind) {ts : List Token} (hts : EndsLine ts)
    (hprevious : ts = [] → previous = .lineEnd) (us : List Token) :
    resumeAfter previous (ts ++ us) = resumeAfter previous ts ++ us := by
  induction ts generalizing previous with
  | nil =>
    rw [hprevious rfl, List.nil_append, resumeAfter, List.nil_append]
    cases us <;> rfl
  | cons t ts ih =>
    rw [List.cons_append, resumeAfter, resumeAfter]
    split
    · rfl
    · refine ih t.kind (hts.of_suffix (List.suffix_cons t ts)) fun hnil => ?_
      subst hnil
      exact hts t rfl

/-- Giving up a declaration leaves out nothing after the end of the line. -/
theorem resume_append {ts : List Token} (hts : EndsLine ts) (hne : ts ≠ []) (us : List Token) :
    resume (ts ++ us) = resume ts ++ us := by
  cases ts with
  | nil => contradiction
  | cons t ts =>
    rw [List.cons_append, resume, resume]
    refine resumeAfter_append t.kind (hts.of_suffix (List.suffix_cons t ts)) (fun hnil => ?_) us
    subst hnil
    exact hts t rfl

/-! ## One declaration -/

/-- A declaration that leaves a token is read in the same way before other tokens. -/
theorem declaration_append_of_ne_nil {ts us : List Token} {o : Outcome Tree}
    (h : declaration ts = o) (ho : o.rest ≠ []) : declaration (ts ++ us) = o.followedBy us := by
  have hlocal : LocalAt declaration ts := Tables.standard.local_read _ _ ts
  apply hlocal [] us o ho
  rw [List.append_nil, h]
  cases o with
  | ok tree rest => rw [Outcome.followedBy, List.append_nil]
  | fail c rest => rw [Outcome.followedBy, List.append_nil]

/-- A declaration that takes all tokens is written out by them, so it is read in the same way before
any tokens that cannot belong to it. -/
theorem declaration_append_of_nil {ts us : List Token} {tree : Tree}
    (h : declaration ts = .ok tree []) (hus : ¬ StartsWith .elseWord us) :
    declaration (ts ++ us) = .ok tree us := by
  obtain ⟨⟨read, hts, hspell⟩, hdecl, -, hlevels⟩ := (sound_read nestingLimit).declaration h
  rw [List.append_nil] at hts
  subst hts
  exact (complete_read nestingLimit).declaration hdecl hlevels ⟨ts, rfl, hspell⟩ fun _ => hus

/-! ## Round after round -/

/-- The rounds that end within the first tokens are the same with more tokens after them. -/
theorem pieces_append (p' : Position) (hb : ¬ StartsWith .elseWord b) (ha : EndsLine a)
    (hend : ∀ e ∈ failures (pieces p a a), ∀ m, e.cause ≠ .unexpectedEnd m) :
    pieces p' (a ++ b) (a ++ b) = pieces p a a ++ pieces p' b b := by
  induction a using round_induction with
  | nil => rfl
  | lineEnd t us ht ih =>
    rw [pieces_lineEnd ht] at hend
    rw [List.cons_append, pieces_lineEnd ht, pieces_lineEnd ht,
      ih (ha.of_suffix (List.suffix_cons t us)) hend]
  | ok t us tree rest ht hread ih =>
    rw [pieces_ok ht hread, failures_ok] at hend
    have hsuffix : rest <:+ t :: us := suffix_of_declaration_ok hread
    have hmore : declaration (t :: (us ++ b)) = .ok tree (rest ++ b) := by
      by_cases hrest : rest = []
      · subst hrest
        exact declaration_append_of_nil hread hb
      · exact declaration_append_of_ne_nil hread hrest
    rw [List.cons_append, pieces_ok ht hmore, pieces_ok ht hread,
      ih (ha.of_suffix hsuffix) hend, List.cons_append]
  | fail t us c left ht hread ih =>
    rw [pieces_fail ht hread, failures_error] at hend
    obtain ⟨hfirst, hend⟩ := List.forall_mem_cons.mp hend
    have hsuffix := suffix_of_declaration_fail hread
    cases left with
    | nil =>
      -- Giving up at the end of the tokens is reported as such.
      exact absurd rfl (hfirst _)
    | cons u left =>
      have hleft := ha.of_suffix hsuffix
      have hmore : declaration (t :: (us ++ b)) = .fail c (u :: left ++ b) :=
        declaration_append_of_ne_nil hread (List.cons_ne_nil u left)
      rw [List.cons_append, pieces_fail ht hmore, pieces_fail ht hread,
        resume_append hleft (List.cons_ne_nil u left), ih (hleft.of_suffix (resume_suffix _)) hend,
        List.cons_append]
      rfl

/-- A program is read line by line: if reading the first tokens gives up no declaration at their
end, and they end in a line end if there are any, then what is read of them and of the tokens after
them is what is read of both one after the other. -/
theorem ofTokens_append (ha : EndsLine a)
    (hend : ∀ e ∈ (ofTokens a).errors, ∀ m, e.cause ≠ .unexpectedEnd m)
    (hb : ¬ StartsWith .elseWord b) :
    (ofTokens (a ++ b)).body = (ofTokens a).body ++ (ofTokens b).body ∧
      (ofTokens (a ++ b)).errors = (ofTokens a).errors ++ (ofTokens b).errors := by
  have hpieces := pieces_append (Token.endPosition (a ++ b)) hb ha hend
  -- The last token of both is the last one of `b`, unless there is none to report anything at.
  have hposition : pieces (Token.endPosition (a ++ b)) b b = pieces (Token.endPosition b) b b := by
    cases b with
    | nil => rfl
    | cons t b =>
      have hlast : Token.endPosition (a ++ t :: b) = Token.endPosition (t :: b) := by
        rw [Token.endPosition, Token.endPosition, List.getLast?_append, List.getLast?_cons]
        rfl
      rw [hlast]
  rw [ofTokens_eq, ofTokens_eq, ofTokens_eq, hpieces, hposition]
  exact ⟨trees_append _ _, failures_append _ _⟩

/-- A line that cannot be read, and a line that can. -/
theorem ofTokens_append_lines :
    let plus : Token := .bare .plus ⟨0, 0⟩
    let x : Token := ⟨.identifier, .name "x", ⟨1, 0⟩⟩
    let a : List Token := [plus, .bare .lineEnd ⟨0, 1⟩]
    let b : List Token := [x, .bare .lineEnd ⟨1, 1⟩]
    EndsLine a ∧ (ofTokens a).errors = [⟨.unexpectedToken "+" "Expect expression.", ⟨0, 0⟩⟩] ∧
      (ofTokens (a ++ b)).body = (ofTokens a).body ++ (ofTokens b).body ∧
      (ofTokens (a ++ b)).errors = (ofTokens a).errors ++ (ofTokens b).errors := by
  intro plus x a b
  have ha : EndsLine a := by simp [EndsLine, a, Token.bare]
  have herrors : (ofTokens a).errors = [⟨.unexpectedToken "+" "Expect expression.", ⟨0, 0⟩⟩] := rfl
  refine ⟨ha, herrors, ofTokens_append ha ?_ ?_⟩
  · rw [herrors]
    simp
  · simp [b, x]

end Scriptlet.Program
