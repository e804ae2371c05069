import Scriptlet.Proofs.Completeness
import Scriptlet.Proofs.DerivedTrees
import Scriptlet.Proofs.FormSpans
import Scriptlet.Proofs.Levels
import Scriptlet.Proofs.Lookahead

/-!
# Errors at the earliest token

A declaration that cannot be read fails at the first token that rules out every declaration: what
was read before begins one, and no declaration begins with that token after it. What comes later
plays no part. All this leaves out what is given up for its nesting, which may be right.
-/

namespace Scriptlet

open Rule

/-- What an error that comes from tokens says. -/
def Cause.message? : Cause → Option String
  | .unexpectedToken _ message | .unexpectedEnd message => some message
  | .unexpectedCharacter _ | .unterminatedText | .numberTooLarge _ => none

theorem Complaint.message?_toError (c : Complaint) (endPosition : Position) (ts : List Token) :
    (c.toError endPosition ts).cause.message? = some c.message := by
  cases ts <;> rfl

namespace Tables

variable {levels : Nat} {read us : List Token} {t : Token} {c : Complaint}

/-- The token at which a declaration fails decides the failure, with what is read before it. -/
theorem declaration_fail_congr
    (h : standard.read levels .declaration (read ++ t :: us) = .fail c (t :: us))
    (vs : List Token) :
    standard.read levels .declaration (read ++ t :: vs) = .fail c (t :: vs) := by
  have hlocal := standard.local_read levels .declaration (read ++ [t]) us vs (.fail c [t])
    (List.cons_ne_nil t [])
  rw [List.append_assoc, List.append_assoc] at hlocal
  exact hlocal h

/-- What begins with the tokens up to the one at which a declaration fails is no declaration. -/
theorem not_derives_of_declaration_fail
    (h : standard.read levels .declaration (read ++ t :: us) = .fail c (t :: us))
    (hc : c ≠ .nestingTooDeep) {w : List Kind} (hw : Derives .declaration w) :
    ¬ (read ++ [t]).map Token.kind <+: w := by
  rintro ⟨more, rfl⟩
  let vs := more.map (Token.bare · .origin)
  have hkinds : (read ++ t :: vs).map Token.kind = (read ++ [t]).map Token.kind ++ more := by
    have hvs : vs.map Token.kind = more := by simp [vs, Token.bare, Function.comp_def]
    simp [hvs]
  obtain ⟨_, ⟨d, hd, rfl⟩, hspells⟩ := hw.exists_form hkinds
  -- With levels enough the declaration would be read, and more levels undo no other failure.
  have hto : SpellsTo d.lines (read ++ t :: vs) [] := ⟨_, (List.append_nil _).symm, hspells⟩
  have hok := (complete_read (levels + d.levels)).declaration hd (Nat.le_add_left _ _) hto
    fun _ => not_startsWith_nil _
  have hfail := declaration_fail_congr h vs
  rcases standard.deepens_read levels d.levels .declaration (read ++ t :: vs) with
    heq | ⟨_, hdeep, -⟩
  · rw [hok, hfail] at heq
    cases heq
  · rw [hfail] at hdeep
    cases hdeep
    exact hc rfl

end Tables

/-! ## Declarations read from a cursor -/

namespace Cursor

variable {ts : List Token} {p : Nat} {e : Error} {c : Cursor}

/-- What is the same as `read` and the token after it begins with them too. -/
theorem drop_eq_of_agree {ts ts' read us : List Token} {t : Token}
    (hts : ts.drop p = read ++ t :: us)
    (hsame : ∀ i, p ≤ i → i ≤ p + read.length → ts'[i]? = ts[i]?) :
    ts'.drop p = read ++ t :: ts'.drop (p + (read.length + 1)) := by
  have htake : (ts'.drop p).take (read.length + 1) = (ts.drop p).take (read.length + 1) := by
    refine List.ext_getElem? fun i => ?_
    rw [List.getElem?_take, List.getElem?_take, List.getElem?_drop, List.getElem?_drop]
    split
    · exact hsame _ (by omega) (by omega)
    · rfl
  rw [← List.take_append_drop (read.length + 1) (ts'.drop p), htake, hts, List.drop_drop,
    List.take_length_add_append]
  simp

/-- A declaration that fails, other than for its nesting, does so as early as it can: what the
cursor has passed begins a declaration, and together with the token that it has stopped at begins
none. Any token list that is the same up to this token gives the same error there. -/
theorem handle_declaration_earliest (hp : p < ts.length)
    (h : Cursor.handle ⟨ts, p, .standard, 0⟩ .declaration = (.error e, c))
    (hne : e.cause.message? ≠ some "Nesting too deep.") :
    ∃ q, c = ⟨ts, q, .standard, 0⟩ ∧ p ≤ q ∧ q ≤ ts.length ∧
      (∃ w, Derives .declaration w ∧ ((ts.drop p).take (q - p)).map Token.kind <+: w) ∧
      (q < ts.length →
        (∀ w, Derives .declaration w →
          ¬ ((ts.drop p).take (q + 1 - p)).map Token.kind <+: w) ∧
        ∀ ts' : List Token, (∀ i, p ≤ i → i ≤ q → ts'[i]? = ts[i]?) →
          Cursor.handle ⟨ts', p, .standard, 0⟩ .declaration =
            (.error e, ⟨ts', q, .standard, 0⟩)) := by
  obtain ⟨complaint, rest, hread, rfl, rfl⟩ := run_eq_error_iff.mp h
  change Tables.standard.read nestingLimit .declaration (ts.drop p) = .fail complaint rest at hread
  have hc : complaint ≠ .nestingTooDeep := by
    rintro rfl
    exact hne (Complaint.message?_toError _ _ _)
  have hspans := (spans_read nestingLimit .declaration).outcome (ts.drop p)
  rw [hread] at hspans
  obtain hdeep | ⟨read, more, _, hts, hmore⟩ := hspans
  · exact absurd hdeep hc
  have hlength := congrArg List.length hts
  rw [List.length_append, List.length_drop] at hlength
  refine ⟨p + read.length, moveTo_of_rest_eq hts hp.le, by omega, by omega,
    ⟨_, hmore, more, ?_⟩, ?_⟩
  · rw [Nat.add_sub_cancel_left, hts, List.take_left]
  intro hlt
  cases rest with
  | nil => rw [List.length_nil] at hlength; omega
  | cons t us =>
    rw [hts] at hread
    refine ⟨fun w hw => ?_, fun ts' hsame => ?_⟩
    · have htaken : (ts.drop p).take (p + read.length + 1 - p) = read ++ [t] := by
        rw [hts, Nat.add_assoc, Nat.add_sub_cancel_left, List.take_length_add_append]
        rfl
      rw [htaken]
      exact Tables.not_derives_of_declaration_fail hread hc hw
    -- The other tokens are the same as far as the rule looks.
    · have hts' := drop_eq_of_agree hts hsame
      have hp' : p ≤ ts'.length := by
        by_contra hgt
        rw [List.drop_eq_nil_of_le (Nat.le_of_not_le hgt)] at hts'
        exact absurd hts'.symm (List.append_ne_nil_of_right_ne_nil read (List.cons_ne_nil t _))
      refine run_eq_error_iff.mpr ⟨complaint, t :: ts'.drop (p + (read.length + 1)), ?_, rfl,
        (moveTo_of_rest_eq (c := ⟨ts', p, .standard, 0⟩) hts' hp').symm⟩
      show Tables.standard.read nestingLimit .declaration (ts'.drop p) = _
      rw [hts']
      exact Tables.declaration_fail_congr hread _

/-- An empty line, and `let =`, which lacks a name. -/
theorem handle_declaration_earliest_name :
    let ts : List Token := [.bare .lineEnd ⟨0, 0⟩, .bare .letWord ⟨1, 0⟩, .bare .equal ⟨1, 4⟩,
      .bare .lineEnd ⟨1, 5⟩]
    let e : Error := ⟨.unexpectedToken "=" "Expect variable name.", ⟨1, 4⟩⟩
    Cursor.handle ⟨ts, 1, .standard, 0⟩ .declaration = (.error e, ⟨ts, 2, .standard, 0⟩) ∧
      ∃ q, (⟨ts, 2, .standard, 0⟩ : Cursor) = ⟨ts, q, .standard, 0⟩ ∧ 1 ≤ q ∧ q ≤ ts.length ∧
        (∃ w, Derives .declaration w ∧ ((ts.drop 1).take (q - 1)).map Token.kind <+: w) ∧
        (q < ts.length →
          (∀ w, Derives .declaration w →
            ¬ ((ts.drop 1).take (q + 1 - 1)).map Token.kind <+: w) ∧
          ∀ ts' : List Token, (∀ i, 1 ≤ i → i ≤ q → ts'[i]? = ts[i]?) →
            Cursor.handle ⟨ts', 1, .standard, 0⟩ .declaration =
              (.error e, ⟨ts', q, .standard, 0⟩)) :=
  ⟨rfl, handle_declaration_earliest (by decide) rfl (by decide)⟩

end Cursor

end Scriptlet
