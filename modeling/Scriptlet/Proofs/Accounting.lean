import Scriptlet.Proofs.Places
import Scriptlet.Proofs.Rounds

/-!
# Accounting for the tokens of a program

Every token of a program is accounted for once: as an empty line, as part of a declaration that is
read, or as part of one that is given up. So each declaration and each error of the program comes
from tokens of its own, in order, and the errors name tokens further and further on.
-/

namespace Scriptlet.Program

open Rule

/-- A stretch of the tokens of a program, by what one round makes of it. -/
inductive Segment where
  /-- A line end that is skipped. -/
  | blank (lineEnd : Token)
  /-- The tokens of a declaration. -/
  | declared (read : List Token) (tree : Tree)
  /-- The tokens of a declaration that is given up: those up to the place where it fails, and those
  from there to the place where reading resumes. -/
  | abandoned (read skipped : List Token) (complaint : Complaint)

namespace Segment

def tokens : Segment → List Token
  | .blank lineEnd => [lineEnd]
  | .declared read _ => read
  | .abandoned read skipped _ => read ++ skipped

/-- The declaration that the segment gives to the program. -/
def tree? : Segment → Option Tree
  | .declared _ tree => some tree
  | _ => none

/-- The error that the segment gives to the program. It names the first token that is skipped, or
the end of the tokens if there is none. -/
def error? (endPosition : Position) : Segment → Option Error
  | .abandoned _ skipped complaint => some (complaint.toError endPosition skipped)
  | _ => none

/-- The segment is what a round makes of its tokens when `rest` comes after them. Only at the end of
all tokens is a declaration given up without a token to skip. -/
def IsRound : Segment → List Token → Prop
  | .blank lineEnd, _ => lineEnd.kind = .lineEnd
  | .declared read tree, rest =>
    ¬ StartsWith .lineEnd read ∧ declaration (read ++ rest) = .ok tree rest
  | .abandoned read skipped complaint, rest =>
    read ++ skipped ≠ [] ∧ ¬ StartsWith .lineEnd (read ++ skipped) ∧
      declaration (read ++ skipped ++ rest) = .fail complaint (skipped ++ rest) ∧
      resume (skipped ++ rest) = rest ∧ (skipped = [] → rest = [])

theorem tokens_ne_nil {s : Segment} {rest : List Token} (h : s.IsRound rest) : s.tokens ≠ [] := by
  cases s with
  | blank lineEnd => exact List.cons_ne_nil _ _
  | declared read tree =>
    have hlt := length_lt_of_declaration_ok h.2
    intro hnil
    change read = [] at hnil
    rw [hnil] at hlt
    exact absurd hlt (Nat.lt_irrefl _)
  | abandoned read skipped complaint => exact h.1

end Segment

/-- The segments are the rounds in which the tokens are read, from the first token to the last. -/
inductive Covers : List Segment → List Token → Prop
  | nil : Covers [] []
  | cons {s : Segment} {segments : List Segment} {rest : List Token} :
      s.IsRound rest → Covers segments rest → Covers (s :: segments) (s.tokens ++ rest)

namespace Covers

variable {segments : List Segment} {ts : List Token}

theorem flatten (h : Covers segments ts) : (segments.map Segment.tokens).flatten = ts := by
  induction h with
  | nil => rfl
  | cons _ _ ih => rw [List.map_cons, List.flatten_cons, ih]

theorem tokens_ne_nil (h : Covers segments ts) : ∀ s ∈ segments, s.tokens ≠ [] := by
  induction h with
  | nil => simp
  | cons hround _ ih => exact List.forall_mem_cons.mpr ⟨Segment.tokens_ne_nil hround, ih⟩

end Covers

/-- The tokens that are left when a declaration is given up are skipped up to where reading
resumes. -/
theorem exists_skipped (left : List Token) :
    ∃ skipped, left = skipped ++ resume left ∧ (skipped = [] → resume left = []) := by
  obtain ⟨skipped, hskipped⟩ := resume_suffix left
  refine ⟨skipped, hskipped.symm, fun hnil => ?_⟩
  subst hnil
  cases left with
  | nil => rfl
  | cons t left =>
    have hlt := length_resume_lt (List.cons_ne_nil t left)
    rw [List.nil_append] at hskipped
    rw [hskipped] at hlt
    exact absurd hlt (Nat.lt_irrefl _)

theorem not_startsWith_of_append {t : Token} {us front rest : List Token} {k : Kind}
    (h : front ++ rest = t :: us) (ht : t.kind ≠ k) : ¬ StartsWith k front := by
  cases front with
  | nil => exact not_startsWith_nil k
  | cons u front =>
    obtain ⟨rfl, -⟩ := List.cons.inj h
    exact fun hk => ht (startsWith_cons.mp hk)

/-- The rounds in which the tokens are read account for all of them, and for all that is found. -/
theorem exists_covers (p : Position) (ts : List Token) :
    ∃ segments, Covers segments ts ∧ trees (pieces p ts ts) = segments.filterMap Segment.tree? ∧
      failures (pieces p ts ts) = segments.filterMap (Segment.error? p) := by
  induction ts using round_induction with
  | nil => exact ⟨[], .nil, rfl, rfl⟩
  | lineEnd t us ht ih =>
    obtain ⟨segments, hcovers, htrees, hfailures⟩ := ih
    rw [pieces_lineEnd ht]
    exact ⟨.blank t :: segments, .cons ht hcovers, htrees, hfailures⟩
  | ok t us tree rest ht hread ih =>
    obtain ⟨segments, hcovers, htrees, hfailures⟩ := ih
    obtain ⟨read, hsplit⟩ := suffix_of_declaration_ok hread
    rw [pieces_ok ht hread, trees_ok, failures_ok, htrees, hfailures]
    have hround : (Segment.declared read tree).IsRound rest :=
      ⟨not_startsWith_of_append hsplit ht, hsplit.symm ▸ hread⟩
    refine ⟨.declared read tree :: segments, ?_, rfl, rfl⟩
    rw [← hsplit]
    exact .cons hround hcovers
  | fail t us c left ht hread ih =>
    obtain ⟨segments, hcovers, htrees, hfailures⟩ := ih
    obtain ⟨read, hsplit⟩ := suffix_of_declaration_fail hread
    obtain ⟨skipped, hleft, hend⟩ := exists_skipped left
    have hwhole : read ++ skipped ++ resume left = t :: us := by
      rw [List.append_assoc, ← hleft, hsplit]
    have hround : (Segment.abandoned read skipped c).IsRound (resume left) := by
      refine ⟨fun hnil => ?_, not_startsWith_of_append hwhole ht, ?_, ?_, hend⟩
      · rw [hnil, hend (List.append_eq_nil_iff.mp hnil).2] at hwhole
        cases hwhole
      · rw [hwhole, ← hleft]
        exact hread
      · rw [← hleft]
    have herror : c.toError p left = c.toError p skipped := by
      cases skipped with
      | nil =>
        rw [List.nil_append, hend rfl] at hleft
        rw [hleft]
      | cons u skipped =>
        rw [hleft]
        rfl
    rw [pieces_fail ht hread, trees_error, failures_error, htrees, hfailures, herror]
    refine ⟨.abandoned read skipped c :: segments, ?_, rfl, rfl⟩
    rw [← hwhole]
    exact .cons hround hcovers

/-! ## What the errors name -/

/-- The error is about the token with the index or, when there are too few tokens, stands at it as
the last one. -/
def Names (ts : List Token) (k : Nat) (e : Error) : Prop :=
  ∃ t m, ts[k]? = some t ∧ e.position = t.position ∧
    (e.cause = .unexpectedToken t.lexeme m ∨ e.cause = .unexpectedEnd m ∧ k + 1 = ts.length)

/-- The error of a declaration that is given up names one of its tokens. -/
theorem names_toError (c : Complaint) (front : List Token) {read skipped rest : List Token}
    (hne : read ++ skipped ≠ []) (hend : skipped = [] → rest = []) :
    ∃ k, front.length ≤ k ∧ k < (front ++ (read ++ skipped)).length ∧
      Names (front ++ (read ++ skipped ++ rest)) k
        (c.toError (Token.endPosition (front ++ (read ++ skipped ++ rest))) skipped) := by
  cases skipped with
  | cons t skipped =>
    refine ⟨front.length + read.length, Nat.le_add_right _ _, ?_, t, c.message, ?_, rfl, .inl rfl⟩
    · simp only [List.length_append, List.length_cons]
      omega
    · have hsplit : front ++ (read ++ t :: skipped ++ rest) =
          (front ++ read) ++ t :: (skipped ++ rest) := by simp
      rw [hsplit, ← List.length_append, List.getElem?_append_right (Nat.le_refl _), Nat.sub_self]
      rfl
  | nil =>
    obtain rfl := hend rfl
    obtain ⟨init, t, rfl⟩ := (List.eq_nil_or_concat read).resolve_left (by simpa using hne)
    have hsplit : front ++ (init.concat t ++ [] ++ []) = (front ++ init) ++ [t] := by simp
    refine ⟨front.length + init.length, Nat.le_add_right _ _, ?_, t, c.message, ?_, ?_,
      .inr ⟨rfl, ?_⟩⟩
    · simp only [List.length_append, List.length_concat]
      omega
    · rw [hsplit, ← List.length_append, List.getElem?_append_right (Nat.le_refl _), Nat.sub_self]
      rfl
    · show Token.endPosition _ = t.position
      rw [hsplit, Token.endPosition, List.getLast?_concat]
      rfl
    · rw [hsplit]
      simp only [List.length_append, List.length_singleton]

/-- The errors name tokens in the order of their segments, each one of its own segment. -/
theorem Covers.exists_reports {segments : List Segment} {ts : List Token}
    (h : Covers segments ts) (front : List Token) :
    ∃ reports : List (Nat × Error),
      reports.map Prod.snd =
        segments.filterMap (Segment.error? (Token.endPosition (front ++ ts))) ∧
      reports.Pairwise (fun r r' => r.1 < r'.1) ∧
      ∀ r ∈ reports, front.length ≤ r.1 ∧ Names (front ++ ts) r.1 r.2 := by
  -- The tokens before the segments grow as the segments get fewer.
  induction h generalizing front with
  | nil => exact ⟨[], rfl, .nil, by simp⟩
  | @cons s segments rest hround _ ih =>
    obtain ⟨reports, herrors, hlt, hnames⟩ := ih (front ++ s.tokens)
    rw [List.append_assoc] at herrors hnames
    have hlater : ∀ r ∈ reports, (front ++ s.tokens).length ≤ r.1 := fun r hr => (hnames r hr).1
    have hnames' : ∀ r ∈ reports,
        front.length ≤ r.1 ∧ Names (front ++ (s.tokens ++ rest)) r.1 r.2 := by
      intro r hr
      have hle := hlater r hr
      rw [List.length_append] at hle
      exact ⟨by omega, (hnames r hr).2⟩
    cases s with
    | blank lineEnd => exact ⟨reports, herrors, hlt, hnames'⟩
    | declared read tree => exact ⟨reports, herrors, hlt, hnames'⟩
    | abandoned read skipped c =>
      obtain ⟨hne, -, -, -, hend⟩ := hround
      obtain ⟨k, hle, hk, hname⟩ := names_toError c front hne hend
      refine ⟨(k, _) :: reports, ?_, ?_, List.forall_mem_cons.mpr ⟨⟨hle, hname⟩, hnames'⟩⟩
      · rw [List.map_cons, herrors]
        rfl
      · refine List.pairwise_cons.mpr ⟨fun r hr => ?_, hlt⟩
        have hle : (front ++ (read ++ skipped)).length ≤ r.1 := hlater r hr
        show k < r.1
        omega

/-- Every error of a program names a token. -/
theorem exists_names {ts : List Token} {e : Error} (he : e ∈ (ofTokens ts).errors) :
    ∃ k, Names ts k e := by
  obtain ⟨segments, hcovers, -, herrors⟩ := exists_covers (Token.endPosition ts) ts
  obtain ⟨reports, hreports, -, hnames⟩ := hcovers.exists_reports []
  rw [ofTokens_eq, herrors] at he
  rw [List.nil_append] at hreports hnames
  rw [← hreports] at he
  obtain ⟨r, hr, rfl⟩ := List.mem_map.mp he
  exact ⟨r.1, (hnames r hr).2⟩

/-- In a source errors stand at places one after the other, if the tokens that they name are so. -/
theorem standIn_of_names {source : String} {ts : List Token} (hts : tokenize source = .ok ts)
    {reports : List (Nat × Error)} (hlt : reports.Pairwise fun r r' => r.1 < r'.1)
    (hnames : ∀ r ∈ reports, Names ts r.1 r.2) :
    StandIn source.toList 0 ((reports.map Prod.snd).map Error.position) := by
  obtain ⟨starts, hstarts, hrange, hpositions⟩ := tokenize_positions hts
  have hstart : ∀ r ∈ reports, ∃ k, starts[r.1]? = some k ∧
      r.2.position = .after (source.toList.take k) := by
    intro r hr
    obtain ⟨t, -, ht, hposition, -⟩ := hnames r hr
    -- The token and its place are at the same index.
    have hmap := congrArg (·[r.1]?) hpositions
    simp only [List.getElem?_map, ht, Option.map_some] at hmap
    obtain ⟨k, hk, hafter⟩ := Option.map_eq_some_iff.mp hmap.symm
    exact ⟨k, hk, hposition.trans hafter.symm⟩
  refine ⟨reports.map fun r => starts[r.1]?.getD 0, ?_, ?_, ?_⟩
  · apply List.pairwise_map.mpr
    apply hlt.imp_of_mem
    intro r r' hr hr' hrr'
    obtain ⟨k, hk, -⟩ := hstart r hr
    obtain ⟨k', hk', -⟩ := hstart r' hr'
    rw [hk, hk', Option.getD_some, Option.getD_some]
    obtain ⟨h, rfl⟩ := List.getElem?_eq_some_iff.mp hk
    obtain ⟨h', rfl⟩ := List.getElem?_eq_some_iff.mp hk'
    exact List.pairwise_iff_getElem.mp hstarts _ _ h h' hrr'
  · intro k hk
    obtain ⟨r, hr, rfl⟩ := List.mem_map.mp hk
    obtain ⟨k, hk, -⟩ := hstart r hr
    rw [hk, Option.getD_some]
    exact hrange k (List.mem_of_getElem? hk)
  · rw [List.map_map, List.map_map]
    apply List.map_congr_left
    intro r hr
    obtain ⟨k, hk, hposition⟩ := hstart r hr
    rw [Function.comp_apply, Function.comp_apply, hk, Option.getD_some]
    exact hposition

/-- Reading accounts for every token list: its rounds take all tokens, in order and some in each,
and every round gives the program a declaration, an error or an empty line. Only the last error can
be about the end of the tokens, the errors name tokens further and further on, and in a source they
stand at places further and further on. -/
theorem ofTokens_accounts (ts : List Token) :
    ∃ segments, Covers segments ts ∧ (segments.map Segment.tokens).flatten = ts ∧
      (∀ s ∈ segments, s.tokens ≠ []) ∧
      (ofTokens ts).body = segments.filterMap Segment.tree? ∧
      (ofTokens ts).errors = segments.filterMap (Segment.error? (Token.endPosition ts)) ∧
      (ofTokens ts).errors.Pairwise (fun e _ => ∀ m, e.cause ≠ .unexpectedEnd m) ∧
      (∃ reports : List (Nat × Error), reports.map Prod.snd = (ofTokens ts).errors ∧
        reports.Pairwise (fun r r' => r.1 < r'.1) ∧ ∀ r ∈ reports, Names ts r.1 r.2) ∧
      ∀ source, tokenize source = .ok ts →
        StandIn source.toList 0 ((ofTokens ts).errors.map Error.position) ∧
        (source.toList.length < UInt32.size →
          (ofTokens ts).errors.Pairwise fun e e' => e.position < e'.position) := by
  obtain ⟨segments, hcovers, hbody, herrors⟩ := exists_covers (Token.endPosition ts) ts
  obtain ⟨reports, hreports, hlt, hnames⟩ := hcovers.exists_reports []
  rw [List.nil_append] at hreports hnames
  have hnames' : ∀ r ∈ reports, Names ts r.1 r.2 := fun r hr => (hnames r hr).2
  rw [ofTokens_eq, herrors, ← hreports]
  refine ⟨segments, hcovers, hcovers.flatten, hcovers.tokens_ne_nil, hbody, hreports, ?_,
    ⟨reports, rfl, hlt, hnames'⟩, fun source hsource => ?_⟩
  · apply List.pairwise_map.mpr
    apply hlt.imp_of_mem
    intro r r' hr hr' hrr' m hm
    -- The end of the tokens is named as the last of them, after which none is named.
    obtain ⟨t, _, -, -, hcause | ⟨-, hlast⟩⟩ := hnames' r hr
    · rw [hm] at hcause
      cases hcause
    · obtain ⟨t', _, ht', -⟩ := hnames' r' hr'
      obtain ⟨h', -⟩ := List.getElem?_eq_some_iff.mp ht'
      omega
  · have hstand := standIn_of_names hsource hlt hnames'
    exact ⟨hstand, fun hlength => List.pairwise_map.mp (hstand.pairwise_lt hlength)⟩

end Scriptlet.Program
