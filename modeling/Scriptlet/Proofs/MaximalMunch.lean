import Mathlib.Data.List.ReduceOption
import Scriptlet.Proofs.Lexemes

/-!
# Maximal munch

Tokenizing cuts a text into lexemes, each the longest at its place, and makes a token of every one
that is not blank (`Scanner.run`). It fails where there is no lexeme, and at an integer that is too
large.
-/

namespace Scriptlet

variable {cs left : List Char} {text : List Char} {texts : List (List Char)}

/-! ## Cutting a text into lexemes -/

/-- The texts are cut from the start of `cs`, each the longest lexeme at its place, up to what is
left. -/
inductive Munches : List Char → List (List Char) → List Char → Prop
  | stop {cs : List Char} : Munches cs [] cs
  | next {text rest left : List Char} {texts : List (List Char)} :
      IsLongest text (text ++ rest) → Munches rest texts left →
      Munches (text ++ rest) (text :: texts) left

theorem Lexeme.ne_nil {m : Meaning} (h : Lexeme text m) : text ≠ [] := by
  obtain ⟨e, tail, he, htext, -⟩ := Element.extends_of_lexeme h []
  rintro rfl
  cases he

namespace Munches

theorem append_flatten (h : Munches cs texts left) : texts.flatten ++ left = cs := by
  induction h with
  | stop => rfl
  | next _ _ ih => rw [List.flatten_cons, List.append_assoc, ih]

theorem eq_nil (h : Munches [] texts left) : texts = [] := by
  generalize hcs : ([] : List Char) = cs at h
  cases h with
  | stop => rfl
  | next hlongest _ =>
    obtain ⟨m, hm⟩ := hlongest.isLexeme
    exact absurd (List.append_eq_nil_iff.mp hcs.symm).1 hm.ne_nil

theorem exists_longest (h : Munches cs texts []) (hcs : cs ≠ []) :
    ∃ text ∈ texts, IsLongest text cs := by
  cases h with
  | stop => exact absurd rfl hcs
  | next hlongest _ => exact ⟨_, List.mem_cons_self, hlongest⟩

/-- What is cut to the end goes on wherever another cut has stopped. -/
theorem exists_append {texts' : List (List Char)} (h : Munches cs texts [])
    (h' : Munches cs texts' left) : ∃ more, texts = texts' ++ more ∧ Munches left more [] := by
  induction h' generalizing texts with
  | stop => exact ⟨texts, rfl, h⟩
  | @next text rest left texts' hlongest _ ih =>
    obtain ⟨m, hm⟩ := hlongest.isLexeme
    generalize hcs : text ++ rest = cs at h hlongest
    cases h with
    | stop => exact absurd (List.append_eq_nil_iff.mp hcs).1 hm.ne_nil
    | next hlongest' hmore =>
      obtain rfl := hlongest.unique hlongest'
      obtain rfl := List.append_cancel_left hcs
      obtain ⟨more, rfl, hleft⟩ := ih hmore
      exact ⟨more, rfl, hleft⟩

/-- There is one way to cut a whole text. -/
theorem unique {texts' : List (List Char)} (h : Munches cs texts []) (h' : Munches cs texts' []) :
    texts' = texts := by
  obtain ⟨more, rfl, hmore⟩ := h.exists_append h'
  rw [hmore.eq_nil, List.append_nil]

end Munches

/-! ## Tokens of lexemes -/

/-- The tokens that the texts stand for, after the text `before`. -/
inductive Yields : List Char → List (List Char) → List Token → Prop
  | nil {before : List Char} : Yields before [] []
  | blank {before text : List Char} {texts : List (List Char)} {ts : List Token} :
      Lexeme text (.ok none) → Yields (before ++ text) texts ts → Yields before (text :: texts) ts
  | token {before text : List Char} {texts : List (List Char)} {ts : List Token} {kind : Kind}
      {payload : Payload} : Lexeme text (.ok (some (kind, payload))) →
      Yields (before ++ text) texts ts →
      Yields before (text :: texts) (⟨kind, payload, .after before⟩ :: ts)

namespace Yields

variable {before : List Char} {ts : List Token}

theorem exists_meanings (h : Yields before texts ts) : ∃ meanings : List (Option (Kind × Payload)),
    List.Forall₂ (fun text meaning => Lexeme text (.ok meaning)) texts meanings ∧
      ts.map (fun t => (t.kind, t.payload)) = meanings.reduceOption := by
  induction h with
  | nil => exact ⟨[], .nil, rfl⟩
  | blank hlexeme _ ih =>
    obtain ⟨meanings, hall, hts⟩ := ih
    exact ⟨none :: meanings, .cons hlexeme hall, hts⟩
  | token hlexeme _ ih =>
    obtain ⟨meanings, hall, hts⟩ := ih
    exact ⟨some _ :: meanings, .cons hlexeme hall, congrArg (_ :: ·) hts⟩

/-- No text is refused. -/
theorem exists_lexeme (h : Yields before texts ts) (hmem : text ∈ texts) :
    ∃ meaning, Lexeme text (.ok meaning) := by
  induction h with
  | nil => cases hmem
  | blank hlexeme _ ih | token hlexeme _ ih =>
    rcases List.mem_cons.mp hmem with rfl | hmem
    · exact ⟨_, hlexeme⟩
    · exact ih hmem

end Yields

/-! ## Runs of the scanner -/

/-- Why tokenizing does not get past the start of a text: there is no lexeme, or the longest one is
refused. -/
inductive Refused : List Char → Cause → Prop
  | noLexeme {c : Char} {cs : List Char} : (∀ text m, Lexeme text m → ¬ text <+: c :: cs) →
      Refused (c :: cs) (Scanner.refusal c)
  | lexeme {text cs : List Char} {cause : Cause} : IsLongest text cs → Lexeme text (.error cause) →
      Refused cs cause

namespace Scanner

variable {s : Scanner} {before : List Char}

theorem tokens_of_nil (hrest : s.rest = []) : s.tokens = .ok [] := by
  rw [tokens]
  split
  · rw [next?, hrest]
    rfl
  · rename_i he
    rw [hrest] at he
    cases he

theorem tokens_of_none {c : Char} (hrest : s.rest = c :: cs)
    (h : Element.longest? s.rest = none) : s.tokens = .error ⟨refusal c, s.position⟩ := by
  rw [tokens]
  split
  · rw [next?, hrest]
    rfl
  · rename_i he
    cases h.symm.trans he

theorem tokens_of_some {e : Element} (h : Element.longest? s.rest = some e) :
    s.tokens = match e.read s.position with
      | .error cause => .error ⟨cause, s.position⟩
      | .ok found => (s.pass e.text).tokens.map (found.toList ++ ·) := by
  rw [tokens]
  split
  · rename_i he
    cases h.symm.trans he
  · rename_i he
    cases h.symm.trans he
    rfl

/-- A scanner cuts the text ahead into longest lexemes and has the tokens that they stand for, up to
the end or to the place where the text is refused. -/
theorem run (hs : s.HasPassed before) : ∃ texts left ts, Munches s.rest texts left ∧
    Yields before texts ts ∧ (s.tokens = .ok ts ∧ left = [] ∨
      ∃ cause, s.tokens = .error ⟨cause, .after (before ++ texts.flatten)⟩ ∧
        Refused left cause) := by
  -- Every element takes a character of the text that is left.
  induction hn : s.rest.length using Nat.strongRecOn generalizing s before with
  | ind n ih =>
    subst hn
    cases he : Element.longest? s.rest with
    | none =>
      cases hrest : s.rest with
      | nil => exact ⟨[], [], [], .stop, .nil, .inl ⟨tokens_of_nil hrest, rfl⟩⟩
      | cons c cs =>
        refine ⟨[], c :: cs, [], .stop, .nil, .inr ⟨refusal c, ?_, .noLexeme fun text m hm => ?_⟩⟩
        · rw [tokens_of_none hrest he, hs.position, List.flatten_nil, List.append_nil]
        · exact Element.not_prefix_of_longest? (hrest ▸ he) hm
    | some e =>
      obtain ⟨hlongest, hread⟩ := Element.isLongest_of_longest? he
      obtain ⟨m, hm⟩ := hlongest.isLexeme
      have htokens := tokens_of_some he
      rw [hread m hm] at htokens
      cases m with
      | error cause =>
        refine ⟨[], s.rest, [], .stop, .nil, .inr ⟨cause, ?_, .lexeme hlongest hm⟩⟩
        rw [htokens, hs.position, List.flatten_nil, List.append_nil]
        rfl
      | ok meaning =>
        have hlater := ih _ (length_rest_pass_lt he) (hs.pass e.text) rfl
        obtain ⟨rest, hrest⟩ := hlongest.starts
        rw [rest_pass, ← hrest, dropBytes_append] at hlater
        obtain ⟨texts, left, ts, hmunches, hyields, hend⟩ := hlater
        rw [List.append_assoc, ← List.flatten_cons] at hend
        rw [← hrest] at hlongest
        -- The tokens are those of what is left, and the one that the element stands for, if any.
        obtain ⟨us, hyields', hus⟩ : ∃ us, Yields before (e.text :: texts) us ∧
            us = (meaning.map fun content =>
              (⟨content.1, content.2, s.position⟩ : Token)).toList ++ ts := by
          rcases meaning with _ | ⟨kind, payload⟩
          · exact ⟨ts, .blank hm hyields, rfl⟩
          · exact ⟨_, .token hm hyields, by rw [hs.position]; rfl⟩
        refine ⟨e.text :: texts, left, us, hrest ▸ .next hlongest hmunches, hyields', ?_⟩
        rcases hend with ⟨hok, hleft⟩ | ⟨cause, herror, hrefused⟩
        · refine .inl ⟨?_, hleft⟩
          rw [htokens, hus, hok]
          rfl
        · refine .inr ⟨cause, ?_, hrefused⟩
          rw [htokens, herror]
          rfl

end Scanner

/-! ## Sources -/

/-- What tokenizing a source comes to: its longest lexemes, cut one after the other, give the
tokens, up to the end or to the place where the source is refused. -/
theorem tokenize_run (source : String) : ∃ texts left ts, Munches source.toList texts left ∧
    Yields [] texts ts ∧ (tokenize source = .ok ts ∧ left = [] ∨
      ∃ cause, tokenize source = .error ⟨cause, .after texts.flatten⟩ ∧ Refused left cause) :=
  Scanner.run (Scanner.hasPassed_ofString source)

theorem exists_munches_of_tokenize {source : String} {ts : List Token}
    (h : tokenize source = .ok ts) :
    ∃ texts, Munches source.toList texts [] ∧ Yields [] texts ts := by
  obtain ⟨texts, left, us, hmunches, hyields, ⟨hok, rfl⟩ | ⟨_, herror, -⟩⟩ := tokenize_run source
  · cases h.symm.trans hok
    exact ⟨texts, hmunches, hyields⟩
  · cases h.symm.trans herror

theorem exists_refused_of_tokenize {source : String} {e : Error}
    (h : tokenize source = .error e) : ∃ texts left, Munches source.toList texts left ∧
      Refused left e.cause ∧ e.position = .after texts.flatten := by
  obtain ⟨texts, left, us, hmunches, -, ⟨hok, -⟩ | ⟨_, herror, hrefused⟩⟩ := tokenize_run source
  · cases h.symm.trans hok
  · cases h.symm.trans herror
    exact ⟨texts, left, hmunches, hrefused, rfl⟩

/-- A source that is cut to its end fails only at an integer that is too large. -/
theorem exists_tokenize_of_munches {source : String} (h : Munches source.toList texts [])
    (hle : ∀ ds ∈ texts, (∀ d ∈ ds, d.isDigit) → Nat.ofDigitChars 10 ds 0 ≤ 2147483647) :
    ∃ ts, tokenize source = .ok ts := by
  obtain ⟨texts', left, ts, hmunches, -, ⟨hok, -⟩ | ⟨cause, -, hrefused⟩⟩ := tokenize_run source
  · exact ⟨ts, hok⟩
  obtain ⟨more, rfl, hmore⟩ := h.exists_append hmunches
  -- The next text of the cut is what the refusal is about.
  cases hrefused with
  | noLexeme hnone =>
    obtain ⟨text, -, hlongest⟩ := hmore.exists_longest (List.cons_ne_nil _ _)
    obtain ⟨m, hm⟩ := hlongest.isLexeme
    exact absurd hlongest.starts (hnone text m hm)
  | lexeme hlongest hlexeme =>
    have hne : left ≠ [] := by
      rintro rfl
      exact hlexeme.ne_nil (List.prefix_nil.mp hlongest.starts)
    obtain ⟨text, hmem, hlongest'⟩ := hmore.exists_longest hne
    obtain rfl := hlongest.unique hlongest'
    cases hlexeme with
    | tooLarge hds hlt =>
      have := hle _ (List.mem_append_right _ hmem) hds
      omega

/-- A source can be tokenized if and only if it can be cut into lexemes, each the longest at its
place, and none of them an integer that is too large. The cut is then unique and takes the whole
source, and the tokens are, in order, what the lexemes stand for that are not blank. -/
theorem tokenize_munches (source : String) :
    ((∃ ts, tokenize source = .ok ts) ↔ ∃ texts, Munches source.toList texts [] ∧
      ∀ ds ∈ texts, (∀ d ∈ ds, d.isDigit) → Nat.ofDigitChars 10 ds 0 ≤ 2147483647) ∧
    ∀ ts, tokenize source = .ok ts → ∃ texts, Munches source.toList texts [] ∧
      (∀ texts', Munches source.toList texts' [] → texts' = texts) ∧
      texts.flatten = source.toList ∧
      ∃ meanings : List (Option (Kind × Payload)),
        List.Forall₂ (fun text meaning => Lexeme text (.ok meaning)) texts meanings ∧
        ts.map (fun t => (t.kind, t.payload)) = meanings.reduceOption := by
  refine ⟨⟨?_, ?_⟩, fun ts h => ?_⟩
  · rintro ⟨ts, h⟩
    obtain ⟨texts, hmunches, hyields⟩ := exists_munches_of_tokenize h
    refine ⟨texts, hmunches, fun ds hmem hds => ?_⟩
    obtain ⟨meaning, hlexeme⟩ := hyields.exists_lexeme hmem
    by_contra hlt
    cases hlexeme.unique (.tooLarge hds (Nat.lt_of_not_le hlt))
  · rintro ⟨texts, hmunches, hle⟩
    exact exists_tokenize_of_munches hmunches hle
  · obtain ⟨texts, hmunches, hyields⟩ := exists_munches_of_tokenize h
    refine ⟨texts, hmunches, fun _ h' => hmunches.unique h', ?_, hyields.exists_meanings⟩
    rw [← hmunches.append_flatten, List.append_nil]

end Scriptlet
