import Scriptlet.Proofs.SourcePositions

/-!
# Refusals

Where a source cannot be tokenized, what comes before can be, and the error says what is wrong with
the text that is left: a quote is not closed, an integer is too large, or no lexeme begins with the
character (`tokenize_explains`). For every text at most one of these is right.
-/

namespace Scriptlet

open Text

variable {c : Char} {cs left : List Char} {texts : List (List Char)} {cause cause' : Cause}

/-! ## Causes -/

/-- Some lexeme begins with the character, or a quote that is to be closed. -/
def StartsLexeme (c : Char) : Prop :=
  c = '\x22' ∨ c.isDigit ∨ isLetter c ∨ c = ' ' ∨ c = '\t' ∨ c = '\r' ∨ c = '\n' ∨
    c ∈ marks.map Prod.fst

/-- The cause says what is wrong at the start of the text. -/
def Cause.Explains (cs : List Char) : Cause → Prop
  | .unterminatedText => ∃ rest, cs = '\x22' :: rest ∧ '\x22' ∉ rest
  | .numberTooLarge digits => digits.toList = cs.takeWhile Char.isDigit ∧
      (cs.dropWhile Char.isDigit).head? ≠ some '.' ∧
      2147483647 < Nat.ofDigitChars 10 digits.toList 0
  | .unexpectedCharacter c => cs.head? = some c ∧ ¬ StartsLexeme c
  | .unexpectedToken _ _ | .unexpectedEnd _ => False

/-- The only cause that can be right for a text, by its first character. -/
def Cause.ofText : List Char → Cause
  | [] => .unterminatedText
  | c :: cs =>
    if c = '\x22' then .unterminatedText
    else if c.isDigit then .numberTooLarge (.ofList ((c :: cs).takeWhile Char.isDigit))
    else .unexpectedCharacter c

namespace Cause.Explains

theorem head?_of_numberTooLarge {digits : String} (h : (numberTooLarge digits).Explains cs) :
    ∃ d ∈ cs.head?, d.isDigit := by
  have hdigits := h.1
  have hlarge := h.2.2
  rw [hdigits] at hlarge
  cases cs with
  | nil => exact absurd hlarge (by decide)
  | cons d cs =>
    by_cases hd : d.isDigit
    · exact ⟨d, rfl, hd⟩
    · rw [List.takeWhile_cons_of_neg hd] at hlarge
      exact absurd hlarge (by decide)

/-- There is something wrong with a text that is not empty only. -/
theorem ne_nil (h : cause.Explains cs) : cs ≠ [] := by
  rintro rfl
  cases cause with
  | unterminatedText =>
    rcases h with ⟨rest, hrest, -⟩
    cases hrest
  | numberTooLarge digits =>
    rcases head?_of_numberTooLarge h with ⟨d, hd, -⟩
    cases hd
  | unexpectedCharacter c => cases h.1
  | unexpectedToken _ _ | unexpectedEnd _ => exact h

/-- The first character tells which cause it is. -/
theorem eq_ofText (h : cause.Explains cs) : cause = ofText cs := by
  cases cause with
  | unterminatedText =>
    rcases h with ⟨rest, rfl, -⟩
    rfl
  | numberTooLarge digits =>
    rcases head?_of_numberTooLarge h with ⟨d, hd, hdigit⟩
    rcases List.head?_eq_some_iff.mp hd with ⟨rest, rfl⟩
    have hquote : d ≠ '\x22' := by
      rintro rfl
      exact absurd hdigit (by decide)
    rw [ofText, if_neg hquote, if_pos hdigit, ← h.1, String.ofList_toList]
  | unexpectedCharacter c =>
    rcases List.head?_eq_some_iff.mp h.1 with ⟨rest, rfl⟩
    have hquote : c ≠ '\x22' := fun hc => h.2 (.inl hc)
    have hdigit : ¬ c.isDigit := fun hd => h.2 (.inr (.inl hd))
    rw [ofText, if_neg hquote, if_neg hdigit]
  | unexpectedToken _ _ | unexpectedEnd _ => exact h.elim

/-- A text is wrong in one way at most. -/
theorem unique (h : cause.Explains cs) (h' : cause'.Explains cs) : cause = cause' :=
  h.eq_ofText.trans h'.eq_ofText.symm

/-- Nothing is ever wrong with digits that a point follows, however many they are. -/
theorem ne_floating (h : cause.Explains cs) {whole after : List Char} (hne : whole ≠ [])
    (hwhole : ∀ d ∈ whole, d.isDigit) : cs ≠ whole ++ '.' :: after := by
  rintro rfl
  cases whole with
  | nil => exact hne rfl
  | cons d whole =>
    have hd : d.isDigit := hwhole d List.mem_cons_self
    cases cause with
    | unterminatedText =>
      rcases h with ⟨rest, hcs, -⟩
      cases hcs
      exact absurd hd (by decide)
    | numberTooLarge digits =>
      apply h.2.1
      rw [List.dropWhile_append_of_pos hwhole]
      rfl
    | unexpectedCharacter c =>
      cases h.1
      exact h.2 (.inr (.inl hd))
    | unexpectedToken _ _ | unexpectedEnd _ => exact h

end Cause.Explains

/-! ## What is refused -/

theorem exists_lexeme_of_startsLexeme (h : StartsLexeme c) (hc : c ≠ '\x22') :
    ∃ m, Lexeme [c] m := by
  have hblank (hc : c = ' ' ∨ c = '\t' ∨ c = '\r') : ∃ m, Lexeme [c] m :=
    ⟨_, .blanks (List.cons_ne_nil c []) (List.forall_mem_singleton.mpr hc)⟩
  rcases h with h | h | h | h | h | h | h | h
  · exact absurd h hc
  · exact Element.lexeme_of_digits (List.cons_ne_nil c []) (List.forall_mem_singleton.mpr h)
  · exact Element.lexeme_of_word h (List.forall_mem_nil _)
  · exact hblank (.inl h)
  · exact hblank (.inr (.inl h))
  · exact hblank (.inr (.inr h))
  · rw [h]
    exact ⟨_, .lineEnd⟩
  · rcases List.mem_map.mp h with ⟨⟨c, kind⟩, hmark, rfl⟩
    exact ⟨_, .mark hmark⟩

/-- Where there is no lexeme, a quote is not closed, or the character begins none. -/
theorem explains_refusal (h : ∀ text m, Lexeme text m → ¬ text <+: c :: cs) :
    (Scanner.refusal c).Explains (c :: cs) := by
  unfold Scanner.refusal
  split
  · rename_i hc
    subst hc
    refine ⟨cs, rfl, fun hmem => ?_⟩
    rcases List.eq_append_cons_of_mem hmem with ⟨inner, rest, rfl, hinner⟩
    apply h _ _ (.quoted hinner)
    rw [List.cons_prefix_cons]
    exact ⟨rfl, rest, by rw [List.append_assoc]; rfl⟩
  · rename_i hc
    refine ⟨rfl, fun hstarts => ?_⟩
    rcases exists_lexeme_of_startsLexeme hstarts hc with ⟨m, hm⟩
    exact h _ _ hm ⟨cs, rfl⟩

/-- Digits that are the longest lexeme are all the digits there, and no point follows them. -/
theorem IsLongest.digits {ds rest : List Char} (h : IsLongest ds (ds ++ rest)) (hne : ds ≠ [])
    (hds : ∀ d ∈ ds, d.isDigit) : (ds ++ rest).takeWhile Char.isDigit = ds ∧
      ((ds ++ rest).dropWhile Char.isDigit).head? ≠ some '.' := by
  have hlonger (d : Char) (tail : List Char) (hrest : rest = d :: tail) :
      ¬ ∃ m, Lexeme (ds ++ [d]) m := by
    rintro ⟨m, hm⟩
    have hle := h.length_le hm ⟨tail, by rw [hrest, List.append_assoc]; rfl⟩
    rw [List.length_append, List.length_singleton] at hle
    omega
  rw [List.takeWhile_append_of_pos hds, List.dropWhile_append_of_pos hds]
  cases rest with
  | nil => exact ⟨List.append_nil ds, nofun⟩
  | cons d tail =>
    have hdigit : ¬ d.isDigit := by
      intro hd
      apply hlonger d tail rfl
      apply Element.lexeme_of_digits (List.append_ne_nil_of_left_ne_nil hne _)
      exact List.forall_mem_append.mpr ⟨hds, List.forall_mem_singleton.mpr hd⟩
    have hpoint : d ≠ '.' := by
      rintro rfl
      exact hlonger '.' tail rfl
        ⟨_, .floating hne hds (List.forall_mem_nil _) (Binary32.ofDecimal_roundsTo _ _)⟩
    rw [List.takeWhile_cons_of_neg hdigit, List.dropWhile_cons_of_neg hdigit]
    refine ⟨List.append_nil ds, ?_⟩
    simpa using hpoint

/-- A text is refused for what is wrong with it. -/
theorem Refused.explains (h : Refused cs cause) : cause.Explains cs := by
  cases h with
  | noLexeme hnone => exact explains_refusal hnone
  | @lexeme text _ _ hlongest hlexeme =>
    have hne := hlexeme.ne_nil
    rcases hlongest.starts with ⟨rest, rfl⟩
    cases hlexeme with
    | tooLarge hds hlarge =>
      have ⟨htake, hdrop⟩ := hlongest.digits hne hds
      show _ = _ ∧ _ ∧ _
      rw [String.toList_ofList]
      exact ⟨htake.symm, hdrop, hlarge⟩

/-! ## What comes before -/

/-- What is cut off is cut in the same way when nothing comes after it. -/
theorem Munches.flatten (h : Munches cs texts left) : Munches texts.flatten texts [] := by
  induction h with
  | stop => exact .stop
  | @next text rest left texts hlongest hmunches ih =>
    rw [List.flatten_cons]
    refine .next ⟨hlongest.isLexeme, List.prefix_append _ _, fun hm hstarts => ?_⟩ ih
    have hrest : texts.flatten <+: rest := ⟨left, hmunches.append_flatten⟩
    exact hlongest.length_le hm (hstarts.trans ((List.prefix_append_right_inj text).mpr hrest))

/-- No integer among texts that are tokens is too large. -/
theorem Yields.ofDigitChars_le {before ds : List Char} {ts : List Token}
    (h : Yields before texts ts) (hmem : ds ∈ texts) (hds : ∀ d ∈ ds, d.isDigit) :
    Nat.ofDigitChars 10 ds 0 ≤ 2147483647 := by
  rcases h.exists_lexeme hmem with ⟨meaning, hlexeme⟩
  apply Nat.le_of_not_lt
  intro hlarge
  cases hlexeme.unique (.tooLarge hds hlarge)

/-- When a source cannot be tokenized, it falls into a text that can be, and one that is left: the
error stands at the first character of this text and says what is wrong with it. Nothing else is
wrong there, and in particular no floating number begins there. -/
theorem tokenize_explains {source : String} (hlength : source.length < UInt32.size) {e : Error}
    (h : tokenize source = .error e) :
    ∃ before left, source.toList = before ++ left ∧ left ≠ [] ∧
      (∃ ts, tokenize (String.ofList before) = .ok ts) ∧
      e.position.IsAt source.toList before.length ∧
      e.cause.Explains left ∧ (∀ cause : Cause, cause.Explains left → cause = e.cause) ∧
      ∀ whole after : List Char, whole ≠ [] → (∀ d ∈ whole, d.isDigit) →
        left ≠ whole ++ '.' :: after := by
  rcases tokenize_run source with ⟨texts, left, ts, hmunches, hyields, ⟨hok, -⟩ |
    ⟨cause, herror, hrefused⟩⟩
  · cases h.symm.trans hok
  cases h.symm.trans herror
  have hsource := hmunches.append_flatten
  have hexplains := hrefused.explains
  have hbefore : ∃ ts, tokenize (String.ofList texts.flatten) = .ok ts := by
    have hcut : Munches (String.ofList texts.flatten).toList texts [] := by
      rw [String.toList_ofList]
      exact hmunches.flatten
    exact exists_tokenize_of_munches hcut fun ds hmem hds => hyields.ofDigitChars_le hmem hds
  have hstarts : texts.flatten <+: source.toList := ⟨left, hsource⟩
  have hat : (Position.after texts.flatten).IsAt source.toList texts.flatten.length := by
    have hat := Position.isAt_after hstarts.length_le (by rwa [String.length_toList])
    rwa [← List.prefix_iff_eq_take.mp hstarts] at hat
  exact ⟨texts.flatten, left, hsource.symm, hexplains.ne_nil, hbefore, hat, hexplains,
    fun cause hcause => hcause.unique hexplains,
    fun whole after hne hwhole => hexplains.ne_floating hne hwhole⟩

/-- An integer after a line end, with a leading zero and one more than the largest value. -/
theorem tokenize_explains_integer :
    let source := "\n02147483648)"
    let e : Error := ⟨.numberTooLarge "02147483648", ⟨1, 0⟩⟩
    source.length < UInt32.size ∧ tokenize source = .error e ∧
    ∃ before left, source.toList = before ++ left ∧ left ≠ [] ∧
      (∃ ts, tokenize (String.ofList before) = .ok ts) ∧
      e.position.IsAt source.toList before.length ∧
      e.cause.Explains left ∧ (∀ cause : Cause, cause.Explains left → cause = e.cause) ∧
      ∀ whole after : List Char, whole ≠ [] → (∀ d ∈ whole, d.isDigit) →
        left ≠ whole ++ '.' :: after := by
  have herror : tokenize "\n02147483648)" = .error ⟨.numberTooLarge "02147483648", ⟨1, 0⟩⟩ := by
    rw [tokenize, Scanner.tokens_of_some (e := ⟨.lineEnd, ['\n']⟩) rfl]
    have hnumber : ((Scanner.ofString "\n02147483648)").pass ['\n']).tokens =
        .error ⟨.numberTooLarge "02147483648", ⟨1, 0⟩⟩ := by
      rw [Scanner.tokens_of_some (e := ⟨.number, "02147483648".toList⟩) rfl]
      rfl
    exact congrArg (Except.map _) hnumber
  exact ⟨by decide, herror, tokenize_explains (by decide) herror⟩

end Scriptlet
