import Scriptlet.Proofs.Relexing

/-!
# Words of printed texts

The lexemes that listings and printed trees put in a row can be told apart again: a quoted text ends
at its second quote, and any other lexeme at the first character that is no part of a word, such as
a space or a parenthesis (`IsWord.append_inj`). From its lexeme a token is known up to its position
(`Token.Writable.content_eq`).
-/

namespace Scriptlet

open Text

variable {a b r s text : List Char} {c : Char}

/-! ## Runs of characters -/

section Runs

variable {p : Char → Bool}

/-- A run that what comes after it does not prolong. -/
theorem takeWhile_append_of_head? (ha : ∀ c ∈ a, p c) (hr : ∀ c ∈ r.head?, p c = false) :
    (a ++ r).takeWhile p = a := by
  rw [List.takeWhile_append_of_pos ha]
  cases r with
  | nil => rw [List.takeWhile_nil, List.append_nil]
  | cons c r =>
    have hc : p c = false := hr c rfl
    rw [List.takeWhile_cons_of_neg (Bool.eq_false_iff.mp hc), List.append_nil]

/-- Two texts that begin with runs which nothing prolongs begin with the same run. -/
theorem run_append_inj (ha : ∀ c ∈ a, p c) (hb : ∀ c ∈ b, p c)
    (hr : ∀ c ∈ r.head?, p c = false) (hs : ∀ c ∈ s.head?, p c = false)
    (h : a ++ r = b ++ s) : a = b ∧ r = s := by
  have hab : a = b := by
    rw [← takeWhile_append_of_head? ha hr, h, takeWhile_append_of_head? hb hs]
  subst hab
  exact ⟨rfl, List.append_cancel_left h⟩

end Runs

/-! ## Words -/

/-- Whether the character may be a part of a word. Line ends, blanks, the quote and the parentheses
come before all such characters in the order of their codes. -/
def Text.inWord (c : Char) : Bool := 41 < c.toNat

/-- The text is a word: it has only characters that may be a part of one, or it is quoted. -/
inductive IsWord : List Char → Prop
  | plain {cs : List Char} : cs ≠ [] → (∀ c ∈ cs, inWord c) → IsWord cs
  | quoted {cs : List Char} : '\x22' ∉ cs → IsWord ('\x22' :: (cs ++ ['\x22']))

/-- A word that comes before the text is not prolonged by it. -/
def EndsWord (rest : List Char) : Prop := ∀ c ∈ rest.head?, inWord c = false

theorem endsWord_nil : EndsWord [] := nofun

theorem endsWord_cons (h : inWord c = false) : EndsWord (c :: r) := by
  intro d hd
  cases hd
  exact h

namespace IsWord

/-- A word begins with a quote, or as a word. -/
theorem exists_head (h : IsWord a) : ∃ c cs, a = c :: cs ∧ (c = '\x22' ∨ inWord c) := by
  cases h with
  | plain hne hall =>
    obtain ⟨c, cs, rfl⟩ := List.exists_cons_of_ne_nil hne
    exact ⟨c, cs, rfl, .inr (hall c List.mem_cons_self)⟩
  | quoted _ => exact ⟨_, _, rfl, .inl rfl⟩

/-- Nothing but a quote or a character of words is taken for the beginning of a word. -/
theorem append_ne_cons (h : IsWord a) (hquote : c ≠ '\x22') (hc : inWord c = false) :
    a ++ r ≠ c :: s := by
  obtain ⟨d, cs, rfl, hd⟩ := h.exists_head
  intro heq
  obtain rfl : d = c := (List.cons.inj heq).1
  rcases hd with hd | hd
  · exact hquote hd
  · exact Bool.eq_false_iff.mp hc hd

theorem plain_append_ne_quoted (hne : a ≠ []) (hall : ∀ c ∈ a, inWord c) :
    a ++ r ≠ '\x22' :: s := by
  obtain ⟨c, cs, rfl⟩ := List.exists_cons_of_ne_nil hne
  intro heq
  obtain rfl : c = '\x22' := (List.cons.inj heq).1
  exact absurd (hall _ List.mem_cons_self) (by decide)

/-- From a text that begins with a word the word can be told, and with it what comes after. -/
theorem append_inj (ha : IsWord a) (hb : IsWord b) (hr : EndsWord r) (hs : EndsWord s)
    (h : a ++ r = b ++ s) : a = b ∧ r = s := by
  cases ha with
  | plain hne hall =>
    cases hb with
    | plain _ hall' => exact run_append_inj hall hall' hr hs h
    | quoted _ => exact absurd h (plain_append_ne_quoted hne hall)
  | @quoted cs hcs =>
    cases hb with
    | plain hne hall => exact absurd h.symm (plain_append_ne_quoted hne hall)
    | @quoted cs' hcs' =>
      -- What is quoted is a run up to the second quote.
      have hquote (rest : List Char) : ∀ c ∈ ('\x22' :: rest).head?, (c != '\x22') = false := by
        intro c hc
        cases hc
        rfl
      rw [List.cons_append, List.cons_append, List.append_assoc, List.append_assoc] at h
      obtain ⟨rfl, hrest⟩ := run_append_inj (bne_of_not_mem hcs) (bne_of_not_mem hcs')
        (hquote r) (hquote s) (List.cons.inj h).2
      exact ⟨rfl, (List.cons.inj hrest).2⟩

end IsWord

/-! ## Lexemes as words -/

namespace Text

theorem inWord_of_isDigit (h : c.isDigit) : inWord c := by
  rw [Char.isDigit, Bool.and_eq_true] at h
  have hle : 48 ≤ c.toNat := of_decide_eq_true h.1
  exact decide_eq_true (by omega)

theorem inWord_of_isDecimalDigit (h : isDecimalDigit c) : inWord c := by
  rw [isDecimalDigit, decimalDigits, Ranges.covers, Bool.and_eq_true] at h
  have hle : 48 ≤ c.toNat := of_decide_eq_true h.1
  exact decide_eq_true (by omega)

theorem inWord_of_isLetter (h : isLetter c) : inWord c := by
  have hle := le_toNat_of_isLetter h
  exact decide_eq_true (by omega)

end Text

/-- Line ends, parentheses and quoted texts apart, a lexeme that stands for a token has only
characters that may be a part of a word. -/
theorem Lexeme.inWord {kind : Kind} {payload : Payload}
    (h : Lexeme text (.ok (some (kind, payload))))
    (hkind : kind ∉ [Kind.leftParen, .rightParen, .lineEnd, .text]) : ∀ c ∈ text, inWord c := by
  cases h with
  | lineEnd => exact absurd (by decide) hkind
  | mark hmem =>
    have hmarks : ∀ mark ∈ marks, mark.2 ∉ [Kind.leftParen, .rightParen, .lineEnd, .text] →
        inWord mark.1 := by decide
    exact List.forall_mem_singleton.mpr (hmarks _ hmem hkind)
  | arrow => exact List.all_eq_true.mp rfl
  | quoted _ => exact absurd (by decide) hkind
  | integer _ hds => exact fun d hd => inWord_of_isDigit (hds d hd)
  | floating _ hwhole hplaces =>
    refine List.forall_mem_append.mpr ⟨fun d hd => inWord_of_isDigit (hwhole d hd), ?_⟩
    exact List.forall_mem_cons.mpr ⟨rfl, fun d hd => inWord_of_isDigit (hplaces d hd)⟩
  | keyword hmem =>
    obtain ⟨c, cs, hword, hc, hcs⟩ := Element.keyword_letters hmem
    rw [hword]
    exact List.forall_mem_cons.mpr
      ⟨inWord_of_isLetter hc, fun d hd => inWord_of_isLetter (hcs d hd)⟩
  | name hc hcs =>
    refine List.forall_mem_cons.mpr ⟨inWord_of_isLetter hc, fun d hd => ?_⟩
    rcases hcs d hd with hd | hd
    · exact inWord_of_isLetter hd
    · exact inWord_of_isDecimalDigit hd

/-- The lexeme of a token is a word, unless it is a parenthesis or a line end. -/
theorem Lexeme.isWord {kind : Kind} {payload : Payload}
    (h : Lexeme text (.ok (some (kind, payload))))
    (hkind : kind ∉ [Kind.leftParen, .rightParen, .lineEnd]) : IsWord text := by
  by_cases htext : kind = .text
  · subst htext
    cases h with
    | mark hmem => exact absurd rfl (symbol?_of_mem (.inl (List.mem_map_of_mem hmem))).1
    | quoted hquote => exact .quoted hquote
    | keyword hmem => exact absurd rfl (symbol?_of_mem (.inr (List.mem_map_of_mem hmem))).1
  · apply IsWord.plain h.ne_nil (h.inWord _)
    simp only [List.mem_cons, List.not_mem_nil, or_false, not_or] at hkind ⊢
    exact ⟨hkind.1, hkind.2.1, hkind.2.2, htext⟩

namespace Token.Writable

variable {t u : Token}

/-- What a token carries shows whether its kind has a symbol. -/
theorem payload_eq_none_iff (h : t.Writable) : t.payload = .none ↔ t.kind.symbol? ≠ none := by
  cases h with
  | symbol hsymbol _ => exact iff_of_true rfl hsymbol
  | name _ _ _ => exact iff_of_false nofun (not_not_intro rfl)
  | integer _ => exact iff_of_false nofun (not_not_intro rfl)
  | text _ => exact iff_of_false nofun (not_not_intro rfl)

theorem payload_eq_none_congr (ht : t.Writable) (hu : u.Writable) (hkind : t.kind = u.kind) :
    t.payload = .none ↔ u.payload = .none := by
  rw [ht.payload_eq_none_iff, hu.payload_eq_none_iff, hkind]

theorem ne_floating (h : t.Writable) : t.kind ≠ .floating := by
  intro hk
  cases h with
  | symbol hsymbol _ =>
    cases hk
    exact hsymbol rfl
  | name _ _ _ => cases hk
  | integer _ => cases hk
  | text _ => cases hk

theorem lexeme_of_ne_lineEnd (h : t.Writable) (ht : t.kind ≠ .lineEnd) :
    Lexeme t.lexeme.toList (.ok (some t.content)) := by
  have hlexeme := h.lexeme
  rwa [sourceText, if_neg ht] at hlexeme

theorem isWord_lexeme (h : t.Writable)
    (ht : t.kind ∉ [Kind.leftParen, .rightParen, .lineEnd]) : IsWord t.lexeme.toList := by
  have hline : t.kind ≠ .lineEnd := by
    intro hline
    rw [hline] at ht
    exact absurd (by decide) ht
  exact (h.lexeme_of_ne_lineEnd hline).isWord ht

theorem isWord_lexeme_of_payload (h : t.Writable) (ht : t.payload ≠ .none) :
    IsWord t.lexeme.toList := by
  apply h.isWord_lexeme
  intro hmem
  have hsymbols : ∀ k ∈ [Kind.leftParen, .rightParen, .lineEnd], k.symbol? ≠ none := by decide
  exact ht (h.payload_eq_none_iff.mpr (hsymbols _ hmem))

/-- Tokens of one text are the same but for their positions. -/
theorem content_eq (ht : t.Writable) (hu : u.Writable) (hline : t.kind ≠ .lineEnd)
    (hline' : u.kind ≠ .lineEnd) (h : t.lexeme = u.lexeme) : t.content = u.content := by
  have hlexeme := ht.lexeme_of_ne_lineEnd hline
  rw [h] at hlexeme
  have hsame := hlexeme.unique (hu.lexeme_of_ne_lineEnd hline')
  exact Option.some.inj (Except.ok.inj hsame)

end Token.Writable

end Scriptlet
