import Mathlib.Data.List.TakeWhile
import Scriptlet.Proofs.Places
import Scriptlet.Proofs.Rounding

/-!
# Lexemes

The lexical elements of the language as texts, with what each of them stands for. A scanner finds
the longest lexeme that the text ahead begins with (`Element.isLongest_of_longest?`), and no element
where there is none.
-/

namespace Scriptlet

open Text

/-! ## The lexemes of the language -/

/-- The marks of one character. -/
def marks : List (Char × Kind) :=
  [('+', .plus), ('-', .minus), ('*', .times), ('/', .divide), ('(', .leftParen),
   (')', .rightParen), ('{', .leftBrace), ('}', .rightBrace), ('[', .leftBracket),
   (']', .rightBracket), (',', .comma), ('=', .equal), ('>', .greater), ('.', .dot)]

/-- The words that are no names. -/
def keywords : List (String × Kind) :=
  [("let", .letWord), ("var", .varWord), ("fun", .funWord), ("if", .ifWord), ("else", .elseWord),
   ("when", .whenWord)]

/-- What a lexeme stands for: nothing, the kind and payload of a token, or a cause to refuse it. -/
abbrev Meaning := Except Cause (Option (Kind × Payload))

/-- The token that is meant, at a position. -/
def Meaning.at (m : Meaning) (p : Position) : Except Cause (Option Token) :=
  m.map (·.map fun (kind, payload) => ⟨kind, payload, p⟩)

theorem Meaning.at_inj {m m' : Meaning} {p : Position} (h : m.at p = m'.at p) : m = m' := by
  rcases m with cause | _ | ⟨kind, payload⟩ <;> rcases m' with cause' | _ | ⟨kind', payload'⟩ <;>
    cases h <;> rfl

/-- The text is a lexeme that stands for the meaning. -/
inductive Lexeme : List Char → Meaning → Prop
  | blanks {cs : List Char} : cs ≠ [] → (∀ c ∈ cs, c = ' ' ∨ c = '\t' ∨ c = '\r') →
      Lexeme cs (.ok none)
  | lineEnd : Lexeme ['\n'] (.ok (some (.lineEnd, .none)))
  | mark {c : Char} {kind : Kind} : (c, kind) ∈ marks → Lexeme [c] (.ok (some (kind, .none)))
  | arrow : Lexeme ['-', '>'] (.ok (some (.arrow, .none)))
  | quoted {cs : List Char} : '\x22' ∉ cs →
      Lexeme ('\x22' :: (cs ++ ['\x22'])) (.ok (some (.text, .text (String.ofList cs))))
  | integer {ds : List Char} {n : Int32} : ds ≠ [] → (∀ d ∈ ds, d.isDigit) →
      Nat.ofDigitChars 10 ds 0 ≤ 2147483647 → n.toInt = Nat.ofDigitChars 10 ds 0 →
      Lexeme ds (.ok (some (.integer, .integer n)))
  | tooLarge {ds : List Char} : (∀ d ∈ ds, d.isDigit) → 2147483647 < Nat.ofDigitChars 10 ds 0 →
      Lexeme ds (.error (.numberTooLarge (String.ofList ds)))
  | floating {whole places : List Char} {x : Binary32} : whole ≠ [] → (∀ d ∈ whole, d.isDigit) →
      (∀ d ∈ places, d.isDigit) →
      x.RoundsTo (Nat.ofDigitChars 10 (whole ++ places) 0 / 10 ^ places.length) →
      Lexeme (whole ++ '.' :: places) (.ok (some (.floating, .floating x)))
  | keyword {word : String} {kind : Kind} : (word, kind) ∈ keywords →
      Lexeme word.toList (.ok (some (kind, .none)))
  | name {c : Char} {cs : List Char} : isLetter c → (∀ c ∈ cs, isLetter c ∨ isDecimalDigit c) →
      (∀ kind, (String.ofList (c :: cs), kind) ∉ keywords) →
      Lexeme (c :: cs) (.ok (some (.identifier, .name (String.ofList (c :: cs)))))

/-- The text is a lexeme at the start of `cs`, and no lexeme there is longer. -/
structure IsLongest (text cs : List Char) : Prop where
  isLexeme : ∃ m, Lexeme text m
  starts : text <+: cs
  length_le {text' : List Char} {m : Meaning} : Lexeme text' m → text' <+: cs →
    text'.length ≤ text.length

/-- There is only one longest lexeme. -/
theorem IsLongest.unique {text text' cs : List Char} (h : IsLongest text cs)
    (h' : IsLongest text' cs) : text = text' := by
  obtain ⟨m, hm⟩ := h.isLexeme
  obtain ⟨m', hm'⟩ := h'.isLexeme
  have hlength := Nat.le_antisymm (h'.length_le hm h.starts) (h.length_le hm' h'.starts)
  rw [List.prefix_iff_eq_take.mp h.starts, List.prefix_iff_eq_take.mp h'.starts, hlength]

/-! ## First characters -/

theorem Kind.keyword?_eq_some_iff {word : String} {k : Kind} :
    keyword? word = some k ↔ (word, k) ∈ keywords := by
  constructor
  · intro h
    unfold keyword? at h
    split at h <;> cases h <;> decide
  · intro h
    simp only [keywords, List.mem_cons, Prod.mk.injEq, List.not_mem_nil, or_false] at h
    rcases h with ⟨rfl, rfl⟩ | ⟨rfl, rfl⟩ | ⟨rfl, rfl⟩ | ⟨rfl, rfl⟩ | ⟨rfl, rfl⟩ |
      ⟨rfl, rfl⟩ <;> rfl

namespace Text

theorem isBlank_iff {c : Char} : isBlank c ↔ c = ' ' ∨ c = '\t' ∨ c = '\r' := by
  simp [isBlank, or_assoc]

/-- No letter comes before `A`. -/
theorem le_toNat_of_isLetter {c : Char} (h : isLetter c) : 65 ≤ c.toNat := by
  rw [isLetter, letters, Ranges.covers, Bool.and_eq_true] at h
  exact of_decide_eq_true h.1

theorem isBlank_eq_false_of_isLetter {c : Char} (h : isLetter c) : isBlank c = false := by
  have hle := le_toNat_of_isLetter h
  rw [Bool.eq_false_iff, Ne, isBlank_iff]
  rintro (rfl | rfl | rfl) <;> exact absurd hle (by decide)

theorem isBlank_eq_false_of_isDigit {c : Char} (h : c.isDigit) : isBlank c = false := by
  rw [Bool.eq_false_iff, Ne, isBlank_iff]
  rintro (rfl | rfl | rfl) <;> exact absurd h (by decide)

theorem toNat_le_of_isDigit {c : Char} (h : c.isDigit) : c.toNat ≤ 57 := by
  rw [Char.isDigit, Bool.and_eq_true] at h
  exact of_decide_eq_true h.2

end Text

namespace Element

variable {c : Char} {cs : List Char}

theorem continuation?_blank (h : isBlank c) :
    continuation? c cs = some (.blank, cs.takeWhile isBlank) := by
  rcases isBlank_iff.mp h with rfl | rfl | rfl <;> rfl

theorem continuation?_digit (h : c.isDigit) : continuation? c cs =
    some (.number, cs.takeWhile Char.isDigit ++ fractionPart (cs.dropWhile Char.isDigit)) := by
  have hne (c' : Char) (hc' : c'.isDigit = false) : c ≠ c' := by
    rintro rfl
    rw [hc'] at h
    cases h
  have hblank := Bool.eq_false_iff.mp (isBlank_eq_false_of_isDigit h)
  rw [continuation?, if_neg (hne _ rfl), if_neg (hne _ rfl), if_neg hblank, if_neg (hne _ rfl),
    if_pos h]

theorem continuation?_letter (h : isLetter c) :
    continuation? c cs = some (.word, cs.takeWhile continuesWord) := by
  have hle := le_toNat_of_isLetter h
  have hne (c' : Char) (hc' : c'.toNat < 65) : c ≠ c' := by
    rintro rfl
    omega
  have hblank := Bool.eq_false_iff.mp (isBlank_eq_false_of_isLetter h)
  have hdigit : ¬ c.isDigit := by
    intro hdigit
    have := toNat_le_of_isDigit hdigit
    omega
  rw [continuation?, if_neg (hne _ (by decide)), if_neg (hne _ (by decide)), if_neg hblank,
    if_neg (hne _ (by decide)), if_neg hdigit, if_pos h]

/-! ## Numbers and words -/

theorem not_mem_point {ds : List Char} (h : ∀ d ∈ ds, d.isDigit) : '.' ∉ ds :=
  fun hmem => absurd (h '.' hmem) (by decide)

theorem number_digits {ds : List Char} (h : ∀ d ∈ ds, d.isDigit) :
    number ds = if Nat.ofDigitChars 10 ds 0 ≤ 2147483647 then
      .ok (.integer, .integer (.ofNat (Nat.ofDigitChars 10 ds 0)))
    else .error (.numberTooLarge (String.ofList ds)) := by
  have hpoint : ds.contains '.' = false := by
    simpa using not_mem_point h
  rw [number, hpoint]
  rfl

theorem number_floating {whole places : List Char} (h : ∀ d ∈ whole, d.isDigit) :
    number (whole ++ '.' :: places) = .ok (.floating,
      .floating (.ofDecimal (Nat.ofDigitChars 10 (whole ++ places) 0) places.length)) := by
  have hpoint : (whole ++ '.' :: places).contains '.' = true := by simp
  have hwhole : (whole ++ '.' :: places).takeWhile (· != '.') = whole := by
    rw [List.takeWhile_append_of_pos (bne_of_not_mem (not_mem_point h))]
    simp
  rw [number, hpoint, hwhole]
  simp

theorem word_of_keyword {word : String} {kind : Kind} (h : (word, kind) ∈ keywords) :
    Element.word word.toList = (kind, .none) := by
  rw [Element.word, String.ofList_toList, Kind.keyword?_eq_some_iff.mpr h]

theorem word_of_name {cs : List Char} (h : ∀ kind, (String.ofList cs, kind) ∉ keywords) :
    word cs = (.identifier, .name (String.ofList cs)) := by
  have hnone : Kind.keyword? (String.ofList cs) = none := by
    cases hk : Kind.keyword? (String.ofList cs) with
    | none => rfl
    | some kind => exact absurd (Kind.keyword?_eq_some_iff.mp hk) (h kind)
  rw [word, hnone]

/-- A keyword is a letter and letters after it. -/
theorem keyword_letters {word : String} {kind : Kind} (h : (word, kind) ∈ keywords) :
    ∃ c cs, word.toList = c :: cs ∧ isLetter c ∧ ∀ c ∈ cs, isLetter c := by
  simp only [keywords, List.mem_cons, Prod.mk.injEq, List.not_mem_nil, or_false] at h
  rcases h with ⟨rfl, -⟩ | ⟨rfl, -⟩ | ⟨rfl, -⟩ | ⟨rfl, -⟩ | ⟨rfl, -⟩ | ⟨rfl, -⟩
  · exact ⟨'l', ['e', 't'], rfl, rfl, List.all_eq_true.mp rfl⟩
  · exact ⟨'v', ['a', 'r'], rfl, rfl, List.all_eq_true.mp rfl⟩
  · exact ⟨'f', ['u', 'n'], rfl, rfl, List.all_eq_true.mp rfl⟩
  · exact ⟨'i', ['f'], rfl, rfl, List.all_eq_true.mp rfl⟩
  · exact ⟨'e', ['l', 's', 'e'], rfl, rfl, List.all_eq_true.mp rfl⟩
  · exact ⟨'w', ['h', 'e', 'n'], rfl, rfl, List.all_eq_true.mp rfl⟩

/-! ## What is found at a lexeme -/

theorem longest?_cons {shape : Shape} {tail : List Char}
    (h : continuation? c cs = some (shape, tail)) :
    longest? (c :: cs) = some ⟨shape, c :: tail⟩ := by
  rw [longest?, h]
  rfl

theorem continuation?_mark {kind : Kind} (h : (c, kind) ∈ marks) (hc : c ≠ '-') :
    continuation? c cs = some (.mark kind, []) := by
  simp only [marks, List.mem_cons, Prod.mk.injEq, List.not_mem_nil, or_false] at h
  rcases h with ⟨rfl, rfl⟩ | ⟨rfl, rfl⟩ | ⟨rfl, rfl⟩ | ⟨rfl, rfl⟩ | ⟨rfl, rfl⟩ | ⟨rfl, rfl⟩ |
    ⟨rfl, rfl⟩ | ⟨rfl, rfl⟩ | ⟨rfl, rfl⟩ | ⟨rfl, rfl⟩ | ⟨rfl, rfl⟩ | ⟨rfl, rfl⟩ | ⟨rfl, rfl⟩ |
    ⟨rfl, rfl⟩ <;> first | rfl | exact absurd rfl hc

theorem longest?_minus (rest : List Char) : longest? ('-' :: rest) =
    if rest.head? = some '>' then some ⟨.mark .arrow, ['-', '>']⟩
    else some ⟨.mark .minus, ['-']⟩ := by
  rw [longest?, continuation?, if_pos rfl]
  split <;> rfl

theorem longest?_blanks (hc : isBlank c) (hcs : ∀ c ∈ cs, isBlank c) (rest : List Char) :
    longest? (c :: cs ++ rest) = some ⟨.blank, c :: cs ++ rest.takeWhile isBlank⟩ := by
  rw [List.cons_append, longest?_cons (continuation?_blank hc), List.takeWhile_append_of_pos hcs,
    List.cons_append]

theorem longest?_quoted {cs : List Char} (h : '\x22' ∉ cs) (rest : List Char) :
    longest? ('\x22' :: (cs ++ ['\x22']) ++ rest) = some ⟨.quoted, '\x22' :: (cs ++ ['\x22'])⟩ := by
  have hcloses : (cs ++ ['\x22'] ++ rest).contains '\x22' = true := by simp
  have htake : (cs ++ ['\x22'] ++ rest).takeWhile (· != '\x22') = cs := by
    rw [List.append_assoc, List.takeWhile_append_of_pos (bne_of_not_mem h)]
    simp
  have hcontinuation : continuation? '\x22' (cs ++ ['\x22'] ++ rest) =
      some (.quoted, cs ++ ['\x22']) := by
    rw [continuation?, if_neg (by decide), if_neg (by decide), if_neg (by decide), if_pos rfl,
      if_pos hcloses, htake]
  exact longest?_cons hcontinuation

theorem longest?_digits {ds : List Char} (hne : ds ≠ []) (h : ∀ d ∈ ds, d.isDigit)
    (rest : List Char) : longest? (ds ++ rest) = some ⟨.number,
      ds ++ (rest.takeWhile Char.isDigit ++ fractionPart (rest.dropWhile Char.isDigit))⟩ := by
  cases ds with
  | nil => exact absurd rfl hne
  | cons d ds =>
    obtain ⟨hd, hds⟩ := List.forall_mem_cons.mp h
    rw [List.cons_append, longest?_cons (continuation?_digit hd), List.takeWhile_append_of_pos hds,
      List.dropWhile_append_of_pos hds, List.append_assoc, List.cons_append]

theorem longest?_word (hc : isLetter c) (hcs : ∀ c ∈ cs, isLetter c ∨ isDecimalDigit c)
    (rest : List Char) :
    longest? (c :: cs ++ rest) = some ⟨.word, c :: cs ++ rest.takeWhile continuesWord⟩ := by
  have hwords : ∀ c ∈ cs, continuesWord c = true := by
    intro c hc
    rw [continuesWord, Bool.or_eq_true]
    exact hcs c hc
  rw [List.cons_append, longest?_cons (continuation?_letter hc),
    List.takeWhile_append_of_pos hwords, List.cons_append]

/-- The element found at a lexeme is the lexeme, or goes on after it. If it is the lexeme it is read
as what the lexeme stands for. -/
theorem extends_of_lexeme {text : List Char} {m : Meaning} (h : Lexeme text m)
    (rest : List Char) :
    ∃ e tail, longest? (text ++ rest) = some e ∧ e.text = text ++ tail ∧
      (tail = [] → ∀ p, e.read p = m.at p) := by
  cases h with
  | blanks hne hblank =>
    cases text with
    | nil => exact absurd rfl hne
    | cons c cs =>
      obtain ⟨hc, hcs⟩ := List.forall_mem_cons.mp hblank
      exact ⟨_, _, longest?_blanks (isBlank_iff.mpr hc) (fun c hc => isBlank_iff.mpr (hcs c hc))
        rest, rfl, fun _ _ => rfl⟩
  | lineEnd => exact ⟨⟨.lineEnd, ['\n']⟩, [], rfl, rfl, fun _ _ => rfl⟩
  | @mark c kind hmem =>
    by_cases hc : c = '-'
    -- A minus goes on if the arrow does.
    · subst hc
      obtain rfl : kind = .minus := by simpa [marks] using hmem
      by_cases hnext : rest.head? = some '>'
      · exact ⟨_, ['>'], (longest?_minus rest).trans (if_pos hnext), rfl, fun h => nomatch h⟩
      · exact ⟨_, [], (longest?_minus rest).trans (if_neg hnext), rfl, fun _ _ => rfl⟩
    · exact ⟨⟨.mark kind, [c]⟩, [], longest?_cons (continuation?_mark hmem hc), rfl,
        fun _ _ => rfl⟩
  | arrow => exact ⟨⟨.mark .arrow, ['-', '>']⟩, [], rfl, rfl, fun _ _ => rfl⟩
  | @quoted cs hquote =>
    refine ⟨_, [], longest?_quoted hquote rest, (List.append_nil _).symm, fun _ p => ?_⟩
    rw [read, List.drop_one, List.tail_cons, List.dropLast_concat]
    rfl
  | @integer _ n hne hds hle hn =>
    refine ⟨_, _, longest?_digits hne hds rest, rfl, fun htail p => ?_⟩
    have hvalue : Int32.ofNat (Nat.ofDigitChars 10 text 0) = n := by
      rw [← Int32.toInt_inj, hn, Int32.toInt_ofNat_of_lt (by omega)]
    rw [htail, List.append_nil, read, number_digits hds, if_pos hle, hvalue]
    rfl
  | tooLarge hds hlt =>
    have hne : text ≠ [] := by
      rintro rfl
      exact absurd hlt (by decide)
    refine ⟨_, _, longest?_digits hne hds rest, rfl, fun htail p => ?_⟩
    rw [htail, List.append_nil, read, number_digits hds, if_neg (Nat.not_le_of_lt hlt)]
    rfl
  | @floating whole places x hne hwhole hplaces hx =>
    refine ⟨⟨.number, (whole ++ '.' :: places) ++ rest.takeWhile Char.isDigit⟩, _, ?_, rfl,
      fun htail p => ?_⟩
    · have hpoint : ('.' :: (places ++ rest)).takeWhile Char.isDigit = [] := rfl
      have hrest : ('.' :: (places ++ rest)).dropWhile Char.isDigit = '.' :: (places ++ rest) := rfl
      rw [List.append_assoc, List.cons_append, longest?_digits hne hwhole, hpoint, hrest,
        fractionPart, List.takeWhile_append_of_pos hplaces, List.append_assoc]
      rfl
    · rw [htail, List.append_nil, read, number_floating hwhole,
        hx.unique (Binary32.ofDecimal_roundsTo _ _)]
      rfl
  | @keyword word kind hmem =>
    obtain ⟨c, cs, hword, hc, hcs⟩ := keyword_letters hmem
    refine ⟨⟨.word, word.toList ++ rest.takeWhile continuesWord⟩, _, ?_, rfl, fun htail p => ?_⟩
    · rw [hword]
      exact longest?_word hc (fun c hc => .inl (hcs c hc)) rest
    · rw [htail, List.append_nil, read, word_of_keyword hmem]
      rfl
  | @name c cs hc hcs hkeyword =>
    refine ⟨_, _, longest?_word hc hcs rest, rfl, fun htail p => ?_⟩
    rw [htail, List.append_nil, read, word_of_name hkeyword]
    rfl

/-! ## What is found is a lexeme -/

theorem fractionPart_cases (cs : List Char) : fractionPart cs = [] ∨
    ∃ places, (∀ d ∈ places, d.isDigit) ∧ fractionPart cs = '.' :: places := by
  unfold fractionPart
  split
  · exact .inr ⟨_, fun d hd => List.mem_takeWhile_imp hd, rfl⟩
  · exact .inl rfl

theorem lexeme_of_digits {ds : List Char} (hne : ds ≠ []) (h : ∀ d ∈ ds, d.isDigit) :
    ∃ m, Lexeme ds m := by
  by_cases hle : Nat.ofDigitChars 10 ds 0 ≤ 2147483647
  · exact ⟨_, .integer hne h hle (Int32.toInt_ofNat_of_lt (by omega))⟩
  · exact ⟨_, .tooLarge h (Nat.lt_of_not_le hle)⟩

theorem lexeme_of_word (hc : isLetter c) (hcs : ∀ c ∈ cs, isLetter c ∨ isDecimalDigit c) :
    ∃ m, Lexeme (c :: cs) m := by
  by_cases hkeyword : ∃ kind, (String.ofList (c :: cs), kind) ∈ keywords
  · obtain ⟨kind, hmem⟩ := hkeyword
    have h := Lexeme.keyword hmem
    rw [String.toList_ofList] at h
    exact ⟨_, h⟩
  · exact ⟨_, .name hc hcs (not_exists.mp hkeyword)⟩

theorem mem_marks_of_mark? {kind : Kind} (h : mark? c = some kind) : (c, kind) ∈ marks := by
  unfold mark? at h
  split at h <;> cases h <;> decide

theorem lexeme_of_longest? {e : Element} (h : longest? cs = some e) : ∃ m, Lexeme e.text m := by
  cases cs with
  | nil => cases h
  | cons c cs =>
    obtain ⟨⟨shape, tail⟩, htail, rfl⟩ := Option.map_eq_some_iff.mp h
    show ∃ m, Lexeme (c :: tail) m
    unfold continuation? at htail
    split at htail
    · rename_i hc
      subst hc
      split at htail <;> cases htail
      · exact ⟨_, .arrow⟩
      · have hmem : ('-', Kind.minus) ∈ marks := by decide
        exact ⟨_, .mark hmem⟩
    split at htail
    · rename_i hc
      subst hc
      cases htail
      exact ⟨_, .lineEnd⟩
    split at htail
    · rename_i hc
      cases htail
      refine ⟨_, .blanks (List.cons_ne_nil c _) (List.forall_mem_cons.mpr
        ⟨isBlank_iff.mp hc, fun b hb => isBlank_iff.mp (List.mem_takeWhile_imp hb)⟩)⟩
    split at htail
    · rename_i hc
      subst hc
      split at htail <;> cases htail
      refine ⟨_, .quoted fun hmem => ?_⟩
      simpa using List.mem_takeWhile_imp hmem
    split at htail
    · rename_i hc
      cases htail
      have hds : ∀ d ∈ c :: cs.takeWhile Char.isDigit, d.isDigit :=
        List.forall_mem_cons.mpr ⟨hc, fun d hd => List.mem_takeWhile_imp hd⟩
      rcases fractionPart_cases (cs.dropWhile Char.isDigit) with hnone | ⟨places, hplaces, hsome⟩
      · rw [hnone, List.append_nil]
        exact lexeme_of_digits (List.cons_ne_nil c _) hds
      · rw [hsome]
        exact ⟨_, .floating (List.cons_ne_nil c _) hds hplaces (Binary32.ofDecimal_roundsTo _ _)⟩
    split at htail
    · rename_i hc
      cases htail
      refine lexeme_of_word hc fun c hc => ?_
      have hcontinues := List.mem_takeWhile_imp hc
      rwa [continuesWord, Bool.or_eq_true] at hcontinues
    · obtain ⟨kind, hkind, hmark⟩ := Option.map_eq_some_iff.mp htail
      cases hmark
      exact ⟨_, .mark (mem_marks_of_mark? hkind)⟩

/-- What is found is the longest lexeme, and it is read as what it stands for. -/
theorem isLongest_of_longest? {e : Element} (h : longest? cs = some e) :
    IsLongest e.text cs ∧ ∀ m, Lexeme e.text m → ∀ p, e.read p = m.at p := by
  have hprefix := text_prefix_of_longest? h
  refine ⟨⟨lexeme_of_longest? h, hprefix, ?_⟩, fun m hm p => ?_⟩
  · rintro text' m' hm' ⟨rest, rfl⟩
    obtain ⟨e', tail, he', htext, -⟩ := extends_of_lexeme hm' rest
    obtain rfl := Option.some.inj (h.symm.trans he')
    rw [htext, List.length_append]
    exact Nat.le_add_right _ _
  · obtain ⟨rest, rfl⟩ := hprefix
    obtain ⟨e', tail, he', htext, hread⟩ := extends_of_lexeme hm rest
    obtain rfl := Option.some.inj (h.symm.trans he')
    exact hread (List.self_eq_append_right.mp htext) p

/-- Where nothing is found there is no lexeme. -/
theorem not_prefix_of_longest? {text : List Char} {m : Meaning} (h : longest? cs = none)
    (hm : Lexeme text m) : ¬ text <+: cs := by
  rintro ⟨rest, rfl⟩
  obtain ⟨e, _, he, -⟩ := extends_of_lexeme hm rest
  cases h.symm.trans he

end Element

namespace Lexeme

variable {text : List Char} {m m' : Meaning}

/-- A lexeme alone is found as a whole, and read as what it stands for. -/
theorem exists_longest? (h : Lexeme text m) :
    ∃ e, Element.longest? text = some e ∧ e.text = text ∧ ∀ p, e.read p = m.at p := by
  obtain ⟨e, tail, he, htext, hread⟩ := Element.extends_of_lexeme h []
  rw [List.append_nil] at he
  have hlength := (Element.text_prefix_of_longest? he).length_le
  rw [htext, List.length_append] at hlength
  obtain rfl : tail = [] := List.eq_nil_of_length_eq_zero (by omega)
  rw [List.append_nil] at htext
  exact ⟨e, he, htext, hread rfl⟩

/-- What a lexeme stands for is determined by its text. -/
theorem unique (h : Lexeme text m) (h' : Lexeme text m') : m = m' := by
  obtain ⟨e, he, htext, hread⟩ := h.exists_longest?
  have hread' := (Element.isLongest_of_longest? he).2 m' (htext ▸ h')
  exact Meaning.at_inj ((hread .origin).symm.trans (hread' .origin))

end Lexeme

end Scriptlet
