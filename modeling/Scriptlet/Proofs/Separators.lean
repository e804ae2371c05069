import Scriptlet.Proofs.MaximalMunch

/-!
# Texts on both sides of a separator

No element but blanks and quoted texts holds a blank or a line end. So the tokens of two texts with
such a character between them are those of the first, the line end if there is one, and those of the
second, which are found at the same distance from where the second text begins
(`tokenize_push_append`).
-/

namespace Scriptlet

open Text

variable {w c : Char} {cs rest before text : List Char}

/-! ## Elements before a separator -/

/-- The characters that separate: the blanks, and the line feed. -/
def separators : List Char := [' ', '\t', '\r', '\n']

theorem mem_separators_iff : w ∈ separators ↔ w = ' ' ∨ w = '\t' ∨ w = '\r' ∨ w = '\n' := by
  simp only [separators, List.mem_cons, List.not_mem_nil, or_false]

theorem lineFeed_or_isBlank_of_separators (hw : w ∈ separators) : w = '\n' ∨ isBlank w := by
  rcases mem_separators_iff.mp hw with rfl | rfl | rfl | rfl
  · exact .inr rfl
  · exact .inr rfl
  · exact .inr rfl
  · exact .inl rfl

theorem isDigit_eq_false_of_separators (hw : w ∈ separators) : w.isDigit = false := by
  rcases mem_separators_iff.mp hw with rfl | rfl | rfl | rfl <;> rfl

theorem continuesWord_eq_false_of_separators (hw : w ∈ separators) :
    Element.continuesWord w = false := by
  rcases mem_separators_iff.mp hw with rfl | rfl | rfl | rfl <;> rfl

section Runs

variable {p : Char → Bool}

/-- A run ends where the text ends, or before. -/
theorem takeWhile_append_stop (h : p w = false) :
    (cs ++ w :: rest).takeWhile p = cs.takeWhile p := by
  rw [List.takeWhile_append, List.takeWhile_cons_of_neg (Bool.eq_false_iff.mp h), List.append_nil]
  split
  · rename_i hlength
    exact ((List.takeWhile_prefix p).eq_of_length hlength).symm
  · rfl

theorem dropWhile_append_stop (h : p w = false) :
    (cs ++ w :: rest).dropWhile p = cs.dropWhile p ++ w :: rest := by
  rw [List.dropWhile_append, List.dropWhile_cons_of_neg (Bool.eq_false_iff.mp h)]
  split
  · rename_i hempty
    rw [List.isEmpty_iff.mp hempty, List.nil_append]
  · rfl

end Runs

namespace Element

theorem fractionPart_cons_of_ne (h : c ≠ '.') : fractionPart (c :: cs) = [] := by
  rw [fractionPart]
  rintro _ ⟨⟩
  exact h rfl

theorem fractionPart_append (hw : w ∈ separators) :
    fractionPart (cs ++ w :: rest) = fractionPart cs := by
  cases cs with
  | nil =>
    refine fractionPart_cons_of_ne ?_
    rintro rfl
    exact absurd hw (by decide)
  | cons d cs =>
    by_cases hd : d = '.'
    · subst hd
      rw [List.cons_append, fractionPart, fractionPart,
        takeWhile_append_stop (isDigit_eq_false_of_separators hw)]
    · rw [List.cons_append, fractionPart_cons_of_ne hd, fractionPart_cons_of_ne hd]

theorem takeWhile_append_of_closed (h : '\x22' ∈ cs) :
    (cs ++ rest).takeWhile (· != '\x22') = cs.takeWhile (· != '\x22') := by
  rw [List.takeWhile_append, if_neg]
  intro hlength
  have hall := (List.takeWhile_prefix _).eq_of_length hlength
  rw [← hall] at h
  simpa using List.mem_takeWhile_imp h

/-- An element that is not blank ends before a separator, whatever comes after, if no quote is left
open. -/
theorem continuation?_append (hw : w ∈ separators) (hc : isBlank c = false)
    (hquote : c = '\x22' → '\x22' ∈ cs) :
    continuation? c (cs ++ w :: rest) = continuation? c cs := by
  have hhead : (cs ++ w :: rest).head? = some '>' ↔ cs.head? = some '>' := by
    cases cs with
    | nil =>
      simp only [List.nil_append, List.head?_cons, List.head?_nil, Option.some.injEq, reduceCtorEq,
        iff_false]
      rintro rfl
      exact absurd hw (by decide)
    | cons d cs => rfl
  have hdigit := isDigit_eq_false_of_separators hw
  unfold continuation?
  by_cases hclosed : c = '\x22'
  · have hmem := hquote hclosed
    have hmem' : '\x22' ∈ cs ++ w :: rest := List.mem_append_left _ hmem
    simp only [List.contains_iff_mem.mpr hmem, List.contains_iff_mem.mpr hmem', hclosed,
      takeWhile_append_of_closed hmem]
    rfl
  · simp only [hhead, hc, hclosed, takeWhile_append_stop hdigit, dropWhile_append_stop hdigit,
      fractionPart_append hw, takeWhile_append_stop (continuesWord_eq_false_of_separators hw),
      Bool.false_eq_true, ↓reduceIte]

theorem length_lt_of_longest? {e : Element} (h : longest? (e.text ++ rest) = some e) :
    rest.length < (e.text ++ rest).length := by
  have htext := List.length_pos_iff.mpr (text_ne_nil_of_longest? h)
  rw [List.length_append]
  omega

/-- Where there is no element before a separator there is none with it, an open quote apart. -/
theorem longest?_append_eq_none (hw : w ∈ separators) (hnone : longest? (c :: cs) = none)
    (hc : c ≠ '\x22') : longest? (c :: cs ++ w :: rest) = none := by
  have hblank : isBlank c = false := by
    rw [Bool.eq_false_iff]
    intro hblank
    rw [longest?_cons (continuation?_blank hblank)] at hnone
    cases hnone
  rw [List.cons_append, longest?, continuation?_append hw hblank fun h => absurd h hc]
  exact hnone

/-- An element that is not blank is found with a separator after it too. -/
theorem longest?_append (hw : w ∈ separators) {e : Element} (h : longest? cs = some e)
    (hblank : ¬ ∀ b ∈ e.text, isBlank b) : longest? (cs ++ w :: rest) = some e := by
  cases cs with
  | nil => cases h
  | cons c cs =>
    have hc : isBlank c = false := by
      rw [Bool.eq_false_iff]
      intro hc
      rw [longest?_cons (continuation?_blank hc)] at h
      cases h
      exact hblank (List.forall_mem_cons.mpr ⟨hc, fun b hb => List.mem_takeWhile_imp hb⟩)
    have hquote : c = '\x22' → '\x22' ∈ cs := by
      rintro rfl
      by_contra hopen
      rw [longest?, continuation?, if_neg (by decide), if_neg (by decide), if_neg (by decide),
        if_pos rfl, if_neg (mt List.contains_iff_mem.mp hopen)] at h
      cases h
    rw [List.cons_append, longest?, continuation?_append hw hc hquote]
    exact h

/-- Every text is taken element by element, up to its end or to where there is no element. -/
@[elab_as_elim]
theorem text_induction {motive : List Char → Prop} (nil : motive [])
    (stop : ∀ c cs, longest? (c :: cs) = none → motive (c :: cs))
    (element : ∀ e rest, longest? (e.text ++ rest) = some e → motive rest →
      motive (e.text ++ rest)) (cs : List Char) : motive cs := by
  induction hn : cs.length using Nat.strongRecOn generalizing cs with
  | ind n ih =>
    subst hn
    cases cs with
    | nil => exact nil
    | cons c cs =>
      cases he : longest? (c :: cs) with
      | none => exact stop c cs he
      | some e =>
        obtain ⟨rest, hrest⟩ := text_prefix_of_longest? he
        rw [← hrest] at he ih ⊢
        exact element e rest he (ih rest.length (length_lt_of_longest? he) rest rfl)

end Element

/-! ## Scanners -/

namespace Scanner

/-- The scanner that has passed a text, with another one ahead. -/
def after (before rest : List Char) : Scanner :=
  { rest
    offset := .ofNat before.length
    line := .ofNat (before.count '\n')
    lineStart := .ofNat (before.length - columnAfter before) }

theorem hasPassed_after (before rest : List Char) : (after before rest).HasPassed before :=
  ⟨rfl, rfl, rfl⟩

theorem HasPassed.eq_after {s : Scanner} (h : s.HasPassed before) : s = after before s.rest := by
  obtain ⟨rest, offset, line, lineStart⟩ := s
  obtain ⟨rfl, rfl, rfl⟩ := h
  rfl

theorem ofString_eq_after (source : String) : ofString source = after [] source.toList := rfl

theorem pass_after (before text rest : List Char) :
    (after before (text ++ rest)).pass text = after (before ++ text) rest := by
  rw [((hasPassed_after before (text ++ rest)).pass text).eq_after, rest_pass]
  exact congrArg _ (dropBytes_append text rest)

@[simp] theorem tokens_after_nil (before : List Char) : (after before []).tokens = .ok [] :=
  tokens_of_nil rfl

theorem tokens_after_none (h : Element.longest? (c :: cs) = none) :
    (after before (c :: cs)).tokens = .error ⟨refusal c, .after before⟩ := by
  rw [tokens_of_none rfl h, (hasPassed_after before _).position]

theorem tokens_after_error {e : Element} {cause : Cause}
    (h : Element.longest? (e.text ++ rest) = some e)
    (hread : e.read (.after before) = .error cause) :
    (after before (e.text ++ rest)).tokens = .error ⟨cause, .after before⟩ := by
  rw [tokens_of_some h, (hasPassed_after before _).position, hread]

theorem tokens_after_ok {e : Element} {found : Option Token}
    (h : Element.longest? (e.text ++ rest) = some e)
    (hread : e.read (.after before) = .ok found) :
    (after before (e.text ++ rest)).tokens =
      (after (before ++ e.text) rest).tokens.map (found.toList ++ ·) := by
  rw [tokens_of_some h, (hasPassed_after before _).position, hread, pass_after]

/-- Blanks are passed over. -/
theorem tokens_after_dropWhile (before cs : List Char) : (after before cs).tokens =
    (after (before ++ cs.takeWhile isBlank) (cs.dropWhile isBlank)).tokens := by
  cases cs with
  | nil => simp
  | cons c cs =>
    by_cases hc : isBlank c
    · have he : Element.longest? (c :: cs) = some ⟨.blank, c :: cs.takeWhile isBlank⟩ :=
        Element.longest?_cons (Element.continuation?_blank hc)
      have hsplit : (c :: cs.takeWhile isBlank) ++ cs.dropWhile isBlank = c :: cs := by simp
      rw [List.takeWhile_cons_of_pos hc, List.dropWhile_cons_of_pos hc]
      rw [← hsplit] at he ⊢
      rw [tokens_after_ok (e := ⟨.blank, c :: cs.takeWhile isBlank⟩) he rfl]
      cases (after (before ++ c :: cs.takeWhile isBlank) (cs.dropWhile isBlank)).tokens <;> rfl
    · rw [List.takeWhile_cons_of_neg hc, List.dropWhile_cons_of_neg hc, List.append_nil]

/-- A run of blanks can be passed in two steps. -/
theorem tokens_after_blanks {blanks : List Char} (h : ∀ b ∈ blanks, isBlank b)
    (before cs : List Char) :
    (after before (blanks ++ cs)).tokens = (after (before ++ blanks) cs).tokens := by
  rw [tokens_after_dropWhile, tokens_after_dropWhile (before ++ blanks),
    List.takeWhile_append_of_pos h, List.dropWhile_append_of_pos h, List.append_assoc]

/-- What comes after a separator does not change what is found before it. -/
theorem tokens_after_append (hw : w ∈ separators) (before cs rest : List Char) :
    (∀ ts, (after before cs).tokens = .ok ts → (after before (cs ++ w :: rest)).tokens =
      (after (before ++ cs) (w :: rest)).tokens.map (ts ++ ·)) ∧
    ∀ e, (after before cs).tokens = .error e → e.cause ≠ .unterminatedText →
      (after before (cs ++ w :: rest)).tokens = .error e := by
  induction cs using Element.text_induction generalizing before with
  | nil =>
    rw [tokens_after_nil, List.append_nil, List.nil_append]
    refine ⟨fun ts h => ?_, fun e h => ?_⟩
    · cases h
      cases (after before (w :: rest)).tokens <;> rfl
    · cases h
  | stop c cs he =>
    rw [tokens_after_none he]
    refine ⟨fun ts h => ?_, fun e h hcause => ?_⟩
    · cases h
    · cases h
      have hquote : c ≠ '\x22' := by
        rintro rfl
        exact hcause rfl
      exact tokens_after_none (Element.longest?_append_eq_none hw he hquote)
  | element e left he ih =>
    rw [List.append_assoc, ← List.append_assoc before]
    by_cases hblank : ∀ b ∈ e.text, isBlank b
    -- The blanks after the separator go on from those before it, so they are passed in one step.
    · rw [tokens_after_blanks hblank, tokens_after_blanks hblank]
      exact ih (before ++ e.text)
    · have hboth : Element.longest? (e.text ++ left ++ w :: rest) = some e :=
        Element.longest?_append hw he hblank
      rw [List.append_assoc] at hboth
      cases hread : e.read (.after before) with
      | error cause =>
        rw [tokens_after_error he hread, tokens_after_error hboth hread]
        refine ⟨fun ts h => ?_, fun e h _ => h⟩
        cases h
      | ok found =>
        rw [tokens_after_ok he hread, tokens_after_ok hboth hread]
        obtain ⟨hok, herror⟩ := ih (before ++ e.text)
        cases hus : (after (before ++ e.text) left).tokens with
        | error e' =>
          refine ⟨fun ts h => ?_, fun e'' h hcause => ?_⟩
          · cases h
          · cases h
            rw [herror e' hus hcause]
            rfl
        | ok us =>
          refine ⟨fun ts h => ?_, fun e'' h _ => ?_⟩
          · cases h
            rw [hok us hus]
            cases (after (before ++ e.text ++ left) (w :: rest)).tokens with
            | error e'' => rfl
            | ok vs => exact congrArg _ (List.append_assoc _ _ _).symm
          · cases h

end Scanner

/-! ## Positions behind another text -/

/-- The position that the place has when the text is put in front: further down by the lines that
end in it, and on the first line further right by the column after it. -/
def Position.shift (before : List Char) (p : Position) : Position :=
  ⟨p.line + .ofNat (before.count '\n'),
    if p.line = 0 then p.column + .ofNat (columnAfter before) else p.column⟩

/-- The token at its place behind the text. -/
def Token.shift (before : List Char) (t : Token) : Token :=
  { t with position := t.position.shift before }

/-- The error at its place behind the text. -/
def Error.shift (before : List Char) (e : Error) : Error :=
  { e with position := e.position.shift before }

theorem columnAfter_nil : columnAfter [] = 0 := rfl

theorem Position.shift_after (hlength : text.length < UInt32.size) :
    (after text).shift before = after (before ++ text) := by
  have hcount := List.count_le_length (a := '\n') (l := text)
  rw [shift, after, after, List.count_append, UInt32.ofNat_add, UInt32.add_comm, Position.mk.injEq]
  refine ⟨rfl, ?_⟩
  by_cases hmem : '\n' ∈ text
  · have hline : UInt32.ofNat (text.count '\n') ≠ 0 := by
      have hpos := List.count_pos_iff.mpr hmem
      intro hzero
      have hnat := congrArg UInt32.toNat hzero
      rw [UInt32.toNat_ofNat_of_lt' (by omega), UInt32.toNat_zero] at hnat
      omega
    rw [if_neg hline, columnAfter_append_of_mem hmem]
  · have hcolumn : columnAfter ([] ++ text) = columnAfter [] + text.length :=
      columnAfter_append_of_not_mem hmem
    rw [List.nil_append, columnAfter_nil, Nat.zero_add] at hcolumn
    have hline : UInt32.ofNat (text.count '\n') = 0 := by
      rw [List.count_eq_zero.mpr hmem]
      rfl
    rw [if_pos hline, hcolumn, columnAfter_append_of_not_mem hmem, UInt32.ofNat_add,
      UInt32.add_comm]

/-- An element is read as the same token wherever it stands. -/
theorem Element.read_shift (e : Element) (p : Position) : e.read (p.shift before) =
    (e.read p).map (·.map (Token.shift before)) := by
  unfold read
  split
  · rfl
  · rfl
  · rfl
  · rfl
  · cases number e.text <;> rfl
  · rfl

/-- What is found behind a text is what is found without it, further on. -/
theorem Scanner.tokens_after_shift (before text cs : List Char)
    (hlength : (text ++ cs).length < UInt32.size) :
    (after (before ++ text) cs).tokens = match (after text cs).tokens with
      | .ok ts => .ok (ts.map (Token.shift before))
      | .error e => .error (e.shift before) := by
  have hposition : Position.after (before ++ text) = (Position.after text).shift before := by
    rw [List.length_append] at hlength
    exact (Position.shift_after (by omega)).symm
  induction cs using Element.text_induction generalizing text with
  | nil => simp
  | stop c cs he =>
    rw [tokens_after_none he, tokens_after_none he, hposition]
    rfl
  | element e left he ih =>
    have hshift : e.read (.after (before ++ text)) =
        (e.read (.after text)).map (·.map (Token.shift before)) := by
      rw [hposition, Element.read_shift]
    cases hread : e.read (.after text) with
    | error cause =>
      rw [hread] at hshift
      rw [tokens_after_error he hread, tokens_after_error he hshift, hposition]
      rfl
    | ok found =>
      rw [hread] at hshift
      rw [← List.append_assoc] at hlength
      have htext : (text ++ e.text).length < UInt32.size := by
        rw [List.length_append] at hlength
        omega
      have hlater := ih (text ++ e.text) hlength
      rw [tokens_after_ok he hread, tokens_after_ok he hshift, List.append_assoc, hlater]
      · cases (after (text ++ e.text) left).tokens with
        | error e => rfl
        | ok ts => cases found <;> rfl
      · exact (Position.shift_after htext).symm

/-! ## Sources -/

/-- The tokens that a separator stands for, after a text. -/
def separatorTokens (before : List Char) (w : Char) : List Token :=
  if w = '\n' then [.bare .lineEnd (.after before)] else []

theorem Scanner.tokens_after_separator (hw : w ∈ separators) (before cs : List Char) :
    (after before (w :: cs)).tokens =
      (after (before ++ [w]) cs).tokens.map (separatorTokens before w ++ ·) := by
  rcases lineFeed_or_isBlank_of_separators hw with rfl | hblank
  · exact tokens_after_ok (e := ⟨.lineEnd, ['\n']⟩) rfl rfl
  · have hne : w ≠ '\n' := by
      rintro rfl
      cases hblank
    have hblanks : ∀ b ∈ [w], isBlank b := by simpa using hblank
    rw [separatorTokens, if_neg hne, ← tokens_after_blanks hblanks, List.singleton_append]
    cases (after before (w :: cs)).tokens <;> rfl

/-- Tokenizing can be cut at a separator. If the text before it has tokens, these come first, then
the line end if the separator is one, and then the tokens of the text after it, which stand as much
further on as that text begins; what is refused in the text after it is refused there too. What is
refused in the text before it is refused anyway, unless it is an open quote. -/
theorem tokenize_push_append {a b : String} (hw : w ∈ separators)
    (hlength : (a.push w ++ b).length < UInt32.size) :
    (∀ ta, tokenize a = .ok ta → tokenize (a.push w ++ b) =
      match tokenize b with
      | .ok tb =>
        .ok (ta ++ separatorTokens a.toList w ++ tb.map (Token.shift (a.toList ++ [w])))
      | .error e => .error (e.shift (a.toList ++ [w]))) ∧
    ∀ e, tokenize a = .error e → e.cause ≠ .unterminatedText →
      tokenize (a.push w ++ b) = .error e := by
  have hboth : tokenize (a.push w ++ b) =
      (Scanner.after [] (a.toList ++ w :: b.toList)).tokens := by
    rw [tokenize, Scanner.ofString_eq_after]
    simp
  obtain ⟨hok, herror⟩ := Scanner.tokens_after_append hw [] a.toList b.toList
  refine ⟨fun ta h => ?_, fun e h hcause => ?_⟩
  · have hshift := Scanner.tokens_after_shift (a.toList ++ [w]) [] b.toList (by
      simp only [String.length_append, String.length_push] at hlength
      rw [List.nil_append, String.length_toList]
      omega)
    rw [List.append_nil] at hshift
    rw [hboth, hok ta h, List.nil_append, Scanner.tokens_after_separator hw, hshift, tokenize,
      Scanner.ofString_eq_after]
    cases (Scanner.after [] b.toList).tokens with
    | error e => rfl
    | ok tb => exact congrArg _ (List.append_assoc _ _ _).symm
  · rw [hboth, herror e h hcause]

/-- Quoted texts that go over a line end on both sides, with a name after the second. -/
theorem tokenize_push_append_quoted :
    let a := "\x22p\nq\x22"
    let b := "x \x22r\ns\x22 y"
    ' ' ∈ separators ∧ (a.push ' ' ++ b).length < UInt32.size ∧
      (∀ ta, tokenize a = .ok ta → tokenize (a.push ' ' ++ b) =
        match tokenize b with
        | .ok tb =>
          .ok (ta ++ separatorTokens a.toList ' ' ++ tb.map (Token.shift (a.toList ++ [' '])))
        | .error e => .error (e.shift (a.toList ++ [' ']))) ∧
      ∀ e, tokenize a = .error e → e.cause ≠ .unterminatedText →
        tokenize (a.push ' ' ++ b) = .error e :=
  ⟨by decide, by decide, tokenize_push_append (by decide) (by decide)⟩

end Scriptlet
