import Scriptlet.Proofs.MaximalMunch

/-!
# Source positions

In a source of fewer characters than the 32 bits of a coordinate can count, every position that
tokenizing records is that of the character where the token, or what was refused, begins: the line
counts the line ends before it, those inside of quoted texts too, and the column counts the
characters since the last one.
-/

namespace Scriptlet

/-! ## Positions in a text -/

/-- The last line of a text, and what comes before it. -/
theorem exists_last_line (cs : List Char) : ∃ before line, cs = before ++ line ∧
    line.length = columnAfter cs ∧ '\n' ∉ line ∧
    (before = [] ∨ ∃ init, before = init ++ ['\n']) := by
  have hsplit := List.takeWhile_append_dropWhile (p := (· != '\n')) (l := cs.reverse)
  refine ⟨(cs.reverse.dropWhile (· != '\n')).reverse, (cs.reverse.takeWhile (· != '\n')).reverse,
    ?_, List.length_reverse, fun hmem => ?_, ?_⟩
  · rw [← List.reverse_append, hsplit, List.reverse_reverse]
  · simpa using List.mem_takeWhile_imp (List.mem_reverse.mp hmem)
  · cases hdrop : cs.reverse.dropWhile (· != '\n') with
    | nil => exact .inl rfl
    | cons c rest =>
      have hnot := List.head?_dropWhile_not (· != '\n') cs.reverse
      rw [hdrop] at hnot
      obtain rfl : c = '\n' := by simpa using hnot
      exact .inr ⟨rest.reverse, List.reverse_cons⟩

/-- The position is that of character number `o` of a text: it counts the lines that end before it,
and the characters from the start of its line. -/
structure Position.IsAt (p : Position) (cs : List Char) (o : Nat) : Prop where
  line : p.line.toNat = (cs.take o).count '\n'
  column : ∃ start ≤ o, p.column.toNat = o - start ∧ '\n' ∉ (cs.take o).drop start ∧
    (start = 0 ∨ cs[start - 1]? = some '\n')

theorem Position.isAt_after {cs : List Char} {o : Nat} (ho : o ≤ cs.length)
    (hlength : cs.length < UInt32.size) : (Position.after (cs.take o)).IsAt cs o := by
  obtain ⟨before, line, hsplit, hline, hnot, hbefore⟩ := exists_last_line (cs.take o)
  have htake : (cs.take o).length = o := List.length_take_of_le ho
  have hcount := List.count_le_length (a := '\n') (l := cs.take o)
  have hsum := congrArg List.length hsplit
  rw [htake, List.length_append] at hsum
  refine ⟨UInt32.toNat_ofNat_of_lt' (by omega), before.length, by omega, ?_, ?_, ?_⟩
  · have hcolumn : (Position.after (cs.take o)).column.toNat = columnAfter (cs.take o) :=
      UInt32.toNat_ofNat_of_lt' (by omega)
    omega
  · rwa [hsplit, List.drop_left]
  · rcases hbefore with rfl | ⟨init, rfl⟩
    · exact .inl rfl
    · have hcs := List.take_append_drop o cs
      rw [hsplit] at hcs
      rw [← hcs]
      exact .inr (by simp)

/-! ## Positions of tokens -/

/-- The tokens are those of the texts, which lie in `cs` one after the other from character number
`o` on, and each stands where its text begins. -/
inductive Placed (cs : List Char) : Nat → List (List Char) → List Token → Prop
  | nil {o : Nat} : Placed cs o [] []
  | blank {o : Nat} {text : List Char} {texts : List (List Char)} {ts : List Token} :
      Lexeme text (.ok none) → Placed cs (o + text.length) texts ts → Placed cs o (text :: texts) ts
  | token {o : Nat} {text : List Char} {texts : List (List Char)} {t : Token} {ts : List Token} :
      Lexeme text (.ok (some (t.kind, t.payload))) → t.position.IsAt cs o →
      Placed cs (o + text.length) texts ts → Placed cs o (text :: texts) (t :: ts)

theorem Yields.placed {before cs : List Char} {texts : List (List Char)} {ts : List Token}
    (h : Yields before texts ts) (hcs : before ++ texts.flatten <+: cs)
    (hlength : cs.length < UInt32.size) : Placed cs before.length texts ts := by
  induction h with
  | nil => exact .nil
  | blank hlexeme _ ih =>
    rw [List.flatten_cons, ← List.append_assoc] at hcs
    have hlater := ih hcs
    rw [List.length_append] at hlater
    exact .blank hlexeme hlater
  | @token before text texts ts kind payload hlexeme _ ih =>
    have hbefore : before <+: cs := (List.prefix_append _ _).trans hcs
    rw [List.flatten_cons, ← List.append_assoc] at hcs
    have hlater := ih hcs
    rw [List.length_append] at hlater
    refine .token hlexeme ?_ hlater
    have hat := Position.isAt_after hbefore.length_le hlength
    rwa [← List.prefix_iff_eq_take.mp hbefore] at hat

/-! ## Places of the scanner -/

/-- The scanner is reached while the source is tokenized. -/
inductive Scanner.Reached (source : String) : Scanner → Prop
  | start : Reached source (.ofString source)
  | pass {s : Scanner} {e : Element} : Reached source s → Element.longest? s.rest = some e →
      Reached source (s.pass e.text)

namespace Scanner.Reached

variable {source : String} {s : Scanner}

theorem exists_before (h : Reached source s) :
    ∃ before, s.HasPassed before ∧ before ++ s.rest = source.toList := by
  induction h with
  | start => exact ⟨[], hasPassed_ofString source, rfl⟩
  | @pass s e _ he ih =>
    obtain ⟨before, hs, hsource⟩ := ih
    obtain ⟨rest, hrest⟩ := Element.text_prefix_of_longest? he
    refine ⟨before ++ e.text, hs.pass e.text, ?_⟩
    rw [rest_pass, ← hrest, dropBytes_append, List.append_assoc, hrest, hsource]

/-- The current line never begins after the scanner. -/
theorem lineStart_le (h : Reached source s) (hlength : source.length < UInt32.size) :
    s.lineStart ≤ s.offset := by
  obtain ⟨before, hs, hsource⟩ := h.exists_before
  have hsum := congrArg List.length hsource
  rw [List.length_append, String.length_toList] at hsum
  rw [hs.lineStart, hs.offset, UInt32.ofNat_le_iff_le] <;> omega

/-- The characters after the last line end of an element are among those passed with it. -/
theorem column_le (h : Reached source s) (hlength : source.length < UInt32.size) {e : Element}
    (he : Element.longest? s.rest = some e) :
    .ofNat (columnAfter e.text) ≤ (s.advance e.text).offset := by
  obtain ⟨before, hs, hsource⟩ := h.exists_before
  have hoffset : (s.advance e.text).offset = .ofNat (before ++ e.text).length := by
    rw [List.length_append, UInt32.ofNat_add, ← hs.offset]
    rfl
  have hsum := congrArg List.length hsource
  have htext := (Element.text_prefix_of_longest? he).length_le
  have hcolumn := columnAfter_le e.text
  rw [List.length_append, String.length_toList] at hsum
  rw [hoffset, List.length_append, UInt32.ofNat_le_iff_le] <;> omega

end Scanner.Reached

/-- The positions of tokens and errors are the true ones: each token stands where its text begins in
the source, and an error where the character, quote or number begins that is refused. The tokens
stand in reading order. No subtraction that the scanner makes on the way goes below zero. -/
theorem tokenize_isAt {source : String} (hlength : source.length < UInt32.size) :
    (∀ ts, tokenize source = .ok ts →
      (∃ texts, Munches source.toList texts [] ∧ Placed source.toList 0 texts ts) ∧
      (ts.map Token.position).Pairwise (· < ·)) ∧
    (∀ e, tokenize source = .error e → ∃ texts left, Munches source.toList texts left ∧
      Refused left e.cause ∧ e.position.IsAt source.toList texts.flatten.length) ∧
    ∀ s, Scanner.Reached source s → s.lineStart ≤ s.offset ∧
      ∀ e, Element.longest? s.rest = some e →
        .ofNat (columnAfter e.text) ≤ (s.advance e.text).offset := by
  have hlist : source.toList.length < UInt32.size := by rwa [String.length_toList]
  refine ⟨fun ts h => ⟨?_, ?_⟩, fun e h => ?_, fun s hs =>
    ⟨hs.lineStart_le hlength, fun e he => hs.column_le hlength he⟩⟩
  · obtain ⟨texts, hmunches, hyields⟩ := exists_munches_of_tokenize h
    have hflatten := hmunches.append_flatten
    exact ⟨texts, hmunches, hyields.placed ⟨[], hflatten⟩ hlist⟩
  · exact (tokenize_positions h).pairwise_lt hlist
  · obtain ⟨texts, left, hmunches, hrefused, hposition⟩ := exists_refused_of_tokenize h
    refine ⟨texts, left, hmunches, hrefused, ?_⟩
    have hprefix : texts.flatten <+: source.toList := ⟨left, hmunches.append_flatten⟩
    have hat := Position.isAt_after hprefix.length_le hlist
    rwa [← List.prefix_iff_eq_take.mp hprefix, ← hposition] at hat

/-- A quoted text over two lines, a name after it, and a character that starts no token. -/
theorem tokenize_isAt_quoted :
    let source := "\x22a\nb\x22 x ?"
    source.length < UInt32.size ∧
      (∀ ts, tokenize source = .ok ts →
        (∃ texts, Munches source.toList texts [] ∧ Placed source.toList 0 texts ts) ∧
        (ts.map Token.position).Pairwise (· < ·)) ∧
      (∀ e, tokenize source = .error e → ∃ texts left, Munches source.toList texts left ∧
        Refused left e.cause ∧ e.position.IsAt source.toList texts.flatten.length) ∧
      ∀ s, Scanner.Reached source s → s.lineStart ≤ s.offset ∧
        ∀ e, Element.longest? s.rest = some e →
          .ofNat (columnAfter e.text) ≤ (s.advance e.text).offset :=
  ⟨by decide, tokenize_isAt (by decide)⟩

end Scriptlet
