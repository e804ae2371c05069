import Scriptlet.Diagnostic
import Scriptlet.Proofs.Accounting
import Scriptlet.Proofs.SourcePositions

/-!
# Carets

A diagnostic ends in the line of its error and an arrow below. The arrow ends in a caret under the
first character of what the error is about (`Error.render_caret`). A line end has no character in
its line, so its caret stands just after the line.
-/

namespace Scriptlet

/-! ## Lines -/

namespace Text

theorem length_splitOn (cs : List Char) : (cs.splitOn '\n').length = cs.count '\n' + 1 := by
  induction hn : cs.length using Nat.strongRecOn generalizing cs with
  | ind n ih =>
    subst hn
    by_cases h : '\n' ∈ cs
    · obtain ⟨l, rest, rfl, hl⟩ := List.eq_append_cons_of_mem h
      have hlength : rest.length < (l ++ '\n' :: rest).length := by
        rw [List.length_append, List.length_cons]
        omega
      rw [List.splitOn_append_cons_self, List.splitOn_eq_singleton hl, List.length_append,
        ih _ hlength rest rfl, List.count_append, List.count_eq_zero.mpr hl, List.count_cons_self,
        List.length_singleton]
      omega
    · rw [List.splitOn_eq_singleton h, List.count_eq_zero.mpr h, List.length_singleton]

theorem line?_zero (cs : List Char) :
    line? cs 0 = some (dropCarriageReturn (cs.takeWhile (· != '\n'))) := by
  by_cases h : '\n' ∈ cs
  · obtain ⟨l, rest, rfl, hl⟩ := List.eq_append_cons_of_mem h
    rw [line?, List.splitOn_append_cons_self, List.splitOn_eq_singleton hl,
      List.takeWhile_append_of_pos (bne_of_not_mem hl)]
    simp
  · rw [line?_zero_of_not_mem h, List.takeWhile_eq_self_iff.mpr (bne_of_not_mem h)]

/-- What comes before a line only counts by its line ends. -/
theorem line?_count {before : List Char} (h : before = [] ∨ ∃ init, before = init ++ ['\n'])
    (cs : List Char) :
    line? (before ++ cs) (before.count '\n') =
      some (dropCarriageReturn (cs.takeWhile (· != '\n'))) := by
  rw [← line?_zero]
  rcases h with rfl | ⟨init, rfl⟩
  · rfl
  · have hcount : (init ++ ['\n']).count '\n' = (init.splitOn '\n').length := by
      rw [length_splitOn, List.count_append, List.count_singleton_self]
    rw [line?, line?, List.append_assoc, List.singleton_append, List.splitOn_append_cons_self,
      hcount, List.getElem?_append_right (Nat.le_refl _), Nat.sub_self]

theorem dropCarriageReturn_cases (l : List Char) :
    dropCarriageReturn l = l ∨ l = dropCarriageReturn l ++ ['\r'] := by
  rw [dropCarriageReturn]
  split
  · rename_i h
    obtain ⟨init, rfl⟩ := List.getLast?_eq_some_iff.mp h
    right
    rw [List.dropLast_concat]
  · exact .inl rfl

theorem not_mem_dropCarriageReturn {c : Char} {l : List Char} (h : c ∉ l) :
    c ∉ dropCarriageReturn l := by
  rcases dropCarriageReturn_cases l with heq | heq
  · rwa [heq]
  · rw [heq, List.mem_append, not_or] at h
    exact h.1

/-- What ends a line with a carriage return is no other character. -/
theorem getElem?_dropCarriageReturn {l : List Char} {i : Nat} {c : Char} (h : l[i]? = some c)
    (hc : c ≠ '\r') : (dropCarriageReturn l)[i]? = some c := by
  rcases dropCarriageReturn_cases l with heq | heq
  · rwa [heq]
  · rw [heq, List.getElem?_append] at h
    split at h
    · exact h
    · rw [List.getElem?_singleton] at h
      split at h
      · cases h
        exact absurd rfl hc
      · cases h

end Text

/-- The line of a position, and what stands there at its column. -/
theorem exists_line {cs pre post : List Char} {c : Char} (hcs : cs = pre ++ c :: post)
    (hlength : cs.length < UInt32.size) :
    ∃ l, Text.line? cs (Position.after pre).line.toNat = some l ∧ '\n' ∉ l ∧
      (c ≠ '\n' → c ≠ '\r' → l[(Position.after pre).column.toNat]? = some c) ∧
      (c = '\n' → (Position.after pre).column.toNat = l.length ∨
        (Position.after pre).column.toNat = l.length + 1 ∧ ∃ init, pre = init ++ ['\r']) := by
  obtain ⟨before, front, hsplit, hfront, hnot, hbefore⟩ := exists_last_line pre
  have hsum := congrArg List.length hcs
  have hcount := List.count_le_length (a := '\n') (l := pre)
  have hle := columnAfter_le pre
  rw [List.length_append] at hsum
  have hline : (Position.after pre).line.toNat = before.count '\n' := by
    have hcount' : pre.count '\n' = before.count '\n' := by
      rw [hsplit, List.count_append, List.count_eq_zero.mpr hnot, Nat.add_zero]
    rw [← hcount']
    exact UInt32.toNat_ofNat_of_lt' (by omega)
  have hcolumn : (Position.after pre).column.toNat = front.length := by
    rw [hfront]
    exact UInt32.toNat_ofNat_of_lt' (by omega)
  rw [hline, hcolumn, hcs, hsplit, List.append_assoc, Text.line?_count hbefore,
    List.takeWhile_append_of_pos (bne_of_not_mem hnot)]
  refine ⟨_, rfl, Text.not_mem_dropCarriageReturn ?_, fun hc hr => ?_, ?_⟩
  · rw [List.mem_append, not_or]
    exact ⟨hnot, fun hmem => by simpa using List.mem_takeWhile_imp hmem⟩
  · apply Text.getElem?_dropCarriageReturn _ hr
    rw [List.takeWhile_cons_of_pos (by simpa using hc), List.getElem?_append_right (Nat.le_refl _),
      Nat.sub_self]
    rfl
  · rintro rfl
    rw [List.takeWhile_cons_of_neg (by simp), List.append_nil]
    rcases Text.dropCarriageReturn_cases front with heq | heq
    · exact .inl (congrArg List.length heq).symm
    · refine .inr ⟨?_, before ++ Text.dropCarriageReturn front, ?_⟩
      · have hlength := congrArg List.length heq
        rwa [List.length_append, List.length_singleton] at hlength
      · rw [List.append_assoc, ← heq]

/-! ## What an error is about -/

/-- What is not blank does not begin with a blank. -/
theorem Lexeme.exists_head {text : List Char} {m : Meaning} (h : Lexeme text m)
    (hm : m ≠ .ok none) : ∃ c cs, text = c :: cs ∧ Text.isBlank c = false := by
  have hdigits {ds : List Char} (hne : ds ≠ []) (hds : ∀ d ∈ ds, d.isDigit) :
      ∃ d ds', ds = d :: ds' ∧ Text.isBlank d = false := by
    obtain ⟨d, ds, rfl⟩ := List.exists_cons_of_ne_nil hne
    exact ⟨d, ds, rfl, Text.isBlank_eq_false_of_isDigit (hds d List.mem_cons_self)⟩
  have hne := h.ne_nil
  cases h with
  | blanks => exact absurd rfl hm
  | lineEnd => exact ⟨_, _, rfl, rfl⟩
  | mark hmem =>
    have hmarks : ∀ mark ∈ marks, Text.isBlank mark.1 = false := by decide
    exact ⟨_, _, rfl, hmarks _ hmem⟩
  | arrow => exact ⟨_, _, rfl, rfl⟩
  | quoted => exact ⟨_, _, rfl, rfl⟩
  | integer _ hds => exact hdigits hne hds
  | tooLarge hds => exact hdigits hne hds
  | floating hwhole hds =>
    obtain ⟨d, ds, rfl, hd⟩ := hdigits hwhole hds
    exact ⟨d, _, rfl, hd⟩
  | keyword hmem =>
    obtain ⟨c, cs, hword, hc, -⟩ := Element.keyword_letters hmem
    exact ⟨c, cs, hword, Text.isBlank_eq_false_of_isLetter hc⟩
  | name hc => exact ⟨_, _, rfl, Text.isBlank_eq_false_of_isLetter hc⟩

theorem Yields.exists_of_getElem? {before : List Char} {texts : List (List Char)}
    {ts : List Token} (h : Yields before texts ts) {k : Nat} {t : Token} (hk : ts[k]? = some t) :
    ∃ front text back, texts = front ++ text :: back ∧ Yields before front (ts.take k) ∧
      Lexeme text (.ok (some (t.kind, t.payload))) ∧
      t.position = .after (before ++ front.flatten) := by
  induction h generalizing k with
  | nil => cases hk
  | @blank before text texts ts hlexeme _ ih =>
    obtain ⟨front, text', back, rfl, hfront, htext', hposition⟩ := ih hk
    refine ⟨text :: front, text', back, rfl, .blank hlexeme hfront, htext', ?_⟩
    rw [hposition, List.flatten_cons, List.append_assoc]
  | @token before text texts ts kind payload hlexeme _ ih =>
    cases k with
    | zero =>
      cases hk
      refine ⟨[], text, texts, rfl, .nil, hlexeme, ?_⟩
      rw [List.flatten_nil, List.append_nil]
    | succ k =>
      obtain ⟨front, text', back, rfl, hfront, htext', hposition⟩ := ih hk
      refine ⟨text :: front, text', back, rfl, .token hlexeme hfront, htext', ?_⟩
      rw [hposition, List.flatten_cons, List.append_assoc]

/-- What the error is about begins after so many characters of the source: what tokenizing refused
there, or the token that reading the program complained about, which is the last token if there were
too few. -/
inductive Error.IsAbout (source : String) (e : Error) : Nat → Prop
  | refused {texts : List (List Char)} {left : List Char} : tokenize source = .error e →
      Munches source.toList texts left → Refused left e.cause →
      IsAbout source e texts.flatten.length
  | token {ts : List Token} {k : Nat} {t : Token} {m : String} {front back : List (List Char)}
      {text : List Char} : tokenize source = .ok ts → e ∈ (Program.ofTokens ts).errors →
      ts[k]? = some t →
      (e.cause = .unexpectedToken t.lexeme m ∨ e.cause = .unexpectedEnd m ∧ k + 1 = ts.length) →
      Munches source.toList (front ++ text :: back) [] → Yields [] front (ts.take k) →
      Lexeme text (.ok (some (t.kind, t.payload))) → IsAbout source e front.flatten.length

/-- An error is about something that begins with a character other than a blank, and stands
there. -/
theorem Error.exists_isAbout {source : String} {e : Error}
    (he : tokenize source = .error e ∨
      ∃ ts, tokenize source = .ok ts ∧ e ∈ (Program.ofTokens ts).errors) :
    ∃ pre c post, source.toList = pre ++ c :: post ∧ Text.isBlank c = false ∧
      e.position = .after pre ∧ e.IsAbout source pre.length := by
  rcases he with herror | ⟨ts, hts, he⟩
  · obtain ⟨texts, left, hmunches, hrefused, hposition⟩ := exists_refused_of_tokenize herror
    have habout := IsAbout.refused herror hmunches hrefused
    have hflatten := hmunches.append_flatten
    generalize e.cause = cause at hrefused
    cases hrefused with
    | @noLexeme c cs hnone =>
      refine ⟨texts.flatten, c, cs, hflatten.symm, ?_, hposition, habout⟩
      rw [Bool.eq_false_iff]
      intro hblank
      have hblanks : ∀ b ∈ [c], b = ' ' ∨ b = '\t' ∨ b = '\r' := by
        rw [List.forall_mem_singleton]
        exact Text.isBlank_iff.mp hblank
      exact hnone [c] _ (.blanks (List.cons_ne_nil c []) hblanks) (List.prefix_append [c] cs)
    | lexeme hlongest hlexeme =>
      obtain ⟨c, cs, rfl, hblank⟩ := hlexeme.exists_head (by simp)
      obtain ⟨rest, rfl⟩ := hlongest.starts
      exact ⟨texts.flatten, c, cs ++ rest, hflatten.symm, hblank, hposition, habout⟩
  · obtain ⟨texts, hmunches, hyields⟩ := exists_munches_of_tokenize hts
    obtain ⟨k, t, m, ht, hposition, hcause⟩ := Program.exists_names he
    obtain ⟨front, text, back, rfl, hfront, hlexeme, hplace⟩ := hyields.exists_of_getElem? ht
    have hflatten := hmunches.append_flatten
    obtain ⟨c, cs, rfl, hblank⟩ := hlexeme.exists_head (by simp)
    refine ⟨front.flatten, c, cs ++ back.flatten, ?_, hblank, hposition.trans hplace,
      .token hts he ht hcause hmunches hfront hlexeme⟩
    rw [← hflatten, List.append_nil, List.flatten_append, List.flatten_cons, List.cons_append]

/-! ## Diagnostics -/

namespace Text

theorem isIndent_iff {c : Char} : isIndent c ↔ c = ' ' ∨ c = '\t' := by
  simp [isIndent]

/-- A line is its indentation and what is shown of it. -/
theorem exists_indent (l : List Char) : ∃ indent rest, l = indent ++ rest ∧
    (∀ c ∈ indent, isIndent c) ∧ ∀ c ∈ rest.head?, ¬ isIndent c := by
  refine ⟨l.takeWhile isIndent, l.dropWhile isIndent, List.takeWhile_append_dropWhile.symm,
    fun c hc => List.mem_takeWhile_imp hc, fun c hc => ?_⟩
  have hhead := List.head?_dropWhile_not isIndent l
  rw [Option.mem_def.mp hc] at hhead
  exact Bool.eq_false_iff.mp hhead

theorem length_indent_le {indent rest : List Char} (hindent : ∀ c ∈ indent, isIndent c) {i : Nat}
    {c : Char} (hi : (indent ++ rest)[i]? = some c) (hc : ¬ isIndent c) : indent.length ≤ i := by
  by_contra hlt
  rw [List.getElem?_append_left (Nat.lt_of_not_le hlt)] at hi
  exact hc (hindent c (List.mem_of_getElem? hi))

/-- A text is trimmed of all the white space at its end, and of nothing else. -/
theorem exists_trimEnd (cs : List Char) : ∃ trailing, trimEnd cs ++ trailing = cs ∧
    (∀ c ∈ trailing, isWhiteSpace c) ∧ ∀ c ∈ (trimEnd cs).getLast?, ¬ isWhiteSpace c := by
  refine ⟨(cs.reverse.takeWhile isWhiteSpace).reverse, ?_, fun c hc => ?_, fun c hc => ?_⟩
  · rw [trimEnd, ← List.reverse_append, List.takeWhile_append_dropWhile, List.reverse_reverse]
  · exact List.mem_takeWhile_imp (List.mem_reverse.mp hc)
  · rw [trimEnd, List.getLast?_reverse] at hc
    have hhead := List.head?_dropWhile_not isWhiteSpace cs.reverse
    rw [Option.mem_def.mp hc] at hhead
    exact Bool.eq_false_iff.mp hhead

end Text

theorem not_mem_repr (n : Nat) : '\n' ∉ (Nat.repr n).toList := by
  intro h
  rw [Nat.repr, String.toList_ofList] at h
  exact absurd (Nat.isDigit_of_mem_toDigits (by decide) (by decide) h) (by decide)

/-- A diagnostic ends in the line of the error with its number, and below it, under the same bar, an
arrow as long as the column is from the indentation. -/
theorem Error.exists_render (e : Error) (source file : String) {indent rest : List Char}
    (hline : Text.line? source.toList e.position.line.toNat = some (indent ++ rest))
    (hindent : ∀ c ∈ indent, Text.isIndent c) (hrest : ∀ c ∈ rest.head?, ¬ Text.isIndent c)
    (hnot : '\n' ∉ rest) :
    ∃ front first second : String,
      e.render source file = front ++ "\n" ++ first ++ "\n" ++ second ∧
      '\n' ∉ first.toList ∧ '\n' ∉ second.toList ∧
      first = Nat.repr (e.position.line.toNat + 1) ++ " | " ++ String.ofList (Text.trimEnd rest) ∧
      second = String.ofList (List.replicate
          ((Nat.repr (e.position.line.toNat + 1)).length + 1) ' ') ++ "| " ++
        String.ofList (List.replicate (e.position.column.toNat - indent.length) '-') ++ "^" := by
  have htake : (indent ++ rest).takeWhile Text.isIndent = indent := by
    have hnone : rest.takeWhile Text.isIndent = [] := by
      cases rest with
      | nil => rfl
      | cons c rest => exact List.takeWhile_cons_of_neg (hrest c rfl)
    rw [List.takeWhile_append_of_pos hindent, hnone, List.append_nil]
  refine ⟨e.heading ++ "\n" ++ "-> " ++ file ++ "\n" ++
    bar (Nat.repr (e.position.line.toNat + 1)).length, _, _, ?_, ?_, ?_, rfl, rfl⟩
  · have hbar : "| " = "|" ++ " " := rfl
    rw [render, hline, Option.getD_some, htake, List.drop_left, hbar]
    simp only [bar, String.append_assoc]
  · obtain ⟨trailing, htrim, -⟩ := Text.exists_trimEnd rest
    have hshown : '\n' ∉ Text.trimEnd rest := by
      rw [← htrim, List.mem_append, not_or] at hnot
      exact hnot.1
    simp only [String.toList_append, String.toList_ofList, List.mem_append, not_or]
    exact ⟨⟨not_mem_repr _, by decide⟩, hshown⟩
  · simp

/-- The caret of a diagnostic is under the first character of what the error is about, or just after
the line when that is a line end, and after a carriage return that the line does not show. The
position of the error is the place of this character, in a line of the source and not within its
indentation, which is left out of the line and of the arrow below. -/
theorem Error.render_caret {source : String} {e : Error} (file : String)
    (hlength : source.length < UInt32.size)
    (he : tokenize source = .error e ∨
      ∃ ts, tokenize source = .ok ts ∧ e ∈ (Program.ofTokens ts).errors) :
    ∃ indent shown trailing : List Char,
      lineAt? source e.position = some (String.ofList (indent ++ (shown ++ trailing))) ∧
      (∀ c ∈ indent, c = ' ' ∨ c = '\t') ∧
      (∀ c ∈ (shown ++ trailing).head?, c ≠ ' ' ∧ c ≠ '\t') ∧
      (∀ c ∈ trailing, Text.isWhiteSpace c) ∧ (∀ c ∈ shown.getLast?, ¬ Text.isWhiteSpace c) ∧
      indent.length ≤ e.position.column.toNat ∧
      (∃ front first second : String,
        e.render source file = front ++ "\n" ++ first ++ "\n" ++ second ∧
        '\n' ∉ first.toList ∧ '\n' ∉ second.toList ∧
        first = Nat.repr (e.position.line.toNat + 1) ++ " | " ++ String.ofList shown ∧
        second = String.ofList (List.replicate
            ((Nat.repr (e.position.line.toNat + 1)).length + 1) ' ') ++ "| " ++
          String.ofList (List.replicate (e.position.column.toNat - indent.length) '-') ++ "^") ∧
      ∃ pre c post, source.toList = pre ++ c :: post ∧ e.position = .after pre ∧
        e.IsAbout source pre.length ∧
        (c ≠ '\n' → (shown ++ trailing)[e.position.column.toNat - indent.length]? = some c) ∧
        (c = '\n' → e.position.column.toNat = (indent ++ (shown ++ trailing)).length ∨
          e.position.column.toNat = (indent ++ (shown ++ trailing)).length + 1 ∧
            ∃ init, pre = init ++ ['\r']) := by
  obtain ⟨pre, c, post, hsource, hblank, hposition, habout⟩ := Error.exists_isAbout he
  have hlist : source.toList.length < UInt32.size := by rwa [String.length_toList]
  obtain ⟨l, hline, hnot, hchar, hend⟩ := exists_line hsource hlist
  rw [← hposition] at hline hchar hend
  obtain ⟨indent, rest, rfl, hindent, hhead⟩ := Text.exists_indent l
  obtain ⟨trailing, htrim, hwhite, hlast⟩ := Text.exists_trimEnd rest
  -- What the error is about does not begin with a blank, so it is past the indentation.
  obtain ⟨hspace, htab, hreturn⟩ : c ≠ ' ' ∧ c ≠ '\t' ∧ c ≠ '\r' := by
    rw [Bool.eq_false_iff, Ne, Text.isBlank_iff, not_or, not_or] at hblank
    exact hblank
  have hpast : ¬ Text.isIndent c := by
    rw [Text.isIndent_iff]
    exact not_or.mpr ⟨hspace, htab⟩
  have hle : indent.length ≤ e.position.column.toNat := by
    by_cases hc : c = '\n'
    · have hcolumn := hend hc
      rw [List.length_append] at hcolumn
      omega
    · exact Text.length_indent_le hindent (hchar hc hreturn) hpast
  have hrest : '\n' ∉ rest := fun hmem => hnot (List.mem_append_right indent hmem)
  refine ⟨indent, Text.trimEnd rest, trailing, ?_, fun b hb => Text.isIndent_iff.mp (hindent b hb),
    ?_, hwhite, hlast, hle, e.exists_render source file hline hindent hhead hrest,
    pre, c, post, hsource, hposition, habout, fun hc => ?_, ?_⟩
  · rw [lineAt?, hline, htrim]
    rfl
  · intro b hb
    rw [htrim] at hb
    exact not_or.mp (mt Text.isIndent_iff.mpr (hhead b hb))
  · have hget := hchar hc hreturn
    rwa [List.getElem?_append_right hle, ← htrim] at hget
  · rwa [htrim]

/-- A character that starts no token, after two spaces. -/
theorem Error.render_caret_unexpected :
    let source := "  ?"
    let e : Error := ⟨.unexpectedCharacter '?', ⟨0, 2⟩⟩
    source.length < UInt32.size ∧ tokenize source = .error e ∧
    ∃ indent shown trailing : List Char,
      lineAt? source e.position = some (String.ofList (indent ++ (shown ++ trailing))) ∧
      (∀ c ∈ indent, c = ' ' ∨ c = '\t') ∧
      (∀ c ∈ (shown ++ trailing).head?, c ≠ ' ' ∧ c ≠ '\t') ∧
      (∀ c ∈ trailing, Text.isWhiteSpace c) ∧ (∀ c ∈ shown.getLast?, ¬ Text.isWhiteSpace c) ∧
      indent.length ≤ e.position.column.toNat ∧
      (∃ front first second : String,
        e.render source "main" = front ++ "\n" ++ first ++ "\n" ++ second ∧
        '\n' ∉ first.toList ∧ '\n' ∉ second.toList ∧
        first = Nat.repr (e.position.line.toNat + 1) ++ " | " ++ String.ofList shown ∧
        second = String.ofList (List.replicate
            ((Nat.repr (e.position.line.toNat + 1)).length + 1) ' ') ++ "| " ++
          String.ofList (List.replicate (e.position.column.toNat - indent.length) '-') ++ "^") ∧
      ∃ pre c post, source.toList = pre ++ c :: post ∧ e.position = .after pre ∧
        e.IsAbout source pre.length ∧
        (c ≠ '\n' → (shown ++ trailing)[e.position.column.toNat - indent.length]? = some c) ∧
        (c = '\n' → e.position.column.toNat = (indent ++ (shown ++ trailing)).length ∨
          e.position.column.toNat = (indent ++ (shown ++ trailing)).length + 1 ∧
            ∃ init, pre = init ++ ['\r']) := by
  have herror : tokenize "  ?" = .error ⟨.unexpectedCharacter '?', ⟨0, 2⟩⟩ := by
    have hpassed : ((Scanner.ofString "  ?").pass [' ', ' ']).tokens =
        .error ⟨.unexpectedCharacter '?', ⟨0, 2⟩⟩ :=
      Scanner.tokens_of_none (c := '?') rfl rfl
    rw [tokenize, Scanner.tokens_of_some (e := ⟨.blank, [' ', ' ']⟩) rfl]
    exact congrArg (Except.map _) hpassed
  exact ⟨by decide, herror, Error.render_caret "main" (by decide) (.inl herror)⟩

end Scriptlet
