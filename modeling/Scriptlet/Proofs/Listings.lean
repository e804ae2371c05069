import Scriptlet.Proofs.Carets
import Scriptlet.Proofs.PrintedWords

/-!
# Listings of tokens

A listing writes quoted texts out as they are, with the line ends, parentheses and labels in them.
Yet the tokens of a source can be read back from its listing, up to their positions
(`listing_eq_iff`), and the lines of a listing are those of the source (`listing_lines`).
-/

namespace Scriptlet

open Text

/-! ## Labels -/

namespace Kind

/-- A label says of which kind a token is. -/
theorem label_injective : Function.Injective label := by
  have hnodup : (all.map label).Nodup := by decide
  intro k k' h
  exact List.inj_on_of_nodup_map hnodup (mem_all k) (mem_all k') h

theorem inWord_of_mem_label {k : Kind} : ∀ c ∈ k.label.toList, inWord c := by
  have hlabels : ∀ k ∈ all, k.label.toList.all inWord := by decide
  exact List.all_eq_true.mp (hlabels k (mem_all k))

theorem isWord_label (k : Kind) : IsWord k.label.toList := by
  have hlabels : ∀ k ∈ all, k.label.toList ≠ [] := by decide
  exact .plain (hlabels k (mem_all k)) inWord_of_mem_label

end Kind

namespace Token

variable {t u : Token} {ts us : List Token} {r s : List Char}

/-! ## The listing of one token -/

/-- What the listing of a token writes before its text. -/
def opening (t : Token) : String :=
  if t.kind = .lineEnd ∨ t.payload = .none then "" else t.kind.label ++ "("

/-- The text of a token in a listing: the break of a line, the name of a kind whose tokens all look
the same, or the lexeme. -/
def shown (t : Token) : String :=
  if t.kind = .lineEnd then "\n" else if t.payload = .none then t.kind.label else t.lexeme

/-- What the listing of a token writes after its text. -/
def closing (t : Token) : String :=
  if t.kind = .lineEnd then "" else if t.payload = .none then " " else ") "

theorem listed_eq (t : Token) : t.listed = t.opening ++ t.shown ++ t.closing := by
  rw [listed, opening, shown, closing]
  by_cases hline : t.kind = .lineEnd
  · rw [if_pos hline, if_pos (.inl hline), if_pos hline, if_pos hline]
    rfl
  rw [if_neg hline, if_neg hline, if_neg hline, toString]
  by_cases hnone : t.payload = .none
  · rw [if_pos (.inr hnone), if_pos hnone, if_pos hnone, hnone, String.empty_append]
  · have hopening : ¬ (t.kind = .lineEnd ∨ t.payload = .none) := not_or_intro hline hnone
    rw [if_neg hopening, if_neg hnone, if_neg hnone]
    split
    · rename_i hpayload
      exact absurd hpayload hnone
    · simp only [String.append_assoc]
      rfl

theorem listing_cons (t : Token) (ts : List Token) : listing (t :: ts) = t.listed ++ listing ts :=
  String.join_cons

theorem listing_append (ts us : List Token) : listing (ts ++ us) = listing ts ++ listing us := by
  rw [listing, List.map_append, String.join_append]
  rfl

/-! ## Reading a listing -/

/-- What the listing of a token that ends no line writes after the label. -/
def afterLabel (t : Token) : List Char :=
  if t.payload = .none then [' '] else '(' :: (t.lexeme.toList ++ [')', ' '])

theorem toList_listed (hline : t.kind ≠ .lineEnd) :
    t.listed.toList = t.kind.label.toList ++ t.afterLabel := by
  rw [listed_eq, opening, shown, closing, afterLabel, if_neg hline, if_neg hline]
  by_cases hnone : t.payload = .none
  · rw [if_pos (.inr hnone), if_pos hnone, if_pos hnone, if_pos hnone]
    simp
  · rw [if_neg (not_or_intro hline hnone), if_neg hnone, if_neg hnone, if_neg hnone]
    simp

theorem endsWord_afterLabel (t : Token) (r : List Char) : EndsWord (t.afterLabel ++ r) := by
  rw [afterLabel]
  split
  · exact endsWord_cons rfl
  · exact endsWord_cons rfl

theorem listed_ne_nil (t : Token) : t.listed.toList ≠ [] := by
  rw [listed]
  split
  · decide
  · simp

/-- A break of the line is not taken for a token on the line. -/
theorem listed_append_ne_lineFeed (hline : t.kind ≠ .lineEnd) : t.listed.toList ++ r ≠ '\n' :: s := by
  rw [toList_listed hline, List.append_assoc]
  exact t.kind.isWord_label.append_ne_cons (by decide) rfl

/-- From a text that begins with the listing of a token, the token can be told but for its position,
and with it what comes after. -/
theorem listed_append_inj (ht : t.Writable) (hu : u.Writable)
    (h : t.listed.toList ++ r = u.listed.toList ++ s) : t.content = u.content ∧ r = s := by
  by_cases hline : t.kind = .lineEnd
  · by_cases hline' : u.kind = .lineEnd
    · have hkind : t.kind = u.kind := hline.trans hline'.symm
      have hnone : t.payload = .none := ht.payload_eq_none_iff.mpr (by rw [hline]; decide)
      have hnone' : u.payload = .none := (ht.payload_eq_none_congr hu hkind).mp hnone
      rw [listed, if_pos hline, listed, if_pos hline'] at h
      exact ⟨Prod.ext hkind (hnone.trans hnone'.symm), (List.cons.inj h).2⟩
    · rw [listed, if_pos hline] at h
      exact absurd h.symm (listed_append_ne_lineFeed hline')
  by_cases hline' : u.kind = .lineEnd
  · rw [listed.eq_def u, if_pos hline'] at h
    exact absurd h (listed_append_ne_lineFeed hline)
  -- Both have labels, which end where they do. So the tokens are of one kind, and what comes after
  -- the labels is the same.
  rw [toList_listed hline, toList_listed hline', List.append_assoc, List.append_assoc] at h
  obtain ⟨hlabel, hafter⟩ := t.kind.isWord_label.append_inj u.kind.isWord_label
    (endsWord_afterLabel t r) (endsWord_afterLabel u s) h
  have hkind : t.kind = u.kind := Kind.label_injective (String.toList_inj.mp hlabel)
  have hiff := ht.payload_eq_none_congr hu hkind
  rw [afterLabel, afterLabel] at hafter
  by_cases hnone : t.payload = .none
  · have hnone' := hiff.mp hnone
    rw [if_pos hnone, if_pos hnone'] at hafter
    exact ⟨Prod.ext hkind (hnone.trans hnone'.symm), (List.cons.inj hafter).2⟩
  · have hnone' := mt hiff.mpr hnone
    rw [if_neg hnone, if_neg hnone', List.cons_append, List.cons_append, List.append_assoc,
      List.append_assoc] at hafter
    obtain ⟨hlexeme, hrest⟩ :=
      (ht.isWord_lexeme_of_payload hnone).append_inj (hu.isWord_lexeme_of_payload hnone')
        (endsWord_cons rfl) (endsWord_cons rfl) (List.cons.inj hafter).2
    have hcontent := ht.content_eq hu hline hline' (String.toList_inj.mp hlexeme)
    exact ⟨hcontent, (List.cons.inj (List.cons.inj hrest).2).2⟩

/-- From a listing the tokens can be told but for their positions. -/
theorem map_content_eq_of_listing_eq (ht : ∀ t ∈ ts, t.Writable) (hu : ∀ u ∈ us, u.Writable)
    (h : (listing ts).toList = (listing us).toList) : ts.map content = us.map content := by
  induction ts generalizing us with
  | nil =>
    cases us with
    | nil => rfl
    | cons u us =>
      rw [listing_cons, String.toList_append] at h
      exact absurd (List.append_eq_nil_iff.mp h.symm).1 u.listed_ne_nil
  | cons t ts ih =>
    cases us with
    | nil =>
      rw [listing_cons, String.toList_append] at h
      exact absurd (List.append_eq_nil_iff.mp h).1 t.listed_ne_nil
    | cons u us =>
      obtain ⟨ht, hts⟩ := List.forall_mem_cons.mp ht
      obtain ⟨hu, hus⟩ := List.forall_mem_cons.mp hu
      rw [listing_cons, listing_cons, String.toList_append, String.toList_append] at h
      obtain ⟨hcontent, hrest⟩ := listed_append_inj ht hu h
      rw [List.map_cons, List.map_cons, hcontent, ih hts hus hrest]

/-- Where tokens stand does not show in a listing. -/
theorem listing_congr (h : ts.map content = us.map content) : listing ts = listing us := by
  -- The listing of a token is that of the same token at the start of a text.
  have hlisted (vs : List Token) : vs.map listed =
      (vs.map content).map fun c => listed ⟨c.1, c.2, .origin⟩ := by
    rw [List.map_map]
    rfl
  rw [listing, listing, hlisted, hlisted, h]

end Token

/-- A listing says all of the tokens but where they stand. Two sources without floating numbers have
the same listing if and only if they have as many tokens, and the same kinds and payloads in the
same order. -/
theorem listing_eq_iff {source source' : String} {ts us : List Token}
    (hts : tokenize source = .ok ts) (hus : tokenize source' = .ok us)
    (hno : ∀ t ∈ ts, t.kind ≠ .floating) (hno' : ∀ u ∈ us, u.kind ≠ .floating) :
    Token.listing ts = Token.listing us ↔ ts.map Token.content = us.map Token.content := by
  rcases exists_munches_of_tokenize hts with ⟨texts, -, hyields⟩
  rcases exists_munches_of_tokenize hus with ⟨texts', -, hyields'⟩
  constructor
  · intro h
    apply Token.map_content_eq_of_listing_eq
    · exact fun t ht => hyields.writable t ht (hno t ht)
    · exact fun u hu => hyields'.writable u hu (hno' u hu)
    · rw [h]
  · exact Token.listing_congr

/-- A text with a listing in it, at two distances from the name before it. -/
theorem listing_eq_iff_quoted :
    let ts : List Token := [⟨.identifier, .name "x", ⟨0, 0⟩⟩, ⟨.text, .text "a) \nLET", ⟨0, 1⟩⟩]
    let us : List Token := [⟨.identifier, .name "x", ⟨0, 0⟩⟩, ⟨.text, .text "a) \nLET", ⟨0, 2⟩⟩]
    tokenize "x\x22a) \nLET\x22" = .ok ts ∧ tokenize "x \x22a) \nLET\x22" = .ok us ∧
      (∀ t ∈ ts, t.kind ≠ .floating) ∧ (∀ u ∈ us, u.kind ≠ .floating) ∧
      (Token.listing ts = Token.listing us ↔ ts.map Token.content = us.map Token.content) := by
  intro ts us
  have hts : tokenize "x\x22a) \nLET\x22" = .ok ts := by decide +kernel
  have hus : tokenize "x \x22a) \nLET\x22" = .ok us := by decide +kernel
  have hno : ∀ t ∈ ts, t.kind ≠ .floating := by decide
  have hno' : ∀ u ∈ us, u.kind ≠ .floating := by decide
  exact ⟨hts, hus, hno, hno', listing_eq_iff hts hus hno hno'⟩

/-! ## Printed numbers -/

theorem inWord_of_mem_toDigits {n : Nat} : ∀ c ∈ Nat.toDigits 10 n, inWord c :=
  fun _ hc => inWord_of_isDigit (Nat.isDigit_of_mem_toDigits (by decide) (by decide) hc)

namespace NumberLayout

variable {digits : List Char}

theorem inWord_of_mem_significantDigits {d : Decimal} : ∀ c ∈ significantDigits d, inWord c := by
  intro c hc
  have hmem := (List.dropWhile_sublist _).mem (List.mem_reverse.mp hc)
  exact inWord_of_mem_toDigits c (List.mem_reverse.mp hmem)

theorem inWord_of_mem_inFull (h : ∀ c ∈ digits, inWord c) (exponent : Int) :
    ∀ c ∈ (literal.inFull digits exponent).toList, inWord c := by
  have hzeros (n : Nat) : ∀ c ∈ List.replicate n '0', inWord c := by
    intro c hc
    rw [List.eq_of_mem_replicate hc]
    rfl
  rw [inFull]
  split
  · simp only [String.toList_append, String.toList_ofList, List.forall_mem_append]
    exact ⟨List.all_eq_true.mp rfl, hzeros _, h⟩
  split
  · simp only [String.toList_append, String.toList_ofList, List.forall_mem_append]
    exact ⟨⟨h, hzeros _⟩, List.all_eq_true.mp rfl⟩
  · simp only [String.toList_append, String.toList_ofList, List.forall_mem_append]
    exact ⟨⟨fun c hc => h c (List.mem_of_mem_take hc), List.all_eq_true.mp rfl⟩,
      fun c hc => h c (List.mem_of_mem_drop hc)⟩

theorem inWord_of_mem_scientific (h : ∀ c ∈ digits, inWord c) (exponent : Int) :
    ∀ c ∈ (literal.scientific digits exponent).toList, inWord c := by
  have htail : ∀ c ∈ (if digits.length ≤ 1 then "" else
      "." ++ String.ofList (digits.drop 1)).toList, inWord c := by
    split
    · exact List.all_eq_true.mp rfl
    · simp only [String.toList_append, String.toList_ofList, List.forall_mem_append]
      exact ⟨List.all_eq_true.mp rfl, fun c hc => h c (List.mem_of_mem_drop hc)⟩
  have hsign : ∀ c ∈ (if exponent < 0 then "-" else "").toList, inWord c := by
    split
    · exact List.all_eq_true.mp rfl
    · exact List.all_eq_true.mp rfl
  have hrepr : ∀ c ∈ (Nat.repr exponent.natAbs).toList, inWord c := by
    rw [Nat.toList_repr]
    exact inWord_of_mem_toDigits
  simp only [scientific, String.toList_append, String.toList_ofList, List.forall_mem_append]
  exact ⟨⟨⟨⟨fun c hc => h c (List.mem_of_mem_take hc), htail⟩, List.all_eq_true.mp rfl⟩, hsign⟩,
    hrepr⟩

theorem inWord_of_mem_magnitude (x : Binary32) :
    ∀ c ∈ (literal.magnitude x).toList, inWord c := by
  rw [magnitude]
  split
  · exact List.all_eq_true.mp rfl
  split
  · exact List.all_eq_true.mp rfl
  rw [decimal]
  split
  · exact inWord_of_mem_inFull inWord_of_mem_significantDigits _
  · exact inWord_of_mem_scientific inWord_of_mem_significantDigits _

end NumberLayout

/-- No number is printed with a character that is no part of a word. -/
theorem Binary32.inWord_of_mem_toString (x : Binary32) : ∀ c ∈ x.toString.toList, inWord c := by
  rw [toString, NumberLayout.print]
  split
  · exact List.all_eq_true.mp rfl
  split
  · rw [String.toList_append]
    exact List.forall_mem_append.mpr
      ⟨List.all_eq_true.mp rfl, NumberLayout.inWord_of_mem_magnitude x⟩
  · exact NumberLayout.inWord_of_mem_magnitude x

/-! ## Lines of a listing -/

theorem count_lineFeed_of_inWord {cs : List Char} (h : ∀ c ∈ cs, inWord c) :
    cs.count '\n' = 0 :=
  List.count_eq_zero.mpr fun hmem => absurd (h _ hmem) (by decide)

namespace Token

theorem count_opening (t : Token) : t.opening.toList.count '\n' = 0 := by
  rw [opening]
  split
  · rfl
  · rw [String.toList_append, List.count_append,
      count_lineFeed_of_inWord Kind.inWord_of_mem_label]
    rfl

/-- Only in its text does the listing of a token break a line. -/
theorem count_listed (t : Token) : t.listed.toList.count '\n' = t.shown.toList.count '\n' := by
  have hclosing : t.closing.toList.count '\n' = 0 := by
    rw [closing]
    split
    · rfl
    split
    · rfl
    · rfl
  rw [listed_eq, String.toList_append, String.toList_append, List.count_append, List.count_append,
    t.count_opening, hclosing]
  omega

end Token

/-- The text of a token breaks as many lines in a listing as in the source. -/
theorem Lexeme.count_shown {text : List Char} {kind : Kind} {payload : Payload}
    (h : Lexeme text (.ok (some (kind, payload)))) (p : Position) :
    (Token.mk kind payload p).shown.toList.count '\n' = text.count '\n' := by
  have hlabel {k : Kind} (hk : k ≠ .lineEnd) :
      (Token.mk k .none p).shown.toList.count '\n' = 0 := by
    rw [Token.shown, if_neg hk, if_pos rfl]
    exact count_lineFeed_of_inWord Kind.inWord_of_mem_label
  have hlexeme := h
  cases h with
  | lineEnd =>
    rw [Token.shown, if_pos rfl]
    rfl
  | mark hmem =>
    have hmarks : ∀ mark ∈ marks, mark.2 ≠ .lineEnd ∧ [mark.1].count '\n' = 0 := by decide
    have hmark := hmarks _ hmem
    rw [hlabel hmark.1, hmark.2]
  | arrow => exact hlabel (by decide)
  | @quoted cs _ =>
    show (Token.quoted (String.ofList cs)).toList.count '\n' = _
    rw [Token.toList_quoted, String.toList_ofList]
  | @integer ds n _ _ _ hn =>
    have hprinted := lexeme_of_integer (n := n) (by omega)
    show (toString n.toInt).toList.count '\n' = _
    rw [count_lineFeed_of_inWord (hprinted.inWord (by decide)),
      count_lineFeed_of_inWord (hlexeme.inWord (by decide))]
  | @floating _ _ x _ _ _ _ =>
    show x.toString.toList.count '\n' = _
    rw [count_lineFeed_of_inWord x.inWord_of_mem_toString,
      count_lineFeed_of_inWord (hlexeme.inWord (by decide))]
  | keyword hmem =>
    have hkeywords : ∀ keyword ∈ keywords,
        keyword.2 ≠ .lineEnd ∧ keyword.1.toList.count '\n' = 0 := by decide
    have hkeyword := hkeywords _ hmem
    rw [hlabel hkeyword.1, hkeyword.2]
  | @name c cs _ _ _ =>
    show (String.ofList (c :: cs)).toList.count '\n' = _
    rw [String.toList_ofList]

/-- Blanks break no line. -/
theorem Lexeme.count_blanks {text : List Char} (h : Lexeme text (.ok none)) :
    text.count '\n' = 0 := by
  cases h with
  | blanks _ hblank =>
    apply List.count_eq_zero.mpr
    intro hmem
    rcases hblank _ hmem with h | h | h <;> cases h

theorem Yields.count_listing {before : List Char} {texts : List (List Char)} {ts : List Token}
    (h : Yields before texts ts) :
    (Token.listing ts).toList.count '\n' = texts.flatten.count '\n' := by
  induction h with
  | nil => rfl
  | blank hlexeme _ ih =>
    rw [List.flatten_cons, List.count_append, hlexeme.count_blanks, ih, Nat.zero_add]
  | token hlexeme _ ih =>
    rw [Token.listing_cons, String.toList_append, List.count_append, Token.count_listed,
      hlexeme.count_shown, ih, List.flatten_cons, List.count_append]

/-- A listing keeps the lines of the source. It breaks as many lines as the source does, and the text
of each token, or the break that it is, comes after as many breaks as its position says. The label
before the text is on the same line. -/
theorem listing_lines {source : String} {ts : List Token} (hlength : source.length < UInt32.size)
    (h : tokenize source = .ok ts) :
    (Token.listing ts).toList.count '\n' = source.toList.count '\n' ∧
      ∀ front t back, ts = front ++ t :: back →
        (∃ after, Token.listing ts = Token.listing front ++ t.opening ++ t.shown ++ after) ∧
          (Token.listing front).toList.count '\n' = t.position.line.toNat ∧
          (Token.listing front ++ t.opening).toList.count '\n' = t.position.line.toNat := by
  rcases exists_munches_of_tokenize h with ⟨texts, hmunches, hyields⟩
  have hsource : texts.flatten = source.toList := by
    rw [← hmunches.append_flatten, List.append_nil]
  constructor
  · rw [hyields.count_listing, hsource]
  intro front t back hts
  have hline : (Token.listing front).toList.count '\n' = t.position.line.toNat := by
    have hfront : ts.take front.length = front := by rw [hts, List.take_left]
    have ht : ts[front.length]? = some t := by simp [hts]
    rcases hyields.exists_of_getElem? ht with ⟨before, text, after, htexts, hbefore, -, hposition⟩
    have hcount : before.flatten.count '\n' ≤ source.length := by
      rw [← String.length_toList, ← hsource, htexts, List.flatten_append, List.length_append]
      exact Nat.le_add_right_of_le List.count_le_length
    rw [hfront] at hbefore
    rw [hbefore.count_listing, hposition]
    exact (UInt32.toNat_ofNat_of_lt' (Nat.lt_of_le_of_lt hcount hlength)).symm
  refine ⟨⟨t.closing ++ Token.listing back, ?_⟩, hline, ?_⟩
  · rw [hts, Token.listing_append, Token.listing_cons, Token.listed_eq]
    simp only [String.append_assoc]
  · rw [String.toList_append, List.count_append, t.count_opening, hline, Nat.add_zero]

/-- A quoted text that breaks a line, a line end after it, and a name on the third line. -/
theorem listing_lines_quoted :
    let source := "\x22a\n\x22\nx"
    let ts : List Token := [⟨.text, .text "a\n", ⟨0, 0⟩⟩, ⟨.lineEnd, .none, ⟨1, 1⟩⟩,
      ⟨.identifier, .name "x", ⟨2, 0⟩⟩]
    source.length < UInt32.size ∧ tokenize source = .ok ts ∧
      (Token.listing ts).toList.count '\n' = source.toList.count '\n' ∧
      ∀ front t back, ts = front ++ t :: back →
        (∃ after, Token.listing ts = Token.listing front ++ t.opening ++ t.shown ++ after) ∧
          (Token.listing front).toList.count '\n' = t.position.line.toNat ∧
          (Token.listing front ++ t.opening).toList.count '\n' = t.position.line.toNat := by
  intro source ts
  have hlength : source.length < UInt32.size := by decide
  have hts : tokenize source = .ok ts := by decide +kernel
  exact ⟨hlength, hts, listing_lines hlength hts⟩

end Scriptlet
