import Scriptlet.Proofs.Separators

/-!
# Tokens written out

The text that a token stands for is a lexeme that stands for the token, if the token can come from a
source at all and carries no floating number (`Token.Writable`). So tokens written out with a space
after each of them are found again (`tokenize_sourceOf`).
-/

namespace Scriptlet

open Text

/-! ## Writing tokens out -/

/-- The kinds that have a symbol which no source spells. -/
def Kind.unspelled : List Kind := [.greaterEqual, .less, .lessEqual]

namespace Token

/-- The text that the token has in a source: a line end is written as such. -/
def sourceText (t : Token) : String := if t.kind = .lineEnd then "\n" else t.lexeme

/-- A source of the tokens, with a space after each of them. -/
def sourceOf (ts : List Token) : String := String.join (ts.map fun t => t.sourceText ++ " ")

theorem toList_quoted (s : String) : (quoted s).toList = '\x22' :: (s.toList ++ ['\x22']) := by
  rw [quoted, String.toList_append, String.toList_append]
  rfl

/-- What the token is, apart from its position. -/
def content (t : Token) : Kind × Payload := (t.kind, t.payload)

/-- The token can be read back from its text. It is of a kind with a symbol that sources spell; or a
name that is no keyword; or an integer that is not negative; or a text without a quote inside. -/
inductive Writable : Token → Prop
  | symbol {kind : Kind} {p : Position} : kind.symbol? ≠ none → kind ∉ Kind.unspelled →
      Writable ⟨kind, .none, p⟩
  | name {c : Char} {cs : List Char} {p : Position} : isLetter c →
      (∀ c ∈ cs, isLetter c ∨ isDecimalDigit c) →
      (∀ kind, (String.ofList (c :: cs), kind) ∉ keywords) →
      Writable ⟨.identifier, .name (String.ofList (c :: cs)), p⟩
  | integer {n : Int32} {p : Position} : 0 ≤ n.toInt → Writable ⟨.integer, .integer n, p⟩
  | text {s : String} {p : Position} : '\x22' ∉ s.toList → Writable ⟨.text, .text s, p⟩

end Token

/-! ## Tokens and lexemes -/

/-- A symbol is a mark, the arrow or a keyword, unless no source spells it as it stands. -/
theorem symbol?_cases {kind : Kind} {symbol : String} (h : kind.symbol? = some symbol)
    (hkind : kind ∉ Kind.unspelled) (hend : kind ≠ .lineEnd) :
    (symbol.toList, kind) ∈ marks.map (fun (c, k) => ([c], k)) ∨
      (symbol.toList, kind) = (['-', '>'], .arrow) ∨ (symbol, kind) ∈ keywords := by
  cases kind <;> cases h <;> first | decide | exact absurd (by decide) hkind | exact absurd rfl hend

theorem lexeme_of_symbol? {kind : Kind} {symbol : String} (h : kind.symbol? = some symbol)
    (hkind : kind ∉ Kind.unspelled) (hend : kind ≠ .lineEnd) :
    Lexeme symbol.toList (.ok (some (kind, .none))) := by
  rcases symbol?_cases h hkind hend with hmark | harrow | hkeyword
  · obtain ⟨⟨c, k⟩, hmem, hsymbol⟩ := List.mem_map.mp hmark
    obtain ⟨hc, rfl⟩ := Prod.mk.inj hsymbol
    rw [← hc]
    exact .mark hmem
  · obtain ⟨hsymbol, rfl⟩ := Prod.mk.inj harrow
    rw [hsymbol]
    exact .arrow
  · exact .keyword hkeyword

/-- The kinds of marks and keywords have symbols, and sources spell them. -/
theorem symbol?_of_mem {kind : Kind}
    (h : kind ∈ marks.map Prod.snd ∨ kind ∈ keywords.map Prod.snd) :
    kind.symbol? ≠ none ∧ kind ∉ Kind.unspelled := by
  cases kind <;> revert h <;> decide

/-- An integer that is not negative is written as the digits of its value. -/
theorem lexeme_of_integer {n : Int32} (h : 0 ≤ n.toInt) :
    Lexeme (toString n.toInt).toList (.ok (some (.integer, .integer n))) := by
  have hlt := n.toInt_lt
  obtain ⟨k, hk⟩ := Int.eq_ofNat_of_zero_le h
  have hdigits : (toString n.toInt).toList = Nat.toDigits 10 k := by
    rw [hk]
    exact Nat.toList_repr
  rw [hdigits]
  refine .integer Nat.toDigits_ne_nil (fun d hd => ?_) ?_ ?_
  · exact Nat.isDigit_of_mem_toDigits (by decide) (by decide) hd
  · rw [Nat.ofDigitChars_ten_toDigits]
    omega
  · rw [Nat.ofDigitChars_ten_toDigits, hk]

namespace Token

variable {t : Token}

/-- The text of a token is a lexeme that stands for it. -/
theorem Writable.lexeme (h : t.Writable) : Lexeme t.sourceText.toList (.ok (some t.content)) := by
  cases h with
  | @symbol kind p hsymbol hkind =>
    by_cases hend : kind = .lineEnd
    · subst hend
      rw [sourceText, if_pos rfl]
      exact .lineEnd
    · obtain ⟨symbol, hsymbol⟩ := Option.ne_none_iff_exists'.mp hsymbol
      rw [sourceText, if_neg hend, lexeme, hsymbol, Option.getD_some]
      exact lexeme_of_symbol? hsymbol hkind hend
  | @name c cs p hc hcs hkeyword =>
    have htext : (Token.mk .identifier (.name (String.ofList (c :: cs))) p).sourceText.toList =
      c :: cs := String.toList_ofList
    rw [htext]
    exact .name hc hcs hkeyword
  | integer hn => exact lexeme_of_integer hn
  | @text s p hs =>
    have htext : (Token.mk .text (.text s) p).sourceText.toList =
        '\x22' :: (s.toList ++ ['\x22']) := toList_quoted s
    have hquoted := Lexeme.quoted hs
    rw [String.ofList_toList] at hquoted
    rw [htext]
    exact hquoted

/-- A token that a lexeme stands for can be written, unless it is a floating number. -/
theorem writable_of_lexeme {text : List Char} (h : Lexeme text (.ok (some t.content)))
    (hfloating : t.kind ≠ .floating) : t.Writable := by
  obtain ⟨kind, payload, p⟩ := t
  cases h with
  | lineEnd => exact .symbol (by decide) (by decide)
  | mark hmem =>
    obtain ⟨hsymbol, hspelled⟩ := symbol?_of_mem (.inl (List.mem_map_of_mem hmem))
    exact .symbol hsymbol hspelled
  | arrow => exact .symbol (by decide) (by decide)
  | quoted hquote => exact .text (by rwa [String.toList_ofList])
  | integer _ _ _ hn => exact .integer (by omega)
  | floating => exact absurd rfl hfloating
  | keyword hmem =>
    obtain ⟨hsymbol, hspelled⟩ := symbol?_of_mem (.inr (List.mem_map_of_mem hmem))
    exact .symbol hsymbol hspelled
  | name hc hcs hkeyword => exact .name hc hcs hkeyword

end Token

/-! ## Reading back -/

namespace Scanner

/-- A lexeme alone is tokenized to what it stands for. -/
theorem tokens_after_lexeme {text : List Char} {content : Kind × Payload}
    (h : Lexeme text (.ok (some content))) (before : List Char) :
    (after before text).tokens = .ok [⟨content.1, content.2, .after before⟩] := by
  obtain ⟨e, he, rfl, hread⟩ := h.exists_longest?
  rw [← List.append_nil e.text] at he
  rw [← List.append_nil e.text, tokens_after_ok he (hread _), tokens_after_nil]
  rfl

/-- Tokens written out are found again. -/
theorem tokens_after_sourceOf {ts : List Token} (h : ∀ t ∈ ts, t.Writable) (before : List Char) :
    ∃ us, (after before (Token.sourceOf ts).toList).tokens = .ok us ∧
      us.map Token.content = ts.map Token.content := by
  induction ts generalizing before with
  | nil => exact ⟨[], tokens_after_nil before, rfl⟩
  | cons t ts ih =>
    obtain ⟨ht, hts⟩ := List.forall_mem_cons.mp h
    have hspace : ' ' ∈ separators := by decide
    have htext : (Token.sourceOf (t :: ts)).toList =
        t.sourceText.toList ++ ' ' :: (Token.sourceOf ts).toList := by
      simp [Token.sourceOf]
    obtain ⟨us, hus, hcontent⟩ := ih hts (before ++ t.sourceText.toList ++ [' '])
    have hfirst := tokens_after_lexeme ht.lexeme before
    rw [htext, (tokens_after_append hspace before _ _).1 _ hfirst,
      tokens_after_separator hspace, hus]
    exact ⟨_, rfl, congrArg (t.content :: ·) hcontent⟩

end Scanner

/-- A token of a source can be written, unless it is a floating number. -/
theorem Yields.writable {before : List Char} {texts : List (List Char)} {ts : List Token}
    (h : Yields before texts ts) : ∀ t ∈ ts, t.kind ≠ .floating → t.Writable := by
  induction h with
  | nil => exact List.forall_mem_nil _
  | blank _ _ ih => exact ih
  | token hlexeme _ ih =>
    exact List.forall_mem_cons.mpr ⟨Token.writable_of_lexeme hlexeme, ih⟩

/-- Tokens survive being written out. Any tokens that can be written, in any order, are found again
with the same kinds and payloads when a space follows each of them. All tokens of all sources can be
written, the floating numbers apart, so a source without these is the same after tokenizing it,
writing out its tokens and tokenizing them again. -/
theorem tokenize_sourceOf :
    (∀ ts : List Token, (∀ t ∈ ts, t.Writable) → ∃ us, tokenize (Token.sourceOf ts) = .ok us ∧
      us.map Token.content = ts.map Token.content) ∧
    ∀ source ts, tokenize source = .ok ts →
      (∀ t ∈ ts, t.kind ≠ .floating → t.Writable) ∧
      ((∀ t ∈ ts, t.kind ≠ .floating) → ∃ us, tokenize (Token.sourceOf ts) = .ok us ∧
        us.map Token.content = ts.map Token.content) := by
  have hwritten (ts : List Token) (h : ∀ t ∈ ts, t.Writable) :
      ∃ us, tokenize (Token.sourceOf ts) = .ok us ∧
        us.map Token.content = ts.map Token.content :=
    Scanner.tokens_after_sourceOf h []
  refine ⟨hwritten, fun source ts h => ?_⟩
  obtain ⟨texts, -, hyields⟩ := exists_munches_of_tokenize h
  exact ⟨hyields.writable, fun hno => hwritten ts fun t ht => hyields.writable t ht (hno t ht)⟩

/-- A minus and then an arrow, an integer and then a point, a word that begins like a keyword, and a
text over two lines. -/
theorem tokenize_sourceOf_neighbours :
    let ts : List Token := [.bare .minus .origin, .bare .arrow .origin,
      ⟨.integer, .integer 12, .origin⟩, .bare .dot .origin, ⟨.identifier, .name "lets", .origin⟩,
      ⟨.text, .text "a\n b", .origin⟩, .bare .lineEnd .origin]
    (∀ t ∈ ts, t.Writable) ∧ ∃ us, tokenize (Token.sourceOf ts) = .ok us ∧
      us.map Token.content = ts.map Token.content := by
  intro ts
  have hname : (⟨.identifier, .name "lets", .origin⟩ : Token).Writable :=
    @Token.Writable.name 'l' ['e', 't', 's'] .origin rfl
      (fun c hc => .inl (List.all_eq_true.mp rfl c hc)) (fun kind => by cases kind <;> decide)
  have hwritable : ∀ t ∈ ts, t.Writable := by
    simp only [ts, List.forall_mem_cons, List.not_mem_nil, false_implies, implies_true, and_true]
    exact ⟨.symbol (by decide) (by decide), .symbol (by decide) (by decide),
      .integer (by decide), .symbol (by decide) (by decide), hname, .text (by decide),
      .symbol (by decide) (by decide)⟩
  exact ⟨hwritable, tokenize_sourceOf.1 ts hwritable⟩

end Scriptlet
