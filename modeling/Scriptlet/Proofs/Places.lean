import Scriptlet.Scanner

/-!
# Places of tokens

A scanner that has passed a text stands at the place after it: so many lines down, and so many
characters since the last line end. So tokens stand at the places where they begin in the source,
one after the other (`tokens_positions`).

Positions are kept in 32 bits. Places come in reading order as long as the text has fewer characters
than that (`Position.after_lt_after`).
-/

namespace Scriptlet

variable {before text : List Char}

/-! ## Columns -/

theorem bne_of_not_mem {c : Char} (h : c ∉ text) : ∀ d ∈ text, (d != c) = true := by
  intro d hd
  rw [bne_iff_ne]
  rintro rfl
  exact h hd

/-- The number of characters since the last line end of a text. -/
def columnAfter (cs : List Char) : Nat := (cs.reverse.takeWhile (· != '\n')).length

theorem columnAfter_le (cs : List Char) : columnAfter cs ≤ cs.length := by
  have hle := (List.takeWhile_prefix (l := cs.reverse) (· != '\n')).length_le
  rwa [List.length_reverse] at hle

/-- Only the text after a line end counts. -/
theorem columnAfter_append_of_mem (h : '\n' ∈ text) :
    columnAfter (before ++ text) = columnAfter text := by
  rw [columnAfter, columnAfter, List.reverse_append, List.takeWhile_append, if_neg]
  intro hlength
  have hall := (List.takeWhile_prefix _).eq_of_length hlength
  have hmem : '\n' ∈ text.reverse.takeWhile (· != '\n') := by
    rw [hall]
    exact List.mem_reverse.mpr h
  simpa using List.all_eq_true.mp List.all_takeWhile _ hmem

theorem columnAfter_append_of_not_mem (h : '\n' ∉ text) :
    columnAfter (before ++ text) = columnAfter before + text.length := by
  have hall := bne_of_not_mem (mt List.mem_reverse.mp h)
  rw [columnAfter, columnAfter, List.reverse_append, List.takeWhile_append_of_pos hall,
    List.length_append, List.length_reverse, Nat.add_comm]

/-! ## Positions -/

/-- The position after a text. -/
def Position.after (cs : List Char) : Position := ⟨.ofNat (cs.count '\n'), .ofNat (columnAfter cs)⟩

/-- A longer text ends at a later place. -/
theorem Position.after_lt_after (hne : text ≠ [])
    (hlength : (before ++ text).length < UInt32.size) :
    Position.after before < Position.after (before ++ text) := by
  have hpos : 0 < text.length := List.length_pos_iff.mpr hne
  have hcount := List.count_le_length (a := '\n') (l := before ++ text)
  have hcolumn := columnAfter_le (before ++ text)
  by_cases h : '\n' ∈ text
  · have hmore : 0 < text.count '\n' := List.count_pos_iff.mpr h
    rw [List.count_append] at hcount
    apply Or.inl
    show UInt32.ofNat (before.count '\n') < UInt32.ofNat ((before ++ text).count '\n')
    rw [List.count_append, UInt32.ofNat_lt_iff_lt] <;> omega
  · apply Or.inr
    constructor
    · show UInt32.ofNat (before.count '\n') = UInt32.ofNat ((before ++ text).count '\n')
      rw [List.count_append, List.count_eq_zero.mpr h, Nat.add_zero]
    · rw [columnAfter_append_of_not_mem h] at hcolumn
      show UInt32.ofNat (columnAfter before) < UInt32.ofNat (columnAfter (before ++ text))
      rw [columnAfter_append_of_not_mem h, UInt32.ofNat_lt_iff_lt] <;> omega

theorem Position.after_take_lt {cs : List Char} {k k' : Nat} (hlt : k < k') (hle : k' ≤ cs.length)
    (hlength : cs.length < UInt32.size) : Position.after (cs.take k) < .after (cs.take k') := by
  have hsplit : cs.take k' = cs.take k ++ (cs.drop k).take (k' - k) := by
    rw [← List.take_add, Nat.add_sub_cancel' (Nat.le_of_lt hlt)]
  have htake : (cs.take k').length < UInt32.size := by
    rw [List.length_take]
    omega
  rw [hsplit] at htake ⊢
  refine after_lt_after (List.ne_nil_of_length_pos ?_) htake
  rw [List.length_take, List.length_drop]
  omega

/-! ## Places of a text -/

/-- The positions are those of places in the text, from `start` on and each further on than the one
before. -/
def StandIn (cs : List Char) (start : Nat) (ps : List Position) : Prop :=
  ∃ offsets : List Nat, offsets.Pairwise (· < ·) ∧ (∀ k ∈ offsets, start ≤ k ∧ k < cs.length) ∧
    ps = offsets.map fun k => .after (cs.take k)

namespace StandIn

variable {cs : List Char} {start start' : Nat} {ps : List Position}

theorem nil : StandIn cs start [] := ⟨[], .nil, by simp, rfl⟩

theorem mono (h : StandIn cs start' ps) (hle : start ≤ start') : StandIn cs start ps := by
  obtain ⟨offsets, hlt, hrange, hps⟩ := h
  refine ⟨offsets, hlt, fun k hk => ?_, hps⟩
  have hk := hrange k hk
  omega

theorem cons (h : StandIn cs start' ps) (hlt : start < start') (hlength : start < cs.length) :
    StandIn cs start (.after (cs.take start) :: ps) := by
  obtain ⟨offsets, hoffsets, hrange, rfl⟩ := h
  refine ⟨start :: offsets, List.pairwise_cons.mpr ⟨fun k hk => ?_, hoffsets⟩,
    List.forall_mem_cons.mpr ⟨⟨Nat.le_refl _, hlength⟩, fun k hk => ?_⟩, rfl⟩
  · have hk := hrange k hk
    omega
  · have hk := hrange k hk
    omega

theorem pairwise_lt (h : StandIn cs start ps) (hlength : cs.length < UInt32.size) :
    ps.Pairwise (· < ·) := by
  obtain ⟨offsets, hlt, hrange, rfl⟩ := h
  apply List.pairwise_map.mpr
  apply hlt.imp_of_mem
  intro k k' _ hk' hkk'
  exact Position.after_take_lt hkk' (Nat.le_of_lt (hrange k' hk').2) hlength

end StandIn

/-! ## Elements -/

namespace Element

theorem fractionPart_prefix (cs : List Char) : fractionPart cs <+: cs := by
  unfold fractionPart
  split
  · exact (List.prefix_cons_inj _).mpr (List.takeWhile_prefix _)
  · exact List.nil_prefix

/-- What closes a quoted text is the first quote. -/
theorem closed_prefix {cs : List Char} (h : '\x22' ∈ cs) :
    cs.takeWhile (· != '\x22') ++ ['\x22'] <+: cs := by
  induction cs with
  | nil => cases h
  | cons c cs ih =>
    by_cases hc : c = '\x22'
    · subst hc
      exact (List.prefix_cons_inj _).mpr List.nil_prefix
    · rw [List.takeWhile_cons_of_pos (by simpa using hc), List.cons_append]
      exact (List.prefix_cons_inj _).mpr (ih ((List.mem_cons.mp h).resolve_left (Ne.symm hc)))

theorem tail_prefix_of_continuation? {c : Char} {cs tail : List Char} {shape : Shape}
    (h : continuation? c cs = some (shape, tail)) : tail <+: cs := by
  unfold continuation? at h
  split at h
  · split at h
    · rename_i hnext
      obtain ⟨cs, rfl⟩ := List.head?_eq_some_iff.mp hnext
      cases h
      exact (List.prefix_cons_inj _).mpr List.nil_prefix
    · cases h
      exact List.nil_prefix
  split at h
  · cases h
    exact List.nil_prefix
  split at h
  · cases h
    exact List.takeWhile_prefix _
  split at h
  · split at h
    · rename_i hclosed
      cases h
      exact closed_prefix (List.contains_iff_mem.mp hclosed)
    · cases h
  split at h
  · cases h
    have hfraction := fractionPart_prefix (cs.dropWhile Char.isDigit)
    rw [← List.prefix_append_right_inj (cs.takeWhile Char.isDigit)] at hfraction
    rwa [List.takeWhile_append_dropWhile] at hfraction
  split at h
  · cases h
    exact List.takeWhile_prefix _
  · obtain ⟨kind, -, hkind⟩ := Option.map_eq_some_iff.mp h
    cases hkind
    exact List.nil_prefix

/-- An element is the beginning of the text at which it is found. -/
theorem text_prefix_of_longest? {cs : List Char} {e : Element} (h : longest? cs = some e) :
    e.text <+: cs := by
  cases cs with
  | nil => cases h
  | cons c cs =>
    obtain ⟨⟨shape, tail⟩, htail, rfl⟩ := Option.map_eq_some_iff.mp h
    exact (List.prefix_cons_inj c).mpr (tail_prefix_of_continuation? htail)

/-- A token stands where its element begins. -/
theorem position_of_read {e : Element} {p : Position} {t : Token} (h : e.read p = .ok (some t)) :
    t.position = p := by
  unfold read at h
  split at h
  · cases h
  · cases h
    rfl
  · cases h
    rfl
  · cases h
    rfl
  · cases hnumber : number e.text with
    | error cause =>
      rw [hnumber] at h
      cases h
    | ok value =>
      rw [hnumber] at h
      cases h
      rfl
  · cases h
    rfl

end Element

/-! ## Scanners -/

namespace Scanner

/-- The scanner has passed the text. -/
structure HasPassed (s : Scanner) (before : List Char) : Prop where
  offset : s.offset = .ofNat before.length
  line : s.line = .ofNat (before.count '\n')
  lineStart : s.lineStart = .ofNat (before.length - columnAfter before)

variable {s : Scanner}

theorem hasPassed_ofString (source : String) : (ofString source).HasPassed [] := ⟨rfl, rfl, rfl⟩

theorem HasPassed.position (h : s.HasPassed before) : s.position = .after before := by
  rw [Scanner.position, Position.after, h.offset, h.line, h.lineStart,
    ← UInt32.ofNat_sub (Nat.sub_le _ _), Nat.sub_sub_self (columnAfter_le before)]

theorem HasPassed.pass (h : s.HasPassed before) (text : List Char) :
    (s.pass text).HasPassed (before ++ text) := by
  have hoffset : s.offset + UInt32.ofNat text.length = .ofNat (before ++ text).length := by
    rw [h.offset, List.length_append, UInt32.ofNat_add]
  rw [Scanner.pass, advance]
  by_cases hmem : '\n' ∈ text
  · simp only [List.contains_iff_mem.mpr hmem, ↓reduceIte]
    have hcolumn : columnAfter text ≤ (before ++ text).length := by
      have hle := columnAfter_le text
      rw [List.length_append]
      omega
    exact {
      offset := hoffset
      line := by rw [h.line, List.count_append, UInt32.ofNat_add]
      lineStart := by
        rw [hoffset, columnAfter_append_of_mem hmem, UInt32.ofNat_sub hcolumn]
        rfl }
  · have hno : text.contains '\n' = false := by simpa using hmem
    simp only [hno, Bool.false_eq_true, ↓reduceIte]
    have hle := columnAfter_le before
    exact {
      offset := hoffset
      line := by rw [h.line, List.count_append, List.count_eq_zero.mpr hmem, Nat.add_zero]
      lineStart := by
        rw [h.lineStart, columnAfter_append_of_not_mem hmem, List.length_append,
          Nat.add_sub_add_right] }

/-- The tokens stand at places of the text ahead that come one after the other, each where the text
of the token begins. -/
theorem tokens_positions {ts : List Token} (hs : s.HasPassed before) (h : s.tokens = .ok ts) :
    StandIn (before ++ s.rest) before.length (ts.map Token.position) := by
  -- The induction is on the text that is left, of which every element is a part; what is passed
  -- grows by it.
  induction hn : s.rest.length using Nat.strongRecOn generalizing s before ts with
  | ind n ih =>
    subst hn
    rw [tokens] at h
    split at h
    · split at h
      · cases h
        exact .nil
      · cases h
    · rename_i e he
      split at h
      · cases h
      · rename_i found hread
        obtain ⟨rest, hrest⟩ := Element.text_prefix_of_longest? he
        have hleft : (s.pass e.text).rest = rest := by
          rw [rest_pass, ← hrest, dropBytes_append]
        cases hts : (s.pass e.text).tokens with
        | error error =>
          rw [hts] at h
          cases h
        | ok us =>
          rw [hts] at h
          cases h
          have hlater := ih _ (length_rest_pass_lt he) (hs.pass e.text) hts rfl
          rw [hleft, List.append_assoc, hrest, List.length_append] at hlater
          cases found with
          | none => exact hlater.mono (Nat.le_add_right _ _)
          | some t =>
            -- An element has at least one character, so what comes after it begins further on.
            have htext : 0 < e.text.length :=
              List.length_pos_iff.mpr (Element.text_ne_nil_of_longest? he)
            have hlength : before.length < (before ++ s.rest).length := by
              rw [List.length_append, ← hrest, List.length_append]
              omega
            have hposition : t.position = .after ((before ++ s.rest).take before.length) := by
              rw [List.take_left, Element.position_of_read hread, hs.position]
            show StandIn _ _ (t.position :: us.map Token.position)
            rw [hposition]
            exact hlater.cons (by omega) hlength

end Scanner

/-- The tokens of a source stand at places of it that come one after the other. -/
theorem tokenize_positions {source : String} {ts : List Token} (h : tokenize source = .ok ts) :
    StandIn source.toList 0 (ts.map Token.position) :=
  Scanner.tokens_positions (Scanner.hasPassed_ofString source) h

end Scriptlet
