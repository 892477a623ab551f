/-
  File:      OutlineMarkup/Proofs/DeclarationText.lean
  Subject:   The text of declarations, and the declarations of a text.

  The text of a declaration ends in a semicolon, and between two of them stands a space
  (`render_cons`). Reading undoes writing where the semicolon is the only one, the first colon is
  the one behind the property, trimming has nothing to take away and the only mark at the end is the
  one that was written (`IsProper`). What is read is always of that kind.

  * `parse?_body`: a proper declaration is read from its text.
  * `isProper_of_parse?`: what is read from a text without a semicolon is proper.
  * **`declarations_round_trip`**: so reading, writing and reading again changes nothing.
-/
import OutlineMarkup.Proofs.Text
import OutlineMarkup.Style.Declaration

namespace OutlineMarkup.Declaration

open Text

/-! ## 1. Writing -/

/-- The mark of a declaration with the space before it; nothing if it is not important. -/
def mark (d : Declaration) : Text := if d.important then ' ' :: marker else []

/-- The value of a declaration with its mark. -/
def markedValue (d : Declaration) : Text := d.value ++ d.mark

/-- The text of a declaration without its semicolon. -/
def body (d : Declaration) : Text := d.property ++ ':' :: ' ' :: d.markedValue

theorem text_eq_body (d : Declaration) : d.text = d.body ++ ";" := by
  simp [text, body, markedValue, mark]

/-- The text of declarations is that of the first, a semicolon, and after a space that of the
    rest. -/
theorem render_cons (d : Declaration) (ds : List Declaration) :
    render (d :: ds) = d.body ++ ';' :: if ds.isEmpty then [] else ' ' :: render ds := by
  cases ds with
  | nil => simp [render, join, text_eq_body]
  | cons e es =>
    have hne : (e :: es).map text ≠ [] := List.cons_ne_nil _ _
    rw [render, List.map_cons, join_cons_of_ne_nil _ _ hne, text_eq_body]
    simp [render]

/-! ## 2. Proper declarations -/

/-- A declaration that is read back from its text: property and value are trimmed and not empty, the
    property has neither colon nor semicolon, the value has no semicolon, and no mark at its end
    that would count. -/
@[mk_iff]
structure IsProper (d : Declaration) : Prop where
  property_ne_nil : d.property ≠ []
  property_trimmed : IsTrimmed d.property
  property_colon : ':' ∉ d.property
  property_semicolon : ';' ∉ d.property
  value_ne_nil : d.value ≠ []
  value_trimmed : IsTrimmed d.value
  value_semicolon : ';' ∉ d.value
  value_unmarked : d.important = false → ¬marker <:+ d.value

instance (d : Declaration) : Decidable d.IsProper := decidable_of_iff' _ (isProper_iff d)

section Proper

variable {d : Declaration}

theorem isTrimmed_marker : IsTrimmed marker := strip_eq_self_iff.mp (by decide)

theorem semicolon_not_mem_mark (d : Declaration) : ';' ∉ d.mark := by
  unfold mark
  split <;> decide

theorem IsProper.markedValue_ne_nil (h : d.IsProper) : d.markedValue ≠ [] := by
  simp [markedValue, h.value_ne_nil]

theorem IsProper.markedValue_trimmed (h : d.IsProper) : IsTrimmed d.markedValue := by
  cases hi : d.important with
  | false =>
    have e : d.markedValue = d.value := by simp [markedValue, mark, hi]
    rw [e]
    exact h.value_trimmed
  | true =>
    have e : d.markedValue = join " " [d.value, marker] := by simp [markedValue, mark, hi, join]
    rw [e]
    refine isTrimmed_join fun x hx => ?_
    rcases List.mem_cons.mp hx with rfl | hx
    · exact ⟨h.value_ne_nil, h.value_trimmed⟩
    · rw [List.mem_singleton.mp hx]
      exact ⟨by decide, isTrimmed_marker⟩

theorem IsProper.body_trimmed (h : d.IsProper) : IsTrimmed d.body := by
  have e : d.body = join ": " [d.property, d.markedValue] := by simp [body, join]
  rw [e]
  refine isTrimmed_join fun x hx => ?_
  rcases List.mem_cons.mp hx with rfl | hx
  · exact ⟨h.property_ne_nil, h.property_trimmed⟩
  · rw [List.mem_singleton.mp hx]
    exact ⟨h.markedValue_ne_nil, h.markedValue_trimmed⟩

theorem IsProper.body_semicolon (h : d.IsProper) : ';' ∉ d.body := by
  simp [body, markedValue, h.property_semicolon, h.value_semicolon, d.semicolon_not_mem_mark]

end Proper

/-! ## 3. Reading one declaration -/

/-- A text without a semicolon has none at its end to be left out. -/
theorem dropTailWhile_semicolon {t : Text} (h : ';' ∉ t) : dropTailWhile (· = ';') t = t := by
  rw [dropTailWhile_eq_rdropWhile, List.rdropWhile_eq_self_iff]
  intro hne hlast
  exact h (of_decide_eq_true hlast ▸ List.getLast_mem hne)

/-- Reads the value of a declaration off what stands behind the colon. -/
def valueOf (marked : Text) : Text :=
  if marker.isSuffixOf marked then strip (marked.take (marked.length - marker.length)) else marked

/-- **How a text without a semicolon is read**: as what stands before and behind its first colon, if
    both come to something. -/
theorem parse?_eq_some_iff {t : Text} (h : ';' ∉ t) {d : Declaration} :
    parse? t = some d ↔ ∃ before after, strip t = before ++ ':' :: after ∧ ':' ∉ before ∧
      d = ⟨strip before, valueOf (strip after), marker.isSuffixOf (strip after)⟩ ∧
      d.property ≠ [] ∧ d.value ≠ [] := by
  have hstrip : ';' ∉ strip t := fun hm => h ((infix_strip t).subset hm)
  have hbody : strip (dropTailWhile (· = ';') (strip t)) = strip t := by
    rw [dropTailWhile_semicolon hstrip, strip_eq_self_iff.mpr (isTrimmed_strip t)]
  have hread : parse? t = (cut? ':' (strip t)).bind fun cut =>
      if (strip cut.1).isEmpty || (valueOf (strip cut.2)).isEmpty then none
      else some ⟨strip cut.1, valueOf (strip cut.2), marker.isSuffixOf (strip cut.2)⟩ := by
    unfold parse?
    dsimp only
    rw [hbody]
    cases cut? ':' (strip t) <;> rfl
  rw [hread]
  constructor
  · intro hd
    obtain ⟨⟨before, after⟩, hcut, hd⟩ := Option.bind_eq_some_iff.mp hd
    obtain ⟨e, hcolon⟩ := cut?_eq_some hcut
    split at hd
    · cases hd
    · rename_i hne
      obtain rfl := Option.some.inj hd
      simp only [Bool.or_eq_true, List.isEmpty_iff, not_or] at hne
      exact ⟨before, after, e, hcolon, rfl, hne⟩
  · rintro ⟨before, after, e, hcolon, rfl, hproperty, hvalue⟩
    rw [e, cut?_append hcolon, Option.bind_some, if_neg]
    simpa using ⟨hproperty, hvalue⟩

/-- The mark is seen exactly if it was written. -/
theorem IsProper.isSuffixOf_markedValue {d : Declaration} (h : d.IsProper) :
    marker.isSuffixOf d.markedValue = d.important := by
  cases hi : d.important with
  | false =>
    have e : d.markedValue = d.value := by simp [markedValue, mark, hi]
    rw [e, Bool.eq_false_iff]
    exact fun hs => h.value_unmarked hi (List.isSuffixOf_iff_suffix.mp hs)
  | true =>
    rw [List.isSuffixOf_iff_suffix]
    exact ⟨d.value ++ " ", by simp [markedValue, mark, hi]⟩

/-- The value is what is left without the mark and the space before it. -/
theorem IsProper.valueOf_markedValue {d : Declaration} (h : d.IsProper) :
    valueOf d.markedValue = d.value := by
  unfold valueOf
  rw [h.isSuffixOf_markedValue]
  cases hi : d.important with
  | false => simp [markedValue, mark, hi]
  | true =>
    have htake : d.markedValue.take (d.markedValue.length - marker.length) = d.value ++ [' '] := by
      have e : d.markedValue = (d.value ++ [' ']) ++ marker := by simp [markedValue, mark, hi]
      rw [e, List.length_append, Nat.add_sub_cancel, List.take_left]
    have hspace : isBlank ' ' = true := by decide
    rw [if_pos rfl, htake, strip_append_blanks _ (by simpa using hspace)]
    exact strip_eq_self_iff.mpr h.value_trimmed

/-- **A proper declaration is read from its text.** -/
theorem parse?_body {d : Declaration} (h : d.IsProper) : parse? d.body = some d := by
  have hspace : isBlank ' ' = true := by decide
  have hproperty : strip d.property = d.property := strip_eq_self_iff.mpr h.property_trimmed
  have hmarked : strip (' ' :: d.markedValue) = d.markedValue := by
    rw [strip_cons_blank hspace, strip_eq_self_iff.mpr h.markedValue_trimmed]
  rw [parse?_eq_some_iff h.body_semicolon]
  refine ⟨d.property, ' ' :: d.markedValue, strip_eq_self_iff.mpr h.body_trimmed,
    h.property_colon, ?_, h.property_ne_nil, h.value_ne_nil⟩
  rw [hproperty, hmarked, h.valueOf_markedValue, h.isSuffixOf_markedValue]

/-- **What is read from a text without a semicolon is proper.** -/
theorem isProper_of_parse? {t : Text} (h : ';' ∉ t) {d : Declaration} (hd : parse? t = some d) :
    d.IsProper := by
  obtain ⟨before, after, e, hcolon, rfl, hproperty, hvalue⟩ := (parse?_eq_some_iff h).mp hd
  have hsemicolon : ';' ∉ before ++ ':' :: after := fun hm =>
    h ((infix_strip t).subset (e ▸ hm))
  have hbefore : ';' ∉ before := fun hm => hsemicolon (List.mem_append_left _ hm)
  have hafter : ';' ∉ strip after := fun hm =>
    hsemicolon (List.mem_append_right _ (List.mem_cons_of_mem _ ((infix_strip after).subset hm)))
  refine ⟨hproperty, isTrimmed_strip before, fun hm => hcolon ((infix_strip before).subset hm),
    fun hm => hbefore ((infix_strip before).subset hm), hvalue, ?_, ?_, ?_⟩
  · show IsTrimmed (valueOf (strip after))
    unfold valueOf
    split
    · exact isTrimmed_strip _
    · exact isTrimmed_strip after
  · show ';' ∉ valueOf (strip after)
    unfold valueOf
    split
    · exact fun hm => hafter (List.mem_of_mem_take ((infix_strip _).subset hm))
    · exact hafter
  · intro himportant hsuffix
    have himportant' : marker.isSuffixOf (strip after) = false := himportant
    have hsame : valueOf (strip after) = strip after := by simp [valueOf, himportant']
    rw [← List.isSuffixOf_iff_suffix] at hsuffix
    rw [hsame, himportant'] at hsuffix
    cases hsuffix

/-! ## 4. Reading several declarations -/

theorem parse?_cons_blank {b : Char} (hb : isBlank b = true) (t : Text) :
    parse? (b :: t) = parse? t := by
  unfold parse?
  rw [strip_cons_blank hb]

/-- The first declaration of a text ends at the first semicolon. -/
theorem parseAll_append {s : Text} (h : ';' ∉ s) (t : Text) :
    parseAll (s ++ ';' :: t) = (parse? s).toList ++ parseAll t := by
  unfold parseAll
  rw [List.splitOn_append_cons_self_of_not_mem h, List.filterMap_cons]
  cases parse? s <;> rfl

/-- A space at the front of a text does not matter. -/
theorem parseAll_cons_space (t : Text) : parseAll (' ' :: t) = parseAll t := by
  have hspace : isBlank ' ' = true := by decide
  obtain ⟨piece, pieces, e⟩ := List.exists_cons_of_ne_nil (List.splitOn_ne_nil ';' t)
  unfold parseAll
  rw [splitOn_cons_of_ne (by decide), e, List.modifyHead_cons, List.filterMap_cons,
    List.filterMap_cons, parse?_cons_blank hspace]

/-- **Proper declarations are read from their text.** -/
theorem parseAll_render {ds : List Declaration} (h : ∀ d ∈ ds, d.IsProper) :
    parseAll (render ds) = ds := by
  induction ds with
  | nil => decide
  | cons d ds ih =>
    have hd : d.IsProper := h d List.mem_cons_self
    have hds : parseAll (render ds) = ds := ih fun e he => h e (List.mem_cons_of_mem _ he)
    rw [render_cons, parseAll_append hd.body_semicolon, parse?_body hd]
    cases ds with
    | nil => rfl
    | cons e es =>
      rw [if_neg (by simp), parseAll_cons_space, hds]
      rfl

theorem isProper_of_mem_parseAll {t : Text} {d : Declaration} (h : d ∈ parseAll t) :
    d.IsProper := by
  obtain ⟨piece, hpiece, hd⟩ := List.mem_filterMap.mp h
  exact isProper_of_parse? (not_mem_of_mem_splitOn hpiece) hd

/-- **Reading declarations undoes writing them**, where they are proper. What is read from any text
    whatever is proper; so the text written for what was read from a text is read as the same. -/
theorem declarations_round_trip :
    (∀ ds : List Declaration, (∀ d ∈ ds, d.IsProper) → parseAll (render ds) = ds) ∧
    (∀ t, ∀ d ∈ parseAll t, d.IsProper) ∧
    ∀ t, parseAll (render (parseAll t)) = parseAll t :=
  ⟨fun _ h => parseAll_render h, fun _ _ h => isProper_of_mem_parseAll h,
    fun _ => parseAll_render fun _ h => isProper_of_mem_parseAll h⟩

/-- A colon and marks inside a value, a mark at the end of an important one; and a text with odd
    blanks, pieces that are no declarations and two marks in a row. -/
theorem declarations_round_trip_marks :
    let ds : List Declaration :=
      [⟨"background", "url(a:b) !important 2", false⟩, ⟨"grid area", "1 !important", true⟩]
    let t : Text := "\u00a0a :\tb:c !important!important\u2003; : x;; y; d: !important ;e:f"
    ((∀ d ∈ ds, d.IsProper) ∧
      render ds = "background: url(a:b) !important 2; grid area: 1 !important !important;" ∧
      parseAll (render ds) = ds) ∧
    (⟨"a", "b:c !important", true⟩ ∈ parseAll t ∧ IsProper ⟨"a", "b:c !important", true⟩ ∧
      render (parseAll t) = "a: b:c !important !important; e: f;" ∧
      parseAll (render (parseAll t)) = parseAll t) := by
  intro ds t
  have hproper : ∀ d ∈ ds, d.IsProper := by decide +kernel
  have hmem : ⟨"a", "b:c !important", true⟩ ∈ parseAll t := by decide +kernel
  obtain ⟨hwritten, hread, hagain⟩ := declarations_round_trip
  exact ⟨⟨hproper, by decide +kernel, hwritten ds hproper⟩, hmem, hread t _ hmem,
    by decide +kernel, hagain t⟩

end OutlineMarkup.Declaration
