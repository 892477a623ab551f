/-
  File:      OutlineMarkup/Proofs/LineEnds.lean
  Subject:   Blanks and carriage returns at the ends of lines.

  The lines of a source depend only on its pieces between line feeds, without their trailing blanks
  (`Line.strippedRows_eq`): a carriage return before a line feed either belongs to the line end or
  is one of these blanks. So blanks at the ends of the pieces make no difference.

  * `Line.strippedRows_padEnds`: blanks put at the ends are trailing blanks;
  * **`line_ends_inert`**: with such blanks the lines are the same and the document compiles to the
    same; and what a line of a source can look like.
-/
import OutlineMarkup.Proofs.Insertion

namespace OutlineMarkup

/-! ## 1. Pieces and tabs -/

namespace Text

/-- Where tabs are expanded there are none, and nothing but spaces is new. -/
theorem mem_expandTabsFrom {unit column : Nat} {t : Text} {c : Char}
    (h : c ∈ expandTabsFrom unit column t) : c ≠ '\t' ∧ (c = ' ' ∨ c ∈ t) := by
  induction t generalizing column with
  | nil => cases h
  | cons a as ih =>
    have hlater : ∀ {column : Nat}, c ∈ expandTabsFrom unit column as →
        c ≠ '\t' ∧ (c = ' ' ∨ c ∈ a :: as) := fun h =>
      ⟨(ih h).1, (ih h).2.imp_right (List.mem_cons_of_mem a)⟩
    unfold expandTabsFrom at h
    split at h
    · rcases List.mem_append.mp h with h | h
      · rw [List.eq_of_mem_replicate h]
        exact ⟨by decide, .inl rfl⟩
      · exact hlater h
    · rename_i htab
      have hcons : ∀ {column : Nat}, c ∈ a :: expandTabsFrom unit column as →
          c ≠ '\t' ∧ (c = ' ' ∨ c ∈ a :: as) := by
        intro column h
        rcases List.mem_cons.mp h with rfl | h
        · exact ⟨htab, .inr List.mem_cons_self⟩
        · exact hlater h
      split at h
      · exact hcons h
      · exact hcons h

end Text

/-! ## 2. The ends of lines -/

namespace Line

open Text

/-- The source with more characters before the line feeds and at the end: `blanks i` at the end of
    the piece number `i`, counted from 0. -/
def padEnds (blanks : Nat → Text) (source : Text) : Text :=
  join ['\n'] ((source.splitOn '\n').mapIdx fun i piece => piece ++ blanks i)

theorem strippedRows_join {pieces : List Text} (hne : pieces ≠ [])
    (h : ∀ piece ∈ pieces, '\n' ∉ piece) :
    strippedRows (join ['\n'] pieces) = pieces.map stripRight := by
  have hone : ∀ {piece : Text}, '\n' ∉ piece → strippedRows piece = [stripRight piece] := by
    intro piece hp
    rw [strippedRows, rows_eq_singleton hp]
    rfl
  induction pieces with
  | nil => exact absurd rfl hne
  | cons piece pieces ih =>
    have hpiece := hone (h piece List.mem_cons_self)
    cases pieces with
    | nil =>
      have hjoin : join ['\n'] [piece] = piece := by simp [join]
      rw [hjoin, hpiece]
      rfl
    | cons next pieces =>
      have hlf : ['\n'] ∈ lineEnds := List.mem_cons_self
      rw [join_cons_of_ne_nil _ _ (List.cons_ne_nil next pieces), strippedRows_append hlf, hpiece,
        ih (List.cons_ne_nil _ _) fun p hp => h p (List.mem_cons_of_mem _ hp)]
      rfl

/-- **Only the pieces between line feeds count, without their trailing blanks.** -/
theorem strippedRows_eq (source : Text) :
    strippedRows source = (source.splitOn '\n').map stripRight := by
  have h := strippedRows_join (List.splitOn_ne_nil '\n' source) fun _ => not_mem_of_mem_splitOn
  rw [join, List.intercalate_splitOn] at h
  exact h

theorem strippedRows_padEnds {blanks : Nat → Text}
    (h : ∀ i, ∀ c ∈ blanks i, Text.isBlank c = true ∧ c ≠ '\n') (source : Text) :
    strippedRows (padEnds blanks source) = strippedRows source := by
  have hne : (source.splitOn '\n').mapIdx (fun i piece => piece ++ blanks i) ≠ [] := by
    simp
  have hfree : ∀ piece ∈ (source.splitOn '\n').mapIdx (fun i piece => piece ++ blanks i),
      '\n' ∉ piece := by
    intro piece hpiece hlf
    obtain ⟨i, hi, rfl⟩ := List.mem_mapIdx.mp hpiece
    rcases List.mem_append.mp hlf with hlf | hlf
    · exact not_mem_of_mem_splitOn (List.getElem_mem hi) hlf
    · exact (h i _ hlf).2 rfl
  rw [padEnds, strippedRows_join hne hfree, strippedRows_eq]
  refine List.ext_getElem? fun i => ?_
  rw [List.getElem?_map, List.getElem?_mapIdx, List.getElem?_map, Option.map_map]
  refine congrArg (Option.map · _) (funext fun piece => ?_)
  exact stripRight_append_blanks piece fun c hc => (h i c hc).1

theorem ofSource_padEnds (width : Int32) {blanks : Nat → Text}
    (h : ∀ i, ∀ c ∈ blanks i, Text.isBlank c = true ∧ c ≠ '\n') (source : Text) :
    ofSource width (padEnds blanks source) = ofSource width source := by
  rw [ofSource_eq_numbered, ofSource_eq_numbered, strippedRows_padEnds h]

theorem read_padEnds (unit : Int) {blanks : Nat → Text}
    (h : ∀ i, ∀ c ∈ blanks i, Text.isBlank c = true ∧ c ≠ '\n') (source : Text) :
    read unit (padEnds blanks source) = read unit source := by
  unfold read
  simp only [ofSource_padEnds _ h]

/-! ## 3. The lines of a source -/

/-- A line as it can be: no blanks around its text, no tab and no line feed in it, and no
    indentation without a text. -/
structure IsClean (l : Line) : Prop where
  trimmed : IsTrimmed l.text
  no_tab : '\t' ∉ l.text
  no_line_feed : '\n' ∉ l.text
  indent_of_blank : l.text = [] → l.indent = 0

theorem isClean_ofRow (width : Int32) (number : Nat) {row : Text} (h : '\n' ∉ row) :
    (ofRow width number row).IsClean where
  trimmed := isTrimmed_strip _
  no_tab hc := (mem_expandTabsFrom ((infix_strip _).subset hc)).1 rfl
  no_line_feed hc := by
    rcases (mem_expandTabsFrom ((infix_strip _).subset hc)).2 with e | hrow
    · exact absurd e (by decide)
    · exact h hrow
  indent_of_blank ht := if_pos (List.isEmpty_iff.mpr ht)

theorem isClean_of_mem_ofSource {width : Int32} {source : Text} {l : Line}
    (h : l ∈ ofSource width source) : l.IsClean := by
  obtain ⟨r, hr, rfl⟩ := List.mem_map.mp h
  exact isClean_ofRow width r.2 (not_mem_of_mem_splitOn (List.fst_mem_of_mem_zipIdx hr))

/-- The lines are numbered from 1, one more than there are line feeds. -/
theorem map_number_ofSource (width : Int32) (source : Text) :
    (ofSource width source).map Line.number =
      (List.range' 1 (List.count '\n' source + 1)).map Int.ofNat := by
  rw [ofSource_eq_numbered, numbered, List.map_map, ← length_strippedRows, ← List.zipIdx_map_snd,
    List.map_map]
  rfl

end Line

/-- **The ends of lines make no difference.** Blanks other than line feeds may be put at the end of
    any line of a source, such as a carriage return, also behind another one: for every unit the
    same lines are read or the unit is refused, and the document compiles to the same. A unit that a
    tab can be as wide as is not refused; the lines are numbered from 1, and each is clean. -/
theorem line_ends_inert (config : Config) (unit : Int) (source : Text) {blanks : Nat → Text}
    (h : ∀ i, ∀ c ∈ blanks i, Text.isBlank c = true ∧ c ≠ '\n') :
    Line.read unit (Line.padEnds blanks source) = Line.read unit source ∧
      compile config (Line.padEnds blanks source) = compile config source ∧
      (config.TabsFit → ∃ c, compile config source = .ok c) ∧
      (Int32.minValue.toInt ≤ unit ∧ unit ≤ Int32.maxValue.toInt →
        ∃ lines, Line.read unit source = .ok lines ∧ (∀ l ∈ lines, l.IsClean) ∧
          lines.map Line.number =
            (List.range' 1 (List.count '\n' source + 1)).map Int.ofNat) := by
  refine ⟨Line.read_padEnds unit h source, ?_, fun hfit => exists_compile hfit source,
    fun hrange => ?_⟩
  · unfold compile Passes.run
    rw [Line.read_padEnds _ h]
  · refine ⟨Line.ofSource (.ofInt unit) source, ?_, fun l => Line.isClean_of_mem_ofSource,
      Line.map_number_ofSource _ source⟩
    rw [Line.read, Text.tabWidth, if_pos hrange]
    rfl

/-- A carriage return that is doubled, one that stands behind blanks, tabs and an ideographic space,
    and a last line without an end. -/
theorem line_ends_inert_mixed :
    let blanks : Nat → Text := fun i => if i = 0 then ['\r'] else [' ', '\t', '\u3000', '\r']
    let source : Text := "main \x7b\r\n\tp\tt=a\n  \t\n\r\x7d".toList
    (∀ i, ∀ c ∈ blanks i, Text.isBlank c = true ∧ c ≠ '\n') ∧
      Line.padEnds blanks source =
        ("main \x7b\r\r\n\tp\tt=a \t\u3000\r\n  \t \t\u3000\r\n\r\x7d \t\u3000\r").toList ∧
      (Config.default).TabsFit ∧ Int32.minValue.toInt ≤ 2 ∧ 2 ≤ Int32.maxValue.toInt ∧
      Line.read 2 (Line.padEnds blanks source) =
        .ok [⟨1, 0, "main \x7b".toList⟩, ⟨2, 2, "p t=a".toList⟩, ⟨3, 0, []⟩, ⟨4, 1, ['\x7d']⟩] ∧
      compile .default (Line.padEnds blanks source) = compile .default source := by
  intro blanks source
  have hblanks : ∀ i, ∀ c ∈ blanks i, Text.isBlank c = true ∧ c ≠ '\n' := by
    intro i c hc
    by_cases hi : i = 0
    · simp only [blanks, if_pos hi, List.mem_singleton] at hc
      subst hc
      decide
    · simp only [blanks, if_neg hi, List.mem_cons, List.not_mem_nil, or_false] at hc
      rcases hc with rfl | rfl | rfl | rfl <;> decide
  obtain ⟨hlines, hcompile, _⟩ := line_ends_inert .default 2 source hblanks
  refine ⟨hblanks, by decide +kernel, by decide, by decide, by decide, ?_, hcompile⟩
  rw [hlines]
  decide +kernel

end OutlineMarkup
