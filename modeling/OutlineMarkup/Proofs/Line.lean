/-
  File:      OutlineMarkup/Proofs/Line.lean
  Subject:   The lines that a source gives, and the statements that they make.

  * `Config.TabsFit`: a tab can be as wide as a unit of indentation. Exactly then a source has lines
    (`read_of_tabsFit`, `read_of_not_tabsFit`), and the width is the unit (`toInt_tabWidth`).
  * `IsProper`: no blanks around the text, and not left of column 0. Every line of a source is so
    (`isProper_of_mem_ofSource`), and so is every line that is written out of one
    (`isProper_of_mem_writeOut`).
  * `elementWords`: the code, the words and the brace of an element line, read with list accesses
    that fail on an empty list. `ofLine?_element`: on a proper line with content that is no lone
    brace none of them fails, and the line makes the statement that they read.
-/
import OutlineMarkup.Outline.Statement
import OutlineMarkup.Proofs.Token

namespace OutlineMarkup

open Text

/-! ## 1. Units and tab widths -/

namespace Config

/-- Whether a tab can be as wide as a unit of indentation. -/
def TabsFit (config : Config) : Prop := config.indentUnit ≤ Int32.maxValue.toInt

instance (config : Config) : Decidable config.TabsFit :=
  inferInstanceAs (Decidable (config.indentUnit ≤ Int32.maxValue.toInt))

/-- The width of a tab, where it can be as wide as a unit. -/
def tabWidth (config : Config) : Int32 := .ofInt config.indentUnit

theorem tabWidth_of_tabsFit {config : Config} (h : config.TabsFit) :
    Text.tabWidth config.indentUnit = .ok config.tabWidth := by
  have hpos := config.indentUnit_pos
  have hmin : Int32.minValue.toInt ≤ config.indentUnit := by
    rw [show Int32.minValue.toInt = -2147483648 from by decide]
    omega
  exact if_pos ⟨hmin, h⟩

theorem tabWidth_of_not_tabsFit {config : Config} (h : ¬ config.TabsFit) :
    Text.tabWidth config.indentUnit = .error .tabWidthOutOfRange :=
  if_neg fun hrange => h hrange.2

theorem toInt_tabWidth {config : Config} (h : config.TabsFit) :
    config.tabWidth.toInt = config.indentUnit := by
  have hpos := config.indentUnit_pos
  have hmax : config.indentUnit ≤ 2147483647 := h
  exact Int32.toInt_ofInt_of_le (by omega) (by omega)

end Config

namespace Line

/-- A source has lines where tabs can be as wide as a unit. -/
theorem read_of_tabsFit {config : Config} (h : config.TabsFit) (source : Text) :
    read config.indentUnit source = .ok (ofSource config.tabWidth source) := by
  rw [read, Config.tabWidth_of_tabsFit h]
  rfl

/-- Where they cannot, no source has. -/
theorem read_of_not_tabsFit {config : Config} (h : ¬ config.TabsFit) (source : Text) :
    read config.indentUnit source = .error .tabWidthOutOfRange := by
  rw [read, Config.tabWidth_of_not_tabsFit h]
  rfl

/-! ## 2. Proper lines -/

/-- A line as a source gives it: no blanks around its text, and not left of column 0. -/
structure IsProper (l : Line) : Prop where
  trimmed : Text.strip l.text = l.text
  indent_nonneg : 0 ≤ l.indent

theorem isProper_ofRow (width : Int32) (number : Nat) (row : Text) :
    (ofRow width number row).IsProper where
  trimmed := strip_eq_self_iff.mpr (isTrimmed_strip _)
  indent_nonneg := by
    unfold ofRow
    dsimp only
    split
    · exact Int.le_refl 0
    · exact Int.natCast_nonneg _

theorem isProper_of_mem_ofSource {width : Int32} {source : Text} {l : Line}
    (h : l ∈ ofSource width source) : l.IsProper := by
  obtain ⟨r, _, rfl⟩ := List.mem_map.mp h
  exact isProper_ofRow width r.2 r.1

/-! ## 3. Lines written out -/

theorem isProper_of_mem_ofTokens {number indent : Int} {tokens : List Text} {l : Line}
    (hi : 0 ≤ indent) (ht : ∀ t ∈ tokens, t ≠ [] ∧ IsTrimmed t)
    (h : l ∈ ofTokens number indent tokens) : l.IsProper := by
  unfold ofTokens at h
  split at h
  · cases h
  · obtain rfl := List.mem_singleton.mp h
    exact ⟨strip_eq_self_iff.mpr (isTrimmed_join ht), hi⟩

theorem strip_closing : Text.strip Token.closing = Token.closing := by decide

/-- Whatever tokens are collected and still to come, the lines written out of them are proper. -/
theorem isProper_of_mem_writeOut_tokens {line : Line} {unit : Int} (hl : 0 ≤ line.indent)
    (hu : 0 ≤ unit) (tokens : List Text) (ht : ∀ t ∈ tokens, t ≠ [] ∧ IsTrimmed t) (indent : Int)
    (hi : 0 ≤ indent) (current : List Text) (hc : ∀ t ∈ current, t ≠ [] ∧ IsTrimmed t) :
    ∀ l ∈ writeOut line unit indent current tokens, l.IsProper := by
  induction tokens generalizing indent current with
  | nil => exact fun l h => isProper_of_mem_ofTokens hi hc h
  | cons token tokens ih =>
    have ht' : ∀ t ∈ tokens, t ≠ [] ∧ IsTrimmed t := fun t h => ht t (List.mem_cons_of_mem _ h)
    have hcur : ∀ t ∈ current ++ [token], t ≠ [] ∧ IsTrimmed t := by
      intro t h
      rcases List.mem_append.mp h with h | h
      · exact hc t h
      · exact ht t (List.mem_singleton.mp h ▸ List.mem_cons_self)
    have hnone : ∀ t ∈ ([] : List Text), t ≠ [] ∧ IsTrimmed t := fun t h => by cases h
    intro l h
    unfold writeOut at h
    split at h
    · rcases List.mem_cons.mp h with rfl | h
      · exact ⟨strip_eq_self_iff.mpr (isTrimmed_join hcur), hi⟩
      · exact ih ht' _ (by omega) _ hnone l h
    · split at h
      · have hb : 0 ≤ max line.indent (indent - unit) := by omega
        rcases List.mem_append.mp h with h | h
        · exact isProper_of_mem_ofTokens hi hc h
        · rcases List.mem_cons.mp h with rfl | h
          · exact ⟨strip_closing, hb⟩
          · exact ih ht' _ hb _ hnone l h
      · exact ih ht' _ hi _ hcur l h

theorem isProper_of_mem_expand {line l : Line} {unit : Int} (hu : 0 ≤ unit) (hp : line.IsProper)
    (h : l ∈ line.expand unit) : l.IsProper := by
  have htok : ∀ t ∈ Token.tokenize line.text, t ≠ [] ∧ IsTrimmed t := fun t ht =>
    Token.isTrimmed_of_mem_tokenize (strip_eq_self_iff.mp hp.trimmed) ht
  unfold expand at h
  dsimp only at h
  split at h
  · exact isProper_of_mem_writeOut_tokens hp.indent_nonneg hu _ htok _ hp.indent_nonneg []
      (fun t ht => by cases ht) l h
  · rw [List.mem_singleton.mp h]
    exact hp

/-! ## 4. The words of an element line -/

/-- The first of some texts; without any there is none. -/
def firstOf : List Text → Except Fault Text
  | [] => .error .noMoreLines
  | t :: _ => .ok t

/-- The last of some texts; without any there is none. -/
def lastOf (ts : List Text) : Except Fault Text :=
  match ts.getLast? with
  | none => .error .noMoreLines
  | some t => .ok t

/-- The code of an element line, the words after it, and whether a brace at its end opens a
    block. -/
def elementWords (l : Line) : Except Fault (Text × List Text × Bool) := do
  let tokens := Token.tokenize l.text
  let last ← lastOf tokens
  let own := if last == Token.opening then tokens.dropLast else tokens
  let code ← firstOf own
  return (code, own.tail, last == Token.opening)

/-- Whether a line holds an element: it has content, and is neither a directive nor a brace. -/
def isElement (l : Line) : Bool := !l.isSkippable && !l.isDirective && !l.isBrace

theorem isElement_iff {l : Line} :
    l.isElement = true ↔
      l.isSkippable = false ∧ l.isDirective = false ∧ l.isBrace = false := by
  simp [isElement, and_assoc]

theorem isBrace_iff {l : Line} :
    l.isBrace = true ↔ l.text = Token.opening ∨ l.text = Token.closing := by
  simp [isBrace, Token.opening, Token.closing]

theorem isSkippable_of_brace {l : Line} (h : l.isBrace = true) : l.isSkippable = false := by
  rcases isBrace_iff.mp h with e | e
  · simp [isSkippable, isBlank, isComment, e, Token.opening]
  · simp [isSkippable, isBlank, isComment, e, Token.closing]

theorem isDirective_of_brace {l : Line} (h : l.isBrace = true) : l.isDirective = false := by
  rcases isBrace_iff.mp h with e | e
  · simp [isDirective, e, Token.opening]
  · simp [isDirective, e, Token.closing]

theorem isDirective_of_skippable {l : Line} (h : l.isSkippable = true) : l.isDirective = false := by
  cases ht : l.text with
  | nil => simp [isDirective, ht]
  | cons c cs =>
    by_cases hc : c = '@'
    · simp [isSkippable, isBlank, isComment, ht, hc] at h
    · simp [isDirective, ht, hc]

end Line

namespace Statement

theorem isProper_of_mem_writeOut {config : Config} {line l : Line} (hp : line.IsProper)
    (h : l ∈ writeOut config line) : l.IsProper := by
  unfold writeOut at h
  split at h
  · rw [List.mem_singleton.mp h]
    exact hp
  · exact Line.isProper_of_mem_expand (Int.le_of_lt config.indentUnit_pos) hp h

theorem isProper_of_mem_flatMap {config : Config} {lines : List Line}
    (hp : ∀ l ∈ lines, l.IsProper) : ∀ l ∈ lines.flatMap (writeOut config), l.IsProper := by
  intro l h
  obtain ⟨line, hline, hl⟩ := List.mem_flatMap.mp h
  exact isProper_of_mem_writeOut (hp line hline) hl

theorem ofLine?_skippable {l : Line} (h : l.isSkippable = true) : ofLine? l = none := by
  unfold ofLine?
  rw [if_pos h]

theorem ofLine?_opening {l : Line} (h : l.text = Token.opening) :
    ofLine? l = some (.openBrace l) := by
  have hs : l.isSkippable = false := Line.isSkippable_of_brace (Line.isBrace_iff.mpr (.inl h))
  have ht : Token.tokenize Token.opening = [Token.opening] := by decide
  simp [ofLine?, hs, h, ht]

theorem ofLine?_closing {l : Line} (h : l.text = Token.closing) :
    ofLine? l = some (.closeBrace l) := by
  have hs : l.isSkippable = false := Line.isSkippable_of_brace (Line.isBrace_iff.mpr (.inr h))
  have ht : Token.tokenize Token.closing = [Token.closing] := by decide
  have hne : Token.closing ≠ Token.opening := by decide
  simp [ofLine?, hs, h, ht, hne]

/-- **A proper line with content that is no lone brace has a code and makes an element.** -/
theorem ofLine?_element {l : Line} (hp : l.IsProper) (hs : l.isSkippable = false)
    (hb : l.isBrace = false) :
    ∃ code words opens, l.elementWords = .ok (code, words, opens) ∧
      ofLine? l = some (.element l code words opens) := by
  have ht : IsTrimmed l.text := strip_eq_self_iff.mp hp.trimmed
  have hne : l.text ≠ [] := by
    intro e
    simp [Line.isSkippable, Line.isBlank, e] at hs
  have hbrace : l.text ≠ Token.opening ∧ l.text ≠ Token.closing := by
    rw [← not_or, ← Line.isBrace_iff, hb]
    exact Bool.false_ne_true
  obtain ⟨code, words, e⟩ := List.exists_cons_of_ne_nil (Token.tokenize_ne_nil ht hne)
  rcases List.eq_nil_or_concat words with rfl | ⟨ws, w, rfl⟩
  · -- the only token is the text itself, hence no brace
    have hc : code = l.text := Token.tokenize_eq_singleton ht e
    rw [← hc] at hbrace
    refine ⟨code, [], false, ?_, ?_⟩
    · have hlast : Line.lastOf [code] = .ok code := rfl
      simp [Line.elementWords, e, hlast, hbrace.1, Line.firstOf, bind, Except.bind, pure,
        Except.pure]
    · simp [ofLine?, hs, e, hbrace.1, hbrace.2]
  · have hlast : Line.lastOf (code :: (ws ++ [w])) = .ok w := by
      unfold Line.lastOf
      rw [← List.cons_append, List.getLast?_concat]
    rw [List.concat_eq_append] at e
    by_cases hw : w = Token.opening
    · refine ⟨code, ws, true, ?_, ?_⟩
      · have hdrop : (code :: (ws ++ [w])).dropLast = code :: ws := by
          rw [← List.cons_append, List.dropLast_concat]
        simp only [Line.elementWords, e, hlast, hdrop, bind, Except.bind, pure, Except.pure]
        simp [hw, Line.firstOf]
      · simp [ofLine?, hs, e, hw]
    · refine ⟨code, ws ++ [w], false, ?_, ?_⟩
      · simp only [Line.elementWords, e, hlast, bind, Except.bind, pure, Except.pure]
        simp [hw, Line.firstOf]
      · simp [ofLine?, hs, e, hw]

/-! ## 5. The statements of several lines -/

theorem ofLinesFrom_drop (config : Config) (k : Nat) (ls : List Line) :
    ofLinesFrom config k ls = ofLinesFrom config 0 (ls.drop k) := by
  induction ls generalizing k with
  | nil => rw [List.drop_nil, ofLinesFrom, ofLinesFrom]
  | cons l ls ih =>
    cases k with
    | zero => rfl
    | succ k => exact ih k

variable (config : Config) {l : Line} (ls : List Line)

theorem ofLinesFrom_skippable (h : l.isSkippable = true) :
    ofLinesFrom config 0 (l :: ls) = ofLinesFrom config 0 ls := by
  rw [ofLinesFrom, Line.isDirective_of_skippable h, ofLine?_skippable h]
  rfl

theorem ofLinesFrom_opening (h : l.text = Token.opening) :
    ofLinesFrom config 0 (l :: ls) = .openBrace l :: ofLinesFrom config 0 ls := by
  rw [ofLinesFrom, Line.isDirective_of_brace (Line.isBrace_iff.mpr (.inl h)), ofLine?_opening h]
  rfl

theorem ofLinesFrom_closing (h : l.text = Token.closing) :
    ofLinesFrom config 0 (l :: ls) = .closeBrace l :: ofLinesFrom config 0 ls := by
  rw [ofLinesFrom, Line.isDirective_of_brace (Line.isBrace_iff.mpr (.inr h)), ofLine?_closing h]
  rfl

theorem ofLinesFrom_directive (h : l.isDirective = true) :
    ofLinesFrom config 0 (l :: ls) =
      .directive l (Directive.collect config.breakpoints config.indentUnit l ls) ::
        ofLinesFrom config 0 (ls.drop (Directive.extent l ls)) := by
  rw [ofLinesFrom, h, if_pos rfl, ofLinesFrom_drop]

theorem ofLinesFrom_element (hp : l.IsProper) (he : l.isElement = true) {code : Text}
    {words : List Text} {opens : Bool} (hw : l.elementWords = .ok (code, words, opens)) :
    ofLinesFrom config 0 (l :: ls) =
      .element l code words opens :: ofLinesFrom config 0 ls := by
  obtain ⟨hs, hd, hb⟩ := Line.isElement_iff.mp he
  obtain ⟨code', words', opens', e, e'⟩ := ofLine?_element hp hs hb
  rw [hw] at e
  cases e
  rw [ofLinesFrom, hd, e']
  rfl

end Statement

end OutlineMarkup
