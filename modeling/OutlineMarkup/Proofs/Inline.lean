/-
  File:      OutlineMarkup/Proofs/Inline.lean
  Subject:   A block on a single line is only another way to write its lines.

  The lines that a line is written out to have its tokens, cut behind every `{` and around every
  `}`. A line is made by joining tokens, and joined tokens are split again into the same tokens
  (`Token.AreTokens.tokenize_join`), so all that can be said of the lines is said of the tokens:

  * `tokens_writeOut`: no token is lost, added or moved;
  * `inlineFree_of_mem_writeOut`: no line has a block left to write out;
  * `standsAt_writeOut`: every line stands as deep as the braces before it say;
  * `Statement.areWords_of_mem_ofLines`: no word of an element statement is a brace.

  **`single_line_blocks_sugar`**: so it is for every line, and the body of a document reads the same
  whether its single-line blocks are written out or not.
-/
import OutlineMarkup.Outline.Scope
import OutlineMarkup.Proofs.Line

namespace OutlineMarkup

/-! ## 1. Depths along tokens -/

namespace Token

/-- The number of blocks open behind a token. A `}` that closes nothing leaves none open. -/
def deepen (depth : Nat) (token : Text) : Nat :=
  if token = opening then depth + 1 else if token = closing then depth - 1 else depth

/-- The number of blocks open behind some tokens. -/
def depthAfter (depth : Nat) (tokens : List Text) : Nat := tokens.foldl deepen depth

theorem depthAfter_append (depth : Nat) (xs ys : List Text) :
    depthAfter depth (xs ++ ys) = depthAfter (depthAfter depth xs) ys := List.foldl_append

theorem depthAfter_opening (depth : Nat) (ts : List Text) :
    depthAfter depth (opening :: ts) = depthAfter (depth + 1) ts := rfl

theorem depthAfter_closing (depth : Nat) (ts : List Text) :
    depthAfter depth (closing :: ts) = depthAfter (depth - 1) ts := rfl

theorem depthAfter_word {t : Text} (h : isBrace t = false) (depth : Nat) (ts : List Text) :
    depthAfter depth (t :: ts) = depthAfter depth ts := by
  have hbrace : t ≠ opening ∧ t ≠ closing := by simpa [isBrace] using h
  simp only [depthAfter, List.foldl_cons, deepen, if_neg hbrace.1, if_neg hbrace.2]

/-- Tokens without a brace among them. -/
def AreWords (ts : List Text) : Prop := ∀ t ∈ ts, isBrace t = false

theorem areWords_nil : AreWords [] := fun _ h => absurd h List.not_mem_nil

theorem AreWords.concat {ts : List Text} (h : AreWords ts) {t : Text} (ho : t ≠ opening)
    (hc : t ≠ closing) : AreWords (ts ++ [t]) := by
  intro u hu
  rcases List.mem_append.mp hu with hu | hu
  · exact h u hu
  · rw [List.mem_singleton.mp hu]
    simp [isBrace, ho, hc]

theorem AreWords.opening_not_mem {ts : List Text} (h : AreWords ts) : opening ∉ ts :=
  fun hm => absurd (h _ hm) (by decide)

theorem AreWords.closing_not_mem {ts : List Text} (h : AreWords ts) : closing ∉ ts :=
  fun hm => absurd (h _ hm) (by decide)

theorem AreWords.depthAfter_eq {ts : List Text} (h : AreWords ts) (depth : Nat) :
    depthAfter depth ts = depth := by
  induction ts with
  | nil => rfl
  | cons t ts ih =>
    rw [depthAfter_word (h t List.mem_cons_self)]
    exact ih fun u hu => h u (List.mem_cons_of_mem _ hu)

/-- Tokens whose braces match. -/
inductive Nested : List Text → Prop where
  | nil : Nested []
  | word {t : Text} {ts : List Text} : isBrace t = false → Nested ts → Nested (t :: ts)
  | block {inner ts : List Text} :
      Nested inner → Nested ts → Nested (opening :: (inner ++ closing :: ts))

/-- Behind matching braces as many blocks are open as before them. -/
theorem Nested.depthAfter_eq {ts : List Text} (h : Nested ts) (depth : Nat) :
    depthAfter depth ts = depth := by
  induction h generalizing depth with
  | nil => rfl
  | word hw _ ih => rw [depthAfter_word hw, ih]
  | block _ _ ihInner ih =>
    rw [depthAfter_opening, depthAfter_append, ihInner, depthAfter_closing, ih]
    rfl

end Token

/-! ## 2. The tokens of the lines written out -/

namespace Line

/-- The tokens of a line. -/
def tokens (l : Line) : List Text := Token.tokenize l.text

theorem tokens_join (number indent : Int) {ts : List Text} (h : Token.AreTokens ts) :
    tokens ⟨number, indent, Text.join " " ts⟩ = ts := h.tokenize_join

theorem tokens_closing {l : Line} (h : l.text = Token.closing) : l.tokens = [Token.closing] := by
  rw [tokens, h]
  decide

theorem tokens_ofTokens (number indent : Int) {ts : List Text} (h : Token.AreTokens ts) :
    (ofTokens number indent ts).flatMap tokens = ts := by
  cases ts with
  | nil => rfl
  | cons t ts =>
    show tokens ⟨number, indent, Text.join " " (t :: ts)⟩ ++ [] = t :: ts
    rw [tokens_join _ _ h, List.append_nil]

/-- **Writing out keeps all tokens in their order.** -/
theorem tokens_writeOut (line : Line) (unit indent : Int) (current ts : List Text)
    (h : Token.AreTokens (current ++ ts)) :
    (writeOut line unit indent current ts).flatMap tokens = current ++ ts := by
  induction ts generalizing current indent with
  | nil =>
    rw [List.append_nil] at h ⊢
    exact tokens_ofTokens _ _ h
  | cons t ts ih =>
    obtain ⟨hcurrent, hrest⟩ := h.cut
    unfold writeOut
    split
    · rw [List.flatMap_cons, ih _ [] hrest, tokens_join _ _ hcurrent]
      exact (List.append_cons ..).symm
    · split
      · rename_i hclosing
        rw [List.flatMap_append, List.flatMap_cons, tokens_ofTokens _ _ h.left, tokens_closing rfl,
          ih _ [] hrest, hclosing]
        rfl
      · rw [List.append_cons] at h
        rw [ih _ _ h, ← List.append_cons]

/-- A line on which nothing is left to write out: a `{` at its end is its only brace, or a `}` is
    its only token. -/
inductive InlineFree (l : Line) : Prop where
  | words : Token.AreWords l.tokens → InlineFree l
  | opener {own : List Text} :
      Token.AreWords own → l.tokens = own ++ [Token.opening] → InlineFree l
  | closer : l.tokens = [Token.closing] → InlineFree l

theorem hasInlineBlock_of_inlineFree {l : Line} (h : l.InlineFree) :
    hasInlineBlock l.tokens = false := by
  have hany : ∀ {ts : List Text}, Token.AreWords ts → ts.any Token.isBrace = false :=
    fun h => List.any_eq_false.mpr fun t ht => by simp [h t ht]
  cases h with
  | words hw =>
    have hlast : l.tokens.getLast? ≠ some Token.opening :=
      fun e => hw.opening_not_mem (List.mem_of_getLast? e)
    simp [hasInlineBlock, hlast, hany hw]
  | opener hw e => simp [hasInlineBlock, e, hany hw]
  | closer e =>
    rw [e]
    decide

theorem expand_of_not_inline {l : Line} (h : hasInlineBlock l.tokens = false) (unit : Int) :
    l.expand unit = [l] := by
  show (if hasInlineBlock l.tokens then _ else [l]) = [l]
  rw [h, if_neg Bool.false_ne_true]

theorem mem_ofTokens {number indent : Int} {ts : List Text} (h : Token.AreTokens ts) {l : Line}
    (hl : l ∈ ofTokens number indent ts) : l.number = number ∧ l.tokens = ts := by
  unfold ofTokens at hl
  split at hl
  · cases hl
  · rw [List.mem_singleton.mp hl]
    exact ⟨rfl, tokens_join _ _ h⟩

/-- **On the lines written out nothing is left to write out**, and they keep the number. -/
theorem inlineFree_of_mem_writeOut (line : Line) (unit indent : Int) (current ts : List Text)
    (h : Token.AreTokens (current ++ ts)) (hw : Token.AreWords current) :
    ∀ l ∈ writeOut line unit indent current ts, l.number = line.number ∧ l.InlineFree := by
  induction ts generalizing current indent with
  | nil =>
    rw [List.append_nil] at h
    intro l hl
    obtain ⟨hnumber, e⟩ := mem_ofTokens h hl
    exact ⟨hnumber, .words (e ▸ hw)⟩
  | cons t ts ih =>
    obtain ⟨hcurrent, hrest⟩ := h.cut
    intro l hl
    unfold writeOut at hl
    split at hl
    · rename_i hopening
      rcases List.mem_cons.mp hl with rfl | hl
      · exact ⟨rfl, .opener hw (hopening ▸ tokens_join _ _ hcurrent)⟩
      · exact ih _ [] hrest Token.areWords_nil l hl
    · split at hl
      · rcases List.mem_append.mp hl with hl | hl
        · obtain ⟨hnumber, e⟩ := mem_ofTokens h.left hl
          exact ⟨hnumber, .words (e ▸ hw)⟩
        · rcases List.mem_cons.mp hl with rfl | hl
          · exact ⟨rfl, .closer (tokens_closing rfl)⟩
          · exact ih _ [] hrest Token.areWords_nil l hl
      · rename_i hopening hclosing
        rw [List.append_cons] at h
        exact ih _ _ h (hw.concat hopening hclosing) l hl

/-! ## 3. Their indentation -/

/-- Lines that stand as deep as their braces say, given how many blocks are open before them: a `}`
    stands outside of the block that it closes. -/
def StandsAt (base unit : Int) : Nat → List Line → Prop
  | _, [] => True
  | depth, l :: ls =>
    l.indent = base + unit * (if l.text = Token.closing then depth - 1 else depth : Nat) ∧
      StandsAt base unit (Token.depthAfter depth l.tokens) ls

theorem StandsAt.indent_eq {base unit : Int} {before after : List Line} {l : Line} {depth : Nat}
    (h : StandsAt base unit depth (before ++ l :: after)) :
    l.indent = base + unit * Token.depthAfter depth
      (before.flatMap tokens ++ if l.text = Token.closing then [Token.closing] else []) := by
  induction before generalizing depth with
  | nil =>
    rw [h.1]
    split
    · rfl
    · rfl
  | cons b before ih =>
    rw [ih h.2, List.flatMap_cons, List.append_assoc, Token.depthAfter_append depth b.tokens]

/-- A line other than a `}` stands where the blocks open before it say. -/
theorem StandsAt.cons {base unit : Int} {depth : Nat} {l : Line} {ls : List Line}
    (hi : l.indent = base + unit * depth) (hc : Token.closing ∉ l.tokens)
    (hs : StandsAt base unit (Token.depthAfter depth l.tokens) ls) :
    StandsAt base unit depth (l :: ls) := by
  have hne : l.text ≠ Token.closing := by
    intro e
    rw [tokens_closing e] at hc
    exact hc List.mem_cons_self
  refine ⟨?_, hs⟩
  rw [if_neg hne]
  exact hi

/-- A line of words, put before other lines, leaves their depths alone. -/
theorem standsAt_ofTokens {base unit : Int} {ts : List Text} (h : Token.AreTokens ts)
    (hw : Token.AreWords ts) (number : Int) {depth : Nat} {ls : List Line}
    (hs : StandsAt base unit depth ls) :
    StandsAt base unit depth (ofTokens number (base + unit * depth) ts ++ ls) := by
  cases ts with
  | nil => exact hs
  | cons t ts =>
    have e := tokens_join number (base + unit * depth) h
    refine StandsAt.cons rfl ?_ ?_
    · rw [e]
      exact hw.closing_not_mem
    · rw [e, hw.depthAfter_eq]
      exact hs

/-- **The lines written out stand as deep as their braces say.** -/
theorem standsAt_writeOut (line : Line) {unit : Int} (hu : 0 ≤ unit) (depth : Nat)
    (current ts : List Text) (h : Token.AreTokens (current ++ ts)) (hw : Token.AreWords current) :
    StandsAt line.indent unit depth
      (writeOut line unit (line.indent + unit * depth) current ts) := by
  induction ts generalizing current depth with
  | nil =>
    rw [List.append_nil] at h
    rw [writeOut, ← List.append_nil (ofTokens _ _ _)]
    exact standsAt_ofTokens h hw _ trivial
  | cons t ts ih =>
    obtain ⟨hcurrent, hrest⟩ := h.cut
    unfold writeOut
    split
    · rename_i hopening
      have e := tokens_join line.number (line.indent + unit * depth) hcurrent
      refine StandsAt.cons rfl ?_ ?_
      · rw [e, hopening]
        intro hm
        rcases List.mem_append.mp hm with hm | hm
        · exact hw.closing_not_mem hm
        · exact absurd (List.mem_singleton.mp hm) (by decide)
      · have hdeeper : line.indent + unit * depth + unit =
            line.indent + unit * (depth + 1 : Nat) := by
          rw [Int.natCast_succ, Int.mul_add, Int.mul_one, Int.add_assoc]
        rw [e, hopening, Token.depthAfter_append, hw.depthAfter_eq, hdeeper]
        exact ih (depth + 1) [] hrest Token.areWords_nil
    · split
      · have hback : max line.indent (line.indent + unit * depth - unit) =
            line.indent + unit * (depth - 1 : Nat) := by
          cases depth with
          | zero =>
            rw [Nat.zero_sub, Int.natCast_zero, Int.mul_zero, Int.add_zero]
            omega
          | succ n =>
            have hn : 0 ≤ unit * (n : Int) := Int.mul_nonneg hu (Int.natCast_nonneg n)
            rw [Int.natCast_succ, Int.mul_add, Int.mul_one, Nat.add_sub_cancel]
            omega
        rw [hback]
        refine standsAt_ofTokens h.left hw _ ⟨by rw [if_pos rfl], ?_⟩
        rw [tokens_closing rfl]
        exact ih (depth - 1) [] hrest Token.areWords_nil
      · rename_i hopening hclosing
        rw [List.append_cons] at h
        exact ih depth _ h (hw.concat hopening hclosing)

/-- A line that opens a block opens one. -/
theorem InlineFree.depthAfter_eq {l : Line} (h : l.InlineFree)
    (ho : l.tokens.getLast? = some Token.opening) (depth : Nat) :
    Token.depthAfter depth l.tokens = depth + 1 := by
  cases h with
  | words hw => exact absurd (List.mem_of_getLast? ho) hw.opening_not_mem
  | opener hw e =>
    rw [e, Token.depthAfter_append, hw.depthAfter_eq]
    rfl
  | closer e =>
    rw [e] at ho
    exact absurd ho (by decide)

theorem StandsAt.closer_indent_eq {base unit : Int} {before inside after : List Line}
    {opener closer : Line}
    (h : StandsAt base unit 0 (before ++ opener :: (inside ++ closer :: after)))
    (hfree : opener.InlineFree) (ho : opener.tokens.getLast? = some Token.opening)
    (hn : Token.Nested (inside.flatMap tokens)) (hc : closer.text = Token.closing) :
    closer.indent = opener.indent := by
  have hne : opener.text ≠ Token.closing := by
    intro e
    rw [tokens_closing e] at ho
    exact absurd ho (by decide)
  have hopener := h.indent_eq
  have hsplit : before ++ opener :: (inside ++ closer :: after) =
      (before ++ opener :: inside) ++ closer :: after := by simp
  rw [hsplit] at h
  rw [hopener, h.indent_eq, if_pos hc, if_neg hne, List.append_nil, List.flatMap_append,
    List.flatMap_cons, Token.depthAfter_append, Token.depthAfter_append, Token.depthAfter_append,
    hfree.depthAfter_eq ho, hn.depthAfter_eq]
  rfl

/-! ## 4. Single-line blocks -/

/-- Lines that are another way to write one line. -/
structure WritesOut (unit : Int) (line : Line) (ls : List Line) : Prop where
  /-- They have its tokens. -/
  tokens_eq : ls.flatMap tokens = line.tokens
  /-- They open and close as many braces, those inside of tokens included. -/
  braces_eq : Directive.depthAfter 0 ls = Token.braceBalance line.text
  number_eq : ∀ l ∈ ls, l.number = line.number
  /-- Each is one unit deeper for every block that is open there. -/
  indent_eq : ∀ before l after, ls = before ++ l :: after →
    l.indent = line.indent + unit * Token.depthAfter 0
      (before.flatMap tokens ++ if l.text = Token.closing then [Token.closing] else [])
  /-- A `}` is as deep as the line that opened its block. -/
  closer_indent_eq : ∀ before opener inside closer after,
    ls = before ++ opener :: (inside ++ closer :: after) →
    opener.tokens.getLast? = some Token.opening → Token.Nested (inside.flatMap tokens) →
    closer.text = Token.closing → closer.indent = opener.indent
  /-- Nothing is left to write out on any of them. -/
  expand_eq : ∀ l ∈ ls, l.expand unit = [l]

/-- The braces of lines are those of their tokens. -/
theorem depthAfter_eq_braceTotal (depth : Int) (ls : List Line) :
    Directive.depthAfter depth ls = depth + Token.braceTotal (ls.flatMap tokens) := by
  induction ls generalizing depth with
  | nil => exact (Int.add_zero _).symm
  | cons l ls ih =>
    have hl : Token.braceTotal l.tokens = Token.braceBalance l.text :=
      Token.braceTotal_tokenize l.text
    show Directive.depthAfter (depth + Token.braceBalance l.text) ls = _
    rw [ih, List.flatMap_cons, Token.braceTotal_append, hl, Int.add_assoc]

theorem writesOut_self {unit : Int} {line : Line} (h : line.expand unit = [line]) :
    WritesOut unit line [line] where
  tokens_eq := by simp
  braces_eq := by simp [Directive.depthAfter]
  number_eq l hl := by rw [List.mem_singleton.mp hl]
  indent_eq before l after e := by
    have hlength := congrArg List.length e
    obtain rfl : before = [] := by
      simp only [List.length_append, List.length_cons, List.length_nil] at hlength
      exact List.length_eq_zero_iff.mp (by omega)
    obtain ⟨rfl, rfl⟩ := List.cons.inj e
    have hnone : Token.depthAfter 0 (if line.text = Token.closing then [Token.closing] else []) =
        0 := by
      split
      · rfl
      · rfl
    simp [hnone]
  closer_indent_eq before opener inside closer after e := by
    have hlength := congrArg List.length e
    simp only [List.length_append, List.length_cons, List.length_nil] at hlength
    omega
  expand_eq l hl := by
    rw [List.mem_singleton.mp hl]
    exact h

theorem writesOut_expand {unit : Int} (hu : 0 ≤ unit) (line : Line) :
    WritesOut unit line (line.expand unit) := by
  by_cases hinline : hasInlineBlock line.tokens = true
  · have he : line.expand unit =
        writeOut line unit (line.indent + unit * (0 : Nat)) [] line.tokens := by
      show (if hasInlineBlock line.tokens then writeOut line unit line.indent [] line.tokens
        else [line]) = _
      rw [if_pos hinline, Int.natCast_zero, Int.mul_zero, Int.add_zero]
    have htokens : Token.AreTokens ([] ++ line.tokens) := Token.areTokens_tokenize line.text
    have hkept := tokens_writeOut line unit (line.indent + unit * (0 : Nat)) _ _ htokens
    have hmem := inlineFree_of_mem_writeOut line unit (line.indent + unit * (0 : Nat)) _ _ htokens
      Token.areWords_nil
    have hstands := standsAt_writeOut line hu 0 _ _ htokens Token.areWords_nil
    rw [← he] at hmem hstands hkept
    exact
      { tokens_eq := hkept
        braces_eq := by
          rw [depthAfter_eq_braceTotal, hkept, Int.zero_add]
          exact Token.braceTotal_tokenize line.text
        number_eq := fun l hl => (hmem l hl).1
        indent_eq := fun before l after e => (e ▸ hstands).indent_eq
        closer_indent_eq := fun before opener inside closer after e ho hn hc =>
          (e ▸ hstands).closer_indent_eq (hmem opener (by simp [e])).2 ho hn hc
        expand_eq := fun l hl =>
          expand_of_not_inline (hasInlineBlock_of_inlineFree (hmem l hl).2) unit }
  · have he : line.expand unit = [line] :=
      expand_of_not_inline (Bool.eq_false_iff.mpr hinline) unit
    rw [he]
    exact writesOut_self he

end Line

/-- Lines that are written out are left as they are. -/
theorem Statement.writeOut_of_mem_writeOut {config : Config} {line l : Line}
    (h : l ∈ writeOut config line) : writeOut config l = [l] := by
  unfold writeOut at h
  split at h
  · rename_i hkept
    rw [List.mem_singleton.mp h, writeOut, if_pos hkept]
  · have hunit := Int.le_of_lt config.indentUnit_pos
    rw [writeOut, (Line.writesOut_expand hunit line).expand_eq l h, ite_self]

theorem Statement.ofLines_writeOut (config : Config) (lines : List Line) :
    ofLines config (lines.flatMap (writeOut config)) = ofLines config lines := by
  have hkept : ∀ ls : List Line, (∀ l ∈ ls, writeOut config l = [l]) →
      ls.flatMap (writeOut config) = ls := by
    intro ls h
    rw [List.flatMap_congr h, List.flatMap_singleton']
  unfold ofLines
  rw [hkept]
  intro l hl
  obtain ⟨line, _, hl⟩ := List.mem_flatMap.mp hl
  exact writeOut_of_mem_writeOut hl

/-! ## 5. Brace tokens -/

/-- A line that is written out, other than a comment or a directive, has no block left on it. -/
theorem Statement.hasInlineBlock_of_mem_writeOut {config : Config} {line l : Line}
    (h : l ∈ writeOut config line) (hs : l.isSkippable = false) (hd : l.isDirective = false) :
    Line.hasInlineBlock l.tokens = false := by
  unfold writeOut at h
  split at h
  · rename_i hkept
    rw [List.mem_singleton.mp h] at hs hd
    simp [hs, hd] at hkept
  · by_cases hinline : Line.hasInlineBlock line.tokens = true
    · have hexpand : line.expand config.indentUnit =
          Line.writeOut line config.indentUnit line.indent [] line.tokens := if_pos hinline
      rw [hexpand] at h
      have hfree := Line.inlineFree_of_mem_writeOut line config.indentUnit line.indent []
        line.tokens (Token.areTokens_tokenize line.text) Token.areWords_nil l h
      exact Line.hasInlineBlock_of_inlineFree hfree.2
    · rw [Line.expand_of_not_inline (Bool.eq_false_iff.mpr hinline)] at h
      rw [List.mem_singleton.mp h]
      exact Bool.eq_false_iff.mpr hinline

/-- The code and the words of an element line have no brace among them where no block is left on
    the line: the one that opens a block at its end is not among the words. -/
theorem Statement.areWords_of_ofLine? {l line : Line} {code : Text} {words : List Text}
    {opens : Bool} (hl : Line.hasInlineBlock l.tokens = false)
    (h : ofLine? l = some (.element line code words opens)) : Token.AreWords (code :: words) := by
  have hwords : ∀ {inner : List Text}, inner.any Token.isBrace = false → Token.AreWords inner :=
    fun h t ht => Bool.eq_false_iff.mpr (List.any_eq_false.mp h t ht)
  unfold ofLine? at h
  split at h
  · cases h
  · split at h
    · cases h
    · rename_i first rest htokens
      rw [Line.hasInlineBlock, Line.tokens, htokens] at hl
      split at h
      · cases h
      · rename_i hopening
        split at h
        · cases h
        · rename_i hclosing
          cases rest with
          | nil =>
            -- a single token is the code, and no brace
            obtain ⟨-, rfl, rfl, -⟩ := Statement.element.inj (Option.some.inj h)
            have hcode : first ≠ Token.opening ∧ first ≠ Token.closing := by
              simpa using And.intro hopening hclosing
            exact hwords (by simp [Token.isBrace, hcode])
          | cons word more =>
            have hmany : 1 < (first :: word :: more).length := by simp
            rw [decide_eq_true hmany, Bool.true_and] at hl
            split at h
            · rename_i hlast
              obtain ⟨-, rfl, rfl, -⟩ := Statement.element.inj (Option.some.inj h)
              refine hwords ?_
              rw [List.getLast?_cons_cons, hlast] at hl
              simpa using hl
            · rename_i hlast
              obtain ⟨-, rfl, rfl, -⟩ := Statement.element.inj (Option.some.inj h)
              refine hwords ?_
              rw [List.getLast?_cons_cons, if_neg (by simpa using hlast)] at hl
              exact hl

/-- An element statement is one of the lines, which is not in a directive. -/
theorem Statement.exists_line_of_mem_ofLinesFrom {config : Config} {line : Line} {code : Text}
    {words : List Text} {opens : Bool} {k : Nat} {ls : List Line}
    (h : .element line code words opens ∈ ofLinesFrom config k ls) :
    ∃ l ∈ ls, l.isDirective = false ∧ ofLine? l = some (.element line code words opens) := by
  induction ls generalizing k with
  | nil =>
    rw [ofLinesFrom] at h
    cases h
  | cons l ls ih =>
    have hlater : ∀ k, .element line code words opens ∈ ofLinesFrom config k ls →
        ∃ a ∈ l :: ls, a.isDirective = false ∧
          ofLine? a = some (.element line code words opens) := by
      intro k hk
      obtain ⟨a, ha, ho⟩ := ih hk
      exact ⟨a, List.mem_cons_of_mem l ha, ho⟩
    cases k with
    | succ k => exact hlater k h
    | zero =>
      rw [ofLinesFrom] at h
      split at h
      · rcases List.mem_cons.mp h with e | h
        · cases e
        · exact hlater _ h
      · rename_i hd
        rcases List.mem_append.mp h with h | h
        · exact ⟨l, List.mem_cons_self, Bool.eq_false_iff.mpr hd, Option.mem_toList.mp h⟩
        · exact hlater 0 h

/-- **No word of an element statement is a brace.** -/
theorem Statement.areWords_of_mem_ofLines {config : Config} {lines : List Line} {line : Line}
    {code : Text} {words : List Text} {opens : Bool}
    (h : .element line code words opens ∈ ofLines config lines) :
    Token.AreWords (code :: words) := by
  obtain ⟨l, hl, hd, ho⟩ := exists_line_of_mem_ofLinesFrom h
  obtain ⟨written, _, hl⟩ := List.mem_flatMap.mp hl
  have hs : l.isSkippable = false := by
    by_contra hskip
    rw [ofLine?_skippable (Bool.eq_true_of_not_eq_false hskip)] at ho
    cases ho
  exact areWords_of_ofLine? (hasInlineBlock_of_mem_writeOut hl hs hd) ho

/-! ## 6. Bodies with single-line blocks -/

/-- **Single-line blocks are only another way to write their lines.** A line and the lines that it
    is written out to have the same tokens and braces, and the body of a document is read to the
    same forest and the same draft, diagnostics included, if all its lines are written out: all but
    comments and directives, which are no lines of elements, and all where there are none. -/
theorem single_line_blocks_sugar :
    (∀ (unit : Int) (line : Line), 1 ≤ unit → line.WritesOut unit (line.expand unit)) ∧
      (∀ (d : Draft) (lines : List Line),
        d.readBody (lines.flatMap (Statement.writeOut d.config)) = d.readBody lines) ∧
      ∀ (d : Draft) (lines : List Line),
        (∀ l ∈ lines, l.isSkippable = false ∧ l.isDirective = false) →
        d.readBody (lines.flatMap (Line.expand d.config.indentUnit)) = d.readBody lines := by
  have hbody : ∀ (d : Draft) (lines : List Line),
      d.readBody (lines.flatMap (Statement.writeOut d.config)) = d.readBody lines := by
    intro d lines
    unfold Draft.readBody
    rw [Statement.ofLines_writeOut]
  refine ⟨fun unit line hu => Line.writesOut_expand (by omega) line, hbody, fun d lines h => ?_⟩
  have hexpand : lines.flatMap (Line.expand d.config.indentUnit) =
      lines.flatMap (Statement.writeOut d.config) := by
    refine List.flatMap_congr fun l hl => ?_
    obtain ⟨hs, hd⟩ := h l hl
    simp [Statement.writeOut, hs, hd]
  rw [hexpand]
  exact hbody d lines

/-- A `}` too many stands at the margin, and a brace inside of a token or of a quoted run that is
    left open is no brace. Writing out can bring directives and comments to light. -/
theorem single_line_blocks_sugar_nested :
    let line : Line := ⟨7, 4, "c \x7b p \x7b \x7d \x7d \x7d a\x7bb t=\"x \x7d"⟩
    let lines : List Line := [⟨1, 0, "c \x7b @mobile pad=8 \x7d p \x7b // \x7b"⟩, ⟨2, 2, "p"⟩]
    (1 : Int) ≤ 2 ∧ line.WritesOut 2 (line.expand 2) ∧
      line.expand 2 = [⟨7, 4, "c \x7b"⟩, ⟨7, 6, "p \x7b"⟩, ⟨7, 6, "\x7d"⟩, ⟨7, 4, "\x7d"⟩,
        ⟨7, 4, "\x7d"⟩, ⟨7, 4, "a\x7bb t=\"x \x7d"⟩] ∧
      (Draft.empty .default).readBody (lines.flatMap (Statement.writeOut .default)) =
        (Draft.empty .default).readBody lines ∧
      (∀ l ∈ lines, l.isSkippable = false ∧ l.isDirective = false) ∧
      lines.flatMap (Line.expand 2) = [⟨1, 0, "c \x7b"⟩, ⟨1, 2, "@mobile pad=8"⟩, ⟨1, 0, "\x7d"⟩,
        ⟨1, 0, "p \x7b"⟩, ⟨1, 2, "// \x7b"⟩, ⟨2, 2, "p"⟩] ∧
      (Draft.empty .default).readBody (lines.flatMap (Line.expand 2)) =
        (Draft.empty .default).readBody lines := by
  intro line lines
  have hcode : ∀ l ∈ lines, l.isSkippable = false ∧ l.isDirective = false := by decide
  exact ⟨by decide, single_line_blocks_sugar.1 2 _ (by decide), by decide,
    single_line_blocks_sugar.2.1 (.empty .default) _, hcode, by decide,
    single_line_blocks_sugar.2.2 (.empty .default) _ hcode⟩

end OutlineMarkup
