/-
  File:      OutlineMarkup/Proofs/Insertion.lean
  Subject:   Putting a line into a source.

  A line goes between two lines of a source or behind its last one, with either line end
  (`Line.Inserts`). The lines of the new source are those of the old one, the lines behind the new
  one counted up (`Line.ofSource_insert`).

  * **`blank_lines_inert`**: a blank line changes nothing but the numbers of the lines behind it.
  * **`comment_lines_inert`**: so does a comment, where it leaves the reach of directives alone.
    It need not: `comment_ends_directive` has comments that cut a directive short.
-/
import Mathlib.Data.List.Induction
import OutlineMarkup.Proofs.Skippable

namespace OutlineMarkup

/-! ## 1. Blanks at the end of a row -/

namespace Text

/-- Blanks stay blanks where tabs are expanded, wherever they stand. -/
theorem expandTabsFrom_blanks {unit : Nat} {blanks : Text} (h : ∀ c ∈ blanks, isBlank c = true)
    (column : Nat) : ∀ c ∈ expandTabsFrom unit column blanks, isBlank c = true := by
  have hspace : isBlank ' ' = true := by decide
  induction blanks generalizing column with
  | nil =>
    intro c hc
    cases hc
  | cons b bs ih =>
    have hbs : ∀ c ∈ bs, isBlank c = true := fun c hc => h c (List.mem_cons_of_mem _ hc)
    have hb : isBlank b = true := h b List.mem_cons_self
    intro c hc
    unfold expandTabsFrom at hc
    split at hc
    · rcases List.mem_append.mp hc with hc | hc
      · rw [List.eq_of_mem_replicate hc]
        exact hspace
      · exact ih hbs _ c hc
    · split at hc
      · rcases List.mem_cons.mp hc with rfl | hc
        · exact hb
        · exact ih hbs _ c hc
      · rcases List.mem_cons.mp hc with rfl | hc
        · exact hb
        · exact ih hbs _ c hc

theorem expandTabsFrom_append_blanks (unit : Nat) (t : Text) {blanks : Text}
    (h : ∀ c ∈ blanks, isBlank c = true) (column : Nat) :
    ∃ blanks' : Text, (∀ c ∈ blanks', isBlank c = true) ∧
      expandTabsFrom unit column (t ++ blanks) = expandTabsFrom unit column t ++ blanks' := by
  induction t generalizing column with
  | nil => exact ⟨_, expandTabsFrom_blanks h column, rfl⟩
  | cons c cs ih =>
    rw [List.cons_append]
    unfold expandTabsFrom
    split
    · obtain ⟨blanks', hb, e⟩ := ih (column + (unit - column % unit))
      refine ⟨blanks', hb, ?_⟩
      dsimp only
      rw [e, List.append_assoc]
    · split
      · obtain ⟨blanks', hb, e⟩ := ih 0
        exact ⟨blanks', hb, congrArg (c :: ·) e⟩
      · obtain ⟨blanks', hb, e⟩ := ih (column + 1)
        exact ⟨blanks', hb, congrArg (c :: ·) e⟩

end Text

namespace Line

open Text

theorem ofRow_append_blanks (width : Int32) (number : Nat) (row : Text) {blanks : Text}
    (h : ∀ c ∈ blanks, Text.isBlank c = true) :
    ofRow width number (row ++ blanks) = ofRow width number row := by
  obtain ⟨blanks', hb, e⟩ := expandTabsFrom_append_blanks width.toNatClampNeg row h 0
  have hexpand : expandTabs width (row ++ blanks) = expandTabs width row ++ blanks' := e
  have htext := strip_append_blanks (expandTabs width row) hb
  unfold ofRow
  dsimp only
  rw [hexpand, htext]
  split
  · rfl
  · rename_i hne
    -- a row with a text has a character that ends its indentation
    have hlen : ((expandTabs width row).takeWhile Text.isBlank).length ≠
        (expandTabs width row).length := by
      intro hall
      have hself : (expandTabs width row).takeWhile Text.isBlank =
          expandTabs width row :=
        (List.takeWhile_prefix Text.isBlank).eq_of_length hall
      have hstrip : strip (expandTabs width row) = [] := by
        have hblank : ∀ c ∈ expandTabs width row, Text.isBlank c = true := by
          rw [← hself]
          exact fun c hc => List.mem_takeWhile_imp hc
        exact strip_append_blanks [] hblank
      rw [hstrip] at hne
      exact hne rfl
    rw [List.takeWhile_append, if_neg hlen]

theorem ofRow_stripRight (width : Int32) (number : Nat) (row : Text) :
    ofRow width number (stripRight row) = ofRow width number row := by
  obtain ⟨blanks, hb, e⟩ := exists_stripRight row
  have h := ofRow_append_blanks width number (stripRight row) hb
  rw [← e] at h
  exact h.symm

theorem isBlank_ofRow (width : Int32) (number : Nat) {row : Text}
    (h : ∀ c ∈ row, Text.isBlank c = true) : (ofRow width number row).isBlank = true := by
  have e := ofRow_append_blanks width number [] h
  rw [List.nil_append] at e
  rw [e]
  rfl

/-! ## 2. Rows -/

theorem rows_lf (t : Text) : rows ('\n' :: t) = [] :: rows t := rfl

theorem rows_crlf (t : Text) : rows ('\r' :: '\n' :: t) = [] :: rows t := rfl

theorem rows_cons {c : Char} {t : Text} (hc : c ≠ '\n') (h : c = '\r' → t.head? ≠ some '\n') :
    rows (c :: t) = (rows t).modifyHead (c :: ·) := by
  have hp : List.isPrefixOf ['\r', '\n'] (c :: t) = false := by
    by_cases hr : c = '\r'
    · cases t with
      | nil => simp [List.isPrefixOf]
      | cons a t =>
        have ha : a ≠ '\n' := fun e => h hr (by rw [e]; rfl)
        simp [List.isPrefixOf_cons_cons, Ne.symm ha]
    · simp [List.isPrefixOf_cons_cons, Ne.symm hr]
  simp [rows, replace, replaceFrom, hp, splitOn_cons_of_ne hc]

theorem rows_ne_nil (t : Text) : rows t ≠ [] := List.splitOn_ne_nil _ _

theorem rows_eq_singleton {row : Text} (h : '\n' ∉ row) : rows row = [row] := by
  induction row with
  | nil => rfl
  | cons c cs ih =>
    have hcs : '\n' ∉ cs := fun hm => h (List.mem_cons_of_mem _ hm)
    have hc : c ≠ '\n' := fun e => h (e ▸ List.mem_cons_self)
    have hhead : cs.head? ≠ some '\n' := fun e => hcs (List.mem_of_head? e)
    rw [rows_cons hc fun _ => hhead, ih hcs]
    rfl

theorem map_stripRight_modifyHead (c : Char) (ps : List Text) :
    (ps.modifyHead (c :: ·)).map stripRight =
      ((ps.map stripRight).modifyHead (c :: ·)).map stripRight := by
  cases ps with
  | nil => rfl
  | cons p ps =>
    have hidem : ∀ ps : List Text, (ps.map stripRight).map stripRight = ps.map stripRight := by
      intro ps
      rw [List.map_map]
      exact List.map_congr_left fun p _ => stripRight_stripRight p
    simp only [List.modifyHead_cons, List.map_cons, stripRight_cons, hidem]

theorem modifyHead_append (c : Char) {ps : List Text} (h : ps ≠ []) (qs : List Text) :
    (ps ++ qs).modifyHead (c :: ·) = ps.modifyHead (c :: ·) ++ qs := by
  obtain ⟨p, ps, rfl⟩ := List.exists_cons_of_ne_nil h
  rfl

/-- The rows of a source without their trailing blanks. -/
def strippedRows (source : Text) : List Text := (rows source).map stripRight

theorem strippedRows_cons {c : Char} {t : Text} (hc : c ≠ '\n')
    (h : c = '\r' → t.head? ≠ some '\n') :
    strippedRows (c :: t) = ((strippedRows t).modifyHead (c :: ·)).map stripRight := by
  rw [strippedRows, rows_cons hc h, map_stripRight_modifyHead]
  rfl

theorem map_stripRight_strippedRows (t : Text) :
    (strippedRows t).map stripRight = strippedRows t := by
  rw [strippedRows, List.map_map]
  exact List.map_congr_left fun p _ => stripRight_stripRight p

/-- The two ends of a line. -/
def lineEnds : List Text := [['\n'], ['\r', '\n']]

/-- **A source is cut at any of its line ends**; a carriage return that stood before it is a
    trailing blank. The induction goes over two characters, since a line end can have two. -/
theorem strippedRows_append {eol : Text} (heol : eol ∈ lineEnds) (u v : Text) :
    strippedRows (u ++ eol ++ v) = strippedRows u ++ strippedRows v := by
  have hend : ∀ v, strippedRows (eol ++ v) = [] :: strippedRows v := by
    intro v
    simp only [lineEnds, List.mem_cons, List.not_mem_nil, or_false] at heol
    rcases heol with rfl | rfl
    · rfl
    · rfl
  rw [List.append_assoc]
  induction u using List.twoStepInduction with
  | nil => exact hend v
  | singleton c =>
    by_cases hlf : c = '\n'
    · subst hlf
      show strippedRows ('\n' :: (eol ++ v)) = _
      rw [strippedRows, rows_lf]
      exact congrArg ([] :: ·) (hend v)
    · by_cases hr : c = '\r' ∧ eol = ['\n']
      · obtain ⟨rfl, rfl⟩ := hr
        rfl
      · have hhead : c = '\r' → (eol ++ v).head? ≠ some '\n' := by
          intro hc
          simp only [lineEnds, List.mem_cons, List.not_mem_nil, or_false] at heol
          rcases heol with rfl | rfl
          · exact absurd ⟨hc, rfl⟩ hr
          · simp
        show strippedRows (c :: (eol ++ v)) = strippedRows [c] ++ strippedRows v
        rw [strippedRows_cons hlf hhead, hend, List.modifyHead_cons, List.map_cons,
          map_stripRight_strippedRows, strippedRows_cons hlf (by simp)]
        rfl
  | cons_cons a b l ih₁ ih₂ =>
    by_cases hlf : a = '\n'
    · subst hlf
      show strippedRows ('\n' :: (b :: l ++ (eol ++ v))) = strippedRows ('\n' :: b :: l) ++ _
      rw [strippedRows, rows_lf, strippedRows, rows_lf]
      exact congrArg ([] :: ·) (ih₂ b)
    · by_cases hr : a = '\r' ∧ b = '\n'
      · obtain ⟨rfl, rfl⟩ := hr
        show strippedRows ('\r' :: '\n' :: (l ++ (eol ++ v))) =
          strippedRows ('\r' :: '\n' :: l) ++ _
        rw [strippedRows, rows_crlf, strippedRows, rows_crlf]
        exact congrArg ([] :: ·) ih₁
      · have hhead : ∀ w : Text, a = '\r' → (b :: w).head? ≠ some '\n' := by
          intro w ha e
          exact hr ⟨ha, Option.some.inj e⟩
        have hne : strippedRows (b :: l) ≠ [] := by simpa [strippedRows] using rows_ne_nil _
        show strippedRows (a :: (b :: l ++ (eol ++ v))) = strippedRows (a :: b :: l) ++ _
        rw [strippedRows_cons hlf (hhead l), List.cons_append, strippedRows_cons hlf (hhead _),
          ← List.cons_append, ih₂ b, modifyHead_append a hne, List.map_append,
          map_stripRight_strippedRows]

theorem length_strippedRows (t : Text) : (strippedRows t).length = List.count '\n' t + 1 := by
  rw [strippedRows, List.length_map]
  induction t using List.twoStepInduction with
  | nil => rfl
  | singleton c =>
    by_cases hlf : c = '\n'
    · subst hlf
      rfl
    · rw [rows_cons hlf (by simp), List.length_modifyHead, List.count_cons_of_ne hlf]
      rfl
  | cons_cons a b l ih₁ ih₂ =>
    by_cases hlf : a = '\n'
    · subst hlf
      rw [rows_lf, List.length_cons, ih₂ b, List.count_cons_self]
    · by_cases hr : a = '\r' ∧ b = '\n'
      · obtain ⟨rfl, rfl⟩ := hr
        rw [rows_crlf, List.length_cons, ih₁, List.count_cons_of_ne (by decide),
          List.count_cons_self]
      · have hhead : a = '\r' → (b :: l).head? ≠ some '\n' := by
          intro ha e
          exact hr ⟨ha, Option.some.inj e⟩
        rw [rows_cons hlf hhead, List.length_modifyHead, ih₂ b, List.count_cons_of_ne hlf]

/-! ## 3. Lines -/

/-- Rows as lines, numbered from `k`. -/
def numbered (width : Int32) (k : Nat) (rs : List Text) : List Line :=
  (rs.zipIdx k).map fun r => ofRow width r.2 r.1

theorem ofSource_eq_numbered (width : Int32) (source : Text) :
    ofSource width source = numbered width 1 (strippedRows source) := by
  unfold ofSource numbered strippedRows
  rw [List.zipIdx_map, List.map_map]
  exact List.map_congr_left fun r _ => (ofRow_stripRight width r.2 r.1).symm

theorem numbered_append (width : Int32) (k : Nat) (rs ss : List Text) :
    numbered width k (rs ++ ss) = numbered width k rs ++ numbered width (k + rs.length) ss := by
  rw [numbered, List.zipIdx_append, List.map_append]
  rfl

/-- The number of a line, counted up if the line stands behind the first `n`. -/
def pastLine (n : Nat) (k : Int) : Int := if k ≤ n then k else k + 1

theorem renumber_numbered_before (width : Int32) {n k : Nat} (rs : List Text)
    (h : k + rs.length ≤ n + 1) :
    (numbered width k rs).map (renumber (pastLine n)) = numbered width k rs := by
  induction rs generalizing k with
  | nil => rfl
  | cons r rs ih =>
    have hk : k + 1 + rs.length ≤ n + 1 := by
      rw [List.length_cons] at h
      omega
    have hhead : pastLine n k = k := if_pos (by rw [List.length_cons] at h; omega)
    have htail := ih hk
    unfold numbered at htail ⊢
    rw [List.zipIdx_cons, List.map_cons, List.map_cons, htail]
    refine congrArg (· :: _) ?_
    show ({ ofRow width k r with number := pastLine n k } : Line) = ofRow width k r
    rw [hhead]
    rfl

theorem renumber_numbered_after (width : Int32) {n k : Nat} (rs : List Text) (h : n < k) :
    (numbered width k rs).map (renumber (pastLine n)) = numbered width (k + 1) rs := by
  induction rs generalizing k with
  | nil => rfl
  | cons r rs ih =>
    have hhead : pastLine n k = ((k + 1 : Nat) : Int) := by
      rw [pastLine, if_neg (by omega)]
      rfl
    have htail := ih (Nat.lt_succ_of_lt h)
    unfold numbered at htail ⊢
    rw [List.zipIdx_cons, List.map_cons, List.zipIdx_cons, List.map_cons, List.map_cons, htail]
    refine congrArg (· :: _) ?_
    show ({ ofRow width k r with number := pastLine n k } : Line) = ofRow width (k + 1) r
    rw [hhead]
    rfl

/-- **Putting a line into a source**, behind its first `n` lines: between two lines (or before the
    first one), or behind the last line. -/
inductive Inserts (row : Text) : Nat → Text → Text → Prop where
  | between {above below eol : Text} (hrow : '\n' ∉ row) (heol : eol ∈ lineEnds)
      (hstart : above = [] ∨ above.getLast? = some '\n') :
      Inserts row (List.count '\n' above) (above ++ below) (above ++ row ++ eol ++ below)
  | last {source eol : Text} (hrow : '\n' ∉ row) (heol : eol ∈ lineEnds) :
      Inserts row (List.count '\n' source + 1) source (source ++ eol ++ row)

theorem Inserts.strippedRows {row source source' : Text} {n : Nat}
    (h : Inserts row n source source') :
    ∃ rs ss, rs.length = n ∧ Line.strippedRows source = rs ++ ss ∧
      Line.strippedRows source' = rs ++ stripRight row :: ss := by
  have hrows : ∀ row : Text, '\n' ∉ row → Line.strippedRows row = [stripRight row] := by
    intro row hrow
    rw [Line.strippedRows, rows_eq_singleton hrow]
    rfl
  cases h with
  | @between above below eol hrow heol hstart =>
    have hnew : Line.strippedRows (row ++ eol ++ below) =
        stripRight row :: Line.strippedRows below := by
      rw [strippedRows_append heol, hrows row hrow]
      rfl
    rcases hstart with rfl | hlast
    · exact ⟨[], Line.strippedRows below, rfl, rfl, hnew⟩
    · obtain ⟨u, rfl⟩ : ∃ u, above = u ++ ['\n'] := by
        obtain ⟨u, e⟩ := List.getLast?_eq_some_iff.mp hlast
        exact ⟨u, e⟩
      have hlf : (['\n'] : Text) ∈ lineEnds := List.mem_cons_self
      refine ⟨Line.strippedRows u, Line.strippedRows below, ?_, strippedRows_append hlf u below, ?_⟩
      · rw [length_strippedRows, List.count_append, List.count_singleton_self]
      · rw [List.append_assoc, List.append_assoc, ← List.append_assoc row,
          strippedRows_append hlf, hnew]
  | @last source eol hrow heol =>
    refine ⟨Line.strippedRows source, [], length_strippedRows source, ?_, ?_⟩
    · rw [List.append_nil]
    · rw [strippedRows_append heol, hrows row hrow]

/-- **The lines of the new source**: those of the old one, the lines behind the new one counted
    up. -/
theorem ofSource_insert (width : Int32) {row source source' : Text} {n : Nat}
    (h : Inserts row n source source') :
    ∃ before after, before.length = n ∧
      (ofSource width source).map (renumber (pastLine n)) = before ++ after ∧
      ofSource width source' = before ++ ofRow width (n + 1) row :: after := by
  obtain ⟨rs, ss, rfl, e, e'⟩ := h.strippedRows
  refine ⟨numbered width 1 rs, numbered width (1 + rs.length + 1) ss, ?_, ?_, ?_⟩
  · rw [numbered, List.length_map, List.length_zipIdx]
  · rw [ofSource_eq_numbered, e, numbered_append, List.map_append,
      renumber_numbered_before width rs (by omega), renumber_numbered_after width ss (by omega)]
  · have hnew : ofRow width (1 + rs.length) (stripRight row) = ofRow width (rs.length + 1) row := by
      rw [ofRow_stripRight, Nat.add_comm]
    rw [ofSource_eq_numbered, e', numbered_append, ← hnew]
    rfl

end Line

/-! ## 4. Compiling the new source -/

/-- The compiled document, reported at other lines. -/
def Compiled.renumber (g : Int → Int) (c : Compiled) : Compiled :=
  { c with diagnostics := c.diagnostics.map (Diagnostic.renumber g) }

theorem compileLines_renumber (g : Int → Int) (config : Config) (lines : List Line) :
    compileLines config (lines.map (Line.renumber g)) =
      (compileLines config lines).map (Compiled.renumber g) := by
  unfold compileLines
  rw [Passes.ofLines_renumber]
  cases Passes.ofLines config lines with
  | error fault => rfl
  | ok p => rfl

/-- If a line can be left out among the lines of the new source, then the new source compiles to
    what the old one does, with the lines behind counted up, or fails as the old one does. -/
theorem compile_of_inert (config : Config) {source source' : Text} {n : Nat}
    {before after : List Line} {x : Line}
    (hold : (Line.ofSource config.tabWidth source).map (Line.renumber (Line.pastLine n)) =
      before ++ after)
    (hnew : Line.ofSource config.tabWidth source' = before ++ x :: after)
    (h : compileLines config (before ++ x :: after) = compileLines config (before ++ after)) :
    compile config source' =
      (compile config source).map (Compiled.renumber (Line.pastLine n)) := by
  by_cases hfit : config.TabsFit
  · rw [compile_eq_compileLines hfit, compile_eq_compileLines hfit, hnew, h, ← hold,
      compileLines_renumber]
  · rw [compile_of_not_tabsFit hfit, compile_of_not_tabsFit hfit]
    rfl

/-- **Blank lines are inert.** Wherever a blank line is put into a source, the new source compiles
    to the same tree, the same stylesheet, and the same diagnostics, at the lines where those that
    they belong to now stand; and if tabs cannot be as wide as a unit, neither source compiles. -/
theorem blank_lines_inert (config : Config) {row source source' : Text} {n : Nat}
    (hrow : ∀ c ∈ row, Text.isBlank c = true) (h : Line.Inserts row n source source') :
    (config.TabsFit → ∃ compiled, compile config source = .ok compiled) ∧
      compile config source' = (compile config source).map fun compiled => { compiled with
        diagnostics := compiled.diagnostics.map (Diagnostic.renumber (Line.pastLine n)) } := by
  obtain ⟨before, after, _, hold, hnew⟩ := Line.ofSource_insert config.tabWidth h
  have hblank := Line.isBlank_ofRow config.tabWidth (n + 1) hrow
  exact ⟨fun hfit => exists_compile hfit source, compile_of_inert config hold hnew
    (compileLines_insert config (Line.isSkippable_of_blank hblank)
      (inertBetween_of_blank config _ hblank _))⟩

/-- A row of a tab and a space, put under the first line of a directive whose body makes it reach
    on; the word that the last line skips is reported one line further down. -/
theorem blank_lines_inert_in_directive :
    let above : Text := "@mobile\n"
    let below : Text := "  .card pad=8\np zz"
    (Config.default).TabsFit ∧ (∀ c ∈ ("\t " : Text), Text.isBlank c = true) ∧
      Line.Inserts "\t " 1 (above ++ below) (above ++ "\t " ++ "\r\n" ++ below) ∧
      ∃ compiled, compile .default (above ++ below) = .ok compiled ∧
        compiled.diagnostics = [⟨.skippedElementWord "zz", some 3⟩] ∧
        compile .default (above ++ "\t " ++ "\r\n" ++ below) = .ok { compiled with
          diagnostics := [⟨.skippedElementWord "zz", some 4⟩] } := by
  intro above below
  have hfit : (Config.default).TabsFit := by decide
  have hrow : ∀ c ∈ ("\t " : Text), Text.isBlank c = true := List.all_eq_true.mp (by decide)
  have hinsert : Line.Inserts "\t " 1 (above ++ below) (above ++ "\t " ++ "\r\n" ++ below) :=
    @Line.Inserts.between "\t " above below "\r\n" (by decide) (by decide) (.inr (by decide))
  obtain ⟨hexists, hsame⟩ := blank_lines_inert .default hrow hinsert
  obtain ⟨compiled, ok⟩ := hexists hfit
  have hdiagnostics : compiled.diagnostics = [⟨.skippedElementWord "zz", some 3⟩] := by
    have h : (compile .default (above ++ below)).map Compiled.diagnostics =
        .ok [⟨.skippedElementWord "zz", some 3⟩] := by decide +kernel
    rw [ok] at h
    exact Except.ok.inj h
  refine ⟨hfit, hrow, hinsert, compiled, ok, hdiagnostics, ?_⟩
  rw [hsame, ok, Except.map, hdiagnostics]
  rfl

/-! ## 5. Comments -/

/-- Whether the line behind the first `n` of a source leaves the reach of all directives alone.
    Lines that declare variables and blank lines do not count. -/
def inertAt (config : Config) (source : Text) (n : Nat) : Bool :=
  let lines := Line.ofSource config.tabWidth source
  let standing := fun ls => Line.withoutVariables (Line.withoutBlanks ls)
  lines[n]?.any fun x =>
    inertBetween config (standing (lines.take n)) x (standing (lines.drop (n + 1)))

theorem Line.isBlank_of_comment {l : Line} (h : l.isComment = true) : l.isBlank = false := by
  cases ht : l.text with
  | nil => simp [isComment, ht] at h
  | cons c cs => simp [isBlank, ht]

/-- **A comment is inert where it leaves the reach of directives alone.** There it can be put into
    a source as a blank line can: the new source compiles to the same tree, the same stylesheet, and
    the same diagnostics, at the lines where those that they belong to now stand; and if tabs cannot
    be as wide as a unit, neither source compiles. -/
theorem comment_lines_inert (config : Config) {row source source' : Text} {n : Nat}
    (h : Line.Inserts row n source source')
    (hcomment : (Line.ofRow config.tabWidth (n + 1) row).isComment = true)
    (hinert : inertAt config source' n = true) :
    (config.TabsFit → ∃ compiled, compile config source = .ok compiled) ∧
      compile config source' = (compile config source).map fun compiled => { compiled with
        diagnostics := compiled.diagnostics.map (Diagnostic.renumber (Line.pastLine n)) } := by
  obtain ⟨before, after, rfl, hold, hnew⟩ := Line.ofSource_insert config.tabWidth h
  generalize Line.ofRow config.tabWidth (before.length + 1) row = x at hcomment hnew
  have hskip : x.isSkippable = true := by rw [Line.isSkippable, hcomment, Bool.or_true]
  have hbetween : inertBetween config (Line.withoutVariables (Line.withoutBlanks before)) x
      (Line.withoutVariables (Line.withoutBlanks after)) = true := by
    have hdrop : (before ++ x :: after).drop (before.length + 1) = after := by simp
    simpa [inertAt, hnew, hdrop] using hinert
  have hsolid : Line.withoutBlanks (before ++ x :: after) =
      Line.withoutBlanks before ++ x :: Line.withoutBlanks after := by
    simp [Line.withoutBlanks, Line.isBlank_of_comment hcomment]
  refine ⟨fun hfit => exists_compile hfit source, compile_of_inert config hold hnew ?_⟩
  calc compileLines config (before ++ x :: after)
      = compileLines config (Line.withoutBlanks before ++ x :: Line.withoutBlanks after) := by
        rw [← hsolid]
        exact (compileLines_withoutBlanks config [] _).symm
    _ = compileLines config (Line.withoutBlanks before ++ Line.withoutBlanks after) :=
        compileLines_insert config hskip hbetween
    _ = compileLines config (before ++ after) := by
        rw [Line.withoutBlanks, Line.withoutBlanks, ← List.filter_append]
        exact compileLines_withoutBlanks config [] _

/-- A comment with braces, in a directive that counts braces: it has as many of both. -/
theorem comment_lines_inert_in_directive :
    let above : Text := "$a = red\n@mobile \x7b\n\n"
    let below : Text := "  .card pad=8\n\x7d\np zz"
    let row : Text := "// \x7bnote\x7d"
    (Config.default).TabsFit ∧
      Line.Inserts row 3 (above ++ below) (above ++ row ++ "\n" ++ below) ∧
      (Line.ofRow 2 4 row).isComment = true ∧
      inertAt .default (above ++ row ++ "\n" ++ below) 3 = true ∧
      ∃ compiled, compile .default (above ++ below) = .ok compiled ∧
        compiled.diagnostics = [⟨.skippedElementWord "zz", some 6⟩] ∧
        compile .default (above ++ row ++ "\n" ++ below) = .ok { compiled with
          diagnostics := [⟨.skippedElementWord "zz", some 7⟩] } := by
  intro above below row
  have hfit : (Config.default).TabsFit := by decide
  have hinsert : Line.Inserts row 3 (above ++ below) (above ++ row ++ "\n" ++ below) :=
    @Line.Inserts.between row above below "\n" (by decide) (by decide) (.inr (by decide))
  have hcomment : (Line.ofRow 2 4 row).isComment = true := by decide
  have hinert : inertAt .default (above ++ row ++ "\n" ++ below) 3 = true := by decide +kernel
  obtain ⟨hexists, hsame⟩ := comment_lines_inert .default hinsert hcomment hinert
  obtain ⟨compiled, ok⟩ := hexists hfit
  have hdiagnostics : compiled.diagnostics = [⟨.skippedElementWord "zz", some 6⟩] := by
    have h : (compile .default (above ++ below)).map Compiled.diagnostics =
        .ok [⟨.skippedElementWord "zz", some 6⟩] := by decide +kernel
    rw [ok] at h
    exact Except.ok.inj h
  refine ⟨hfit, hinsert, hcomment, hinert, compiled, ok, hdiagnostics, ?_⟩
  rw [hsame, ok, Except.map, hdiagnostics]
  rfl

/-- **A comment can end a directive.** Under a first line without a brace, a comment that does not
    lie deeper ends the directive, and its rules become elements, at the top and inside the element
    tree. Between braces, a brace in a comment is counted. -/
theorem comment_ends_directive :
    let tags := fun source : Text => (compile .default source).map
      fun c => (Forest.labels c.root.children).map Element.tag
    let moves := fun above row below : Text =>
      Line.Inserts row (List.count '\n' above) (above ++ below) (above ++ row ++ "\n" ++ below) ∧
        (Line.ofRow 2 (List.count '\n' above + 1) row).isComment = true ∧
        tags (above ++ below) ≠ tags (above ++ row ++ "\n" ++ below)
    moves "@mobile\n" "// note" "  .card pad=8" ∧
      moves "p t=a\n  @mobile\n" "# note" "    p pad=8" ∧
      moves "@mobile \x7b\n" "  // \x7d" "  .card pad=8\n\x7d" := by
  intro tags moves
  exact ⟨⟨.between (by decide) (by decide) (.inr (by decide)), by decide, by decide +kernel⟩,
    ⟨.between (by decide) (by decide) (.inr (by decide)), by decide, by decide +kernel⟩,
    ⟨.between (by decide) (by decide) (.inr (by decide)), by decide, by decide +kernel⟩⟩

end OutlineMarkup
