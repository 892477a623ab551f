/-
  File:      OutlineMarkup/Proofs/Skippable.lean
  Subject:   Lines that carry nothing: when they can be left out.

  A blank line or a comment makes no statement and no rule, so what a directive does depends on its
  other lines only (`Block.tidy`). All that such a line can change is how far a directive reaches.
  It changes nothing

  * if the directive in progress covers it and it leaves the count of its braces alone
    (`Directive.absorbs`), or
  * if it stands behind the directive, and so does the line after it (`Directive.spares`),

  for the directives at the top and, if it is left to the body, for those inside the element tree
  (`inertBetween`). **`compileLines_insert`**: then compiling is the same with and without it. For
  blank lines this always holds (`compileLines_withoutBlanks`).
-/
import OutlineMarkup.Proofs.Reach
import OutlineMarkup.Proofs.Renumbering

namespace OutlineMarkup

/-! ## 1. Directives without their skippable lines -/

namespace Line

theorem isVariable_of_skippable {l : Line} (h : l.isSkippable = true) : l.isVariable = false := by
  cases ht : l.text with
  | nil => simp [isVariable, ht]
  | cons c cs =>
    by_cases hc : c = '$'
    · simp [isSkippable, isBlank, isComment, ht, hc] at h
    · simp [isVariable, ht, hc]

theorem isSkippable_of_blank {l : Line} (h : l.isBlank = true) : l.isSkippable = true := by
  rw [isSkippable, h, Bool.true_or]

/-- Lines that carry something. -/
def carries (l : Line) : Bool := !l.isSkippable

end Line

/-- Steps that leave the state alone can be left out. -/
theorem foldlM_filter_idle {m : Type → Type} [Monad m] [LawfulMonad m] {α β : Type}
    {f : α → β → m α} {q : β → Bool} (h : ∀ a x, q x = false → f a x = pure a) (xs : List β)
    (a : α) : (xs.filter q).foldlM f a = xs.foldlM f a := by
  induction xs generalizing a with
  | nil => rfl
  | cons x xs ih =>
    by_cases hx : q x = true
    · rw [List.filter_cons_of_pos hx, List.foldlM_cons, List.foldlM_cons]
      exact congrArg (f a x >>= ·) (funext ih)
    · rw [List.filter_cons_of_neg hx, List.foldlM_cons, h a x (Bool.eq_false_iff.mpr hx),
        pure_bind]
      exact ih a

namespace Directive

/-- The directive without its skippable lines. -/
def Block.tidy (b : Block) : Block := { b with lines := b.lines.filter Line.carries }

theorem contentTokens_idle {l : Line} (h : l.carries = false) : contentTokens l = [] := by
  have hs : l.isSkippable = true := by simpa [Line.carries] using h
  rw [contentTokens, if_pos hs]

theorem readSteps_tidy (d : Draft) (lines : List Line) :
    readSteps d (lines.filter Line.carries) = readSteps d lines := by
  unfold readSteps
  rw [foldlM_filter_idle]
  intro steps l hl
  rw [addStepLine, contentTokens_idle hl]

theorem addKeyframes_tidy (d : Draft) (name : Text) (lines : List Line) :
    addKeyframes d name (lines.filter Line.carries) = addKeyframes d name lines := by
  unfold addKeyframes
  rw [readSteps_tidy]

theorem mediaPieces_tidy (d : Draft) (lines : List Line) :
    mediaPieces d (lines.filter Line.carries) = mediaPieces d lines := by
  induction lines with
  | nil => rfl
  | cons l ls ih =>
    have hcons : ∀ ls, mediaPieces d (l :: ls) =
        mediaLine d l >>= fun p => mediaPieces d ls >>= fun ps => pure (p ++ ps) := by
      intro ls
      simp [mediaPieces]
    by_cases hl : l.carries = true
    · rw [List.filter_cons_of_pos hl, hcons, hcons, ih]
    · have hidle : mediaLine d l = pure [] := by
        rw [mediaLine, contentTokens_idle (Bool.eq_false_iff.mpr hl)]
      rw [List.filter_cons_of_neg hl, hcons, hidle, ih]
      simp

theorem mediaRules_tidy (d : Draft) (lines : List Line) :
    mediaRules d (lines.filter Line.carries) = mediaRules d lines := by
  unfold mediaRules
  rw [mediaPieces_tidy]

end Directive

namespace Draft

open Directive

theorem addBlock_tidy (d : Draft) (block : Block) : d.addBlock block.tidy = d.addBlock block := by
  unfold addBlock
  rw [show block.tidy.header = block.header from rfl]
  split
  · unfold addMedia
    rw [show block.tidy.lines = block.lines.filter Line.carries from rfl, mediaRules_tidy]
  · exact congrArg Except.ok (addKeyframes_tidy d _ block.lines)
  · rfl
  · rfl

theorem addTopLevel_tidy (d : Draft) (blocks : List Block) :
    d.addTopLevel (blocks.map Block.tidy) = d.addTopLevel blocks := by
  unfold addTopLevel
  rw [List.foldlM_map]
  exact congrArg (fun f => List.foldlM f d blocks)
    (funext fun d => funext fun block => (d.reportUnclosed block).addBlock_tidy block)

theorem inlineDeclarations_tidy (d : Draft) (lines : List Line) :
    d.inlineDeclarations (lines.filter Line.carries) = d.inlineDeclarations lines := by
  induction lines with
  | nil => rfl
  | cons l ls ih =>
    by_cases hl : l.carries = true
    · rw [List.filter_cons_of_pos hl]
      unfold inlineDeclarations
      rw [ih]
    · have hidle : inlineWords? l = none := by
        rw [inlineWords?, contentTokens_idle (Bool.eq_false_iff.mpr hl)]
      rw [List.filter_cons_of_neg hl, ih, inlineDeclarations, hidle]

theorem addInline_tidy (d : Draft) (block : Block) (hasTarget : Bool) :
    d.addInline block.tidy hasTarget = d.addInline block hasTarget := by
  have hstyle : ∀ (d : Draft) (query : Text),
      d.styleInline query block.tidy.lines = d.styleInline query block.lines := by
    intro d query
    unfold styleInline
    rw [show block.tidy.lines = block.lines.filter Line.carries from rfl, inlineDeclarations_tidy]
  unfold addInline
  dsimp only
  rw [addBlock_tidy, show block.tidy.header = block.header from rfl,
    show d.reportUnclosed block.tidy = d.reportUnclosed block from rfl]
  split
  · rw [hstyle]
    rfl
  · rfl

end Draft

/-- The statement, a directive without its skippable lines. -/
def Statement.tidy : Statement → Statement
  | .directive line block => .directive line block.tidy
  | s => s

theorem Statement.startsChild_tidy (line : Line) (opened : Bool) (ss : List Statement) :
    startsChild line opened (ss.map tidy) = startsChild line opened ss := by
  cases ss with
  | nil => rfl
  | cons s ss =>
    cases s with
    | element _ _ _ _ => rfl
    | openBrace _ => rfl
    | closeBrace _ => rfl
    | directive _ _ => rfl

theorem Statement.hasChildren_tidy (line : Line) (opens : Bool) (ss : List Statement) :
    hasChildren line opens (ss.map tidy) = hasChildren line opens ss := by
  cases opens with
  | true => exact startsChild_tidy line true ss
  | false =>
    cases ss with
    | nil => rfl
    | cons s ss =>
      cases s with
      | openBrace _ => exact startsChild_tidy line true ss
      | element _ _ _ _ => rfl
      | closeBrace _ => rfl
      | directive _ _ => rfl

namespace Outline

theorem step_tidy (o : Outline) (s : Statement) (following : List Statement) :
    o.step s.tidy (following.map Statement.tidy) = o.step s following := by
  cases s with
  | element line code words opens =>
    show (o.settle line.indent).addElement line code words opens _ = _
    unfold addElement
    rw [Statement.hasChildren_tidy]
    rfl
  | openBrace line => rfl
  | closeBrace line => rfl
  | directive line block =>
    show (o.settle line.indent).addDirective block.tidy = _
    unfold addDirective
    rw [Draft.addInline_tidy]
    rfl

/-- **The skippable lines of directives have no effect on the forest and the draft.** -/
theorem run_tidy (o : Outline) (ss : List Statement) :
    o.run (ss.map Statement.tidy) = o.run ss := by
  induction ss generalizing o with
  | nil => rfl
  | cons s following ih =>
    rw [List.map_cons, run, run, step_tidy]
    exact congrArg (o.step s following >>= ·) (funext ih)

end Outline

/-! ## 2. Lines that leave the reach of directives alone -/

namespace Directive

/-- Whether the directive in progress takes a line in without any other change. -/
def absorbs (isOpening : Line → Bool) (before : List Line) (x : Line) : Bool :=
  (reachAfter isOpening before).any fun r => r.covers x && r.after x == r

/-- Whether neither a line nor the one after it belongs to a directive in progress. -/
def spares (isOpening : Line → Bool) (before : List Line) (x : Line) (after : List Line) : Bool :=
  (reachAfter isOpening before).all fun r => !r.covers x && after.head?.all fun l => !r.covers l

theorem absorbs_iff {isOpening : Line → Bool} {before : List Line} {x : Line} :
    absorbs isOpening before x = true ↔
      ∃ r, reachAfter isOpening before = some r ∧ r.covers x = true ∧ r.after x = r := by
  simp [absorbs, Option.any_eq_true]

theorem spares_iff {isOpening : Line → Bool} {before after : List Line} {x : Line} :
    spares isOpening before x after = true ↔
      ∀ r, reachAfter isOpening before = some r →
        r.covers x = false ∧ ∀ l, after.head? = some l → r.covers l = false := by
  simp [spares, Option.all_eq_true]

/-- A blank line never matters to a directive. -/
theorem absorbs_or_spares_of_blank (isOpening : Line → Bool) (before : List Line) {x : Line}
    (h : x.isBlank = true) (after : List Line) :
    absorbs isOpening before x = true ∨ spares isOpening before x after = true := by
  have ht : x.text = [] := List.isEmpty_iff.mp h
  cases hr : reachAfter isOpening before with
  | none =>
    right
    rw [spares, hr]
    rfl
  | some r =>
    cases r with
    | deeper indent => exact .inl (absorbs_iff.mpr ⟨_, hr, by simp [Reach.covers, h], rfl⟩)
    | braces count =>
      by_cases hc : 0 < count
      · refine .inl (absorbs_iff.mpr ⟨_, hr, by simpa [Reach.covers] using hc, ?_⟩)
        simp [Reach.after, ht, Token.braceBalance, Token.braceBalanceFrom]
      · -- all braces are closed: the directive is over
        right
        rw [spares_iff, hr]
        intro r' hr'
        obtain rfl := Option.some.inj hr'
        have hover : ∀ l, (Reach.braces count).covers l = false := fun l => decide_eq_false hc
        exact ⟨hover x, fun l _ => hover l⟩

theorem foldl_after_braces (count : Int) (ls : List Line) :
    ls.foldl Reach.after (Reach.braces count) = Reach.braces (depthAfter count ls) := by
  induction ls generalizing count with
  | nil => rfl
  | cons l ls ih => exact ih _

/-- A skippable line among those of a directive makes no difference to it if it leaves the reach
    alone. -/
theorem Block.ofBody_insert {x opening : Line} (hx : x.isSkippable = true) {b₁ : List Line}
    (hk : (b₁.foldl Reach.after (Reach.ofOpening opening)).after x =
      b₁.foldl Reach.after (Reach.ofOpening opening))
    (breakpoints : Table Text Text) (unit : Int) (b₂ : List Line) :
    (ofBody breakpoints unit opening (b₁ ++ x :: b₂)).tidy =
      (ofBody breakpoints unit opening (b₁ ++ b₂)).tidy := by
  have hidle : x.carries = false := by simp [Line.carries, hx]
  have hlines : ∀ rule : List Line, (rule ++ (b₁ ++ x :: b₂)).filter Line.carries =
      (rule ++ (b₁ ++ b₂)).filter Line.carries := by
    intro rule
    simp [List.filter_append, hidle]
  unfold ofBody
  split
  · simp only [tidy, hlines]
  · rename_i head rest hcut
    rw [Reach.ofOpening, hcut] at hk
    simp only [foldl_after_braces, Reach.after, Reach.braces.injEq] at hk
    have hdepth : depthAfter (1 + Token.braceBalance rest) (b₁ ++ x :: b₂) =
        depthAfter (1 + Token.braceBalance rest) (b₁ ++ b₂) := by
      unfold depthAfter at hk ⊢
      rw [List.foldl_append, List.foldl_cons, hk, List.foldl_append]
    simp only [tidy, hlines, hdepth]

/-! ## 3. Leaving a line out -/

section Insert

variable (config : Config) {before : List Line} (after : List Line) {x : Line}

theorem takeTopLevel_absorbs (hx : x.isSkippable = true)
    (h : absorbs opensTop before x = true) :
    (takeTopLevel config 0 (before ++ x :: after)).1.map Block.tidy =
        (takeTopLevel config 0 (before ++ after)).1.map Block.tidy ∧
      (takeTopLevel config 0 (before ++ x :: after)).2 =
        (takeTopLevel config 0 (before ++ after)).2 := by
  obtain ⟨r, hr, hc, hk⟩ := absorbs_iff.mp h
  obtain ⟨ss, hss⟩ := exists_cuts opensTop _ (before ++ after) (Nat.le_refl _)
  obtain ⟨first, last, opening, b₁, b₂, rfl, rfl, hcut⟩ := Cuts.insert hr hc hk hss
  have htidy := Block.ofBody_insert hx hk config.breakpoints config.indentUnit b₂
  rw [hcut.takeTopLevel config, hss.takeTopLevel config]
  constructor
  · simp [Segment.block?, htidy]
  · simp [List.filterMap_cons, Segment.line?]

theorem takeTopLevel_append
    (h : ∀ r l, reachAfter opensTop before = some r → after.head? = some l → r.covers l = false) :
    takeTopLevel config 0 (before ++ after) =
      ((takeTopLevel config 0 before).1 ++ (takeTopLevel config 0 after).1,
        (takeTopLevel config 0 before).2 ++ (takeTopLevel config 0 after).2) := by
  obtain ⟨ss, hss⟩ := exists_cuts opensTop _ before (Nat.le_refl _)
  obtain ⟨ts, hts⟩ := exists_cuts opensTop _ after (Nat.le_refl _)
  rw [(hss.append hts h).takeTopLevel config, hss.takeTopLevel config, hts.takeTopLevel config]
  simp

theorem ofLinesFrom_insert (hx : x.isSkippable = true)
    (h : absorbs Line.isDirective before x = true ∨
      spares Line.isDirective before x after = true) :
    (Statement.ofLinesFrom config 0 (before ++ x :: after)).map Statement.tidy =
      (Statement.ofLinesFrom config 0 (before ++ after)).map Statement.tidy := by
  rcases h with h | h
  · obtain ⟨r, hr, hc, hk⟩ := absorbs_iff.mp h
    obtain ⟨ss, hss⟩ := exists_cuts Line.isDirective _ (before ++ after) (Nat.le_refl _)
    obtain ⟨first, last, opening, b₁, b₂, rfl, rfl, hcut⟩ := Cuts.insert hr hc hk hss
    have htidy := Block.ofBody_insert hx hk config.breakpoints config.indentUnit b₂
    rw [hcut.ofLinesFrom config, hss.ofLinesFrom config]
    simp [Segment.statement?, Statement.tidy, htidy]
  · obtain ⟨ss, hss⟩ := exists_cuts Line.isDirective _ before (Nat.le_refl _)
    obtain ⟨ts, hts⟩ := exists_cuts Line.isDirective _ after (Nat.le_refl _)
    have hx' : Cuts Line.isDirective (x :: after) (.line x :: ts) :=
      .line (Line.isDirective_of_skippable hx) hts
    have hboth := hss.append hts fun r l hr hl => (spares_iff.mp h r hr).2 l hl
    have hmore := hss.append hx' fun r l hr hl => by
      obtain rfl := Option.some.inj hl
      exact (spares_iff.mp h r hr).1
    have hnone : Segment.statement? config (.line x) = none := Statement.ofLine?_skippable hx
    rw [hboth.ofLinesFrom config, hmore.ofLinesFrom config]
    simp [hnone]

end Insert

end Directive

/-- The lines of a body, its blocks written out, that lines without variables leave over. -/
def writtenBody (config : Config) (ls : List Line) : List Line :=
  (Directive.takeTopLevel config 0 ls).2.flatMap (Statement.writeOut config)

/-- Whether a skippable line between others leaves the reach of all directives alone. -/
def inertBetween (config : Config) (before : List Line) (x : Line) (after : List Line) : Bool :=
  Directive.absorbs Directive.opensTop before x ||
    Directive.spares Directive.opensTop before x after &&
      (Directive.absorbs Line.isDirective (writtenBody config before) x ||
        Directive.spares Line.isDirective (writtenBody config before) x (writtenBody config after))

theorem inertBetween_of_blank (config : Config) (before : List Line) {x : Line}
    (h : x.isBlank = true) (after : List Line) : inertBetween config before x after = true := by
  have htop := Directive.absorbs_or_spares_of_blank Directive.opensTop before h after
  have hbody := Directive.absorbs_or_spares_of_blank Line.isDirective (writtenBody config before) h
    (writtenBody config after)
  simp only [inertBetween, Bool.or_eq_true, Bool.and_eq_true]
  exact htop.imp_right fun hs => ⟨hs, hbody⟩

theorem Draft.readBody_insert (d : Draft) {before after : List Line} {x : Line}
    (hx : x.isSkippable = true)
    (h : Directive.absorbs Line.isDirective (before.flatMap (Statement.writeOut d.config)) x =
        true ∨
      Directive.spares Line.isDirective (before.flatMap (Statement.writeOut d.config)) x
        (after.flatMap (Statement.writeOut d.config)) = true) :
    d.readBody (before ++ x :: after) = d.readBody (before ++ after) := by
  have hwrite : Statement.writeOut d.config x = [x] := by
    rw [Statement.writeOut, hx, Bool.true_or, if_pos rfl]
  have htidy := Directive.ofLinesFrom_insert d.config _ hx h
  have hstatements : (Statement.ofLines d.config (before ++ x :: after)).map Statement.tidy =
      (Statement.ofLines d.config (before ++ after)).map Statement.tidy := by
    unfold Statement.ofLines
    rw [List.flatMap_append, List.flatMap_cons, hwrite, List.flatMap_append]
    exact htidy
  unfold readBody
  rw [← Outline.run_tidy, hstatements, Outline.run_tidy]

/-- Compiles lines, wherever they come from. -/
def compileLines (config : Config) (lines : List Line) : Except Fault Compiled :=
  (Passes.ofLines config lines).map Passes.result

theorem compile_eq_compileLines {config : Config} (hfit : config.TabsFit) (source : Text) :
    compile config source = compileLines config (Line.ofSource config.tabWidth source) := by
  unfold compile compileLines
  rw [Passes.run_of_tabsFit hfit]
  cases Passes.ofLines config (Line.ofSource config.tabWidth source) with
  | error fault => rfl
  | ok p => rfl

/-- What a compile of lines does, step by step. -/
theorem compileLines_eq (config : Config) (lines : List Line) :
    compileLines config lines =
      (let d := ((Draft.empty config).takeVariables lines).1
       let taken := Directive.takeTopLevel config 0 ((Draft.empty config).takeVariables lines).2
       do
        let d ← d.addTopLevel taken.1
        let (forest, d) ← d.readBody taken.2
        return ⟨⟨{ tag := "div", id := d.config.rootId }, forest.prune⟩, d.stylesheet,
          d.diagnostics⟩) := by
  unfold compileLines Passes.ofLines
  dsimp only
  cases ((Draft.empty config).takeVariables lines).1.addTopLevel
    (Directive.takeTopLevel config 0 ((Draft.empty config).takeVariables lines).2).1 with
  | error fault => rfl
  | ok d =>
    show Except.map _ (d.readBody _ >>= _) = (d.readBody _ >>= _)
    cases d.readBody
      (Directive.takeTopLevel config 0 ((Draft.empty config).takeVariables lines).2).2 with
    | error fault => rfl
    | ok r => rfl

/-- The lines that declare no variable. -/
def Line.withoutVariables (ls : List Line) : List Line := ls.filter fun l => !l.isVariable

/-- **A skippable line that leaves the reach of all directives alone can be left out.** -/
theorem compileLines_insert (config : Config) {before after : List Line} {x : Line}
    (hx : x.isSkippable = true)
    (h : inertBetween config (Line.withoutVariables before) x (Line.withoutVariables after) =
      true) :
    compileLines config (before ++ x :: after) = compileLines config (before ++ after) := by
  have hv : x.isVariable = false := Line.isVariable_of_skippable hx
  have hvars : (Draft.empty config).takeVariables (before ++ x :: after) =
      (((Draft.empty config).takeVariables (before ++ after)).1,
        Line.withoutVariables before ++ x :: Line.withoutVariables after) := by
    simp [Draft.takeVariables, Line.withoutVariables, hv]
  have hrest : ((Draft.empty config).takeVariables (before ++ after)).2 =
      Line.withoutVariables before ++ Line.withoutVariables after := by
    simp [Draft.takeVariables, Line.withoutVariables]
  have hconfig := Draft.takeVariables_config (Draft.empty config) (before ++ after)
  rw [compileLines_eq, compileLines_eq, hvars, hrest]
  dsimp only
  generalize ((Draft.empty config).takeVariables (before ++ after)).1 = d at hconfig ⊢
  generalize Line.withoutVariables before = before at h ⊢
  generalize Line.withoutVariables after = after at h ⊢
  simp only [inertBetween, Bool.or_eq_true, Bool.and_eq_true] at h
  rcases h with habsorb | ⟨hspare, hbody⟩
  · obtain ⟨hblocks, hlines⟩ := Directive.takeTopLevel_absorbs config after hx habsorb
    rw [hlines, ← Draft.addTopLevel_tidy, hblocks, Draft.addTopLevel_tidy]
  · have hwith := Directive.takeTopLevel_append config (x :: after) fun r l hr hl => by
      obtain rfl := Option.some.inj hl
      exact (Directive.spares_iff.mp hspare r hr).1
    have hwithout := Directive.takeTopLevel_append config after fun r l hr hl =>
      (Directive.spares_iff.mp hspare r hr).2 l hl
    have htop : ¬(x.isDirective && x.indent == 0) = true := by
      simp [Line.isDirective_of_skippable hx]
    have hcons : Directive.takeTopLevel config 0 (x :: after) =
        ((Directive.takeTopLevel config 0 after).1,
          x :: (Directive.takeTopLevel config 0 after).2) := by
      rw [Directive.takeTopLevel, if_neg htop]
    rw [hwith, hwithout, hcons]
    dsimp only
    obtain ⟨d', ok, hc'⟩ := d.addTopLevel_ok
      ((Directive.takeTopLevel config 0 before).1 ++ (Directive.takeTopLevel config 0 after).1)
    have hd' : d'.config = config := hc'.trans hconfig
    rw [ok]
    show (d'.readBody _ >>= _) = (d'.readBody _ >>= _)
    rw [d'.readBody_insert hx (by rw [hd']; exact hbody)]

/-- The lines without the blank ones. -/
def Line.withoutBlanks (ls : List Line) : List Line := ls.filter fun l => !l.isBlank

/-- **Blank lines can be left out, all of them.** -/
theorem compileLines_withoutBlanks (config : Config) (before ls : List Line) :
    compileLines config (before ++ Line.withoutBlanks ls) = compileLines config (before ++ ls) := by
  induction ls generalizing before with
  | nil => rfl
  | cons l ls ih =>
    by_cases hl : l.isBlank = true
    · rw [Line.withoutBlanks, List.filter_cons_of_neg (by simp [hl])]
      have hinsert : compileLines config (before ++ l :: ls) = compileLines config (before ++ ls) :=
        compileLines_insert config (Line.isSkippable_of_blank hl)
          (inertBetween_of_blank config _ hl _)
      rw [hinsert]
      exact ih before
    · have hkept := ih (before ++ [l])
      rw [List.append_assoc, List.append_assoc] at hkept
      rw [Line.withoutBlanks, List.filter_cons_of_pos (by simp [hl])]
      exact hkept

end OutlineMarkup
