/-
  File:      OutlineMarkup/Proofs/Scaling.lean
  Subject:   Indentations count only in units.

  Indentations are compared with each other, are moved by a unit, and are divided by it. All of this
  stays the same if every indentation and the unit are multiplied by one positive factor. Each
  function that sees an indentation commutes with the factor:

  * `Draft.addElement_scale`, `Draft.addBlock_scale`, `Draft.addInline_scale`: elements, by their
    depth, and directives, which do not look at the indentation of their lines;
  * `Directive.collect_scale`, `Line.writeOut_scale`, `Statement.ofLines_scale`: lines that are cut
    into statements, and lines that are made up on the way;
  * `Outline.step_scale`, `Outline.run_scale`: statements, one and all of them;
  * **`compileLines_scale`**: a compile gives the same.
-/
import OutlineMarkup.Proofs.Skippable

namespace OutlineMarkup

variable {u : Int} (hu : 0 < u)

/-! ## 1. What has an indentation -/

/-- The line with its indentation multiplied. -/
def Line.scale (u : Int) (l : Line) : Line := { l with indent := l.indent * u }

/-- The settings with the unit of indentation multiplied. -/
def Config.scale (config : Config) : Config :=
  { config with
    indentUnit := config.indentUnit * u
    indentUnit_pos := Int.mul_pos config.indentUnit_pos hu }

/-- The draft under settings with another unit. -/
def Draft.scale (d : Draft) : Draft := { d with config := d.config.scale hu }

/-- The directive with other indentations. -/
def Directive.Block.scale (u : Int) (b : Block) : Block :=
  { b with lines := b.lines.map (Line.scale u) }

/-- The statement with other indentations. -/
def Statement.scale (u : Int) : Statement → Statement
  | .element line code words opens => .element (line.scale u) code words opens
  | .openBrace line => .openBrace (line.scale u)
  | .closeBrace line => .closeBrace (line.scale u)
  | .directive line block => .directive (line.scale u) (block.scale u)

/-- The scope with another margin. -/
def Scope.scale (u : Int) (s : Scope) : Scope := { s with margin := s.margin.map (· * u) }

/-- The state between two statements, after statements with other indentations. -/
def Outline.scale (o : Outline) : Outline :=
  ⟨o.draft.scale hu, o.scope.scale u, o.enclosing.map (Scope.scale u)⟩

/-! What the factor leaves as it was. The text decides what a line is; its indentation decides only
    where it belongs. -/

section Fields

variable (u) (l : Line) (b : Directive.Block) (s : Scope)

@[simp] theorem Line.text_scale : (l.scale u).text = l.text := rfl

@[simp] theorem Line.isSkippable_scale : (l.scale u).isSkippable = l.isSkippable := rfl

@[simp] theorem Line.isDirective_scale : (l.scale u).isDirective = l.isDirective := rfl

@[simp] theorem Directive.Block.header_scale : (b.scale u).header = b.header := rfl

@[simp] theorem Scope.entries_scale : (s.scale u).entries = s.entries := rfl

end Fields

/-! ## 2. Elements

    An element has a depth, which is the indentation of its line divided by the unit, rounded down.
    Factor and unit cancel, and this is why the unit is multiplied as well. -/

include hu in
/-- The depth of a line in units. -/
theorem Line.depth_scale (l : Line) (unit : Int) : (l.scale u).depth (unit * u) = l.depth unit :=
  Int.mul_fdiv_mul_of_pos_left l.indent unit hu

/-- The depth is all that an element takes from its line besides the text. -/
theorem ElementPlan.read_scale (d : Draft) (line : Line) (code : Text) (words : List Text)
    (hasChildren : Bool) :
    ElementPlan.read (d.scale hu) (line.scale u) code words hasChildren =
      ElementPlan.read d line code words hasChildren := by
  -- of the draft the pairs see the variables and the animations, but not the unit
  have hpair : Attire.addPair (d.scale hu) = Attire.addPair d := rfl
  have hdepth : (line.scale u).depth (d.scale hu).config.indentUnit =
      line.depth d.config.indentUnit := line.depth_scale hu d.config.indentUnit
  unfold ElementPlan.read
  rw [hpair, hdepth]
  rfl

namespace Draft

/-- A class and its rule do not depend on the unit. -/
theorem addStyle_scale (s : Element × Draft) (t : Text) :
    addStyle (s.1, s.2.scale hu) t = (addStyle s t).map fun r => (r.1, r.2.scale hu) := by
  unfold addStyle addUtility classFor
  dsimp only [scale]
  cases s.2.classes.classFor t with
  | error fault => rfl
  | ok r => rfl

/-- **An element line makes the same element**, its depth included. -/
theorem addElement_scale (d : Draft) (line : Line) (code : Text) (words : List Text)
    (hasChildren : Bool) :
    (d.scale hu).addElement (line.scale u) code words hasChildren =
      (d.addElement line code words hasChildren).map fun r => (r.1, r.2.scale hu) := by
  unfold addElement
  dsimp only
  rw [ElementPlan.read_scale]
  exact foldlM_commutes (addStyle_scale hu) _ (_, d.absorb _)

end Draft

/-! ## 3. Directives

    Once its lines are collected, a directive reads their text and their numbers. So the results are
    equal as they stand, and the factor shows up again only in the settings of the draft. -/

namespace Directive

/-- The steps of an animation are read from the text of its lines. -/
theorem readSteps_scale (d : Draft) (lines : List Line) :
    readSteps (d.scale hu) (lines.map (Line.scale u)) = readSteps d lines := by
  unfold readSteps
  rw [List.foldlM_map]
  rfl

theorem addKeyframes_scale (d : Draft) (name : Text) (lines : List Line) :
    addKeyframes (d.scale hu) name (lines.map (Line.scale u)) =
      (addKeyframes d name lines).scale hu := by
  rw [addKeyframes_eq, addKeyframes_eq, readSteps_scale]
  rfl

/-- So are the selectors and declarations of a media block. -/
theorem mediaPieces_scale (d : Draft) (lines : List Line) :
    mediaPieces (d.scale hu) (lines.map (Line.scale u)) = mediaPieces d lines := by
  unfold mediaPieces
  rw [List.mapM_map]
  rfl

/-- The rules of a media block and the classes named for them are the same. -/
theorem mediaRules_scale (d : Draft) (lines : List Line) :
    mediaRules (d.scale hu) (lines.map (Line.scale u)) =
      (mediaRules d lines).map fun r => (r.1, r.2.scale hu) := by
  unfold mediaRules
  dsimp only
  rw [mediaPieces_scale]
  -- what is left is the loop over the pieces, in which the settings do not occur
  show (List.foldlM addPiece (RuleBlock.empty, d.classes) (mediaPieces d lines).value >>= _) = _
  cases (mediaPieces d lines).value.foldlM addPiece (RuleBlock.empty, d.classes) with
  | error fault => rfl
  | ok r => rfl

end Directive

namespace Draft

open Directive

theorem reportUnclosed_scale (d : Draft) (block : Block) :
    (d.scale hu).reportUnclosed (block.scale u) = (d.reportUnclosed block).scale hu := by
  show (if block.terminated then _ else _) = _
  unfold reportUnclosed
  split
  · rfl
  · rfl

theorem addMedia_scale (d : Draft) (query : Text) (lines : List Line) :
    (d.scale hu).addMedia query (lines.map (Line.scale u)) =
      (d.addMedia query lines).map (scale hu) := by
  unfold addMedia
  rw [mediaRules_scale]
  cases mediaRules d lines with
  | error fault => rfl
  | ok r =>
    show Except.ok (if r.1.isEmpty = true then _ else _) =
      Except.ok (Draft.scale hu (if r.1.isEmpty = true then _ else _))
    split
    · rfl
    · rfl

/-- A directive by its kind: media, keyframes, and two kinds that are only reported. -/
theorem addBlock_scale (d : Draft) (block : Block) :
    (d.scale hu).addBlock (block.scale u) = (d.addBlock block).map (scale hu) := by
  unfold addBlock
  rw [Directive.Block.header_scale]
  split
  · exact d.addMedia_scale hu _ block.lines
  · exact congrArg Except.ok (addKeyframes_scale hu d _ block.lines)
  · rfl
  · rfl

/-- All directives of the first column, in their order. -/
theorem addTopLevel_scale (d : Draft) (blocks : List Block) :
    (d.scale hu).addTopLevel (blocks.map (Block.scale u)) =
      (d.addTopLevel blocks).map (scale hu) := by
  unfold addTopLevel
  rw [List.foldlM_map]
  refine foldlM_commutes (fun d block => ?_) blocks d
  rw [reportUnclosed_scale, addBlock_scale]

/-- The first line with declarations is the same one, and it declares the same. -/
theorem inlineDeclarations_scale (d : Draft) (lines : List Line) :
    (d.scale hu).inlineDeclarations (lines.map (Line.scale u)) = d.inlineDeclarations lines := by
  induction lines with
  | nil => rfl
  | cons line lines ih =>
    have hwords : inlineWords? (line.scale u) = inlineWords? line := rfl
    have hresolve : resolveWords (d.scale hu) = resolveWords d := rfl
    rw [List.map_cons, inlineDeclarations, inlineDeclarations, ih, hwords, hresolve]
    rfl

theorem styleInline_scale (d : Draft) (query : Text) (lines : List Line) :
    (d.scale hu).styleInline query (lines.map (Line.scale u)) =
      (d.styleInline query lines).map fun r => (r.1, r.2.scale hu) := by
  unfold styleInline
  dsimp only
  rw [inlineDeclarations_scale]
  split
  · rfl
  · unfold classFor
    dsimp only [scale, absorb]
    cases d.classes.classFor (d.inlineDeclarations lines).value.text with
    | error fault => rfl
    | ok r => rfl

/-- **A directive under an element gives it the same class.** -/
theorem addInline_scale (d : Draft) (block : Block) (hasTarget : Bool) :
    (d.scale hu).addInline (block.scale u) hasTarget =
      (d.addInline block hasTarget).map fun r => (r.1, r.2.scale hu) := by
  unfold addInline
  dsimp only
  rw [reportUnclosed_scale, addBlock_scale, Block.header_scale]
  split
  · split
    · exact (d.reportUnclosed block).styleInline_scale hu _ block.lines
    · rfl
  · cases (d.reportUnclosed block).addBlock block with
    | error fault => rfl
    | ok d' => rfl

end Draft

/-! ## 4. Cutting lines into statements

    Here indentations are compared: with the line of a directive, to find its end, and with column
    0. A positive factor keeps both comparisons. Lines that are made up on the way stand a unit
    deeper than the line they come from, and the unit is multiplied too. -/

namespace Directive

theorem bracedExtent_scale (depth : Int) (ls : List Line) :
    bracedExtent depth (ls.map (Line.scale u)) = bracedExtent depth ls := by
  induction ls generalizing depth with
  | nil => rfl
  | cons l ls ih =>
    rw [List.map_cons, bracedExtent, bracedExtent, ih]
    rfl

include hu in
/-- A line further right than the directive stays further right, since the factor is positive. -/
theorem belongs_scale (opening l : Line) :
    belongs (opening.scale u) (l.scale u) = belongs opening l := by
  have hlt : opening.indent * u < l.indent * u ↔ opening.indent < l.indent :=
    Int.mul_lt_mul_right hu
  exact congrArg (l.isBlank || ·) (decide_eq_decide.mpr hlt)

include hu in
/-- A directive takes as many lines as before. Braces are counted in the text; only the end by
    indentation needs the factor to be positive. -/
theorem extent_scale (l : Line) (ls : List Line) :
    extent (l.scale u) (ls.map (Line.scale u)) = extent l ls := by
  unfold extent
  rw [Line.text_scale]
  split
  · rw [List.takeWhile_map, List.length_map]
    exact congrArg (fun p => (ls.takeWhile p).length) (funext fun x => belongs_scale hu l x)
  · exact bracedExtent_scale _ ls

include hu in
/-- A directive keeps its lines, and a rule on its first line stays one unit deeper. -/
theorem collect_scale (breakpoints : Table Text Text) (unit : Int) (l : Line) (ls : List Line) :
    collect breakpoints (unit * u) (l.scale u) (ls.map (Line.scale u)) =
      (collect breakpoints unit l ls).scale u := by
  have hrule : ∀ rule, ruleOnHeader (unit * u) (l.scale u) rule =
      (ruleOnHeader unit l rule).map (Line.scale u) := by
    intro rule
    -- one unit deeper, before and after
    have hdeeper : (l.scale u).indent + unit * u = (l.indent + unit) * u :=
      (Int.add_mul l.indent unit u).symm
    unfold ruleOnHeader
    dsimp only
    rw [hdeeper]
    split
    · rfl
    · rfl
  have hafter : ∀ depth (ls : List Line),
      depthAfter depth (ls.map (Line.scale u)) = depthAfter depth ls := by
    intro depth ls
    unfold depthAfter
    rw [List.foldl_map]
    rfl
  unfold collect
  rw [extent_scale hu, ← List.map_take, Line.text_scale]
  split
  · simp only [Block.scale, hrule, List.map_append]
    rfl
  · simp only [Block.scale, hrule, List.map_append, hafter]
    rfl

/-- Column 0 stays column 0. -/
theorem takeTopLevel_scale (config : Config) (k : Nat) (ls : List Line) :
    takeTopLevel (config.scale hu) k (ls.map (Line.scale u)) =
      ((takeTopLevel config k ls).1.map (Block.scale u),
        (takeTopLevel config k ls).2.map (Line.scale u)) := by
  induction ls generalizing k with
  | nil => rfl
  | cons l ls ih =>
    cases k with
    | succ k => exact ih k
    | zero =>
      -- a factor of 0 would move all lines to column 0
      have hcolumn : ((l.scale u).indent == 0) = (l.indent == 0) := by
        have hzero : l.indent * u = 0 ↔ l.indent = 0 := by
          rw [Int.mul_eq_zero]
          omega
        rw [Bool.eq_iff_iff, beq_iff_eq, beq_iff_eq]
        exact hzero
      have hcollect := collect_scale hu config.breakpoints config.indentUnit l ls
      rw [List.map_cons]
      unfold takeTopLevel
      rw [Line.isDirective_scale, hcolumn, extent_scale hu, ih, ih]
      split
      · exact congrArg (fun b => (b :: _, _)) hcollect
      · rfl

end Directive

namespace Line

include hu in
/-- Lines written out of one line go deeper by a unit, and back, but not left of it. -/
theorem writeOut_scale (line : Line) (unit : Int) (tokens : List Text) (indent : Int)
    (current : List Text) :
    writeOut (line.scale u) (unit * u) (indent * u) current tokens =
      (writeOut line unit indent current tokens).map (Line.scale u) := by
  have htokens : ∀ indent current, ofTokens line.number (indent * u) current =
      (ofTokens line.number indent current).map (Line.scale u) := by
    intro indent current
    unfold ofTokens
    split
    · rfl
    · rfl
  -- going back stops at the line itself, so that a maximum is taken
  have hmax : ∀ a b : Int, max (a * u) (b * u) = max a b * u := by
    intro a b
    rcases Int.le_total a b with h | h
    · rw [Int.max_eq_right h,
        Int.max_eq_right (Int.mul_le_mul_of_nonneg_right h (Int.le_of_lt hu))]
    · rw [Int.max_eq_left h, Int.max_eq_left (Int.mul_le_mul_of_nonneg_right h (Int.le_of_lt hu))]
  induction tokens generalizing indent current with
  | nil => exact htokens indent current
  | cons token tokens ih =>
    have hback : max (line.scale u).indent (indent * u - unit * u) =
        max line.indent (indent - unit) * u := by
      rw [← Int.sub_mul]
      exact hmax line.indent (indent - unit)
    unfold writeOut
    split
    · rw [← Int.add_mul, ih]
      rfl
    · split
      · dsimp only
        rw [hback, ih, List.map_append]
        exact congrArg (· ++ _) (htokens indent current)
      · exact ih indent (current ++ [token])

end Line

namespace Statement

theorem writeOut_scale (config : Config) (line : Line) :
    writeOut (config.scale hu) (line.scale u) = (writeOut config line).map (Line.scale u) := by
  unfold writeOut
  rw [Line.isSkippable_scale, Line.isDirective_scale]
  split
  · rfl
  · unfold Line.expand
    dsimp only
    rw [Line.text_scale]
    split
    · exact line.writeOut_scale hu config.indentUnit _ line.indent []
    · rfl

/-- What kind of statement a line is can be read from its text. -/
theorem ofLine?_scale (line : Line) : ofLine? (line.scale u) = (ofLine? line).map (scale u) := by
  unfold ofLine?
  rw [Line.isSkippable_scale, Line.text_scale]
  split
  · rfl
  · split
    · rfl
    · split
      · rfl
      · split
        · rfl
        · split
          · rfl
          · rfl

/-- The `k` lines of a directive that are passed over are the same ones. -/
theorem ofLinesFrom_scale (config : Config) (k : Nat) (ls : List Line) :
    ofLinesFrom (config.scale hu) k (ls.map (Line.scale u)) =
      (ofLinesFrom config k ls).map (scale u) := by
  induction ls generalizing k with
  | nil => rfl
  | cons l ls ih =>
    cases k with
    | succ k => exact ih k
    | zero =>
      have hcollect := Directive.collect_scale hu config.breakpoints config.indentUnit l ls
      rw [List.map_cons]
      unfold ofLinesFrom
      rw [Line.isDirective_scale, Directive.extent_scale hu, ofLine?_scale, ih, ih]
      split
      -- `config.scale` has to be seen through for the unit, which is why this is no `rw`
      · exact congrArg (fun b => Statement.directive (l.scale u) b :: _) hcollect
      · rw [List.map_append]
        cases ofLine? l with
        | none => rfl
        | some s => rfl

/-- **The statements of scaled lines are the scaled statements.** -/
theorem ofLines_scale (config : Config) (lines : List Line) :
    ofLines (config.scale hu) (lines.map (Line.scale u)) =
      (ofLines config lines).map (scale u) := by
  have hwrite : (lines.map (Line.scale u)).flatMap (writeOut (config.scale hu)) =
      (lines.flatMap (writeOut config)).map (Line.scale u) := by
    rw [List.flatMap_map, List.map_flatMap]
    exact congrArg (List.flatMap · lines) (funext fun l => writeOut_scale hu config l)
  unfold ofLines
  rw [hwrite, ofLinesFrom_scale]

include hu in
/-- A child stands deeper than its parent, or in its braces. -/
theorem startsChild_scale (line : Line) (opened : Bool) (ss : List Statement) :
    startsChild (line.scale u) opened (ss.map (scale u)) = startsChild line opened ss := by
  have hdeeper : ∀ l : Line,
      (opened || decide (line.indent * u < l.indent * u)) =
        (opened || decide (line.indent < l.indent)) := fun l =>
    congrArg (opened || ·) (decide_eq_decide.mpr (Int.mul_lt_mul_right hu))
  cases ss with
  | nil => rfl
  | cons s ss =>
    cases s with
    | element l _ _ _ => exact hdeeper l
    | openBrace l => exact hdeeper l
    | closeBrace _ => rfl
    | directive _ _ => rfl

include hu in
/-- Whether an element has children is asked with the brace taken into account that may follow it on
    a line of its own. -/
theorem hasChildren_scale (line : Line) (opens : Bool) (ss : List Statement) :
    hasChildren (line.scale u) opens (ss.map (scale u)) = hasChildren line opens ss := by
  have hstarts := startsChild_scale hu line opens ss
  cases opens with
  | true => exact hstarts
  | false =>
    cases ss with
    | nil => rfl
    | cons s ss =>
      cases s with
      | openBrace _ => exact startsChild_scale hu line true ss
      | element _ _ _ _ => exact hstarts
      | closeBrace _ => rfl
      | directive _ _ => rfl

end Statement

/-! ## 5. The forest

    The margin of a scope is an indentation that outlives its statement. It is compared with the
    statements that follow, so the state is scaled along with them. -/

namespace Scope

theorem adopt_scale (s : Scope) (f : Forest Element) :
    (s.scale u).adopt f = (s.adopt f).scale u := by
  unfold adopt
  rw [Scope.entries_scale]
  split
  · rfl
  · rfl

theorem addClass_scale (s : Scope) (name : Text) :
    (s.scale u).addClass name = (s.addClass name).scale u := by
  unfold addClass
  rw [Scope.entries_scale]
  split
  · rfl
  · rfl

/-- The first statement of a scope sets its margin. -/
theorem setMargin_scale (s : Scope) (indent : Int) :
    (s.scale u).setMargin (indent * u) = (s.setMargin indent).scale u := by
  unfold setMargin scale
  cases s.margin with
  | none => rfl
  | some m => rfl

include hu in
/-- A line stands left of a margin if it did so before. -/
theorem isLeftOf_scale (s : Scope) (indent : Int) :
    (s.scale u).isLeftOf (indent * u) = s.isLeftOf indent := by
  unfold isLeftOf scale
  cases s.margin with
  | none => rfl
  | some m => exact decide_eq_decide.mpr (Int.mul_lt_mul_right hu)

end Scope

namespace Outline

/-- The same scopes are closed by a line to the left of them. -/
theorem closeDedented_scale (indent : Int) (d : Draft) (s : Scope) (enclosing : List Scope) :
    closeDedented (indent * u) (d.scale hu) (s.scale u) (enclosing.map (Scope.scale u)) =
      (closeDedented indent d s enclosing).scale hu := by
  induction enclosing generalizing d s with
  | nil => rfl
  | cons outer rest ih =>
    rw [List.map_cons]
    unfold closeDedented
    rw [Scope.isLeftOf_scale hu]
    split
    -- one scope less: from the right side back, so that the induction can take the rest
    · rw [← ih, ← Scope.adopt_scale]
      rfl
    · rfl

theorem settle_scale (o : Outline) (indent : Int) :
    (o.scale hu).settle (indent * u) = (o.settle indent).scale hu := by
  have h := closeDedented_scale hu indent o.draft o.scope o.enclosing
  have h' : closeDedented (indent * u) (o.scale hu).draft (o.scale hu).scope
      (o.scale hu).enclosing = _ := h
  unfold settle
  dsimp only
  rw [h']
  exact congrArg (Outline.mk _ · _) (Scope.setMargin_scale _ indent)

theorem close_scale (o : Outline) (line : Line) :
    (o.scale hu).close (line.scale u) = (o.close line).scale hu := by
  obtain ⟨d, s, enclosing⟩ := o
  cases enclosing with
  | nil => rfl
  | cons outer rest =>
    exact congrArg (Outline.mk (d.scale hu) · (rest.map (Scope.scale u)))
      (outer.adopt_scale s.forest)

theorem openBlock_scale (o : Outline) (line : Line) :
    (o.scale hu).openBlock (line.scale u) = (o.openBlock line).scale hu := by
  show (if o.scope.entries.isEmpty then _ else _) = _
  unfold openBlock
  split
  · rfl
  · rfl

/-- An element takes its place in the forest, and opens the same scope. -/
theorem addElement_scale (o : Outline) (line : Line) (code : Text) (words : List Text)
    (opens : Bool) (following : List Statement) :
    (o.scale hu).addElement (line.scale u) code words opens
        (following.map (Statement.scale u)) =
      (o.addElement line code words opens following).map (scale hu) := by
  have h := o.draft.addElement_scale hu line code words
    (Statement.hasChildren line opens following)
  have h' : (o.scale hu).draft.addElement (line.scale u) code words
      (Statement.hasChildren line opens following) = _ := h
  unfold addElement
  rw [Statement.hasChildren_scale hu, h']
  cases o.draft.addElement line code words (Statement.hasChildren line opens following) with
  | error fault => rfl
  | ok r =>
    cases opens with
    | true => rfl
    | false => rfl

theorem addDirective_scale (o : Outline) (block : Directive.Block) :
    (o.scale hu).addDirective (block.scale u) = (o.addDirective block).map (scale hu) := by
  have h := o.draft.addInline_scale hu block (!o.scope.entries.isEmpty)
  have h' : (o.scale hu).draft.addInline (block.scale u) (!(o.scale hu).scope.entries.isEmpty) =
      _ := h
  unfold addDirective
  rw [h']
  cases o.draft.addInline block (!o.scope.entries.isEmpty) with
  | error fault => rfl
  | ok r =>
    obtain ⟨name, d⟩ := r
    cases name with
    | none => rfl
    | some name =>
      exact congrArg
        (fun s => Except.ok (Outline.mk (d.scale hu) s (o.enclosing.map (Scope.scale u))))
        (o.scope.addClass_scale name)

/-- A statement with another indentation does what it did. -/
theorem step_scale (o : Outline) (s : Statement) (following : List Statement) :
    (o.scale hu).step (s.scale u) (following.map (Statement.scale u)) =
      (o.step s following).map (scale hu) := by
  cases s with
  | element line code words opens =>
    show ((o.scale hu).settle (line.indent * u)).addElement _ _ _ _ _ = _
    rw [settle_scale, addElement_scale]
    rfl
  | openBrace line =>
    show Except.ok (((o.scale hu).settle (line.indent * u)).openBlock (line.scale u)) = _
    rw [settle_scale, openBlock_scale]
    rfl
  | closeBrace line => exact congrArg Except.ok (o.close_scale hu line)
  | directive line block =>
    show ((o.scale hu).settle (line.indent * u)).addDirective _ = _
    rw [settle_scale, addDirective_scale]
    rfl

/-- **All statements**: one step after the other, by `step_scale`. -/
theorem run_scale (o : Outline) (ss : List Statement) :
    (o.scale hu).run (ss.map (Statement.scale u)) = (o.run ss).map (scale hu) := by
  induction ss generalizing o with
  | nil => rfl
  | cons s following ih =>
    rw [List.map_cons, run, run, step_scale]
    cases o.step s following with
    | error fault => rfl
    | ok o' => exact ih o'

/-- At the end all scopes are closed, whatever their margins are. -/
theorem finishFrom_scale (d : Draft) (s : Scope) (enclosing : List Scope) :
    finishFrom (d.scale hu) (s.scale u) (enclosing.map (Scope.scale u)) =
      ((finishFrom d s enclosing).1, (finishFrom d s enclosing).2.scale hu) := by
  induction enclosing generalizing d s with
  | nil => rfl
  | cons outer rest ih =>
    rw [List.map_cons]
    unfold finishFrom
    rw [← ih, ← Scope.adopt_scale]
    rfl

end Outline

namespace Draft

/-- The body gives the same forest. -/
theorem readBody_scale (d : Draft) (lines : List Line) :
    (d.scale hu).readBody (lines.map (Line.scale u)) =
      (d.readBody lines).map fun r => (r.1, r.2.scale hu) := by
  have hlines : Statement.ofLines (d.scale hu).config (lines.map (Line.scale u)) =
      (Statement.ofLines d.config lines).map (Statement.scale u) :=
    Statement.ofLines_scale hu d.config lines
  have hrun : Outline.run { draft := d.scale hu }
      ((Statement.ofLines d.config lines).map (Statement.scale u)) = _ :=
    Outline.run_scale hu { draft := d } (Statement.ofLines d.config lines)
  unfold readBody
  rw [hlines, hrun]
  cases Outline.run { draft := d } (Statement.ofLines d.config lines) with
  | error fault => rfl
  | ok o => exact congrArg Except.ok (Outline.finishFrom_scale hu o.draft o.scope o.enclosing)

/-- A line declares a variable wherever it stands. -/
theorem takeVariables_scale (d : Draft) (lines : List Line) :
    (d.scale hu).takeVariables (lines.map (Line.scale u)) =
      ((d.takeVariables lines).1.scale hu, (d.takeVariables lines).2.map (Line.scale u)) := by
  have hline : ∀ (d : Draft) (line : Line), (d.scale hu).addVariableLine (line.scale u) =
      (d.addVariableLine line).scale hu := by
    intro d line
    unfold addVariableLine
    rw [Line.text_scale]
    split
    · rfl
    · rfl
  have hlines : ∀ (lines : List Line) (d : Draft),
      (lines.map (Line.scale u)).foldl addVariableLine (d.scale hu) =
        (lines.foldl addVariableLine d).scale hu := by
    intro lines
    induction lines with
    | nil => exact fun d => rfl
    | cons line lines ih =>
      intro d
      rw [List.map_cons, List.foldl_cons, hline]
      exact ih _
  unfold takeVariables
  rw [List.filter_map, List.filter_map]
  exact congrArg (·, _) (hlines _ d)

end Draft

/-! ## 6. All passes -/

/-- **Indentations count only in units**: with all of them and the unit multiplied, a compile gives
    the same. -/
theorem compileLines_scale (config : Config) (lines : List Line) :
    compileLines (config.scale hu) (lines.map (Line.scale u)) = compileLines config lines := by
  have hvars := Draft.takeVariables_scale hu (Draft.empty config) lines
  -- an empty draft under the scaled settings is the scaled empty draft
  have hvars' : (Draft.empty (config.scale hu)).takeVariables (lines.map (Line.scale u)) = _ :=
    hvars
  rw [compileLines_eq, compileLines_eq, hvars']
  dsimp only
  rw [Directive.takeTopLevel_scale, Draft.addTopLevel_scale]
  cases ((Draft.empty config).takeVariables lines).1.addTopLevel
    (Directive.takeTopLevel config 0 ((Draft.empty config).takeVariables lines).2).1 with
  | error fault => rfl
  | ok d =>
    show ((d.scale hu).readBody _ >>= _) = (d.readBody _ >>= _)
    rw [Draft.readBody_scale]
    cases d.readBody
      (Directive.takeTopLevel config 0 ((Draft.empty config).takeVariables lines).2).2 with
    | error fault => rfl
    -- the settings end here: forest, rules and diagnostics are all that a compile gives
    | ok r => rfl

end OutlineMarkup
