/-
  File:      OutlineMarkup/Proofs/Renumbering.lean
  Subject:   The number of a line is only ever written into a diagnostic.

  Giving all lines other numbers, by any map at all, gives the diagnostics the same other numbers
  and changes nothing else. Each function that sees a line commutes with the map:

  * `ElementPlan.read_renumber`, `Draft.addElement_renumber`: element lines;
  * `Draft.addBlock_renumber`, `Draft.addInline_renumber`: directives;
  * `Statement.ofLines_renumber`, `Outline.step_renumber`, `Outline.run_renumber`: statements, one
    and all of them;
  * **`Passes.ofLines_renumber`**: all passes.
-/
import OutlineMarkup.Document
import OutlineMarkup.Proofs.Draft

namespace OutlineMarkup

variable (g : Int → Int)

/-! ## 1. What carries a number -/

/-- The line with another number. -/
def Line.renumber (l : Line) : Line := { l with number := g l.number }

/-- The diagnostic at another line. -/
def Diagnostic.renumber (x : Diagnostic) : Diagnostic := { x with line := x.line.map g }

/-- The same result, reported at other lines. -/
def Reported.renumber {α : Type} (r : Reported α) : Reported α :=
  ⟨r.value, r.diagnostics.map (Diagnostic.renumber g)⟩

/-- The draft with its diagnostics at other lines. -/
def Draft.renumber (d : Draft) : Draft :=
  { d with diagnostics := d.diagnostics.map (Diagnostic.renumber g) }

/-- The directive at other lines. -/
def Directive.Block.renumber (b : Block) : Block :=
  { b with line := g b.line, lines := b.lines.map (Line.renumber g) }

/-- The statement at another line. -/
def Statement.renumber : Statement → Statement
  | .element line code words opens => .element (line.renumber g) code words opens
  | .openBrace line => .openBrace (line.renumber g)
  | .closeBrace line => .closeBrace (line.renumber g)
  | .directive line block => .directive (line.renumber g) (block.renumber g)

/-- The scope, opened at another line. -/
def Scope.renumber (s : Scope) : Scope := { s with openedAt := s.openedAt.map g }

/-- The state between two statements, after statements at other lines. -/
def Outline.renumber (o : Outline) : Outline :=
  ⟨o.draft.renumber g, o.scope.renumber g, o.enclosing.map (Scope.renumber g)⟩

/-- The passes over other lines. -/
def Passes.renumber (p : Passes) : Passes :=
  { p with
    afterVariables := p.afterVariables.renumber g
    afterDirectives := p.afterDirectives.renumber g
    afterBody := p.afterBody.renumber g }

/-! What renumbering leaves as it was. No test of the compiler looks at a number, so these equations
    are all that is needed to decide that both sides take the same branch. -/

section Fields

variable (l : Line) (d : Draft) (b : Directive.Block) (s : Scope) (o : Outline)

@[simp] theorem Line.text_renumber : (l.renumber g).text = l.text := rfl

@[simp] theorem Line.indent_renumber : (l.renumber g).indent = l.indent := rfl

@[simp] theorem Line.isSkippable_renumber : (l.renumber g).isSkippable = l.isSkippable := rfl

@[simp] theorem Line.isDirective_renumber : (l.renumber g).isDirective = l.isDirective := rfl

@[simp] theorem Draft.config_renumber : (d.renumber g).config = d.config := rfl

@[simp] theorem Directive.Block.header_renumber : (b.renumber g).header = b.header := rfl

@[simp] theorem Scope.entries_renumber : (s.renumber g).entries = s.entries := rfl

@[simp] theorem Outline.draft_renumber : (o.renumber g).draft = o.draft.renumber g := rfl

@[simp] theorem Outline.scope_renumber : (o.renumber g).scope = o.scope.renumber g := rfl

end Fields

/-! ## 2. Results with diagnostics

    A function that reports does so in the monad of diagnostics. It commutes with the map if its
    steps do, whether they stand one after the other or in a loop. -/

namespace Reported

variable {α β : Type}

/-- One computation after the other: the diagnostics of both are moved, and the value between them
    stays. -/
theorem renumber_bind (x : Reported α) (f : α → Reported β) :
    (x >>= f).renumber g = x.renumber g >>= fun a => (f a).renumber g := by
  -- the values agree by computation; the diagnostics are those of `x`, then those of `f`
  show (⟨_, _⟩ : Reported β) = ⟨_, _⟩
  rw [diagnostics_bind, List.map_append]
  rfl

theorem renumber_pure (a : α) : (pure a : Reported α).renumber g = pure a := rfl

/-- Steps that commute with the map do so in a row. -/
theorem foldlM_renumber {f f' : α → β → Reported α}
    (h : ∀ a x, f' a x = (f a x).renumber g) (xs : List β) (a : α) :
    xs.foldlM f' a = (xs.foldlM f a).renumber g := by
  induction xs generalizing a with
  | nil => rfl
  | cons x xs ih =>
    rw [List.foldlM_cons, List.foldlM_cons, renumber_bind, h]
    exact congrArg ((f a x).renumber g >>= ·) (funext ih)

/-- As `foldlM_renumber`, for steps that do not see each other's results. -/
theorem mapM_renumber {f f' : α → Reported β} (h : ∀ x, f' x = (f x).renumber g) (xs : List α) :
    xs.mapM f' = (xs.mapM f).renumber g := by
  induction xs with
  | nil => rfl
  | cons x xs ih =>
    rw [List.mapM_cons, List.mapM_cons, renumber_bind, h, ih]
    refine congrArg ((f x).renumber g >>= ·) (funext fun b => ?_)
    rw [renumber_bind]
    rfl

end Reported

open Reported

/-- Steps that may fail and commute with a map of the state do so in a row. -/
theorem foldlM_commutes {σ α : Type} {f f' : σ → α → Except Fault σ} {φ : σ → σ}
    (h : ∀ s x, f' (φ s) x = (f s x).map φ) (xs : List α) (s : σ) :
    xs.foldlM f' (φ s) = (xs.foldlM f s).map φ := by
  induction xs generalizing s with
  | nil => rfl
  | cons x xs ih =>
    rw [List.foldlM_cons, List.foldlM_cons, h]
    cases f s x with
    | error fault => rfl
    | ok s' => exact ih s'

/-! ## 3. Element lines

    The number of the line reaches every reader below as the place to report at, and is not looked
    at by any of them. -/

namespace Features

/-- A code that is not known is reported at its line. -/
theorem ofCode_renumber (code : Text) (line : Option Int) :
    ofCode code (line.map g) = (ofCode code line).renumber g := by
  unfold ofCode
  split
  · rfl
  · split
    · rfl
    · rfl

/-- A plain word is reported at its line, unless it goes on with the value before it. -/
theorem addWord_renumber (line : Option Int) (f : Features) (word : Text) :
    f.addWord (line.map g) word = (f.addWord line word).renumber g := by
  unfold addWord
  split
  · rfl
  · split
    · rfl
    · unfold addPlain
      split
      · rfl
      · rfl

/-- The code, then the words after it in their order. -/
theorem read_renumber (code : Text) (words : List Text) (line : Option Int) :
    read code words (line.map g) = (read code words line).renumber g := by
  unfold read
  rw [renumber_bind, ofCode_renumber]
  refine congrArg ((ofCode code line).renumber g >>= ·) (funext fun f => ?_)
  rw [renumber_bind, foldlM_renumber g (addWord_renumber g line)]
  rfl

end Features

namespace Draft

/-- A finding at another line: here a number goes into the diagnostics of a draft. -/
theorem report_renumber (d : Draft) (finding : Finding) (line : Option Int) :
    (d.renumber g).report finding (line.map g) = (d.report finding line).renumber g := by
  simp [report, renumber, Diagnostic.renumber]

theorem absorb_renumber {α : Type} (d : Draft) (r : Reported α) :
    (d.renumber g).absorb (r.renumber g) = (d.absorb r).renumber g := by
  simp [absorb, renumber, Reported.renumber]

/-- Resolving a style pair names the line only for the variables it does not find. -/
theorem resolve_renumber (d : Draft) (key : StyleKey) (value : Text) (p : Priority)
    (line : Option Int) :
    (d.renumber g).resolve key value p (line.map g) = (d.resolve key value p line).renumber g := by
  have hsub : ∀ v, (d.renumber g).substitute v (line.map g) = (d.substitute v line).renumber g := by
    intro v
    -- one finding for each name without a value, all of them at this line
    show (⟨_, _⟩ : Reported Text) = ⟨_, _⟩
    rw [substitute, List.map_map]
    rfl
  have hdecl : ∀ v, (d.renumber g).declarationsOf key v = d.declarationsOf key v := by
    -- an animation looks its first step up and reads the settings; there are no numbers in either
    intro v
    cases key <;> rfl
  unfold resolve
  rw [renumber_bind, hsub]
  simp only [hdecl, renumber_pure]

end Draft

namespace Attire

theorem addAria_renumber (a : Attire) (value : Text) (line : Option Int) :
    a.addAria value (line.map g) = (a.addAria value line).renumber g := by
  unfold addAria
  split
  · rfl
  · rfl

/-- A pair is reported if it is no `aria` value though it has the key of one, if its style refers to
    a variable that is not there, or if it becomes an attribute under its own key. -/
theorem addPair_renumber (d : Draft) (tag : Text) (line : Option Int) (a : Attire)
    (pair : Text × Text) :
    a.addPair (d.renumber g) tag (line.map g) pair = (a.addPair d tag line pair).renumber g := by
  unfold addPair
  dsimp only
  split
  · rfl
  · split
    · rfl
    · split
      -- `h` and `role` cannot be reported; what is left is `aria`, a style key, any other key
      · exact a.addAria_renumber g _ line
      · split
        · rw [renumber_bind, Draft.resolve_renumber]
          rfl
        · rfl

end Attire

/-- What an element line says does not depend on its number. -/
theorem ElementPlan.read_renumber (d : Draft) (line : Line) (code : Text) (words : List Text)
    (hasChildren : Bool) :
    ElementPlan.read (d.renumber g) (line.renumber g) code words hasChildren =
      (ElementPlan.read d line code words hasChildren).renumber g := by
  have hfeatures : Features.read code words (line.renumber g).number =
      (Features.read code words line.number).renumber g :=
    Features.read_renumber g code words line.number
  unfold ElementPlan.read
  rw [renumber_bind, hfeatures]
  refine congrArg ((Features.read code words line.number).renumber g >>= ·) (funext fun f => ?_)
  dsimp only
  rw [renumber_bind]
  exact congrArg (· >>= _)
    (foldlM_renumber g (Attire.addPair_renumber g d _ line.number) f.pairs {})

namespace Draft

/-- A class and its rule are added without a report, or the fault is the same. -/
theorem addStyle_renumber (s : Element × Draft) (t : Text) :
    addStyle (s.1, s.2.renumber g) t = (addStyle s t).map fun r => (r.1, r.2.renumber g) := by
  unfold addStyle addUtility classFor
  dsimp only [renumber]
  cases s.2.classes.classFor t with
  | error fault => rfl
  | ok r => rfl

/-- **An element line with another number reports at another line.** -/
theorem addElement_renumber (d : Draft) (line : Line) (code : Text) (words : List Text)
    (hasChildren : Bool) :
    (d.renumber g).addElement (line.renumber g) code words hasChildren =
      (d.addElement line code words hasChildren).map fun r => (r.1, r.2.renumber g) := by
  unfold addElement
  dsimp only
  rw [ElementPlan.read_renumber, absorb_renumber]
  exact foldlM_commutes (addStyle_renumber g) _ (_, d.absorb _)

end Draft

/-! ## 4. Directives

    A directive is reported at its own line, what is wrong inside it at the line that is wrong. Both
    are renumbered by the same map, so that no relation between them is needed. -/

namespace Directive

theorem contentTokens_renumber (line : Line) :
    contentTokens (line.renumber g) = contentTokens line := rfl

/-- As for element lines, a plain word is reported unless it goes on with the value before it. -/
theorem addPairWord_renumber (line : Option Int) (pairs : List (Text × Text)) (word : Text) :
    addPairWord (line.map g) pairs word = (addPairWord line pairs word).renumber g := by
  unfold addPairWord
  split
  · rfl
  · split
    · rfl
    · rfl

theorem resolvePair_renumber (d : Draft) (p : Priority) (line : Option Int) (pair : Text × Text) :
    resolvePair (d.renumber g) p (line.map g) pair = (resolvePair d p line pair).renumber g := by
  unfold resolvePair
  split
  · rfl
  · rw [renumber_bind, Draft.resolve_renumber]
    rfl

/-- The words of one line, read and then resolved: two loops, one after the other. -/
theorem resolveWords_renumber (d : Draft) (p : Priority) (line : Option Int) (words : List Text) :
    resolveWords (d.renumber g) p (line.map g) words =
      (resolveWords d p line words).renumber g := by
  have hread : readPairs (line.map g) words = (readPairs line words).renumber g := by
    unfold readPairs
    rw [renumber_bind, foldlM_renumber g (addPairWord_renumber g line)]
    rfl
  unfold resolveWords
  rw [renumber_bind, hread]
  refine congrArg ((readPairs line words).renumber g >>= ·) (funext fun pairs => ?_)
  rw [renumber_bind, mapM_renumber g (resolvePair_renumber g d p line)]
  rfl

/-- A line of an animation that is no step is reported where it stands. -/
theorem addStepLine_renumber (d : Draft) (steps : Steps) (line : Line) :
    addStepLine (d.renumber g) steps (line.renumber g) =
      (addStepLine d steps line).renumber g := by
  unfold addStepLine
  rw [contentTokens_renumber]
  split
  · rfl
  · split
    -- a step: its name is text, and only its words can be reported
    · rw [renumber_bind]
      exact congrArg (· >>= _) (resolveWords_renumber g d .normal line.number _)
    · rfl

theorem readSteps_renumber (d : Draft) (lines : List Line) :
    readSteps (d.renumber g) (lines.map (Line.renumber g)) = (readSteps d lines).renumber g := by
  unfold readSteps
  rw [renumber_bind, List.foldlM_map, foldlM_renumber g (addStepLine_renumber g d)]
  rfl

/-- An animation at other lines is the same animation. -/
theorem addKeyframes_renumber (d : Draft) (name : Text) (lines : List Line) :
    addKeyframes (d.renumber g) name (lines.map (Line.renumber g)) =
      (addKeyframes d name lines).renumber g := by
  have hdiagnostics : (d.renumber g).diagnostics ++ ((readSteps d lines).renumber g).diagnostics =
      (d.diagnostics ++ (readSteps d lines).diagnostics).map (Diagnostic.renumber g) :=
    List.map_append.symm
  rw [addKeyframes_eq, addKeyframes_eq, readSteps_renumber, hdiagnostics]
  rfl

/-- A line of a media block gives the same selector and declarations. -/
theorem mediaLine_renumber (d : Draft) (line : Line) :
    mediaLine (d.renumber g) (line.renumber g) = (mediaLine d line).renumber g := by
  unfold mediaLine
  rw [contentTokens_renumber]
  split
  · rfl
  · rename_i first rest _
    have h := resolveWords_renumber g d .forced line.number (splitSelector first rest).2
    -- after the words it only counts whether they declare anything; if not, this is reported
    dsimp only
    rw [renumber_bind]
    refine (congrArg (· >>= _) h).trans ?_
    refine congrArg (Reported.renumber g (resolveWords d .forced _ _) >>= ·)
      (funext fun resolved => ?_)
    split
    · rfl
    · rfl

theorem mediaPieces_renumber (d : Draft) (lines : List Line) :
    mediaPieces (d.renumber g) (lines.map (Line.renumber g)) =
      (mediaPieces d lines).renumber g := by
  have h : (lines.map (Line.renumber g)).mapM (mediaLine (d.renumber g)) =
      (lines.mapM (mediaLine d)).renumber g := by
    rw [List.mapM_map]
    exact mapM_renumber g (mediaLine_renumber g d) lines
  unfold mediaPieces
  rw [renumber_bind, h]
  rfl

/-- The rules of a media block and the classes named for them are the same. -/
theorem mediaRules_renumber (d : Draft) (lines : List Line) :
    mediaRules (d.renumber g) (lines.map (Line.renumber g)) =
      (mediaRules d lines).map fun r => (r.1, r.2.renumber g) := by
  unfold mediaRules
  dsimp only
  rw [mediaPieces_renumber, Draft.absorb_renumber]
  -- what is left is the loop over the pieces, which does not see the diagnostics
  show (List.foldlM addPiece (RuleBlock.empty, d.classes) (mediaPieces d lines).value >>= _) = _
  cases (mediaPieces d lines).value.foldlM addPiece (RuleBlock.empty, d.classes) with
  | error fault => rfl
  | ok r => rfl

end Directive

namespace Draft

open Directive

/-- A directive without its end is reported at the line that opens it. -/
theorem reportUnclosed_renumber (d : Draft) (block : Block) :
    (d.renumber g).reportUnclosed (block.renumber g) = (d.reportUnclosed block).renumber g := by
  show (if block.terminated then _ else _) = _
  unfold reportUnclosed
  split
  · rfl
  · exact d.report_renumber g _ (some block.line)

theorem addMedia_renumber (d : Draft) (query : Text) (lines : List Line) :
    (d.renumber g).addMedia query (lines.map (Line.renumber g)) =
      (d.addMedia query lines).map (renumber g) := by
  unfold addMedia
  rw [mediaRules_renumber]
  cases mediaRules d lines with
  | error fault => rfl
  | ok r =>
    show Except.ok (if r.1.isEmpty = true then _ else _) =
      Except.ok (Draft.renumber g (if r.1.isEmpty = true then _ else _))
    split
    · rfl
    · rfl

/-- A directive by its kind: media, keyframes, and two kinds that are only reported. -/
theorem addBlock_renumber (d : Draft) (block : Block) :
    (d.renumber g).addBlock (block.renumber g) = (d.addBlock block).map (renumber g) := by
  unfold addBlock
  rw [Directive.Block.header_renumber]
  split
  · exact d.addMedia_renumber g _ block.lines
  · exact congrArg Except.ok (addKeyframes_renumber g d _ block.lines)
  · exact congrArg Except.ok (d.report_renumber g _ (some block.line))
  · exact congrArg Except.ok (d.report_renumber g _ (some block.line))

/-- All directives of the first column, in their order. -/
theorem addTopLevel_renumber (d : Draft) (blocks : List Block) :
    (d.renumber g).addTopLevel (blocks.map (Block.renumber g)) =
      (d.addTopLevel blocks).map (renumber g) := by
  unfold addTopLevel
  rw [List.foldlM_map]
  refine foldlM_commutes (fun d block => ?_) blocks d
  rw [reportUnclosed_renumber, addBlock_renumber]

/-- Of several lines in a media block under an element the first with declarations counts. Which one
    that is does not depend on the numbers, and the lines before it are reported all the same. -/
theorem inlineDeclarations_renumber (d : Draft) (lines : List Line) :
    (d.renumber g).inlineDeclarations (lines.map (Line.renumber g)) =
      (d.inlineDeclarations lines).renumber g := by
  induction lines with
  | nil => rfl
  | cons line lines ih =>
    rw [List.map_cons]
    unfold inlineDeclarations
    rw [show inlineWords? (line.renumber g) = inlineWords? line from rfl]
    split
    · exact ih
    · rename_i words _
      have h := resolveWords_renumber g d .forced line.number words
      rw [renumber_bind]
      refine (congrArg (· >>= _) h).trans ?_
      refine congrArg (Reported.renumber g (resolveWords d .forced _ _) >>= ·)
        (funext fun resolved => ?_)
      -- no declarations on this line: the next one is asked
      dsimp only
      split
      · exact ih
      · rfl

theorem styleInline_renumber (d : Draft) (query : Text) (lines : List Line) :
    (d.renumber g).styleInline query (lines.map (Line.renumber g)) =
      (d.styleInline query lines).map fun r => (r.1, r.2.renumber g) := by
  unfold styleInline
  dsimp only
  rw [inlineDeclarations_renumber, absorb_renumber]
  show (if (d.inlineDeclarations lines).value.isEmpty = true then _ else _) = _
  split
  · rfl
  · unfold classFor
    dsimp only [renumber, absorb, Reported.renumber]
    cases d.classes.classFor (d.inlineDeclarations lines).value.text with
    | error fault => rfl
    | ok r => rfl

/-- **A directive at other lines reports at other lines.** -/
theorem addInline_renumber (d : Draft) (block : Block) (hasTarget : Bool) :
    (d.renumber g).addInline (block.renumber g) hasTarget =
      (d.addInline block hasTarget).map fun r => (r.1, r.2.renumber g) := by
  unfold addInline
  dsimp only
  rw [reportUnclosed_renumber, addBlock_renumber, Block.header_renumber]
  split
  · split
    · exact (d.reportUnclosed block).styleInline_renumber g _ block.lines
    · exact congrArg (fun d => Except.ok (none, d))
        ((d.reportUnclosed block).report_renumber g _ (some block.line))
  · cases (d.reportUnclosed block).addBlock block with
    | error fault => rfl
    | ok d' => rfl

end Draft

/-! ## 5. Cutting lines into statements

    Where a statement ends is decided by braces and indentations. Lines that are made up on the way
    (a rule on the line of its directive, the parts of a block on one line) have the number of the
    line they come from. -/

namespace Directive

theorem bracedExtent_renumber (depth : Int) (ls : List Line) :
    bracedExtent depth (ls.map (Line.renumber g)) = bracedExtent depth ls := by
  induction ls generalizing depth with
  | nil => rfl
  | cons l ls ih =>
    rw [List.map_cons, bracedExtent, bracedExtent, ih]
    rfl

theorem depthAfter_renumber (depth : Int) (ls : List Line) :
    depthAfter depth (ls.map (Line.renumber g)) = depthAfter depth ls := by
  unfold depthAfter
  rw [List.foldl_map]
  rfl

/-- A directive takes as many lines as before, by its braces or by its indentation. -/
theorem extent_renumber (l : Line) (ls : List Line) :
    extent (l.renumber g) (ls.map (Line.renumber g)) = extent l ls := by
  unfold extent
  rw [Line.text_renumber]
  split
  · rw [List.takeWhile_map, List.length_map]
    rfl
  · exact bracedExtent_renumber g _ ls

/-- A directive is put together from the same lines; a rule beside its header has the number of the
    header. -/
theorem collect_renumber (breakpoints : Table Text Text) (unit : Int) (l : Line) (ls : List Line) :
    collect breakpoints unit (l.renumber g) (ls.map (Line.renumber g)) =
      (collect breakpoints unit l ls).renumber g := by
  have hrule : ∀ rule, ruleOnHeader unit (l.renumber g) rule =
      (ruleOnHeader unit l rule).map (Line.renumber g) := by
    intro rule
    unfold ruleOnHeader
    dsimp only
    split
    · rfl
    · rfl
  unfold collect
  rw [extent_renumber, ← List.map_take, Line.text_renumber]
  split
  · simp only [Block.renumber, hrule, List.map_append]
    rfl
  · simp only [Block.renumber, hrule, List.map_append, depthAfter_renumber]
    rfl

/-- The same directives stand in the first column, and the same lines are left to the body. -/
theorem takeTopLevel_renumber (config : Config) (k : Nat) (ls : List Line) :
    takeTopLevel config k (ls.map (Line.renumber g)) =
      ((takeTopLevel config k ls).1.map (Block.renumber g),
        (takeTopLevel config k ls).2.map (Line.renumber g)) := by
  induction ls generalizing k with
  | nil => rfl
  | cons l ls ih =>
    cases k with
    -- a line of the directive before
    | succ k => exact ih k
    | zero =>
      rw [List.map_cons]
      unfold takeTopLevel
      rw [Line.isDirective_renumber, Line.indent_renumber, extent_renumber, collect_renumber, ih,
        ih]
      split
      · rfl
      · rfl

end Directive

namespace Line

/-- The lines written out of one line all have its number. The induction is on the words, for every
    indentation reached so far and every line begun. -/
theorem writeOut_renumber (line : Line) (unit : Int) (tokens : List Text) (indent : Int)
    (current : List Text) :
    writeOut (line.renumber g) unit indent current tokens =
      (writeOut line unit indent current tokens).map (Line.renumber g) := by
  have htokens : ∀ indent current, ofTokens (g line.number) indent current =
      (ofTokens line.number indent current).map (Line.renumber g) := by
    intro indent current
    unfold ofTokens
    split
    · rfl
    · rfl
  induction tokens generalizing indent current with
  | nil => exact htokens indent current
  | cons token tokens ih =>
    unfold writeOut
    split
    · rw [ih]
      rfl
    · split
      · dsimp only
        rw [ih, List.map_append]
        exact congrArg (· ++ _) (htokens indent current)
      · exact ih indent (current ++ [token])

end Line

namespace Statement

theorem writeOut_renumber (config : Config) (line : Line) :
    writeOut config (line.renumber g) = (writeOut config line).map (Line.renumber g) := by
  unfold writeOut
  rw [Line.isSkippable_renumber, Line.isDirective_renumber]
  split
  · rfl
  · unfold Line.expand
    dsimp only
    rw [Line.text_renumber]
    split
    · exact line.writeOut_renumber g _ _ _ []
    · rfl

/-- What kind of statement a line is can be read from its text. -/
theorem ofLine?_renumber (line : Line) :
    ofLine? (line.renumber g) = (ofLine? line).map (renumber g) := by
  unfold ofLine?
  rw [Line.isSkippable_renumber, Line.text_renumber]
  split
  · rfl
  · split
    · rfl
    · split
      · rfl
      · split
        · rfl
        · split
          · rfl
          · rfl

theorem ofLinesFrom_renumber (config : Config) (k : Nat) (ls : List Line) :
    ofLinesFrom config k (ls.map (Line.renumber g)) =
      (ofLinesFrom config k ls).map (renumber g) := by
  induction ls generalizing k with
  | nil => rfl
  | cons l ls ih =>
    cases k with
    | succ k => exact ih k
    | zero =>
      rw [List.map_cons]
      unfold ofLinesFrom
      rw [Line.isDirective_renumber, Directive.extent_renumber, Directive.collect_renumber,
        ofLine?_renumber, ih, ih]
      split
      · rfl
      · rw [List.map_append]
        cases ofLine? l with
        | none => rfl
        | some s => rfl

/-- **The statements of other lines are the same statements**, at other lines. -/
theorem ofLines_renumber (config : Config) (lines : List Line) :
    ofLines config (lines.map (Line.renumber g)) = (ofLines config lines).map (renumber g) := by
  have hwrite : (lines.map (Line.renumber g)).flatMap (writeOut config) =
      (lines.flatMap (writeOut config)).map (Line.renumber g) := by
    rw [List.flatMap_map, List.map_flatMap]
    exact congrArg (List.flatMap · lines) (funext fun l => writeOut_renumber g config l)
  unfold ofLines
  rw [hwrite, ofLinesFrom_renumber]

theorem startsChild_renumber (line : Line) (opened : Bool) (ss : List Statement) :
    startsChild (line.renumber g) opened (ss.map (renumber g)) = startsChild line opened ss := by
  cases ss with
  | nil => rfl
  | cons s ss =>
    cases s with
    | element _ _ _ _ => rfl
    | openBrace _ => rfl
    | closeBrace _ => rfl
    | directive _ _ => rfl

/-- Whether an element has children is a question about the statements that follow and their
    indentations. -/
theorem hasChildren_renumber (line : Line) (opens : Bool) (ss : List Statement) :
    hasChildren (line.renumber g) opens (ss.map (renumber g)) = hasChildren line opens ss := by
  cases opens with
  | true => exact startsChild_renumber g line true ss
  | false =>
    cases ss with
    | nil => rfl
    | cons s ss =>
      cases s with
      -- the brace on a line of its own: what counts stands behind it
      | openBrace _ => exact startsChild_renumber g line true ss
      | element _ _ _ _ => rfl
      | closeBrace _ => rfl
      | directive _ _ => rfl

end Statement

/-! ## 6. The forest

    A scope remembers the line that opened it, for the diagnostic about a brace that is missing.
    This is the only number that outlives its statement, and so the state is renumbered along with
    the statements. -/

namespace Scope

theorem adopt_renumber (s : Scope) (f : Forest Element) :
    (s.renumber g).adopt f = (s.adopt f).renumber g := by
  unfold adopt
  rw [Scope.entries_renumber]
  split
  · rfl
  · rfl

theorem addClass_renumber (s : Scope) (name : Text) :
    (s.renumber g).addClass name = (s.addClass name).renumber g := by
  unfold addClass
  rw [Scope.entries_renumber]
  split
  · rfl
  · rfl

end Scope

namespace Outline

/-- Scopes that a line to the left has closed are reported at the lines that opened them. -/
theorem closeDedented_renumber (indent : Int) (d : Draft) (s : Scope) (enclosing : List Scope) :
    closeDedented indent (d.renumber g) (s.renumber g) (enclosing.map (Scope.renumber g)) =
      (closeDedented indent d s enclosing).renumber g := by
  induction enclosing generalizing d s with
  | nil => rfl
  | cons outer rest ih =>
    rw [List.map_cons]
    unfold closeDedented
    rw [show (s.renumber g).isLeftOf indent = s.isLeftOf indent from rfl]
    split
    -- one scope less: from the right side back, so that the induction can take the rest
    · rw [← ih, ← Draft.report_renumber, ← Scope.adopt_renumber]
      rfl
    · rfl

theorem settle_renumber (o : Outline) (indent : Int) :
    (o.renumber g).settle indent = (o.settle indent).renumber g := by
  have h := closeDedented_renumber g indent o.draft o.scope o.enclosing
  unfold settle
  dsimp only
  rw [show closeDedented indent (o.renumber g).draft (o.renumber g).scope (o.renumber g).enclosing =
    _ from h]
  rfl

/-- A closing brace closes the same scope, or is reported where it stands. -/
theorem close_renumber (o : Outline) (line : Line) :
    (o.renumber g).close (line.renumber g) = (o.close line).renumber g := by
  obtain ⟨d, s, enclosing⟩ := o
  cases enclosing with
  | nil =>
    exact congrArg (Outline.mk · (s.renumber g) []) (d.report_renumber g .strayBrace line.number)
  | cons outer rest =>
    exact congrArg (Outline.mk (d.renumber g) · (rest.map (Scope.renumber g)))
      (outer.adopt_renumber g s.forest)

theorem openBlock_renumber (o : Outline) (line : Line) :
    (o.renumber g).openBlock (line.renumber g) = (o.openBlock line).renumber g := by
  unfold openBlock
  rw [scope_renumber, Scope.entries_renumber]
  split
  · rfl
  · rfl

/-- An element takes its place in the forest, and opens the same scope. -/
theorem addElement_renumber (o : Outline) (line : Line) (code : Text) (words : List Text)
    (opens : Bool) (following : List Statement) :
    (o.renumber g).addElement (line.renumber g) code words opens
        (following.map (Statement.renumber g)) =
      (o.addElement line code words opens following).map (renumber g) := by
  unfold addElement
  rw [Statement.hasChildren_renumber, draft_renumber, Draft.addElement_renumber]
  cases o.draft.addElement line code words (Statement.hasChildren line opens following) with
  | error fault => rfl
  | ok r =>
    cases opens with
    | true => rfl
    | false => rfl

/-- A directive under an element gives it the same class. -/
theorem addDirective_renumber (o : Outline) (block : Directive.Block) :
    (o.renumber g).addDirective (block.renumber g) = (o.addDirective block).map (renumber g) := by
  unfold addDirective
  rw [draft_renumber, scope_renumber, Scope.entries_renumber, Draft.addInline_renumber]
  cases o.draft.addInline block (!o.scope.entries.isEmpty) with
  | error fault => rfl
  | ok r =>
    obtain ⟨name, d⟩ := r
    cases name with
    | none => rfl
    | some name =>
      exact congrArg
        (fun s => Except.ok (Outline.mk (d.renumber g) s (o.enclosing.map (Scope.renumber g))))
        (o.scope.addClass_renumber g name)

/-- A statement at another line does what it did, and reports at another line. -/
theorem step_renumber (o : Outline) (s : Statement) (following : List Statement) :
    (o.renumber g).step (s.renumber g) (following.map (Statement.renumber g)) =
      (o.step s following).map (renumber g) := by
  cases s with
  | element line code words opens =>
    show ((o.renumber g).settle line.indent).addElement _ _ _ _ _ = _
    rw [settle_renumber, addElement_renumber]
    rfl
  | openBrace line =>
    show Except.ok (((o.renumber g).settle line.indent).openBlock (line.renumber g)) = _
    rw [settle_renumber, openBlock_renumber]
    rfl
  | closeBrace line => exact congrArg Except.ok (o.close_renumber g line)
  | directive line block =>
    show ((o.renumber g).settle line.indent).addDirective _ = _
    rw [settle_renumber, addDirective_renumber]
    rfl

/-- **All statements**: one step after the other, by `step_renumber`. -/
theorem run_renumber (o : Outline) (ss : List Statement) :
    (o.renumber g).run (ss.map (Statement.renumber g)) = (o.run ss).map (renumber g) := by
  induction ss generalizing o with
  | nil => rfl
  | cons s following ih =>
    rw [List.map_cons, run, run, step_renumber]
    cases o.step s following with
    | error fault => rfl
    | ok o' => exact ih o'

/-- At the end all scopes still open are reported at the lines that opened them. -/
theorem finishFrom_renumber (d : Draft) (s : Scope) (enclosing : List Scope) :
    finishFrom (d.renumber g) (s.renumber g) (enclosing.map (Scope.renumber g)) =
      ((finishFrom d s enclosing).1, (finishFrom d s enclosing).2.renumber g) := by
  induction enclosing generalizing d s with
  | nil => rfl
  | cons outer rest ih =>
    rw [List.map_cons]
    unfold finishFrom
    rw [← ih, ← Draft.report_renumber, ← Scope.adopt_renumber]
    rfl

end Outline

namespace Draft

/-- The body gives the same forest. -/
theorem readBody_renumber (d : Draft) (lines : List Line) :
    (d.renumber g).readBody (lines.map (Line.renumber g)) =
      (d.readBody lines).map fun r => (r.1, r.2.renumber g) := by
  have h := Outline.run_renumber g { draft := d } (Statement.ofLines d.config lines)
  unfold readBody
  rw [Draft.config_renumber, Statement.ofLines_renumber]
  rw [show Outline.run { draft := d.renumber g }
    ((Statement.ofLines d.config lines).map (Statement.renumber g)) = _ from h]
  cases Outline.run { draft := d } (Statement.ofLines d.config lines) with
  | error fault => rfl
  | ok o => exact congrArg Except.ok (Outline.finishFrom_renumber g o.draft o.scope o.enclosing)

/-- The variables are taken from the same lines, and a line that declares none is reported. -/
theorem takeVariables_renumber (d : Draft) (lines : List Line) :
    (d.renumber g).takeVariables (lines.map (Line.renumber g)) =
      ((d.takeVariables lines).1.renumber g,
        (d.takeVariables lines).2.map (Line.renumber g)) := by
  have hline : ∀ (d : Draft) (line : Line), (d.renumber g).addVariableLine (line.renumber g) =
      (d.addVariableLine line).renumber g := by
    intro d line
    unfold addVariableLine
    rw [Line.text_renumber]
    split
    · rfl
    · exact d.report_renumber g _ (some line.number)
  have hlines : ∀ (lines : List Line) (d : Draft),
      (lines.map (Line.renumber g)).foldl addVariableLine (d.renumber g) =
        (lines.foldl addVariableLine d).renumber g := by
    intro lines
    induction lines with
    | nil => exact fun d => rfl
    | cons line lines ih =>
      intro d
      rw [List.map_cons, List.foldl_cons, hline]
      exact ih _
  -- which lines these are is read from the text, so that the map comes after the filter
  unfold takeVariables
  rw [List.filter_map, List.filter_map]
  exact congrArg (·, _) (hlines _ d)

end Draft

/-! ## 7. All passes -/

/-- **The numbers of the lines only go into the diagnostics**, whatever numbers they are. -/
theorem Passes.ofLines_renumber (config : Config) (lines : List Line) :
    ofLines config (lines.map (Line.renumber g)) = (ofLines config lines).map (renumber g) := by
  have hvars := Draft.takeVariables_renumber g (Draft.empty config) lines
  rw [show (Draft.empty config).renumber g = Draft.empty config from rfl] at hvars
  -- the passes one after the other: variables, directives, body
  unfold ofLines
  rw [hvars]
  dsimp only
  rw [Directive.takeTopLevel_renumber, Draft.addTopLevel_renumber]
  cases ((Draft.empty config).takeVariables lines).1.addTopLevel
    (Directive.takeTopLevel config 0 ((Draft.empty config).takeVariables lines).2).1 with
  | error fault => rfl
  | ok d =>
    show ((d.renumber g).readBody _ >>= _) = Except.map _ (d.readBody _ >>= _)
    rw [Draft.readBody_renumber]
    cases d.readBody
      (Directive.takeTopLevel config 0 ((Draft.empty config).takeVariables lines).2).2 with
    | error fault => rfl
    | ok r =>
      show Except.ok _ = Except.ok _
      rw [List.length_map]
      rfl

end OutlineMarkup
