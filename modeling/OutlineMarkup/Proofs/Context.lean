/-
  File:      OutlineMarkup/Proofs/Context.lean
  Subject:   The contexts that a compile goes through.

  A context is a draft together with the rules behind the media fragments that it has emitted, of
  which the draft itself keeps only the text. `Context.Step` lists all that the passes of a compile
  do to a context, one case for each: variables, diagnostics, adding a rule for an element or under
  a media query inside the tree, and adding the fragment of a media directive or of keyframes. A
  compile is one way to go from context to context by such steps:

  * `steps_addTopLevel`: so the directives at the top of a document do;
  * `steps_run`, `steps_readBody`: so the statements of the body do;
  * `Passes.steps`: so do the three passes together, in this order.

  Steps can be taken in any order and any number, so what holds after all sequences of steps holds
  for every interleaving of the ways to add a rule.
-/
import Mathlib.Logic.Relation
import OutlineMarkup.Proofs.Compile
import OutlineMarkup.Proofs.Rules

namespace OutlineMarkup

open Directive

/-! ## 1. What can be done to a draft -/

namespace Draft

theorem classFor_eq_ok {d d' : Draft} {t name : Text} (ok : d.classFor t = .ok (name, d')) :
    d.classes.classFor t = .ok (name, d'.classes) ∧ d' = { d with classes := d'.classes } := by
  obtain ⟨⟨n, r⟩, hc, e⟩ := bind_eq_ok.mp ok
  cases e
  exact ⟨hc, rfl⟩

theorem addUtility_eq_ok {d d' : Draft} {t name : Text} (ok : d.addUtility t = .ok (name, d')) :
    ∃ d₁, d.classFor t = .ok (name, d₁) ∧
      d' = { d₁ with utilities := d₁.utilities.add name t } := by
  obtain ⟨⟨n, d₁⟩, hc, e⟩ := bind_eq_ok.mp ok
  cases e
  exact ⟨d₁, hc, rfl⟩

theorem addStyle_eq_ok {e e' : Element} {d d' : Draft} {t : Text}
    (ok : addStyle (e, d) t = .ok (e', d')) :
    ∃ name, d.addUtility t = .ok (name, d') ∧ e' = e.addClass name := by
  obtain ⟨⟨n, d₁⟩, hc, h⟩ := bind_eq_ok.mp ok
  cases h
  exact ⟨n, hc, rfl⟩

/-- Styling the element before a directive gives no class and only reports, or it gives the class of
    what the directive declares, with its rule under the query. -/
theorem styleInline_eq_ok {d d' : Draft} {query : Text} {lines : List Line} {name : Option Text}
    (ok : d.styleInline query lines = .ok (name, d')) :
    (name = none ∧ d' = d.absorb (d.inlineDeclarations lines)) ∨
      ∃ n d₁, name = some n ∧
        (d.absorb (d.inlineDeclarations lines)).classFor (d.inlineDeclarations lines).value.text =
          .ok (n, d₁) ∧
        d' = d₁.addMediaRule query n (d.inlineDeclarations lines).value.text := by
  unfold styleInline at ok
  dsimp only at ok
  split at ok
  · cases ok
    exact .inl ⟨rfl, rfl⟩
  · obtain ⟨⟨n, d₁⟩, hc, e⟩ := bind_eq_ok.mp ok
    cases e
    exact .inr ⟨n, d₁, rfl, hc, rfl⟩

end Draft

/-! ## 2. Contexts and their steps -/

/-- A draft, and the media queries and rules behind the media fragments that it has emitted. -/
structure Context where
  draft : Draft
  media : List (Text × RuleBlock) := []

namespace Context

/-- The context of a document without lines. -/
def start (config : Config) : Context := { draft := .empty config }

/-- Emits the fragment of a media directive, unless it has no rules. -/
def emit (c : Context) (query : Text) (rules : RuleBlock) : Context :=
  if rules.isEmpty then c
  else
    { draft := { c.draft with fragments := c.draft.fragments ++ [rules.renderMedia query] }
      media := c.media ++ [(query, rules)] }

/-- All blocks of rules of a context: those of the elements, those of the media queries inside the
    tree, and those behind the emitted fragments. -/
def blocks (c : Context) : List RuleBlock :=
  c.draft.utilities :: (c.draft.inlineMedia.values ++ c.media.map Prod.snd)

/-- One step from context to context. -/
inductive Step : Context → Context → Prop where
  /-- A line declares a variable, or is reported. -/
  | declare (d : Draft) (m : List (Text × RuleBlock)) (line : Line) :
      Step ⟨d, m⟩ ⟨d.addVariableLine line, m⟩
  /-- Something is reported. -/
  | report (d : Draft) (m : List (Text × RuleBlock)) (finding : Finding) (line : Option Int) :
      Step ⟨d, m⟩ ⟨d.report finding line, m⟩
  /-- The diagnostics of a result are added. -/
  | absorb (d : Draft) (m : List (Text × RuleBlock)) {α : Type} (r : Reported α) :
      Step ⟨d, m⟩ ⟨d.absorb r, m⟩
  /-- Declarations of an element get their class and its rule. -/
  | utility {d d' : Draft} (m : List (Text × RuleBlock)) {t name : Text}
      (ok : d.addUtility t = .ok (name, d')) : Step ⟨d, m⟩ ⟨d', m⟩
  /-- Declarations of a directive inside the tree get their class and its rule under a query. -/
  | inlineRule {d d' : Draft} (m : List (Text × RuleBlock)) {t name : Text}
      (ok : d.classFor t = .ok (name, d')) (query : Text) :
      Step ⟨d, m⟩ ⟨d'.addMediaRule query name t, m⟩
  /-- The rules of a media directive get their classes and are emitted. -/
  | media {d d' : Draft} (m : List (Text × RuleBlock)) {lines : List Line} {rules : RuleBlock}
      (ok : mediaRules d lines = .ok (rules, d')) (query : Text) :
      Step ⟨d, m⟩ ((⟨d', m⟩ : Context).emit query rules)
  /-- Keyframes are added. -/
  | keyframes (d : Draft) (m : List (Text × RuleBlock)) (name : Text) (lines : List Line) :
      Step ⟨d, m⟩ ⟨addKeyframes d name lines, m⟩

/-- Some steps after each other. -/
abbrev Steps : Context → Context → Prop := Relation.ReflTransGen Step

/-- What every step keeps holds after some steps. -/
theorem Steps.keeps {I : Context → Prop} (h : ∀ c c', Step c c' → I c → I c') {c c' : Context}
    (hs : Steps c c') (hc : I c) : I c' := by
  induction hs with
  | refl => exact hc
  | tail _ step ih => exact h _ _ step ih

/-! ## 3. Directives at the top of a document -/

/-- Adds a directive at the top of a document; the rules of a media directive are kept beside the
    draft. -/
def addBlock (c : Context) (block : Block) : Except Fault Context :=
  match block.header.kind with
  | .media query => do
    let (rules, d) ← mediaRules (c.draft.reportUnclosed block) block.lines
    return (⟨d, c.media⟩ : Context).emit query rules
  | _ => do return ⟨← (c.draft.reportUnclosed block).addBlock block, c.media⟩

/-- Adds the directives at the top of a document, in order. -/
def addTopLevel (c : Context) (blocks : List Block) : Except Fault Context :=
  blocks.foldlM addBlock c

/-- Keeping the rules does not change what a directive does to the draft. -/
theorem draft_addBlock (c : Context) (block : Block) :
    (c.addBlock block).map draft = (c.draft.reportUnclosed block).addBlock block := by
  unfold addBlock
  split
  · rename_i query hk
    have hmedia : (c.draft.reportUnclosed block).addBlock block =
        (c.draft.reportUnclosed block).addMedia query block.lines := by
      rw [Draft.addBlock, hk]
    rw [hmedia, Draft.addMedia]
    cases mediaRules (c.draft.reportUnclosed block) block.lines with
    | error fault => rfl
    | ok r =>
      obtain ⟨rules, d⟩ := r
      show Except.ok ((⟨d, c.media⟩ : Context).emit query rules).draft = Except.ok _
      unfold emit
      split <;> rfl
  · cases (c.draft.reportUnclosed block).addBlock block <;> rfl

theorem draft_addTopLevel (c : Context) (blocks : List Block) :
    (c.addTopLevel blocks).map draft = c.draft.addTopLevel blocks := by
  unfold addTopLevel Draft.addTopLevel
  induction blocks generalizing c with
  | nil => rfl
  | cons block blocks ih =>
    rw [List.foldlM_cons, List.foldlM_cons, ← draft_addBlock]
    cases c.addBlock block with
    | error fault => rfl
    | ok c' => exact ih c'

/-- The directives at the top can be added to every context, as to its draft. -/
theorem addTopLevel_ok {c : Context} {blocks : List Block} {d : Draft}
    (ok : c.draft.addTopLevel blocks = .ok d) :
    ∃ m, c.addTopLevel blocks = .ok ⟨d, m⟩ := by
  rw [← draft_addTopLevel] at ok
  cases h : c.addTopLevel blocks with
  | error fault =>
    rw [h] at ok
    cases ok
  | ok c' =>
    rw [h] at ok
    cases ok
    exact ⟨c'.media, rfl⟩

section Top

variable {d d' : Draft} {m : List (Text × RuleBlock)}

theorem steps_reportUnclosed (d : Draft) (m : List (Text × RuleBlock)) (block : Block) :
    Steps ⟨d, m⟩ ⟨d.reportUnclosed block, m⟩ := by
  unfold Draft.reportUnclosed
  split
  · exact .refl
  · exact .single (.report d m _ _)

/-- A directive that is not about media adds keyframes or is reported. -/
theorem steps_draft_addBlock {block : Block} (hk : ∀ query, block.header.kind ≠ .media query)
    (ok : d.addBlock block = .ok d') : Steps ⟨d, m⟩ ⟨d', m⟩ := by
  unfold Draft.addBlock at ok
  split at ok
  · rename_i query h
    exact absurd h (hk query)
  · cases ok
    exact .single (.keyframes d m _ _)
  · cases ok
    exact .single (.report d m _ _)
  · cases ok
    exact .single (.report d m _ _)

theorem steps_addBlock {c c' : Context} {block : Block} (ok : c.addBlock block = .ok c') :
    Steps c c' := by
  refine (steps_reportUnclosed c.draft c.media block).trans ?_
  unfold addBlock at ok
  split at ok
  · obtain ⟨⟨rules, d⟩, hr, e⟩ := bind_eq_ok.mp ok
    cases e
    exact .single (.media c.media hr _)
  · rename_i hk
    obtain ⟨d, hd, e⟩ := bind_eq_ok.mp ok
    cases e
    exact steps_draft_addBlock hk hd

/-- **The directives at the top of a document are added by steps.** -/
theorem steps_addTopLevel {c c' : Context} {blocks : List Block}
    (ok : c.addTopLevel blocks = .ok c') : Steps c c' :=
  foldlM_keeps (Steps c) (fun _ _ _ hb hs => hs.trans (steps_addBlock hb)) ok .refl

end Top

/-! ## 4. The body -/

section Body

variable {d d' : Draft} (m : List (Text × RuleBlock))

theorem steps_addElement {line : Line} {code : Text} {words : List Text} {hasChildren : Bool}
    {e : Element} (ok : d.addElement line code words hasChildren = .ok (e, d')) :
    Steps ⟨d, m⟩ ⟨d', m⟩ := by
  refine Relation.ReflTransGen.head
    (.absorb d m (ElementPlan.read d line code words hasChildren)) ?_
  refine foldlM_keeps (fun s : Element × Draft =>
    Steps ⟨d.absorb (ElementPlan.read d line code words hasChildren), m⟩ ⟨s.2, m⟩) ?_ ok .refl
  intro s t s' hs h
  obtain ⟨_, hu, _⟩ := Draft.addStyle_eq_ok hs
  exact h.tail (.utility m hu)

theorem steps_styleInline {query : Text} {lines : List Line} {name : Option Text}
    (ok : d.styleInline query lines = .ok (name, d')) : Steps ⟨d, m⟩ ⟨d', m⟩ := by
  have habsorb : Steps ⟨d, m⟩ ⟨d.absorb (d.inlineDeclarations lines), m⟩ :=
    .single (.absorb d m (d.inlineDeclarations lines))
  rcases Draft.styleInline_eq_ok ok with ⟨_, rfl⟩ | ⟨n, d₁, _, hc, rfl⟩
  · exact habsorb
  · exact habsorb.tail (.inlineRule m hc query)

theorem steps_addInline {block : Block} {hasTarget : Bool} {name : Option Text}
    (ok : d.addInline block hasTarget = .ok (name, d')) : Steps ⟨d, m⟩ ⟨d', m⟩ := by
  refine (steps_reportUnclosed d m block).trans ?_
  unfold Draft.addInline at ok
  dsimp only at ok
  split at ok
  · cases hasTarget with
    | true => exact steps_styleInline m ok
    | false =>
      cases ok
      exact .single (.report _ m _ _)
  · rename_i hk
    obtain ⟨d₁, hd, e⟩ := bind_eq_ok.mp ok
    cases e
    exact steps_draft_addBlock hk hd

theorem steps_closeDedented (indent : Int) (d : Draft) (s : Scope) (enclosing : List Scope) :
    Steps ⟨d, m⟩ ⟨(Outline.closeDedented indent d s enclosing).draft, m⟩ := by
  induction enclosing generalizing d s with
  | nil => exact .refl
  | cons outer rest ih =>
    unfold Outline.closeDedented
    split
    · exact Relation.ReflTransGen.head (.report d m _ _) (ih _ _)
    · exact .refl

theorem steps_close (o : Outline) (line : Line) :
    Steps ⟨o.draft, m⟩ ⟨(o.close line).draft, m⟩ := by
  unfold Outline.close
  split
  · exact .single (.report o.draft m _ _)
  · exact .refl

theorem draft_openBlock (o : Outline) (line : Line) : (o.openBlock line).draft = o.draft := by
  unfold Outline.openBlock
  split <;> rfl

theorem steps_step {o o' : Outline} {s : Statement} {following : List Statement}
    (ok : o.step s following = .ok o') : Steps ⟨o.draft, m⟩ ⟨o'.draft, m⟩ := by
  have hsettle : ∀ indent, Steps ⟨o.draft, m⟩ ⟨(o.settle indent).draft, m⟩ :=
    fun indent => steps_closeDedented m indent o.draft o.scope o.enclosing
  cases s with
  | element line code words opens =>
    obtain ⟨e, d', hadd, rfl⟩ := Outline.step_element_eq_ok ok
    have hdraft := (hsettle line.indent).trans (steps_addElement m hadd)
    cases opens <;> exact hdraft
  | openBrace line =>
    cases ok
    rw [draft_openBlock]
    exact hsettle line.indent
  | closeBrace line =>
    cases ok
    exact steps_close m o line
  | directive line block =>
    obtain ⟨name, d', hadd, rfl⟩ := Outline.step_directive_eq_ok ok
    exact (hsettle line.indent).trans (steps_addInline m hadd)

/-- **The statements of the body are added by steps.** -/
theorem steps_run {o o' : Outline} {ss : List Statement} (ok : o.run ss = .ok o') :
    Steps ⟨o.draft, m⟩ ⟨o'.draft, m⟩ := by
  induction ss generalizing o with
  | nil =>
    cases ok
    exact .refl
  | cons s following ih =>
    obtain ⟨o₁, hs, hrun⟩ := bind_eq_ok.mp ok
    exact (steps_step m hs).trans (ih hrun)

theorem steps_finishFrom (d : Draft) (s : Scope) (enclosing : List Scope) :
    Steps ⟨d, m⟩ ⟨(Outline.finishFrom d s enclosing).2, m⟩ := by
  induction enclosing generalizing d s with
  | nil => exact .refl
  | cons outer rest ih => exact Relation.ReflTransGen.head (.report d m _ _) (ih _ _)

theorem steps_readBody {lines : List Line} {f : Forest Element}
    (ok : d.readBody lines = .ok (f, d')) : Steps ⟨d, m⟩ ⟨d', m⟩ := by
  obtain ⟨o, hrun, e⟩ := bind_eq_ok.mp ok
  have hfinish : d' = (Outline.finishFrom o.draft o.scope o.enclosing).2 :=
    congrArg Prod.snd (Except.ok.inj e).symm
  rw [hfinish]
  exact (steps_run m hrun).trans (steps_finishFrom m o.draft o.scope o.enclosing)

end Body

/-! ## 5. The passes -/

theorem steps_takeVariables (d : Draft) (m : List (Text × RuleBlock)) (lines : List Line) :
    Steps ⟨d, m⟩ ⟨(d.takeVariables lines).1, m⟩ :=
  foldl_keeps (fun d' : Draft => Steps ⟨d, m⟩ ⟨d', m⟩)
    (fun _ line _ h => h.tail (.declare _ m line)) .refl

end Context

/-- The directives at the top of a source. -/
def topLevelBlocks (config : Config) (source : Text) : List Block :=
  (takeTopLevel config 0
    ((Draft.empty config).takeVariables (Line.ofSource config.tabWidth source)).2).1

/-- What the passes hand on to each other. -/
theorem Passes.run_eq_ok {config : Config} {source : Text} {p : Passes}
    (ok : run config source = .ok p) :
    p.afterVariables =
        ((Draft.empty config).takeVariables (Line.ofSource config.tabWidth source)).1 ∧
      p.afterVariables.addTopLevel (topLevelBlocks config source) = .ok p.afterDirectives ∧
      p.afterDirectives.readBody (linesOfBody config source) = .ok (p.forest, p.afterBody) := by
  have hfit : config.TabsFit := by
    by_contra h
    rw [run_of_not_tabsFit h] at ok
    cases ok
  rw [run_of_tabsFit hfit] at ok
  obtain ⟨d, htop, ok⟩ := bind_eq_ok.mp ok
  obtain ⟨⟨f, d'⟩, hbody, e⟩ := bind_eq_ok.mp ok
  cases e
  exact ⟨rfl, htop, hbody⟩

/-- **A compile goes from context to context by steps**: from the empty document over the variables
    and the directives at the top to the body, which emits no more media fragments. -/
theorem Passes.steps {config : Config} (hfit : config.TabsFit) (source : Text) :
    ∃ passes media, run config source = .ok passes ∧
      (⟨passes.afterVariables, []⟩ : Context).addTopLevel (topLevelBlocks config source) =
        .ok ⟨passes.afterDirectives, media⟩ ∧
      Context.Steps (.start config) ⟨passes.afterVariables, []⟩ ∧
      Context.Steps ⟨passes.afterVariables, []⟩ ⟨passes.afterDirectives, media⟩ ∧
      Context.Steps ⟨passes.afterDirectives, media⟩ ⟨passes.afterBody, media⟩ := by
  obtain ⟨passes, _, ok, _, _⟩ := Passes.run_ok hfit source
  obtain ⟨hvariables, htop, hbody⟩ := run_eq_ok ok
  obtain ⟨media, hmedia⟩ := Context.addTopLevel_ok (c := ⟨passes.afterVariables, []⟩) htop
  refine ⟨passes, media, ok, hmedia, ?_, Context.steps_addTopLevel hmedia,
    Context.steps_readBody media hbody⟩
  rw [hvariables]
  exact Context.steps_takeVariables _ [] _

end OutlineMarkup
