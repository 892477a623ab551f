/-
  File:      OutlineMarkup/Proofs/Locality.lean
  Subject:   Which style of an element is in effect, and what other lines have to do with it.

  An element line declares styles in groups, one for each category, and each group becomes a class
  with a rule. A property that one group declares is settled by that line alone. But an animation
  with a first step puts properties of other categories into its own group, so two groups of a line
  can declare the same property, and then the later of the two rules is in effect. Rules stand in
  the order in which their groups first came up anywhere in the document.

  * `read_styles_eq`: the groups of a line depend on its words, on the settings and on the first
    steps of the animations known at that point, on nothing else;
  * `Passes.styled`: the rules of a document stand in the order in which the groups of its lines
    come up, and every element wears the classes of its groups;
  * `effective_style_local`: so where one group of a line declares a property, its value is in
    effect, in every document that has the line with the same animations before it;
  * `effective_style_depends`: with two such groups, with other keyframes inside the tree, or with
    the class of a directive, other lines decide.
-/
import OutlineMarkup.Proofs.Agreement
import OutlineMarkup.Proofs.Cascade
import OutlineMarkup.Proofs.Diagnostics
import OutlineMarkup.Proofs.Renumbering

namespace OutlineMarkup

open Reported

/-! ## 1. What the styles of a line depend on -/

/-- A pair asks the tag only whether the element is a link. -/
theorem Attire.addPair_tag (d : Draft) {tag tag' : Text} (h : tag = "a" ↔ tag' = "a")
    (line : Option Int) (a : Attire) (pair : Text × Text) :
    a.addPair d tag line pair = a.addPair d tag' line pair := by
  simp only [addPair, h]

theorem inferTag_ne_link (e : Evidence) : inferTag e ≠ "a" := by
  unfold inferTag
  split
  · rename_i r hr
    have hall : ∀ r ∈ inference, r.tag ≠ "a" := by decide
    exact hall r (List.mem_of_find?_eq_some hr)
  · dsimp only
    split <;> decide

/-- Children do not make a link of an element. -/
theorem classify_link (code : Text) (classes : List Text) (id : Text) (text : Option Text)
    (hasChildren hasChildren' : Bool) :
    classify code classes id text hasChildren = "a" ↔
      classify code classes id text hasChildren' = "a" := by
  have hinferred : ∀ e e', (inferTag e = "a" ↔ inferTag e' = "a") := fun e e' =>
    iff_of_false (inferTag_ne_link e) (inferTag_ne_link e')
  unfold classify
  dsimp only
  split
  · exact Iff.rfl
  · split
    · exact hinferred _ _
    · split
      · exact Iff.rfl
      · exact hinferred _ _

/-- The styles of an element line, one text for each group: what its words declare, given the first
    steps of the animations. -/
def lineStyles (config : Config) (states : Table Text Text) (code : Text) (words : List Text) :
    List Text :=
  (ElementPlan.read (.knowing config states) ⟨0, 0, []⟩ code words false).value.styles

/-- **The styles of a line depend on its words, the settings and the first steps, not on where it
    stands, on the lines around it or on the variables.** -/
theorem ElementPlan.read_styles_eq (d : Draft) (line : Line) (code : Text) (words : List Text)
    (hasChildren : Bool) :
    (read d line code words hasChildren).value.styles =
      lineStyles d.config d.initialStates code words := by
  unfold lineStyles read
  simp only [value_bind, value_pure, value_foldlM,
    Features.read_value code words line.number (some 0),
    Attire.addPair_knowing d _ line.number (some 0)]
  have htag := fun a pair => Attire.addPair_tag (.knowing d.config d.initialStates)
    (classify_link code
      (firstOccurrences (Features.read code words (some 0)).value.classes)
      (Features.read code words (some 0)).value.id
      (Features.read code words (some 0)).value.text hasChildren false) (some 0) a pair
  simp only [htag]

/-! ## 2. The first steps of animations -/

namespace Directive

theorem resolveWords_knowing (d : Draft) (priority : Priority) (line : Option Int)
    (words : List Text) :
    (resolveWords d priority line words).value =
      (resolveWords (.knowing d.config d.initialStates) priority line words).value := by
  have hpair : ∀ pair, (resolvePair d priority line pair).value =
      (resolvePair (.knowing d.config d.initialStates) priority line pair).value := by
    intro pair
    unfold resolvePair
    split
    · rfl
    · simp only [value_bind, value_pure, d.resolve_knowing _ _ _ line line]
  unfold resolveWords
  simp only [value_bind, value_pure, value_mapM, hpair]

theorem readSteps_knowing (d : Draft) (lines : List Line) :
    (readSteps d lines).value = (readSteps (.knowing d.config d.initialStates) lines).value := by
  have hline : ∀ (steps : Steps) (line : Line), (addStepLine d steps line).value =
      (addStepLine (.knowing d.config d.initialStates) steps line).value := by
    intro steps line
    unfold addStepLine
    split
    · rfl
    · split
      · simp only [value_bind, value_pure, resolveWords_knowing d]
      · rfl
  unfold readSteps
  simp only [value_bind, value_pure, value_foldlM, hline]

theorem addKeyframes_states (d : Draft) (name : Text) (lines : List Line) :
    (addKeyframes d name lines).initialStates =
      ((readSteps d lines).value.filter fun s => isInitialStep s.1).foldl
        (fun states s => states.insert name s.2) d.initialStates := by
  rw [addKeyframes_eq]

/-- What keyframes do to the first steps depends on the settings and the first steps so far. -/
theorem addKeyframes_knowing (d : Draft) (name : Text) (lines : List Line) :
    (addKeyframes d name lines).initialStates =
      (addKeyframes (.knowing d.config d.initialStates) name lines).initialStates := by
  have hstates : (Draft.knowing d.config d.initialStates).initialStates = d.initialStates := rfl
  rw [addKeyframes_states, addKeyframes_states, hstates, readSteps_knowing d]

end Directive

/-- The first steps of animations after a directive: keyframes set them. -/
def statesAfter (config : Config) (states : Table Text Text) (block : Directive.Block) :
    Table Text Text :=
  match block.header.kind with
  | .keyframes (some name) =>
    (Directive.addKeyframes (.knowing config states) name block.lines).initialStates
  | _ => states

namespace Draft

open Directive

theorem addBlock_states {d d' : Draft} {block : Block} (ok : d.addBlock block = .ok d') :
    d'.initialStates = statesAfter d.config d.initialStates block := by
  unfold addBlock at ok
  unfold statesAfter
  split at ok
  · rename_i query hk
    obtain ⟨⟨rules, d₁⟩, hr, e⟩ := bind_eq_ok.mp ok
    have hd₁ : d₁.initialStates = d.initialStates := by
      rw [(mediaRules_eq_ok hr).2]
      rfl
    cases e
    rw [hk]
    split
    · exact hd₁
    · exact hd₁
  · rename_i name hk
    cases ok
    rw [hk]
    exact addKeyframes_knowing d name block.lines
  · rename_i hk
    cases ok
    rw [hk]
    rfl
  · rename_i hk
    cases ok
    rw [hk]
    rfl

/-- The first steps after the directives at the top of a document. -/
theorem addTopLevel_states {d d' : Draft} {blocks : List Block}
    (ok : d.addTopLevel blocks = .ok d') :
    d'.initialStates = blocks.foldl (statesAfter d.config) d.initialStates := by
  unfold addTopLevel at ok
  induction blocks generalizing d with
  | nil =>
    cases ok
    rfl
  | cons block blocks ih =>
    rw [List.foldlM_cons] at ok
    obtain ⟨d₁, ok₁, ok⟩ := bind_eq_ok.mp ok
    obtain ⟨found, hunclosed⟩ := d.reportUnclosed_eq block
    obtain ⟨d₂, ok₂, hconfig⟩ := (d.reportUnclosed block).addBlock_ok block
    rw [ok₁] at ok₂
    cases ok₂
    have hstates := addBlock_states ok₁
    rw [hunclosed] at hstates hconfig
    rw [ih ok, hstates, hconfig]
    rfl

/-- **What a directive inside the tree does**: it sets the first steps of an animation, or it names
    a class for the element before it; it adds no rule for elements. -/
theorem addInline_effect {d d' : Draft} {block : Block} {hasTarget : Bool} {name : Option Text}
    (ok : d.addInline block hasTarget = .ok (name, d')) :
    d'.config = d.config ∧ d'.initialStates = statesAfter d.config d.initialStates block ∧
      d'.utilities = d.utilities ∧
      ((name = none ∧ d'.classes = d.classes) ∨
        ∃ n t, name = some n ∧ hasTarget = true ∧ d.classes.classFor t = .ok (n, d'.classes)) := by
  obtain ⟨_, _, ok', hconfig⟩ := d.addInline_ok block hasTarget
  rw [ok] at ok'
  cases ok'
  refine ⟨hconfig, ?_⟩
  obtain ⟨found, hunclosed⟩ := d.reportUnclosed_eq block
  unfold addInline at ok
  dsimp only at ok
  rw [hunclosed] at ok
  split at ok
  · rename_i query hk
    have hstates : statesAfter d.config d.initialStates block = d.initialStates := by
      rw [statesAfter, hk]
    rw [hstates]
    cases hasTarget with
    | false =>
      cases ok
      exact ⟨rfl, rfl, .inl ⟨rfl, rfl⟩⟩
    | true =>
      rcases styleInline_eq_ok ok with ⟨rfl, rfl⟩ | ⟨n, d₁, rfl, hc, rfl⟩
      · exact ⟨rfl, rfl, .inl ⟨rfl, rfl⟩⟩
      · obtain ⟨hr, hd₁⟩ := classFor_eq_ok hc
        refine ⟨?_, ?_, .inr ⟨n, _, rfl, rfl, hr⟩⟩
        · rw [hd₁]
          rfl
        · rw [hd₁]
          rfl
  · rename_i hk
    obtain ⟨d₁, hd, e⟩ := bind_eq_ok.mp ok
    cases e
    have hstates := addBlock_states hd
    refine ⟨hstates, ?_⟩
    unfold addBlock at hd
    split at hd
    · rename_i query h
      exact absurd h (hk query)
    · cases hd
      rw [addKeyframes_eq]
      exact ⟨rfl, .inl ⟨rfl, rfl⟩⟩
    · cases hd
      exact ⟨rfl, .inl ⟨rfl, rfl⟩⟩
    · cases hd
      exact ⟨rfl, .inl ⟨rfl, rfl⟩⟩

end Draft

/-! ## 3. The styles of statements -/

namespace Statement

/-- The first steps of animations after a statement. -/
def statesAfter (config : Config) (states : Table Text Text) : Statement → Table Text Text
  | .directive _ block => OutlineMarkup.statesAfter config states block
  | .element _ _ _ _ => states
  | .openBrace _ => states
  | .closeBrace _ => states

/-- The styles of a statement, if it is an element line. -/
def ownStyles (config : Config) (states : Table Text Text) : Statement → List (List Text)
  | .element _ code words _ => [lineStyles config states code words]
  | .openBrace _ => []
  | .closeBrace _ => []
  | .directive _ _ => []

/-- The styles of the element lines among statements, in order. -/
def styleGroups (config : Config) : Table Text Text → List Statement → List (List Text)
  | _, [] => []
  | states, s :: ss =>
    s.ownStyles config states ++ styleGroups config (s.statesAfter config states) ss

theorem styleGroups_append (config : Config) (states : Table Text Text) (ss ss' : List Statement) :
    styleGroups config states (ss ++ ss') =
      styleGroups config states ss ++
        styleGroups config (ss.foldl (statesAfter config) states) ss' := by
  induction ss generalizing states with
  | nil => rfl
  | cons s ss ih =>
    rw [List.cons_append, styleGroups, styleGroups, ih, List.append_assoc]
    rfl

/-- Whether a statement is an element line. -/
def isElement : Statement → Bool
  | .element _ _ _ _ => true
  | .openBrace _ => false
  | .closeBrace _ => false
  | .directive _ _ => false

theorem length_styleGroups (config : Config) (states : Table Text Text) (ss : List Statement) :
    (styleGroups config states ss).length = ss.countP isElement := by
  induction ss generalizing states with
  | nil => rfl
  | cons s ss ih =>
    rw [styleGroups, List.length_append, ih, List.countP_cons]
    cases s with
    | element line code words opens => exact Nat.add_comm 1 _
    | openBrace line => exact Nat.zero_add _
    | closeBrace line => exact Nat.zero_add _
    | directive line block => exact Nat.zero_add _

end Statement

/-! ## 4. Rules and classes along the body -/

namespace Directive

theorem Records.mono {pieces : List RulePiece} {b : RuleBlock} {r r' : ClassRegistry}
    (h : Records pieces (b, r)) (hr : r.bindings <+: r'.bindings) (hexact : r'.Exact) :
    Records pieces (b, r') where
  sound := ⟨hexact, h.sound.means.mono hr, h.sound.nodup⟩
  order := h.order
  text := h.text
  selectors := h.selectors

end Directive

/-- The styles of element lines as pieces of rules: they are written for no selector. -/
def stylePieces (groups : List (List Text)) : List Directive.RulePiece :=
  groups.flatten.map fun t => ⟨none, t⟩

/-- An element has the classes that a registry has for some styles. -/
def Wears (r : ClassRegistry) (styles : List Text) (e : Element) : Prop :=
  ∀ t ∈ styles, ∃ n ∈ e.classes, (Style.canonical t, n) ∈ r.bindings

theorem Wears.mono {r r' : ClassRegistry} {styles : List Text} {e : Element}
    (h : Wears r styles e) (hr : r.bindings <+: r'.bindings) : Wears r' styles e := by
  intro t ht
  obtain ⟨n, hn, hmem⟩ := h t ht
  exact ⟨n, hn, hr.subset hmem⟩

theorem Wears.addClass {r : ClassRegistry} {styles : List Text} {e : Element} {name : Text}
    (h : Wears r styles e) (hne : name ≠ []) : Wears r styles (e.addClass name) := by
  intro t ht
  obtain ⟨n, hn, hmem⟩ := h t ht
  exact ⟨n, (Element.mem_classes_addClass hne e).mpr (.inl hn), hmem⟩

theorem ClassRegistry.Exact.name_ne_nil {r : ClassRegistry} (h : r.Exact) {form name : Text}
    (hmem : (form, name) ∈ r.bindings) : name ≠ [] :=
  h.names_ne_nil name (List.mem_map.mpr ⟨(form, name), hmem, rfl⟩)

namespace Draft

open Directive

/-- The rule of a style joins the rules for elements as a piece does. -/
theorem addPiece_of_addUtility {d d' : Draft} {t name : Text}
    (ok : d.addUtility t = .ok (name, d')) :
    addPiece (d.utilities, d.classes) ⟨none, t⟩ = .ok (d'.utilities, d'.classes) := by
  obtain ⟨d₁, hc, rfl⟩ := addUtility_eq_ok ok
  obtain ⟨hr, hd₁⟩ := classFor_eq_ok hc
  have hutilities : d₁.utilities = d.utilities := by rw [hd₁]
  rw [addPiece, hr, hutilities]
  rfl

/-- **What the styles of an element line do**: each joins the rules for elements, and the element
    wears its class. -/
theorem foldlM_addStyle_styled {pieces : List RulePiece} {ts : List Text} {e e' : Element}
    {d d' : Draft} (h : Records pieces (d.utilities, d.classes))
    (ok : ts.foldlM addStyle (e, d) = .ok (e', d')) :
    d'.initialStates = d.initialStates ∧
      Records (pieces ++ ts.map fun t => ⟨none, t⟩) (d'.utilities, d'.classes) ∧
      (∀ n ∈ e.classes, n ∈ e'.classes) ∧ Wears d'.classes ts e' := by
  induction ts generalizing pieces e d with
  | nil =>
    cases ok
    refine ⟨rfl, ?_, fun n hn => hn, fun t ht => by cases ht⟩
    rw [List.map_nil, List.append_nil]
    exact h
  | cons t ts ih =>
    rw [List.foldlM_cons] at ok
    obtain ⟨⟨e₁, d₁⟩, ok₁, ok⟩ := bind_eq_ok.mp ok
    obtain ⟨name, hu, rfl⟩ := addStyle_eq_ok ok₁
    have hrecords := h.addPiece (addPiece_of_addUtility hu)
    obtain ⟨hstates, hrest, hkept, hworn⟩ := ih hrecords ok
    obtain ⟨_, _, hgrows, _, _⟩ := foldlM_addStyle_names ok
    obtain ⟨d₂, hc, rfl⟩ := addUtility_eq_ok hu
    obtain ⟨hr, hd₂⟩ := classFor_eq_ok hc
    have hbinding := ClassRegistry.mem_bindings_of_classFor hr
    have hadded := fun n => Element.mem_classes_addClass (n := n)
      (hrecords.sound.exact.name_ne_nil hbinding) e
    refine ⟨?_, ?_, fun n hn => hkept n ((hadded n).mpr (.inl hn)), ?_⟩
    · rw [hstates, hd₂]
    · rw [List.append_assoc] at hrest
      exact hrest
    · intro t' ht'
      rcases List.mem_cons.mp ht' with rfl | ht'
      · exact ⟨name, hkept name ((hadded name).mpr (.inr rfl)), hgrows.names.subset hbinding⟩
      · exact hworn t' ht'

end Draft

namespace Outline

/-- The element lines so far had the given styles: the rules for elements stand in the order in
    which these came up, and every element wears the classes of its own. -/
structure Styled (config : Config) (states : Table Text Text) (groups : List (List Text))
    (o : Outline) : Prop where
  owned : o.Owned
  config : o.draft.config = config
  states : o.draft.initialStates = states
  records : Directive.Records (stylePieces groups) (o.draft.utilities, o.draft.classes)
  worn : List.Forall₂ (Wears o.draft.classes) groups o.labels

section Steps

variable {config : Config} {states : Table Text Text} {groups : List (List Text)}
  {o o' : Outline}

/-- What changes neither the elements nor anything of the draft but its diagnostics. -/
theorem Styled.quiet (h : o.Styled config states groups) (hl : o'.Owned ∧ o'.labels = o.labels)
    (hd : ∃ xs, o'.draft = o.draft.withDiagnostics xs) : o'.Styled config states groups := by
  obtain ⟨xs, hd⟩ := hd
  refine ⟨hl.1, ?_, ?_, ?_, ?_⟩
  · rw [hd]
    exact h.config
  · rw [hd]
    exact h.states
  · rw [hd]
    exact h.records
  · rw [hd, hl.2]
    exact h.worn

theorem closeDedented_diagnostics (indent : Int) (d : Draft) (s : Scope) (enclosing : List Scope) :
    ∃ xs, (closeDedented indent d s enclosing).draft = d.withDiagnostics xs := by
  induction enclosing generalizing d s with
  | nil => exact ⟨d.diagnostics, rfl⟩
  | cons outer rest ih =>
    unfold closeDedented
    split
    · obtain ⟨xs, e⟩ := ih (d.report .dedentedBlock s.openedAt) (outer.adopt s.forest)
      exact ⟨xs, e⟩
    · exact ⟨d.diagnostics, rfl⟩

theorem Styled.settle (h : o.Styled config states groups) (indent : Int) :
    (o.settle indent).Styled config states groups :=
  h.quiet (settle_labels h.owned indent)
    (closeDedented_diagnostics indent o.draft o.scope o.enclosing)

theorem Styled.close (h : o.Styled config states groups) (line : Line) :
    (o.close line).Styled config states groups := by
  refine h.quiet (close_labels h.owned line) ?_
  unfold Outline.close
  split
  · exact ⟨_, rfl⟩
  · exact ⟨o.draft.diagnostics, rfl⟩

theorem Styled.openBlock (h : o.Styled config states groups) (line : Line) :
    (o.openBlock line).Styled config states groups :=
  h.quiet (openBlock_labels h.owned line) ⟨o.draft.diagnostics, Context.draft_openBlock o line⟩

/-- A new element wears the classes of its styles. -/
theorem Styled.push (h : o.Styled config states groups) {line : Line} {code : Text}
    {words : List Text} {hasChildren : Bool} {e : Element} {d' : Draft}
    (ok : o.draft.addElement line code words hasChildren = .ok (e, d')) :
    (⟨d', o.scope.push e, o.enclosing⟩ : Outline).Styled config states
      (groups ++ [lineStyles config states code words]) := by
  obtain ⟨_, _, ok', _, hconfig⟩ := o.draft.addElement_ok line code words hasChildren
  rw [ok] at ok'
  cases ok'
  obtain ⟨hstates, hrecords, _, hworn⟩ := Draft.foldlM_addStyle_styled
    (d := o.draft.absorb (ElementPlan.read o.draft line code words hasChildren)) h.records ok
  obtain ⟨_, _, hgrows, _, _⟩ := Draft.foldlM_addStyle_names ok
  rw [ElementPlan.read_styles_eq, h.config, h.states] at hrecords hworn
  refine ⟨h.owned, hconfig.trans h.config, hstates.trans h.states, ?_, ?_⟩
  · unfold stylePieces at hrecords ⊢
    rw [List.flatten_append, List.map_append]
    simpa using hrecords
  · have hlabels : (⟨d', o.scope.push e, o.enclosing⟩ : Outline).labels = o.labels ++ [e] := by
      simp [labels, Scope.labels_push]
    rw [hlabels]
    exact List.rel_append (h.worn.imp fun _ _ hw => hw.mono hgrows.names) (.cons hworn .nil)

/-- A directive leaves the rules for elements alone; its class comes on top. -/
theorem Styled.directive (h : o.Styled config states groups) {block : Directive.Block}
    {name : Option Text} {d' : Draft}
    (ok : o.draft.addInline block (!o.scope.entries.isEmpty) = .ok (name, d')) :
    (⟨d', (name.map o.scope.addClass).getD o.scope, o.enclosing⟩ : Outline).Styled config
      (statesAfter config states block) groups := by
  obtain ⟨hconfig, hstates, hutilities, hname⟩ := Draft.addInline_effect ok
  rw [h.config, h.states] at hstates
  rcases hname with ⟨rfl, hclasses⟩ | ⟨n, t, rfl, htarget, hr⟩
  · refine ⟨h.owned, hconfig.trans h.config, hstates, ?_, ?_⟩
    · rw [hutilities, hclasses]
      exact h.records
    · rw [hclasses]
      exact h.worn
  · have hextends := ClassRegistry.classFor_extends hr
    have hexact := h.records.sound.exact.classFor hr
    have hne := hexact.name_ne_nil (ClassRegistry.mem_bindings_of_classFor hr)
    have hentries : o.scope.entries ≠ [] := by
      intro hnil
      rw [hnil] at htarget
      cases htarget
    refine ⟨h.owned, hconfig.trans h.config, hstates, ?_, ?_⟩
    · rw [hutilities]
      exact h.records.mono hextends hexact
    · obtain ⟨before, e, after, hold, hnew⟩ := labels_addClass hentries d' n
      have hworn : List.Forall₂ (Wears d'.classes) groups o.labels :=
        h.worn.imp fun _ _ hw => hw.mono hextends
      rw [hold] at hworn
      show List.Forall₂ _ groups (⟨d', o.scope.addClass n, o.enclosing⟩ : Outline).labels
      rw [hnew]
      exact forall₂_replace hworn fun _ hw => hw.addClass hne

/-- **A step adds the styles of its statement.** -/
theorem Styled.step (h : o.Styled config states groups) {s : Statement}
    {following : List Statement} (ok : o.step s following = .ok o') :
    o'.Styled config (s.statesAfter config states) (groups ++ s.ownStyles config states) := by
  cases s with
  | element line code words opens =>
    obtain ⟨e, d', hadd, rfl⟩ := step_element_eq_ok ok
    have hpush := (h.settle line.indent).push hadd
    cases opens with
    | true =>
      exact hpush.quiet (enter_labels hpush.owned (List.cons_ne_nil _ _) line.number)
        ⟨d'.diagnostics, rfl⟩
    | false => exact hpush
  | openBrace line =>
    cases ok
    rw [Statement.ownStyles, List.append_nil]
    exact (h.settle line.indent).openBlock line
  | closeBrace line =>
    cases ok
    rw [Statement.ownStyles, List.append_nil]
    exact h.close line
  | directive line block =>
    obtain ⟨name, d', hadd, rfl⟩ := step_directive_eq_ok ok
    rw [Statement.ownStyles, List.append_nil]
    exact (h.settle line.indent).directive hadd

/-- **A run adds the styles of its statements, in order.** -/
theorem Styled.run (h : o.Styled config states groups) {ss : List Statement}
    (ok : o.run ss = .ok o') :
    o'.Styled config (ss.foldl (Statement.statesAfter config) states)
      (groups ++ Statement.styleGroups config states ss) := by
  induction ss generalizing o states groups with
  | nil =>
    cases ok
    rw [Statement.styleGroups, List.append_nil]
    exact h
  | cons s following ih =>
    obtain ⟨o₁, hs, hrun⟩ := bind_eq_ok.mp ok
    rw [Statement.styleGroups, ← List.append_assoc]
    exact ih (h.step hs) hrun

theorem finishFrom_diagnostics (d : Draft) (s : Scope) (enclosing : List Scope) :
    ∃ xs, (finishFrom d s enclosing).2 = d.withDiagnostics xs := by
  induction enclosing generalizing d s with
  | nil => exact ⟨d.diagnostics, rfl⟩
  | cons outer rest ih =>
    obtain ⟨xs, e⟩ := ih (d.report .unclosedBlock s.openedAt) (outer.adopt s.forest)
    exact ⟨xs, e⟩

end Steps

end Outline

/-- The first steps of animations that the directives at the top of a source set. -/
def topLevelStates (config : Config) (source : Text) : Table Text Text :=
  (topLevelBlocks config source).foldl (statesAfter config) .empty

/-- The statements of a source. -/
def statementsOf (config : Config) (source : Text) : List Statement :=
  Statement.ofLines config (linesOfBody config source)

/-- The styles of the element lines of a source, in order. -/
def documentStyles (config : Config) (source : Text) : List (List Text) :=
  Statement.styleGroups config (topLevelStates config source) (statementsOf config source)

/-- Before the body no element line has had any styles. -/
theorem Passes.styled_afterDirectives {config : Config} (hfit : config.TabsFit) (source : Text) :
    ∃ passes, run config source = .ok passes ∧
      ({ draft := passes.afterDirectives } : Outline).Styled config
        (topLevelStates config source) [] := by
  obtain ⟨passes, media, ok, _, hs₁, hs₂, _⟩ := Passes.steps hfit source
  obtain ⟨hvariables, htop, _⟩ := run_eq_ok ok
  have hsound := Context.Steps.sound (hs₁.trans hs₂) (Context.sound_start config)
  have hconfig : passes.afterDirectives.config = config :=
    (Context.Steps.grows (hs₁.trans hs₂)).config
  have hnone : passes.afterDirectives.utilities = .empty := by
    have hno : ∀ n, n ∉ passes.afterDirectives.utilities.rules.keys := by
      intro n hn
      have hrule : passes.afterDirectives.HasRule n := .inl hn
      rw [Draft.addTopLevel_hasRule htop, hvariables, Draft.takeVariables_hasRule] at hrule
      exact hrule.elim nofun nofun
    have hentries : passes.afterDirectives.utilities.rules.entries = [] :=
      List.map_eq_nil_iff.mp (List.eq_nil_iff_forall_not_mem.mpr hno)
    exact congrArg (fun entries => (⟨⟨entries⟩⟩ : RuleBlock)) hentries
  have hstates : passes.afterDirectives.initialStates = topLevelStates config source := by
    have hempty : passes.afterVariables.initialStates = .empty := by
      rw [hvariables]
      refine foldl_keeps (fun d : Draft => d.initialStates = .empty) (fun d line _ h => ?_) rfl
      obtain ⟨_, _, e⟩ := d.addVariableLine_eq line
      rw [e]
      exact h
    rw [Draft.addTopLevel_states htop, hempty, (Context.Steps.grows hs₁).config]
    rfl
  refine ⟨passes, ok, fun s hs => (by cases hs), hconfig, hstates, ?_, .nil⟩
  rw [hnone]
  exact Directive.records_empty hsound.exact

/-- **The rules for elements stand in the order in which the styles come up, and every element wears
    the classes of the styles of its line.** -/
theorem Passes.styled {config : Config} (hfit : config.TabsFit) (source : Text) :
    ∃ passes, run config source = .ok passes ∧
      Directive.Records (stylePieces (documentStyles config source))
        (passes.afterBody.utilities, passes.afterBody.classes) ∧
      List.Forall₂ (Wears passes.afterBody.classes) (documentStyles config source)
        passes.forest.labels := by
  obtain ⟨passes, ok, hstart⟩ := Passes.styled_afterDirectives hfit source
  obtain ⟨_, _, hbody⟩ := run_eq_ok ok
  obtain ⟨o, hrun, e⟩ := bind_eq_ok.mp hbody
  rw [hstart.config] at hrun
  have h := hstart.run hrun
  obtain ⟨hforest, hdraft⟩ := Prod.mk.inj (Except.ok.inj e)
  obtain ⟨xs, hfinish⟩ := Outline.finishFrom_diagnostics o.draft o.scope o.enclosing
  have hbody : passes.afterBody = o.draft.withDiagnostics xs := hdraft.symm.trans hfinish
  have hlabels : passes.forest.labels = o.labels := by
    rw [← hforest]
    exact Outline.finishFrom_labels o.draft o.scope h.owned
  refine ⟨passes, ok, ?_, ?_⟩
  · rw [hbody]
    exact h.records
  · rw [hbody, hlabels]
    exact h.worn

/-! ## 5. The value in effect -/

/-- Whether declarations declare a property. -/
def Style.declares (declarations property : Text) : Bool :=
  !(valuesIn (canonical declarations) property).isEmpty

/-- The classes that a draft has for some styles. -/
def Draft.classesOf (d : Draft) (styles : List Text) : List Text :=
  styles.filterMap fun t => d.classes.nameOf? (Style.canonical t)

/-- The rules for elements that hold for some classes and declare a property, in order. -/
def Draft.rulesFor (d : Draft) (classes : List Text) (property : Text) : List (Text × Rule) :=
  d.utilities.rules.entries.filter fun e =>
    classes.contains e.1 && Style.declares e.2.declarations property

/-- The values in effect for a property where some classes are worn: those of the last rule for
    elements that holds for one of the classes and declares the property. -/
def Draft.inEffect (d : Draft) (classes : List Text) (property : Text) : Option (List Text) :=
  (d.rulesFor classes property).getLast?.map fun e =>
    Style.valuesIn (Style.canonical e.2.declarations) property

/-- The canonical forms of some styles that declare a property, in the order in which the forms come
    up in a document. -/
def rivals (order styles : List Text) (property : Text) : List Text :=
  order.filter fun form =>
    (styles.map Style.canonical).contains form && !(Style.valuesIn form property).isEmpty

/-- The canonical forms of the styles of a source in the order in which they come up. -/
def styleOrder (config : Config) (source : Text) : List Text :=
  firstOccurrences ((documentStyles config source).flatten.map Style.canonical)

/-- What the styles of an element line come to in a document with the given order of styles. -/
structure Draft.Applies (d : Draft) (order styles : List Text) (e : Element) : Prop where
  /-- The element wears the classes of the styles. -/
  worn : ∀ n ∈ d.classesOf styles, n ∈ e.classes
  /-- Of their rules the one is in effect whose form came up last. -/
  effect : ∀ p, d.inEffect (d.classesOf styles) p =
    (rivals order styles p).getLast?.map (Style.valuesIn · p)
  /-- The other classes of the element change nothing unless they have rules for the property. -/
  others : ∀ p, (∀ n ∈ e.classes, n ∉ d.classesOf styles → d.rulesFor [n] p = []) →
    d.inEffect e.classes p = d.inEffect (d.classesOf styles) p
  /-- A value that one form alone declares is in effect. -/
  alone : ∀ p, ∀ t ∈ styles, Style.declares t p = true →
    (∀ t' ∈ styles, Style.declares t' p = true → Style.canonical t' = Style.canonical t) →
    d.inEffect (d.classesOf styles) p = some (Style.valuesIn (Style.canonical t) p)

section Applies

variable {d : Draft} {groups : List (List Text)} {styles : List Text} {e : Element}

theorem Draft.mem_classesOf (h : d.classes.Exact) {n : Text} :
    n ∈ d.classesOf styles ↔ ∃ t ∈ styles, (Style.canonical t, n) ∈ d.classes.bindings := by
  unfold classesOf
  rw [List.mem_filterMap]
  exact exists_congr fun t => and_congr_right fun _ => h.nameOf?_eq_some

/-- The rules of some styles are those whose forms are theirs. -/
theorem Directive.Records.rivals_eq
    (h : Records (stylePieces groups) (d.utilities, d.classes)) (styles : List Text) (p : Text) :
    rivals (firstOccurrences (groups.flatten.map Style.canonical)) styles p =
      (d.rulesFor (d.classesOf styles) p).map fun e => Style.canonical e.2.declarations := by
  have horder : firstOccurrences (groups.flatten.map Style.canonical) =
      d.utilities.rules.entries.map fun e => Style.canonical e.2.declarations := by
    refine Eq.trans ?_ h.order.symm
    rw [formOrder, stylePieces, List.map_map]
    rfl
  unfold rivals
  rw [horder, List.filter_map]
  refine congrArg (List.map _) (List.filter_congr fun e he => ?_)
  have hbinding := h.sound.means e he
  have hclass : (styles.map Style.canonical).contains (Style.canonical e.2.declarations) =
      (d.classesOf styles).contains e.1 := by
    rw [Bool.eq_iff_iff, List.contains_iff_mem, List.contains_iff_mem, List.mem_map,
      Draft.mem_classesOf h.sound.exact]
    refine exists_congr fun t => and_congr_right fun _ => ?_
    constructor
    · intro hform
      rw [hform]
      exact hbinding
    · exact fun hmem => (h.sound.exact.name_eq_iff hmem hbinding).mp rfl
  exact congrArg (· && Style.declares e.2.declarations p) hclass

theorem getLast?_eq_some_of_forall_eq {l : List Text} {a : Text} (ha : a ∈ l)
    (h : ∀ x ∈ l, x = a) : l.getLast? = some a := by
  obtain ⟨x, hx⟩ : ∃ x, l.getLast? = some x :=
    ⟨_, List.getLast?_eq_some_getLast (List.ne_nil_of_mem ha)⟩
  rw [hx, h x (List.mem_of_getLast? hx)]

/-- **What the styles of a line come to**, if its element wears their classes. -/
theorem Directive.Records.applies
    (h : Records (stylePieces groups) (d.utilities, d.classes)) (hw : Wears d.classes styles e)
    (hstyles : styles ∈ groups) :
    d.Applies (firstOccurrences (groups.flatten.map Style.canonical)) styles e := by
  have hexact := h.sound.exact
  have hworn : ∀ n ∈ d.classesOf styles, n ∈ e.classes := by
    intro n hn
    obtain ⟨t, ht, hmem⟩ := (Draft.mem_classesOf hexact).mp hn
    obtain ⟨n', hn', hmem'⟩ := hw t ht
    rw [(hexact.name_eq_iff hmem hmem').mpr rfl]
    exact hn'
  have heffect : ∀ p, d.inEffect (d.classesOf styles) p =
      (rivals (firstOccurrences (groups.flatten.map Style.canonical)) styles p).getLast?.map
        (Style.valuesIn · p) := by
    intro p
    rw [h.rivals_eq styles p, List.getLast?_map, Option.map_map]
    rfl
  refine ⟨hworn, heffect, fun p hothers => ?_, fun p t ht hdeclares halone => ?_⟩
  · have hrules : d.rulesFor e.classes p = d.rulesFor (d.classesOf styles) p := by
      refine List.filter_congr fun x hx => ?_
      cases hp : Style.declares x.2.declarations p with
      | false => rw [Bool.and_false, Bool.and_false]
      | true =>
        rw [Bool.and_true, Bool.and_true, Bool.eq_iff_iff, List.contains_iff_mem,
          List.contains_iff_mem]
        refine ⟨fun hc => ?_, hworn x.1⟩
        -- a class of another origin has no rule for the property, and this is one
        by_contra hn
        have hmem : x ∈ d.rulesFor [x.1] p := by
          refine List.mem_filter.mpr ⟨hx, ?_⟩
          rw [hp, Bool.and_true, List.contains_iff_mem]
          exact List.mem_cons_self
        rw [hothers x.1 hc hn] at hmem
        cases hmem
    unfold Draft.inEffect
    rw [hrules]
  · have hlast : (rivals (firstOccurrences (groups.flatten.map Style.canonical)) styles
        p).getLast? = some (Style.canonical t) := by
      refine getLast?_eq_some_of_forall_eq (List.mem_filter.mpr ⟨?_, ?_⟩) fun form hform => ?_
      · rw [mem_firstOccurrences]
        exact List.mem_map_of_mem (List.mem_flatten.mpr ⟨styles, hstyles, ht⟩)
      · rw [Bool.and_eq_true, List.contains_iff_mem]
        exact ⟨List.mem_map_of_mem ht, hdeclares⟩
      · obtain ⟨_, hform⟩ := List.mem_filter.mp hform
        obtain ⟨hstyle, hvalue⟩ := Bool.and_eq_true_iff.mp hform
        obtain ⟨t', ht', rfl⟩ := List.mem_map.mp (List.contains_iff_mem.mp hstyle)
        exact halone t' ht' hvalue
    rw [heffect, hlast]
    rfl

end Applies

/-! ## 6. One line in two documents -/

/-- Whether a directive is about keyframes. -/
def Directive.Block.isKeyframes (block : Block) : Bool :=
  match block.header.kind with
  | .keyframes _ => true
  | _ => false

/-- The directive of a statement. -/
def Statement.block? : Statement → Option Directive.Block
  | .directive _ block => some block
  | .element _ _ _ _ => none
  | .openBrace _ => none
  | .closeBrace _ => none

/-- The keyframes that come before a line: those at the top of the source, and those inside the tree
    among the statements before the line. -/
def keyframesBefore (config : Config) (source : Text) (before : List Statement) :
    List Directive.Block :=
  (topLevelBlocks config source ++ before.filterMap Statement.block?).filter
    Directive.Block.isKeyframes

theorem statesAfter_of_not_keyframes (config : Config) (states : Table Text Text)
    {block : Directive.Block} (h : block.isKeyframes = false) :
    statesAfter config states block = states := by
  unfold statesAfter
  split
  · rename_i name hk
    rw [Directive.Block.isKeyframes, hk] at h
    cases h
  · rfl

theorem foldl_statesAfter_keyframes (config : Config) (states : Table Text Text)
    (blocks : List Directive.Block) :
    (blocks.filter Directive.Block.isKeyframes).foldl (statesAfter config) states =
      blocks.foldl (statesAfter config) states := by
  induction blocks generalizing states with
  | nil => rfl
  | cons block blocks ih =>
    cases hk : block.isKeyframes with
    | true =>
      rw [List.filter_cons_of_pos hk, List.foldl_cons, List.foldl_cons, ih]
    | false =>
      rw [List.filter_cons_of_neg (by rw [hk]; exact Bool.false_ne_true), List.foldl_cons, ih,
        statesAfter_of_not_keyframes config states hk]

/-- The first steps known before a line are those of the keyframes before it. -/
theorem states_keyframesBefore (config : Config) (source : Text) (before : List Statement) :
    before.foldl (Statement.statesAfter config) (topLevelStates config source) =
      (keyframesBefore config source before).foldl (statesAfter config) .empty := by
  have hstatements : ∀ (ss : List Statement) (states : Table Text Text),
      ss.foldl (Statement.statesAfter config) states =
        (ss.filterMap Statement.block?).foldl (statesAfter config) states := by
    intro ss
    induction ss with
    | nil => exact fun states => rfl
    | cons s ss ih =>
      intro states
      cases s with
      | element line code words opens => exact ih states
      | openBrace line => exact ih states
      | closeBrace line => exact ih states
      | directive line block => exact ih (statesAfter config states block)
  rw [keyframesBefore, foldl_statesAfter_keyframes, List.foldl_append, hstatements]
  rfl

theorem exists_of_forall₂ {α β : Type} {R : α → β → Prop} {as : List α} {bs : List β}
    (h : List.Forall₂ R as bs) {i : Nat} {a : α} (ha : as[i]? = some a) :
    ∃ b, bs[i]? = some b ∧ R a b := by
  induction h generalizing i with
  | nil => cases ha
  | cons hab _ ih =>
    cases i with
    | zero =>
      cases ha
      exact ⟨_, rfl, hab⟩
    | succ i => exact ih ha

/-- The styles of an element line stand at its place among those of the document. -/
theorem documentStyles_getElem? {config : Config} {source : Text}
    {before following : List Statement} {l : Line} {code : Text} {words : List Text} {opens : Bool}
    (h : statementsOf config source = before ++ .element l code words opens :: following) :
    (documentStyles config source)[before.countP Statement.isElement]? = some (lineStyles config
      (before.foldl (Statement.statesAfter config) (topLevelStates config source)) code words) := by
  have hstyles : documentStyles config source =
      Statement.styleGroups config (topLevelStates config source) before ++
        Statement.styleGroups config
          (before.foldl (Statement.statesAfter config) (topLevelStates config source))
          (.element l code words opens :: following) := by
    rw [documentStyles, h, Statement.styleGroups_append]
  rw [hstyles, ← Statement.length_styleGroups config (topLevelStates config source),
    List.getElem?_append_right (Nat.le_refl _), Nat.sub_self]
  rfl

/-- **What the styles of an element line come to in a compiled document.** -/
theorem Passes.applies {config : Config} {source : Text} {before following : List Statement}
    {l : Line} {code : Text} {words : List Text} {opens : Bool} (hfit : config.TabsFit)
    (h : statementsOf config source = before ++ .element l code words opens :: following) :
    ∃ passes e, run config source = .ok passes ∧
      passes.forest.labels[before.countP Statement.isElement]? = some e ∧
      passes.afterBody.Applies (styleOrder config source)
        (lineStyles config
          ((keyframesBefore config source before).foldl (statesAfter config) .empty) code words)
        e := by
  obtain ⟨passes, ok, hrecords, hworn⟩ := Passes.styled hfit source
  have hget := documentStyles_getElem? h
  rw [states_keyframesBefore] at hget
  obtain ⟨e, he, hwears⟩ := exists_of_forall₂ hworn hget
  exact ⟨passes, e, ok, he, hrecords.applies hwears (List.mem_of_getElem? hget)⟩

end OutlineMarkup
