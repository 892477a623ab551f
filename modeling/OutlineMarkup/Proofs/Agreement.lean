/-
  File:      OutlineMarkup/Proofs/Agreement.lean
  Subject:   The element tree and the stylesheet agree.

  While the body is read, every element so far is dressed (`Outline.Dressed`): a class that its line
  does not give has a rule, each style that its line declares has a class with a rule of that form,
  and every rule is worn by some element. A step keeps this (`Dressed.step`) because it hands the
  class of a new rule to an element at once, so a run does (`Dressed.run`). Pruning keeps every
  element that wears a class (`Forest.mem_labels_prune`).

  * `tree_and_stylesheet_agree`: classes of the pruned tree, rules and names of the registry match;
  * `rules_mean_their_class`: the rules say what the styles of the elements say.
-/
import OutlineMarkup.Proofs.DocumentOrder
import OutlineMarkup.Proofs.Meaning
import OutlineMarkup.Proofs.Pruning

namespace OutlineMarkup

open Context

/-! ## 1. Elements and their plans -/

theorem Element.hasAttributes_of_mem_classes {e : Element} {n : Text} (h : n ∈ e.classes) :
    e.hasAttributes = true := by
  have hne : e.classes.isEmpty = false := List.isEmpty_eq_false_iff.mpr (List.ne_nil_of_mem h)
  rw [hasAttributes, hne, Bool.not_false, Bool.or_true, Bool.true_or]

/-- An element is the one of a plan, dressed by a draft: a class that is not planned has a rule, and
    each planned style has a class, which has a rule and stands for the canonical form. -/
structure ElementPlan.Dresses (plan : ElementPlan) (d : Draft) (e : Element) : Prop where
  bare : e.bare = plan.element.bare
  generated : ∀ n ∈ e.classes, n ∈ plan.element.classes ∨ d.HasRule n
  styled : ∀ t ∈ plan.styles, ∃ n ∈ e.classes,
    (Style.canonical t, n) ∈ d.classes.bindings ∧ n ∈ d.utilities.rules.keys

namespace ElementPlan

variable {plan : ElementPlan} {d d' : Draft} {e : Element}

theorem Dresses.mono (h : plan.Dresses d e) (hd : d.Grows d') : plan.Dresses d' e where
  bare := h.bare
  generated n hn := (h.generated n hn).imp (fun h => h) hd.hasRule
  styled t ht := by
    obtain ⟨n, hn, hform, hkey⟩ := h.styled t ht
    exact ⟨n, hn, hd.names.subset hform, hd.utilities n hkey⟩

theorem Dresses.addClass {name : Text} (h : plan.Dresses d e) (hne : name ≠ [])
    (hr : d.HasRule name) : plan.Dresses d (e.addClass name) where
  bare := (e.bare_addClass name).trans h.bare
  generated n hn := by
    rcases (Element.mem_classes_addClass hne e).mp hn with hn | rfl
    · exact h.generated n hn
    · exact .inr hr
  styled t ht := by
    obtain ⟨n, hn, hrule⟩ := h.styled t ht
    exact ⟨n, (Element.mem_classes_addClass hne e).mpr (.inl hn), hrule⟩

end ElementPlan

theorem Element.bare_foldl_addClass (names : List Text) (e : Element) :
    (names.foldl addClass e).bare = e.bare :=
  foldl_keeps (fun e' : Element => e'.bare = e.bare)
    (fun e' name _ h => (e'.bare_addClass name).trans h) rfl

/-- **An element line dresses its element**, and with every rule that it adds. -/
theorem Draft.addElement_dresses {d d' : Draft} {line : Line} {code : Text} {words : List Text}
    {hasChildren : Bool} {e : Element} (hd' : d'.classes.Exact)
    (hnamed : ∀ n, d'.HasRule n → n ∈ d'.classes.names)
    (ok : d.addElement line code words hasChildren = .ok (e, d')) :
    (ElementPlan.read d line code words hasChildren).value.Dresses d' e ∧
      ∀ n, d'.HasRule n → d.HasRule n ∨ n ∈ e.classes := by
  obtain ⟨names, he, _, hnames, hrules⟩ := foldlM_addStyle_names ok
  have hne : ∀ n ∈ names, n ≠ [] := fun n hn =>
    hd'.names_ne_nil n (hnamed n ((hrules n).mpr (.inr hn)))
  have hmem : ∀ n, n ∈ e.classes ↔
      n ∈ (ElementPlan.read d line code words hasChildren).value.element.classes ∨ n ∈ names := by
    rw [he]
    exact fun n => Element.mem_classes_foldl_addClass hne _
  refine ⟨⟨?_, ?_, ?_⟩, ?_⟩
  · rw [he]
    exact Element.bare_foldl_addClass names _
  · exact fun n hn => ((hmem n).mp hn).imp (fun h => h) fun h => (hrules n).mpr (.inr h)
  · intro t ht
    obtain ⟨n, hn, hrule⟩ := hnames t ht
    exact ⟨n, (hmem n).mpr (.inr hn), hrule⟩
  · exact fun n hn => ((hrules n).mp hn).imp (fun h => h) fun h => (hmem n).mpr (.inr h)

/-! ## 2. Directives -/

namespace Draft

open Directive

/-- Directives at the top add no rule for elements or inside the tree. -/
theorem addBlock_hasRule {d d' : Draft} {block : Block} (ok : d.addBlock block = .ok d')
    {n : Text} : d'.HasRule n ↔ d.HasRule n := by
  unfold addBlock at ok
  split at ok
  · obtain ⟨⟨rules, d₁⟩, hr, e⟩ := bind_eq_ok.mp ok
    have hd₁ := (mediaRules_eq_ok hr).2
    have hsame : d₁.HasRule n ↔ d.HasRule n := by
      rw [hd₁]
      rfl
    cases e
    split
    · exact hsame
    · exact hsame
  · cases ok
    rw [addKeyframes_eq]
    rfl
  · cases ok
    rfl
  · cases ok
    rfl

theorem reportUnclosed_hasRule (d : Draft) (block : Block) {n : Text} :
    (d.reportUnclosed block).HasRule n ↔ d.HasRule n := by
  obtain ⟨found, hfound⟩ := d.reportUnclosed_eq block
  rw [hfound]
  rfl

theorem addTopLevel_hasRule {d d' : Draft} {blocks : List Block}
    (ok : d.addTopLevel blocks = .ok d') {n : Text} : d'.HasRule n ↔ d.HasRule n :=
  foldlM_keeps (fun d' : Draft => d'.HasRule n ↔ d.HasRule n)
    (fun d₁ block _ ok h => (addBlock_hasRule ok).trans ((d₁.reportUnclosed_hasRule block).trans h))
    ok Iff.rfl

/-- A directive inside the tree adds the rule of the class that comes of it, and no other; and a
    class comes of it only if there is an element to have it. -/
theorem addInline_hasRule {d d' : Draft} {block : Block} {hasTarget : Bool} {name : Option Text}
    (ok : d.addInline block hasTarget = .ok (name, d')) :
    (∀ n, d'.HasRule n ↔ d.HasRule n ∨ name = some n) ∧
      (name.isSome = true → hasTarget = true) := by
  unfold addInline at ok
  dsimp only at ok
  split at ok
  · cases hasTarget with
    | false =>
      cases ok
      exact ⟨fun n => ⟨fun h => .inl ((d.reportUnclosed_hasRule block).mp h), fun h =>
        (d.reportUnclosed_hasRule block).mpr (h.elim (fun h => h) nofun)⟩, nofun⟩
    | true =>
      refine ⟨fun n => ?_, fun _ => rfl⟩
      rw [← d.reportUnclosed_hasRule block]
      rcases styleInline_eq_ok ok with ⟨rfl, rfl⟩ | ⟨n', d₁, rfl, hc, rfl⟩
      · exact ⟨.inl, fun h => h.elim (fun h => h) nofun⟩
      · rw [hasRule_addMediaRule, hasRule_classFor hc, Option.some.injEq, eq_comm]
        rfl
  · obtain ⟨d₁, hd, e⟩ := bind_eq_ok.mp ok
    cases e
    refine ⟨fun n => ?_, nofun⟩
    rw [addBlock_hasRule hd, d.reportUnclosed_hasRule block]
    exact ⟨.inl, fun h => h.elim (fun h => h) nofun⟩

end Draft

/-! ## 3. Outlines -/

/-- A relation to a list goes over to the list with one member replaced by a better one. -/
theorem forall₂_replace {α β : Type} {R : α → β → Prop} {as : List α} {before after : List β}
    {b b' : β} (h : List.Forall₂ R as (before ++ b :: after)) (hb : ∀ a, R a b → R a b') :
    List.Forall₂ R as (before ++ b' :: after) := by
  induction before generalizing as with
  | nil =>
    obtain ⟨a, as', hab, hrest, rfl⟩ := List.forall₂_cons_right_iff.mp h
    exact .cons (hb a hab) hrest
  | cons c before ih =>
    obtain ⟨a, as', hac, hrest, rfl⟩ := List.forall₂_cons_right_iff.mp h
    exact .cons hac (ih hrest)

theorem Scope.labels_addClass {s : Scope} (h : s.entries ≠ []) (name : Text) :
    ∃ before e after, s.labels = before ++ e :: after ∧
      (s.addClass name).labels = before ++ e.addClass name :: after := by
  obtain ⟨latest, earlier, he⟩ := List.exists_cons_of_ne_nil h
  refine ⟨earlier.reverse.flatMap Tree.labels, latest.label, latest.children.labels, ?_, ?_⟩
  · simp [labels, he, Tree.labels]
  · simp [labels, addClass, he, Tree.labels]

namespace Outline

/-- A class for the latest element of the scope in progress changes that element only. -/
theorem labels_addClass {o : Outline} (h : o.scope.entries ≠ []) (d : Draft) (name : Text) :
    ∃ before e after, o.labels = before ++ e :: after ∧
      (⟨d, o.scope.addClass name, o.enclosing⟩ : Outline).labels =
        before ++ e.addClass name :: after := by
  obtain ⟨before, e, after, hbefore, hafter⟩ := Scope.labels_addClass h name
  refine ⟨o.enclosing.reverse.flatMap Scope.labels ++ before, e, after, ?_, ?_⟩
  · rw [labels, hbefore, List.append_assoc]
  · rw [labels, hafter, List.append_assoc]

/-- An element has come about on the way from a context: its plan was read from some draft, and the
    draft that was reached since dresses it. -/
def CameAbout (c : Context) (d : Draft) (plan : Draft → ElementPlan) (e : Element) : Prop :=
  ∃ d₀, Steps c ⟨d₀, c.media⟩ ∧ Steps ⟨d₀, c.media⟩ ⟨d, c.media⟩ ∧ (plan d₀).Dresses d e

/-- The elements so far are those of the plans, each dressed, and they wear every rule. -/
structure Dressed (c : Context) (plans : List (Draft → ElementPlan)) (o : Outline) : Prop where
  owned : o.Owned
  reached : Steps c ⟨o.draft, c.media⟩
  dressed : List.Forall₂ (CameAbout c o.draft) plans o.labels
  worn : ∀ n, o.draft.HasRule n → ∃ e ∈ o.labels, n ∈ e.classes

section Steps

variable {c : Context} {d d' : Draft} {plans : List (Draft → ElementPlan)} {o o' : Outline}

theorem CameAbout.mono {plan : Draft → ElementPlan} {e : Element} (h : CameAbout c d plan e)
    (hs : Context.Steps ⟨d, c.media⟩ ⟨d', c.media⟩) : CameAbout c d' plan e := by
  obtain ⟨d₀, h₀, hd, hdress⟩ := h
  exact ⟨d₀, h₀, hd.trans hs, hdress.mono hs.grows⟩

/-- What changes neither the elements nor the rules keeps everything dressed. -/
theorem Dressed.quiet (h : o.Dressed c plans) (hl : o'.Owned ∧ o'.labels = o.labels)
    (hs : Context.Steps ⟨o.draft, c.media⟩ ⟨o'.draft, c.media⟩)
    (hr : ∀ n, o'.draft.HasRule n → o.draft.HasRule n) : o'.Dressed c plans where
  owned := hl.1
  reached := h.reached.trans hs
  dressed := by
    rw [hl.2]
    exact h.dressed.imp fun _ _ hce => hce.mono hs
  worn n hn := by
    rw [hl.2]
    exact h.worn n (hr n hn)

theorem closeDedented_hasRule (indent : Int) (d : Draft) (s : Scope) (enclosing : List Scope)
    {n : Text} : (closeDedented indent d s enclosing).draft.HasRule n ↔ d.HasRule n := by
  induction enclosing generalizing d s with
  | nil => rfl
  | cons outer rest ih =>
    unfold closeDedented
    split
    · exact ih _ _
    · rfl

theorem Dressed.settle (h : o.Dressed c plans) (indent : Int) :
    (o.settle indent).Dressed c plans :=
  h.quiet (settle_labels h.owned indent)
    (steps_closeDedented c.media indent o.draft o.scope o.enclosing)
    fun _ hn => (closeDedented_hasRule indent o.draft o.scope o.enclosing).mp hn

theorem Dressed.close (h : o.Dressed c plans) (line : Line) : (o.close line).Dressed c plans := by
  refine h.quiet (close_labels h.owned line) (steps_close c.media o line) fun n hn => ?_
  unfold Outline.close at hn
  split at hn
  · exact hn
  · exact hn

theorem Dressed.openBlock (h : o.Dressed c plans) (line : Line) :
    (o.openBlock line).Dressed c plans := by
  refine h.quiet (openBlock_labels h.owned line) ?_ fun n hn => ?_
  · rw [draft_openBlock]
  · rw [draft_openBlock] at hn
    exact hn

theorem Dressed.enter (h : o.Dressed c plans) (hs : o.scope.entries ≠ []) (n : Int) :
    (o.enter n).Dressed c plans :=
  h.quiet (enter_labels h.owned hs n) .refl fun _ hn => hn

/-- A new element is dressed by its own line. -/
theorem Dressed.push (hc : c.Sound) (h : o.Dressed c plans) {line : Line} {code : Text}
    {words : List Text} {hasChildren : Bool} {e : Element}
    (ok : o.draft.addElement line code words hasChildren = .ok (e, d')) :
    (⟨d', o.scope.push e, o.enclosing⟩ : Outline).Dressed c
      (plans ++ [fun d => (ElementPlan.read d line code words hasChildren).value]) := by
  have hs := steps_addElement c.media ok
  have hsound := Context.Steps.sound (h.reached.trans hs) hc
  obtain ⟨hdress, hrules⟩ := Draft.addElement_dresses hsound.exact
    (fun n hn => (hsound.named n).mpr (.inl hn)) ok
  have hlabels : (⟨d', o.scope.push e, o.enclosing⟩ : Outline).labels = o.labels ++ [e] := by
    simp [labels, Scope.labels_push]
  refine ⟨h.owned, h.reached.trans hs, ?_, ?_⟩
  · rw [hlabels]
    exact List.rel_append (h.dressed.imp fun _ _ hce => hce.mono hs)
      (.cons ⟨o.draft, h.reached, hs, hdress⟩ .nil)
  · intro n hn
    rw [hlabels]
    rcases hrules n hn with hn | hn
    · obtain ⟨e', he', hw⟩ := h.worn n hn
      exact ⟨e', List.mem_append_left _ he', hw⟩
    · exact ⟨e, List.mem_append_right _ List.mem_cons_self, hn⟩

/-- The class of a directive goes to the latest element, and its rule with it. -/
theorem Dressed.addClass (hc : c.Sound) (h : o.Dressed c plans) {name : Text}
    (hs : Context.Steps ⟨o.draft, c.media⟩ ⟨d', c.media⟩) (hentries : o.scope.entries ≠ [])
    (hrules : ∀ n, d'.HasRule n ↔ o.draft.HasRule n ∨ some name = some n) :
    (⟨d', o.scope.addClass name, o.enclosing⟩ : Outline).Dressed c plans := by
  have hsound := Context.Steps.sound (h.reached.trans hs) hc
  have hrule : d'.HasRule name := (hrules name).mpr (.inr rfl)
  have hne : name ≠ [] :=
    hsound.exact.names_ne_nil name ((hsound.named name).mpr (.inl hrule))
  obtain ⟨before, e, after, hold, hnew⟩ := labels_addClass hentries d' name
  have hdressed : List.Forall₂ (CameAbout c d') plans o.labels :=
    h.dressed.imp fun _ _ hce => hce.mono hs
  refine ⟨h.owned, h.reached.trans hs, ?_, ?_⟩
  · rw [hnew]
    rw [hold] at hdressed
    refine forall₂_replace hdressed fun plan hce => ?_
    obtain ⟨d₀, h₀, hd, hdress⟩ := hce
    exact ⟨d₀, h₀, hd, hdress.addClass hne hrule⟩
  · intro n hn
    rw [hnew]
    have hlatest : e.addClass name ∈ before ++ e.addClass name :: after :=
      List.mem_append_right _ List.mem_cons_self
    rcases (hrules n).mp hn with hn | hn
    · obtain ⟨e', he', hw⟩ := h.worn n hn
      rw [hold] at he'
      rcases List.mem_append.mp he' with he' | he'
      · exact ⟨e', List.mem_append_left _ he', hw⟩
      · rcases List.mem_cons.mp he' with rfl | he'
        · exact ⟨_, hlatest, (Element.mem_classes_addClass hne e').mpr (.inl hw)⟩
        · exact ⟨e', List.mem_append_right _ (List.mem_cons_of_mem _ he'), hw⟩
    · exact ⟨_, hlatest, (Element.mem_classes_addClass hne e).mpr (.inr (Option.some.inj hn).symm)⟩

/-- **A step keeps everything dressed.** -/
theorem Dressed.step {s : Statement} {following : List Statement} (hc : c.Sound)
    (h : o.Dressed c plans) (ok : o.step s following = .ok o') :
    o'.Dressed c (plans ++ s.ownPlan following) := by
  cases s with
  | element line code words opens =>
    obtain ⟨e, d', hadd, rfl⟩ := step_element_eq_ok ok
    have hpush := (h.settle line.indent).push hc hadd
    cases opens with
    | true => exact hpush.enter (List.cons_ne_nil _ _) line.number
    | false => exact hpush
  | openBrace line =>
    cases ok
    rw [Statement.ownPlan, List.append_nil]
    exact (h.settle line.indent).openBlock line
  | closeBrace line =>
    cases ok
    rw [Statement.ownPlan, List.append_nil]
    exact h.close line
  | directive line block =>
    rw [Statement.ownPlan, List.append_nil]
    obtain ⟨name, d', hadd, rfl⟩ := step_directive_eq_ok ok
    have h₁ := h.settle line.indent
    have hs := steps_addInline c.media hadd
    obtain ⟨hrules, htarget⟩ := Draft.addInline_hasRule hadd
    cases name with
    | none =>
      exact h₁.quiet ⟨h₁.owned, rfl⟩ hs fun n hn => ((hrules n).mp hn).elim (fun h => h) nofun
    | some name =>
      refine h₁.addClass hc hs (fun e => ?_) hrules
      have hnone := htarget rfl
      rw [e] at hnone
      cases hnone

/-- **A run keeps everything dressed.** -/
theorem Dressed.run {ss : List Statement} (hc : c.Sound) (h : o.Dressed c plans)
    (ok : o.run ss = .ok o') : o'.Dressed c (plans ++ Statement.plans ss) := by
  induction ss generalizing o plans with
  | nil =>
    cases ok
    rw [Statement.plans, List.append_nil]
    exact h
  | cons s following ih =>
    obtain ⟨o₁, hs, hrun⟩ := bind_eq_ok.mp ok
    rw [Statement.plans, ← List.append_assoc]
    exact ih (h.step hc hs) hrun

theorem finishFrom_hasRule (d : Draft) (s : Scope) (enclosing : List Scope) {n : Text} :
    (finishFrom d s enclosing).2.HasRule n ↔ d.HasRule n := by
  induction enclosing generalizing d s with
  | nil => rfl
  | cons outer rest ih => exact ih _ _

end Steps

end Outline

/-- **The body of a document is dressed**, if there were no rules before it. -/
theorem Draft.readBody_dressed {d d' : Draft} {m : List (Text × RuleBlock)} {lines : List Line}
    {f : Forest Element} (hc : Context.Sound ⟨d, m⟩) (hnone : ∀ n, ¬ d.HasRule n)
    (ok : d.readBody lines = .ok (f, d')) :
    List.Forall₂ (Outline.CameAbout ⟨d, m⟩ d') (Statement.plans (Statement.ofLines d.config lines))
        f.labels ∧
      ∀ n, d'.HasRule n → ∃ e ∈ f.labels, n ∈ e.classes := by
  obtain ⟨o, hrun, e⟩ := bind_eq_ok.mp ok
  obtain ⟨rfl, rfl⟩ := Prod.mk.inj (Except.ok.inj e)
  have hstart : ({ draft := d } : Outline).Dressed ⟨d, m⟩ [] :=
    ⟨fun s hs => (by cases hs), .refl, .nil, fun n hn => absurd hn (hnone n)⟩
  have h := hstart.run hc hrun
  have hs := steps_finishFrom m o.draft o.scope o.enclosing
  rw [Outline.finishFrom_labels _ _ h.owned]
  refine ⟨h.dressed.imp fun _ _ hce => hce.mono hs, fun n hn => h.worn n ?_⟩
  exact (Outline.finishFrom_hasRule o.draft o.scope o.enclosing).mp hn

/-! ## 4. Compiled documents -/

theorem forall₂_join {α β γ : Type} {P : α → β → Prop} {Q : α → γ → Prop} {R : β → γ → Prop}
    {as : List α} {bs : List β} {cs : List γ} (hP : List.Forall₂ P as bs)
    (hQ : List.Forall₂ Q as cs) (h : ∀ a b c, P a b → Q a c → R b c) : List.Forall₂ R bs cs := by
  induction hP generalizing cs with
  | nil =>
    cases hQ
    exact .nil
  | cons hab _ ih =>
    cases hQ with
    | cons hac hrest => exact .cons (h _ _ _ hab hac) (ih hrest)

theorem exists_sublist_of_forall₂ {α β : Type} {R : α → β → Prop} {as : List α} {bs bs' : List β}
    (h : List.Forall₂ R as bs) (hs : bs'.Sublist bs) :
    ∃ as', as'.Sublist as ∧ List.Forall₂ R as' bs' := by
  induction hs generalizing as with
  | slnil => exact ⟨[], List.nil_sublist as, .nil⟩
  | cons b _ ih =>
    obtain ⟨a, as', _, hrest, rfl⟩ := List.forall₂_cons_right_iff.mp h
    obtain ⟨kept, hk, hr⟩ := ih hrest
    exact ⟨kept, hk.cons a, hr⟩
  | cons_cons b _ ih =>
    obtain ⟨a, as', hab, hrest, rfl⟩ := List.forall₂_cons_right_iff.mp h
    obtain ⟨kept, hk, hr⟩ := ih hrest
    exact ⟨a :: kept, hk.cons_cons a, .cons hab hr⟩

theorem Draft.takeVariables_hasRule (d : Draft) (lines : List Line) {n : Text} :
    (d.takeVariables lines).1.HasRule n ↔ d.HasRule n :=
  foldl_keeps (f := addVariableLine) (fun d' => d'.HasRule n ↔ d.HasRule n)
    (fun d' line _ h => by
      obtain ⟨_, _, e⟩ := d'.addVariableLine_eq line
      rw [e]
      exact h)
    Iff.rfl

/-- **Every element of a compiled body is dressed by the final draft, and its rules are all worn.**
    The plan of an element was read from a draft on the way. -/
theorem Passes.dressed {config : Config} (hfit : config.TabsFit) (source : Text) :
    let written := (linesOfBody config source).flatMap (Statement.writeOut config)
    ∃ passes media, run config source = .ok passes ∧
      (⟨passes.afterVariables, []⟩ : Context).addTopLevel (topLevelBlocks config source) =
        .ok ⟨passes.afterDirectives, media⟩ ∧
      Steps (.start config) ⟨passes.afterVariables, []⟩ ∧
      Steps ⟨passes.afterVariables, []⟩ ⟨passes.afterDirectives, media⟩ ∧
      Steps ⟨passes.afterDirectives, media⟩ ⟨passes.afterBody, media⟩ ∧
      List.Forall₂ (fun x e => ∃ d plan, Steps (.start config) ⟨d, media⟩ ∧
          Steps ⟨d, media⟩ ⟨passes.afterBody, media⟩ ∧ x.1.plan d x.2 = .ok plan ∧
          plan.Dresses passes.afterBody e) (elementLines 0 written) passes.forest.labels ∧
      ∀ n, passes.afterBody.HasRule n → ∃ e ∈ passes.forest.labels, n ∈ e.classes := by
  intro written
  obtain ⟨passes, media, ok, hmedia, hs₁, hs₂, hs₃⟩ := Passes.steps hfit source
  obtain ⟨hvariables, htop, hbody⟩ := run_eq_ok ok
  have hs := hs₁.trans hs₂
  have hconfig : passes.afterDirectives.config = config := (Steps.grows hs).config
  have hnone : ∀ n, ¬ passes.afterDirectives.HasRule n := by
    intro n hn
    rw [Draft.addTopLevel_hasRule htop, hvariables, Draft.takeVariables_hasRule] at hn
    exact hn.elim nofun nofun
  obtain ⟨hdressed, hworn⟩ :=
    Draft.readBody_dressed (Steps.sound hs (sound_start config)) hnone hbody
  rw [hconfig] at hdressed
  have hproper : ∀ l ∈ written, l.IsProper :=
    Statement.isProper_of_mem_flatMap fun l h => isProper_of_mem_linesOfBody h
  refine ⟨passes, media, ok, hmedia, hs₁, hs₂, hs₃, ?_, hworn⟩
  refine forall₂_join (plans_ofLines config 0 hproper) hdressed fun plan x e hplan hce => ?_
  obtain ⟨d, hd, hd', hdress⟩ := hce
  exact ⟨d, plan d, hs.trans hd, hd', hplan d, hdress⟩

/-- The classes that an element line gives are those of its selectors and of its `cls` and `class`
    pairs; the element takes no more than that from its own line. -/
theorem Line.plan_eq_ok {d : Draft} {l : Line} {following : List Line} {plan : ElementPlan}
    (ok : l.plan d following = .ok plan) :
    ∃ code words opens, l.elementWords = .ok (code, words, opens) ∧
      (l.describe (.empty d.config) following).map Element.bare = .ok plan.element.bare ∧
      ∀ n ∈ plan.element.classes, n ∈ (Features.read code words l.number).value.classes := by
  obtain ⟨⟨code, words, opens⟩, hw, e⟩ := bind_eq_ok.mp ok
  cases e
  refine ⟨code, words, opens, hw, ?_, fun n hn => ?_⟩
  · have hconfig : (Draft.empty d.config).config = d.config := rfl
    rw [Line.describe, hw]
    exact congrArg Except.ok (ElementPlan.read_bare hconfig l code words _)
  · exact mem_firstOccurrences.mp hn

/-- **Tree and stylesheet agree.** After a compile, with the blocks of rules behind its media
    fragments beside it: every element of the pruned tree is that of an element line, and its
    classes are given on that line or have a rule; the root has none. Every rule for elements or
    under a media query inside the tree is worn by an element of the pruned tree. And the names of
    the registry are those of the rules, of these and of the ones behind the fragments. -/
theorem tree_and_stylesheet_agree {config : Config} (hfit : config.TabsFit) (source : Text) :
    let written := (linesOfBody config source).flatMap (Statement.writeOut config)
    ∃ passes media, Passes.run config source = .ok passes ∧
      compile config source = .ok passes.result ∧
      (⟨passes.afterVariables, []⟩ : Context).addTopLevel (topLevelBlocks config source) =
        .ok ⟨passes.afterDirectives, media⟩ ∧
      (∀ m ∈ media, m.2.renderMedia m.1 ∈ passes.afterBody.fragments) ∧
      passes.result.root.label.classes = [] ∧
      (∃ lines, lines.Sublist (elementLines 0 written) ∧
        List.Forall₂ (fun x e => ∃ code words opens,
            x.1.elementWords = .ok (code, words, opens) ∧
            (x.1.describe (.empty config) x.2).map Element.bare = .ok e.bare ∧
            ∀ n ∈ e.classes, n ∈ (Features.read code words x.1.number).value.classes ∨
              passes.afterBody.HasRule n)
          lines passes.result.root.children.labels) ∧
      (∀ n, passes.afterBody.HasRule n → ∃ e ∈ passes.result.root.children.labels, n ∈ e.classes) ∧
      ∀ n, n ∈ passes.afterBody.classes.names ↔
        passes.afterBody.HasRule n ∨ ∃ m ∈ media, n ∈ m.2.rules.keys := by
  intro written
  obtain ⟨passes, media, ok, hmedia, hs₁, hs₂, hs₃, hdressed, hworn⟩ :=
    Passes.dressed hfit source
  have hsound := Steps.sound ((hs₁.trans hs₂).trans hs₃) (sound_start config)
  refine ⟨passes, media, ok, compile_of_run ok, hmedia, hsound.emitted, rfl, ?_, ?_, hsound.named⟩
  · obtain ⟨lines, hlines, hkept⟩ :=
      exists_sublist_of_forall₂ hdressed passes.forest.labels_prune_sublist
    refine ⟨lines, hlines, hkept.imp fun x e hx => ?_⟩
    obtain ⟨d, plan, hd, _, hplan, hdress⟩ := hx
    obtain ⟨code, words, opens, hw, hbare, hclasses⟩ := Line.plan_eq_ok hplan
    have hconfig : d.config = config := (Steps.grows hd).config
    rw [hconfig, ← hdress.bare] at hbare
    exact ⟨code, words, opens, hw, hbare,
      fun n hn => (hdress.generated n hn).imp (hclasses n) fun h => h⟩
  · intro n hn
    obtain ⟨e, he, hw⟩ := hworn n hn
    exact ⟨e, Forest.mem_labels_prune he (Element.hasAttributes_of_mem_classes hw), hw⟩

/-- A class that is written and one that is generated, a block of a media query, and an element that
    is left out: all but the written class have rules, and the other way round. -/
theorem tree_and_stylesheet_agree_mixed :
    let source : Text := "@mobile\n  .card pad=2\np .a pad=4\nc"
    (Config.default).TabsFit ∧
    ∃ passes media, Passes.run .default source = .ok passes ∧
      compile .default source = .ok passes.result ∧
      (⟨passes.afterVariables, []⟩ : Context).addTopLevel (topLevelBlocks .default source) =
        .ok ⟨passes.afterDirectives, media⟩ ∧
      passes.result.root.children.labels.map Element.classes =
        [["a".toList, "n-behjhh".toList]] ∧
      passes.afterBody.utilities.rules.keys = ["n-behjhh".toList] ∧
      passes.afterBody.classes.names = ["n-behi03".toList, "n-behjhh".toList] ∧
      ∀ n ∈ passes.afterBody.classes.names,
        passes.afterBody.HasRule n ∨ ∃ m ∈ media, n ∈ m.2.rules.keys := by
  intro source
  have hfit : (Config.default).TabsFit := by decide
  obtain ⟨passes, media, ok, okResult, hmedia, _, _, _, _, hnames⟩ :=
    tree_and_stylesheet_agree hfit source
  have hvalues : (Passes.run .default source).map (fun passes =>
      (passes.result.root.children.labels.map Element.classes,
        passes.afterBody.utilities.rules.keys, passes.afterBody.classes.names)) =
      .ok ([["a".toList, "n-behjhh".toList]], ["n-behjhh".toList],
        ["n-behi03".toList, "n-behjhh".toList]) := by
    decide +kernel
  rw [ok] at hvalues
  obtain ⟨htree, hvalues⟩ := Prod.mk.inj (Except.ok.inj hvalues)
  obtain ⟨hrules, hregistry⟩ := Prod.mk.inj hvalues
  exact ⟨hfit, passes, media, ok, okResult, hmedia, htree, hrules, hregistry,
    fun n hn => (hnames n).mp hn⟩

/-- **Rules mean what their class says.** A compile goes from context to context by steps. In every
    context that steps lead to, and also when more classes have been named but have no rule yet, the
    registry has for the class of every rule the canonical form of the rule's declarations; so no
    two rules of a block have the same form. A class that a directive gives to the element before it
    has, ever after, a rule under the query with the form of what the directive declares. And in the
    end each style of an element line, as read on the way, has given its element a class whose rule
    has the form of the style. -/
theorem rules_mean_their_class {config : Config} (hfit : config.TabsFit) (source : Text) :
    let written := (linesOfBody config source).flatMap (Statement.writeOut config)
    ∃ passes media, Passes.run config source = .ok passes ∧
      (⟨passes.afterVariables, []⟩ : Context).addTopLevel (topLevelBlocks config source) =
        .ok ⟨passes.afterDirectives, media⟩ ∧
      Steps (.start config) ⟨passes.afterVariables, []⟩ ∧
      Steps ⟨passes.afterVariables, []⟩ ⟨passes.afterDirectives, media⟩ ∧
      Steps ⟨passes.afterDirectives, media⟩ ⟨passes.afterBody, media⟩ ∧
      (∀ c, Steps (.start config) c →
        (∀ m ∈ c.media, m.2.renderMedia m.1 ∈ c.draft.fragments) ∧
        (∀ ts, ∀ b ∈ c.blocks, ∀ e ∈ b.rules.entries,
          (c.draft.classes.after ts).formOf? e.1 = some (Style.canonical e.2.declarations)) ∧
        (∀ b ∈ c.blocks, ∀ e ∈ b.rules.entries, ∀ e' ∈ b.rules.entries,
          Style.canonical e.2.declarations = Style.canonical e'.2.declarations → e = e') ∧
        ∀ query lines n d', c.draft.styleInline query lines = .ok (some n, d') →
          ∀ c', Steps ⟨d', c.media⟩ c' → ∃ b rule, (query, b) ∈ c'.draft.inlineMedia.entries ∧
            (n, rule) ∈ b.rules.entries ∧ Style.canonical rule.declarations =
              Style.canonical (c.draft.inlineDeclarations lines).value.text) ∧
      List.Forall₂ (fun x e => ∃ d plan, Steps (.start config) ⟨d, media⟩ ∧
          Steps ⟨d, media⟩ ⟨passes.afterBody, media⟩ ∧ x.1.plan d x.2 = .ok plan ∧
          ∀ t ∈ plan.styles, ∃ n ∈ e.classes, ∃ rule,
            (n, rule) ∈ passes.afterBody.utilities.rules.entries ∧
            Style.canonical rule.declarations = Style.canonical t)
        (elementLines 0 written) passes.forest.labels := by
  intro written
  obtain ⟨passes, media, ok, hmedia, hs₁, hs₂, hs₃, hdressed, _⟩ := Passes.dressed hfit source
  refine ⟨passes, media, ok, hmedia, hs₁, hs₂, hs₃, fun c hc => ?_, ?_⟩
  · have hsound := Steps.sound hc (sound_start config)
    refine ⟨hsound.emitted, fun ts b hb e he => ?_, fun b hb e he e' he' => ?_, ?_⟩
    · exact (hsound.exact.after ts).formOf?_eq_some.mpr
        ((c.draft.classes.after_extends ts).subset (hsound.means b hb e he))
    · exact (hsound.means b hb).injective hsound.exact (hsound.nodup b hb) he he'
    · intro query lines n d' hstyle c' hc'
      obtain ⟨hform, b, hb, hk⟩ := Draft.styleInline_name hstyle
      have hgrows := Steps.grows hc'
      have hsound' := Steps.sound ((hc.trans (steps_styleInline c.media hstyle)).trans hc')
        (sound_start config)
      obtain ⟨b', hb', hkeys⟩ := hgrows.inline query b hb
      obtain ⟨rule, hr, hrform⟩ := hsound'.exists_rule (hgrows.names.subset hform)
        (mem_blocks.mpr (.inr (.inl (Table.mem_values.mpr ⟨query, hb'⟩)))) (hkeys n hk)
      exact ⟨b', rule, hb', hr, hrform⟩
  · have hsound := Steps.sound ((hs₁.trans hs₂).trans hs₃) (sound_start config)
    refine hdressed.imp fun x e hx => ?_
    obtain ⟨d, plan, hd, hd', hplan, hdress⟩ := hx
    refine ⟨d, plan, hd, hd', hplan, fun t ht => ?_⟩
    obtain ⟨n, hn, hform, hkey⟩ := hdress.styled t ht
    obtain ⟨rule, hr, hrform⟩ := hsound.exists_rule hform (mem_blocks.mpr (.inl rfl)) hkey
    exact ⟨n, hn, rule, hr, hrform⟩

/-- An element and a directive for it that declare the same but for the priority share a class. -/
theorem rules_mean_their_class_shared :
    (Config.default).TabsFit ∧
    ∃ passes, Passes.run .default "p pad=4\n  @mobile\n    pad=4" = .ok passes ∧
      passes.afterBody.utilities = ⟨⟨[("n-behjhh", ⟨"padding: 4px;", []⟩)]⟩⟩ ∧
      passes.afterBody.inlineMedia = ⟨[("(max-width: 600px)",
        ⟨⟨[("n-behjhh", ⟨"padding: 4px !important;", []⟩)]⟩⟩)]⟩ ∧
      passes.afterBody.classes.formOf? "n-behjhh" = some (Style.canonical "padding: 4px;") ∧
      passes.afterBody.classes.formOf? "n-behjhh" =
        some (Style.canonical "padding: 4px !important;") := by
  have hfit : (Config.default).TabsFit := by decide
  obtain ⟨passes, media, ok, _, hs₁, hs₂, hs₃, hall, _⟩ :=
    rules_mean_their_class hfit "p pad=4\n  @mobile\n    pad=4"
  have hrules : (Passes.run .default "p pad=4\n  @mobile\n    pad=4").toOption.map
      (fun p => (p.afterBody.utilities, p.afterBody.inlineMedia)) =
        some (⟨⟨[("n-behjhh", ⟨"padding: 4px;", []⟩)]⟩⟩, ⟨[("(max-width: 600px)",
          ⟨⟨[("n-behjhh", ⟨"padding: 4px !important;", []⟩)]⟩⟩)]⟩) := by
    decide +kernel
  rw [ok] at hrules
  obtain ⟨hutilities, hinline⟩ := Prod.mk.inj (Option.some.inj hrules)
  have hforms := (hall _ ((hs₁.trans hs₂).trans hs₃)).2.1 []
  refine ⟨hfit, passes, ok, hutilities, hinline, ?_, ?_⟩
  · exact hforms _ (mem_blocks.mpr (.inl rfl)) ("n-behjhh", ⟨"padding: 4px;", []⟩)
      (by rw [hutilities]; exact List.mem_cons_self)
  · refine hforms ⟨⟨[("n-behjhh", ⟨"padding: 4px !important;", []⟩)]⟩⟩
      (mem_blocks.mpr (.inr (.inl ?_))) _ List.mem_cons_self
    rw [hinline]
    exact List.mem_cons_self

end OutlineMarkup
