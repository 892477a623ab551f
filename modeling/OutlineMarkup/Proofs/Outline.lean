/-
  File:      OutlineMarkup/Proofs/Outline.lean
  Subject:   What one statement does to the state of an outline.

  Every statement can be added to every state. Up to classes, which directives can add later
  (`Scope.bare`), the state after it is known:

  * `step_element`: the scope that the line belongs to has one more element, the one that the line
    describes; if the line opens a block, a new scope is in progress;
  * `step_directive`: the scopes stay as they are;
  * braces are plain functions (`Outline.close`, `Outline.openBlock`).

  The settings never change, and they are all that an element takes from the draft
  (`ElementPlan.read_bare`).
-/
import OutlineMarkup.Outline.Scope
import OutlineMarkup.Proofs.Draft
import OutlineMarkup.Proofs.Forest

namespace OutlineMarkup

/-! ## 1. What an element takes from the draft -/

theorem Attire.addPair_attributes (d d' : Draft) (tag : Text) (line : Option Int) {a a' : Attire}
    (h : a.attributes = a'.attributes) (pair : Text × Text) :
    (a.addPair d tag line pair).value.attributes =
      (a'.addPair d' tag line pair).value.attributes := by
  unfold addPair
  dsimp only
  split
  · exact congrArg (Table.insert · _ _) h
  · split
    · exact congrArg (Table.insert · _ _) h
    · split
      · unfold addAria
        split
        · exact congrArg (Table.insert · _ _) h
        · exact h
      · split
        · exact h
        · exact congrArg (Table.insert · _ _) h

/-- Up to classes, an element takes only the settings from the draft. -/
theorem ElementPlan.read_bare {d d' : Draft} (h : d.config = d'.config) (line : Line)
    (code : Text) (words : List Text) (hasChildren : Bool) :
    (read d line code words hasChildren).value.element.bare =
      (read d' line code words hasChildren).value.element.bare := by
  have hattr : ∀ (tag : Text) (pairs : List (Text × Text)) (a a' : Attire),
      a.attributes = a'.attributes →
      (pairs.foldl (fun a x => (a.addPair d tag line.number x).value) a).attributes =
        (pairs.foldl (fun a x => (a.addPair d' tag line.number x).value) a').attributes := by
    intro tag pairs
    induction pairs with
    | nil => exact fun a a' h => h
    | cons pair pairs ih =>
      exact fun a a' h => ih _ _ (Attire.addPair_attributes d d' tag line.number h pair)
  unfold read Element.bare
  simp only [Reported.value_bind, Reported.value_pure, Reported.value_foldlM, h]
  rw [hattr _ _ _ _ rfl]

/-! ## 2. Scopes up to classes -/

namespace Scope

/-- A scope without the classes of its elements. -/
def bare (s : Scope) : Scope := { s with entries := s.entries.map (Tree.map Element.bare) }

theorem bare_addClass (s : Scope) (name : Text) : (s.addClass name).bare = s.bare := by
  unfold addClass
  split
  · rfl
  · rename_i latest earlier e
    simp only [bare, e, List.map_cons, Tree.map, Element.bare_addClass]

theorem entries_eq_nil_of_bare {s s' : Scope} (h : s.bare = s'.bare) :
    s.entries = [] ↔ s'.entries = [] := by
  have h' : s.entries.map (Tree.map Element.bare) = s'.entries.map (Tree.map Element.bare) :=
    congrArg entries h
  constructor
  · intro e
    rw [e] at h'
    exact List.map_eq_nil_iff.mp h'.symm
  · intro e
    rw [e] at h'
    exact List.map_eq_nil_iff.mp h'

end Scope

namespace Outline

/-! ## 3. Steps -/

theorem closeDedented_config (indent : Int) (d : Draft) (s : Scope) (enclosing : List Scope) :
    (closeDedented indent d s enclosing).draft.config = d.config := by
  induction enclosing generalizing d s with
  | nil => rfl
  | cons outer rest ih =>
    unfold closeDedented
    split
    · rw [ih]
      rfl
    · rfl

theorem settle_config (o : Outline) (indent : Int) :
    (o.settle indent).draft.config = o.draft.config :=
  closeDedented_config indent o.draft o.scope o.enclosing

/-- A line that does not stand left of the scope in progress stays in it. -/
theorem settle_inside (d : Draft) {s : Scope} {enclosing : List Scope} {indent : Int}
    (h : enclosing ≠ [] → s.isLeftOf indent = false) :
    (⟨d, s, enclosing⟩ : Outline).settle indent = ⟨d, s.setMargin indent, enclosing⟩ := by
  cases enclosing with
  | nil => rfl
  | cons outer rest =>
    unfold settle
    rw [closeDedented, h (List.cons_ne_nil _ _), if_neg Bool.false_ne_true]

theorem close_config (o : Outline) (line : Line) :
    (o.close line).draft.config = o.draft.config := by
  unfold close
  split
  · rfl
  · rfl

theorem openBlock_config (o : Outline) (line : Line) :
    (o.openBlock line).draft.config = o.draft.config := by
  unfold openBlock
  split
  · rfl
  · rfl

theorem step_element (o : Outline) (line : Line) (code : Text) (words : List Text) (opens : Bool)
    (following : List Statement) :
    ∃ e d', o.step (.element line code words opens) following =
        .ok (if opens then
            (⟨d', (o.settle line.indent).scope.push e, (o.settle line.indent).enclosing⟩ :
              Outline).enter line.number
          else ⟨d', (o.settle line.indent).scope.push e, (o.settle line.indent).enclosing⟩) ∧
      e.bare = (ElementPlan.read o.draft line code words
        (Statement.hasChildren line opens following)).value.element.bare ∧
      d'.config = o.draft.config := by
  have hc := o.settle_config line.indent
  obtain ⟨e, d', ok, hb, hc'⟩ := (o.settle line.indent).draft.addElement_ok line code words
    (Statement.hasChildren line opens following)
  refine ⟨e, d', ?_, hb.trans (ElementPlan.read_bare hc line code words _), hc'.trans hc⟩
  show (o.settle line.indent).addElement line code words opens following = _
  unfold addElement
  rw [ok]
  rfl

theorem step_directive (o : Outline) (line : Line) (block : Directive.Block)
    (following : List Statement) :
    ∃ s' d', o.step (.directive line block) following =
        .ok ⟨d', s', (o.settle line.indent).enclosing⟩ ∧
      s'.bare = (o.settle line.indent).scope.bare ∧ d'.config = o.draft.config := by
  obtain ⟨name, d', ok, hc⟩ := (o.settle line.indent).draft.addInline_ok block
    (!(o.settle line.indent).scope.entries.isEmpty)
  refine ⟨(name.map (o.settle line.indent).scope.addClass).getD (o.settle line.indent).scope, d',
    ?_, ?_, hc.trans (o.settle_config line.indent)⟩
  · show (o.settle line.indent).addDirective block = _
    unfold addDirective
    rw [ok]
    rfl
  · cases name with
    | none => rfl
    | some name => exact Scope.bare_addClass _ name

/-- What an element line does to a state, with its classes. -/
theorem step_element_eq_ok {o o' : Outline} {line : Line} {code : Text} {words : List Text}
    {opens : Bool} {following : List Statement}
    (ok : o.step (.element line code words opens) following = .ok o') :
    ∃ e d', (o.settle line.indent).draft.addElement line code words
        (Statement.hasChildren line opens following) = .ok (e, d') ∧
      o' = if opens then
          (⟨d', (o.settle line.indent).scope.push e, (o.settle line.indent).enclosing⟩ :
            Outline).enter line.number
        else ⟨d', (o.settle line.indent).scope.push e, (o.settle line.indent).enclosing⟩ := by
  obtain ⟨⟨e, d'⟩, hadd, h⟩ := bind_eq_ok.mp ok
  exact ⟨e, d', hadd, (Except.ok.inj h).symm⟩

/-- What a directive does to a state, with the class that it adds. -/
theorem step_directive_eq_ok {o o' : Outline} {line : Line} {block : Directive.Block}
    {following : List Statement} (ok : o.step (.directive line block) following = .ok o') :
    ∃ name d', (o.settle line.indent).draft.addInline block
        (!(o.settle line.indent).scope.entries.isEmpty) = .ok (name, d') ∧
      o' = ⟨d', (name.map (o.settle line.indent).scope.addClass).getD (o.settle line.indent).scope,
        (o.settle line.indent).enclosing⟩ := by
  obtain ⟨⟨name, d'⟩, hadd, h⟩ := bind_eq_ok.mp ok
  exact ⟨name, d', hadd, (Except.ok.inj h).symm⟩

/-- **Every statement can be added to every state.** -/
theorem step_ok (o : Outline) (s : Statement) (following : List Statement) :
    ∃ o', o.step s following = .ok o' ∧ o'.draft.config = o.draft.config := by
  cases s with
  | element line code words opens =>
    obtain ⟨e, d', ok, _, hc⟩ := o.step_element line code words opens following
    cases opens with
    | true => exact ⟨_, ok, hc⟩
    | false => exact ⟨_, ok, hc⟩
  | openBrace line =>
    exact ⟨_, rfl, ((o.settle line.indent).openBlock_config line).trans
      (o.settle_config line.indent)⟩
  | closeBrace line => exact ⟨_, rfl, o.close_config line⟩
  | directive line block =>
    obtain ⟨s', d', ok, _, hc⟩ := o.step_directive line block following
    exact ⟨_, ok, hc⟩

theorem run_cons {o o' : Outline} {s : Statement} {following : List Statement}
    (h : o.step s following = .ok o') : o.run (s :: following) = o'.run following := by
  rw [run, h]
  rfl

/-- **Every sequence of statements can be added to every state.** -/
theorem run_ok (o : Outline) (ss : List Statement) :
    ∃ o', o.run ss = .ok o' ∧ o'.draft.config = o.draft.config := by
  induction ss generalizing o with
  | nil => exact ⟨o, rfl, rfl⟩
  | cons s following ih =>
    obtain ⟨o₁, ok₁, hc₁⟩ := o.step_ok s following
    obtain ⟨o₂, ok₂, hc₂⟩ := ih o₁
    exact ⟨o₂, (run_cons ok₁).trans ok₂, hc₂.trans hc₁⟩

end Outline

/-- **The body of a document can always be read.** -/
theorem Draft.readBody_ok (d : Draft) (lines : List Line) :
    ∃ f d', d.readBody lines = .ok (f, d') := by
  obtain ⟨o, ok, _⟩ := Outline.run_ok { draft := d } (Statement.ofLines d.config lines)
  refine ⟨o.finish.1, o.finish.2, ?_⟩
  unfold readBody
  rw [ok]
  rfl

end OutlineMarkup
