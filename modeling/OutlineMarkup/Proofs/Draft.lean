/-
  File:      OutlineMarkup/Proofs/Draft.lean
  Subject:   What a draft takes in never fails.

  The only step that can refuse is the naming of a class, and it is only asked for declarations with
  substance. So every element line and every directive can be added to every draft:

  * `addElement_ok`: adding an element line gives the element that was read from it, up to classes,
    and keeps the settings;
  * `addInline_ok`, `addTopLevel_ok`: the same for directives, inside the element tree and at the
    top.
-/
import OutlineMarkup.Directive.Process
import OutlineMarkup.Element.Build
import OutlineMarkup.Proofs.Substance

namespace OutlineMarkup

/-! ## 1. Sequences of steps -/

namespace Reported

variable {α β : Type}

theorem value_foldlM (f : α → β → Reported α) (xs : List β) (a : α) :
    (xs.foldlM f a).value = xs.foldl (fun a x => (f a x).value) a := by
  induction xs generalizing a with
  | nil => rfl
  | cons x xs ih =>
    rw [List.foldlM_cons, value_bind, ih]
    rfl

theorem value_mapM (f : α → Reported β) (xs : List α) :
    (xs.mapM f).value = xs.map fun x => (f x).value := by
  induction xs with
  | nil => rfl
  | cons x xs ih =>
    rw [List.mapM_cons, value_bind, value_bind, value_pure, ih]
    rfl

end Reported

/-- Two steps succeed with what the second makes of the result of the first. -/
theorem bind_eq_ok {α β : Type} {x : Except Fault α} {f : α → Except Fault β} {b : β} :
    x >>= f = .ok b ↔ ∃ a, x = .ok a ∧ f a = .ok b := by
  cases x with
  | error fault => exact ⟨fun h => (by cases h), fun ⟨_, h, _⟩ => (by cases h)⟩
  | ok a => exact ⟨fun h => ⟨a, rfl, h⟩, fun ⟨_, h, ok⟩ => (by cases h; exact ok)⟩

/-- Steps that never fail from states with a property, and keep it, do not fail in a row. -/
theorem foldlM_ok {σ α : Type} {f : σ → α → Except Fault σ} (I : σ → Prop) {xs : List α}
    (h : ∀ s, ∀ x ∈ xs, I s → ∃ s', f s x = .ok s' ∧ I s') {s : σ} (hs : I s) :
    ∃ s', xs.foldlM f s = .ok s' ∧ I s' := by
  induction xs generalizing s with
  | nil => exact ⟨s, rfl, hs⟩
  | cons x xs ih =>
    obtain ⟨s₁, e₁, h₁⟩ := h s x List.mem_cons_self hs
    obtain ⟨s₂, e₂, h₂⟩ := ih (fun s y hy => h s y (List.mem_cons_of_mem _ hy)) h₁
    refine ⟨s₂, ?_, h₂⟩
    rw [List.foldlM_cons, e₁]
    exact e₂

/-- What every step keeps, given what it adds, a row of steps keeps. -/
theorem foldlM_keeps_of_mem {σ α : Type} {f : σ → α → Except Fault σ} (I : σ → Prop) {xs : List α}
    (h : ∀ s, ∀ x ∈ xs, ∀ s', f s x = .ok s' → I s → I s') {s s' : σ}
    (ok : xs.foldlM f s = .ok s') (hs : I s) : I s' := by
  induction xs generalizing s with
  | nil =>
    cases ok
    exact hs
  | cons x xs ih =>
    rw [List.foldlM_cons] at ok
    obtain ⟨s₁, ok₁, ok₂⟩ := bind_eq_ok.mp ok
    exact ih (fun s y hy => h s y (List.mem_cons_of_mem _ hy)) ok₂
      (h s x List.mem_cons_self s₁ ok₁ hs)

theorem foldlM_keeps {σ α : Type} {f : σ → α → Except Fault σ} (I : σ → Prop) {xs : List α}
    (h : ∀ s x s', f s x = .ok s' → I s → I s') {s s' : σ} (ok : xs.foldlM f s = .ok s')
    (hs : I s) : I s' := foldlM_keeps_of_mem I (fun s x _ => h s x) ok hs

theorem foldl_keeps {σ α : Type} {f : σ → α → σ} (I : σ → Prop) {xs : List α}
    (h : ∀ s, ∀ x ∈ xs, I s → I (f s x)) {s : σ} (hs : I s) : I (xs.foldl f s) := by
  induction xs generalizing s with
  | nil => exact hs
  | cons x xs ih =>
    exact ih (fun s y hy => h s y (List.mem_cons_of_mem _ hy)) (h s x List.mem_cons_self hs)

/-! ## 2. Classes -/

theorem ClassRegistry.classFor_ok (r : ClassRegistry) {declarations : Text}
    (h : Style.canonical declarations ≠ []) :
    ∃ name r', r.classFor declarations = .ok (name, r') := by
  unfold classFor
  rw [if_neg (by simpa using h)]
  split
  · exact ⟨_, _, rfl⟩
  · exact ⟨_, _, rfl⟩

namespace Draft

theorem classFor_ok (d : Draft) {declarations : Text} (h : Style.canonical declarations ≠ []) :
    ∃ name r, d.classFor declarations = .ok (name, { d with classes := r }) := by
  obtain ⟨name, r, e⟩ := d.classes.classFor_ok h
  refine ⟨name, r, ?_⟩
  unfold classFor
  rw [e]
  rfl

theorem addUtility_ok (d : Draft) {declarations : Text} (h : Style.canonical declarations ≠ []) :
    ∃ name r u,
      d.addUtility declarations = .ok (name, { d with classes := r, utilities := u }) := by
  obtain ⟨name, r, e⟩ := d.classFor_ok h
  refine ⟨name, r, d.utilities.add name declarations, ?_⟩
  unfold addUtility
  rw [e]
  rfl

end Draft

/-! ## 3. Element lines -/

/-- An element without its classes: what its own line fixes, whatever comes later. -/
def Element.bare (e : Element) : Element := { e with classes := [] }

theorem Element.bare_addClass (e : Element) (name : Text) : (e.addClass name).bare = e.bare := by
  unfold addClass
  split
  · rfl
  · rfl

theorem Attire.addPair_solid (d : Draft) (tag : Text) (line : Option Int) {a : Attire}
    (ha : a.styles.Solid) (pair : Text × Text) :
    (a.addPair d tag line pair).value.styles.Solid := by
  unfold addPair
  dsimp only
  split
  · exact ha
  · split
    · exact ha
    · split
      · unfold addAria
        split
        · exact ha
        · exact ha
      · split
        · exact ha.add _ _
        · exact ha

theorem ElementPlan.read_styles (d : Draft) (line : Line) (code : Text) (words : List Text)
    (hasChildren : Bool) :
    ∀ t ∈ (ElementPlan.read d line code words hasChildren).value.styles,
      Style.canonical t ≠ [] := by
  unfold ElementPlan.read
  simp only [Reported.value_bind, Reported.value_pure, Reported.value_foldlM]
  exact StyleGroups.Solid.canonical_texts_ne_nil
    (foldl_keeps (fun a : Attire => a.styles.Solid)
      (fun a pair _ ha => a.addPair_solid d _ _ ha pair) StyleGroups.solid_empty)

namespace Draft

theorem addStyle_ok (s : Element × Draft) {declarations : Text}
    (h : Style.canonical declarations ≠ []) :
    ∃ e r u, addStyle s declarations = .ok (e, { s.2 with classes := r, utilities := u }) ∧
      e.bare = s.1.bare := by
  obtain ⟨name, r, u, e⟩ := s.2.addUtility_ok h
  refine ⟨s.1.addClass name, r, u, ?_, s.1.bare_addClass name⟩
  unfold addStyle
  rw [e]
  rfl

/-- **Adding an element line never fails.** -/
theorem addElement_ok (d : Draft) (line : Line) (code : Text) (words : List Text)
    (hasChildren : Bool) :
    ∃ e d', d.addElement line code words hasChildren = .ok (e, d') ∧
      e.bare = (ElementPlan.read d line code words hasChildren).value.element.bare ∧
      d'.config = d.config := by
  have hs := ElementPlan.read_styles d line code words hasChildren
  obtain ⟨⟨e, d'⟩, ok, h⟩ := foldlM_ok (f := addStyle)
    (fun s : Element × Draft =>
      s.1.bare = (ElementPlan.read d line code words hasChildren).value.element.bare ∧
      s.2.config = d.config)
    (fun s t ht hI => by
      obtain ⟨e, r, u, ok, hb⟩ := addStyle_ok s (hs t ht)
      exact ⟨_, ok, hb.trans hI.1, hI.2⟩)
    (s := ((ElementPlan.read d line code words hasChildren).value.element,
      d.absorb (ElementPlan.read d line code words hasChildren)))
    ⟨rfl, rfl⟩
  exact ⟨e, d', ok, h⟩

end Draft

/-! ## 4. Directives -/

namespace Directive

theorem mediaLine_declarations (d : Draft) (line : Line) :
    ∀ piece ∈ (mediaLine d line).value, Style.canonical piece.declarations ≠ [] := by
  intro piece hp
  unfold mediaLine at hp
  split at hp
  · cases hp
  · rename_i first rest _
    have hg := fun xs => (StyleGroups.solid_ofAdditions xs).canonical_texts_ne_nil
    simp only [Reported.value_bind] at hp
    split at hp
    · obtain ⟨t, ht, rfl⟩ := List.mem_map.mp hp
      exact hg _ t ht
    · obtain ⟨t, ht, rfl⟩ := List.mem_map.mp hp
      exact hg _ t ht

theorem mediaRules_ok (d : Draft) (lines : List Line) :
    ∃ rules d', mediaRules d lines = .ok (rules, d') ∧ d'.config = d.config := by
  have hp : ∀ piece ∈ (mediaPieces d lines).value, Style.canonical piece.declarations ≠ [] := by
    intro piece h
    unfold mediaPieces at h
    simp only [Reported.value_bind, Reported.value_pure, Reported.value_mapM] at h
    obtain ⟨ps, hps, hpiece⟩ := List.mem_flatten.mp h
    obtain ⟨line, _, rfl⟩ := List.mem_map.mp hps
    exact mediaLine_declarations d line piece hpiece
  obtain ⟨⟨rules, classes⟩, ok, _⟩ := foldlM_ok (f := addPiece) (fun _ => True)
    (fun s piece h _ => by
      obtain ⟨name, r, e⟩ := s.2.classFor_ok (hp piece h)
      refine ⟨(s.1.add name piece.declarations piece.selector, r), ?_, trivial⟩
      unfold addPiece
      rw [e]
      rfl)
    (s := (RuleBlock.empty, d.classes)) trivial
  refine ⟨rules, { d.absorb (mediaPieces d lines) with classes }, ?_, rfl⟩
  unfold mediaRules
  dsimp only
  rw [ok]
  rfl

/-- **What keyframes add**: their text, the declarations of their first step, and what is reported
    of their lines. -/
theorem addKeyframes_eq (d : Draft) (name : Text) (lines : List Line) :
    addKeyframes d name lines =
      { d with
        fragments := d.fragments ++
          if (readSteps d lines).value.isEmpty then []
          else [renderKeyframes name (readSteps d lines).value]
        initialStates :=
          ((readSteps d lines).value.filter fun s => isInitialStep s.1).foldl
            (fun states s => states.insert name s.2) d.initialStates
        diagnostics := d.diagnostics ++ (readSteps d lines).diagnostics } := by
  have hfold : ∀ (steps : List (Text × Text)) (d : Draft),
      steps.foldl (fun d s => d.setInitialState name s.2) d =
        { d with
          initialStates :=
            steps.foldl (fun states s => states.insert name s.2) d.initialStates } := by
    intro steps
    induction steps with
    | nil => exact fun d => rfl
    | cons s steps ih => exact fun d => ih (d.setInitialState name s.2)
  unfold addKeyframes
  dsimp only
  rw [hfold]
  split
  · rw [List.append_nil]
    rfl
  · rfl

theorem addKeyframes_config (d : Draft) (name : Text) (lines : List Line) :
    (addKeyframes d name lines).config = d.config := by
  rw [addKeyframes_eq]

end Directive

namespace Draft

open Directive

/-- A directive that is not closed is reported, and nothing else changes. -/
theorem reportUnclosed_eq (d : Draft) (block : Block) :
    ∃ found, d.reportUnclosed block = { d with diagnostics := d.diagnostics ++ found } := by
  unfold reportUnclosed
  split
  · exact ⟨[], by rw [List.append_nil]⟩
  · exact ⟨_, rfl⟩

theorem reportUnclosed_config (d : Draft) (block : Block) :
    (d.reportUnclosed block).config = d.config := by
  obtain ⟨found, hfound⟩ := d.reportUnclosed_eq block
  rw [hfound]

theorem addBlock_ok (d : Draft) (block : Block) :
    ∃ d', d.addBlock block = .ok d' ∧ d'.config = d.config := by
  unfold addBlock
  split
  · obtain ⟨rules, d', ok, hc⟩ := mediaRules_ok d block.lines
    rename_i query _
    unfold addMedia
    rw [ok]
    by_cases h : rules.isEmpty
    · exact ⟨d', by simp [bind, Except.bind, pure, Except.pure, h], hc⟩
    · exact ⟨{ d' with fragments := d'.fragments ++ [rules.renderMedia query] },
        by simp [bind, Except.bind, pure, Except.pure, h], hc⟩
  · exact ⟨_, rfl, addKeyframes_config d _ block.lines⟩
  · exact ⟨_, rfl, rfl⟩
  · exact ⟨_, rfl, rfl⟩

/-- **Adding the directives at the top of a document never fails.** -/
theorem addTopLevel_ok (d : Draft) (blocks : List Block) :
    ∃ d', d.addTopLevel blocks = .ok d' ∧ d'.config = d.config :=
  foldlM_ok (fun d' : Draft => d'.config = d.config)
    (fun d' block _ hd => by
      obtain ⟨d₁, ok, hc⟩ := (d'.reportUnclosed block).addBlock_ok block
      exact ⟨d₁, ok, hc.trans ((d'.reportUnclosed_config block).trans hd)⟩)
    rfl

theorem styleInline_ok (d : Draft) (query : Text) (lines : List Line) :
    ∃ name d', d.styleInline query lines = .ok (name, d') ∧ d'.config = d.config := by
  unfold styleInline
  dsimp only
  by_cases h : (d.inlineDeclarations lines).value.isEmpty
  · exact ⟨none, d.absorb (d.inlineDeclarations lines), by simp [h, pure, Except.pure], rfl⟩
  · obtain ⟨name, r, e⟩ :=
      (d.absorb (d.inlineDeclarations lines)).classFor_ok (Declarations.canonical_text_ne_nil h)
    refine ⟨some name, Draft.addMediaRule
      { d.absorb (d.inlineDeclarations lines) with classes := r } query name
      (d.inlineDeclarations lines).value.text, ?_, rfl⟩
    rw [if_neg h, e]
    rfl

/-- **Adding a directive inside the element tree never fails.** -/
theorem addInline_ok (d : Draft) (block : Block) (hasTarget : Bool) :
    ∃ name d', d.addInline block hasTarget = .ok (name, d') ∧ d'.config = d.config := by
  have hd := d.reportUnclosed_config block
  unfold addInline
  dsimp only
  split
  · rename_i query _
    cases hasTarget with
    | true =>
      obtain ⟨name, d', ok, hc⟩ := (d.reportUnclosed block).styleInline_ok query block.lines
      exact ⟨name, d', ok, hc.trans hd⟩
    | false => exact ⟨none, _, rfl, hd⟩
  · obtain ⟨d', ok, hc⟩ := (d.reportUnclosed block).addBlock_ok block
    refine ⟨none, d', ?_, hc.trans hd⟩
    rw [ok]
    rfl

end Draft

end OutlineMarkup
