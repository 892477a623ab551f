/-
  File:      OutlineMarkup/Proofs/References.lean
  Subject:   References to variables, from the words of a document to its stylesheet.

  A reference is written out wherever a style key is used, and in the values of variables. The first
  kind is checked: `Draft.TakesIn` says of a part of a compile which uses it takes in, that the
  references of these to variables without a value are what it reports as undeclared, and that all
  it adds to the stylesheet is made of what these uses declare. The parts of a compile follow one
  another, and so do their uses.

  The values of variables are not checked (`undeclared_in_variable`).

  * `addElement_takesIn`, `addBlock_takesIn`, `addInline_takesIn`: a line of elements, a directive;
  * `Outline.run_takesIn`: the statements of a document;
  * **`undeclared_references`**: the whole compile.
-/
import OutlineMarkup.Proofs.Findings
import OutlineMarkup.Proofs.StyleUse

namespace OutlineMarkup

/-! ## 1. The uses of directives and statements -/

namespace Directive

/-- The uses on a line of a media directive. -/
def mediaLineUses (line : Line) : List StyleUse :=
  match contentTokens line with
  | [] => []
  | first :: rest => usesOf line.number (splitSelector first rest).2

/-- The uses on a line of keyframes: a line that does not start with a step has none. -/
def stepLineUses (line : Line) : List StyleUse :=
  match contentTokens line with
  | [] => []
  | step :: words => if isStep step then usesOf line.number words else []

/-- The uses of a directive that styles an element: the lines are read up to the first one that
    declares something. -/
def inlineUses : List Line → List StyleUse
  | [] => []
  | line :: lines =>
    match Draft.inlineWords? line with
    | none => inlineUses lines
    | some words =>
      if (usesOf line.number words).any StyleUse.isAccepted then usesOf line.number words
      else usesOf line.number words ++ inlineUses lines

/-- The uses of a directive at the top of a document. -/
def Block.uses (block : Block) : List StyleUse :=
  match block.header.kind with
  | .media _ => block.lines.flatMap mediaLineUses
  | .keyframes (some _) => block.lines.flatMap stepLineUses
  | _ => []

/-- The uses of a directive inside the element tree, with an element before it or without one. -/
def Block.usesInside (block : Block) (hasTarget : Bool) : List StyleUse :=
  match block.header.kind with
  | .media _ => if hasTarget then inlineUses block.lines else []
  | _ => block.uses

end Directive

namespace Outline

/-- The uses of a statement. -/
def usesOf (o : Outline) (s : Statement) (following : List Statement) : List StyleUse :=
  match s with
  | .element line code words opens =>
    ElementPlan.uses line code words (Statement.hasChildren line opens following)
  | .directive line block =>
    block.usesInside (!(o.settle line.indent).scope.entries.isEmpty)
  | _ => []

/-- The uses of statements that are added one after the other. -/
def uses (o : Outline) : List Statement → List StyleUse
  | [] => []
  | s :: following => o.usesOf s following ++
    match o.step s following with
    | .ok o' => o'.uses following
    | .error _ => []

end Outline

/-! ## 2. Text that uses make -/

/-- The declarations that uses give: their own, those of the first step of an animation, which are
    read back from its text, and both with priority. -/
inductive StyleUse.Gives (config : Config) (uses : List StyleUse) : Declaration → Prop where
  | own {u : StyleUse} (hu : u ∈ uses) (p : Priority) {x : Declaration}
      (hx : x ∈ u.declarations (.empty config) p) : Gives config uses x
  | firstStep {ds : List Declaration} (hds : ∀ y ∈ ds, Gives config uses y) {x : Declaration}
      (hx : x ∈ Declaration.parseAll (Declaration.render ds)) : Gives config uses x
  | forced {x : Declaration} (h : Gives config uses x) : Gives config uses x.forced

/-- A text of declarations that uses give. -/
def StyleUse.Written (config : Config) (uses : List StyleUse) (t : Text) : Prop :=
  ∃ ds, t = Declaration.render ds ∧ ∀ x ∈ ds, StyleUse.Gives config uses x

/-- Rules whose declarations are given by uses. -/
def RuleBlock.WrittenFrom (config : Config) (uses : List StyleUse) (b : RuleBlock) : Prop :=
  ∀ e ∈ b.rules.entries, StyleUse.Written config uses e.2.declarations

/-- A part of a stylesheet that is made of what uses declare. -/
inductive StyleUse.Sheet (config : Config) (uses : List StyleUse) : Text → Prop where
  | rules {b : RuleBlock} (h : b.WrittenFrom config uses) : Sheet config uses b.render
  | media {b : RuleBlock} (h : b.WrittenFrom config uses) (query : Text) :
      Sheet config uses (b.renderMedia query)
  | keyframes {steps : List (Text × Text)} (h : ∀ s ∈ steps, StyleUse.Written config uses s.2)
      (name : Text) : Sheet config uses (Directive.renderKeyframes name steps)

/-- A draft with nothing in it for the stylesheet that is not given by uses, variables apart. -/
structure Draft.WrittenFrom (uses : List StyleUse) (d : Draft) : Prop where
  utilities : d.utilities.WrittenFrom d.config uses
  fragments : ∀ t ∈ d.fragments, StyleUse.Sheet d.config uses t
  inlineMedia : ∀ e ∈ d.inlineMedia.entries, e.2.WrittenFrom d.config uses
  initialStates : ∀ e ∈ d.initialStates.entries, StyleUse.Written d.config uses e.2

namespace StyleUse

/-- A draft declares for a key what the empty one does, and first steps of animations. -/
theorem mem_declarationsOf {d : Draft} {key : StyleKey} {v : Text} {x : Declaration}
    (hx : x ∈ d.declarationsOf key v) :
    x ∈ (Draft.empty d.config).declarationsOf key v ∨
      ∃ name, x ∈ Declaration.parseAll (d.initialState name) := by
  cases key with
  | animation =>
    unfold Draft.declarationsOf Draft.animation at hx ⊢
    dsimp only at hx ⊢
    split at hx
    · cases hx
    · rename_i name rest hwords
      rcases List.mem_append.mp hx with hx | hx
      · split at hx
        · exact .inr ⟨name, hx⟩
        · cases hx
      · exact .inl (List.mem_append_right _ hx)
  | _ => exact .inl hx

/-- **What uses declare in a draft is given by them**, if the first steps of animations are. -/
theorem gives_declarations {d : Draft} {uses : List StyleUse}
    (hstates : ∀ e ∈ d.initialStates.entries, Written d.config uses e.2) {u : StyleUse}
    (hu : u ∈ uses) (p : Priority) {x : Declaration} (hx : x ∈ u.declarations d p) :
    Gives d.config uses x := by
  have hvalue : ∀ d : Draft, u.declarations d p =
      let prepared := Draft.prepare u.key (Style.substitute (Text.strip u.value))
      if prepared.isEmpty then [] else p.apply (d.declarationsOf u.key prepared) := fun _ => rfl
  have hstep : ∀ name, ∀ y ∈ Declaration.parseAll (d.initialState name),
      Gives d.config uses y := by
    intro name y hy
    unfold Draft.initialState at hy
    cases hget : d.initialStates.get? name with
    | none =>
      have hnone : Declaration.parseAll (none.getD []) = [] := by decide
      rw [hget, hnone] at hy
      cases hy
    | some t =>
      obtain ⟨ds, rfl, hds⟩ := hstates (name, t) (Table.mem_entries_of_get? hget)
      rw [hget] at hy
      exact .firstStep hds hy
  have hown : ∀ y ∈ u.declarations (.empty d.config) p, Gives d.config uses y :=
    fun y hy => .own hu p hy
  rw [hvalue] at hx hown
  dsimp only at hx hown
  split at hx
  · cases hx
  · rename_i hne
    rw [if_neg hne] at hown
    cases p with
    | normal =>
      rcases mem_declarationsOf hx with h | ⟨name, h⟩
      · exact hown x h
      · exact hstep name x h
    | forced =>
      obtain ⟨y, hy, rfl⟩ := List.mem_map.mp hx
      rcases mem_declarationsOf hy with h | ⟨name, h⟩
      · exact hown _ (List.mem_map_of_mem h)
      · exact .forced (hstep name y h)

end StyleUse

/-! ## 3. Declarations put together -/

theorem Declarations.forall_addAll {P : Declaration → Prop} {t : Declarations}
    (h : ∀ e ∈ t.entries, P e.2) {ds : List Declaration} (hds : ∀ x ∈ ds, P x) :
    ∀ e ∈ (t.addAll ds).entries, P e.2 := by
  refine Table.forall_insertAll _ h fun e he => ?_
  obtain ⟨x, hx, rfl⟩ := List.mem_map.mp he
  exact hds x hx

theorem Declarations.isEmpty_addAll (ds : List Declaration) :
    (Declarations.addAll .empty ds).isEmpty = ds.isEmpty := by
  cases ds with
  | nil => rfl
  | cons x ds =>
    have hkey : x.property ∈ (Declarations.addAll .empty (x :: ds)).keys :=
      (Table.mem_keys_insertAll _).mpr (.inr List.mem_cons_self)
    refine Bool.eq_false_iff.mpr fun hnil => ?_
    rw [Table.keys, List.isEmpty_iff.mp hnil] at hkey
    cases hkey

/-- Groups of declarations with a property. -/
def StyleGroups.All (P : Declaration → Prop) (g : StyleGroups) : Prop :=
  ∀ e ∈ g.groups.entries, ∀ e' ∈ e.2.entries, P e'.2

theorem StyleGroups.All.add {P : Declaration → Prop} {g : StyleGroups} (h : g.All P)
    (category : Category) {ds : List Declaration} (hds : ∀ x ∈ ds, P x) :
    (g.add category ds).All P := by
  unfold StyleGroups.add
  split
  · exact h
  · refine Table.forall_alter h (Declarations.forall_addAll (List.forall_mem_nil _) hds) ?_
    exact fun v hv => Declarations.forall_addAll (h _ hv) hds

section Written

variable {config : Config} {uses : List StyleUse}

theorem StyleUse.written_text {t : Declarations} (h : ∀ e ∈ t.entries, Gives config uses e.2) :
    Written config uses t.text := by
  refine ⟨t.values, rfl, fun x hx => ?_⟩
  obtain ⟨e, he, rfl⟩ := List.mem_map.mp hx
  exact h e he

theorem StyleGroups.All.written_texts {g : StyleGroups} (h : g.All (StyleUse.Gives config uses)) :
    ∀ t ∈ g.texts, StyleUse.Written config uses t := by
  intro t ht
  obtain ⟨v, hv, rfl⟩ := List.mem_map.mp ht
  obtain ⟨e, he, rfl⟩ := List.mem_map.mp hv
  exact StyleUse.written_text (h e he)

theorem RuleBlock.WrittenFrom.add {b : RuleBlock} (h : b.WrittenFrom config uses) {t : Text}
    (ht : StyleUse.Written config uses t) (name : Text) (selector : Option Text) :
    (b.add name t selector).WrittenFrom config uses := by
  refine Table.forall_alter h ?_ ?_
  · rw [Option.getD_none, Rule.declarations_addSelector]
    exact ht
  · intro v hv
    rw [Option.getD_some, Rule.declarations_addSelector]
    exact h (name, v) hv

end Written

/-- The words on a line declare nothing together exactly if no key accepts its value. -/
theorem Directive.isEmpty_resolveWords (d : Draft) (p : Priority) (line : Option Int)
    (words : List Text) :
    (Declarations.addAll .empty ((resolveWords d p line words).value.flatMap Prod.snd)).isEmpty =
      !(usesOf line words).any StyleUse.isAccepted := by
  rw [Declarations.isEmpty_addAll, resolveWords_uses, Bool.eq_iff_iff, List.isEmpty_iff,
    List.flatMap_eq_nil_iff, Bool.not_eq_true', List.any_eq_false]
  simp only [StyleUse.declarations_eq_nil_iff, Bool.not_eq_true]

/-! ## 4. What lines declare -/

section Lines

variable {d : Draft} {all : List StyleUse} (hd : d.WrittenFrom all)
include hd

theorem ElementPlan.written_styles {line : Line} {code : Text} {words : List Text}
    {hasChildren : Bool} (hall : uses line code words hasChildren ⊆ all) :
    ∀ t ∈ (ElementPlan.read d line code words hasChildren).value.styles,
      StyleUse.Written d.config all t := by
  rw [read_styles_uses]
  refine StyleGroups.All.written_texts (foldl_keeps (StyleGroups.All _) ?_ (List.forall_mem_nil _))
  exact fun g u hu hg => hg.add _ fun x hx =>
    StyleUse.gives_declarations hd.initialStates (hall hu) .normal hx

namespace Directive

theorem gives_resolveWords {line : Option Int} {words : List Text} (hall : usesOf line words ⊆ all)
    (p : Priority) : ∀ x ∈ (resolveWords d p line words).value.flatMap Prod.snd,
      StyleUse.Gives d.config all x := by
  intro x hx
  rw [resolveWords_uses] at hx
  obtain ⟨u, hu, hx⟩ := List.mem_flatMap.mp hx
  exact StyleUse.gives_declarations hd.initialStates (hall hu) p hx

theorem mediaLine_written {line : Line} (hall : mediaLineUses line ⊆ all) :
    ∀ piece ∈ (mediaLine d line).value, StyleUse.Written d.config all piece.declarations := by
  intro piece hp
  unfold mediaLine at hp
  unfold mediaLineUses at hall
  split at hp
  · cases hp
  · rename_i first rest hwords
    rw [hwords] at hall
    have hgroups := StyleGroups.All.written_texts (foldl_keeps
      (StyleGroups.All (StyleUse.Gives d.config all))
      (fun g (r : Category × List Declaration) hr hg => hg.add r.1 fun x hx =>
        gives_resolveWords hd hall .forced x (List.mem_flatMap.mpr ⟨r, hr, hx⟩))
      (s := .empty) (List.forall_mem_nil _))
    simp only [Reported.value_bind] at hp
    split at hp
    · obtain ⟨t, ht, rfl⟩ := List.mem_map.mp hp
      exact hgroups t ht
    · obtain ⟨t, ht, rfl⟩ := List.mem_map.mp hp
      exact hgroups t ht

theorem mediaPieces_written {lines : List Line} (hall : lines.flatMap mediaLineUses ⊆ all) :
    ∀ piece ∈ (mediaPieces d lines).value, StyleUse.Written d.config all piece.declarations := by
  intro piece h
  unfold mediaPieces at h
  simp only [Reported.value_bind, Reported.value_pure, Reported.value_mapM] at h
  obtain ⟨ps, hps, hpiece⟩ := List.mem_flatten.mp h
  obtain ⟨line, hline, rfl⟩ := List.mem_map.mp hps
  exact mediaLine_written hd
    (fun u hu => hall (List.mem_flatMap.mpr ⟨line, hline, hu⟩)) piece hpiece

theorem addStepLine_written {line : Line} (hall : stepLineUses line ⊆ all) {steps : Steps}
    (hsteps : ∀ e ∈ steps.entries, ∀ e' ∈ e.2.entries, StyleUse.Gives d.config all e'.2) :
    ∀ e ∈ (addStepLine d steps line).value.entries, ∀ e' ∈ e.2.entries,
      StyleUse.Gives d.config all e'.2 := by
  unfold addStepLine
  unfold stepLineUses at hall
  split
  · exact hsteps
  · rename_i step words hwords
    rw [hwords] at hall
    dsimp only at hall
    split
    · rename_i hstep
      rw [if_pos hstep] at hall
      have hds := gives_resolveWords hd hall .normal
      exact Table.forall_alter hsteps (Declarations.forall_addAll (List.forall_mem_nil _) hds)
        fun v hv => Declarations.forall_addAll (hsteps _ hv) hds
    · exact hsteps

theorem readSteps_written {lines : List Line} (hall : lines.flatMap stepLineUses ⊆ all) :
    ∀ s ∈ (readSteps d lines).value, StyleUse.Written d.config all s.2 := by
  have hsteps : ∀ e ∈ (lines.foldl (fun steps line => (addStepLine d steps line).value)
      Table.empty).entries, ∀ e' ∈ e.2.entries, StyleUse.Gives d.config all e'.2 :=
    foldl_keeps (fun steps : Steps => ∀ e ∈ steps.entries, ∀ e' ∈ e.2.entries,
        StyleUse.Gives d.config all e'.2)
      (fun steps line hline h => addStepLine_written hd
        (fun u hu => hall (List.mem_flatMap.mpr ⟨line, hline, hu⟩)) h)
      (List.forall_mem_nil _)
  intro s hs
  unfold readSteps at hs
  simp only [Reported.value_bind, Reported.value_pure, Reported.value_foldlM] at hs
  obtain ⟨e, he, rfl⟩ := List.mem_map.mp hs
  exact StyleUse.written_text (hsteps e (List.mem_filter.mp he).1)

end Directive

theorem Draft.inlineDeclarations_written {lines : List Line}
    (hall : Directive.inlineUses lines ⊆ all) :
    StyleUse.Written d.config all (d.inlineDeclarations lines).value.text := by
  refine StyleUse.written_text ?_
  induction lines with
  | nil => exact List.forall_mem_nil _
  | cons line lines ih =>
    unfold inlineDeclarations
    unfold Directive.inlineUses at hall
    split
    · rename_i hnone
      rw [hnone] at hall
      exact ih hall
    · rename_i words hwords
      rw [hwords] at hall
      simp only [Reported.value_bind, Directive.isEmpty_resolveWords]
      dsimp only at hall
      cases hany : (Directive.usesOf line.number words).any StyleUse.isAccepted with
      | true =>
        rw [if_pos hany] at hall
        exact Declarations.forall_addAll (List.forall_mem_nil _)
          (Directive.gives_resolveWords hd hall .forced)
      | false =>
        rw [hany, if_neg Bool.false_ne_true] at hall
        exact ih (List.append_subset.mp hall).2

end Lines

/-! ## 5. What lines find undeclared -/

namespace Directive

theorem mediaLine_undeclared (d : Draft) (line : Line) :
    (mediaLine d line).diagnostics.filter Diagnostic.isUndeclared =
      (mediaLineUses line).flatMap (StyleUse.undeclared d.isDeclared) := by
  unfold mediaLine mediaLineUses
  cases contentTokens line with
  | nil => rfl
  | cons first rest =>
    dsimp only
    rw [Reported.diagnostics_bind, List.filter_append, resolveWords_undeclared]
    split
    · exact List.append_nil _
    · exact List.append_nil _

theorem mediaPieces_undeclared (d : Draft) (lines : List Line) :
    (mediaPieces d lines).diagnostics.filter Diagnostic.isUndeclared =
      (lines.flatMap mediaLineUses).flatMap (StyleUse.undeclared d.isDeclared) := by
  unfold mediaPieces
  rw [Reported.diagnostics_bind, Reported.diagnostics_pure, List.append_nil,
    Reported.filter_mapM (mediaLine_undeclared d), List.flatMap_assoc]

theorem addStepLine_undeclared (d : Draft) (steps : Steps) (line : Line) :
    (addStepLine d steps line).diagnostics.filter Diagnostic.isUndeclared =
      (stepLineUses line).flatMap (StyleUse.undeclared d.isDeclared) := by
  unfold addStepLine stepLineUses
  cases contentTokens line with
  | nil => rfl
  | cons step words =>
    dsimp only
    split
    · rw [Reported.diagnostics_bind, Reported.diagnostics_pure, List.append_nil,
        resolveWords_undeclared]
    · rfl

theorem readSteps_undeclared (d : Draft) (lines : List Line) :
    (readSteps d lines).diagnostics.filter Diagnostic.isUndeclared =
      (lines.flatMap stepLineUses).flatMap (StyleUse.undeclared d.isDeclared) := by
  unfold readSteps
  rw [Reported.diagnostics_bind, Reported.diagnostics_pure, List.append_nil,
    Reported.filter_foldlM (addStepLine_undeclared d), List.flatMap_assoc]

end Directive

theorem Draft.inlineDeclarations_undeclared (d : Draft) (lines : List Line) :
    (d.inlineDeclarations lines).diagnostics.filter Diagnostic.isUndeclared =
      (Directive.inlineUses lines).flatMap (StyleUse.undeclared d.isDeclared) := by
  induction lines with
  | nil => rfl
  | cons line lines ih =>
    unfold inlineDeclarations Directive.inlineUses
    cases inlineWords? line with
    | none => exact ih
    | some words =>
      simp only [Reported.diagnostics_bind, List.filter_append, Directive.resolveWords_undeclared,
        Directive.isEmpty_resolveWords]
      cases (Directive.usesOf line.number words).any StyleUse.isAccepted with
      | true => exact List.append_nil _
      | false =>
        show _ ++ (d.inlineDeclarations lines).diagnostics.filter _ =
          (Directive.usesOf line.number words ++ Directive.inlineUses lines).flatMap _
        rw [ih, List.flatMap_append]

/-! ## 6. Parts of a compile -/

namespace Draft

/-- What a part of a compile does that takes in uses: it keeps the variables, it finds those
    undeclared that the uses refer to and that have no value, and it adds to the stylesheet only
    what the uses give. -/
structure TakesIn (uses : List StyleUse) (d d' : Draft) : Prop where
  config : d'.config = d.config
  declared : d'.declared = d.declared
  undeclared : d'.diagnostics.filter Diagnostic.isUndeclared =
    d.diagnostics.filter Diagnostic.isUndeclared ++
      uses.flatMap (StyleUse.undeclared d.isDeclared)
  writtenFrom : ∀ all, uses ⊆ all → d.WrittenFrom all → d'.WrittenFrom all

namespace TakesIn

theorem refl (d : Draft) : TakesIn [] d d := ⟨rfl, rfl, (List.append_nil _).symm, fun _ _ h => h⟩

theorem isDeclared {uses : List StyleUse} {d d' : Draft} (h : TakesIn uses d d') :
    d'.isDeclared = d.isDeclared := by
  funext name
  unfold Draft.isDeclared effectiveVariables
  rw [h.config, h.declared]

theorem trans {uses uses' : List StyleUse} {d d' d'' : Draft} (h : TakesIn uses d d')
    (h' : TakesIn uses' d' d'') : TakesIn (uses ++ uses') d d'' where
  config := h'.config.trans h.config
  declared := h'.declared.trans h.declared
  undeclared := by
    rw [h'.undeclared, h.undeclared, h.isDeclared, List.flatMap_append, List.append_assoc]
  writtenFrom all hall hd := by
    obtain ⟨hleft, hright⟩ := List.append_subset.mp hall
    exact h'.writtenFrom all hright (h.writtenFrom all hleft hd)

theorem absorb {uses : List StyleUse} {d : Draft} {α : Type} {r : Reported α}
    (h : r.diagnostics.filter Diagnostic.isUndeclared =
      uses.flatMap (StyleUse.undeclared d.isDeclared)) : TakesIn uses d (d.absorb r) where
  config := rfl
  declared := rfl
  undeclared := by
    rw [← h]
    exact List.filter_append _ _
  writtenFrom _ _ hd := ⟨hd.utilities, hd.fragments, hd.inlineMedia, hd.initialStates⟩

theorem report (d : Draft) {finding : Finding} {line : Option Int}
    (h : Diagnostic.isUndeclared ⟨finding, line⟩ = false) : TakesIn [] d (d.report finding line) :=
  absorb (r := Reported.report finding line) (List.filter_cons_of_neg (by simp [h]))

end TakesIn

/-- **An element line takes in its uses.** -/
theorem addElement_takesIn {d d' : Draft} {line : Line} {code : Text} {words : List Text}
    {hasChildren : Bool} {e : Element}
    (ok : d.addElement line code words hasChildren = .ok (e, d')) :
    TakesIn (ElementPlan.uses line code words hasChildren) d d' := by
  refine foldlM_keeps_of_mem (fun s : Element × Draft =>
    TakesIn (ElementPlan.uses line code words hasChildren) d s.2) ?_ ok
    (.absorb (ElementPlan.read_undeclared d line code words hasChildren))
  intro s t ht s' hs h
  obtain ⟨name, hu, _⟩ := addStyle_eq_ok hs
  obtain ⟨d₁, hc, e⟩ := addUtility_eq_ok hu
  obtain ⟨_, hd₁⟩ := classFor_eq_ok hc
  rw [e, hd₁]
  refine ⟨h.config, h.declared, h.undeclared, fun all hall hd => ?_⟩
  have hs := h.writtenFrom all hall hd
  have hwritten : StyleUse.Written s.2.config all t := by
    rw [h.config]
    exact ElementPlan.written_styles hd hall t ht
  exact ⟨hs.utilities.add hwritten name none, hs.fragments, hs.inlineMedia, hs.initialStates⟩

open Directive

theorem addMedia_takesIn {d d' : Draft} {query : Text} {lines : List Line}
    (ok : d.addMedia query lines = .ok d') : TakesIn (lines.flatMap mediaLineUses) d d' := by
  obtain ⟨⟨rules, d₁⟩, hr, e⟩ := bind_eq_ok.mp ok
  obtain ⟨hfold, hd₁⟩ := mediaRules_eq_ok hr
  have habsorb : TakesIn (lines.flatMap mediaLineUses) d (d.absorb (mediaPieces d lines)) :=
    .absorb (mediaPieces_undeclared d lines)
  have htaken : TakesIn (lines.flatMap mediaLineUses) d d₁ := by
    rw [hd₁]
    exact ⟨habsorb.config, habsorb.declared, habsorb.undeclared, fun all hall hd =>
      let h := habsorb.writtenFrom all hall hd
      ⟨h.utilities, h.fragments, h.inlineMedia, h.initialStates⟩⟩
  rw [← Except.ok.inj e]
  split
  · exact htaken
  · refine ⟨htaken.config, htaken.declared, htaken.undeclared, fun all hall hd => ?_⟩
    have h := htaken.writtenFrom all hall hd
    have hrules : rules.WrittenFrom d₁.config all := by
      rw [htaken.config]
      refine foldlM_keeps_of_mem
        (fun s : RuleBlock × ClassRegistry => s.1.WrittenFrom d.config all) ?_ hfold
        (List.forall_mem_nil _)
      intro s piece hpiece s' hs h
      obtain ⟨name, _, hb⟩ := addPiece_eq_ok hs
      rw [hb]
      exact h.add (mediaPieces_written hd hall piece hpiece) name piece.selector
    exact ⟨h.utilities, List.forall_mem_append.mpr
      ⟨h.fragments, List.forall_mem_singleton.mpr (.media hrules query)⟩, h.inlineMedia,
      h.initialStates⟩

theorem addKeyframes_takesIn (d : Draft) (name : Text) (lines : List Line) :
    TakesIn (lines.flatMap stepLineUses) d (addKeyframes d name lines) := by
  have habsorb : TakesIn (lines.flatMap stepLineUses) d (d.absorb (readSteps d lines)) :=
    .absorb (readSteps_undeclared d lines)
  rw [addKeyframes_eq]
  refine ⟨rfl, rfl, habsorb.undeclared, fun all hall hd => ?_⟩
  have hwritten : ∀ s ∈ (readSteps d lines).value, StyleUse.Written d.config all s.2 :=
    readSteps_written hd hall
  refine ⟨hd.utilities, List.forall_mem_append.mpr ⟨hd.fragments, ?_⟩, hd.inlineMedia, ?_⟩
  · split
    · exact List.forall_mem_nil _
    · exact List.forall_mem_singleton.mpr (.keyframes hwritten name)
  · rw [Table.foldl_insert]
    cases hlast : ((readSteps d lines).value.filter fun s => isInitialStep s.1).getLast? with
    | none => exact hd.initialStates
    | some s =>
      have hs := hwritten s (List.mem_of_mem_filter (List.mem_of_getLast? hlast))
      exact Table.forall_alter hd.initialStates hs fun _ _ => hs

/-- **A directive at the top takes in its uses.** -/
theorem addBlock_takesIn {d d' : Draft} {block : Block} (ok : d.addBlock block = .ok d') :
    TakesIn block.uses d d' := by
  unfold addBlock at ok
  unfold Block.uses
  split at ok
  · rename_i hk
    rw [hk]
    exact addMedia_takesIn ok
  · rename_i hk
    rw [hk]
    cases ok
    exact addKeyframes_takesIn d _ block.lines
  · rename_i hk
    rw [hk]
    cases ok
    exact .report d rfl
  · rename_i hk
    rw [hk]
    cases ok
    exact .report d rfl

theorem reportUnclosed_takesIn (d : Draft) (block : Block) :
    TakesIn [] d (d.reportUnclosed block) := by
  unfold reportUnclosed
  split
  · exact .refl d
  · exact .report d rfl

theorem addTopLevel_takesIn {d d' : Draft} {blocks : List Block}
    (ok : d.addTopLevel blocks = .ok d') : TakesIn (blocks.flatMap Block.uses) d d' := by
  induction blocks generalizing d with
  | nil =>
    cases ok
    exact .refl _
  | cons block blocks ih =>
    obtain ⟨d₁, hblock, hrest⟩ := bind_eq_ok.mp ok
    exact ((d.reportUnclosed_takesIn block).trans (addBlock_takesIn hblock)).trans (ih hrest)

theorem styleInline_takesIn {d d' : Draft} {query : Text} {lines : List Line} {name : Option Text}
    (ok : d.styleInline query lines = .ok (name, d')) : TakesIn (inlineUses lines) d d' := by
  have habsorb : TakesIn (inlineUses lines) d (d.absorb (d.inlineDeclarations lines)) :=
    .absorb (d.inlineDeclarations_undeclared lines)
  rcases styleInline_eq_ok ok with ⟨_, rfl⟩ | ⟨n, d₁, _, hc, rfl⟩
  · exact habsorb
  · obtain ⟨_, hd₁⟩ := classFor_eq_ok hc
    rw [hd₁]
    refine ⟨habsorb.config, habsorb.declared, habsorb.undeclared, fun all hall hd => ?_⟩
    have h := habsorb.writtenFrom all hall hd
    have hwritten := inlineDeclarations_written hd hall
    refine ⟨h.utilities, h.fragments, Table.forall_alter h.inlineMedia ?_ ?_, h.initialStates⟩
    · exact RuleBlock.WrittenFrom.add (b := .empty) (List.forall_mem_nil _) hwritten n none
    · exact fun b hb => RuleBlock.WrittenFrom.add (h.inlineMedia _ hb) hwritten n none

/-- **A directive inside the tree takes in its uses.** -/
theorem addInline_takesIn {d d' : Draft} {block : Block} {hasTarget : Bool} {name : Option Text}
    (ok : d.addInline block hasTarget = .ok (name, d')) :
    TakesIn (block.usesInside hasTarget) d d' := by
  have hmedia : ∀ query, block.header.kind = .media query → block.usesInside hasTarget =
      if hasTarget then inlineUses block.lines else [] := by
    intro query hk
    rw [Block.usesInside, hk]
  have hother : (∀ query, block.header.kind ≠ .media query) →
      block.usesInside hasTarget = block.uses := by
    intro hk
    cases h : block.header.kind with
    | media query => exact absurd h (hk query)
    | _ => rw [Block.usesInside, h]
  have hrest : TakesIn (block.usesInside hasTarget) (d.reportUnclosed block) d' := by
    unfold addInline at ok
    dsimp only at ok
    split at ok
    · rename_i query hk
      rw [hmedia query hk]
      cases hasTarget with
      | true => exact styleInline_takesIn ok
      | false =>
        cases ok
        exact .report _ rfl
    · rename_i hk
      obtain ⟨d₁, hd, e⟩ := bind_eq_ok.mp ok
      cases e
      rw [hother hk]
      exact addBlock_takesIn hd
  exact (d.reportUnclosed_takesIn block).trans hrest

end Draft

/-! ## 7. Statements -/

namespace Outline

open Draft

theorem closeDedented_takesIn (indent : Int) (d : Draft) (s : Scope) (enclosing : List Scope) :
    TakesIn [] d (closeDedented indent d s enclosing).draft := by
  induction enclosing generalizing d s with
  | nil => exact .refl d
  | cons outer rest ih =>
    unfold closeDedented
    split
    · exact (TakesIn.report d rfl).trans (ih _ _)
    · exact .refl d

theorem finishFrom_takesIn (d : Draft) (s : Scope) (enclosing : List Scope) :
    TakesIn [] d (finishFrom d s enclosing).2 := by
  induction enclosing generalizing d s with
  | nil => exact .refl d
  | cons outer rest ih => exact (TakesIn.report d rfl).trans (ih _ _)

theorem step_takesIn {o o' : Outline} {s : Statement} {following : List Statement}
    (ok : o.step s following = .ok o') : TakesIn (o.usesOf s following) o.draft o'.draft := by
  have hsettle : ∀ indent, TakesIn [] o.draft (o.settle indent).draft :=
    fun indent => closeDedented_takesIn indent o.draft o.scope o.enclosing
  cases s with
  | element line code words opens =>
    obtain ⟨e, d', hadd, rfl⟩ := step_element_eq_ok ok
    have h := (hsettle line.indent).trans (addElement_takesIn hadd)
    cases opens <;> exact h
  | openBrace line =>
    cases ok
    rw [Context.draft_openBlock]
    exact hsettle line.indent
  | closeBrace line =>
    cases ok
    unfold close
    split
    · exact .report _ rfl
    · exact .refl _
  | directive line block =>
    obtain ⟨name, d', hadd, rfl⟩ := step_directive_eq_ok ok
    exact (hsettle line.indent).trans (addInline_takesIn hadd)

/-- **Statements take in their uses one after the other.** -/
theorem run_takesIn {o o' : Outline} {ss : List Statement} (ok : o.run ss = .ok o') :
    TakesIn (o.uses ss) o.draft o'.draft := by
  induction ss generalizing o with
  | nil =>
    cases ok
    exact .refl _
  | cons s following ih =>
    obtain ⟨o₁, hstep, hrun⟩ := bind_eq_ok.mp ok
    rw [uses, hstep]
    exact (step_takesIn hstep).trans (ih hrun)

end Outline

/-! ## 8. The whole compile -/

/-- Variables are declared by their lines, and nothing of them is found undeclared. -/
theorem Draft.foldl_addVariableLine_declared (d : Draft) (ls : List Line) :
    (ls.foldl addVariableLine d).declared =
        d.declared.insertAll (ls.filterMap fun l => readVariable? l.text) ∧
      (ls.foldl addVariableLine d).diagnostics.filter Diagnostic.isUndeclared =
        d.diagnostics.filter Diagnostic.isUndeclared ∧
      ∀ uses, d.WrittenFrom uses → (ls.foldl addVariableLine d).WrittenFrom uses := by
  induction ls generalizing d with
  | nil => exact ⟨rfl, rfl, fun _ h => h⟩
  | cons l ls ih =>
    obtain ⟨hdeclared, hdiagnostics, hwritten⟩ := ih (d.addVariableLine l)
    rw [List.foldl_cons, hdeclared, hdiagnostics, List.filterMap_cons]
    unfold addVariableLine at hwritten ⊢
    cases hread : readVariable? l.text with
    | none =>
      rw [hread] at hwritten
      refine ⟨rfl, ?_, fun uses h => hwritten uses
        ⟨h.utilities, h.fragments, h.inlineMedia, h.initialStates⟩⟩
      exact (List.filter_append _ _).trans (List.append_nil _)
    | some v =>
      rw [hread] at hwritten
      exact ⟨rfl, rfl, fun uses h => hwritten uses
        ⟨h.utilities, h.fragments, h.inlineMedia, h.initialStates⟩⟩

/-- The parts of the stylesheet of a draft after its variables. -/
theorem Draft.WrittenFrom.stylesheet {uses : List StyleUse} {d : Draft} (h : d.WrittenFrom uses) :
    ∃ rest, d.stylesheet = Text.join "\n\n" (d.rootBlock :: rest) ++ "\n" ∧
      ∀ t ∈ rest, t = bodyBlock ∨ StyleUse.Sheet d.config uses t := by
  refine ⟨(if d.config.baseline then [bodyBlock] else []) ++
    (if d.utilities.isEmpty then [] else [d.utilities.render]) ++ d.fragments ++
    (d.inlineMedia.entries.filter fun e => !e.2.isEmpty).map fun e => e.2.renderMedia e.1, ?_, ?_⟩
  · simp only [Draft.stylesheet, sections, List.append_assoc, List.cons_append, List.nil_append]
  · intro t ht
    simp only [List.mem_append] at ht
    rcases ht with ((ht | ht) | ht) | ht
    · split at ht
      · exact .inl (List.mem_singleton.mp ht)
      · cases ht
    · split at ht
      · cases ht
      · rw [List.mem_singleton.mp ht]
        exact .inr (.rules h.utilities)
    · exact .inr (h.fragments t ht)
    · obtain ⟨e, he, rfl⟩ := List.mem_map.mp ht
      exact .inr (.media (h.inlineMedia e (List.mem_filter.mp he).1) e.1)

/-- **References to variables without a value are reported wherever a style key is used**, and only
    these are. The diagnostics about undeclared variables are those of the uses of the document, in
    order, one for each reference to a variable that is not in force at the end; so none of them
    names a variable that is. All of the stylesheet behind the values of the variables is the block
    for the body of the page or is made of what these uses declare. The values of the variables are
    those of their lines, with references written out; no diagnostic is about these. -/
theorem undeclared_references {config : Config} (hfit : config.TabsFit) (source : Text) :
    ∃ p, Passes.run config source = .ok p ∧
      let uses := (topLevelBlocks config source).flatMap Directive.Block.uses ++
        Outline.uses { draft := p.afterDirectives }
          (Statement.ofLines config (linesOfBody config source))
      p.result.diagnostics.filter Diagnostic.isUndeclared =
        uses.flatMap (StyleUse.undeclared p.afterBody.isDeclared) ∧
      (∀ name line, ⟨.undeclaredVariable name, line⟩ ∈ p.result.diagnostics →
        p.afterBody.isDeclared name = false) ∧
      (∃ rest, p.result.stylesheet = Text.join "\n\n" (p.afterBody.rootBlock :: rest) ++ "\n" ∧
        ∀ t ∈ rest, t = Draft.bodyBlock ∨ StyleUse.Sheet config uses t) ∧
      p.afterBody.declared = .ofList
        (((Line.ofSource config.tabWidth source).filter Line.isVariable).filterMap
          fun l => readVariable? l.text) := by
  obtain ⟨p, _, ok, _, _⟩ := Passes.run_ok hfit source
  obtain ⟨hvariables, htop, hbody⟩ := Passes.run_eq_ok ok
  obtain ⟨hdeclared, hnone, hwritten⟩ := Draft.foldl_addVariableLine_declared (.empty config)
    ((Line.ofSource config.tabWidth source).filter Line.isVariable)
  have hfirst : ((Line.ofSource config.tabWidth source).filter Line.isVariable).foldl
      Draft.addVariableLine (.empty config) = p.afterVariables := hvariables.symm
  rw [hfirst] at hdeclared hnone hwritten
  have hconfig : p.afterVariables.config = config := by
    rw [hvariables]
    exact Draft.takeVariables_config _ _
  -- the second and the third pass, and the end of the document
  have htaken := Draft.addTopLevel_takesIn htop
  obtain ⟨o, hrun, e⟩ := bind_eq_ok.mp hbody
  have hfinish : p.afterBody = (Outline.finishFrom o.draft o.scope o.enclosing).2 :=
    congrArg Prod.snd (Except.ok.inj e).symm
  rw [htaken.config, hconfig] at hrun
  have hall := htaken.trans ((Outline.run_takesIn hrun).trans
    (Outline.finishFrom_takesIn o.draft o.scope o.enclosing))
  rw [← hfinish, List.append_nil] at hall
  refine ⟨p, ok, ?_⟩
  intro uses
  have hundeclared : p.result.diagnostics.filter Diagnostic.isUndeclared =
      uses.flatMap (StyleUse.undeclared p.afterBody.isDeclared) := by
    rw [hall.isDeclared]
    exact hall.undeclared.trans (by rw [hnone]; rfl)
  refine ⟨hundeclared, fun name line hx => ?_, ?_, hall.declared.trans hdeclared⟩
  · have hfilter : (⟨.undeclaredVariable name, line⟩ : Diagnostic) ∈
        p.result.diagnostics.filter Diagnostic.isUndeclared := List.mem_filter.mpr ⟨hx, rfl⟩
    rw [hundeclared] at hfilter
    obtain ⟨u, _, hu⟩ := List.mem_flatMap.mp hfilter
    obtain ⟨name', hname, e⟩ := List.mem_map.mp hu
    cases e
    simpa using (List.mem_filter.mp hname).2
  · have hempty : (Draft.empty config).WrittenFrom uses :=
      ⟨List.forall_mem_nil _, List.forall_mem_nil _, List.forall_mem_nil _, List.forall_mem_nil _⟩
    have hsheet := hall.writtenFrom uses (List.Subset.refl _) (hwritten uses hempty)
    have hsame : p.afterBody.config = config := hall.config.trans hconfig
    have h := hsheet.stylesheet
    rw [hsame] at h
    exact h

/-- A variable that is declared below its use, and two that are not declared, in an element line and
    in a rule of a media query: the two are reported in the order of the passes. -/
theorem undeclared_references_mixed :
    let source : Text := "p bg=$a pad=$b\n@mobile\n  .x bg=$c\n$a=red"
    (Config.default).TabsFit ∧
    ∃ p, Passes.run .default source = .ok p ∧
      p.result.diagnostics =
        [⟨.undeclaredVariable "c", some 3⟩, ⟨.undeclaredVariable "b", some 1⟩] ∧
      (∀ name line, ⟨.undeclaredVariable name, line⟩ ∈ p.result.diagnostics →
        p.afterBody.isDeclared name = false) ∧
      p.afterBody.declared = .ofList [("a".toList, "red".toList)] := by
  intro source
  have hfit : (Config.default).TabsFit := by decide
  obtain ⟨p, ok, _, hnone, _, hdeclared⟩ := undeclared_references hfit source
  have hdiagnostics : (Passes.run .default source).map (fun p => p.result.diagnostics) =
      .ok [⟨.undeclaredVariable "c", some 3⟩, ⟨.undeclaredVariable "b", some 1⟩] := by
    decide +kernel
  have hvariables : ((Line.ofSource (Config.default).tabWidth source).filter
      Line.isVariable).filterMap (fun l => readVariable? l.text) =
        [("a".toList, "red".toList)] := by
    decide +kernel
  rw [ok] at hdiagnostics
  rw [hvariables] at hdeclared
  exact ⟨hfit, p, ok, Except.ok.inj hdiagnostics, hnone, hdeclared⟩

/-- A variable refers to another one that has no value: the reference is written out, and nothing is
    reported. -/
theorem undeclared_in_variable :
    (Passes.run .default "$a=$b".toList).map (fun p =>
      (p.afterBody.declared.entries, p.afterBody.isDeclared "b",
        Text.contains "var(--b)" p.result.stylesheet, p.result.diagnostics)) =
      .ok ([("a", "var(--b)")], false, true, []) := by
  decide +kernel

end OutlineMarkup
