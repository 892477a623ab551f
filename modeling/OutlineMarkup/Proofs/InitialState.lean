/-
  File:      OutlineMarkup/Proofs/InitialState.lean
  Subject:   The first step of an animation, from its keyframes to the elements that start in it.

  Keyframes leave the text of their first step under the name of the animation, and an animation
  with a third word reads that text back. Nothing is lost on the way: the properties are such that
  their text can be read (`Declaration.IsNamed`), so it is up to the values alone.

  * `get?_statesAfter`: what keyframes write, and where;
  * `Draft.Later.keeps`: what stands there until keyframes of the same name write again;
  * **`first_step_replayed`**: an animation with a third word declares what the first step does.
-/
import OutlineMarkup.Proofs.CanonicalForm
import OutlineMarkup.Proofs.DeclarationText
import OutlineMarkup.Proofs.Keyframes
import OutlineMarkup.Proofs.Locality

namespace OutlineMarkup

open Reported

/-! ## 1. Animations without references -/

namespace Style

theorem pieces_of_not_mem {v : Text} (h : '$' ∉ v) : pieces v = v.map .plain := by
  unfold pieces
  induction v with
  | nil => rfl
  | cons c cs ih =>
    obtain ⟨hc, hcs⟩ := not_or.mp (mt List.mem_cons.mpr h)
    have hplain : ¬(c = '$' && cs.head?.any isNameStart) = true := by
      rw [decide_eq_false fun e => hc e.symm, Bool.false_and]
      exact Bool.false_ne_true
    rw [piecesFrom, if_neg hplain, ih hcs, List.map_cons]

theorem substitute_of_not_mem {v : Text} (h : '$' ∉ v) : substitute v = v := by
  rw [substitute, pieces_of_not_mem h, List.flatMap_map]
  exact List.flatMap_singleton' v

theorem references_of_not_mem {v : Text} (h : '$' ∉ v) : references v = [] := by
  rw [references, pieces_of_not_mem h, List.filterMap_map]
  exact List.filterMap_eq_nil_iff.mpr fun _ _ => rfl

end Style

/-- The declaration of an animation itself. -/
def Config.animation (config : Config) (name duration : Text) : Declaration :=
  ⟨"animation", name ++ " " ++ duration ++ " " ++ config.animationTiming, false⟩

/-- What an animation declares: with three words the first step, and always itself. -/
theorem Draft.resolve_animation (d : Draft) {value name : Text} {rest : List Text}
    (hvalue : '$' ∉ value) (hwords : Text.words value = name :: rest) (priority : Priority)
    (line : Option Int) :
    d.resolve .animation value priority line =
      ⟨priority.apply
        ((if 2 ≤ rest.length then Declaration.parseAll (d.initialState name) else []) ++
          [d.config.animation name (rest.headD d.config.animationDuration)]), []⟩ := by
  have hstrip : '$' ∉ Text.strip value := fun hmem => hvalue ((Text.infix_strip value).subset hmem)
  have hwords' : Text.words (Text.strip value) = name :: rest :=
    (Text.words_strip value).trans hwords
  have hsubstituted : d.substitute (Text.strip value) line = ⟨Text.strip value, []⟩ := by
    rw [substitute, Style.substitute_of_not_mem hstrip, Style.references_of_not_mem hstrip]
    rfl
  have hne : Text.strip value ≠ [] := by
    intro hnil
    rw [hnil] at hwords'
    cases hwords'
  have hresolve : d.resolve .animation value priority line =
      ⟨if (Text.strip value).isEmpty then [] else priority.apply (d.animation (Text.strip value)),
        []⟩ := by
    unfold resolve
    rw [hsubstituted]
    rfl
  rw [hresolve, if_neg fun h => hne (List.isEmpty_iff.mp h), animation, hwords']
  rfl

/-! ## 2. The text of what keys declare -/

namespace Declaration

/-- A text that is read back as the property of a declaration. -/
@[mk_iff]
structure IsPropertyName (property : Text) : Prop where
  ne_nil : property ≠ []
  trimmed : Text.IsTrimmed property
  colon : ':' ∉ property
  semicolon : ';' ∉ property

instance (property : Text) : Decidable (IsPropertyName property) :=
  decidable_of_iff' _ (isPropertyName_iff property)

/-- A declaration whose property is read back from its text, and that has a value. -/
structure IsNamed (x : Declaration) : Prop where
  property : IsPropertyName x.property
  value_ne_nil : x.value ≠ []

/-- A declaration whose value is read back from its text, if it has one. -/
@[mk_iff]
structure HasPlainValue (x : Declaration) : Prop where
  trimmed : Text.IsTrimmed x.value
  semicolon : ';' ∉ x.value
  unmarked : x.important = false → ¬marker <:+ x.value

instance (x : Declaration) : Decidable x.HasPlainValue := decidable_of_iff' _ (hasPlainValue_iff x)

theorem isNamed_mk {property value : Text} (hproperty : IsPropertyName property)
    (hvalue : value ≠ []) : IsNamed ⟨property, value, false⟩ := ⟨hproperty, hvalue⟩

theorem IsProper.isNamed {x : Declaration} (h : x.IsProper) : x.IsNamed :=
  ⟨⟨h.property_ne_nil, h.property_trimmed, h.property_colon, h.property_semicolon⟩, h.value_ne_nil⟩

theorem IsNamed.isProper {x : Declaration} (h : x.IsNamed) (hvalue : x.HasPlainValue) :
    x.IsProper :=
  ⟨h.property.ne_nil, h.property.trimmed, h.property.colon, h.property.semicolon, h.value_ne_nil,
    hvalue.trimmed, hvalue.semicolon, hvalue.unmarked⟩

end Declaration

section Keys

open Declaration

/-- **What a key declares has the name of a property**: a fixed one, or one that was read from the
    text of a first step. -/
theorem Draft.isNamed_declarationsOf {d : Draft} {key : StyleKey} {value : Text}
    (hvalue : value ≠ []) : ∀ x ∈ d.declarationsOf key value, x.IsNamed := by
  have hone : ∀ {property value : Text}, IsPropertyName property → value ≠ [] →
      ∀ x ∈ [(⟨property, value, false⟩ : Declaration)], x.IsNamed :=
    fun hproperty hvalue => List.forall_mem_singleton.mpr (isNamed_mk hproperty hvalue)
  have htwo : ∀ {p v p' v' : Text}, IsPropertyName p ∧ v ≠ [] → IsPropertyName p' ∧ v' ≠ [] →
      ∀ x ∈ [(⟨p, v, false⟩ : Declaration), ⟨p', v', false⟩], x.IsNamed :=
    fun h h' => List.forall_mem_cons.mpr ⟨isNamed_mk h.1 h.2, hone h'.1 h'.2⟩
  unfold declarationsOf
  cases key with
  | direction =>
    dsimp only
    split
    · exact htwo (by decide) (by decide)
    · split
      · exact htwo (by decide) (by decide)
      · exact List.forall_mem_nil _
  | align =>
    dsimp only
    split
    · exact htwo (by decide) (by decide)
    · exact hone (by decide) hvalue
  | wrap =>
    dsimp only
    split
    · exact hone (by decide) hvalue
    · exact List.forall_mem_nil _
  | animation =>
    dsimp only [animation]
    split
    · exact List.forall_mem_nil _
    · refine List.forall_mem_append.mpr ⟨?_, hone (by decide) (by simp)⟩
      split
      · exact fun x hx => (isProper_of_mem_parseAll hx).isNamed
      · exact List.forall_mem_nil _
  | _ => exact hone (by decide) hvalue

end Keys

theorem StyleUse.isNamed {d : Draft} {u : StyleUse} {x : Declaration}
    (hx : x ∈ u.declarations d .normal) : x.IsNamed := by
  have hvalue : u.declarations d .normal =
      let prepared := Draft.prepare u.key (Style.substitute (Text.strip u.value))
      if prepared.isEmpty then [] else d.declarationsOf u.key prepared := rfl
  rw [hvalue] at hx
  dsimp only at hx
  split at hx
  · cases hx
  · rename_i hne
    exact Draft.isNamed_declarationsOf (fun e => hne (List.isEmpty_iff.mpr e)) x hx

namespace Directive

theorem isNamed_declaredFor {d : Draft} {step : Text} {lines : List Line} {x : Declaration}
    (hx : x ∈ declaredFor d step lines) : x.IsNamed := by
  obtain ⟨line, _, hx⟩ := List.mem_flatMap.mp hx
  unfold declaredOn at hx
  split at hx
  · cases hx
  · split at hx
    · rw [resolveWords_uses] at hx
      obtain ⟨u, _, hx⟩ := List.mem_flatMap.mp hx
      exact StyleUse.isNamed hx
    · cases hx

/-- **The text of a step is read back as its declarations**, if their values can be. -/
theorem parseAll_mergedFor {d : Draft} {step : Text} {lines : List Line}
    (h : ∀ x ∈ (mergedFor d step lines).values, x.HasPlainValue) :
    Declaration.parseAll (mergedFor d step lines).text = (mergedFor d step lines).values := by
  refine Declaration.parseAll_render fun x hx => ?_
  have hnamed : ∀ e ∈ (mergedFor d step lines).entries, e.2.IsNamed :=
    Declarations.forall_addAll (List.forall_mem_nil _) fun x hx => isNamed_declaredFor hx
  obtain ⟨property, hentry⟩ := Table.mem_values.mp hx
  exact (hnamed _ hentry).isProper (h x hx)

end Directive

/-! ## 3. What keyframes write, and where -/

namespace Draft

open Directive

/-- The last step of keyframes with the given name that counts as the first of the animation, with
    its text; none if the directive is another one or has no such step. -/
def firstStep? (d : Draft) (block : Block) (name : Text) : Option (Text × Text) :=
  if block.header.kind = .keyframes (some name) then
    ((readSteps d block.lines).value.filter fun s => isInitialStep s.1).getLast?
  else none

theorem get?_foldl_insert (states : Table Text Text) (name name' : Text)
    (steps : List (Text × Text)) :
    (steps.foldl (fun states s => states.insert name s.2) states).get? name' =
      if name' = name then (steps.getLast?.map Prod.snd).or (states.get? name)
      else states.get? name' := by
  rw [Table.foldl_insert]
  cases steps.getLast? with
  | none =>
    split
    · rename_i e
      rw [e]
      rfl
    · rfl
  | some s => exact Table.get?_alter states name name' fun _ => s.2

/-- **A directive writes the first step under the name of its animation**, and leaves all else as it
    was. -/
theorem get?_statesAfter (d : Draft) (block : Block) (name : Text) :
    (statesAfter d.config d.initialStates block).get? name =
      ((d.firstStep? block name).map Prod.snd).or (d.initialStates.get? name) := by
  unfold statesAfter firstStep?
  split
  · rename_i name' hkind
    rw [← addKeyframes_knowing, addKeyframes_states, get?_foldl_insert, hkind]
    by_cases e : name = name'
    · rw [if_pos e, e, if_pos rfl]
    · have hne : ¬Kind.keyframes (some name') = .keyframes (some name) :=
        fun h => e (Option.some.inj (Kind.keyframes.inj h)).symm
      rw [if_neg e, if_neg hne]
      rfl
  · rename_i hkind
    rw [if_neg (hkind name)]
    rfl

/-! ## 4. What stands there later -/

/-- A directive is taken in, at the top of a document or inside its element tree. -/
inductive Processes (d : Draft) (block : Block) : Draft → Prop where
  | top {d' : Draft} (ok : (d.reportUnclosed block).addBlock block = .ok d') : Processes d block d'
  | inside {d' : Draft} {hasTarget : Bool} {name : Option Text}
      (ok : d.addInline block hasTarget = .ok (name, d')) : Processes d block d'

theorem exists_processes (d : Draft) (block : Block) : ∃ d', d.Processes block d' := by
  obtain ⟨d', ok, _⟩ := (d.reportUnclosed block).addBlock_ok block
  exact ⟨d', .top ok⟩

/-- Wherever a directive stands, the settings stay and the first steps become the same. -/
theorem Processes.effect {d d' : Draft} {block : Block} (h : d.Processes block d') :
    d'.config = d.config ∧ d'.initialStates = statesAfter d.config d.initialStates block := by
  cases h with
  | top ok =>
    obtain ⟨d₁, ok₁, hconfig⟩ := (d.reportUnclosed block).addBlock_ok block
    rw [ok] at ok₁
    cases ok₁
    have hstates := addBlock_states ok
    obtain ⟨found, hunclosed⟩ := d.reportUnclosed_eq block
    rw [hunclosed] at hstates hconfig
    exact ⟨hconfig, hstates⟩
  | inside ok =>
    obtain ⟨hconfig, hstates, _⟩ := addInline_effect ok
    exact ⟨hconfig, hstates⟩

theorem addElement_states {d d' : Draft} {line : Line} {code : Text} {words : List Text}
    {hasChildren : Bool} {e : Element}
    (ok : d.addElement line code words hasChildren = .ok (e, d')) :
    d'.config = d.config ∧ d'.initialStates = d.initialStates := by
  refine foldlM_keeps (fun s : Element × Draft =>
    s.2.config = d.config ∧ s.2.initialStates = d.initialStates) ?_ ok ⟨rfl, rfl⟩
  intro s t s' hs h
  obtain ⟨_, hu, _⟩ := addStyle_eq_ok hs
  obtain ⟨d₁, hc, e⟩ := addUtility_eq_ok hu
  have hd₁ := (classFor_eq_ok hc).2
  rw [e, hd₁]
  exact h

/-- The drafts that come after a draft while no keyframes write a first step of the given
    animation. -/
inductive Later (name : Text) (d : Draft) : Draft → Prop where
  | now : Later name d d
  | directive {d₁ d₂ : Draft} {block : Block} (h : Later name d d₁)
      (hnone : d₁.firstStep? block name = none) (hp : d₁.Processes block d₂) : Later name d d₂
  | element {d₁ d₂ : Draft} {line : Line} {code : Text} {words : List Text} {hasChildren : Bool}
      {e : Element} (h : Later name d d₁)
      (ok : d₁.addElement line code words hasChildren = .ok (e, d₂)) : Later name d d₂
  | declaration {d₁ : Draft} (h : Later name d d₁) (line : Line) :
      Later name d (d₁.addVariableLine line)
  | finding {d₁ : Draft} (h : Later name d d₁) (f : Finding) (line : Option Int) :
      Later name d (d₁.report f line)

/-- **Only keyframes of the same name change what stands under the name of an animation.** -/
theorem Later.keeps {name : Text} {d d' : Draft} (h : Later name d d') :
    d'.config = d.config ∧ d'.initialStates.get? name = d.initialStates.get? name := by
  induction h with
  | now => exact ⟨rfl, rfl⟩
  | directive _ hnone hp ih =>
    obtain ⟨hconfig, hstates⟩ := hp.effect
    rw [hconfig, hstates, get?_statesAfter, hnone]
    exact ih
  | element _ ok ih =>
    obtain ⟨hconfig, hstates⟩ := addElement_states ok
    rw [hconfig, hstates]
    exact ih
  | @declaration d₁ _ line ih =>
    obtain ⟨_, _, e⟩ := d₁.addVariableLine_eq line
    rw [e]
    exact ih
  | finding _ _ _ ih => exact ih

/-- The step that keyframes write is one that came out of their lines. -/
theorem text_of_firstStep? {d : Draft} {block : Block} {name step text : Text}
    (h : d.firstStep? block name = some (step, text)) :
    text = (mergedFor d step block.lines).text := by
  unfold firstStep? at h
  split at h
  · exact (mem_readSteps.mp (List.mem_filter.mp (List.mem_of_getLast? h)).1).2.2
  · cases h

end Draft

/-! ## 5. What an animation replays -/

section Replay

open Directive Draft

/-- **An animation with a third word declares exactly what its first step does, and then itself.**
    The first step is the last one of the keyframes that counts as such, with the declarations of
    all its lines put together; it stays until keyframes of the same name write another. With one
    or two words an animation declares only itself, with the usual duration if it gives none. -/
theorem first_step_replayed {d : Draft} {block : Block} {name step text : Text}
    (hstep : d.firstStep? block name = some (step, text))
    (hvalues : ∀ x ∈ (mergedFor d step block.lines).values, x.HasPlainValue) :
    (∃ d₁, d.Processes block d₁) ∧
    ∀ d₁ d₂, d.Processes block d₁ → Later name d₁ d₂ →
    ∀ value, '$' ∉ value → ∀ priority line,
      let resolved := d₂.resolve .animation value priority line
      (∀ duration third more, Text.words value = name :: duration :: third :: more →
        resolved = ⟨priority.apply
          ((mergedFor d step block.lines).values ++ [d.config.animation name duration]), []⟩) ∧
      (∀ other duration, Text.words value = [other, duration] →
        resolved = ⟨priority.apply [d.config.animation other duration], []⟩) ∧
      (∀ other, Text.words value = [other] →
        resolved =
          ⟨priority.apply [d.config.animation other d.config.animationDuration], []⟩) := by
  refine ⟨d.exists_processes block, ?_⟩
  intro d₁ d₂ hprocesses hlater value hvalue priority line
  obtain ⟨hconfig₁, hstates⟩ := hprocesses.effect
  obtain ⟨hconfig₂, hkept⟩ := hlater.keeps
  have hconfig : d₂.config = d.config := hconfig₂.trans hconfig₁
  have hinitial : d₂.initialState name = (mergedFor d step block.lines).text := by
    rw [initialState, hkept, hstates, get?_statesAfter, hstep, text_of_firstStep? hstep]
    rfl
  have hread := parseAll_mergedFor hvalues
  refine ⟨fun duration third more hwords => ?_, fun other duration hwords => ?_,
    fun other hwords => ?_⟩
  · have hlong : 2 ≤ (duration :: third :: more).length := by simp
    rw [d₂.resolve_animation hvalue hwords, hconfig, hinitial, hread, if_pos hlong]
    rfl
  · rw [d₂.resolve_animation hvalue hwords, hconfig]
    rfl
  · rw [d₂.resolve_animation hvalue hwords, hconfig]
    rfl

/-- Two lines for the same step, where the later one takes a value back; two steps that count as the
    first, of which the later one is kept; and after that keyframes of the same name without a first
    step, and an element. -/
theorem first_step_replayed_merged :
    let d := Draft.empty .default
    let keyframes : List Line → Block := fun lines =>
      ⟨⟨"@keyframes rise", .keyframes (some "rise")⟩, 1, lines, true⟩
    let block := keyframes [⟨2, 2, "0% op=0 pad=4"⟩, ⟨3, 2, "from op=1"⟩, ⟨4, 2, "to op=1"⟩,
      ⟨5, 2, "from trf=none op=0.5"⟩]
    let again := keyframes [⟨7, 2, "50% op=0.7"⟩]
    let merged : List Declaration := [⟨"opacity", "0.5", false⟩, ⟨"transform", "none", false⟩]
    d.firstStep? block "rise" = some ("from".toList, "opacity: 0.5; transform: none;".toList) ∧
      (Directive.mergedFor d "from" block.lines).values = merged ∧
      (∀ x ∈ merged, x.HasPlainValue) ∧
      ∃ d₁ d₂ d₃ e, d.Processes block d₁ ∧ d₁.firstStep? again "rise" = none ∧
        d₁.Processes again d₂ ∧ d₂.addElement ⟨9, 0, "p pad=4"⟩ "p" ["pad=4"] false = .ok (e, d₃) ∧
        d₃.resolve .animation " rise  2s x" .forced none =
          ⟨[⟨"opacity", "0.5", true⟩, ⟨"transform", "none", true⟩,
            ⟨"animation", "rise 2s ease-in-out forwards", true⟩], []⟩ := by
  intro d keyframes block again merged
  have hstep : d.firstStep? block "rise" =
      some ("from".toList, "opacity: 0.5; transform: none;".toList) := by decide +kernel
  have hmerged : (Directive.mergedFor d "from" block.lines).values = merged := by decide +kernel
  have hvalues : ∀ x ∈ merged, x.HasPlainValue := by decide +kernel
  let d₁ := Directive.addKeyframes d "rise" block.lines
  let d₂ := Directive.addKeyframes d₁ "rise" again.lines
  have hprocesses : d.Processes block d₁ := .top rfl
  have hagain : d₁.firstStep? again "rise" = none := by decide +kernel
  have hprocesses' : d₁.Processes again d₂ := .top rfl
  obtain ⟨e, d₃, hadd, _⟩ := d₂.addElement_ok ⟨9, 0, "p pad=4"⟩ "p" ["pad=4"] false
  have hlater : d₁.Later "rise" d₃ := .element (.directive .now hagain hprocesses') hadd
  have hreplayed := (first_step_replayed hstep (hmerged.symm ▸ hvalues)).2 d₁ d₃ hprocesses hlater
    " rise  2s x" (by decide) .forced none
  refine ⟨hstep, hmerged, hvalues, d₁, d₂, d₃, e, hprocesses, hagain, hprocesses', hadd, ?_⟩
  rw [hreplayed.1 "2s" "x" [] (by decide +kernel), hmerged]
  decide +kernel

end Replay

end OutlineMarkup
