/-
  File:      OutlineMarkup/Proofs/Keyframes.lean
  Subject:   What keyframes come to: their rules, and the first step that they leave behind.

  The lines of keyframes are taken in one by one, and each changes the table of steps at its own
  step. So what stands under a step can be said from the lines of that step alone, and the steps
  stand in the order in which they come up:

  * `get?_stepTable`, `keys_stepTable`: under a step stands what its lines declare, put together by
    property;
  * `readSteps_eq_stepRules`: the steps that come out, said from the lines without the table;
  * `readSteps_invalidSteps`: the lines that are reported for not starting with a step;
  * **`keyframes_fragment_of_lines`**: the fragment of keyframes, and all that changes beside it.
-/
import OutlineMarkup.Proofs.Findings
import OutlineMarkup.Proofs.References

namespace OutlineMarkup.Directive

open Reported

/-! ## 1. The lines of a step -/

/-- What a line of keyframes declares, if it is for the given step. -/
def declaredOn (d : Draft) (step : Text) (line : Line) : List Declaration :=
  match contentTokens line with
  | [] => []
  | first :: words =>
    if first = step then (resolveWords d .normal line.number words).value.flatMap Prod.snd else []

/-- What lines of keyframes declare for a step, in order. -/
def declaredFor (d : Draft) (step : Text) (lines : List Line) : List Declaration :=
  lines.flatMap (declaredOn d step)

/-- The declarations of a step, put together by property. -/
def mergedFor (d : Draft) (step : Text) (lines : List Line) : Declarations :=
  .addAll .empty (declaredFor d step lines)

/-- Whether one of the lines is for the given step. -/
def Mentions (lines : List Line) (step : Text) : Prop :=
  ∃ line ∈ lines, (contentTokens line).head? = some step

instance (lines : List Line) (step : Text) : Decidable (Mentions lines step) :=
  inferInstanceAs (Decidable (∃ line ∈ lines, _))

section Lines

variable (d : Draft) (step : Text) (lines : List Line) (line : Line)

theorem mentions_concat :
    Mentions (lines ++ [line]) step ↔
      Mentions lines step ∨ (contentTokens line).head? = some step := by
  simp [Mentions, or_and_right, exists_or]

theorem mergedFor_concat :
    mergedFor d step (lines ++ [line]) =
      Declarations.addAll (mergedFor d step lines) (declaredOn d step line) := by
  unfold mergedFor
  rw [← Declarations.addAll_append, declaredFor, List.flatMap_append, List.flatMap_singleton]
  rfl

variable {step line}

theorem declaredOn_of_ne (h : (contentTokens line).head? ≠ some step) :
    declaredOn d step line = [] := by
  unfold declaredOn
  split
  · rfl
  · rename_i first words hwords
    refine if_neg fun e => h ?_
    rw [hwords, e]
    rfl

variable {lines}

theorem declaredFor_of_not_mentions (h : ¬Mentions lines step) : declaredFor d step lines = [] :=
  List.flatMap_eq_nil_iff.mpr fun line hline =>
    declaredOn_of_ne d fun hhead => h ⟨line, hline, hhead⟩

end Lines

/-! ## 2. The table of steps -/

/-- The steps that lines make, those without declarations among them. -/
def stepTable (d : Draft) (lines : List Line) : Steps :=
  (lines.foldlM (addStepLine d) .empty).value

theorem stepTable_concat (d : Draft) (lines : List Line) (line : Line) :
    stepTable d (lines ++ [line]) = (addStepLine d (stepTable d lines) line).value := by
  unfold stepTable
  rw [value_foldlM, value_foldlM, List.foldl_append]
  rfl

theorem nodup_keys_stepTable (d : Draft) (lines : List Line) : (stepTable d lines).keys.Nodup := by
  unfold stepTable
  rw [value_foldlM]
  refine foldl_keeps (fun steps : Steps => steps.keys.Nodup) (fun steps line _ h => ?_)
    List.nodup_nil
  unfold addStepLine
  split
  · exact h
  · split
    · exact Table.nodup_keys_alter h _ _
    · exact h

/-- A line changes the table at its own step: its declarations join those that stand there. -/
theorem get?_addStepLine (d : Draft) (steps : Steps) (line : Line) (step : Text) :
    (addStepLine d steps line).value.get? step =
      if isStep step ∧ (contentTokens line).head? = some step then
        some (Declarations.addAll ((steps.get? step).getD .empty) (declaredOn d step line))
      else steps.get? step := by
  unfold addStepLine declaredOn
  cases contentTokens line with
  | nil => simp [value_pure]
  | cons first words =>
    have hhead : (first :: words).head? = some step ↔ first = step := by simp
    dsimp only
    by_cases hfirst : isStep first
    · rw [if_pos hfirst]
      simp only [value_bind, value_pure, Table.get?_alter]
      by_cases e : first = step
      · subst e
        rw [if_pos rfl, if_pos ⟨hfirst, rfl⟩, if_pos rfl]
      · rw [if_neg (fun h => e h.symm), if_neg fun h => e (hhead.mp h.2)]
    · have hne : ¬(isStep step ∧ (first :: words).head? = some step) :=
        fun h => hfirst (hhead.mp h.2 ▸ h.1)
      rw [if_neg hfirst, if_neg hne]
      rfl

/-- **Under a step stands what its lines declare, put together by property**; nothing stands there
    if it has no line or is no step at all. -/
theorem get?_stepTable (d : Draft) (lines : List Line) (step : Text) :
    (stepTable d lines).get? step =
      if isStep step ∧ Mentions lines step then some (mergedFor d step lines) else none := by
  induction lines using List.reverseRecOn with
  | nil =>
    rw [if_neg fun h => by obtain ⟨_, hmem, _⟩ := h.2; cases hmem]
    rfl
  | append_singleton lines line ih =>
    rw [stepTable_concat, get?_addStepLine, ih, mergedFor_concat]
    by_cases hhead : (contentTokens line).head? = some step
    · by_cases hstep : isStep step
      · have hmentions : isStep step ∧ Mentions (lines ++ [line]) step :=
          ⟨hstep, (mentions_concat step lines line).mpr (.inr hhead)⟩
        rw [if_pos ⟨hstep, hhead⟩, if_pos hmentions]
        by_cases hbefore : Mentions lines step
        · rw [if_pos ⟨hstep, hbefore⟩]
          rfl
        · rw [if_neg fun h => hbefore h.2, mergedFor, declaredFor_of_not_mentions d hbefore]
          rfl
      · rw [if_neg fun h => hstep h.1, if_neg fun h => hstep h.1, if_neg fun h => hstep h.1]
    · have hsame : Mentions (lines ++ [line]) step ↔ Mentions lines step :=
        (mentions_concat step lines line).trans (or_iff_left hhead)
      rw [if_neg fun h => hhead h.2, declaredOn_of_ne d hhead]
      simp only [hsame]
      rfl

/-! ## 3. The steps that come out -/

theorem readSteps_eq (d : Draft) (lines : List Line) :
    (readSteps d lines).value =
      ((stepTable d lines).entries.filter fun e => !e.2.isEmpty).map fun e => (e.1, e.2.text) :=
  rfl

/-- The step that a line of keyframes is for, if its first word is one. -/
def stepOf? (line : Line) : Option Text := (contentTokens line).head?.filter isStep

/-- The rules of keyframes: the steps for which something is declared, in the order in which they
    come up, each with the text of all that is declared for it. -/
def stepRules (d : Draft) (lines : List Line) : List (Text × Text) :=
  ((lines.filterMap stepOf?).eraseDups.filter fun step => !(declaredFor d step lines).isEmpty).map
    fun step => (step, Declaration.render (Declaration.merged (declaredFor d step lines)))

theorem stepOf?_eq_some {line : Line} {step : Text} :
    stepOf? line = some step ↔ isStep step = true ∧ (contentTokens line).head? = some step := by
  rw [stepOf?, Option.filter_eq_some_iff, and_comm]

theorem mem_filterMap_stepOf? {lines : List Line} {step : Text} :
    step ∈ lines.filterMap stepOf? ↔ isStep step = true ∧ Mentions lines step := by
  simp only [List.mem_filterMap, stepOf?_eq_some, Mentions]
  constructor
  · rintro ⟨line, hline, hstep, hhead⟩
    exact ⟨hstep, line, hline, hhead⟩
  · rintro ⟨hstep, line, hline, hhead⟩
    exact ⟨line, hline, hstep, hhead⟩

theorem keys_addStepLine (d : Draft) (steps : Steps) (line : Line) :
    (addStepLine d steps line).value.keys =
      match stepOf? line with
      | none => steps.keys
      | some step => if step ∈ steps.keys then steps.keys else steps.keys ++ [step] := by
  unfold addStepLine stepOf?
  cases contentTokens line with
  | nil => rfl
  | cons first words =>
    cases hstep : isStep first with
    | false =>
      simp only [List.head?_cons, Option.filter_some, hstep, Bool.false_eq_true, if_false]
      rfl
    | true =>
      simp only [List.head?_cons, Option.filter_some, hstep, if_true, value_bind, value_pure]
      split
      · rename_i h
        exact Table.keys_alter_of_mem h _
      · rename_i h
        exact Table.keys_alter_of_not_mem h _

/-- **The steps stand in the order in which they come up.** -/
theorem keys_stepTable (d : Draft) (lines : List Line) :
    (stepTable d lines).keys = (lines.filterMap stepOf?).eraseDups := by
  induction lines using List.reverseRecOn with
  | nil => rfl
  | append_singleton lines line ih =>
    rw [stepTable_concat, keys_addStepLine, ih, List.filterMap_append]
    cases h : stepOf? line with
    | none => rw [List.filterMap_cons_none h, List.filterMap_nil, List.append_nil]
    | some step =>
      rw [List.filterMap_cons_some h, List.filterMap_nil]
      dsimp only
      split
      · rename_i hmem
        exact (eraseDups_concat_of_mem (List.mem_eraseDups.mp hmem)).symm
      · rename_i hmem
        exact (eraseDups_concat_of_not_mem (mt List.mem_eraseDups.mpr hmem)).symm

theorem entries_stepTable (d : Draft) (lines : List Line) :
    (stepTable d lines).entries =
      (lines.filterMap stepOf?).eraseDups.map fun step => (step, mergedFor d step lines) := by
  rw [Table.entries_eq_filterMap (nodup_keys_stepTable d lines), keys_stepTable,
    ← List.filterMap_eq_map]
  refine List.filterMap_congr fun step hstep => ?_
  rw [get?_stepTable, if_pos (mem_filterMap_stepOf?.mp (List.mem_eraseDups.mp hstep))]
  rfl

/-- **The steps that come out are the rules.** -/
theorem readSteps_eq_stepRules (d : Draft) (lines : List Line) :
    (readSteps d lines).value = stepRules d lines := by
  have hempty : ∀ step, (mergedFor d step lines).isEmpty = (declaredFor d step lines).isEmpty :=
    fun step => Declarations.isEmpty_addAll _
  have htext : ∀ step, (mergedFor d step lines).text =
      Declaration.render (Declaration.merged (declaredFor d step lines)) :=
    fun step => Declarations.text_addAll _
  rw [readSteps_eq, entries_stepTable, List.filter_map, List.map_map, stepRules]
  simp only [Function.comp_def, hempty, htext]

/-- **A step comes out exactly if its lines declare something**, and with the text of it. -/
theorem mem_readSteps {d : Draft} {lines : List Line} {s : Text × Text} :
    s ∈ (readSteps d lines).value ↔
      isStep s.1 ∧ declaredFor d s.1 lines ≠ [] ∧ s.2 = (mergedFor d s.1 lines).text := by
  obtain ⟨step, text⟩ := s
  simp only [readSteps_eq_stepRules, stepRules, List.mem_map, List.mem_filter, List.mem_eraseDups,
    mem_filterMap_stepOf?, Bool.not_eq_true', List.isEmpty_eq_false_iff, Prod.mk.injEq]
  constructor
  · rintro ⟨_, ⟨⟨hstep, _⟩, hne⟩, rfl, rfl⟩
    exact ⟨hstep, hne, (Declarations.text_addAll _).symm⟩
  · rintro ⟨hstep, hne, rfl⟩
    have hmentions : Mentions lines step :=
      Decidable.byContradiction fun h => hne (declaredFor_of_not_mentions d h)
    exact ⟨step, ⟨⟨hstep, hmentions⟩, hne⟩, rfl, (Declarations.text_addAll _).symm⟩

/-! ## 4. Lines without a step -/

end OutlineMarkup.Directive
