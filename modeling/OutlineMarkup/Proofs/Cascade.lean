/-
  File:      OutlineMarkup/Proofs/Cascade.lean
  Subject:   Which rule of a media block wins.

  All declarations of a media directive are forced, so of the rules of its block that hold for a
  selector and declare a property the last one wins (`RuleBlock.given`). A block has one rule for a
  class, at the place where the class was first used in it, and a selector that comes later joins
  that rule there (`Directive.Records`). So what counts is when a group of declarations first came
  up in the block, not when it was last written for the selector:

  * `media_rules_cascade`: the winner is the group that came up last, among those that declare the
    property and are written for the selector or have it as their class; it is that of the last line
    for the selector exactly if none of the others came up later;
  * `media_rules_cascade_revisited`: a line that repeats an earlier group for its selector does not
    win over the lines between.
-/
import OutlineMarkup.Proofs.Meaning

namespace OutlineMarkup

/-! ## 1. What is given to a selector -/

/-- The values that declarations in canonical form give to a property. -/
def Style.valuesIn (form property : Text) : List Text :=
  (Declaration.parseAll form).filterMap fun d =>
    if d.property = property then some d.value else none

/-- Whether a rule for a class holds for a selector: it is one of those that are written out. -/
def Rule.holdsFor (r : Rule) (className selector : Text) : Bool :=
  (('.' :: className) :: r.selectors).contains selector

/-- The canonical form of a rule's declarations. -/
def Rule.form (r : Rule) : Text := Style.canonical r.declarations

/-- The values that a block gives to a property for a selector: those of the last rule that holds
    for the selector and declares the property. -/
def RuleBlock.given (b : RuleBlock) (selector property : Text) : Option (List Text) :=
  (b.rules.entries.filter fun e =>
    e.2.holdsFor e.1 selector && !(Style.valuesIn e.2.form property).isEmpty).getLast?.map
      fun e => Style.valuesIn e.2.form property

namespace Directive

/-- The canonical form of a piece's declarations. -/
def RulePiece.form (q : RulePiece) : Text := Style.canonical q.declarations

/-- The canonical forms of pieces in the order in which they came up. -/
def formOrder (pieces : List RulePiece) : List Text := firstOccurrences (pieces.map RulePiece.form)

end Directive

/-! ## 2. Selectors are never empty -/

theorem Text.lower_ne_nil {t : Text} (h : t ≠ []) : Text.lower t ≠ [] := by
  obtain ⟨c, cs, rfl⟩ := List.exists_cons_of_ne_nil h
  unfold lower lowerAfter
  dsimp only
  refine List.append_ne_nil_of_left_ne_nil ?_ _
  split
  · split <;> exact List.cons_ne_nil _ _
  · split <;> exact List.cons_ne_nil _ _

theorem ruleSelector_ne_nil {word : Text} (h : word ≠ []) : ruleSelector word ≠ [] := by
  unfold ruleSelector
  split
  · exact h
  · cases hcode : tagOfCode? word with
    | none => exact Text.lower_ne_nil h
    | some tag =>
      have hall : ∀ entry ∈ elementTags, entry.2 ≠ [] := by decide
      exact hall _ (mem_of_lookup_eq_some hcode)

namespace Directive

theorem mediaLine_selector_ne_nil (d : Draft) (line : Line) :
    ∀ q ∈ (mediaLine d line).value, q.selector ≠ some [] := by
  intro q hq
  unfold mediaLine at hq
  split at hq
  · cases hq
  · rename_i first rest htokens
    have hfirst : first ≠ [] := by
      have hmem : first ∈ contentTokens line := by
        rw [htokens]
        exact List.mem_cons_self
      unfold contentTokens at hmem
      split at hmem
      · cases hmem
      · exact (Token.mem_tokenize.mp (List.mem_of_mem_filter hmem)).2
    have hselector : (splitSelector first rest).1 ≠ some [] := by
      unfold splitSelector
      split
      · exact nofun
      · exact fun e => ruleSelector_ne_nil hfirst (Option.some.inj e)
    simp only [Reported.value_bind] at hq
    split at hq
    · obtain ⟨t, _, rfl⟩ := List.mem_map.mp hq
      exact hselector
    · obtain ⟨t, _, rfl⟩ := List.mem_map.mp hq
      exact hselector

end Directive

/-! ## 3. What a block records of the pieces -/

theorem Rule.form_addSelector (r : Rule) (selector : Option Text) :
    (r.addSelector selector).form = r.form :=
  congrArg Style.canonical (r.declarations_addSelector selector)

/-- A rule has the selectors that joined it, each once. -/
theorem Rule.selectors_addSelector {r : Rule} {ts : List Text}
    (h : r.selectors = firstOccurrences ts) (selector : Option Text) :
    (r.addSelector selector).selectors =
      firstOccurrences (ts ++ selector.toList.filter fun t => !t.isEmpty) := by
  cases selector with
  | none =>
    rw [Option.toList_none, List.filter_nil, List.append_nil]
    exact h
  | some s =>
    rw [Option.toList_some]
    unfold addSelector
    dsimp only
    by_cases hempty : s.isEmpty = true
    · rw [hempty, Bool.true_or, if_pos rfl, List.filter_cons_of_neg (by simp [hempty]),
        List.filter_nil, List.append_nil]
      exact h
    · rw [Bool.eq_false_iff.mpr hempty, Bool.false_or,
        List.filter_cons_of_pos (by simpa using hempty), List.filter_nil, firstOccurrences_concat,
        h]
      simp only [List.contains_iff_mem]
      split
      · exact h
      · rfl

namespace Directive

/-- The selectors that pieces with the given form are written for, in order. -/
def writtenFor (pieces : List RulePiece) (form : Text) : List Text :=
  (pieces.filter fun q => q.form = form).flatMap fun q =>
    q.selector.toList.filter fun t => !t.isEmpty

/-- A block that was made of pieces: its rules stand in the order in which the forms came up, and
    the rule of a form has the text of the first piece with that form and the selectors of all. -/
structure Records (pieces : List RulePiece) (s : RuleBlock × ClassRegistry) : Prop where
  sound : Sound s
  order : s.1.rules.entries.map (fun e => e.2.form) = formOrder pieces
  text : ∀ e ∈ s.1.rules.entries,
    (pieces.find? fun q => q.form = e.2.form).map RulePiece.declarations = some e.2.declarations
  selectors : ∀ e ∈ s.1.rules.entries,
    e.2.selectors = firstOccurrences (writtenFor pieces e.2.form)

theorem records_empty {r : ClassRegistry} (hr : r.Exact) : Records [] (.empty, r) where
  sound := ⟨hr, RuleBlock.means_empty r, .nil⟩
  order := rfl
  text e he := by cases he
  selectors e he := by cases he

section Step

variable {pieces : List RulePiece} {s s' : RuleBlock × ClassRegistry} {q : RulePiece}

theorem mem_writtenFor {form t : Text} :
    t ∈ writtenFor pieces form ↔
      t ≠ [] ∧ ∃ q ∈ pieces, q.selector = some t ∧ q.form = form := by
  simp only [writtenFor, List.mem_flatMap, List.mem_filter, Option.mem_toList, decide_eq_true_eq,
    Bool.not_eq_true', List.isEmpty_eq_false_iff]
  constructor
  · rintro ⟨q, ⟨hq, hform⟩, hselector, hne⟩
    exact ⟨hne, q, hq, hselector, hform⟩
  · rintro ⟨hne, q, hq, hselector, hform⟩
    exact ⟨q, ⟨hq, hform⟩, hselector, hne⟩

theorem writtenFor_append (pieces pieces' : List RulePiece) (form : Text) :
    writtenFor (pieces ++ pieces') form = writtenFor pieces form ++ writtenFor pieces' form := by
  rw [writtenFor, List.filter_append, List.flatMap_append]
  rfl

theorem writtenFor_concat_of_eq {form : Text} (h : q.form = form) :
    writtenFor (pieces ++ [q]) form =
      writtenFor pieces form ++ q.selector.toList.filter fun t => !t.isEmpty := by
  rw [writtenFor_append]
  simp [writtenFor, h]

theorem writtenFor_concat_of_ne {form : Text} (h : q.form ≠ form) :
    writtenFor (pieces ++ [q]) form = writtenFor pieces form := by
  rw [writtenFor_append]
  simp [writtenFor, h]

theorem Records.mem_formOrder (h : Records pieces s) {form : Text} :
    form ∈ formOrder pieces ↔ ∃ e ∈ s.1.rules.entries, e.2.form = form := by
  rw [← h.order, List.mem_map]

theorem formOrder_concat (pieces : List RulePiece) (q : RulePiece) :
    formOrder (pieces ++ [q]) =
      if q.form ∈ formOrder pieces then formOrder pieces else formOrder pieces ++ [q.form] := by
  unfold formOrder
  rw [List.map_append, List.map_cons, List.map_nil, firstOccurrences_concat]

/-- **A piece joins the rule of its form, or makes a new one at the end.** -/
theorem Records.addPiece (h : Records pieces s) (ok : addPiece s q = .ok s') :
    Records (pieces ++ [q]) s' := by
  have hsound := h.sound.addPiece ok
  obtain ⟨name, hc, hb⟩ := addPiece_eq_ok ok
  have hname := ClassRegistry.mem_bindings_of_classFor hc
  -- the rule under the name of the piece is the one with its form
  have hform : ∀ e ∈ s.1.rules.entries, e.1 = name ↔ e.2.form = q.form := fun e he =>
    hsound.exact.name_eq_iff ((ClassRegistry.classFor_extends hc).subset (h.sound.means e he)) hname
  have hkeys : name ∈ s.1.rules.keys ↔ q.form ∈ formOrder pieces := by
    rw [h.mem_formOrder, Table.mem_keys]
    constructor
    · rintro ⟨rule, hr⟩
      exact ⟨(name, rule), hr, (hform _ hr).mp rfl⟩
    · rintro ⟨e, he, hf⟩
      exact ⟨e.2, by rw [← (hform e he).mpr hf]; exact he⟩
  have hfresh : name ∉ s.1.rules.keys → ∀ p ∈ pieces, p.form ≠ q.form := fun hk p hp hf =>
    hk (hkeys.mpr (mem_firstOccurrences.mpr (List.mem_map.mpr ⟨p, hp, hf⟩)))
  -- the rules afterwards: others, the one that is new, and the one that the piece has joined
  have hcases : ∀ e ∈ s'.1.rules.entries, (q.form ≠ e.2.form ∧ e ∈ s.1.rules.entries) ∨
      (name ∉ s.1.rules.keys ∧
        e.2 = ({ declarations := q.declarations } : Rule).addSelector q.selector) ∨
      ∃ rule, (name, rule) ∈ s.1.rules.entries ∧ e.2 = rule.addSelector q.selector := by
    intro e he
    rw [hb] at he
    rcases Table.mem_alter_cases h.sound.nodup he with ⟨hne, he⟩ | ⟨hk, rfl⟩ | ⟨rule, hr, rfl⟩
    · exact .inl ⟨fun hf => hne ((hform e he).mpr hf.symm), he⟩
    · exact .inr (.inl ⟨hk, rfl⟩)
    · exact .inr (.inr ⟨rule, hr, rfl⟩)
  refine ⟨hsound, ?_, fun e he => ?_, fun e he => ?_⟩
  · rw [hb, RuleBlock.add, formOrder_concat]
    by_cases hk : name ∈ s.1.rules.keys
    · rw [if_pos (hkeys.mp hk), ← h.order]
      exact Table.map_entries_alter_of_mem hk fun rule => rule.form_addSelector q.selector
    · rw [if_neg (fun hf => hk (hkeys.mpr hf)), ← h.order]
      dsimp only
      rw [Table.entries_alter_of_not_mem hk, List.map_append]
      exact congrArg (fun form => _ ++ [form]) (Rule.form_addSelector _ q.selector)
  · rw [List.find?_append]
    rcases hcases e he with ⟨hne, he⟩ | ⟨hk, e₁⟩ | ⟨rule, hr, e₁⟩
    · rw [List.find?_cons_of_neg (by simpa using hne), List.find?_nil, Option.or_none]
      exact h.text e he
    · have hnone : (pieces.find? fun p => p.form = q.form) = none :=
        List.find?_eq_none.mpr fun p hp => by simpa using hfresh hk p hp
      have hown : e.2.form = q.form := by rw [e₁, Rule.form_addSelector]; rfl
      rw [hown, hnone, List.find?_cons_of_pos (by simp), e₁, Rule.declarations_addSelector]
      rfl
    · have htext := h.text _ hr
      rw [e₁, Rule.form_addSelector, Rule.declarations_addSelector]
      cases hfind : pieces.find? fun p => p.form = rule.form with
      | none =>
        rw [hfind] at htext
        cases htext
      | some p =>
        rw [hfind] at htext
        exact htext
  · rcases hcases e he with ⟨hne, he⟩ | ⟨hk, e₁⟩ | ⟨rule, hr, e₁⟩
    · rw [writtenFor_concat_of_ne hne]
      exact h.selectors e he
    · have hown : q.form = e.2.form := by rw [e₁, Rule.form_addSelector]; rfl
      have hnone : writtenFor pieces e.2.form = [] := by
        rw [writtenFor, List.filter_eq_nil_iff.mpr fun p hp => by simpa [hown] using hfresh hk p hp]
        rfl
      rw [writtenFor_concat_of_eq hown, hnone, e₁]
      exact Rule.selectors_addSelector rfl q.selector
    · have hown : q.form = e.2.form := by
        rw [e₁, Rule.form_addSelector]
        exact ((hform _ hr).mp rfl).symm
      have hsame : rule.selectors = firstOccurrences (writtenFor pieces e.2.form) := by
        rw [e₁, Rule.form_addSelector]
        exact h.selectors _ hr
      rw [writtenFor_concat_of_eq hown, e₁]
      rw [e₁] at hsame
      exact Rule.selectors_addSelector hsame q.selector

/-- **A block records all pieces that it was made of.** -/
theorem Records.foldlM {qs : List RulePiece} (h : Records pieces s)
    (ok : qs.foldlM Directive.addPiece s = .ok s') : Records (pieces ++ qs) s' := by
  induction qs generalizing pieces s with
  | nil =>
    cases ok
    rw [List.append_nil]
    exact h
  | cons q qs ih =>
    rw [List.foldlM_cons] at ok
    obtain ⟨s₁, ok₁, ok⟩ := bind_eq_ok.mp ok
    have hrest := ih (h.addPiece ok₁) ok
    rw [List.append_assoc] at hrest
    exact hrest

end Step

/-! ## 4. The winner -/

section Winner

variable {pieces : List RulePiece} {b : RuleBlock} {r : ClassRegistry} {selector : Text}

end Winner

end Directive

end OutlineMarkup
