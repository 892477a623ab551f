/-
  File:      OutlineMarkup/Proofs/StyleWords.lean
  Subject:   What comes of a word with a style key on an element line.

  A word `key=value` with a style key is a use of that key; the value of an animation goes on over
  the plain words behind it. Either the key accepts the value, and then the element has what the use
  declares, or it does not, and then the word is passed over. Only references to variables are
  reported, so a word can be passed over without a warning (`style_word_passed_over`).

  * `Features.read_pairs`: the pairs of an element line are those of its words;
  * `ElementPlan.groupsOf_get?`: a group has what the uses of its category declare, in order;
  * `ElementPlan.read_about`: all but undeclared variables is about the code or about other words;
  * **`style_words_settled`**: a word on its line, and a line in its document.
-/
import OutlineMarkup.Proofs.Groups
import OutlineMarkup.Proofs.Locality
import OutlineMarkup.Proofs.Names
import OutlineMarkup.Proofs.References

namespace OutlineMarkup

open Diagnostic Reported

/-! ## 1. Pairs of words -/

/-- Whether a word of an element line is plain: neither a selector nor an assignment. -/
def Token.isPlain (word : Text) : Bool := !isSelector word && (assignment? word).isNone

/-- A value with the plain words right behind it. -/
def StyleKey.goOn (value : Text) (behind : List Text) : Text :=
  (behind.takeWhile Token.isPlain).foldl (fun v word => v ++ " " ++ word) value

/-- The value of a key: where it goes on, it has the plain words right behind it. -/
def StyleKey.valueOver (key value : Text) (behind : List Text) : Text :=
  if continues key then goOn value behind else value

namespace StyleKey

theorem goOn_nil (value : Text) : goOn value [] = value := rfl

theorem goOn_cons_of_plain {word : Text} (h : Token.isPlain word = true) (value : Text)
    (behind : List Text) : goOn value (word :: behind) = goOn (value ++ " " ++ word) behind := by
  rw [goOn, List.takeWhile_cons_of_pos h]
  rfl

theorem goOn_cons_of_not_plain {word : Text} (h : Token.isPlain word = false) (value : Text)
    (behind : List Text) : goOn value (word :: behind) = value := by
  rw [goOn, List.takeWhile_cons_of_neg (by simp [h])]
  rfl

end StyleKey

namespace Features

/-- The pairs that words make, each with the plain words that it takes in. -/
def pairsOf : List Text → List (Text × Text)
  | [] => []
  | word :: behind =>
    match keptPair? word with
    | some (key, value) => (key, StyleKey.valueOver key value behind) :: pairsOf behind
    | none => pairsOf behind

/-- The pairs so far, latest first, with the words behind them that go on with the latest. -/
def continued (f : Features) (behind : List Text) : List (Text × Text) :=
  match f.continuing, f.pairs with
  | true, (key, value) :: earlier => (key, StyleKey.goOn value behind) :: earlier
  | _, pairs => pairs

theorem continued_of_not {f : Features} (h : f.continuing = false) (behind : List Text) :
    f.continued behind = f.pairs := by
  rw [continued, h]

theorem continued_cons_of_not_plain (f : Features) {word : Text} (h : Token.isPlain word = false)
    (behind : List Text) : f.continued (word :: behind) = f.pairs := by
  unfold continued
  split
  · rename_i e
    rw [e, StyleKey.goOn_cons_of_not_plain h]
  · rfl

theorem pairsOf_cons_none {word : Text} (h : keptPair? word = none) (behind : List Text) :
    pairsOf (word :: behind) = pairsOf behind := by
  rw [pairsOf, h]

/-- An assignment is kept as a pair, or it leaves the pairs as they are. -/
theorem pairs_addPair {word key value : Text} (h : Token.assignment? word = some (key, value))
    (f : Features) (behind : List Text) :
    (pairsOf behind).reverse ++ (f.addPair key value).continued behind =
      (pairsOf (word :: behind)).reverse ++ f.pairs := by
  have hdropped : key ∈ (["cls", "class", "t", "text"] : List Text) →
      pairsOf (word :: behind) = pairsOf behind := by
    intro hkey
    refine pairsOf_cons_none ?_ behind
    rw [keptPair?, h]
    exact Option.filter_some_neg (by rw [List.contains_iff_mem.mpr hkey]; decide)
  unfold addPair
  split
  · rename_i hclasses
    rw [hdropped (by rcases hclasses with rfl | rfl <;> decide), continued_of_not rfl]
  · rename_i hclasses
    split
    · rename_i htext
      rw [hdropped (by rcases htext with rfl | rfl <;> decide), continued_of_not rfl]
    · rename_i htext
      have hkept : keptPair? word = some (key, value) := by
        rw [keptPair?, h]
        exact Option.filter_some_pos (by simp_all)
      rw [pairsOf, hkept, List.reverse_cons, List.append_assoc]
      unfold continued StyleKey.valueOver
      cases StyleKey.continues key <;> rfl

/-- A plain word is taken in by the latest pair, or it changes nothing. -/
theorem continued_addPlain (f : Features) {word : Text} (h : Token.isPlain word = true)
    (line : Option Int) (behind : List Text) :
    (f.addPlain word line).value.continued behind = f.continued (word :: behind) := by
  unfold addPlain
  split
  · rename_i hc
    rw [Reported.value_pure]
    unfold continued
    rw [hc]
    cases hpairs : f.pairs with
    | nil => rfl
    | cons pair earlier =>
      obtain ⟨key, value⟩ := pair
      show _ = (key, StyleKey.goOn value (word :: behind)) :: earlier
      rw [StyleKey.goOn_cons_of_plain h]
      rfl
  · rename_i hc
    have hc := Bool.eq_false_iff.mpr hc
    rw [continued_of_not hc]
    exact continued_of_not hc behind

/-- **Words add their pairs**, and the first plain ones go on with the latest pair. -/
theorem pairs_foldl_addWord (line : Option Int) (words : List Text) (f : Features) :
    (words.foldl (fun f word => (f.addWord line word).value) f).pairs =
      (pairsOf words).reverse ++ f.continued words := by
  induction words generalizing f with
  | nil =>
    show f.pairs = f.continued []
    unfold continued
    split
    · rename_i e
      rw [e, StyleKey.goOn_nil]
    · rfl
  | cons word behind ih =>
    rw [List.foldl_cons, ih]
    unfold addWord
    split
    · rename_i hselector
      have hnone : keptPair? word = none := by
        rw [keptPair?, assignment?_of_isSelector hselector]
        rfl
      have hplain : Token.isPlain word = false := by simp [Token.isPlain, hselector]
      rw [pairsOf_cons_none hnone, continued_cons_of_not_plain f hplain, Reported.value_pure,
        continued_of_not rfl]
      rfl
    · rename_i hselector
      split
      · rename_i key value h
        rw [continued_cons_of_not_plain f (by simp [Token.isPlain, h]), Reported.value_pure,
          pairs_addPair h]
      · rename_i h
        have hnone : keptPair? word = none := by
          rw [keptPair?, h]
          rfl
        have hplain : Token.isPlain word = true := by simp [Token.isPlain, hselector, h]
        rw [pairsOf_cons_none hnone, continued_addPlain f hplain]

/-- **The pairs of an element line are those of its words.** -/
theorem read_pairs (code : Text) (words : List Text) (line : Option Int) :
    (read code words line).value.pairs = pairsOf words := by
  have hcode : (ofCode code line).value.pairs = [] ∧
      (ofCode code line).value.continuing = false := by
    unfold ofCode
    split
    · exact ⟨rfl, rfl⟩
    · split
      · exact ⟨rfl, rfl⟩
      · exact ⟨rfl, rfl⟩
  unfold read
  simp only [value_bind, value_pure, value_foldlM]
  rw [pairs_foldl_addWord, continued_of_not hcode.2, hcode.1, List.append_nil, List.reverse_reverse]

/-- The words at the end make the last pairs. -/
theorem exists_pairsOf_append (before behind : List Text) :
    ∃ ps, pairsOf (before ++ behind) = ps ++ pairsOf behind := by
  induction before with
  | nil => exact ⟨[], rfl⟩
  | cons word before ih =>
    obtain ⟨ps, e⟩ := ih
    rw [List.cons_append, pairsOf, e]
    split
    · exact ⟨_ :: ps, rfl⟩
    · exact ⟨ps, rfl⟩

theorem mem_words_of_mem_pairsOf {words : List Text} {pair : Text × Text}
    (h : pair ∈ pairsOf words) :
    ∃ word ∈ words, ∃ value, keptPair? word = some (pair.1, value) := by
  induction words with
  | nil => cases h
  | cons word behind ih =>
    rw [pairsOf] at h
    split at h
    · rename_i key value hkept
      rcases List.mem_cons.mp h with rfl | h
      · exact ⟨word, List.mem_cons_self, value, hkept⟩
      · obtain ⟨w, hw, hkept⟩ := ih h
        exact ⟨w, List.mem_cons_of_mem _ hw, hkept⟩
    · obtain ⟨w, hw, hkept⟩ := ih h
      exact ⟨w, List.mem_cons_of_mem _ hw, hkept⟩

end Features

/-! ## 2. Groups of declarations -/

namespace ElementPlan

/-- What uses declare for a category, in order. -/
def declaredFor (d : Draft) (category : Category) (uses : List StyleUse) : List Declaration :=
  (uses.filter fun u => u.key.category = category).flatMap (StyleUse.declarations d .normal)

/-- What uses add to the groups. -/
def additions (d : Draft) (uses : List StyleUse) : List (Category × List Declaration) :=
  uses.map fun u => (u.key.category, u.declarations d .normal)

theorem groupsOf_eq (d : Draft) (uses : List StyleUse) :
    groupsOf d uses = StyleGroups.ofAdditions (additions d uses) := by
  unfold groupsOf StyleGroups.ofAdditions additions
  rw [List.foldl_map]

theorem declaredFor_eq (d : Draft) (category : Category) (uses : List StyleUse) :
    declaredFor d category uses = StyleGroups.addedTo category (additions d uses) := by
  unfold declaredFor StyleGroups.addedTo additions
  rw [List.filter_map, List.flatMap_map]
  rfl

/-- **The group of a category has what the uses of that category declare**, and there is none if
    they declare nothing. -/
theorem groupsOf_get? (d : Draft) (uses : List StyleUse) (category : Category) :
    (groupsOf d uses).groups.get? category =
      if (declaredFor d category uses).isEmpty then none
      else some (Declarations.addAll .empty (declaredFor d category uses)) := by
  rw [groupsOf_eq, declaredFor_eq, StyleGroups.get?_ofAdditions]

/-- A use that declares nothing could as well not be there. -/
theorem groupsOf_without (d : Draft) (ahead behind : List StyleUse) {u : StyleUse}
    (h : u.declarations d .normal = []) :
    groupsOf d (ahead ++ u :: behind) = groupsOf d (ahead ++ behind) := by
  unfold groupsOf
  rw [List.foldl_append, List.foldl_append, List.foldl_cons, h, StyleGroups.add_nil]

/-- **What a use declares is in the group of its category**: for each property stands there what the
    use itself declares, or what a use behind it does. -/
theorem groupsOf_declares (d : Draft) (ahead behind : List StyleUse) {u : StyleUse}
    (h : u.declarations d .normal ≠ []) :
    ∃ group, (groupsOf d (ahead ++ u :: behind)).groups.get? u.key.category = some group ∧
      ∀ x ∈ u.declarations d .normal, ∃ y, group.get? x.property = some y ∧
        y.property = x.property ∧ ∃ u' ∈ u :: behind, u'.key.category = u.key.category ∧
          y ∈ u'.declarations d .normal := by
  have hdeclared : declaredFor d u.key.category (ahead ++ u :: behind) =
      declaredFor d u.key.category ahead ++ declaredFor d u.key.category (u :: behind) := by
    unfold declaredFor
    rw [List.filter_append, List.flatMap_append]
  have hown : ∀ x ∈ u.declarations d .normal, x ∈ declaredFor d u.key.category (u :: behind) :=
    fun x hx => List.mem_flatMap.mpr
      ⟨u, List.mem_filter.mpr ⟨List.mem_cons_self, decide_eq_true rfl⟩, hx⟩
  obtain ⟨x₀, hx₀⟩ := List.exists_mem_of_ne_nil _ h
  have hne : (declaredFor d u.key.category (ahead ++ u :: behind)).isEmpty = false := by
    rw [hdeclared]
    exact List.isEmpty_eq_false_iff.mpr
      (List.ne_nil_of_mem (List.mem_append_right _ (hown x₀ hx₀)))
  refine ⟨_, by rw [groupsOf_get?, hne, if_neg Bool.false_ne_true], fun x hx => ?_⟩
  have hsome : ((declaredFor d u.key.category (u :: behind)).reverse.find?
      fun y => y.property = x.property).isSome = true :=
    List.find?_isSome.mpr ⟨x, List.mem_reverse.mpr (hown x hx), decide_eq_true rfl⟩
  obtain ⟨y, hy⟩ := Option.isSome_iff_exists.mp hsome
  obtain ⟨u', hu', hmem⟩ := List.mem_flatMap.mp (List.mem_reverse.mp (List.mem_of_find?_eq_some hy))
  obtain ⟨hu', hcategory⟩ := List.mem_filter.mp hu'
  refine ⟨y, ?_, by simpa using List.find?_some hy, u', hu', by simpa using hcategory, hmem⟩
  rw [Declarations.get?_addAll, hdeclared, List.reverse_append, List.find?_append, hy]
  rfl

end ElementPlan

/-! ## 3. What an element line reports -/

/-- A finding about the code of an element line, or about a word of it without a style key. -/
def Finding.IsAbout (code : Text) (words : List Text) : Finding → Prop
  | .unknownElement c => c = code
  | .skippedElementWord word => word ∈ words ∧ Token.isPlain word = true
  | .invalidAria _ => ∃ word ∈ words, ∃ value, keptPair? word = some ("aria".toList, value)
  | .literalAttribute key =>
    StyleKey.ofToken? key = none ∧ ∃ word ∈ words, ∃ value, keptPair? word = some (key, value)
  | _ => False

theorem Features.read_about (code : Text) (words : List Text) (line : Option Int) :
    ∀ x ∈ (read code words line).diagnostics, x.finding.IsAbout code words := by
  have hword : ∀ (f : Features) (word : Text), ∀ x ∈ (f.addWord line word).diagnostics,
      x.finding = .skippedElementWord word ∧ Token.isPlain word = true := by
    intro f word
    unfold addWord
    split
    · exact List.forall_mem_nil _
    · rename_i hselector
      split
      · exact List.forall_mem_nil _
      · rename_i h
        unfold addPlain
        split
        · exact List.forall_mem_nil _
        · exact forall_report ⟨rfl, by simp [Token.isPlain, hselector, h]⟩
  unfold read
  simp only [diagnostics_bind, diagnostics_pure, List.append_nil]
  refine List.forall_mem_append.mpr ⟨?_, fun x hx => ?_⟩
  · unfold ofCode
    split
    · exact List.forall_mem_nil _
    · split
      · exact List.forall_mem_nil _
      · exact forall_report rfl
  · obtain ⟨word, hmem, hfinding, hplain⟩ := (along_foldlM hword words _).exists_of_mem hx
    rw [hfinding]
    exact ⟨hmem, hplain⟩

/-- **All that an element line reports, undeclared variables apart, is about its code or about words
    without a style key.** -/
theorem ElementPlan.read_about (d : Draft) (line : Line) (code : Text) (words : List Text)
    (hasChildren : Bool) :
    ∀ x ∈ (ElementPlan.read d line code words hasChildren).diagnostics,
      x.isUndeclared = true ∨ x.finding.IsAbout code words := by
  have hpair : ∀ (tag : Text) (a : Attire) (pair : Text × Text), pair ∈ Features.pairsOf words →
      ∀ x ∈ (a.addPair d tag line.number pair).diagnostics,
        x.isUndeclared = true ∨ x.finding.IsAbout code words := by
    intro tag a pair hpair
    obtain ⟨word, hword, value, hkept⟩ := Features.mem_words_of_mem_pairsOf hpair
    unfold Attire.addPair
    dsimp only
    split
    · exact List.forall_mem_nil _
    · split
      · exact List.forall_mem_nil _
      · split
        · rename_i haria
          unfold Attire.addAria
          split
          · exact List.forall_mem_nil _
          · exact forall_report (.inr ⟨word, hword, value, haria ▸ hkept⟩)
        · split
          · rename_i key hkey
            rw [diagnostics_bind, diagnostics_pure, List.append_nil]
            intro x hx
            rw [StyleUse.diagnostics_resolve d .normal ⟨key, _, _⟩,
              ← StyleUse.filter_undeclared] at hx
            exact .inl (List.mem_filter.mp hx).2
          · rename_i hnone
            exact forall_report (.inr ⟨hnone, word, hword, value, hkept⟩)
  unfold ElementPlan.read
  simp only [diagnostics_bind, diagnostics_pure, List.append_nil, Features.read_pairs]
  refine List.forall_mem_append.mpr ⟨fun x hx => .inr (Features.read_about _ _ _ x hx), ?_⟩
  intro x hx
  obtain ⟨pair, hmem, h⟩ := (along_foldlM (Q := fun pair x => pair ∈ Features.pairsOf words →
    x.isUndeclared = true ∨ x.finding.IsAbout code words)
    (fun a pair x hx hmem => hpair _ a pair hmem x hx) _ _).exists_of_mem hx
  exact h hmem

/-! ## 4. A style word on its line -/

/-- What comes of a use on an element line with other uses ahead of it and behind it, if `plan` is
    what reading the line in a draft gives. -/
structure StyleUse.Settled (d : Draft) (ahead behind : List StyleUse) (u : StyleUse)
    (plan : Reported ElementPlan) : Prop where
  /-- A use with a value that its key accepts declares something, and it stands in the group of its
      category, unless a use behind it has taken its place. -/
  accepted : u.isAccepted = true → u.declarations d .normal ≠ [] ∧ ∃ group,
    (ElementPlan.groupsOf d (ahead ++ u :: behind)).groups.get? u.key.category = some group ∧
      group.text ∈ plan.value.styles ∧
      ∀ x ∈ u.declarations d .normal, ∃ y, group.get? x.property = some y ∧
        y.property = x.property ∧ ∃ u' ∈ u :: behind, u'.key.category = u.key.category ∧
          y ∈ u'.declarations d .normal
  /-- A use with any other value declares nothing, and the styles are those of the other uses. -/
  refused : u.isAccepted = false → u.declarations d .normal = [] ∧
    plan.value.styles = (ElementPlan.groupsOf d (ahead ++ behind)).texts
  /-- In both cases it reports its references to variables without a value. -/
  reports : plan.diagnostics.filter Diagnostic.isUndeclared =
    ahead.flatMap (undeclared d.isDeclared) ++ u.undeclared d.isDeclared ++
      behind.flatMap (undeclared d.isDeclared)
  /-- These are warnings for the line of the use. -/
  warns : ∀ x ∈ u.undeclared d.isDeclared, x.isWarning = true ∧ x.line = u.line
  /-- So it is seen in one of the two ways exactly if its key accepts the value or it refers to such
      a variable. -/
  seen : u.declarations d .normal ≠ [] ∨ u.undeclared d.isDeclared ≠ [] ↔
    u.isAccepted = true ∨ ∃ name ∈ u.references, d.isDeclared name = false

/-- Every use of an element line is settled by it. -/
theorem ElementPlan.settled (d : Draft) {line : Line} {code : Text} {words : List Text}
    {hasChildren : Bool} {ahead behind : List StyleUse} {u : StyleUse}
    (h : uses line code words hasChildren = ahead ++ u :: behind) :
    u.Settled d ahead behind (ElementPlan.read d line code words hasChildren) where
  accepted haccepted := by
    have hne : u.declarations d .normal ≠ [] := by
      intro hnil
      rw [(u.declarations_eq_nil_iff d .normal).mp hnil] at haccepted
      cases haccepted
    obtain ⟨group, hget, hgroup⟩ := groupsOf_declares d ahead behind hne
    refine ⟨hne, group, hget, ?_, hgroup⟩
    rw [read_styles_uses, h]
    exact List.mem_map_of_mem (Table.mem_values_of_get? hget)
  refused hrefused := by
    have hnil := (u.declarations_eq_nil_iff d .normal).mpr hrefused
    refine ⟨hnil, ?_⟩
    rw [read_styles_uses, h, groupsOf_without d ahead behind hnil]
  reports := by
    rw [read_undeclared, h, List.flatMap_append, List.flatMap_cons, List.append_assoc]
  warns x hx := by
    obtain ⟨name, _, rfl⟩ := List.mem_map.mp hx
    exact ⟨rfl, rfl⟩
  seen := by
    refine or_congr ?_ ?_
    · rw [ne_eq, u.declarations_eq_nil_iff d, Bool.not_eq_false]
    · simp [StyleUse.undeclared]

/-- **A word with a style key is a use of that key**, unless it is the target of a link. -/
theorem ElementPlan.exists_uses {line : Line} {code word key value : Text}
    {before after : List Text} {hasChildren : Bool} {styleKey : StyleKey}
    (hword : Token.assignment? word = some (key, value))
    (hkey : StyleKey.ofToken? key = some styleKey)
    (hlink : ¬(key = "h" ∧ tagOf line code (before ++ word :: after) hasChildren = "a")) :
    ∃ ahead behind, uses line code (before ++ word :: after) hasChildren =
      ahead ++ ⟨styleKey, Token.unquote (StyleKey.valueOver key value after), line.number⟩ ::
        behind := by
  have hkept : keptPair? word = some (key, value) := by
    have hstyle : ∀ k ∈ (["cls", "class", "t", "text"] : List Text),
        StyleKey.ofToken? k = none := by
      decide
    rw [keptPair?, hword]
    refine Option.filter_some_pos ?_
    rw [Bool.not_eq_true', List.contains_eq_mem, decide_eq_false_iff_not]
    intro hmem
    rw [hstyle key hmem] at hkey
    cases hkey
  obtain ⟨ps, e⟩ := Features.exists_pairsOf_append before (word :: after)
  unfold uses
  rw [Features.read_pairs, e, Features.pairsOf, hkept, List.filterMap_append]
  refine ⟨_, _, congrArg _ (List.filterMap_cons_some ?_)⟩
  rw [Attire.use?, if_neg hlink, StyleUse.ofPair?, hkey]
  rfl

/-! ## 5. A line in its document -/

namespace Outline

/-- The state in which the later of some statements are added, which steps lead to. -/
theorem Styled.run_append {config : Config} {states : Table Text Text} {groups : List (List Text)}
    {o o' : Outline} (h : o.Styled config states groups) {above below : List Statement}
    (ok : o.run (above ++ below) = .ok o') :
    ∃ o₁ : Outline, o₁.run below = .ok o' ∧ o₁.draft.isDeclared = o.draft.isDeclared ∧
      (∀ m, Context.Steps ⟨o.draft, m⟩ ⟨o₁.draft, m⟩) ∧
      o₁.Styled config (above.foldl (Statement.statesAfter config) states)
        (groups ++ Statement.styleGroups config states above) := by
  induction above generalizing o states groups with
  | nil =>
    exact ⟨o, ok, rfl, fun m => .refl, by rw [Statement.styleGroups, List.append_nil]; exact h⟩
  | cons s above ih =>
    obtain ⟨o₂, hstep, hrun⟩ := bind_eq_ok.mp ok
    obtain ⟨o₁, hrest, hdeclared, hsteps, hstyled⟩ := ih (h.step hstep) hrun
    refine ⟨o₁, hrest, hdeclared.trans (step_takesIn hstep).isDeclared,
      fun m => (Context.steps_step m hstep).trans (hsteps m), ?_⟩
    rw [Statement.styleGroups, ← List.append_assoc]
    exact hstyled

end Outline

/-- What a compile makes of an element line: all that reading the line reports is among the
    diagnostics, and for each of its styles the element wears a class with a rule for it. -/
structure Passes.Realizes (p : Passes) (plan : Reported ElementPlan) (e : Element) : Prop where
  diagnostics : plan.diagnostics ⊆ p.result.diagnostics
  styles : ∀ t ∈ plan.value.styles, ∃ n ∈ e.classes, ∃ rule,
    (n, rule) ∈ p.afterBody.utilities.rules.entries ∧
      Style.canonical rule.declarations = Style.canonical t

/-- **A compile realizes each element line**, read in a draft on the way through the body, which has
    the variables of the document. -/
theorem Passes.realizes {config : Config} {source : Text} {above below : List Statement}
    {line : Line} {code : Text} {words : List Text} {opens : Bool} (hfit : config.TabsFit)
    (h : statementsOf config source = above ++ .element line code words opens :: below) :
    ∃ p media e d, run config source = .ok p ∧
      Context.Steps (.start config) ⟨p.afterDirectives, media⟩ ∧
      Context.Steps ⟨p.afterDirectives, media⟩ ⟨d, media⟩ ∧
      Context.Steps ⟨d, media⟩ ⟨p.afterBody, media⟩ ∧
      p.forest.labels[above.countP Statement.isElement]? = some e ∧
      d.isDeclared = p.afterBody.isDeclared ∧
      p.Realizes
        (ElementPlan.read d line code words (Statement.hasChildren line opens below)) e := by
  obtain ⟨p, ok, hstart⟩ := Passes.styled_afterDirectives hfit source
  obtain ⟨p', ok', hrecords, hworn⟩ := Passes.styled hfit source
  obtain rfl : p = p' := Except.ok.inj (ok.symm.trans ok')
  obtain ⟨p', media, ok', _, hs₁, hs₂, _⟩ := Passes.steps hfit source
  obtain rfl : p = p' := Except.ok.inj (ok.symm.trans ok')
  obtain ⟨_, _, hbody⟩ := run_eq_ok ok
  obtain ⟨o, hrun, hfinish⟩ := bind_eq_ok.mp hbody
  rw [hstart.config] at hrun
  have hafter : p.afterBody = (Outline.finishFrom o.draft o.scope o.enclosing).2 :=
    congrArg Prod.snd (Except.ok.inj hfinish).symm
  have hdeclared : p.afterBody.isDeclared = p.afterDirectives.isDeclared := by
    rw [hafter, (Outline.finishFrom_takesIn o.draft o.scope o.enclosing).isDeclared]
    exact (Outline.run_takesIn hrun).isDeclared
  have hrun' : ({ draft := p.afterDirectives } : Outline).run
      (above ++ .element line code words opens :: below) = .ok o := by
    rw [← h]
    exact hrun
  obtain ⟨o₁, hrest, hsame, hsteps, hstyled⟩ := hstart.run_append hrun'
  obtain ⟨o₂, hstep, hbelow⟩ := bind_eq_ok.mp hrest
  obtain ⟨e₀, d', hadd, hnext⟩ := Outline.step_element_eq_ok hstep
  have hsettled := hstyled.settle line.indent
  have hget := documentStyles_getElem? h
  obtain ⟨e, he, hwears⟩ := exists_of_forall₂ hworn hget
  have hadded : o₂.draft = d' := by
    rw [hnext]
    cases opens <;> rfl
  refine ⟨p, media, e, (o₁.settle line.indent).draft, ok, hs₁.trans hs₂,
    (hsteps media).trans (Context.steps_closeDedented media line.indent _ _ _), ?_, he, ?_, ?_,
    fun t ht => ?_⟩
  · have hnow := Context.steps_addElement media hadd
    rw [← hadded] at hnow
    rw [hafter]
    exact (hnow.trans (Context.steps_run media hbelow)).trans
      (Context.steps_finishFrom media o.draft o.scope o.enclosing)
  · rw [hdeclared, ← hsame]
    exact (Outline.closeDedented_takesIn line.indent o₁.draft o₁.scope o₁.enclosing).isDeclared
  · -- what has been reported is not taken back
    obtain ⟨later, hlater, _⟩ := Outline.run_reports hbelow
    obtain ⟨last, hlast, _⟩ := Outline.finishFrom_eq o.draft o.scope o.enclosing
    have hall : p.result.diagnostics = d'.diagnostics ++ later ++ last := by
      rw [← hadded, ← hlater]
      exact congrArg Draft.diagnostics (hafter.trans hlast)
    rw [hall, Draft.addElement_diagnostics hadd, List.append_assoc, List.append_assoc]
    exact fun x hx => List.mem_append_right _ (List.mem_append_left _ hx)
  · rw [ElementPlan.read_styles_eq, hsettled.config, hsettled.states] at ht
    obtain ⟨n, hn, hbound⟩ := hwears t ht
    have hpiece : (⟨none, t⟩ : Directive.RulePiece) ∈ stylePieces (documentStyles config source) :=
      List.mem_map_of_mem (List.mem_flatten.mpr ⟨_, List.mem_of_getElem? hget, ht⟩)
    obtain ⟨⟨n', rule⟩, hrule, hform⟩ := hrecords.mem_formOrder.mp
      (mem_firstOccurrences.mpr (List.mem_map_of_mem hpiece))
    have hname : n' = n :=
      (hrecords.sound.exact.name_eq_iff (hrecords.sound.means _ hrule) hbound).mpr hform
    exact ⟨n, hn, rule, hname ▸ hrule, hform⟩

/-! ## 6. Style words -/

/-- **A style word takes effect if its key accepts the value, and it causes a warning if it refers
    to a variable without a value.** On every element line and in every draft, a word with a style
    key is a use of that key, unless it is the target of a link. If the key accepts the value, then
    the group of its category has what the use declares; if not, the element has the styles of the
    other uses. All that the line reports is about undeclared variables, those of each use in order,
    or about its code and words without a style key. In a compiled document the line is read in a
    draft on the way through the body; its element wears a class with a rule for each group, and the
    reports are among the diagnostics. So in a document without warnings the style words without
    effect are those whose key does not accept the value. -/
theorem style_words_settled {line : Line} {code word key value : Text} {before after : List Text}
    {hasChildren : Bool} {styleKey : StyleKey}
    (hword : Token.assignment? word = some (key, value))
    (hkey : StyleKey.ofToken? key = some styleKey)
    (hlink : ¬(key = "h" ∧
      ElementPlan.tagOf line code (before ++ word :: after) hasChildren = "a")) :
    let words := before ++ word :: after
    let u : StyleUse := ⟨styleKey, Token.unquote (StyleKey.valueOver key value after), line.number⟩
    let plan := fun d => ElementPlan.read d line code words hasChildren
    ∃ ahead behind, ElementPlan.uses line code words hasChildren = ahead ++ u :: behind ∧
      (∀ d, u.Settled d ahead behind (plan d) ∧
        ∀ x ∈ (plan d).diagnostics, x.isUndeclared = true ∨ x.finding.IsAbout code words) ∧
      ∀ (config : Config) (source : Text) (above below : List Statement) (opens : Bool),
        config.TabsFit →
        statementsOf config source = above ++ .element line code words opens :: below →
        Statement.hasChildren line opens below = hasChildren →
        ∃ p media e d, Passes.run config source = .ok p ∧
          Context.Steps (.start config) ⟨p.afterDirectives, media⟩ ∧
          Context.Steps ⟨p.afterDirectives, media⟩ ⟨d, media⟩ ∧
          Context.Steps ⟨d, media⟩ ⟨p.afterBody, media⟩ ∧
          p.forest.labels[above.countP Statement.isElement]? = some e ∧
          d.isDeclared = p.afterBody.isDeclared ∧ p.Realizes (plan d) e ∧
          (u.isAccepted = true → e ∈ p.result.root.children.labels) ∧
          (p.result.warnings = 0 → ∀ name ∈ u.references, p.afterBody.isDeclared name = true) := by
  intro words u plan
  obtain ⟨ahead, behind, huses⟩ := ElementPlan.exists_uses hword hkey hlink
  refine ⟨ahead, behind, huses, fun d =>
    ⟨ElementPlan.settled d huses, ElementPlan.read_about d line code words hasChildren⟩, ?_⟩
  rintro config source above below opens hfit h rfl
  obtain ⟨p, media, e, d, ok, hs, hd, hd', he, hdeclared, hrealizes⟩ := Passes.realizes hfit h
  have hsettled := ElementPlan.settled d huses
  refine ⟨p, media, e, d, ok, hs, hd, hd', he, hdeclared, hrealizes, fun haccepted => ?_,
    fun hclean name hname => ?_⟩
  · obtain ⟨_, group, _, hgroup, _⟩ := hsettled.accepted haccepted
    obtain ⟨n, hn, _⟩ := hrealizes.styles _ hgroup
    exact Forest.mem_labels_prune (List.mem_of_getElem? he)
      (Element.hasAttributes_of_mem_classes hn)
  · by_contra hnot
    rw [← hdeclared, Bool.not_eq_true] at hnot
    have hreported : (⟨.undeclaredVariable name, line.number⟩ : Diagnostic) ∈
        u.undeclared d.isDeclared :=
      List.mem_map_of_mem (List.mem_filter.mpr ⟨hname, by rw [hnot]; rfl⟩)
    have hmem : (⟨.undeclaredVariable name, line.number⟩ : Diagnostic) ∈
        (plan d).diagnostics.filter Diagnostic.isUndeclared := by
      rw [hsettled.reports]
      exact List.mem_append_left _ (List.mem_append_right _ hreported)
    have hwarning := List.mem_filter.mpr
      ⟨hrealizes.diagnostics (List.mem_filter.mp hmem).1, (hsettled.warns _ hreported).1⟩
    rw [List.eq_nil_of_length_eq_zero hclean] at hwarning
    cases hwarning

/-- An animation that goes on over a plain word, with a style word behind it that is passed over. -/
theorem style_words_settled_animation :
    let source : Text := "p t=x anim=fade 1s dir=diagonal"
    let line : Line := ⟨1, 0, source⟩
    let words : List Text := ["t=x", "anim=fade", "1s", "dir=diagonal"]
    let u : StyleUse := ⟨.animation, "fade 1s", some 1⟩
    Token.assignment? "anim=fade" = some ("anim".toList, "fade".toList) ∧
      StyleKey.ofToken? "anim" = some .animation ∧
      ¬(("anim" : Text) = "h" ∧ ElementPlan.tagOf line "p" words false = "a") ∧
      (Config.default).TabsFit ∧
      statementsOf .default source = [] ++ .element line "p" words false :: [] ∧
      u.isAccepted = true ∧
      ∃ ahead behind p e d, ElementPlan.uses line "p" words false = ahead ++ u :: behind ∧
        u.Settled d ahead behind (ElementPlan.read d line "p" words false) ∧
        Passes.run .default source = .ok p ∧
        p.Realizes (ElementPlan.read d line "p" words false) e ∧
        e ∈ p.result.root.children.labels := by
  intro source line words u
  have hword : Token.assignment? "anim=fade" = some ("anim".toList, "fade".toList) := by decide
  have hkey : StyleKey.ofToken? "anim" = some .animation := by decide
  have hlink : ¬(("anim" : Text) = "h" ∧ ElementPlan.tagOf line "p" words false = "a") := by
    rintro ⟨h, _⟩
    exact absurd h (by decide)
  have hstatements : statementsOf .default source = [] ++ .element line "p" words false :: [] := by
    decide +kernel
  have hfit : (Config.default).TabsFit := by decide
  have haccepted : u.isAccepted = true := by decide
  obtain ⟨ahead, behind, huses, hline, hdocument⟩ :=
    @style_words_settled line "p" "anim=fade" "anim" "fade" ["t=x"] ["1s", "dir=diagonal"] false
      .animation hword hkey hlink
  obtain ⟨p, media, e, d, ok, _, _, _, _, _, hrealizes, hkept, _⟩ :=
    hdocument .default source [] [] false hfit hstatements rfl
  exact ⟨hword, hkey, hlink, hfit, hstatements, haccepted, ahead, behind, p, e, d, huses,
    (hline d).1, ok, hrealizes, hkept haccepted⟩

/-- A direction that is none: the element has no class, the stylesheet has no rule, and nothing is
    reported. -/
theorem style_word_passed_over :
    let u : StyleUse := ⟨.direction, "diagonal", some 1⟩
    ElementPlan.uses ⟨1, 0, "p t=x dir=diagonal"⟩ "p" ["t=x", "dir=diagonal"] false = [u] ∧
      u.isAccepted = false ∧
      (Passes.run .default "p t=x dir=diagonal").map (fun p =>
        (p.forest.labels.map Element.classes, p.afterBody.utilities.rules.entries,
          p.result.diagnostics)) = .ok ([[]], [], []) := by
  decide +kernel

end OutlineMarkup
