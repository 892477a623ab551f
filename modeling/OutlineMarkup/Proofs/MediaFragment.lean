/-
  File:      OutlineMarkup/Proofs/MediaFragment.lean
  Subject:   What a media directive at the top of a document comes to.

  Each line of the directive is read on its own. What it declares is put together by category
  (`groupsOn`), and all groups of a line are written for its selector (`selectorOf?`). The pieces of
  the lines, one after the other, make the rules (`Records`): one for each canonical form.

  * `value_mediaLine`, `mediaLine_emptyRules`: what one line contributes, and what it reports;
  * `firstOccurrences_writtenFor`: the selectors of a rule, from the lines that have its form;
  * **`media_fragment_of_lines`**: the fragment of a media directive.
-/
import OutlineMarkup.Proofs.Cascade
import OutlineMarkup.Proofs.References

namespace OutlineMarkup

namespace Directive

/-! ## 1. One line -/

/-- The selector that a line of a media directive is written for: that of its first word, unless
    this is an assignment. -/
def selectorOf? (line : Line) : Option Text :=
  ((contentTokens line).head?.filter fun word => (Token.assignment? word).isNone).map ruleSelector

/-- What a line of a media directive declares, by category. The categories stand in the order in
    which something is first declared under them. -/
def groupsOn (d : Draft) (line : Line) : List (List Declaration) :=
  let uses := (mediaLineUses line).filter StyleUse.isAccepted
  (uses.map fun u => u.key.category).eraseDups.map fun category =>
    Declaration.merged
      ((uses.filter fun u => u.key.category = category).flatMap (StyleUse.declarations d .forced))

/-- The canonical forms of the groups of a line. -/
def formsOn (d : Draft) (line : Line) : List Text :=
  (groupsOn d line).map fun group => Style.canonical (Declaration.render group)

theorem important_of_mem_groupsOn {d : Draft} {line : Line} {group : List Declaration}
    (h : group ∈ groupsOn d line) : ∀ x ∈ group, x.important = true := by
  intro x hx
  obtain ⟨category, _, rfl⟩ := List.mem_map.mp h
  obtain ⟨u, _, hu⟩ := List.mem_flatMap.mp (Declaration.mem_of_mem_merged hx)
  exact StyleUse.important_of_forced hu

theorem groupsOn_of_nil (d : Draft) {line : Line} (h : contentTokens line = []) :
    groupsOn d line = [] := by
  have huses : mediaLineUses line = [] := by
    unfold mediaLineUses
    rw [h]
  rw [groupsOn, huses]
  rfl

/-- The words of a line declare its groups. -/
theorem texts_resolveWords (d : Draft) (line : Line) {first : Text} {rest : List Text}
    (hwords : contentTokens line = first :: rest) :
    (StyleGroups.ofAdditions
        (resolveWords d .forced line.number (splitSelector first rest).2).value).texts =
      (groupsOn d line).map Declaration.render := by
  have huses : mediaLineUses line = usesOf line.number (splitSelector first rest).2 := by
    unfold mediaLineUses
    rw [hwords]
  rw [groupsOn, huses, value_resolveWords, StyleGroups.texts_ofAdditions, List.map_map]
  generalize usesOf line.number (splitSelector first rest).2 = uses
  have hall : ((uses.filter StyleUse.isAccepted).map fun u =>
      (u.key.category, u.declarations d .forced)).filter (fun x => !x.2.isEmpty) =
        (uses.filter StyleUse.isAccepted).map fun u =>
          (u.key.category, u.declarations d .forced) := by
    refine List.filter_eq_self.mpr fun x hx => ?_
    obtain ⟨u, hu, rfl⟩ := List.mem_map.mp hx
    have haccepted := (List.mem_filter.mp hu).2
    rw [Bool.not_eq_true', List.isEmpty_eq_false_iff]
    intro hnil
    rw [(u.declarations_eq_nil_iff d .forced).mp hnil] at haccepted
    cases haccepted
  rw [hall, List.map_map]
  refine List.map_congr_left fun category _ => ?_
  rw [StyleGroups.addedTo, List.filter_map, List.flatMap_map]
  rfl

/-- **A line makes one piece for each of its groups**, all for its selector. -/
theorem value_mediaLine (d : Draft) (line : Line) :
    (mediaLine d line).value =
      (groupsOn d line).map fun group => ⟨selectorOf? line, Declaration.render group⟩ := by
  unfold mediaLine
  split
  · rename_i hnil
    rw [groupsOn_of_nil d hnil]
    rfl
  · rename_i first rest hwords
    have hselector : (splitSelector first rest).1 = selectorOf? line := by
      unfold splitSelector selectorOf?
      rw [hwords]
      cases h : (Token.assignment? first).isSome with
      | true => simp [Option.filter_some, Option.isNone_eq_false_iff.mpr h]
      | false => simp [Option.filter_some, Option.isSome_eq_false_iff.mp h]
    have hpieces : (StyleGroups.ofAdditions
        (resolveWords d .forced line.number (splitSelector first rest).2).value).texts.map
          (fun t => (⟨(splitSelector first rest).1, t⟩ : RulePiece)) =
        (groupsOn d line).map fun group => ⟨selectorOf? line, Declaration.render group⟩ := by
      rw [texts_resolveWords d line hwords, List.map_map, hselector]
      rfl
    simp only [Reported.value_bind]
    split
    · exact hpieces
    · exact hpieces

/-- What is reported of a line that has words and declares nothing. -/
def emptyRuleWarning (line : Line) : Diagnostic := ⟨.emptyRule line.text, line.number⟩

/-- Whether a line has words and declares nothing. -/
def isVoid (d : Draft) (line : Line) : Bool :=
  !(contentTokens line).isEmpty && (groupsOn d line).isEmpty

/-- **A line is reported once if it has words and declares nothing**, and else it is not. -/
theorem mediaLine_emptyRules (d : Draft) (line : Line) :
    (mediaLine d line).diagnostics.filter (Diagnostic.isUnder "empty-directive-rule") =
      if isVoid d line then [emptyRuleWarning line] else [] := by
  unfold mediaLine isVoid
  split
  · rename_i hnil
    rw [hnil]
    rfl
  · rename_i first rest hwords
    have hquiet := filter_isUnder_resolveWords "empty-directive-rule" (by decide) d .forced
      line.number (splitSelector first rest).2
    have hgroups : (StyleGroups.ofAdditions
        (resolveWords d .forced line.number (splitSelector first rest).2).value).isEmpty =
          (groupsOn d line).isEmpty := by
      have h := congrArg List.isEmpty (texts_resolveWords d line hwords)
      simpa [StyleGroups.texts, StyleGroups.isEmpty, Table.isEmpty, Table.values] using h
    have hvoid : (!(contentTokens line).isEmpty && (groupsOn d line).isEmpty) =
        (groupsOn d line).isEmpty := by
      rw [hwords]
      rfl
    rw [hvoid, ← hgroups]
    simp only [Reported.diagnostics_bind, List.filter_append, hquiet, List.nil_append]
    split
    · rename_i hempty
      rw [StyleGroups.ofAdditions, if_pos hempty]
      rfl
    · rename_i hne
      rw [StyleGroups.ofAdditions, if_neg hne]
      rfl

/-! ## 2. All lines -/

end Directive

section Dups

variable {α : Type} [BEq α] [LawfulBEq α] {xs ys : List α}

theorem eraseDups_eq_nil_iff : xs.eraseDups = [] ↔ xs = [] := by
  simp only [List.eq_nil_iff_forall_not_mem, List.mem_eraseDups]

theorem eraseDups_concat_congr (h : xs.eraseDups = ys.eraseDups) (x : α) :
    (xs ++ [x]).eraseDups = (ys ++ [x]).eraseDups := by
  have hmem : x ∈ xs ↔ x ∈ ys := by rw [← List.mem_eraseDups, h, List.mem_eraseDups]
  by_cases hx : x ∈ xs
  · rw [eraseDups_concat_of_mem hx, eraseDups_concat_of_mem (hmem.mp hx), h]
  · rw [eraseDups_concat_of_not_mem hx, eraseDups_concat_of_not_mem (mt hmem.mpr hx), h]

/-- To add an element several times is to add it once. -/
theorem eraseDups_append_of_forall_eq {x : α} (hne : ys ≠ []) (h : ∀ y ∈ ys, y = x) :
    (xs ++ ys).eraseDups = (xs ++ [x]).eraseDups := by
  induction ys using List.reverseRecOn with
  | nil => exact absurd rfl hne
  | append_singleton ys y ih =>
    obtain rfl : y = x := h y (by simp)
    by_cases hys : ys = []
    · rw [hys, List.nil_append]
    · have hall : ∀ z ∈ ys, z = y := fun z hz => h z (List.mem_append_left _ hz)
      obtain ⟨z, hz⟩ := List.exists_mem_of_ne_nil ys hys
      have hy : y ∈ xs ++ ys := List.mem_append_right _ (hall z hz ▸ hz)
      rw [← List.append_assoc, eraseDups_concat_of_mem hy, ih hys hall]

end Dups

namespace Directive

section Lines

variable (d : Draft) (lines : List Line)

theorem value_mediaPieces :
    (mediaPieces d lines).value = lines.flatMap fun line => (mediaLine d line).value := by
  unfold mediaPieces
  simp only [Reported.value_bind, Reported.value_pure, Reported.value_mapM]
  rfl

/-- The forms of the pieces are those of the lines, one after the other. -/
theorem form_mediaPieces :
    (mediaPieces d lines).value.map RulePiece.form = lines.flatMap (formsOn d) := by
  rw [value_mediaPieces, List.map_flatMap]
  refine List.flatMap_congr fun line _ => ?_
  rw [value_mediaLine, List.map_map]
  rfl

theorem mediaPieces_emptyRules :
    (mediaPieces d lines).diagnostics.filter (Diagnostic.isUnder "empty-directive-rule") =
      (lines.filter (isVoid d)).map emptyRuleWarning := by
  unfold mediaPieces
  rw [Reported.diagnostics_bind, Reported.diagnostics_pure, List.append_nil,
    Reported.filter_mapM (mediaLine_emptyRules d)]
  induction lines with
  | nil => rfl
  | cons line lines ih =>
    rw [List.flatMap_cons, ih]
    cases h : isVoid d line with
    | true => rw [List.filter_cons_of_pos h]; rfl
    | false => rw [List.filter_cons_of_neg (by simp [h])]; rfl

/-- A line is written for its selector under the forms that it has. -/
theorem mem_writtenFor_mediaLine (line : Line) {form t : Text} :
    t ∈ writtenFor (mediaLine d line).value form ↔
      form ∈ formsOn d line ∧ selectorOf? line = some t := by
  rw [mem_writtenFor]
  constructor
  · rintro ⟨_, q, hq, hselector, rfl⟩
    rw [value_mediaLine] at hq
    obtain ⟨group, hgroup, rfl⟩ := List.mem_map.mp hq
    exact ⟨List.mem_map_of_mem hgroup, hselector⟩
  · rintro ⟨hform, hselector⟩
    obtain ⟨group, hgroup, rfl⟩ := List.mem_map.mp hform
    have hq : (⟨selectorOf? line, Declaration.render group⟩ : RulePiece) ∈
        (mediaLine d line).value := by
      rw [value_mediaLine]
      exact List.mem_map_of_mem hgroup
    refine ⟨fun hnil => ?_, _, hq, hselector, rfl⟩
    exact mediaLine_selector_ne_nil d line _ hq (hnil ▸ hselector)

/-- **The selectors of a rule are those of the lines that have its form**, each once. -/
theorem firstOccurrences_writtenFor (form : Text) :
    firstOccurrences (writtenFor (mediaPieces d lines).value form) =
      ((lines.filter fun line => form ∈ formsOn d line).filterMap selectorOf?).eraseDups := by
  rw [firstOccurrences_eq_eraseDups, value_mediaPieces]
  -- from the end: a line that has the form adds its selector once for each group of that form
  induction lines using List.reverseRecOn with
  | nil => rfl
  | append_singleton lines line ih =>
    have hmem : ∀ t, t ∈ writtenFor (mediaLine d line).value form ↔
        form ∈ formsOn d line ∧ selectorOf? line = some t :=
      fun t => mem_writtenFor_mediaLine d line
    rw [List.flatMap_append, List.flatMap_singleton, writtenFor_append, List.filter_append,
      List.filterMap_append]
    by_cases hform : form ∈ formsOn d line
    · rw [List.filter_cons_of_pos (by simpa using hform), List.filter_nil]
      cases hselector : selectorOf? line with
      | none =>
        have hnone : writtenFor (mediaLine d line).value form = [] :=
          List.eq_nil_iff_forall_not_mem.mpr fun t ht => by
            cases hselector.symm.trans ((hmem t).mp ht).2
        rw [hnone, List.filterMap_cons_none hselector, List.append_nil, List.filterMap_nil,
          List.append_nil, ih]
      | some s =>
        have hs : s ∈ writtenFor (mediaLine d line).value form := (hmem s).mpr ⟨hform, hselector⟩
        have hall : ∀ t ∈ writtenFor (mediaLine d line).value form, t = s := fun t ht =>
          (Option.some.inj (hselector.symm.trans ((hmem t).mp ht).2)).symm
        rw [List.filterMap_cons_some hselector, List.filterMap_nil,
          eraseDups_append_of_forall_eq (List.ne_nil_of_mem hs) hall]
        exact eraseDups_concat_congr ih s
    · have hnone : writtenFor (mediaLine d line).value form = [] :=
        List.eq_nil_iff_forall_not_mem.mpr fun t ht => hform ((hmem t).mp ht).1
      rw [hnone, List.filter_cons_of_neg (by simpa using hform), List.append_nil, List.filter_nil,
        List.filterMap_nil, List.append_nil, ih]

end Lines

/-! ## 3. The fragment -/

/-- The text of a rule is that of the first group with its form. -/
theorem Records.group_eq {d : Draft} {lines : List Line} {s : RuleBlock × ClassRegistry}
    (h : Records (mediaPieces d lines).value s) {e : Text × Rule} (he : e ∈ s.1.rules.entries) :
    ((lines.flatMap (groupsOn d)).find? fun group =>
      Style.canonical (Declaration.render group) = e.2.form).map Declaration.render =
        some e.2.declarations := by
  have hpieces : (mediaPieces d lines).value.map RulePiece.declarations =
      (lines.flatMap (groupsOn d)).map Declaration.render := by
    rw [value_mediaPieces, List.map_flatMap, List.map_flatMap]
    refine List.flatMap_congr fun line _ => ?_
    rw [value_mediaLine, List.map_map]
    rfl
  have hfind : ∀ {α : Type} (f : α → Text) (xs : List α),
      (xs.find? fun x => Style.canonical (f x) = e.2.form).map f =
        (xs.map f).find? fun t => Style.canonical t = e.2.form := fun f xs => by
    rw [List.find?_map]
    rfl
  rw [hfind, ← hpieces, ← hfind]
  exact h.text e he

/-- **A media directive says exactly what its lines say**, in every context of a compile. It adds a
    fragment unless no line declares anything. The fragment has one rule for each canonical form
    among the groups of the lines, in the order in which the forms come up, under the class of the
    form. The text of a rule is that of the first group with its form, and all declarations of the
    group are important. Its selectors are those of the lines that have a group with its form, each
    once and in order. A line with words that declares nothing is reported as empty, and no other
    line is. -/
theorem media_fragment_of_lines {config : Config} {c : Context}
    (hc : Context.Steps (.start config) c) {block : Block} {query : Text}
    (hkind : block.header.kind = .media query) :
    let d := c.draft
    let groups := block.lines.flatMap (groupsOn d)
    ∃ rules classes found,
      mediaRules d block.lines =
        .ok (rules, { d with classes, diagnostics := d.diagnostics ++ found }) ∧
      d.addBlock block =
        .ok { d with
          classes
          diagnostics := d.diagnostics ++ found
          fragments := d.fragments ++ if groups = [] then [] else [rules.renderMedia query] } ∧
      rules.rules.entries.map (fun e => e.2.form) = (block.lines.flatMap (formsOn d)).eraseDups ∧
      (∀ e ∈ rules.rules.entries,
        classes.nameOf? e.2.form = some e.1 ∧
        (∃ group, groups.find? (fun g => Style.canonical (Declaration.render g) = e.2.form) =
            some group ∧
          e.2.declarations = Declaration.render group ∧ ∀ x ∈ group, x.important = true) ∧
        e.2.selectors =
          ((block.lines.filter fun line => e.2.form ∈ formsOn d line).filterMap
            selectorOf?).eraseDups) ∧
      found.filter (Diagnostic.isUnder "empty-directive-rule") =
        (block.lines.filter (isVoid d)).map emptyRuleWarning := by
  intro d groups
  obtain ⟨rules, d', ok, _⟩ := mediaRules_ok d block.lines
  obtain ⟨hfold, hd'⟩ := mediaRules_eq_ok ok
  have hexact : d.classes.Exact := (Context.Steps.sound hc (Context.sound_start config)).exact
  have hrecords : Records (mediaPieces d block.lines).value (rules, d'.classes) :=
    (records_empty hexact).foldlM hfold
  have horder : rules.rules.entries.map (fun e => e.2.form) =
      (block.lines.flatMap (formsOn d)).eraseDups := by
    rw [hrecords.order, formOrder, firstOccurrences_eq_eraseDups, form_mediaPieces]
  -- there are rules if there are forms, and there are forms if there are groups
  have hempty : rules.isEmpty = true ↔ groups = [] := by
    have hforms : block.lines.flatMap (formsOn d) =
        groups.map fun group => Style.canonical (Declaration.render group) := by
      rw [List.map_flatMap]
      rfl
    rw [RuleBlock.isEmpty, Table.isEmpty, List.isEmpty_iff, ← List.map_eq_nil_iff, horder,
      eraseDups_eq_nil_iff, hforms, List.map_eq_nil_iff]
  refine ⟨rules, d'.classes, (mediaPieces d block.lines).diagnostics, ?_, ?_, horder,
    fun e he => ⟨?_, ?_, ?_⟩, mediaPieces_emptyRules d block.lines⟩
  · rw [ok, hd']
    rfl
  · have hadd : d.addBlock block = d.addMedia query block.lines := by
      unfold Draft.addBlock
      rw [hkind]
    rw [hadd, Draft.addMedia, ok]
    by_cases h : groups = []
    · rw [if_pos h, List.append_nil]
      exact congrArg Except.ok ((if_pos (hempty.mpr h)).trans hd')
    · rw [if_neg h]
      refine congrArg Except.ok ((if_neg (mt hempty.mp h)).trans ?_)
      rw [hd']
      rfl
  · exact hrecords.sound.exact.nameOf?_eq_some.mpr (hrecords.sound.means e he)
  · obtain ⟨group, hfind, htext⟩ := Option.map_eq_some_iff.mp (hrecords.group_eq he)
    obtain ⟨line, _, hgroup⟩ := List.mem_flatMap.mp (List.mem_of_find?_eq_some hfind)
    exact ⟨group, hfind, htext.symm, important_of_mem_groupsOn hgroup⟩
  · rw [hrecords.selectors e he, firstOccurrences_writtenFor]

/-- A context in which one of the forms already has a class. The second line declares a group of the
    first one in another order and shares no other, the third one has no selector, the fourth one
    declares nothing, and the last one comes back to a selector and a form. -/
theorem media_fragment_of_lines_shared :
    let d : Draft := { Draft.empty .default with
      classes := (Draft.empty .default).classes.after ["margin: 0;", "padding: 2px;"]
      utilities := ⟨⟨[("n-ha23z8", ⟨"margin: 0;", []⟩), ("n-behi03", ⟨"padding: 2px;", []⟩)]⟩⟩ }
    let block : Block := ⟨⟨"@mobile", .media "(max-width: 600px)"⟩, 1,
      [⟨2, 2, ".a pad=8 gap=4 anim=fade 2s"⟩, ⟨3, 2, "c gap=4 zz=1 pad=8"⟩,
        ⟨4, 2, "pad=2 anim=fade 2s"⟩, ⟨5, 2, ".b word zz=1"⟩, ⟨6, 2, "// pad=2"⟩,
        ⟨7, 2, ".a pad=2 pad=4 gap=4 pad=8"⟩, ⟨8, 0, "\x7d"⟩], true⟩
    Context.Steps (.start .default) ⟨d, []⟩ ∧
    block.header.kind = .media "(max-width: 600px)" ∧
    ∃ (rules : RuleBlock) (classes : ClassRegistry) (found : List Diagnostic),
      d.addBlock block =
        .ok { d with
          classes
          diagnostics := found
          fragments := [rules.renderMedia "(max-width: 600px)"] } ∧
      rules.rules.entries.map (fun e => (e.2.declarations, e.2.selectors)) =
        ([⟨"padding: 8px !important; gap: 4px !important;", [".a", "div"]⟩,
          ⟨"animation: fade 2s ease-in-out forwards !important;", [".a"]⟩,
          ⟨"padding: 2px !important;", []⟩] : List (Text × List Text)) ∧
      found.filter (Diagnostic.isUnder "empty-directive-rule") =
        [⟨.emptyRule ".b word zz=1", some 5⟩] := by
  intro d block
  have hsteps : Context.Steps (.start .default) ⟨d, []⟩ := by
    have hfirst : Context.Step (.start .default) ⟨{ Draft.empty .default with
        classes := (Draft.empty .default).classes.after ["margin: 0;"]
        utilities := ⟨⟨[("n-ha23z8", ⟨"margin: 0;", []⟩)]⟩⟩ }, []⟩ :=
      @Context.Step.utility (.empty .default) _ [] "margin: 0;" "n-ha23z8" (by decide +kernel)
    exact .tail (.single hfirst)
      (@Context.Step.utility _ d [] "padding: 2px;" "n-behi03" (by decide +kernel))
  have hkind : block.header.kind = .media "(max-width: 600px)" := rfl
  obtain ⟨rules, classes, found, _, hadd, horder, hrules, hfound⟩ :=
    media_fragment_of_lines hsteps hkind
  let groups := block.lines.flatMap (groupsOn d)
  let ruleOf : Text → Text × List Text := fun form =>
    (((groups.find? fun g => Style.canonical (Declaration.render g) = form).map
        Declaration.render).getD [],
      ((block.lines.filter fun line => form ∈ formsOn d line).filterMap selectorOf?).eraseDups)
  have hall : rules.rules.entries.map (fun e => (e.2.declarations, e.2.selectors)) =
      (block.lines.flatMap (formsOn d)).eraseDups.map ruleOf := by
    rw [← horder, List.map_map]
    refine List.map_congr_left fun e he => ?_
    obtain ⟨_, ⟨group, hgroup, htext, _⟩, hselectors⟩ := hrules e he
    have hfind : groups.find? (fun g => Style.canonical (Declaration.render g) = e.2.form) =
        some group := hgroup
    simp only [Function.comp_apply, ruleOf, hfind, htext, hselectors, Option.map_some,
      Option.getD_some]
  refine ⟨hsteps, hkind, rules, classes, found, hadd.trans ?_, hall.trans ?_, hfound.trans ?_⟩
  · have hne : block.lines.flatMap (groupsOn d) ≠ [] := by decide +kernel
    rw [if_neg hne]
    rfl
  · decide +kernel
  · decide +kernel

end Directive

end OutlineMarkup
