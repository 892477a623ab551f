/-
  File:      OutlineMarkup/Proofs/InlineStyle.lean
  Subject:   What a media directive inside the element tree changes.

  Such a directive styles the element before it by the first of its lines that can (`stylingLine?`).
  The lines before that one may be read, and may report something, but they leave nothing behind.

  * `values_inlineDeclarations`: what the directive declares is what its styling line declares;
  * `addMediaRule_eq`: the rule of a class is added under a query unless it stands there already;
  * **`inline_media_changes`**: which lines are read, and all that changes.
-/
import OutlineMarkup.Proofs.Partition
import OutlineMarkup.Proofs.References

namespace OutlineMarkup

open Directive

namespace Draft

/-! ## 1. The line that styles -/

/-- Whether a line can style the element before it: it has an assignment, and its first word is no
    selector. -/
def canStyle (line : Line) : Bool :=
  (contentTokens line).head?.any (fun word => !Token.isSelector word) &&
    (contentTokens line).any fun word => (Token.assignment? word).isSome

/-- What a line declares for the element before it. -/
def styleOn (d : Draft) (line : Line) : List Declaration :=
  Declaration.merged ((mediaLineUses line).flatMap (StyleUse.declarations d .forced))

/-- The line that styles the element before it: the first one that can and declares something. -/
def stylingLine? (d : Draft) (lines : List Line) : Option Line :=
  lines.find? fun line => canStyle line && !(d.styleOn line).isEmpty

theorem important_of_mem_styleOn {d : Draft} {line : Line} {x : Declaration}
    (h : x ∈ d.styleOn line) : x.important = true := by
  obtain ⟨u, _, hu⟩ := List.mem_flatMap.mp (Declaration.mem_of_mem_merged h)
  exact StyleUse.important_of_forced hu

/-- The words that are read of a line that can style. -/
theorem inlineWords?_cases (line : Line) :
    (canStyle line = false ∧ inlineWords? line = none) ∨
      ∃ words, canStyle line = true ∧ inlineWords? line = some words ∧
        usesOf line.number words = mediaLineUses line := by
  unfold canStyle inlineWords? mediaLineUses
  cases contentTokens line with
  | nil => exact .inl ⟨rfl, rfl⟩
  | cons first rest =>
    dsimp only [List.head?_cons, Option.any_some]
    by_cases h : (Token.isSelector first ||
        !(first :: rest).any fun w => (Token.assignment? w).isSome) = true
    · refine .inl ⟨?_, if_pos h⟩
      rcases Bool.or_eq_true_iff.mp h with h | h
      · rw [h]
        rfl
      · rw [(Bool.not_eq_true' _).mp h, Bool.and_false]
    · refine .inr ⟨_, ?_, if_neg h, ?_⟩
      · rw [Bool.not_eq_true, Bool.or_eq_false_iff, Bool.not_eq_false'] at h
        rw [h.1, h.2]
        rfl
      · unfold splitSelector
        split
        · rfl
        · rfl

/-- **A directive declares what its styling line declares**, and nothing without one. -/
theorem values_inlineDeclarations (d : Draft) (lines : List Line) :
    (d.inlineDeclarations lines).value.values = ((d.stylingLine? lines).map d.styleOn).getD [] := by
  induction lines with
  | nil => rfl
  | cons line lines ih =>
    unfold inlineDeclarations stylingLine?
    rcases inlineWords?_cases line with ⟨hcan, hwords⟩ | ⟨words, hcan, hwords, huses⟩
    · rw [hwords, List.find?_cons_of_neg (by simp [hcan])]
      exact ih
    · have hvalues : (Declarations.addAll .empty
          ((resolveWords d .forced line.number words).value.flatMap Prod.snd)).values =
            d.styleOn line := by
        rw [Declarations.values_addAll, resolveWords_uses, huses]
        rfl
      have hempty : (Declarations.addAll .empty
          ((resolveWords d .forced line.number words).value.flatMap Prod.snd)).isEmpty =
            (d.styleOn line).isEmpty := by
        rw [← hvalues]
        simp [Table.isEmpty, Table.values]
      rw [hwords]
      simp only [Reported.value_bind, hempty]
      cases h : (d.styleOn line).isEmpty with
      | true =>
        rw [List.find?_cons_of_neg (by simp [h])]
        exact ih
      | false =>
        rw [List.find?_cons_of_pos (by simp [hcan, h])]
        exact hvalues

end Draft

/-! ## 2. What is added -/

namespace RuleBlock

variable {b : RuleBlock} {name : Text}

theorem add_of_contains (h : b.contains name = true) (declarations : Text) :
    b.add name declarations = b := by
  obtain ⟨rule, hrule⟩ := Option.isSome_iff_exists.mp h
  unfold add
  rw [Table.alter_eq_insert, hrule]
  exact congrArg mk (Table.insert_eq_self hrule)

theorem add_of_not_contains (h : b.contains name = false) (declarations : Text) :
    b.add name declarations =
      ⟨⟨b.rules.entries ++ [(name, ({ declarations := declarations } : Rule))]⟩⟩ := by
  have hkey : name ∉ b.rules.keys := Table.contains_eq_false_iff.mp h
  exact congrArg (fun entries => mk ⟨entries⟩) (Table.entries_alter_of_not_mem hkey)

end RuleBlock

/-- **A rule is added at the end of those under its query**, unless its class has one there. -/
theorem Draft.addMediaRule_eq (d : Draft) (query name declarations : Text) :
    let rules := (d.inlineMedia.get? query).getD .empty
    d.addMediaRule query name declarations =
      { d with
        inlineMedia :=
          if rules.contains name then d.inlineMedia
          else d.inlineMedia.insert query
            ⟨⟨rules.rules.entries ++ [(name, ({ declarations := declarations } : Rule))]⟩⟩ } := by
  intro rules
  unfold addMediaRule
  rw [Table.alter_eq_insert]
  refine congrArg (fun inlineMedia => { d with inlineMedia }) ?_
  cases h : rules.contains name with
  | true =>
    -- a rule stands in a block that is there
    have hquery : d.inlineMedia.get? query = some rules := by
      unfold rules at h ⊢
      cases hget : d.inlineMedia.get? query with
      | none =>
        rw [hget] at h
        cases h
      | some b => rfl
    rw [if_pos rfl]
    exact (congrArg (d.inlineMedia.insert query) (RuleBlock.add_of_contains h declarations)).trans
      (Table.insert_eq_self hquery)
  | false =>
    rw [if_neg Bool.false_ne_true]
    exact congrArg (d.inlineMedia.insert query) (RuleBlock.add_of_not_contains h declarations)

/-- A call finds the name of a form that has one, and binds a form that has none. -/
theorem ClassRegistry.classFor_nameOf? {r r' : ClassRegistry} {t name : Text}
    (ok : r.classFor t = .ok (name, r')) :
    let form := Style.canonical t
    (r.nameOf? form = some name ∧ r' = r) ∨
      (r.nameOf? form = none ∧ name ∉ r.names ∧
        r' = { r with bindings := r.bindings ++ [(form, name)] }) := by
  intro form
  obtain ⟨hne, hcases⟩ := classFor_cases ok
  cases h : r.nameOf? form with
  | some found =>
    have hfound : r.classFor t = .ok (found, r) := by
      unfold classFor
      dsimp only
      rw [if_neg (by simpa using hne), h]
    rw [ok] at hfound
    cases hfound
    exact .inl ⟨rfl, rfl⟩
  | none =>
    have hnew := nameOf?_eq_none_iff.mp h
    rcases hcases with ⟨hmem, _⟩ | ⟨_, hname, _, e⟩
    · exact absurd (List.mem_map_of_mem hmem) hnew
    · exact .inr ⟨rfl, hname, e⟩

/-! ## 3. The directive -/

namespace Directive

/-- Reading a directive takes its first line and the lines that it owns. -/
theorem collectAt_owns (breakpoints : Table Text Text) (unit : Int) {c : Cursor} {opening : Line}
    {following : List Line} (hc : c.ahead = opening :: following) :
    ∃ block body rest,
      collectAt breakpoints unit c = .ok (block, ⟨c.position + 1 + body.length, rest⟩) ∧
      following = body ++ rest ∧ Owns opening body rest block.terminated ∧
      ∃ rule, block.lines = rule ++ body :=
  ⟨_, _, _, collectAt_eq breakpoints unit hc,
    ((Reach.ofOpening opening).split_append_split following).symm,
    split_owns breakpoints unit opening following, lines_ofBody _ _ _ _⟩

end Directive

namespace Draft

section Style

variable {d : Draft} {lines : List Line} (query : Text)

theorem styleInline_of_none (h : d.stylingLine? lines = none) :
    d.styleInline query lines = .ok (none, d.absorb (d.inlineDeclarations lines)) := by
  have hvalues := d.values_inlineDeclarations lines
  rw [h] at hvalues
  have hempty : (d.inlineDeclarations lines).value.isEmpty = true :=
    List.isEmpty_iff.mpr (List.map_eq_nil_iff.mp hvalues)
  exact if_pos hempty

/-- A directive with a styling line gives the class of what this line declares. -/
theorem styleInline_of_some {line : Line} (h : d.stylingLine? lines = some line) :
    let style := Declaration.render (d.styleOn line)
    ∃ c classes, d.classes.classFor style = .ok (c, classes) ∧
      d.styleInline query lines =
        .ok (some c, addMediaRule { d.absorb (d.inlineDeclarations lines) with classes }
          query c style) := by
  intro style
  have hvalues := d.values_inlineDeclarations lines
  rw [h] at hvalues
  have hstyle : d.styleOn line ≠ [] := by
    have hfound := List.find?_some h
    rw [Bool.and_eq_true, Bool.not_eq_true', List.isEmpty_eq_false_iff] at hfound
    exact hfound.2
  have hempty : (d.inlineDeclarations lines).value.isEmpty ≠ true := fun e =>
    hstyle (hvalues.symm.trans (congrArg (List.map Prod.snd) (List.isEmpty_iff.mp e)))
  have htext : (d.inlineDeclarations lines).value.text = style :=
    congrArg Declaration.render hvalues
  obtain ⟨c, classes, hc⟩ := d.classes.classFor_ok (Declarations.canonical_text_ne_nil hempty)
  rw [htext] at hc
  have hcall : (d.absorb (d.inlineDeclarations lines)).classFor style =
      .ok (c, { d.absorb (d.inlineDeclarations lines) with classes }) :=
    bind_eq_ok.mpr ⟨(c, classes), hc, rfl⟩
  refine ⟨c, classes, hc, ?_⟩
  unfold styleInline
  dsimp only
  rw [if_neg hempty, htext, hcall]
  rfl

end Style

section Inline

variable {d : Draft} {block : Block} {query : Text} (hkind : block.header.kind = .media query)
include hkind

/-- Without an element before it, a media directive is only reported. -/
theorem addInline_of_orphan :
    ∃ found, d.addInline block false =
      .ok (none, { d with diagnostics := d.diagnostics ++ found }) := by
  obtain ⟨before, hbefore⟩ := d.reportUnclosed_eq block
  refine ⟨before ++ [⟨.orphanDirective block.header.text, block.line⟩], ?_⟩
  unfold addInline
  rw [hkind, hbefore, ← List.append_assoc]
  rfl

theorem addInline_of_target :
    d.addInline block true = (d.reportUnclosed block).styleInline query block.lines := by
  unfold addInline
  rw [hkind]
  rfl

/-- So it is without a styling line. -/
theorem addInline_of_none (h : d.stylingLine? block.lines = none) :
    ∃ found, d.addInline block true =
      .ok (none, { d with diagnostics := d.diagnostics ++ found }) := by
  obtain ⟨before, hbefore⟩ := d.reportUnclosed_eq block
  -- what a line declares does not depend on what was reported
  have ok := styleInline_of_none (d := { d with diagnostics := d.diagnostics ++ before }) query h
  rw [addInline_of_target hkind, hbefore, ok]
  unfold absorb
  rw [List.append_assoc]
  exact ⟨_, rfl⟩

theorem addInline_of_some {line : Line} (h : d.stylingLine? block.lines = some line) :
    let style := Declaration.render (d.styleOn line)
    ∃ c classes found, d.classes.classFor style = .ok (c, classes) ∧
      d.addInline block true =
        .ok (some c, addMediaRule { d with classes, diagnostics := d.diagnostics ++ found }
          query c style) := by
  intro style
  obtain ⟨before, hbefore⟩ := d.reportUnclosed_eq block
  obtain ⟨c, classes, hc, ok⟩ :=
    styleInline_of_some (d := { d with diagnostics := d.diagnostics ++ before }) query h
  rw [addInline_of_target hkind, hbefore, ok]
  unfold absorb
  rw [List.append_assoc]
  exact ⟨c, classes, _, hc, rfl⟩

end Inline

/-- **A media directive inside the tree changes only what it must.** Reading it takes its first line
    and the lines that it owns. It gives a class exactly if there is an element before it and one of
    its lines styles this element. Without a class nothing changes but that something may be
    reported. Otherwise the class is that of what the styling line declares; it is named if its form
    has no name, the rule of the class is added under the query if it has none there, and besides
    something may be reported. All declarations of that rule are important. -/
theorem inline_media_changes (d : Draft) {cursor : Cursor} {opening : Line} {following : List Line}
    (hahead : cursor.ahead = opening :: following) :
    ∃ block body rest,
      collectAt d.config.breakpoints d.config.indentUnit cursor =
        .ok (block, ⟨cursor.position + 1 + body.length, rest⟩) ∧
      following = body ++ rest ∧ Owns opening body rest block.terminated ∧
      (∃ rule, block.lines = rule ++ body) ∧
      ∀ query, block.header.kind = .media query → ∀ hasTarget,
        ∃ name d' found, d.addInline block hasTarget = .ok (name, d') ∧
          (name.isSome = true ↔ hasTarget = true ∧ (d.stylingLine? block.lines).isSome = true) ∧
          (name = none → d' = { d with diagnostics := d.diagnostics ++ found }) ∧
          ∀ c, name = some c → ∃ line classes,
            let style := Declaration.render (d.styleOn line)
            let form := Style.canonical style
            let rules := (d.inlineMedia.get? query).getD .empty
            d.stylingLine? block.lines = some line ∧
            (∀ x ∈ d.styleOn line, x.important = true) ∧
            ((d.classes.nameOf? form = some c ∧ classes = d.classes) ∨
              (d.classes.nameOf? form = none ∧ c ∉ d.classes.names ∧
                classes = { d.classes with bindings := d.classes.bindings ++ [(form, c)] })) ∧
            d' = { d with
              classes
              inlineMedia :=
                if rules.contains c then d.inlineMedia
                else d.inlineMedia.insert query
                  ⟨⟨rules.rules.entries ++ [(c, ({ declarations := style } : Rule))]⟩⟩
              diagnostics := d.diagnostics ++ found } := by
  obtain ⟨block, body, rest, hread, hfollowing, howns, hlines⟩ :=
    collectAt_owns d.config.breakpoints d.config.indentUnit hahead
  refine ⟨block, body, rest, hread, hfollowing, howns, hlines, fun query hkind hasTarget => ?_⟩
  cases hasTarget with
  | false =>
    obtain ⟨found, ok⟩ := addInline_of_orphan (d := d) hkind
    exact ⟨none, _, found, ok, by simp, fun _ => rfl, nofun⟩
  | true =>
    cases hfind : d.stylingLine? block.lines with
    | none =>
      obtain ⟨found, ok⟩ := addInline_of_none hkind hfind
      exact ⟨none, _, found, ok, by simp, fun _ => rfl, nofun⟩
    | some line =>
      obtain ⟨c, classes, found, hc, ok⟩ := addInline_of_some hkind hfind
      refine ⟨some c, _, found, ok, by simp, nofun, ?_⟩
      intro c' hc'
      cases hc'
      refine ⟨line, classes, rfl, fun x => important_of_mem_styleOn,
        ClassRegistry.classFor_nameOf? hc, ?_⟩
      rw [addMediaRule_eq]

/-- Line 5 styles: before it stand a comment, a line for a selector, and a line that declares
    nothing but is reported. -/
theorem inline_media_changes_after_void :
    let d : Draft := { Draft.empty .default with
      classes := (Draft.empty .default).classes.after ["margin: 0;"] }
    let following : List Line :=
      [⟨2, 4, "// pad=1"⟩, ⟨3, 4, ".a pad=8"⟩, ⟨4, 4, "zz=1 $x"⟩,
        ⟨5, 4, "p pad=$w word gap=4 pad=8"⟩, ⟨6, 4, "gap=1"⟩, ⟨7, 2, "\x7d"⟩, ⟨8, 2, "p"⟩]
    let cursor : Cursor := ⟨4, ⟨1, 2, "@mobile \x7b"⟩ :: following⟩
    cursor.ahead = ⟨1, 2, "@mobile \x7b"⟩ :: following ∧
    ∃ block,
      collectAt d.config.breakpoints d.config.indentUnit cursor = .ok (block, ⟨11, [⟨8, 2, "p"⟩]⟩) ∧
      block.header.kind = .media "(max-width: 600px)" ∧
      (∃ found, d.addInline block false = .ok (none, { d with diagnostics := found })) ∧
      ∃ c classes found,
        d.addInline block true =
          .ok (some c, { d with
            classes
            inlineMedia := ⟨[⟨"(max-width: 600px)",
              ⟨⟨[(c, ⟨"padding: 8px !important; gap: 4px !important;", []⟩)]⟩⟩⟩]⟩
            diagnostics := found }) ∧
        classes.bindings = d.classes.bindings ++ [("gap: 4px; padding: 8px".toList, c)] := by
  intro d following cursor
  have hahead : cursor.ahead = ⟨1, 2, "@mobile \x7b"⟩ :: following := rfl
  obtain ⟨block, body, rest, hread, _, _, _, h⟩ := inline_media_changes d hahead
  have hblock : collectAt d.config.breakpoints d.config.indentUnit cursor =
      .ok (⟨⟨"@mobile", .media "(max-width: 600px)"⟩, 1, following.take 6, true⟩,
        ⟨11, [⟨8, 2, "p"⟩]⟩) := by decide +kernel
  obtain ⟨rfl, hcursor⟩ := Prod.mk.inj (Except.ok.inj (hread.symm.trans hblock))
  rw [hcursor] at hread
  have hline : d.stylingLine? (following.take 6) = some ⟨5, 4, "p pad=$w word gap=4 pad=8"⟩ := by
    decide +kernel
  refine ⟨hahead, _, hread, rfl, ?_, ?_⟩
  · obtain ⟨name, d', found, ok, hsome, hnone, _⟩ := h _ rfl false
    have hname : name = none := by simpa using hsome
    rw [hname, hnone hname] at ok
    exact ⟨_, ok⟩
  · obtain ⟨name, d', found, ok, hsome, _, hclass⟩ := h _ rfl true
    obtain ⟨c, hc⟩ := Option.isSome_iff_exists.mp (hsome.mpr ⟨rfl, by rw [hline]; rfl⟩)
    obtain ⟨line, classes, hline', _, hclasses, hd'⟩ := hclass c hc
    cases hline.symm.trans hline'
    have hstyle : Declaration.render (d.styleOn ⟨5, 4, "p pad=$w word gap=4 pad=8"⟩) =
        "padding: 8px !important; gap: 4px !important;" := by decide +kernel
    have hform : Style.canonical "padding: 8px !important; gap: 4px !important;" =
        "gap: 4px; padding: 8px" := by decide +kernel
    have hnew : d.classes.nameOf? "gap: 4px; padding: 8px" = none := by decide +kernel
    rw [hstyle, hform, hnew] at hclasses
    rw [hstyle] at hd'
    rcases hclasses with ⟨e, _⟩ | ⟨_, _, e⟩
    · cases e
    · refine ⟨c, classes, d.diagnostics ++ found, ?_, by rw [e]⟩
      rw [ok, hc, hd']
      rfl

end Draft

end OutlineMarkup
