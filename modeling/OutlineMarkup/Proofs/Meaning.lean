/-
  File:      OutlineMarkup/Proofs/Meaning.lean
  Subject:   The registry of classes and the blocks of rules along a compile.

  All blocks of rules share one registry, and a block keeps only the first declarations that it was
  given for a class. Two facts about the steps of a compile say why that does no harm:

  * `Step.sound`: every rule has the canonical form that the registry has for its class, and the
    registry has exactly the names under which there are rules (`Context.Sound`);
  * `Step.grows`: names keep their meaning, and rules stay where they are (`Draft.Grows`).

  What an element line or a directive gives to its element is the class that the registry has for
  the canonical form of the style (`foldlM_addStyle_names`, `styleInline_name`).
-/
import OutlineMarkup.Proofs.Context

namespace OutlineMarkup

open Directive

/-! ## 1. What steps leave alone -/

theorem Draft.addVariableLine_eq (d : Draft) (line : Line) :
    ∃ declared diagnostics, d.addVariableLine line = { d with declared, diagnostics } := by
  unfold addVariableLine
  split
  · exact ⟨_, d.diagnostics, rfl⟩
  · exact ⟨d.declared, _, rfl⟩

/-! ## 2. The names under which there are rules -/

namespace Draft

/-- Whether a class has a rule, for elements or under a media query inside the tree. -/
def HasRule (d : Draft) (n : Text) : Prop :=
  n ∈ d.utilities.rules.keys ∨ ∃ b ∈ d.inlineMedia.values, n ∈ b.rules.keys

section Rules

variable {d d' : Draft} {t name n : Text}

theorem hasRule_classFor (ok : d.classFor t = .ok (name, d')) : d'.HasRule n ↔ d.HasRule n := by
  rw [(classFor_eq_ok ok).2]
  rfl

theorem hasRule_addUtility (ok : d.addUtility t = .ok (name, d')) :
    d'.HasRule n ↔ d.HasRule n ∨ n = name := by
  obtain ⟨d₁, hc, rfl⟩ := addUtility_eq_ok ok
  rw [← hasRule_classFor hc]
  unfold HasRule
  rw [RuleBlock.mem_keys_add, or_right_comm]

theorem hasRule_addMediaRule (query : Text) :
    (d.addMediaRule query name t).HasRule n ↔ d.HasRule n ∨ n = name := by
  have hvalues : (∃ b ∈ (d.addMediaRule query name t).inlineMedia.values, n ∈ b.rules.keys) ↔
      (∃ b ∈ d.inlineMedia.values, n ∈ b.rules.keys) ∨ n = name := by
    refine Table.exists_alter ?_ fun b => RuleBlock.mem_keys_add b name t none
    rw [Option.getD_none, RuleBlock.mem_keys_add]
    exact ⟨fun h => h.elim nofun id, .inr⟩
  unfold HasRule
  rw [hvalues, or_assoc]
  rfl

end Rules

end Draft

namespace Context

theorem emit_draft (c : Context) (query : Text) (rules : RuleBlock) :
    ∃ fragments, (c.emit query rules).draft =
      { c.draft with fragments := c.draft.fragments ++ fragments } := by
  unfold emit
  split
  · exact ⟨[], by rw [List.append_nil]⟩
  · exact ⟨_, rfl⟩

/-- Emitting adds one block of rules beside the draft, if it has rules. -/
theorem mem_media_emit {c : Context} {query : Text} {rules : RuleBlock} {m : Text × RuleBlock} :
    m ∈ (c.emit query rules).media ↔
      m ∈ c.media ∨ (rules.isEmpty = false ∧ m = (query, rules)) := by
  unfold emit
  split
  · rename_i h
    simp [h]
  · rename_i h
    simp [h]

theorem media_names_emit {c : Context} {query : Text} {rules : RuleBlock} {n : Text} :
    (∃ m ∈ (c.emit query rules).media, n ∈ m.2.rules.keys) ↔
      (∃ m ∈ c.media, n ∈ m.2.rules.keys) ∨ n ∈ rules.rules.keys := by
  constructor
  · rintro ⟨m, hm, hn⟩
    rcases mem_media_emit.mp hm with hm | ⟨_, rfl⟩
    · exact .inl ⟨m, hm, hn⟩
    · exact .inr hn
  · rintro (⟨m, hm, hn⟩ | hn)
    · exact ⟨m, mem_media_emit.mpr (.inl hm), hn⟩
    · refine ⟨(query, rules), mem_media_emit.mpr (.inr ⟨?_, rfl⟩), hn⟩
      obtain ⟨rule, hr⟩ := Table.mem_keys.mp hn
      exact List.isEmpty_eq_false_iff.mpr (List.ne_nil_of_mem hr)

/-! ## 3. The invariant of all contexts -/

/-- The registry is exact, every rule has the canonical form that its class stands for, each block
    has one rule for a class, the registry has the names under which there are rules, and the rules
    beside the draft are those of its media fragments. -/
structure Sound (c : Context) : Prop where
  exact : c.draft.classes.Exact
  means : ∀ b ∈ c.blocks, b.Means c.draft.classes
  nodup : ∀ b ∈ c.blocks, b.rules.keys.Nodup
  named : ∀ n, n ∈ c.draft.classes.names ↔
    c.draft.HasRule n ∨ ∃ m ∈ c.media, n ∈ m.2.rules.keys
  emitted : ∀ m ∈ c.media, m.2.renderMedia m.1 ∈ c.draft.fragments

theorem mem_blocks {c : Context} {b : RuleBlock} :
    b ∈ c.blocks ↔
      b = c.draft.utilities ∨ b ∈ c.draft.inlineMedia.values ∨ b ∈ c.media.map Prod.snd := by
  rw [blocks, List.mem_cons, List.mem_append]

theorem sound_start (config : Config) : Sound (start config) where
  exact := ClassRegistry.exact_empty config.classStem
  means b hb := by
    rw [List.mem_singleton.mp hb]
    exact RuleBlock.means_empty _
  nodup b hb := by
    rw [List.mem_singleton.mp hb]
    exact .nil
  named n := ⟨nofun, fun h => h.elim (fun h => h.elim nofun nofun) nofun⟩
  emitted _ h := by cases h

/-- A context stays sound if the registry grows by the new names, and every block is an old one or
    sound by itself. -/
theorem Sound.grow {c c' : Context} (h : c.Sound) (hexact : c'.draft.classes.Exact)
    (hextends : c.draft.classes.bindings <+: c'.draft.classes.bindings)
    (hblocks : ∀ b ∈ c'.blocks, b ∈ c.blocks ∨ Directive.Sound (b, c'.draft.classes))
    (hnamed : ∀ n, n ∈ c'.draft.classes.names ↔
      c'.draft.HasRule n ∨ ∃ m ∈ c'.media, n ∈ m.2.rules.keys)
    (hemitted : ∀ m ∈ c'.media, m.2.renderMedia m.1 ∈ c'.draft.fragments) : c'.Sound where
  exact := hexact
  means b hb := (hblocks b hb).elim (fun ho => (h.means b ho).mono hextends) (·.means)
  nodup b hb := (hblocks b hb).elim (h.nodup b) (·.nodup)
  named := hnamed
  emitted := hemitted

section Named

variable {d d' : Draft} {m : List (Text × RuleBlock)} {t name : Text}

/-- A rule joins a block under the name that the registry has for its declarations. -/
theorem Sound.addRule (h : Sound ⟨d, m⟩) (ok : d.classFor t = .ok (name, d')) {b : RuleBlock}
    (hb : b = .empty ∨ b ∈ blocks ⟨d, m⟩) : Directive.Sound (b.add name t, d'.classes) := by
  have hc := (Draft.classFor_eq_ok ok).1
  have hmeans : b.Means d.classes := by
    rcases hb with rfl | hb
    · exact RuleBlock.means_empty _
    · exact h.means b hb
  have hnodup : b.rules.keys.Nodup := by
    rcases hb with rfl | hb
    · exact .nil
    · exact h.nodup b hb
  exact ⟨h.exact.classFor hc, (hmeans.mono (ClassRegistry.classFor_extends hc)).add
    (ClassRegistry.mem_bindings_of_classFor hc) none, RuleBlock.nodup_keys_add hnodup name t none⟩

/-- The new name is the one of the new rule. -/
theorem Sound.named_classFor (h : Sound ⟨d, m⟩) (ok : d.classFor t = .ok (name, d')) (n : Text) :
    n ∈ d'.classes.names ↔ (d.HasRule n ∨ n = name) ∨ ∃ b ∈ m, n ∈ b.2.rules.keys := by
  rw [ClassRegistry.mem_names_classFor (Draft.classFor_eq_ok ok).1, h.named n, or_right_comm]

end Named

theorem Sound.addUtility {d d' : Draft} {m : List (Text × RuleBlock)} {t name : Text}
    (h : Sound ⟨d, m⟩) (ok : d.addUtility t = .ok (name, d')) : Sound ⟨d', m⟩ := by
  have hrules := fun n => Draft.hasRule_addUtility (n := n) ok
  obtain ⟨d₁, hc, rfl⟩ := Draft.addUtility_eq_ok ok
  obtain ⟨hr, hd⟩ := Draft.classFor_eq_ok hc
  have hu : d₁.utilities = d.utilities := by rw [hd]
  refine h.grow (h.exact.classFor hr) (ClassRegistry.classFor_extends hr) ?_ ?_ ?_
  · intro b hb
    rcases mem_blocks.mp hb with rfl | hb
    · refine .inr ?_
      rw [hu]
      exact h.addRule hc (.inr (mem_blocks.mpr (.inl rfl)))
    · refine .inl (mem_blocks.mpr (.inr ?_))
      rw [hd] at hb
      exact hb
  · intro n
    rw [hrules]
    exact h.named_classFor hc n
  · intro e he
    have hf : d₁.fragments = d.fragments := by rw [hd]
    show _ ∈ d₁.fragments
    rw [hf]
    exact h.emitted e he

theorem Sound.addMediaRule {d d' : Draft} {m : List (Text × RuleBlock)} {t name : Text}
    (h : Sound ⟨d, m⟩) (ok : d.classFor t = .ok (name, d')) (query : Text) :
    Sound ⟨d'.addMediaRule query name t, m⟩ := by
  obtain ⟨hr, hd⟩ := Draft.classFor_eq_ok ok
  have hi : d'.inlineMedia = d.inlineMedia := by rw [hd]
  refine h.grow (h.exact.classFor hr) (ClassRegistry.classFor_extends hr) ?_ ?_ ?_
  · -- the block of the query has one more rule, all others are as they were
    have hall : ∀ e ∈ (d'.addMediaRule query name t).inlineMedia.entries,
        e.2 ∈ blocks ⟨d, m⟩ ∨ Directive.Sound (e.2, d'.classes) := by
      have hold : ∀ e ∈ d.inlineMedia.entries, e.2 ∈ blocks ⟨d, m⟩ := fun e he =>
        mem_blocks.mpr (.inr (.inl (Table.mem_values.mpr ⟨e.1, he⟩)))
      refine Table.forall_alter ?_ ?_ ?_
      · rw [hi]
        exact fun e he => .inl (hold e he)
      · exact .inr (h.addRule ok (.inl rfl))
      · intro b hb
        rw [hi] at hb
        exact .inr (h.addRule ok (.inr (hold (query, b) hb)))
    intro b hb
    rcases mem_blocks.mp hb with rfl | hb | hb
    · refine .inl (mem_blocks.mpr (.inl ?_))
      rw [hd]
      rfl
    · obtain ⟨q, hq⟩ := Table.mem_values.mp hb
      exact hall _ hq
    · exact .inl (mem_blocks.mpr (.inr (.inr hb)))
  · intro n
    rw [Draft.hasRule_addMediaRule, Draft.hasRule_classFor ok]
    exact h.named_classFor ok n
  · intro e he
    have hf : d'.fragments = d.fragments := by rw [hd]
    show _ ∈ d'.fragments
    rw [hf]
    exact h.emitted e he

theorem Sound.media {d d' : Draft} {m : List (Text × RuleBlock)} {lines : List Line}
    {rules : RuleBlock} (h : Sound ⟨d, m⟩) (ok : mediaRules d lines = .ok (rules, d'))
    (query : Text) : Sound ((⟨d', m⟩ : Context).emit query rules) := by
  obtain ⟨hfold, hd⟩ := mediaRules_eq_ok ok
  have hrules := sound_foldlM_addPiece h.exact hfold
  obtain ⟨fragments, hdraft⟩ := emit_draft ⟨d', m⟩ query rules
  have hclasses : ((⟨d', m⟩ : Context).emit query rules).draft.classes = d'.classes := by
    rw [hdraft]
  have hfragments : d'.fragments = d.fragments := by rw [hd]; rfl
  refine h.grow (by rw [hclasses]; exact hrules.exact)
    (by rw [hclasses]; exact foldlM_addPiece_extends hfold) ?_ ?_ ?_
  · intro b hb
    rw [hclasses]
    rw [mem_blocks, hdraft, hd] at hb
    rcases hb with hb | hb | hb
    · exact .inl (mem_blocks.mpr (.inl hb))
    · exact .inl (mem_blocks.mpr (.inr (.inl hb)))
    · rw [← hd] at hb
      obtain ⟨e, he, rfl⟩ := List.mem_map.mp hb
      rcases mem_media_emit.mp he with he | ⟨_, rfl⟩
      · exact .inl (mem_blocks.mpr (.inr (.inr (List.mem_map_of_mem he))))
      · exact .inr hrules
  · intro n
    have hsame : ((⟨d', m⟩ : Context).emit query rules).draft.HasRule n ↔ d.HasRule n := by
      rw [hdraft, hd]
      rfl
    rw [hclasses, foldlM_addPiece_names hfold, h.named n, media_names_emit, hsame, or_assoc]
  · intro e he
    unfold emit at he ⊢
    split at he
    · rename_i hempty
      rw [if_pos hempty]
      show _ ∈ d'.fragments
      rw [hfragments]
      exact h.emitted e he
    · rename_i hne
      rw [if_neg hne]
      rcases List.mem_append.mp he with he | he
      · refine List.mem_append_left _ ?_
        show _ ∈ d'.fragments
        rw [hfragments]
        exact h.emitted e he
      · rw [List.mem_singleton.mp he]
        exact List.mem_append_right _ List.mem_cons_self

/-- **Every step keeps a context sound.** -/
theorem Step.sound {c c' : Context} (step : Step c c') (h : c.Sound) : c'.Sound := by
  cases step with
  | declare d m line =>
    obtain ⟨_, _, e⟩ := d.addVariableLine_eq line
    rw [e]
    exact ⟨h.exact, h.means, h.nodup, h.named, h.emitted⟩
  | report d m finding line => exact ⟨h.exact, h.means, h.nodup, h.named, h.emitted⟩
  | absorb d m r => exact ⟨h.exact, h.means, h.nodup, h.named, h.emitted⟩
  | utility m ok => exact h.addUtility ok
  | inlineRule m ok query => exact h.addMediaRule ok query
  | media m ok query => exact h.media ok query
  | keyframes d m name lines =>
    rw [addKeyframes_eq]
    exact ⟨h.exact, h.means, h.nodup, h.named,
      fun x hx => List.mem_append_left _ (h.emitted x hx)⟩

theorem Steps.sound {c c' : Context} (steps : Steps c c') (h : c.Sound) : c'.Sound :=
  steps.keeps (fun _ _ step h => step.sound h) h

end Context

/-! ## 4. Names and rules stay -/

namespace Draft

/-- What a draft has named keeps its meaning in a later one, its rules are still there, and the
    settings are the same. -/
structure Grows (d d' : Draft) : Prop where
  config : d'.config = d.config
  names : d.classes.bindings <+: d'.classes.bindings
  utilities : ∀ n ∈ d.utilities.rules.keys, n ∈ d'.utilities.rules.keys
  inline : ∀ query b, (query, b) ∈ d.inlineMedia.entries →
    ∃ b', (query, b') ∈ d'.inlineMedia.entries ∧ ∀ n ∈ b.rules.keys, n ∈ b'.rules.keys

/-- A draft grows if the classes do and the rules are the same. -/
theorem Grows.of_names {d d' : Draft} (hn : d.classes.bindings <+: d'.classes.bindings)
    (hc : d'.config = d.config) (hu : d'.utilities = d.utilities)
    (hi : d'.inlineMedia = d.inlineMedia) : d.Grows d' where
  config := hc
  names := hn
  utilities _ h := by
    rw [hu]
    exact h
  inline _ b h := ⟨b, by rw [hi]; exact h, fun _ h => h⟩

theorem Grows.refl (d : Draft) : d.Grows d := .of_names List.prefix_rfl rfl rfl rfl

theorem Grows.trans {d d' d'' : Draft} (h : d.Grows d') (h' : d'.Grows d'') : d.Grows d'' where
  config := h'.config.trans h.config
  names := h.names.trans h'.names
  utilities n hn := h'.utilities n (h.utilities n hn)
  inline query b hb := by
    obtain ⟨b', hb', hk⟩ := h.inline query b hb
    obtain ⟨b'', hb'', hk'⟩ := h'.inline query b' hb'
    exact ⟨b'', hb'', fun n hn => hk' n (hk n hn)⟩

theorem Grows.hasRule {d d' : Draft} (h : d.Grows d') {n : Text} (hn : d.HasRule n) :
    d'.HasRule n := by
  rcases hn with hn | ⟨b, hb, hn⟩
  · exact .inl (h.utilities n hn)
  · obtain ⟨query, hq⟩ := Table.mem_values.mp hb
    obtain ⟨b', hb', hk⟩ := h.inline query b hq
    exact .inr ⟨b', Table.mem_values.mpr ⟨query, hb'⟩, hk n hn⟩

theorem grows_classFor {d d' : Draft} {t name : Text} (ok : d.classFor t = .ok (name, d')) :
    d.Grows d' := by
  obtain ⟨hr, hd⟩ := classFor_eq_ok ok
  have hextends := ClassRegistry.classFor_extends hr
  rw [hd]
  exact .of_names hextends rfl rfl rfl

theorem grows_addUtility {d d' : Draft} {t name : Text} (ok : d.addUtility t = .ok (name, d')) :
    d.Grows d' := by
  obtain ⟨d₁, hc, rfl⟩ := addUtility_eq_ok ok
  refine (grows_classFor hc).trans ⟨rfl, List.prefix_rfl, ?_, (Grows.refl d₁).inline⟩
  exact fun n hn => (RuleBlock.mem_keys_add d₁.utilities name t none).mpr (.inl hn)

theorem grows_addMediaRule (d : Draft) (query name t : Text) :
    d.Grows (d.addMediaRule query name t) where
  config := rfl
  names := List.prefix_rfl
  utilities _ hn := hn
  inline q b hb := by
    rcases Table.mem_entries_alter hb query
      (fun old => (old.getD .empty).add name t none) with h | h
    · exact ⟨b, h, fun _ hn => hn⟩
    · exact ⟨_, h, fun n hn => (RuleBlock.mem_keys_add b name t none).mpr (.inl hn)⟩

end Draft

namespace Context

/-- **No step takes back a name or a rule.** -/
theorem Step.grows {c c' : Context} (step : Step c c') : c.draft.Grows c'.draft := by
  cases step with
  | declare d m line =>
    obtain ⟨_, _, e⟩ := d.addVariableLine_eq line
    rw [e]
    exact .of_names List.prefix_rfl rfl rfl rfl
  | report d m finding line => exact .of_names List.prefix_rfl rfl rfl rfl
  | absorb d m r => exact .of_names List.prefix_rfl rfl rfl rfl
  | utility m ok => exact Draft.grows_addUtility ok
  | inlineRule m ok query =>
    exact (Draft.grows_classFor ok).trans (Draft.grows_addMediaRule _ query _ _)
  | @media d d' m lines rules ok query =>
    obtain ⟨hfold, hd⟩ := mediaRules_eq_ok ok
    obtain ⟨fragments, hdraft⟩ := emit_draft ⟨d', m⟩ query rules
    have hextends := foldlM_addPiece_extends hfold
    rw [hdraft, hd]
    exact .of_names hextends rfl rfl rfl
  | keyframes d m name lines =>
    rw [addKeyframes_eq]
    exact .of_names List.prefix_rfl rfl rfl rfl

theorem Steps.grows {c c' : Context} (steps : Steps c c') : c.draft.Grows c'.draft :=
  steps.keeps (I := fun c' => c.draft.Grows c'.draft) (fun _ _ step h => h.trans step.grows)
    (.refl c.draft)

section Lookup

variable {c : Context} {form n : Text}

/-- The rule of a class in a block has the form that the class stands for. -/
theorem Sound.exists_rule (h : c.Sound) (hn : (form, n) ∈ c.draft.classes.bindings)
    {b : RuleBlock} (hb : b ∈ c.blocks) (hk : n ∈ b.rules.keys) :
    ∃ rule, (n, rule) ∈ b.rules.entries ∧ Style.canonical rule.declarations = form := by
  obtain ⟨rule, hr⟩ := Table.mem_keys.mp hk
  exact ⟨rule, hr, (h.exact.name_eq_iff (h.means b hb (n, rule) hr) hn).mp rfl⟩

end Lookup

end Context

/-! ## 5. The classes of an element -/

namespace Element

theorem mem_classes_addClass {name : Text} (h : name ≠ []) (e : Element) {n : Text} :
    n ∈ (e.addClass name).classes ↔ n ∈ e.classes ∨ n = name := by
  unfold addClass
  split
  · rename_i hc
    have hmem : name ∈ e.classes := by
      rcases Bool.or_eq_true_iff.mp hc with hc | hc
      · exact absurd (List.isEmpty_iff.mp hc) h
      · exact List.contains_iff_mem.mp hc
    exact ⟨.inl, fun hn => hn.elim (fun h => h) fun e => e ▸ hmem⟩
  · rw [List.mem_append, List.mem_singleton]

theorem mem_classes_foldl_addClass {names : List Text} (h : ∀ name ∈ names, name ≠ [])
    (e : Element) {n : Text} :
    n ∈ (names.foldl addClass e).classes ↔ n ∈ e.classes ∨ n ∈ names := by
  induction names generalizing e with
  | nil => exact ⟨.inl, fun hn => hn.elim (fun h => h) nofun⟩
  | cons name names ih =>
    rw [List.foldl_cons, ih (fun x hx => h x (List.mem_cons_of_mem _ hx)),
      mem_classes_addClass (h name List.mem_cons_self), List.mem_cons, or_assoc]

end Element

namespace Draft

/-- **What the styles of an element do**: each one gives the element the class that the registry has
    for its canonical form, and these classes are the ones that get new rules. -/
theorem foldlM_addStyle_names {ts : List Text} {e e' : Element} {d d' : Draft}
    (ok : ts.foldlM addStyle (e, d) = .ok (e', d')) :
    ∃ names : List Text, e' = names.foldl Element.addClass e ∧ d.Grows d' ∧
      (∀ t ∈ ts, ∃ n ∈ names, (Style.canonical t, n) ∈ d'.classes.bindings ∧
        n ∈ d'.utilities.rules.keys) ∧
      ∀ n, d'.HasRule n ↔ d.HasRule n ∨ n ∈ names := by
  induction ts generalizing e d with
  | nil =>
    cases ok
    exact ⟨[], rfl, .refl _, fun _ h => (by cases h), fun n => ⟨.inl, fun h => h.elim id nofun⟩⟩
  | cons t ts ih =>
    rw [List.foldlM_cons] at ok
    obtain ⟨⟨e₁, d₁⟩, ok₁, ok⟩ := bind_eq_ok.mp ok
    obtain ⟨name, hu, rfl⟩ := addStyle_eq_ok ok₁
    obtain ⟨names, he, hgrows, hnames, hrules⟩ := ih ok
    have hkey : (Style.canonical t, name) ∈ d₁.classes.bindings ∧
        name ∈ d₁.utilities.rules.keys := by
      obtain ⟨d₂, hc, rfl⟩ := addUtility_eq_ok hu
      exact ⟨ClassRegistry.mem_bindings_of_classFor (classFor_eq_ok hc).1,
        (RuleBlock.mem_keys_add d₂.utilities name t none).mpr (.inr rfl)⟩
    refine ⟨name :: names, he, (grows_addUtility hu).trans hgrows, ?_, ?_⟩
    · intro t' ht'
      rcases List.mem_cons.mp ht' with rfl | ht'
      · exact ⟨name, List.mem_cons_self, hgrows.names.subset hkey.1, hgrows.utilities name hkey.2⟩
      · obtain ⟨n, hn, hrule⟩ := hnames t' ht'
        exact ⟨n, List.mem_cons_of_mem _ hn, hrule⟩
    · intro n
      rw [hrules, hasRule_addUtility hu, List.mem_cons, or_assoc]

/-- What a directive before which an element stands does: a class that comes of it has a rule under
    the query, with the canonical form of what the directive declares. -/
theorem styleInline_name {d d' : Draft} {query : Text} {lines : List Line} {n : Text}
    (ok : d.styleInline query lines = .ok (some n, d')) :
    (Style.canonical (d.inlineDeclarations lines).value.text, n) ∈ d'.classes.bindings ∧
      ∃ b, (query, b) ∈ d'.inlineMedia.entries ∧ n ∈ b.rules.keys := by
  rcases styleInline_eq_ok ok with ⟨h, _⟩ | ⟨name, d₁, h, hc, rfl⟩
  · cases h
  · cases h
    refine ⟨ClassRegistry.mem_bindings_of_classFor (classFor_eq_ok hc).1, ?_⟩
    obtain ⟨old, h⟩ := Table.exists_mem_alter d₁.inlineMedia query
      fun old => (old.getD .empty).add n (d.inlineDeclarations lines).value.text none
    exact ⟨_, h, (RuleBlock.mem_keys_add _ _ _ _).mpr (.inr rfl)⟩

end Draft

end OutlineMarkup
