/-
  File:      OutlineMarkup/Proofs/Rules.lean
  Subject:   Blocks of rules, and the names under which rules are added to them.

  A block keeps the first declarations that it was given for a class and drops later ones. That is
  harmless as long as all of them have the canonical form that the class stands for:

  * `RuleBlock.Means`: every rule of a block has the canonical form that a registry has for its
    class; `Means.add`: adding a rule under the right name keeps that.
  * `Means.injective`: then no two rules of a block have the same canonical form.
  * `sound_foldlM_addPiece`, `foldlM_addPiece_names`: what the pieces of a media directive do to a
    block and a registry.
-/
import OutlineMarkup.Directive.Process
import OutlineMarkup.Proofs.Draft
import OutlineMarkup.Proofs.Registry

namespace OutlineMarkup

/-! ## 1. First occurrences -/

theorem firstOccurrences_concat (ts : List Text) (t : Text) :
    firstOccurrences (ts ++ [t]) =
      if t ∈ firstOccurrences ts then firstOccurrences ts else firstOccurrences ts ++ [t] := by
  unfold firstOccurrences
  rw [List.foldl_append, List.foldl_cons, List.foldl_nil]
  simp only [List.contains_iff_mem]

theorem mem_firstOccurrences {ts : List Text} {t : Text} : t ∈ firstOccurrences ts ↔ t ∈ ts := by
  induction ts using List.reverseRecOn with
  | nil => rfl
  | append_singleton ts u ih =>
    rw [firstOccurrences_concat, List.mem_append, List.mem_singleton, ← ih]
    split
    · rename_i hu
      exact ⟨.inl, fun h => h.elim id fun e => e ▸ hu⟩
    · rw [List.mem_append, List.mem_singleton]

theorem firstOccurrences_eq_eraseDups (ts : List Text) : firstOccurrences ts = ts.eraseDups := by
  induction ts using List.reverseRecOn with
  | nil => rfl
  | append_singleton ts t ih =>
    rw [firstOccurrences_concat, ih]
    split
    · rename_i h
      exact (eraseDups_concat_of_mem (List.mem_eraseDups.mp h)).symm
    · rename_i h
      exact (eraseDups_concat_of_not_mem (mt List.mem_eraseDups.mpr h)).symm

/-! ## 2. Blocks of rules -/

theorem Rule.declarations_addSelector (r : Rule) (selector : Option Text) :
    (r.addSelector selector).declarations = r.declarations := by
  unfold addSelector
  split
  · rfl
  · split <;> rfl

namespace RuleBlock

theorem mem_keys_add (b : RuleBlock) (name t : Text) (selector : Option Text) {n : Text} :
    n ∈ (b.add name t selector).rules.keys ↔ n ∈ b.rules.keys ∨ n = name :=
  Table.mem_keys_alter

theorem nodup_keys_add {b : RuleBlock} (h : b.rules.keys.Nodup) (name t : Text)
    (selector : Option Text) : (b.add name t selector).rules.keys.Nodup :=
  Table.nodup_keys_alter h name _

/-- Every rule of a block has the canonical form that its class stands for. -/
def Means (b : RuleBlock) (r : ClassRegistry) : Prop :=
  ∀ e ∈ b.rules.entries, (Style.canonical e.2.declarations, e.1) ∈ r.bindings

theorem means_empty (r : ClassRegistry) : empty.Means r := fun _ h => by cases h

theorem Means.mono {b : RuleBlock} {r r' : ClassRegistry} (h : b.Means r)
    (hr : r.bindings <+: r'.bindings) : b.Means r' := fun e he => hr.subset (h e he)

/-- **Adding a rule under the name of its canonical form keeps the meaning of a block**, also if
    the block has other declarations for the class. -/
theorem Means.add {b : RuleBlock} {r : ClassRegistry} (h : b.Means r) {name t : Text}
    (hname : (Style.canonical t, name) ∈ r.bindings) (selector : Option Text) :
    (b.add name t selector).Means r := by
  refine Table.forall_alter h ?_ ?_
  · rw [Option.getD_none, Rule.declarations_addSelector]
    exact hname
  · intro v hv
    rw [Option.getD_some, Rule.declarations_addSelector]
    exact h (name, v) hv

/-- **No two rules of a block have the same canonical form.** -/
theorem Means.injective {b : RuleBlock} {r : ClassRegistry} (h : b.Means r) (hr : r.Exact)
    (hb : b.rules.keys.Nodup) {e e' : Text × Rule} (he : e ∈ b.rules.entries)
    (he' : e' ∈ b.rules.entries)
    (hform : Style.canonical e.2.declarations = Style.canonical e'.2.declarations) : e = e' :=
  Table.eq_of_key_eq hb he he' ((hr.name_eq_iff (h e he) (h e' he')).mpr hform)

end RuleBlock

/-! ## 3. The pieces of a media directive -/

namespace Directive

theorem addPiece_eq_ok {s s' : RuleBlock × ClassRegistry} {piece : RulePiece}
    (ok : addPiece s piece = .ok s') :
    ∃ name, s.2.classFor piece.declarations = .ok (name, s'.2) ∧
      s'.1 = s.1.add name piece.declarations piece.selector := by
  obtain ⟨⟨name, classes⟩, hc, e⟩ := bind_eq_ok.mp ok
  cases e
  exact ⟨name, hc, rfl⟩

/-- A block of rules beside the registry that names its classes. -/
structure Sound (s : RuleBlock × ClassRegistry) : Prop where
  exact : s.2.Exact
  means : s.1.Means s.2
  nodup : s.1.rules.keys.Nodup

theorem Sound.addPiece {s s' : RuleBlock × ClassRegistry} {piece : RulePiece} (h : Sound s)
    (ok : addPiece s piece = .ok s') : Sound s' := by
  obtain ⟨name, hc, hb⟩ := addPiece_eq_ok ok
  refine ⟨h.exact.classFor hc, ?_, ?_⟩
  · rw [hb]
    exact (h.means.mono (ClassRegistry.classFor_extends hc)).add
      (ClassRegistry.mem_bindings_of_classFor hc) piece.selector
  · rw [hb]
    exact RuleBlock.nodup_keys_add h.nodup name _ _

section Pieces

variable {r r' : ClassRegistry} {pieces : List RulePiece} {b : RuleBlock}

theorem sound_foldlM_addPiece (hr : r.Exact)
    (ok : pieces.foldlM addPiece (.empty, r) = .ok (b, r')) : Sound (b, r') :=
  foldlM_keeps Sound (fun _ _ _ ok h => h.addPiece ok) ok ⟨hr, RuleBlock.means_empty r, .nil⟩

theorem foldlM_addPiece_extends (ok : pieces.foldlM addPiece (.empty, r) = .ok (b, r')) :
    r.bindings <+: r'.bindings :=
  foldlM_keeps (fun s : RuleBlock × ClassRegistry => r.bindings <+: s.2.bindings)
    (fun _ _ _ ok h => by
      obtain ⟨_, hc, _⟩ := addPiece_eq_ok ok
      exact h.trans (ClassRegistry.classFor_extends hc))
    ok List.prefix_rfl

/-- The names that the pieces of a directive add to a registry are those of its rules. -/
theorem foldlM_addPiece_names (ok : pieces.foldlM addPiece (.empty, r) = .ok (b, r')) (n : Text) :
    n ∈ r'.names ↔ n ∈ r.names ∨ n ∈ b.rules.keys := by
  refine foldlM_keeps (fun s : RuleBlock × ClassRegistry =>
    n ∈ s.2.names ↔ n ∈ r.names ∨ n ∈ s.1.rules.keys) ?_ ok ⟨.inl, fun h => h.elim id nofun⟩
  intro s piece s' ok h
  obtain ⟨name, hc, hb⟩ := addPiece_eq_ok ok
  rw [ClassRegistry.mem_names_classFor hc, h, hb, RuleBlock.mem_keys_add, or_assoc]

end Pieces

theorem mediaRules_eq_ok {d d' : Draft} {lines : List Line} {rules : RuleBlock}
    (ok : mediaRules d lines = .ok (rules, d')) :
    (mediaPieces d lines).value.foldlM addPiece (.empty, d.classes) = .ok (rules, d'.classes) ∧
      d' = { d.absorb (mediaPieces d lines) with classes := d'.classes } := by
  obtain ⟨⟨b, r⟩, hfold, e⟩ := bind_eq_ok.mp ok
  cases e
  exact ⟨hfold, rfl⟩

end Directive

end OutlineMarkup
