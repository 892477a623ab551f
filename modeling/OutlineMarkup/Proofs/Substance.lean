/-
  File:      OutlineMarkup/Proofs/Substance.lean
  Subject:   Declarations never come to nothing.

  A class is refused to declarations whose canonical form is empty. Properties and values are free
  text: they may hold semicolons and marks, and taking these out can leave nothing of them. But the
  colon between property and value is neither blank nor a semicolon, and a mark has none, so it is
  still there in the canonical form.

  * `colon_mem_canonical`, `colon_mem_render`: the colons of a text are in its canonical form, and
    the text of declarations has one.
  * `StyleGroups.Solid`: a group has a declaration, through all additions; so every category's text
    has a canonical form (`Solid.canonical_texts_ne_nil`).
-/
import OutlineMarkup.Proofs.CanonicalForm
import OutlineMarkup.Proofs.DeclarationText
import OutlineMarkup.Proofs.Groups

namespace OutlineMarkup

/-! ## 1. Colons -/

/-- A colon outlives everything that is taken out. -/
theorem Style.colon_mem_canonical {t : Text} (h : ':' ∈ t) : ':' ∈ canonical t := by
  obtain ⟨before, after, rfl⟩ := List.append_of_mem h
  have hkept : ':' ∈ Text.replace Declaration.marker [] (before ++ ':' :: after) := by
    rw [Text.replace_append_blank (by decide) (by decide)]
    exact List.mem_append_right _ List.mem_cons_self
  exact mem_canonical hkept (by decide) (by decide)

theorem Declaration.colon_mem_render {ds : List Declaration} (h : ds ≠ []) : ':' ∈ render ds := by
  obtain ⟨d, ds, rfl⟩ := List.exists_cons_of_ne_nil h
  rw [render_cons, body, List.append_assoc]
  exact List.mem_append_right _ List.mem_cons_self

/-! ## 2. Declarations put together -/

namespace Declarations

theorem colon_mem_text {t : Declarations} (h : ¬t.isEmpty = true) : ':' ∈ t.text := by
  refine Declaration.colon_mem_render fun hnil => h ?_
  exact List.isEmpty_iff.mpr (List.map_eq_nil_iff.mp hnil)

/-- **The canonical form of declarations is not empty.** -/
theorem canonical_text_ne_nil {t : Declarations} (h : ¬t.isEmpty = true) :
    Style.canonical t.text ≠ [] :=
  List.ne_nil_of_mem (Style.colon_mem_canonical (colon_mem_text h))

theorem not_isEmpty_addAll (t : Declarations) {ds : List Declaration} (h : ds ≠ []) :
    ¬(t.addAll ds).isEmpty = true := by
  obtain ⟨d, ds, rfl⟩ := List.exists_cons_of_ne_nil h
  have hkey : d.property ∈ (t.addAll (d :: ds)).keys :=
    (Table.mem_keys_insertAll _).mpr (.inr List.mem_cons_self)
  obtain ⟨v, hv⟩ := Table.mem_keys.mp hkey
  exact fun hnil => List.ne_nil_of_mem hv (List.isEmpty_iff.mp hnil)

end Declarations

namespace StyleGroups

/-- Groups of which each has a declaration. -/
def Solid (g : StyleGroups) : Prop := ∀ e ∈ g.groups.entries, ¬e.2.isEmpty = true

theorem solid_empty : empty.Solid := fun e he => by cases he

theorem Solid.add {g : StyleGroups} (hg : g.Solid) (category : Category) (ds : List Declaration) :
    (g.add category ds).Solid := by
  unfold StyleGroups.add
  split
  · exact hg
  · rename_i hne
    have hds : ds ≠ [] := fun e => hne (List.isEmpty_iff.mpr e)
    exact Table.forall_alter hg (Declarations.not_isEmpty_addAll _ hds)
      fun _ _ => Declarations.not_isEmpty_addAll _ hds

theorem solid_ofAdditions (xs : List (Category × List Declaration)) : (ofAdditions xs).Solid := by
  induction xs using List.reverseRecOn with
  | nil => exact solid_empty
  | append_singleton xs x ih =>
    rw [ofAdditions_concat]
    exact ih.add x.1 x.2

theorem Solid.colon_mem_texts {g : StyleGroups} (hg : g.Solid) : ∀ t ∈ g.texts, ':' ∈ t := by
  intro t ht
  obtain ⟨v, hv, rfl⟩ := List.mem_map.mp ht
  obtain ⟨e, he, rfl⟩ := List.mem_map.mp hv
  exact Declarations.colon_mem_text (hg e he)

/-- **Every category's text has a canonical form.** -/
theorem Solid.canonical_texts_ne_nil {g : StyleGroups} (hg : g.Solid) :
    ∀ t ∈ g.texts, Style.canonical t ≠ [] :=
  fun t ht => List.ne_nil_of_mem (Style.colon_mem_canonical (hg.colon_mem_texts t ht))

end StyleGroups

end OutlineMarkup
