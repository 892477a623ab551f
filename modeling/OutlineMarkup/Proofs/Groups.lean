/-
  File:      OutlineMarkup/Proofs/Groups.lean
  Subject:   Declarations put together by additions.

  What stands in the groups after some additions can be said from the additions alone: the group of
  a category has what was added under that category (`get?_ofAdditions`), and under a property it
  has the last of these declarations (`Declarations.get?_addAll`).

  * `Declarations.values_addAll`: the declarations of a group, in order (`Declaration.merged`);
  * `texts_ofAdditions`: the texts of the groups, in order.
-/
import Mathlib.Data.List.Induction
import OutlineMarkup.Proofs.Table
import OutlineMarkup.Style.Group

namespace OutlineMarkup

/-! ## 1. Declarations by property -/

theorem getLast?_filter {α : Type} (p : α → Bool) (xs : List α) :
    (xs.filter p).getLast? = xs.reverse.find? p := by
  rw [← List.head?_reverse, ← List.filter_reverse, List.head?_filter]

/-- Under a property stands the last declaration for it. -/
theorem Declarations.get?_addAll (t : Declarations) (ds : List Declaration) (property : Text) :
    (t.addAll ds).get? property =
      (ds.reverse.find? fun x => x.property = property).or (t.get? property) := by
  unfold addAll
  rw [Table.get?_insertAll, List.filter_map, List.getLast?_map, Option.map_map, ← getLast?_filter]
  exact congrArg (Option.or · _) Option.map_id'

theorem Declarations.addAll_append (t : Declarations) (ds ds' : List Declaration) :
    t.addAll (ds ++ ds') = (t.addAll ds).addAll ds' := by
  unfold addAll Table.insertAll
  rw [List.map_append, List.foldl_append]

/-- Of several declarations of a property the last one counts, and it stands where the first one
    does. -/
def Declaration.merged (ds : List Declaration) : List Declaration :=
  (ds.map Declaration.property).eraseDups.filterMap fun property =>
    (ds.filter fun x => x.property = property).getLast?

theorem Declaration.mem_of_mem_merged {ds : List Declaration} {x : Declaration}
    (h : x ∈ merged ds) : x ∈ ds := by
  obtain ⟨property, _, hlast⟩ := List.mem_filterMap.mp h
  exact List.mem_of_mem_filter (List.mem_of_getLast? hlast)

/-- **Declarations that are added one after the other are merged.** -/
theorem Declarations.values_addAll (ds : List Declaration) :
    (addAll .empty ds).values = Declaration.merged ds := by
  have hkeys : (addAll .empty ds).keys = (ds.map Declaration.property).eraseDups := by
    have h := Table.keys_ofList (ds.map fun x => (x.property, x))
    rw [List.map_map] at h
    exact h
  have hnodup : (addAll .empty ds).keys.Nodup := Table.nodup_keys_insertAll _ List.nodup_nil
  rw [Table.values_eq_filterMap hnodup, hkeys]
  refine List.filterMap_congr fun property _ => ?_
  rw [get?_addAll, getLast?_filter]
  exact Option.or_none

theorem Declarations.text_addAll (ds : List Declaration) :
    text (addAll .empty ds) = Declaration.render (Declaration.merged ds) :=
  congrArg Declaration.render (values_addAll ds)

/-! ## 2. Declarations by category -/

namespace StyleGroups

theorem add_nil (g : StyleGroups) (category : Category) : g.add category [] = g := rfl

/-- The groups after some additions, each under its category. -/
def ofAdditions (xs : List (Category × List Declaration)) : StyleGroups :=
  xs.foldl (fun g x => g.add x.1 x.2) .empty

/-- What is added under a category, in order. -/
def addedTo (category : Category) (xs : List (Category × List Declaration)) : List Declaration :=
  (xs.filter fun x => x.1 = category).flatMap Prod.snd

theorem ofAdditions_concat (xs : List (Category × List Declaration))
    (x : Category × List Declaration) :
    ofAdditions (xs ++ [x]) = (ofAdditions xs).add x.1 x.2 := List.foldl_append

theorem addedTo_concat (category : Category) (xs : List (Category × List Declaration))
    (x : Category × List Declaration) :
    addedTo category (xs ++ [x]) =
      addedTo category xs ++ if x.1 = category then x.2 else [] := by
  unfold addedTo
  rw [List.filter_append, List.flatMap_append]
  by_cases h : x.1 = category <;> simp [h]

/-- **The group of a category has what was added under that category**, and there is none if nothing
    was. -/
theorem get?_ofAdditions (category : Category) (xs : List (Category × List Declaration)) :
    (ofAdditions xs).groups.get? category =
      if (addedTo category xs).isEmpty then none
      else some (Declarations.addAll .empty (addedTo category xs)) := by
  induction xs using List.reverseRecOn with
  | nil => rfl
  | append_singleton xs x ih =>
    rw [ofAdditions_concat, addedTo_concat]
    unfold add
    split
    · rename_i hnil
      rw [ih, List.isEmpty_iff.mp hnil, ite_self, List.append_nil]
    · rename_i hne
      rw [Table.get?_alter]
      by_cases h : x.1 = category
      · have hboth : (addedTo category xs ++ x.2).isEmpty = false :=
          List.isEmpty_eq_false_iff.mpr
            (List.append_ne_nil_of_right_ne_nil _ fun e => hne (List.isEmpty_iff.mpr e))
        rw [if_pos h, if_pos h.symm, h, hboth, if_neg Bool.false_ne_true, ih,
          Declarations.addAll_append]
        split
        · rename_i hnil
          rw [List.isEmpty_iff.mp hnil]
          rfl
        · rfl
      · rw [if_neg h, if_neg (fun e => h e.symm), List.append_nil, ih]

theorem nodup_keys_ofAdditions (xs : List (Category × List Declaration)) :
    (ofAdditions xs).groups.keys.Nodup := by
  induction xs using List.reverseRecOn with
  | nil => exact List.nodup_nil
  | append_singleton xs x ih =>
    rw [ofAdditions_concat]
    unfold add
    split
    · exact ih
    · exact Table.nodup_keys_alter ih _ _

/-- The categories stand in the order in which something was first added under them. -/
theorem keys_ofAdditions (xs : List (Category × List Declaration)) :
    (ofAdditions xs).groups.keys =
      ((xs.filter fun x => !x.2.isEmpty).map Prod.fst).eraseDups := by
  induction xs using List.reverseRecOn with
  | nil => rfl
  | append_singleton xs x ih =>
    rw [ofAdditions_concat, List.filter_append]
    unfold add
    split
    · rename_i hnil
      rw [List.filter_cons_of_neg (by simp [hnil]), List.filter_nil, List.append_nil, ih]
    · rename_i hne
      have hmem : x.1 ∈ (ofAdditions xs).groups.keys ↔
          x.1 ∈ (xs.filter fun x => !x.2.isEmpty).map Prod.fst := by
        rw [ih, List.mem_eraseDups]
      rw [List.filter_cons_of_pos (by simpa using hne), List.filter_nil, List.map_append,
        List.map_singleton]
      by_cases h : x.1 ∈ (ofAdditions xs).groups.keys
      · rw [Table.keys_alter_of_mem h, eraseDups_concat_of_mem (hmem.mp h), ih]
      · rw [Table.keys_alter_of_not_mem h, eraseDups_concat_of_not_mem (mt hmem.mpr h), ih]

/-- The categories under which something was added. -/
theorem addedTo_ne_nil_iff {xs : List (Category × List Declaration)} {category : Category} :
    addedTo category xs ≠ [] ↔ category ∈ (xs.filter fun x => !x.2.isEmpty).map Prod.fst := by
  simp only [addedTo, ne_eq, List.flatMap_eq_nil_iff, List.mem_filter, List.mem_map,
    decide_eq_true_eq, Bool.not_eq_true', List.isEmpty_eq_false_iff, not_forall]
  constructor
  · rintro ⟨x, ⟨hx, rfl⟩, hne⟩
    exact ⟨x, ⟨hx, hne⟩, rfl⟩
  · rintro ⟨x, ⟨hx, hne⟩, rfl⟩
    exact ⟨x, ⟨hx, rfl⟩, hne⟩

/-- **The texts of the groups are those of the categories, in order, each merged.** -/
theorem texts_ofAdditions (xs : List (Category × List Declaration)) :
    (ofAdditions xs).texts =
      ((xs.filter fun x => !x.2.isEmpty).map Prod.fst).eraseDups.map fun category =>
        Declaration.render (Declaration.merged (addedTo category xs)) := by
  have hget : ∀ category ∈ (ofAdditions xs).groups.keys,
      (ofAdditions xs).groups.get? category =
        some (Declarations.addAll .empty (addedTo category xs)) := by
    intro category hkey
    rw [keys_ofAdditions, List.mem_eraseDups, ← addedTo_ne_nil_iff] at hkey
    rw [get?_ofAdditions, if_neg (by simpa using hkey)]
  rw [← keys_ofAdditions, texts, Table.values_eq_filterMap (nodup_keys_ofAdditions xs),
    List.filterMap_congr hget, List.filterMap_eq_map', List.map_map]
  exact List.map_congr_left fun category _ => Declarations.text_addAll _

/-- The texts of the groups are those of what was added under the categories. -/
theorem mem_texts_ofAdditions {xs : List (Category × List Declaration)} {t : Text} :
    t ∈ (ofAdditions xs).texts ↔ ∃ category, addedTo category xs ≠ [] ∧
      t = Declarations.text (Declarations.addAll .empty (addedTo category xs)) := by
  rw [texts_ofAdditions, List.mem_map]
  refine exists_congr fun category => ?_
  rw [List.mem_eraseDups, ← addedTo_ne_nil_iff, Declarations.text_addAll, @eq_comm _ t]

end StyleGroups

end OutlineMarkup
