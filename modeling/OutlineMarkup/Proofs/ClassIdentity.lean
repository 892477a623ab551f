/-
  File:      OutlineMarkup/Proofs/ClassIdentity.lean
  Subject:   Neither order nor priority changes the classes of declarations.

  The canonical form of a group depends on what its declarations say, property by property: marks
  go, wherever they stand (`canonicalParts_render`), and the order goes when the parts are sorted.
  Where no property is given two values under one category, what a group says is what was added to
  it, in whatever order (`mem_pairs_addAll`). So additions that differ in order and priority come to
  the same canonical forms, and these get the same names.

  * `Reordered.mem_formsOf_iff`: the canonical forms after additions in another order.
  * **`class_identity_order_free`**: the forms, and the names that a registry gives to them.
-/
import OutlineMarkup.Proofs.ClassNames
import OutlineMarkup.Proofs.Substance

namespace OutlineMarkup

open Text

/-! ## 1. The parts of written declarations -/

namespace Style

/-- The parts of a text are those on both sides of a semicolon. -/
theorem canonicalParts_append (s t : Text) :
    canonicalParts (s ++ ';' :: t) = canonicalParts s ++ canonicalParts t := by
  unfold canonicalParts
  rw [replace_append_blank (by decide) (by decide), List.splitOn_append_cons_self, List.map_append,
    List.filter_append]

/-- A space at the front of a text does not matter. -/
theorem canonicalParts_cons_space (t : Text) : canonicalParts (' ' :: t) = canonicalParts t := by
  have hspace : isBlank ' ' = true := by decide
  unfold canonicalParts
  rw [replace_cons_of_ne (by decide) (by decide), splitOn_cons_of_ne (by decide)]
  obtain ⟨piece, pieces, e⟩ :=
    List.exists_cons_of_ne_nil (List.splitOn_ne_nil ';' (replace Declaration.marker [] t))
  rw [e, List.modifyHead_cons, List.map_cons, List.map_cons, collapse_cons_blank hspace]

/-- Nor does a mark at the end. -/
theorem canonicalParts_append_mark (t : Text) :
    canonicalParts (t ++ ' ' :: Declaration.marker) = canonicalParts t := by
  have hspace : isBlank ' ' = true := by decide
  have hmark : replace Declaration.marker [] Declaration.marker = [] := by decide
  obtain ⟨before, last, e, e'⟩ := splitOnP_concat (p := (· == ';')) (b := ' ') (by decide)
    (replace Declaration.marker [] t)
  unfold canonicalParts List.splitOn
  rw [replace_append_blank (by decide) (by decide), hmark, e, e', List.map_append, List.map_append,
    List.map_singleton, List.map_singleton, collapse_concat_blank hspace]

end Style

namespace Declaration

/-- What a declaration says: its property and its value. -/
def pair (d : Declaration) : Text × Text := (d.property, d.value)

/-- The parts of the text of a property and a value. -/
def partsOfPair (pair : Text × Text) : List Text :=
  Style.canonicalParts (pair.1 ++ ':' :: ' ' :: pair.2)

theorem canonicalParts_body (d : Declaration) :
    Style.canonicalParts d.body = partsOfPair d.pair := by
  cases hi : d.important with
  | false =>
    have e : d.body = d.property ++ ':' :: ' ' :: d.value := by simp [body, markedValue, mark, hi]
    rw [e]
    rfl
  | true =>
    have e : d.body = (d.property ++ ':' :: ' ' :: d.value) ++ ' ' :: marker := by
      simp [body, markedValue, mark, hi]
    rw [e, Style.canonicalParts_append_mark]
    rfl

/-- **The parts of written declarations are those of what they say, one after the other.** -/
theorem canonicalParts_render (ds : List Declaration) :
    Style.canonicalParts (render ds) = (ds.map pair).flatMap partsOfPair := by
  induction ds with
  | nil => decide
  | cons d ds ih =>
    rw [render_cons, Style.canonicalParts_append, canonicalParts_body, List.map_cons,
      List.flatMap_cons, ← ih]
    cases ds with
    | nil => rfl
    | cons e es => rw [if_neg (by simp), Style.canonicalParts_cons_space]

end Declaration

/-! ## 2. What a group says -/

namespace Declarations

/-- No property is given two values. -/
def Consistent (ds : List Declaration) : Prop :=
  ∀ d ∈ ds, ∀ e ∈ ds, d.property = e.property → d.value = e.value

/-- Consistency shows in what is said. -/
theorem Consistent.congr {ds es : List Declaration} (hds : Consistent ds)
    (h : ∀ p, p ∈ ds.map Declaration.pair ↔ p ∈ es.map Declaration.pair) :
    Consistent es := by
  intro d hd e he hproperty
  obtain ⟨d', hd', ed⟩ := List.mem_map.mp ((h _).mpr (List.mem_map_of_mem hd))
  obtain ⟨e', he', ee⟩ := List.mem_map.mp ((h _).mpr (List.mem_map_of_mem he))
  obtain ⟨hdp, hdv⟩ := Prod.mk.inj ed
  obtain ⟨hep, hev⟩ := Prod.mk.inj ee
  rw [← hdv, ← hev]
  exact hds d' hd' e' he' (by rw [hdp, hep, hproperty])

section AddAll

variable {ds : List Declaration}

theorem mem_of_mem_values (ds : List Declaration) :
    ∀ e ∈ (addAll .empty ds).entries, e.2 ∈ ds ∧ e.2.property = e.1 := by
  refine Table.forall_insertAll _ (fun e he => by cases he) fun e he => ?_
  obtain ⟨d, hd, rfl⟩ := List.mem_map.mp he
  exact ⟨hd, rfl⟩

/-- Each property has one declaration in a group. -/
theorem nodup_pairs_addAll (ds : List Declaration) :
    ((addAll .empty ds).values.map Declaration.pair).Nodup := by
  have hkeys : ((addAll .empty ds).values.map Declaration.pair).map Prod.fst =
      (addAll .empty ds).keys := by
    unfold Table.values Table.keys
    rw [List.map_map, List.map_map]
    exact List.map_congr_left fun e he => (mem_of_mem_values ds e he).2
  refine List.Nodup.of_map Prod.fst ?_
  rw [hkeys]
  exact Table.nodup_keys_insertAll _ List.nodup_nil

/-- **A group says what was added to it**, if no property was given two values. -/
theorem mem_pairs_addAll (h : Consistent ds) {p : Text × Text} :
    p ∈ (addAll .empty ds).values.map Declaration.pair ↔ p ∈ ds.map Declaration.pair := by
  constructor
  · intro hp
    obtain ⟨d, hd, rfl⟩ := List.mem_map.mp hp
    obtain ⟨k, hentry⟩ := Table.mem_values.mp hd
    exact List.mem_map_of_mem (mem_of_mem_values ds _ hentry).1
  · intro hp
    obtain ⟨d, hd, rfl⟩ := List.mem_map.mp hp
    -- the last declaration for the property says the same
    have hsome : (ds.reverse.find? fun x => x.property = d.property).isSome = true :=
      List.find?_isSome.mpr ⟨d, List.mem_reverse.mpr hd, decide_eq_true rfl⟩
    obtain ⟨last, hlast⟩ := Option.isSome_iff_exists.mp hsome
    have hmem : last ∈ ds := List.mem_reverse.mp (List.mem_of_find?_eq_some hlast)
    have hproperty : last.property = d.property := by simpa using List.find?_some hlast
    have hget : (addAll .empty ds).get? d.property = some last := by
      rw [get?_addAll, hlast]
      rfl
    have hpair : last.pair = d.pair := Prod.ext hproperty (h last hmem d hd hproperty)
    rw [← hpair]
    exact List.mem_map_of_mem (Table.mem_values_of_get? hget)

end AddAll

/-- Declarations that say the same, in whatever order and however often, have the same canonical
    form. -/
theorem canonical_text_addAll {ds es : List Declaration} (hds : Consistent ds) (hes : Consistent es)
    (h : ∀ p, p ∈ ds.map Declaration.pair ↔ p ∈ es.map Declaration.pair) :
    Style.canonical (text (addAll .empty ds)) = Style.canonical (text (addAll .empty es)) := by
  have hperm : ((addAll .empty ds).values.map Declaration.pair).Perm
      ((addAll .empty es).values.map Declaration.pair) :=
    (List.perm_ext_iff_of_nodup (nodup_pairs_addAll ds) (nodup_pairs_addAll es)).mpr fun p => by
      rw [mem_pairs_addAll hds, mem_pairs_addAll hes, h]
  refine Style.canonical_eq_of_perm ?_
  unfold text
  rw [Declaration.canonicalParts_render, Declaration.canonicalParts_render]
  exact hperm.flatMap_right _

end Declarations

/-! ## 3. Additions in another order -/

namespace StyleGroups

/-- An addition with the marks of its declarations taken off. -/
def unmarked (x : Category × List Declaration) : Category × List Declaration :=
  (x.1, x.2.map fun d => { d with important := false })

/-- The same additions in another order, with priorities set and taken away at will. -/
def Reordered (xs ys : List (Category × List Declaration)) : Prop :=
  (xs.map unmarked).Perm (ys.map unmarked)

/-- No category is given two declarations of one property with different values. -/
def Consistent (xs : List (Category × List Declaration)) : Prop :=
  ∀ x ∈ xs, ∀ y ∈ xs, x.1 = y.1 →
    ∀ d ∈ x.2, ∀ e ∈ y.2, d.property = e.property → d.value = e.value

instance (xs ys : List (Category × List Declaration)) : Decidable (Reordered xs ys) :=
  inferInstanceAs (Decidable (List.Perm _ _))

instance (xs : List (Category × List Declaration)) : Decidable (Consistent xs) :=
  inferInstanceAs (Decidable (∀ x ∈ xs, ∀ y ∈ xs, x.1 = y.1 →
    ∀ d ∈ x.2, ∀ e ∈ y.2, d.property = e.property → d.value = e.value))

/-- The canonical forms of the groups after some additions. -/
def formsOf (xs : List (Category × List Declaration)) : List Text :=
  (ofAdditions xs).texts.map Style.canonical

section Reordering

variable {xs ys : List (Category × List Declaration)}

theorem mem_addedTo {category : Category} {d : Declaration} :
    d ∈ addedTo category xs ↔ ∃ x ∈ xs, x.1 = category ∧ d ∈ x.2 := by
  simp [addedTo, and_assoc]

/-- What is said under a category can be seen without the marks. -/
theorem mem_pairs_addedTo {category : Category} {p : Text × Text} :
    p ∈ (addedTo category xs).map Declaration.pair ↔
      ∃ x ∈ xs.map unmarked, x.1 = category ∧ p ∈ x.2.map Declaration.pair := by
  have hpairs : ∀ x : Category × List Declaration,
      (unmarked x).2.map Declaration.pair = x.2.map Declaration.pair := by
    intro x
    simp [unmarked, Declaration.pair]
  constructor
  · intro hp
    obtain ⟨d, hd, rfl⟩ := List.mem_map.mp hp
    obtain ⟨x, hx, hcategory, hd⟩ := mem_addedTo.mp hd
    refine ⟨unmarked x, List.mem_map_of_mem hx, hcategory, ?_⟩
    rw [hpairs]
    exact List.mem_map_of_mem hd
  · rintro ⟨_, hmem, hcategory, hp⟩
    obtain ⟨x, hx, rfl⟩ := List.mem_map.mp hmem
    rw [hpairs] at hp
    obtain ⟨d, hd, rfl⟩ := List.mem_map.mp hp
    exact List.mem_map_of_mem (mem_addedTo.mpr ⟨x, hx, hcategory, hd⟩)

theorem Reordered.mem_pairs_addedTo (h : Reordered xs ys) (category : Category) (p : Text × Text) :
    p ∈ (addedTo category xs).map Declaration.pair ↔
      p ∈ (addedTo category ys).map Declaration.pair := by
  simp only [StyleGroups.mem_pairs_addedTo, h.mem_iff]

theorem consistent_iff :
    Consistent xs ↔ ∀ category, Declarations.Consistent (addedTo category xs) := by
  constructor
  · intro h category d hd e he hproperty
    obtain ⟨x, hx, hcategory, hd⟩ := mem_addedTo.mp hd
    obtain ⟨y, hy, hcategory', he⟩ := mem_addedTo.mp he
    exact h x hx y hy (hcategory.trans hcategory'.symm) d hd e he hproperty
  · intro h x hx y hy hcategory d hd e he hproperty
    exact h x.1 d (mem_addedTo.mpr ⟨x, hx, rfl, hd⟩) e
      (mem_addedTo.mpr ⟨y, hy, hcategory.symm, he⟩) hproperty

theorem Reordered.consistent (h : Reordered xs ys) (hc : Consistent xs) : Consistent ys :=
  consistent_iff.mpr fun category =>
    (consistent_iff.mp hc category).congr (h.mem_pairs_addedTo category)

/-- **After additions in another order a category has the same canonical form.** -/
theorem Reordered.mem_formsOf (h : Reordered xs ys) (hc : Consistent xs) {form : Text}
    (hform : form ∈ formsOf xs) : form ∈ formsOf ys := by
  obtain ⟨t, ht, rfl⟩ := List.mem_map.mp hform
  obtain ⟨category, hne, rfl⟩ := mem_texts_ofAdditions.mp ht
  have hpairs := h.mem_pairs_addedTo category
  have hne' : addedTo category ys ≠ [] := by
    obtain ⟨d, hd⟩ := List.exists_mem_of_ne_nil _ hne
    obtain ⟨d', hd', _⟩ := List.mem_map.mp ((hpairs _).mp (List.mem_map_of_mem hd))
    exact List.ne_nil_of_mem hd'
  rw [Declarations.canonical_text_addAll (consistent_iff.mp hc category)
    (consistent_iff.mp (h.consistent hc) category) hpairs]
  exact List.mem_map_of_mem (mem_texts_ofAdditions.mpr ⟨category, hne', rfl⟩)

theorem Reordered.mem_formsOf_iff (h : Reordered xs ys) (hc : Consistent xs) (form : Text) :
    form ∈ formsOf xs ↔ form ∈ formsOf ys :=
  ⟨h.mem_formsOf hc, Reordered.mem_formsOf (List.Perm.symm h) (h.consistent hc)⟩

/-- The forms are also the same if they are made canonical once more. -/
theorem Reordered.sameForms_formsOf (h : Reordered xs ys) (hc : Consistent xs) :
    ClassRegistry.SameForms (formsOf xs) (formsOf ys) := by
  intro form
  simp only [List.mem_map, h.mem_formsOf_iff hc]

end Reordering

/-! ## 4. Classes -/

/-- A form that is made canonical once more is still not empty. -/
theorem canonical_formsOf_ne_nil {xs : List (Category × List Declaration)} {form : Text}
    (hform : form ∈ formsOf xs) : Style.canonical form ≠ [] := by
  obtain ⟨t, ht, rfl⟩ := List.mem_map.mp hform
  have hcolon : ':' ∈ t := (solid_ofAdditions xs).colon_mem_texts t ht
  exact List.ne_nil_of_mem (Style.colon_mem_canonical (Style.colon_mem_canonical hcolon))

/-- **Neither order nor priority changes the classes.** Where no category is given two values for a
    property, the same additions in any order, with any marks, come to the same canonical forms. In
    a registry with any stem and any history the texts of the groups are named alike, and so are the
    forms themselves; no call is refused. If the forms have different hashes up to sign, each of
    them has the same name after both. -/
theorem class_identity_order_free {xs ys : List (Category × List Declaration)}
    (h : Reordered xs ys) (hc : Consistent xs) :
    (∀ form, form ∈ formsOf xs ↔ form ∈ formsOf ys) ∧
    ∀ (stem : Text) (history : List Text),
      let r := ({ stem } : ClassRegistry).after history
      r.NamedAlike (ofAdditions xs).texts (ofAdditions ys).texts ∧
      r.NamedAlike (formsOf xs) (formsOf ys) ∧
      ((∀ f ∈ formsOf xs, ∀ g ∈ formsOf xs,
          ClassRegistry.hashSize f = ClassRegistry.hashSize g → f = g) →
        ∀ form ∈ formsOf xs,
          (r.after (ofAdditions xs).texts).nameOf? form =
            (r.after (ofAdditions ys).texts).nameOf? form) := by
  refine ⟨h.mem_formsOf_iff hc, fun stem history => ?_⟩
  intro r
  have hnumbered : r.Numbered := (ClassRegistry.numbered_empty stem).after history
  have hexact : r.Exact := (ClassRegistry.exact_empty stem).after history
  have hforms : ClassRegistry.SameForms (ofAdditions xs).texts (ofAdditions ys).texts :=
    h.mem_formsOf_iff hc
  have hne : ∀ t ∈ (ofAdditions xs).texts, Style.canonical t ≠ [] :=
    (solid_ofAdditions xs).canonical_texts_ne_nil
  refine ⟨hnumbered.namedAlike hexact hforms hne, ?_, ?_⟩
  · exact hnumbered.namedAlike hexact (h.sameForms_formsOf hc) fun _ => canonical_formsOf_ne_nil
  · exact hnumbered.nameOf?_after hexact hforms hne

/-- A value with a semicolon and one with a mark inside, a property given twice, an addition of
    nothing: in another order, with other marks, the categories change places, and the classes stay
    the same. -/
theorem class_identity_order_free_swapped :
    let xs : List (Category × List Declaration) :=
      [(.color, [⟨"color", "red; x", false⟩, ⟨"fill", "a !important b", true⟩]), (.border, []),
        (.sizing, [⟨"width", "1px", false⟩]), (.color, [⟨"color", "red; x", true⟩])]
    let ys : List (Category × List Declaration) :=
      [(.sizing, [⟨"width", "1px", true⟩]), (.color, [⟨"color", "red; x", false⟩]), (.border, []),
        (.color, [⟨"color", "red; x", true⟩, ⟨"fill", "a !important b", false⟩])]
    let r := ({ stem := "u" } : ClassRegistry).after ["width: 2px"]
    Reordered xs ys ∧ Consistent xs ∧
      (ofAdditions xs).texts =
        ["color: red; x !important; fill: a !important b !important;", "width: 1px;"] ∧
      formsOf xs = ["color: red; fill: a b; x", "width: 1px"] ∧
      formsOf ys = ["width: 1px", "color: red; fill: a b; x"] ∧
      r.NamedAlike (ofAdditions xs).texts (ofAdditions ys).texts ∧
      ∀ form ∈ formsOf xs, (r.after (ofAdditions xs).texts).nameOf? form =
        (r.after (ofAdditions ys).texts).nameOf? form := by
  intro xs ys r
  have h : Reordered xs ys := by decide +kernel
  have hc : Consistent xs := by decide +kernel
  obtain ⟨halike, _, hnames⟩ := (class_identity_order_free h hc).2 "u" ["width: 2px"]
  exact ⟨h, hc, by decide +kernel, by decide +kernel, by decide +kernel, halike,
    hnames (by decide +kernel)⟩

end StyleGroups

end OutlineMarkup
