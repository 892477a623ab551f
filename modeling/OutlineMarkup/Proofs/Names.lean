/-
  File:      OutlineMarkup/Proofs/Names.lean
  Subject:   The names that a source can bring into the markup.

  Text and values are escaped when they are written, the names of tags and of attributes are not. A
  tag comes from a table, and the key of a pair has only characters of a key; but the name in an
  `aria` value is cut out of the value as it stands, and all that is asked of it is not to be empty.

  * `isName_classify`: every tag can be written;
  * `ElementPlan.mem_keys_read`: the attributes of an element are those that the words of its line
    give, each on its own (`attribute?`): a word adds its own attribute (`attributeNames_addWord`),
    and plain words go on with styles only (`Features.GoesOnWithStyle`);
  * `attribute?_cases`: what a word gives can be written, or it is the name in an `aria` value;
  * **`names_forged_only_by_aria`**: so these are the only names in a compiled tree that can break
    out of a start tag, and each of them gets into the tree.
-/
import OutlineMarkup.Proofs.Agreement
import OutlineMarkup.Proofs.Decoding

namespace OutlineMarkup

open Markup

/-! ## 1. Tags -/

theorem isName_inferTag (e : Evidence) : isName (inferTag e) = true := by
  have hrules : ∀ r ∈ inference, isName r.tag = true := List.all_eq_true.mp (by decide)
  unfold inferTag
  split
  · rename_i r hr
    exact hrules r (List.mem_of_find?_eq_some hr)
  · dsimp only
    split
    · decide
    · decide

/-- **Every tag can be written.** -/
theorem isName_classify (code : Text) (classes : List Text) (id : Text) (text : Option Text)
    (hasChildren : Bool) : isName (classify code classes id text hasChildren) = true := by
  have htags : ∀ x ∈ elementTags, isName x.2 = true := List.all_eq_true.mp (by decide)
  unfold classify
  dsimp only
  split
  · decide
  · split
    · exact isName_inferTag _
    · split
      · rename_i tag htag
        exact htags (code, tag) (mem_of_lookup_eq_some htag)
      · exact isName_inferTag _

/-! ## 2. Keys -/

theorem toNat_of_isAlphanum {c : Char} (h : c.isAlphanum = true) :
    (48 ≤ c.toNat ∧ c.toNat ≤ 57) ∨ (65 ≤ c.toNat ∧ c.toNat ≤ 90) ∨
      (97 ≤ c.toNat ∧ c.toNat ≤ 122) := by
  rcases (Bool.or_eq_true _ _).mp h with hletter | hdigit
  · rcases (Bool.or_eq_true _ _).mp hletter with hupper | hlower
    · exact .inr (.inl (of_decide_eq_true hupper))
    · have hle := Bool.and_eq_true_iff.mp hlower
      exact .inr (.inr ⟨of_decide_eq_true hle.1, of_decide_eq_true hle.2⟩)
  · have hle := Bool.and_eq_true_iff.mp hdigit
    exact .inl ⟨of_decide_eq_true hle.1, of_decide_eq_true hle.2⟩

theorem isNameChar_of_isKeyChar {c : Char} (h : Token.isKeyChar c = true) :
    isNameChar c = true := by
  have hrange : c.toNat = 45 ∨ (48 ≤ c.toNat ∧ c.toNat ≤ 58) ∨ (65 ≤ c.toNat ∧ c.toNat ≤ 122) := by
    simp only [Token.isKeyChar, Bool.or_eq_true, decide_eq_true_eq] at h
    rcases h with ((halnum | rfl) | rfl) | rfl
    · have halnum := toNat_of_isAlphanum halnum
      omega
    · decide
    · decide
    · decide
  have hblank : Text.isBlank c = false := by
    simp only [Text.isBlank, Text.inRanges, Text.blankRanges, List.any_cons, List.any_nil,
      Bool.or_eq_false_iff, Bool.and_eq_false_iff, decide_eq_false_iff_not, and_true]
    omega
  have hmarks : (['"', '\'', '<', '>', '/', '='] : Text).all (!Token.isKeyChar ·) = true := by
    decide
  have hmark : c ∉ (['"', '\'', '<', '>', '/', '='] : Text) := by
    intro hm
    have hkey := List.all_eq_true.mp hmarks c hm
    rw [h] at hkey
    cases hkey
  rw [isNameChar, hblank, Bool.eq_false_iff.mpr (mt List.contains_iff_mem.mp hmark)]
  rfl

/-- A key can be written as the name of an attribute. -/
theorem isName_key {word : Text} {pair : Text × Text} (h : Token.assignment? word = some pair) :
    isName pair.1 = true := by
  unfold Token.assignment? at h
  split at h
  · rename_i first c cs hhead _
    split at h
    · rename_i halpha
      cases h
      obtain ⟨rest, rfl⟩ := List.head?_eq_some_iff.mp hhead
      have hfirst : Token.isKeyChar first = true := by
        have halnum : first.isAlphanum = true := (Bool.or_eq_true _ _).mpr (.inl halpha)
        rw [Token.isKeyChar, halnum]
        rfl
      have hne : ((first :: rest).takeWhile Token.isKeyChar).isEmpty = false := by
        rw [List.takeWhile_cons_of_pos hfirst]
        rfl
      have hall : ((first :: rest).takeWhile Token.isKeyChar).all isNameChar = true :=
        List.all_eq_true.mpr fun c hc => isNameChar_of_isKeyChar (List.mem_takeWhile_imp hc)
      rw [isName, hne, hall]
      rfl
    · cases h
  · cases h

/-! ## 3. Attributes of pairs -/

/-- The name of the attribute that an `aria` value gives. -/
def ariaAttribute? (value : Text) : Option Text :=
  match Text.cut? ':' value with
  | some (n :: ns, _ :: _) => some ("aria-" ++ (n :: ns))
  | _ => none

/-- The name of the attribute that a pair gives to an element with the given tag. -/
def attributeOfPair? (tag : Text) (pair : Text × Text) : Option Text :=
  if pair.1 = "h" ∧ tag = "a" then some "href"
  else if pair.1 = "role" then some "role"
  else if pair.1 = "aria" then ariaAttribute? (Token.unquote pair.2)
  else if (StyleKey.ofToken? pair.1).isSome then none
  else some pair.1

namespace Attire

theorem mem_keys_setAttribute {a : Attire} {name value name' : Text} :
    name' ∈ (a.setAttribute name value).attributes.keys ↔
      name' ∈ a.attributes.keys ∨ some name = some name' := by
  rw [setAttribute, Option.some.injEq, eq_comm (a := name)]
  exact Table.mem_keys_alter

theorem mem_keys_addAria {a : Attire} {value : Text} {line : Option Int} {name : Text} :
    name ∈ (a.addAria value line).value.attributes.keys ↔
      name ∈ a.attributes.keys ∨ ariaAttribute? value = some name := by
  have hnone : name ∈ a.attributes.keys ↔ name ∈ a.attributes.keys ∨ none = some name := by simp
  unfold addAria ariaAttribute?
  rcases Text.cut? ':' value with _ | ⟨_ | ⟨n, ns⟩, _ | ⟨v, vs⟩⟩
  · exact hnone
  · exact hnone
  · exact hnone
  · exact hnone
  · exact mem_keys_setAttribute

/-- A pair adds its own attribute, and no other. -/
theorem mem_keys_addPair {d : Draft} {tag : Text} {line : Option Int} {a : Attire}
    {pair : Text × Text} {name : Text} :
    name ∈ (a.addPair d tag line pair).value.attributes.keys ↔
      name ∈ a.attributes.keys ∨ attributeOfPair? tag pair = some name := by
  unfold addPair attributeOfPair?
  dsimp only
  split
  · exact mem_keys_setAttribute
  · split
    · exact mem_keys_setAttribute
    · split
      · exact mem_keys_addAria
      · split
        · rename_i key hkey
          rw [hkey]
          exact (or_iff_left nofun).symm
        · rename_i hkey
          rw [hkey]
          exact mem_keys_setAttribute

theorem mem_keys_foldl_addPair {d : Draft} {tag : Text} {line : Option Int} {a : Attire}
    (pairs : List (Text × Text)) {name : Text} :
    name ∈ (pairs.foldl (fun a pair => (a.addPair d tag line pair).value) a).attributes.keys ↔
      name ∈ a.attributes.keys ∨ name ∈ pairs.filterMap (attributeOfPair? tag) := by
  induction pairs generalizing a with
  | nil => simp
  | cons pair pairs ih =>
    rw [List.foldl_cons, ih, mem_keys_addPair, List.mem_filterMap, List.mem_filterMap,
      List.exists_mem_cons_iff, or_assoc]

end Attire

/-! ## 4. Attributes of words -/

/-- The pair that a word of an element line is kept as; pairs for classes and text are not kept. -/
def keptPair? (word : Text) : Option (Text × Text) :=
  (Token.assignment? word).filter fun pair =>
    !(["cls", "class", "t", "text"] : List Text).contains pair.1

/-- The name of the attribute that a word gives to an element with the given tag. -/
def attribute? (tag word : Text) : Option Text := (keptPair? word).bind (attributeOfPair? tag)

theorem assignment?_of_isSelector {word : Text} (h : Token.isSelector word = true) :
    Token.assignment? word = none := by
  unfold Token.assignment?
  split
  · rename_i first c cs hhead _
    rw [Token.isSelector, hhead] at h
    have hsign : first = '.' ∨ first = '#' := by simpa using h
    rcases hsign with rfl | rfl
    · rfl
    · rfl
  · rfl

/-- A value that goes on over several words is that of a style, and gives no attribute. -/
theorem attributeOfPair?_of_continues {key : Text} (h : StyleKey.continues key = true)
    (tag value : Text) : attributeOfPair? tag (key, value) = none := by
  have hne : ∀ k : Text, StyleKey.continues k = false → key ≠ k := by
    rintro k hk rfl
    rw [hk] at h
    cases h
  have hstyle : (StyleKey.ofToken? key).isSome = true := Option.isSome_of_any h
  unfold attributeOfPair?
  rw [if_neg fun hk => hne "h" (by decide) hk.1, if_neg (hne "role" (by decide)),
    if_neg (hne "aria" (by decide)), if_pos hstyle]

namespace Features

theorem pairs_ofCode (code : Text) (line : Option Int) : (ofCode code line).value.pairs = [] := by
  unfold ofCode
  split
  · rfl
  · split
    · rfl
    · rfl

/-- The names of the attributes that the pairs of features give, latest first. -/
def attributeNames (tag : Text) (f : Features) : List Text :=
  f.pairs.filterMap (attributeOfPair? tag)

theorem attributeNames_addPair {word key value : Text}
    (h : Token.assignment? word = some (key, value)) (tag : Text) (f : Features) :
    (f.addPair key value).attributeNames tag =
      (attribute? tag word).toList ++ f.attributeNames tag := by
  rw [attribute?, keptPair?, h]
  unfold addPair
  split
  · rename_i hclasses
    rcases hclasses with rfl | rfl
    · rfl
    · rfl
  · rename_i hclasses
    split
    · rename_i htext
      rcases htext with rfl | rfl
      · rfl
      · rfl
    · rename_i htext
      rw [not_or] at hclasses htext
      have hkept : key ∉ (["cls", "class", "t", "text"] : List Text) := by
        simp only [List.mem_cons, List.not_mem_nil, or_false, not_or]
        exact ⟨hclasses.1, hclasses.2, htext.1, htext.2⟩
      rw [Option.filter_some_pos (by simpa using hkept)]
      show List.filterMap _ ((key, value) :: f.pairs) = _
      rw [List.filterMap_cons, Option.bind_some]
      cases attributeOfPair? tag (key, value) with
      | none => rfl
      | some name => rfl

/-- **A word adds its own attribute, and no other.** -/
theorem attributeNames_addWord (tag : Text) {f : Features} (hf : f.GoesOnWithStyle)
    (line : Option Int) (word : Text) :
    (f.addWord line word).value.attributeNames tag =
      (attribute? tag word).toList ++ f.attributeNames tag := by
  unfold addWord
  split
  · rename_i hsel
    rw [attribute?, keptPair?, assignment?_of_isSelector hsel]
    rfl
  · split
    · rename_i key value h
      exact attributeNames_addPair h tag f
    · rename_i h
      have hnone : attribute? tag word = none := by rw [attribute?, keptPair?, h]; rfl
      rw [hnone]
      unfold addPlain
      split
      · rename_i hc
        -- with the word or without it, the value of a style gives no attribute
        obtain ⟨key, value, earlier, e, hkey⟩ := hf hc
        rw [Reported.value_pure, attributeNames, attributeNames, e]
        simp [StyleKey.extendLatest, attributeOfPair?_of_continues hkey]
      · rfl

theorem attributeNames_foldl_addWord (tag : Text) (line : Option Int) (words : List Text)
    {f : Features} (hf : f.GoesOnWithStyle) :
    (words.foldl (fun f word => (f.addWord line word).value) f).attributeNames tag =
      (words.filterMap (attribute? tag)).reverse ++ f.attributeNames tag := by
  induction words generalizing f with
  | nil => rfl
  | cons word words ih =>
    rw [List.foldl_cons, ih (hf.addWord line word), attributeNames_addWord tag hf]
    cases h : attribute? tag word with
    | none => rw [List.filterMap_cons_none h]; rfl
    | some name =>
      rw [List.filterMap_cons_some h, List.reverse_cons, List.append_assoc]
      rfl

/-- The attributes of an element line are those of its words, in order. -/
theorem attributeNames_read (tag code : Text) (words : List Text) (line : Option Int) :
    (read code words line).value.attributeNames tag = words.filterMap (attribute? tag) := by
  unfold read
  simp only [Reported.value_bind, Reported.value_pure, Reported.value_foldlM]
  have h := attributeNames_foldl_addWord tag line words (goesOnWithStyle_ofCode code line)
  have hcode : (ofCode code line).value.attributeNames tag = [] := by
    rw [attributeNames, pairs_ofCode]
    rfl
  rw [hcode, List.append_nil] at h
  rw [attributeNames, List.filterMap_reverse]
  exact List.reverse_eq_iff.mpr h

end Features

/-- The attributes of an element are those that the words of its line give. -/
theorem ElementPlan.mem_keys_read {d : Draft} {line : Line} {code : Text} {words : List Text}
    {hasChildren : Bool} {name : Text} :
    let e := (ElementPlan.read d line code words hasChildren).value.element
    name ∈ e.attributes.keys ↔ ∃ word ∈ words, attribute? e.tag word = some name := by
  intro e
  have hread := Features.attributeNames_read e.tag code words line.number
  rw [← List.mem_filterMap, ← hread]
  show name ∈ (List.foldlM _ _ _ : Reported Attire).value.attributes.keys ↔ _
  rw [Reported.value_foldlM, Attire.mem_keys_foldl_addPair]
  exact or_iff_right List.not_mem_nil

/-! ## 5. Names that can break out -/

/-- The name of the attribute that a word gives if it is an `aria` word. -/
def ariaAttributeOfWord? (word : Text) : Option Text :=
  (Token.assignment? word).bind fun pair =>
    if pair.1 = "aria" then ariaAttribute? (Token.unquote pair.2) else none

theorem attribute?_of_aria {word name : Text} (h : ariaAttributeOfWord? word = some name)
    (tag : Text) : attribute? tag word = some name := by
  obtain ⟨⟨key, value⟩, hword, hname⟩ := Option.bind_eq_some_iff.mp h
  split at hname
  · rename_i hkey
    cases hkey
    rw [attribute?, keptPair?, hword]
    exact hname
  · cases hname

/-- **What a word gives can be written, or it is the name in an `aria` value.** -/
theorem attribute?_cases {tag word name : Text} (h : attribute? tag word = some name) :
    isName name = true ∨ ariaAttributeOfWord? word = some name := by
  obtain ⟨pair, hpair, hname⟩ := Option.bind_eq_some_iff.mp h
  have hword : Token.assignment? word = some pair := (Option.filter_eq_some_iff.mp hpair).1
  unfold attributeOfPair? at hname
  split at hname
  · cases hname
    exact .inl (by decide)
  · split at hname
    · cases hname
      exact .inl (by decide)
    · split at hname
      · rename_i hkey
        rw [ariaAttributeOfWord?, hword, Option.bind_some, if_pos hkey]
        exact .inr hname
      · split at hname
        · cases hname
        · cases hname
          exact .inl (isName_key hword)

/-- The names of the attributes that the `aria` words of an element line give. -/
def Line.ariaAttributes (l : Line) : List Text :=
  match l.elementWords with
  | .ok (_, words, _) => words.filterMap ariaAttributeOfWord?
  | .error _ => []

/-- The names of the attributes that the `aria` words in the body of a source give. -/
def ariaAttributes (config : Config) (source : Text) : List Text :=
  (elementLines 0 ((linesOfBody config source).flatMap (Statement.writeOut config))).flatMap
    fun x => x.1.ariaAttributes

/-- An element has a tag that can be written, all attributes that `aria` words on its line give,
    and no others that cannot be written. -/
theorem Line.names_of_plan {d : Draft} {l : Line} {following : List Line} {plan : ElementPlan}
    (ok : l.plan d following = .ok plan) :
    isName plan.element.tag = true ∧
      (∀ name ∈ plan.element.attributes.keys, isName name = true ∨ name ∈ l.ariaAttributes) ∧
      ∀ name ∈ l.ariaAttributes, name ∈ plan.element.attributes.keys := by
  obtain ⟨⟨code, words, opens⟩, hw, e⟩ := bind_eq_ok.mp ok
  cases e
  rw [ariaAttributes, hw]
  refine ⟨isName_classify _ _ _ _ _, fun name hname => ?_, fun name hname => ?_⟩
  · obtain ⟨word, hword, h⟩ := ElementPlan.mem_keys_read.mp hname
    exact (attribute?_cases h).imp_right fun h => List.mem_filterMap.mpr ⟨word, hword, h⟩
  · obtain ⟨word, hword, h⟩ := List.mem_filterMap.mp hname
    exact ElementPlan.mem_keys_read.mpr ⟨word, hword, attribute?_of_aria h _⟩

section Dressed

variable {plan : ElementPlan} {d : Draft} {e : Element}

theorem ElementPlan.Dresses.tag_eq (h : plan.Dresses d e) : e.tag = plan.element.tag := by
  have htag : e.bare.tag = plan.element.bare.tag := by rw [h.bare]
  exact htag

theorem ElementPlan.Dresses.attributes_eq (h : plan.Dresses d e) :
    e.attributes = plan.element.attributes := by
  have hattributes : e.bare.attributes = plan.element.bare.attributes := by rw [h.bare]
  exact hattributes

end Dressed

theorem exists_left_of_forall₂ {α β : Type} {R : α → β → Prop} {as : List α} {bs : List β}
    (h : List.Forall₂ R as bs) {b : β} (hb : b ∈ bs) : ∃ a ∈ as, R a b := by
  induction h with
  | nil => cases hb
  | cons hab _ ih =>
    rcases List.mem_cons.mp hb with rfl | hb
    · exact ⟨_, List.mem_cons_self, hab⟩
    · obtain ⟨a, ha, hr⟩ := ih hb
      exact ⟨a, List.mem_cons_of_mem _ ha, hr⟩

theorem Element.mem_htmlAttributes {e : Element} {name : Text} (h : name ∈ e.attributes.keys) :
    name ∈ e.htmlAttributes.keys :=
  (Table.mem_keys_insertAll _).mpr (.inr h)

theorem Element.hasAttributes_of_mem_keys {e : Element} {name : Text}
    (h : name ∈ e.attributes.keys) : e.hasAttributes = true := by
  have hne : e.attributes.isEmpty = false := by
    obtain ⟨a, ha, _⟩ := List.mem_map.mp h
    exact List.isEmpty_eq_false_iff.mpr (List.ne_nil_of_mem ha)
  rw [hasAttributes, hne, Bool.not_false, Bool.or_true]

/-- **Only `aria` words forge markup.** Where a tab can be as wide as the unit, a source compiles.
    Every tag in the compiled tree can be written, and so can the name of every attribute, unless it
    is one that an `aria` word of the body gives. All these are in the tree, whatever the value has
    before its colon. -/
theorem names_forged_only_by_aria {config : Config} (hfit : config.TabsFit) (source : Text) :
    ∃ c, compile config source = .ok c ∧
      (∀ e ∈ c.root.labels, isName e.tag = true ∧ ∀ name ∈ e.htmlAttributes.keys,
        isName name = true ∨ name ∈ ariaAttributes config source) ∧
      ∀ name ∈ ariaAttributes config source,
        ∃ e ∈ c.root.labels, name ∈ e.htmlAttributes.keys := by
  obtain ⟨passes, media, ok, _, _, _, _, hdressed, _⟩ := Passes.dressed hfit source
  refine ⟨passes.result, compile_of_run ok, fun e he => ?_, fun name hname => ?_⟩
  · rcases List.mem_cons.mp he with rfl | he
    · -- the root has no attributes of its own
      exact ⟨rfl, fun name h => .inl ((isName_or_mem_keys h).resolve_right List.not_mem_nil)⟩
    · obtain ⟨x, hx, d, plan, _, _, hplan, hdress⟩ :=
        exists_left_of_forall₂ hdressed (passes.forest.labels_prune_sublist.subset he)
      obtain ⟨htag, hnames, _⟩ := Line.names_of_plan hplan
      rw [← hdress.tag_eq] at htag
      rw [← hdress.attributes_eq] at hnames
      refine ⟨htag, fun name h => ?_⟩
      rcases isName_or_mem_keys h with h | h
      · exact .inl h
      · exact (hnames name h).imp_right fun h => List.mem_flatMap.mpr ⟨x, hx, h⟩
  · -- an element with an attribute is not pruned
    obtain ⟨x, hx, hname⟩ := List.mem_flatMap.mp hname
    obtain ⟨e, he, d, plan, _, _, hplan, hdress⟩ := exists_left_of_forall₂ hdressed.flip hx
    have hkey := (Line.names_of_plan hplan).2.2 name hname
    rw [← hdress.attributes_eq] at hkey
    exact ⟨e, List.mem_cons_of_mem _
      (Forest.mem_labels_prune he (Element.hasAttributes_of_mem_keys hkey)),
      Element.mem_htmlAttributes hkey⟩

/-- Names of a literal attribute, of a link and of a class, and that of an `aria` word with a blank
    in it: the last is the only one that cannot be written. -/
theorem names_forged_only_by_aria_mixed :
    let source : Text := "main .x\n  a t=y h=/z lang=en aria=\"b c:d\""
    (Config.default).TabsFit ∧ ariaAttributes .default source = ["aria-b c".toList] ∧
    ∃ c, compile .default source = .ok c ∧
      (c.root.labels.flatMap fun e => e.htmlAttributes.keys) =
        ["id".toList, "class".toList, "href".toList, "lang".toList, "aria-b c".toList] ∧
      ∀ e ∈ c.root.labels, isName e.tag = true ∧ ∀ name ∈ e.htmlAttributes.keys,
        isName name = true ∨ name ∈ ariaAttributes .default source := by
  intro source
  have hfit : (Config.default).TabsFit := by decide
  obtain ⟨c, ok, hnames, _⟩ := names_forged_only_by_aria hfit source
  have hkeys : (compile .default source).map
      (fun c => c.root.labels.flatMap fun e => e.htmlAttributes.keys) =
      .ok ["id".toList, "class".toList, "href".toList, "lang".toList, "aria-b c".toList] := by
    decide +kernel
  rw [ok] at hkeys
  exact ⟨hfit, by decide +kernel, c, ok, Except.ok.inj hkeys, hnames⟩

/-- The value of an `aria` word ends a start tag and begins another one. -/
theorem aria_name_forges_tag :
    let compiled := compile .default "p t=a aria=\"x><b:y\"".toList
    (compiled.map fun c => String.ofList (Markup.elements c.root.children)) =
      .ok "<p aria-x><b=\"y\">a</p>" ∧
    (compiled.map fun c => (c.root.labels.flatMap fun e => e.htmlAttributes.keys).filter
      (!isName ·)) = .ok ["aria-x><b"] := by
  decide +kernel

end OutlineMarkup
