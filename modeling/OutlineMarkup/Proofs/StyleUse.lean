/-
  File:      OutlineMarkup/Proofs/StyleUse.lean
  Subject:   Where a document uses style keys, and what comes of it.

  A use is a style key with its value on a line. Which uses a line has depends on its words alone:

  * `Draft.resolve_eq_nil_iff`: a use declares something exactly if its key accepts the value;
  * `ElementPlan.read_styles_uses`, `ElementPlan.read_undeclared`: the styles of an element line,
    and the variables that it finds undeclared, are those of its uses, one after the other;
  * `Directive.resolveWords_uses`, `Directive.resolveWords_undeclared`: the same for the words on a
    line of a directive.
-/
import OutlineMarkup.Proofs.Diagnostics

namespace OutlineMarkup

/-! ## 1. Values that a key accepts -/

namespace Style

/-- What is written out for a trimmed value has a character that is not blank, as the value has. -/
theorem exists_not_blank_substitute {v : Text} (h : Text.IsTrimmed v) (hne : v ≠ []) :
    ∃ c ∈ substitute v, Text.isBlank c = false := by
  cases v with
  | nil => exact absurd rfl hne
  | cons c cs =>
    unfold substitute pieces piecesFrom
    split
    · exact ⟨'v', List.mem_append_left _ List.mem_cons_self, by decide⟩
    · exact ⟨c, List.mem_cons_self, h.head c rfl⟩

/-- Only a reference brings in a parenthesis. -/
theorem substitute_eq_self {v : Text} (h : '(' ∉ substitute v) : substitute v = v := by
  have hpieces : ∀ v : Text, '(' ∉ (piecesFrom 0 v).flatMap Piece.css →
      (piecesFrom 0 v).flatMap Piece.css = v := by
    intro v
    induction v with
    | nil => exact fun _ => rfl
    | cons c cs ih =>
      unfold piecesFrom
      split
      · intro h
        exact absurd (List.mem_append_left _ (List.mem_append_left _ (List.mem_append_left _
          (by decide)))) h
      · intro h
        exact congrArg (c :: ·) (ih fun hmem => h (List.mem_cons_of_mem _ hmem))
  exact hpieces v h

theorem normalizeColor_ne_nil {v : Text} (h : v ≠ []) : normalizeColor v ≠ [] := by
  have hlong : doubleHex v ≠ [] := by
    unfold doubleHex
    split
    · split
      · exact List.cons_ne_nil _ _
      · exact h
    · exact h
  have hlowered : (if isLongHex (doubleHex v) then (doubleHex v).map Char.toLower
      else doubleHex v) ≠ [] := by
    split
    · exact fun h => hlong (List.map_eq_nil_iff.mp h)
    · exact hlong
  unfold normalizeColor
  dsimp only
  generalize (if isLongHex (doubleHex v) then (doubleHex v).map Char.toLower
    else doubleHex v) = lowered at hlowered
  split
  · decide
  · split
    · decide
    · exact hlowered

theorem toPixels_ne_nil {v : Text} {c : Char} (hc : c ∈ v) (hb : Text.isBlank c = false) :
    toPixels v ≠ [] := by
  refine Text.join_ne_nil (by simpa using Text.words_ne_nil hb hc) fun w hw => ?_
  obtain ⟨u, hu, rfl⟩ := List.mem_map.mp hw
  have hne := Text.ne_nil_of_mem_words hu
  split
  · exact List.append_ne_nil_of_left_ne_nil hne _
  · exact hne

end Style

/-- Whether a key accepts a value: not if it is blank, and for a direction and for wrapping only if
    it is one of the words for them. -/
def StyleKey.accepts (key : StyleKey) (value : Text) : Bool :=
  let value := Text.strip value
  match key with
  | .direction => value == "col".toList || value == "column".toList || value == "row".toList
  | .wrap => value == "wrap".toList || value == "nowrap".toList || value == "wrap-reverse".toList
  | _ => !value.isEmpty

namespace Draft

theorem prepare_ne_nil (key : StyleKey) {v : Text} {c : Char} (hc : c ∈ v)
    (hb : Text.isBlank c = false) : prepare key v ≠ [] := by
  have hne : v ≠ [] := List.ne_nil_of_mem hc
  have hpixels : key.isColor = true → key.inPixels = false := by cases key <;> decide
  unfold prepare
  dsimp only
  by_cases hcolor : key.isColor = true
  · rw [if_pos hcolor, hpixels hcolor, if_neg Bool.false_ne_true]
    exact Style.normalizeColor_ne_nil hne
  · rw [if_neg hcolor]
    split
    · exact Style.toPixels_ne_nil hc hb
    · exact hne

theorem animation_ne_nil (d : Draft) {v : Text} (h : Text.words v ≠ []) : d.animation v ≠ [] := by
  unfold animation
  split
  · rename_i hnil
    exact absurd hnil h
  · exact List.append_ne_nil_of_right_ne_nil _ (List.cons_ne_nil _ _)

/-- What a key declares for a value with something on it is nothing only for the two keys that know
    their words. -/
theorem declarationsOf_eq_nil_iff (d : Draft) (key : StyleKey) {v : Text} (h : Text.IsTrimmed v)
    (hne : v ≠ []) :
    d.declarationsOf key (prepare key (Style.substitute v)) = [] ↔ key.accepts v = false := by
  have hstrip : Text.strip v = v := Text.strip_eq_self_iff.mpr h
  obtain ⟨c, hc, hb⟩ := Style.exists_not_blank_substitute h hne
  -- a word for a direction or for wrapping is not made by a reference
  have hword : ∀ word : Text, '(' ∉ word → Style.substitute word = word →
      (Style.substitute v = word ↔ v = word) := by
    intro word hparen hself
    constructor
    · intro e
      rw [← e, Style.substitute_eq_self (e ▸ hparen)]
    · rintro rfl
      exact hself
  unfold StyleKey.accepts
  rw [hstrip]
  cases key with
  | direction =>
    have hcol := hword "col" (by decide) (by decide)
    have hcolumn := hword "column" (by decide) (by decide)
    have hrow := hword "row" (by decide) (by decide)
    show (if Style.substitute v = "col".toList ∨ Style.substitute v = "column".toList then _
      else if Style.substitute v = "row".toList then _ else _) = [] ↔ _
    split
    · rename_i hv
      rcases hv.imp hcol.mp hcolumn.mp with rfl | rfl <;> decide
    · split
      · rename_i hv
        obtain rfl := hrow.mp hv
        decide
      · simp_all
  | wrap =>
    have hwrap := hword "wrap" (by decide) (by decide)
    have hnowrap := hword "nowrap" (by decide) (by decide)
    have hreverse := hword "wrap-reverse" (by decide) (by decide)
    show (if Style.substitute v = "wrap".toList ∨ Style.substitute v = "nowrap".toList ∨
      Style.substitute v = "wrap-reverse".toList then _ else _) = [] ↔ _
    split
    · rename_i hv
      rcases hv.imp hwrap.mp (Or.imp hnowrap.mp hreverse.mp) with rfl | rfl | rfl <;> decide
    · simp_all
  | animation => simp [declarationsOf, prepare, StyleKey.isColor, StyleKey.inPixels, hne,
      d.animation_ne_nil (Text.words_ne_nil hb hc)]
  | align =>
    simp only [declarationsOf]
    split <;> simp [hne]
  | _ => simp [declarationsOf, hne]

/-- **A use declares something exactly if its key accepts the value.** -/
theorem resolve_eq_nil_iff (d : Draft) (key : StyleKey) (value : Text) (p : Priority)
    (line : Option Int) : (d.resolve key value p line).value = [] ↔ key.accepts value = false := by
  have hvalue : (d.resolve key value p line).value =
      if (prepare key (Style.substitute (Text.strip value))).isEmpty then []
      else p.apply (d.declarationsOf key (prepare key (Style.substitute (Text.strip value)))) := rfl
  have htrimmed := Text.isTrimmed_strip value
  have haccepts : key.accepts (Text.strip value) = key.accepts value := by
    unfold StyleKey.accepts
    rw [Text.strip_eq_self_iff.mpr htrimmed]
  rw [hvalue]
  by_cases hne : Text.strip value = []
  · have hprepared : prepare key (Style.substitute []) = [] := by cases key <;> decide
    have hrefused : key.accepts [] = false := by cases key <;> decide
    rw [← haccepts, hne, hprepared, hrefused]
    exact ⟨fun _ => rfl, fun _ => rfl⟩
  · obtain ⟨c, hc, hb⟩ := Style.exists_not_blank_substitute htrimmed hne
    rw [if_neg (by simpa using prepare_ne_nil key hc hb), ← haccepts,
      ← d.declarationsOf_eq_nil_iff key htrimmed hne]
    cases p with
    | normal => exact Iff.rfl
    | forced => exact List.map_eq_nil_iff

end Draft

/-! ## 2. Uses and what they report -/

/-- Whether a diagnostic is that a variable has no value. -/
def Diagnostic.isUndeclared (x : Diagnostic) : Bool :=
  match x.finding with
  | .undeclaredVariable _ => true
  | _ => false

/-- A style key with its value, without quotes, on a line. -/
structure StyleUse where
  key : StyleKey
  value : Text
  line : Option Int
  deriving DecidableEq, Repr

namespace StyleUse

/-- The use that a pair of a word and a raw value makes, if the word is a style key. -/
def ofPair? (line : Option Int) (pair : Text × Text) : Option StyleUse :=
  (StyleKey.ofToken? pair.1).map fun key => ⟨key, Token.unquote pair.2, line⟩

/-- The variables that a use refers to, in order. -/
def references (u : StyleUse) : List Text := Style.references (Text.strip u.value)

/-- The diagnostics for the references of a use to variables without a value. -/
def undeclared (declared : Text → Bool) (u : StyleUse) : List Diagnostic :=
  (u.references.filter fun name => !declared name).map fun name =>
    ⟨.undeclaredVariable name, u.line⟩

/-- Whether the key accepts the value. -/
def isAccepted (u : StyleUse) : Bool := u.key.accepts u.value

/-- What a use declares in a draft. -/
def declarations (d : Draft) (priority : Priority) (u : StyleUse) : List Declaration :=
  (d.resolve u.key u.value priority u.line).value

theorem diagnostics_resolve (d : Draft) (p : Priority) (u : StyleUse) :
    (d.resolve u.key u.value p u.line).diagnostics = u.undeclared d.isDeclared :=
  List.append_nil _

theorem filter_undeclared (declared : Text → Bool) (u : StyleUse) :
    (u.undeclared declared).filter Diagnostic.isUndeclared = u.undeclared declared := by
  refine List.filter_eq_self.mpr fun x hx => ?_
  obtain ⟨name, _, rfl⟩ := List.mem_map.mp hx
  rfl

theorem declarations_eq_nil_iff (d : Draft) (p : Priority) (u : StyleUse) :
    u.declarations d p = [] ↔ u.isAccepted = false := d.resolve_eq_nil_iff _ _ _ _

/-- What is declared with force is important. -/
theorem important_of_forced {d : Draft} {u : StyleUse} {x : Declaration}
    (h : x ∈ u.declarations d .forced) : x.important = true := by
  unfold declarations Draft.resolve at h
  simp only [Reported.value_bind, Reported.value_pure] at h
  split at h
  · cases h
  · obtain ⟨y, _, rfl⟩ := List.mem_map.mp h
    rfl

end StyleUse

namespace Reported

variable {α β : Type} {p : Diagnostic → Bool}

theorem filter_foldlM {f : α → β → Reported α} {g : β → List Diagnostic}
    (h : ∀ a b, (f a b).diagnostics.filter p = g b) (bs : List β) (a : α) :
    (bs.foldlM f a).diagnostics.filter p = bs.flatMap g := by
  induction bs generalizing a with
  | nil => rfl
  | cons b bs ih =>
    rw [List.foldlM_cons, diagnostics_bind, List.filter_append, h, ih, List.flatMap_cons]

theorem filter_mapM {f : α → Reported β} {g : α → List Diagnostic}
    (h : ∀ a, (f a).diagnostics.filter p = g a) (as : List α) :
    (as.mapM f).diagnostics.filter p = as.flatMap g := by
  induction as with
  | nil => rfl
  | cons a as ih =>
    rw [List.mapM_cons, diagnostics_bind, diagnostics_bind, diagnostics_pure, List.append_nil,
      List.filter_append, h, ih, List.flatMap_cons]

end Reported

theorem flatMap_filterMap {α β γ : Type} (f : α → Option β) (g : β → List γ) (as : List α) :
    (as.filterMap f).flatMap g = as.flatMap fun a => (f a).toList.flatMap g := by
  rw [List.filterMap_eq_flatMap_toList, List.flatMap_assoc]

/-! ## 3. Element lines -/

/-- The use that a pair of an element makes: the target of a link is none. -/
def Attire.use? (tag : Text) (line : Option Int) (pair : Text × Text) : Option StyleUse :=
  if pair.1 = "h" ∧ tag = "a" then none else StyleUse.ofPair? line pair

/-- A pair adds what its use declares and reports what its use does not find. -/
theorem Attire.addPair_use (d : Draft) (tag : Text) (line : Option Int) (a : Attire)
    (pair : Text × Text) :
    (a.addPair d tag line pair).value.styles = (match use? tag line pair with
      | some u => a.styles.add u.key.category (u.declarations d .normal)
      | none => a.styles) ∧
    (a.addPair d tag line pair).diagnostics.filter Diagnostic.isUndeclared =
      (use? tag line pair).toList.flatMap (StyleUse.undeclared d.isDeclared) := by
  obtain ⟨key, value⟩ := pair
  have hrole : StyleKey.ofToken? "role" = none := by decide
  have haria : StyleKey.ofToken? "aria" = none := by decide
  unfold addPair use? StyleUse.ofPair?
  dsimp only
  split
  · exact ⟨rfl, rfl⟩
  · split
    · rename_i hkey
      rw [hkey, hrole]
      exact ⟨rfl, rfl⟩
    · split
      · rename_i hkey
        rw [hkey, haria]
        unfold addAria
        split
        · exact ⟨rfl, rfl⟩
        · exact ⟨rfl, rfl⟩
      · cases StyleKey.ofToken? key with
        | none => exact ⟨rfl, rfl⟩
        | some styleKey =>
          refine ⟨rfl, ?_⟩
          rw [Reported.diagnostics_bind, Reported.diagnostics_pure, List.append_nil]
          have h := StyleUse.diagnostics_resolve d .normal ⟨styleKey, Token.unquote value, line⟩
          rw [h, StyleUse.filter_undeclared]
          exact (List.append_nil _).symm

namespace Features

theorem read_isUndeclared (code : Text) (words : List Text) (line : Option Int) :
    (read code words line).diagnostics.filter Diagnostic.isUndeclared = [] := by
  have hcode : (ofCode code line).diagnostics.filter Diagnostic.isUndeclared = [] := by
    unfold ofCode
    split
    · rfl
    · split
      · rfl
      · rfl
  have hword : ∀ (f : Features) (word : Text),
      (f.addWord line word).diagnostics.filter Diagnostic.isUndeclared = [] := by
    intro f word
    unfold addWord
    split
    · rfl
    · split
      · rfl
      · unfold addPlain
        split
        · rfl
        · rfl
  unfold read
  simp only [Reported.diagnostics_bind, Reported.diagnostics_pure, List.append_nil,
    List.filter_append, hcode, Reported.filter_foldlM hword, List.nil_append]
  simp

end Features

namespace ElementPlan

/-- The tag that an element line gets. -/
def tagOf (line : Line) (code : Text) (words : List Text) (hasChildren : Bool) : Text :=
  let f := (Features.read code words line.number).value
  classify code (firstOccurrences f.classes) f.id f.text hasChildren

/-- The uses of an element line, in order. -/
def uses (line : Line) (code : Text) (words : List Text) (hasChildren : Bool) : List StyleUse :=
  (Features.read code words line.number).value.pairs.filterMap
    (Attire.use? (tagOf line code words hasChildren) line.number)

/-- What uses declare, put together by category. -/
def groupsOf (d : Draft) (uses : List StyleUse) : StyleGroups :=
  uses.foldl (fun g u => g.add u.key.category (u.declarations d .normal)) .empty

/-- **The styles of an element line are those of its uses.** -/
theorem read_styles_uses (d : Draft) (line : Line) (code : Text) (words : List Text)
    (hasChildren : Bool) :
    (ElementPlan.read d line code words hasChildren).value.styles =
      (groupsOf d (uses line code words hasChildren)).texts := by
  have hfold : ∀ (tag : Text) (pairs : List (Text × Text)) (a : Attire),
      (pairs.foldl (fun a pair => (a.addPair d tag line.number pair).value) a).styles =
        (pairs.filterMap (Attire.use? tag line.number)).foldl
          (fun g u => g.add u.key.category (u.declarations d .normal)) a.styles := by
    intro tag pairs
    induction pairs with
    | nil => exact fun _ => rfl
    | cons pair pairs ih =>
      intro a
      rw [List.foldl_cons, ih, (a.addPair_use d tag line.number pair).1, List.filterMap_cons]
      cases Attire.use? tag line.number pair <;> rfl
  unfold ElementPlan.read
  simp only [Reported.value_bind, Reported.value_pure, Reported.value_foldlM, hfold]
  rfl

/-- **An element line finds those variables undeclared that its uses do.** -/
theorem read_undeclared (d : Draft) (line : Line) (code : Text) (words : List Text)
    (hasChildren : Bool) :
    (ElementPlan.read d line code words hasChildren).diagnostics.filter Diagnostic.isUndeclared =
      (uses line code words hasChildren).flatMap (StyleUse.undeclared d.isDeclared) := by
  have hpairs := fun tag => Reported.filter_foldlM
    (fun (a : Attire) pair => (a.addPair_use d tag line.number pair).2)
    (Features.read code words line.number).value.pairs {}
  rw [uses, flatMap_filterMap, ← hpairs]
  unfold ElementPlan.read
  simp only [Reported.diagnostics_bind, Reported.diagnostics_pure, List.append_nil,
    List.filter_append, Features.read_isUndeclared, List.nil_append]
  rfl

end ElementPlan

/-! ## 4. Lines of directives -/

namespace Directive

/-- The uses that the words on a line of a directive make. -/
def usesOf (line : Option Int) (words : List Text) : List StyleUse :=
  (readPairs line words).value.filterMap (StyleUse.ofPair? line)

theorem readPairs_isUndeclared (line : Option Int) (words : List Text) :
    (readPairs line words).diagnostics.filter Diagnostic.isUndeclared = [] := by
  have hword : ∀ (pairs : List (Text × Text)) (word : Text),
      (addPairWord line pairs word).diagnostics.filter Diagnostic.isUndeclared = [] := by
    intro pairs word
    unfold addPairWord
    split
    · rfl
    · split
      · rfl
      · rfl
  unfold readPairs
  rw [Reported.diagnostics_bind, Reported.diagnostics_pure, List.append_nil,
    Reported.filter_foldlM hword]
  simp

/-- A pair declares something if it makes a use that is accepted. -/
theorem value_resolvePair (d : Draft) (p : Priority) (line : Option Int) (pair : Text × Text) :
    (resolvePair d p line pair).value =
      ((StyleUse.ofPair? line pair).filter StyleUse.isAccepted).map fun u =>
        (u.key.category, u.declarations d p) := by
  unfold resolvePair StyleUse.ofPair?
  cases StyleKey.ofToken? pair.1 with
  | none => rfl
  | some key =>
    have hnil := StyleUse.declarations_eq_nil_iff d p ⟨key, Token.unquote pair.2, line⟩
    rw [← List.isEmpty_iff] at hnil
    simp only [Reported.value_bind, Reported.value_pure, Option.map_some, Option.filter_some]
    cases haccepted : StyleUse.isAccepted ⟨key, Token.unquote pair.2, line⟩ with
    | true => exact if_neg fun h => absurd (hnil.mp h) (by simp [haccepted])
    | false => exact if_pos (hnil.mpr haccepted)

theorem resolvePair_undeclared (d : Draft) (p : Priority) (line : Option Int)
    (pair : Text × Text) :
    (resolvePair d p line pair).diagnostics.filter Diagnostic.isUndeclared =
      (StyleUse.ofPair? line pair).toList.flatMap (StyleUse.undeclared d.isDeclared) := by
  unfold resolvePair StyleUse.ofPair?
  cases StyleKey.ofToken? pair.1 with
  | none => rfl
  | some key =>
    have h := StyleUse.diagnostics_resolve d p ⟨key, Token.unquote pair.2, line⟩
    rw [Reported.diagnostics_bind, Reported.diagnostics_pure, List.append_nil, h,
      StyleUse.filter_undeclared]
    exact (List.append_nil _).symm

/-- **What the words on a line of a directive come to**: the uses that declare something, each with
    the category of its key. -/
theorem value_resolveWords (d : Draft) (p : Priority) (line : Option Int) (words : List Text) :
    (resolveWords d p line words).value =
      ((usesOf line words).filter StyleUse.isAccepted).map fun u =>
        (u.key.category, u.declarations d p) := by
  unfold resolveWords usesOf
  simp only [Reported.value_bind, Reported.value_pure, Reported.value_mapM, value_resolvePair]
  rw [List.filterMap_map, List.filter_filterMap, List.map_filterMap]
  rfl

/-- **The words on a line of a directive declare what their uses do.** -/
theorem resolveWords_uses (d : Draft) (p : Priority) (line : Option Int) (words : List Text) :
    (resolveWords d p line words).value.flatMap Prod.snd =
      (usesOf line words).flatMap (StyleUse.declarations d p) := by
  rw [value_resolveWords, List.flatMap_map]
  induction usesOf line words with
  | nil => rfl
  | cons u uses ih =>
    cases haccepted : u.isAccepted with
    | true => rw [List.filter_cons_of_pos haccepted, List.flatMap_cons, List.flatMap_cons, ih]
    | false =>
      rw [List.filter_cons_of_neg (by simp [haccepted]), List.flatMap_cons, ih,
        (u.declarations_eq_nil_iff d p).mpr haccepted]
      rfl

/-- **They find those variables undeclared that their uses do.** -/
theorem resolveWords_undeclared (d : Draft) (p : Priority) (line : Option Int)
    (words : List Text) :
    (resolveWords d p line words).diagnostics.filter Diagnostic.isUndeclared =
      (usesOf line words).flatMap (StyleUse.undeclared d.isDeclared) := by
  unfold resolveWords
  simp only [Reported.diagnostics_bind, Reported.diagnostics_pure, List.append_nil,
    List.filter_append, readPairs_isUndeclared, List.nil_append]
  rw [usesOf, flatMap_filterMap]
  exact Reported.filter_mapM (resolvePair_undeclared d p line) _

end Directive

end OutlineMarkup
