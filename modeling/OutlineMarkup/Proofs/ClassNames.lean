/-
  File:      OutlineMarkup/Proofs/ClassNames.lean
  Subject:   Which name a class gets.

  A name is made of the stem, a numeral in base 36 and perhaps a hyphen with a number. The numeral
  has no hyphen, so the name shows the hash and the number that it was made of, whatever the stem
  is (`candidate_eq_candidate_iff`): names for different hashes never meet. So the forms of one hash
  take the choices for it one after the other, without a gap (`Numbered`), and the next form gets
  the choice whose number is the number of forms before it.

  * `Numbered.classFor`, `Numbered.after`: a call keeps the names without gaps, and so does any
    history of calls.
  * **`class_names_predictable`**: the name that a new form gets.
  * `Numbered.namedAlike`: the same forms get the same names together, in whatever order they come;
    `Numbered.nameOf?_after`: and each form gets the same name if their hashes differ.
-/
import OutlineMarkup.Proofs.Registry

namespace OutlineMarkup

/-! ## 1. Numerals -/

namespace Text

/-- The value of a digit. -/
def digitValue (c : Char) : Nat := base36Alphabet.idxOf c

/-- Reads digits in base 36 after a number that was read before them. -/
def readOn (n : Nat) (digits : Text) : Nat := digits.foldl (fun n c => n * 36 + digitValue c) n

theorem digitValue_base36Digit {d : Nat} (h : d < 36) : digitValue (base36Digit d) = d := by
  have hall : ∀ d < 36, digitValue (base36Digit d) = d := by decide +kernel
  exact hall d h

/-- What is written before a tail is read before it, if there are steps enough for the number. -/
theorem readOn_base36Before {steps n : Nat} (h : n ≤ steps) (tail : Text) :
    readOn 0 (base36Before steps n tail) = readOn n tail := by
  induction steps generalizing n tail with
  | zero =>
    obtain rfl : n = 0 := Nat.le_zero.mp h
    rw [base36Before]
    simp [readOn, digitValue_base36Digit]
  | succ steps ih =>
    rw [base36Before]
    split
    · rename_i hn
      simp [readOn, digitValue_base36Digit hn]
    · have hdiv : n / 36 ≤ steps := by omega
      rw [ih hdiv]
      have hmod : digitValue (base36Digit (n % 36)) = n % 36 :=
        digitValue_base36Digit (Nat.mod_lt _ (by decide))
      show readOn (n / 36 * 36 + digitValue (base36Digit (n % 36))) tail = readOn n tail
      rw [hmod, Nat.div_add_mod']

/-- **A numeral is read as the number it was written for.** -/
theorem readOn_base36 (n : Nat) : readOn 0 (base36 n) = n :=
  readOn_base36Before (Nat.le_refl n) []

theorem base36_injective : Function.Injective base36 := by
  intro a b h
  rw [← readOn_base36 a, h, readOn_base36]

theorem base36Digit_ne_hyphen (d : Nat) : base36Digit d ≠ '-' := by
  unfold base36Digit
  rw [List.getD_eq_getElem?_getD]
  cases e : base36Alphabet[d]? with
  | none => decide
  | some c =>
    have hall : '-' ∉ base36Alphabet := by decide +kernel
    exact fun hc => hall (hc ▸ List.mem_of_getElem? e)

theorem hyphen_not_mem_base36Before (steps n : Nat) {tail : Text} (h : '-' ∉ tail) :
    '-' ∉ base36Before steps n tail := by
  have hcons : ∀ {tail : Text} (d : Nat), '-' ∉ tail → '-' ∉ base36Digit d :: tail :=
    fun d h hm => (List.mem_cons.mp hm).elim (fun e => base36Digit_ne_hyphen d e.symm) h
  induction steps generalizing n tail with
  | zero => exact hcons _ h
  | succ steps ih =>
    rw [base36Before]
    split
    · exact hcons _ h
    · exact ih (n / 36) (hcons _ h)

end Text

namespace ClassRegistry

/-! ## 2. What a name was made of -/

/-- What a choice adds to the wanted name. -/
def tailOf (k : Nat) : Text := if k = 0 then [] else '-' :: Text.ofNat k

theorem candidate_eq_append (base : Text) (k : Nat) : candidate base k = base ++ tailOf k := by
  unfold candidate tailOf
  split
  · exact (List.append_nil base).symm
  · rw [List.append_assoc]
    rfl

/-- The numeral of a name goes up to the first hyphen behind the stem. -/
theorem takeWhile_candidate (n k : Nat) :
    (candidate (Text.base36 n) k).takeWhile (· ≠ '-') = Text.base36 n := by
  have hfree : '-' ∉ Text.base36 n := Text.hyphen_not_mem_base36Before n n List.not_mem_nil
  have hall : ∀ c ∈ Text.base36 n, decide (c ≠ '-') = true := fun c hc =>
    decide_eq_true fun e => hfree (e ▸ hc)
  have htail : (tailOf k).takeWhile (· ≠ '-') = [] := by
    unfold tailOf
    split
    · rfl
    · exact List.takeWhile_cons_of_neg (by decide)
  rw [candidate_eq_append, List.takeWhile_append_of_pos hall, htail, List.append_nil]

/-- **A name shows the hash and the number that it was made of.** -/
theorem candidate_eq_candidate_iff {stem : Text} {m n j k : Nat} :
    candidate (stem ++ Text.base36 m) j = candidate (stem ++ Text.base36 n) k ↔ m = n ∧ j = k := by
  constructor
  · intro h
    have hbare : candidate (Text.base36 m) j = candidate (Text.base36 n) k := by
      rw [candidate_eq_append, candidate_eq_append, List.append_assoc, List.append_assoc] at h
      rw [candidate_eq_append, candidate_eq_append]
      exact List.append_cancel_left h
    have hnumeral := congrArg (List.takeWhile (· ≠ '-')) hbare
    rw [takeWhile_candidate, takeWhile_candidate] at hnumeral
    obtain rfl := Text.base36_injective hnumeral
    exact ⟨rfl, candidate_injective _ hbare⟩
  · rintro ⟨rfl, rfl⟩
    rfl

/-! ## 3. Names without gaps -/

/-- The hash of a form without its sign: what the name of the form is made of. -/
def hashSize (form : Text) : Nat := (Style.hash form).natAbs

/-- The number of forms with a name whose hash has the given absolute value. -/
def sharers (r : ClassRegistry) (h : Nat) : Nat := r.forms.countP fun form => hashSize form = h

/-- Names without gaps: for each hash as many choices are taken as there are forms, from the first
    one on, and each form has one of the choices for its own hash. -/
structure Numbered (r : ClassRegistry) : Prop where
  taken : ∀ h k, candidate (r.stem ++ Text.base36 h) k ∈ r.names ↔ k < r.sharers h
  chosen : ∀ form name, (form, name) ∈ r.bindings →
    ∃ k, name = candidate (r.stem ++ Text.base36 (hashSize form)) k

theorem numbered_empty (stem : Text) : Numbered { stem } where
  taken h k := by simp [names, sharers, forms]
  chosen _ _ h := by cases h

/-- The choice that counts the forms of a form's hash. -/
def nextName (r : ClassRegistry) (form : Text) : Text :=
  candidate (r.stem ++ Text.base36 (hashSize form)) (r.sharers (hashSize form))

/-- The registry with one more form. -/
def bind (r : ClassRegistry) (form name : Text) : ClassRegistry :=
  { r with bindings := r.bindings ++ [(form, name)] }

/-- A call for a new form binds it to the first free choice. -/
theorem classFor_of_new {r : ClassRegistry} {t : Text} (hne : Style.canonical t ≠ [])
    (hnew : Style.canonical t ∉ r.forms) {name : Text}
    (hname : freshName (baseName r.stem (Style.canonical t)) r.names = name) :
    r.classFor t = .ok (name, r.bind (Style.canonical t) name) := by
  have hempty : ¬(Style.canonical t).isEmpty = true := fun h => hne (List.isEmpty_iff.mp h)
  unfold classFor
  dsimp only
  rw [if_neg hempty, nameOf?_eq_none_iff.mpr hnew, hname]
  rfl

namespace Numbered

variable {r r' : ClassRegistry} {t name : Text}

/-- **The first free choice for a form is the one that counts the forms of its hash.** -/
theorem freshName_eq_nextName (h : r.Numbered) (form : Text) :
    freshName (baseName r.stem form) r.names = r.nextName form := by
  obtain ⟨k, e, hfree, hbefore⟩ := freshName_eq (r.stem ++ Text.base36 (hashSize form)) r.names
  rw [h.taken] at hfree
  have hle : k ≤ r.sharers (hashSize form) := by
    by_contra hlt
    have hmem := hbefore (r.sharers (hashSize form)) (by omega)
    rw [h.taken] at hmem
    omega
  have hk : k = r.sharers (hashSize form) := by omega
  rw [nextName, ← hk]
  exact e

theorem classFor_eq (h : r.Numbered) (hne : Style.canonical t ≠ [])
    (hnew : Style.canonical t ∉ r.forms) :
    r.classFor t = .ok (r.nextName (Style.canonical t),
      r.bind (Style.canonical t) (r.nextName (Style.canonical t))) :=
  classFor_of_new hne hnew (h.freshName_eq_nextName _)

/-- A form that takes the next choice for its hash leaves no gap. -/
theorem bind_nextName (h : r.Numbered) (form : Text) :
    (r.bind form (r.nextName form)).Numbered where
  taken n k := by
    have hnames : ∀ name, name ∈ (r.bind form (r.nextName form)).names ↔
        name ∈ r.names ∨ name = r.nextName form := by simp [bind, names]
    have hsharers : (r.bind form (r.nextName form)).sharers n =
        r.sharers n + if hashSize form = n then 1 else 0 := by
      simp [bind, sharers, forms, List.countP_append, List.countP_cons]
    show candidate (r.stem ++ Text.base36 n) k ∈ _ ↔ _
    rw [hnames, hsharers, h.taken, nextName, candidate_eq_candidate_iff]
    by_cases hn : n = hashSize form
    · subst hn
      rw [if_pos rfl]
      omega
    · rw [if_neg (Ne.symm hn)]
      omega
  chosen f n hf := by
    rcases List.mem_append.mp hf with hf | hf
    · exact h.chosen f n hf
    · obtain ⟨rfl, rfl⟩ := Prod.mk.inj (List.mem_singleton.mp hf)
      exact ⟨_, rfl⟩

/-- **A call keeps the names without gaps.** -/
theorem classFor (h : r.Numbered) (ok : r.classFor t = .ok (name, r')) : r'.Numbered := by
  obtain ⟨hne, ⟨_, rfl⟩ | ⟨hnew, _⟩⟩ := classFor_cases ok
  · exact h
  · have hcall := h.classFor_eq hne hnew
    rw [ok] at hcall
    obtain ⟨_, rfl⟩ := Prod.mk.inj (Except.ok.inj hcall)
    exact h.bind_nextName (Style.canonical t)

theorem call (h : r.Numbered) (t : Text) : (r.call t).2.Numbered := by
  rcases r.call_cases t with ⟨_, e⟩ | ⟨name, r', _, ok, e⟩
  · rw [e]
    exact h
  · rw [e]
    exact h.classFor ok

/-- **So does a history of calls.** -/
theorem after (h : r.Numbered) (ts : List Text) : (r.after ts).Numbered := by
  induction ts generalizing r with
  | nil => exact h
  | cons t ts ih => exact ih (h.call t)

end Numbered

theorem stem_call (r : ClassRegistry) (t : Text) : (r.call t).2.stem = r.stem := by
  rcases r.call_cases t with ⟨_, e⟩ | ⟨name, r', _, ok, e⟩
  · rw [e]
  · rw [e]
    obtain ⟨_, ⟨_, rfl⟩ | ⟨_, _, _, rfl⟩⟩ := classFor_cases ok <;> rfl

theorem stem_after (r : ClassRegistry) (ts : List Text) : (r.after ts).stem = r.stem := by
  induction ts generalizing r with
  | nil => rfl
  | cons t ts ih => exact (ih (r.call t).2).trans (r.stem_call t)

/-- **The name of a class can be foretold.** In a registry with any stem and any history of calls,
    the refused ones included, a form that comes up for the first time is named by the stem and the
    absolute value of its hash in base 36; if forms with that value have a name already, a hyphen
    and their number follow. (No form is counted twice.) -/
theorem class_names_predictable (stem : Text) (history : List Text) (t : Text) :
    let r := ({ stem } : ClassRegistry).after history
    let base := stem ++ Text.base36 (hashSize (Style.canonical t))
    let sharing := r.forms.filter fun form => hashSize form = hashSize (Style.canonical t)
    Style.canonical t ≠ [] → Style.canonical t ∉ r.forms →
      sharing.Nodup ∧
      (sharing = [] → (r.call t).1 = .ok base) ∧
      (sharing ≠ [] → (r.call t).1 = .ok (base ++ "-" ++ Text.ofNat sharing.length)) := by
  intro r base sharing hne hnew
  have hr : r.Numbered := (numbered_empty stem).after history
  have hstem : r.stem = stem := stem_after { stem } history
  have hcount : r.sharers (hashSize (Style.canonical t)) = sharing.length :=
    List.countP_eq_length_filter
  have hcall : (r.call t).1 = .ok (candidate base sharing.length) := by
    rw [ClassRegistry.call, hr.classFor_eq hne hnew, nextName, hstem, hcount]
  refine ⟨((exact_empty stem).after history).forms_nodup.filter _, fun hnone => ?_, fun hsome => ?_⟩
  · rw [hcall, hnone]
    rfl
  · have hlen : sharing.length ≠ 0 := fun h => hsome (List.eq_nil_of_length_eq_zero h)
    rw [hcall, candidate, if_neg hlen]

/-- Two forms of one hash under a stem that looks like a numbered name for it: the third form gets
    the number 2. -/
theorem class_names_predictable_third :
    let history : List Text := ["AaAa", ";", "AaBB", "a", "AaBB !important"]
    let r := ({ stem := "17jpc-1" } : ClassRegistry).after history
    Style.canonical "BBBB" ≠ [] ∧ Style.canonical "BBBB" ∉ r.forms ∧
      (r.call "BBBB").1 = .ok "17jpc-117jpc-2" := by
  intro history r
  have hne : Style.canonical "BBBB" ≠ [] := by decide +kernel
  have hnew : Style.canonical "BBBB" ∉ r.forms := by decide +kernel
  obtain ⟨_, _, hname⟩ := class_names_predictable "17jpc-1" history "BBBB" hne hnew
  refine ⟨hne, hnew, (hname (by decide +kernel)).trans ?_⟩
  decide +kernel

/-! ## 4. The order of calls -/

/-- The names for several declarations, one after the other, and the registry after the last. -/
def namesFor (r : ClassRegistry) : List Text → Except Fault (List Text × ClassRegistry)
  | [] => .ok ([], r)
  | t :: ts => do
    let (name, r') ← r.classFor t
    let (names, r'') ← r'.namesFor ts
    return (name :: names, r'')

/-- What several calls answer, if none is refused: the names that the registry has for their forms
    in the end. -/
theorem namesFor_eq {r : ClassRegistry} (hr : r.Exact) {ts : List Text}
    (h : ∀ t ∈ ts, Style.canonical t ≠ []) :
    ∃ names, r.namesFor ts = .ok (names, r.after ts) ∧
      ∀ name, name ∈ names ↔ ∃ t ∈ ts, (Style.canonical t, name) ∈ (r.after ts).bindings := by
  induction ts generalizing r with
  | nil => exact ⟨[], rfl, by simp⟩
  | cons t ts ih =>
    rcases r.call_cases t with ⟨hnil, _⟩ | ⟨first, r', _, ok, e⟩
    · exact absurd hnil (h t List.mem_cons_self)
    · have hr' : r'.Exact := hr.classFor ok
      obtain ⟨names, hnames, hmem⟩ := ih hr' fun u hu => h u (List.mem_cons_of_mem _ hu)
      have hafter : r.after (t :: ts) = r'.after ts := by
        show (r.call t).2.after ts = r'.after ts
        rw [e]
      have hfirst : (Style.canonical t, first) ∈ (r'.after ts).bindings :=
        (after_extends r' ts).subset (mem_bindings_of_classFor ok)
      refine ⟨first :: names, ?_, fun name => ?_⟩
      · rw [namesFor, ok, hafter]
        show (r'.namesFor ts >>= fun x => pure (first :: x.1, x.2)) = _
        rw [hnames]
        rfl
      · rw [hafter, List.mem_cons, hmem, List.exists_mem_cons_iff]
        refine or_congr_left ⟨fun e => e ▸ hfirst, fun hname => ?_⟩
        exact ((hr'.after ts).name_eq_iff hname hfirst).mpr rfl

/-- Two lists of declarations come to the same canonical forms, in whatever order and however
    often. -/
def SameForms (ts us : List Text) : Prop :=
  ∀ form, form ∈ ts.map Style.canonical ↔ form ∈ us.map Style.canonical

/-- Two lists of declarations are named alike: no call is refused, and the names are together the
    same. -/
def NamedAlike (r : ClassRegistry) (ts us : List Text) : Prop :=
  ∃ names names' r₁ r₂, r.namesFor ts = .ok (names, r₁) ∧ r.namesFor us = .ok (names', r₂) ∧
    ∀ name, name ∈ names ↔ name ∈ names'

/-- In a registry that has grown, a form is new exactly if its name is. -/
theorem Exact.mem_forms_iff {r r' : ClassRegistry} (h : r'.Exact)
    (hgrow : r.bindings <+: r'.bindings) {form name : Text} (hmem : (form, name) ∈ r'.bindings) :
    form ∈ r.forms ↔ name ∈ r.names := by
  constructor
  · intro hform
    obtain ⟨⟨f, n⟩, hold, rfl⟩ := List.mem_map.mp hform
    rw [(h.name_eq_iff hmem (hgrow.subset hold)).mpr rfl]
    exact List.mem_map_of_mem hold
  · intro hname
    obtain ⟨⟨f, n⟩, hold, rfl⟩ := List.mem_map.mp hname
    rw [(h.name_eq_iff hmem (hgrow.subset hold)).mp rfl]
    exact List.mem_map_of_mem hold

namespace Numbered

variable {r r' : ClassRegistry} {ts us : List Text}

theorem mem_names_iff (h : r.Numbered) {name : Text} :
    name ∈ r.names ↔ ∃ n k, name = candidate (r.stem ++ Text.base36 n) k ∧ k < r.sharers n := by
  constructor
  · intro hname
    obtain ⟨⟨form, name⟩, hmem, rfl⟩ := List.mem_map.mp hname
    obtain ⟨k, rfl⟩ := h.chosen form name hmem
    exact ⟨hashSize form, k, rfl, (h.taken _ k).mp hname⟩
  · rintro ⟨n, k, rfl, hk⟩
    exact (h.taken n k).mpr hk

/-- The names that are taken depend on the forms alone, not on their order. -/
theorem mem_names_of_perm (h : r.Numbered) (h' : r'.Numbered) (hstem : r.stem = r'.stem)
    (hforms : r.forms.Perm r'.forms) {name : Text} : name ∈ r.names ↔ name ∈ r'.names := by
  have hsharers : ∀ n, r.sharers n = r'.sharers n := fun n => hforms.countP_eq _
  simp only [h.mem_names_iff, h'.mem_names_iff, hstem, hsharers]

end Numbered

section Order

variable {r : ClassRegistry} {ts us : List Text} {form name : Text}

theorem forms_after_perm (hr : r.Exact) (h : SameForms ts us) :
    (r.after ts).forms.Perm (r.after us).forms := by
  refine (List.perm_ext_iff_of_nodup (hr.after ts).forms_nodup (hr.after us).forms_nodup).mpr ?_
  intro form
  rw [mem_forms_after, mem_forms_after, List.mem_filter, List.mem_filter, h]

/-- A name that stands for one of the forms in the end stands for one of them after the same forms
    in another order. -/
theorem Numbered.exists_bound (h : r.Numbered) (hr : r.Exact) (hforms : SameForms ts us)
    (hform : form ∈ ts.map Style.canonical) (hbound : (form, name) ∈ (r.after ts).bindings) :
    ∃ form' ∈ us.map Style.canonical, (form', name) ∈ (r.after us).bindings := by
  by_cases hold : name ∈ r.names
  · -- the form had its name before
    obtain ⟨⟨f, n⟩, hmem, rfl⟩ := List.mem_map.mp hold
    have hkept : (f, n) ∈ (r.after ts).bindings := (r.after_extends ts).subset hmem
    have hsame : f = form := ((hr.after ts).name_eq_iff hkept hbound).mp rfl
    subst hsame
    exact ⟨f, (hforms f).mp hform, (r.after_extends us).subset hmem⟩
  · -- the name is one of the new ones, which are the same after both
    have hstem : (r.after ts).stem = (r.after us).stem := by rw [stem_after, stem_after]
    have hname : name ∈ (r.after us).names :=
      ((h.after ts).mem_names_of_perm (h.after us) hstem (forms_after_perm hr hforms)).mp
        (List.mem_map_of_mem hbound)
    obtain ⟨⟨f, n⟩, hmem, rfl⟩ := List.mem_map.mp hname
    have hnew : f ∉ r.forms := fun hf =>
      hold (((hr.after us).mem_forms_iff (r.after_extends us) hmem).mp hf)
    have hf : f ∈ (r.after us).forms := List.mem_map_of_mem hmem
    exact ⟨f, (List.mem_filter.mp (((mem_forms_after r us).mp hf).resolve_left hnew)).1, hmem⟩

/-- **The same forms get the same names together**, whatever the order in which they come and
    however often. -/
theorem Numbered.namedAlike (h : r.Numbered) (hr : r.Exact) (hforms : SameForms ts us)
    (hne : ∀ t ∈ ts, Style.canonical t ≠ []) : r.NamedAlike ts us := by
  have hne' : ∀ u ∈ us, Style.canonical u ≠ [] := by
    intro u hu
    obtain ⟨t, ht, e⟩ := List.mem_map.mp ((hforms _).mpr (List.mem_map_of_mem hu))
    rw [← e]
    exact hne t ht
  obtain ⟨names, hts, hmem⟩ := namesFor_eq hr hne
  obtain ⟨names', hus, hmem'⟩ := namesFor_eq hr hne'
  refine ⟨names, names', _, _, hts, hus, fun name => ?_⟩
  rw [hmem, hmem']
  constructor
  · rintro ⟨t, ht, hbound⟩
    obtain ⟨_, hform, hbound'⟩ := h.exists_bound hr hforms (List.mem_map_of_mem ht) hbound
    obtain ⟨u, hu, rfl⟩ := List.mem_map.mp hform
    exact ⟨u, hu, hbound'⟩
  · rintro ⟨u, hu, hbound⟩
    have hback : SameForms us ts := fun form => (hforms form).symm
    obtain ⟨_, hform, hbound'⟩ := h.exists_bound hr hback (List.mem_map_of_mem hu) hbound
    obtain ⟨t, ht, rfl⟩ := List.mem_map.mp hform
    exact ⟨t, ht, hbound'⟩

/-- Where only one form of a hash comes up, at most one is added to the forms of that hash. -/
theorem sharers_after_le (hr : r.Exact)
    (hapart : ∀ g ∈ ts.map Style.canonical, hashSize g = hashSize form → g = form) :
    (r.after ts).sharers (hashSize form) ≤ r.sharers (hashSize form) + 1 := by
  obtain ⟨added, e⟩ := r.after_extends ts
  have hforms : (r.after ts).forms = r.forms ++ added.map Prod.fst := by
    rw [forms, ← e, List.map_append]
    rfl
  have hnodup := (hr.after ts).forms_nodup
  rw [hforms] at hnodup
  obtain ⟨_, hadded, hdisjoint⟩ := List.nodup_append.mp hnodup
  -- an added form of the hash is the one that came up
  have hsame : ∀ g ∈ added.map Prod.fst, hashSize g = hashSize form → g = form := by
    intro g hg hsize
    have hmem : g ∈ (r.after ts).forms := by
      rw [hforms]
      exact List.mem_append_right _ hg
    have hnew : g ∉ r.forms := fun hold => hdisjoint g hold g hg rfl
    exact hapart g (List.mem_filter.mp (((mem_forms_after r ts).mp hmem).resolve_left hnew)).1 hsize
  have hcount : (added.map Prod.fst).countP (fun g => hashSize g = hashSize form) ≤
      (added.map Prod.fst).count form :=
    List.countP_mono_left fun g hg hsize => by simpa using hsame g hg (of_decide_eq_true hsize)
  have hone : (added.map Prod.fst).count form ≤ 1 := List.nodup_iff_count_le_one.mp hadded form
  unfold sharers
  rw [hforms, List.countP_append]
  omega

/-- A new form that shares its hash with no other new one gets the choice that counts the old forms
    of its hash. -/
theorem Numbered.bound_of_apart (h : r.Numbered) (hr : r.Exact)
    (hform : form ∈ ts.map Style.canonical) (hne : form ≠ [])
    (hapart : ∀ g ∈ ts.map Style.canonical, hashSize g = hashSize form → g = form)
    (hnew : form ∉ r.forms) :
    (form, r.nextName form) ∈ (r.after ts).bindings := by
  have hmem : form ∈ (r.after ts).forms :=
    (mem_forms_after r ts).mpr (.inr (List.mem_filter.mpr ⟨hform, decide_eq_true hne⟩))
  obtain ⟨⟨f, name⟩, hbound, rfl⟩ := List.mem_map.mp hmem
  obtain ⟨k, rfl⟩ := (h.after ts).chosen f name hbound
  rw [stem_after] at hbound
  -- the choice is not one of the old ones
  have hlow : r.sharers (hashSize f) ≤ k := by
    have hname : candidate (r.stem ++ Text.base36 (hashSize f)) k ∉ r.names := fun hn =>
      hnew (((hr.after ts).mem_forms_iff (r.after_extends ts) hbound).mpr hn)
    rw [h.taken] at hname
    omega
  -- and there is only one new one
  have hhigh : k < (r.after ts).sharers (hashSize f) := by
    rw [← (h.after ts).taken, stem_after]
    exact List.mem_map_of_mem hbound
  have hone : (r.after ts).sharers (hashSize f) ≤ r.sharers (hashSize f) + 1 :=
    sharers_after_le hr hapart
  have hk : k = r.sharers (hashSize f) := by omega
  rw [nextName, ← hk]
  exact hbound

/-- **Forms with different hashes get the same names one by one**, whatever the order in which they
    come. -/
theorem Numbered.nameOf?_after (h : r.Numbered) (hr : r.Exact) (hforms : SameForms ts us)
    (hne : ∀ t ∈ ts, Style.canonical t ≠ [])
    (hapart : ∀ f ∈ ts.map Style.canonical, ∀ g ∈ ts.map Style.canonical,
      hashSize f = hashSize g → f = g) :
    ∀ form ∈ ts.map Style.canonical, (r.after ts).nameOf? form = (r.after us).nameOf? form := by
  intro form hform
  have hform' : form ∈ us.map Style.canonical := (hforms form).mp hform
  have hnil : form ≠ [] := by
    obtain ⟨t, ht, rfl⟩ := List.mem_map.mp hform
    exact hne t ht
  -- in either order the form is bound to one and the same name
  have hbound : ∃ name, (form, name) ∈ (r.after ts).bindings ∧
      (form, name) ∈ (r.after us).bindings := by
    by_cases hold : form ∈ r.forms
    · obtain ⟨⟨f, name⟩, hmem, rfl⟩ := List.mem_map.mp hold
      exact ⟨name, (r.after_extends ts).subset hmem, (r.after_extends us).subset hmem⟩
    · exact ⟨_, h.bound_of_apart hr hform hnil (fun g hg => hapart g hg form hform) hold,
        h.bound_of_apart hr hform' hnil
          (fun g hg => hapart g ((hforms g).mpr hg) form hform) hold⟩
  obtain ⟨name, hts, hus⟩ := hbound
  rw [(hr.after ts).nameOf?_eq_some.mpr hts, (hr.after us).nameOf?_eq_some.mpr hus]

end Order

end ClassRegistry

end OutlineMarkup
