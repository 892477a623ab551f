/-
  File:      OutlineMarkup/Proofs/Registry.lean
  Subject:   Class names and canonical forms correspond one to one.

  A registry is one list of bindings that is read in two directions: `nameOf?` from forms to names
  and `formOf?` from names to forms. The two directions are inverse to each other as long as neither
  a form nor a name is bound twice (`Exact`), and naming keeps that, whatever hashes collide and
  whatever numbered name equals another one's wanted name: a new name is the first free choice
  (`freshName_eq`), and there is one because all choices differ (`candidate_injective`).

  * `classFor_cases`: what a call that is not refused can do; everything else here follows from it.
  * `Exact.classFor`, `classFor_extends`: a call keeps the correspondence and all earlier bindings.
  * `calls_correspond`: the registry after any history of calls, the refused ones included.
-/
import Mathlib.Data.List.Dedup
import OutlineMarkup.Proofs.Table
import OutlineMarkup.Style.ClassRegistry

namespace OutlineMarkup

/-! ## 1. Choices for a name -/

theorem Text.ofNat_injective : Function.Injective Text.ofNat := by
  intro a b h
  have hread : Nat.ofDigitChars 10 (Nat.toDigits 10 a) 0 =
      Nat.ofDigitChars 10 (Nat.toDigits 10 b) 0 :=
    congrArg (fun digits => Nat.ofDigitChars 10 digits 0) h
  rwa [Nat.ofDigitChars_ten_toDigits, Nat.ofDigitChars_ten_toDigits] at hread

theorem Text.base36Before_ne_nil (steps n : Nat) (tail : Text) :
    Text.base36Before steps n tail ≠ [] := by
  induction steps generalizing n tail with
  | zero => exact List.cons_ne_nil _ _
  | succ steps ih =>
    unfold Text.base36Before
    split
    · exact List.cons_ne_nil _ _
    · exact ih _ _

namespace ClassRegistry

/-- All choices for a name differ: the first has no number, and the others have different ones. -/
theorem candidate_injective (base : Text) : Function.Injective (candidate base) := by
  have hne : ∀ k, candidate base 0 ≠ candidate base (k + 1) := by
    intro k h
    have hlen := congrArg List.length h
    simp [candidate] at hlen
  intro j k h
  cases j with
  | zero =>
    cases k with
    | zero => rfl
    | succ k => exact absurd h (hne k)
  | succ j =>
    cases k with
    | zero => exact absurd h.symm (hne j)
    | succ k =>
      have hnum : Text.ofNat (j + 1) = Text.ofNat (k + 1) := List.append_cancel_left h
      exact Text.ofNat_injective hnum

theorem candidate_ne_nil {base : Text} (h : base ≠ []) (k : Nat) : candidate base k ≠ [] := by
  unfold candidate
  split
  · exact h
  · simp [h]

/-- **A new name is the first choice that is not taken.** -/
theorem freshName_eq (base : Text) (taken : List Text) :
    ∃ k, freshName base taken = candidate base k ∧ candidate base k ∉ taken ∧
      ∀ j < k, candidate base j ∈ taken := by
  have hfind : ((List.range (taken.length + 1)).map (candidate base)).find?
      (fun name => !taken.contains name) = ((List.range (taken.length + 1)).find?
        ((fun name => !taken.contains name) ∘ candidate base)).map (candidate base) :=
    List.find?_map
  cases hk : (List.range (taken.length + 1)).find?
      ((fun name => !taken.contains name) ∘ candidate base) with
  | none =>
    -- then the first `taken.length + 1` choices are all taken, and there is no room for them
    exfalso
    have hall := List.find?_range_eq_none.mp hk
    have hsub : (List.range (taken.length + 1)).map (candidate base) ⊆ taken := by
      intro name hname
      obtain ⟨j, hj, rfl⟩ := List.mem_map.mp hname
      simpa using hall j (List.mem_range.mp hj)
    have hnodup : ((List.range (taken.length + 1)).map (candidate base)).Nodup :=
      List.nodup_range.map (candidate_injective base)
    have hlen := hnodup.length_le_of_subset hsub
    rw [List.length_map, List.length_range] at hlen
    omega
  | some k =>
    obtain ⟨hfree, _, hbefore⟩ := List.find?_range_eq_some.mp hk
    refine ⟨k, ?_, by simpa using hfree, fun j hj => by simpa using hbefore j hj⟩
    show ((((List.range (taken.length + 1)).map (candidate base)).find?
      fun name => !taken.contains name).getD base) = _
    rw [hfind, hk]
    rfl

/-- The search for a free name, choice by choice from the `k`-th on: it ends at the first choice
    that is not taken. -/
inductive Searches (taken : List Text) (base : Text) : Nat → Text → Prop where
  | free {k : Nat} (h : candidate base k ∉ taken) : Searches taken base k (candidate base k)
  | next {k : Nat} {name : Text} (h : candidate base k ∈ taken)
      (hs : Searches taken base (k + 1) name) : Searches taken base k name

/-- The search ends, and it ends with the new name. -/
theorem searches_freshName (base : Text) (taken : List Text) :
    Searches taken base 0 (freshName base taken) := by
  obtain ⟨k, e, hfree, hbefore⟩ := freshName_eq base taken
  -- from the choice that is found backwards to the first one
  have hback : ∀ i ≤ k, Searches taken base (k - i) (candidate base k) := by
    intro i hi
    induction i with
    | zero => exact .free hfree
    | succ i ih =>
      have hstep : k - (i + 1) + 1 = k - i := by omega
      refine .next (hbefore _ (by omega)) ?_
      rw [hstep]
      exact ih (by omega)
  have hstart := hback k (Nat.le_refl k)
  rw [Nat.sub_self] at hstart
  rw [e]
  exact hstart

/-! ## 2. The correspondence -/

/-- The canonical forms that have a name, oldest first. -/
def forms (r : ClassRegistry) : List Text := r.bindings.map Prod.fst

/-- Forms and names correspond one to one: no form and no name is bound twice. No name is empty. -/
structure Exact (r : ClassRegistry) : Prop where
  forms_nodup : r.forms.Nodup
  names_nodup : r.names.Nodup
  names_ne_nil : ∀ name ∈ r.names, name ≠ []

theorem exact_empty (stem : Text) : Exact { stem } where
  forms_nodup := .nil
  names_nodup := .nil
  names_ne_nil _ h := by cases h

/-- Looking up a form is looking up in the bindings read backwards. -/
theorem formOf?_eq_lookup (r : ClassRegistry) (name : Text) :
    r.formOf? name = (r.bindings.map Prod.swap).lookup name := by
  unfold formOf?
  induction r.bindings with
  | nil => rfl
  | cons b bs ih =>
    obtain ⟨form, n⟩ := b
    by_cases hn : n = name
    · subst hn
      simp
    · have hb : (n == name) = false := beq_false_of_ne hn
      have hb' : (name == n) = false := beq_false_of_ne (Ne.symm hn)
      simp only [List.find?_cons, hb, List.map_cons, Prod.swap_prod_mk, List.lookup_cons, hb', ih]

theorem nameOf?_eq_none_iff {r : ClassRegistry} {form : Text} :
    r.nameOf? form = none ↔ form ∉ r.forms := by
  unfold nameOf? forms
  rw [List.lookup_eq_none_iff, List.mem_map]
  constructor
  · rintro h ⟨b, hb, rfl⟩
    simpa using h b hb
  · intro h b hb
    simpa using fun e => h ⟨b, hb, e.symm⟩

namespace Exact

variable {r : ClassRegistry} {form name : Text}

theorem nameOf?_eq_some (h : r.Exact) : r.nameOf? form = some name ↔ (form, name) ∈ r.bindings :=
  lookup_eq_some_iff_mem h.forms_nodup

theorem formOf?_eq_some (h : r.Exact) : r.formOf? name = some form ↔ (form, name) ∈ r.bindings := by
  have hnodup : ((r.bindings.map Prod.swap).map Prod.fst).Nodup := by
    rw [List.map_map]
    exact h.names_nodup
  rw [formOf?_eq_lookup, lookup_eq_some_iff_mem hnodup, List.mem_map]
  constructor
  · rintro ⟨⟨form', name'⟩, hmem, e⟩
    obtain ⟨rfl, rfl⟩ := Prod.mk.inj e
    exact hmem
  · exact fun hmem => ⟨(form, name), hmem, rfl⟩

/-- **The two directions of an exact registry are inverse to each other.** -/
theorem inverse (h : r.Exact) : r.nameOf? form = some name ↔ r.formOf? name = some form :=
  h.nameOf?_eq_some.trans h.formOf?_eq_some.symm

/-- Of two bindings, the names are the same exactly if the forms are. -/
theorem name_eq_iff (h : r.Exact) {form' name' : Text} (hmem : (form, name) ∈ r.bindings)
    (hmem' : (form', name') ∈ r.bindings) : name = name' ↔ form = form' := by
  have hform := h.formOf?_eq_some.mpr hmem
  have hname := h.nameOf?_eq_some.mpr hmem
  constructor
  · rintro rfl
    rw [h.formOf?_eq_some.mpr hmem'] at hform
    exact (Option.some.inj hform).symm
  · rintro rfl
    rw [h.nameOf?_eq_some.mpr hmem'] at hname
    exact (Option.some.inj hname).symm

end Exact

/-! ## 3. Naming -/

theorem baseName_ne_nil (stem form : Text) : baseName stem form ≠ [] := by
  intro h
  exact Text.base36Before_ne_nil _ _ _ (List.append_eq_nil_iff.mp h).2

/-- **What a call that is not refused can do**: it finds the name of a form that has one, or it
    binds a form without a name to a name that is not taken. -/
theorem classFor_cases {r r' : ClassRegistry} {t name : Text}
    (ok : r.classFor t = .ok (name, r')) :
    Style.canonical t ≠ [] ∧
      (((Style.canonical t, name) ∈ r.bindings ∧ r' = r) ∨
        (Style.canonical t ∉ r.forms ∧ name ∉ r.names ∧ name ≠ [] ∧
          r' = { r with bindings := r.bindings ++ [(Style.canonical t, name)] })) := by
  unfold classFor at ok
  dsimp only at ok
  split at ok
  · cases ok
  · rename_i hne
    refine ⟨by simpa using hne, ?_⟩
    split at ok
    · rename_i found hfound
      cases ok
      exact .inl ⟨mem_of_lookup_eq_some hfound, rfl⟩
    · rename_i hnone
      cases ok
      obtain ⟨k, e, hfree, _⟩ := freshName_eq (baseName r.stem (Style.canonical t)) r.names
      refine .inr ⟨nameOf?_eq_none_iff.mp hnone, ?_, ?_, rfl⟩
      · rw [e]
        exact hfree
      · rw [e]
        exact candidate_ne_nil (baseName_ne_nil _ _) k

/-- A call is refused exactly if the canonical form is empty. -/
theorem classFor_eq_error {r : ClassRegistry} {t : Text} {fault : Fault} :
    r.classFor t = .error fault ↔ fault = .emptyDeclarations ∧ Style.canonical t = [] := by
  unfold classFor
  dsimp only
  split
  · rename_i hempty
    have hnil : Style.canonical t = [] := by simpa using hempty
    constructor
    · intro h
      cases h
      exact ⟨rfl, hnil⟩
    · rintro ⟨rfl, _⟩
      rfl
  · rename_i hne
    constructor
    · intro h
      split at h <;> cases h
    · rintro ⟨_, hnil⟩
      exact absurd (by simp [hnil]) hne

section Call

variable {r r' : ClassRegistry} {t name : Text}

/-- The name that a call gives is bound to the canonical form of its declarations. -/
theorem mem_bindings_of_classFor (ok : r.classFor t = .ok (name, r')) :
    (Style.canonical t, name) ∈ r'.bindings := by
  obtain ⟨_, ⟨hmem, rfl⟩ | ⟨_, _, _, rfl⟩⟩ := classFor_cases ok
  · exact hmem
  · exact List.mem_append_right _ List.mem_cons_self

/-- A call keeps all bindings. -/
theorem classFor_extends (ok : r.classFor t = .ok (name, r')) : r.bindings <+: r'.bindings := by
  obtain ⟨_, ⟨_, rfl⟩ | ⟨_, _, _, rfl⟩⟩ := classFor_cases ok
  · exact List.prefix_rfl
  · exact List.prefix_append _ _

/-- **A call keeps the correspondence.** -/
theorem Exact.classFor (h : r.Exact) (ok : r.classFor t = .ok (name, r')) : r'.Exact := by
  obtain ⟨_, ⟨_, rfl⟩ | ⟨hform, hname, hne, rfl⟩⟩ := classFor_cases ok
  · exact h
  · have hforms : (r.forms ++ [Style.canonical t]).Nodup :=
      List.nodup_append.mpr ⟨h.forms_nodup, List.nodup_singleton _, fun a ha b hb e => by
        rw [List.mem_singleton.mp hb] at e
        exact hform (e ▸ ha)⟩
    have hnames : (r.names ++ [name]).Nodup :=
      List.nodup_append.mpr ⟨h.names_nodup, List.nodup_singleton _, fun a ha b hb e => by
        rw [List.mem_singleton.mp hb] at e
        exact hname (e ▸ ha)⟩
    refine ⟨?_, ?_, ?_⟩
    · simpa [forms] using hforms
    · simpa [names] using hnames
    · intro n hn
      simp only [names, List.map_append, List.mem_append, List.map_cons, List.map_nil,
        List.mem_singleton] at hn
      rcases hn with hn | rfl
      · exact h.names_ne_nil n hn
      · exact hne

theorem mem_names_classFor (ok : r.classFor t = .ok (name, r')) {n : Text} :
    n ∈ r'.names ↔ n ∈ r.names ∨ n = name := by
  obtain ⟨_, ⟨hmem, rfl⟩ | ⟨_, _, _, rfl⟩⟩ := classFor_cases ok
  · have hname : name ∈ r'.names := List.mem_map_of_mem (f := Prod.snd) hmem
    exact ⟨.inl, fun h => h.elim id fun e => e ▸ hname⟩
  · simp [names]

theorem mem_forms_classFor (ok : r.classFor t = .ok (name, r')) {form : Text} :
    form ∈ r'.forms ↔ form ∈ r.forms ∨ form = Style.canonical t := by
  obtain ⟨_, ⟨hmem, rfl⟩ | ⟨_, _, _, rfl⟩⟩ := classFor_cases ok
  · have hform : Style.canonical t ∈ r'.forms := List.mem_map_of_mem (f := Prod.fst) hmem
    exact ⟨.inl, fun h => h.elim id fun e => e ▸ hform⟩
  · simp [forms]

end Call

/-! ## 4. Histories of calls -/

/-- One call: its answer, and the registry after it. A refused call leaves the registry alone. -/
def call (r : ClassRegistry) (t : Text) : Except Fault Text × ClassRegistry :=
  match r.classFor t with
  | .ok (name, r') => (.ok name, r')
  | .error fault => (.error fault, r)

/-- The registry after some calls. -/
def after (r : ClassRegistry) (ts : List Text) : ClassRegistry :=
  ts.foldl (fun r t => (r.call t).2) r

theorem call_cases (r : ClassRegistry) (t : Text) :
    (Style.canonical t = [] ∧ r.call t = (.error .emptyDeclarations, r)) ∨
      ∃ name r', Style.canonical t ≠ [] ∧ r.classFor t = .ok (name, r') ∧
        r.call t = (.ok name, r') := by
  unfold call
  cases e : r.classFor t with
  | error fault =>
    obtain ⟨rfl, hnil⟩ := classFor_eq_error.mp e
    exact .inl ⟨hnil, rfl⟩
  | ok answer => exact .inr ⟨answer.1, answer.2, (classFor_cases e).1, rfl, rfl⟩

theorem Exact.call {r : ClassRegistry} (h : r.Exact) (t : Text) : (r.call t).2.Exact := by
  rcases r.call_cases t with ⟨_, e⟩ | ⟨name, r', _, ok, e⟩
  · rw [e]
    exact h
  · rw [e]
    exact h.classFor ok

theorem call_extends (r : ClassRegistry) (t : Text) : r.bindings <+: (r.call t).2.bindings := by
  rcases r.call_cases t with ⟨_, e⟩ | ⟨name, r', _, ok, e⟩
  · simp [e]
  · rw [e]
    exact classFor_extends ok

theorem Exact.after {r : ClassRegistry} (h : r.Exact) (ts : List Text) : (r.after ts).Exact := by
  induction ts generalizing r with
  | nil => exact h
  | cons t ts ih => exact ih (h.call t)

theorem after_extends (r : ClassRegistry) (ts : List Text) :
    r.bindings <+: (r.after ts).bindings := by
  induction ts generalizing r with
  | nil => exact List.prefix_rfl
  | cons t ts ih => exact (r.call_extends t).trans (ih (r.call t).2)

theorem mem_forms_after (r : ClassRegistry) (ts : List Text) {form : Text} :
    form ∈ (r.after ts).forms ↔
      form ∈ r.forms ∨ form ∈ (ts.map Style.canonical).filter (· ≠ []) := by
  induction ts generalizing r with
  | nil => simp [after]
  | cons t ts ih =>
    have hstep : form ∈ (r.call t).2.forms ↔
        form ∈ r.forms ∨ (form = Style.canonical t ∧ Style.canonical t ≠ []) := by
      rcases r.call_cases t with ⟨hnil, e⟩ | ⟨name, r', hne, ok, e⟩
      · rw [e]
        simp [hnil]
      · rw [e, mem_forms_classFor ok]
        simp [hne]
    show form ∈ ((r.call t).2.after ts).forms ↔ _
    rw [ih, hstep, or_assoc]
    refine or_congr_right ?_
    simp only [List.map_cons, List.mem_filter, List.mem_cons, decide_eq_true_eq]
    constructor
    · rintro (⟨rfl, hne⟩ | ⟨hmem, hne⟩)
      · exact ⟨.inl rfl, hne⟩
      · exact ⟨.inr hmem, hne⟩
    · rintro ⟨rfl | hmem, hne⟩
      · exact .inl ⟨rfl, hne⟩
      · exact .inr ⟨hmem, hne⟩

/-- The size of a registry counts the canonical forms of the declarations that it was asked for. -/
theorem size_after (stem : Text) (ts : List Text) :
    (({ stem } : ClassRegistry).after ts).size =
      ((ts.map Style.canonical).filter (· ≠ [])).dedup.length := by
  have hnodup := ((exact_empty stem).after ts).forms_nodup
  have hperm := (List.perm_ext_iff_of_nodup hnodup
    (List.nodup_dedup ((ts.map Style.canonical).filter (· ≠ [])))).mpr fun form => by
      rw [mem_forms_after, List.mem_dedup]
      simp [forms]
  rw [← hperm.length_eq, forms, List.length_map]
  rfl

/-- The name that a call gives is bound to the canonical form of its declarations from then on. -/
theorem mem_bindings_of_call {r : ClassRegistry} {t name : Text} (h : (r.call t).1 = .ok name)
    (us : List Text) : (Style.canonical t, name) ∈ (r.after (t :: us)).bindings := by
  refine ((r.call t).2.after_extends us).subset ?_
  rcases r.call_cases t with ⟨_, e⟩ | ⟨name', r', _, ok, e⟩
  · rw [e] at h
    cases h
  · rw [e] at h ⊢
    cases h
    exact mem_bindings_of_classFor ok

/-- **Forms and names correspond one to one, at every moment of every history of calls.** The two
    directions of the registry are inverse to each other, and its size counts the forms seen. The
    search for a free name ends. A call is refused exactly if the canonical form is empty, and then
    changes nothing; the name that any other call gives stands for its canonical form from then on;
    so two calls give the same name exactly if their canonical forms are the same. What a name
    stands for never changes. -/
theorem calls_correspond (stem : Text) (ts : List Text) :
    let r := ({ stem } : ClassRegistry).after ts
    (∀ form name, r.nameOf? form = some name ↔ r.formOf? name = some form) ∧
    r.size = ((ts.map Style.canonical).filter (· ≠ [])).dedup.length ∧
    (∀ base, Searches r.names base 0 (freshName base r.names)) ∧
    (∀ t fault, (r.call t).1 = .error fault ↔
      fault = .emptyDeclarations ∧ Style.canonical t = []) ∧
    (∀ t, Style.canonical t = [] → (r.call t).2 = r) ∧
    (∀ t name us, (r.call t).1 = .ok name →
      (r.after (t :: us)).formOf? name = some (Style.canonical t)) ∧
    (∀ t t' a b us, (r.call t).1 = .ok a → ((r.after (t :: us)).call t').1 = .ok b →
      (a = b ↔ Style.canonical t = Style.canonical t')) ∧
    (∀ form name us, r.formOf? name = some form → (r.after us).formOf? name = some form) := by
  intro r
  have hr : r.Exact := (exact_empty stem).after ts
  refine ⟨fun _ _ => hr.inverse, size_after stem ts, fun base => searches_freshName base r.names,
    ?_, ?_, ?_, ?_, ?_⟩
  · intro t fault
    rcases r.call_cases t with ⟨hnil, e⟩ | ⟨name, r', hne, _, e⟩
    · rw [e]
      exact ⟨fun h => ⟨(Except.error.inj h).symm, hnil⟩, fun h => by rw [h.1]⟩
    · rw [e]
      exact ⟨fun h => (by cases h), fun h => absurd h.2 hne⟩
  · intro t hnil
    rcases r.call_cases t with ⟨_, e⟩ | ⟨name, r', hne, _, _⟩
    · rw [e]
    · exact absurd hnil hne
  · intro t name us hname
    exact (hr.after (t :: us)).formOf?_eq_some.mpr (mem_bindings_of_call hname us)
  · intro t t' a b us ha hb
    -- both names are bound in the registry after the second call
    have hend : ((r.after (t :: us)).after [t']).Exact := (hr.after (t :: us)).after [t']
    have hfirst : (Style.canonical t, a) ∈ ((r.after (t :: us)).after [t']).bindings :=
      (after_extends _ [t']).subset (mem_bindings_of_call ha us)
    exact hend.name_eq_iff hfirst (mem_bindings_of_call hb [])
  · intro form name us h
    exact (hr.after us).formOf?_eq_some.mpr
      ((r.after_extends us).subset (hr.formOf?_eq_some.mp h))

/-- Two forms with the same hash: the second gets a numbered name, and both names keep their
    meaning. -/
theorem calls_correspond_collision :
    let r := ({ stem := "n-" } : ClassRegistry).after ["Aa", ";"]
    Style.hash "Aa" = Style.hash "BB" ∧ (r.call "BB").1 = .ok "n-1mo-1" ∧
      r.formOf? "n-1mo" = some "Aa" ∧
      (r.after ["BB", "Aa !important"]).formOf? "n-1mo-1" = some (Style.canonical "BB") ∧
      (r.after ["BB", "Aa !important"]).formOf? "n-1mo" = some "Aa" := by
  intro r
  have hname : (r.call "BB").1 = .ok "n-1mo-1" := by decide +kernel
  have hform : r.formOf? "n-1mo" = some "Aa" := by decide +kernel
  obtain ⟨_, _, _, _, _, hlater, _, hkept⟩ := calls_correspond "n-" ["Aa", ";"]
  exact ⟨by decide +kernel, hname, hform, hlater "BB" "n-1mo-1" ["Aa !important"] hname,
    hkept "Aa" "n-1mo" ["BB", "Aa !important"] hform⟩

end ClassRegistry

end OutlineMarkup
