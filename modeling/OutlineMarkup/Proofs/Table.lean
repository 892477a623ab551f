/-
  File:      OutlineMarkup/Proofs/Table.lean
  Subject:   Laws of look-up tables.

  No key of a table is there twice, so looking a key up is finding its entry (`get?_eq_some_iff`).
  A change at a key shows at that key alone:

  * `get?_alter`, `mem_keys_alter`, `mem_alter_cases`: what is looked up after a change, the keys
    and the entries;
  * `forall_alter`, `exists_alter`: what holds of all values, and of one of them;
  * `mem_keys_insertAll`, `forall_insertAll`, `entries_insertAll`: the same for entries written one
    after the other;
  * `keys_ofList`, `entries_ofList`, `values_eq_filterMap`: the order in which keys, entries and
    values stand.
-/
import Mathlib.Data.List.Induction
import Mathlib.Data.List.Nodup
import OutlineMarkup.Table

namespace OutlineMarkup

section Lookup

variable {κ α : Type} [BEq κ] [LawfulBEq κ] {pairs : List (κ × α)} {a : κ} {b : α}

theorem mem_of_lookup_eq_some (h : pairs.lookup a = some b) : (a, b) ∈ pairs := by
  obtain ⟨before, after, rfl, _⟩ := List.lookup_eq_some_iff.mp h
  exact List.mem_append_right _ List.mem_cons_self

/-- In a list of pairs without a repeated key, looking up is membership. -/
theorem lookup_eq_some_iff_mem (h : (pairs.map Prod.fst).Nodup) :
    pairs.lookup a = some b ↔ (a, b) ∈ pairs := by
  refine ⟨mem_of_lookup_eq_some, fun hmem => ?_⟩
  obtain ⟨before, after, rfl⟩ := List.append_of_mem hmem
  refine List.lookup_eq_some_iff.mpr ⟨before, after, rfl, fun p hp => ?_⟩
  rw [List.map_append, List.map_cons] at h
  have hdisjoint := (List.nodup_append.mp h).2.2 p.1 (List.mem_map_of_mem hp) a List.mem_cons_self
  simpa using hdisjoint.symm

end Lookup

section EraseDups

variable {α : Type} [BEq α] [LawfulBEq α] {xs : List α} {x : α}

theorem eraseDups_concat_of_mem (h : x ∈ xs) : (xs ++ [x]).eraseDups = xs.eraseDups := by
  have hnone : [x].removeAll xs = [] := by simp [List.removeAll, h]
  rw [List.eraseDups_append, hnone]
  exact List.append_nil _

theorem eraseDups_concat_of_not_mem (h : x ∉ xs) :
    (xs ++ [x]).eraseDups = xs.eraseDups ++ [x] := by
  have hnew : [x].removeAll xs = [x] := by simp [List.removeAll, h]
  rw [List.eraseDups_append, hnew]
  rfl

end EraseDups

namespace Table

variable {κ α : Type}

/-! ## 1. Entries, keys and values -/

theorem mem_keys {t : Table κ α} {k : κ} : k ∈ t.keys ↔ ∃ v, (k, v) ∈ t.entries := by
  unfold keys
  constructor
  · intro h
    obtain ⟨e, he, rfl⟩ := List.mem_map.mp h
    exact ⟨e.2, he⟩
  · rintro ⟨v, hv⟩
    exact List.mem_map_of_mem (f := Prod.fst) hv

theorem mem_values {t : Table κ α} {v : α} : v ∈ t.values ↔ ∃ k, (k, v) ∈ t.entries := by
  unfold values
  constructor
  · intro h
    obtain ⟨e, he, rfl⟩ := List.mem_map.mp h
    exact ⟨e.1, he⟩
  · rintro ⟨k, hk⟩
    exact List.mem_map_of_mem (f := Prod.snd) hk

/-- Two entries under the same key are the same entry. -/
theorem eq_of_key_eq {t : Table κ α} (h : t.keys.Nodup) {e e' : κ × α} (he : e ∈ t.entries)
    (he' : e' ∈ t.entries) (hk : e.1 = e'.1) : e = e' :=
  List.inj_on_of_nodup_map h he he' hk

variable [DecidableEq κ]

theorem mem_entries_of_get? {t : Table κ α} {k : κ} {v : α} (h : t.get? k = some v) :
    (k, v) ∈ t.entries := mem_of_lookup_eq_some h

theorem mem_values_of_get? {t : Table κ α} {k : κ} {v : α} (h : t.get? k = some v) :
    v ∈ t.values := List.mem_map_of_mem (mem_entries_of_get? h)

theorem get?_eq_some_iff {t : Table κ α} (h : t.keys.Nodup) {k : κ} {v : α} :
    t.get? k = some v ↔ (k, v) ∈ t.entries := lookup_eq_some_iff_mem h

theorem contains_eq_false_iff {t : Table κ α} {k : κ} : t.contains k = false ↔ k ∉ t.keys := by
  unfold contains get? keys
  rw [Option.isSome_eq_false_iff, Option.isNone_iff_eq_none, List.lookup_eq_none_iff]
  simp only [List.mem_map, not_exists, not_and, bne_iff_ne, ne_comm, ne_eq]

/-! ## 2. One change -/

theorem get?_alter (t : Table κ α) (k k' : κ) (f : Option α → α) :
    (t.alter k f).get? k' = if k' = k then some (f (t.get? k)) else t.get? k' := by
  obtain ⟨es⟩ := t
  simp only [alter, get?]
  induction es with
  | nil =>
    by_cases h : k' = k
    · simp [alterEntries, h]
    · simp [alterEntries, h, List.lookup_cons, beq_false_of_ne h]
  | cons e es ih =>
    obtain ⟨k₁, v⟩ := e
    rw [alterEntries]
    by_cases h₁ : k₁ = k
    · subst h₁
      by_cases h : k' = k₁
      · simp [h]
      · simp [h, List.lookup_cons, beq_false_of_ne h]
    · have hne : (k == k₁) = false := beq_false_of_ne fun e => h₁ e.symm
      rw [if_neg h₁, List.lookup_cons, List.lookup_cons, List.lookup_cons, ih, hne]
      by_cases h : k' = k
      · rw [if_pos h, if_pos h, h, hne]
      · rw [if_neg h, if_neg h]

/-- A change depends on the old value only. -/
theorem alter_eq_insert (t : Table κ α) (k : κ) (f : Option α → α) :
    t.alter k f = t.insert k (f (t.get? k)) := by
  obtain ⟨es⟩ := t
  simp only [insert, alter, get?, mk.injEq]
  induction es with
  | nil => rfl
  | cons e es ih =>
    obtain ⟨a, v⟩ := e
    by_cases ha : a = k
    · simp [alterEntries, ha]
    · have hne : (k == a) = false := beq_false_of_ne fun e => ha e.symm
      simp [alterEntries, ha, List.lookup_cons, hne, ih]

/-- To write the value that stands under a key changes nothing. -/
theorem insert_eq_self {t : Table κ α} {k : κ} {v : α} (h : t.get? k = some v) :
    t.insert k v = t := by
  obtain ⟨es⟩ := t
  simp only [insert, alter, get?, mk.injEq] at h ⊢
  induction es with
  | nil => cases h
  | cons e es ih =>
    obtain ⟨a, w⟩ := e
    by_cases ha : a = k
    · subst ha
      rw [List.lookup_cons_self] at h
      cases h
      simp [alterEntries]
    · have hne : (k == a) = false := beq_false_of_ne fun e => ha e.symm
      rw [List.lookup_cons, hne] at h
      simp [alterEntries, ha, ih h]

/-- Of two values written under a key the second one stays. -/
theorem insert_insert (t : Table κ α) (k : κ) (v w : α) :
    (t.insert k v).insert k w = t.insert k w := by
  obtain ⟨es⟩ := t
  simp only [insert, alter, mk.injEq]
  induction es with
  | nil => simp [alterEntries]
  | cons e es ih =>
    obtain ⟨a, u⟩ := e
    by_cases ha : a = k
    · simp [alterEntries, ha]
    · simp [alterEntries, ha, ih]

/-- Of several values written under a key the last one stays. -/
theorem foldl_insert {β : Type} (t : Table κ α) (k : κ) (value : β → α) (xs : List β) :
    xs.foldl (fun t x => t.insert k (value x)) t =
      (xs.getLast?.map fun x => t.insert k (value x)).getD t := by
  induction xs using List.reverseRecOn with
  | nil => rfl
  | append_singleton xs x ih =>
    rw [List.foldl_append, List.foldl_cons, List.foldl_nil, ih, List.getLast?_concat]
    cases xs.getLast? with
    | none => rfl
    | some y => exact insert_insert t k (value y) (value x)

theorem mem_keys_alter {t : Table κ α} {k k' : κ} {f : Option α → α} :
    k' ∈ (t.alter k f).keys ↔ k' ∈ t.keys ∨ k' = k := by
  by_cases h : k ∈ t.keys
  · rw [keys_alter_of_mem h]
    exact ⟨.inl, fun h' => h'.elim id fun e => e ▸ h⟩
  · rw [keys_alter_of_not_mem h, List.mem_append, List.mem_singleton]

/-- What holds of all entries still does after a change that makes it hold of the entry it
    writes. -/
theorem forall_alter {P : κ × α → Prop} {t : Table κ α} {k : κ} {f : Option α → α}
    (h : ∀ e ∈ t.entries, P e) (hnew : P (k, f none))
    (hold : ∀ v, (k, v) ∈ t.entries → P (k, f (some v))) : ∀ e ∈ (t.alter k f).entries, P e := by
  obtain ⟨es⟩ := t
  simp only [alter] at h hold ⊢
  induction es with
  | nil =>
    intro e he
    rw [alterEntries, List.mem_singleton] at he
    exact he ▸ hnew
  | cons a es ih =>
    obtain ⟨k', v⟩ := a
    intro e he
    rw [alterEntries] at he
    split at he
    · rename_i hk
      subst hk
      rcases List.mem_cons.mp he with rfl | he
      · exact hold v List.mem_cons_self
      · exact h e (List.mem_cons_of_mem _ he)
    · rcases List.mem_cons.mp he with rfl | he
      · exact h _ List.mem_cons_self
      · exact ih (fun e he => h e (List.mem_cons_of_mem _ he))
          (fun v hv => hold v (List.mem_cons_of_mem _ hv)) e he

/-- Of an entry, a change leaves what it was or what the change makes of it. -/
theorem mem_entries_alter {t : Table κ α} {k' : κ} {v : α} (h : (k', v) ∈ t.entries) (k : κ)
    (f : Option α → α) :
    (k', v) ∈ (t.alter k f).entries ∨ (k', f (some v)) ∈ (t.alter k f).entries := by
  obtain ⟨es⟩ := t
  simp only [alter] at h ⊢
  induction es with
  | nil => cases h
  | cons e es ih =>
    obtain ⟨a, w⟩ := e
    rw [alterEntries]
    split
    · rename_i ha
      rcases List.mem_cons.mp h with e | h
      · cases e
        exact .inr (by rw [ha]; exact List.mem_cons_self)
      · exact .inl (List.mem_cons_of_mem _ h)
    · rcases List.mem_cons.mp h with e | h
      · exact .inl (by rw [e]; exact List.mem_cons_self)
      · exact (ih h).imp (List.mem_cons_of_mem _) (List.mem_cons_of_mem _)

/-- After a change there is an entry that it has made. -/
theorem exists_mem_alter (t : Table κ α) (k : κ) (f : Option α → α) :
    ∃ old, (k, f old) ∈ (t.alter k f).entries := by
  obtain ⟨es⟩ := t
  simp only [alter]
  induction es with
  | nil => exact ⟨none, List.mem_cons_self⟩
  | cons e es ih =>
    obtain ⟨a, w⟩ := e
    rw [alterEntries]
    split
    · exact ⟨some w, List.mem_cons_self⟩
    · obtain ⟨old, h⟩ := ih
      exact ⟨old, List.mem_cons_of_mem _ h⟩

section View

variable {β : Type} {t : Table κ α} {k : κ} {f : Option α → α} {view : κ × α → β}

/-- A change at a known key does not show where the old value looks like the new one. -/
theorem map_entries_alter_of_mem (hk : k ∈ t.keys)
    (h : ∀ v, view (k, f (some v)) = view (k, v)) :
    (t.alter k f).entries.map view = t.entries.map view := by
  obtain ⟨es⟩ := t
  simp only [alter, keys] at hk ⊢
  induction es with
  | nil => cases hk
  | cons e es ih =>
    obtain ⟨a, v⟩ := e
    by_cases ha : a = k
    · subst ha
      simp [alterEntries, h]
    · have hm : k ∈ es.map Prod.fst := (List.mem_cons.mp hk).resolve_left (Ne.symm ha)
      simp [alterEntries, ha, ih hm]

/-- A change at a new key adds its entry at the end. -/
theorem entries_alter_of_not_mem (hk : k ∉ t.keys) :
    (t.alter k f).entries = t.entries ++ [(k, f none)] := by
  obtain ⟨es⟩ := t
  simp only [alter, keys] at hk ⊢
  induction es with
  | nil => rfl
  | cons e es ih =>
    obtain ⟨a, v⟩ := e
    have ha : ¬ a = k := fun e => hk (List.mem_cons.mpr (.inl e.symm))
    have hm : k ∉ es.map Prod.fst := fun hm => hk (List.mem_cons_of_mem _ hm)
    simp [alterEntries, ha, ih hm]

end View

/-- The entries after a change: those at other keys, and the one that it has made. -/
theorem mem_alter_cases {t : Table κ α} (hnodup : t.keys.Nodup) {k : κ} {f : Option α → α}
    {e : κ × α} (h : e ∈ (t.alter k f).entries) :
    (e.1 ≠ k ∧ e ∈ t.entries) ∨ (k ∉ t.keys ∧ e = (k, f none)) ∨
      ∃ v, (k, v) ∈ t.entries ∧ e = (k, f (some v)) := by
  obtain ⟨es⟩ := t
  simp only [alter, keys] at h hnodup ⊢
  induction es with
  | nil =>
    rw [alterEntries, List.mem_singleton] at h
    exact .inr (.inl ⟨List.not_mem_nil, h⟩)
  | cons e' es ih =>
    obtain ⟨a, v⟩ := e'
    obtain ⟨hnew, hrest⟩ := List.nodup_cons.mp hnodup
    rw [alterEntries] at h
    split at h
    · rename_i ha
      subst ha
      rcases List.mem_cons.mp h with rfl | h
      · exact .inr (.inr ⟨v, List.mem_cons_self, rfl⟩)
      · exact .inl ⟨fun he => hnew (List.mem_map.mpr ⟨e, h, he⟩), List.mem_cons_of_mem _ h⟩
    · rename_i ha
      rcases List.mem_cons.mp h with rfl | h
      · exact .inl ⟨ha, List.mem_cons_self⟩
      · rcases ih hrest h with ⟨hk, he⟩ | ⟨hk, he⟩ | ⟨w, hw, he⟩
        · exact .inl ⟨hk, List.mem_cons_of_mem _ he⟩
        · refine .inr (.inl ⟨fun hmem => ?_, he⟩)
          rcases List.mem_cons.mp hmem with e | hmem
          · exact ha e.symm
          · exact hk hmem
        · exact .inr (.inr ⟨w, List.mem_cons_of_mem _ hw, he⟩)

/-- A change that adds to what one value has adds just that to what the values have together. -/
theorem exists_alter {Q : α → Prop} {extra : Prop} {t : Table κ α} {k : κ} {f : Option α → α}
    (hnew : Q (f none) ↔ extra) (hold : ∀ v, Q (f (some v)) ↔ Q v ∨ extra) :
    (∃ v ∈ (t.alter k f).values, Q v) ↔ (∃ v ∈ t.values, Q v) ∨ extra := by
  obtain ⟨es⟩ := t
  simp only [alter, values]
  induction es with
  | nil => simp [alterEntries, hnew]
  | cons e es ih =>
    obtain ⟨a, v⟩ := e
    rw [alterEntries]
    split
    · simp only [List.map_cons, List.mem_cons, exists_eq_or_imp, hold]
      exact or_right_comm
    · simp only [List.map_cons, List.mem_cons, exists_eq_or_imp, ih]
      exact or_assoc.symm

/-! ## 3. Entries one after the other -/

theorem nodup_keys_insertAll (es : List (κ × α)) {t : Table κ α} (h : t.keys.Nodup) :
    (t.insertAll es).keys.Nodup := by
  induction es generalizing t with
  | nil => exact h
  | cons e es ih => exact ih (nodup_keys_alter h e.1 _)

theorem mem_keys_insertAll {k : κ} (es : List (κ × α)) {t : Table κ α} :
    k ∈ (t.insertAll es).keys ↔ k ∈ t.keys ∨ k ∈ es.map Prod.fst := by
  induction es generalizing t with
  | nil => simp [insertAll]
  | cons a es ih =>
    show k ∈ (insertAll (t.insert a.1 a.2) es).keys ↔ _
    rw [ih, insert, mem_keys_alter, List.map_cons, List.mem_cons, or_assoc]

theorem forall_insertAll {P : κ × α → Prop} (es : List (κ × α)) {t : Table κ α}
    (h : ∀ e ∈ t.entries, P e) (hes : ∀ e ∈ es, P e) : ∀ e ∈ (t.insertAll es).entries, P e := by
  induction es generalizing t with
  | nil => exact h
  | cons a es ih =>
    have ha : P a := hes a List.mem_cons_self
    exact ih (forall_alter h ha fun _ _ => ha) fun e he => hes e (List.mem_cons_of_mem _ he)

/-- Entries with new keys, all different, go to the end as they are. -/
theorem entries_insertAll (es : List (κ × α)) {t : Table κ α}
    (h : (t.keys ++ es.map Prod.fst).Nodup) : (t.insertAll es).entries = t.entries ++ es := by
  induction es generalizing t with
  | nil => exact (List.append_nil _).symm
  | cons e es ih =>
    have hnew : e.1 ∉ t.keys := fun hm =>
      (List.nodup_append.mp h).2.2 e.1 hm e.1 List.mem_cons_self rfl
    have hrest : ((t.insert e.1 e.2).keys ++ es.map Prod.fst).Nodup := by
      rw [insert, keys_alter_of_not_mem hnew, List.append_assoc]
      exact h
    have hinsert : (t.insert e.1 e.2).entries = t.entries ++ [e] := entries_alter_of_not_mem hnew
    show (insertAll (t.insert e.1 e.2) es).entries = _
    rw [ih hrest, hinsert, List.append_assoc]
    rfl

/-! ## 4. The order of keys -/

/-- The keys of a list of entries come in order of first arrival, each once. -/
theorem keys_ofList [BEq κ] [LawfulBEq κ] (es : List (κ × α)) :
    (ofList es).keys = (es.map Prod.fst).eraseDups := by
  induction es using List.reverseRecOn with
  | nil => rfl
  | append_singleton es e ih =>
    have hmem : e.1 ∈ (ofList es).keys ↔ e.1 ∈ es.map Prod.fst := by
      rw [ih, List.mem_eraseDups]
    have hconcat : ofList (es ++ [e]) = (ofList es).insert e.1 e.2 := List.foldl_append
    rw [hconcat, insert, List.map_append, List.map_singleton]
    by_cases h : e.1 ∈ (ofList es).keys
    · rw [keys_alter_of_mem h, eraseDups_concat_of_mem (hmem.mp h), ih]
    · rw [keys_alter_of_not_mem h, eraseDups_concat_of_not_mem (mt hmem.mpr h), ih]

/-- The entries stand in the order of their keys. -/
theorem entries_eq_filterMap {t : Table κ α} (h : t.keys.Nodup) :
    t.entries = t.keys.filterMap fun k => (t.get? k).map fun v => (k, v) := by
  have hget : ∀ e ∈ t.entries, t.get? e.1 = some e.2 := fun e he => (get?_eq_some_iff h).mpr he
  rw [keys, List.filterMap_map]
  conv_lhs => rw [← List.map_id t.entries, ← List.filterMap_eq_map]
  refine List.filterMap_congr fun e he => ?_
  rw [Function.comp_apply, Function.comp_apply, hget e he]
  rfl

/-- Under a key stands the last value that is written for it. -/
theorem get?_insertAll (t : Table κ α) (es : List (κ × α)) (k : κ) :
    (t.insertAll es).get? k =
      ((es.filter fun e => e.1 = k).getLast?.map Prod.snd).or (t.get? k) := by
  induction es using List.reverseRecOn with
  | nil => rfl
  | append_singleton es e ih =>
    have hinsert : t.insertAll (es ++ [e]) = (t.insertAll es).insert e.1 e.2 := List.foldl_append
    rw [hinsert, insert, get?_alter, ih, List.filter_append]
    by_cases h : e.1 = k
    · rw [if_pos h.symm, List.filter_cons_of_pos (by simpa using h), List.filter_nil,
        List.getLast?_concat]
      rfl
    · rw [if_neg fun hk => h hk.symm, List.filter_cons_of_neg (by simpa using h), List.filter_nil,
        List.append_nil]

/-- **Entries that are written one after the other**: each key stands where it first came up, with
    the last value for it. -/
theorem entries_ofList [BEq κ] [LawfulBEq κ] (es : List (κ × α)) :
    (ofList es).entries =
      (es.map Prod.fst).eraseDups.filterMap fun k => (es.filter fun e => e.1 = k).getLast? := by
  have hnodup : (ofList es).keys.Nodup := nodup_keys_insertAll es List.nodup_nil
  rw [entries_eq_filterMap hnodup, keys_ofList]
  refine List.filterMap_congr fun k _ => ?_
  rw [ofList, get?_insertAll]
  cases h : (es.filter fun e => e.1 = k).getLast? with
  | none => rfl
  | some e =>
    have hk : e.1 = k := by simpa using (List.mem_filter.mp (List.mem_of_getLast? h)).2
    rw [← hk]
    rfl

/-- The values stand in the order of their keys. -/
theorem values_eq_filterMap {t : Table κ α} (h : t.keys.Nodup) :
    t.values = t.keys.filterMap t.get? := by
  rw [values, entries_eq_filterMap h, List.map_filterMap]
  refine List.filterMap_congr fun k _ => ?_
  rw [Option.map_map]
  exact Option.map_id'

end Table

end OutlineMarkup
