/-
  File:      OutlineMarkup/Proofs/Text.lean
  Subject:   Laws of trimming, joining, cutting, replacing and sorting.

  * `strip_eq_self_iff`: a text is its own trimmed form exactly if it neither starts nor ends with a
    blank (`IsTrimmed`); `isTrimmed_strip`: what comes out of trimming is trimmed.
  * `join_append_cons`: joining works part by part.
  * `exists_piece_of_mem`, `not_mem_of_mem_splitOn`: the pieces of a text hold its characters, and
    no separator; `cut?_append`: a text is cut at the first separator.
  * `replace_append_blank`: an occurrence of a part without the character `b` lies on one side of a
    `b`, so replacing works on both sides apart.
  * `sort_eq_insertionSort`: sorting is insertion sort for the lexicographic order of lists;
    `sort_eq_sort_iff`: two lists have the same sorted form exactly if one reorders the other.
-/
import Mathlib.Data.Char
import Mathlib.Data.List.DropRight
import Mathlib.Data.List.Lex
import Mathlib.Data.List.Sort
import OutlineMarkup.Text.Basic

namespace OutlineMarkup.Text

/-! ## 1. Trimmed texts -/

/-- A text that neither starts nor ends with a blank. -/
structure IsTrimmed (t : Text) : Prop where
  head : ∀ c, t.head? = some c → isBlank c = false
  last : ∀ c, t.getLast? = some c → isBlank c = false

theorem dropTailWhile_eq_rdropWhile (p : Char → Bool) (t : Text) :
    dropTailWhile p t = t.rdropWhile p := rfl

theorem stripLeft_eq_self {t : Text} (h : ∀ c, t.head? = some c → isBlank c = false) :
    stripLeft t = t := by
  cases t with
  | nil => rfl
  | cons c cs =>
    have hc : isBlank c = false := h c rfl
    exact List.dropWhile_cons_of_neg (by simp [hc])

theorem dropTailWhile_eq_self {t : Text} (h : ∀ c, t.getLast? = some c → isBlank c = false) :
    dropTailWhile isBlank t = t := by
  rw [dropTailWhile_eq_rdropWhile, List.rdropWhile_eq_self_iff]
  intro hne
  rw [h _ (List.getLast?_eq_some_getLast hne)]
  exact Bool.false_ne_true

/-- The text without its trailing blanks. -/
def stripRight (t : Text) : Text := dropTailWhile isBlank t

theorem last_stripRight (t : Text) :
    ∀ c, (stripRight t).getLast? = some c → isBlank c = false := by
  intro c hc
  have hne : stripRight t ≠ [] := fun e => by rw [e] at hc; cases hc
  rw [List.getLast?_eq_some_getLast hne] at hc
  rw [← Option.some.inj hc]
  exact Bool.eq_false_iff.mpr (List.rdropWhile_last_not isBlank t hne)

theorem stripRight_append_blanks (t : Text) {blanks : Text} (h : ∀ c ∈ blanks, isBlank c = true) :
    stripRight (t ++ blanks) = stripRight t := by
  have hr : ∀ c ∈ blanks.reverse, isBlank c = true := fun c hc => h c (List.mem_reverse.mp hc)
  rw [stripRight, dropTailWhile, List.reverse_append, List.dropWhile_append_of_pos hr]
  rfl

theorem exists_stripRight (t : Text) :
    ∃ blanks : Text, (∀ c ∈ blanks, isBlank c = true) ∧ t = stripRight t ++ blanks :=
  ⟨t.rtakeWhile isBlank, fun _ h => List.mem_rtakeWhile_imp h,
    List.rdropWhile_append_rtakeWhile.symm⟩

theorem stripRight_stripRight (t : Text) : stripRight (stripRight t) = stripRight t :=
  List.rdropWhile_idempotent isBlank t

theorem stripRight_cons (c : Char) (t : Text) :
    stripRight (c :: stripRight t) = stripRight (c :: t) := by
  obtain ⟨blanks, hb, e⟩ := exists_stripRight t
  have h := stripRight_append_blanks (c :: stripRight t) hb
  rw [List.cons_append, ← e] at h
  exact h.symm

theorem strip_append_blanks (t : Text) {blanks : Text} (h : ∀ c ∈ blanks, isBlank c = true) :
    strip (t ++ blanks) = strip t := by
  unfold strip stripLeft
  rw [List.dropWhile_append]
  by_cases hd : (t.dropWhile isBlank).isEmpty = true
  · have hblanks : blanks.dropWhile isBlank = [] := List.dropWhile_eq_nil_iff.mpr h
    rw [if_pos hd, hblanks, List.isEmpty_iff.mp hd]
  · rw [if_neg hd]
    exact stripRight_append_blanks _ h

/-- The blanks at the end of a text go, and with them a blank before them if there is nothing
    between. -/
theorem stripRight_cons_eq (c : Char) (t : Text) :
    stripRight (c :: t) =
      if stripRight t = [] ∧ isBlank c = true then [] else c :: stripRight t := by
  rw [← stripRight_cons]
  cases e : stripRight t with
  | nil =>
    by_cases hc : isBlank c = true
    · rw [if_pos ⟨rfl, hc⟩]
      simp [stripRight, dropTailWhile, hc]
    · rw [if_neg fun h => hc h.2]
      simp [stripRight, dropTailWhile, hc]
  | cons a as =>
    rw [if_neg fun h => by cases h.1]
    refine dropTailWhile_eq_self fun b hb => last_stripRight t b ?_
    rw [e]
    simpa using hb

/-- **What comes out of trimming is trimmed.** -/
theorem isTrimmed_strip (t : Text) : IsTrimmed (strip t) where
  head c hc := by
    -- what is left after cutting the tail is a first part of what is left after cutting the head
    have hp : strip t <+: stripLeft t := List.rdropWhile_prefix isBlank (stripLeft t)
    have hh : (stripLeft t).head? = some c := by
      obtain ⟨rest, e⟩ := hp
      rw [← e, List.head?_append, hc]
      rfl
    have hn := List.head?_dropWhile_not isBlank t
    rw [show (t.dropWhile isBlank).head? = some c from hh] at hn
    exact hn
  last := last_stripRight (stripLeft t)

theorem strip_eq_self_iff {t : Text} : strip t = t ↔ IsTrimmed t := by
  constructor
  · intro h
    rw [← h]
    exact isTrimmed_strip t
  · intro h
    unfold strip
    rw [stripLeft_eq_self h.head, dropTailWhile_eq_self h.last]

instance (t : Text) : Decidable (IsTrimmed t) := decidable_of_iff _ strip_eq_self_iff

theorem infix_strip (t : Text) : strip t <:+: t :=
  (List.rdropWhile_prefix isBlank (stripLeft t)).isInfix.trans (List.dropWhile_suffix _).isInfix

theorem strip_cons_blank {b : Char} (hb : isBlank b = true) (t : Text) :
    strip (b :: t) = strip t := by
  rw [strip, stripLeft, List.dropWhile_cons_of_pos hb]
  rfl

/-! ## 2. Joining -/

theorem join_append_cons (sep : Text) {xs : List Text} (hx : xs ≠ []) (y : Text) (ys : List Text) :
    join sep (xs ++ y :: ys) = join sep xs ++ sep ++ join sep (y :: ys) := by
  induction xs with
  | nil => exact absurd rfl hx
  | cons x xs ih =>
    cases xs with
    | nil => simp [join]
    | cons x' xs =>
      have ih' := ih (List.cons_ne_nil _ _)
      simp only [join, List.cons_append, List.intercalate_cons_cons, List.append_assoc] at ih' ⊢
      rw [ih']

theorem join_cons_of_ne_nil (sep x : Text) {xs : List Text} (h : xs ≠ []) :
    join sep (x :: xs) = x ++ sep ++ join sep xs := by
  obtain ⟨y, ys, rfl⟩ := List.exists_cons_of_ne_nil h
  simp [join]

theorem join_cons_head (sep : Text) (c : Char) (w : Text) (ws : List Text) :
    join sep ((c :: w) :: ws) = c :: join sep (w :: ws) := by
  cases ws <;> simp [join]

theorem join_cons (sep x : Text) (xs : List Text) :
    ∃ rest, join sep (x :: xs) = x ++ rest := by
  cases xs with
  | nil => exact ⟨[], by simp [join]⟩
  | cons y ys => exact ⟨sep ++ join sep (y :: ys), by simp [join, List.append_assoc]⟩

theorem mem_join {sep x : Text} {xs : List Text} (hx : x ∈ xs) {c : Char} (hc : c ∈ x) :
    c ∈ join sep xs := by
  obtain ⟨before, after, rfl⟩ := List.append_of_mem hx
  obtain ⟨rest, e⟩ := join_cons sep x after
  have hmem : c ∈ join sep (x :: after) := by
    rw [e]
    exact List.mem_append_left _ hc
  by_cases hb : before = []
  · rw [hb]
    exact hmem
  · rw [join_append_cons sep hb]
    exact List.mem_append_right _ hmem

theorem join_ne_nil {sep : Text} {xs : List Text} (hne : xs ≠ []) (h : ∀ x ∈ xs, x ≠ []) :
    join sep xs ≠ [] := by
  obtain ⟨x, ys, rfl⟩ := List.exists_cons_of_ne_nil hne
  obtain ⟨rest, e⟩ := join_cons sep x ys
  have hx : x ≠ [] := h x List.mem_cons_self
  rw [e]
  simp [hx]

/-- Trimmed pieces that are not empty, joined by a separator, are a trimmed text. -/
theorem isTrimmed_join {sep : Text} {xs : List Text} (h : ∀ x ∈ xs, x ≠ [] ∧ IsTrimmed x) :
    IsTrimmed (join sep xs) := by
  refine ⟨fun c hc => ?_, fun c hc => ?_⟩
  · cases xs with
    | nil => cases hc
    | cons x xs =>
      obtain ⟨rest, e⟩ := join_cons sep x xs
      obtain ⟨hx, ht⟩ := h x List.mem_cons_self
      obtain ⟨a, as, rfl⟩ := List.exists_cons_of_ne_nil hx
      rw [e] at hc
      exact ht.head c hc
  · rcases List.eq_nil_or_concat xs with rfl | ⟨ys, y, rfl⟩
    · cases hc
    · obtain ⟨hy, ht⟩ := h y (by simp)
      have hl : (join sep (ys ++ [y])).getLast? = y.getLast? := by
        cases ys with
        | nil => simp [join]
        | cons z zs =>
          rw [join_append_cons sep (List.cons_ne_nil _ _), List.getLast?_append, join,
            List.intercalate_singleton, List.getLast?_eq_some_getLast hy]
          rfl
      rw [List.concat_eq_append, hl] at hc
      exact ht.last c hc

/-! ## 3. Cutting -/

/-- A character that does not separate is in one of the pieces. -/
theorem exists_piece_of_mem {p : Char → Bool} {c : Char} (hp : p c = false) {t : Text}
    (hc : c ∈ t) : ∃ piece ∈ t.splitOnP p, c ∈ piece := by
  induction t with
  | nil => cases hc
  | cons a as ih =>
    obtain ⟨q, qs, e⟩ := List.exists_cons_of_ne_nil (List.splitOnP_ne_nil p as)
    rw [List.splitOnP_cons_eq_if_modifyHead, e, List.modifyHead_cons]
    rw [e] at ih
    rcases List.mem_cons.mp hc with rfl | hm
    · rw [if_neg (by simp [hp])]
      exact ⟨c :: q, List.mem_cons_self, List.mem_cons_self⟩
    · obtain ⟨piece, hpiece, hcp⟩ := ih hm
      split
      · exact ⟨piece, List.mem_cons_of_mem _ hpiece, hcp⟩
      · rcases List.mem_cons.mp hpiece with rfl | hq
        · exact ⟨a :: piece, List.mem_cons_self, List.mem_cons_of_mem _ hcp⟩
        · exact ⟨piece, List.mem_cons_of_mem _ hq, hcp⟩

/-- A text with a character that is not blank has a word. -/
theorem words_ne_nil {c : Char} (hb : isBlank c = false) {t : Text} (hc : c ∈ t) :
    words t ≠ [] := by
  obtain ⟨piece, hp, hcp⟩ := exists_piece_of_mem hb hc
  have hne : piece ≠ [] := List.ne_nil_of_mem hcp
  exact List.ne_nil_of_mem (List.mem_filter.mpr ⟨hp, by simp [hne]⟩)

theorem ne_nil_of_mem_words {t w : Text} (h : w ∈ words t) : w ≠ [] := by
  have := (List.mem_filter.mp h).2
  simpa using this

theorem splitOn_cons_of_ne {sep c : Char} (h : c ≠ sep) (t : Text) :
    (c :: t).splitOn sep = (t.splitOn sep).modifyHead (c :: ·) := by
  rw [List.splitOn_cons_eq_if_modifyHead, if_neg (by simpa using h)]

/-- A character at the end of a text that does not separate goes to the last piece. -/
theorem splitOnP_concat {p : Char → Bool} {b : Char} (hb : p b = false) (t : Text) :
    ∃ before last, t.splitOnP p = before ++ [last] ∧
      (t ++ [b]).splitOnP p = before ++ [last ++ [b]] := by
  induction t with
  | nil => exact ⟨[], [], rfl, by simp [List.splitOnP_cons_eq_if_modifyHead, hb]⟩
  | cons c cs ih =>
    obtain ⟨before, last, e, e'⟩ := ih
    rw [List.cons_append, List.splitOnP_cons_eq_if_modifyHead,
      List.splitOnP_cons_eq_if_modifyHead, e, e']
    by_cases hc : p c = true
    · exact ⟨[] :: before, last, by rw [if_pos hc]; rfl, by rw [if_pos hc]; rfl⟩
    · rw [if_neg hc, if_neg hc]
      cases before with
      | nil => exact ⟨[], c :: last, rfl, rfl⟩
      | cons q qs => exact ⟨(c :: q) :: qs, last, rfl, rfl⟩

/-- A piece has no separator in it. -/
theorem not_mem_of_mem_splitOn {sep : Char} {t piece : Text} (h : piece ∈ t.splitOn sep) :
    sep ∉ piece := by
  induction t generalizing piece with
  | nil =>
    rw [List.splitOn_nil, List.mem_singleton] at h
    rw [h]
    exact List.not_mem_nil
  | cons c cs ih =>
    by_cases hc : c = sep
    · subst hc
      rw [List.splitOn_cons_eq_if_modifyHead, if_pos (beq_self_eq_true c)] at h
      rcases List.mem_cons.mp h with rfl | h
      · exact List.not_mem_nil
      · exact ih h
    · obtain ⟨q, qs, e⟩ := List.exists_cons_of_ne_nil (List.splitOn_ne_nil sep cs)
      rw [splitOn_cons_of_ne hc, e, List.modifyHead_cons] at h
      rw [e] at ih
      rcases List.mem_cons.mp h with rfl | h
      · exact fun hm => (List.mem_cons.mp hm).elim (Ne.symm hc) (ih List.mem_cons_self)
      · exact ih (List.mem_cons_of_mem _ h)

theorem cut?_of_not_mem {sep : Char} {t : Text} (h : sep ∉ t) : cut? sep t = none := by
  have hdrop : t.dropWhile (· ≠ sep) = [] := by
    rw [List.dropWhile_eq_nil_iff]
    intro c hc
    exact decide_eq_true fun e => h (e ▸ hc)
  rw [cut?, hdrop]

/-- A text is cut at the first occurrence of a separator. -/
theorem cut?_append {sep : Char} {head : Text} (h : sep ∉ head) (tail : Text) :
    cut? sep (head ++ sep :: tail) = some (head, tail) := by
  have hall : ∀ c ∈ head, decide (c ≠ sep) = true := fun c hc => decide_eq_true fun e => h (e ▸ hc)
  have hdrop : (head ++ sep :: tail).dropWhile (· ≠ sep) = sep :: tail := by
    rw [List.dropWhile_append_of_pos hall]
    simp
  have htake : (head ++ sep :: tail).takeWhile (· ≠ sep) = head := by
    rw [List.takeWhile_append_of_pos hall]
    simp
  rw [cut?, hdrop, htake]

/-- What is cut is the text before and after the first separator. -/
theorem cut?_eq_some {sep : Char} {t head tail : Text} (h : cut? sep t = some (head, tail)) :
    t = head ++ sep :: tail ∧ sep ∉ head := by
  by_cases hm : sep ∈ t
  · obtain ⟨s, u, rfl, hs⟩ := List.eq_append_cons_of_mem hm
    rw [cut?_append hs] at h
    obtain ⟨rfl, rfl⟩ := Prod.mk.inj (Option.some.inj h)
    exact ⟨rfl, hs⟩
  · rw [cut?_of_not_mem hm] at h
    cases h

/-! ## 4. Replacing -/

/-- An occurrence of a part without `b` ends before a `b`. -/
theorem isPrefixOf_append_cons {part : Text} {b : Char} (hb : b ∉ part) (u v : Text) :
    part.isPrefixOf (u ++ b :: v) = part.isPrefixOf u := by
  induction part generalizing u with
  | nil => simp
  | cons p ps ih =>
    have hp : p ≠ b := fun e => hb (e ▸ List.mem_cons_self)
    have hps : b ∉ ps := fun h => hb (List.mem_cons_of_mem _ h)
    cases u with
    | nil => simp [List.isPrefixOf_cons_cons, hp]
    | cons a u =>
      rw [List.cons_append, List.isPrefixOf_cons_cons, List.isPrefixOf_cons_cons, ih hps]

/-- **Replacing works on both sides of a `b` apart**, where the part has no `b`. The counter is at
    most the length of the left side: an occurrence that started there ends there. -/
theorem replaceFrom_append_cons {part new : Text} {b : Char} (hne : part ≠ []) (hb : b ∉ part)
    (u v : Text) {k : Nat} (hk : k ≤ u.length) :
    replaceFrom part new k (u ++ b :: v) =
      replaceFrom part new k u ++ b :: replaceFrom part new 0 v := by
  induction u generalizing k with
  | nil =>
    obtain rfl : k = 0 := by simpa using hk
    have hp : part.isPrefixOf (b :: v) = false := by
      have := isPrefixOf_append_cons hb [] v
      rw [List.nil_append] at this
      rw [this]
      obtain ⟨p, ps, rfl⟩ := List.exists_cons_of_ne_nil hne
      rfl
    simp [replaceFrom, hp]
  | cons a u ih =>
    cases k with
    | succ k =>
      simp only [List.cons_append, replaceFrom]
      exact ih (by simpa using hk)
    | zero =>
      have hpre := isPrefixOf_append_cons hb (a :: u) v
      rw [List.cons_append] at hpre ⊢
      simp only [replaceFrom, hpre]
      split
      · rename_i h
        have hle : part.length ≤ (a :: u).length :=
          (List.isPrefixOf_iff_prefix.mp h).length_le
        rw [ih (by simp at hle; omega), List.append_assoc]
      · rw [ih (Nat.zero_le _), List.cons_append]

theorem replace_append_blank {part new : Text} {b : Char} (hne : part ≠ []) (hb : b ∉ part)
    (u v : Text) : replace part new (u ++ b :: v) = replace part new u ++ b :: replace part new v :=
  replaceFrom_append_cons hne hb u v (Nat.zero_le _)

/-- A character that a part does not start with stays where it is. -/
theorem replace_cons_of_ne {part new : Text} {c : Char} (hne : part ≠ [])
    (hc : part.head? ≠ some c) (t : Text) :
    replace part new (c :: t) = c :: replace part new t := by
  obtain ⟨p, ps, rfl⟩ := List.exists_cons_of_ne_nil hne
  have hp : p ≠ c := fun e => hc (e ▸ rfl)
  simp [replace, replaceFrom, List.isPrefixOf_cons_cons, hp]

/-! ## 5. Order -/

/-- The order by code points is the lexicographic order of lists. -/
theorem le_iff {s t : Text} : le s t = true ↔ s ≤ t := by
  rw [← not_lt]
  induction s generalizing t with
  | nil => simp [le]
  | cons a as ih =>
    cases t with
    | nil => simp [le]
    | cons b bs =>
      rw [le, List.cons_lt_cons_iff]
      by_cases e : a = b
      · simp [e, ih]
      · have hlt : b < a ↔ b.toNat < a.toNat := Iff.rfl
        have hne : a.toNat ≠ b.toNat := fun h => e (Char.toNat_inj.mp h)
        rw [if_neg e, decide_eq_true_eq, hlt]
        simp only [Ne.symm e, false_and, or_false]
        omega

/-- Sorting is the library's insertion sort for the lexicographic order. -/
theorem sort_eq_insertionSort (ts : List Text) : sort ts = ts.insertionSort (· ≤ ·) := by
  have hinsert : ∀ (t : Text) (us : List Text), insertSorted t us = us.orderedInsert (· ≤ ·) t := by
    intro t us
    induction us with
    | nil => rfl
    | cons u us ih => simp only [insertSorted, List.orderedInsert_cons, le_iff, ih]
  induction ts with
  | nil => rfl
  | cons t ts ih => rw [List.insertionSort_cons, ← ih, ← hinsert]; rfl

/-- Sorting keeps the texts, each as often as it was there. -/
theorem sort_perm (ts : List Text) : (sort ts).Perm ts := by
  rw [sort_eq_insertionSort]
  exact List.perm_insertionSort _ ts

/-- **Sorting chooses one order for texts, whatever order they come in.** -/
theorem sort_eq_sort_iff {ts us : List Text} : sort ts = sort us ↔ ts.Perm us := by
  constructor
  · intro h
    exact (sort_perm ts).symm.trans (h ▸ sort_perm us)
  · intro h
    have hperm : (sort ts).Perm (sort us) := (sort_perm ts).trans (h.trans (sort_perm us).symm)
    rw [sort_eq_insertionSort, sort_eq_insertionSort] at hperm ⊢
    exact hperm.eq_of_sortedLE List.sortedLE_insertionSort List.sortedLE_insertionSort

end OutlineMarkup.Text
