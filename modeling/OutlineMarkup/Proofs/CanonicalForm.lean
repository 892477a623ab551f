/-
  File:      OutlineMarkup/Proofs/CanonicalForm.lean
  Subject:   What canonical forms tell apart.

  A canonical form is made from the parts of a text of declarations: they are sorted and joined.
  Neither step loses anything but the order: sorted lists of the same parts are the same list
  (`Text.sort_eq_sort_iff`), and no part has a semicolon or a blank at an end (`IsPart`), so the
  parts can be read off the joined text again (`partsOf_join`).

  * `collapse_eq_strip_squeeze`: collapsing the blanks of a part is squeezing each run of them to a
    space and trimming the ends.
  * **`canonical_eq_canonical_iff`**: two texts have the same canonical form exactly if they declare
    the same parts, each as often.
-/
import Mathlib.Data.Multiset.Defs
import OutlineMarkup.Proofs.Text
import OutlineMarkup.Style.Canonical

namespace OutlineMarkup

namespace Text

/-! ## 1. Runs of blanks -/

/-- A text with each run of blanks turned into one space. With `run` the space for a run at the
    front is left out, as it is there already. -/
def squeezeFrom : Bool → Text → Text
  | _, [] => []
  | run, c :: cs =>
    if isBlank c then (if run then squeezeFrom true cs else ' ' :: squeezeFrom true cs)
    else c :: squeezeFrom false cs

/-- A text with each run of blanks turned into one space. -/
def squeeze (t : Text) : Text := squeezeFrom false t

theorem squeezeFrom_blank {b : Char} (hb : isBlank b = true) (run : Bool) (t : Text) :
    squeezeFrom run (b :: t) = if run then squeezeFrom true t else ' ' :: squeezeFrom true t := by
  rw [squeezeFrom, if_pos hb]

theorem squeezeFrom_cons {c : Char} (hc : isBlank c = false) (run : Bool) (t : Text) :
    squeezeFrom run (c :: t) = c :: squeezeFrom false t := by
  rw [squeezeFrom, if_neg (by simp [hc])]

theorem mem_squeezeFrom {run : Bool} {t : Text} {c : Char} (h : c ∈ squeezeFrom run t) :
    c = ' ' ∨ c ∈ t := by
  induction t generalizing run with
  | nil => cases h
  | cons a as ih =>
    have hrest : ∀ {run}, c ∈ squeezeFrom run as → c = ' ' ∨ c ∈ a :: as :=
      fun h => (ih h).imp_right (List.mem_cons_of_mem a)
    by_cases ha : isBlank a = true
    · rw [squeezeFrom_blank ha] at h
      cases run with
      | true => exact hrest h
      | false =>
        rcases List.mem_cons.mp h with e | h
        · exact .inl e
        · exact hrest h
    · rw [squeezeFrom_cons (Bool.eq_false_iff.mpr ha)] at h
      rcases List.mem_cons.mp h with e | h
      · exact .inr (List.mem_cons.mpr (.inl e))
      · exact hrest h

/-- Without its leading blanks a squeezed text is one whose first space is left out. -/
theorem stripLeft_squeezeFrom (run : Bool) (t : Text) :
    stripLeft (squeezeFrom run t) = squeezeFrom true t := by
  induction t generalizing run with
  | nil => rfl
  | cons c cs ih =>
    by_cases hc : isBlank c = true
    · rw [squeezeFrom_blank hc, squeezeFrom_blank hc, if_pos rfl]
      cases run with
      | true => exact ih true
      | false =>
        have hspace : isBlank ' ' = true := by decide
        rw [if_neg Bool.false_ne_true, stripLeft, List.dropWhile_cons_of_pos hspace]
        exact ih true
    · have hc' : isBlank c = false := Bool.eq_false_iff.mpr hc
      rw [squeezeFrom_cons hc', squeezeFrom_cons hc']
      exact List.dropWhile_cons_of_neg hc

/-! ## 2. Words -/

theorem words_cons_blank {b : Char} (hb : isBlank b = true) (t : Text) :
    words (b :: t) = words t := by
  unfold words
  rw [List.splitOnP_cons_eq_if_modifyHead, if_pos hb]
  rfl

/-- The words of a text do not change by a blank at its end. -/
theorem words_concat_blank {b : Char} (hb : isBlank b = true) (t : Text) :
    words (t ++ [b]) = words t := by
  unfold words
  rw [List.splitOnP_append_cons t [] hb, List.filter_append]
  exact List.append_nil _

/-- Trimming does not change the words of a text. -/
theorem words_strip (t : Text) : words (strip t) = words t := by
  have hleft : words (stripLeft t) = words t := by
    induction t with
    | nil => rfl
    | cons c cs ih =>
      by_cases hc : isBlank c = true
      · rw [words_cons_blank hc, ← ih, stripLeft, List.dropWhile_cons_of_pos hc]
        rfl
      · rw [stripLeft, List.dropWhile_cons_of_neg hc]
  have hright : ∀ s blanks : Text, (∀ c ∈ blanks, isBlank c = true) →
      words (s ++ blanks) = words s := by
    intro s blanks
    induction blanks using List.reverseRecOn with
    | nil => rw [List.append_nil]; exact fun _ => rfl
    | append_singleton blanks b ih =>
      intro h
      rw [← List.append_assoc, words_concat_blank (h b (by simp))]
      exact ih fun c hc => h c (List.mem_append_left _ hc)
  obtain ⟨blanks, hblanks, e⟩ := exists_stripRight (stripLeft t)
  rw [← hleft, e, hright _ _ hblanks]
  rfl

/-- Whether a text starts with a blank. -/
def startsBlank (t : Text) : Bool := t.head?.any isBlank

/-- A character that is not blank is a word before a blank or at the end, and else goes to the front
    of the first word. -/
theorem words_cons {c : Char} (hc : isBlank c = false) (t : Text) :
    (words (c :: t) = [c] :: words t ∧ (startsBlank t = true ∨ words t = [])) ∨
      ∃ w ws, words t = w :: ws ∧ words (c :: t) = (c :: w) :: ws ∧ startsBlank t = false := by
  have hcons : (c :: t).splitOnP isBlank = (t.splitOnP isBlank).modifyHead (c :: ·) := by
    rw [List.splitOnP_cons_eq_if_modifyHead, if_neg (by simp [hc])]
  unfold words
  rw [hcons]
  cases t with
  | nil => exact .inl ⟨rfl, .inr rfl⟩
  | cons a as =>
    by_cases ha : isBlank a = true
    · left
      rw [List.splitOnP_cons_eq_if_modifyHead, if_pos ha]
      exact ⟨rfl, .inl ha⟩
    · right
      obtain ⟨q, qs, e⟩ := List.exists_cons_of_ne_nil (List.splitOnP_ne_nil isBlank as)
      rw [List.splitOnP_cons_eq_if_modifyHead, if_neg ha, e]
      exact ⟨a :: q, qs.filter _, rfl, rfl, Bool.eq_false_iff.mpr ha⟩

/-- The first word of a text that does not start with a blank goes up to the first blank. -/
theorem words_cons_eq {c : Char} (hc : isBlank c = false) (t : Text) :
    words (c :: t) = (c :: t).takeWhile (fun a => !isBlank a) ::
      words ((c :: t).dropWhile fun a => !isBlank a) := by
  induction t generalizing c with
  | nil => simp [words, List.splitOnP_cons_eq_if_modifyHead, hc]
  | cons a as ih =>
    have htake : (c :: a :: as).takeWhile (fun a => !isBlank a) =
        c :: (a :: as).takeWhile fun a => !isBlank a := List.takeWhile_cons_of_pos (by simp [hc])
    have hdrop : (c :: a :: as).dropWhile (fun a => !isBlank a) =
        (a :: as).dropWhile fun a => !isBlank a := List.dropWhile_cons_of_pos (by simp [hc])
    rw [htake, hdrop]
    rcases words_cons hc (a :: as) with ⟨e, hend⟩ | ⟨w, ws, e, e', hb⟩
    · have ha : isBlank a = true := by
        rcases hend with hb | hnil
        · exact hb
        · by_contra ha
          exact words_ne_nil (Bool.eq_false_iff.mpr ha) List.mem_cons_self hnil
      rw [e, List.takeWhile_cons_of_neg (by simp [ha]), List.dropWhile_cons_of_neg (by simp [ha])]
    · rw [ih (show isBlank a = false from hb)] at e
      obtain ⟨rfl, rfl⟩ := List.cons.inj e
      exact e'

end Text

open Text

namespace Style

theorem collapse_cons_blank {b : Char} (hb : isBlank b = true) (t : Text) :
    collapse (b :: t) = collapse t := by
  rw [collapse, words_cons_blank hb, collapse]

theorem collapse_concat_blank {b : Char} (hb : isBlank b = true) (t : Text) :
    collapse (t ++ [b]) = collapse t := by
  rw [collapse, words_concat_blank hb, collapse]

theorem collapse_eq_nil_iff {t : Text} : collapse t = [] ↔ words t = [] := by
  constructor
  · intro h
    by_contra hne
    exact join_ne_nil hne (fun _ hw => ne_nil_of_mem_words hw) h
  · intro h
    rw [collapse, h]
    rfl

/-- What a squeezed text is without its trailing blanks, with and without a space for the blanks at
    its front. -/
theorem stripRight_squeezeFrom (t : Text) :
    stripRight (squeezeFrom true t) = collapse t ∧
      stripRight (squeezeFrom false t) =
        if startsBlank t = true ∧ words t ≠ [] then ' ' :: collapse t else collapse t := by
  induction t with
  | nil => exact ⟨rfl, rfl⟩
  | cons c cs ih =>
    obtain ⟨ihrun, ih⟩ := ih
    by_cases hc : isBlank c = true
    · rw [squeezeFrom_blank hc, squeezeFrom_blank hc, collapse_cons_blank hc, words_cons_blank hc]
      refine ⟨ihrun, ?_⟩
      have hspace : isBlank ' ' = true := by decide
      have hstarts : startsBlank (c :: cs) = true := hc
      rw [if_neg Bool.false_ne_true, stripRight_cons_eq, ihrun]
      by_cases hw : words cs = []
      · have hnil : collapse cs = [] := collapse_eq_nil_iff.mpr hw
        rw [if_pos ⟨hnil, hspace⟩, if_neg (fun h => h.2 hw), hnil]
      · rw [if_neg (fun h => hw (collapse_eq_nil_iff.mp h.1)), if_pos ⟨hstarts, hw⟩]
    · have hc' : isBlank c = false := Bool.eq_false_iff.mpr hc
      have hstarts : ¬(startsBlank (c :: cs) = true ∧ words (c :: cs) ≠ []) := fun h => hc h.1
      have hnext : stripRight (c :: squeezeFrom false cs) = collapse (c :: cs) := by
        rw [stripRight_cons_eq, if_neg (fun h => hc h.2), ih]
        unfold collapse
        rcases words_cons hc' cs with ⟨e, hb | hnil⟩ | ⟨w, ws, e, e', hb⟩
        · by_cases hw : words cs = []
          · rw [if_neg (fun h => h.2 hw), e, hw]
            rfl
          · rw [if_pos ⟨hb, hw⟩, e, join_cons_of_ne_nil _ _ hw]
            rfl
        · rw [if_neg (fun h => h.2 hnil), e, hnil]
          rfl
        · rw [if_neg (fun h => by rw [hb] at h; cases h.1), e', e, join_cons_head]
      rw [squeezeFrom_cons hc', squeezeFrom_cons hc', if_neg hstarts]
      exact ⟨hnext, hnext⟩

/-- **Collapsing is squeezing each run of blanks to a space and trimming.** -/
theorem collapse_eq_strip_squeeze (t : Text) : collapse t = strip (squeeze t) := by
  rw [strip, squeeze, stripLeft_squeezeFrom]
  exact (stripRight_squeezeFrom t).1.symm

/-! ## 3. The parts of declarations -/

/-- What is not blank stays. -/
theorem mem_collapse {c : Char} (hb : isBlank c = false) {t : Text} (hc : c ∈ t) :
    c ∈ collapse t := by
  obtain ⟨word, hword, hcw⟩ := exists_piece_of_mem hb hc
  have hne : word ≠ [] := List.ne_nil_of_mem hcw
  exact mem_join (List.mem_filter.mpr ⟨hword, by simp [hne]⟩) hcw

/-- A part as it stands in a canonical form: not empty, trimmed and without a semicolon. -/
structure IsPart (part : Text) : Prop where
  ne_nil : part ≠ []
  trimmed : IsTrimmed part
  whole : ';' ∉ part

theorem isPart_of_mem {t part : Text} (h : part ∈ canonicalParts t) : IsPart part := by
  obtain ⟨hpart, hne⟩ := List.mem_filter.mp h
  obtain ⟨piece, hpiece, rfl⟩ := List.mem_map.mp hpart
  refine ⟨by simpa using hne, ?_, fun hm => ?_⟩
  · rw [collapse_eq_strip_squeeze]
    exact isTrimmed_strip _
  · rw [collapse_eq_strip_squeeze] at hm
    rcases mem_squeezeFrom ((infix_strip _).subset hm) with e | hm
    · cases e
    · exact not_mem_of_mem_splitOn hpiece hm

/-- A character that is neither blank nor a semicolon and outlives the marks is part of the
    canonical form. -/
theorem mem_canonical {t : Text} {c : Char} (hc : c ∈ replace Declaration.marker [] t)
    (hb : isBlank c = false) (hs : c ≠ ';') : c ∈ canonical t := by
  obtain ⟨piece, hpiece, hcp⟩ := exists_piece_of_mem (p := (· = ';')) (by simp [hs]) hc
  have hmem : c ∈ collapse piece := mem_collapse hb hcp
  have hne : collapse piece ≠ [] := List.ne_nil_of_mem hmem
  have hpart : collapse piece ∈ canonicalParts t :=
    List.mem_filter.mpr ⟨List.mem_map_of_mem hpiece, by simp [hne]⟩
  exact mem_join ((sort_perm _).mem_iff.mpr hpart) hmem

/-- The parts that are read off a canonical form: the trimmed pieces between its semicolons. -/
def partsOf (form : Text) : List Text :=
  ((form.splitOn ';').map strip).filter fun part => !part.isEmpty

theorem splitOn_join_cons {part : Text} {parts : List Text} (h : ∀ p ∈ part :: parts, ';' ∉ p) :
    (join "; " (part :: parts)).splitOn ';' = part :: parts.map (' ' :: ·) := by
  induction parts generalizing part with
  | nil =>
    have hjoin : join "; " [part] = part := by simp [join]
    rw [hjoin, List.splitOn_eq_singleton (h part List.mem_cons_self)]
    rfl
  | cons q qs ih =>
    have hjoin : join "; " (part :: q :: qs) = part ++ ';' :: ' ' :: join "; " (q :: qs) := by
      rw [join_cons_of_ne_nil _ _ (List.cons_ne_nil q qs), List.append_assoc]
      rfl
    rw [hjoin, List.splitOn_append_cons_self_of_not_mem (h part List.mem_cons_self),
      splitOn_cons_of_ne (by decide), ih fun p hp => h p (List.mem_cons_of_mem _ hp)]
    rfl

/-- **Joined parts can be told apart again.** -/
theorem partsOf_join {parts : List Text} (h : ∀ p ∈ parts, IsPart p) :
    partsOf (join "; " parts) = parts := by
  cases parts with
  | nil => rfl
  | cons part parts =>
    have hstrip : ((join "; " (part :: parts)).splitOn ';').map strip = part :: parts := by
      rw [splitOn_join_cons fun p hp => (h p hp).whole, List.map_cons, List.map_map,
        strip_eq_self_iff.mpr (h part List.mem_cons_self).trimmed]
      congr 1
      refine (List.map_congr_left fun p hp => ?_).trans (List.map_id parts)
      have hspace : isBlank ' ' = true := by decide
      show strip (' ' :: p) = p
      rw [strip_cons_blank hspace]
      exact strip_eq_self_iff.mpr (h p (List.mem_cons_of_mem _ hp)).trimmed
    rw [partsOf, hstrip]
    exact List.filter_eq_self.mpr fun p hp => by simpa using (h p hp).ne_nil

/-- A canonical form has the parts of the declarations in order. -/
theorem partsOf_canonical (t : Text) : partsOf (canonical t) = sort (canonicalParts t) :=
  partsOf_join fun _ hp => isPart_of_mem ((sort_perm _).mem_iff.mp hp)

theorem canonical_eq_of_perm {a b : Text} (h : (canonicalParts a).Perm (canonicalParts b)) :
    canonical a = canonical b := by
  rw [canonical, sort_eq_sort_iff.mpr h, canonical]

theorem perm_of_canonical_eq {a b : Text} (h : canonical a = canonical b) :
    (canonicalParts a).Perm (canonicalParts b) := by
  have hparts := congrArg partsOf h
  rw [partsOf_canonical, partsOf_canonical] at hparts
  exact sort_eq_sort_iff.mp hparts

/-- What a text declares: with the marks deleted from left to right, the pieces between semicolons
    with each run of blanks squeezed to a space and the ends trimmed, as far as they are not empty,
    in no order. -/
def declared (t : Text) : Multiset Text :=
  ↑((((replace Declaration.marker [] t).splitOn ';').map fun piece => strip (squeeze piece)).filter
    fun part => !part.isEmpty)

theorem declared_eq (t : Text) : declared t = ↑(canonicalParts t) := by
  unfold declared canonicalParts
  rw [List.map_congr_left fun piece _ => (collapse_eq_strip_squeeze piece).symm]

/-- **Two texts have the same canonical form exactly if they declare the same.** -/
theorem canonical_eq_canonical_iff (a b : Text) :
    canonical a = canonical b ↔ declared a = declared b := by
  rw [declared_eq, declared_eq, Multiset.coe_eq_coe]
  exact ⟨perm_of_canonical_eq, canonical_eq_of_perm⟩

end Style

end OutlineMarkup
