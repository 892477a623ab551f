/-
  File:      OutlineMarkup/Proofs/HeaderGrammar.lean
  Subject:   Which headers of directives are accepted.

  The grammar of headers goes by the first word: `@keyframes` (the second word is the name), `@` and
  the name of a breakpoint, or a width, which is `@maxw=` or `@minw=` and digits with nothing behind
  them (`Grammar`). A header is read in a way that is more generous at two places: blanks behind the
  `@` are passed over, and behind the digits of a width there may be anything (`Misread`).

  * `widthQuery?_eq_some_iff`: what counts as a width, on the whole header as on its first word;
  * **`header_accepted`**: a header is read by the grammar exactly if it is none of the two; there,
    the word behind the blanks counts as if it stood behind the `@`, and the digits count alone.
  * `width_read_short`: so a width in another unit is read as one in pixels.
-/
import OutlineMarkup.Directive.Header
import OutlineMarkup.Proofs.CanonicalForm
import OutlineMarkup.Settings

namespace OutlineMarkup

/-! ## 1. Digits -/

namespace Text

/-- No decimal digit is a blank: the runs of digits lie between the ranges of blanks. -/
theorem isBlank_of_isDecimal {c : Char} (h : isDecimal c = true) : isBlank c = false := by
  have hapart : ∀ z ∈ digitZeros, ∀ r ∈ blankRanges, r.2 < z ∨ z + 10 ≤ r.1 := by decide
  obtain ⟨z, hz, hin⟩ := List.any_eq_true.mp h
  obtain ⟨hlow, hhigh⟩ := (Bool.and_eq_true _ _).mp hin
  have hlow := of_decide_eq_true hlow
  have hhigh := of_decide_eq_true hhigh
  refine Bool.eq_false_iff.mpr fun hblank => ?_
  obtain ⟨r, hr, hmin, hmax⟩ := (inRanges_iff blankRanges c.toNat).mp hblank
  rcases hapart z hz r hr with hbelow | habove
  · omega
  · omega

theorem isNumeral_iff {t : Text} : isNumeral t = true ↔ t ≠ [] ∧ ∀ c ∈ t, isDecimal c = true := by
  simp [isNumeral]

/-- A run of digits ends at the first character that is none. -/
theorem takeWhile_isDecimal {digits tail : Text} (hdigits : ∀ c ∈ digits, isDecimal c = true)
    (htail : ∀ c, tail.head? = some c → isDecimal c = false) :
    (digits ++ tail).takeWhile isDecimal = digits := by
  rw [List.takeWhile_append_of_pos hdigits]
  cases tail with
  | nil => exact List.append_nil _
  | cons c cs =>
    rw [List.takeWhile_cons_of_neg (by simp [htail c rfl]), List.append_nil]

end Text

namespace Directive

open Text

/-! ## 2. Widths -/

/-- The media query for a width. -/
def widthText (bound digits : Text) : Text := "(" ++ bound ++ "-width: " ++ digits ++ "px)"

/-- A text that starts with a width: a bound, all the digits behind it, and what follows them. -/
structure IsWidth (text bound digits tail : Text) : Prop where
  bound_eq : bound = "max" ∨ bound = "min"
  text_eq : text = "@" ++ bound ++ "w=" ++ digits ++ tail
  isNumeral : isNumeral digits = true
  tail_head : ∀ c, tail.head? = some c → isDecimal c = false

section Width

variable {text bound digits tail : Text}

theorem IsWidth.drop_eq (h : IsWidth text bound digits tail) : text.drop 6 = digits ++ tail := by
  rw [h.text_eq]
  rcases h.bound_eq with rfl | rfl <;> rfl

theorem IsWidth.takeWhile_drop (h : IsWidth text bound digits tail) :
    (text.drop 6).takeWhile isDecimal = digits := by
  rw [h.drop_eq]
  exact takeWhile_isDecimal (isNumeral_iff.mp h.isNumeral).2 h.tail_head

/-- A text starts with one width only. -/
theorem IsWidth.unique {bound' digits' tail' : Text} (h : IsWidth text bound digits tail)
    (h' : IsWidth text bound' digits' tail') :
    bound = bound' ∧ digits = digits' ∧ tail = tail' := by
  have hbound : bound = bound' := by
    -- the two bounds differ in their second letter
    have hletter : ∀ {b d t : Text}, IsWidth text b d t → text[2]? = b[1]? := by
      intro b d t h
      rw [h.text_eq]
      rcases h.bound_eq with rfl | rfl <;> rfl
    have hsame : bound[1]? = bound'[1]? := (hletter h).symm.trans (hletter h')
    rcases h.bound_eq with rfl | rfl <;> rcases h'.bound_eq with rfl | rfl
    · rfl
    · exact absurd hsame (by decide)
    · exact absurd hsame (by decide)
    · rfl
  have hdigits : digits = digits' := h.takeWhile_drop.symm.trans h'.takeWhile_drop
  have hrest : digits ++ tail = digits' ++ tail' := h.drop_eq.symm.trans h'.drop_eq
  rw [hdigits] at hrest
  exact ⟨hbound, hdigits, List.append_cancel_left hrest⟩

/-- **A width query is read off a text exactly if it starts with a width.** -/
theorem widthQuery?_eq_some_iff {query : Text} :
    widthQuery? text = some query ↔
      ∃ bound digits tail, IsWidth text bound digits tail ∧ query = widthText bound digits := by
  constructor
  · intro h
    have hread : ∀ bound : Text, bound = "max" ∨ bound = "min" →
        ∀ rest : Text, text = "@" ++ bound ++ "w=" ++ rest →
        (if (rest.takeWhile isDecimal).isEmpty then none
          else some (widthText bound (rest.takeWhile isDecimal))) = some query →
        ∃ bound digits tail, IsWidth text bound digits tail ∧ query = widthText bound digits := by
      intro bound hbound rest htext hquery
      split at hquery
      · cases hquery
      · rename_i hne
        refine ⟨bound, rest.takeWhile isDecimal, rest.dropWhile isDecimal, ⟨hbound, ?_, ?_, ?_⟩,
          (Option.some.inj hquery).symm⟩
        · rw [htext, List.append_assoc _ (rest.takeWhile isDecimal),
            List.takeWhile_append_dropWhile]
        · exact isNumeral_iff.mpr ⟨fun e => hne (List.isEmpty_iff.mpr e),
            fun c hc => List.mem_takeWhile_imp hc⟩
        · intro c hc
          have hnot := List.head?_dropWhile_not isDecimal rest
          rw [hc] at hnot
          exact hnot
    unfold widthQuery? at h
    dsimp only at h
    split at h
    · rename_i hmax
      obtain ⟨rest, rfl⟩ := List.isPrefixOf_iff_prefix.mp hmax
      exact hread "max" (.inl rfl) rest rfl h
    · split at h
      · rename_i hmin
        obtain ⟨rest, rfl⟩ := List.isPrefixOf_iff_prefix.mp hmin
        exact hread "min" (.inr rfl) rest rfl h
      · cases h
  · rintro ⟨bound, digits, tail, hw, rfl⟩
    have hne : ¬digits.isEmpty = true := fun e =>
      (isNumeral_iff.mp hw.isNumeral).1 (List.isEmpty_iff.mp e)
    have hdigits := hw.takeWhile_drop
    have htext := hw.text_eq
    unfold widthQuery?
    dsimp only
    rcases hw.bound_eq with rfl | rfl
    · have hmax : ("@maxw=" : Text).isPrefixOf text = true :=
        List.isPrefixOf_iff_prefix.mpr ⟨digits ++ tail, by rw [htext]; simp⟩
      rw [if_pos hmax, show ("@maxw=" : Text).length = 6 from rfl, hdigits, if_neg hne]
      rfl
    · have hmax : ¬("@maxw=" : Text).isPrefixOf text = true := by
        rw [htext]
        simp
      have hmin : ("@minw=" : Text).isPrefixOf text = true :=
        List.isPrefixOf_iff_prefix.mpr ⟨digits ++ tail, by rw [htext]; simp⟩
      rw [if_neg hmax, if_pos hmin, show ("@minw=" : Text).length = 6 from rfl, hdigits,
        if_neg hne]
      rfl

/-- A width is part of the first word. -/
theorem exists_isWidth_firstWord :
    (∃ tail, IsWidth (text.takeWhile fun c => !isBlank c) bound digits tail) ↔
      ∃ tail, IsWidth text bound digits tail := by
  have hwhole : (text.takeWhile fun c => !isBlank c) ++ (text.dropWhile fun c => !isBlank c) =
      text := List.takeWhile_append_dropWhile
  constructor
  · rintro ⟨tail, hw⟩
    refine ⟨tail ++ text.dropWhile fun c => !isBlank c, hw.bound_eq, ?_, hw.isNumeral, ?_⟩
    · rw [← List.append_assoc, ← hw.text_eq, hwhole]
    · intro c hc
      rw [List.head?_append] at hc
      cases htail : tail.head? with
      | some a =>
        rw [htail] at hc
        exact hw.tail_head c (htail.trans hc)
      | none =>
        -- what follows the first word starts with a blank
        have hnot := List.head?_dropWhile_not (fun c => !isBlank c) text
        rw [htail, Option.none_or] at hc
        rw [hc] at hnot
        refine Bool.eq_false_iff.mpr fun hd => ?_
        simp [isBlank_of_isDecimal hd] at hnot
  · rintro ⟨tail, hw⟩
    refine ⟨tail.takeWhile fun c => !isBlank c, hw.bound_eq, ?_, hw.isNumeral, ?_⟩
    · have hfront : ∀ c ∈ "@" ++ bound ++ "w=" ++ digits, (!isBlank c) = true := by
        intro c hc
        rcases List.mem_append.mp hc with hc | hc
        · have hword : ∀ c ∈ ("@" ++ bound ++ "w=" : Text), isBlank c = false := by
            rcases hw.bound_eq with rfl | rfl
            · exact List.forall_iff_forall_mem.mp (by decide)
            · exact List.forall_iff_forall_mem.mp (by decide)
          rw [hword c hc]
          rfl
        · rw [isBlank_of_isDecimal ((isNumeral_iff.mp hw.isNumeral).2 c hc)]
          rfl
      rw [hw.text_eq, List.takeWhile_append_of_pos hfront]
    · intro c hc
      cases htail : tail with
      | nil =>
        rw [htail] at hc
        cases hc
      | cons a as =>
        rw [htail, List.takeWhile_cons] at hc
        split at hc
        · exact hw.tail_head c (by rw [htail]; exact hc)
        · cases hc

theorem widthQuery?_firstWord (text : Text) :
    widthQuery? (text.takeWhile fun c => !isBlank c) = widthQuery? text := by
  refine Option.ext fun query => ?_
  rw [widthQuery?_eq_some_iff, widthQuery?_eq_some_iff]
  constructor
  · rintro ⟨bound, digits, tail, hw, rfl⟩
    obtain ⟨tail', hw'⟩ := exists_isWidth_firstWord.mp ⟨tail, hw⟩
    exact ⟨bound, digits, tail', hw', rfl⟩
  · rintro ⟨bound, digits, tail, hw, rfl⟩
    obtain ⟨tail', hw'⟩ := exists_isWidth_firstWord.mpr ⟨tail, hw⟩
    exact ⟨bound, digits, tail', hw', rfl⟩

end Width

/-! ## 3. The grammar -/

/-- What the words of a header open, where the first of them starts with `@`. -/
inductive Grammar (breakpoints : Table Text Text) : List Text → Kind → Prop where
  | keyframes (more : List Text) :
      Grammar breakpoints (('@' :: "keyframes".toList) :: more) (.keyframes more.head?)
  | breakpoint {name query : Text} (hname : name ≠ "keyframes")
      (hquery : breakpoints.get? name = some query) (more : List Text) :
      Grammar breakpoints (('@' :: name) :: more) (.media query)
  | width {name bound digits : Text} (hnone : breakpoints.get? name = none)
      (hwidth : IsWidth ('@' :: name) bound digits []) (more : List Text) :
      Grammar breakpoints (('@' :: name) :: more) (.media (widthText bound digits))
  | unknown {name : Text} (hname : name ≠ "keyframes") (hnone : breakpoints.get? name = none)
      (hwidth : ∀ bound digits, ¬IsWidth ('@' :: name) bound digits []) (more : List Text) :
      Grammar breakpoints (('@' :: name) :: more) .unknown

/-- The two kinds of headers that are accepted although the grammar has something else for them: a
    word that stands apart from the `@`, and a width with something behind its digits. -/
inductive Misread (breakpoints : Table Text Text) : List Text → Prop where
  | apart {word : Text} (more : List Text)
      (h : word = "keyframes" ∨ breakpoints.get? word ≠ breakpoints.get? []) :
      Misread breakpoints (['@'] :: word :: more)
  | width {name bound digits tail : Text} (hnone : breakpoints.get? name = none)
      (hwidth : IsWidth ('@' :: name) bound digits tail) (htail : tail ≠ []) (more : List Text) :
      Misread breakpoints (('@' :: name) :: more)

section Kinds

variable {breakpoints : Table Text Text}

theorem isBlank_at : isBlank '@' = false := by decide

theorem not_isWidth_keyframes (bound digits tail : Text) :
    ¬IsWidth ('@' :: "keyframes".toList) bound digits tail := by
  intro h
  have htext := h.text_eq
  rcases h.bound_eq with rfl | rfl <;> simp at htext

theorem not_isWidth_at (bound digits tail : Text) : ¬IsWidth ['@'] bound digits tail := by
  intro h
  have htext := h.text_eq
  rcases h.bound_eq with rfl | rfl <;> simp at htext

/-- The grammar has something for every header. -/
theorem Grammar.exists (breakpoints : Table Text Text) (name : Text) (more : List Text) :
    ∃ kind, Grammar breakpoints (('@' :: name) :: more) kind := by
  by_cases hname : name = "keyframes"
  · rw [hname]
    exact ⟨_, .keyframes more⟩
  · cases hget : breakpoints.get? name with
    | some query => exact ⟨_, .breakpoint hname hget more⟩
    | none =>
      by_cases hwidth : ∃ bound digits, IsWidth ('@' :: name) bound digits []
      · obtain ⟨bound, digits, hw⟩ := hwidth
        exact ⟨_, .width hget hw more⟩
      · exact ⟨_, .unknown hname hget (fun b d hw => hwidth ⟨b, d, hw⟩) more⟩

/-- An `@` alone is the name of a breakpoint with an empty name, or unknown. -/
theorem grammar_at (breakpoints : Table Text Text) (more : List Text) :
    Grammar breakpoints (['@'] :: more) ((breakpoints.get? []).elim .unknown .media) := by
  cases hget : breakpoints.get? [] with
  | some query => exact .breakpoint (by decide) hget more
  | none => exact .unknown (by decide) hget (fun _ _ => not_isWidth_at _ _ _) more

/-- And it has one thing only. -/
theorem Grammar.unique {words : List Text} {kind kind' : Kind}
    (h : Grammar breakpoints words kind) (h' : Grammar breakpoints words kind') : kind = kind' := by
  cases h with
  | keyframes more =>
    cases h' with
    | keyframes => rfl
    | breakpoint hname => exact absurd rfl hname
    | width _ hw => exact absurd hw (not_isWidth_keyframes _ _ _)
    | unknown hname => exact absurd rfl hname
  | breakpoint hname hquery more =>
    cases h' with
    | keyframes => exact absurd rfl hname
    | breakpoint _ hquery' =>
      rw [hquery] at hquery'
      rw [Option.some.inj hquery']
    | width hnone => rw [hquery] at hnone; cases hnone
    | unknown _ hnone => rw [hquery] at hnone; cases hnone
  | width hnone hw more =>
    cases h' with
    | keyframes => exact absurd hw (not_isWidth_keyframes _ _ _)
    | breakpoint _ hquery => rw [hquery] at hnone; cases hnone
    | width _ hw' =>
      obtain ⟨rfl, rfl, _⟩ := hw.unique hw'
      rfl
    | unknown _ _ hnot => exact absurd hw (hnot _ _)
  | unknown hname hnone hnot more =>
    cases h' with
    | keyframes => exact absurd rfl hname
    | breakpoint _ hquery => rw [hquery] at hnone; cases hnone
    | width _ hw => exact absurd hw (hnot _ _)
    | unknown => rfl

end Kinds

/-! ## 4. How headers are read -/

section Read

variable {breakpoints : Table Text Text} {rest : Text}

/-- A header is trimmed at its end only, and keeps its words. -/
theorem kind_read (breakpoints : Table Text Text) (rest : Text) :
    ∃ r, (Header.read breakpoints ('@' :: rest)).kind = kindOf breakpoints ('@' :: r) ∧
      words ('@' :: r) = words ('@' :: rest) := by
  have hstrip : strip ('@' :: rest) = '@' :: stripRight rest := by
    have hleft : stripLeft ('@' :: rest) = '@' :: rest :=
      List.dropWhile_cons_of_neg (by simp [isBlank_at])
    have hright := stripRight_cons_eq '@' rest
    rw [if_neg (by simp [isBlank_at])] at hright
    rw [strip, hleft]
    exact hright
  refine ⟨stripRight rest, ?_, ?_⟩
  · rw [← hstrip]
    rfl
  · rw [← hstrip, words_strip]

theorem exists_words_at (rest : Text) :
    ∃ name more, words ('@' :: rest) = ('@' :: name) :: more := by
  have h := words_cons_eq isBlank_at rest
  rw [List.takeWhile_cons_of_pos (by simp [isBlank_at])] at h
  exact ⟨_, _, h⟩

/-- A width is looked for in the first word. -/
theorem widthQuery?_of_words {r first : Text} {more : List Text}
    (h : words ('@' :: r) = first :: more) : widthQuery? ('@' :: r) = widthQuery? first := by
  rw [words_cons_eq isBlank_at] at h
  rw [← widthQuery?_firstWord, (List.cons.inj h).1]

/-- **Behind an `@` that stands alone**, the next word counts, but not as a width. -/
theorem kind_apart {following : List Text} (h : words ('@' :: rest) = ['@'] :: following) :
    (Header.read breakpoints ('@' :: rest)).kind =
      if following.headD [] = "keyframes" then .keyframes following[1]?
      else (breakpoints.get? (following.headD [])).elim .unknown .media := by
  obtain ⟨r, hkind, hwords⟩ := kind_read breakpoints rest
  rw [h] at hwords
  have hfollowing : words r = following := by
    rcases words_cons isBlank_at r with ⟨e, _⟩ | ⟨w, ws, hw, e, _⟩
    · rw [e] at hwords
      exact (List.cons.inj hwords).2
    · rw [e] at hwords
      have hnil : w = [] := (List.cons.inj (List.cons.inj hwords).1).2
      exact absurd hnil (ne_nil_of_mem_words (hw ▸ List.mem_cons_self))
  have hwidth : widthQuery? ('@' :: r) = none := (widthQuery?_of_words hwords).trans rfl
  rw [hkind, kindOf]
  simp only [List.drop_succ_cons, List.drop_zero, hfollowing, hwidth]
  cases breakpoints.get? (following.headD []) <;> rfl

/-- **Where a word is joined to the `@`**, it counts, as a width also with a tail. -/
theorem kind_joined {name : Text} {more : List Text}
    (h : words ('@' :: rest) = ('@' :: name) :: more) (hne : name ≠ []) :
    (Header.read breakpoints ('@' :: rest)).kind =
      if name = "keyframes" then .keyframes more.head?
      else ((breakpoints.get? name).or (widthQuery? ('@' :: name))).elim .unknown .media := by
  obtain ⟨r, hkind, hwords⟩ := kind_read breakpoints rest
  rw [h] at hwords
  have hfollowing : words r = name :: more := by
    rcases words_cons isBlank_at r with ⟨e, _⟩ | ⟨w, ws, hw, e, _⟩
    · rw [e] at hwords
      exact absurd (List.cons.inj (List.cons.inj hwords).1).2.symm hne
    · rw [e] at hwords
      obtain ⟨hname, rfl⟩ := List.cons.inj hwords
      rw [hw, (List.cons.inj hname).2]
  rw [hkind, kindOf]
  simp only [List.drop_succ_cons, List.drop_zero, hfollowing, widthQuery?_of_words hwords,
    List.headD_cons, List.getElem?_cons_succ, List.head?_eq_getElem?]
  cases breakpoints.get? name with
  | some query => rfl
  | none => cases widthQuery? ('@' :: name) <;> rfl

theorem kind_width {name bound digits tail : Text} {more : List Text}
    (h : words ('@' :: rest) = ('@' :: name) :: more) (hnone : breakpoints.get? name = none)
    (hwidth : IsWidth ('@' :: name) bound digits tail) :
    (Header.read breakpoints ('@' :: rest)).kind = .media (widthText bound digits) := by
  have hne : name ≠ [] := by
    rintro rfl
    exact not_isWidth_at _ _ _ hwidth
  have hname : name ≠ "keyframes" := by
    rintro rfl
    exact not_isWidth_keyframes _ _ _ hwidth
  rw [kind_joined h hne, if_neg hname, hnone, widthQuery?_eq_some_iff.mpr ⟨_, _, _, hwidth, rfl⟩]
  rfl

theorem elim_media_inj {a b : Option Text}
    (h : a.elim Kind.unknown Kind.media = b.elim Kind.unknown Kind.media) : a = b := by
  cases a <;> cases b <;> simp_all

/-- What is misread is not read by the grammar. -/
theorem not_grammar_of_misread (h : Misread breakpoints (words ('@' :: rest))) :
    ¬Grammar breakpoints (words ('@' :: rest)) (Header.read breakpoints ('@' :: rest)).kind := by
  intro hgrammar
  generalize hwords : words ('@' :: rest) = ws at h hgrammar
  cases h with
  | @apart word more h =>
    have hkind := hgrammar.unique (grammar_at breakpoints (word :: more))
    rw [kind_apart hwords, List.headD_cons] at hkind
    by_cases hword : word = "keyframes"
    · rw [if_pos hword] at hkind
      cases hget : breakpoints.get? [] with
      | some query => rw [hget] at hkind; cases hkind
      | none => rw [hget] at hkind; cases hkind
    · rw [if_neg hword] at hkind
      exact h.resolve_left hword (elim_media_inj hkind)
  | @width name bound digits tail hnone hw htail more =>
    have hname : name ≠ "keyframes" := by
      rintro rfl
      exact not_isWidth_keyframes _ _ _ hw
    have hexact : ∀ b d, ¬IsWidth ('@' :: name) b d [] := fun b d hw' =>
      htail (hw.unique hw').2.2
    have hkind := hgrammar.unique (.unknown hname hnone hexact more)
    rw [kind_width hwords hnone hw] at hkind
    cases hkind

/-- What is not misread is read by the grammar. -/
theorem grammar_of_not_misread (h : ¬Misread breakpoints (words ('@' :: rest))) :
    Grammar breakpoints (words ('@' :: rest)) (Header.read breakpoints ('@' :: rest)).kind := by
  obtain ⟨name, more, hwords⟩ := exists_words_at rest
  by_cases hne : name = []
  · subst hne
    have hkind := @kind_apart breakpoints _ _ hwords
    rw [hwords] at h ⊢
    cases more with
    | nil =>
      rw [hkind]
      exact grammar_at breakpoints []
    | cons word more =>
      have hword : word ≠ "keyframes" := fun e => h (.apart more (.inl e))
      have hget : breakpoints.get? word = breakpoints.get? [] := by
        by_contra hget
        exact h (.apart more (.inr hget))
      rw [hkind, List.headD_cons, if_neg hword, hget]
      exact grammar_at breakpoints (word :: more)
  · rw [kind_joined hwords hne]
    rw [hwords] at h ⊢
    by_cases hname : name = "keyframes"
    · rw [if_pos hname, hname]
      exact .keyframes more
    · rw [if_neg hname]
      cases hget : breakpoints.get? name with
      | some query => exact .breakpoint hname hget more
      | none =>
        cases hwidth : widthQuery? ('@' :: name) with
        | some query =>
          obtain ⟨bound, digits, tail, hw, rfl⟩ := widthQuery?_eq_some_iff.mp hwidth
          obtain rfl : tail = [] := by
            by_contra htail
            exact h (.width hget hw htail more)
          exact .width hget hw more
        | none =>
          refine .unknown hname hget (fun b d hw => ?_) more
          rw [widthQuery?_eq_some_iff.mpr ⟨b, d, [], hw, rfl⟩] at hwidth
          cases hwidth

/-- **Which headers are accepted.** The grammar has exactly one kind for every header. A header is
    read as that kind exactly if it is not misread: if no word that stands apart from the `@` is
    taken for the word of the directive, and nothing stands behind the digits of a width. A word
    that stands apart from the `@` counts as if it were joined to it, widths aside; and of a width
    the digits count, whatever stands behind them. -/
theorem header_accepted (breakpoints : Table Text Text) (rest : Text) :
    let words := words ('@' :: rest)
    let kind := (Header.read breakpoints ('@' :: rest)).kind
    (∃ k, Grammar breakpoints words k ∧ ∀ k', Grammar breakpoints words k' → k' = k) ∧
    (Grammar breakpoints words kind ↔ ¬Misread breakpoints words) ∧
    (∀ word more, words = ['@'] :: word :: more →
      kind = if word = "keyframes" then .keyframes more.head?
        else (breakpoints.get? word).elim .unknown .media) ∧
    ∀ name more bound digits tail, words = ('@' :: name) :: more →
      breakpoints.get? name = none → IsWidth ('@' :: name) bound digits tail →
      kind = .media (widthText bound digits) := by
  intro ws kind
  refine ⟨?_, ⟨fun hg hm => not_grammar_of_misread hm hg, grammar_of_not_misread⟩, ?_,
    fun _ _ _ _ _ h hnone hw => kind_width h hnone hw⟩
  · obtain ⟨name, more, hwords⟩ := exists_words_at rest
    obtain ⟨k, hk⟩ := Grammar.exists breakpoints name more
    rw [← hwords] at hk
    exact ⟨k, hk, fun k' hk' => hk'.unique hk⟩
  · intro word more h
    rw [List.head?_eq_getElem?]
    exact kind_apart h

/-- A word that stands apart from the `@`, a width with a percent sign, and a width with a rule
    behind it, which is read by the grammar. -/
theorem header_accepted_forms :
    let breakpoints := Config.default.breakpoints
    let kind := fun text => (Header.read breakpoints text).kind
    (Misread breakpoints (words "@ keyframes fade") ∧
      kind "@ keyframes fade" = .keyframes (some "fade")) ∧
    (IsWidth "@maxw=50%" "max" "50" "%" ∧ kind "@maxw=50%" = .media "(max-width: 50px)") ∧
    (¬Misread breakpoints (words "@minw=600 .card pad=8") ∧
      Grammar breakpoints (words "@minw=600 .card pad=8") (.media "(min-width: 600px)")) := by
  intro breakpoints kind
  have hwidth : IsWidth "@maxw=50%" "max" "50" "%" :=
    ⟨.inl rfl, by decide, by decide, fun c hc => by cases hc; decide⟩
  have hexact : IsWidth "@minw=600" "min" "600" [] :=
    ⟨.inr rfl, by decide, by decide, fun c hc => by cases hc⟩
  have hread : ¬Misread breakpoints (words "@minw=600 .card pad=8") := by
    rw [show words "@minw=600 .card pad=8" = ["@minw=600", ".card", "pad=8"] by decide]
    intro h
    cases h with
    | width _ hw htail => exact htail (hw.unique hexact).2.2
  refine ⟨⟨?_, ?_⟩, ⟨hwidth, ?_⟩, hread, ?_⟩
  · rw [show words "@ keyframes fade" = [['@'], "keyframes", "fade"] by decide]
    exact .apart _ (.inl rfl)
  · exact (header_accepted breakpoints " keyframes fade").2.2.1 "keyframes" ["fade"] (by decide)
  · exact (header_accepted breakpoints "maxw=50%").2.2.2 "maxw=50%" [] "max" "50" "%" (by decide)
      (by decide) hwidth
  · exact (header_accepted breakpoints "minw=600 .card pad=8").2.1.mpr hread

/-- **A width in another unit is read as one in pixels**, cut off at the first character that is no
    digit, though the grammar has no such header. -/
theorem width_read_short :
    let text : Text := "@maxw=37.5em"
    Grammar Config.default.breakpoints (words text) .unknown ∧
      (Header.read Config.default.breakpoints text).kind = .media "(max-width: 37px)" := by
  intro text
  have hwidth : IsWidth text "max" "37" ".5em" :=
    ⟨.inl rfl, by decide, by decide, fun c hc => by cases hc; decide⟩
  have hexact : ∀ b d, ¬IsWidth text b d [] := fun b d hw => by
    have htail := (hwidth.unique hw).2.2
    exact absurd htail (by decide)
  have hwords : words text = [text] := by decide
  rw [hwords]
  exact ⟨.unknown (by decide) (by decide) hexact [], by decide⟩

end Read

end Directive

end OutlineMarkup
