/-
  File:      OutlineMarkup/Proofs/Token.lean
  Subject:   Laws of splitting a text into tokens.

  * `isTrimmed_of_mem_tokenize`: the tokens of a trimmed text are trimmed and not empty. A blank
    inside of a token is quoted, and the quoted run that holds it goes on to a quote or to the last
    character of the text.
  * `tokenize_ne_nil`, `tokenize_eq_singleton`: a trimmed text that is not empty has a token, and if
    it has only one, it is that token.
  * `tokenize_append_blank`: a blank outside of quoted runs splits a text into two with their own
    tokens.
  * `AreTokens.tokenize_join`: tokens joined by a blank are split into the same tokens; only the
    last of them can leave a quoted run open (`areTokens_tokenize`).
  * `braceTotal_tokenize`: the braces of a text are those of its tokens.
-/
import OutlineMarkup.Proofs.Text
import OutlineMarkup.Token.Basic

namespace OutlineMarkup.Token

open Text

/-! ## 1. Pieces -/

/-- Whether a quoted run is open after a text, given whether one is open before it. -/
def quotedAfter (quoted : Bool) (t : Text) : Bool :=
  t.foldl (fun q c => if c = quote then !q else q) quoted

theorem quotedAfter_cons (q : Bool) (c : Char) (cs : Text) :
    quotedAfter q (c :: cs) = quotedAfter (if c = quote then !q else q) cs := rfl

/-- An odd number of quotes switches the flag. -/
theorem quotedAfter_eq (q : Bool) (t : Text) :
    quotedAfter q t = (q ^^ decide (List.count quote t % 2 = 1)) := by
  induction t generalizing q with
  | nil => simp [quotedAfter]
  | cons c cs ih =>
    rw [quotedAfter_cons, ih]
    by_cases hc : c = quote
    · subst hc
      rw [List.count_cons_self, if_pos rfl]
      rcases Nat.mod_two_eq_zero_or_one (List.count quote cs) with e | e
      · simp [e, Nat.add_mod]
      · simp [e, Nat.add_mod]
    · rw [List.count_cons_of_ne hc, if_neg hc]

/-- A text with an even number of quotes leaves things as they were. -/
theorem quotedAfter_of_even {q : Bool} {t : Text} (h : List.count quote t % 2 = 0) :
    quotedAfter q t = q := by
  rw [quotedAfter_eq, h]
  simp

/-- After a text that starts outside of quoted runs, one is open if the number of quotes is odd. -/
theorem quotedAfter_false_iff {t : Text} :
    quotedAfter false t = true ↔ List.count quote t % 2 = 1 := by
  rw [quotedAfter_eq, Bool.false_xor, decide_eq_true_iff]

theorem pieces_ne_nil (q : Bool) (t : Text) : pieces q t ≠ [] := by
  cases t with
  | nil => exact List.cons_ne_nil _ _
  | cons c cs =>
    unfold pieces
    split
    · exact List.cons_ne_nil _ _
    · exact mt List.modifyHead_eq_nil_iff.mp (pieces_ne_nil _ cs)

/-- A blank outside of quoted runs ends a piece. -/
theorem pieces_blank {c : Char} (hc : isBlank c = true) (cs : Text) :
    pieces false (c :: cs) = [] :: pieces false cs := by
  simp [pieces, hc]

/-- Any other character belongs to the piece that it stands in. -/
theorem pieces_cons {q : Bool} {c : Char} (h : q = true ∨ isBlank c = false) (cs : Text) :
    ∃ p ps, pieces (if c = quote then !q else q) cs = p :: ps ∧
      pieces q (c :: cs) = (c :: p) :: ps := by
  obtain ⟨p, ps, e⟩ := List.exists_cons_of_ne_nil (pieces_ne_nil (if c = quote then !q else q) cs)
  have hs : (!q && isBlank c) = false := by
    rcases h with h | h <;> simp [h]
  refine ⟨p, ps, e, ?_⟩
  unfold pieces
  rw [if_neg (by rw [hs]; exact Bool.false_ne_true), e]
  rfl

/-- Which of the two laws above applies. -/
theorem blank_or_not (q : Bool) (c : Char) :
    (q = false ∧ isBlank c = true) ∨ (q = true ∨ isBlank c = false) := by
  cases q <;> cases isBlank c <;> simp

/-- **A blank outside of quoted runs cuts the pieces in two.** -/
theorem pieces_append_blank {b : Char} (hb : isBlank b = true) (s t : Text) {q : Bool}
    (hq : quotedAfter q s = false) : pieces q (s ++ b :: t) = pieces q s ++ pieces false t := by
  induction s generalizing q with
  | nil =>
    obtain rfl : q = false := hq
    exact pieces_blank hb t
  | cons c cs ih =>
    have ih' := ih (q := if c = quote then !q else q) hq
    rcases blank_or_not q c with ⟨rfl, hc⟩ | h
    · have hne : c ≠ quote := by
        intro e
        rw [e] at hc
        exact absurd hc (by decide)
      rw [if_neg hne] at ih'
      rw [List.cons_append, pieces_blank hc, pieces_blank hc, ih', List.cons_append]
    · obtain ⟨p, ps, e, e'⟩ := pieces_cons h cs
      obtain ⟨p', ps', e₂, e₂'⟩ := pieces_cons h (cs ++ b :: t)
      rw [ih', e, List.cons_append] at e₂
      obtain ⟨rfl, rfl⟩ := List.cons.inj e₂
      rw [List.cons_append, e', e₂', List.cons_append]

/-! ## 2. The ends of pieces -/

/-- Outside of quoted runs no piece starts with a blank. Inside of one only the first can. -/
theorem head_of_mem_pieces (t : Text) (q : Bool) :
    (q = false → ∀ p ∈ pieces q t, ∀ c, p.head? = some c → isBlank c = false) ∧
      ∀ p ∈ (pieces q t).tail, ∀ c, p.head? = some c → isBlank c = false := by
  induction t generalizing q with
  | nil => simp [pieces]
  | cons a as ih =>
    rcases blank_or_not q a with ⟨rfl, ha⟩ | h
    · rw [pieces_blank ha]
      refine ⟨fun _ p hp => ?_, (ih false).1 rfl⟩
      rcases List.mem_cons.mp hp with rfl | hp
      · intro c hc
        cases hc
      · exact (ih false).1 rfl p hp
    · obtain ⟨p, ps, e, e'⟩ := pieces_cons h as
      have htail := (ih (if a = quote then !q else q)).2
      rw [e] at htail
      rw [e']
      refine ⟨fun hq r hr => ?_, htail⟩
      rcases List.mem_cons.mp hr with rfl | hr
      · intro c hc
        obtain rfl : a = c := Option.some.inj hc
        rcases h with h | h
        · rw [hq] at h
          cases h
        · exact h
      · exact htail r hr

/-- If the text does not end with a blank, no piece does: a piece that ends before the text does
    ends outside of quoted runs. -/
theorem last_of_mem_pieces {t : Text} (ht : ∀ c, t.getLast? = some c → isBlank c = false)
    (q : Bool) : ∀ p ∈ pieces q t, ∀ c, p.getLast? = some c → isBlank c = false := by
  induction t generalizing q with
  | nil => simp [pieces]
  | cons a as ih =>
    have hlast : ∀ c, as.getLast? = some c → isBlank c = false := by
      intro c hc
      apply ht
      cases as with
      | nil => cases hc
      | cons b bs => rw [List.getLast?_cons_cons]; exact hc
    rcases blank_or_not q a with ⟨rfl, ha⟩ | h
    · rw [pieces_blank ha]
      intro p hp
      rcases List.mem_cons.mp hp with rfl | hp
      · intro c hc
        cases hc
      · exact ih hlast false p hp
    · obtain ⟨p, ps, e, e'⟩ := pieces_cons h as
      have ih' := ih hlast (if a = quote then !q else q)
      rw [e] at ih'
      rw [e']
      intro r hr c hc
      rcases List.mem_cons.mp hr with rfl | hr
      · cases p with
        | cons b bs =>
          rw [List.getLast?_cons_cons] at hc
          exact ih' (b :: bs) List.mem_cons_self c hc
        | nil =>
          obtain rfl : a = c := Option.some.inj hc
          -- the piece is `a` alone: the text ends here, or a blank follows outside of quoted runs
          cases as with
          | nil => exact ht a rfl
          | cons b bs =>
            rcases blank_or_not (if a = quote then !q else q) b with ⟨hq, _⟩ | h'
            · rcases h with rfl | h
              · by_cases hquote : a = quote
                · rw [hquote]
                  decide
                · rw [if_neg hquote] at hq
                  cases hq
              · exact h
            · obtain ⟨p', ps', _, e₂⟩ := pieces_cons h' bs
              rw [e₂] at e
              cases e
      · exact ih' r (List.mem_cons_of_mem _ hr) c hc

/-- An empty last piece means that there is no text or that a blank ends it. -/
theorem last_blank_of_pieces {t : Text} {q : Bool} (h : (pieces q t).getLast? = some []) :
    t = [] ∨ ∃ c, t.getLast? = some c ∧ isBlank c = true := by
  induction t generalizing q with
  | nil => exact .inl rfl
  | cons a as ih =>
    right
    have step : ∀ q', (pieces q' as).getLast? = some [] → as ≠ [] →
        ∃ c, (a :: as).getLast? = some c ∧ isBlank c = true := by
      intro q' hq' hne
      rcases ih hq' with e | ⟨c, hc, hb⟩
      · exact absurd e hne
      · obtain ⟨b, bs, rfl⟩ := List.exists_cons_of_ne_nil hne
        exact ⟨c, by rw [List.getLast?_cons_cons]; exact hc, hb⟩
    rcases blank_or_not q a with ⟨rfl, ha⟩ | hn
    · cases as with
      | nil => exact ⟨a, rfl, ha⟩
      | cons b bs =>
        obtain ⟨p, ps, e⟩ := List.exists_cons_of_ne_nil (pieces_ne_nil false (b :: bs))
        rw [pieces_blank ha, e, List.getLast?_cons_cons, ← e] at h
        exact step false h (List.cons_ne_nil _ _)
    · obtain ⟨p, ps, e, e'⟩ := pieces_cons hn as
      rw [e'] at h
      cases ps with
      | nil => cases h
      | cons r rs =>
        refine step _ (by rw [e, List.getLast?_cons_cons]; rwa [List.getLast?_cons_cons] at h) ?_
        rintro rfl
        cases e

/-- A text without a blank outside of quoted runs is its only piece. -/
theorem pieces_eq_singleton {q : Bool} {t p : Text} (h : pieces q t = [p]) : p = t := by
  induction t generalizing q p with
  | nil => exact (List.cons.inj h).1.symm
  | cons a as ih =>
    rcases blank_or_not q a with ⟨rfl, ha⟩ | hn
    · rw [pieces_blank ha] at h
      exact absurd (List.cons.inj h).2 (pieces_ne_nil _ _)
    · obtain ⟨r, rs, e, e'⟩ := pieces_cons hn as
      rw [e'] at h
      obtain ⟨rfl, rfl⟩ := List.cons.inj h
      rw [ih e]

/-! ## 3. Tokens -/

theorem mem_tokenize {t w : Text} : w ∈ tokenize t ↔ w ∈ pieces false t ∧ w ≠ [] := by
  unfold tokenize
  rw [List.mem_filter]
  simp

/-- **The tokens of a trimmed text are trimmed and not empty.** -/
theorem isTrimmed_of_mem_tokenize {t w : Text} (ht : IsTrimmed t) (hw : w ∈ tokenize t) :
    w ≠ [] ∧ IsTrimmed w := by
  obtain ⟨hp, hne⟩ := mem_tokenize.mp hw
  exact ⟨hne, (head_of_mem_pieces t false).1 rfl w hp, last_of_mem_pieces ht.last false w hp⟩

/-- The first piece of a trimmed text that is not empty is a token. -/
theorem tokenize_cons {t : Text} (ht : IsTrimmed t) (hne : t ≠ []) :
    ∃ p ps, pieces false t = p :: ps ∧ tokenize t = p :: ps.filter fun piece => !piece.isEmpty := by
  obtain ⟨c, cs, rfl⟩ := List.exists_cons_of_ne_nil hne
  obtain ⟨p, ps, _, e⟩ := pieces_cons (q := false) (.inr (ht.head c rfl)) cs
  refine ⟨c :: p, ps, e, ?_⟩
  unfold tokenize
  rw [e]
  rfl

theorem tokenize_ne_nil {t : Text} (ht : IsTrimmed t) (hne : t ≠ []) : tokenize t ≠ [] := by
  obtain ⟨p, ps, _, e⟩ := tokenize_cons ht hne
  rw [e]
  exact List.cons_ne_nil _ _

/-- **A trimmed text with one token is that token.** -/
theorem tokenize_eq_singleton {t w : Text} (ht : IsTrimmed t) (h : tokenize t = [w]) : w = t := by
  have hne : t ≠ [] := by
    rintro rfl
    cases h
  obtain ⟨p, ps, e, e'⟩ := tokenize_cons ht hne
  rw [e'] at h
  obtain ⟨rfl, hps⟩ := List.cons.inj h
  rcases List.eq_nil_or_concat ps with rfl | ⟨qs, r, rfl⟩
  · exact pieces_eq_singleton e
  · -- a further piece is empty, so the text would end with a blank
    have hr : r = [] := by
      have := List.filter_eq_nil_iff.mp hps r (by simp)
      simpa using this
    have hl : (pieces false t).getLast? = some [] := by
      rw [e, hr, List.concat_eq_append, ← List.cons_append, List.getLast?_concat]
    rcases last_blank_of_pieces hl with e₀ | ⟨c, hc, hb⟩
    · exact absurd e₀ hne
    · rw [ht.last c hc] at hb
      cases hb

theorem tokenize_append_blank {b : Char} (hb : isBlank b = true) {s : Text} (t : Text)
    (hs : quotedAfter false s = false) : tokenize (s ++ b :: t) = tokenize s ++ tokenize t := by
  unfold tokenize
  rw [pieces_append_blank hb s t hs, List.filter_append]

/-! ## 4. Joining tokens again -/

/-- Texts as splitting gives them: none has a blank outside of quoted runs, and only in the last one
    a quoted run may be left open. The flag is that of `pieces`, for the first text. -/
def IsSplit : Bool → List Text → Prop
  | _, [] => True
  | q, p :: ps => pieces q p = [p] ∧ (ps ≠ [] → quotedAfter q p = false) ∧ IsSplit false ps

theorem isSplit_pieces (q : Bool) (t : Text) : IsSplit q (pieces q t) := by
  induction t generalizing q with
  | nil => exact ⟨rfl, fun h => absurd rfl h, trivial⟩
  | cons c cs ih =>
    rcases blank_or_not q c with ⟨rfl, hc⟩ | h
    · rw [pieces_blank hc]
      exact ⟨rfl, fun _ => rfl, ih false⟩
    · obtain ⟨p, ps, e, e'⟩ := pieces_cons h cs
      obtain ⟨hp, hclosed, hps⟩ := e ▸ ih (if c = quote then !q else q)
      rw [e']
      refine ⟨?_, hclosed, hps⟩
      -- one more character in front of a piece leaves it a piece
      obtain ⟨r, rs, er, er'⟩ := pieces_cons h p
      rw [hp] at er
      cases er
      exact er'

/-- Texts that are the tokens of some text: each is its own only token, and only in the last one a
    quoted run may be left open. -/
def AreTokens : List Text → Prop
  | [] => True
  | w :: ws => tokenize w = [w] ∧ (ws ≠ [] → quotedAfter false w = false) ∧ AreTokens ws

theorem IsSplit.areTokens {ps : List Text} (h : IsSplit false ps) :
    AreTokens (ps.filter fun piece => !piece.isEmpty) := by
  induction ps with
  | nil => trivial
  | cons p ps ih =>
    obtain ⟨hp, hclosed, hps⟩ := h
    cases p with
    | nil => exact ih hps
    | cons c cs =>
      have hsome : ps.filter (fun piece => !piece.isEmpty) ≠ [] → ps ≠ [] := by
        rintro h rfl
        exact h rfl
      exact ⟨by rw [tokenize, hp]; rfl, fun h => hclosed (hsome h), ih hps⟩

theorem areTokens_tokenize (t : Text) : AreTokens (tokenize t) := (isSplit_pieces false t).areTokens

namespace AreTokens

variable {xs ys ws : List Text}

theorem left (h : AreTokens (xs ++ ys)) : AreTokens xs := by
  induction xs with
  | nil => trivial
  | cons x xs ih =>
    obtain ⟨hx, hclosed, hrest⟩ := h
    exact ⟨hx, fun hne => hclosed (List.append_ne_nil_of_left_ne_nil hne ys), ih hrest⟩

theorem right (h : AreTokens (xs ++ ys)) : AreTokens ys := by
  induction xs with
  | nil => exact h
  | cons x xs ih => exact ih h.2.2

/-- Cutting behind a token gives the tokens up to it and those after it. -/
theorem cut {t : Text} (h : AreTokens (xs ++ t :: ys)) : AreTokens (xs ++ [t]) ∧ AreTokens ys := by
  rw [List.append_cons] at h
  exact ⟨h.left, h.right⟩

/-- **Tokens joined by a blank are split into the same tokens.** -/
theorem tokenize_join (h : AreTokens ws) : tokenize (join " " ws) = ws := by
  induction ws with
  | nil => rfl
  | cons w ws ih =>
    obtain ⟨hw, hclosed, hws⟩ := h
    cases ws with
    | nil => simpa [join] using hw
    | cons v vs =>
      have hjoin : join " " (w :: v :: vs) = w ++ ' ' :: join " " (v :: vs) := by simp [join]
      rw [hjoin, tokenize_append_blank (by decide) _ (hclosed (List.cons_ne_nil v vs)), hw, ih hws]
      rfl

end AreTokens

/-! ## 5. Braces -/

theorem braceBalanceFrom_append (q : Bool) (s t : Text) :
    braceBalanceFrom q (s ++ t) = braceBalanceFrom q s + braceBalanceFrom (quotedAfter q s) t := by
  induction s generalizing q with
  | nil => exact (Int.zero_add _).symm
  | cons c cs ih =>
    rw [List.cons_append, quotedAfter_cons]
    simp only [braceBalanceFrom]
    split_ifs
    · exact ih _
    · exact ih _
    · rw [ih]
      omega
    · rw [ih]
      omega
    · exact ih _

/-- Opening minus closing braces of several texts, quoted runs left out. -/
def braceTotal : List Text → Int
  | [] => 0
  | w :: ws => braceBalance w + braceTotal ws

theorem braceTotal_append (xs ys : List Text) :
    braceTotal (xs ++ ys) = braceTotal xs + braceTotal ys := by
  induction xs with
  | nil => exact (Int.zero_add _).symm
  | cons x xs ih => rw [List.cons_append, braceTotal, braceTotal, ih, Int.add_assoc]

/-- The blanks at which a text is split are no braces. -/
theorem braceBalanceFrom_pieces {q : Bool} {t p : Text} {ps : List Text}
    (h : pieces q t = p :: ps) : braceBalanceFrom q t = braceBalanceFrom q p + braceTotal ps := by
  induction t generalizing q p ps with
  | nil =>
    cases h
    rfl
  | cons c cs ih =>
    have hcons : ∀ s : Text, braceBalanceFrom q (c :: s) =
        braceBalanceFrom q [c] + braceBalanceFrom (if c = quote then !q else q) s :=
      fun s => braceBalanceFrom_append q [c] s
    rcases blank_or_not q c with ⟨rfl, hc⟩ | hn
    · have hquote : c ≠ quote := by rintro rfl; exact absurd hc (by decide)
      have hopen : c ≠ '\x7b' := by rintro rfl; exact absurd hc (by decide)
      have hclose : c ≠ '\x7d' := by rintro rfl; exact absurd hc (by decide)
      rw [pieces_blank hc] at h
      obtain ⟨r, rs, e⟩ := List.exists_cons_of_ne_nil (pieces_ne_nil false cs)
      cases h
      rw [hcons, if_neg hquote, ih e, e]
      simp [braceBalanceFrom, braceTotal, braceBalance, hquote, hopen, hclose]
    · obtain ⟨r, rs, e, e'⟩ := pieces_cons hn cs
      rw [e'] at h
      cases h
      rw [hcons cs, hcons r, ih e, Int.add_assoc]

theorem braceTotal_filter (ps : List Text) :
    braceTotal (ps.filter fun piece => !piece.isEmpty) = braceTotal ps := by
  induction ps with
  | nil => rfl
  | cons p ps ih =>
    cases p with
    | nil => exact ih.trans (Int.zero_add _).symm
    | cons c cs => exact congrArg (braceBalance (c :: cs) + ·) ih

/-- **The braces of a text are those of its tokens.** -/
theorem braceTotal_tokenize (t : Text) : braceTotal (tokenize t) = braceBalance t := by
  obtain ⟨p, ps, e⟩ := List.exists_cons_of_ne_nil (pieces_ne_nil false t)
  rw [tokenize, braceTotal_filter, e, braceBalance, braceBalanceFrom_pieces e]
  rfl

end OutlineMarkup.Token
