/-
  File:      OutlineMarkup/Proofs/TokenCut.lean
  Subject:   Cutting a text into tokens loses nothing.

  A cut of a text is its tokens with the blanks before, between and behind them (`Cut`). A proper
  cut has blanks in a token only inside of an open quoted run, and lets a quoted run end only at a
  quote or at the end of the text (`Cut.IsProper`). Every text has one proper cut into tokens, and
  splitting finds it.

  * `pieces_eq_self_iff`: a piece is a text whose blanks all stand in open quoted runs;
  * `Cut.IsProper.tokenize_text`: a text with a proper cut is split into the tokens of the cut;
    `exists_isProper`: every text has a proper cut;
  * `braceBalance_eq_plainCount`: the braces that count are those before which the number of quotes
    is even;
  * **`tokenize_lossless`**: all of this together.
-/
import OutlineMarkup.Proofs.Token

namespace OutlineMarkup.Token

open Text

/-! ## 1. Pieces and the text they are cut from -/

/-- **A piece is a text whose blanks all stand in open quoted runs.** -/
theorem pieces_eq_self_iff {q : Bool} {t : Text} :
    pieces q t = [t] ↔
      ∀ before c after, t = before ++ c :: after → isBlank c = true → quotedAfter q before = true := by
  constructor
  · rintro h before c after rfl hc
    by_contra hq
    -- outside of quoted runs the blank would cut the text in two
    rw [pieces_append_blank hc before after (Bool.eq_false_iff.mpr hq)] at h
    obtain ⟨p, ps, e⟩ := List.exists_cons_of_ne_nil (pieces_ne_nil q before)
    rw [e, List.cons_append] at h
    exact pieces_ne_nil false after (List.append_eq_nil_iff.mp (List.cons.inj h).2).2
  · intro h
    induction t generalizing q with
    | nil => rfl
    | cons a as ih =>
      have hhead : q = true ∨ isBlank a = false := by
        rcases blank_or_not q a with ⟨rfl, ha⟩ | hn
        · exact absurd (h [] a as rfl ha) Bool.false_ne_true
        · exact hn
      have htail : pieces (if a = quote then !q else q) as = [as] :=
        ih fun before c after e hc => h (a :: before) c after (by rw [e]; rfl) hc
      obtain ⟨p, ps, e, e'⟩ := pieces_cons hhead as
      rw [htail] at e
      cases e
      exact e'

/-- The first piece is all of the text, or it ends before a blank outside of quoted runs. -/
theorem pieces_first {q : Bool} {t p : Text} {ps : List Text} (h : pieces q t = p :: ps) :
    (t = p ∧ ps = []) ∨
      ∃ b after, isBlank b = true ∧ t = p ++ b :: after ∧ quotedAfter q p = false ∧
        pieces false after = ps := by
  induction t generalizing q p ps with
  | nil =>
    cases h
    exact .inl ⟨rfl, rfl⟩
  | cons a as ih =>
    rcases blank_or_not q a with ⟨rfl, ha⟩ | hn
    · rw [pieces_blank ha] at h
      cases h
      exact .inr ⟨a, as, ha, rfl, rfl, rfl⟩
    · obtain ⟨r, rs, e, e'⟩ := pieces_cons hn as
      rw [e'] at h
      cases h
      rcases ih e with ⟨rfl, rfl⟩ | ⟨b, after, hb, rfl, hclosed, hafter⟩
      · exact .inl ⟨rfl, rfl⟩
      · exact .inr ⟨b, after, hb, rfl, hclosed, hafter⟩

theorem tokenize_blank {b : Char} (hb : isBlank b = true) (t : Text) :
    tokenize (b :: t) = tokenize t := by
  rw [tokenize, pieces_blank hb]
  rfl

theorem tokenize_append_of_blanks {blanks : Text} (h : ∀ c ∈ blanks, isBlank c = true) (t : Text) :
    tokenize (blanks ++ t) = tokenize t := by
  induction blanks with
  | nil => rfl
  | cons b bs ih =>
    rw [List.cons_append, tokenize_blank (h b List.mem_cons_self),
      ih fun c hc => h c (List.mem_cons_of_mem _ hc)]

/-! ## 2. Cuts -/

/-- Tokens, each with the characters behind it, and the characters before the first one. -/
structure Cut where
  lead : Text
  parts : List (Text × Text)

namespace Cut

/-- The tokens of a cut. -/
def tokens (c : Cut) : List Text := c.parts.map Prod.fst

/-- The text that is cut. -/
def text (c : Cut) : Text := c.lead ++ c.parts.flatMap fun p => p.1 ++ p.2

/-- A cut into tokens: blanks before, between and behind them. No token is empty, and there are
    blanks between any two. A blank in a token has an odd number of quotes before it, so it stands
    in an open quoted run; and a token with blanks behind it has an even number of quotes, so a
    quoted run that is not closed goes on to the end of the text. -/
structure IsProper (c : Cut) : Prop where
  lead_blank : ∀ a ∈ c.lead, isBlank a = true
  gaps_blank : ∀ p ∈ c.parts, ∀ a ∈ p.2, isBlank a = true
  gaps_between : ∀ p ∈ c.parts.dropLast, p.2 ≠ []
  tokens_ne_nil : ∀ p ∈ c.parts, p.1 ≠ []
  blanks_quoted : ∀ p ∈ c.parts, ∀ before a after, p.1 = before ++ a :: after →
    isBlank a = true → List.count quote before % 2 = 1
  quotes_closed : ∀ p ∈ c.parts, p.2 ≠ [] → List.count quote p.1 % 2 = 0

theorem isProper_nil : IsProper ⟨[], []⟩ := by
  constructor <;> simp

/-- A proper cut with one more blank in front. -/
theorem IsProper.cons_lead {c : Cut} (h : c.IsProper) {b : Char} (hb : isBlank b = true) :
    IsProper ⟨b :: c.lead, c.parts⟩ :=
  { h with lead_blank := List.forall_mem_cons.mpr ⟨hb, h.lead_blank⟩ }

/-- What follows the first token of a proper cut is cut properly. -/
theorem IsProper.tail {lead : Text} {p : Text × Text} {ps : List (Text × Text)}
    (h : IsProper ⟨lead, p :: ps⟩) : IsProper ⟨p.2, ps⟩ where
  lead_blank := h.gaps_blank p List.mem_cons_self
  gaps_blank r hr := h.gaps_blank r (List.mem_cons_of_mem _ hr)
  gaps_between r hr := by
    have hne : ps ≠ [] := by
      rintro rfl
      cases hr
    refine h.gaps_between r ?_
    rw [List.dropLast_cons_of_ne_nil hne]
    exact List.mem_cons_of_mem _ hr
  tokens_ne_nil r hr := h.tokens_ne_nil r (List.mem_cons_of_mem _ hr)
  blanks_quoted r hr := h.blanks_quoted r (List.mem_cons_of_mem _ hr)
  quotes_closed r hr := h.quotes_closed r (List.mem_cons_of_mem _ hr)

/-- A proper cut with one more token in front. -/
theorem IsProper.cons {gap w : Text} {ps : List (Text × Text)} (h : IsProper ⟨gap, ps⟩)
    (hw : w ≠ []) (hquoted : pieces false w = [w]) (hgap : ps ≠ [] → gap ≠ [])
    (hclosed : gap ≠ [] → quotedAfter false w = false) : IsProper ⟨[], (w, gap) :: ps⟩ where
  lead_blank _ ha := by cases ha
  gaps_blank := List.forall_mem_cons.mpr ⟨h.lead_blank, h.gaps_blank⟩
  gaps_between r hr := by
    by_cases hne : ps = []
    · rw [hne] at hr
      cases hr
    · rw [List.dropLast_cons_of_ne_nil hne] at hr
      rcases List.mem_cons.mp hr with rfl | hr
      · exact hgap hne
      · exact h.gaps_between r hr
  tokens_ne_nil := List.forall_mem_cons.mpr ⟨hw, h.tokens_ne_nil⟩
  blanks_quoted := List.forall_mem_cons.mpr ⟨fun before a after e ha =>
    quotedAfter_false_iff.mp (pieces_eq_self_iff.mp hquoted before a after e ha), h.blanks_quoted⟩
  quotes_closed := List.forall_mem_cons.mpr ⟨fun hne => by
    have hodd := mt quotedAfter_false_iff.mpr (Bool.eq_false_iff.mp (hclosed hne))
    exact Nat.mod_two_ne_one.mp hodd, h.quotes_closed⟩

theorem IsProper.pieces_token {c : Cut} (h : c.IsProper) {p : Text × Text} (hp : p ∈ c.parts) :
    pieces false p.1 = [p.1] :=
  pieces_eq_self_iff.mpr fun before a after e ha =>
    quotedAfter_false_iff.mpr (h.blanks_quoted p hp before a after e ha)

/-- **A text with a proper cut is split into the tokens of the cut.** -/
theorem IsProper.tokenize_text {c : Cut} (h : c.IsProper) : tokenize c.text = c.tokens := by
  obtain ⟨lead, parts⟩ := c
  rw [text, tokenize_append_of_blanks h.lead_blank]
  induction parts generalizing lead with
  | nil => rfl
  | cons p ps ih =>
    have hone : tokenize p.1 = [p.1] := by
      obtain ⟨a, as, e⟩ := List.exists_cons_of_ne_nil (h.tokens_ne_nil p List.mem_cons_self)
      rw [tokenize, h.pieces_token List.mem_cons_self, e]
      rfl
    have hrest := ih p.2 h.tail
    show tokenize (p.1 ++ p.2 ++ ps.flatMap fun p => p.1 ++ p.2) = p.1 :: ps.map Prod.fst
    cases hgap : p.2 with
    | nil =>
      -- without blanks behind it, it is the last token
      have hlast : ps = [] := by
        by_contra hne
        refine h.gaps_between p ?_ hgap
        rw [List.dropLast_cons_of_ne_nil hne]
        exact List.mem_cons_self
      subst hlast
      simpa using hone
    | cons b bs =>
      have hblank : ∀ a ∈ b :: bs, isBlank a = true := hgap ▸ h.gaps_blank p List.mem_cons_self
      have heven := h.quotes_closed p List.mem_cons_self (by rw [hgap]; exact List.cons_ne_nil b bs)
      rw [List.append_assoc, List.cons_append,
        tokenize_append_blank (hblank b List.mem_cons_self) _ (quotedAfter_of_even heven), hone,
        tokenize_append_of_blanks fun a ha => hblank a (List.mem_cons_of_mem _ ha), hrest]
      rfl

end Cut

/-- **Every text has a proper cut.** From the left: a blank goes to the lead, anything else starts a
    token, and what follows the token is cut in turn. -/
theorem exists_isProper (t : Text) : ∃ c : Cut, c.IsProper ∧ c.text = t := by
  induction h : t.length using Nat.strongRecOn generalizing t with
  | ind n ih =>
    cases t with
    | nil => exact ⟨⟨[], []⟩, Cut.isProper_nil, rfl⟩
    | cons a as =>
      by_cases ha : isBlank a = true
      · obtain ⟨c, hc, rfl⟩ := ih as.length (by simp [← h]) as rfl
        exact ⟨⟨a :: c.lead, c.parts⟩, hc.cons_lead ha, rfl⟩
      · obtain ⟨p, ps, _, e⟩ := pieces_cons (q := false) (.inr (Bool.eq_false_iff.mpr ha)) as
        have hpiece : pieces false (a :: p) = [a :: p] := (e ▸ isSplit_pieces false (a :: as)).1
        rcases pieces_first e with ⟨hall, _⟩ | ⟨b, after, hb, hcut, hclosed, _⟩
        · refine ⟨⟨[], [(a :: p, [])]⟩, ?_, by simp [Cut.text, hall]⟩
          exact Cut.isProper_nil.cons (List.cons_ne_nil _ _) hpiece (fun hne => absurd rfl hne)
            fun hne => absurd rfl hne
        · have hshort : after.length < n := by
            simp only [← h, hcut, List.length_append, List.length_cons]
            omega
          obtain ⟨c, hc, rfl⟩ := ih after.length hshort after rfl
          refine ⟨⟨[], (a :: p, b :: c.lead) :: c.parts⟩, ?_, ?_⟩
          · exact (hc.cons_lead hb).cons (List.cons_ne_nil _ _) hpiece
              (fun _ => List.cons_ne_nil _ _) fun _ => hclosed
          · rw [hcut]
            simp [Cut.text]

/-! ## 3. Braces -/

/-- How often a character stands in a text with an even number of quotes before it. -/
def plainCount (x : Char) (t : Text) : Nat :=
  (List.range t.length).countP fun i => t[i]? == some x && List.count quote (t.take i) % 2 == 0

theorem plainCount_concat (x : Char) (t : Text) (c : Char) :
    plainCount x (t ++ [c]) =
      plainCount x t + if c = x ∧ List.count quote t % 2 = 0 then 1 else 0 := by
  have hold : ∀ i ∈ List.range t.length,
      ((t ++ [c])[i]? == some x && List.count quote ((t ++ [c]).take i) % 2 == 0) =
        (t[i]? == some x && List.count quote (t.take i) % 2 == 0) := by
    intro i hi
    have hlt := List.mem_range.mp hi
    rw [List.getElem?_append_left hlt, List.take_append_of_le_length (Nat.le_of_lt hlt)]
  have hnew : ((t ++ [c])[t.length]? == some x &&
      List.count quote ((t ++ [c]).take t.length) % 2 == 0) =
        decide (c = x ∧ List.count quote t % 2 = 0) := by
    rw [List.getElem?_concat_length, List.take_left, Bool.eq_iff_iff]
    simp
  rw [plainCount, List.length_append, List.length_singleton, List.range_succ, List.countP_append,
    List.countP_congr fun i hi => by rw [hold i hi], List.countP_singleton, hnew]
  simp only [decide_eq_true_eq]
  rfl

/-- **The braces that count are those before which the number of quotes is even.** -/
theorem braceBalance_eq_plainCount (t : Text) :
    braceBalance t = (plainCount '\x7b' t : Int) - plainCount '\x7d' t := by
  induction t using List.reverseRecOn with
  | nil => rfl
  | append_singleton t c ih =>
    have hlast : braceBalanceFrom (quotedAfter false t) [c] =
        ((if c = '\x7b' ∧ List.count quote t % 2 = 0 then 1 else 0 : Nat) : Int) -
          ((if c = '\x7d' ∧ List.count quote t % 2 = 0 then 1 else 0 : Nat) : Int) := by
      by_cases hodd : List.count quote t % 2 = 1
      · rw [quotedAfter_false_iff.mpr hodd]
        simp [braceBalanceFrom, hodd]
      · have heven : List.count quote t % 2 = 0 := Nat.mod_two_ne_one.mp hodd
        rw [quotedAfter_of_even heven]
        have hopen : '\x7b' ≠ quote := by decide
        have hclose : '\x7d' ≠ quote := by decide
        rcases eq_or_ne c quote with rfl | hquote
        · simp [braceBalanceFrom, hopen.symm, hclose.symm]
        · rcases eq_or_ne c '\x7b' with rfl | hc
          · simp [braceBalanceFrom, hopen, heven]
          · rcases eq_or_ne c '\x7d' with rfl | hc'
            · simp [braceBalanceFrom, hclose, heven]
            · simp [braceBalanceFrom, hquote, hc, hc']
    have hstep : braceBalance (t ++ [c]) =
        braceBalance t + braceBalanceFrom (quotedAfter false t) [c] :=
      braceBalanceFrom_append false t [c]
    rw [hstep, ih, hlast, plainCount_concat, plainCount_concat, Int.natCast_add, Int.natCast_add]
    omega

/-! ## 4. Splitting -/

/-- **Splitting into tokens loses nothing and goes by quotes.** The tokens of a text are those of
    every proper cut of it, and there is one. All tokens but the last have an even number of quotes.
    The tokens joined by a blank are split into the same tokens. Opening minus closing braces are
    the same for a text and its tokens together, and are those of the braces with an even number of
    quotes before them: braces and blanks are quoted by one rule. -/
theorem tokenize_lossless (t : Text) :
    (∀ ws, (∃ c : Cut, c.IsProper ∧ c.text = t ∧ c.tokens = ws) ↔ ws = tokenize t) ∧
      (∀ w ∈ (tokenize t).dropLast, List.count quote w % 2 = 0) ∧
      tokenize (join " " (tokenize t)) = tokenize t ∧
      braceBalance t = braceTotal (tokenize t) ∧
      braceBalance t = (plainCount '\x7b' t : Int) - plainCount '\x7d' t := by
  obtain ⟨c, hc, rfl⟩ := exists_isProper t
  refine ⟨fun ws => ⟨?_, ?_⟩, ?_, (areTokens_tokenize _).tokenize_join,
    (braceTotal_tokenize _).symm, braceBalance_eq_plainCount _⟩
  · rintro ⟨c', hc', htext, rfl⟩
    rw [← htext, hc'.tokenize_text]
  · rintro rfl
    exact ⟨c, hc, rfl, hc.tokenize_text.symm⟩
  · intro w hw
    rw [hc.tokenize_text, Cut.tokens, ← List.map_dropLast] at hw
    obtain ⟨p, hp, rfl⟩ := List.mem_map.mp hw
    exact hc.quotes_closed p ((List.dropLast_sublist _).subset hp) (hc.gaps_between p hp)

end OutlineMarkup.Token
