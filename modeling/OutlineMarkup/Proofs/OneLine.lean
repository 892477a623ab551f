/-
  File:      OutlineMarkup/Proofs/OneLine.lean
  Subject:   Directives that are closed on their first line, and the text behind their brace.

  A directive is closed on its first line if the braces behind its `{` come down to 0. The brace
  that closes it is the first one at which they do (`Token.ClosedBy`), but the line is cut at the
  last `}` on it, quoted or not. What stands behind that one goes into no line and is not reported;
  the closing brace itself, if it is another one, stays as text.

  * `exists_closedBy`: a directive that is closed on its line has a brace that closes it;
  * **`collectAt_one_line`**: the characters behind the `{`, without the closing brace, are those of
    the directive's line and those behind the last `}`. The directive is the same as without the
    latter, so that nothing can be reported about them;
  * `text_behind_brace_lost`: they can be all of an element line.
-/
import OutlineMarkup.Proofs.Quoting

namespace OutlineMarkup

/-! ## 1. Characters that are not blank -/

namespace Text

/-- The characters of a text that are not blank. -/
def ink (t : Text) : Text := t.filter fun c => !isBlank c

@[simp] theorem ink_append (s t : Text) : ink (s ++ t) = ink s ++ ink t :=
  List.filter_append s t

theorem ink_cons_of_not_blank {c : Char} (hc : isBlank c = false) (t : Text) :
    ink (c :: t) = c :: ink t := List.filter_cons_of_pos (by simp [hc])

theorem ink_eq_nil_iff {t : Text} : ink t = [] ↔ ∀ c ∈ t, isBlank c = true := by
  simp [ink, List.filter_eq_nil_iff]

/-- Trimming takes away blanks only. -/
theorem ink_strip (t : Text) : ink (strip t) = ink t := by
  have hleft : ink (stripLeft t) = ink t := by
    have hblanks : ink (t.takeWhile isBlank) = [] :=
      ink_eq_nil_iff.mpr fun c hc => List.mem_takeWhile_imp hc
    have h := ink_append (t.takeWhile isBlank) (stripLeft t)
    rw [stripLeft, List.takeWhile_append_dropWhile, hblanks, List.nil_append] at h
    exact h.symm
  obtain ⟨blanks, hblanks, e⟩ := exists_stripRight (stripLeft t)
  have hright := ink_append (stripRight (stripLeft t)) blanks
  rw [← e, ink_eq_nil_iff.mpr hblanks, List.append_nil, hleft] at hright
  exact hright.symm

/-- A text is cut before the last occurrence of a separator. -/
theorem beforeLast_append {sep : Char} (before : Text) {after : Text} (h : sep ∉ after) :
    beforeLast sep (before ++ sep :: after) = before := by
  have hafter : ∀ c ∈ after.reverse, decide (c ≠ sep) = true := fun c hc =>
    decide_eq_true fun e => h (e ▸ List.mem_reverse.mp hc)
  have hreverse : (before ++ sep :: after).reverse = after.reverse ++ sep :: before.reverse := by
    simp
  rw [beforeLast, dropTailWhile, hreverse, List.dropWhile_append_of_pos hafter,
    List.dropWhile_cons_of_neg (by simp)]
  simp

theorem exists_last_of_mem {c : Char} {t : Text} (h : c ∈ t) :
    ∃ before after, t = before ++ c :: after ∧ c ∉ after := by
  obtain ⟨after, before, e, hafter⟩ := List.eq_append_cons_of_mem (List.mem_reverse.mpr h)
  refine ⟨before.reverse, after.reverse, ?_, fun hm => hafter (List.mem_reverse.mp hm)⟩
  rw [← List.reverse_reverse t, e]
  simp

end Text

/-! ## 2. The brace that closes -/

namespace Token

open Text

/-- A text without a closing brace has no more of them than of the others. -/
theorem braceBalanceFrom_nonneg (q : Bool) {t : Text} (h : '\x7d' ∉ t) :
    0 ≤ braceBalanceFrom q t := by
  induction t generalizing q with
  | nil => exact Int.le_refl 0
  | cons c cs ih =>
    obtain ⟨hc, hcs⟩ := not_or.mp (mt List.mem_cons.mpr h)
    have hrest := ih (!q) hcs
    have hrest' := ih q hcs
    simp only [braceBalanceFrom, Ne.symm hc, if_false]
    split_ifs <;> omega

/-- The text behind an opening brace is closed by the `}` between two parts of it: the braces are
    open up to there, and the `}` is not quoted and brings their count down to 0. -/
@[mk_iff]
structure ClosedBy (rest inside behind : Text) : Prop where
  split : rest = inside ++ '\x7d' :: behind
  plain : quotedAfter false inside = false
  open_before : ∀ n ≤ inside.length, 0 < 1 + braceBalance (inside.take n)
  closed : 1 + braceBalance (inside ++ ['\x7d']) = 0

instance (rest inside behind : Text) : Decidable (ClosedBy rest inside behind) :=
  decidable_of_iff' _ (closedBy_iff rest inside behind)

/-- **Braces that come down to 0 do so first at some `}`.** The count is that before the text, and
    the flag says whether the text starts in a quoted run. -/
theorem exists_closing (q : Bool) {count : Int} (hcount : 0 < count) {t : Text}
    (h : count + braceBalanceFrom q t ≤ 0) :
    ∃ inside behind, t = inside ++ '\x7d' :: behind ∧ quotedAfter q inside = false ∧
      (∀ n ≤ inside.length, 0 < count + braceBalanceFrom q (inside.take n)) ∧
      count + braceBalanceFrom q (inside ++ ['\x7d']) = 0 := by
  induction t generalizing q count with
  | nil => exact absurd h (by simpa [braceBalanceFrom] using hcount)
  | cons c cs ih =>
    have hcons : ∀ s : Text, braceBalanceFrom q (c :: s) =
        braceBalanceFrom q [c] + braceBalanceFrom (if c = quote then !q else q) s :=
      fun s => braceBalanceFrom_append q [c] s
    by_cases hopen : 0 < count + braceBalanceFrom q [c]
    · -- still open behind the first character
      rw [hcons, ← Int.add_assoc] at h
      obtain ⟨inside, behind, rfl, hplain, hbefore, hclosed⟩ := ih _ hopen h
      refine ⟨c :: inside, behind, rfl, hplain, fun n hn => ?_, ?_⟩
      · cases n with
        | zero => simpa [braceBalanceFrom] using hcount
        | succ n =>
          rw [List.take_succ_cons, hcons, ← Int.add_assoc]
          exact hbefore n (Nat.le_of_succ_le_succ hn)
      · rw [List.cons_append, hcons, ← Int.add_assoc]
        exact hclosed
    · -- one character takes the count down by one at most, and only a plain `}` does
      have hstep : c = '\x7d' ∧ q = false ∧ count = 1 := by
        simp only [braceBalanceFrom] at hopen
        split_ifs at hopen with hquote hq hbrace hclose
        · omega
        · omega
        · omega
        · exact ⟨hclose, Bool.eq_false_iff.mpr hq, by omega⟩
        · omega
      obtain ⟨rfl, rfl, rfl⟩ := hstep
      refine ⟨[], cs, rfl, rfl, fun n _ => ?_, by decide⟩
      rw [List.take_nil]
      decide

theorem exists_closedBy {rest : Text} (h : 1 + braceBalance rest ≤ 0) :
    ∃ inside behind, ClosedBy rest inside behind := by
  obtain ⟨inside, behind, hsplit, hplain, hopen, hclosed⟩ :=
    exists_closing false (by decide) h
  exact ⟨inside, behind, hsplit, hplain, hopen, hclosed⟩

end Token

/-! ## 3. The line of a directive -/

namespace Directive

open Text Token

/-- The line of a rule on the first line of a directive has its characters. -/
theorem ink_ruleOnHeader (unit : Int) (opening : Line) (rule : Text) :
    ink ((ruleOnHeader unit opening rule).flatMap Line.text) = ink rule := by
  unfold ruleOnHeader
  dsimp only
  split
  · rename_i hnil
    rw [← ink_strip rule, List.isEmpty_iff.mp hnil]
    rfl
  · rw [List.flatMap_singleton, ink_strip]

/-- A directive that is closed on its first line owns no other, and its rule ends before the last
    `}`. -/
theorem collectAt_closed (breakpoints : Table Text Text) (unit : Int) {c : Cursor} {opening : Line}
    {following : List Line} {head kept lost : Text} (hc : c.ahead = opening :: following)
    (htext : opening.text = head ++ '\x7b' :: (kept ++ '\x7d' :: lost)) (hhead : '\x7b' ∉ head)
    (hlost : '\x7d' ∉ lost) (hclosed : 1 + braceBalance (kept ++ '\x7d' :: lost) ≤ 0) :
    collectAt breakpoints unit c =
      .ok (⟨Header.read breakpoints head, opening.number, ruleOnHeader unit opening kept, true⟩,
        ⟨c.position + 1, following⟩) := by
  have hcut : cut? '\x7b' opening.text = some (head, kept ++ '\x7d' :: lost) :=
    htext ▸ cut?_append hhead _
  have hsplit : (Reach.ofOpening opening).split following = ([], following) := by
    have hreach : Reach.ofOpening opening =
        .braces (1 + braceBalance (kept ++ '\x7d' :: lost)) := by
      simp [Reach.ofOpening, hcut]
    rw [hreach]
    exact Reach.split_of_not_covers fun _ _ => decide_eq_false (Int.not_lt.mpr hclosed)
  have hdepth : depthAfter (1 + braceBalance (kept ++ '\x7d' :: lost)) [] ≤ 0 := hclosed
  rw [collectAt_eq breakpoints unit hc, hsplit]
  simp only [Block.ofBody, hcut, if_pos hclosed, beforeLast_append kept hlost, List.append_nil,
    decide_eq_true hdepth]
  rfl

/-- A directive that is not closed on its first line keeps all of it. -/
theorem collectAt_open (breakpoints : Table Text Text) (unit : Int) {c : Cursor} {opening : Line}
    {following : List Line} {head rest : Text} (hc : c.ahead = opening :: following)
    (htext : opening.text = head ++ '\x7b' :: rest) (hhead : '\x7b' ∉ head)
    (hopen : 0 < 1 + braceBalance rest) :
    ∃ block taken left,
      collectAt breakpoints unit c = .ok (block, ⟨c.position + 1 + taken.length, left⟩) ∧
      following = taken ++ left ∧ block.lines = ruleOnHeader unit opening rest ++ taken := by
  have hcut : cut? '\x7b' opening.text = some (head, rest) := htext ▸ cut?_append hhead _
  refine ⟨_, _, _, collectAt_eq breakpoints unit hc,
    (Reach.split_append_split _ following).symm, ?_⟩
  simp only [Block.ofBody, hcut, if_neg (Int.not_le.mpr hopen)]

/-- Of a text that is cut at its last `}`, the characters in front of and behind the closing brace
    are those in front of and behind the cut. -/
theorem ink_perm_of_closedBy {rest inside behind kept lost : Text} (h : ClosedBy rest inside behind)
    (hrest : rest = kept ++ '\x7d' :: lost) :
    (ink (inside ++ behind)).Perm (ink kept ++ ink lost) := by
  have hbrace : isBlank '\x7d' = false := by decide
  have hink : ∀ s t : Text, (ink (s ++ '\x7d' :: t)).Perm ('\x7d' :: ink (s ++ t)) := by
    intro s t
    rw [ink_append, ink_append, ink_cons_of_not_blank hbrace]
    exact List.perm_middle
  have hboth : ('\x7d' :: ink (inside ++ behind)).Perm ('\x7d' :: ink (kept ++ lost)) := by
    refine (hink inside behind).symm.trans ?_
    rw [← h.split, hrest]
    exact hink kept lost
  rw [← ink_append]
  exact hboth.cons_inv

/-- **What becomes of the text on the first line of a directive with a `{`.** If the directive is
    not closed there, all of it goes into the directive's lines. If it is, then the characters
    without the closing brace are, each as often, those of the directive's line and those behind the
    last `}`. So nothing is lost exactly if only blanks stand there. The lines after it stay where
    they are, and what is lost is not reported: the directive is closed, and it is the same as if
    the line ended with its last `}`. -/
theorem collectAt_one_line (breakpoints : Table Text Text) (unit : Int) {c : Cursor}
    {opening : Line} {following : List Line} {head rest : Text}
    (hc : c.ahead = opening :: following) (htext : opening.text = head ++ '\x7b' :: rest)
    (hhead : '\x7b' ∉ head) :
    (0 < 1 + braceBalance rest → ∃ block taken left,
      collectAt breakpoints unit c = .ok (block, ⟨c.position + 1 + taken.length, left⟩) ∧
      following = taken ++ left ∧
      ink (block.lines.flatMap Line.text) = ink rest ++ ink (taken.flatMap Line.text)) ∧
    (1 + braceBalance rest ≤ 0 → ∃ block inside behind kept lost,
      collectAt breakpoints unit c = .ok (block, ⟨c.position + 1, following⟩) ∧
      ClosedBy rest inside behind ∧ rest = kept ++ '\x7d' :: lost ∧ '\x7d' ∉ lost ∧
      (ink (inside ++ behind)).Perm (ink (block.lines.flatMap Line.text) ++ ink lost) ∧
      ((ink (inside ++ behind)).Perm (ink (block.lines.flatMap Line.text)) ↔
        ∀ x ∈ lost, isBlank x = true) ∧
      (∀ d : Draft, d.reportUnclosed block = d) ∧
      let shortened : Line := { opening with text := head ++ '\x7b' :: kept ++ ['\x7d'] }
      collectAt breakpoints unit { c with ahead := shortened :: following } =
        .ok (block, ⟨c.position + 1, following⟩)) := by
  constructor
  · intro hopen
    obtain ⟨block, taken, left, hcollect, hsplit, hlines⟩ :=
      collectAt_open breakpoints unit hc htext hhead hopen
    refine ⟨block, taken, left, hcollect, hsplit, ?_⟩
    rw [hlines, List.flatMap_append, ink_append, ink_ruleOnHeader]
  · intro hclosed
    have hmem : '\x7d' ∈ rest := by
      by_contra hnone
      have hnonneg : 0 ≤ braceBalance rest := braceBalanceFrom_nonneg false hnone
      omega
    obtain ⟨kept, lost, hrest, hlost⟩ := exists_last_of_mem hmem
    obtain ⟨inside, behind, hby⟩ := exists_closedBy hclosed
    have hperm := ink_perm_of_closedBy hby hrest
    have hshort : 1 + braceBalance (kept ++ ['\x7d']) ≤ 0 := by
      have happend := braceBalanceFrom_append false (kept ++ ['\x7d']) lost
      rw [List.append_assoc, List.singleton_append, ← hrest] at happend
      have hnonneg := braceBalanceFrom_nonneg (quotedAfter false (kept ++ ['\x7d'])) hlost
      unfold braceBalance at hclosed ⊢
      omega
    have hlines := ink_ruleOnHeader unit opening kept
    refine ⟨_, inside, behind, kept, lost,
      collectAt_closed breakpoints unit hc (hrest ▸ htext) hhead hlost (hrest ▸ hclosed), hby,
      hrest, hlost, by rw [hlines]; exact hperm, ?_, fun d => rfl, ?_⟩
    · rw [hlines, ← ink_eq_nil_iff]
      constructor
      · intro hkept
        have hlength := (hkept.symm.trans hperm).length_eq
        rw [List.length_append] at hlength
        exact List.length_eq_zero_iff.mp (by omega)
      · intro hnil
        rw [hnil, List.append_nil] at hperm
        exact hperm
    · intro shortened
      have hshortened : shortened.text = head ++ '\x7b' :: (kept ++ '\x7d' :: []) := by
        simp [shortened]
      have hcollect := collectAt_closed breakpoints unit
        (c := { c with ahead := shortened :: following }) rfl hshortened hhead List.not_mem_nil
        hshort
      exact hcollect

/-- A nested pair of braces, and a quoted `}` behind the closing brace: the closing brace stays, and
    the line is cut inside of the quoted run. -/
theorem collectAt_one_line_quoted :
    let opening : Line := ⟨1, 0, "@mobile \x7b .a \x7b pad=8 \x7d \x7d .b pad=4 \"\x7d\" x"⟩
    let rest : Text := " .a \x7b pad=8 \x7d \x7d .b pad=4 \"\x7d\" x"
    let c : Cursor := .ofLines [opening, ⟨2, 0, "p"⟩]
    opening.text = "@mobile " ++ '\x7b' :: rest ∧ 1 + braceBalance rest ≤ 0 ∧
      ∃ block inside behind kept lost, collectAt Config.default.breakpoints 2 c =
          .ok (block, ⟨1, [⟨2, 0, "p"⟩]⟩) ∧
        block.lines = [⟨1, 2, ".a \x7b pad=8 \x7d \x7d .b pad=4 \""⟩] ∧
        ClosedBy rest inside behind ∧ rest = kept ++ '\x7d' :: lost ∧
        (ink (inside ++ behind)).Perm (ink (block.lines.flatMap Line.text) ++ ink lost) := by
  intro opening rest c
  have htext : opening.text = "@mobile " ++ '\x7b' :: rest := by decide
  have hclosed : 1 + braceBalance rest ≤ 0 := by decide
  obtain ⟨block, inside, behind, kept, lost, hcollect, hby, hrest, _, hperm, _⟩ :=
    (collectAt_one_line Config.default.breakpoints 2 (c := c) rfl htext (by decide)).2 hclosed
  have hlines : (collectAt Config.default.breakpoints 2 c).map (fun r => r.1.lines) =
      .ok [⟨1, 2, ".a \x7b pad=8 \x7d \x7d .b pad=4 \""⟩] := by decide +kernel
  rw [hcollect] at hlines
  exact ⟨htext, hclosed, block, inside, behind, kept, lost, hcollect, Except.ok.inj hlines, hby,
    hrest, hperm⟩

/-- **An element line behind the closing brace is lost.** It is not in the directive, and neither is
    it left for the body nor reported. -/
theorem text_behind_brace_lost :
    let opening : Line := ⟨1, 0, "@mobile \x7b .card pad=8 \x7d p t=x"⟩
    ClosedBy " .card pad=8 \x7d p t=x" " .card pad=8 " " p t=x" ∧
      ∃ block, takeTopLevel Config.default 0 [opening] = ([block], []) ∧
        block.lines = [⟨1, 2, ".card pad=8"⟩] ∧
        ∃ d, (Draft.empty Config.default).addTopLevel [block] = .ok d ∧ d.diagnostics = [] := by
  intro opening
  have hread : ((Draft.empty Config.default).addTopLevel
      (takeTopLevel Config.default 0 [opening]).1).map Draft.diagnostics = .ok [] := by
    decide +kernel
  obtain ⟨d, ok, _⟩ := (Draft.empty Config.default).addTopLevel_ok
    (takeTopLevel Config.default 0 [opening]).1
  rw [ok] at hread
  exact ⟨by decide, _, rfl, by decide, d, ok, Except.ok.inj hread⟩

end Directive

end OutlineMarkup
