/-
  File:      OutlineMarkup/Proofs/Quoting.lean
  Subject:   Braces inside of quoted runs on the first line of a directive.

  Everywhere else a quoted brace is text, but the first line of a directive is cut at its first `{`
  whether that is quoted or not, and the braces behind it are counted as if the line began there. A
  `{` inside of a quoted run leaves the other half of the run behind the cut, so that from there on
  quoted and plain text change places: the quoted braces count and the plain ones do not
  (`Token.quotedBalanceFrom_eq`).

  * `collectAt_quoted_braces`: if every `{` on the line is quoted, the directive owns the lines that
    are blank or lie deeper where there is no `{` at all; where there is one, it owns all lines up
    to the one that brings the count of the quoted braces down to 0, or to the end. So it owns the
    blank and deeper lines only where these two happen to be the same;
  * `quoted_brace_opens_directive`: they need not be, and then it takes the rest of the document.
-/
import OutlineMarkup.Proofs.Reach

namespace OutlineMarkup

/-! ## 1. Quoted braces -/

namespace Token

/-- Whether every `{` of a text stands inside of a quoted run. -/
def OpensQuoted (t : Text) : Prop :=
  ∀ i, i < t.length → t[i]? = some '\x7b' → quotedAfter false (t.take i) = true

instance (t : Text) : Decidable (OpensQuoted t) :=
  inferInstanceAs (Decidable (∀ i, i < t.length → _))

theorem OpensQuoted.quotedAfter_eq {head tail : Text} (h : OpensQuoted (head ++ '\x7b' :: tail)) :
    quotedAfter false head = true := by
  have hi := h head.length (by simp) (by simp)
  rwa [List.take_left] at hi

/-- Opening minus closing braces of a text inside of its quoted runs; the flag says whether the text
    starts inside of one. -/
def quotedBalanceFrom : Bool → Text → Int
  | _, [] => 0
  | quoted, c :: cs =>
    let rest := quotedBalanceFrom (if c = quote then !quoted else quoted) cs
    if quoted && c = '\x7b' then rest + 1 else if quoted && c = '\x7d' then rest - 1 else rest

/-- **Read from the wrong side of a quote**, quoted and plain braces change places. -/
theorem quotedBalanceFrom_eq (q : Bool) (t : Text) :
    quotedBalanceFrom q t = braceBalanceFrom (!q) t := by
  induction t generalizing q with
  | nil => rfl
  | cons c cs ih =>
    have hopen : '\x7b' ≠ quote := by decide
    have hclose : '\x7d' ≠ quote := by decide
    simp only [quotedBalanceFrom, braceBalanceFrom, ih]
    by_cases hq : c = quote
    · subst hq
      simp [hopen.symm, hclose.symm]
    · cases q with
      | true => simp [hq]
      | false => simp [hq]

/-- Behind the first `{`, if it is quoted, the quoted braces are the ones that count. -/
theorem OpensQuoted.one_add_braceBalance {head tail : Text}
    (h : OpensQuoted (head ++ '\x7b' :: tail)) :
    1 + braceBalance tail = quotedBalanceFrom (quotedAfter false head) ('\x7b' :: tail) := by
  rw [h.quotedAfter_eq, quotedBalanceFrom_eq, braceBalance, Int.add_comm]
  rfl

end Token

/-! ## 2. Lines up to a closing brace -/

namespace Directive

/-- Lines that close a number of open braces, no line earlier than the last of them. -/
structure Closes (count : Int) (ls : List Line) : Prop where
  closed : depthAfter count ls ≤ 0
  open_before : ∀ p q, ls = p ++ q → q ≠ [] → 0 < depthAfter count p

/-- Lines that never close a number of open braces. -/
def StaysOpen (count : Int) (ls : List Line) : Prop := ∀ p q, ls = p ++ q → 0 < depthAfter count p

theorem closes_nil {count : Int} (h : count ≤ 0) : Closes count [] where
  closed := h
  open_before _ _ e hq := absurd (List.append_eq_nil_iff.mp e.symm).2 hq

theorem Closes.cons {count : Int} {l : Line} {ls : List Line} (hc : 0 < count)
    (h : Closes (count + Token.braceBalance l.text) ls) : Closes count (l :: ls) where
  closed := h.closed
  open_before p q e hq := by
    cases p with
    | nil => exact hc
    | cons m p =>
      obtain ⟨rfl, hls⟩ := List.cons.inj e
      exact h.open_before p q hls hq

theorem StaysOpen.cons {count : Int} {l : Line} {ls : List Line} (hc : 0 < count)
    (h : StaysOpen (count + Token.braceBalance l.text) ls) : StaysOpen count (l :: ls) := by
  intro p q e
  cases p with
  | nil => exact hc
  | cons m p =>
    obtain ⟨rfl, hls⟩ := List.cons.inj e
    exact h p q hls

/-- **What a directive with a brace covers**: the lines that close it, or all if none do. -/
theorem split_braces_cases (count : Int) (ls : List Line) :
    Closes count ((Reach.braces count).split ls).1 ∨
      ((Reach.braces count).split ls).2 = [] ∧ StaysOpen count ls := by
  induction ls generalizing count with
  | nil =>
    rcases Int.lt_or_le 0 count with hc | hc
    · refine .inr ⟨rfl, fun p q e => ?_⟩
      rw [(List.append_eq_nil_iff.mp e.symm).1]
      exact hc
    · exact .inl (closes_nil hc)
  | cons l ls ih =>
    rcases Int.lt_or_le 0 count with hc | hc
    · have hcovers : (Reach.braces count).covers l = true := decide_eq_true hc
      rw [Reach.split, if_pos hcovers]
      rcases ih (count + Token.braceBalance l.text) with h | ⟨hrest, h⟩
      · exact .inl (h.cons hc)
      · exact .inr ⟨hrest, h.cons hc⟩
    · have hcovers : ¬(Reach.braces count).covers l = true := by
        simpa [Reach.covers] using hc
      rw [Reach.split, if_neg hcovers]
      exact .inl (closes_nil hc)

/-- Lines are closed at one place only. -/
theorem Closes.unique {count : Int} {p p' q q' : List Line} (h : Closes count p)
    (h' : Closes count p') (e : p ++ q = p' ++ q') : p = p' := by
  rcases List.append_eq_append_iff.mp e with ⟨r, hr, _⟩ | ⟨r, hr, _⟩
  · by_cases hne : r = []
    · rw [hr, hne, List.append_nil]
    · exact absurd h.closed (Int.not_le.mpr (h'.open_before p r hr hne))
  · by_cases hne : r = []
    · rw [hr, hne, List.append_nil]
    · exact absurd h'.closed (Int.not_le.mpr (h.open_before p' r hr hne))

/-- The lines that close a directive with a brace are those that it covers, if it is closed. -/
theorem closes_iff_split {count : Int} {p : List Line} (q : List Line) :
    Closes count p ↔
      depthAfter count ((Reach.braces count).split (p ++ q)).1 ≤ 0 ∧
        ((Reach.braces count).split (p ++ q)).1 = p := by
  have hsplit := (Reach.braces count).split_append_split (p ++ q)
  rcases split_braces_cases count (p ++ q) with h | ⟨_, h⟩
  · constructor
    · intro hp
      exact ⟨h.closed, h.unique hp hsplit⟩
    · rintro ⟨_, e⟩
      exact e ▸ h
  · have hopen : 0 < depthAfter count p := h p q rfl
    constructor
    · intro hp
      exact absurd hp.closed (Int.not_le.mpr hopen)
    · rintro ⟨hclosed, e⟩
      rw [e] at hclosed
      exact absurd hclosed (Int.not_le.mpr hopen)

/-! ## 3. The lines of a directive -/

theorem collectAt_eq (breakpoints : Table Text Text) (unit : Int) {c : Cursor} {opening : Line}
    {following : List Line} (hc : c.ahead = opening :: following) :
    let s := (Reach.ofOpening opening).split following
    collectAt breakpoints unit c =
      .ok (Block.ofBody breakpoints unit opening s.1, ⟨c.position + 1 + s.1.length, s.2⟩) := by
  have hnext : c.next = .ok (opening, ⟨c.position + 1, following⟩) := by
    unfold Cursor.next
    rw [hc]
  simp only [collectAt, hnext, collect_eq_ofBody, Reach.split_ofOpening]
  rfl

theorem lines_ofBody (breakpoints : Table Text Text) (unit : Int) (opening : Line)
    (body : List Line) :
    ∃ rule, (Block.ofBody breakpoints unit opening body).lines = rule ++ body := by
  unfold Block.ofBody
  split
  · exact ⟨_, rfl⟩
  · exact ⟨_, rfl⟩

/-- **What a directive owns whose first line has no `{` but quoted ones.** Without any `{` it owns
    the lines after it that are blank or lie deeper, and is closed. With one, the quoted braces from
    the first `{` on count as open, and it owns the lines that close them, or all lines if none do,
    and is not closed then. So it owns the blank and deeper lines, and is closed, exactly if these
    are the lines that close its quoted braces. -/
theorem collectAt_quoted_braces (breakpoints : Table Text Text) (unit : Int) {c : Cursor}
    {opening : Line} {following : List Line} (hc : c.ahead = opening :: following)
    (hq : Token.OpensQuoted opening.text) :
    let deeper := following.takeWhile (belongs opening)
    ∃ block taken rest,
      collectAt breakpoints unit c = .ok (block, ⟨c.position + 1 + taken.length, rest⟩) ∧
      following = taken ++ rest ∧ (∃ rule, block.lines = rule ++ taken) ∧
      ('\x7b' ∉ opening.text → block.terminated = true ∧ taken = deeper) ∧
      ∀ head tail, opening.text = head ++ '\x7b' :: tail → '\x7b' ∉ head →
        let count := Token.quotedBalanceFrom (Token.quotedAfter false head) ('\x7b' :: tail)
        (block.terminated = true ∧ Closes count taken ∨
          block.terminated = false ∧ rest = [] ∧ StaysOpen count following) ∧
        (block.terminated = true ∧ taken = deeper ↔ Closes count deeper) := by
  intro deeper
  have hsplit := (Reach.ofOpening opening).split_append_split following
  refine ⟨_, _, _, collectAt_eq breakpoints unit hc, hsplit.symm, lines_ofBody _ _ _ _, ?_, ?_⟩
  · intro hnone
    have hcut : Text.cut? '\x7b' opening.text = none := Text.cut?_of_not_mem hnone
    have hreach : Reach.ofOpening opening = .deeper opening.indent := by
      simp [Reach.ofOpening, hcut]
    rw [hreach, Reach.split_deeper]
    exact ⟨by simp [Block.ofBody, hcut], rfl⟩
  · intro head tail e hhead count
    have hcut : Text.cut? '\x7b' opening.text = some (head, tail) := e ▸ Text.cut?_append hhead tail
    have hcount : 1 + Token.braceBalance tail = count := (e ▸ hq).one_add_braceBalance
    have hreach : Reach.ofOpening opening = .braces count := by
      simp [Reach.ofOpening, hcut, hcount]
    have hterminated : ∀ body, (Block.ofBody breakpoints unit opening body).terminated =
        decide (depthAfter count body ≤ 0) := by
      intro body
      simp [Block.ofBody, hcut, hcount]
    rw [hreach] at hsplit ⊢
    simp only [hterminated, decide_eq_true_eq, decide_eq_false_iff_not]
    constructor
    · rcases split_braces_cases count following with h | ⟨hrest, h⟩
      · exact .inl ⟨h.closed, h⟩
      · exact .inr ⟨Int.not_le.mpr (h _ _ hsplit.symm), hrest, h⟩
    · have hdeeper : deeper ++ following.dropWhile (belongs opening) = following :=
        List.takeWhile_append_dropWhile
      have hiff := @closes_iff_split count deeper (following.dropWhile (belongs opening))
      rw [hdeeper] at hiff
      exact hiff.symm

/-- Two quoted `{` less one quoted `}`: the directive goes on to the next `}`, past a line that
    stands left of it. The plain `}` on its first line does not count. -/
theorem collectAt_quoted_braces_crossed :
    let opening : Line := ⟨1, 2, "@mobile \"\x7b \x7b\" \x7d a=\"\x7d\""⟩
    let following : List Line := [⟨2, 4, "pad=8"⟩, ⟨3, 0, "p"⟩, ⟨4, 2, "\x7d"⟩, ⟨5, 0, "p"⟩]
    let c : Cursor := ⟨0, opening :: following⟩
    Token.OpensQuoted opening.text ∧
      Token.quotedBalanceFrom (Token.quotedAfter false "@mobile \"")
        "\x7b \x7b\" \x7d a=\"\x7d\"" = 1 ∧
      ∃ block taken rest,
        collectAt (.ofList []) 2 c = .ok (block, ⟨c.position + 1 + taken.length, rest⟩) ∧
        following = taken ++ rest ∧ (∃ rule, block.lines = rule ++ taken) ∧
        (block.terminated = true ∧ Closes 1 taken ∨
          block.terminated = false ∧ rest = [] ∧ StaysOpen 1 following) := by
  intro opening following c
  have hq : Token.OpensQuoted opening.text := by decide
  obtain ⟨block, taken, rest, hcollect, hsplit, hlines, _, hbrace⟩ :=
    collectAt_quoted_braces (.ofList []) 2 (c := c) rfl hq
  exact ⟨hq, by decide, block, taken, rest, hcollect, hsplit, hlines,
    (hbrace "@mobile \"" " \x7b\" \x7d a=\"\x7d\"" (by decide) (by decide)).1⟩

/-- **A quoted `{` opens a directive.** The only `{` of the first line is quoted, but the directive
    is not closed, and takes a line that is neither blank nor lies deeper. -/
theorem quoted_brace_opens_directive :
    let opening : Line := ⟨1, 0, "@mobile t=\"\x7b\""⟩
    let following : List Line := [⟨2, 2, ".card pad=8"⟩, ⟨3, 0, "p t=x"⟩]
    opening.isDirective = true ∧ Token.OpensQuoted opening.text ∧
      ∃ block, collectAt Config.default.breakpoints 2 (.ofLines (opening :: following)) =
          .ok (block, ⟨3, []⟩) ∧
        block.terminated = false ∧ following.takeWhile (belongs opening) ≠ following := by
  exact ⟨by decide, by decide, _, rfl, by decide, by decide⟩

end Directive

end OutlineMarkup
