/-
  File:      OutlineMarkup/Proofs/Partition.lean
  Subject:   Taking the directives at the top out of a document parts its lines.

  Every line goes to one place: it is left for the body, or it belongs to one directive. Which lines
  follow the first line of a directive is said without counting ahead (`Owns`): without a `{` the
  longest run of lines that are blank or lie deeper, with one the shortest run that closes its
  braces, or all lines if none does.

  * `split_owns`: the lines that a directive covers are those that it owns, and it is closed unless
    its braces stay open to the end;
  * `addTopLevel_unclosed`: directives that are not closed are reported, each once, and nothing else
    is said about braces;
  * **`topLevel_partition`**: the pieces of a document, and what becomes of them.
-/
import OutlineMarkup.Proofs.Findings
import OutlineMarkup.Proofs.Placement
import OutlineMarkup.Proofs.Quoting

namespace OutlineMarkup

namespace Directive

open Token

/-! ## 1. The lines of one directive -/

/-- The directive that opens at a line owns the lines of the first list, and those of the second
    follow it; the flag says whether it is closed. -/
inductive Owns (opening : Line) : List Line → List Line → Bool → Prop where
  /-- Without a brace: the longest run of lines that are blank or lie deeper. -/
  | deeper {body rest : List Line} (hnone : '\x7b' ∉ opening.text)
      (hbody : ∀ l ∈ body, belongs opening l = true)
      (hrest : ∀ l, rest.head? = some l → belongs opening l = false) : Owns opening body rest true
  /-- With a brace: the shortest run of lines that closes the braces, none if they are closed on the
      first line. -/
  | closed {head tail : Text} {body : List Line} (htext : opening.text = head ++ '\x7b' :: tail)
      (hhead : '\x7b' ∉ head) (hbody : Closes (1 + braceBalance tail) body) (rest : List Line) :
      Owns opening body rest true
  /-- With a brace that no line closes: all lines. -/
  | endless {head tail : Text} {body : List Line} (htext : opening.text = head ++ '\x7b' :: tail)
      (hhead : '\x7b' ∉ head) (hbody : StaysOpen (1 + braceBalance tail) body) :
      Owns opening body [] false

/-- **A directive covers the lines that it owns.** -/
theorem split_owns (breakpoints : Table Text Text) (unit : Int) (opening : Line)
    (following : List Line) :
    let s := (Reach.ofOpening opening).split following
    Owns opening s.1 s.2 (Block.ofBody breakpoints unit opening s.1).terminated := by
  intro s
  by_cases hbrace : '\x7b' ∈ opening.text
  · obtain ⟨head, tail, htext, hhead⟩ := List.eq_append_cons_of_mem hbrace
    have hcut : Text.cut? '\x7b' opening.text = some (head, tail) :=
      htext ▸ Text.cut?_append hhead tail
    have hreach : Reach.ofOpening opening = .braces (1 + braceBalance tail) := by
      simp [Reach.ofOpening, hcut]
    have hterminated : (Block.ofBody breakpoints unit opening s.1).terminated =
        decide (depthAfter (1 + braceBalance tail) s.1 ≤ 0) := by
      simp [Block.ofBody, hcut]
    have hsplit : s.1 ++ s.2 = following := (Reach.ofOpening opening).split_append_split following
    have hs : s = (Reach.braces (1 + braceBalance tail)).split following := by rw [← hreach]
    rw [hterminated]
    rcases split_braces_cases (1 + braceBalance tail) following with h | ⟨hrest, h⟩
    · rw [← hs] at h
      rw [decide_eq_true h.closed]
      exact .closed htext hhead h s.2
    · rw [← hs] at hrest
      rw [hrest, List.append_nil] at hsplit
      rw [← hsplit] at h
      have hopen : 0 < depthAfter (1 + braceBalance tail) s.1 := h s.1 [] (List.append_nil _).symm
      rw [hrest, decide_eq_false (Int.not_le.mpr hopen)]
      exact .endless htext hhead h
  · have hcut : Text.cut? '\x7b' opening.text = none := Text.cut?_of_not_mem hbrace
    have hreach : Reach.ofOpening opening = .deeper opening.indent := by
      simp [Reach.ofOpening, hcut]
    have hs : s =
        (following.takeWhile (belongs opening), following.dropWhile (belongs opening)) := by
      rw [← Reach.split_deeper, ← hreach]
    have hterminated : (Block.ofBody breakpoints unit opening s.1).terminated = true := by
      simp [Block.ofBody, hcut]
    rw [hterminated, hs]
    refine .deeper hbrace (fun l hl => List.mem_takeWhile_imp hl) fun l hl => ?_
    have hnot := List.head?_dropWhile_not (belongs opening) following
    rw [hl] at hnot
    exact hnot

/-! ## 2. The pieces of a document -/

section Pieces

variable {isOpening : Line → Bool} {ls : List Line} {ss : List Segment}

/-- The pieces that lines are cut into are all of the lines. -/
theorem Cuts.flatMap_lines (h : Cuts isOpening ls ss) : ss.flatMap Segment.lines = ls := by
  induction h with
  | nil => rfl
  | line _ _ ih => exact congrArg (_ :: ·) ih
  | @directive l ls ss _ _ ih =>
    rw [List.flatMap_cons, ih]
    exact congrArg (l :: ·) ((Reach.ofOpening l).split_append_split ls)

theorem Cuts.not_opening (h : Cuts isOpening ls ss) :
    ∀ l ∈ ss.filterMap Segment.line?, isOpening l = false := by
  induction h with
  | nil => exact List.forall_mem_nil _
  | line hl _ ih => exact List.forall_mem_cons.mpr ⟨hl, ih⟩
  | directive _ _ ih => exact ih

/-- **Each directive among the pieces owns its lines.** -/
theorem Cuts.owns (h : Cuts isOpening ls ss) (breakpoints : Table Text Text) (unit : Int)
    {before after : List Segment} {opening : Line} {body : List Line}
    (e : ss = before ++ .directive opening body :: after) :
    isOpening opening = true ∧ Owns opening body (after.flatMap Segment.lines)
      (Block.ofBody breakpoints unit opening body).terminated := by
  induction h generalizing before with
  | nil => cases before <;> cases e
  | line _ _ ih =>
    cases before with
    | nil => cases e
    | cons s before => exact ih (List.cons.inj e).2
  | @directive l ls ss hl hr ih =>
    cases before with
    | nil =>
      obtain ⟨hfirst, rfl⟩ := List.cons.inj e
      cases hfirst
      rw [hr.flatMap_lines]
      exact ⟨hl, split_owns breakpoints unit opening ls⟩
    | cons s before => exact ih (List.cons.inj e).2

end Pieces

end Directive

/-! ## 3. Directives that are not closed -/

open Directive

/-- What is reported of a directive that is not closed. -/
def Directive.Block.unclosedWarning (block : Block) : Diagnostic :=
  ⟨.unclosedDirective block.header.text, block.line⟩

/-- A directive is reported if it is not closed, and apart from that nothing is said about
    braces. -/
theorem Draft.addBlock_unclosed {d d' : Draft} {block : Block}
    (ok : (d.reportUnclosed block).addBlock block = .ok d') :
    ∃ found, d'.diagnostics = d.diagnostics ++ found ∧
      found.filter (fun x => x.finding.isAboutBraces) =
        if block.terminated then [] else [block.unclosedWarning] := by
  obtain ⟨found, e, hfound⟩ := addBlock_reports ok
  have hquiet : found.filter (fun x => x.finding.isAboutBraces) = [] :=
    List.filter_eq_nil_iff.mpr fun x hx => by simp [hfound x hx]
  unfold reportUnclosed at e
  cases hterminated : block.terminated with
  | true =>
    rw [if_pos hterminated] at e
    exact ⟨found, e, hquiet⟩
  | false =>
    rw [if_neg (by simp [hterminated])] at e
    refine ⟨block.unclosedWarning :: found, ?_, ?_⟩
    · rw [e]
      exact List.append_assoc _ _ _
    · have habout : block.unclosedWarning.finding.isAboutBraces = true := rfl
      rw [List.filter_cons, if_pos habout, hquiet]
      rfl

/-- **Of several directives, those that are not closed are reported, each once, in their order.** -/
theorem Draft.addTopLevel_unclosed {d d' : Draft} {blocks : List Block}
    (ok : d.addTopLevel blocks = .ok d') :
    ∃ found, d'.diagnostics = d.diagnostics ++ found ∧
      found.filter (fun x => x.finding.isAboutBraces) =
        (blocks.filter fun b => !b.terminated).map Block.unclosedWarning := by
  unfold addTopLevel at ok
  induction blocks generalizing d with
  | nil =>
    cases ok
    exact ⟨[], (List.append_nil _).symm, rfl⟩
  | cons block blocks ih =>
    rw [List.foldlM_cons] at ok
    obtain ⟨d₁, ok₁, ok⟩ := bind_eq_ok.mp ok
    obtain ⟨found, e, hfound⟩ := addBlock_unclosed ok₁
    obtain ⟨found', e', hfound'⟩ := ih ok
    refine ⟨found ++ found', by rw [e', e, List.append_assoc], ?_⟩
    rw [List.filter_append, hfound, hfound']
    cases hterminated : block.terminated with
    | true => simp [hterminated]
    | false => simp [hterminated]

/-! ## 4. The whole document -/

/-- **How the directives at the top are taken out of a document.** The document is a row of pieces,
    which are lines and directives with the lines that they own; so every line belongs to one piece.
    The single lines are left, in their order, and none of them opens a directive at the top. Each
    directive opens at a line that does, owns what follows it by the rule of `Owns`, and is taken
    with these lines. The directives are added to the draft in their order; those that are not
    closed are reported, each once, and nothing else is reported about braces. -/
theorem topLevel_partition (d : Draft) (lines : List Line) :
    ∃ pieces blocks remaining d' found,
      lines = pieces.flatMap Segment.lines ∧
      takeTopLevel d.config 0 lines = (blocks, remaining) ∧
      remaining = pieces.filterMap Segment.line? ∧
      (∀ l ∈ remaining, (l.isDirective && l.indent == 0) = false) ∧
      blocks = pieces.filterMap (Segment.block? d.config) ∧
      (∀ before opening body after, pieces = before ++ .directive opening body :: after →
        let block := Block.ofBody d.config.breakpoints d.config.indentUnit opening body
        (opening.isDirective && opening.indent == 0) = true ∧
        Owns opening body (after.flatMap Segment.lines) block.terminated ∧
        block.line = opening.number ∧ ∃ rule, block.lines = rule ++ body) ∧
      d.addTopLevel blocks = .ok d' ∧ d'.diagnostics = d.diagnostics ++ found ∧
      found.filter (fun x => x.finding.isAboutBraces) =
        (blocks.filter fun b => !b.terminated).map Block.unclosedWarning := by
  obtain ⟨pieces, hcuts⟩ := exists_cuts opensTop lines.length lines (Nat.le_refl _)
  obtain ⟨d', ok, _⟩ := d.addTopLevel_ok (pieces.filterMap (Segment.block? d.config))
  obtain ⟨found, hfound, hunclosed⟩ := Draft.addTopLevel_unclosed ok
  refine ⟨pieces, _, _, d', found, hcuts.flatMap_lines.symm, hcuts.takeTopLevel d.config, rfl,
    hcuts.not_opening, rfl, ?_, ok, hfound, hunclosed⟩
  intro before opening body after e block
  obtain ⟨hopens, howns⟩ := hcuts.owns d.config.breakpoints d.config.indentUnit e
  refine ⟨hopens, howns, ?_, lines_ofBody _ _ _ _⟩
  show (Block.ofBody _ _ opening body).line = opening.number
  unfold Block.ofBody
  split
  · rfl
  · rfl

end OutlineMarkup
