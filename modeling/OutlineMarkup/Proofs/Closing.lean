/-
  File:      OutlineMarkup/Proofs/Closing.lean
  Subject:   Closing at the end of a document is the same as writing the missing braces.

  Braces put behind a document are looked at twice before they are reached: by the last directive,
  which must not take them in (`Block.not_covers_of_terminated`), and by the look-ahead of the last
  element, which a `}` tells no more than the end does (`Statement.hasChildren_append_closing`). So
  the statements before them do what they did, and what is left are the braces themselves: each
  closes a scope as the end would have closed it, and those too many are stray
  (`Outline.finish_closed`).

  * **`readBody_closed_at_end`**: with the missing braces written, and any number more, the body is
    read to the same forest and draft, without the reports of blocks left open and with one report
    for each brace too many.
-/
import OutlineMarkup.Proofs.Findings
import OutlineMarkup.Proofs.Skippable

namespace OutlineMarkup

/-! ## 1. The lines of directives -/

namespace Directive

/-- What reaches beyond the last line is the last directive. -/
theorem Cuts.exists_of_reachAfter {isOpening : Line → Bool} {ls : List Line} {ss : List Segment}
    (h : Cuts isOpening ls ss) {r : Reach} (hr : reachAfter isOpening ls = some r) :
    ∃ opening body, opening ∈ ls ∧ .directive opening body ∈ ss ∧
      r = body.foldl Reach.after (Reach.ofOpening opening) := by
  induction h with
  | nil => cases hr
  | line hl _ ih =>
    rw [reachAfter_line hl] at hr
    obtain ⟨opening, body, hmem, hs, e⟩ := ih hr
    exact ⟨opening, body, List.mem_cons_of_mem _ hmem, List.mem_cons_of_mem _ hs, e⟩
  | @directive l ls ss hl _ ih =>
    rw [reachAfter_directive hl] at hr
    have hwhole := (Reach.ofOpening l).split_append_split ls
    by_cases he : ((Reach.ofOpening l).split ls).2 = []
    · rw [foldl_nextReach_of_goes_on he] at hr
      rw [he, List.append_nil] at hwhole
      refine ⟨l, _, List.mem_cons_self, List.mem_cons_self, ?_⟩
      rw [hwhole]
      exact (Option.some.inj hr).symm
    · rw [foldl_nextReach_of_ends he] at hr
      obtain ⟨opening, body, hmem, hs, e⟩ := ih hr
      refine ⟨opening, body, List.mem_cons_of_mem _ ?_, List.mem_cons_of_mem _ hs, e⟩
      rw [← hwhole]
      exact List.mem_append_right _ hmem

/-- A directive that is closed, or has no brace, ends before a `}` at column 0. -/
theorem Block.not_covers_of_terminated {breakpoints : Table Text Text} {unit : Int}
    {opening l : Line} {body : List Line}
    (ht : (Block.ofBody breakpoints unit opening body).terminated = true)
    (hi : l.indent ≤ opening.indent) (hb : l.isBlank = false) :
    (body.foldl Reach.after (Reach.ofOpening opening)).covers l = false := by
  unfold Block.ofBody at ht
  unfold Reach.ofOpening
  split at ht
  · have hconst : ∀ ls : List Line,
        ls.foldl Reach.after (.deeper opening.indent) = .deeper opening.indent := by
      intro ls
      induction ls with
      | nil => rfl
      | cons _ ls ih => exact ih
    simp [*, Reach.covers]
  · have hle := of_decide_eq_true ht
    simp only [*, foldl_after_braces, Reach.covers, decide_eq_false_iff_not]
    exact Int.not_lt.mpr hle

end Directive

/-! ## 2. Lines and statements -/

namespace Statement

open Directive

/-- Whether a statement is complete, which only a directive without its last brace is not. -/
def isTerminated : Statement → Bool
  | .directive _ block => block.terminated
  | _ => true

theorem writeOut_closing (config : Config) {l : Line} (h : l.text = Token.closing) :
    writeOut config l = [l] := by
  have ht : Token.tokenize Token.closing = [Token.closing] := by decide
  have hone : Line.hasInlineBlock [Token.closing] = false := by decide
  simp [writeOut, Line.expand, h, ht, hone]

theorem ofLinesFrom_all_closing (config : Config) {closing : List Line}
    (h : ∀ l ∈ closing, l.text = Token.closing) :
    ofLinesFrom config 0 closing = closing.map .closeBrace := by
  induction closing with
  | nil => rfl
  | cons l ls ih =>
    rw [ofLinesFrom_closing config ls (h l List.mem_cons_self),
      ih fun x hx => h x (List.mem_cons_of_mem _ hx)]
    rfl

/-- **Braces behind a document in which every directive is closed are statements of their own.** -/
theorem ofLines_append_closing {config : Config} {lines closing : List Line}
    (hp : ∀ l ∈ lines, l.IsProper)
    (ht : ∀ s ∈ ofLines config lines, s.isTerminated = true)
    (hc : ∀ l ∈ closing, l.text = Token.closing ∧ l.indent = 0) :
    ofLines config (lines ++ closing) = ofLines config lines ++ closing.map .closeBrace := by
  have htext : ∀ l ∈ closing, l.text = Token.closing := fun l h => (hc l h).1
  have hwritten : closing.flatMap (writeOut config) = closing := by
    rw [List.flatMap_congr fun l h => writeOut_closing config (htext l h)]
    exact List.flatMap_singleton' closing
  obtain ⟨ss, hss⟩ := exists_cuts Line.isDirective _ (lines.flatMap (writeOut config)) le_rfl
  obtain ⟨ts, hts⟩ := exists_cuts Line.isDirective _ closing le_rfl
  have hends : ∀ r l, reachAfter Line.isDirective (lines.flatMap (writeOut config)) = some r →
      closing.head? = some l → r.covers l = false := by
    intro r l hr hl
    obtain ⟨htl, hil⟩ := hc l (List.mem_of_head? hl)
    obtain ⟨opening, body, hmem, hs, rfl⟩ := hss.exists_of_reachAfter hr
    have hblock :
        .directive opening (Block.ofBody config.breakpoints config.indentUnit opening body) ∈
          ofLines config lines := by
      rw [ofLines, hss.ofLinesFrom config]
      exact List.mem_filterMap.mpr ⟨_, hs, rfl⟩
    refine Block.not_covers_of_terminated (ht _ hblock) ?_ ?_
    · rw [hil]
      exact (isProper_of_mem_flatMap hp opening hmem).indent_nonneg
    · rw [Line.isBlank, htl]
      rfl
  rw [ofLines, List.flatMap_append, hwritten, (hss.append hts hends).ofLinesFrom config,
    List.filterMap_append, ← hss.ofLinesFrom config, ← hts.ofLinesFrom config,
    ofLinesFrom_all_closing config htext]
  rfl

/-! ## 3. Looking ahead -/

theorem startsChild_append_closing (line : Line) (opened : Bool) (ss : List Statement)
    (closing : List Line) :
    startsChild line opened (ss ++ closing.map .closeBrace) = startsChild line opened ss := by
  cases ss with
  | nil =>
    cases closing with
    | nil => rfl
    | cons l ls => rfl
  | cons s ss =>
    cases s with
    | _ => rfl

/-- A `}` tells the look-ahead no more than the end of the document. -/
theorem hasChildren_append_closing (line : Line) (opens : Bool) (ss : List Statement)
    (closing : List Line) :
    hasChildren line opens (ss ++ closing.map .closeBrace) = hasChildren line opens ss := by
  have hstarts := startsChild_append_closing line opens ss closing
  cases opens with
  | true => exact hstarts
  | false =>
    cases ss with
    | nil =>
      cases closing with
      | nil => rfl
      | cons l ls => rfl
    | cons s ss =>
      cases s with
      | openBrace l => exact startsChild_append_closing line true ss closing
      | element l code words opens => exact hstarts
      | closeBrace l => exact hstarts
      | directive l block => exact hstarts

end Statement

/-! ## 4. The state at the end -/

namespace Outline

theorem step_append_closing (o : Outline) (s : Statement) (ss : List Statement)
    (closing : List Line) :
    o.step s (ss ++ closing.map .closeBrace) = o.step s ss := by
  cases s with
  | element line code words opens =>
    show Outline.addElement _ _ _ _ _ _ = Outline.addElement _ _ _ _ _ _
    unfold addElement
    rw [Statement.hasChildren_append_closing]
  | openBrace line => rfl
  | closeBrace line => rfl
  | directive line block => rfl

theorem run_closing (o : Outline) (closing : List Line) :
    o.run (closing.map .closeBrace) = .ok (closing.foldl close o) := by
  induction closing generalizing o with
  | nil => rfl
  | cons l ls ih => exact ih (o.close l)

/-- Braces behind some statements come after all that these do. -/
theorem run_append_closing {o o' : Outline} {ss : List Statement} (ok : o.run ss = .ok o')
    (closing : List Line) :
    o.run (ss ++ closing.map .closeBrace) = .ok (closing.foldl close o') := by
  induction ss generalizing o with
  | nil =>
    cases ok
    exact run_closing _ closing
  | cons s ss ih =>
    obtain ⟨o₁, hs, hrun⟩ := bind_eq_ok.mp ok
    rw [List.cons_append, run_cons ((o.step_append_closing s ss closing).trans hs)]
    exact ih hrun

theorem foldl_close_outermost (d : Draft) (s : Scope) (closing : List Line) :
    closing.foldl close ⟨d, s, []⟩ =
      ⟨d.withDiagnostics (d.diagnostics ++ closing.map fun l => ⟨.strayBrace, some l.number⟩),
        s, []⟩ := by
  induction closing generalizing d with
  | nil =>
    rw [List.map_nil, List.append_nil]
    rfl
  | cons l ls ih =>
    rw [List.foldl_cons, close, ih]
    simp [Draft.report, Draft.withDiagnostics]

theorem finishFrom_forest (d d' : Draft) (s : Scope) (enclosing : List Scope) :
    (finishFrom d s enclosing).1 = (finishFrom d' s enclosing).1 := by
  induction enclosing generalizing d d' s with
  | nil => rfl
  | cons outer rest ih => exact ih _ _ _

/-- **Enough braces close all scopes as the end of the document does**; those that are left are
    reported. -/
theorem finish_closed (d : Draft) (s : Scope) (enclosing : List Scope) (closing : List Line)
    (h : enclosing.length ≤ closing.length) :
    (closing.foldl close ⟨d, s, enclosing⟩).finish =
      ((finishFrom d s enclosing).1,
        d.withDiagnostics (d.diagnostics ++
          (closing.drop enclosing.length).map fun l => ⟨.strayBrace, some l.number⟩)) := by
  induction enclosing generalizing s closing with
  | nil =>
    rw [foldl_close_outermost]
    rfl
  | cons outer rest ih =>
    cases closing with
    | nil => cases h
    | cons l ls =>
      rw [List.foldl_cons, List.length_cons, List.drop_succ_cons]
      show (ls.foldl close ⟨d, outer.adopt s.forest, rest⟩).finish = _
      rw [ih _ ls (Nat.le_of_succ_le_succ h), finishFrom]
      rw [finishFrom_forest d (d.report .unclosedBlock s.openedAt)]

end Outline

/-! ## 5. The body of a document -/

/-- Whether a diagnostic says that a block was left open to the end. -/
def Diagnostic.isUnclosedBlock (x : Diagnostic) : Bool := x.finding == .unclosedBlock

/-- **Closing at the end of a document is the same as writing the missing braces.** -/
theorem readBody_closed_at_end (d : Draft) (lines : List Line) (hp : ∀ l ∈ lines, l.IsProper)
    (ht : ∀ s ∈ Statement.ofLines d.config lines, s.isTerminated = true) :
    ∃ forest d' found, d.readBody lines = .ok (forest, d') ∧
      d'.diagnostics = d.diagnostics ++ found ∧
      ∀ closing : List Line, (∀ l ∈ closing, l.text = Token.closing ∧ l.indent = 0) →
        found.countP Diagnostic.isUnclosedBlock ≤ closing.length →
        d.readBody (lines ++ closing) = .ok (forest, d'.withDiagnostics (d.diagnostics ++
          found.filter (fun x => !x.isUnclosedBlock) ++
          (closing.drop (found.countP Diagnostic.isUnclosedBlock)).map fun l =>
            ⟨.strayBrace, some l.number⟩)) := by
  obtain ⟨o, hrun, _⟩ := Outline.run_ok { draft := d } (Statement.ofLines d.config lines)
  obtain ⟨before, hbefore, hquiet⟩ := Outline.run_reports hrun
  obtain ⟨last, hlast, hlen, hopen⟩ := Outline.finishFrom_eq o.draft o.scope o.enclosing
  have hbefore' : o.draft.diagnostics = d.diagnostics ++ before := hbefore
  have hnone : ∀ x ∈ before, ¬x.isUnclosedBlock = true := by
    intro x hx h
    exact hquiet x hx (beq_iff_eq.mp h)
  have hall : ∀ x ∈ last, x.isUnclosedBlock = true := fun x hx => beq_iff_eq.mpr (hopen x hx)
  have hcount : (before ++ last).countP Diagnostic.isUnclosedBlock = o.enclosing.length := by
    rw [List.countP_append, List.countP_eq_zero.mpr hnone, List.countP_eq_length.mpr hall,
      Nat.zero_add, hlen]
  have hkept : (before ++ last).filter (fun x => !x.isUnclosedBlock) = before := by
    rw [List.filter_append, List.filter_eq_self.mpr fun x hx => by simp [hnone x hx],
      List.filter_eq_nil_iff.mpr fun x hx => by simp [hall x hx], List.append_nil]
  refine ⟨o.finish.1, o.finish.2, before ++ last, ?_, ?_, ?_⟩
  · unfold Draft.readBody
    rw [hrun]
    rfl
  · rw [Outline.finish, hlast, ← List.append_assoc, ← hbefore']
    rfl
  · intro closing hc henough
    rw [hcount] at henough ⊢
    rw [hkept, ← hbefore', Outline.finish, hlast]
    unfold Draft.readBody
    rw [Statement.ofLines_append_closing hp ht hc, Outline.run_append_closing hrun closing]
    exact congrArg Except.ok (Outline.finish_closed o.draft o.scope o.enclosing closing henough)

/-- Two blocks left open, the inner one behind a directive inside the tree, and three braces. -/
theorem readBody_closed_at_end_nested :
    let lines := Line.ofSource 2
      "c \x7b\n  h1 t=a\n  @mobile pad=8\n  p \x7b\n    b t=x\n    @mobile pad=4".toList
    let unknown : Diagnostic := ⟨.unknownElement "b", some 5⟩
    let closing : List Line := [⟨7, 0, "\x7d"⟩, ⟨8, 0, "\x7d"⟩, ⟨9, 0, "\x7d"⟩]
    (∀ l ∈ lines, l.IsProper) ∧ (∀ s ∈ Statement.ofLines .default lines, s.isTerminated = true) ∧
      (∀ l ∈ closing, l.text = Token.closing ∧ l.indent = 0) ∧
      ∃ forest d', (Draft.empty .default).readBody lines = .ok (forest, d') ∧
        d'.diagnostics = [unknown, ⟨.unclosedBlock, some 4⟩, ⟨.unclosedBlock, some 1⟩] ∧
        (Draft.empty .default).readBody (lines ++ closing) =
          .ok (forest, d'.withDiagnostics [unknown, ⟨.strayBrace, some 9⟩]) := by
  intro lines unknown closing
  have hp : ∀ l ∈ lines, l.IsProper := fun _ h => Line.isProper_of_mem_ofSource h
  have ht : ∀ s ∈ Statement.ofLines .default lines, s.isTerminated = true :=
    List.all_eq_true.mp (by decide +kernel)
  have hc : ∀ l ∈ closing, l.text = Token.closing ∧ l.indent = 0 :=
    List.forall_iff_forall_mem.mp (by decide)
  obtain ⟨forest, d', found, ok, hd, h⟩ := readBody_closed_at_end (.empty .default) lines hp ht
  have hrun : ((Draft.empty .default).readBody lines).map (fun r => r.2.diagnostics) =
      .ok [unknown, ⟨.unclosedBlock, some 4⟩, ⟨.unclosedBlock, some 1⟩] := by decide +kernel
  rw [ok] at hrun
  have hopen := Except.ok.inj hrun
  cases hd.symm.trans hopen
  exact ⟨hp, ht, hc, forest, d', ok, hopen, h closing hc (by decide)⟩

end OutlineMarkup
