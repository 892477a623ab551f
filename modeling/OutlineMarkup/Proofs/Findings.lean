/-
  File:      OutlineMarkup/Proofs/Findings.lean
  Subject:   What the parts of a compile can report.

  A draft only ever gets more diagnostics (`Draft.Reports`, which also says of which kind they are):

  * `addElement_reports`: an element line reports nothing about braces;
  * `addBlock_reports`, `addInline_reports`: neither do the lines of a directive, only that the
    directive itself was not closed;
  * `Outline.step_reports`, `Outline.run_reports`: a statement never reports that a block was left
    open to the end; this is the one thing reported at the end, once for each open block
    (`Outline.finishFrom_eq`).
-/
import OutlineMarkup.Proofs.Context
import OutlineMarkup.Proofs.Diagnostics

namespace OutlineMarkup

open Diagnostic Reported

/-- Whether a diagnostic is reported under a rule. -/
def Diagnostic.isUnder (rule : Text) (x : Diagnostic) : Bool := decide (x.finding.rule = rule)

/-! ## 1. Lines of directives -/

namespace Directive

/-- The words on a line of a directive report three kinds of findings. -/
theorem forall_resolveWords {P : Diagnostic → Prop} {line : Option Int}
    (hword : ∀ word, P ⟨.skippedRuleWord word, line⟩) (hkey : ∀ key, P ⟨.unknownStyleKey key, line⟩)
    (hname : ∀ name, P ⟨.undeclaredVariable name, line⟩) (d : Draft) (p : Priority)
    (words : List Text) : ∀ x ∈ (resolveWords d p line words).diagnostics, P x := by
  have hpairWord : ∀ pairs word, ∀ x ∈ (addPairWord line pairs word).diagnostics, P x := by
    intro pairs word
    unfold addPairWord
    split
    · exact List.forall_mem_nil _
    · split
      · exact List.forall_mem_nil _
      · exact forall_report (hword word)
  have hpair : ∀ pair, ∀ x ∈ (resolvePair d p line pair).diagnostics, P x := by
    intro pair
    unfold resolvePair
    split
    · exact forall_report (hkey pair.1)
    · rw [diagnostics_bind, diagnostics_pure, List.append_nil]
      exact d.forall_resolve hname _ _ p
  unfold resolveWords readPairs
  simp only [diagnostics_bind, diagnostics_pure, List.append_nil]
  refine List.forall_mem_append.mpr ⟨forall_foldlM hpairWord words [], fun x hx => ?_⟩
  obtain ⟨_, _, h⟩ := (along_mapM (Q := fun _ => P) hpair _).exists_of_mem hx
  exact h

theorem resolveWords_onLine (d : Draft) (p : Priority) (line : Option Int) (words : List Text) :
    ∀ x ∈ (resolveWords d p line words).diagnostics, OnLine line x :=
  forall_resolveWords (fun _ => ⟨rfl, rfl⟩) (fun _ => ⟨rfl, rfl⟩) (fun _ => ⟨rfl, rfl⟩) d p words

/-- They report nothing under any other rule. -/
theorem filter_isUnder_resolveWords (rule : Text)
    (h : rule ∉ (["skipped-token", "unknown-style-key", "undeclared-variable"] : List Text))
    (d : Draft) (p : Priority) (line : Option Int) (words : List Text) :
    (resolveWords d p line words).diagnostics.filter (isUnder rule) = [] := by
  have hother : ∀ r ∈ (["skipped-token", "unknown-style-key", "undeclared-variable"] : List Text),
      ¬decide (r = rule) = true := fun r hr e => h (of_decide_eq_true e ▸ hr)
  refine List.filter_eq_nil_iff.mpr (forall_resolveWords (fun word => ?_) (fun key => ?_)
    (fun name => ?_) d p words)
  · exact hother "skipped-token" (by simp)
  · exact hother "unknown-style-key" (by simp)
  · exact hother "undeclared-variable" (by simp)

theorem addStepLine_onLine (d : Draft) (steps : Steps) (line : Line) :
    ∀ x ∈ (addStepLine d steps line).diagnostics, OnLine line.number x := by
  unfold addStepLine
  split
  · exact List.forall_mem_nil _
  · split
    · rw [diagnostics_bind, diagnostics_pure, List.append_nil]
      exact resolveWords_onLine d .normal line.number _
    · exact forall_report ⟨rfl, rfl⟩

theorem mediaLine_onLine (d : Draft) (line : Line) :
    ∀ x ∈ (mediaLine d line).diagnostics, OnLine line.number x := by
  unfold mediaLine
  split
  · exact List.forall_mem_nil _
  · dsimp only
    rw [diagnostics_bind]
    refine List.forall_mem_append.mpr ⟨resolveWords_onLine d .forced line.number _, ?_⟩
    split
    · exact forall_report ⟨rfl, rfl⟩
    · exact List.forall_mem_nil _

/-- The lines of keyframes report one after the other. -/
theorem readSteps_along (d : Draft) (lines : List Line) :
    Along (fun l => OnLine (some l.number)) lines (readSteps d lines).diagnostics := by
  unfold readSteps
  rw [diagnostics_bind, diagnostics_pure, List.append_nil]
  exact along_foldlM (addStepLine_onLine d) lines .empty

/-- The lines of a media directive report one after the other. -/
theorem mediaPieces_along (d : Draft) (lines : List Line) :
    Along (fun l => OnLine (some l.number)) lines (mediaPieces d lines).diagnostics := by
  unfold mediaPieces
  rw [diagnostics_bind, diagnostics_pure, List.append_nil]
  exact along_mapM (mediaLine_onLine d) lines

end Directive

/-- So do the lines of a directive that styles an element. -/
theorem Draft.inlineDeclarations_along (d : Draft) (lines : List Line) :
    Along (fun l => OnLine (some l.number)) lines (d.inlineDeclarations lines).diagnostics := by
  induction lines with
  | nil => exact .nil
  | cons line lines ih =>
    unfold inlineDeclarations
    split
    · exact ih.skip line
    · dsimp only
      rw [diagnostics_bind]
      refine .cons (Directive.resolveWords_onLine d .forced line.number _) ?_
      split
      · exact ih
      · exact .none lines

theorem Diagnostic.Along.freeOfBraces {lines : List Line} {xs : List Diagnostic}
    (h : Along (fun l => OnLine (some l.number)) lines xs) : FreeOfBraces xs := by
  intro x hx
  obtain ⟨_, _, hline⟩ := h.exists_of_mem hx
  exact hline.isAboutBraces

/-! ## 2. What a draft gets -/

/-- Whether a finding is about the braces of a block of elements. -/
def Finding.isAboutBlocks : Finding → Bool
  | .strayBrace | .dedentedBlock | .unclosedBlock => true
  | _ => false

theorem Finding.isAboutBlocks_of_braces {f : Finding} (h : f.isAboutBraces = false) :
    f.isAboutBlocks = false := by
  cases f with
  | strayBrace => exact absurd h (by decide)
  | dedentedBlock => exact absurd h (by decide)
  | unclosedBlock => exact absurd h (by decide)
  | _ => rfl

namespace Draft

/-- One draft has the diagnostics of another and, behind them, only findings of one kind. -/
def Reports (P : Finding → Prop) (d d' : Draft) : Prop :=
  ∃ found, d'.diagnostics = d.diagnostics ++ found ∧ ∀ x ∈ found, P x.finding

namespace Reports

variable {P Q R : Finding → Prop} {d d' d'' : Draft}

theorem of_eq (h : d'.diagnostics = d.diagnostics) : Reports P d d' :=
  ⟨[], by rw [h, List.append_nil], fun _ hx => by cases hx⟩

theorem trans (h : Reports P d d') (h' : Reports P d' d'') : Reports P d d'' := by
  obtain ⟨found, e, hfound⟩ := h
  obtain ⟨found', e', hfound'⟩ := h'
  refine ⟨found ++ found', by rw [e', e, List.append_assoc], fun x hx => ?_⟩
  rcases List.mem_append.mp hx with hx | hx
  · exact hfound x hx
  · exact hfound' x hx

theorem mono (h : Reports P d d') (hPQ : ∀ f, P f → Q f) : Reports Q d d' := by
  obtain ⟨found, e, hfound⟩ := h
  exact ⟨found, e, fun x hx => hPQ x.finding (hfound x hx)⟩

theorem report (d : Draft) {finding : Finding} (h : P finding) (line : Option Int) :
    Reports P d (d.report finding line) := by
  refine ⟨[⟨finding, line⟩], rfl, fun x hx => ?_⟩
  rw [List.mem_singleton.mp hx]
  exact h

theorem of_report {finding : Finding} {line : Option Int}
    (h : Reports P d (d.report finding line)) : P finding := by
  obtain ⟨found, e, hfound⟩ := h
  obtain rfl : [⟨finding, line⟩] = found := List.append_cancel_left e
  exact hfound _ List.mem_cons_self

/-- What is reported on the whole way is reported on its two parts. -/
theorem split (h : Reports P d d'') (h₁ : Reports Q d d') (h₂ : Reports R d' d'') :
    Reports P d d' ∧ Reports P d' d'' := by
  obtain ⟨found, e, hfound⟩ := h
  obtain ⟨found₁, e₁, _⟩ := h₁
  obtain ⟨found₂, e₂, _⟩ := h₂
  rw [e₂, e₁, List.append_assoc] at e
  obtain rfl : found₁ ++ found₂ = found := List.append_cancel_left e
  exact ⟨⟨found₁, e₁, fun x hx => hfound x (List.mem_append_left _ hx)⟩,
    ⟨found₂, e₂, fun x hx => hfound x (List.mem_append_right _ hx)⟩⟩

end Reports

/-- Reports nothing about braces. -/
abbrev Quiet (d d' : Draft) : Prop := Reports (fun f => f.isAboutBraces = false) d d'

theorem classFor_diagnostics {d d' : Draft} {t name : Text} (ok : d.classFor t = .ok (name, d')) :
    d'.diagnostics = d.diagnostics := by
  rw [(classFor_eq_ok ok).2]

/-- An element line reports what is found on reading it. -/
theorem addElement_diagnostics {d d' : Draft} {line : Line} {code : Text} {words : List Text}
    {hasChildren : Bool} {e : Element}
    (ok : d.addElement line code words hasChildren = .ok (e, d')) :
    d'.diagnostics =
      d.diagnostics ++ (ElementPlan.read d line code words hasChildren).diagnostics := by
  refine foldlM_keeps (fun s : Element × Draft => s.2.diagnostics =
    d.diagnostics ++ (ElementPlan.read d line code words hasChildren).diagnostics) ?_ ok rfl
  intro s t s' hs h
  obtain ⟨_, hu, _⟩ := addStyle_eq_ok hs
  obtain ⟨d₁, hc, e⟩ := addUtility_eq_ok hu
  rw [e]
  exact (classFor_diagnostics hc).trans h

/-- **An element line reports nothing about braces.** -/
theorem addElement_reports {d d' : Draft} {line : Line} {code : Text} {words : List Text}
    {hasChildren : Bool} {e : Element}
    (ok : d.addElement line code words hasChildren = .ok (e, d')) : Quiet d d' :=
  ⟨_, addElement_diagnostics ok, ElementPlan.read_finds d line code words hasChildren⟩

open Directive

theorem addKeyframes_diagnostics (d : Draft) (name : Text) (lines : List Line) :
    (addKeyframes d name lines).diagnostics =
      d.diagnostics ++ (readSteps d lines).diagnostics := by
  rw [addKeyframes_eq]

theorem addMedia_diagnostics {d d' : Draft} {query : Text} {lines : List Line}
    (ok : d.addMedia query lines = .ok d') :
    d'.diagnostics = d.diagnostics ++ (mediaPieces d lines).diagnostics := by
  obtain ⟨⟨rules, d₁⟩, hr, e⟩ := bind_eq_ok.mp ok
  obtain ⟨⟨rules', classes⟩, _, e₁⟩ := bind_eq_ok.mp hr
  cases e₁
  rw [← Except.ok.inj e]
  dsimp only
  split
  · rfl
  · rfl

/-- **A directive at the top reports nothing about braces**, apart from not being closed. -/
theorem addBlock_reports {d d' : Draft} {block : Block} (ok : d.addBlock block = .ok d') :
    Quiet d d' := by
  unfold addBlock at ok
  split at ok
  · exact ⟨_, addMedia_diagnostics ok, (mediaPieces_along d block.lines).freeOfBraces⟩
  · cases ok
    exact ⟨_, addKeyframes_diagnostics d _ block.lines,
      (readSteps_along d block.lines).freeOfBraces⟩
  · cases ok
    exact .report d (by rfl) _
  · cases ok
    exact .report d (by rfl) _

theorem reportUnclosed_reports (d : Draft) (block : Block) :
    Reports (fun f => f.isAboutBlocks = false) d (d.reportUnclosed block) := by
  unfold reportUnclosed
  split
  · exact .of_eq rfl
  · exact .report d (by rfl) _

theorem styleInline_diagnostics {d d' : Draft} {query : Text} {lines : List Line}
    {name : Option Text} (ok : d.styleInline query lines = .ok (name, d')) :
    d'.diagnostics = d.diagnostics ++ (d.inlineDeclarations lines).diagnostics := by
  rcases styleInline_eq_ok ok with ⟨_, rfl⟩ | ⟨n, d₁, _, hc, rfl⟩
  · rfl
  · exact classFor_diagnostics hc

theorem styleInline_reports {d d' : Draft} {query : Text} {lines : List Line} {name : Option Text}
    (ok : d.styleInline query lines = .ok (name, d')) : Quiet d d' :=
  ⟨_, styleInline_diagnostics ok, (d.inlineDeclarations_along lines).freeOfBraces⟩

/-- **A directive inside the tree reports nothing about the braces of elements.** -/
theorem addInline_reports {d d' : Draft} {block : Block} {hasTarget : Bool} {name : Option Text}
    (ok : d.addInline block hasTarget = .ok (name, d')) :
    Reports (fun f => f.isAboutBlocks = false) d d' := by
  refine (d.reportUnclosed_reports block).trans ?_
  unfold addInline at ok
  dsimp only at ok
  split at ok
  · cases hasTarget with
    | true => exact (styleInline_reports ok).mono fun _ => Finding.isAboutBlocks_of_braces
    | false =>
      cases ok
      exact .report _ (by rfl) _
  · obtain ⟨d₁, hd, e⟩ := bind_eq_ok.mp ok
    cases e
    exact (addBlock_reports hd).mono fun _ => Finding.isAboutBlocks_of_braces

end Draft

/-! ## 3. Statements, and the end of a document -/

namespace Outline

open Draft

theorem closeDedented_reports (indent : Int) (d : Draft) (s : Scope) (enclosing : List Scope) :
    Reports (· = .dedentedBlock) d (closeDedented indent d s enclosing).draft := by
  induction enclosing generalizing d s with
  | nil => exact .of_eq rfl
  | cons outer rest ih =>
    unfold closeDedented
    split
    · exact (Reports.report d (by rfl) s.openedAt).trans (ih _ _)
    · exact .of_eq rfl

/-- A statement never reports that a block was left open to the end. -/
theorem step_reports {o o' : Outline} {s : Statement} {following : List Statement}
    (ok : o.step s following = .ok o') : Reports (· ≠ .unclosedBlock) o.draft o'.draft := by
  have hsettle : ∀ indent, Reports (· ≠ .unclosedBlock) o.draft (o.settle indent).draft := by
    intro indent
    refine (closeDedented_reports indent o.draft o.scope o.enclosing).mono ?_
    rintro _ rfl
    decide
  have hblocks : ∀ f : Finding, f.isAboutBlocks = false → f ≠ .unclosedBlock := by
    rintro _ h rfl
    cases h
  cases s with
  | element line code words opens =>
    obtain ⟨e, d', hadd, rfl⟩ := step_element_eq_ok ok
    have h := (hsettle line.indent).trans ((addElement_reports hadd).mono fun f hf =>
      hblocks f (Finding.isAboutBlocks_of_braces hf))
    cases opens with
    | true => exact h
    | false => exact h
  | openBrace line =>
    cases ok
    rw [Context.draft_openBlock]
    exact hsettle line.indent
  | closeBrace line =>
    cases ok
    unfold close
    split
    · exact .report _ (by decide) _
    · exact .of_eq rfl
  | directive line block =>
    obtain ⟨name, d', hadd, rfl⟩ := step_directive_eq_ok ok
    exact (hsettle line.indent).trans ((addInline_reports hadd).mono hblocks)

theorem run_reports {o o' : Outline} {ss : List Statement} (ok : o.run ss = .ok o') :
    Reports (· ≠ .unclosedBlock) o.draft o'.draft := by
  induction ss generalizing o with
  | nil =>
    cases ok
    exact .of_eq rfl
  | cons s following ih =>
    obtain ⟨o₁, hs, hrun⟩ := bind_eq_ok.mp ok
    exact (step_reports hs).trans (ih hrun)

/-- **At the end of a document every open block is reported**, and nothing else. -/
theorem finishFrom_eq (d : Draft) (s : Scope) (enclosing : List Scope) :
    ∃ found, (finishFrom d s enclosing).2 = d.withDiagnostics (d.diagnostics ++ found) ∧
      found.length = enclosing.length ∧ ∀ x ∈ found, x.finding = .unclosedBlock := by
  induction enclosing generalizing d s with
  | nil =>
    refine ⟨[], ?_, rfl, fun x hx => by cases hx⟩
    rw [List.append_nil]
    rfl
  | cons outer rest ih =>
    obtain ⟨found, e, hlen, hfound⟩ :=
      ih (d.report .unclosedBlock s.openedAt) (outer.adopt s.forest)
    refine ⟨⟨.unclosedBlock, s.openedAt⟩ :: found, ?_, by rw [List.length_cons, hlen]; rfl, ?_⟩
    · rw [finishFrom, e]
      simp [Draft.report, withDiagnostics]
    · intro x hx
      rcases List.mem_cons.mp hx with rfl | hx
      · rfl
      · exact hfound x hx

end Outline

end OutlineMarkup
