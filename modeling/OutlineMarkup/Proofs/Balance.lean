/-
  File:      OutlineMarkup/Proofs/Balance.lean
  Subject:   When the scopes of a document are those that its braces say.

  Scopes end at braces, but also at lines that stand left of them, and a lone `{` opens a scope only
  behind an element. So balanced braces alone do not make the scopes what the braces say. Two things
  have to hold of the matched statements:

  * `Brackets.keepsMargins`: of the lines directly inside a block none stands left of the first;
  * `Brackets.attached`: every lone `{` comes behind an element of its scope.

  With both, the scopes follow the braces (`Brackets.Scoped`, `FitsIn.scoped`). Without them there
  is always something to report: a line to the left is reported at once, and after a `{` without
  effect there is one `}` too many (`Outline.runBefore_enclosing`, `fitsIn_of_quiet`).

  * **`readBody_balanced`**: a balanced document without directives has nothing to report about
    braces exactly if both hold, and then each `}` closes the scope that its `{` opened.
-/
import OutlineMarkup.Proofs.Brackets
import OutlineMarkup.Proofs.Findings

namespace OutlineMarkup

open Diagnostic

/-! ## 1. Where braces count -/

/-- Whether none of some indentations is left of a margin, which the first of them fixes if there
    is none yet. -/
def flush (margin : Option Int) (indents : List Int) : Bool :=
  indents.all fun i => (margin.or indents.head?).all fun m => decide (m ≤ i)

theorem flush_cons (margin : Option Int) (i : Int) (indents : List Int) :
    flush margin (i :: indents) =
      ((margin.all fun m => decide (m ≤ i)) && flush (margin.or (some i)) indents) := by
  cases margin with
  | none => simp [flush]
  | some m => simp [flush]

namespace Brackets

/-- The indentations of the lines at the outer level: elements, and what opens blocks. -/
def indents : Brackets → List Int
  | .nil => []
  | .element line _ _ rest => line.indent :: rest.indents
  | .block opener _ _ rest => opener.line.indent :: rest.indents

/-- Whether of the lines directly inside a block none stands left of the first. -/
def keepsMargins : Brackets → Bool
  | .nil => true
  | .element _ _ _ rest => rest.keepsMargins
  | .block _ inner _ rest => flush none inner.indents && inner.keepsMargins && rest.keepsMargins

/-- Whether every lone `{` comes behind an element of its scope, where `behind` says whether there
    is one already. -/
def attached : Bool → Brackets → Bool
  | _, .nil => true
  | _, .element _ _ _ rest => rest.attached true
  | behind, .block opener inner _ rest =>
    (behind || opener.isElement) && inner.attached false && rest.attached true

end Brackets

/-! ## 2. Runs before other statements -/

namespace Outline

open Draft

/-- Adds statements one after the other, before others that follow them. -/
def runBefore (following : List Statement) (o : Outline) : List Statement → Except Fault Outline
  | [] => .ok o
  | s :: ss => do runBefore following (← o.step s (ss ++ following)) ss

theorem runBefore_nil (o : Outline) (ss : List Statement) : o.runBefore [] ss = o.run ss := by
  induction ss generalizing o with
  | nil => rfl
  | cons s ss ih =>
    unfold runBefore run
    rw [List.append_nil]
    exact bind_congr fun o₁ => ih o₁

theorem runBefore_append {following : List Statement} {o o' : Outline} {ss ts : List Statement} :
    o.runBefore following (ss ++ ts) = .ok o' ↔
      ∃ o₁, o.runBefore (ts ++ following) ss = .ok o₁ ∧ o₁.runBefore following ts = .ok o' := by
  induction ss generalizing o with
  | nil =>
    constructor
    · exact fun h => ⟨o, rfl, h⟩
    · rintro ⟨_, ⟨⟩, h⟩
      exact h
  | cons s ss ih =>
    rw [List.cons_append, runBefore, runBefore, bind_eq_ok, List.append_assoc]
    constructor
    · rintro ⟨o₂, hs, h⟩
      obtain ⟨o₁, h₁, h'⟩ := ih.mp h
      exact ⟨o₁, bind_eq_ok.mpr ⟨o₂, hs, h₁⟩, h'⟩
    · rintro ⟨o₁, h₁, h'⟩
      obtain ⟨o₂, hs, h₂⟩ := bind_eq_ok.mp h₁
      exact ⟨o₂, hs, ih.mpr ⟨o₁, h₂, h'⟩⟩

theorem runBefore_reports {following : List Statement} {o o' : Outline} {ss : List Statement}
    (ok : o.runBefore following ss = .ok o') :
    Reports (· ≠ .unclosedBlock) o.draft o'.draft := by
  induction ss generalizing o with
  | nil =>
    cases ok
    exact .of_eq rfl
  | cons s ss ih =>
    obtain ⟨o₁, hs, hrun⟩ := bind_eq_ok.mp ok
    exact (step_reports hs).trans (ih hrun)

/-! ## 3. Counting scopes -/

theorem closeDedented_enclosing (indent : Int) (d : Draft) (s : Scope) (enclosing : List Scope) :
    (closeDedented indent d s enclosing).enclosing.length ≤ enclosing.length := by
  induction enclosing generalizing d s with
  | nil => exact Nat.le_refl 0
  | cons outer rest ih =>
    unfold closeDedented
    split
    · exact Nat.le_succ_of_le (ih _ _)
    · exact Nat.le_refl _

theorem settle_enclosing (o : Outline) (indent : Int) :
    (o.settle indent).enclosing.length ≤ o.enclosing.length :=
  closeDedented_enclosing indent o.draft o.scope o.enclosing

/-- A brace without a scope is heard of. -/
theorem close_enclosing {o : Outline} {line : Line} (h : Quiet o.draft (o.close line).draft) :
    (o.close line).enclosing.length + 1 = o.enclosing.length := by
  unfold close at h ⊢
  split
  · next e =>
    rw [e] at h
    exact absurd h.of_report (by decide)
  · next outer rest e =>
    rw [e]
    rfl

/-- If nothing is reported about braces, a statement leaves at most as many scopes open as its own
    braces say. -/
theorem step_enclosing {o o' : Outline} {s : Statement} {following : List Statement}
    (ok : o.step s following = .ok o') (hq : Quiet o.draft o'.draft) :
    (o'.enclosing.length : Int) ≤ o.enclosing.length + s.rise := by
  have hsettle := fun indent => o.settle_enclosing indent
  cases s with
  | element line code words opens =>
    obtain ⟨e, d', _, rfl⟩ := step_element_eq_ok ok
    have := hsettle line.indent
    cases opens with
    | true =>
      simp only [if_true, enter, List.length_cons, Statement.rise]
      omega
    | false =>
      simp only [Bool.false_eq_true, if_false, Statement.rise]
      omega
  | openBrace line =>
    cases ok
    have := hsettle line.indent
    unfold openBlock
    split
    · simp only [Statement.rise]
      omega
    · simp only [enter, List.length_cons, Statement.rise]
      omega
  | closeBrace line =>
    cases ok
    have := close_enclosing hq
    simp only [Statement.rise]
    omega
  | directive line block =>
    obtain ⟨name, d', _, rfl⟩ := step_directive_eq_ok ok
    have := hsettle line.indent
    simp only [Statement.rise]
    omega

theorem runBefore_enclosing {following : List Statement} {o o' : Outline} {ss : List Statement}
    (ok : o.runBefore following ss = .ok o') (hq : Quiet o.draft o'.draft) :
    (o'.enclosing.length : Int) ≤ o.enclosing.length + Statement.height ss := by
  induction ss generalizing o with
  | nil =>
    cases ok
    exact Int.le_add_of_nonneg_right (Int.le_refl 0)
  | cons s ss ih =>
    obtain ⟨o₁, hs, hrun⟩ := bind_eq_ok.mp ok
    obtain ⟨hq₁, hq₂⟩ := hq.split (step_reports hs) (runBefore_reports hrun)
    have h₁ := step_enclosing hs hq₁
    have h₂ := ih hrun hq₂
    rw [Statement.height]
    omega

/-! ## 4. Statements that stay in their scope -/

/-- A line stays in the scope in progress. -/
def Keeps (o : Outline) (indent : Int) : Prop :=
  o.enclosing ≠ [] → o.scope.isLeftOf indent = false

/-- After a line that stays in its scope: the scope goes on, and has an element. -/
structure Continues (o : Outline) (indent : Int) (o' : Outline) : Prop where
  enclosing : o'.enclosing = o.enclosing
  openedAt : o'.scope.openedAt = o.scope.openedAt
  margin : o'.scope.margin = o.scope.margin.or (some indent)
  nonempty : o'.scope.entries ≠ []

theorem settle_of_keeps {o : Outline} {indent : Int} (h : o.Keeps indent) :
    o.settle indent = ⟨o.draft, o.scope.setMargin indent, o.enclosing⟩ :=
  settle_inside o.draft h

/-- A line to the left of its block is heard of. -/
theorem keeps_of_quiet {o : Outline} {indent : Int}
    (h : Quiet o.draft (o.settle indent).draft) : o.Keeps indent := by
  intro hne
  obtain ⟨outer, rest, e⟩ := List.exists_cons_of_ne_nil hne
  unfold settle at h
  rw [e, closeDedented] at h
  by_cases hleft : o.scope.isLeftOf indent = true
  · rw [if_pos hleft] at h
    have hfirst := (h.split (.report o.draft (by rfl) o.scope.openedAt)
      (closeDedented_reports indent _ _ rest)).1
    exact absurd hfirst.of_report (by decide)
  · exact Bool.eq_false_iff.mpr hleft

theorem keeps_of_step {o o' : Outline} {s : Statement} {following : List Statement}
    (ok : o.step s following = .ok o') (hq : Quiet o.draft o'.draft)
    (hs : ∀ l, s ≠ .closeBrace l) : o.Keeps s.line.indent := by
  have hsettle : Reports (· = .dedentedBlock) o.draft (o.settle s.line.indent).draft :=
    closeDedented_reports s.line.indent o.draft o.scope o.enclosing
  cases s with
  | element line code words opens =>
    obtain ⟨e, d', hadd, rfl⟩ := step_element_eq_ok ok
    have h := addElement_reports hadd
    cases opens with
    | true => exact keeps_of_quiet (hq.split hsettle h).1
    | false => exact keeps_of_quiet (hq.split hsettle h).1
  | openBrace line =>
    cases ok
    rw [Context.draft_openBlock] at hq
    exact keeps_of_quiet hq
  | closeBrace line => exact absurd rfl (hs line)
  | directive line block =>
    obtain ⟨name, d', hadd, rfl⟩ := step_directive_eq_ok ok
    exact keeps_of_quiet (hq.split hsettle (addInline_reports hadd)).1

/-- A lone `{` before any element opens nothing. -/
theorem step_lone {o o' : Outline} {line : Line} {following : List Statement}
    (ok : o.step (.openBrace line) following = .ok o') (h : o.Keeps line.indent)
    (he : o.scope.entries = []) : o'.enclosing = o.enclosing := by
  have hempty : (o.scope.setMargin line.indent).entries.isEmpty = true := List.isEmpty_iff.mpr he
  cases ok
  rw [settle_of_keeps h, openBlock, if_pos hempty]

theorem step_element_continues {o : Outline} {line : Line} (h : o.Keeps line.indent) (code : Text)
    (words : List Text) (opens : Bool) (following : List Statement) :
    ∃ p, o.Continues line.indent p ∧ Quiet o.draft p.draft ∧
      o.step (.element line code words opens) following =
        .ok (if opens then p.enter line.number else p) := by
  obtain ⟨o', ok, _⟩ := o.step_ok (.element line code words opens) following
  obtain ⟨e, d', hadd, rfl⟩ := step_element_eq_ok ok
  rw [settle_of_keeps h] at hadd ok
  exact ⟨⟨d', (o.scope.setMargin line.indent).push e, o.enclosing⟩,
    ⟨rfl, rfl, rfl, List.cons_ne_nil _ _⟩, addElement_reports hadd, ok⟩

theorem step_opener {o : Outline} {opener : Opener} (h : o.Keeps opener.line.indent)
    (ha : o.scope.entries = [] → opener.isElement = true) (following : List Statement) :
    ∃ p, o.Continues opener.line.indent p ∧ Quiet o.draft p.draft ∧
      o.step opener.statement following = .ok (p.enter opener.line.number) := by
  cases opener with
  | element line code words => exact step_element_continues h code words true following
  | lone line =>
    have hkeeps : o.Keeps line.indent := h
    have hne : o.scope.entries ≠ [] := fun e => Bool.false_ne_true (ha e)
    refine ⟨⟨o.draft, o.scope.setMargin line.indent, o.enclosing⟩, ⟨rfl, rfl, rfl, hne⟩, .of_eq rfl,
      ?_⟩
    have hfull : ¬(o.scope.setMargin line.indent).entries.isEmpty = true := fun e =>
      hne (List.isEmpty_iff.mp e)
    show Except.ok ((o.settle line.indent).openBlock line) = _
    rw [settle_of_keeps hkeeps, openBlock, if_neg hfull]
    rfl

/-- Closing a block goes on with the scope around it. -/
theorem Continues.close {o p q : Outline} {indent : Int} (h : o.Continues indent p)
    (hq : q.enclosing = p.scope :: p.enclosing) (closing : Line) :
    o.Continues indent (q.close closing) ∧ (q.close closing).draft = q.draft := by
  have e : q.close closing = ⟨q.draft, p.scope.adopt q.scope.forest, p.enclosing⟩ := by
    unfold Outline.close
    rw [hq]
  obtain ⟨latest, earlier, hentries⟩ := List.exists_cons_of_ne_nil h.nonempty
  have hadopt : p.scope.adopt q.scope.forest =
      { p.scope with entries := latest.addChildren q.scope.forest :: earlier } := by
    unfold Scope.adopt
    rw [hentries]
  rw [e, hadopt]
  exact ⟨⟨h.enclosing, h.openedAt, h.margin, List.cons_ne_nil _ _⟩, rfl⟩

end Outline

/-! ## 5. Scopes that follow the braces -/

namespace Brackets

open Draft Outline

/-- **The scopes follow the braces.** An element stays in the scope in progress. A block opens a
    scope, and at its `}` this scope is in progress again, inside the same others. -/
inductive Scoped : Brackets → List Statement → Outline → Outline → Prop where
  | nil {following : List Statement} {o : Outline} : Scoped .nil following o o
  | element {line : Line} {code : Text} {words : List Text} {rest : Brackets}
      {following : List Statement} {o o₁ o' : Outline}
      (step : o.step (.element line code words false) (rest.statements ++ following) = .ok o₁)
      (same : o₁.enclosing = o.enclosing) (after : Scoped rest following o₁ o') :
      Scoped (.element line code words rest) following o o'
  | block {opener : Opener} {inner : Brackets} {closing : Line} {rest : Brackets}
      {following : List Statement} {o p q o' : Outline}
      (step : o.step opener.statement
        (inner.statements ++ .closeBrace closing :: (rest.statements ++ following)) =
          .ok (p.enter opener.line.number))
      (same : p.enclosing = o.enclosing)
      (inside : Scoped inner (.closeBrace closing :: (rest.statements ++ following))
        (p.enter opener.line.number) q)
      (opened : q.scope.openedAt = some opener.line.number)
      (held : q.enclosing = p.scope :: p.enclosing)
      (after : Scoped rest following (q.close closing) o') :
      Scoped (.block opener inner closing rest) following o o'

theorem Scoped.runBefore {b : Brackets} {following : List Statement} {o o' : Outline}
    (h : b.Scoped following o o') : o.runBefore following b.statements = .ok o' := by
  induction h with
  | nil => rfl
  | element step _ _ ih => exact bind_eq_ok.mpr ⟨_, step, ih⟩
  | @block opener inner closing rest following o p q o' step _ _ _ _ _ ih_inside ih_after =>
    have hclose : q.runBefore following (.closeBrace closing :: rest.statements) = .ok o' :=
      bind_eq_ok.mpr ⟨_, rfl, ih_after⟩
    refine bind_eq_ok.mpr
      ⟨p.enter opener.line.number, ?_, runBefore_append.mpr ⟨q, ih_inside, hclose⟩⟩
    rw [List.append_assoc]
    exact step

/-- What has to hold of statements in a scope: in a block none of their lines stands left of the
    margin, and so in the blocks among them; and every lone `{` comes behind an element. -/
structure Fits (b : Brackets) (nested : Prop) (margin : Option Int) (behind : Bool) : Prop where
  flush : nested → flush margin b.indents = true
  margins : b.keepsMargins = true
  attached : b.attached behind = true

section Fits

variable {nested : Prop} {margin : Option Int} {behind : Bool}

theorem fits_element_iff {line : Line} {code : Text} {words : List Text} {rest : Brackets} :
    (Brackets.element line code words rest).Fits nested margin behind ↔
      (nested → (margin.all fun m => decide (m ≤ line.indent)) = true) ∧
        rest.Fits nested (margin.or (some line.indent)) true := by
  constructor
  · rintro ⟨hflush, hmargins, hattached⟩
    simp only [indents, flush_cons, Bool.and_eq_true] at hflush
    exact ⟨fun hn => (hflush hn).1, fun hn => (hflush hn).2, hmargins, hattached⟩
  · rintro ⟨hkeeps, hflush, hmargins, hattached⟩
    refine ⟨fun hn => ?_, hmargins, hattached⟩
    rw [indents, flush_cons, hkeeps hn, hflush hn]
    rfl

theorem fits_block_iff {opener : Opener} {inner : Brackets} {closing : Line} {rest : Brackets} :
    (Brackets.block opener inner closing rest).Fits nested margin behind ↔
      (nested → (margin.all fun m => decide (m ≤ opener.line.indent)) = true) ∧
        (behind || opener.isElement) = true ∧ inner.Fits True none false ∧
        rest.Fits nested (margin.or (some opener.line.indent)) true := by
  constructor
  · rintro ⟨hflush, hmargins, hattached⟩
    simp only [indents, flush_cons, Bool.and_eq_true] at hflush
    simp only [keepsMargins, Bool.and_eq_true] at hmargins
    simp only [Brackets.attached, Bool.and_eq_true] at hattached
    exact ⟨fun hn => (hflush hn).1, hattached.1.1,
      ⟨fun _ => hmargins.1.1, hmargins.1.2, hattached.1.2⟩,
      ⟨fun hn => (hflush hn).2, hmargins.2, hattached.2⟩⟩
  · rintro ⟨hkeeps, hopener, ⟨hflush, hmargins, hattached⟩, ⟨hflush', hmargins', hattached'⟩⟩
    refine ⟨fun hn => ?_, ?_, ?_⟩
    · rw [indents, flush_cons, hkeeps hn, hflush' hn]
      rfl
    · rw [keepsMargins, hflush trivial, hmargins, hmargins']
      rfl
    · rw [Brackets.attached, hopener, hattached, hattached']
      rfl

end Fits

/-- Statements fit into the scope in progress. -/
def FitsIn (b : Brackets) (o : Outline) : Prop :=
  b.Fits (o.enclosing ≠ []) o.scope.margin (!o.scope.entries.isEmpty)

theorem keeps_iff {o : Outline} {indent : Int} :
    o.Keeps indent ↔
      (o.enclosing ≠ [] → (o.scope.margin.all fun m => decide (m ≤ indent)) = true) := by
  unfold Keeps Scope.isLeftOf
  cases o.scope.margin with
  | none => simp
  | some m => simp

theorem fitsIn_of_continues {o o₁ : Outline} {indent : Int} (h : o.Continues indent o₁)
    {b : Brackets} :
    b.FitsIn o₁ ↔ b.Fits (o.enclosing ≠ []) (o.scope.margin.or (some indent)) true := by
  have hbehind : (!o₁.scope.entries.isEmpty) = true := by simpa using h.nonempty
  rw [FitsIn, h.enclosing, h.margin, hbehind]

theorem fitsIn_enter {p : Outline} {number : Int} {b : Brackets} :
    b.FitsIn (p.enter number) ↔ b.Fits True none false := by
  have hnested : ((p.enter number).enclosing ≠ []) = True := eq_true (List.cons_ne_nil _ _)
  rw [FitsIn, hnested]
  rfl

theorem behind_iff {o : Outline} {opener : Opener} :
    (!o.scope.entries.isEmpty || opener.isElement) = true ↔
      (o.scope.entries = [] → opener.isElement = true) := by
  rw [Bool.or_eq_true_iff, Bool.not_eq_true', ← Bool.not_eq_true, List.isEmpty_iff,
    ← imp_iff_not_or]

/-- **Where statements fit, the scopes follow the braces**, and nothing is reported about them. -/
theorem FitsIn.scoped {b : Brackets} {o : Outline} (h : b.FitsIn o) (following : List Statement) :
    ∃ o', b.Scoped following o o' ∧ Quiet o.draft o'.draft ∧ o'.enclosing = o.enclosing ∧
      o'.scope.openedAt = o.scope.openedAt := by
  induction b generalizing o following with
  | nil => exact ⟨o, .nil, .of_eq rfl, rfl, rfl⟩
  | element line code words rest ih =>
    obtain ⟨hkeeps, hrest⟩ := fits_element_iff.mp h
    obtain ⟨o₁, hc, hq, step⟩ := step_element_continues (keeps_iff.mpr hkeeps) code words false
      (rest.statements ++ following)
    obtain ⟨o', hs, hq', he, ho⟩ := ih ((fitsIn_of_continues hc).mpr hrest) following
    exact ⟨o', .element step hc.enclosing hs, hq.trans hq', he.trans hc.enclosing,
      ho.trans hc.openedAt⟩
  | block opener inner closing rest ih_inner ih_rest =>
    obtain ⟨hkeeps, hopener, hinner, hrest⟩ := fits_block_iff.mp h
    obtain ⟨p, hc, hq, step⟩ := step_opener (keeps_iff.mpr hkeeps) (behind_iff.mp hopener)
      (inner.statements ++ .closeBrace closing :: (rest.statements ++ following))
    obtain ⟨q, hs, hq', he, ho⟩ := ih_inner (o := p.enter opener.line.number)
      (fitsIn_enter.mpr hinner) (.closeBrace closing :: (rest.statements ++ following))
    obtain ⟨hc', hdraft⟩ := hc.close he closing
    obtain ⟨o', hs', hq'', he', ho'⟩ := ih_rest ((fitsIn_of_continues hc').mpr hrest) following
    rw [hdraft] at hq''
    exact ⟨o', .block step hc.enclosing hs ho he hs', (hq.trans hq').trans hq'',
      he'.trans hc'.enclosing, ho'.trans hc'.openedAt⟩

/-- **Where nothing is reported about braces and no scope is lost, the statements fit.** -/
theorem fitsIn_of_quiet {b : Brackets} {following : List Statement} {o o' : Outline}
    (ok : o.runBefore following b.statements = .ok o') (hq : Quiet o.draft o'.draft)
    (hlen : o.enclosing.length ≤ o'.enclosing.length) : b.FitsIn o := by
  induction b generalizing o o' following with
  | nil => exact ⟨fun _ => rfl, rfl, rfl⟩
  | element line code words rest ih =>
    obtain ⟨o₁, step, hrun⟩ := bind_eq_ok.mp ok
    obtain ⟨hq₁, hq₂⟩ := hq.split (step_reports step) (runBefore_reports hrun)
    have hkeeps := keeps_of_step step hq₁ fun _ => nofun
    obtain ⟨p, hc, _, step'⟩ := step_element_continues hkeeps code words false
      (rest.statements ++ following)
    obtain rfl : o₁ = p := Except.ok.inj (step.symm.trans step')
    rw [← hc.enclosing] at hlen
    exact fits_element_iff.mpr ⟨keeps_iff.mp hkeeps, (fitsIn_of_continues hc).mp (ih hrun hq₂ hlen)⟩
  | block opener inner closing rest ih_inner ih_rest =>
    obtain ⟨o₁, step, hrun⟩ := bind_eq_ok.mp ok
    obtain ⟨o₂, hrun₁, hrun₂⟩ := runBefore_append.mp hrun
    obtain ⟨_, ⟨⟩, hrun₃⟩ := bind_eq_ok.mp hrun₂
    have hclose : o₂.step (.closeBrace closing) [] = .ok (o₂.close closing) := rfl
    obtain ⟨hq₁, hq'⟩ := hq.split (step_reports step) (runBefore_reports hrun)
    obtain ⟨hq₂, hq''⟩ := hq'.split (runBefore_reports hrun₁) (runBefore_reports hrun₂)
    obtain ⟨hq₃, hq₄⟩ := hq''.split (step_reports hclose) (runBefore_reports hrun₃)
    -- each part leaves at most as many scopes open as it should, hence exactly as many
    have h₁ := step_enclosing step hq₁
    have h₂ := runBefore_enclosing hrun₁ hq₂
    have h₃ := close_enclosing hq₃
    have h₄ := runBefore_enclosing hrun₃ hq₄
    rw [height_statements] at h₂ h₄
    have hkeeps : o.Keeps opener.line.indent := by
      rw [← opener.line_statement]
      refine keeps_of_step step hq₁ ?_
      cases opener with
      | element line code words => exact fun _ => nofun
      | lone line => exact fun _ => nofun
    have hopener : o.scope.entries = [] → opener.isElement = true := by
      intro he
      cases opener with
      | element line code words => rfl
      | lone line =>
        have hsame := congrArg List.length (step_lone step hkeeps he)
        omega
    obtain ⟨p, hc, _, step'⟩ := step_opener hkeeps hopener
      (inner.statements ++ .closeBrace closing :: rest.statements ++ following)
    obtain rfl : o₁ = p.enter opener.line.number := Except.ok.inj (step.symm.trans step')
    have hrise : opener.statement.rise = 1 := opener.rise_statement
    have hinner := ih_inner hrun₁ hq₂ (by omega)
    obtain ⟨q, hs, _, he, _⟩ := hinner.scoped (.closeBrace closing :: rest.statements ++ following)
    obtain rfl : o₂ = q := Except.ok.inj (hrun₁.symm.trans hs.runBefore)
    obtain ⟨hc', _⟩ := hc.close he closing
    have hrest := ih_rest hrun₃ hq₄ (by omega)
    exact fits_block_iff.mpr ⟨keeps_iff.mp hkeeps, behind_iff.mpr hopener, fitsIn_enter.mp hinner,
      (fitsIn_of_continues hc').mp hrest⟩

theorem fitsIn_document {b : Brackets} {d : Draft} :
    b.FitsIn { draft := d } ↔ b.keepsMargins = true ∧ b.attached false = true :=
  ⟨fun h => ⟨h.margins, h.attached⟩, fun h => ⟨fun hne => absurd rfl hne, h.1, h.2⟩⟩

end Brackets

/-! ## 6. Balanced documents -/

open Draft in
/-- Nothing is reported about braces exactly if that is so before the end, and no scope is open
    there. -/
theorem Outline.finish_freeOfBraces {o : Outline} {d : Draft}
    (h : Reports (· ≠ .unclosedBlock) d o.draft) :
    ∃ found, o.finish.2.diagnostics = d.diagnostics ++ found ∧
      (FreeOfBraces found ↔ Quiet d o.draft ∧ o.enclosing = []) := by
  obtain ⟨before, hbefore, _⟩ := h
  obtain ⟨last, hlast, hlen, hopen⟩ := Outline.finishFrom_eq o.draft o.scope o.enclosing
  refine ⟨before ++ last, ?_, ?_, ?_⟩
  · rw [Outline.finish, hlast, ← List.append_assoc, ← hbefore]
    rfl
  · intro hfree
    refine ⟨⟨before, hbefore, fun x hx => hfree x (List.mem_append_left _ hx)⟩, ?_⟩
    cases last with
    | nil => exact List.length_eq_zero_iff.mp hlen.symm
    | cons x last =>
      have hx := hfree x (List.mem_append_right _ List.mem_cons_self)
      rw [hopen x List.mem_cons_self] at hx
      cases hx
  · rintro ⟨⟨before', hbefore', hquiet⟩, hnone⟩
    obtain rfl : before = before' := List.append_cancel_left (hbefore.symm.trans hbefore')
    rw [hnone] at hlen
    obtain rfl : last = [] := List.length_eq_zero_iff.mp hlen
    rw [List.append_nil]
    exact hquiet

/-- **A balanced document without directives has nothing to report about braces exactly if every
    block keeps its margin and every lone `{` comes behind an element of its scope; and then each
    `}` closes the scope that its `{` opened.** -/
theorem readBody_balanced (d : Draft) {lines : List Line} (hp : ∀ l ∈ lines, l.IsProper)
    (hd : ∀ l ∈ lines.flatMap (Statement.writeOut d.config), l.isDirective = false)
    (hb : Line.isBalanced (lines.flatMap (Statement.writeOut d.config)) = true) :
    ∃ b forest d' found, Brackets.read (Statement.ofLines d.config lines) = some b ∧
      d.readBody lines = .ok (forest, d') ∧ d'.diagnostics = d.diagnostics ++ found ∧
      (FreeOfBraces found ↔ b.keepsMargins = true ∧ b.attached false = true) ∧
      (b.keepsMargins = true → b.attached false = true →
        ∃ o, b.Scoped [] { draft := d } o ∧ o.enclosing = [] ∧ forest = o.scope.forest ∧
          d' = o.draft) := by
  obtain ⟨b, hread⟩ := Brackets.exists_read (Statement.isProper_of_mem_flatMap hp) hd hb
  have hss : b.statements = Statement.ofLines d.config lines := Brackets.statements_of_read hread
  obtain ⟨o, hrun, _⟩ := Outline.run_ok { draft := d } (Statement.ofLines d.config lines)
  have hrun' : Outline.runBefore [] { draft := d } b.statements = .ok o := by
    rw [Outline.runBefore_nil, hss, hrun]
  obtain ⟨found, hfound, hfree⟩ := Outline.finish_freeOfBraces (Outline.runBefore_reports hrun')
  have hscoped : b.keepsMargins = true ∧ b.attached false = true →
      b.Scoped [] { draft := d } o ∧ Draft.Quiet d o.draft ∧ o.enclosing = [] := by
    intro h
    obtain ⟨o', hs, hq, he, _⟩ := (Brackets.fitsIn_document.mpr h).scoped (o := { draft := d }) []
    obtain rfl : o = o' := Except.ok.inj (hrun'.symm.trans hs.runBefore)
    exact ⟨hs, hq, he⟩
  refine ⟨b, o.finish.1, o.finish.2, found, hread, ?_, hfound, ?_, ?_⟩
  · unfold Draft.readBody
    rw [hrun]
    rfl
  · rw [hfree]
    constructor
    · rintro ⟨hq, _⟩
      exact Brackets.fitsIn_document.mp (Brackets.fitsIn_of_quiet hrun' hq (Nat.zero_le _))
    · intro h
      exact (hscoped h).2
  · intro hm ha
    obtain ⟨hs, _, he⟩ := hscoped ⟨hm, ha⟩
    refine ⟨o, hs, he, ?_, ?_⟩
    · rw [Outline.finish, he]
      rfl
    · rw [Outline.finish, he]
      rfl

/-- Blocks that an element opens, a lone brace, and a line with its block on it, with a comment and
    braces that stand left. -/
theorem readBody_balanced_nested :
    let lines := Line.ofSource 2 ("main \x7b\n  h1 t=a\n  \x7b\n  p t=b\n\x7d\n\n// note \x7b\n" ++
      "  ul \x7b li t=c \x7d\n\x7d\np t=d").toList
    let written := lines.flatMap (Statement.writeOut .default)
    (∀ l ∈ lines, l.IsProper) ∧ (∀ l ∈ written, l.isDirective = false) ∧
      Line.isBalanced written = true ∧
      ∃ b forest d', Brackets.read (Statement.ofLines .default lines) = some b ∧
        b.keepsMargins = true ∧ b.attached false = true ∧
        (Draft.empty .default).readBody lines = .ok (forest, d') ∧ FreeOfBraces d'.diagnostics ∧
        ∃ o, b.Scoped [] { draft := .empty .default } o ∧ o.enclosing = [] ∧
          forest = o.scope.forest := by
  intro lines written
  have hp : ∀ l ∈ lines, l.IsProper := fun _ h => Line.isProper_of_mem_ofSource h
  have hd : ∀ l ∈ written, l.isDirective = false := by
    have hall : written.all (fun l => !l.isDirective) = true := by decide +kernel
    exact fun l hl => by simpa using List.all_eq_true.mp hall l hl
  have hb : Line.isBalanced written = true := by decide +kernel
  obtain ⟨b, forest, d', found, hread, ok, hfound, hfree, hscoped⟩ :=
    readBody_balanced (.empty .default) hp hd hb
  have hread' : Brackets.read (Statement.ofLines .default lines) = some b := hread
  have hplaced : (Brackets.read (Statement.ofLines .default lines)).map
      (fun b => (b.keepsMargins, b.attached false)) = some (true, true) := by decide +kernel
  rw [hread'] at hplaced
  obtain ⟨hm, ha⟩ := Prod.mk.inj (Option.some.inj hplaced)
  obtain ⟨o, hs, he, hforest, _⟩ := hscoped hm ha
  obtain rfl : d'.diagnostics = found := hfound
  exact ⟨hp, hd, hb, b, forest, d', hread', hm, ha, ok, hfree.mpr ⟨hm, ha⟩, o, hs, he, hforest⟩

/-- The diagnostics of a body alone. -/
def Draft.bodyDiagnostics (d : Draft) (source : String) : Except Fault (List Diagnostic) := do
  let (_, d') ← d.readBody (Line.ofSource d.config.tabWidth source.toList)
  return d'.diagnostics

/-- **Balance is not enough.** A lone `{` before any element opens nothing, so its `}` is stray, or
    ends the block around it, whose own `}` is stray then. And a directive that comes out of a line
    with a block on it takes in the `}` of that block. -/
theorem balanced_braces_reported :
    let d := Draft.empty .default
    let written := fun source : String =>
      (Line.ofSource 2 source.toList).flatMap (Statement.writeOut .default)
    let margins := fun source : String =>
      (Brackets.read ((written source).filterMap Statement.ofLine?)).map Brackets.keepsMargins
    (Line.isBalanced (written "\x7b\n\x7d") = true ∧ margins "\x7b\n\x7d" = some true ∧
      d.bodyDiagnostics "\x7b\n\x7d" = .ok [⟨.strayBrace, some 2⟩]) ∧
    (Line.isBalanced (written "c \x7b\n\x7b\n\x7d\np\n\x7d") = true ∧
      margins "c \x7b\n\x7b\n\x7d\np\n\x7d" = some true ∧
      d.bodyDiagnostics "c \x7b\n\x7b\n\x7d\np\n\x7d" = .ok [⟨.strayBrace, some 5⟩]) ∧
    ((Line.ofSource 2 "c \x7b @mobile\n    \x7d".toList).all (fun l => !l.isDirective) = true ∧
      Line.isBalanced (written "c \x7b @mobile\n    \x7d") = true ∧
      d.bodyDiagnostics "c \x7b @mobile\n    \x7d" =
        .ok [⟨.orphanDirective "@mobile", some 1⟩, ⟨.unclosedBlock, some 1⟩]) := by
  decide +kernel

end OutlineMarkup
