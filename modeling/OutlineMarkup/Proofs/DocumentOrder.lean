/-
  File:      OutlineMarkup/Proofs/DocumentOrder.lean
  Subject:   The forest of a body holds its element lines, each once and in order.

  `elementLines` is the flat scan of the lines: it skips what is no element, and the whole extent of
  every directive. On the other side stands the state of an outline, whose labels are read from the
  outermost scope to the one in progress (`Outline.labels`). Closing a scope hands its labels to the
  scope around it, which keeps their order as long as that scope has an element to give them to
  (`Outline.Owned`). So a step adds the element of its statement at the end and nothing else
  (`step_labels`), and so does a run (`run_labels`).

  Elements are compared up to classes (`Element.bare`), which directives can add later.
-/
import Mathlib.Data.List.Forall2
import OutlineMarkup.Proofs.Descent
import OutlineMarkup.Proofs.Outline

namespace OutlineMarkup

/-! ## 1. The flat scan -/

/-- The element lines, each with the lines after it; the counter says how many lines still belong to
    the directive just passed. -/
def elementLines : Nat → List Line → List (Line × List Line)
  | _, [] => []
  | k + 1, _ :: ls => elementLines k ls
  | 0, l :: ls =>
    if l.isDirective then elementLines (Directive.extent l ls) ls
    else if l.isElement then (l, ls) :: elementLines 0 ls
    else elementLines 0 ls

theorem elementLines_drop (k : Nat) (ls : List Line) :
    elementLines k ls = elementLines 0 (ls.drop k) := by
  induction ls generalizing k with
  | nil => rw [List.drop_nil, elementLines, elementLines]
  | cons l ls ih =>
    cases k with
    | zero => rfl
    | succ k => exact ih k

section Scan

variable {l : Line} (ls : List Line)

theorem elementLines_skippable (h : l.isSkippable = true) :
    elementLines 0 (l :: ls) = elementLines 0 ls := by
  have he : l.isElement = false := by rw [Line.isElement, h]; rfl
  rw [elementLines, Line.isDirective_of_skippable h, he]
  rfl

theorem elementLines_brace (h : l.isBrace = true) :
    elementLines 0 (l :: ls) = elementLines 0 ls := by
  have he : l.isElement = false := by rw [Line.isElement, h, Bool.not_true, Bool.and_false]
  rw [elementLines, Line.isDirective_of_brace h, he]
  rfl

theorem elementLines_directive (h : l.isDirective = true) :
    elementLines 0 (l :: ls) = elementLines 0 (ls.drop (Directive.extent l ls)) := by
  rw [elementLines, h, if_pos rfl, elementLines_drop]

theorem elementLines_element (h : l.isElement = true) :
    elementLines 0 (l :: ls) = (l, ls) :: elementLines 0 ls := by
  rw [elementLines, (Line.isElement_iff.mp h).2.1, h]
  rfl

end Scan

namespace Line

/-- Whether the first of the lines ahead is a child of a line: not if it closes a block or is a
    directive, else if a block is open or it lies deeper. -/
def childAhead (l : Line) (opened : Bool) : List Line → Bool
  | [] => false
  | child :: _ =>
    if child.text = Token.closing ∨ child.isDirective then false
    else opened || decide (l.indent < child.indent)

/-- Whether an element line has children, as far as the next two lines with content show. -/
def childrenAhead (l : Line) (opens : Bool) (ahead : List Line) : Bool :=
  if !opens && ahead.head?.any (fun a => a.text == Token.opening) then l.childAhead true ahead.tail
  else l.childAhead opens ahead

/-- The element that a line describes, given the lines after it. -/
def describe (d : Draft) (l : Line) (following : List Line) : Except Fault Element := do
  let (code, words, opens) ← l.elementWords
  let hasChildren := l.childrenAhead opens ((Cursor.ofLines following).upcoming 2)
  return (ElementPlan.read d l code words hasChildren).value.element

theorem childAhead_take (l : Line) (opened : Bool) (ls : List Line) (n : Nat) :
    l.childAhead opened (ls.take (n + 1)) = l.childAhead opened ls := by
  cases ls with
  | nil => rfl
  | cons a as => rfl

theorem childrenAhead_take (l : Line) (opens : Bool) (ls : List Line) :
    l.childrenAhead opens (ls.take 2) = l.childrenAhead opens ls := by
  unfold childrenAhead
  cases ls with
  | nil => rfl
  | cons a as =>
    rw [List.take_succ_cons, List.head?_cons, List.head?_cons, List.tail_cons, List.tail_cons,
      childAhead_take]
    rfl

end Line

namespace Statement

/-- The children that the statements show are those that the lines show. -/
theorem startsChild_ofLines (config : Config) (l : Line) (opened : Bool) {ls : List Line}
    (hp : ∀ l ∈ ls, l.IsProper) :
    startsChild l opened (ofLinesFrom config 0 ls) =
      l.childAhead opened (ls.filter fun a => !a.isSkippable) := by
  induction ls with
  | nil => rfl
  | cons a as ih =>
    have ha : a.IsProper := hp a List.mem_cons_self
    rcases Line.kinds ha with hs | ht | ⟨⟨hs, ht⟩, hk⟩
    · rw [ofLinesFrom_skippable config as hs, ih fun l h => hp l (List.mem_cons_of_mem _ h),
        List.filter_cons_of_neg (by rw [hs]; decide)]
    · have hs : a.isSkippable = false := Line.isSkippable_of_brace (Line.isBrace_iff.mpr (.inr ht))
      rw [ofLinesFrom_closing config as ht, List.filter_cons_of_pos (by rw [hs]; decide)]
      exact (if_pos (.inl ht)).symm
    · rw [List.filter_cons_of_pos (by rw [hs]; decide)]
      rcases hk with hd | ho | ⟨he, code, words, opens, hw⟩
      · rw [ofLinesFrom_directive config as hd]
        exact (if_pos (.inr hd)).symm
      · have hd : a.isDirective = false :=
          Line.isDirective_of_brace (Line.isBrace_iff.mpr (.inl ho))
        rw [ofLinesFrom_opening config as ho]
        exact (if_neg (by rw [hd]; simpa using ht)).symm
      · have hd : a.isDirective = false := (Line.isElement_iff.mp he).2.1
        rw [ofLinesFrom_element config as ha he hw]
        exact (if_neg (by rw [hd]; simpa using ht)).symm

/-- Without a `{` ahead, the first line decides. -/
theorem hasChildren_direct {l a : Line} {opens : Bool} {ss : List Statement} {as : List Line}
    (ha : a.text ≠ Token.opening) (hss : ∀ b ss', ss ≠ .openBrace b :: ss')
    (h : startsChild l opens ss = l.childAhead opens (a :: as)) :
    hasChildren l opens ss = l.childrenAhead opens (a :: as) := by
  have hb : (a.text == Token.opening) = false := beq_false_of_ne ha
  rw [Line.childrenAhead, List.head?_cons, Option.any_some, hb, Bool.and_false,
    if_neg Bool.false_ne_true, ← h]
  unfold hasChildren
  split
  · exact absurd rfl (hss _ _)
  · rfl

/-- The same for the look-ahead over two lines, which passes over a `{` after a line without one. -/
theorem hasChildren_ofLines (config : Config) (l : Line) (opens : Bool) {ls : List Line}
    (hp : ∀ l ∈ ls, l.IsProper) :
    hasChildren l opens (ofLinesFrom config 0 ls) =
      l.childrenAhead opens ((Cursor.ofLines ls).upcoming 2) := by
  show _ = l.childrenAhead opens ((ls.filter fun a => !a.isSkippable).take 2)
  rw [Line.childrenAhead_take]
  induction ls with
  | nil => cases opens <;> rfl
  | cons a as ih =>
    have ha : a.IsProper := hp a List.mem_cons_self
    have has : ∀ l ∈ as, l.IsProper := fun l h => hp l (List.mem_cons_of_mem _ h)
    have hstart := startsChild_ofLines config l opens hp
    rcases Line.kinds ha with hs | ht | ⟨⟨hs, ht⟩, hk⟩
    · rw [ofLinesFrom_skippable config as hs, ih has,
        List.filter_cons_of_neg (by rw [hs]; decide)]
    · have hs : a.isSkippable = false := Line.isSkippable_of_brace (Line.isBrace_iff.mpr (.inr ht))
      rw [List.filter_cons_of_pos (by rw [hs]; decide)] at hstart ⊢
      refine hasChildren_direct (by rw [ht]; decide) ?_ hstart
      rw [ofLinesFrom_closing config as ht]
      exact fun b ss' e => by cases e
    · rw [List.filter_cons_of_pos (by rw [hs]; decide)] at hstart ⊢
      rcases hk with hd | ho | ⟨he, code, words, opens', hw⟩
      · refine hasChildren_direct (fun e => ?_) ?_ hstart
        · rw [Line.isDirective_of_brace (Line.isBrace_iff.mpr (.inl e))] at hd
          cases hd
        · rw [ofLinesFrom_directive config as hd]
          exact fun b ss' e => by cases e
      · rw [ofLinesFrom_opening config as ho] at hstart ⊢
        have hb : (a.text == Token.opening) = true := beq_iff_eq.mpr ho
        cases opens with
        | true => exact hstart
        | false =>
          rw [Line.childrenAhead, List.head?_cons, Option.any_some, hb, Bool.and_true,
            if_pos (Bool.not_false), List.tail_cons]
          exact startsChild_ofLines config l true has
      · refine hasChildren_direct (fun e => ?_) ?_ hstart
        · have hb := (Line.isElement_iff.mp he).2.2
          rw [Line.isBrace_iff.mpr (.inl e)] at hb
          cases hb
        · rw [ofLinesFrom_element config as ha he hw]
          exact fun b ss' e => by cases e

end Statement

/-! ## 2. The labels of an outline in progress -/

namespace Scope

/-- The elements of a scope in document order. -/
def labels (s : Scope) : List Element := s.entries.reverse.flatMap Tree.labels

theorem labels_forest (s : Scope) : s.forest.labels = s.labels :=
  Forest.labels_nest Element.depth s.entries.reverse

theorem labels_push (s : Scope) (e : Element) : (s.push e).labels = s.labels ++ [e] := by
  simp [labels, push, Tree.labels, Forest.labels]

theorem labels_adopt {s : Scope} (h : s.entries ≠ []) (f : Forest Element) :
    (s.adopt f).labels = s.labels ++ f.labels := by
  obtain ⟨latest, earlier, e⟩ := List.exists_cons_of_ne_nil h
  simp [labels, adopt, e, Tree.addChildren, Tree.labels]

theorem labels_bare (s : Scope) : s.bare.labels = s.labels.map Element.bare := by
  have h : ∀ t : Tree Element, (t.map Element.bare).labels = t.labels.map Element.bare := by
    intro t
    simp only [Tree.map, Tree.labels, Forest.labels_map, List.map_cons]
  simp only [labels, bare, ← List.map_reverse, List.flatMap_map, List.map_flatMap, h]

end Scope

namespace Outline

/-- The elements so far in document order: the scopes around hold what came before. -/
def labels (o : Outline) : List Element :=
  o.enclosing.reverse.flatMap Scope.labels ++ o.scope.labels

/-- Every open block has an element to which it belongs. -/
def Owned (o : Outline) : Prop := ∀ s ∈ o.enclosing, s.entries ≠ []

theorem labels_adopt (d d' : Draft) (s : Scope) {outer : Scope} (rest : List Scope)
    (h : outer.entries ≠ []) :
    (⟨d', outer.adopt s.forest, rest⟩ : Outline).labels =
      (⟨d, s, outer :: rest⟩ : Outline).labels := by
  simp [labels, Scope.labels_adopt h, Scope.labels_forest]

theorem closeDedented_labels (indent : Int) (d : Draft) (s : Scope) {enclosing : List Scope}
    (h : ∀ s ∈ enclosing, s.entries ≠ []) :
    (closeDedented indent d s enclosing).Owned ∧
      (closeDedented indent d s enclosing).labels = (⟨d, s, enclosing⟩ : Outline).labels := by
  induction enclosing generalizing d s with
  | nil => exact ⟨h, rfl⟩
  | cons outer rest ih =>
    unfold closeDedented
    split
    · obtain ⟨hw, hl⟩ := ih (d.report .dedentedBlock s.openedAt) (outer.adopt s.forest)
        fun s hs => h s (List.mem_cons_of_mem _ hs)
      exact ⟨hw, hl.trans (labels_adopt d _ s rest (h outer List.mem_cons_self))⟩
    · exact ⟨h, rfl⟩

theorem settle_labels {o : Outline} (h : o.Owned) (indent : Int) :
    (o.settle indent).Owned ∧ (o.settle indent).labels = o.labels :=
  closeDedented_labels indent o.draft o.scope h

theorem close_labels {o : Outline} (h : o.Owned) (line : Line) :
    (o.close line).Owned ∧ (o.close line).labels = o.labels := by
  obtain ⟨d, s, enclosing⟩ := o
  cases enclosing with
  | nil => exact ⟨h, rfl⟩
  | cons outer rest =>
    exact ⟨fun s hs => h s (List.mem_cons_of_mem _ hs),
      labels_adopt d d s rest (h outer List.mem_cons_self)⟩

theorem enter_labels {o : Outline} (h : o.Owned) (hs : o.scope.entries ≠ []) (n : Int) :
    (o.enter n).Owned ∧ (o.enter n).labels = o.labels := by
  constructor
  · intro s hmem
    rcases List.mem_cons.mp hmem with rfl | hmem
    · exact hs
    · exact h s hmem
  · simp [labels, enter, Scope.labels]

theorem openBlock_labels {o : Outline} (h : o.Owned) (line : Line) :
    (o.openBlock line).Owned ∧ (o.openBlock line).labels = o.labels := by
  unfold openBlock
  split
  · exact ⟨h, rfl⟩
  · rename_i hne
    exact enter_labels h (fun e => hne (by rw [e]; rfl)) line.number

theorem finishFrom_labels (d : Draft) (s : Scope) {enclosing : List Scope}
    (h : ∀ s ∈ enclosing, s.entries ≠ []) :
    (finishFrom d s enclosing).1.labels = (⟨d, s, enclosing⟩ : Outline).labels := by
  induction enclosing generalizing d s with
  | nil => exact s.labels_forest
  | cons outer rest ih =>
    rw [finishFrom, ih _ _ fun s hs => h s (List.mem_cons_of_mem _ hs)]
    exact labels_adopt d _ s rest (h outer List.mem_cons_self)

end Outline

/-! ## 3. What statements add -/

namespace Statement

/-- The element of a statement up to classes, given the statements after it; none if it is a brace
    or a directive. -/
def ownElement (d : Draft) (following : List Statement) : Statement → List Element
  | .element line code words opens =>
    [(ElementPlan.read d line code words (hasChildren line opens following)).value.element.bare]
  | .openBrace _ => []
  | .closeBrace _ => []
  | .directive _ _ => []

/-- The elements of statements up to classes, in order. -/
def elements (d : Draft) : List Statement → List Element
  | [] => []
  | s :: following => s.ownElement d following ++ elements d following

theorem ownElement_config {d d' : Draft} (h : d.config = d'.config) (following : List Statement)
    (s : Statement) : s.ownElement d following = s.ownElement d' following := by
  cases s with
  | element line code words opens =>
    exact congrArg (fun e => [e]) (ElementPlan.read_bare h line code words _)
  | openBrace line => rfl
  | closeBrace line => rfl
  | directive line block => rfl

end Statement

namespace Outline

/-- **A step adds the element of its statement at the end, and nothing else.** -/
theorem step_labels {o o' : Outline} {s : Statement} {following : List Statement} (h : o.Owned)
    (ok : o.step s following = .ok o') :
    o'.Owned ∧ o'.labels.map Element.bare =
      o.labels.map Element.bare ++ s.ownElement o.draft following := by
  cases s with
  | element line code words opens =>
    obtain ⟨hw, hl⟩ := settle_labels h line.indent
    obtain ⟨e, d', ok', he, _⟩ := o.step_element line code words opens following
    rw [ok'] at ok
    have hpush : ((⟨d', (o.settle line.indent).scope.push e, (o.settle line.indent).enclosing⟩ :
        Outline).labels).map Element.bare = o.labels.map Element.bare ++ [e.bare] := by
      rw [← hl]
      simp [labels, Scope.labels_push]
    rw [Statement.ownElement, ← he]
    cases opens with
    | true =>
      cases ok
      obtain ⟨hw', hl'⟩ := enter_labels
        (o := ⟨d', (o.settle line.indent).scope.push e, (o.settle line.indent).enclosing⟩) hw
        (List.cons_ne_nil _ _) line.number
      exact ⟨hw', (congrArg (List.map Element.bare) hl').trans hpush⟩
    | false =>
      cases ok
      exact ⟨hw, hpush⟩
  | openBrace line =>
    cases ok
    obtain ⟨hw, hl⟩ := settle_labels h line.indent
    obtain ⟨hw', hl'⟩ := openBlock_labels hw line
    exact ⟨hw', by rw [hl', hl, Statement.ownElement, List.append_nil]⟩
  | closeBrace line =>
    cases ok
    obtain ⟨hw, hl⟩ := close_labels h line
    exact ⟨hw, by rw [hl, Statement.ownElement, List.append_nil]⟩
  | directive line block =>
    obtain ⟨hw, hl⟩ := settle_labels h line.indent
    obtain ⟨s', d', ok', hs, _⟩ := o.step_directive line block following
    rw [ok'] at ok
    cases ok
    refine ⟨hw, ?_⟩
    have hbare : s'.labels.map Element.bare =
        (o.settle line.indent).scope.labels.map Element.bare := by
      rw [← Scope.labels_bare, hs, Scope.labels_bare]
    rw [Statement.ownElement, List.append_nil, ← hl, labels, List.map_append, hbare,
      ← List.map_append]
    rfl

/-- **A run adds the elements of its statements at the end, in order, and nothing else.** -/
theorem run_labels {o o' : Outline} {ss : List Statement} (h : o.Owned) (ok : o.run ss = .ok o') :
    o'.Owned ∧
      o'.labels.map Element.bare = o.labels.map Element.bare ++ Statement.elements o.draft ss := by
  -- the draft changes along the run, but not its settings, and they are all that elements depend on
  suffices H : ∀ d : Draft, d.config = o.draft.config → o'.Owned ∧
      o'.labels.map Element.bare = o.labels.map Element.bare ++ Statement.elements d ss from
    H o.draft rfl
  induction ss generalizing o with
  | nil =>
    intro d _
    cases ok
    exact ⟨h, (List.append_nil _).symm⟩
  | cons s following ih =>
    intro d hd
    obtain ⟨o₁, ok₁, hc⟩ := o.step_ok s following
    obtain ⟨hw₁, hl₁⟩ := step_labels h ok₁
    rw [run_cons ok₁] at ok
    obtain ⟨hw, hl⟩ := ih hw₁ ok d (hd.trans hc.symm)
    refine ⟨hw, ?_⟩
    rw [hl, hl₁, List.append_assoc, Statement.elements, Statement.ownElement_config hd]

end Outline

/-! ## 4. Element lines and elements -/

/-- The plan of an element line, given the lines after it. -/
def Line.plan (d : Draft) (l : Line) (following : List Line) : Except Fault ElementPlan := do
  let (code, words, opens) ← l.elementWords
  let hasChildren := l.childrenAhead opens ((Cursor.ofLines following).upcoming 2)
  return (ElementPlan.read d l code words hasChildren).value

theorem Line.describe_eq_plan (d : Draft) (l : Line) (following : List Line) :
    l.describe d following = (l.plan d following).map ElementPlan.element := by
  unfold describe plan
  cases l.elementWords <;> rfl

namespace Statement

/-- The plan of a statement, given the statements after it; it depends on the draft that reads it.
    None if the statement is a brace or a directive. -/
def ownPlan (following : List Statement) : Statement → List (Draft → ElementPlan)
  | .element line code words opens =>
    [fun d => (ElementPlan.read d line code words (hasChildren line opens following)).value]
  | .openBrace _ => []
  | .closeBrace _ => []
  | .directive _ _ => []

/-- The plans of statements, in order. -/
def plans : List Statement → List (Draft → ElementPlan)
  | [] => []
  | s :: following => s.ownPlan following ++ plans following

theorem elements_eq_plans (d : Draft) (ss : List Statement) :
    elements d ss = (plans ss).map fun plan => (plan d).element.bare := by
  induction ss with
  | nil => rfl
  | cons s following ih =>
    rw [elements, plans, List.map_append, ih]
    cases s <;> rfl

end Statement

/-- The statements of lines have the plans of the element lines. -/
theorem plans_ofLines (config : Config) (k : Nat) {ls : List Line} (hp : ∀ l ∈ ls, l.IsProper) :
    List.Forall₂ (fun plan x => ∀ d, x.1.plan d x.2 = .ok (plan d))
      (Statement.plans (Statement.ofLinesFrom config k ls)) (elementLines k ls) := by
  induction ls generalizing k with
  | nil =>
    rw [Statement.ofLinesFrom, elementLines]
    exact .nil
  | cons l ls ih =>
    have hls : ∀ l ∈ ls, l.IsProper := fun l h => hp l (List.mem_cons_of_mem _ h)
    cases k with
    | succ k => exact ih k hls
    | zero =>
      have hl : l.IsProper := hp l List.mem_cons_self
      rcases Line.kinds hl with hs | ht | ⟨_, hd | ht | ⟨he, code, words, opens, hw⟩⟩
      · rw [Statement.ofLinesFrom_skippable config ls hs, elementLines_skippable ls hs]
        exact ih 0 hls
      · rw [Statement.ofLinesFrom_closing config ls ht,
          elementLines_brace ls (Line.isBrace_iff.mpr (.inr ht))]
        exact ih 0 hls
      · rw [Statement.ofLinesFrom, elementLines, hd, if_pos rfl, if_pos rfl]
        exact ih _ hls
      · rw [Statement.ofLinesFrom_opening config ls ht,
          elementLines_brace ls (Line.isBrace_iff.mpr (.inl ht))]
        exact ih 0 hls
      · rw [Statement.ofLinesFrom_element config ls hl he hw, elementLines_element ls he]
        refine .cons (fun d => ?_) (ih 0 hls)
        rw [Line.plan, hw, Statement.hasChildren_ofLines config l opens hls]
        rfl

/-- The statements of lines have the elements that the element lines describe. -/
theorem elements_ofLines (d : Draft) (k : Nat) {ls : List Line} (hp : ∀ l ∈ ls, l.IsProper) :
    (Statement.elements d (Statement.ofLinesFrom d.config k ls)).map
        (Except.ok : Element → Except Fault Element) =
      (elementLines k ls).map fun x => (x.1.describe d x.2).map Element.bare := by
  rw [Statement.elements_eq_plans, List.map_map, ← List.forall₂_eq_eq_eq, List.forall₂_map_left_iff,
    List.forall₂_map_right_iff]
  refine (plans_ofLines d.config k hp).imp fun plan x h => ?_
  rw [Line.describe_eq_plan, h d]
  rfl

/-- The element lines that the reading of a scope meets, in order. -/
def Body.lines {e : Bool} : Body e → List Line
  | .nil => []
  | .element line _ rest => line :: rest.lines
  | .block inner rest => inner.lines ++ rest.lines

/-- Reading a scope by descent meets the lines of the flat scan, up to where it ends. -/
theorem Reads.lines_eq {config : Config} {e : Bool} {p : Place e} {c c' : Cursor} {b : Body e}
    (h : Reads config p c b c') :
    (elementLines 0 c.ahead).map Prod.fst =
      b.lines ++ (elementLines 0 c'.ahead).map Prod.fst := by
  induction h with
  | finish _ => rfl
  | skip hn hs _ ih => rw [Cursor.ahead_of_next hn, elementLines_skippable _ hs, ih]
  | close hn ht _ =>
    rw [Cursor.ahead_of_next hn, elementLines_brace _ (Line.isBrace_iff.mpr (.inr ht))]
    rfl
  | stray hn ht _ _ ih =>
    rw [Cursor.ahead_of_next hn, elementLines_brace _ (Line.isBrace_iff.mpr (.inr ht)), ih]
  | dedent _ _ _ _ => rfl
  | directive hn hd _ hc _ ih =>
    obtain ⟨ls, e⟩ := Cursor.peek?_eq_some hn
    rw [e, elementLines_directive _ hd, ← (Directive.collectAt_eq_ok e hc).1, ih]
  | ignored hn ht _ _ ih =>
    rw [Cursor.ahead_of_next hn, elementLines_brace _ (Line.isBrace_iff.mpr (.inl ht)), ih]
  | block hn ht _ _ _ ihb ih =>
    rw [Cursor.ahead_of_next hn, elementLines_brace _ (Line.isBrace_iff.mpr (.inl ht)), ihb, ih,
      Body.lines, List.append_assoc]
  | element hn he _ _ _ _ ih =>
    rw [Cursor.ahead_of_next hn, elementLines_element _ he, List.map_cons, ih]
    rfl
  | opening hn he _ _ _ _ _ ihb ih =>
    rw [Cursor.ahead_of_next hn, elementLines_element _ he, List.map_cons, ihb, ih, Body.lines,
      Body.lines, List.cons_append, List.append_assoc]

/-- **No element is lost, duplicated or reordered.** Reading the lines of a body by descent consumes
    every line and meets the lines of the flat scan. The forest of the body has, in document order,
    one element for each of these lines: up to classes, the one that the line describes. -/
theorem readBody_document_order (d : Draft) {lines : List Line} (hp : ∀ l ∈ lines, l.IsProper) :
    let written := lines.flatMap (Statement.writeOut d.config)
    ∃ f d' b, d.readBody lines = .ok (f, d') ∧
      Reads d.config .document (.ofLines written) b ⟨written.length, []⟩ ∧
      b.lines = (elementLines 0 written).map Prod.fst ∧
      f.labels.map (fun e => (.ok e.bare : Except Fault Element)) =
        (elementLines 0 written).map fun x => (x.1.describe d x.2).map Element.bare := by
  intro written
  have hw : ∀ l ∈ written, l.IsProper := Statement.isProper_of_mem_flatMap hp
  obtain ⟨b, hb⟩ := exists_reads_document d.config hw
  obtain ⟨o, ok, _⟩ := Outline.run_ok { draft := d } (Statement.ofLines d.config lines)
  obtain ⟨howned, hlabels⟩ := Outline.run_labels (fun s hs => by cases hs) ok
  refine ⟨o.finish.1, o.finish.2, b, ?_, hb, ?_, ?_⟩
  · rw [Draft.readBody, ok]
    rfl
  · have h := hb.lines_eq
    rw [elementLines, List.map_nil, List.append_nil] at h
    exact h.symm
  · rw [← elements_ofLines d 0 hw]
    have h : o.finish.1.labels.map Element.bare =
        Statement.elements d (Statement.ofLinesFrom d.config 0 written) := by
      rw [Outline.finish, Outline.finishFrom_labels _ _ howned]
      exact hlabels
    rw [← h, List.map_map]
    rfl

/-- A block, a directive inside it, a line left of the block and a stray brace: the reading meets
    the lines of these numbers, and these are the tags and the texts of what they describe. -/
theorem readBody_document_order_mixed :
    let lines := Line.ofSource 2
      "main \x7b\n  h1 t=a\n  @mobile\n    pad=8\n  ul \x7b li \x7d\nfooter\n\x7d\np t=b".toList
    let written := lines.flatMap (Statement.writeOut .default)
    let present := fun e : Element => (String.ofList e.tag, e.text.map String.ofList)
    (∀ l ∈ lines, l.IsProper) ∧
    ∃ f d' b, (Draft.empty .default).readBody lines = .ok (f, d') ∧
      Reads .default .document (.ofLines written) b ⟨10, []⟩ ∧
      b.lines.map Line.number = [1, 2, 5, 5, 6, 8] ∧
      f.labels.map present = [("main", none), ("h1", some "a"), ("ul", none), ("li", none),
        ("div", none), ("p", some "b")] ∧
      f.labels.map (fun e => (.ok e.bare : Except Fault Element)) =
        (elementLines 0 written).map fun x =>
          (x.1.describe (.empty .default) x.2).map Element.bare := by
  intro lines written present
  have hp : ∀ l ∈ lines, l.IsProper := fun _ h => Line.isProper_of_mem_ofSource h
  obtain ⟨f, d', b, ok, hreads, hlines, hlabels⟩ := readBody_document_order (.empty .default) hp
  have hlength : written.length = 10 := by decide +kernel
  have hnumbers : (elementLines 0 written).map (fun x => x.1.number) = [1, 2, 5, 5, 6, 8] := by
    decide +kernel
  have hpresented : ((Draft.empty .default).readBody lines).map (fun r => r.1.labels.map present) =
      .ok [("main", none), ("h1", some "a"), ("ul", none), ("li", none), ("div", none),
        ("p", some "b")] := by
    decide +kernel
  rw [ok] at hpresented
  refine ⟨hp, f, d', b, ok, hlength ▸ hreads, ?_, Except.ok.inj hpresented, hlabels⟩
  rw [hlines, List.map_map]
  exact hnumbers

end OutlineMarkup
