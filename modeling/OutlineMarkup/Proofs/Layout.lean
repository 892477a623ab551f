/-
  File:      OutlineMarkup/Proofs/Layout.lean
  Subject:   Indentation and braces can be mixed freely.

  A forest of element texts is printed in a layout, which says for every node whether braces stand
  around its children (`printed`). What the printed lines come to does not depend on the layout:
  `grow` builds the same forest and the same draft from the texts alone.

  Inside a scope the elements of a printed forest stand in a row, with their children where braces
  gave them some, and nesting the row gives the forest back (`Spells`). `AddsRow.printed`:
  adding the printed lines to a scope adds such a row, by induction on the forest; the lines after
  it must not look like more children (`Ends`).
-/
import OutlineMarkup.Proofs.Diagnostics
import OutlineMarkup.Proofs.Outline
import OutlineMarkup.Proofs.Line

namespace OutlineMarkup

open Text

/-! ## 1. Element texts and their lines -/

/-- A brace after a blank makes no comment. -/
theorem Line.isComment_append_blank {t : Text} (hne : t ≠ []) {n i n' i' : Int}
    (h : (⟨n, i, t⟩ : Line).isComment = false) (rest : Text) :
    (⟨n', i', t ++ ' ' :: rest⟩ : Line).isComment = false := by
  match t, hne with
  | [c], _ =>
    have hc : c ≠ '#' := by
      rintro rfl
      cases h
    simp only [Line.isComment, List.cons_append, List.nil_append]
    split <;> simp_all
  | c :: c' :: cs, _ =>
    simp only [Line.isComment, List.cons_append] at h ⊢
    split at h <;> simp_all

/-- The text of an element line without a brace. -/
structure ElementText where
  text : Text
  trimmed : strip text = text
  ne_nil : text ≠ []
  not_comment : (⟨0, 0, text⟩ : Line).isComment = false
  not_directive : text.head? ≠ some '@'
  quotes_even : List.count '"' text % 2 = 0
  no_brace : ∀ t ∈ Token.tokenize text, Token.isBrace t = false

namespace ElementText

/-- The code of an element: the first token. -/
def code (x : ElementText) : Text := (Token.tokenize x.text).headD []

/-- The words of an element: the tokens after the first. -/
def words (x : ElementText) : List Text := (Token.tokenize x.text).tail

/-- The line of an element with the given number and indentation; a `{` at its end opens a block. -/
def line (x : ElementText) (opens : Bool) (number indent : Int) : Line :=
  ⟨number, indent, if opens then x.text ++ ' ' :: Token.opening else x.text⟩

variable (x : ElementText) (opens : Bool) (number indent : Int)

theorem tokenize_text : Token.tokenize x.text = x.code :: x.words := by
  have hne : Token.tokenize x.text ≠ [] :=
    Token.tokenize_ne_nil (strip_eq_self_iff.mp x.trimmed) x.ne_nil
  obtain ⟨t, ts, e⟩ := List.exists_cons_of_ne_nil hne
  rw [code, words, e]
  rfl

theorem tokenize_line : Token.tokenize (x.line opens number indent).text =
    x.code :: (x.words ++ if opens then [Token.opening] else []) := by
  cases opens with
  | false => exact x.tokenize_text.trans (congrArg (x.code :: ·) (List.append_nil _).symm)
  | true =>
    have hblank : isBlank ' ' = true := by decide
    have hopen : Token.tokenize Token.opening = [Token.opening] := by decide
    show Token.tokenize (x.text ++ ' ' :: Token.opening) = _
    rw [Token.tokenize_append_blank hblank _ (Token.quotedAfter_of_even x.quotes_even), hopen,
      x.tokenize_text]
    rfl

theorem head_line :
    ∃ c cs cs', x.text = c :: cs ∧ (x.line opens number indent).text = c :: cs' := by
  obtain ⟨c, cs, e⟩ := List.exists_cons_of_ne_nil x.ne_nil
  cases opens with
  | false => exact ⟨c, cs, cs, e, e⟩
  | true =>
    refine ⟨c, cs, cs ++ ' ' :: Token.opening, e, ?_⟩
    show x.text ++ ' ' :: Token.opening = _
    rw [e]
    rfl

theorem isProper_line (hi : 0 ≤ indent) : (x.line opens number indent).IsProper where
  trimmed := by
    have ht : IsTrimmed x.text := strip_eq_self_iff.mp x.trimmed
    obtain ⟨c, cs, cs', e, e'⟩ := x.head_line opens number indent
    refine strip_eq_self_iff.mpr ⟨fun a ha => ?_, fun a ha => ?_⟩
    · rw [e'] at ha
      refine ht.head a ?_
      rw [e]
      exact ha
    · cases opens with
      | false => exact ht.last a ha
      | true =>
        have hlast : (x.text ++ ' ' :: Token.opening).getLast? = some '\x7b' := by
          rw [List.getLast?_append]
          rfl
        change (x.text ++ ' ' :: Token.opening).getLast? = some a at ha
        rw [hlast] at ha
        cases ha
        decide
  indent_nonneg := hi

theorem isElement_line : (x.line opens number indent).isElement = true := by
  obtain ⟨c, cs, cs', e, e'⟩ := x.head_line opens number indent
  refine Line.isElement_iff.mpr ⟨?_, ?_, ?_⟩
  · have hblank : (x.line opens number indent).isBlank = false := by
      rw [Line.isBlank, e']
      rfl
    rw [Line.isSkippable, hblank, Bool.false_or]
    cases opens with
    | false => exact x.not_comment
    | true => exact Line.isComment_append_blank x.ne_nil x.not_comment Token.opening
  · have h : c ≠ '@' := by
      rintro rfl
      exact x.not_directive (by rw [e]; rfl)
    rw [Line.isDirective, e', List.head?_cons, beq_eq_false_iff_ne]
    exact fun hc => h (Option.some.inj hc)
  · -- a lone brace would be the first token
    rw [Bool.eq_false_iff, ne_eq, Line.isBrace_iff]
    have hcode : ¬ Token.isBrace x.code = true := by
      rw [x.no_brace x.code (by rw [x.tokenize_text]; exact List.mem_cons_self)]
      exact Bool.false_ne_true
    have htok := x.tokenize_line opens number indent
    rintro (h | h)
    · rw [h, show Token.tokenize Token.opening = [Token.opening] by decide] at htok
      exact hcode ((List.cons.inj htok).1 ▸ rfl)
    · rw [h, show Token.tokenize Token.closing = [Token.closing] by decide] at htok
      exact hcode ((List.cons.inj htok).1 ▸ rfl)

/-- The last token of an element line is a `{` if it opens a block, and the tokens before it are
    those of the text. -/
theorem last_tokenize_line :
    ∃ last, (Token.tokenize (x.line opens number indent).text).getLast? = some last ∧
      (last == Token.opening) = opens ∧
      (if opens then (Token.tokenize (x.line opens number indent).text).dropLast
        else Token.tokenize (x.line opens number indent).text) = x.code :: x.words := by
  rw [x.tokenize_line opens number indent]
  cases opens with
  | true =>
    refine ⟨Token.opening, ?_, rfl, ?_⟩
    · rw [if_pos rfl, ← List.cons_append, List.getLast?_concat]
    · rw [if_pos rfl, if_pos rfl, ← List.cons_append, List.dropLast_concat]
  | false =>
    rw [if_neg Bool.false_ne_true, List.append_nil]
    have hne : x.code :: x.words ≠ [] := List.cons_ne_nil _ _
    have hlast : ((x.code :: x.words).getLast hne == Token.opening) = false := by
      have hmem : (x.code :: x.words).getLast hne ∈ Token.tokenize x.text := by
        rw [x.tokenize_text]
        exact List.getLast_mem hne
      exact (Bool.or_eq_false_iff.mp (x.no_brace _ hmem)).1
    exact ⟨(x.code :: x.words).getLast hne, List.getLast?_eq_some_getLast hne, hlast,
      if_neg Bool.false_ne_true⟩

theorem elementWords_line :
    (x.line opens number indent).elementWords = .ok (x.code, x.words, opens) := by
  obtain ⟨last, hlast, hopens, hown⟩ := x.last_tokenize_line opens number indent
  unfold Line.elementWords Line.lastOf
  dsimp only
  rw [hlast]
  simp only [bind, Except.bind, pure, Except.pure, hopens, hown]
  rfl

theorem writeOut_line (config : Config) :
    Statement.writeOut config (x.line opens number indent) = [x.line opens number indent] := by
  obtain ⟨hs, hd, _⟩ := Line.isElement_iff.mp (x.isElement_line opens number indent)
  obtain ⟨last, hlast, hopens, hown⟩ := x.last_tokenize_line opens number indent
  have hinner : (x.code :: x.words).any Token.isBrace = false := by
    rw [← x.tokenize_text, List.any_eq_false]
    intro t ht
    rw [x.no_brace t ht]
    exact Bool.false_ne_true
  have hinline :
      Line.hasInlineBlock (Token.tokenize (x.line opens number indent).text) = false := by
    unfold Line.hasInlineBlock
    rw [hlast]
    show (_ && List.any (if last == Token.opening then _ else _) Token.isBrace) = false
    rw [hopens, hown, hinner, Bool.and_false]
  rw [Statement.writeOut, hs, hd, Bool.or_false, if_neg Bool.false_ne_true, Line.expand, hinline,
    if_neg Bool.false_ne_true]

end ElementText

/-! ## 2. Printing -/

/-- The layout of one node: whether braces stand around its children, and the numbers of its line
    and of the line that closes them. -/
structure NodeLayout where
  braced : Bool
  number : Int
  closing : Int

/-- The layout of a forest: one for each node, which is found by its path from the first root, with
    `false` for a step to the first child and `true` for one to the next sibling. -/
def Layout : Type := List Bool → NodeLayout

/-- The layout of the children of the first root. -/
def Layout.children (layout : Layout) : Layout := fun path => layout (false :: path)

/-- The layout of the siblings of the first root. -/
def Layout.siblings (layout : Layout) : Layout := fun path => layout (true :: path)

namespace Forest

/-- The lines of a forest at a depth. The children of a node stand one unit deeper; if it is laid
    out with braces, the `{` ends its line and the `}` stands below them, under the node. -/
def printed (unit : Int) : Forest ElementText → Layout → Int → List Line
  | .nil, _, _ => []
  | .node x cs ss, layout, depth =>
    x.line (layout []).braced (layout []).number (depth * unit) ::
      (cs.printed unit layout.children (depth + 1) ++
        ((if (layout []).braced then [⟨(layout []).closing, depth * unit, Token.closing⟩]
            else []) ++
          ss.printed unit layout.siblings depth))

/-- The forest of elements that texts describe, and the draft with all that they contribute, in
    document order. The number of a line matters to diagnostics only, so 0 stands for it. -/
def grow : Forest ElementText → Draft → Int → Except Fault (Forest Element × Draft)
  | .nil, d, _ => .ok (.nil, d)
  | .node x cs ss, d, depth => do
    let (e, d) ← d.addElement (x.line false 0 (depth * d.config.indentUnit)) x.code x.words
      (!cs.isEmpty)
    let (children, d) ← cs.grow d (depth + 1)
    let (siblings, d) ← ss.grow d depth
    return (.node e children siblings, d)

/-- Printed lines are not written out further. -/
theorem flatMap_printed (config : Config) (unit : Int) (f : Forest ElementText) (layout : Layout)
    (depth : Int) :
    (f.printed unit layout depth).flatMap (Statement.writeOut config) =
      f.printed unit layout depth := by
  have hclose : ∀ n i : Int, Statement.writeOut config ⟨n, i, Token.closing⟩ =
      [⟨n, i, Token.closing⟩] := fun _ _ => rfl
  induction f generalizing layout depth with
  | nil => rfl
  | node x cs ss ihc ihs =>
    rw [printed, List.flatMap_cons, List.flatMap_append, List.flatMap_append, ihc, ihs,
      x.writeOut_line]
    cases (layout []).braced with
    | true => simp [hclose]
    | false => rfl

/-- Texts always grow, and the forest has their shape. -/
theorem grow_ok (f : Forest ElementText) (d : Draft) (depth : Int) :
    ∃ g d', f.grow d depth = .ok (g, d') ∧ d'.config = d.config ∧
      g.map (fun _ => ()) = f.map (fun _ => ()) := by
  induction f generalizing d depth with
  | nil => exact ⟨.nil, d, rfl, rfl, rfl⟩
  | node x cs ss ihc ihs =>
    obtain ⟨e, d₁, ok₁, _, hc₁⟩ := d.addElement_ok
      (x.line false 0 (depth * d.config.indentUnit)) x.code x.words (!cs.isEmpty)
    obtain ⟨children, d₂, ok₂, hc₂, hs₂⟩ := ihc d₁ (depth + 1)
    obtain ⟨siblings, d₃, ok₃, hc₃, hs₃⟩ := ihs d₂ depth
    refine ⟨.node e children siblings, d₃, ?_, hc₃.trans (hc₂.trans hc₁), ?_⟩
    · rw [grow, ok₁]
      simp only [bind, Except.bind, ok₂, ok₃]
      rfl
    · rw [map, map, hs₂, hs₃]

end Forest

/-! ## 3. Looking ahead -/

namespace Statement

theorem ofLinesFrom_line (config : Config) (x : ElementText) (opens : Bool) (number : Int)
    {indent : Int} (hi : 0 ≤ indent) (ls : List Line) :
    ofLinesFrom config 0 (x.line opens number indent :: ls) =
      .element (x.line opens number indent) x.code x.words opens :: ofLinesFrom config 0 ls :=
  ofLinesFrom_element config ls (x.isProper_line opens number indent hi)
    (x.isElement_line opens number indent) (x.elementWords_line opens number indent)

/-- The statements show no child of a line that has at least the given indentation and opens no
    block. -/
def Ends (indent : Int) (ss : List Statement) : Prop :=
  ∀ line : Line, indent ≤ line.indent → hasChildren line false ss = false

theorem Ends.mono {i j : Int} {ss : List Statement} (h : Ends i ss) (hij : i ≤ j) : Ends j ss :=
  fun line hl => h line (Int.le_trans hij hl)

theorem ends_element {l : Line} {i : Int} (hl : l.indent ≤ i) (code : Text) (words : List Text)
    (opens : Bool) (ss : List Statement) : Ends i (.element l code words opens :: ss) := by
  intro line hi
  show (false || decide (line.indent < l.indent)) = false
  rw [Bool.false_or, decide_eq_false_iff_not]
  omega

variable (config : Config) {unit : Int} (hu : 0 < unit) {depth : Int} (hd : 0 ≤ depth)
include hu hd

/-- A printed forest shows no child of what stands before it at its depth or deeper. -/
theorem ends_printed (f : Forest ElementText) (layout : Layout) {after : List Line}
    (h : Ends (depth * unit) (ofLinesFrom config 0 after)) :
    Ends (depth * unit) (ofLinesFrom config 0 (f.printed unit layout depth ++ after)) := by
  cases f with
  | nil => exact h
  | node x cs ss =>
    rw [Forest.printed, List.cons_append,
      ofLinesFrom_line config x _ _ (Int.mul_nonneg hd (Int.le_of_lt hu))]
    exact ends_element (l := x.line _ _ _) (Int.le_refl _) x.code x.words _ _

/-- **The look-ahead is the same in every layout**: a node is seen to have children if it has
    some. -/
theorem hasChildren_printed (x : ElementText) (cs : Forest ElementText) (layout : Layout)
    (braced : Bool) (number closing : Int) (rest : List Line)
    (h : braced = false → Ends (depth * unit) (ofLinesFrom config 0 rest)) :
    hasChildren (x.line braced number (depth * unit)) braced
      (ofLinesFrom config 0 (cs.printed unit layout (depth + 1) ++
        ((if braced then [⟨closing, depth * unit, Token.closing⟩] else []) ++ rest))) =
      !cs.isEmpty := by
  cases cs with
  | nil =>
    cases braced with
    | true =>
      show hasChildren _ true
        (ofLinesFrom config 0 (⟨closing, depth * unit, Token.closing⟩ :: rest)) = _
      rw [ofLinesFrom_closing config rest rfl]
      rfl
    | false => exact h rfl _ (Int.le_refl _)
  | node y cs ss =>
    have hlt : depth * unit < (depth + 1) * unit := by
      rw [Int.add_mul, Int.one_mul]
      omega
    have hnonneg : 0 ≤ (depth + 1) * unit :=
      Int.le_trans (Int.mul_nonneg hd (Int.le_of_lt hu)) (Int.le_of_lt hlt)
    rw [Forest.printed, List.cons_append, ofLinesFrom_line config y _ _ hnonneg]
    have hchild : (braced || decide (depth * unit < (depth + 1) * unit)) = true := by
      rw [decide_eq_true hlt, Bool.or_true]
    cases braced with
    | true => exact hchild
    | false => exact hchild

end Statement

/-! ## 4. Rows of trees that spell a forest -/

/-- A row of trees spells a forest at a depth: nested with whatever follows at that depth or less
    deep, it gives the forest and what follows it. -/
structure Spells (depth : Int) (row : List (Tree Element)) (f : Forest Element) : Prop where
  roots : ∀ e ∈ f.roots, e.depth = depth
  nest : ∀ us, (∀ e, (Forest.nest Element.depth us).roots.head? = some e → e.depth ≤ depth) →
    Forest.nest Element.depth (row ++ us) = f ++ Forest.nest Element.depth us

namespace Spells

variable {depth : Int} {row row' : List (Tree Element)} {f f' : Forest Element} {e : Element}

theorem nil : Spells depth [] .nil where
  roots _ h := by cases h
  nest _ _ := rfl

/-- What follows a row that is spelled at the depth is not deeper. -/
theorem head_le (h : Spells depth row f) {us : List (Tree Element)}
    (hus : ∀ e, (Forest.nest Element.depth us).roots.head? = some e → e.depth ≤ depth) :
    ∀ e, (Forest.nest Element.depth (row ++ us)).roots.head? = some e → e.depth ≤ depth := by
  intro e he
  rw [h.nest us hus, Forest.roots_append] at he
  cases hf : f.roots with
  | nil =>
    rw [hf] at he
    exact hus e he
  | cons a as =>
    rw [hf] at he
    obtain rfl : a = e := Option.some.inj he
    exact Int.le_of_eq (h.roots a (hf ▸ List.mem_cons_self))

theorem append (h : Spells depth row f) (h' : Spells depth row' f') :
    Spells depth (row ++ row') (f ++ f') where
  roots e he := by
    rw [Forest.roots_append] at he
    rcases List.mem_append.mp he with he | he
    · exact h.roots e he
    · exact h'.roots e he
  nest us hus := by
    rw [List.append_assoc, h.nest _ (h'.head_le hus), h'.nest us hus, Forest.append_assoc]

/-- A scope with nothing but the row becomes the forest. -/
theorem forest_eq (h : Spells depth row f) {s : Scope} (hs : s.entries = row.reverse ++ []) :
    s.forest = f := by
  have hnest := h.nest [] fun a ha => by cases ha
  rw [List.append_nil] at hnest
  rw [Scope.forest, hs, List.append_nil, List.reverse_reverse, hnest]
  exact f.append_nil

/-- An element takes nothing of what follows at its depth or less deep. -/
theorem cut {us : List (Tree Element)} (he : e.depth = depth)
    (hus : ∀ e, (Forest.nest Element.depth us).roots.head? = some e → e.depth ≤ depth) :
    (Forest.nest Element.depth us).takeWhile (fun b => decide (e.depth < b.depth)) = .nil ∧
      (Forest.nest Element.depth us).dropWhile (fun b => decide (e.depth < b.depth)) =
        Forest.nest Element.depth us := by
  refine Forest.cut_eq fun a ha => ?_
  have hle : a.depth ≤ depth := hus a ha
  rw [decide_eq_false_iff_not]
  omega

/-- An element whose children braces gave it. -/
theorem braced (he : e.depth = depth) (f : Forest Element) :
    Spells depth [⟨e, f⟩] (.node e f .nil) where
  roots a ha := by
    rw [List.mem_singleton.mp ha]
    exact he
  nest us hus := by
    obtain ⟨htake, hdrop⟩ := cut he hus
    show Forest.node e (f ++ (Forest.nest Element.depth us).takeWhile fun b =>
        decide (e.depth < b.depth))
      ((Forest.nest Element.depth us).dropWhile fun b => decide (e.depth < b.depth)) =
        Forest.node e f (Forest.nest Element.depth us)
    rw [htake, hdrop, Forest.append_nil]

/-- An element whose children stand one step deeper in the same row. -/
theorem indented (he : e.depth = depth) (h : Spells (depth + 1) row f) :
    Spells depth (⟨e, .nil⟩ :: row) (.node e f .nil) where
  roots a ha := by
    rw [List.mem_singleton.mp ha]
    exact he
  nest us hus := by
    obtain ⟨htake, hdrop⟩ := cut he hus
    have hrow := h.nest us fun a ha => Int.le_trans (hus a ha) (by omega)
    have hdeeper : ∀ a ∈ f.roots, decide (e.depth < a.depth) = true := by
      intro a ha
      have hdepth : a.depth = depth + 1 := h.roots a ha
      rw [decide_eq_true_eq]
      omega
    show Forest.node e (.nil ++ (Forest.nest Element.depth (row ++ us)).takeWhile fun b =>
        decide (e.depth < b.depth))
      ((Forest.nest Element.depth (row ++ us)).dropWhile fun b => decide (e.depth < b.depth)) =
        Forest.node e f (Forest.nest Element.depth us)
    rw [hrow, Forest.takeWhile_append hdeeper, Forest.dropWhile_append hdeeper, htake, hdrop,
      Forest.append_nil]
    rfl

end Spells

/-! ## 5. Adding printed lines -/

theorem Scope.margin_setMargin_congr {s s' : Scope} (h : s.margin = s'.margin) (i : Int) :
    (s.setMargin i).margin = (s'.setMargin i).margin := congrArg (·.or (some i)) h

/-- Once the margin of a scope is fixed, it stays. -/
theorem Scope.margin_setMargin_setMargin (s : Scope) (i j : Int) :
    ((s.setMargin i).setMargin j).margin = (s.setMargin i).margin := by
  unfold setMargin
  cases s.margin with
  | none => rfl
  | some m => rfl

/-- A line at the margin or right of it fixes a margin that later lines like it respect. -/
theorem Scope.isLeftOf_setMargin {s : Scope} {i j : Int} (h : s.isLeftOf i = false) (hij : i ≤ j) :
    (s.setMargin i).isLeftOf j = false := by
  unfold isLeftOf setMargin at *
  cases hm : s.margin with
  | none => simpa using hij
  | some m =>
    rw [hm] at h
    simp at h ⊢
    omega

theorem Forest.grow_node {x : ElementText} {cs ss : Forest ElementText} {d d' : Draft}
    {depth : Int} {f : Forest Element} (h : (node x cs ss).grow d depth = .ok (f, d')) :
    ∃ e d₁ children d₂ siblings,
      d.addElement (x.line false 0 (depth * d.config.indentUnit)) x.code x.words (!cs.isEmpty) =
        .ok (e, d₁) ∧
      cs.grow d₁ (depth + 1) = .ok (children, d₂) ∧ ss.grow d₂ depth = .ok (siblings, d') ∧
      f = node e children siblings ∧ d₁.config = d.config ∧ d₂.config = d.config ∧
      e.depth = depth := by
  obtain ⟨e, d₁, ok₁, hb, hc₁⟩ := d.addElement_ok
    (x.line false 0 (depth * d.config.indentUnit)) x.code x.words (!cs.isEmpty)
  obtain ⟨children, d₂, ok₂, hc₂, _⟩ := cs.grow_ok d₁ (depth + 1)
  obtain ⟨siblings, d₃, ok₃, hc₃, _⟩ := ss.grow_ok d₂ depth
  have hdepth : e.depth = (depth * d.config.indentUnit).fdiv d.config.indentUnit :=
    congrArg Element.depth hb
  rw [grow, ok₁] at h
  simp only [bind, Except.bind, ok₂, ok₃, pure, Except.pure, Except.ok.injEq, Prod.mk.injEq] at h
  obtain ⟨rfl, rfl⟩ := h
  refine ⟨e, d₁, children, d₂, siblings, ok₁, ok₂, ok₃, rfl, hc₁, hc₂.trans hc₁, ?_⟩
  rw [hdepth, Int.mul_fdiv_cancel _ (Int.ne_of_gt d.config.indentUnit_pos)]

namespace Outline

open Diagnostic

/-- The line of an element, whatever its number: the element that its text describes is added. -/
theorem step_line {d d' : Draft} {l l' : Line} {code : Text} {words : List Text} {opens : Bool}
    {following : List Statement} {e : Element}
    (hadd : d.addElement l' code words (Statement.hasChildren l opens following) = .ok (e, d'))
    (hl : l.indent = l'.indent) (xs : List Diagnostic) {s : Scope} {enclosing : List Scope}
    (hs : enclosing ≠ [] → s.isLeftOf l.indent = false) :
    ∃ ys, FreeOfBraces ys ∧
      (⟨d.withDiagnostics xs, s, enclosing⟩ : Outline).step (.element l code words opens)
          following =
        .ok (if opens then ⟨d'.withDiagnostics (xs ++ ys), { openedAt := some l.number },
            (s.setMargin l.indent).push e :: enclosing⟩
          else ⟨d'.withDiagnostics (xs ++ ys), (s.setMargin l.indent).push e, enclosing⟩) := by
  refine ⟨_, ElementPlan.read_finds (d.withDiagnostics xs) l code words
    (Statement.hasChildren l opens following), ?_⟩
  show ((⟨d.withDiagnostics xs, s, enclosing⟩ : Outline).settle l.indent).addElement l code words
    opens following = _
  rw [settle_inside _ hs]
  unfold addElement
  rw [Draft.addElement_withDiagnostics d xs hl, hadd]
  cases opens with
  | true => rfl
  | false => rfl

end Outline

open Diagnostic

/-- Adding the lines to a scope that they are not left of, before lines that end it or go on at the
    depth, adds a row of trees that spells the forest and leads from one draft to the other, up to
    diagnostics, of which none is about braces. -/
def AddsRow (config : Config) (depth : Int) (d : Draft) (lines : List Line) (g : Forest Element)
    (d' : Draft) : Prop :=
  ∀ (xs : List Diagnostic) (s : Scope) (enclosing : List Scope) (after : List Line),
    (enclosing ≠ [] → s.isLeftOf (depth * config.indentUnit) = false) →
    Statement.Ends (depth * config.indentUnit) (Statement.ofLinesFrom config 0 after) →
    ∃ ys s' row,
      (⟨d.withDiagnostics xs, s, enclosing⟩ : Outline).run
          (Statement.ofLinesFrom config 0 (lines ++ after)) =
        (⟨d'.withDiagnostics (xs ++ ys), s', enclosing⟩ : Outline).run
          (Statement.ofLinesFrom config 0 after) ∧
      FreeOfBraces ys ∧ s'.entries = row.reverse ++ s.entries ∧
      (s'.margin = s.margin ∨ s'.margin = (s.setMargin (depth * config.indentUnit)).margin) ∧
      Spells depth row g

namespace AddsRow

variable {config : Config} {depth : Int} {d d₁ d₂ d' : Draft} {lines lines' : List Line}
  {g g' : Forest Element}

theorem nil : AddsRow config depth d [] .nil d := by
  intro xs s enclosing after _ _
  refine ⟨[], s, [], ?_, freeOfBraces_nil, rfl, .inl rfl, .nil⟩
  rw [List.append_nil]
  rfl

/-- Rows at one depth, one after the other. -/
theorem append (h : AddsRow config depth d lines g d₁) (h' : AddsRow config depth d₁ lines' g' d')
    (hends : ∀ after,
      Statement.Ends (depth * config.indentUnit) (Statement.ofLinesFrom config 0 after) →
      Statement.Ends (depth * config.indentUnit)
        (Statement.ofLinesFrom config 0 (lines' ++ after))) :
    AddsRow config depth d (lines ++ lines') (g ++ g') d' := by
  intro xs s enclosing after hs ha
  obtain ⟨ys, s₁, row, run₁, hys, hent₁, hmar₁, hsp₁⟩ :=
    h xs s enclosing (lines' ++ after) hs (hends after ha)
  have hs₁ : enclosing ≠ [] → s₁.isLeftOf (depth * config.indentUnit) = false := by
    intro hne
    rcases hmar₁ with hm | hm
    · rw [Scope.isLeftOf, hm]
      exact hs hne
    · rw [Scope.isLeftOf, hm]
      exact Scope.isLeftOf_setMargin (hs hne) (Int.le_refl _)
  obtain ⟨zs, s₂, row', run₂, hzs, hent₂, hmar₂, hsp₂⟩ := h' (xs ++ ys) s₁ enclosing after hs₁ ha
  refine ⟨ys ++ zs, s₂, row ++ row', ?_, freeOfBraces_append hys hzs, ?_, ?_, hsp₁.append hsp₂⟩
  · rw [List.append_assoc, run₁, run₂, List.append_assoc]
  · rw [hent₂, hent₁, List.reverse_append, List.append_assoc]
  · rcases hmar₁ with hm | hm
    · rcases hmar₂ with hm' | hm'
      · exact .inl (hm'.trans hm)
      · exact .inr (hm'.trans (Scope.margin_setMargin_congr hm _))
    · refine .inr ?_
      rcases hmar₂ with hm' | hm'
      · exact hm'.trans hm
      · exact hm'.trans ((Scope.margin_setMargin_congr hm _).trans
          (s.margin_setMargin_setMargin _ _))

/-- An element, after which its children stand one unit deeper in the same scope. -/
theorem indented {x : ElementText} (number : Int) {hasChildren : Bool} {e : Element}
    (hdepth : 0 ≤ depth)
    (hadd : d.addElement (x.line false 0 (depth * config.indentUnit)) x.code x.words hasChildren =
      .ok (e, d₁)) (he : e.depth = depth) (h : AddsRow config (depth + 1) d₁ lines g d₂)
    (hlook : ∀ rest,
      Statement.Ends (depth * config.indentUnit) (Statement.ofLinesFrom config 0 rest) →
      Statement.hasChildren (x.line false number (depth * config.indentUnit)) false
        (Statement.ofLinesFrom config 0 (lines ++ rest)) = hasChildren) :
    AddsRow config depth d (x.line false number (depth * config.indentUnit) :: lines)
      (.node e g .nil) d₂ := by
  intro xs s enclosing after hs ha
  have hu : 0 < config.indentUnit := config.indentUnit_pos
  have hle : depth * config.indentUnit ≤ (depth + 1) * config.indentUnit := by
    rw [Int.add_mul, Int.one_mul]
    omega
  rw [← hlook after ha] at hadd
  obtain ⟨ys, hys, ok⟩ := Outline.step_line
    (l := x.line false number (depth * config.indentUnit)) hadd rfl xs hs
  obtain ⟨zs, s', row, run', hzs, hent, hmar, hsp⟩ := h (xs ++ ys)
    ((s.setMargin (depth * config.indentUnit)).push e) enclosing after
    (fun hne => Scope.isLeftOf_setMargin (hs hne) hle) (ha.mono hle)
  refine ⟨ys ++ zs, s', ⟨e, .nil⟩ :: row, ?_, freeOfBraces_append hys hzs, ?_, ?_, hsp.indented he⟩
  · rw [List.cons_append, Statement.ofLinesFrom_line config x false number
      (Int.mul_nonneg hdepth (Int.le_of_lt hu)), Outline.run_cons ok, ← List.append_assoc]
    exact run'
  · rw [hent, List.reverse_cons, List.append_assoc]
    rfl
  · refine .inr ?_
    rcases hmar with hm | hm
    · exact hm
    · exact hm.trans (s.margin_setMargin_setMargin _ _)

/-- An element whose line opens a block, in which its children stand one unit deeper. -/
theorem braced {x : ElementText} (number closing : Int) {hasChildren : Bool} {e : Element}
    (hdepth : 0 ≤ depth)
    (hadd : d.addElement (x.line false 0 (depth * config.indentUnit)) x.code x.words hasChildren =
      .ok (e, d₁)) (he : e.depth = depth) (h : AddsRow config (depth + 1) d₁ lines g d₂)
    (hlook : ∀ rest,
      Statement.hasChildren (x.line true number (depth * config.indentUnit)) true
        (Statement.ofLinesFrom config 0
          (lines ++ ⟨closing, depth * config.indentUnit, Token.closing⟩ :: rest)) = hasChildren) :
    AddsRow config depth d (x.line true number (depth * config.indentUnit) ::
      (lines ++ [⟨closing, depth * config.indentUnit, Token.closing⟩])) (.node e g .nil) d₂ := by
  intro xs s enclosing after hs _
  have hu : 0 < config.indentUnit := config.indentUnit_pos
  rw [← hlook after] at hadd
  obtain ⟨ys, hys, ok⟩ := Outline.step_line
    (l := x.line true number (depth * config.indentUnit)) hadd rfl xs hs
  have hclose := Statement.ofLinesFrom_closing config
    (l := ⟨closing, depth * config.indentUnit, Token.closing⟩) after rfl
  obtain ⟨zs, s', row, run', hzs, hent, _, hsp⟩ := h (xs ++ ys) { openedAt := some number }
    ((s.setMargin (depth * config.indentUnit)).push e :: enclosing)
    (⟨closing, depth * config.indentUnit, Token.closing⟩ :: after) (fun _ => rfl)
    (by rw [hclose]; exact fun _ _ => rfl)
  have hforest : s'.forest = g := hsp.forest_eq hent
  refine ⟨ys ++ zs, ((s.setMargin (depth * config.indentUnit)).push e).adopt g, [⟨e, g⟩], ?_,
    freeOfBraces_append hys hzs, rfl, .inr rfl, .braced he g⟩
  have okClose : (⟨d₂.withDiagnostics (xs ++ ys ++ zs), s',
      (s.setMargin (depth * config.indentUnit)).push e :: enclosing⟩ : Outline).step
        (.closeBrace ⟨closing, depth * config.indentUnit, Token.closing⟩)
        (Statement.ofLinesFrom config 0 after) =
      .ok ⟨d₂.withDiagnostics (xs ++ ys ++ zs),
        ((s.setMargin (depth * config.indentUnit)).push e).adopt g, enclosing⟩ := by
    rw [← hforest]
    rfl
  rw [List.cons_append, List.append_assoc, Statement.ofLinesFrom_line config x true number
    (Int.mul_nonneg hdepth (Int.le_of_lt hu)), List.singleton_append, Outline.run_cons ok]
  refine run'.trans ?_
  rw [hclose, Outline.run_cons okClose, List.append_assoc]

/-- **The lines of a printed forest add a row that spells the forest of its texts**, in any
    layout. -/
theorem printed (f : Forest ElementText) (layout : Layout) (hdepth : 0 ≤ depth)
    (hd : d.config = config) (hg : f.grow d depth = .ok (g, d')) :
    AddsRow config depth d (f.printed config.indentUnit layout depth) g d' := by
  induction f generalizing layout depth d d' g with
  | nil =>
    cases hg
    exact .nil
  | node x cs ss ihc ihs =>
    have hu : 0 < config.indentUnit := config.indentUnit_pos
    obtain ⟨e, d₁, children, d₂, siblings, ok₁, ok₂, ok₃, rfl, hc₁, hc₂, he⟩ := Forest.grow_node hg
    rw [hd] at ok₁
    have hchildren := ihc layout.children (by omega) (hc₁.trans hd) ok₂
    have hsiblings := ihs layout.siblings hdepth (hc₂.trans hd) ok₃
    have hlook := Statement.hasChildren_printed config hu hdepth x cs layout.children
    have hends : ∀ after, Statement.Ends _ (Statement.ofLinesFrom config 0 after) →
        Statement.Ends (depth * config.indentUnit) (Statement.ofLinesFrom config 0
          (ss.printed config.indentUnit layout.siblings depth ++ after)) := fun _ ha =>
      Statement.ends_printed config hu hdepth ss layout.siblings ha
    rw [Forest.printed]
    cases (layout []).braced with
    | true =>
      have hnode := braced (layout []).number (layout []).closing hdepth ok₁ he hchildren
        fun rest => hlook true _ (layout []).closing rest fun h => by cases h
      have hrow := hnode.append hsiblings hends
      rw [List.cons_append, List.append_assoc] at hrow
      exact hrow
    | false =>
      have hnode := indented (layout []).number hdepth ok₁ he hchildren
        fun rest hrest => hlook false _ (layout []).closing rest fun _ => hrest
      exact hnode.append hsiblings hends

end AddsRow

/-! ## 6. Any layout -/

/-- **Indentation and braces can be mixed freely.** Texts grow into one forest of their shape and
    one draft. Whatever their layout, reading the printed lines gives that forest and that draft, up
    to diagnostics, and no diagnostic about braces is added. -/
theorem readBody_printed (d : Draft) (texts : Forest ElementText) :
    ∃ f d₀, texts.grow d 0 = .ok (f, d₀) ∧ f.map (fun _ => ()) = texts.map (fun _ => ()) ∧
      ∀ layout : Layout, ∃ found,
        d.readBody (texts.printed d.config.indentUnit layout 0) =
          .ok (f, d₀.withDiagnostics (d.diagnostics ++ found)) ∧ FreeOfBraces found := by
  obtain ⟨f, d₀, ok, _, hshape⟩ := texts.grow_ok d 0
  refine ⟨f, d₀, ok, hshape, fun layout => ?_⟩
  obtain ⟨found, s, row, hrun, hfound, hent, _, hsp⟩ :=
    AddsRow.printed texts layout (Int.le_refl 0) rfl ok d.diagnostics {} [] []
      (fun h => absurd rfl h) fun _ _ => rfl
  refine ⟨found, ?_, hfound⟩
  have hstart : ({ draft := d } : Outline) = ⟨d.withDiagnostics d.diagnostics, {}, []⟩ := rfl
  rw [List.append_nil] at hrun
  rw [Draft.readBody, Statement.ofLines, Forest.flatMap_printed, hstart, hrun]
  show Except.ok (s.forest, _) = _
  rw [hsp.forest_eq hent]

/-- A list of two items, one of which has an item of its own. -/
theorem readBody_printed_list :
    let ul : ElementText := ⟨['u', 'l'], by decide, by decide, by decide, by decide, by decide,
      by decide⟩
    let li : ElementText := ⟨['l', 'i', ' ', 't', '=', '"', 'a', ' ', '\x7b', '"'], by decide,
      by decide, by decide, by decide, by decide, by decide⟩
    let texts : Forest ElementText :=
      .node ul (.node li (.node li .nil .nil) (.node li .nil .nil)) .nil
    ∃ f d₀, texts.grow (.empty .default) 0 = .ok (f, d₀) ∧
      f.map (fun _ => ()) = texts.map (fun _ => ()) ∧
      ∀ layout : Layout, ∃ found,
        (Draft.empty .default).readBody (texts.printed Config.default.indentUnit layout 0) =
          .ok (f, d₀.withDiagnostics ((Draft.empty .default).diagnostics ++ found)) ∧
        FreeOfBraces found :=
  readBody_printed (.empty .default) _

end OutlineMarkup
