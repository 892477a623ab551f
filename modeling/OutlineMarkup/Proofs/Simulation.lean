/-
  File:      OutlineMarkup/Proofs/Simulation.lean
  Subject:   The outline built statement by statement is the one read by descent.

  `Body.outline` says which trees a scope has after a reading: an element is a tree of its own, and
  a block nests what it holds and gives it to the latest tree. Only depths matter for this, so trees
  are compared by their depths (`Scope.skeleton`).

  `complete_reads`: from a state that has come as far as a place (`Follows`), to add the statements
  of all lines ahead is to leave the scope at the end of its reading, with the trees of that
  reading, and to go on with the lines after it. It goes by induction on the reading; the scopes on
  the stack are the readings that are still open.
-/
import OutlineMarkup.Proofs.Descent
import OutlineMarkup.Proofs.Outline

namespace OutlineMarkup

/-! ## 1. The trees of a reading -/

/-- Gives children to the latest of some trees (latest first). -/
def adoptLatest {α : Type} (ts : List (Tree α)) (f : Forest α) : List (Tree α) :=
  match ts with
  | [] => []
  | latest :: earlier => latest.addChildren f :: earlier

/-- The trees of a scope by their depths (latest first) after more of it has been read. -/
def Body.outline {e : Bool} : Body e → List (Tree Int) → List (Tree Int)
  | .nil, ts => ts
  | .element _ depth rest, ts => rest.outline (⟨depth, .nil⟩ :: ts)
  | .block inner rest, ts =>
    rest.outline (adoptLatest ts (Forest.nest id (inner.outline []).reverse))

namespace Scope

/-- The trees of a scope by their depths. -/
def skeleton (s : Scope) : List (Tree Int) := s.entries.map (Tree.map Element.depth)

theorem skeleton_adopt (s : Scope) (f : Forest Element) :
    (s.adopt f).skeleton = adoptLatest s.skeleton (f.map Element.depth) := by
  unfold adopt
  split
  · rename_i e
    simp only [skeleton, e, List.map_nil, adoptLatest]
  · rename_i latest earlier e
    simp only [skeleton, e, List.map_cons, adoptLatest, Tree.map, Tree.addChildren,
      Forest.map_append]

theorem margin_adopt (s : Scope) (f : Forest Element) : (s.adopt f).margin = s.margin := by
  unfold adopt
  split
  · rfl
  · rfl

theorem entries_adopt_eq_nil (s : Scope) (f : Forest Element) :
    (s.adopt f).entries = [] ↔ s.entries = [] := by
  unfold adopt
  split
  · exact Iff.rfl
  · rename_i latest earlier e
    simp [e]

theorem map_forest (s : Scope) :
    s.forest.map Element.depth = Forest.nest id s.skeleton.reverse := by
  unfold forest skeleton
  rw [← List.map_reverse]
  exact Forest.map_nest Element.depth id s.entries.reverse

theorem skeleton_bare (s : Scope) : s.bare.skeleton = s.skeleton := by
  have hmap : ∀ f : Forest Element,
      (f.map Element.bare).map Element.depth = f.map Element.depth := by
    intro f
    induction f with
    | nil => rfl
    | node a cs ss ihc ihs => simp only [Forest.map, ihc, ihs, Element.bare]
  simp only [skeleton, bare, List.map_map]
  refine List.map_congr_left fun t _ => ?_
  simp only [Function.comp, Tree.map, hmap, Element.bare]

end Scope

/-! ## 2. Adding all statements -/

namespace Outline

/-- Adds all statements and closes all scopes. -/
def complete (o : Outline) (ss : List Statement) : Except Fault (Forest Element × Draft) := do
  return (← o.run ss).finish

/-- Leaves a scope: the scope around it takes over, and without one the document is read. -/
def leave (d : Draft) (s : Scope) :
    List Scope → List Statement → Except Fault (Forest Element × Draft)
  | [], _ => .ok (s.forest, d)
  | outer :: rest, ss => complete ⟨d, outer.adopt s.forest, rest⟩ ss

theorem complete_cons {o o' : Outline} {s : Statement} {ss : List Statement}
    (h : o.step s ss = .ok o') : o.complete (s :: ss) = o'.complete ss := by
  rw [complete, complete, run_cons h]

/-- A statement that stands left of a scope is added after leaving it. -/
theorem complete_dedented {d : Draft} {s outer : Scope} {rest : List Scope} {st : Statement}
    {ss : List Statement} (h : s.isLeftOf st.line.indent = true)
    (hst : ∀ line, st ≠ .closeBrace line) :
    complete ⟨d, s, outer :: rest⟩ (st :: ss) =
      leave (d.report .dedentedBlock s.openedAt) s (outer :: rest) (st :: ss) := by
  have hsettle : (⟨d, s, outer :: rest⟩ : Outline).settle st.line.indent =
      (⟨d.report .dedentedBlock s.openedAt, outer.adopt s.forest, rest⟩ : Outline).settle
        st.line.indent := by
    unfold settle
    rw [closeDedented, if_pos h]
  have hstep : (⟨d, s, outer :: rest⟩ : Outline).step st ss =
      (⟨d.report .dedentedBlock s.openedAt, outer.adopt s.forest, rest⟩ : Outline).step st ss := by
    cases st with
    | closeBrace line => exact absurd rfl (hst line)
    | openBrace line => exact congrArg (fun o : Outline => Except.ok (o.openBlock line)) hsettle
    | directive line block => exact congrArg (addDirective · block) hsettle
    | element line code words opens =>
      exact congrArg (addElement · line code words opens ss) hsettle
  rw [leave]
  unfold complete
  rw [run, run, hstep]

end Outline

/-! ## 3. Following a reading -/

/-- A scope of the outline, inside the given ones, has come as far as a place of the reading. -/
structure Follows {e : Bool} (p : Place e) (s : Scope) (enclosing : List Scope) : Prop where
  braced : p.braced = true ↔ enclosing ≠ []
  margin : enclosing ≠ [] → s.margin = p.margin
  column : enclosing = [] → p.margin = some 0
  hasElement : e = true ↔ s.entries ≠ []

namespace Follows

variable {e : Bool} {p : Place e} {s s' : Scope} {enclosing : List Scope}

theorem document : Follows .document {} [] where
  braced := by simp [Place.document]
  margin h := absurd rfl h
  column _ := rfl
  hasElement := by simp

theorem block (n : Int) (s : Scope) (enclosing : List Scope) :
    Follows .block { openedAt := some n } (s :: enclosing) where
  braced := by simp [Place.block]
  margin _ := rfl
  column h := absurd h (List.cons_ne_nil _ _)
  hasElement := by simp

theorem settled (h : Follows p s enclosing) (indent : Int)
    (hm : s'.margin = (s.setMargin indent).margin) (he : s'.entries = [] ↔ s.entries = []) :
    Follows (p.settled indent) s' enclosing where
  braced := h.braced
  margin hne := by rw [hm, Scope.setMargin, h.margin hne, Place.settled]
  column hnil := by
    rw [Place.settled, h.column hnil]
    rfl
  hasElement := by rw [h.hasElement, ne_eq, ne_eq, he]

theorem push (h : Follows p s enclosing) (indent : Int) (x : Element) :
    Follows (p.settled indent).withElement ((s.setMargin indent).push x) enclosing where
  braced := h.braced
  margin := (h.settled indent rfl Iff.rfl).margin
  column := (h.settled indent rfl Iff.rfl).column
  hasElement := ⟨fun _ => List.cons_ne_nil _ _, fun _ => rfl⟩

theorem adopt (h : Follows p s enclosing) (f : Forest Element) :
    Follows p (s.adopt f) enclosing where
  braced := h.braced
  margin hne := by rw [Scope.margin_adopt, h.margin hne]
  column := h.column
  hasElement := by rw [h.hasElement, ne_eq, ne_eq, Scope.entries_adopt_eq_nil]

/-- A line that the place admits is settled in the scope itself. -/
theorem settle (h : Follows p s enclosing) (d : Draft) {indent : Int}
    (hi : p.admits indent = true) :
    (⟨d, s, enclosing⟩ : Outline).settle indent = ⟨d, s.setMargin indent, enclosing⟩ := by
  refine Outline.settle_inside d fun hne => ?_
  rw [Scope.isLeftOf, h.margin hne]
  unfold Place.admits at hi
  cases hm : p.margin with
  | none => rfl
  | some m =>
    rw [hm] at hi
    simpa using hi

/-- A line that the place does not admit stands left of a scope with a brace. -/
theorem isLeftOf (h : Follows p s enclosing) {l : Line} (hl : l.IsProper)
    (hi : p.admits l.indent = false) : enclosing ≠ [] ∧ s.isLeftOf l.indent = true := by
  unfold Place.admits at hi
  have hne : enclosing ≠ [] := by
    intro hnil
    have h0 : 0 ≤ l.indent := hl.indent_nonneg
    rw [h.column hnil] at hi
    simp at hi
    omega
  refine ⟨hne, ?_⟩
  rw [Scope.isLeftOf, h.margin hne]
  cases hm : p.margin with
  | none =>
    rw [hm] at hi
    cases hi
  | some m =>
    rw [hm] at hi
    simpa using hi

end Follows

namespace Outline

variable {config : Config}

/-- The statements of lines start at the first line with content. -/
theorem head_ofLines (config : Config) {l : Line} (ls : List Line) (hp : l.IsProper)
    (hs : l.isSkippable = false) (ht : l.text ≠ Token.closing) :
    ∃ st ss, Statement.ofLinesFrom config 0 (l :: ls) = st :: ss ∧ st.line = l ∧
      ∀ line, st ≠ .closeBrace line := by
  rcases Line.kinds hp with h | h | ⟨_, hd | ho | ⟨he, code, words, opens, hw⟩⟩
  · rw [hs] at h
    cases h
  · exact absurd h ht
  · exact ⟨_, _, Statement.ofLinesFrom_directive config ls hd, rfl, fun _ e => by cases e⟩
  · exact ⟨_, _, Statement.ofLinesFrom_opening config ls ho, rfl, fun _ e => by cases e⟩
  · exact ⟨_, _, Statement.ofLinesFrom_element config ls hp he hw, rfl, fun _ e => by cases e⟩

/-- An element line that the place admits: its element comes last in the scope, and the scope of its
    block is entered if there is one. -/
theorem complete_element {e : Bool} {p : Place e} {d : Draft} {s : Scope} {enclosing : List Scope}
    (hf : Follows p s enclosing) {l : Line} (hi : p.admits l.indent = true) (code : Text)
    (words : List Text) (opens : Bool) (ss : List Statement) :
    ∃ d' x, complete ⟨d, s, enclosing⟩ (.element l code words opens :: ss) =
        complete (if opens then
            ⟨d', { openedAt := some l.number }, (s.setMargin l.indent).push x :: enclosing⟩
          else ⟨d', (s.setMargin l.indent).push x, enclosing⟩) ss ∧
      d'.config = d.config ∧
      ((s.setMargin l.indent).push x).skeleton =
        ⟨l.depth d.config.indentUnit, .nil⟩ :: s.skeleton := by
  obtain ⟨x, d', ok, hx, hc⟩ :=
    (⟨d, s, enclosing⟩ : Outline).step_element l code words opens ss
  rw [hf.settle d hi] at ok
  have hdepth : x.depth = l.depth d.config.indentUnit := congrArg Element.depth hx
  refine ⟨d', x, ?_, hc, ?_⟩
  · rw [complete_cons ok]
    cases opens with
    | true => rfl
    | false => rfl
  · rw [← hdepth]
    rfl

/-- A directive that the place admits changes nothing but classes. -/
theorem complete_directive {e : Bool} {p : Place e} {d : Draft} {s : Scope}
    {enclosing : List Scope} (hf : Follows p s enclosing) {l : Line}
    (hi : p.admits l.indent = true) (block : Directive.Block) (ss : List Statement) :
    ∃ d' s', complete ⟨d, s, enclosing⟩ (.directive l block :: ss) =
        complete ⟨d', s', enclosing⟩ ss ∧
      d'.config = d.config ∧ s'.skeleton = s.skeleton ∧
      Follows (p.settled l.indent) s' enclosing := by
  obtain ⟨s', d', ok, hs', hd'⟩ := (⟨d, s, enclosing⟩ : Outline).step_directive l block ss
  rw [hf.settle d hi] at ok hs'
  have hm : s'.margin = (s.setMargin l.indent).margin := congrArg (fun s => s.margin) hs'
  have hempty := Scope.entries_eq_nil_of_bare hs'
  refine ⟨d', s', complete_cons ok, hd', ?_, hf.settled l.indent hm hempty⟩
  rw [← Scope.skeleton_bare, hs', Scope.skeleton_bare]
  rfl

/-- A lone `{` before any element of the scope. -/
theorem complete_ignored {p : Place false} {d : Draft} {s : Scope} {enclosing : List Scope}
    (hf : Follows p s enclosing) {l : Line} (hi : p.admits l.indent = true)
    (ss : List Statement) :
    complete ⟨d, s, enclosing⟩ (.openBrace l :: ss) =
      complete ⟨d, s.setMargin l.indent, enclosing⟩ ss := by
  have hempty : s.entries = [] := by
    by_contra hne
    cases hf.hasElement.mpr hne
  refine complete_cons ?_
  rw [step, hf.settle d hi, openBlock]
  simp only [Scope.setMargin, hempty, List.isEmpty_nil, if_true]

/-- A lone `{` after an element of the scope. -/
theorem complete_opened {p : Place true} {d : Draft} {s : Scope} {enclosing : List Scope}
    (hf : Follows p s enclosing) {l : Line} (hi : p.admits l.indent = true)
    (ss : List Statement) :
    complete ⟨d, s, enclosing⟩ (.openBrace l :: ss) =
      complete ⟨d, { openedAt := some l.number }, s.setMargin l.indent :: enclosing⟩ ss := by
  have hne : ¬ s.entries.isEmpty = true := fun h =>
    hf.hasElement.mp rfl (List.isEmpty_iff.mp h)
  refine complete_cons ?_
  rw [step, hf.settle d hi, openBlock]
  exact congrArg Except.ok (if_neg hne)

/-- A block that is left at its end: the scope around it has given its trees to the latest one. -/
theorem complete_block {d : Draft} {s : Scope} {enclosing : List Scope} {n : Int} {e : Bool}
    {inner : Body e} {ss rest : List Statement}
    (h : ∃ d' s', complete ⟨d, { openedAt := some n }, s :: enclosing⟩ ss =
        leave d' s' (s :: enclosing) rest ∧
      d'.config = config ∧ s'.skeleton = inner.outline []) :
    ∃ d' f, complete ⟨d, { openedAt := some n }, s :: enclosing⟩ ss =
        complete ⟨d', s.adopt f, enclosing⟩ rest ∧
      d'.config = config ∧ (s.adopt f).skeleton =
        adoptLatest s.skeleton (Forest.nest id (inner.outline []).reverse) := by
  obtain ⟨d', s', ok, hd', hs'⟩ := h
  refine ⟨d', s'.forest, ok, hd', ?_⟩
  rw [Scope.skeleton_adopt, Scope.map_forest, hs']

/-- **The outline follows the reading by descent.** -/
theorem complete_reads {e : Bool} {p : Place e} {c c' : Cursor} {b : Body e}
    (h : Reads config p c b c') (d : Draft) (s : Scope) (enclosing : List Scope)
    (hf : Follows p s enclosing) (hd : d.config = config) (hp : ∀ l ∈ c.ahead, l.IsProper) :
    ∃ d' s', complete ⟨d, s, enclosing⟩ (Statement.ofLinesFrom config 0 c.ahead) =
        leave d' s' enclosing (Statement.ofLinesFrom config 0 c'.ahead) ∧
      d'.config = config ∧ s'.skeleton = b.outline s.skeleton := by
  -- one case per rule; the induction hypotheses speak of every state and every stack of scopes
  induction h generalizing d s enclosing with
  | @finish e p c h =>
    have hnil : c.ahead = [] := List.head?_eq_none_iff.mp h
    rw [hnil]
    cases enclosing with
    | nil => exact ⟨d, s, rfl, hd, rfl⟩
    | cons outer rest => exact ⟨d.report .unclosedBlock s.openedAt, s, rfl, hd, rfl⟩
  | skip hn hs _ ih =>
    obtain ⟨_, hp'⟩ := Cursor.proper_of_next hn hp
    rw [Cursor.ahead_of_next hn, Statement.ofLinesFrom_skippable config _ hs]
    exact ih d s enclosing hf hd hp'
  | close hn ht hb =>
    obtain ⟨outer, rest, rfl⟩ := List.exists_cons_of_ne_nil (hf.braced.mp hb)
    rw [Cursor.ahead_of_next hn, Statement.ofLinesFrom_closing config _ ht]
    exact ⟨d, s, rfl, hd, rfl⟩
  | @stray e p c c' c'' l b hn ht hb _ ih =>
    obtain ⟨_, hp'⟩ := Cursor.proper_of_next hn hp
    have hnil : enclosing = [] := by
      by_contra hne
      rw [hf.braced.mpr hne] at hb
      cases hb
    subst hnil
    rw [Cursor.ahead_of_next hn, Statement.ofLinesFrom_closing config _ ht]
    exact ih (d.report .strayBrace l.number) s [] hf hd hp'
  | @dedent e p c l hn hs ht hi =>
    obtain ⟨ls, e⟩ := Cursor.peek?_eq_some hn
    rw [e] at hp
    have hl : l.IsProper := hp l List.mem_cons_self
    obtain ⟨hne, hleft⟩ := hf.isLeftOf hl hi
    obtain ⟨outer, rest, rfl⟩ := List.exists_cons_of_ne_nil hne
    obtain ⟨st, ss, est, hline, hst⟩ := head_ofLines config ls hl hs ht
    rw [e, est]
    exact ⟨_, s, complete_dedented (hline ▸ hleft) hst, hd, rfl⟩
  | directive hn hdir hi hc _ ih =>
    have hls := Directive.proper_of_collectAt hn hc hp
    obtain ⟨ls, e⟩ := Cursor.peek?_eq_some hn
    rw [e, Statement.ofLinesFrom_directive config ls hdir, ← (Directive.collectAt_eq_ok e hc).1]
    obtain ⟨d₁, s₁, e₁, hd₁, hs₁, hf₁⟩ := complete_directive (d := d) hf hi
      (Directive.collect config.breakpoints config.indentUnit _ ls) _
    rw [e₁, ← hs₁]
    exact ih d₁ s₁ enclosing hf₁ (hd₁.trans hd) hls
  | ignored hn ht hi _ ih =>
    obtain ⟨_, hp'⟩ := Cursor.proper_of_next hn hp
    rw [Cursor.ahead_of_next hn, Statement.ofLinesFrom_opening config _ ht, complete_ignored hf hi]
    exact ih d _ enclosing (hf.settled _ rfl Iff.rfl) hd hp'
  | @block p c c' c₁ c₂ l inner b hn ht hi hblock _ ihb ih =>
    obtain ⟨_, hp'⟩ := Cursor.proper_of_next hn hp
    obtain ⟨d₁, f, e₁, hd₁, hs₁⟩ := complete_block (ihb d { openedAt := some l.number }
      (s.setMargin l.indent :: enclosing) (.block l.number _ enclosing) hd hp')
    -- the block is read; the scope around it goes on with the trees that the block gave it
    obtain ⟨d₂, s₂, e₂, hd₂, hs₂⟩ := ih d₁ _ enclosing
      ((hf.settled l.indent rfl Iff.rfl).adopt f) hd₁ (hblock.proper hp')
    refine ⟨d₂, s₂, ?_, hd₂, hs₂.trans (congrArg b.outline hs₁)⟩
    rw [Cursor.ahead_of_next hn, Statement.ofLinesFrom_opening config _ ht, complete_opened hf hi,
      e₁, e₂]
  | @element e p c c' c'' l code words depth b hn he hi hw hdepth _ ih =>
    obtain ⟨hl, hp'⟩ := Cursor.proper_of_next hn hp
    obtain ⟨d₁, x, e₁, hd₁, hs₁⟩ := complete_element (d := d) hf hi code words false
      (Statement.ofLinesFrom config 0 c'.ahead)
    rw [hd, Line.depth_eq_of_checked hdepth] at hs₁
    obtain ⟨d₂, s₂, e₂, hd₂, hs₂⟩ :=
      ih d₁ _ enclosing (hf.push l.indent x) (hd₁.trans hd) hp'
    refine ⟨d₂, s₂, ?_, hd₂, hs₂.trans (congrArg b.outline hs₁)⟩
    rw [Cursor.ahead_of_next hn, Statement.ofLinesFrom_element config _ hl he hw, e₁,
      if_neg Bool.false_ne_true, e₂]
  | @opening e p c c' c₁ c₂ l code words depth inner b hn he hi hw hdepth hblock _ ihb ih =>
    obtain ⟨hl, hp'⟩ := Cursor.proper_of_next hn hp
    obtain ⟨d₀, x, e₀, hd₀, hs₀⟩ := complete_element (d := d) hf hi code words true
      (Statement.ofLinesFrom config 0 c'.ahead)
    obtain ⟨d₁, f, e₁, hd₁, hs₁⟩ := complete_block (ihb d₀ { openedAt := some l.number }
      ((s.setMargin l.indent).push x :: enclosing) (.block l.number _ enclosing)
      (hd₀.trans hd) hp')
    rw [hs₀, hd, Line.depth_eq_of_checked hdepth] at hs₁
    obtain ⟨d₂, s₂, e₂, hd₂, hs₂⟩ :=
      ih d₁ _ enclosing ((hf.push l.indent x).adopt f) hd₁ (hblock.proper hp')
    refine ⟨d₂, s₂, ?_, hd₂, hs₂.trans (congrArg b.outline hs₁)⟩
    rw [Cursor.ahead_of_next hn, Statement.ofLinesFrom_element config _ hl he hw, e₀, if_pos rfl,
      e₁, e₂]

end Outline

/-- **The forest of a body nests the trees of its reading.** -/
theorem Draft.readBody_reads (d : Draft) {lines : List Line} (hp : ∀ l ∈ lines, l.IsProper)
    {b : Body false} {c : Cursor}
    (h : Reads d.config .document (.ofLines (lines.flatMap (Statement.writeOut d.config))) b c) :
    ∃ f d', d.readBody lines = .ok (f, d') ∧
      f.map Element.depth = Forest.nest id (b.outline []).reverse := by
  obtain ⟨d', s', ok, _, hs⟩ := Outline.complete_reads h d {} [] .document rfl
    (Statement.isProper_of_mem_flatMap hp)
  refine ⟨s'.forest, d', ok, ?_⟩
  rw [Scope.map_forest, hs]
  rfl

end OutlineMarkup
