/-
  File:      OutlineMarkup/Proofs/LookAhead.lean
  Subject:   What the look-ahead for children says, and what the forest then holds.

  The tag of an element depends on whether it has children, and this is decided before its children
  are read, from the next two lines with content (`Line.childrenAhead`). The forest decides it anew:
  a node has a child if a block of it holds an element, or if the element after it in its scope lies
  deeper (`Body.bears`). The two differ in what they compare and in how far they see:

  * the look-ahead compares columns, the forest whole units of indentation;
  * the look-ahead stops at a directive and at a `}`, the forest looks behind them;
  * the look-ahead takes any line inside a block for a child, the forest only an element line.

  `ChildrenForeseen` lists these cases and no others, and `children_foreseen` shows that every
  element of every body is covered by it: outside the cases named, the look-ahead is right.
-/
import OutlineMarkup.Proofs.DocumentOrder
import OutlineMarkup.Proofs.Parentage

namespace OutlineMarkup

/-! ## 1. Nodes with children -/

namespace Forest

variable {α β : Type}

/-- For every node, in document order, whether it has a child. -/
def bearing : Forest α → List Bool
  | .nil => []
  | .node _ cs ss => (!cs.isEmpty) :: (cs.bearing ++ ss.bearing)

theorem bearing_eq_subtrees (f : Forest α) :
    f.bearing = f.subtrees.map fun t => !t.children.isEmpty := by
  induction f with
  | nil => rfl
  | node a cs ss ihc ihs => simp only [bearing, subtrees, List.map_cons, List.map_append, ihc, ihs]

theorem isEmpty_map (g : α → β) (f : Forest α) : (f.map g).isEmpty = f.isEmpty := by
  cases f <;> rfl

theorem bearing_map (g : α → β) (f : Forest α) : (f.map g).bearing = f.bearing := by
  induction f with
  | nil => rfl
  | node a cs ss ihc ihs => simp only [map, bearing, isEmpty_map, ihc, ihs]

theorem isEmpty_append (f g : Forest α) : (f ++ g).isEmpty = (f.isEmpty && g.isEmpty) := by
  cases f <;> rfl

theorem isEmpty_eq_labels (f : Forest α) : f.isEmpty = f.labels.isEmpty := by
  cases f <;> rfl

theorem bearing_append (f g : Forest α) : (f ++ g).bearing = f.bearing ++ g.bearing := by
  induction f with
  | nil => rfl
  | node a cs ss _ ih =>
    show (!cs.isEmpty) :: (cs.bearing ++ (ss ++ g).bearing) = _
    rw [ih, bearing, List.cons_append, List.append_assoc]

theorem bearing_takeWhile_dropWhile (p : α → Bool) (f : Forest α) :
    (f.takeWhile p).bearing ++ (f.dropWhile p).bearing = f.bearing := by
  induction f with
  | nil => rfl
  | node a cs ss _ ih =>
    by_cases h : p a
    · simp only [takeWhile, dropWhile, if_pos h, bearing, List.cons_append, List.append_assoc, ih]
    · simp only [takeWhile, dropWhile, if_neg h, bearing, List.nil_append]

theorem isEmpty_takeWhile (p : α → Bool) (f : Forest α) :
    (f.takeWhile p).isEmpty = !f.roots.head?.any p := by
  cases f with
  | nil => rfl
  | node a cs ss =>
    by_cases h : p a
    · simp [takeWhile, h, roots, isEmpty]
    · simp [takeWhile, h, roots, isEmpty]

end Forest

/-- For every node of an outline, whether it has a child once the outline is nested; the depth of
    the tree that follows the outline is given. -/
def outlineBearing (next : Option Int) : List (Tree Int) → List Bool
  | [] => []
  | t :: ts =>
    let following := (ts.head?.map Tree.label).or next
    (!t.children.isEmpty || following.any fun b => decide (t.label < b)) ::
      (t.children.bearing ++ outlineBearing next ts)

theorem outlineBearing_append (next : Option Int) (ts us : List (Tree Int)) :
    outlineBearing next (ts ++ us) =
      outlineBearing ((us.head?.map Tree.label).or next) ts ++ outlineBearing next us := by
  induction ts with
  | nil => rfl
  | cons t ts ih =>
    have hhead : ((ts ++ us).head?.map Tree.label).or next =
        (ts.head?.map Tree.label).or ((us.head?.map Tree.label).or next) := by
      cases ts <;> rfl
    rw [List.cons_append, outlineBearing, outlineBearing, ih, hhead, List.cons_append,
      List.append_assoc]

/-- **In a nested outline a tree takes a child if the next one lies deeper.** -/
theorem Forest.bearing_nest (ts : List (Tree Int)) :
    (nest id ts).bearing = outlineBearing none ts := by
  induction ts with
  | nil => rfl
  | cons t ts ih =>
    let deeper : Int → Bool := fun b => decide (t.label < b)
    have hroots : (nest id ts).roots.head? = ts.head?.map Tree.label := by
      cases ts <;> rfl
    show (!(t.children ++ (nest id ts).takeWhile deeper).isEmpty) ::
        ((t.children ++ (nest id ts).takeWhile deeper).bearing ++
          ((nest id ts).dropWhile deeper).bearing) = _
    rw [isEmpty_append, isEmpty_takeWhile, bearing_append, List.append_assoc,
      bearing_takeWhile_dropWhile, hroots, ih, outlineBearing, Bool.not_and, Bool.not_not,
      Option.or_none]

/-! ## 2. Elements with children in a reading -/

namespace Body

/-- Whether nothing is read. -/
def isEmpty {e : Bool} : Body e → Bool
  | .nil => true
  | .element _ _ _ => false
  | .block _ _ => false

/-- Whether what is read after an element of the given depth, in the same scope, makes it have a
    child: a block with an element in it, or a next element that lies deeper. -/
def bears (depth : Int) {e : Bool} : Body e → Bool
  | .nil => false
  | .element _ next _ => decide (depth < next)
  | .block inner rest => !inner.isEmpty || rest.bears depth

/-- For every element of a reading, in document order, whether it has a child. -/
def bearing {e : Bool} : Body e → List Bool
  | .nil => []
  | .element _ depth rest => rest.bears depth :: rest.bearing
  | .block inner rest => inner.bearing ++ rest.bearing

theorem isEmpty_eq_depths (b : Body false) : b.isEmpty = b.depths.isEmpty := by
  cases b <;> rfl

end Body

/-- For every node of some trees of a scope (latest first), whether it has a child, given what the
    rest of the scope does to the latest tree. -/
def openBearing (bears : Int → Bool) : List (Tree Int) → List Bool
  | [] => []
  | t :: ts =>
    outlineBearing (some t.label) ts.reverse ++
      (!t.children.isEmpty || bears t.label) :: t.children.bearing

theorem outlineBearing_reverse (next : Option Int) (ts : List (Tree Int)) :
    outlineBearing next ts.reverse =
      openBearing (fun depth => next.any fun b => decide (depth < b)) ts := by
  cases ts with
  | nil => rfl
  | cons t ts =>
    rw [List.reverse_cons, outlineBearing_append, outlineBearing, outlineBearing, List.append_nil]
    rfl

/-- **The trees of a reading have children where the reading says so.** -/
theorem bearing_outline {e : Bool} (b : Body e) (ts : List (Tree Int)) (h : e = true → ts ≠ []) :
    outlineBearing none (b.outline ts).reverse = openBearing b.bears ts ++ b.bearing := by
  induction b generalizing ts with
  | nil =>
    rw [Body.outline, Body.bearing, List.append_nil, outlineBearing_reverse]
    rfl
  | element line depth rest ih =>
    -- the trees before are closed: the new element decides for the latest of them
    rw [Body.outline, ih _ fun _ => List.cons_ne_nil _ _, openBearing, outlineBearing_reverse,
      Body.bearing, List.append_assoc]
    rfl
  | block inner rest ihb ih =>
    obtain ⟨t, ts, rfl⟩ := List.exists_cons_of_ne_nil (h rfl)
    let f := Forest.nest id (inner.outline []).reverse
    have hbearing : f.bearing = inner.bearing := by
      rw [Forest.bearing_nest, ihb [] fun e => by cases e]
      rfl
    have hempty : f.isEmpty = inner.isEmpty := by
      rw [Forest.isEmpty_eq_labels, Forest.labels_nest, labels_outline inner []
        (fun e => by cases e), inner.isEmpty_eq_depths]
      rfl
    have hlatest : (!(t.addChildren f).children.isEmpty || rest.bears t.label) =
        (!t.children.isEmpty || (Body.block inner rest).bears t.label) := by
      rw [Tree.addChildren, Forest.isEmpty_append, hempty, Body.bears, Bool.not_and,
        Bool.or_assoc]
    show outlineBearing none (rest.outline (t.addChildren f :: ts)).reverse = _
    rw [ih _ fun _ => List.cons_ne_nil _ _, openBearing, openBearing]
    show outlineBearing (some t.label) ts.reverse ++
        (!(t.addChildren f).children.isEmpty || rest.bears t.label) ::
          (t.children ++ f).bearing ++ rest.bearing = _
    rw [hlatest, Forest.bearing_append, hbearing, Body.bearing]
    simp only [List.append_assoc, List.cons_append]

/-! ## 3. The lines ahead -/

/-- Lines with content. -/
def Line.contents (ls : List Line) : List Line := ls.filter fun l => !l.isSkippable

namespace Line

variable {l a : Line} {opens : Bool} {as : List Line}

/-- The line that decides the look-ahead: the next one with content, after a lone `{` the one after
    it. -/
def decisive? (opens : Bool) (ahead : List Line) : Option Line :=
  if !opens && ahead.head?.any (fun a => a.text == Token.opening) then ahead.tail.head?
  else ahead.head?

/-- Whether a child can be missed: the line that decides is a `}` or a directive, and the look-ahead
    does not see what stands behind it. -/
def childMissed (opens : Bool) (ahead : List Line) : Bool :=
  (decisive? opens ahead).any fun a => a.text == Token.closing || a.isDirective

/-- Whether a child can be mistaken: a `{` comes where a child would be, or the block of a lone `{`
    stands left of the line, or the next line stands to the right by less than a unit. -/
def childMistaken (unit : Int) (l : Line) (opens : Bool) : List Line → Bool
  | [] => false
  | a :: as =>
    if a.text = Token.opening then
      opens || decide (a.indent < l.indent) || as.head?.any fun b => b.text == Token.opening
    else !opens && decide (a.depth unit ≤ l.depth unit)

theorem texts_of_isElement (h : a.isElement = true) :
    a.text ≠ Token.opening ∧ a.text ≠ Token.closing ∧ a.isDirective = false := by
  obtain ⟨_, hd, hb⟩ := isElement_iff.mp h
  rw [Bool.eq_false_iff, ne_eq, isBrace_iff, not_or] at hb
  exact ⟨hb.1, hb.2, hd⟩

theorem text_ne_opening_of_isDirective (h : a.isDirective = true) : a.text ≠ Token.opening := by
  intro ht
  rw [isDirective_of_brace (isBrace_iff.mpr (.inl ht))] at h
  cases h

theorem depth_mono {unit : Int} (hu : 0 < unit) (h : l.indent ≤ a.indent) :
    l.depth unit ≤ a.depth unit := by
  have hfloor : ∀ n : Int, n.fdiv unit = n / unit := fun n =>
    Int.fdiv_eq_ediv_of_nonneg n (Int.le_of_lt hu)
  unfold depth
  rw [hfloor, hfloor]
  exact Int.ediv_le_ediv hu h

end Line

/-- What the look-ahead of a line says, against whether its node has a child. -/
structure ChildrenForeseen (unit : Int) (l : Line) (opens : Bool) (ahead : List Line)
    (hasChild : Bool) : Prop where
  /-- A child is missed only behind a `}` or a directive. -/
  complete : hasChild = true →
    l.childrenAhead opens ahead = true ∨ Line.childMissed opens ahead = true
  /-- A child is made out where there is none only at a `{` and within a unit. -/
  sound : hasChild = false →
    l.childrenAhead opens ahead = false ∨ l.childMistaken unit opens ahead = true
  /-- Where an element line comes next, there is a child if a block is open or it lies deeper. -/
  direct : ∀ a as, ahead = a :: as → a.isElement = true →
    (hasChild = true ↔ opens = true ∨ l.depth unit < a.depth unit)

namespace ChildrenForeseen

variable {unit : Int} {l a : Line} {opens hasChild : Bool} {as : List Line}

theorem nothing : ChildrenForeseen unit l opens [] false where
  complete h := by cases h
  sound _ := .inl (by cases opens <;> rfl)
  direct _ _ e := by cases e

/-- At a `}` and at a directive the look-ahead stops. -/
theorem stopped (h : a.text = Token.closing ∨ a.isDirective = true) :
    ChildrenForeseen unit l opens (a :: as) hasChild := by
  have hopening : (a.text == Token.opening) = false := by
    refine beq_false_of_ne fun ht => ?_
    rcases h with h | h
    · rw [ht] at h
      cases h
    · exact Line.text_ne_opening_of_isDirective h ht
  have hdecisive : Line.decisive? opens (a :: as) = some a := by
    simp [Line.decisive?, hopening]
  have hforesees : l.childrenAhead opens (a :: as) = false := by
    simp [Line.childrenAhead, hopening, Line.childAhead, h]
  refine ⟨fun _ => .inr ?_, fun _ => .inl hforesees, ?_⟩
  · rw [Line.childMissed, hdecisive]
    rcases h with h | h
    · simp [h]
    · simp [h]
  · rintro a' as' e he
    cases e
    obtain ⟨_, hc, hd⟩ := Line.texts_of_isElement he
    rcases h with h | h
    · exact absurd h hc
    · rw [hd] at h
      cases h

/-- At an element line the look-ahead goes by columns. -/
theorem element (hu : 0 < unit) (he : a.isElement = true)
    (h : hasChild = true ↔ opens = true ∨ l.depth unit < a.depth unit) :
    ChildrenForeseen unit l opens (a :: as) hasChild := by
  obtain ⟨ho, hc, hd⟩ := Line.texts_of_isElement he
  have hforesees : l.childrenAhead opens (a :: as) = (opens || decide (l.indent < a.indent)) := by
    simp [Line.childrenAhead, ho, Line.childAhead, hc, hd]
  refine ⟨fun hchild => .inl ?_, fun hchild => .inr ?_, ?_⟩
  · rw [hforesees]
    rcases h.mp hchild with hopens | hdeeper
    · simp [hopens]
    · -- what lies deeper stands to the right
      have hindent : l.indent < a.indent := by
        by_contra hle
        have := Line.depth_mono (l := a) (a := l) hu (by omega)
        omega
      simp [hindent]
  · have hnot : ¬ (opens = true ∨ l.depth unit < a.depth unit) := by
      intro hor
      rw [h.mpr hor] at hchild
      cases hchild
    rw [not_or] at hnot
    simp [Line.childMistaken, ho, hnot.1]
    omega
  · rintro a' as' e _
    cases e
    exact h

/-- A `{` inside the block that a line opens is taken for a child. -/
theorem inside (ht : a.text = Token.opening) :
    ChildrenForeseen unit l true (a :: as) hasChild where
  complete _ := .inl (by
    have hd := Line.isDirective_of_brace (Line.isBrace_iff.mpr (.inl ht))
    have hc : a.text ≠ Token.closing := by rw [ht]; decide
    simp [Line.childrenAhead, Line.childAhead, hc, hd])
  sound _ := .inr (by simp [Line.childMistaken, ht])
  direct a' as' e he := by
    cases e
    exact absurd ht (Line.texts_of_isElement he).1

/-- Behind a lone `{` any line but a `}` and a directive is taken for a child. -/
theorem brace (ht : a.text = Token.opening) (hp : ∀ b ∈ as, b.IsProper ∧ b.isSkippable = false)
    (hnil : as = [] → hasChild = false)
    (helement : ∀ b bs, as = b :: bs → b.isElement = true → l.indent ≤ a.indent →
      hasChild = true) :
    ChildrenForeseen unit l false (a :: as) hasChild := by
  have hforesees : l.childrenAhead false (a :: as) = l.childAhead true as := by
    simp [Line.childrenAhead, ht]
  have hmissed : Line.childMissed false (a :: as) =
      as.head?.any fun b => b.text == Token.closing || b.isDirective := by
    simp [Line.childMissed, Line.decisive?, ht]
  have hmistaken : l.childMistaken unit false (a :: as) =
      (decide (a.indent < l.indent) || as.head?.any fun b => b.text == Token.opening) := by
    simp [Line.childMistaken, ht]
  have hdirect : ∀ a' as', a :: as = a' :: as' → a'.isElement = true →
      (hasChild = true ↔ false = true ∨ l.depth unit < a'.depth unit) := by
    rintro a' as' e he
    cases e
    exact absurd ht (Line.texts_of_isElement he).1
  refine ⟨fun hchild => ?_, fun hchild => ?_, hdirect⟩
  · cases as with
    | nil =>
      rw [hnil rfl] at hchild
      cases hchild
    | cons b bs =>
      rw [hforesees, hmissed]
      by_cases hstop : b.text = Token.closing ∨ b.isDirective = true
      · exact .inr (by simpa using hstop)
      · exact .inl (by simp [Line.childAhead, hstop])
  · cases as with
    | nil => exact .inl (by rw [hforesees]; rfl)
    | cons b bs =>
      obtain ⟨hproper, hcontent⟩ := hp b List.mem_cons_self
      rw [hforesees, hmistaken]
      rcases Line.kinds hproper with hs | hc | ⟨_, hd | ho | ⟨he, _⟩⟩
      · rw [hcontent] at hs
        cases hs
      · exact .inl (by simp [Line.childAhead, hc])
      · exact .inl (by simp [Line.childAhead, hd])
      · exact .inr (by simp [ho])
      · -- an element in the block: only a block left of the line is not one of its own
        refine .inr ?_
        have hleft : a.indent < l.indent := by
          by_contra hle
          rw [helement b bs rfl he (by omega)] at hchild
          cases hchild
        simp [hleft]

end ChildrenForeseen

/-! ## 4. The look-ahead along a reading -/

namespace Reads

variable {config : Config} {e : Bool} {p : Place e} {c c' : Cursor} {b : Body e}

/-- A reading passes over the lines without content before it. -/
theorem at_content (h : Reads config p c b c') :
    ∃ c₀, Reads config p c₀ b c' ∧ c₀.ahead = c.ahead.dropWhile Line.isSkippable := by
  have stays : ∀ {c : Cursor} {l : Line} {ls : List Line}, c.ahead = l :: ls →
      l.isSkippable = false → c.ahead = c.ahead.dropWhile Line.isSkippable := by
    intro c l ls e hs
    rw [e, List.dropWhile_cons_of_neg (by rw [hs]; exact Bool.false_ne_true)]
  have brace {l : Line} (h : l.text = Token.opening ∨ l.text = Token.closing) :=
    Line.isSkippable_of_brace (Line.isBrace_iff.mpr h)
  induction h with
  | finish h =>
    have hnil := List.head?_eq_none_iff.mp h
    exact ⟨_, .finish h, by rw [hnil]; rfl⟩
  | skip hn hs _ ih =>
    obtain ⟨c₀, h₀, e₀⟩ := ih
    exact ⟨c₀, h₀, by rw [e₀, Cursor.ahead_of_next hn, List.dropWhile_cons_of_pos hs]⟩
  | close hn ht hb => exact ⟨_, .close hn ht hb, stays (Cursor.ahead_of_next hn) (brace (.inr ht))⟩
  | stray hn ht hb hr _ =>
    exact ⟨_, .stray hn ht hb hr, stays (Cursor.ahead_of_next hn) (brace (.inr ht))⟩
  | dedent hn hs ht hi =>
    obtain ⟨ls, e⟩ := Cursor.peek?_eq_some hn
    exact ⟨_, .dedent hn hs ht hi, stays e hs⟩
  | @directive _ _ _ _ _ l _ _ hn hd hi hc hr _ =>
    obtain ⟨ls, e⟩ := Cursor.peek?_eq_some hn
    have hs : l.isSkippable = false := by
      by_contra hs
      rw [Line.isDirective_of_skippable (Bool.of_not_eq_false hs)] at hd
      cases hd
    exact ⟨_, .directive hn hd hi hc hr, stays e hs⟩
  | ignored hn ht hi hr _ =>
    exact ⟨_, .ignored hn ht hi hr, stays (Cursor.ahead_of_next hn) (brace (.inl ht))⟩
  | block hn ht hi hb hr _ _ =>
    exact ⟨_, .block hn ht hi hb hr, stays (Cursor.ahead_of_next hn) (brace (.inl ht))⟩
  | element hn he hi hw hd hr _ =>
    exact ⟨_, .element hn he hi hw hd hr,
      stays (Cursor.ahead_of_next hn) (Line.isElement_iff.mp he).1⟩
  | opening hn he hi hw hd hb hr _ _ =>
    exact ⟨_, .opening hn he hi hw hd hb hr,
      stays (Cursor.ahead_of_next hn) (Line.isElement_iff.mp he).1⟩

theorem eq_nil (h : Reads config p c b c') (hc : c.ahead = []) : b = .nil := by
  have hpeek : c.peek? = none := by rw [Cursor.peek?, hc]; rfl
  have hnext : ∀ {l : Line} {c₁ : Cursor}, c.next ≠ .ok (l, c₁) := by
    intro l c₁ hn
    rw [Cursor.ahead_of_next hn] at hc
    cases hc
  cases h with
  | finish _ => rfl
  | close _ _ _ => rfl
  | dedent _ _ _ _ => rfl
  | directive hn _ _ _ _ =>
    rw [hpeek] at hn
    cases hn
  | skip hn _ _ => exact absurd hn hnext
  | stray hn _ _ _ => exact absurd hn hnext
  | ignored hn _ _ _ => exact absurd hn hnext
  | block hn _ _ _ _ => exact absurd hn hnext
  | element hn _ _ _ _ _ => exact absurd hn hnext
  | opening hn _ _ _ _ _ _ => exact absurd hn hnext

/-- So it starts at the first line with content, or there is none and nothing is read. -/
theorem first_content (h : Reads config p c b c') :
    (Line.contents c.ahead = [] ∧ b = .nil) ∨
      ∃ c₀ a as, Reads config p c₀ b c' ∧ c₀.ahead = a :: as ∧ (a :: as) <:+ c.ahead ∧
        a.isSkippable = false ∧ Line.contents c.ahead = a :: Line.contents as := by
  obtain ⟨c₀, h₀, e₀⟩ := h.at_content
  have hcontents : Line.contents c.ahead = Line.contents c₀.ahead := by
    rw [e₀]
    induction c.ahead with
    | nil => rfl
    | cons l ls ih =>
      cases hs : l.isSkippable with
      | true =>
        rw [List.dropWhile_cons_of_pos hs, ← ih]
        simp [Line.contents, hs]
      | false => rw [List.dropWhile_cons_of_neg (by rw [hs]; exact Bool.false_ne_true)]
  cases hc : c₀.ahead with
  | nil =>
    exact .inl ⟨by rw [hcontents, hc]; rfl, h₀.eq_nil hc⟩
  | cons a as =>
    have hs : a.isSkippable = false := by
      have hhead := List.head?_dropWhile_not Line.isSkippable c.ahead
      rw [← e₀, hc] at hhead
      simpa using hhead
    refine .inr ⟨c₀, a, as, h₀, hc, ?_, hs, ?_⟩
    · rw [← hc, e₀]
      exact List.dropWhile_suffix _
    · rw [hcontents, hc]
      simp [Line.contents, hs]

/-- An element line is read, or it stands left of the scope and ends it. -/
theorem at_element {a : Line} {as : List Line} (h : Reads config p c b c')
    (hc : c.ahead = a :: as) (he : a.isElement = true) :
    (p.admits a.indent = true ∧ ∃ rest, b = .element a (a.depth config.indentUnit) rest) ∨
      (p.admits a.indent = false ∧ b = .nil) := by
  obtain ⟨hs, hd, _⟩ := Line.isElement_iff.mp he
  obtain ⟨ho, hcl, _⟩ := Line.texts_of_isElement he
  have hnext : ∀ {l : Line} {c₁ : Cursor}, c.next = .ok (l, c₁) → l = a := by
    intro l c₁ hn
    rw [Cursor.ahead_of_next hn] at hc
    exact (List.cons.inj hc).1
  have hpeek : c.peek? = some a := by rw [Cursor.peek?, hc]; rfl
  cases h with
  | finish h =>
    rw [hpeek] at h
    cases h
  | skip hn hskip _ =>
    cases hnext hn
    rw [hs] at hskip
    cases hskip
  | close hn ht _ =>
    cases hnext hn
    exact absurd ht hcl
  | stray hn ht _ _ =>
    cases hnext hn
    exact absurd ht hcl
  | dedent hn _ _ hi =>
    cases hpeek.symm.trans hn
    exact .inr ⟨hi, rfl⟩
  | directive hn hdir _ _ _ =>
    cases hpeek.symm.trans hn
    rw [hd] at hdir
    cases hdir
  | ignored hn ht _ _ =>
    cases hnext hn
    exact absurd ht ho
  | block hn ht _ _ _ =>
    cases hnext hn
    exact absurd ht ho
  | element hn _ hi _ hdepth _ =>
    cases hnext hn
    exact .inl ⟨hi, _, by rw [Line.depth_eq_of_checked hdepth]⟩
  | opening hn _ hi _ hdepth _ _ =>
    cases hnext hn
    exact .inl ⟨hi, _, by rw [Line.depth_eq_of_checked hdepth]⟩

/-- A lone `{` after an element opens a block, or it stands left of the scope and ends it. -/
theorem at_opening {p : Place true} {b : Body true} {a : Line} {as : List Line}
    (h : Reads config p c b c') (hc : c.ahead = a :: as) (ht : a.text = Token.opening) :
    (p.admits a.indent = true ∧ ∃ inner rest c₀ c₁, b = .block inner rest ∧ c₀.ahead = as ∧
        Reads config .block c₀ inner c₁ ∧ Reads config (p.settled a.indent) c₁ rest c') ∨
      (p.admits a.indent = false ∧ b = .nil) := by
  have hbrace : a.isBrace = true := Line.isBrace_iff.mpr (.inl ht)
  have hnext : ∀ {l : Line} {c₁ : Cursor}, c.next = .ok (l, c₁) → l = a ∧ c₁.ahead = as := by
    intro l c₁ hn
    rw [Cursor.ahead_of_next hn] at hc
    exact List.cons.inj hc
  have hpeek : c.peek? = some a := by rw [Cursor.peek?, hc]; rfl
  have hclosing : a.text ≠ Token.closing := by rw [ht]; decide
  have helement : a.isElement ≠ true := fun he => (Line.texts_of_isElement he).1 ht
  cases h with
  | finish h =>
    rw [hpeek] at h
    cases h
  | skip hn hskip _ =>
    cases (hnext hn).1
    rw [Line.isSkippable_of_brace hbrace] at hskip
    cases hskip
  | close hn hcl _ =>
    cases (hnext hn).1
    exact absurd hcl hclosing
  | stray hn hcl _ _ =>
    cases (hnext hn).1
    exact absurd hcl hclosing
  | dedent hn _ _ hi =>
    cases hpeek.symm.trans hn
    exact .inr ⟨hi, rfl⟩
  | directive hn hdir _ _ _ =>
    cases hpeek.symm.trans hn
    rw [Line.isDirective_of_brace hbrace] at hdir
    cases hdir
  | block hn _ hi hb hr =>
    obtain ⟨rfl, has⟩ := hnext hn
    exact .inl ⟨hi, _, _, _, _, rfl, has, hb, hr⟩
  | element hn he _ _ _ _ =>
    cases (hnext hn).1
    exact absurd he helement
  | opening hn he _ _ _ _ _ =>
    cases (hnext hn).1
    exact absurd he helement

/-- Where no line with content is ahead, nothing is read, and no line with content is left. -/
theorem of_no_content (h : Reads config p c b c') (hc : Line.contents c.ahead = []) :
    b = .nil ∧ Line.contents c'.ahead = [] := by
  constructor
  · rcases h.first_content with ⟨_, hb⟩ | ⟨c₀, a, as, _, _, _, _, e⟩
    · exact hb
    · rw [hc] at e
      cases e
  · have hsub : Line.contents c'.ahead <:+ Line.contents c.ahead := h.forward.1.filter _
    rw [hc] at hsub
    exact List.suffix_nil.mp hsub

/-- A block whose first line with content is an element line is not empty. -/
theorem block_bears {inner : Body false} {a : Line} {as : List Line}
    (h : Reads config .block c inner c') (hc : Line.contents c.ahead = a :: as)
    (he : a.isElement = true) : inner.isEmpty = false := by
  rcases h.first_content with ⟨hnil, _⟩ | ⟨c₀, a', as', h₀, hc₀, _, _, e⟩
  · rw [hc] at hnil
    cases hnil
  · rw [hc] at e
    cases e
    rcases h₀.at_element hc₀ he with ⟨_, rest, rfl⟩ | ⟨hi, _⟩
    · rfl
    · cases hi

end Reads

theorem Line.mem_contents {ls : List Line} {l : Line} (h : l ∈ Line.contents ls) :
    l ∈ ls ∧ l.isSkippable = false := by
  simpa [Line.contents] using h

theorem Place.admits_after {e : Bool} {p : Place e} {i j : Int} (h : p.admits i = true)
    (hij : i ≤ j) : (p.settled i).withElement.admits j = true := by
  obtain ⟨braced, margin⟩ := p
  cases margin with
  | none => simpa [admits, settled, withElement] using hij
  | some m =>
    simp [admits, settled, withElement] at h ⊢
    omega

section Elements

variable {config : Config} {p : Place true} {c c₁ c₂ : Cursor} {b : Body true}

/-- The look-ahead of an element line without a `{`. -/
theorem Reads.foreseen_element {l : Line} (h : Reads config p c b c₂)
    (hp : ∀ l ∈ c.ahead, l.IsProper) (hi : ∀ i, l.indent ≤ i → p.admits i = true) :
    ChildrenForeseen config.indentUnit l false (Line.contents c.ahead)
      (b.bears (l.depth config.indentUnit)) := by
  rcases h.first_content with ⟨hnil, rfl⟩ | ⟨c₀, a, as, h₀, hc₀, hsuffix, hs, e⟩
  · rw [hnil]
    exact .nothing
  · have hproper : ∀ l ∈ a :: as, l.IsProper := fun l hl => hp l (hsuffix.subset hl)
    rw [e]
    rcases Line.kinds (hproper a List.mem_cons_self) with hskip | ht | ⟨_, hd | ht | ⟨he, _⟩⟩
    · rw [hs] at hskip
      cases hskip
    · exact .stopped (.inl ht)
    · exact .stopped (.inr hd)
    · have hcontents : ∀ b ∈ Line.contents as, b.IsProper ∧ b.isSkippable = false := by
        intro b hb
        obtain ⟨hmem, hcontent⟩ := Line.mem_contents hb
        exact ⟨hproper b (List.mem_cons_of_mem _ hmem), hcontent⟩
      rcases h₀.at_opening hc₀ ht with ⟨_, inner, rest, c₃, c₄, rfl, rfl, hb, hr⟩ | ⟨hleft, rfl⟩
      · refine .brace ht hcontents (fun hnil => ?_) (fun b bs hbs he _ => ?_)
        · obtain ⟨rfl, hnil'⟩ := hb.of_no_content hnil
          obtain ⟨rfl, _⟩ := hr.of_no_content hnil'
          rfl
        · rw [Body.bears, hb.block_bears hbs he]
          rfl
      · refine .brace ht hcontents (fun _ => rfl) (fun b bs _ _ hle => ?_)
        rw [hi _ hle] at hleft
        cases hleft
    · rcases h₀.at_element hc₀ he with ⟨_, rest, rfl⟩ | ⟨hleft, rfl⟩
      · exact .element config.indentUnit_pos he (by simp [Body.bears])
      · -- the line ends the scope: it stands left of the margin, so it does not lie deeper
        refine .element config.indentUnit_pos he ?_
        have hlt : a.indent < l.indent := by
          by_contra hle
          rw [hi _ (by omega)] at hleft
          cases hleft
        have hdepth := Line.depth_mono (l := a) (a := l) config.indentUnit_pos (by omega)
        simp [Body.bears]
        omega

/-- The look-ahead of an element line that ends with a `{`. -/
theorem Reads.foreseen_opening {l : Line} {inner : Body false}
    (hb : Reads config .block c inner c₁) (hr : Reads config p c₁ b c₂)
    (hp : ∀ l ∈ c.ahead, l.IsProper) :
    ChildrenForeseen config.indentUnit l true (Line.contents c.ahead)
      ((Body.block inner b).bears (l.depth config.indentUnit)) := by
  rcases hb.first_content with ⟨hnil, rfl⟩ | ⟨c₀, a, as, h₀, hc₀, hsuffix, hs, e⟩
  · obtain ⟨_, hnil'⟩ := hb.of_no_content hnil
    obtain ⟨rfl, _⟩ := hr.of_no_content hnil'
    rw [hnil]
    exact .nothing
  · rcases Line.kinds (hp a (hsuffix.subset List.mem_cons_self)) with
      hskip | ht | ⟨_, hd | ht | ⟨he, _⟩⟩
    · rw [hs] at hskip
      cases hskip
    · rw [e]
      exact .stopped (.inl ht)
    · rw [e]
      exact .stopped (.inr hd)
    · rw [e]
      exact .inside ht
    · have hinner := hb.block_bears e he
      rw [e]
      exact .element config.indentUnit_pos he (by simp [Body.bears, hinner])

end Elements

namespace Line

theorem decisive?_take (opens : Bool) (ahead : List Line) :
    decisive? opens (ahead.take 2) = decisive? opens ahead := by
  match ahead with
  | [] => rfl
  | [_] => rfl
  | _ :: _ :: _ => rfl

theorem childMistaken_take (unit : Int) (l : Line) (opens : Bool) (ahead : List Line) :
    l.childMistaken unit opens (ahead.take 2) = l.childMistaken unit opens ahead := by
  match ahead with
  | [] => rfl
  | [_] => rfl
  | _ :: _ :: _ => rfl

end Line

/-- Two lines with content are enough. -/
theorem ChildrenForeseen.take {unit : Int} {l : Line} {opens hasChild : Bool} {ahead : List Line}
    (h : ChildrenForeseen unit l opens ahead hasChild) :
    ChildrenForeseen unit l opens (ahead.take 2) hasChild where
  complete := by
    rw [Line.childrenAhead_take, Line.childMissed, Line.decisive?_take]
    exact h.complete
  sound := by
    rw [Line.childrenAhead_take, Line.childMistaken_take]
    exact h.sound
  direct a as e := by
    cases ahead with
    | nil => cases e
    | cons b bs =>
      cases e
      exact h.direct a bs rfl

/-- **Along a reading, every element line foresees the children of its element.** -/
theorem Reads.foreseen {config : Config} {e : Bool} {p : Place e} {c c' : Cursor} {b : Body e}
    (h : Reads config p c b c') (hp : ∀ l ∈ c.ahead, l.IsProper) :
    ∃ own, elementLines 0 c.ahead = own ++ elementLines 0 c'.ahead ∧
      List.Forall₂ (fun x hasChild => ∃ code words opens,
          x.1.elementWords = .ok (code, words, opens) ∧
          ChildrenForeseen config.indentUnit x.1 opens ((Cursor.ofLines x.2).upcoming 2) hasChild)
        own b.bearing := by
  induction h with
  | finish _ => exact ⟨[], rfl, .nil⟩
  | skip hn hs _ ih =>
    rw [Cursor.ahead_of_next hn, elementLines_skippable _ hs]
    exact ih (Cursor.proper_of_next hn hp).2
  | close hn ht _ =>
    rw [Cursor.ahead_of_next hn, elementLines_brace _ (Line.isBrace_iff.mpr (.inr ht))]
    exact ⟨[], rfl, .nil⟩
  | stray hn ht _ _ ih =>
    rw [Cursor.ahead_of_next hn, elementLines_brace _ (Line.isBrace_iff.mpr (.inr ht))]
    exact ih (Cursor.proper_of_next hn hp).2
  | dedent _ _ _ _ => exact ⟨[], rfl, .nil⟩
  | directive hn hd _ hc _ ih =>
    obtain ⟨ls, e⟩ := Cursor.peek?_eq_some hn
    rw [e, elementLines_directive _ hd, ← (Directive.collectAt_eq_ok e hc).1]
    exact ih (Directive.proper_of_collectAt hn hc hp)
  | ignored hn ht _ _ ih =>
    rw [Cursor.ahead_of_next hn, elementLines_brace _ (Line.isBrace_iff.mpr (.inl ht))]
    exact ih (Cursor.proper_of_next hn hp).2
  | block hn ht _ hb _ ihb ih =>
    have hp' := (Cursor.proper_of_next hn hp).2
    obtain ⟨inside, e₁, h₁⟩ := ihb hp'
    obtain ⟨after, e₂, h₂⟩ := ih (hb.proper hp')
    refine ⟨inside ++ after, ?_, List.rel_append h₁ h₂⟩
    rw [Cursor.ahead_of_next hn, elementLines_brace _ (Line.isBrace_iff.mpr (.inl ht)), e₁, e₂,
      List.append_assoc]
  | @element _ _ _ c' _ l code words depth _ hn he hi hw hd hr ih =>
    have hp' := (Cursor.proper_of_next hn hp).2
    obtain ⟨after, e₂, h₂⟩ := ih hp'
    have hown := hr.foreseen_element (l := l) hp' fun i hle => Place.admits_after hi hle
    rw [Line.depth_eq_of_checked hd] at hown
    refine ⟨(l, c'.ahead) :: after, ?_, .cons ⟨code, words, false, hw, hown.take⟩ h₂⟩
    rw [Cursor.ahead_of_next hn, elementLines_element _ he, e₂, List.cons_append]
  | @opening _ _ _ c' _ _ l code words depth _ _ hn he hi hw hd hb hr ihb ih =>
    have hp' := (Cursor.proper_of_next hn hp).2
    obtain ⟨inside, e₁, h₁⟩ := ihb hp'
    obtain ⟨after, e₂, h₂⟩ := ih (hb.proper hp')
    have hown := hb.foreseen_opening (l := l) hr hp'
    rw [Line.depth_eq_of_checked hd] at hown
    refine ⟨(l, c'.ahead) :: (inside ++ after), ?_,
      .cons ⟨code, words, true, hw, hown.take⟩ (List.rel_append h₁ h₂)⟩
    rw [Cursor.ahead_of_next hn, elementLines_element _ he, e₁, e₂, List.cons_append,
      List.append_assoc]

/-! ## 5. The look-ahead in a body -/

theorem Forest.labels_eq_subtrees {α : Type} (f : Forest α) :
    f.labels = f.subtrees.map Tree.label := by
  induction f with
  | nil => rfl
  | node a cs ss ihc ihs => simp only [labels, subtrees, List.map_cons, List.map_append, ihc, ihs]

/-- The elements of a body are those that its lines describe. -/
theorem Draft.readBody_describes (d : Draft) {lines : List Line} (hp : ∀ l ∈ lines, l.IsProper)
    {f : Forest Element} {d' : Draft} (ok : d.readBody lines = .ok (f, d')) :
    List.Forall₂ (fun x e => (x.1.describe d x.2).map Element.bare = .ok e.bare)
      (elementLines 0 (lines.flatMap (Statement.writeOut d.config))) f.labels := by
  obtain ⟨o, hrun, e⟩ := bind_eq_ok.mp ok
  obtain ⟨rfl, rfl⟩ := Prod.mk.inj (Except.ok.inj e)
  obtain ⟨howned, hlabels⟩ := Outline.run_labels (fun s hs => by cases hs) hrun
  have hdescribed : (elementLines 0 (lines.flatMap (Statement.writeOut d.config))).map
        (fun x => (x.1.describe d x.2).map Element.bare) =
      o.labels.map (fun e => (.ok e.bare : Except Fault Element)) := by
    have helements : o.labels.map Element.bare =
        Statement.elements d (Statement.ofLinesFrom d.config 0 _) := hlabels
    rw [← elements_ofLines d 0 (Statement.isProper_of_mem_flatMap hp), ← helements, List.map_map]
    rfl
  rw [Outline.finishFrom_labels _ _ howned]
  rw [← List.forall₂_eq_eq_eq, List.forall₂_map_left_iff, List.forall₂_map_right_iff] at hdescribed
  exact hdescribed

/-- **The look-ahead tells the truth but for the cases named.** A body is read into a forest, with
    one node for each of its element lines, in order. The element of the node is described with what
    the look-ahead of the line says about children, and that is what the forest holds, unless a
    child is missed behind a `}` or a directive or mistaken at a `{` or within a unit. -/
theorem children_foreseen (d : Draft) {lines : List Line} (hp : ∀ l ∈ lines, l.IsProper) :
    ∃ f d', d.readBody lines = .ok (f, d') ∧
      List.Forall₂ (fun x t => ∃ code words opens, x.1.elementWords = .ok (code, words, opens) ∧
          let ahead := (Cursor.ofLines x.2).upcoming 2
          let hasChildren := x.1.childrenAhead opens ahead
          t.label.bare = (ElementPlan.read d x.1 code words hasChildren).value.element.bare ∧
          ChildrenForeseen d.config.indentUnit x.1 opens ahead (!t.children.isEmpty))
        (elementLines 0 (lines.flatMap (Statement.writeOut d.config))) f.subtrees := by
  have hw := @Statement.isProper_of_mem_flatMap d.config lines hp
  obtain ⟨b, hb⟩ := exists_reads_document d.config hw
  obtain ⟨f, d', ok, hmap⟩ := d.readBody_reads hp hb
  refine ⟨f, d', ok, ?_⟩
  have hbearing : b.bearing = f.subtrees.map fun t => !t.children.isEmpty := by
    rw [← Forest.bearing_eq_subtrees, ← Forest.bearing_map Element.depth, hmap, Forest.bearing_nest,
      bearing_outline b [] fun e => by cases e]
    rfl
  obtain ⟨own, e, hown⟩ := hb.foreseen hw
  have hlines : elementLines 0 (lines.flatMap (Statement.writeOut d.config)) = own := by
    rw [← List.append_nil own]
    exact e
  have hlabels := d.readBody_describes hp ok
  rw [Forest.labels_eq_subtrees, List.forall₂_map_right_iff] at hlabels
  rw [hbearing, ← hlines, List.forall₂_map_right_iff] at hown
  refine hown.mp (fun x t hx hlabel => ?_) hlabels
  obtain ⟨code, words, opens, hwords, hforeseen⟩ := hx
  refine ⟨code, words, opens, hwords, ?_, hforeseen⟩
  rw [Line.describe, hwords] at hlabel
  exact (Except.ok.inj hlabel).symm

/-- A directive before the children, a block with a brace in it, and a child within a unit: what the
    look-ahead of each line says, and which nodes have children. -/
theorem children_foreseen_mixed :
    let lines := Line.ofSource 2
      "main\n  @mobile pad=8\n  h1 t=a\nul \x7b\n  \x7b\n\x7d\np\n b t=c\n\x7d".toList
    let read := elementLines 0 (lines.flatMap (Statement.writeOut .default))
    (∀ l ∈ lines, l.IsProper) ∧
    read.map (fun x => x.1.elementWords.map fun w =>
        (x.1.number, x.1.childrenAhead w.2.2 ((Cursor.ofLines x.2).upcoming 2))) =
      [.ok (1, false), .ok (3, false), .ok (4, true), .ok (7, true), .ok (8, false)] ∧
    ∃ f d', (Draft.empty .default).readBody lines = .ok (f, d') ∧
      f.subtrees.map (fun t => (String.ofList t.label.tag, !t.children.isEmpty)) =
        [("main", true), ("h1", false), ("ul", false), ("p", false), ("div", false)] ∧
      List.Forall₂ (fun x t => ∃ code words opens, x.1.elementWords = .ok (code, words, opens) ∧
          ChildrenForeseen 2 x.1 opens ((Cursor.ofLines x.2).upcoming 2) (!t.children.isEmpty))
        read f.subtrees := by
  intro lines read
  have hp : ∀ l ∈ lines, l.IsProper := fun _ h => Line.isProper_of_mem_ofSource h
  obtain ⟨f, d', ok, hall⟩ := children_foreseen (.empty .default) hp
  have hnodes : ((Draft.empty .default).readBody lines).map
      (fun r => r.1.subtrees.map fun t => (String.ofList t.label.tag, !t.children.isEmpty)) =
      .ok [("main", true), ("h1", false), ("ul", false), ("p", false), ("div", false)] := by
    decide +kernel
  rw [ok] at hnodes
  refine ⟨hp, by decide +kernel, f, d', ok, Except.ok.inj hnodes, hall.imp fun x t hx => ?_⟩
  obtain ⟨code, words, opens, hwords, _, hforeseen⟩ := hx
  exact ⟨code, words, opens, hwords, hforeseen⟩

/-- The tags of the nodes of a body in document order, and whether each has a child. -/
def Draft.tagsAndChildren (d : Draft) (source : String) : Except Fault (List (String × Bool)) := do
  let (f, _) ← d.readBody (Line.ofSource d.config.tabWidth source.toList)
  return f.subtrees.map fun t => (String.ofList t.label.tag, !t.children.isEmpty)

/-- **Every case named occurs.** A container without text is a `section` if it has children and a
    `div` if it has none. Here it is a `div` with a child behind a directive, behind the `}` of an
    empty block and behind a stray `}`; and it is a `section` without children before a line within
    a unit, before a `{` in its block and before a block that does not belong to its scope. -/
theorem children_misjudged :
    let nodes := (Draft.empty .default).tagsAndChildren
    nodes "c\n  p t=x" = .ok [("section", true), ("p", false)] ∧
    nodes "c\np t=x" = .ok [("div", false), ("p", false)] ∧
    nodes "c\n  @mobile pad=8\n  p t=x" = .ok [("div", true), ("p", false)] ∧
    nodes "c \x7b\n\x7d\n  p t=x" = .ok [("div", true), ("p", false)] ∧
    nodes "c\n\x7d\n  p t=x" = .ok [("div", true), ("p", false)] ∧
    nodes "c\n p t=x" = .ok [("section", false), ("p", false)] ∧
    nodes "c \x7b\n  \x7b\n\x7d" = .ok [("section", false)] ∧
    nodes "main \x7b\n  c\n\x7b\n  p t=x\n\x7d" =
      .ok [("main", true), ("section", false), ("p", false)] := by
  decide +kernel

end OutlineMarkup
