/-
  File:      OutlineMarkup/Proofs/Placement.lean
  Subject:   Where variables and directives at the top are written does not matter.

  A document is put together from three lists, each in its order (`Interleaves`): variable lines,
  which may stand anywhere, directives at the top that are closed by a brace (`ClosedBlock`), which
  stay whole, and the lines of the body. A closed directive ends at its brace whatever follows
  (`ClosedBlock.split_append`), so the lines are cut into the pieces that they were put together
  from (`Cuts.of_standsAlone`), and the passes find the three lists again.

  * **`passes_placement`**: the passes come to the same as if all variables stood first, then the
    directives, then the body.
-/
import OutlineMarkup.Proofs.Skippable

namespace OutlineMarkup

/-! ## 1. Putting two lists together -/

/-- The third list holds the first two, each in its order. -/
inductive Interleaves {α : Type} : List α → List α → List α → Prop where
  | nil : Interleaves [] [] []
  | left {x : α} {xs ys zs : List α} (h : Interleaves xs ys zs) : Interleaves (x :: xs) ys (x :: zs)
  | right {y : α} {xs ys zs : List α} (h : Interleaves xs ys zs) :
      Interleaves xs (y :: ys) (y :: zs)

namespace Interleaves

variable {α β : Type} {xs ys zs : List α}

theorem nil_left (ys : List α) : Interleaves [] ys ys := by
  induction ys with
  | nil => exact .nil
  | cons y ys ih => exact .right ih

/-- One list behind the other. -/
theorem append (xs ys : List α) : Interleaves xs ys (xs ++ ys) := by
  induction xs with
  | nil => exact nil_left ys
  | cons x xs ih => exact .left ih

theorem symm (h : Interleaves xs ys zs) : Interleaves ys xs zs := by
  induction h with
  | nil => exact .nil
  | left _ ih => exact .right ih
  | right _ ih => exact .left ih

theorem mem (h : Interleaves xs ys zs) {a : α} (ha : a ∈ zs) : a ∈ xs ∨ a ∈ ys := by
  induction h with
  | nil => cases ha
  | left _ ih =>
    rcases List.mem_cons.mp ha with rfl | ha
    · exact .inl List.mem_cons_self
    · exact (ih ha).imp_left (List.mem_cons_of_mem _)
  | right _ ih =>
    rcases List.mem_cons.mp ha with rfl | ha
    · exact .inr List.mem_cons_self
    · exact (ih ha).imp_right (List.mem_cons_of_mem _)

/-- A selection that takes nothing of the second list sees only the first. -/
theorem filterMap_left (h : Interleaves xs ys zs) {f : α → Option β} (hy : ∀ y ∈ ys, f y = none) :
    zs.filterMap f = xs.filterMap f := by
  induction h with
  | nil => rfl
  | left _ ih => rw [List.filterMap_cons, List.filterMap_cons, ih hy]
  | right _ ih =>
    rw [List.filterMap_cons, hy _ List.mem_cons_self]
    exact ih fun y h => hy y (List.mem_cons_of_mem _ h)

/-- A test that holds on the first list and fails on the second tells them apart. -/
theorem filter_left (h : Interleaves xs ys zs) {p : α → Bool} (hx : ∀ x ∈ xs, p x = true)
    (hy : ∀ y ∈ ys, p y = false) : zs.filter p = xs := by
  induction h with
  | nil => rfl
  | left _ ih =>
    rw [List.filter_cons_of_pos (hx _ List.mem_cons_self),
      ih (fun x h => hx x (List.mem_cons_of_mem _ h)) hy]
  | right _ ih =>
    rw [List.filter_cons_of_neg (Bool.eq_false_iff.mp (hy _ List.mem_cons_self))]
    exact ih hx fun y h => hy y (List.mem_cons_of_mem _ h)

end Interleaves

/-! ## 2. Pieces that stand alone -/

namespace Directive

namespace Segment

/-- The lines of a segment. -/
def lines : Segment → List Line
  | .line l => [l]
  | .directive opening body => opening :: body

/-- A segment that is cut out whole wherever it stands. -/
def StandsAlone : Segment → Prop
  | .line l => opensTop l = false
  | .directive opening body =>
    opensTop opening = true ∧ ∀ rest, (Reach.ofOpening opening).split (body ++ rest) = (body, rest)

end Segment

/-- **Lines put together from pieces that stand alone are cut into these pieces.** -/
theorem Cuts.of_standsAlone {ss : List Segment} (h : ∀ s ∈ ss, s.StandsAlone) :
    Cuts opensTop (ss.flatMap Segment.lines) ss := by
  induction ss with
  | nil => exact .nil
  | cons s ss ih =>
    have hs : s.StandsAlone := h s List.mem_cons_self
    have hss := ih fun t ht => h t (List.mem_cons_of_mem _ ht)
    rw [List.flatMap_cons]
    cases s with
    | line l => exact .line hs hss
    | directive opening body =>
      obtain ⟨hopen, hsplit⟩ := hs
      have hcut : Cuts opensTop ((Reach.ofOpening opening).split
          (body ++ ss.flatMap Segment.lines)).2 ss := by
        rw [hsplit]
        exact hss
      have hwhole := Cuts.directive hopen hcut
      rw [hsplit] at hwhole
      exact hwhole

theorem Reach.split_braces_append {count : Int} {ls : List Line}
    (hall : (Reach.braces count).split ls = (ls, [])) (hclosed : depthAfter count ls ≤ 0)
    (rest : List Line) : (Reach.braces count).split (ls ++ rest) = (ls, rest) := by
  have hover : ∀ l, (Reach.braces (depthAfter count ls)).covers l = false := fun l =>
    decide_eq_false (Int.not_lt.mpr hclosed)
  rw [split_append_of_goes_on rest (congrArg Prod.snd hall), foldl_after_braces,
    split_of_not_covers fun l _ => hover l, List.append_nil]

/-- A directive at column 0 with a brace, which is closed at its last line; none of its lines
    declares a variable. -/
structure ClosedBlock (config : Config) where
  opening : Line
  body : List Line
  directive : opening.isDirective = true
  column : opening.indent = 0
  brace : '\x7b' ∈ opening.text
  not_variable : ∀ l ∈ opening :: body, l.isVariable = false
  /-- Reading the directive takes all of the lines, and finds it closed. -/
  closed : ∃ block c, collectAt config.breakpoints config.indentUnit
      (.ofLines (opening :: body)) = .ok (block, c) ∧
    block.terminated = true ∧ c.atEnd = true

namespace ClosedBlock

variable {config : Config} (b : ClosedBlock config)

/-- The lines of the directive as one piece. -/
def segment : Segment := .directive b.opening b.body

theorem cut_opening : ∃ head rest, Text.cut? '\x7b' b.opening.text = some (head, rest) := by
  cases h : b.opening.text.dropWhile (· ≠ '\x7b') with
  | nil =>
    have hall := List.dropWhile_eq_nil_iff.mp h _ b.brace
    exact absurd rfl (of_decide_eq_true hall)
  | cons c after => exact ⟨b.opening.text.takeWhile (· ≠ '\x7b'), after, by rw [Text.cut?, h]⟩

/-- A closed directive ends at its brace, whatever follows it. -/
theorem split_append (rest : List Line) :
    (Reach.ofOpening b.opening).split (b.body ++ rest) = (b.body, rest) := by
  obtain ⟨head, after, hcut⟩ := b.cut_opening
  obtain ⟨block, c, ok, hterminated, hend⟩ := b.closed
  rw [collectAt_cons _ _ (show (Cursor.ofLines (b.opening :: b.body)).ahead = _ from rfl)] at ok
  cases ok
  have hreach : Reach.ofOpening b.opening = .braces (1 + Token.braceBalance after) := by
    rw [Reach.ofOpening, hcut]
  have hsplit := Reach.split_ofOpening b.opening b.body
  have hnone : b.body.drop (extent b.opening b.body) = [] := List.isEmpty_iff.mp hend
  have hall : b.body.take (extent b.opening b.body) = b.body :=
    List.take_of_length_le (List.drop_eq_nil_iff.mp hnone)
  rw [hnone, hall, hreach] at hsplit
  have hclosed : depthAfter (1 + Token.braceBalance after) b.body ≤ 0 := by
    simp only [collect, hcut, hall] at hterminated
    exact of_decide_eq_true hterminated
  rw [hreach]
  exact Reach.split_braces_append hsplit hclosed rest

theorem standsAlone : b.segment.StandsAlone := by
  refine ⟨?_, b.split_append⟩
  rw [opensTop, b.directive, b.column]
  rfl

end ClosedBlock

end Directive

/-! ## 3. The passes -/

open Directive

/-- The passes never fail on lines, wherever they come from. -/
theorem Passes.ofLines_ok (config : Config) (lines : List Line) :
    ∃ p, ofLines config lines = .ok p := by
  let taken := takeTopLevel config 0 ((Draft.empty config).takeVariables lines).2
  obtain ⟨d, ok, _⟩ := ((Draft.empty config).takeVariables lines).1.addTopLevel_ok taken.1
  obtain ⟨f, d', okBody⟩ := d.readBody_ok taken.2
  refine ⟨⟨((Draft.empty config).takeVariables lines).1, d, d', f, taken.2.length⟩, ?_⟩
  unfold ofLines
  dsimp only
  rw [ok]
  show (d.readBody taken.2 >>= _) = _
  rw [okBody]
  rfl

/-- The passes see of lines the variables, the directives at the top, and what is left. -/
theorem Passes.ofLines_congr {config : Config} {lines lines' : List Line}
    (hvars : lines.filter Line.isVariable = lines'.filter Line.isVariable)
    (htaken : takeTopLevel config 0 (Line.withoutVariables lines) =
      takeTopLevel config 0 (Line.withoutVariables lines')) :
    ofLines config lines = ofLines config lines' := by
  unfold Line.withoutVariables at htaken
  unfold ofLines Draft.takeVariables
  dsimp only
  rw [hvars, htaken]

section Placement

variable {config : Config} {declaring body lines : List Line} {blocks : List (ClosedBlock config)}
  {pieces : List Segment}

/-- What the first two passes find in lines that are put together from variables, closed directives
    and lines of the body. -/
theorem takeTopLevel_pieces (hbody : ∀ l ∈ body, opensTop l = false)
    (hpieces : Interleaves (body.map Segment.line) (blocks.map ClosedBlock.segment) pieces) :
    takeTopLevel config 0 (pieces.flatMap Segment.lines) =
      ((blocks.map ClosedBlock.segment).filterMap (Segment.block? config), body) := by
  have halone : ∀ s ∈ pieces, s.StandsAlone := by
    intro s hs
    rcases hpieces.mem hs with h | h
    · obtain ⟨l, hl, rfl⟩ := List.mem_map.mp h
      exact hbody l hl
    · obtain ⟨b, _, rfl⟩ := List.mem_map.mp h
      exact b.standsAlone
  have hblocks : pieces.filterMap (Segment.block? config) =
      (blocks.map ClosedBlock.segment).filterMap (Segment.block? config) :=
    hpieces.symm.filterMap_left fun s hs => by
      obtain ⟨l, _, rfl⟩ := List.mem_map.mp hs
      rfl
  have hlines : pieces.filterMap Segment.line? = (body.map Segment.line).filterMap Segment.line? :=
    hpieces.filterMap_left fun s hs => by
      obtain ⟨b, _, rfl⟩ := List.mem_map.mp hs
      rfl
  have hsome : (body.map Segment.line).filterMap Segment.line? = body := by
    rw [List.filterMap_map]
    exact List.filterMap_some
  rw [(Cuts.of_standsAlone halone).takeTopLevel config, hblocks, hlines, hsome]

theorem not_variable_pieces (hbody : ∀ l ∈ body, l.isVariable = false)
    (hpieces : Interleaves (body.map Segment.line) (blocks.map ClosedBlock.segment) pieces) :
    ∀ l ∈ pieces.flatMap Segment.lines, l.isVariable = false := by
  intro l hl
  obtain ⟨s, hs, hl⟩ := List.mem_flatMap.mp hl
  rcases hpieces.mem hs with h | h
  · obtain ⟨l', hl', rfl⟩ := List.mem_map.mp h
    rw [List.mem_singleton.mp hl]
    exact hbody l' hl'
  · obtain ⟨b, _, rfl⟩ := List.mem_map.mp h
    exact b.not_variable l hl

/-- What the passes need to know of lines put together in any way. -/
theorem found_of_interleaves (hvars : ∀ l ∈ declaring, l.isVariable = true)
    (hbody : ∀ l ∈ body, l.isVariable = false ∧ opensTop l = false)
    (hpieces : Interleaves (body.map Segment.line) (blocks.map ClosedBlock.segment) pieces)
    (hlines : Interleaves declaring (pieces.flatMap Segment.lines) lines) :
    lines.filter Line.isVariable = declaring ∧
      takeTopLevel config 0 (Line.withoutVariables lines) =
        ((blocks.map ClosedBlock.segment).filterMap (Segment.block? config), body) := by
  have hrest := not_variable_pieces (fun l hl => (hbody l hl).1) hpieces
  have hwithout : Line.withoutVariables lines = pieces.flatMap Segment.lines :=
    hlines.symm.filter_left (fun l hl => by rw [hrest l hl]; rfl)
      fun l hl => by rw [hvars l hl]; rfl
  refine ⟨hlines.filter_left hvars hrest, ?_⟩
  rw [hwithout]
  exact takeTopLevel_pieces (fun l hl => (hbody l hl).2) hpieces

/-- **Where variables and closed directives are written does not matter.** Lines of the body and
    closed directives are put together in any way, the directives kept whole, and variable lines
    stand anywhere between them or inside the directives. The passes come to the same (the drafts
    after each pass with their rules and diagnostics, and the forest) as on the variables, the
    directives and the body one after the other. -/
theorem passes_placement (hvars : ∀ l ∈ declaring, l.isVariable = true)
    (hbody : ∀ l ∈ body, l.isVariable = false ∧ opensTop l = false)
    (hpieces : Interleaves (body.map Segment.line) (blocks.map ClosedBlock.segment) pieces)
    (hlines : Interleaves declaring (pieces.flatMap Segment.lines) lines) :
    ∃ p, Passes.ofLines config lines = .ok p ∧
      Passes.ofLines config
        (declaring ++ (blocks.flatMap fun b => b.opening :: b.body) ++ body) = .ok p := by
  obtain ⟨p, ok⟩ := Passes.ofLines_ok config lines
  refine ⟨p, ok, ?_⟩
  have hsorted : Interleaves (body.map Segment.line) (blocks.map ClosedBlock.segment)
      (blocks.map ClosedBlock.segment ++ body.map Segment.line) :=
    (Interleaves.append _ _).symm
  have happend : declaring ++ (blocks.flatMap fun b => b.opening :: b.body) ++ body =
      declaring ++
        (blocks.map ClosedBlock.segment ++ body.map Segment.line).flatMap Segment.lines := by
    rw [List.flatMap_append, List.flatMap_map, List.flatMap_map, List.append_assoc]
    exact congrArg (fun rest => declaring ++ (_ ++ rest)) (List.flatMap_singleton' body).symm
  obtain ⟨hv, ht⟩ := found_of_interleaves hvars hbody hpieces hlines
  obtain ⟨hv', ht'⟩ := found_of_interleaves hvars hbody hsorted (Interleaves.append declaring _)
  rw [happend, ← ok]
  exact Passes.ofLines_congr (hv'.trans hv.symm) (ht'.trans ht.symm)

end Placement

/-- An element before the keyframes that it uses, and the variable that it uses inside of them. -/
theorem passes_placement_keyframes :
    let user : Line := ⟨1, 0, "p bg=$a anim=\"fade 1s x\""⟩
    let red : Line := ⟨3, 0, "$a=red"⟩
    let child : Line := ⟨6, 2, "p t=x"⟩
    let fade : ClosedBlock .default :=
      { opening := ⟨2, 0, "@keyframes fade \x7b"⟩
        body := [⟨4, 2, "0% op=0"⟩, ⟨5, 0, "\x7d"⟩]
        directive := by decide
        column := rfl
        brace := by decide
        not_variable := List.forall_iff_forall_mem.mp (by decide)
        closed := ⟨_, _, rfl, by decide, rfl⟩ }
    let lines := Line.ofSource 2
      "p bg=$a anim=\"fade 1s x\"\n@keyframes fade \x7b\n$a=red\n  0% op=0\n\x7d\n  p t=x".toList
    (∀ l ∈ [red], l.isVariable = true) ∧
      (∀ l ∈ [user, child], l.isVariable = false ∧ opensTop l = false) ∧
      Interleaves ([user, child].map Segment.line) ([fade].map ClosedBlock.segment)
        [.line user, fade.segment, .line child] ∧
      Interleaves [red] ([.line user, fade.segment, .line child].flatMap Segment.lines) lines ∧
      ∃ p, Passes.ofLines .default lines = .ok p ∧
        Passes.ofLines .default ([red] ++ (fade.opening :: fade.body) ++ [user, child]) = .ok p ∧
        p.afterBody.diagnostics = [] ∧
        p.afterBody.utilities.render = (".n-um1pt9 \x7b background-color: var(--a); \x7d\n" ++
          ".n-3xb4sx \x7b opacity: 0; animation: fade 1s ease-in-out forwards; \x7d").toList := by
  intro user red child fade lines
  have hvars : ∀ l ∈ [red], l.isVariable = true := List.forall_iff_forall_mem.mp (by decide)
  have hbody : ∀ l ∈ [user, child], l.isVariable = false ∧ opensTop l = false :=
    List.forall_iff_forall_mem.mp (by decide)
  have hpieces : Interleaves ([user, child].map Segment.line) ([fade].map ClosedBlock.segment)
      [.line user, fade.segment, .line child] := .left (.right (.left .nil))
  have hcut : lines = [user, fade.opening, red] ++ fade.body ++ [child] := by decide +kernel
  have hlines : Interleaves [red]
      ([.line user, fade.segment, .line child].flatMap Segment.lines) lines := by
    rw [hcut]
    exact .right (.right (.left (.nil_left _)))
  obtain ⟨p, ok, ok'⟩ := passes_placement hvars hbody hpieces hlines
  have hfound : (Passes.ofLines .default lines).map
      (fun p => (p.afterBody.diagnostics, p.afterBody.utilities.render)) =
      .ok ([], (".n-um1pt9 \x7b background-color: var(--a); \x7d\n" ++
        ".n-3xb4sx \x7b opacity: 0; animation: fade 1s ease-in-out forwards; \x7d").toList) := by
    decide +kernel
  rw [ok] at hfound
  obtain ⟨hnone, hrules⟩ := Prod.mk.inj (Except.ok.inj hfound)
  exact ⟨hvars, hbody, hpieces, hlines, p, ok, ok', hnone, hrules⟩

end OutlineMarkup
