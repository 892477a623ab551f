/-
  File:      OutlineMarkup/Proofs/Reach.lean
  Subject:   How far directives reach, read line by line.

  The compiler counts the lines of a directive ahead when it meets its first line. Here the same is
  said as a scan with a state: after each line, how far the directive in progress still reaches
  (`Reach`). Both directives at the top and directives inside the element tree cut lines in this way
  (`Cuts`), so what follows is said once for both:

  * `Cuts.append`: where no directive goes on, the lines on both sides are cut apart;
  * `Cuts.insert`: a line that the directive in progress covers, and that leaves its braces as they
    are, goes into its body and changes nothing else.
-/
import OutlineMarkup.Proofs.Compile

namespace OutlineMarkup.Directive

/-! ## 1. The reach of a directive -/

/-- How far a directive still reaches. -/
inductive Reach where
  /-- Over the lines that are blank or lie deeper. -/
  | deeper (indent : Int)
  /-- Up to the line that closes the open braces, of which there are so many. -/
  | braces (count : Int)
  deriving DecidableEq, Repr

namespace Reach

/-- The reach of the directive that opens at a line. -/
def ofOpening (opening : Line) : Reach :=
  match Text.cut? '\x7b' opening.text with
  | none => .deeper opening.indent
  | some (_, rest) => .braces (1 + Token.braceBalance rest)

/-- Whether the next line belongs to the directive. -/
def covers : Reach → Line → Bool
  | .deeper indent, l => l.isBlank || decide (indent < l.indent)
  | .braces count, _ => decide (0 < count)

/-- The reach after a line of the directive. -/
def after : Reach → Line → Reach
  | .deeper indent, _ => .deeper indent
  | .braces count, l => .braces (count + Token.braceBalance l.text)

/-- Splits lines into those that the directive covers and the others. -/
def split : Reach → List Line → List Line × List Line
  | _, [] => ([], [])
  | r, l :: ls =>
    if r.covers l then (l :: (split (r.after l) ls).1, (split (r.after l) ls).2) else ([], l :: ls)

theorem split_deeper (opening : Line) (ls : List Line) :
    (Reach.deeper opening.indent).split ls =
      (ls.takeWhile (belongs opening), ls.dropWhile (belongs opening)) := by
  induction ls with
  | nil => rfl
  | cons l ls ih =>
    by_cases h : belongs opening l = true
    · have hc : (Reach.deeper opening.indent).covers l = true := h
      rw [split, if_pos hc, List.takeWhile_cons_of_pos h, List.dropWhile_cons_of_pos h, after, ih]
    · have hc : ¬(Reach.deeper opening.indent).covers l = true := h
      rw [split, if_neg hc, List.takeWhile_cons_of_neg h, List.dropWhile_cons_of_neg h]

theorem split_braces (count : Int) (ls : List Line) :
    (Reach.braces count).split ls =
      (ls.take (bracedExtent count ls), ls.drop (bracedExtent count ls)) := by
  induction ls generalizing count with
  | nil => rfl
  | cons l ls ih =>
    by_cases h : 0 < count
    · have hc : (Reach.braces count).covers l = true := decide_eq_true h
      rw [split, if_pos hc, bracedExtent, if_neg (Int.not_le.mpr h), List.take_succ_cons,
        List.drop_succ_cons, after, ih]
    · have hc : ¬(Reach.braces count).covers l = true := by simpa [covers] using h
      rw [split, if_neg hc, bracedExtent, if_pos (Int.not_lt.mp h)]
      rfl

/-- The lines that a directive covers are the ones that it owns. -/
theorem split_ofOpening (opening : Line) (following : List Line) :
    (ofOpening opening).split following =
      (following.take (extent opening following), following.drop (extent opening following)) := by
  cases h : Text.cut? '\x7b' opening.text with
  | none =>
    have e := List.takeWhile_append_dropWhile (p := belongs opening) (l := following)
    have htake := congrArg (List.take (following.takeWhile (belongs opening)).length) e
    have hdrop := congrArg (List.drop (following.takeWhile (belongs opening)).length) e
    rw [List.take_left] at htake
    rw [List.drop_left] at hdrop
    simp only [ofOpening, extent, h]
    rw [split_deeper, ← htake, ← hdrop]
  | some r =>
    simp only [ofOpening, extent, h]
    exact split_braces _ following

theorem split_append_split (r : Reach) (ls : List Line) :
    (r.split ls).1 ++ (r.split ls).2 = ls := by
  induction ls generalizing r with
  | nil => rfl
  | cons l ls ih =>
    by_cases h : r.covers l = true
    · rw [split, if_pos h]
      exact congrArg (l :: ·) (ih (r.after l))
    · rw [split, if_neg h]
      rfl

theorem split_of_not_covers {r : Reach} {ls : List Line}
    (h : ∀ l, ls.head? = some l → r.covers l = false) : r.split ls = ([], ls) := by
  cases ls with
  | nil => rfl
  | cons l ls =>
    have hl : ¬r.covers l = true := by simp [h l rfl]
    rw [split, if_neg hl]

/-- A directive that ends among the first lines ends there whatever follows. -/
theorem split_append_of_ends {r : Reach} {before : List Line} (after : List Line)
    (h : (r.split before).2 ≠ []) :
    r.split (before ++ after) = ((r.split before).1, (r.split before).2 ++ after) := by
  induction before generalizing r with
  | nil => exact absurd rfl h
  | cons l ls ih =>
    rw [List.cons_append]
    by_cases hl : r.covers l = true
    · rw [split, if_pos hl] at h
      rw [split, if_pos hl, split, if_pos hl, ih h]
    · rw [split, if_neg hl, split, if_neg hl]
      rfl

/-- A directive that covers all of the first lines goes on with those that follow. -/
theorem split_append_of_goes_on {r : Reach} {before : List Line} (following : List Line)
    (h : (r.split before).2 = []) :
    r.split (before ++ following) =
      (before ++ ((before.foldl after r).split following).1,
        ((before.foldl after r).split following).2) := by
  induction before generalizing r with
  | nil => rfl
  | cons l ls ih =>
    rw [List.cons_append]
    by_cases hl : r.covers l = true
    · rw [split, if_pos hl] at h
      rw [split, if_pos hl, ih h]
      rfl
    · rw [split, if_neg hl] at h
      cases h

end Reach

/-- The directive that opens at a line and owns the given lines. -/
def Block.ofBody (breakpoints : Table Text Text) (unit : Int) (opening : Line) (body : List Line) :
    Block :=
  match Text.cut? '\x7b' opening.text with
  | none =>
    let header := Header.read breakpoints opening.text
    { header
      line := opening.number
      lines := ruleOnHeader unit opening (Text.afterWords header.kind.ownWords opening.text) ++ body
      terminated := true }
  | some (head, rest) =>
    let depth := 1 + Token.braceBalance rest
    let rule := if depth ≤ 0 then Text.beforeLast '\x7d' rest else rest
    { header := Header.read breakpoints head
      line := opening.number
      lines := ruleOnHeader unit opening rule ++ body
      terminated := decide (depthAfter depth body ≤ 0) }

theorem collect_eq_ofBody (breakpoints : Table Text Text) (unit : Int) (opening : Line)
    (following : List Line) :
    collect breakpoints unit opening following =
      Block.ofBody breakpoints unit opening ((Reach.ofOpening opening).split following).1 := by
  rw [Reach.split_ofOpening]
  rfl

/-! ## 2. Cutting lines at directives -/

/-- A line on its own, or the first line of a directive with the lines that it owns. -/
inductive Segment where
  | line (l : Line)
  | directive (opening : Line) (body : List Line)
  deriving DecidableEq, Repr

/-- The segments of lines, where `isOpening` says which lines open a directive. -/
inductive Cuts (isOpening : Line → Bool) : List Line → List Segment → Prop where
  | nil : Cuts isOpening [] []
  | line {l : Line} {ls : List Line} {ss : List Segment} (h : isOpening l = false)
      (hr : Cuts isOpening ls ss) : Cuts isOpening (l :: ls) (.line l :: ss)
  | directive {l : Line} {ls : List Line} {ss : List Segment} (h : isOpening l = true)
      (hr : Cuts isOpening ((Reach.ofOpening l).split ls).2 ss) :
      Cuts isOpening (l :: ls) (.directive l ((Reach.ofOpening l).split ls).1 :: ss)

section Cuts

variable {isOpening : Line → Bool}

theorem exists_cuts (isOpening : Line → Bool) (n : Nat) (ls : List Line) (hn : ls.length ≤ n) :
    ∃ ss, Cuts isOpening ls ss := by
  induction n generalizing ls with
  | zero =>
    obtain rfl : ls = [] := List.length_eq_zero_iff.mp (Nat.le_zero.mp hn)
    exact ⟨[], .nil⟩
  | succ n ih =>
    cases ls with
    | nil => exact ⟨[], .nil⟩
    | cons l ls =>
      have hlen : ls.length ≤ n := Nat.le_of_succ_le_succ hn
      cases h : isOpening l with
      | false =>
        obtain ⟨ss, hss⟩ := ih ls hlen
        exact ⟨_, .line h hss⟩
      | true =>
        have hrest : ((Reach.ofOpening l).split ls).2.length ≤ n := by
          have e := congrArg List.length ((Reach.ofOpening l).split_append_split ls)
          rw [List.length_append] at e
          omega
        obtain ⟨ss, hss⟩ := ih _ hrest
        exact ⟨_, .directive h hss⟩

/-- How far the directive in progress reaches after one more line. -/
def nextReach (isOpening : Line → Bool) (reach : Option Reach) (l : Line) : Option Reach :=
  let fresh := if isOpening l then some (Reach.ofOpening l) else none
  match reach with
  | none => fresh
  | some r => if r.covers l then some (r.after l) else fresh

/-- How far the directive in progress reaches after some lines. -/
def reachAfter (isOpening : Line → Bool) (ls : List Line) : Option Reach :=
  ls.foldl (nextReach isOpening) none

theorem foldl_nextReach_of_goes_on {r : Reach} {ls : List Line} (h : (r.split ls).2 = []) :
    ls.foldl (nextReach isOpening) (some r) = some (ls.foldl Reach.after r) := by
  induction ls generalizing r with
  | nil => rfl
  | cons l ls ih =>
    by_cases hl : r.covers l = true
    · rw [Reach.split, if_pos hl] at h
      rw [List.foldl_cons, nextReach, if_pos hl]
      exact ih h
    · rw [Reach.split, if_neg hl] at h
      cases h

/-- Where a directive has ended, it is as if it had never been. -/
theorem foldl_nextReach_of_ends {r : Reach} {ls : List Line} (h : (r.split ls).2 ≠ []) :
    ls.foldl (nextReach isOpening) (some r) = reachAfter isOpening (r.split ls).2 := by
  induction ls generalizing r with
  | nil => exact absurd rfl h
  | cons l ls ih =>
    by_cases hl : r.covers l = true
    · rw [Reach.split, if_pos hl] at h ⊢
      rw [List.foldl_cons, nextReach, if_pos hl]
      exact ih h
    · rw [Reach.split, if_neg hl, List.foldl_cons, nextReach, if_neg hl]
      rfl

theorem reachAfter_line {l : Line} (h : isOpening l = false) (ls : List Line) :
    reachAfter isOpening (l :: ls) = reachAfter isOpening ls := by
  have hn : nextReach isOpening none l = none := by simp [nextReach, h]
  rw [reachAfter, List.foldl_cons, hn]
  rfl

theorem reachAfter_directive {l : Line} (h : isOpening l = true) (ls : List Line) :
    reachAfter isOpening (l :: ls) =
      ls.foldl (nextReach isOpening) (some (Reach.ofOpening l)) := by
  have hn : nextReach isOpening none l = some (Reach.ofOpening l) := by simp [nextReach, h]
  rw [reachAfter, List.foldl_cons, hn]

/-- **Where no directive goes on, lines are cut apart.** -/
theorem Cuts.append {before after : List Line} {ss ts : List Segment}
    (hb : Cuts isOpening before ss) (ha : Cuts isOpening after ts)
    (h : ∀ r l, reachAfter isOpening before = some r → after.head? = some l →
      r.covers l = false) :
    Cuts isOpening (before ++ after) (ss ++ ts) := by
  induction hb with
  | nil => exact ha
  | line hl _ ih =>
    rw [reachAfter_line hl] at h
    exact .line hl (ih h)
  | @directive l ls ss hl hr ih =>
    rw [reachAfter_directive hl] at h
    by_cases he : ((Reach.ofOpening l).split ls).2 = []
    · -- the directive covers all lines before, and none of those after
      have hcover : ((ls.foldl Reach.after (Reach.ofOpening l)).split after) = ([], after) :=
        Reach.split_of_not_covers fun x hx => h _ x (foldl_nextReach_of_goes_on he) hx
      have hsplit := Reach.split_append_of_goes_on after he
      rw [hcover, List.append_nil] at hsplit
      have hbody : ((Reach.ofOpening l).split ls).1 = ls := by
        have e := (Reach.ofOpening l).split_append_split ls
        rwa [he, List.append_nil] at e
      rw [he] at hr
      cases hr
      have hcut : Cuts isOpening ((Reach.ofOpening l).split (ls ++ after)).2 ts := by
        rw [hsplit]
        exact ha
      have hwhole := Cuts.directive hl hcut
      rw [hsplit] at hwhole
      rw [hbody]
      exact hwhole
    · have hsplit := Reach.split_append_of_ends after he
      rw [foldl_nextReach_of_ends he] at h
      have hcut : Cuts isOpening ((Reach.ofOpening l).split (ls ++ after)).2 (ss ++ ts) := by
        rw [hsplit]
        exact ih h
      have hwhole := Cuts.directive hl hcut
      rw [hsplit] at hwhole
      exact hwhole

/-- **A line that the directive in progress covers, and that leaves its reach as it is, goes into
    its body and changes nothing else.** -/
theorem Cuts.insert {before after : List Line} {x : Line} {r : Reach} {ss : List Segment}
    (hr : reachAfter isOpening before = some r) (hc : r.covers x = true) (hk : r.after x = r)
    (h : Cuts isOpening (before ++ after) ss) :
    ∃ (first last : List Segment) (opening : Line) (b₁ b₂ : List Line),
      r = b₁.foldl Reach.after (Reach.ofOpening opening) ∧
      ss = first ++ .directive opening (b₁ ++ b₂) :: last ∧
      Cuts isOpening (before ++ x :: after)
        (first ++ .directive opening (b₁ ++ x :: b₂) :: last) := by
  generalize hls : before ++ after = ls at h
  induction h generalizing before with
  | nil =>
    obtain ⟨rfl, rfl⟩ := List.append_eq_nil_iff.mp hls
    cases hr
  | @line l ls ss hl hcut ih =>
    cases before with
    | nil => cases hr
    | cons a before =>
      rw [List.cons_append] at hls
      obtain ⟨rfl, rfl⟩ := List.cons.inj hls
      rw [reachAfter_line hl] at hr
      obtain ⟨first, last, opening, b₁, b₂, e₁, rfl, hcut'⟩ := ih hr rfl
      exact ⟨.line a :: first, last, opening, b₁, b₂, e₁, rfl, .line hl hcut'⟩
  | @directive l ls ss hl hcut ih =>
    cases before with
    | nil => cases hr
    | cons a before =>
      rw [List.cons_append] at hls
      obtain ⟨rfl, rfl⟩ := List.cons.inj hls
      rw [reachAfter_directive hl] at hr
      by_cases he : ((Reach.ofOpening a).split before).2 = []
      · -- it is this directive that the line goes into
        rw [foldl_nextReach_of_goes_on he] at hr
        obtain rfl := Option.some.inj hr
        have hsplit := Reach.split_append_of_goes_on after he
        have hsplit' := Reach.split_append_of_goes_on (x :: after) he
        rw [Reach.split, if_pos hc, hk] at hsplit'
        rw [hsplit] at hcut ⊢
        have hcut' : Cuts isOpening ((Reach.ofOpening a).split (before ++ x :: after)).2 ss := by
          rw [hsplit']
          exact hcut
        have hwhole := Cuts.directive hl hcut'
        rw [hsplit'] at hwhole
        exact ⟨[], ss, a, before, _, rfl, rfl, hwhole⟩
      · rw [foldl_nextReach_of_ends he] at hr
        have hsplit := Reach.split_append_of_ends after he
        have hsplit' := Reach.split_append_of_ends (x :: after) he
        rw [hsplit] at ih ⊢
        obtain ⟨first, last, opening, b₁, b₂, e₁, e₂, hcut'⟩ := ih hr rfl
        have hrest : ((Reach.ofOpening a).split (before ++ x :: after)).2 =
            ((Reach.ofOpening a).split before).2 ++ x :: after := congrArg Prod.snd hsplit'
        rw [← hrest] at hcut'
        have hwhole := Cuts.directive hl hcut'
        rw [hsplit'] at hwhole
        refine ⟨.directive a ((Reach.ofOpening a).split before).1 :: first, last, opening, b₁, b₂,
          e₁, ?_, hwhole⟩
        rw [e₂]
        rfl

end Cuts

/-! ## 3. What the segments make -/

namespace Segment

/-- The line of a segment that is no directive. -/
def line? : Segment → Option Line
  | .line l => some l
  | .directive _ _ => none

/-- The directive of a segment. -/
def block? (config : Config) : Segment → Option Block
  | .line _ => none
  | .directive opening body =>
    some (Block.ofBody config.breakpoints config.indentUnit opening body)

/-- The statement that a segment makes. -/
def statement? (config : Config) : Segment → Option Statement
  | .line l => Statement.ofLine? l
  | .directive opening body =>
    some (.directive opening (Block.ofBody config.breakpoints config.indentUnit opening body))

end Segment

/-- Whether a line opens a directive at the top of a document. -/
def opensTop (l : Line) : Bool := l.isDirective && l.indent == 0

/-- Taking the directives at the top out of a document cuts it at them. -/
theorem Cuts.takeTopLevel {ls : List Line} {ss : List Segment} (h : Cuts opensTop ls ss)
    (config : Config) :
    Directive.takeTopLevel config 0 ls =
      (ss.filterMap (Segment.block? config), ss.filterMap Segment.line?) := by
  induction h with
  | nil => rfl
  | @line l ls ss hl _ ih =>
    have hl' : ¬(l.isDirective && l.indent == 0) = true := Bool.eq_false_iff.mp hl
    rw [Directive.takeTopLevel, if_neg hl', ih]
    rfl
  | @directive l ls ss hl _ ih =>
    have hl' : (l.isDirective && l.indent == 0) = true := hl
    rw [Reach.split_ofOpening] at ih
    rw [Directive.takeTopLevel, if_pos hl', takeTopLevel_drop, ih, collect_eq_ofBody]
    rfl

/-- The statements of lines are those of their segments. -/
theorem Cuts.ofLinesFrom {ls : List Line} {ss : List Segment} (h : Cuts Line.isDirective ls ss)
    (config : Config) :
    Statement.ofLinesFrom config 0 ls = ss.filterMap (Segment.statement? config) := by
  induction h with
  | nil => rfl
  | @line l ls ss hl _ ih =>
    rw [Statement.ofLinesFrom, if_neg (Bool.eq_false_iff.mp hl), ih]
    cases e : Statement.ofLine? l with
    | none => simp [Segment.statement?, e]
    | some s => simp [Segment.statement?, e]
  | @directive l ls ss hl _ ih =>
    rw [Reach.split_ofOpening] at ih
    rw [Statement.ofLinesFrom_directive config ls hl, ih, collect_eq_ofBody]
    rfl

end OutlineMarkup.Directive
