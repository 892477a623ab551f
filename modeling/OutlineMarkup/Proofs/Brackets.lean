/-
  File:      OutlineMarkup/Proofs/Brackets.lean
  Subject:   The braces of a document as a sequence of brackets.

  Lines are balanced if they close as many blocks as they open, and at no point more
  (`Line.isBalanced`). Nothing here looks at indentation. Statements with their braces matched are a
  tree (`Brackets`), in which a block stands with the line that opens it and the `}` that ends it.

  * `Brackets.read`: matches the braces of statements, from the last one to the first;
  * `Brackets.exists_read`: it succeeds on balanced lines without directives.
-/
import Mathlib.Data.List.Infix
import OutlineMarkup.Proofs.Line

namespace OutlineMarkup

/-! ## 1. Balanced lines -/

namespace Line

/-- Whether a line opens a block: its last token is a `{`, and it is no comment. -/
def opensBlock (l : Line) : Bool :=
  !l.isComment && (Token.tokenize l.text).getLast? == some Token.opening

/-- Whether a line is a `}` and nothing else. -/
def closesBlock (l : Line) : Bool := l.text == Token.closing

/-- What a line adds to the number of open blocks. -/
def rise (l : Line) : Int := if l.closesBlock then -1 else if l.opensBlock then 1 else 0

/-- The number of blocks that lines open, less those that they close. -/
def height : List Line → Int
  | [] => 0
  | l :: ls => l.rise + height ls

/-- Whether lines are balanced as a sequence of brackets. -/
def isBalanced (ls : List Line) : Bool :=
  height ls == 0 && ls.inits.all fun before => decide (0 ≤ height before)

theorem height_append (ls ls' : List Line) : height (ls ++ ls') = height ls + height ls' := by
  induction ls with
  | nil => exact (Int.zero_add _).symm
  | cons l ls ih => rw [List.cons_append, height, height, ih, Int.add_assoc]

/-- Behind every point of balanced lines, at least as many blocks are closed as opened. -/
theorem height_le_of_balanced {ls before after : List Line} (h : isBalanced ls = true)
    (e : ls = before ++ after) : height after ≤ 0 := by
  obtain ⟨htotal, hall⟩ := Bool.and_eq_true_iff.mp h
  have hmem : before ∈ ls.inits := (List.mem_inits before ls).mpr ⟨after, e.symm⟩
  have hbefore := of_decide_eq_true (List.all_eq_true.mp hall before hmem)
  rw [beq_iff_eq, e, height_append] at htotal
  omega

end Line

/-- What a statement adds to the number of open blocks. -/
def Statement.rise : Statement → Int
  | .element _ _ _ opens => if opens then 1 else 0
  | .openBrace _ => 1
  | .closeBrace _ => -1
  | .directive _ _ => 0

/-- The number of blocks that statements open, less those that they close. -/
def Statement.height : List Statement → Int
  | [] => 0
  | s :: ss => s.rise + height ss

theorem Statement.height_append (ss ss' : List Statement) :
    height (ss ++ ss') = height ss + height ss' := by
  induction ss with
  | nil => exact (Int.zero_add _).symm
  | cons s ss ih => rw [List.cons_append, height, height, ih, Int.add_assoc]

theorem Line.getLast_of_elementWords {l : Line} {code : Text} {words : List Text} {opens : Bool}
    (h : l.elementWords = .ok (code, words, opens)) :
    ((Token.tokenize l.text).getLast? == some Token.opening) = opens := by
  unfold elementWords lastOf at h
  dsimp only at h
  cases hlast : (Token.tokenize l.text).getLast? with
  | none =>
    rw [hlast] at h
    cases h
  | some last =>
    simp only [hlast, bind, Except.bind] at h
    split at h
    · cases h
    · cases h
      exact Option.some_beq_some

/-- A line adds what its statement adds. -/
theorem Line.rise_eq {l : Line} (hp : l.IsProper) :
    l.rise = ((Statement.ofLine? l).map Statement.rise).getD 0 := by
  by_cases hb : l.isBrace = true
  · rcases isBrace_iff.mp hb with e | e
    · have hopen : l.opensBlock = true := by simp only [opensBlock, isComment, e]; decide
      have hclose : l.closesBlock = false := by simp only [closesBlock, e]; decide
      rw [Statement.ofLine?_opening e, rise, hopen, hclose]
      rfl
    · have hclose : l.closesBlock = true := by simp only [closesBlock, e]; decide
      rw [Statement.ofLine?_closing e, rise, hclose]
      rfl
  · have hclose : l.closesBlock = false := by
      rw [closesBlock, beq_eq_false_iff_ne]
      exact fun e => hb (isBrace_iff.mpr (.inr e))
    rw [rise, hclose]
    by_cases hs : l.isSkippable = true
    · have hopen : l.opensBlock = false := by
        rcases Bool.or_eq_true_iff.mp hs with h | h
        · have ht : l.text = [] := List.isEmpty_iff.mp h
          simp only [opensBlock, isComment, ht]
          decide
        · simp [opensBlock, h]
      rw [Statement.ofLine?_skippable hs, hopen]
      rfl
    · have hs' : l.isSkippable = false := Bool.eq_false_iff.mpr hs
      obtain ⟨code, words, opens, hw, e⟩ :=
        Statement.ofLine?_element hp hs' (Bool.eq_false_iff.mpr hb)
      have hopen : l.opensBlock = opens := by
        obtain ⟨_, hc⟩ := Bool.or_eq_false_iff.mp hs'
        rw [opensBlock, hc, getLast_of_elementWords hw]
        rfl
      rw [e, hopen]
      rfl

theorem Statement.ofLine?_ne_directive {l l' : Line} {block : Directive.Block} :
    ofLine? l ≠ some (.directive l' block) := by
  unfold ofLine?
  split
  · exact nofun
  · split
    · exact nofun
    · split
      · exact nofun
      · split
        · exact nofun
        · split
          · exact nofun
          · exact nofun

/-- Without directives every line is a statement on its own, or none. -/
theorem Statement.ofLinesFrom_eq_filterMap (config : Config) {ls : List Line}
    (hd : ∀ l ∈ ls, l.isDirective = false) : ofLinesFrom config 0 ls = ls.filterMap ofLine? := by
  induction ls with
  | nil => rfl
  | cons l ls ih =>
    have hl := hd l List.mem_cons_self
    rw [ofLinesFrom, if_neg (Bool.eq_false_iff.mp hl), List.filterMap_cons,
      ih fun x h => hd x (List.mem_cons_of_mem _ h)]
    cases ofLine? l with
    | none => rfl
    | some s => rfl

/-! ## 2. Matched statements -/

/-- What opens a block: an element with a brace at its end, or a brace on a line of its own. -/
inductive Opener where
  | element (line : Line) (code : Text) (words : List Text)
  | lone (line : Line)
  deriving DecidableEq, Repr

namespace Opener

def line : Opener → Line
  | .element line _ _ => line
  | .lone line => line

def statement : Opener → Statement
  | .element line code words => .element line code words true
  | .lone line => .openBrace line

/-- Whether the block belongs to an element on the same line. -/
def isElement : Opener → Bool
  | .element _ _ _ => true
  | .lone _ => false

theorem rise_statement (opener : Opener) : opener.statement.rise = 1 := by
  cases opener with
  | element line code words => rfl
  | lone line => rfl

theorem line_statement (opener : Opener) : opener.statement.line = opener.line := by
  cases opener with
  | element line code words => rfl
  | lone line => rfl

end Opener

/-- Statements without directives, with their braces matched. -/
inductive Brackets where
  | nil
  /-- An element without a brace, and what follows it. -/
  | element (line : Line) (code : Text) (words : List Text) (rest : Brackets)
  /-- A block up to its `}`, and what follows it. -/
  | block (opener : Opener) (inner : Brackets) (closing : Line) (rest : Brackets)
  deriving DecidableEq, Repr

namespace Brackets

/-- The statements in their order. -/
def statements : Brackets → List Statement
  | .nil => []
  | .element line code words rest => .element line code words false :: rest.statements
  | .block opener inner closing rest =>
    opener.statement :: (inner.statements ++ .closeBrace closing :: rest.statements)

theorem height_statements (b : Brackets) : Statement.height b.statements = 0 := by
  induction b with
  | nil => rfl
  | element line code words rest ih =>
    rw [statements, Statement.height, ih]
    rfl
  | block opener inner closing rest ih_inner ih_rest =>
    rw [statements, Statement.height, Statement.height_append, Statement.height, ih_inner, ih_rest,
      opener.rise_statement]
    rfl

/-- Matches the braces of statements, from the last one to the first. The second part holds each
    `}` that still has to be opened, with what follows it; the innermost one comes first. -/
def readFrom : List Statement → Option (Brackets × List (Line × Brackets))
  | [] => some (.nil, [])
  | s :: ss =>
    match s, readFrom ss with
    | .element line code words false, some (b, outer) => some (.element line code words b, outer)
    | .element line code words true, some (b, (closing, rest) :: outer) =>
      some (.block (.element line code words) b closing rest, outer)
    | .openBrace line, some (b, (closing, rest) :: outer) =>
      some (.block (.lone line) b closing rest, outer)
    | .closeBrace line, some (b, outer) => some (.nil, (line, b) :: outer)
    | _, _ => none

/-- Matches the braces of statements; fails if they are not balanced, or at a directive. -/
def read (ss : List Statement) : Option Brackets :=
  match readFrom ss with
  | some (b, []) => some b
  | _ => none

theorem statements_of_readFrom {ss : List Statement} {b : Brackets} {outer : List (Line × Brackets)}
    (h : readFrom ss = some (b, outer)) :
    ss = b.statements ++ outer.flatMap fun x => .closeBrace x.1 :: x.2.statements := by
  induction ss generalizing b outer with
  | nil =>
    cases h
    rfl
  | cons s ss ih =>
    unfold readFrom at h
    split at h
    · next e =>
      cases h
      rw [ih e]
      rfl
    · next e =>
      cases h
      rw [ih e]
      simp [statements, Opener.statement]
    · next e =>
      cases h
      rw [ih e]
      simp [statements, Opener.statement]
    · next e =>
      cases h
      rw [ih e]
      rfl
    · cases h

/-- Matching the braces loses no statement. -/
theorem statements_of_read {ss : List Statement} {b : Brackets} (h : read ss = some b) :
    b.statements = ss := by
  unfold read at h
  split at h
  · next e =>
    cases h
    rw [statements_of_readFrom e]
    exact (List.append_nil _).symm
  · cases h

/-- Lines that nowhere open a block for good leave as many `}` open as their height says. -/
theorem exists_readFrom {ls : List Line} (hp : ∀ l ∈ ls, l.IsProper)
    (h : ∀ before after, ls = before ++ after → Line.height after ≤ 0) :
    ∃ b outer, readFrom (ls.filterMap Statement.ofLine?) = some (b, outer) ∧
      (outer.length : Int) = -Line.height ls := by
  induction ls with
  | nil => exact ⟨.nil, [], rfl, rfl⟩
  | cons l ls ih =>
    obtain ⟨b, outer, hread, hlen⟩ := ih (fun x hx => hp x (List.mem_cons_of_mem _ hx))
      fun before after e => h (l :: before) after (congrArg (l :: ·) e)
    have hle := h [] (l :: ls) rfl
    have hrise := Line.rise_eq (hp l List.mem_cons_self)
    have hheight : Line.height (l :: ls) = l.rise + Line.height ls := rfl
    rw [hheight] at hle ⊢
    rw [List.filterMap_cons]
    cases hs : Statement.ofLine? l with
    | none =>
      have hzero : l.rise = 0 := by rw [hrise, hs]; rfl
      exact ⟨b, outer, hread, by omega⟩
    | some s =>
      have hs' : l.rise = s.rise := by rw [hrise, hs]; rfl
      rw [hs'] at hle ⊢
      -- a line that opens a block finds a `}`, for else it would stay open
      have hpop : s.rise = 1 → ∃ x outer', outer = x :: outer' := by
        intro hone
        cases outer with
        | nil =>
          rw [List.length_nil] at hlen
          omega
        | cons x outer' => exact ⟨x, outer', rfl⟩
      dsimp only
      cases s with
      | element line code words opens =>
        cases opens with
        | false =>
          refine ⟨.element line code words b, outer, by simp only [readFrom, hread], ?_⟩
          simp only [Statement.rise, Bool.false_eq_true, if_false]
          omega
        | true =>
          obtain ⟨⟨closing, rest⟩, outer', rfl⟩ := hpop rfl
          refine ⟨.block (.element line code words) b closing rest, outer',
            by simp only [readFrom, hread], ?_⟩
          rw [List.length_cons] at hlen
          simp only [Statement.rise, if_true]
          omega
      | openBrace line =>
        obtain ⟨⟨closing, rest⟩, outer', rfl⟩ := hpop rfl
        refine ⟨.block (.lone line) b closing rest, outer', by simp only [readFrom, hread], ?_⟩
        rw [List.length_cons] at hlen
        simp only [Statement.rise]
        omega
      | closeBrace line =>
        refine ⟨.nil, (line, b) :: outer, by simp only [readFrom, hread], ?_⟩
        rw [List.length_cons]
        simp only [Statement.rise]
        omega
      | directive line block => exact absurd hs Statement.ofLine?_ne_directive

/-- **The braces of balanced lines without directives can be matched.** -/
theorem exists_read {config : Config} {ls : List Line} (hp : ∀ l ∈ ls, l.IsProper)
    (hd : ∀ l ∈ ls, l.isDirective = false) (hb : Line.isBalanced ls = true) :
    ∃ b, read (Statement.ofLinesFrom config 0 ls) = some b := by
  obtain ⟨b, outer, hread, hlen⟩ :=
    exists_readFrom hp fun before after e => Line.height_le_of_balanced hb e
  have htotal : Line.height ls = 0 := beq_iff_eq.mp (Bool.and_eq_true_iff.mp hb).1
  rw [htotal] at hlen
  obtain rfl : outer = [] := List.length_eq_zero_iff.mp (by omega)
  refine ⟨b, ?_⟩
  rw [Statement.ofLinesFrom_eq_filterMap config hd, read, hread]

end Brackets

end OutlineMarkup
