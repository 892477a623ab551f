/-
  File:      OutlineMarkup/Proofs/SourceOrder.lean
  Subject:   The order of diagnostics.

  The passes report one after the other, and each goes through its lines from the top down. So the
  diagnostics are in the order of the source pass by pass, and not over all passes
  (`diagnostics_out_of_order`). In the body there is one exception: a block that ends without a
  brace is reported where it ends, with the number of the line that opened it.

  * `Statement.ofLines_counted`, `Directive.takeTopLevel_counted`: the numbers that the statements
    and the directives at the top refer to stand in the order of the lines;
  * `Outline.run_met`: the statements report along these numbers;
  * **`diagnostics_in_order`**: the three passes together.
-/
import OutlineMarkup.Proofs.Findings
import OutlineMarkup.Proofs.Inline

namespace OutlineMarkup

open Diagnostic Reported

/-! ## 1. Numbers of lines -/

namespace Line

/-- Lines in the order of their numbers. -/
def Ascending (ls : List Line) : Prop := ls.Pairwise fun a b => a.number ≤ b.number

/-- Numbers of some of the lines, in order. -/
structure Counted (ls : List Line) (ns : List Int) : Prop where
  ascending : ns.Pairwise (· ≤ ·)
  exists_line : ∀ n ∈ ns, ∃ l ∈ ls, l.number = n

theorem ascending_ofSource (width : Int32) (source : Text) : Ascending (ofSource width source) := by
  have hindex : ((rows source).zipIdx 1).Pairwise fun a b => a.2 < b.2 := by
    rw [← List.pairwise_map, List.zipIdx_map_snd]
    exact List.pairwise_lt_range'
  rw [Ascending, ofSource, List.pairwise_map]
  exact hindex.imp fun h => Int.ofNat_le.mpr (Nat.le_of_lt h)

theorem Ascending.flatMap {ls : List Line} (h : Ascending ls) {f : Line → List Line}
    (hf : ∀ l, ∀ l' ∈ f l, l'.number = l.number) : Ascending (ls.flatMap f) := by
  refine List.pairwise_flatMap.mpr ⟨fun l _ => ?_, h.imp fun {a b} hab x hx y hy => ?_⟩
  · exact List.pairwise_of_forall_mem_list fun x hx y hy =>
      Int.le_of_eq ((hf l x hx).trans (hf l y hy).symm)
  · rw [hf a x hx, hf b y hy]
    exact hab

namespace Counted

theorem nil (ls : List Line) : Counted ls [] := ⟨.nil, List.forall_mem_nil _⟩

theorem numbers {ls : List Line} (h : Ascending ls) : Counted ls (ls.map number) :=
  ⟨List.pairwise_map.mpr h, fun _ hn => List.mem_map.mp hn⟩

theorem mono {ls ls' : List Line} {ns : List Int} (h : Counted ls ns) (hls : ls ⊆ ls') :
    Counted ls' ns :=
  ⟨h.ascending, fun n hn => (h.exists_line n hn).imp fun _ hl => ⟨hls hl.1, hl.2⟩⟩

/-- Numbers of lines that follow each other. -/
theorem append {ls ls' : List Line} {ns ns' : List Int} (h : Counted ls ns)
    (h' : Counted ls' ns') (hls : Ascending (ls ++ ls')) :
    Counted (ls ++ ls') (ns ++ ns') where
  ascending := by
    refine List.pairwise_append.mpr ⟨h.ascending, h'.ascending, fun n hn n' hn' => ?_⟩
    obtain ⟨l, hl, rfl⟩ := h.exists_line n hn
    obtain ⟨l', hl', rfl⟩ := h'.exists_line n' hn'
    exact (List.pairwise_append.mp hls).2.2 l hl l' hl'
  exists_line := List.forall_mem_append.mpr
    ⟨(h.mono (List.subset_append_left _ _)).exists_line,
      (h'.mono (List.subset_append_right _ _)).exists_line⟩

end Counted

end Line

open Line

namespace Directive

/-- The numbers that a directive refers to: that of its first line, and those of its lines. -/
def Block.numbers (b : Block) : List Int := b.line :: b.lines.map Line.number

/-- A rule on the first line of a directive has the number of that line. -/
theorem collect_counted (breakpoints : Table Text Text) (unit : Int) {l : Line} {ls : List Line}
    (h : Ascending (l :: ls)) :
    Counted (l :: ls.take (extent l ls)) (collect breakpoints unit l ls).numbers := by
  have hlines : ∃ rule, (collect breakpoints unit l ls).numbers =
      l.number :: (ruleOnHeader unit l rule ++ ls.take (extent l ls)).map number := by
    unfold collect Block.numbers
    dsimp only
    split
    · exact ⟨_, rfl⟩
    · exact ⟨_, rfl⟩
  have hheader : ∀ rule, Counted [l] (l.number :: (ruleOnHeader unit l rule).map number) := by
    intro rule
    unfold ruleOnHeader
    dsimp only
    split
    · exact .numbers (List.pairwise_singleton _ _)
    · refine ⟨List.pairwise_pair.mpr (Int.le_refl _), fun n hn => ⟨l, List.mem_cons_self, ?_⟩⟩
      rcases List.mem_cons.mp hn with rfl | hn
      · rfl
      · exact (List.mem_singleton.mp hn).symm
  have htaken : Ascending (l :: ls.take (extent l ls)) :=
    h.sublist ((List.take_sublist _ ls).cons_cons l)
  obtain ⟨rule, e⟩ := hlines
  rw [e, List.map_append, ← List.cons_append]
  exact (hheader rule).append (.numbers (List.pairwise_cons.mp htaken).2) htaken

theorem takeTopLevel_sublist (config : Config) (k : Nat) (ls : List Line) :
    (takeTopLevel config k ls).2.Sublist ls := by
  induction ls generalizing k with
  | nil => simp [takeTopLevel]
  | cons l ls ih =>
    cases k with
    | succ k => exact (ih k).cons l
    | zero =>
      rw [takeTopLevel]
      split
      · exact (ih _).cons l
      · exact (ih 0).cons_cons l

/-- **The directives at the top refer to lines in order.** -/
theorem takeTopLevel_counted (config : Config) (k : Nat) {ls : List Line} (h : Ascending ls) :
    Counted (ls.drop k) ((takeTopLevel config k ls).1.flatMap Block.numbers) := by
  induction ls generalizing k with
  | nil =>
    rw [takeTopLevel]
    exact .nil _
  | cons l ls ih =>
    have hrest := (List.pairwise_cons.mp h).2
    cases k with
    | succ k => exact ih k hrest
    | zero =>
      rw [takeTopLevel]
      split
      · have htogether : l :: ls = l :: ls.take (extent l ls) ++ ls.drop (extent l ls) := by
          rw [List.cons_append, List.take_append_drop]
        rw [List.drop_zero, htogether]
        exact (collect_counted _ _ h).append (ih _ hrest) (htogether ▸ h)
      · exact (ih 0 hrest).mono (List.subset_cons_self _ _)

end Directive

namespace Statement

/-- The numbers that a statement refers to. -/
def numbers : Statement → List Int
  | .directive _ block => block.numbers
  | s => [s.line.number]

theorem numbers_of_ofLine? {l : Line} {s : Statement} (h : ofLine? l = some s) :
    s.numbers = [l.number] := by
  unfold ofLine? at h
  split at h
  · cases h
  · split at h
    · cases h
    · split at h
      · cases h
        rfl
      · split at h
        · cases h
          rfl
        · split at h
          · cases h
            rfl
          · cases h
            rfl

theorem ofLinesFrom_counted (config : Config) (k : Nat) {ls : List Line} (h : Ascending ls) :
    Counted (ls.drop k) ((ofLinesFrom config k ls).flatMap numbers) := by
  induction ls generalizing k with
  | nil =>
    rw [ofLinesFrom]
    exact .nil _
  | cons l ls ih =>
    have hrest := (List.pairwise_cons.mp h).2
    cases k with
    | succ k => exact ih k hrest
    | zero =>
      rw [ofLinesFrom]
      split
      · have htogether : l :: ls = l :: ls.take (Directive.extent l ls) ++
            ls.drop (Directive.extent l ls) := by
          rw [List.cons_append, List.take_append_drop]
        rw [List.drop_zero, htogether]
        exact (Directive.collect_counted _ _ h).append (ih _ hrest) (htogether ▸ h)
      · have hline : Counted [l] ((ofLine? l).toList.flatMap numbers) := by
          cases hs : ofLine? l with
          | none => exact .nil _
          | some s =>
            simp only [Option.toList_some, List.flatMap_cons, List.flatMap_nil, List.append_nil,
              numbers_of_ofLine? hs]
            exact .numbers (List.pairwise_singleton _ _)
        rw [List.flatMap_append]
        exact hline.append (ih 0 hrest) h

theorem number_of_mem_writeOut {config : Config} {line l : Line} (h : l ∈ writeOut config line) :
    l.number = line.number := by
  unfold writeOut at h
  split at h
  · rw [List.mem_singleton.mp h]
  · exact (writesOut_expand (Int.le_of_lt config.indentUnit_pos) line).number_eq l h

/-- **The statements refer to lines in order.** -/
theorem ofLines_counted (config : Config) {lines : List Line} (h : Ascending lines) :
    Counted lines ((ofLines config lines).flatMap numbers) := by
  have hnumber : ∀ line : Line, ∀ l ∈ writeOut config line, l.number = line.number :=
    fun _ _ hl => number_of_mem_writeOut hl
  obtain ⟨hascending, hmem⟩ := ofLinesFrom_counted config 0 (h.flatMap hnumber)
  refine ⟨hascending, fun n hn => ?_⟩
  obtain ⟨l, hl, rfl⟩ := hmem n hn
  obtain ⟨line, hline, hl⟩ := List.mem_flatMap.mp hl
  exact ⟨line, hline, (hnumber line l hl).symm⟩

end Statement

/-! ## 2. Diagnostics in order -/

/-- Whether a finding is that a block ended without a brace. -/
def Finding.endsBlock : Finding → Bool
  | .dedentedBlock | .unclosedBlock => true
  | _ => false

theorem Finding.endsBlock_of_braces {f : Finding} (h : f.isAboutBraces = false) :
    f.endsBlock = false := by
  cases f with
  | dedentedBlock => exact absurd h (by decide)
  | unclosedBlock => exact absurd h (by decide)
  | _ => rfl

namespace Diagnostic

/-- Both diagnostics have a line, and the second does not stand above the first. -/
def NotBelow (a b : Diagnostic) : Prop := ∃ m n, a.line = some m ∧ b.line = some n ∧ m ≤ n

/-- A finding about the line with a number, not about the end of a block. -/
def At (n : Int) (x : Diagnostic) : Prop := x.line = some n ∧ x.finding.endsBlock = false

/-- A finding met at the line with a number: it is about this line, or about the end of a block that
    one of the given lines opened, which is not below this one. -/
def MetAt (lines : List Line) (n : Int) (x : Diagnostic) : Prop :=
  At n x ∨ x.finding.endsBlock = true ∧ ∃ l ∈ lines, x.line = some l.number ∧ l.number ≤ n

/-- Diagnostics in the order of the given lines, except for those about the end of a block. -/
structure InOrder (lines : List Line) (xs : List Diagnostic) : Prop where
  exists_line : ∀ x ∈ xs, ∃ l ∈ lines, x.line = some l.number
  ordered : xs.Pairwise fun a b => b.finding.endsBlock = true ∨ NotBelow a b

theorem OnLine.at {n : Int} {x : Diagnostic} (h : OnLine (some n) x) : At n x :=
  ⟨h.line_eq, Finding.endsBlock_of_braces h.isAboutBraces⟩

theorem MetAt.le {lines : List Line} {n : Int} {x : Diagnostic} (h : MetAt lines n x) :
    ∃ m, x.line = some m ∧ m ≤ n := by
  rcases h with ⟨hline, _⟩ | ⟨_, l, _, hline, hle⟩
  · exact ⟨n, hline, Int.le_refl n⟩
  · exact ⟨l.number, hline, hle⟩

namespace Along

variable {α : Type} {Q : α → Diagnostic → Prop}

/-- More findings for the first item. -/
theorem prepend {a : α} {as : List α} {found xs : List Diagnostic} (hfound : ∀ x ∈ found, Q a x)
    (h : Along Q (a :: as) xs) : Along Q (a :: as) (found ++ xs) := by
  cases h with
  | cons hfirst rest =>
    rw [← List.append_assoc]
    exact .cons (List.forall_mem_append.mpr ⟨hfound, hfirst⟩) rest

/-- **What is met along numbers in order is in order.** -/
theorem inOrder {lines : List Line} {ns : List Int} {xs : List Diagnostic}
    (h : Along (MetAt lines) ns xs) (hns : Counted lines ns) : InOrder lines xs where
  exists_line x hx := by
    obtain ⟨n, hn, hmet⟩ := h.exists_of_mem hx
    rcases hmet with ⟨hline, _⟩ | ⟨_, l, hl, hline, _⟩
    · obtain ⟨l, hl, rfl⟩ := hns.exists_line n hn
      exact ⟨l, hl, hline⟩
    · exact ⟨l, hl, hline⟩
  ordered := by
    have hascending := hns.ascending
    clear hns
    induction h with
    | nil => exact .nil
    | @cons n ns found xs hfound rest ih =>
      obtain ⟨hn, hns⟩ := List.pairwise_cons.mp hascending
      refine List.pairwise_append.mpr
        ⟨List.pairwise_of_forall_mem_list fun a ha b hb => ?_, ih hns, fun a ha b hb => ?_⟩
      · obtain ⟨m, hm, hle⟩ := (hfound a ha).le
        rcases hfound b hb with ⟨hb, _⟩ | ⟨hends, _⟩
        · exact .inr ⟨m, n, hm, hb, hle⟩
        · exact .inl hends
      · obtain ⟨m, hm, hle⟩ := (hfound a ha).le
        obtain ⟨n', hn', hmet⟩ := rest.exists_of_mem hb
        rcases hmet with ⟨hb, _⟩ | ⟨hends, _⟩
        · exact .inr ⟨m, n', hm, hb, Int.le_trans hle (hn n' hn')⟩
        · exact .inl hends

end Along

/-- Where no block can end there is no exception. -/
theorem Along.strictly_inOrder {lines : List Line} {ns : List Int} {xs : List Diagnostic}
    (h : Along At ns xs) (hns : Counted lines ns) : InOrder lines xs ∧ xs.Pairwise NotBelow := by
  have horder : InOrder lines xs := (h.mono fun _ _ => .inl).inOrder hns
  refine ⟨horder, horder.ordered.imp_of_mem fun _ hb hab => hab.resolve_left fun hends => ?_⟩
  obtain ⟨n, _, _, hb⟩ := h.exists_of_mem hb
  rw [hb] at hends
  cases hends

end Diagnostic

/-! ## 3. Variables and directives -/

namespace Draft

open Directive

theorem foldl_addVariableLine_met (d : Draft) (ls : List Line) :
    ∃ found, (ls.foldl addVariableLine d).diagnostics = d.diagnostics ++ found ∧
      Along At (ls.map number) found := by
  induction ls generalizing d with
  | nil => exact ⟨[], (List.append_nil _).symm, .nil⟩
  | cons l ls ih =>
    obtain ⟨found, e, h⟩ := ih (d.addVariableLine l)
    rw [List.foldl_cons, e]
    unfold addVariableLine
    split
    · exact ⟨found, rfl, h.skip _⟩
    · exact ⟨[⟨.invalidVariable l.text, some l.number⟩] ++ found, List.append_assoc _ _ _,
        .cons (List.forall_mem_singleton.mpr ⟨rfl, rfl⟩) h⟩

/-- A directive at the top reports along its lines. -/
theorem addBlock_met {d d' : Draft} {block : Block} (ok : d.addBlock block = .ok d') :
    ∃ found, d'.diagnostics = d.diagnostics ++ found ∧ Along At block.numbers found := by
  have hfirst : ∀ finding : Finding, finding.endsBlock = false →
      Along At block.numbers [⟨finding, some block.line⟩] := by
    intro finding h
    exact .first (List.forall_mem_singleton.mpr ⟨rfl, h⟩) _
  unfold addBlock at ok
  split at ok
  · exact ⟨_, addMedia_diagnostics ok,
      ((mediaPieces_along d block.lines).map fun _ _ _ h => h.at).skip _⟩
  · cases ok
    exact ⟨_, addKeyframes_diagnostics d _ block.lines,
      ((readSteps_along d block.lines).map fun _ _ _ h => h.at).skip _⟩
  · cases ok
    exact ⟨_, rfl, hfirst _ rfl⟩
  · cases ok
    exact ⟨_, rfl, hfirst _ rfl⟩

/-- That it was not closed is reported first, with its first line. -/
theorem met_reportUnclosed {d d' : Draft} {block : Block}
    (h : ∃ found, d'.diagnostics = (d.reportUnclosed block).diagnostics ++ found ∧
      Along At block.numbers found) :
    ∃ found, d'.diagnostics = d.diagnostics ++ found ∧ Along At block.numbers found := by
  obtain ⟨found, e, h⟩ := h
  unfold reportUnclosed at e
  split at e
  · exact ⟨found, e, h⟩
  · exact ⟨_, e.trans (List.append_assoc _ _ _),
      h.prepend (List.forall_mem_singleton.mpr ⟨rfl, rfl⟩)⟩

theorem addTopLevel_met {d d' : Draft} {blocks : List Block} (ok : d.addTopLevel blocks = .ok d') :
    ∃ found, d'.diagnostics = d.diagnostics ++ found ∧
      Along At (blocks.flatMap Block.numbers) found := by
  induction blocks generalizing d with
  | nil =>
    cases ok
    exact ⟨[], (List.append_nil _).symm, .nil⟩
  | cons block blocks ih =>
    obtain ⟨d₁, hblock, hrest⟩ := bind_eq_ok.mp ok
    obtain ⟨found, e, h⟩ := met_reportUnclosed (addBlock_met hblock)
    obtain ⟨found', e', h'⟩ := ih hrest
    exact ⟨found ++ found', by rw [e', e, List.append_assoc], h.append h'⟩

/-- So does a directive inside the tree. -/
theorem addInline_met {d d' : Draft} {block : Block} {hasTarget : Bool} {name : Option Text}
    (ok : d.addInline block hasTarget = .ok (name, d')) :
    ∃ found, d'.diagnostics = d.diagnostics ++ found ∧ Along At block.numbers found := by
  refine met_reportUnclosed ?_
  unfold addInline at ok
  dsimp only at ok
  split at ok
  · cases hasTarget with
    | true =>
      exact ⟨_, styleInline_diagnostics ok,
        ((inlineDeclarations_along _ block.lines).map fun _ _ _ h => h.at).skip _⟩
    | false =>
      cases ok
      exact ⟨_, rfl, .first (List.forall_mem_singleton.mpr ⟨rfl, rfl⟩) _⟩
  · obtain ⟨d₁, hd, e⟩ := bind_eq_ok.mp ok
    cases e
    exact addBlock_met hd

end Draft

/-! ## 4. The body -/

namespace Outline

/-- The lines that opened the scope in progress and the scopes around it, innermost first. The
    document itself was not opened. -/
def openings (scope : Scope) : List Scope → List (Option Int)
  | [] => []
  | outer :: rest => scope.openedAt :: openings outer rest

theorem openings_congr {s s' : Scope} (h : s.openedAt = s'.openedAt) (enclosing : List Scope) :
    openings s enclosing = openings s' enclosing := by
  cases enclosing with
  | nil => rfl
  | cons outer rest => rw [openings, openings, h]

theorem openedAt_adopt (s : Scope) (f : Forest Element) : (s.adopt f).openedAt = s.openedAt := by
  unfold Scope.adopt
  split <;> rfl

/-- The scopes that a statement stands left of are reported, from the innermost outwards. -/
theorem closeDedented_openings (indent : Int) (d : Draft) (s : Scope) (enclosing : List Scope) :
    ∃ closed,
      openings s enclosing = closed ++ openings (closeDedented indent d s enclosing).scope
        (closeDedented indent d s enclosing).enclosing ∧
      (closeDedented indent d s enclosing).draft.diagnostics =
        d.diagnostics ++ closed.map fun line => ⟨.dedentedBlock, line⟩ := by
  induction enclosing generalizing d s with
  | nil => exact ⟨[], rfl, (List.append_nil _).symm⟩
  | cons outer rest ih =>
    unfold closeDedented
    split
    · obtain ⟨closed, e, h⟩ := ih (d.report .dedentedBlock s.openedAt) (outer.adopt s.forest)
      rw [openings_congr (openedAt_adopt outer s.forest)] at e
      refine ⟨s.openedAt :: closed, by rw [openings, e, List.cons_append], ?_⟩
      rw [h, Draft.report, List.append_assoc]
      rfl
    · exact ⟨[], rfl, (List.append_nil _).symm⟩

/-- At the end of the document all open scopes are reported. -/
theorem finishFrom_openings (d : Draft) (s : Scope) (enclosing : List Scope) :
    (finishFrom d s enclosing).2.diagnostics =
      d.diagnostics ++ (openings s enclosing).map fun line => ⟨.unclosedBlock, line⟩ := by
  induction enclosing generalizing d s with
  | nil => exact (List.append_nil _).symm
  | cons outer rest ih =>
    rw [finishFrom, ih, openings_congr (openedAt_adopt outer s.forest), Draft.report,
      List.append_assoc]
    rfl

/-- What a statement reports: the scopes that it ends, and findings along its own lines. Only its
    first line can open a scope. -/
theorem step_met {o o' : Outline} {s : Statement} {following : List Statement}
    (ok : o.step s following = .ok o') :
    ∃ closed found, o'.draft.diagnostics =
        o.draft.diagnostics ++ (closed.map fun line => ⟨.dedentedBlock, line⟩) ++ found ∧
      closed ⊆ openings o.scope o.enclosing ∧ Along At s.numbers found ∧
      openings o'.scope o'.enclosing ⊆
        s.numbers.map some ++ openings o.scope o.enclosing := by
  -- to settle leaves a part of the open scopes
  have hsettle : ∀ indent, ∃ closed, (o.settle indent).draft.diagnostics =
      o.draft.diagnostics ++ (closed.map fun line => ⟨.dedentedBlock, line⟩) ∧
      closed ⊆ openings o.scope o.enclosing ∧
      openings (o.settle indent).scope (o.settle indent).enclosing ⊆
        openings o.scope o.enclosing := by
    intro indent
    obtain ⟨closed, e, h⟩ := closeDedented_openings indent o.draft o.scope o.enclosing
    have hopen : openings (o.settle indent).scope (o.settle indent).enclosing =
        openings (closeDedented indent o.draft o.scope o.enclosing).scope
          (closeDedented indent o.draft o.scope o.enclosing).enclosing := openings_congr (by rfl) _
    refine ⟨closed, h, ?_, ?_⟩
    · rw [e]
      exact List.subset_append_left _ _
    · rw [hopen, e]
      exact List.subset_append_right _ _
  cases s with
  | closeBrace line =>
    cases ok
    unfold close
    split
    · rename_i hnil
      refine ⟨[], [⟨.strayBrace, some line.number⟩], by simp [Draft.report],
        List.nil_subset _, .first (List.forall_mem_singleton.mpr ⟨rfl, rfl⟩) [], ?_⟩
      rw [hnil]
      exact List.nil_subset _
    · rename_i outer rest hcons
      refine ⟨[], [], by simp, List.nil_subset _, .none _, ?_⟩
      rw [hcons, openings_congr (openedAt_adopt outer _)]
      exact List.subset_append_of_subset_right _ (List.subset_cons_self _ _)
  | openBrace line =>
    cases ok
    obtain ⟨closed, e, hclosed, hopen⟩ := hsettle line.indent
    refine ⟨closed, [], ?_, hclosed, .none _, ?_⟩
    · rw [Context.draft_openBlock, e, List.append_nil]
    · unfold openBlock
      split
      · exact List.subset_append_of_subset_right _ hopen
      · exact List.cons_subset_cons _ hopen
  | directive line block =>
    obtain ⟨name, d', hadd, rfl⟩ := step_directive_eq_ok ok
    obtain ⟨closed, e, hclosed, hopen⟩ := hsettle line.indent
    obtain ⟨found, e', h⟩ := Draft.addInline_met hadd
    have hscope : ((name.map (o.settle line.indent).scope.addClass).getD
        (o.settle line.indent).scope).openedAt = (o.settle line.indent).scope.openedAt := by
      cases name with
      | none => rfl
      | some n =>
        show ((o.settle line.indent).scope.addClass n).openedAt = _
        unfold Scope.addClass
        split <;> rfl
    refine ⟨closed, found, by rw [e', e], hclosed, h, ?_⟩
    rw [openings_congr hscope]
    exact List.subset_append_of_subset_right _ hopen
  | element line code words opens =>
    obtain ⟨e, d', hadd, rfl⟩ := step_element_eq_ok ok
    obtain ⟨closed, hd, hclosed, hopen⟩ := hsettle line.indent
    have hread := ElementPlan.read_onLine (o.settle line.indent).draft line code words
      (Statement.hasChildren line opens following)
    have hpush : openings (o.settle line.indent).scope (o.settle line.indent).enclosing =
        openings ((o.settle line.indent).scope.push e) (o.settle line.indent).enclosing :=
      openings_congr (by rfl) _
    rw [hpush] at hopen
    refine ⟨closed, _, ?_, hclosed, .first (fun x hx => (hread x hx).at) [], ?_⟩
    · rw [← hd, ← Draft.addElement_diagnostics hadd]
      cases opens <;> rfl
    · cases opens with
      | true => exact List.cons_subset_cons _ hopen
      | false => exact List.subset_append_of_subset_right _ hopen

theorem numbers_ne_nil (s : Statement) : ∃ n ns, s.numbers = n :: ns := by
  cases s <;> exact ⟨_, _, rfl⟩

/-- **The statements report along their numbers**, if the scopes that are open were opened by lines
    above them. -/
theorem run_met {o o' : Outline} {ss : List Statement} (ok : o.run ss = .ok o') {lines : List Line}
    (hss : Counted lines (ss.flatMap Statement.numbers))
    (ho : ∀ x ∈ openings o.scope o.enclosing, ∃ l ∈ lines, x = some l.number ∧
      ∀ n ∈ ss.flatMap Statement.numbers, l.number ≤ n) :
    ∃ found, o'.draft.diagnostics = o.draft.diagnostics ++ found ∧
      Along (MetAt lines) (ss.flatMap Statement.numbers) found ∧
      ∀ x ∈ openings o'.scope o'.enclosing, ∃ l ∈ lines, x = some l.number := by
  induction ss generalizing o with
  | nil =>
    cases ok
    refine ⟨[], (List.append_nil _).symm, .nil, fun x hx => ?_⟩
    obtain ⟨l, hl, e, _⟩ := ho x hx
    exact ⟨l, hl, e⟩
  | cons s following ih =>
    obtain ⟨o₁, hstep, hrun⟩ := bind_eq_ok.mp ok
    obtain ⟨closed, found, e, hclosed, hfound, hopen⟩ := step_met hstep
    rw [List.flatMap_cons] at hss ho ⊢
    obtain ⟨hfirst, hrest, hbetween⟩ := List.pairwise_append.mp hss.ascending
    obtain ⟨found', e', hfound', hlast⟩ := ih hrun
      ⟨hrest, fun n hn => hss.exists_line n (List.mem_append_right _ hn)⟩ (by
        intro x hx
        rcases List.mem_append.mp (hopen hx) with hx | hx
        · obtain ⟨n, hn, rfl⟩ := List.mem_map.mp hx
          obtain ⟨l, hl, rfl⟩ := hss.exists_line n (List.mem_append_left _ hn)
          exact ⟨l, hl, rfl, hbetween _ hn⟩
        · obtain ⟨l, hl, rfl, hle⟩ := ho x hx
          exact ⟨l, hl, rfl, fun n hn => hle n (List.mem_append_right _ hn)⟩)
    refine ⟨(closed.map fun line => ⟨.dedentedBlock, line⟩) ++ found ++ found', ?_, ?_, hlast⟩
    · rw [e', e]
      simp only [List.append_assoc]
    · -- the ends of blocks are met at the first line of the statement
      refine .append ?_ hfound'
      have hmet : Along (MetAt lines) s.numbers found := hfound.mono fun _ _ => .inl
      obtain ⟨n, ns, hn⟩ := numbers_ne_nil s
      rw [hn] at hmet ho ⊢
      refine hmet.prepend fun x hx => ?_
      obtain ⟨line, hline, rfl⟩ := List.mem_map.mp hx
      obtain ⟨l, hl, rfl, hle⟩ := ho line (hclosed hline)
      exact .inr ⟨rfl, l, hl, rfl, hle n List.mem_cons_self⟩

end Outline

theorem Draft.readBody_inOrder {d d' : Draft} {lines : List Line} (h : Ascending lines)
    {f : Forest Element} (ok : d.readBody lines = .ok (f, d')) :
    ∃ found, d'.diagnostics = d.diagnostics ++ found ∧ InOrder lines found := by
  obtain ⟨o, hrun, e⟩ := bind_eq_ok.mp ok
  have hfinish : d' = (Outline.finishFrom o.draft o.scope o.enclosing).2 :=
    congrArg Prod.snd (Except.ok.inj e).symm
  have hcounted := Statement.ofLines_counted d.config h
  obtain ⟨found, efound, hfound, hopen⟩ := Outline.run_met hrun hcounted (List.forall_mem_nil _)
  obtain ⟨hlines, hordered⟩ := hfound.inOrder hcounted
  refine ⟨found ++ (Outline.openings o.scope o.enclosing).map fun line => ⟨.unclosedBlock, line⟩,
    ?_, List.forall_mem_append.mpr ⟨hlines, fun x hx => ?_⟩,
    List.pairwise_append.mpr ⟨hordered, ?_, fun a _ b hb => ?_⟩⟩
  · rw [hfinish, Outline.finishFrom_openings, efound, List.append_assoc]
  · obtain ⟨line, hline, rfl⟩ := List.mem_map.mp hx
    exact hopen line hline
  · refine List.pairwise_of_forall_mem_list fun a _ b hb => ?_
    obtain ⟨line, _, rfl⟩ := List.mem_map.mp hb
    exact .inl rfl
  · obtain ⟨line, _, rfl⟩ := List.mem_map.mp hb
    exact .inl rfl

/-! ## 5. The passes -/

/-- **Diagnostics are in the order of the source pass by pass.** They are those of the variables,
    those of the directives at the top, and those of the body, in this order, and all of them have
    the number of a line of their pass. Inside the first two passes no diagnostic stands above an
    earlier one. In the body only one kind of diagnostic can: that a block ended without a brace,
    which has the number of the line that opened the block. -/
theorem diagnostics_in_order {config : Config} (hfit : config.TabsFit) (source : Text) :
    ∃ p declaring top body, Passes.run config source = .ok p ∧
      p.afterVariables.diagnostics = declaring ∧
      p.afterDirectives.diagnostics = declaring ++ top ∧
      p.result.diagnostics = declaring ++ top ++ body ∧
      (InOrder ((Line.ofSource config.tabWidth source).filter isVariable) declaring ∧
        declaring.Pairwise NotBelow) ∧
      (InOrder ((Line.ofSource config.tabWidth source).filter fun l => !l.isVariable) top ∧
        top.Pairwise NotBelow) ∧
      InOrder (linesOfBody config source) body := by
  obtain ⟨p, _, ok, _, _⟩ := Passes.run_ok hfit source
  obtain ⟨hvariables, htop, hbody⟩ := Passes.run_eq_ok ok
  have hlines := ascending_ofSource config.tabWidth source
  have hothers :
      Ascending ((Line.ofSource config.tabWidth source).filter fun l => !l.isVariable) :=
    hlines.sublist List.filter_sublist
  obtain ⟨declaring, hd, hdeclaring⟩ := Draft.foldl_addVariableLine_met (.empty config)
    ((Line.ofSource config.tabWidth source).filter isVariable)
  obtain ⟨top, ht, hmet⟩ := Draft.addTopLevel_met htop
  obtain ⟨body, hb, horder⟩ := Draft.readBody_inOrder
    (hothers.sublist (Directive.takeTopLevel_sublist config 0 _)) hbody
  have hfirst : p.afterVariables.diagnostics = declaring := by
    rw [hvariables]
    exact hd
  rw [hfirst] at ht
  exact ⟨p, declaring, top, body, ok, hfirst, ht, by rw [← ht]; exact hb,
    hdeclaring.strictly_inOrder (.numbers (hlines.sublist List.filter_sublist)),
    hmet.strictly_inOrder (Directive.takeTopLevel_counted config 0 hothers), horder⟩

/-- Lines of all passes with something to report, in mixed order: the diagnostics of a pass have
    rising numbers, but for the block of line 1 that is never closed. -/
theorem diagnostics_in_order_mixed :
    let source : Text := "c \x7b\n  p foo\n$bad\n@bar\n$worse\n@baz"
    (Config.default).TabsFit ∧
    ∃ p declaring top body, Passes.run .default source = .ok p ∧
      p.result.diagnostics = declaring ++ top ++ body ∧
      declaring.map Diagnostic.line = [some 3, some 5] ∧ declaring.Pairwise NotBelow ∧
      top.map Diagnostic.line = [some 4, some 6] ∧ top.Pairwise NotBelow ∧
      body.map Diagnostic.line = [some 2, some 1] := by
  intro source
  have hfit : (Config.default).TabsFit := by decide
  obtain ⟨p, declaring, top, body, ok, hd, ht, hb, ⟨_, hdeclaring⟩, ⟨_, htop⟩, _⟩ :=
    diagnostics_in_order hfit source
  have hvalues : (Passes.run .default source).map (fun p =>
      (p.afterVariables.diagnostics.map Diagnostic.line,
        p.afterDirectives.diagnostics.map Diagnostic.line,
        p.result.diagnostics.map Diagnostic.line)) =
      .ok ([some 3, some 5], [some 3, some 5, some 4, some 6],
        [some 3, some 5, some 4, some 6, some 2, some 1]) := by
    decide +kernel
  rw [ok] at hvalues
  obtain ⟨hfirst, hvalues⟩ := Prod.mk.inj (Except.ok.inj hvalues)
  obtain ⟨hsecond, hthird⟩ := Prod.mk.inj hvalues
  rw [hd] at hfirst
  rw [ht, List.map_append, hfirst] at hsecond
  rw [hb, List.map_append, List.map_append, hfirst, List.append_cancel_left hsecond] at hthird
  exact ⟨hfit, p, declaring, top, body, ok, hb, hfirst, hdeclaring,
    List.append_cancel_left hsecond, htop, List.append_cancel_left hthird⟩

/-- A variable below an element is reported first, and an open block last. -/
theorem diagnostics_out_of_order :
    let lines := fun source : String =>
      (compile .default source.toList).map fun c => c.diagnostics.map Diagnostic.line
    lines "p foo\n$bad" = .ok [some 2, some 1] ∧
      lines "c \x7b\n  p foo\n@bar" = .ok [some 3, some 2, some 1] := by
  decide +kernel

end OutlineMarkup
