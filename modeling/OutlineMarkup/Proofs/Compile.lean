/-
  File:      OutlineMarkup/Proofs/Compile.lean
  Subject:   Where compiling fails: nowhere but at the width of tabs.

  `compile_total`: every source compiles under all settings whose unit of indentation a tab can be
  as wide as (`Config.TabsFit`), and under no others. The passes are written without list accesses
  that could fail; the theorem also says that the accesses of a reading line by line are safe, each
  on the lines that the pass before leaves to it:

  * taking out the directives at column 0 (`Directive.Takes`) never reads past the last line;
  * reading the body by descent (`Reads`) never does either, finds a code on every element line, and
    a depth for it;
  * no word of such a line is a brace;
  * a word that goes on with the value of the latest pair finds one (`Features.Continuable`).
-/
import OutlineMarkup.Document
import OutlineMarkup.Proofs.Inline
import OutlineMarkup.Proofs.Simulation

namespace OutlineMarkup

/-! ## 1. The directives at column 0, read with a cursor -/

namespace Directive

/-- Taking the directives at column 0 out of a document, line by line. -/
inductive Takes (config : Config) : Cursor → List Block → List Line → Prop where
  | finish {c : Cursor} (h : c.atEnd = true) : Takes config c [] []
  | directive {c c' : Cursor} {l : Line} {block : Block} {blocks : List Block} {rest : List Line}
      (hn : c.peek? = some l) (hd : (l.isDirective && l.indent == 0) = true)
      (hc : collectAt config.breakpoints config.indentUnit c = .ok (block, c'))
      (hr : Takes config c' blocks rest) : Takes config c (block :: blocks) rest
  | other {c c' : Cursor} {l : Line} {blocks : List Block} {rest : List Line}
      (hn : c.next = .ok (l, c')) (hd : (l.isDirective && l.indent == 0) = false)
      (hr : Takes config c' blocks rest) : Takes config c blocks (l :: rest)

theorem takeTopLevel_drop (config : Config) (k : Nat) (ls : List Line) :
    takeTopLevel config k ls = takeTopLevel config 0 (ls.drop k) := by
  induction ls generalizing k with
  | nil => rw [List.drop_nil, takeTopLevel, takeTopLevel]
  | cons l ls ih =>
    cases k with
    | zero => rfl
    | succ k => exact ih k

/-- The directives at column 0 can be taken out of any lines. -/
theorem takes_takeTopLevel (config : Config) (n : Nat) (c : Cursor) (hn : c.ahead.length ≤ n) :
    Takes config c (takeTopLevel config 0 c.ahead).1 (takeTopLevel config 0 c.ahead).2 := by
  induction n generalizing c with
  | zero =>
    have hnil : c.ahead = [] := List.length_eq_zero_iff.mp (Nat.le_zero.mp hn)
    rw [hnil]
    exact .finish (by rw [Cursor.atEnd, hnil]; rfl)
  | succ n ih =>
    cases hc : c.ahead with
    | nil => exact .finish (by rw [Cursor.atEnd, hc]; rfl)
    | cons l ls =>
      rw [hc] at hn
      have hlen : ls.length ≤ n := Nat.le_of_succ_le_succ hn
      have next : c.next = .ok (l, ⟨c.position + 1, ls⟩) := Cursor.next_eq_ok.mpr ⟨hc, rfl⟩
      cases hd : l.isDirective && l.indent == 0 with
      | true =>
        have hrest := ih ((⟨c.position + 1, ls⟩ : Cursor).skip (extent l ls))
          ((List.drop_suffix _ ls).length_le.trans hlen)
        rw [takeTopLevel, hd, if_pos rfl, takeTopLevel_drop]
        exact .directive (by rw [Cursor.peek?, hc]; rfl) hd (collectAt_cons _ _ hc) hrest
      | false =>
        have hrest := ih ⟨c.position + 1, ls⟩ hlen
        rw [takeTopLevel, hd, if_neg Bool.false_ne_true]
        exact .other next hd hrest

theorem mem_of_mem_takeTopLevel {config : Config} {k : Nat} {ls : List Line} {l : Line}
    (h : l ∈ (takeTopLevel config k ls).2) : l ∈ ls := by
  induction ls generalizing k with
  | nil =>
    rw [takeTopLevel] at h
    cases h
  | cons l' ls ih =>
    cases k with
    | succ k => exact List.mem_cons_of_mem _ (ih h)
    | zero =>
      rw [takeTopLevel] at h
      split at h
      · exact List.mem_cons_of_mem _ (ih h)
      · rcases List.mem_cons.mp h with rfl | h
        · exact List.mem_cons_self
        · exact List.mem_cons_of_mem _ (ih h)

end Directive

/-! ## 2. Words that go on with a value -/

namespace Features

/-- If a plain word goes on with the value of the latest pair, then there is a pair. -/
def Continuable (f : Features) : Prop := f.continuing = true → f.pairs ≠ []

/-- If a plain word goes on with the value of the latest pair, then this is a style. -/
def GoesOnWithStyle (f : Features) : Prop :=
  f.continuing = true →
    ∃ key value earlier, f.pairs = (key, value) :: earlier ∧ StyleKey.continues key = true

theorem goesOnWithStyle_of_not {f : Features} (h : f.continuing = false) :
    f.GoesOnWithStyle := by
  intro hc
  rw [h] at hc
  cases hc

theorem goesOnWithStyle_ofCode (code : Text) (line : Option Int) :
    (ofCode code line).value.GoesOnWithStyle := by
  unfold ofCode
  split
  · exact goesOnWithStyle_of_not rfl
  · split
    · exact goesOnWithStyle_of_not rfl
    · exact goesOnWithStyle_of_not rfl

theorem goesOnWithStyle_addPair (f : Features) (key value : Text) :
    (f.addPair key value).GoesOnWithStyle := by
  unfold addPair
  split
  · exact goesOnWithStyle_of_not rfl
  · split
    · exact goesOnWithStyle_of_not rfl
    · exact fun hc => ⟨key, value, f.pairs, rfl, hc⟩

theorem GoesOnWithStyle.addPlain {f : Features} (hf : f.GoesOnWithStyle) (word : Text)
    (line : Option Int) : (f.addPlain word line).value.GoesOnWithStyle := by
  unfold Features.addPlain
  split
  · rename_i hc
    obtain ⟨key, value, earlier, e, hkey⟩ := hf hc
    rw [Reported.value_pure, e]
    exact fun _ => ⟨key, value ++ " " ++ word, earlier, rfl, hkey⟩
  · exact hf

theorem GoesOnWithStyle.addWord {f : Features} (hf : f.GoesOnWithStyle) (line : Option Int)
    (word : Text) : (f.addWord line word).value.GoesOnWithStyle := by
  unfold Features.addWord
  split
  · exact goesOnWithStyle_of_not rfl
  · split
    · exact goesOnWithStyle_addPair f _ _
    · exact hf.addPlain word line

theorem continuable_read (code : Text) (words : List Text) (line : Option Int) :
    (read code words line).value.Continuable := by
  have h : ((ofCode code line).value |> words.foldl fun f w =>
      (f.addWord line w).value).GoesOnWithStyle :=
    foldl_keeps GoesOnWithStyle (fun f w _ hf => hf.addWord line w)
      (goesOnWithStyle_ofCode code line)
  unfold read
  simp only [Reported.value_bind, Reported.value_pure, Reported.value_foldlM]
  intro hc
  obtain ⟨key, value, earlier, e, _⟩ := h hc
  rw [e, ne_eq, List.reverse_eq_nil_iff]
  exact List.cons_ne_nil _ _

end Features

/-! ## 3. Compiling -/

theorem Draft.takeVariables_config (d : Draft) (lines : List Line) :
    (d.takeVariables lines).1.config = d.config := by
  refine foldl_keeps (f := addVariableLine) (fun d' => d'.config = d.config) ?_ rfl
  intro d' line _ h
  unfold addVariableLine
  split
  · exact h
  · exact h

/-- The lines that the first two passes leave to the body, with tabs as wide as a unit. -/
def linesOfBody (config : Config) (source : Text) : List Line :=
  (Directive.takeTopLevel config 0
    ((Draft.empty config).takeVariables (Line.ofSource config.tabWidth source)).2).2

/-- The lines of a source are proper, and so are those that are left to the body. -/
theorem isProper_of_mem_linesOfBody {config : Config} {source : Text} {l : Line}
    (h : l ∈ linesOfBody config source) : l.IsProper :=
  Line.isProper_of_mem_ofSource (List.mem_of_mem_filter (Directive.mem_of_mem_takeTopLevel h))

theorem Passes.run_of_tabsFit {config : Config} (h : config.TabsFit) (source : Text) :
    run config source = ofLines config (Line.ofSource config.tabWidth source) := by
  rw [run, Line.read_of_tabsFit h]
  rfl

/-- Where tabs can be as wide as a unit no pass fails, and the last one reads the body under the
    same settings. -/
theorem Passes.run_ok {config : Config} (hfit : config.TabsFit) (source : Text) :
    ∃ p, ∃ d : Draft, run config source = .ok p ∧ d.config = config ∧
      d.readBody (linesOfBody config source) = .ok (p.forest, p.afterBody) := by
  let declared := (Draft.empty config).takeVariables (Line.ofSource config.tabWidth source)
  obtain ⟨d, ok, hc⟩ :=
    declared.1.addTopLevel_ok (Directive.takeTopLevel config 0 declared.2).1
  obtain ⟨f, d', okBody⟩ := d.readBody_ok (linesOfBody config source)
  have hconfig : d.config = config := hc.trans (Draft.takeVariables_config _ _)
  refine ⟨⟨declared.1, d, d', f, (linesOfBody config source).length⟩, d, ?_, hconfig, okBody⟩
  rw [run_of_tabsFit hfit]
  show (declared.1.addTopLevel (Directive.takeTopLevel config 0 declared.2).1 >>= _) = _
  rw [ok]
  show (d.readBody (linesOfBody config source) >>= _) = _
  rw [okBody]
  rfl

theorem compile_of_run {config : Config} {source : Text} {p : Passes}
    (ok : Passes.run config source = .ok p) : compile config source = .ok p.result := by
  rw [compile, ok]
  rfl

theorem exists_compile {config : Config} (hfit : config.TabsFit) (source : Text) :
    ∃ c, compile config source = .ok c := by
  obtain ⟨p, _, ok, _⟩ := Passes.run_ok hfit source
  exact ⟨p.result, compile_of_run ok⟩

/-- Where they cannot, the first pass has no lines to work on. -/
theorem Passes.run_of_not_tabsFit {config : Config} (h : ¬ config.TabsFit) (source : Text) :
    run config source = .error .tabWidthOutOfRange := by
  rw [run, Line.read_of_not_tabsFit h]
  rfl

theorem compile_of_not_tabsFit {config : Config} (h : ¬ config.TabsFit) (source : Text) :
    compile config source = .error .tabWidthOutOfRange := by
  rw [compile, Passes.run_of_not_tabsFit h]
  rfl

/-- **Compiling fails only where tabs cannot be as wide as a unit.** Then no source compiles; else
    every source does. Reading its lines one by one, no directive and no scope looks for a line
    behind the last one, every element line has a code, a last token and a depth, and the elements
    nest as this reading says; no word of an element line is a brace, and every word that goes on
    with a value has a pair to go on with. -/
theorem compile_total (config : Config) (source : Text) :
    (∀ fault, compile config source = .error fault ↔
      fault = .tabWidthOutOfRange ∧ ¬ config.TabsFit) ∧
    let lines := ((Draft.empty config).takeVariables (Line.ofSource config.tabWidth source)).2
    let taken := Directive.takeTopLevel config 0 lines
    let written := taken.2.flatMap (Statement.writeOut config)
    config.TabsFit → ∃ passes, Passes.run config source = .ok passes ∧
      compile config source = .ok passes.result ∧
      Directive.Takes config (.ofLines lines) taken.1 taken.2 ∧
      (∃ b, Reads config .document (.ofLines written) b ⟨written.length, []⟩ ∧
        passes.forest.map Element.depth = Forest.nest id (b.outline []).reverse) ∧
      (∀ line code words opens, .element line code words opens ∈ Statement.ofLines config taken.2 →
        Token.AreWords (code :: words)) ∧
      ∀ code words line, (Features.read code words line).value.Continuable := by
  refine ⟨fun fault => ?_, ?_⟩
  · by_cases hfit : config.TabsFit
    · obtain ⟨c, ok⟩ := exists_compile hfit source
      simp [ok, hfit]
    · rw [compile_of_not_tabsFit hfit]
      simp [hfit, eq_comm]
  intro lines taken written hfit
  obtain ⟨passes, d, ok, hd, okBody⟩ := Passes.run_ok hfit source
  have hproper : ∀ l ∈ taken.2, l.IsProper := fun l h => isProper_of_mem_linesOfBody h
  refine ⟨passes, ok, compile_of_run ok, ?_, ?_,
    fun _ _ _ _ => Statement.areWords_of_mem_ofLines, Features.continuable_read⟩
  · exact Directive.takes_takeTopLevel config lines.length (.ofLines lines) (Nat.le_refl _)
  · obtain ⟨b, hb⟩ := exists_reads_document config (Statement.isProper_of_mem_flatMap hproper)
    refine ⟨b, hb, ?_⟩
    subst hd
    obtain ⟨f, d', okReads, hmap⟩ := d.readBody_reads hproper hb
    obtain ⟨rfl, rfl⟩ := Prod.mk.inj (Except.ok.inj (okReads.symm.trans okBody))
    exact hmap

/-- A directive at column 0, a single-line block and a brace that is never closed, under a unit as
    wide as a tab can be: nothing fails, and the elements lie this deep. -/
theorem compile_total_widest_tabs :
    let config : Config := { indentUnit := 2147483647 }
    let source : Text := "@mobile \x7b\n.a pad=8\n\x7d\nc \x7b p t=x \x7d\nul \x7b\nli t=y"
    config.TabsFit ∧
    ∃ passes, Passes.run config source = .ok passes ∧
      compile config source = .ok passes.result ∧
      passes.forest.labels.map (fun e => (String.ofList e.tag, e.depth)) =
        [("section", 0), ("p", 1), ("ul", 0), ("li", 0)] ∧
      passes.afterBody.diagnostics = [⟨.unclosedBlock, some 5⟩] := by
  intro config source
  have hfit : config.TabsFit := by decide
  obtain ⟨passes, ok, okResult, _⟩ := (compile_total config source).2 hfit
  have hvalues : (Passes.run config source).map (fun passes =>
      (passes.forest.labels.map (fun e => (String.ofList e.tag, e.depth)),
        passes.afterBody.diagnostics)) =
      .ok ([("section", 0), ("p", 1), ("ul", 0), ("li", 0)], [⟨.unclosedBlock, some 5⟩]) := by
    decide +kernel
  rw [ok] at hvalues
  obtain ⟨hforest, hdiagnostics⟩ := Prod.mk.inj (Except.ok.inj hvalues)
  exact ⟨hfit, passes, ok, okResult, hforest, hdiagnostics⟩

/-- One column more than a tab can have: the settings are accepted, and nothing compiles. -/
theorem compile_fails_on_wide_unit :
    let config : Config := { indentUnit := 2147483648 }
    Config.ofSettings { indentUnit := 2147483648 } = .ok config ∧
      compile config "p t=x" = .error .tabWidthOutOfRange := by
  decide +kernel

end OutlineMarkup
