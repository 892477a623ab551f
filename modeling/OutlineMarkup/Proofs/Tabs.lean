/-
  File:      OutlineMarkup/Proofs/Tabs.lean
  Subject:   A tab is exactly one unit of indentation.

  A tab stop is a multiple of the unit, so the tabs at the start of a row are as many units wide as
  there are tabs (`Text.expandTabsFrom_tabs`), and the lines of a source indented by tabs are those
  for a unit of one column, with their indentations multiplied (`Line.ofSource_tabs`). Indentations
  count only in units (`compileLines_scale`), so the unit makes no difference.

  * **`compile_tab_indented`**: a source indented by tabs compiles to the same under any two
    configurations that differ only in the unit, if a tab can be as wide as these are.
-/
import OutlineMarkup.Proofs.Scaling

namespace OutlineMarkup

/-! ## 1. Tabs at the start of a row -/

namespace Text

theorem expandTabsFrom_of_no_tab (unit column : Nat) {t : Text} (h : '\t' ∉ t) :
    expandTabsFrom unit column t = t := by
  induction t generalizing column with
  | nil => rfl
  | cons c cs ih =>
    have hc : c ≠ '\t' := fun e => h (e ▸ List.mem_cons_self)
    have hcs : '\t' ∉ cs := fun hmem => h (List.mem_cons_of_mem _ hmem)
    unfold expandTabsFrom
    rw [if_neg hc]
    split
    · rw [ih 0 hcs]
    · rw [ih (column + 1) hcs]

/-- From a tab stop on, each tab is one unit wide. -/
theorem expandTabsFrom_tabs (unit k n : Nat) {t : Text} (h : '\t' ∉ t) :
    expandTabsFrom unit (k * unit) (List.replicate n '\t' ++ t) =
      List.replicate (n * unit) ' ' ++ t := by
  induction n generalizing k with
  | zero =>
    rw [Nat.zero_mul]
    exact expandTabsFrom_of_no_tab unit (k * unit) h
  | succ n ih =>
    have hfill : unit - k * unit % unit = unit := by rw [Nat.mul_mod_left, Nat.sub_zero]
    have hstop : k * unit + unit = (k + 1) * unit := (Nat.succ_mul k unit).symm
    have hwidth : (n + 1) * unit = unit + n * unit := by rw [Nat.succ_mul, Nat.add_comm]
    rw [List.replicate_succ, List.cons_append, expandTabsFrom, if_pos rfl]
    dsimp only
    rw [hfill, hstop, ih, hwidth, List.replicate_add, List.append_assoc]

theorem isBlank_of_mem_spaces (n : Nat) : ∀ c ∈ List.replicate n ' ', isBlank c = true := by
  intro c hc
  rw [List.eq_of_mem_replicate hc]
  rfl

/-- Whether the blanks at the start of a row are tabs, and there are no others in it. -/
def isTabIndented (row : Text) : Bool :=
  (row.takeWhile isBlank).all (· == '\t') && !(row.dropWhile isBlank).contains '\t'

section TabIndented

variable (width : Int32) {row : Text} (h : isTabIndented row = true)

include h

theorem expandTabs_tabIndented :
    expandTabs width row =
      List.replicate ((row.takeWhile isBlank).length * width.toNatClampNeg) ' ' ++
        row.dropWhile isBlank := by
  obtain ⟨htabs, hrest⟩ := Bool.and_eq_true_iff.mp h
  have hrest' : '\t' ∉ row.dropWhile isBlank := by simpa using hrest
  have htabs' : row.takeWhile isBlank = List.replicate (row.takeWhile isBlank).length '\t' :=
    List.eq_replicate_iff.mpr ⟨rfl, fun c hc => beq_iff_eq.mp (List.all_eq_true.mp htabs c hc)⟩
  have e := expandTabsFrom_tabs width.toNatClampNeg 0 (row.takeWhile isBlank).length hrest'
  rw [← htabs', List.takeWhile_append_dropWhile, Nat.zero_mul] at e
  exact e

theorem strip_expandTabs_tabIndented : strip (expandTabs width row) = strip row := by
  rw [expandTabs_tabIndented width h, strip, strip, stripLeft, stripLeft,
    List.dropWhile_append_of_pos (isBlank_of_mem_spaces _), List.dropWhile_idempotent]

theorem length_takeWhile_expandTabs_tabIndented :
    ((expandTabs width row).takeWhile isBlank).length =
      (row.takeWhile isBlank).length * width.toNatClampNeg := by
  have hfirst : (row.dropWhile isBlank).takeWhile isBlank = [] := by
    have e := List.takeWhile_append_dropWhile (p := isBlank) (l := row.dropWhile isBlank)
    rw [List.dropWhile_idempotent] at e
    exact List.append_left_eq_self.mp e
  rw [expandTabs_tabIndented width h, List.takeWhile_append_of_pos (isBlank_of_mem_spaces _),
    hfirst, List.append_nil, List.length_replicate]

end TabIndented

end Text

/-! ## 2. Lines -/

namespace Line

/-- The line of a row indented by tabs. -/
theorem ofRow_tabs {width : Int32} (hw : 0 < width.toInt) (number : Nat) {row : Text}
    (h : Text.isTabIndented row = true) :
    ofRow width number row =
      ⟨number, if (Text.strip row).isEmpty then 0 else
        (row.takeWhile Text.isBlank).length * width.toInt, Text.strip row⟩ := by
  unfold ofRow
  dsimp only
  rw [Text.strip_expandTabs_tabIndented _ h, Text.length_takeWhile_expandTabs_tabIndented _ h,
    Int.natCast_mul, ← Int32.toNat_toInt, Int.toNat_of_nonneg (Int.le_of_lt hw)]

/-- **Tabs are units**: the lines are those for a unit of one column, multiplied. -/
theorem ofSource_tabs {width : Int32} (hw : 0 < width.toInt) {source : Text}
    (h : (rows source).all Text.isTabIndented = true) :
    ofSource width source = (ofSource 1 source).map (scale width.toInt) := by
  unfold ofSource
  rw [List.map_map]
  refine List.map_congr_left fun r hr => ?_
  have hrow : Text.isTabIndented r.1 = true :=
    List.all_eq_true.mp h r.1 (List.fst_mem_of_mem_zipIdx hr)
  have hone : (1 : Int32).toInt = 1 := by decide
  show ofRow width r.2 r.1 = (ofRow 1 r.2 r.1).scale width.toInt
  rw [ofRow_tabs hw r.2 hrow, ofRow_tabs (hone ▸ Int.one_pos) r.2 hrow, hone, Int.mul_one]
  unfold scale
  split
  · rw [Int.zero_mul]
  · rfl

end Line

/-! ## 3. Documents -/

/-- The settings with a unit of one column. -/
def Config.oneColumn (config : Config) : Config :=
  { config with indentUnit := 1, indentUnit_pos := Int.one_pos }

/-- Accepted settings are what is set. -/
theorem Config.eq_of_toSettings {config config' : Config}
    (h : config.toSettings = config'.toSettings) : config = config' := by
  cases config
  cases config'
  cases h
  rfl

theorem Config.scale_oneColumn (config : Config) :
    config.oneColumn.scale config.indentUnit_pos = config := by
  apply eq_of_toSettings
  show { config.toSettings with indentUnit := 1 * config.indentUnit } = config.toSettings
  rw [Int.one_mul]

theorem Config.oneColumn_congr {config config' : Config}
    (h : { config'.toSettings with indentUnit := config.indentUnit } = config.toSettings) :
    config'.oneColumn = config.oneColumn := by
  apply eq_of_toSettings
  show { config'.toSettings with indentUnit := 1 } = { config.toSettings with indentUnit := 1 }
  rw [← h]

theorem compile_tabs {config : Config} (hfit : config.TabsFit) {source : Text}
    (h : (Line.rows source).all Text.isTabIndented = true) :
    compile config source = compileLines config.oneColumn (Line.ofSource 1 source) := by
  have hpos : 0 < config.tabWidth.toInt := by
    rw [Config.toInt_tabWidth hfit]
    exact config.indentUnit_pos
  rw [compile_eq_compileLines hfit, Line.ofSource_tabs hpos h, Config.toInt_tabWidth hfit]
  have hscale := compileLines_scale config.indentUnit_pos config.oneColumn (Line.ofSource 1 source)
  rw [config.scale_oneColumn] at hscale
  exact hscale

/-- **A source indented by tabs compiles to the same for every unit** that a tab can be as wide as:
    the same tree with the same depths, the same stylesheet and the same diagnostics. -/
theorem compile_tab_indented {config config' : Config} (hfit : config.TabsFit)
    (hfit' : config'.TabsFit)
    (hc : { config'.toSettings with indentUnit := config.indentUnit } = config.toSettings)
    {source : Text} (h : (Line.rows source).all Text.isTabIndented = true) :
    ∃ c, compile config source = .ok c ∧ compile config' source = .ok c := by
  obtain ⟨c, ok⟩ := exists_compile hfit source
  refine ⟨c, ok, ?_⟩
  rw [compile_tabs hfit' h, Config.oneColumn_congr hc, ← compile_tabs hfit h]
  exact ok

/-- A block, a block on one line, a directive inside the tree and keyframes without a brace. -/
theorem compile_tab_indented_mixed :
    let wide : Config := { indentUnit := 7 }
    let source : Text := ("main \x7b\n\t\th1 t=a\n\t\t\t@mobile pad=8\n\tul \x7b li t=b \x7d\n" ++
      "\x7d\n\tp t=c\n@keyframes fade\n\t0% op=0").toList
    (Config.default).TabsFit ∧ wide.TabsFit ∧
      { wide.toSettings with indentUnit := (Config.default).indentUnit } =
        (Config.default).toSettings ∧
      (Line.rows source).all Text.isTabIndented = true ∧
      ∃ c, compile .default source = .ok c ∧ compile wide source = .ok c ∧
        c.root.labels.map Element.depth = [0, 0, 2, 1, 2, 1] := by
  intro wide source
  have hfit : (Config.default).TabsFit := by decide
  have hwide : wide.TabsFit := by decide
  have hrows : (Line.rows source).all Text.isTabIndented = true := by decide +kernel
  have hunit : { wide.toSettings with indentUnit := (Config.default).indentUnit } =
      (Config.default).toSettings := rfl
  obtain ⟨c, ok, ok'⟩ := compile_tab_indented hfit hwide hunit hrows
  have hdepths : (compile .default source).map (fun c => c.root.labels.map Element.depth) =
      .ok [0, 0, 2, 1, 2, 1] := by decide +kernel
  rw [ok] at hdepths
  exact ⟨hfit, hwide, hunit, hrows, c, ok, ok', Except.ok.inj hdepths⟩

/-- A unit that no tab is as wide as: the source compiles with a unit of 2 columns and fails with
    this one, and nothing else differs. -/
theorem compile_tab_indented_refused :
    let wide : Config := { indentUnit := 2147483648 }
    let source : Text := "c\n\tp t=x"
    { wide.toSettings with indentUnit := (Config.default).indentUnit } =
        (Config.default).toSettings ∧
      (Line.rows source).all Text.isTabIndented = true ∧
      (compile .default source).map (fun c => c.root.labels.map Element.depth) = .ok [0, 0, 1] ∧
      compile wide source = .error .tabWidthOutOfRange := by
  decide +kernel

end OutlineMarkup
