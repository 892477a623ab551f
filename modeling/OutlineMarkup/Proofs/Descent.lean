/-
  File:      OutlineMarkup/Proofs/Descent.lean
  Subject:   Scopes, read by descending into each block at the line that opens it.

  The outline of a document is built statement by statement, with the open scopes on a stack. This
  file reads the same lines the other way: `Reads` reads one scope from its first line to its end,
  reads the blocks inside it on the way, and hands the cursor on. A scope ends

  * at a `}` on a line of its own, if a brace opened it,
  * before the first line with content that stands left of the scope's first line with content,
  * or with the lines.

  The end of a scope is looked for among the lines of that scope only, not among those of the blocks
  inside it; a line that ends a scope by standing left of it is read again by the scope around it.

  Every access that can fail (the next line of a cursor, the first and last of the tokens, the depth
  of a line) is a premise of the rule that makes it, so there is a reading only where none fails:

  * `exists_reads`: any proper lines can be read, in any scope;
  * `reads_document`: reading a document from its first line ends behind its last one.
-/
import OutlineMarkup.Proofs.Line

namespace OutlineMarkup

/-! ## 1. Cursors -/

namespace Cursor

theorem next_eq_ok {c c' : Cursor} {l : Line} :
    c.next = .ok (l, c') ↔ c.ahead = l :: c'.ahead ∧ c'.position = c.position + 1 := by
  obtain ⟨n, ls⟩ := c
  obtain ⟨n', ls'⟩ := c'
  cases ls with
  | nil => simp [next]
  | cons a as =>
    simp only [next, Except.ok.injEq, Prod.mk.injEq, mk.injEq, List.cons.injEq]
    constructor
    · rintro ⟨rfl, rfl, rfl⟩
      exact ⟨⟨rfl, rfl⟩, rfl⟩
    · rintro ⟨⟨rfl, rfl⟩, rfl⟩
      exact ⟨rfl, rfl, rfl⟩

theorem ahead_of_next {c c' : Cursor} {l : Line} (h : c.next = .ok (l, c')) :
    c.ahead = l :: c'.ahead := (next_eq_ok.mp h).1

theorem forward_of_next {c c' : Cursor} {l : Line} (h : c.next = .ok (l, c')) :
    c'.ahead <:+ c.ahead ∧ c'.length = c.length := by
  obtain ⟨e, hp⟩ := next_eq_ok.mp h
  refine ⟨e ▸ List.suffix_cons l c'.ahead, ?_⟩
  rw [length, length, e, hp, List.length_cons]
  omega

theorem proper_of_next {c c' : Cursor} {l : Line} (h : c.next = .ok (l, c'))
    (hp : ∀ l ∈ c.ahead, l.IsProper) : l.IsProper ∧ ∀ l ∈ c'.ahead, l.IsProper := by
  rw [ahead_of_next h] at hp
  exact ⟨hp l List.mem_cons_self, fun l hl => hp l (List.mem_cons_of_mem _ hl)⟩

theorem peek?_eq_some {c : Cursor} {l : Line} (h : c.peek? = some l) :
    ∃ ls, c.ahead = l :: ls := by
  obtain ⟨n, ls⟩ := c
  cases ls with
  | nil => cases h
  | cons a as => exact ⟨as, by rw [Option.some.inj h]⟩

end Cursor

theorem Directive.collectAt_cons (breakpoints : Table Text Text) (unit : Int) {c : Cursor}
    {l : Line} {ls : List Line} (hc : c.ahead = l :: ls) :
    collectAt breakpoints unit c = .ok (collect breakpoints unit l ls,
      (⟨c.position + 1, ls⟩ : Cursor).skip (extent l ls)) := by
  have next : c.next = .ok (l, ⟨c.position + 1, ls⟩) := Cursor.next_eq_ok.mpr ⟨hc, rfl⟩
  rw [collectAt, next]
  rfl

/-- Where reading goes on after a directive. -/
theorem Directive.collectAt_eq_ok {breakpoints : Table Text Text} {unit : Int} {c c' : Cursor}
    {l : Line} {ls : List Line} {block : Block} (hc : c.ahead = l :: ls)
    (h : collectAt breakpoints unit c = .ok (block, c')) :
    c'.ahead = ls.drop (extent l ls) ∧ c'.length = c.length := by
  rw [collectAt_cons breakpoints unit hc] at h
  cases h
  refine ⟨rfl, ?_⟩
  simp only [Cursor.length, Cursor.skip, hc, List.length_take, List.length_drop, List.length_cons]
  omega

theorem Directive.proper_of_collectAt {breakpoints : Table Text Text} {unit : Int} {c c' : Cursor}
    {l : Line} {block : Block} (hn : c.peek? = some l)
    (h : collectAt breakpoints unit c = .ok (block, c')) (hp : ∀ l ∈ c.ahead, l.IsProper) :
    ∀ l ∈ c'.ahead, l.IsProper := by
  obtain ⟨ls, e⟩ := Cursor.peek?_eq_some hn
  intro l' hl'
  rw [(collectAt_eq_ok e h).1] at hl'
  exact hp l' (e ▸ List.mem_cons_of_mem _ (List.mem_of_mem_drop hl'))

/-! ## 2. Scopes -/

/-- What is read of a scope: its element lines, with their depths, and the blocks inside it, in
    order. A block belongs to the latest element before it, so there is none before the first
    element; the index says whether an element has come before. -/
inductive Body : Bool → Type where
  | nil {e : Bool} : Body e
  | element {e : Bool} (line : Line) (depth : Int) (rest : Body true) : Body e
  | block (inner : Body false) (rest : Body true) : Body true

/-- How far the reading of a scope has come; the index says whether there has been an element. -/
structure Place (hasElement : Bool) where
  /-- Whether a brace opened the scope and a brace closes it. -/
  braced : Bool
  /-- The indentation of the first line with content in the scope, once there is one. -/
  margin : Option Int

namespace Place

variable {e : Bool}

/-- The start of a document, whose margin is column 0. -/
def document : Place false := ⟨false, some 0⟩

/-- The start of a block. -/
def block : Place false := ⟨true, none⟩

/-- Whether a line with the given indentation can belong to the scope: it does not stand left of
    the scope's margin. -/
def admits (p : Place e) (indent : Int) : Bool := p.margin.all fun m => decide (m ≤ indent)

/-- The scope after a line with the given indentation: the first one fixes the margin. -/
def settled (p : Place e) (indent : Int) : Place e :=
  { p with margin := p.margin.or (some indent) }

/-- The scope after an element. -/
def withElement (p : Place e) : Place true := ⟨p.braced, p.margin⟩

end Place

/-- **Reading one scope.** `Reads config p c b c'`: the scope that has come as far as `p` reads on
    from the cursor `c`, meets the elements and blocks `b`, and ends at the cursor `c'`. -/
inductive Reads (config : Config) : {e : Bool} → Place e → Cursor → Body e → Cursor → Prop where
  /-- The lines end. -/
  | finish {e : Bool} {p : Place e} {c : Cursor} (h : c.peek? = none) : Reads config p c .nil c
  /-- A blank line or a comment. -/
  | skip {e : Bool} {p : Place e} {c c' c'' : Cursor} {l : Line} {b : Body e}
      (hn : c.next = .ok (l, c')) (hs : l.isSkippable = true)
      (hr : Reads config p c' b c'') : Reads config p c b c''
  /-- A `}` closes the scope. -/
  | close {e : Bool} {p : Place e} {c c' : Cursor} {l : Line}
      (hn : c.next = .ok (l, c')) (ht : l.text = Token.closing) (hp : p.braced = true) :
      Reads config p c .nil c'
  /-- A `}` where there is nothing to close. -/
  | stray {e : Bool} {p : Place e} {c c' c'' : Cursor} {l : Line} {b : Body e}
      (hn : c.next = .ok (l, c')) (ht : l.text = Token.closing) (hp : p.braced = false)
      (hr : Reads config p c' b c'') : Reads config p c b c''
  /-- A line with content stands left of the scope; it is not read. -/
  | dedent {e : Bool} {p : Place e} {c : Cursor} {l : Line} (hn : c.peek? = some l)
      (hs : l.isSkippable = false) (ht : l.text ≠ Token.closing)
      (hi : p.admits l.indent = false) : Reads config p c .nil c
  /-- A directive takes its lines with it. -/
  | directive {e : Bool} {p : Place e} {c c' c'' : Cursor} {l : Line} {block : Directive.Block}
      {b : Body e} (hn : c.peek? = some l) (hd : l.isDirective = true)
      (hi : p.admits l.indent = true)
      (hc : Directive.collectAt config.breakpoints config.indentUnit c = .ok (block, c'))
      (hr : Reads config (p.settled l.indent) c' b c'') : Reads config p c b c''
  /-- A `{` before any element of the scope opens nothing. -/
  | ignored {p : Place false} {c c' c'' : Cursor} {l : Line} {b : Body false}
      (hn : c.next = .ok (l, c')) (ht : l.text = Token.opening) (hi : p.admits l.indent = true)
      (hr : Reads config (p.settled l.indent) c' b c'') : Reads config p c b c''
  /-- A `{` opens a block of the latest element. -/
  | block {p : Place true} {c c' c₁ c₂ : Cursor} {l : Line} {inner : Body false} {b : Body true}
      (hn : c.next = .ok (l, c')) (ht : l.text = Token.opening) (hi : p.admits l.indent = true)
      (hb : Reads config .block c' inner c₁)
      (hr : Reads config (p.settled l.indent) c₁ b c₂) : Reads config p c (.block inner b) c₂
  /-- An element. -/
  | element {e : Bool} {p : Place e} {c c' c'' : Cursor} {l : Line} {code : Text}
      {words : List Text} {depth : Int} {b : Body true}
      (hn : c.next = .ok (l, c')) (he : l.isElement = true) (hi : p.admits l.indent = true)
      (hw : l.elementWords = .ok (code, words, false))
      (hd : l.checkedDepth config.indentUnit = .ok depth)
      (hr : Reads config (p.settled l.indent).withElement c' b c'') :
      Reads config p c (.element l depth b) c''
  /-- An element whose line ends with a `{`, which opens a block of it. -/
  | opening {e : Bool} {p : Place e} {c c' c₁ c₂ : Cursor} {l : Line} {code : Text}
      {words : List Text} {depth : Int} {inner : Body false} {b : Body true}
      (hn : c.next = .ok (l, c')) (he : l.isElement = true) (hi : p.admits l.indent = true)
      (hw : l.elementWords = .ok (code, words, true))
      (hd : l.checkedDepth config.indentUnit = .ok depth)
      (hb : Reads config .block c' inner c₁)
      (hr : Reads config (p.settled l.indent).withElement c₁ b c₂) :
      Reads config p c (.element l depth (.block inner b)) c₂

namespace Reads

variable {config : Config} {e : Bool} {p : Place e} {c c' : Cursor} {b : Body e}

/-! ## 3. Where reading ends -/

/-- Reading goes forward, and the cursor counts right. -/
theorem forward (h : Reads config p c b c') : c'.ahead <:+ c.ahead ∧ c'.length = c.length := by
  have step {c c' : Cursor} {l : Line} (hn : c.next = .ok (l, c')) := Cursor.forward_of_next hn
  induction h with
  | finish h => exact ⟨List.suffix_refl _, rfl⟩
  | skip hn _ _ ih => exact ⟨ih.1.trans (step hn).1, ih.2.trans (step hn).2⟩
  | close hn _ _ => exact step hn
  | stray hn _ _ _ ih => exact ⟨ih.1.trans (step hn).1, ih.2.trans (step hn).2⟩
  | dedent _ _ _ _ => exact ⟨List.suffix_refl _, rfl⟩
  | directive hn _ _ hc _ ih =>
    obtain ⟨ls, e⟩ := Cursor.peek?_eq_some hn
    obtain ⟨e', hl⟩ := Directive.collectAt_eq_ok e hc
    rw [e'] at ih
    exact ⟨e ▸ ih.1.trans ((List.drop_suffix _ _).trans (List.suffix_cons _ _)), ih.2.trans hl⟩
  | ignored hn _ _ _ ih => exact ⟨ih.1.trans (step hn).1, ih.2.trans (step hn).2⟩
  | block hn _ _ _ _ ihb ih =>
    exact ⟨ih.1.trans (ihb.1.trans (step hn).1), ih.2.trans (ihb.2.trans (step hn).2)⟩
  | element hn _ _ _ _ _ ih => exact ⟨ih.1.trans (step hn).1, ih.2.trans (step hn).2⟩
  | opening hn _ _ _ _ _ _ ihb ih =>
    exact ⟨ih.1.trans (ihb.1.trans (step hn).1), ih.2.trans (ihb.2.trans (step hn).2)⟩

theorem proper (h : Reads config p c b c') (hp : ∀ l ∈ c.ahead, l.IsProper) :
    ∀ l ∈ c'.ahead, l.IsProper := fun l hl => hp l (h.forward.1.subset hl)

/-- A scope that no brace opened, with its margin at column 0, ends only with the lines. -/
theorem ahead_eq_nil (h : Reads config p c b c') (hb : p.braced = false) (hm : p.margin = some 0)
    (hp : ∀ l ∈ c.ahead, l.IsProper) : c'.ahead = [] := by
  have settled : ∀ {e : Bool} {p : Place e} (i : Int),
      p.margin = some 0 → (p.settled i).margin = some 0 := by
    intro e p i hm
    rw [Place.settled, hm]
    rfl
  induction h with
  | finish h => exact List.head?_eq_none_iff.mp h
  | skip hn _ _ ih => exact ih hb hm (Cursor.proper_of_next hn hp).2
  | close _ _ hbraced =>
    rw [hb] at hbraced
    cases hbraced
  | stray hn _ _ _ ih => exact ih hb hm (Cursor.proper_of_next hn hp).2
  | @dedent _ p c l hn _ _ hi =>
    -- a proper line does not stand left of column 0
    obtain ⟨ls, e⟩ := Cursor.peek?_eq_some hn
    have h0 : 0 ≤ l.indent := (hp l (e ▸ List.mem_cons_self)).indent_nonneg
    simp [Place.admits, hm] at hi
    omega
  | directive hn _ _ hc _ ih =>
    exact ih hb (settled _ hm) (Directive.proper_of_collectAt hn hc hp)
  | ignored hn _ _ _ ih => exact ih hb (settled _ hm) (Cursor.proper_of_next hn hp).2
  | block hn _ _ hblock _ _ ih =>
    exact ih hb (settled _ hm) (hblock.proper (Cursor.proper_of_next hn hp).2)
  | element hn _ _ _ _ _ ih => exact ih hb (settled _ hm) (Cursor.proper_of_next hn hp).2
  | opening hn _ _ _ _ hblock _ _ ih =>
    exact ih hb (settled _ hm) (hblock.proper (Cursor.proper_of_next hn hp).2)

end Reads

/-- **Reading a document consumes every line.** -/
theorem reads_document {config : Config} {lines : List Line} {b : Body false} {c : Cursor}
    (h : Reads config .document (.ofLines lines) b c) (hp : ∀ l ∈ lines, l.IsProper) :
    c = ⟨lines.length, []⟩ := by
  have hnil : c.ahead = [] := h.ahead_eq_nil rfl rfl hp
  have hlen : c.length = (Cursor.ofLines lines).length := h.forward.2
  obtain ⟨n, ls⟩ := c
  dsimp only at hnil
  subst hnil
  simpa [Cursor.length, Cursor.ofLines] using hlen

/-! ## 4. No access fails -/

theorem Line.checkedDepth_ok (config : Config) (l : Line) :
    l.checkedDepth config.indentUnit = .ok (l.depth config.indentUnit) :=
  if_neg (Int.ne_of_gt config.indentUnit_pos)

theorem Line.depth_eq_of_checked {config : Config} {l : Line} {depth : Int}
    (h : l.checkedDepth config.indentUnit = .ok depth) : l.depth config.indentUnit = depth := by
  rw [l.checkedDepth_ok config] at h
  exact Except.ok.inj h

/-- The kinds of lines that a scope tells apart. -/
theorem Line.kinds {l : Line} (hp : l.IsProper) :
    l.isSkippable = true ∨ l.text = Token.closing ∨
      (l.isSkippable = false ∧ l.text ≠ Token.closing) ∧
        (l.isDirective = true ∨ l.text = Token.opening ∨
          l.isElement = true ∧ ∃ code words opens, l.elementWords = .ok (code, words, opens)) := by
  cases hs : l.isSkippable with
  | true => exact .inl rfl
  | false =>
    by_cases hc : l.text = Token.closing
    · exact .inr (.inl hc)
    · refine .inr (.inr ⟨⟨rfl, hc⟩, ?_⟩)
      by_cases ho : l.text = Token.opening
      · exact .inr (.inl ho)
      · have hb : l.isBrace = false := by
          rw [Bool.eq_false_iff, ne_eq, Line.isBrace_iff, not_or]
          exact ⟨ho, hc⟩
        cases hd : l.isDirective with
        | true => exact .inl rfl
        | false =>
          obtain ⟨code, words, opens, e, _⟩ := Statement.ofLine?_element hp hs hb
          exact .inr (.inr ⟨Line.isElement_iff.mpr ⟨hs, hd, hb⟩, code, words, opens, e⟩)

/-- **Any proper lines can be read as any scope, and no access fails on the way.** -/
theorem exists_reads (config : Config) (n : Nat) {e : Bool} (p : Place e) (c : Cursor)
    (hn : c.ahead.length ≤ n) (hp : ∀ l ∈ c.ahead, l.IsProper) :
    ∃ b c', Reads config p c b c' := by
  -- induction on the number of lines ahead: a block inside leaves fewer of them to what follows it
  induction n generalizing e p c with
  | zero =>
    have hnil : c.ahead = [] := List.length_eq_zero_iff.mp (Nat.le_zero.mp hn)
    exact ⟨.nil, c, .finish (by rw [Cursor.peek?, hnil]; rfl)⟩
  | succ n ih =>
    cases hc : c.ahead with
    | nil => exact ⟨.nil, c, .finish (by rw [Cursor.peek?, hc]; rfl)⟩
    | cons l ls =>
      rw [hc] at hn hp
      have hl : l.IsProper := hp l List.mem_cons_self
      have hls : ∀ l ∈ ls, l.IsProper := fun l h => hp l (List.mem_cons_of_mem _ h)
      have hlen : ls.length ≤ n := Nat.le_of_succ_le_succ hn
      have next : c.next = .ok (l, ⟨c.position + 1, ls⟩) := Cursor.next_eq_ok.mpr ⟨hc, rfl⟩
      have peek : c.peek? = some l := by rw [Cursor.peek?, hc]; rfl
      have on : ∀ {e : Bool} (p : Place e),
          ∃ b c', Reads config p ⟨c.position + 1, ls⟩ b c' := fun p =>
        ih p ⟨c.position + 1, ls⟩ hlen hls
      have after : ∀ {inner c₁}, Reads config .block ⟨c.position + 1, ls⟩ inner c₁ →
          ∀ p : Place true, ∃ b c', Reads config p c₁ b c' := by
        intro inner c₁ h p
        exact ih p c₁ (h.forward.1.length_le.trans hlen) (h.proper hls)
      rcases Line.kinds hl with hs | ht | ⟨⟨hs, ht⟩, hk⟩
      · obtain ⟨b, c', hr⟩ := on p
        exact ⟨b, c', .skip next hs hr⟩
      · cases hb : p.braced with
        | true => exact ⟨.nil, _, .close next ht hb⟩
        | false =>
          obtain ⟨b, c', hr⟩ := on p
          exact ⟨b, c', .stray next ht hb hr⟩
      cases hi : p.admits l.indent with
      | false => exact ⟨.nil, c, .dedent peek hs ht hi⟩
      | true =>
        rcases hk with hd | ht | ⟨he, code, words, opens, hw⟩
        · obtain ⟨b, c', hr⟩ := ih (p.settled l.indent)
            ((⟨c.position + 1, ls⟩ : Cursor).skip (Directive.extent l ls))
            ((List.drop_suffix _ ls).length_le.trans hlen)
            (fun l h => hls l (List.mem_of_mem_drop h))
          exact ⟨b, c', .directive peek hd hi (Directive.collectAt_cons _ _ hc) hr⟩
        · cases e with
          | false =>
            obtain ⟨b, c', hr⟩ := on (p.settled l.indent)
            exact ⟨b, c', .ignored next ht hi hr⟩
          | true =>
            obtain ⟨inner, c₁, hb⟩ := on .block
            obtain ⟨b, c', hr⟩ := after hb (p.settled l.indent)
            exact ⟨.block inner b, c', .block next ht hi hb hr⟩
        · have hd := l.checkedDepth_ok config
          cases opens with
          | false =>
            obtain ⟨b, c', hr⟩ := on (p.settled l.indent).withElement
            exact ⟨.element l _ b, c', .element next he hi hw hd hr⟩
          | true =>
            obtain ⟨inner, c₁, hb⟩ := on .block
            obtain ⟨b, c', hr⟩ := after hb (p.settled l.indent).withElement
            exact ⟨.element l _ (.block inner b), c', .opening next he hi hw hd hb hr⟩

/-- **Reading a document fails on no proper line and consumes all of them.** -/
theorem exists_reads_document (config : Config) {lines : List Line}
    (hp : ∀ l ∈ lines, l.IsProper) :
    ∃ b, Reads config .document (.ofLines lines) b ⟨lines.length, []⟩ := by
  obtain ⟨b, c, h⟩ := exists_reads config lines.length .document (.ofLines lines) (Nat.le_refl _) hp
  exact ⟨b, reads_document h hp ▸ h⟩

end OutlineMarkup
