/-
  File:      OutlineMarkup/Proofs/Decoding.lean
  Subject:   Markup can be read back.

  In the markup of elements `<` and `>` stand only around tags and `"` only around the values of
  attributes: names have none of them (`isName`), and in text and values they are written as
  references. So the markup can be cut at these characters without looking at what is nested in
  what: at every `<` into tags with the text behind them, and a start tag at every `"`.

  * `readStart?_startPiece`: a start tag is read back, with the text behind it;
  * `assemble_tags`: start and end tags are put together to the forest again, from the last tag to
    the first: an end tag begins a forest of children, and a start tag takes it;
  * **`elements_lossless`**: so the markup of a forest determines, for every element, its tag, its
    attributes in order, its text and its children.
-/
import OutlineMarkup.Proofs.Page
import OutlineMarkup.Proofs.Substance
import OutlineMarkup.Proofs.Text

namespace OutlineMarkup.Markup

/-! ## 1. Names -/

/-- Whether a character may stand in the name of a tag or of an attribute: no blank, no quote, and
    none of `<`, `>`, `/` and `=`. -/
def isNameChar (c : Char) : Bool :=
  !Text.isBlank c && !(['"', '\'', '<', '>', '/', '='] : Text).contains c

/-- Whether a text can be written as the name of a tag or of an attribute. -/
def isName (t : Text) : Bool := !t.isEmpty && t.all isNameChar

theorem not_mem_of_isName {t : Text} (h : isName t = true) {c : Char} (hc : isNameChar c = false) :
    c ∉ t := by
  intro hm
  have hall := List.all_eq_true.mp (Bool.and_eq_true_iff.mp h).2 c hm
  rw [hc] at hall
  cases hall

/-- The attributes of an element as they are written are its id, its classes and its own. -/
theorem mem_keys_htmlAttributes {e : Element} {name : Text} (h : name ∈ e.htmlAttributes.keys) :
    name = "id".toList ∨ name = "class".toList ∨ name ∈ e.attributes.keys := by
  rcases (Table.mem_keys_insertAll _).mp h with h | h
  · split at h
    · split at h
      · cases h
      · rcases Table.mem_keys_alter.mp h with h | h
        · cases h
        · exact .inl h
    · rcases Table.mem_keys_alter.mp h with h | h
      · split at h
        · cases h
        · rcases Table.mem_keys_alter.mp h with h | h
          · cases h
          · exact .inl h
      · exact .inr (.inl h)
  · exact .inr (.inr h)

theorem isName_or_mem_keys {e : Element} {name : Text} (h : name ∈ e.htmlAttributes.keys) :
    isName name = true ∨ name ∈ e.attributes.keys := by
  rcases mem_keys_htmlAttributes h with rfl | rfl | hm
  · exact .inl (by decide)
  · exact .inl (by decide)
  · exact .inr hm

/-- Whether the tag and the attributes of an element have names that can be written. -/
def isNamed (e : Element) : Bool := isName e.tag && e.attributes.keys.all isName

theorem isName_tag {e : Element} (h : isNamed e = true) : isName e.tag = true :=
  (Bool.and_eq_true_iff.mp h).1

theorem isName_htmlAttributes {e : Element} (h : isNamed e = true) :
    ∀ a ∈ e.htmlAttributes.entries, isName a.1 = true := by
  intro a ha
  have hkey : a.1 ∈ e.htmlAttributes.keys := List.mem_map_of_mem ha
  rcases isName_or_mem_keys hkey with hname | hm
  · exact hname
  · exact List.all_eq_true.mp (Bool.and_eq_true_iff.mp h).2 _ hm

/-! ## 2. References -/

/-- The text with its references written as the characters that they stand for. -/
def unescape : Text → Text
  | '&' :: 'a' :: 'm' :: 'p' :: ';' :: t => '&' :: unescape t
  | '&' :: 'l' :: 't' :: ';' :: t => '<' :: unescape t
  | '&' :: 'g' :: 't' :: ';' :: t => '>' :: unescape t
  | '&' :: 'q' :: 'u' :: 'o' :: 't' :: ';' :: t => '"' :: unescape t
  | '&' :: '#' :: 'x' :: '2' :: '7' :: ';' :: t => '\'' :: unescape t
  | c :: t => c :: unescape t
  | [] => []

theorem unescape_cons {c : Char} (h : c ≠ '&') (t : Text) :
    unescape (c :: t) = c :: unescape t := by
  simp [unescape, h]

theorem unescape_escapeTextChar (c : Char) (t : Text) :
    unescape (escapeTextChar c ++ t) = c :: unescape t := by
  unfold escapeTextChar
  split_ifs with hamp hlt hgt
  · subst hamp
    rfl
  · subst hlt
    rfl
  · subst hgt
    rfl
  · exact unescape_cons hamp t

theorem unescape_escapeAttributeChar (c : Char) (t : Text) :
    unescape (escapeAttributeChar c ++ t) = c :: unescape t := by
  unfold escapeAttributeChar
  split_ifs with hdouble hsingle
  · subst hdouble
    rfl
  · subst hsingle
    rfl
  · exact unescape_escapeTextChar c t

/-- What is read back character by character is read back. -/
theorem unescape_flatMap {escape : Char → Text}
    (h : ∀ c t, unescape (escape c ++ t) = c :: unescape t) (t : Text) :
    unescape (t.flatMap escape) = t := by
  induction t with
  | nil => rfl
  | cons c t ih => rw [List.flatMap_cons, h, ih]

theorem unescape_escapeText (t : Text) : unescape (escapeText t) = t :=
  unescape_flatMap unescape_escapeTextChar t

theorem unescape_escapeAttribute (t : Text) : unescape (escapeAttribute t) = t :=
  unescape_flatMap unescape_escapeAttributeChar t

theorem escapeTextChar_free (c : Char) :
    (escapeTextChar c).all (fun x => x != '<' && x != '>') = true := by
  unfold escapeTextChar
  split_ifs with hamp hlt hgt
  · decide
  · decide
  · decide
  · simp [hlt, hgt]

theorem escapeAttributeChar_free (c : Char) :
    (escapeAttributeChar c).all (fun x => x != '<' && x != '>' && x != '"') = true := by
  unfold escapeAttributeChar escapeTextChar
  split_ifs with hdouble hsingle hamp hlt hgt
  · decide
  · decide
  · decide
  · decide
  · decide
  · simp [hlt, hgt, hdouble]

/-- Text between tags has neither `<` nor `>`. -/
theorem escapeText_free (t : Text) : '<' ∉ escapeText t ∧ '>' ∉ escapeText t := by
  have h : ∀ x ∈ escapeText t, (x != '<' && x != '>') = true := by
    intro x hx
    obtain ⟨c, _, hx⟩ := List.mem_flatMap.mp hx
    exact List.all_eq_true.mp (escapeTextChar_free c) x hx
  exact ⟨fun hm => absurd (h _ hm) (by decide), fun hm => absurd (h _ hm) (by decide)⟩

/-- The value of an attribute has neither `<` nor `>` nor `"`. -/
theorem escapeAttribute_free (t : Text) :
    '<' ∉ escapeAttribute t ∧ '>' ∉ escapeAttribute t ∧ '"' ∉ escapeAttribute t := by
  have h : ∀ x ∈ escapeAttribute t, (x != '<' && x != '>' && x != '"') = true := by
    intro x hx
    obtain ⟨c, _, hx⟩ := List.mem_flatMap.mp hx
    exact List.all_eq_true.mp (escapeAttributeChar_free c) x hx
  exact ⟨fun hm => absurd (h _ hm) (by decide), fun hm => absurd (h _ hm) (by decide),
    fun hm => absurd (h _ hm) (by decide)⟩

/-! ## 3. Start tags -/

/-- What the markup shows of an element: its tag, its attributes in order and its text. -/
structure Shown where
  tag : Text
  attributes : List (Text × Text)
  text : Text
  deriving DecidableEq, Repr

/-- What the markup shows of an element; a text that is empty is as good as none. -/
def shown (e : Element) : Shown := ⟨e.tag, e.htmlAttributes.entries, e.text.getD []⟩

/-- The name of an attribute, given what stands between the value before it and its own. -/
def readName (before : Text) : Text := ((before.dropWhile (· ≠ ' ')).drop 1).dropLast

/-- The attributes of a start tag that is cut at its quotes, given the piece before the next
    value. -/
def readAttributes : Text → List Text → List (Text × Text)
  | before, value :: next :: rest => (readName before, unescape value) :: readAttributes next rest
  | _, _ => []

/-- Reads a start tag without its `<`, and the text behind it. -/
def readStart? (piece : Text) : Option Shown :=
  match Text.cut? '>' piece with
  | none => none
  | some (inside, text) =>
    match List.splitOn '"' inside with
    | [] => none
    | first :: rest =>
      some ⟨first.takeWhile (· ≠ ' '), readAttributes first rest, unescape text⟩

/-- What stands before the value of an attribute: a word, a blank, the name and `=`. -/
theorem readName_eq {word : Text} (hblank : ' ' ∉ word) (name : Text) :
    let before := word ++ ' ' :: (name ++ ['='])
    before.takeWhile (· ≠ ' ') = word ∧ readName before = name := by
  have hall : ∀ c ∈ word, decide (c ≠ ' ') = true :=
    fun c hc => decide_eq_true fun e => hblank (e ▸ hc)
  constructor
  · rw [List.takeWhile_append_of_pos hall]
    simp
  · rw [readName, List.dropWhile_append_of_pos hall]
    simp

/-- **The attributes of a start tag are read back**, whatever word stands before them. -/
theorem readAttributes_attributeTexts {as : List (Text × Text)}
    (h : ∀ a ∈ as, isName a.1 = true) (word : Text) (hquote : '"' ∉ word) (hblank : ' ' ∉ word) :
    ∃ first rest,
      List.splitOn '"' (word ++ as.flatMap fun a => attributeText a.1 a.2) = first :: rest ∧
      first.takeWhile (· ≠ ' ') = word ∧ readAttributes first rest = as := by
  induction as generalizing word with
  | nil =>
    refine ⟨word, [], ?_, ?_, rfl⟩
    · rw [List.flatMap_nil, List.append_nil, List.splitOn_eq_singleton hquote]
    · rw [List.takeWhile_eq_self_iff]
      exact fun c hc => decide_eq_true fun e => hblank (e ▸ hc)
  | cons a as ih =>
    obtain ⟨name, value⟩ := a
    have hname : '"' ∉ name := not_mem_of_isName (h _ List.mem_cons_self) (by decide)
    obtain ⟨next, rest, hsplit, _, hread⟩ :=
      ih (fun b hb => h b (List.mem_cons_of_mem _ hb)) [] List.not_mem_nil List.not_mem_nil
    obtain ⟨htake, hfirst⟩ := readName_eq hblank name
    have htext : word ++ ((name, value) :: as).flatMap (fun a => attributeText a.1 a.2) =
        (word ++ ' ' :: (name ++ ['='])) ++ '"' :: (escapeAttribute value ++
          '"' :: ([] ++ as.flatMap fun a => attributeText a.1 a.2)) := by
      simp [attributeText]
    have hbefore : '"' ∉ word ++ ' ' :: (name ++ ['=']) := by simp [hquote, hname]
    refine ⟨_, escapeAttribute value :: next :: rest, ?_, htake, ?_⟩
    · rw [htext, List.splitOn_append_cons_self_of_not_mem hbefore,
        List.splitOn_append_cons_self_of_not_mem (escapeAttribute_free value).2.2, hsplit]
    · rw [readAttributes, hfirst, unescape_escapeAttribute, hread]

/-- A start tag without its `<`, and the text behind it. -/
def startPiece (e : Element) : Text :=
  e.tag ++ (e.htmlAttributes.entries.flatMap fun a => attributeText a.1 a.2) ++
    '>' :: escapeText (e.text.getD [])

/-- An end tag without its `<`. -/
def endPiece (e : Element) : Text := '/' :: (e.tag ++ ['>'])

/-- Attributes have neither `<` nor `>` in them. -/
theorem attributeTexts_free {as : List (Text × Text)} (h : ∀ a ∈ as, isName a.1 = true) {c : Char}
    (hc : c = '<' ∨ c = '>') : c ∉ as.flatMap fun a => attributeText a.1 a.2 := by
  intro hm
  obtain ⟨a, ha, hm⟩ := List.mem_flatMap.mp hm
  have hname : c ∉ a.1 := not_mem_of_isName (h a ha) (by rcases hc with rfl | rfl <;> decide)
  have hvalue : c ∉ escapeAttribute a.2 := by
    rcases hc with rfl | rfl
    · exact (escapeAttribute_free a.2).1
    · exact (escapeAttribute_free a.2).2.1
  rcases hc with rfl | rfl <;> simp [attributeText, hname, hvalue] at hm

/-- **A start tag is read back**, with the text behind it. -/
theorem readStart?_startPiece {e : Element} (h : isNamed e = true) :
    readStart? (startPiece e) = some (shown e) := by
  have htag : ∀ {c : Char}, isNameChar c = false → c ∉ e.tag := not_mem_of_isName (isName_tag h)
  obtain ⟨first, rest, hsplit, htake, hread⟩ :=
    readAttributes_attributeTexts (isName_htmlAttributes h) e.tag (htag (by decide))
      (htag (by decide))
  have hinside :
      '>' ∉ e.tag ++ e.htmlAttributes.entries.flatMap fun a => attributeText a.1 a.2 := by
    rw [List.mem_append, not_or]
    exact ⟨htag (by decide), attributeTexts_free (isName_htmlAttributes h) (.inr rfl)⟩
  simp only [readStart?, startPiece, Text.cut?_append hinside, hsplit, htake, hread,
    unescape_escapeText]
  rfl

/-! ## 4. Tags and forests -/

/-- A tag of the markup. -/
inductive Tag where
  | start (element : Shown)
  | finish
  deriving DecidableEq, Repr

/-- Reads a tag without its `<`, and the text behind it. -/
def readTag? (piece : Text) : Option Tag :=
  if piece.head? = some '/' then some .finish else (readStart? piece).map .start

/-- Puts tags together, from the last one to the first. The forests are those that go on before the
    tags: the innermost first, then the one that it is part of, and so on. -/
def assemble : List Tag → List (Forest Shown)
  | [] => [.nil]
  | .finish :: tags => .nil :: assemble tags
  | .start element :: tags =>
    match assemble tags with
    | children :: siblings :: around => .node element children siblings :: around
    | forests => forests

/-- Reads markup back. -/
def decode (markup : Text) : Option (Forest Shown) :=
  match List.splitOn '<' markup with
  | [] :: pieces =>
    match pieces.mapM readTag? with
    | none => none
    | some tags =>
      match assemble tags with
      | [f] => some f
      | _ => none
  | _ => none

/-- The tags of a forest. -/
def tags : Forest Element → List Tag
  | .nil => []
  | .node e cs ss => .start (shown e) :: (tags cs ++ .finish :: tags ss)

/-- The tags of a forest as they are written, without their `<`. -/
def pieces : Forest Element → List Text
  | .nil => []
  | .node e cs ss => startPiece e :: (pieces cs ++ endPiece e :: pieces ss)

/-- **Tags are put together to the forest that they come from**, in front of what follows. -/
theorem assemble_tags (f : Forest Element) (after : List Tag) {g : Forest Shown}
    {around : List (Forest Shown)} (h : assemble after = g :: around) :
    assemble (tags f ++ after) = (f.map shown ++ g) :: around := by
  induction f generalizing after g around with
  | nil => exact h
  | node e cs ss ihc ihs =>
    have hchildren : assemble (tags cs ++ .finish :: (tags ss ++ after)) =
        (cs.map shown ++ .nil) :: (ss.map shown ++ g) :: around :=
      ihc _ (by rw [assemble, ihs _ h])
    have htags : tags (.node e cs ss) ++ after =
        .start (shown e) :: (tags cs ++ .finish :: (tags ss ++ after)) := by simp [tags]
    rw [htags, assemble, hchildren, Forest.append_nil]
    rfl

theorem elements_eq_pieces (f : Forest Element) :
    elements f = (pieces f).flatMap ('<' :: ·) := by
  induction f with
  | nil => rfl
  | node e cs ss ihc ihs =>
    simp [elements, pieces, ihc, ihs, startTag, endTag, startPiece, endPiece]

theorem forall_labels_node {P : Element → Prop} {e : Element} {cs ss : Forest Element}
    (h : ∀ x ∈ (Forest.node e cs ss).labels, P x) :
    P e ∧ (∀ x ∈ cs.labels, P x) ∧ ∀ x ∈ ss.labels, P x :=
  ⟨h e List.mem_cons_self,
    fun x hx => h x (List.mem_cons_of_mem _ (List.mem_append_left _ hx)),
    fun x hx => h x (List.mem_cons_of_mem _ (List.mem_append_right _ hx))⟩

theorem readTag?_startPiece {e : Element} (h : isNamed e = true) :
    readTag? (startPiece e) = some (.start (shown e)) := by
  have hslash : (startPiece e).head? ≠ some '/' := by
    have hmem : '/' ∉ e.tag := not_mem_of_isName (isName_tag h) (by decide)
    cases htag : e.tag with
    | nil =>
      have hname := isName_tag h
      rw [htag] at hname
      cases hname
    | cons c cs =>
      rw [htag] at hmem
      have hc : c ≠ '/' := fun e => hmem (e ▸ List.mem_cons_self)
      simp [startPiece, htag, hc]
  rw [readTag?, if_neg hslash, readStart?_startPiece h]
  rfl

theorem readTag?_endPiece (e : Element) : readTag? (endPiece e) = some .finish := rfl

/-- The written tags of a forest are read back, one by one. -/
theorem readTag?_pieces {f : Forest Element} (h : ∀ e ∈ f.labels, isNamed e = true) :
    (pieces f).mapM readTag? = some (tags f) := by
  induction f with
  | nil => rfl
  | node e cs ss ihc ihs =>
    obtain ⟨he, hcs, hss⟩ := forall_labels_node h
    rw [pieces, List.mapM_cons, List.mapM_append, List.mapM_cons, readTag?_startPiece he, ihc hcs,
      readTag?_endPiece, ihs hss]
    rfl

/-- Between two `<` that open tags there is none. -/
theorem pieces_free {f : Forest Element} (h : ∀ e ∈ f.labels, isNamed e = true) :
    ∀ piece ∈ pieces f, '<' ∉ piece := by
  induction f with
  | nil => exact fun piece hp => absurd hp List.not_mem_nil
  | node e cs ss ihc ihs =>
    obtain ⟨he, hcs, hss⟩ := forall_labels_node h
    have htag : '<' ∉ e.tag := not_mem_of_isName (isName_tag he) (by decide)
    intro piece hp
    rcases List.mem_cons.mp hp with rfl | hp
    · have hattributes := attributeTexts_free (isName_htmlAttributes he) (.inl rfl)
      have htext := (escapeText_free (e.text.getD [])).1
      rw [startPiece, List.mem_append, List.mem_append, List.mem_cons]
      rintro ((hm | hm) | hm | hm)
      · exact htag hm
      · exact hattributes hm
      · exact absurd hm (by decide)
      · exact htext hm
    · rcases List.mem_append.mp hp with hp | hp
      · exact ihc hcs piece hp
      · rcases List.mem_cons.mp hp with rfl | hp
        · simp [endPiece, htag]
        · exact ihs hss piece hp

theorem splitOn_flatMap {sep : Char} {p : Text} {ps : List Text} (hp : sep ∉ p)
    (h : ∀ q ∈ ps, sep ∉ q) : List.splitOn sep (p ++ ps.flatMap (sep :: ·)) = p :: ps := by
  induction ps generalizing p with
  | nil => rw [List.flatMap_nil, List.append_nil, List.splitOn_eq_singleton hp]
  | cons q qs ih =>
    rw [List.flatMap_cons, List.cons_append, List.splitOn_append_cons_self_of_not_mem hp,
      ih (h q List.mem_cons_self) fun r hr => h r (List.mem_cons_of_mem _ hr)]

/-- **Markup is read back.** -/
theorem decode_elements {f : Forest Element} (h : ∀ e ∈ f.labels, isNamed e = true) :
    decode (elements f) = some (f.map shown) := by
  have hsplit : List.splitOn '<' (elements f) = [] :: pieces f := by
    rw [elements_eq_pieces]
    exact splitOn_flatMap List.not_mem_nil (pieces_free h)
  have hassemble : assemble (tags f) = [f.map shown] := by
    have happend := assemble_tags f [] rfl
    rw [List.append_nil, Forest.append_nil] at happend
    exact happend
  simp only [decode, hsplit, readTag?_pieces h, hassemble]

/-- **Markup loses nothing.** Mounting a document into a page gives the markup of its elements,
    behind that of its styles. If tags and attributes have names that can be written, the forest is
    read back from it: tag, attributes in order, text and children of every element, whatever its
    texts and values are. So forests with the same markup agree in all of these, where no text and
    an empty text are the same. -/
theorem elements_lossless {f : Forest Element} (hf : ∀ e ∈ f.labels, isNamed e = true) :
    (∀ root stylesheet diagnostics, render ⟨⟨root, f⟩, stylesheet, diagnostics⟩ =
      .ok (styleElement stylesheet ++ elements f)) ∧
    decode (elements f) = some (f.map shown) ∧
      ∀ g : Forest Element, (∀ e ∈ g.labels, isNamed e = true) → elements f = elements g →
        f.map shown = g.map shown := by
  refine ⟨fun _ _ _ => render_eq_html _, decode_elements hf, fun g hg he => ?_⟩
  have hsome : some (f.map shown) = some (g.map shown) := by
    rw [← decode_elements hf, ← decode_elements hg, he]
  exact Option.some.inj hsome

/-- Text and values that look like tags, quotes and references; no text and an empty one. -/
theorem elements_lossless_lookalike :
    let e : Element :=
      { tag := "p", id := "a b", classes := ["x", "\""],
        attributes := .ofList [("title", "\"><b c='1'>&quot;"), ("aria-label", "")],
        text := some "</p>&lt;b&gt; & <i>" }
    let f : Forest Element := .node e (.node { tag := "b" } .nil .nil) (.node e .nil .nil)
    let g : Forest Element :=
      .node e (.node { tag := "b", text := some [], depth := 3 } .nil .nil) (.node e .nil .nil)
    (∀ e ∈ f.labels, isNamed e = true) ∧ (∀ e ∈ g.labels, isNamed e = true) ∧
      elements f = elements g ∧ decode (elements f) = some (f.map shown) ∧
      f.map shown = g.map shown ∧
      render ⟨⟨{ tag := "div" }, f⟩, "b \x7b\x7d", []⟩ =
        .ok ("<style>b \x7b\x7d</style>" ++ elements f) := by
  intro e f g
  have hf : ∀ e ∈ f.labels, isNamed e = true := List.all_eq_true.mp (by decide)
  have hg : ∀ e ∈ g.labels, isNamed e = true := List.all_eq_true.mp (by decide)
  have he : elements f = elements g := rfl
  obtain ⟨hrender, hdecode, hagree⟩ := elements_lossless hf
  exact ⟨hf, hg, he, hdecode, hagree g hg he, hrender { tag := "div" } "b \x7b\x7d" []⟩

end OutlineMarkup.Markup
