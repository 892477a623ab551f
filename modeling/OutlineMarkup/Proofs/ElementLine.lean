/-
  File:      OutlineMarkup/Proofs/ElementLine.lean
  Subject:   Element lines that are written down are read back.

  A line such as `p #intro.wide t="Hi { there" lang="en"` is written from a code, an id with
  classes, a text and attributes (`ElementSource`). Inside of quotes everything may stand but a
  quote: blanks, braces, signs and comments are part of the value there. So each word is a token of
  its own (`tokenize_render`), and each token is read as what it was written from:

  * `selector_selectorFor`, `assignment?_assign`, `unquote_quoted`: words that are read back;
  * `read_words`, `attire_of_attributes`: the features of the line, and what its pairs come to;
  * **`element_line_round_trip`**: the element of such a line.
-/
import OutlineMarkup.Proofs.Inline
import OutlineMarkup.Proofs.Names
import OutlineMarkup.Proofs.Rules

namespace OutlineMarkup

/-! ## 1. Words -/

namespace Token

open Text

/-- A value in quotes. -/
def quoted (value : Text) : Text := quote :: (value ++ [quote])

/-- An assignment of a value in quotes. -/
def assign (key value : Text) : Text := key ++ '=' :: quoted value

/-- The selector with the given id and classes. -/
def selectorFor (id : Text) (classes : List Text) : Text :=
  '#' :: (id ++ classes.flatMap ('.' :: ·))

/-- Whether a text can stand as an id or a class in a selector: it has characters, and none of them
    is a blank, a quote or a sign. -/
def isSelectorName (t : Text) : Bool :=
  !t.isEmpty && t.all fun c => !isBlank c && c != quote && c != '#' && c != '.'

/-- Whether a text is a key: a letter followed by letters, digits, `_`, `:` and `-`. -/
def isKey (t : Text) : Bool := t.head?.any Char.isAlpha && t.all isKeyChar

theorem unquote_quoted (value : Text) : unquote (quoted value) = value := by
  rw [quoted, unquote, if_pos rfl, List.getLast?_concat, if_pos rfl, List.dropLast_concat]

theorem assignment?_assign {key : Text} (h : isKey key = true) (value : Text) :
    assignment? (assign key value) = some (key, quoted value) := by
  obtain ⟨hhead, hall⟩ := Bool.and_eq_true_iff.mp h
  cases key with
  | nil => cases hhead
  | cons first rest =>
    have hchars : ∀ c ∈ first :: rest, isKeyChar c = true := List.all_eq_true.mp hall
    have hdrop : (assign (first :: rest) value).dropWhile isKeyChar = '=' :: quoted value := by
      rw [assign, List.dropWhile_append_of_pos hchars]
      rfl
    have htake : (assign (first :: rest) value).takeWhile isKeyChar = first :: rest := by
      rw [assign, List.takeWhile_append_of_pos hchars]
      exact List.append_nil _
    unfold assignment?
    rw [hdrop, htake]
    exact if_pos hhead

theorem isSelector_assign {key : Text} (h : isKey key = true) (value : Text) :
    isSelector (assign key value) = false := by
  cases hs : isSelector (assign key value) with
  | false => rfl
  | true => cases (assignment?_of_isSelector hs).symm.trans (assignment?_assign h value)

/-- A name without signs in front of a chain is read as the run before its first sign. -/
theorem chain_append {name : Text} (h : ∀ c ∈ name, c ≠ '#' ∧ c ≠ '.') (rest : Text) :
    chain (name ++ rest) = (name ++ (chain rest).1, (chain rest).2) := by
  induction name with
  | nil => rfl
  | cons c cs ih =>
    obtain ⟨⟨hhash, hdot⟩, hcs⟩ := List.forall_mem_cons.mp h
    rw [List.cons_append, chain, ih hcs]
    simp [hhash, hdot]

theorem isSelectorName_iff {t : Text} :
    isSelectorName t = true ↔
      t ≠ [] ∧ ∀ c ∈ t, isBlank c = false ∧ c ≠ quote ∧ c ≠ '#' ∧ c ≠ '.' := by
  simp [isSelectorName, and_assoc]

/-- A sign and a name are one part of a chain if another sign follows, or nothing. -/
theorem chain_part {sign : Char} {name rest : Text} (hsign : sign = '#' ∨ sign = '.')
    (hname : isSelectorName name = true) (hrest : (chain rest).1 = []) :
    chain (sign :: (name ++ rest)) = ([], (sign, name) :: (chain rest).2) := by
  obtain ⟨hne, hchars⟩ := isSelectorName_iff.mp hname
  have hbool : (sign = '#' || sign = '.') = true := by simpa using hsign
  rw [chain, chain_append (fun c hc => (hchars c hc).2.2) rest, hrest, List.append_nil]
  dsimp only
  rw [if_pos hbool, if_neg (by simpa using hne)]

theorem chain_classes {classes : List Text} (h : ∀ c ∈ classes, isSelectorName c = true) :
    chain (classes.flatMap ('.' :: ·)) = ([], classes.map fun c => ('.', c)) := by
  induction classes with
  | nil => rfl
  | cons c cs ih =>
    obtain ⟨hc, hcs⟩ := List.forall_mem_cons.mp h
    rw [List.flatMap_cons, List.cons_append, chain_part (.inr rfl) hc (by rw [ih hcs]), ih hcs]
    rfl

/-- **A selector names the id and the classes that it was written from.** -/
theorem selector_selectorFor {id : Text} {classes : List Text} (hid : isSelectorName id = true)
    (hclasses : ∀ c ∈ classes, isSelectorName c = true) :
    selector (selectorFor id classes) = ⟨id, classes⟩ := by
  have hchain : chain (selectorFor id classes) = ([], ('#', id) :: classes.map fun c => ('.', c)) := by
    have hrest := chain_classes hclasses
    rw [selectorFor, chain_part (.inl rfl) hid (by rw [hrest]), hrest]
  unfold selector
  rw [hchain]
  simp [List.filter_map, Function.comp_def]

/-! ## 2. Tokens -/

/-- A text that is one token, and leaves no quoted run open. -/
structure IsToken (w : Text) : Prop where
  single : tokenize w = [w]
  closed : quotedAfter false w = false

theorem areTokens_of_forall {ws : List Text} (h : ∀ w ∈ ws, IsToken w) : AreTokens ws := by
  induction ws with
  | nil => trivial
  | cons w ws ih =>
    obtain ⟨hw, hws⟩ := List.forall_mem_cons.mp h
    exact ⟨hw.single, fun _ => hw.closed, ih hws⟩

/-- Characters that end no piece belong to the piece that they stand before. -/
theorem pieces_append {q : Bool} {s t p : Text} {ps : List Text}
    (hs : ∀ c ∈ s, c ≠ quote ∧ (q = true ∨ isBlank c = false)) (ht : pieces q t = p :: ps) :
    pieces q (s ++ t) = (s ++ p) :: ps := by
  induction s with
  | nil => exact ht
  | cons c cs ih =>
    obtain ⟨⟨hquote, hsolid⟩, hcs⟩ := List.forall_mem_cons.mp hs
    obtain ⟨r, rs, e, e'⟩ := pieces_cons hsolid (cs ++ t)
    rw [if_neg hquote, ih hcs] at e
    cases e
    exact e'

theorem isToken_of_pieces {w : Text} (hne : w ≠ []) (h : pieces false w = [w])
    (hclosed : quotedAfter false w = false) : IsToken w := by
  refine ⟨?_, hclosed⟩
  rw [tokenize, h, List.filter_cons_of_pos (by simpa using hne), List.filter_nil]

/-- Characters that are neither blanks nor quotes make one token. -/
theorem isToken_of_solid {w : Text} (hne : w ≠ [])
    (h : ∀ c ∈ w, c ≠ quote ∧ isBlank c = false) : IsToken w := by
  have hpieces : pieces false (w ++ []) = [w ++ []] :=
    pieces_append (fun c hc => ⟨(h c hc).1, .inr (h c hc).2⟩) rfl
  rw [List.append_nil] at hpieces
  have hcount : List.count quote w = 0 := List.count_eq_zero.mpr fun hq => (h quote hq).1 rfl
  exact isToken_of_pieces hne hpieces (quotedAfter_of_even (by rw [hcount]))

/-- So do they together with a value in quotes. -/
theorem isToken_append_quoted {s value : Text}
    (hs : ∀ c ∈ s, c ≠ quote ∧ isBlank c = false) (hvalue : quote ∉ value) :
    IsToken (s ++ quoted value) := by
  have hinner : pieces true (value ++ [quote]) = [value ++ [quote]] :=
    pieces_append (fun c hc => ⟨fun e => hvalue (e ▸ hc), .inl rfl⟩) rfl
  have hquoted : pieces false (quoted value) = [quoted value] := by
    obtain ⟨p, ps, e, e'⟩ := pieces_cons (q := false) (c := quote) (.inr (by decide))
      (value ++ [quote])
    rw [if_pos rfl, Bool.not_false, hinner] at e
    cases e
    exact e'
  have hpieces : pieces false (s ++ quoted value) = [s ++ quoted value] :=
    pieces_append (fun c hc => ⟨(hs c hc).1, .inr (hs c hc).2⟩) hquoted
  have hcount : List.count quote (s ++ quoted value) = 2 := by
    have hs₀ : List.count quote s = 0 := List.count_eq_zero.mpr fun hq => (hs quote hq).1 rfl
    have hvalue₀ : List.count quote value = 0 := List.count_eq_zero.mpr hvalue
    simp [quoted, hs₀, hvalue₀]
  exact isToken_of_pieces (List.append_ne_nil_of_right_ne_nil s (List.cons_ne_nil _ _)) hpieces
    (quotedAfter_of_even (by rw [hcount]))

theorem isToken_assign {key value : Text} (hkey : isKey key = true) (hvalue : quote ∉ value) :
    IsToken (assign key value) := by
  have hchars := List.all_eq_true.mp (Bool.and_eq_true_iff.mp hkey).2
  rw [assign, List.append_cons]
  refine isToken_append_quoted (fun c hc => ?_) hvalue
  rcases List.mem_append.mp hc with hc | hc
  · have hname := isNameChar_of_isKeyChar (hchars c hc)
    refine ⟨?_, (Bool.not_eq_true' _).mp (Bool.and_eq_true_iff.mp hname).1⟩
    rintro rfl
    cases hname
  · rw [List.mem_singleton.mp hc]
    decide

theorem isToken_selectorFor {id : Text} {classes : List Text} (hid : isSelectorName id = true)
    (hclasses : ∀ c ∈ classes, isSelectorName c = true) : IsToken (selectorFor id classes) := by
  have hname : ∀ t : Text, isSelectorName t = true → ∀ c ∈ t, c ≠ quote ∧ isBlank c = false :=
    fun t ht c hc => ⟨((isSelectorName_iff.mp ht).2 c hc).2.1, ((isSelectorName_iff.mp ht).2 c hc).1⟩
  refine isToken_of_solid (List.cons_ne_nil _ _) fun c hc => ?_
  rcases List.mem_cons.mp hc with rfl | hc
  · decide
  rcases List.mem_append.mp hc with hc | hc
  · exact hname id hid c hc
  · obtain ⟨t, ht, hc⟩ := List.mem_flatMap.mp hc
    rcases List.mem_cons.mp hc with rfl | hc
    · decide
    · exact hname t (hclasses t ht) c hc

theorem isBrace_assign (key value : Text) : isBrace (assign key value) = false := by
  have hmem : quote ∈ assign key value :=
    List.mem_append_right _ (List.mem_cons_of_mem _ List.mem_cons_self)
  cases h : isBrace (assign key value) with
  | false => rfl
  | true =>
    rcases Bool.or_eq_true_iff.mp h with h | h
    · rw [beq_iff_eq.mp h] at hmem
      exact absurd hmem (by decide)
    · rw [beq_iff_eq.mp h] at hmem
      exact absurd hmem (by decide)

theorem isBrace_selectorFor (id : Text) (classes : List Text) :
    isBrace (selectorFor id classes) = false := by
  simp [isBrace, selectorFor, opening, closing]

end Token

/-! ## 3. The line -/

/-- What an element line is written from. -/
structure ElementSource where
  code : Text
  id : Text
  classes : List Text
  text : Text
  attributes : List (Text × Text)
  deriving DecidableEq, Repr

namespace ElementSource

open Token

/-- The words after the code. -/
def words (s : ElementSource) : List Text :=
  selectorFor s.id s.classes :: assign "t" s.text :: s.attributes.map fun a => assign a.1 a.2

/-- The text of the line. -/
def render (s : ElementSource) : Text := Text.join " " (s.code :: s.words)

/-- Whether a key is kept as an attribute of the same name: it is none of those for text, classes,
    `role` and `aria`, and no style key. -/
def isLiteralKey (key : Text) : Bool :=
  isKey key && !(["t", "text", "cls", "class", "role", "aria"] : List Text).contains key &&
    (StyleKey.ofToken? key).isNone

/-- A source that can be written down and read back: the code is known, and not that of the generic
    container, the id and the classes are names, and there is no quote in the text and the values of
    the attributes, which have literal keys. -/
structure Proper (s : ElementSource) (tag : Text) : Prop where
  code : tagOfCode? s.code = some tag
  specific : s.code ≠ genericCode
  id : isSelectorName s.id = true
  classes : ∀ c ∈ s.classes, isSelectorName c = true
  text : quote ∉ s.text
  attributes : ∀ a ∈ s.attributes, isLiteralKey a.1 = true ∧ quote ∉ a.2

/-- What holds of all codes holds of a known one. -/
theorem forall_code {P : Text → Prop} (h : ∀ entry ∈ elementTags, P entry.1) {code tag : Text}
    (hcode : tagOfCode? code = some tag) : P code := h (code, tag) (mem_of_lookup_eq_some hcode)

variable {s : ElementSource} {tag : Text}

theorem Proper.areWords (h : s.Proper tag) : AreWords (s.code :: s.words) := by
  refine List.forall_mem_cons.mpr ⟨?_, List.forall_mem_cons.mpr ⟨isBrace_selectorFor _ _,
    List.forall_mem_cons.mpr ⟨isBrace_assign _ _, ?_⟩⟩⟩
  · exact forall_code (P := fun code => isBrace code = false) (by decide) h.code
  · intro t ht
    obtain ⟨a, _, rfl⟩ := List.mem_map.mp ht
    exact isBrace_assign a.1 a.2

/-- **The tokens of the line are its code and its words.** -/
theorem Proper.tokenize_render (h : s.Proper tag) : tokenize s.render = s.code :: s.words := by
  refine (areTokens_of_forall (List.forall_mem_cons.mpr ⟨?_, List.forall_mem_cons.mpr
    ⟨isToken_selectorFor h.id h.classes, List.forall_mem_cons.mpr
      ⟨isToken_assign (by decide) h.text, ?_⟩⟩⟩)).tokenize_join
  · refine ⟨?_, ?_⟩
    · exact forall_code (P := fun code => tokenize code = [code]) (by decide) h.code
    · exact forall_code (P := fun code => quotedAfter false code = false) (by decide) h.code
  · intro t ht
    obtain ⟨a, ha, rfl⟩ := List.mem_map.mp ht
    obtain ⟨hkey, hvalue⟩ := h.attributes a ha
    exact isToken_assign (Bool.and_eq_true_iff.mp (Bool.and_eq_true_iff.mp hkey).1).1 hvalue

theorem Proper.isSkippable (h : s.Proper tag) {line : Line} (hline : line.text = s.render) :
    line.isSkippable = false := by
  have hhead := forall_code (P := fun code => code.head?.any fun c => c != '/' && c != '#')
    (by decide) h.code
  have hrender : s.render = s.code ++ ' ' :: Text.join " " s.words := by
    simp [render, words, Text.join]
  cases hcode : s.code with
  | nil =>
    rw [hcode] at hhead
    cases hhead
  | cons c cs =>
    rw [hcode] at hhead hrender
    obtain ⟨hslash, hhash⟩ : c ≠ '/' ∧ c ≠ '#' := by simpa using hhead
    unfold Line.isSkippable Line.isBlank Line.isComment
    rw [hline, hrender, List.cons_append]
    split
    · rename_i e
      exact absurd (List.cons.inj e).1 hslash
    · rename_i e
      exact absurd (List.cons.inj e).1 hhash
    · rename_i e
      exact absurd (List.cons.inj e).1 hhash
    · rfl

theorem Proper.ofLine? (h : s.Proper tag) {line : Line} (hline : line.text = s.render) :
    Statement.ofLine? line = some (.element line s.code s.words false) := by
  have hlast : s.words.getLast? ≠ some opening := fun e =>
    h.areWords.opening_not_mem (List.mem_cons_of_mem _ (List.mem_of_getLast? e))
  unfold Statement.ofLine?
  rw [h.isSkippable hline, if_neg Bool.false_ne_true, hline, h.tokenize_render]
  dsimp only
  rw [if_neg hlast]
  rfl

/-! ## 4. What is read -/

/-- The pairs that the attributes are kept as. -/
def pairs (s : ElementSource) : List (Text × Text) :=
  s.attributes.map fun a => (a.1, quoted a.2)

theorem isLiteralKey_iff {key : Text} :
    isLiteralKey key = true ↔ isKey key = true ∧
      key ∉ (["t", "text", "cls", "class", "role", "aria"] : List Text) ∧
      StyleKey.ofToken? key = none := by
  simp [isLiteralKey, and_assoc]

theorem addWord_assign {key : Text} (h : isKey key = true) (value : Text) (f : Features)
    (line : Option Int) :
    f.addWord line (assign key value) = pure (f.addPair key (quoted value)) := by
  unfold Features.addWord
  rw [isSelector_assign h, if_neg Bool.false_ne_true, assignment?_assign h]

/-- A word for an attribute is kept as a pair. -/
theorem addPair_of_literal {key : Text} (h : isLiteralKey key = true) (value : Text) {f : Features}
    (hf : f.continuing = false) :
    f.addPair key value = { f with pairs := (key, value) :: f.pairs } := by
  obtain ⟨_, hspecial, hstyle⟩ := isLiteralKey_iff.mp h
  have hcontinues : StyleKey.continues key = false := by
    rw [StyleKey.continues, hstyle]
    rfl
  have hclass : ¬(key = "cls" ∨ key = "class") := by
    rintro (rfl | rfl) <;> exact hspecial (by decide)
  have htext : ¬(key = "t" ∨ key = "text") := by
    rintro (rfl | rfl) <;> exact hspecial (by decide)
  rw [Features.addPair, if_neg hclass, if_neg htext, hcontinues, hf]

theorem foldlM_addWord {as : List (Text × Text)} (h : ∀ a ∈ as, isLiteralKey a.1 = true)
    {f : Features} (hf : f.continuing = false) (line : Option Int) :
    (as.map fun a => assign a.1 a.2).foldlM (Features.addWord line) f =
      (pure { f with pairs := (as.map fun a => (a.1, quoted a.2)).reverse ++ f.pairs } :
        Reported Features) := by
  induction as generalizing f with
  | nil => rfl
  | cons a as ih =>
    obtain ⟨ha, has⟩ := List.forall_mem_cons.mp h
    rw [List.map_cons, List.foldlM_cons, addWord_assign (isLiteralKey_iff.mp ha).1, pure_bind,
      addPair_of_literal ha _ hf, ih has (f := { f with pairs := (a.1, quoted a.2) :: f.pairs }) hf,
      List.map_cons, List.reverse_cons, List.append_assoc]
    rfl

/-- **The features of the line are those that it was written from**, and nothing is reported. -/
theorem Proper.read_words (h : s.Proper tag) (line : Option Int) :
    Features.read s.code s.words line = pure
      { id := s.id, classes := s.classes, text := some s.text, pairs := s.pairs } := by
  have hcode : Features.ofCode s.code line = pure {} := by
    have hselector := forall_code (P := fun code => isSelector code = false) (by decide) h.code
    rw [Features.ofCode, hselector, if_neg Bool.false_ne_true, h.code]
    rfl
  have hselector : Features.addWord line {} (selectorFor s.id s.classes) =
      pure { id := s.id, classes := s.classes } := by
    have hne : s.id.isEmpty = false := List.isEmpty_eq_false_iff.mpr (isSelectorName_iff.mp h.id).1
    have hsign : isSelector (selectorFor s.id s.classes) = true := rfl
    rw [Features.addWord, if_pos hsign, selector_selectorFor h.id h.classes, Features.addSelector,
      hne]
    rfl
  have htext : ∀ f : Features, f.addPair "t" (quoted s.text) =
      { f with text := some s.text, continuing := false } := by
    intro f
    rw [Features.addPair, if_neg (by decide), if_pos (by decide), unquote_quoted]
  have hattributes : ∀ a ∈ s.attributes, isLiteralKey a.1 = true := fun a ha =>
    (h.attributes a ha).1
  unfold Features.read words
  rw [hcode, pure_bind, List.foldlM_cons, hselector, pure_bind, List.foldlM_cons,
    addWord_assign (by decide), pure_bind, htext, foldlM_addWord hattributes rfl, pure_bind,
    List.append_nil, List.reverse_reverse]
  rfl

/-- A pair with a literal key is an attribute, and this is noted. -/
theorem addPair_literal (d : Draft) (tag : Text) {key : Text} (h : isLiteralKey key = true)
    (value : Text) (line : Option Int) (x : Attire) :
    x.addPair d tag line (key, quoted value) =
      ⟨x.setAttribute key value, [⟨.literalAttribute key, line⟩]⟩ := by
  obtain ⟨_, hspecial, hstyle⟩ := isLiteralKey_iff.mp h
  have hlink : ¬(key = "h" ∧ tag = "a") := by
    rintro ⟨rfl, _⟩
    cases hstyle
  have hrole : key ≠ "role" := by
    rintro rfl
    exact hspecial (by decide)
  have haria : key ≠ "aria" := by
    rintro rfl
    exact hspecial (by decide)
  unfold Attire.addPair
  dsimp only
  rw [if_neg hlink, if_neg hrole, if_neg haria, hstyle, unquote_quoted]
  rfl

theorem foldlM_addPair (d : Draft) (tag : Text) {as : List (Text × Text)}
    (h : ∀ a ∈ as, isLiteralKey a.1 = true) (line : Option Int) (x : Attire) :
    (as.map fun a => (a.1, quoted a.2)).foldlM (Attire.addPair d tag line) x =
      (⟨{ x with attributes := x.attributes.insertAll as },
        as.map fun a => ⟨.literalAttribute a.1, line⟩⟩ : Reported Attire) := by
  induction as generalizing x with
  | nil => rfl
  | cons a as ih =>
    obtain ⟨ha, has⟩ := List.forall_mem_cons.mp h
    rw [List.map_cons, List.foldlM_cons, addPair_literal d tag ha]
    show Reported.andThen _ _ = _
    rw [Reported.andThen, ih has]
    rfl

theorem Proper.classify_code (h : s.Proper tag) (classes : List Text) (id : Text)
    (text : Option Text) (hasChildren : Bool) :
    classify s.code classes id text hasChildren = tag := by
  have hselector := forall_code (P := fun code => isSelector code = false) (by decide) h.code
  unfold classify
  dsimp only
  rw [hselector, if_neg Bool.false_ne_true, if_neg h.specific, h.code]

/-- **The line is read as the element that it was written from**, without styles. -/
theorem Proper.read_plan (h : s.Proper tag) (d : Draft) (line : Line) (hasChildren : Bool) :
    ElementPlan.read d line s.code s.words hasChildren =
      ⟨{ element :=
           { tag
             id := s.id
             classes := firstOccurrences s.classes
             attributes := .ofList s.attributes
             text := some s.text
             depth := line.depth d.config.indentUnit }
         styles := [] },
        s.attributes.map fun a => ⟨.literalAttribute a.1, line.number⟩⟩ := by
  have hattributes : ∀ a ∈ s.attributes, isLiteralKey a.1 = true := fun a ha =>
    (h.attributes a ha).1
  unfold ElementPlan.read
  rw [h.read_words, pure_bind]
  dsimp only
  rw [h.classify_code, pairs, foldlM_addPair d tag hattributes]
  exact congrArg (Reported.mk _) (List.append_nil _)

/-- **Element lines are read back.** A line that is written from a proper source is left as it is
    when blocks are written out. It is an element line with the code and the words of the source,
    and it makes the element with the tag of that code, the id and the text of the source, its
    classes without repeats, and its attributes, where each key stands in its first place with its
    last value. No class is generated, and nothing is reported but one note for each attribute. -/
theorem element_line_round_trip {s : ElementSource} {tag : Text} (h : s.Proper tag) {line : Line}
    (hline : line.text = s.render) :
    (∀ unit, line.expand unit = [line]) ∧
    Statement.ofLine? line = some (.element line s.code s.words false) ∧
    ∀ (d : Draft) (hasChildren : Bool),
      d.addElement line s.code s.words hasChildren =
        .ok ({ tag
               id := s.id
               classes := s.classes.eraseDups
               attributes := ⟨(s.attributes.map Prod.fst).eraseDups.filterMap fun key =>
                 (s.attributes.filter fun a => a.1 = key).getLast?⟩
               text := some s.text
               depth := line.depth d.config.indentUnit },
             { d with
               diagnostics := d.diagnostics ++
                 s.attributes.map fun a => ⟨.literalAttribute a.1, line.number⟩ }) := by
  refine ⟨fun unit => ?_, h.ofLine? hline, fun d hasChildren => ?_⟩
  · have htokens : line.tokens = s.code :: s.words := by
      rw [Line.tokens, hline, h.tokenize_render]
    have hfree : line.InlineFree := .words (htokens ▸ h.areWords)
    exact Line.expand_of_not_inline (Line.hasInlineBlock_of_inlineFree hfree) unit
  · have hattributes : Table.ofList s.attributes =
        ⟨(s.attributes.map Prod.fst).eraseDups.filterMap fun key =>
          (s.attributes.filter fun a => a.1 = key).getLast?⟩ :=
      congrArg Table.mk (Table.entries_ofList s.attributes)
    unfold Draft.addElement
    rw [h.read_plan, firstOccurrences_eq_eraseDups, hattributes]
    rfl

/-- Braces, signs, blanks and a comment in quotes, an empty value, a class and a key that come
    back. -/
theorem element_line_round_trip_quoted :
    let s : ElementSource := ⟨"a", "top", ["wide", "x:y", "wide"], "a \x7b b \x7d // @c #d = .e",
      [⟨"href", "?q=1 #t"⟩, ⟨"data-x", ""⟩, ⟨"href", "\x7b"⟩]⟩
    let line : Line := ⟨7, 4, "a #top.wide.x:y.wide t=\"a \x7b b \x7d // @c #d = .e\" " ++
      "href=\"?q=1 #t\" data-x=\"\" href=\"\x7b\""⟩
    s.Proper "a" ∧ line.text = s.render ∧ line.expand 2 = [line] ∧
    ∀ (d : Draft) (hasChildren : Bool),
      d.addElement line "a" s.words hasChildren =
        .ok ({ tag := "a"
               id := "top"
               classes := ["wide", "x:y"]
               attributes := ⟨[⟨"href", "\x7b"⟩, ⟨"data-x", ""⟩]⟩
               text := some "a \x7b b \x7d // @c #d = .e"
               depth := line.depth d.config.indentUnit },
             { d with
               diagnostics := d.diagnostics ++ [⟨.literalAttribute "href", some 7⟩,
                 ⟨.literalAttribute "data-x", some 7⟩, ⟨.literalAttribute "href", some 7⟩] }) := by
  intro s line
  have hproper : s.Proper "a" := by
    constructor <;> decide
  have hline : line.text = s.render := by decide
  obtain ⟨hexpand, _, hadd⟩ := element_line_round_trip hproper hline
  exact ⟨hproper, hline, hexpand 2, hadd⟩

end ElementSource

end OutlineMarkup
