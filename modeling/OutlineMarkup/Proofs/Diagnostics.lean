/-
  File:      OutlineMarkup/Proofs/Diagnostics.lean
  Subject:   Diagnostics are written and never read.

  * `addElement_withDiagnostics`: what an element line comes to depends neither on the diagnostics
    so far nor on its number; it only adds the diagnostics of reading the line.
  * `ElementPlan.read_onLine`: these have the number of the line, and none is about braces.
-/
import OutlineMarkup.Proofs.Draft

namespace OutlineMarkup

/-! ## 1. What a result reports -/

/-- Whether a finding falls under one of the rules about braces. -/
def Finding.isAboutBraces (f : Finding) : Bool :=
  f.rule == "stray-brace" || f.rule == "unterminated-block"

namespace Diagnostic

/-- No diagnostic is about braces. -/
def FreeOfBraces (diagnostics : List Diagnostic) : Prop :=
  ∀ x ∈ diagnostics, x.finding.isAboutBraces = false

theorem freeOfBraces_nil : FreeOfBraces [] := fun _ h => by cases h

theorem freeOfBraces_append {xs ys : List Diagnostic} (hx : FreeOfBraces xs)
    (hy : FreeOfBraces ys) : FreeOfBraces (xs ++ ys) := by
  intro x h
  rcases List.mem_append.mp h with h | h
  · exact hx x h
  · exact hy x h

/-- What the words of a line can give rise to: a diagnostic with the number of the line that is not
    about braces. -/
structure OnLine (line : Option Int) (x : Diagnostic) : Prop where
  line_eq : x.line = line
  isAboutBraces : x.finding.isAboutBraces = false

/-- Diagnostics met along a list: first those of its first item, then those of the others. -/
inductive Along {α : Type} (Q : α → Diagnostic → Prop) : List α → List Diagnostic → Prop where
  | nil : Along Q [] []
  | cons {a : α} {as : List α} {found xs : List Diagnostic} (h : ∀ x ∈ found, Q a x)
      (rest : Along Q as xs) : Along Q (a :: as) (found ++ xs)

namespace Along

variable {α β : Type} {Q : α → Diagnostic → Prop}

/-- An item that nothing is reported for. -/
theorem skip {as : List α} {xs : List Diagnostic} (a : α) (h : Along Q as xs) :
    Along Q (a :: as) xs := .cons (List.forall_mem_nil _) h

theorem none (as : List α) : Along Q as [] := by
  induction as with
  | nil => exact .nil
  | cons a as ih => exact ih.skip a

/-- All is reported for the first item. -/
theorem first {a : α} {found : List Diagnostic} (h : ∀ x ∈ found, Q a x) (as : List α) :
    Along Q (a :: as) found := by
  rw [← List.append_nil found]
  exact .cons h (.none as)

theorem append {as bs : List α} {xs ys : List Diagnostic} (h : Along Q as xs)
    (h' : Along Q bs ys) : Along Q (as ++ bs) (xs ++ ys) := by
  induction h with
  | nil => exact h'
  | cons hfound _ ih =>
    rw [List.append_assoc]
    exact .cons hfound ih

theorem map {R : β → Diagnostic → Prop} {f : α → β} {as : List α} {xs : List Diagnostic}
    (h : Along Q as xs) (hQR : ∀ a ∈ as, ∀ x, Q a x → R (f a) x) : Along R (as.map f) xs := by
  induction h with
  | nil => exact .nil
  | cons hfound _ ih =>
    exact .cons (fun x hx => hQR _ List.mem_cons_self x (hfound x hx))
      (ih fun a ha => hQR a (List.mem_cons_of_mem _ ha))

theorem mono {R : α → Diagnostic → Prop} {as : List α} {xs : List Diagnostic} (h : Along Q as xs)
    (hQR : ∀ a x, Q a x → R a x) : Along R as xs := by
  rw [← List.map_id as]
  exact h.map fun a _ x => hQR a x

theorem exists_of_mem {as : List α} {xs : List Diagnostic} (h : Along Q as xs) {x : Diagnostic}
    (hx : x ∈ xs) : ∃ a ∈ as, Q a x := by
  induction h with
  | nil => cases hx
  | cons hfound _ ih =>
    rcases List.mem_append.mp hx with hx | hx
    · exact ⟨_, List.mem_cons_self, hfound x hx⟩
    · obtain ⟨a, ha, hQ⟩ := ih hx
      exact ⟨a, List.mem_cons_of_mem _ ha, hQ⟩

end Along

end Diagnostic

open Diagnostic

namespace Reported

variable {α β : Type}

theorem forall_report {P : Diagnostic → Prop} {finding : Finding} {line : Option Int}
    (h : P ⟨finding, line⟩) : ∀ x ∈ (report finding line).diagnostics, P x := by
  intro x hx
  rw [List.mem_singleton.mp hx]
  exact h

theorem along_foldlM {f : α → β → Reported α} {Q : β → Diagnostic → Prop}
    (h : ∀ a b, ∀ x ∈ (f a b).diagnostics, Q b x) (bs : List β) (a : α) :
    Along Q bs (bs.foldlM f a).diagnostics := by
  induction bs generalizing a with
  | nil => exact .nil
  | cons b bs ih =>
    rw [List.foldlM_cons, diagnostics_bind]
    exact .cons (h a b) (ih _)

theorem along_mapM {f : α → Reported β} {Q : α → Diagnostic → Prop}
    (h : ∀ a, ∀ x ∈ (f a).diagnostics, Q a x) (as : List α) :
    Along Q as (as.mapM f).diagnostics := by
  induction as with
  | nil => exact .nil
  | cons a as ih =>
    rw [List.mapM_cons, diagnostics_bind, diagnostics_bind, diagnostics_pure, List.append_nil]
    exact .cons (h a) ih

/-- What all steps report has the properties of what each one reports. -/
theorem forall_foldlM {f : α → β → Reported α} {P : Diagnostic → Prop}
    (h : ∀ a b, ∀ x ∈ (f a b).diagnostics, P x) (bs : List β) (a : α) :
    ∀ x ∈ (bs.foldlM f a).diagnostics, P x := by
  intro x hx
  obtain ⟨_, _, hP⟩ := (along_foldlM (Q := fun _ => P) h bs a).exists_of_mem hx
  exact hP

end Reported

open Reported

namespace Features

theorem ofCode_onLine (code : Text) (line : Option Int) :
    ∀ x ∈ (ofCode code line).diagnostics, OnLine line x := by
  unfold ofCode
  split
  · exact List.forall_mem_nil _
  · split
    · exact List.forall_mem_nil _
    · exact forall_report ⟨rfl, rfl⟩

theorem addWord_onLine (line : Option Int) (f : Features) (word : Text) :
    ∀ x ∈ (f.addWord line word).diagnostics, OnLine line x := by
  unfold addWord
  split
  · exact List.forall_mem_nil _
  · split
    · exact List.forall_mem_nil _
    · unfold addPlain
      split
      · exact List.forall_mem_nil _
      · exact forall_report ⟨rfl, rfl⟩

theorem read_onLine (code : Text) (words : List Text) (line : Option Int) :
    ∀ x ∈ (read code words line).diagnostics, OnLine line x := by
  unfold read
  simp only [diagnostics_bind, diagnostics_pure, List.append_nil]
  exact List.forall_mem_append.mpr
    ⟨ofCode_onLine code line, forall_foldlM (fun f w => f.addWord_onLine line w) words _⟩

end Features

/-- A style key reports only variables without a value. -/
theorem Draft.forall_resolve {P : Diagnostic → Prop} {line : Option Int}
    (h : ∀ name, P ⟨.undeclaredVariable name, line⟩) (d : Draft) (key : StyleKey) (value : Text)
    (p : Priority) : ∀ x ∈ (d.resolve key value p line).diagnostics, P x := by
  intro x hx
  unfold resolve at hx
  simp only [diagnostics_bind, diagnostics_pure, List.append_nil, substitute] at hx
  obtain ⟨name, _, rfl⟩ := List.mem_map.mp hx
  exact h name

theorem Attire.addPair_onLine (d : Draft) (tag : Text) (line : Option Int) (a : Attire)
    (pair : Text × Text) : ∀ x ∈ (a.addPair d tag line pair).diagnostics, OnLine line x := by
  unfold addPair
  dsimp only
  split
  · exact List.forall_mem_nil _
  · split
    · exact List.forall_mem_nil _
    · split
      · unfold addAria
        split
        · exact List.forall_mem_nil _
        · exact forall_report ⟨rfl, rfl⟩
      · split
        · rw [diagnostics_bind, diagnostics_pure, List.append_nil]
          exact d.forall_resolve (fun _ => ⟨rfl, rfl⟩) _ _ _
        · exact forall_report ⟨rfl, rfl⟩

theorem ElementPlan.read_onLine (d : Draft) (line : Line) (code : Text) (words : List Text)
    (hasChildren : Bool) :
    ∀ x ∈ (ElementPlan.read d line code words hasChildren).diagnostics, OnLine line.number x := by
  unfold ElementPlan.read
  simp only [diagnostics_bind, diagnostics_pure, List.append_nil]
  exact List.forall_mem_append.mpr ⟨Features.read_onLine code words line.number,
    forall_foldlM (fun a pair => a.addPair_onLine d _ line.number pair) _ _⟩

/-- **Reading an element line reports nothing about braces.** -/
theorem ElementPlan.read_finds (d : Draft) (line : Line) (code : Text) (words : List Text)
    (hasChildren : Bool) :
    FreeOfBraces (ElementPlan.read d line code words hasChildren).diagnostics :=
  fun x hx => (ElementPlan.read_onLine d line code words hasChildren x hx).isAboutBraces

/-! ## 2. What an element line comes to -/

/-- The draft with other diagnostics. -/
def Draft.withDiagnostics (d : Draft) (diagnostics : List Diagnostic) : Draft :=
  { d with diagnostics }

theorem Features.read_value (code : Text) (words : List Text) (line line' : Option Int) :
    (read code words line).value = (read code words line').value := by
  have hcode : (ofCode code line).value = (ofCode code line').value := by
    unfold ofCode
    split
    · rfl
    · split <;> rfl
  have hword : ∀ (f : Features) (w : Text),
      (f.addWord line w).value = (f.addWord line' w).value := by
    intro f w
    unfold addWord
    split
    · rfl
    · split
      · rfl
      · unfold addPlain
        split <;> rfl
  unfold read
  simp only [value_bind, value_pure, value_foldlM, hcode, hword]

/-- A draft of which only the settings and the first steps of animations are known. -/
def Draft.knowing (config : Config) (states : Table Text Text) : Draft :=
  { Draft.empty config with initialStates := states }

theorem Draft.resolve_knowing (d : Draft) (key : StyleKey) (value : Text) (priority : Priority)
    (line line' : Option Int) :
    (d.resolve key value priority line).value =
      ((knowing d.config d.initialStates).resolve key value priority line').value := by
  have hd : ∀ v, d.declarationsOf key v =
      (knowing d.config d.initialStates).declarationsOf key v := by
    intro v
    cases key <;> rfl
  simp only [resolve, value_bind, value_pure, substitute, hd]

theorem Attire.addPair_knowing (d : Draft) (tag : Text) (line line' : Option Int) (a : Attire)
    (pair : Text × Text) :
    (a.addPair d tag line pair).value =
      (a.addPair (.knowing d.config d.initialStates) tag line' pair).value := by
  unfold addPair
  dsimp only
  split
  · rfl
  · split
    · rfl
    · split
      · unfold addAria
        split <;> rfl
      · split
        · rename_i key _
          simp only [value_bind, value_pure, d.resolve_knowing key _ _ line line']
        · rfl

theorem Attire.addPair_value (d : Draft) (xs : List Diagnostic) (tag : Text)
    (line line' : Option Int) (a : Attire) (pair : Text × Text) :
    (a.addPair (d.withDiagnostics xs) tag line pair).value =
      (a.addPair d tag line' pair).value :=
  (Attire.addPair_knowing (d.withDiagnostics xs) tag line line' a pair).trans
    (Attire.addPair_knowing d tag line' line' a pair).symm

/-- The element and the styles of a line depend on its indentation, not on its number. -/
theorem ElementPlan.read_value (d : Draft) (xs : List Diagnostic) {l l' : Line}
    (h : l.indent = l'.indent) (code : Text) (words : List Text) (hasChildren : Bool) :
    (ElementPlan.read (d.withDiagnostics xs) l code words hasChildren).value =
      (ElementPlan.read d l' code words hasChildren).value := by
  have hdepth : l.depth (d.withDiagnostics xs).config.indentUnit =
      l'.depth d.config.indentUnit := by
    rw [Line.depth, h]
    rfl
  unfold ElementPlan.read
  simp only [value_bind, value_pure, value_foldlM, hdepth,
    Features.read_value code words l.number l'.number,
    Attire.addPair_value d xs _ l.number l'.number]

namespace Draft

/-- A step on an element and a draft, done with other diagnostics. -/
theorem addStyle_withDiagnostics (e : Element) (d : Draft) (xs : List Diagnostic) (t : Text) :
    addStyle (e, d.withDiagnostics xs) t =
      (addStyle (e, d) t).map fun r => (r.1, r.2.withDiagnostics xs) := by
  unfold addStyle addUtility classFor
  dsimp only [withDiagnostics]
  cases d.classes.classFor t with
  | error fault => rfl
  | ok r => rfl

theorem foldlM_addStyle_withDiagnostics (ts : List Text) (e : Element) (d : Draft)
    (xs : List Diagnostic) :
    ts.foldlM addStyle (e, d.withDiagnostics xs) =
      (ts.foldlM addStyle (e, d)).map fun r => (r.1, r.2.withDiagnostics xs) := by
  induction ts generalizing e d with
  | nil => rfl
  | cons t ts ih =>
    rw [List.foldlM_cons, List.foldlM_cons, addStyle_withDiagnostics]
    cases addStyle (e, d) t with
    | error fault => rfl
    | ok r => exact ih r.1 r.2

/-- **An element line depends neither on the diagnostics so far nor on its number.** -/
theorem addElement_withDiagnostics (d : Draft) (xs : List Diagnostic) {l l' : Line}
    (h : l.indent = l'.indent) (code : Text) (words : List Text) (hasChildren : Bool) :
    (d.withDiagnostics xs).addElement l code words hasChildren =
      (d.addElement l' code words hasChildren).map fun r => (r.1, r.2.withDiagnostics (xs ++
        (ElementPlan.read (d.withDiagnostics xs) l code words hasChildren).diagnostics)) := by
  have hdefault : d.addElement l' code words hasChildren =
      (ElementPlan.read d l' code words hasChildren).value.styles.foldlM addStyle
        ((ElementPlan.read d l' code words hasChildren).value.element, d.withDiagnostics
          (d.diagnostics ++ (ElementPlan.read d l' code words hasChildren).diagnostics)) := rfl
  have hother : (d.withDiagnostics xs).addElement l code words hasChildren =
      (ElementPlan.read (d.withDiagnostics xs) l code words hasChildren).value.styles.foldlM
        addStyle ((ElementPlan.read (d.withDiagnostics xs) l code words hasChildren).value.element,
          d.withDiagnostics (xs ++
            (ElementPlan.read (d.withDiagnostics xs) l code words hasChildren).diagnostics)) := rfl
  rw [hother, hdefault, ElementPlan.read_value d xs h, foldlM_addStyle_withDiagnostics,
    foldlM_addStyle_withDiagnostics]
  cases (ElementPlan.read d l' code words hasChildren).value.styles.foldlM addStyle
    ((ElementPlan.read d l' code words hasChildren).value.element, d) with
  | error fault => rfl
  | ok r => rfl

end Draft

end OutlineMarkup
