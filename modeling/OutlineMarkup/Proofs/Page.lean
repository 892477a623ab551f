/-
  File:      OutlineMarkup/Proofs/Page.lean
  Subject:   A document mounted into a page has the markup of its forest.

  Building a forest lays its elements out behind those that the page has, in document order, each
  with the numbers of its children (`Page.laidOut`), and gives the parent the numbers of the roots
  (`Page.rootNumbers`). An element is made before its children, so its markup is found behind it.

  * `Page.run_build`: what building a forest does to a page;
  * `Page.markupAt_laidOut`: the markup of what is laid out is the markup of the forest;
  * **`render_eq_html`**: so mounting never fails, and inside of the page stands `html`.
-/
import OutlineMarkup.Markup.Page
import OutlineMarkup.Proofs.Forest
import OutlineMarkup.Proofs.Table

namespace OutlineMarkup

/-! ## 1. Attributes -/

theorem Element.nodup_htmlAttributes (e : Element) : e.htmlAttributes.keys.Nodup := by
  refine Table.nodup_keys_insertAll _ ?_
  have hid : (if e.id.isEmpty then (.empty : Table Text Text)
      else Table.empty.insert "id" e.id).keys.Nodup := by
    split
    · exact List.nodup_nil
    · exact Table.nodup_keys_alter (t := .empty) List.nodup_nil _ _
  split
  · exact hid
  · exact Table.nodup_keys_alter hid _ _

/-- The attributes of an element, written one after the other, are its attributes. -/
theorem Element.insertAll_htmlAttributes (e : Element) :
    Table.empty.insertAll e.htmlAttributes.entries = e.htmlAttributes :=
  congrArg Table.mk (Table.entries_insertAll _ e.nodup_htmlAttributes)

namespace Markup

namespace Page

/-! ## 2. Changes to a page -/

/-- The page with more elements behind those that it has. -/
def grow (p : Page) (es : List PageElement) : Page := { p with made := p.made ++ es }

theorem grow_grow (p : Page) (es es' : List PageElement) :
    (p.grow es).grow es' = p.grow (es ++ es') := by
  rw [grow, grow, grow, List.append_assoc]

theorem length_made_grow (p : Page) (es : List PageElement) :
    (p.grow es).made.length = p.made.length + es.length := List.length_append

theorem change_change (p : Page) (n : Nat) (f g : PageElement → PageElement) :
    (p.change n f).change n g = p.change n (g ∘ f) := by
  cases n with
  | zero => rfl
  | succ n => simp only [change, List.modify_modify_eq]

theorem change_id (p : Page) (n : Nat) : p.change n id = p := by
  cases n with
  | zero => rfl
  | succ n => rw [change, List.modify_id]

theorem length_made_change (p : Page) (n : Nat) (f : PageElement → PageElement) :
    (p.change n f).made.length = p.made.length := by
  cases n with
  | zero => rfl
  | succ n => exact List.length_modify f _ _

/-- The element made last is the one with the highest number. -/
theorem change_grow_last (p : Page) (x : PageElement) (f : PageElement → PageElement) :
    (p.grow [x]).change (p.made.length + 1) f = p.grow [f x] := by
  have hlast : (p.made ++ [x]).modify p.made.length f = p.made ++ [f x] := by
    rw [List.modify_eq_take_drop, List.take_left, List.drop_left]
    rfl
  simp only [change, grow, hlast]

/-- Elements made later do not matter for a change. -/
theorem change_grow {p : Page} {n : Nat} (h : n ≤ p.made.length) (es : List PageElement)
    (f : PageElement → PageElement) : (p.grow es).change n f = (p.change n f).grow es := by
  cases n with
  | zero => rfl
  | succ n =>
    have hmade : (p.made ++ es).modify n f = p.made.modify n f ++ es := by
      rw [List.modify_eq_take_drop, List.modify_eq_take_drop,
        List.take_append_of_le_length (Nat.le_of_lt h),
        List.drop_append_of_le_length (Nat.le_of_lt h), List.drop_eq_getElem_cons h,
        List.append_assoc]
      rfl
    simp only [change, grow, hmade]

/-! ## 3. Building a forest -/

/-- An element of a document as it is on a page. -/
def ofElement (e : Element) (children : List Nat) : PageElement :=
  ⟨e.tag, e.htmlAttributes, e.text.getD [], children⟩

/-- The numbers of the roots of a forest that is numbered in document order, from `n` on. -/
def rootNumbers : Nat → Forest Element → List Nat
  | _, .nil => []
  | n, .node _ cs ss => n :: rootNumbers (n + 1 + cs.size) ss

/-- The elements of a forest that is numbered in document order, from `n` on. -/
def laidOut : Nat → Forest Element → List PageElement
  | _, .nil => []
  | n, .node e cs ss =>
    ofElement e (rootNumbers (n + 1) cs) :: (laidOut (n + 1) cs ++ laidOut (n + 1 + cs.size) ss)

theorem length_laidOut (n : Nat) (f : Forest Element) : (laidOut n f).length = f.size := by
  induction f generalizing n with
  | nil => rfl
  | node e cs ss ihc ihs =>
    rw [laidOut, List.length_cons, List.length_append, ihc, ihs, Forest.size_node]

/-- Gives an element more children, behind those that it has. -/
def adopt (children : List Nat) (e : PageElement) : PageElement :=
  { e with children := e.children ++ children }

theorem run_bind {α β : Type} (x : StateM Page α) (next : α → StateM Page β) (p : Page) :
    (x >>= next).run p = (next (x.run p).1).run (x.run p).2 := rfl

theorem run_appendChild (parent child : Nat) (p : Page) :
    (host.appendChild parent child).run p = ((), p.change parent (adopt [child])) := rfl

theorem run_attributes (n : Nat) (as : List (Text × Text)) (p : Page) :
    (as.forM fun a => host.setAttribute n a.1 a.2).run p =
      ((), p.change n fun e => { e with attributes := e.attributes.insertAll as }) := by
  induction as generalizing p with
  | nil => exact congrArg (Prod.mk ()) (p.change_id n).symm
  | cons a as ih =>
    show (host.setAttribute n a.1 a.2 >>= fun _ => as.forM _).run p = _
    rw [run_bind, ih]
    exact congrArg (Prod.mk ()) (change_change p n
      (fun e => { e with attributes := e.attributes.insert a.1 a.2 })
      fun e => { e with attributes := e.attributes.insertAll as })

/-- Making an element puts it, with all that it shows, behind the others. -/
theorem run_create (e : Element) (p : Page) :
    (host.create e).run p = (p.made.length + 1, p.grow [ofElement e []]) := by
  have hnumber : (p.made ++ [({ tag := e.tag } : PageElement)]).length = p.made.length + 1 :=
    List.length_append
  have hcreate : (host.createElement e.tag).run p =
      (p.made.length + 1, p.grow [{ tag := e.tag }]) := congrArg (·, _) hnumber
  unfold Host.create
  rw [run_bind, hcreate, run_bind, run_attributes, change_grow_last]
  dsimp only
  rw [e.insertAll_htmlAttributes]
  by_cases h : e.hasText
  · rw [if_pos h]
    exact congrArg (Prod.mk _) (change_grow_last p _ _)
  · -- without a text there is nothing to set
    have hnone : e.text.getD [] = [] := by simpa [Element.hasText] using h
    rw [if_neg h, ofElement, hnone]
    rfl

/-- **Building a forest** gives its roots to the parent and lays its elements out behind those that
    the page has. -/
theorem run_build {parent : Nat} (f : Forest Element) {p : Page} (h : parent ≤ p.made.length) :
    (host.build parent f).run p =
      ((), (p.change parent (adopt (rootNumbers (p.made.length + 1) f))).grow
        (laidOut (p.made.length + 1) f)) := by
  induction f generalizing parent p with
  | nil =>
    have hnone : adopt [] = id := funext fun e => by rw [adopt, List.append_nil]; rfl
    rw [rootNumbers, laidOut, hnone, change_id, grow, List.append_nil]
    rfl
  | node e cs ss ihc ihs =>
    let number := p.made.length + 1
    let own := ofElement e (rootNumbers (number + 1) cs) :: laidOut (number + 1) cs
    -- the children are put under the element before the element is put under its parent
    have hown : (host.build number cs).run (p.grow [ofElement e []]) = ((), p.grow own) := by
      have hlength : (p.grow [ofElement e []]).made.length = number := p.length_made_grow _
      rw [ihc (Nat.le_of_eq hlength.symm), hlength, change_grow_last, grow_grow]
      rfl
    have hlength : ((p.change parent (adopt [number])).grow own).made.length + 1 =
        number + 1 + cs.size := by
      rw [length_made_grow, length_made_change, List.length_cons, length_laidOut]
      omega
    have hroots : adopt (rootNumbers (number + 1 + cs.size) ss) ∘ adopt [number] =
        adopt (rootNumbers number (.node e cs ss)) :=
      funext fun x => congrArg (PageElement.mk x.tag x.attributes x.text) (List.append_assoc _ _ _)
    have hsiblings : (host.build parent ss).run ((p.change parent (adopt [number])).grow own) =
        ((), (p.change parent (adopt (rootNumbers number (.node e cs ss)))).grow
          (laidOut number (.node e cs ss))) := by
      have hparent : parent ≤ (p.change parent (adopt [number])).made.length := by
        rw [length_made_change]
        exact h
      rw [ihs (by omega), hlength, change_grow hparent, change_change, hroots, grow_grow]
      rfl
    rw [Host.build, run_bind, run_create, run_bind, hown, run_bind, run_appendChild, change_grow h]
    exact hsiblings

/-! ## 4. The markup of a page -/

/-- Elements with lower numbers do not matter for the markup of an element. -/
theorem markupAt_append (es later : List PageElement) {first n : Nat}
    (h : first + es.length ≤ n) :
    markupAt first (es ++ later) n = markupAt (first + es.length) later n := by
  induction es generalizing first with
  | nil => rfl
  | cons e es ih =>
    rw [List.length_cons] at h
    have hnext : first + (es.length + 1) = first + 1 + es.length := by omega
    rw [List.cons_append, markupAt, if_neg (by omega), ih (by omega), List.length_cons, hnext]

theorem le_of_mem_rootNumbers {first n : Nat} {f : Forest Element}
    (h : n ∈ rootNumbers first f) : first ≤ n := by
  induction f generalizing first with
  | nil => cases h
  | node e cs ss _ ihs =>
    rcases List.mem_cons.mp h with rfl | h
    · exact Nat.le_refl n
    · have := ihs h
      omega

/-- **The markup of a forest that is laid out** is the markup of the forest, whatever elements are
    made after it. -/
theorem markupAt_laidOut (f : Forest Element) (first : Nat) (later : List PageElement) :
    (rootNumbers first f).flatMap (markupAt first (laidOut first f ++ later)) = elements f := by
  induction f generalizing first later with
  | nil => rfl
  | node e cs ss ihc ihs =>
    let next := first + 1 + cs.size
    have hpage : laidOut first (.node e cs ss) ++ later =
        ofElement e (rootNumbers (first + 1) cs) ::
          (laidOut (first + 1) cs ++ (laidOut next ss ++ later)) := by
      rw [laidOut, List.cons_append, List.append_assoc]
    have hroot : markupAt first (laidOut first (.node e cs ss) ++ later) first =
        startTag e.tag e.htmlAttributes ++ escapeText (e.text.getD []) ++ elements cs ++
          endTag e.tag := by
      rw [hpage, markupAt, if_pos rfl, ← ihc (first + 1) (laidOut next ss ++ later)]
      rfl
    have hsiblings : (rootNumbers next ss).flatMap
        (markupAt first (laidOut first (.node e cs ss) ++ later)) = elements ss := by
      rw [← ihs next later]
      refine List.flatMap_congr fun n hn => ?_
      have hle := le_of_mem_rootNumbers hn
      have hlength : (laidOut (first + 1) cs).length = cs.size := length_laidOut _ cs
      rw [hpage, markupAt, if_neg (by omega), markupAt_append _ _ (by rw [hlength]; exact hle),
        hlength]
    rw [rootNumbers, List.flatMap_cons, hroot, hsiblings, elements]

end Page

/-- **Mounting a document into a page never fails, and gives its markup**: the styles, then the
    elements. -/
theorem render_eq_html (c : Compiled) : render c = .ok (html c) := by
  let rootId := if c.root.label.id.isEmpty then "app".toList else c.root.label.id
  let page : Page := { Page.blank rootId with stylesheet := c.stylesheet }
  have hmount : (Page.host.mount c).run (.blank rootId) =
      (Page.host.build 0 c.root.children >>= fun _ => pure (Except.ok 0)).run page := rfl
  have hbuild := Page.run_build c.root.children (Nat.zero_le page.made.length)
  have hmarkup := Page.markupAt_laidOut c.root.children 1 []
  rw [List.append_nil] at hmarkup
  show (((Page.host.mount c).run (.blank rootId)).1.map fun _ =>
    ((Page.host.mount c).run (.blank rootId)).2.innerHtml) = _
  rw [hmount, Page.run_bind, hbuild]
  refine congrArg Except.ok ?_
  show styleElement c.stylesheet ++ (Page.rootNumbers 1 c.root.children).flatMap
    (Page.markupAt 1 (Page.laidOut 1 c.root.children)) = _
  rw [hmarkup]
  rfl

end Markup

end OutlineMarkup
