/-
  File:      OutlineMarkup/Proofs/Parentage.lean
  Subject:   The parent of an element is what the layout says.

  Elements are numbered in document order. `Forest.parents` reads the parent of each off a forest.
  `Body.parents` states the rule on the lines as they are read, scope by scope: the parent is the
  nearest element before in the same scope that lies less deep (`nearest`); if there is none, it is
  the element to which the scope belongs.

  * `parents_nest`: nesting an outline realises the rule for its trees. The roots of a nested forest
    never get deeper from one to the next, so those that a tree takes as its children are exactly
    those for which it is the nearest.
  * `parents_outline`: so it does for the trees of a reading, blocks included.
-/
import OutlineMarkup.Proofs.Simulation

namespace OutlineMarkup

/-! ## 1. Parents in a forest -/

namespace Forest

variable {α β : Type}

/-- The parents of all labels in document order, as numbers in document order; the forest itself
    starts with the given number and belongs to the given parent. -/
def parents : Forest α → Option Nat → Nat → List (Option Nat)
  | .nil, _, _ => []
  | .node _ cs ss, p, n => p :: (cs.parents (some n) (n + 1) ++ ss.parents p (n + 1 + cs.size))

theorem parents_map (g : α → β) (f : Forest α) (p : Option Nat) (n : Nat) :
    (f.map g).parents p n = f.parents p n := by
  induction f generalizing p n with
  | nil => rfl
  | node a cs ss ihc ihs => simp only [map, parents, size_map, ihc, ihs]

theorem length_parents (f : Forest α) (p : Option Nat) (n : Nat) :
    (f.parents p n).length = f.size := by
  induction f generalizing p n with
  | nil => rfl
  | node a cs ss ihc ihs =>
    simp only [parents, List.length_cons, List.length_append, ihc, ihs, size_node]

theorem parents_append (f g : Forest α) (p : Option Nat) (n : Nat) :
    (f ++ g).parents p n = f.parents p n ++ g.parents p (n + f.size) := by
  induction f generalizing n with
  | nil => rfl
  | node a cs ss _ ih =>
    show p :: (cs.parents (some n) (n + 1) ++ (ss ++ g).parents p (n + 1 + cs.size)) = _
    have hn : n + (node a cs ss).size = n + 1 + cs.size + ss.size := by
      rw [size_node]
      omega
    rw [ih, hn, parents, List.cons_append, List.append_assoc]

/-- The roots of a nested forest never get deeper from one to the next. -/
theorem roots_nest (ts : List (Tree Int)) : (nest id ts).roots.Pairwise fun a b => b ≤ a := by
  induction ts with
  | nil => exact List.Pairwise.nil
  | cons t ts ih =>
    let deeper : Int → Bool := fun b => decide (t.label < b)
    have hdrop : ((nest id ts).roots.dropWhile deeper).Pairwise fun a b => b ≤ a :=
      ih.sublist (List.dropWhile_sublist _)
    show (t.label :: ((nest id ts).dropWhile deeper).roots).Pairwise fun a b => b ≤ a
    rw [roots_dropWhile]
    refine List.Pairwise.cons (fun b hb => ?_) hdrop
    -- the first root that is left is not deeper than the tree, the others not deeper than that root
    cases hr : (nest id ts).roots.dropWhile deeper with
    | nil =>
      rw [hr] at hb
      cases hb
    | cons a as =>
      have ha : a ≤ t.label := by
        have h := List.head?_dropWhile_not deeper (nest id ts).roots
        rw [hr] at h
        simpa [deeper] using h
      rw [hr] at hb hdrop
      rcases List.mem_cons.mp hb with rfl | hb
      · exact ha
      · exact Int.le_trans ((List.pairwise_cons.mp hdrop).1 b hb) ha

end Forest

/-! ## 2. The nearest element that lies less deep -/

/-- The nearest of the members of a scope before (number and depth, latest first) that lies less
    deep; without one, the element to which the scope belongs. -/
def nearest (members : List (Nat × Int)) (opener : Option Nat) (depth : Int) : Option Nat :=
  ((members.find? fun m => decide (m.2 < depth)).map Prod.fst).or opener

theorem nearest_cons (n : Nat) (a : Int) (members : List (Nat × Int)) (opener : Option Nat)
    (depth : Int) : nearest ((n, a) :: members) opener depth =
      if a < depth then some n else nearest members opener depth := by
  unfold nearest
  by_cases h : a < depth
  · simp [h]
  · simp [h]

/-- The parents in an outline by the rule, tree by tree. -/
def outlineParents (opener : Option Nat) :
    List (Nat × Int) → Nat → List (Tree Int) → List (Option Nat)
  | _, _, [] => []
  | members, n, t :: ts =>
    nearest members opener t.label :: (t.children.parents (some n) (n + 1) ++
      outlineParents opener ((n, t.label) :: members) (n + 1 + t.children.size) ts)

namespace Forest

/-- The parents in a forest whose roots have parents by their depths. -/
def parentsBy (g : Int → Option Nat) : Forest Int → Nat → List (Option Nat)
  | .nil, _ => []
  | .node a cs ss, n => g a :: (cs.parents (some n) (n + 1) ++ ss.parentsBy g (n + 1 + cs.size))

theorem parentsBy_const (f : Forest Int) (p : Option Nat) (n : Nat) :
    f.parentsBy (fun _ => p) n = f.parents p n := by
  induction f generalizing n with
  | nil => rfl
  | node a cs ss _ ih => rw [parentsBy, parents, ih]

theorem parentsBy_congr {g g' : Int → Option Nat} (f : Forest Int) (h : ∀ a ∈ f.roots, g a = g' a)
    (n : Nat) : f.parentsBy g n = f.parentsBy g' n := by
  induction f generalizing n with
  | nil => rfl
  | node a cs ss _ ih =>
    rw [parentsBy, parentsBy, h a List.mem_cons_self,
      ih fun b hb => h b (List.mem_cons_of_mem _ hb)]

/-- A tree before a forest takes the roots for which it is the nearest, and no others. -/
theorem parentsBy_split (members : List (Nat × Int)) (opener : Option Nat) (a : Int) (k : Nat)
    (f : Forest Int) (hf : f.roots.Pairwise fun a b => b ≤ a) (n : Nat) :
    f.parentsBy (nearest ((k, a) :: members) opener) n =
      (f.takeWhile fun b => decide (a < b)).parents (some k) n ++
        (f.dropWhile fun b => decide (a < b)).parentsBy (nearest members opener)
          (n + (f.takeWhile fun b => decide (a < b)).size) := by
  induction f generalizing n with
  | nil => rfl
  | node b cs ss _ ih =>
    obtain ⟨hb, hss⟩ := List.pairwise_cons.mp hf
    by_cases h : a < b
    · have hn : n + (node b cs (ss.takeWhile fun b => decide (a < b))).size =
          n + 1 + cs.size + (ss.takeWhile fun b => decide (a < b)).size := by
        rw [size_node]
        omega
      simp only [takeWhile, dropWhile, h, decide_true, if_true]
      rw [hn, parentsBy, parents, nearest_cons, if_pos h, ih hss, List.cons_append,
        List.append_assoc]
    · simp only [takeWhile, dropWhile, h, decide_false, Bool.false_eq_true, if_false]
      refine parentsBy_congr _ (fun x hx => ?_) n
      have hx' : ¬ a < x := by
        rcases List.mem_cons.mp hx with rfl | hx
        · exact h
        · exact fun hlt => h (Int.lt_of_lt_of_le hlt (hb x hx))
      rw [nearest_cons, if_neg hx']

/-- **Nesting an outline gives every tree the parent of the rule.** -/
theorem parentsBy_nest (opener : Option Nat) (members : List (Nat × Int)) (n : Nat)
    (ts : List (Tree Int)) :
    (nest id ts).parentsBy (nearest members opener) n = outlineParents opener members n ts := by
  induction ts generalizing members n with
  | nil => rfl
  | cons t ts ih =>
    rw [outlineParents, ← ih, parentsBy_split members opener t.label n _ (roots_nest ts)]
    show nearest members opener t.label :: ((t.children ++ _).parents (some n) (n + 1) ++ _) = _
    rw [parents_append, size_append, ← Nat.add_assoc, List.append_assoc]
    rfl

theorem parents_nest (opener : Option Nat) (n : Nat) (ts : List (Tree Int)) :
    (nest id ts).parents opener n = outlineParents opener [] n ts := by
  rw [← parentsBy_nest, ← parentsBy_const]
  rfl

end Forest

/-! ## 3. Parents in a reading -/

namespace Body

/-- The number of elements of a reading, those in blocks included. -/
def size {e : Bool} : Body e → Nat
  | .nil => 0
  | .element _ _ rest => rest.size + 1
  | .block inner rest => inner.size + rest.size

/-- The depths of the elements in document order. -/
def depths {e : Bool} : Body e → List Int
  | .nil => []
  | .element _ depth rest => depth :: rest.depths
  | .block inner rest => inner.depths ++ rest.depths

/-- **The parents by the rule**: the nearest member of the scope before that lies less deep, or the
    element to which the scope belongs. A block belongs to the latest member of its scope. -/
def parents {e : Bool} : Body e → Option Nat → List (Nat × Int) → Nat → List (Option Nat)
  | .nil, _, _, _ => []
  | .element _ depth rest, opener, members, n =>
    nearest members opener depth :: rest.parents opener ((n, depth) :: members) (n + 1)
  | .block inner rest, opener, members, n =>
    inner.parents (members.head?.map Prod.fst) [] n ++ rest.parents opener members (n + inner.size)

theorem length_parents {e : Bool} (b : Body e) (opener : Option Nat) (members : List (Nat × Int))
    (n : Nat) : (b.parents opener members n).length = b.size := by
  induction b generalizing opener members n with
  | nil => rfl
  | element line depth rest ih => rw [parents, size, List.length_cons, ih]
  | block inner rest ihb ih => rw [parents, size, List.length_append, ihb, ih]

end Body

/-- The number of labels in some trees. -/
def treesSize : List (Tree Int) → Nat
  | [] => 0
  | t :: ts => treesSize ts + (1 + t.children.size)

/-- The members that some trees of a scope are (latest first), if the first has the given number. -/
def membersOf (n : Nat) : List (Tree Int) → List (Nat × Int)
  | [] => []
  | t :: ts => (n + treesSize ts, t.label) :: membersOf n ts

theorem outlineParents_append (opener : Option Nat) (n : Nat) (ts us : List (Tree Int)) :
    outlineParents opener [] n (ts.reverse ++ us) =
      outlineParents opener [] n ts.reverse ++
        outlineParents opener (membersOf n ts) (n + treesSize ts) us := by
  induction ts generalizing us with
  | nil => rfl
  | cons t ts ih =>
    rw [List.reverse_cons, List.append_assoc, ih, ih, List.append_assoc]
    simp only [List.cons_append, List.nil_append, outlineParents, List.append_nil, membersOf,
      treesSize, Nat.add_assoc]

theorem outlineParents_concat (opener : Option Nat) (n : Nat) (t : Tree Int)
    (ts : List (Tree Int)) :
    outlineParents opener [] n (t :: ts).reverse =
      outlineParents opener [] n ts.reverse ++
        nearest (membersOf n ts) opener t.label ::
          t.children.parents (some (n + treesSize ts)) (n + treesSize ts + 1) := by
  rw [List.reverse_cons, outlineParents_append, outlineParents, outlineParents, List.append_nil]

/-- **The trees of a reading have the parents of the rule.** Elements that were read before stand in
    the trees `ts`. -/
theorem parents_outline {e : Bool} (b : Body e) (ts : List (Tree Int)) (h : e = true → ts ≠ [])
    (opener : Option Nat) (n : Nat) :
    outlineParents opener [] n (b.outline ts).reverse =
      outlineParents opener [] n ts.reverse ++
        b.parents opener (membersOf n ts) (n + treesSize ts) := by
  induction b generalizing ts opener n with
  | nil => exact (List.append_nil _).symm
  | element line depth rest ih =>
    rw [Body.outline, ih _ fun _ => List.cons_ne_nil _ _, outlineParents_concat, List.append_assoc]
    rfl
  | block inner rest ihb ih =>
    obtain ⟨t, ts, rfl⟩ := List.exists_cons_of_ne_nil (h rfl)
    let f := Forest.nest id (inner.outline []).reverse
    have hf : ∀ p k, f.parents p k = inner.parents p [] k := by
      intro p k
      rw [Forest.parents_nest, ihb [] (fun e => by cases e)]
      rfl
    have hsize : f.size = inner.size := by
      rw [← f.length_parents none 0, hf, Body.length_parents]
    have hmembers : membersOf n (t.addChildren f :: ts) = membersOf n (t :: ts) := rfl
    have htrees : n + treesSize (t.addChildren f :: ts) =
        n + treesSize (t :: ts) + inner.size := by
      rw [treesSize, treesSize, Tree.addChildren, Forest.size_append, hsize]
      omega
    have hchildren : (t.addChildren f).children.parents (some (n + treesSize ts))
          (n + treesSize ts + 1) =
        t.children.parents (some (n + treesSize ts)) (n + treesSize ts + 1) ++
          inner.parents (some (n + treesSize ts)) [] (n + treesSize (t :: ts)) := by
      rw [Tree.addChildren, Forest.parents_append, hf, treesSize]
      simp only [Nat.add_assoc]
    show outlineParents opener [] n (rest.outline (t.addChildren f :: ts)).reverse = _
    rw [ih _ fun _ => List.cons_ne_nil _ _, outlineParents_concat, outlineParents_concat, hchildren,
      hmembers, htrees, Body.parents, List.append_assoc, List.append_assoc, List.cons_append,
      List.cons_append, List.append_assoc]
    rfl

/-- The trees of a reading have its depths in document order. -/
theorem labels_outline {e : Bool} (b : Body e) (ts : List (Tree Int)) (h : e = true → ts ≠ []) :
    (b.outline ts).reverse.flatMap Tree.labels = ts.reverse.flatMap Tree.labels ++ b.depths := by
  induction b generalizing ts with
  | nil => exact (List.append_nil _).symm
  | element line depth rest ih =>
    rw [Body.outline, ih _ fun _ => List.cons_ne_nil _ _]
    simp [Tree.labels, Forest.labels, Body.depths]
  | block inner rest ihb ih =>
    obtain ⟨t, ts, rfl⟩ := List.exists_cons_of_ne_nil (h rfl)
    have hinner : (Forest.nest id (inner.outline []).reverse).labels = inner.depths := by
      rw [Forest.labels_nest, ihb [] (fun e => by cases e)]
      rfl
    rw [Body.outline, adoptLatest, ih _ fun _ => List.cons_ne_nil _ _]
    simp [Tree.labels, Tree.addChildren, hinner, Body.depths]

/-! ## 4. Parents in the forest of a body -/

/-- **The parent of every element is what the layout says.** The body has a reading by descent, and
    whatever the reading, the elements of the forest are its elements in document order, each with
    the depth of its line and with the parent that the rule gives. -/
theorem readBody_parents (d : Draft) {lines : List Line} (hp : ∀ l ∈ lines, l.IsProper) :
    let written := lines.flatMap (Statement.writeOut d.config)
    ∃ f d', d.readBody lines = .ok (f, d') ∧
      (∃ b c, Reads d.config .document (.ofLines written) b c) ∧
      ∀ b c, Reads d.config .document (.ofLines written) b c →
        f.labels.map Element.depth = b.depths ∧ f.parents none 0 = b.parents none [] 0 := by
  intro written
  obtain ⟨f, d', ok⟩ := d.readBody_ok lines
  refine ⟨f, d', ok, ?_, fun b c h => ?_⟩
  · obtain ⟨b, hb⟩ := exists_reads_document d.config (Statement.isProper_of_mem_flatMap hp)
    exact ⟨b, _, hb⟩
  · obtain ⟨f', d'', ok', hmap⟩ := d.readBody_reads hp h
    rw [ok] at ok'
    cases ok'
    constructor
    · rw [← Forest.labels_map, hmap, Forest.labels_nest, labels_outline b [] fun e => by cases e]
      rfl
    · rw [← Forest.parents_map Element.depth, hmap, Forest.parents_nest,
        parents_outline b [] fun e => by cases e]
      rfl

/-- Depths that jump, a block that a line to the left ends, and a block that a lone brace opens:
    the values of the forest, which every reading has. -/
theorem readBody_parents_irregular :
    let lines := Line.ofSource 2
      "main\n      h1 \x7b\n     p\n       b\n    i\n  ul\n  \x7b\n   li\n  \x7d\nfooter".toList
    let written := lines.flatMap (Statement.writeOut .default)
    let depths := [0, 3, 2, 3, 2, 1, 1, 0]
    let parents := [none, some 0, some 1, some 2, some 0, some 0, some 5, none]
    (∀ l ∈ lines, l.IsProper) ∧
    ∃ f d', (Draft.empty .default).readBody lines = .ok (f, d') ∧
      f.labels.map Element.depth = depths ∧ f.parents none 0 = parents ∧
      (∃ b c, Reads .default .document (.ofLines written) b c) ∧
      ∀ b c, Reads .default .document (.ofLines written) b c →
        b.depths = depths ∧ b.parents none [] 0 = parents := by
  intro lines written depths parents
  have hp : ∀ l ∈ lines, l.IsProper := fun _ h => Line.isProper_of_mem_ofSource h
  obtain ⟨f, d', ok, hreads, hall⟩ := readBody_parents (.empty .default) hp
  have hvalues : ((Draft.empty .default).readBody lines).map
      (fun r => (r.1.labels.map Element.depth, r.1.parents none 0)) = .ok (depths, parents) := by
    decide +kernel
  rw [ok] at hvalues
  obtain ⟨hdepths, hparents⟩ := Prod.mk.inj (Except.ok.inj hvalues)
  refine ⟨hp, f, d', ok, hdepths, hparents, hreads, fun b c h => ?_⟩
  obtain ⟨hb, hb'⟩ := hall b c h
  exact ⟨hb.symm.trans hdepths, hb'.symm.trans hparents⟩

end OutlineMarkup
