/-
  File:      OutlineMarkup/Proofs/Forest.lean
  Subject:   Laws of forests: other labels, joining, cutting between two trees, nesting.
-/
import OutlineMarkup.Forest

namespace OutlineMarkup

/-- The tree of the same shape with other labels. -/
def Tree.map {α β : Type} (g : α → β) (t : Tree α) : Tree β := ⟨g t.label, t.children.map g⟩

namespace Forest

variable {α β : Type}

/-! ## 1. Joining -/

theorem append_nil (f : Forest α) : f ++ nil = f := by
  induction f with
  | nil => rfl
  | node a cs ss _ ih => exact congrArg (node a cs) ih

theorem append_assoc (f g h : Forest α) : f ++ g ++ h = f ++ (g ++ h) := by
  induction f with
  | nil => rfl
  | node a cs ss _ ih => exact congrArg (node a cs) ih

theorem size_append (f g : Forest α) : (f ++ g).size = f.size + g.size := by
  rw [size, labels_append, List.length_append]
  rfl

theorem size_node (a : α) (cs ss : Forest α) : (node a cs ss).size = cs.size + ss.size + 1 := by
  simp [size, labels]

/-! ## 2. Other labels -/

theorem labels_map (g : α → β) (f : Forest α) : (f.map g).labels = f.labels.map g := by
  induction f with
  | nil => rfl
  | node a cs ss ihc ihs => simp only [map, labels, ihc, ihs, List.map_cons, List.map_append]

theorem size_map (g : α → β) (f : Forest α) : (f.map g).size = f.size := by
  rw [size, size, labels_map, List.length_map]

theorem map_append (g : α → β) (f f' : Forest α) : (f ++ f').map g = f.map g ++ f'.map g := by
  induction f with
  | nil => rfl
  | node a cs ss _ ih =>
    show node (g a) (cs.map g) ((ss ++ f').map g) = node (g a) (cs.map g) (ss.map g ++ f'.map g)
    rw [ih]

theorem map_takeWhile (g : α → β) (p : β → Bool) (f : Forest α) :
    (f.takeWhile (p ∘ g)).map g = (f.map g).takeWhile p := by
  induction f with
  | nil => rfl
  | node a cs ss _ ih =>
    by_cases h : p (g a)
    · simp only [takeWhile, map, Function.comp, h, if_true]
      rw [← ih]
    · simp only [takeWhile, map, Function.comp, h, if_false, Bool.false_eq_true]

theorem map_dropWhile (g : α → β) (p : β → Bool) (f : Forest α) :
    (f.dropWhile (p ∘ g)).map g = (f.map g).dropWhile p := by
  induction f with
  | nil => rfl
  | node a cs ss _ ih =>
    by_cases h : p (g a)
    · simp only [dropWhile, map, Function.comp, h, if_true]
      rw [← ih]
    · simp only [dropWhile, map, Function.comp, h, if_false, Bool.false_eq_true]

/-! ## 3. Roots -/

/-- The roots of a forest. -/
def roots : Forest α → List α
  | .nil => []
  | .node a _ ss => a :: ss.roots

theorem roots_dropWhile (p : α → Bool) (f : Forest α) :
    (f.dropWhile p).roots = f.roots.dropWhile p := by
  induction f with
  | nil => rfl
  | node a cs ss _ ih =>
    by_cases h : p a
    · simp only [dropWhile, roots, h, if_true, List.dropWhile_cons, ih]
    · simp only [dropWhile, roots, h, if_false, List.dropWhile_cons, Bool.false_eq_true]

theorem roots_append (f g : Forest α) : (f ++ g).roots = f.roots ++ g.roots := by
  induction f with
  | nil => rfl
  | node a cs ss _ ih => exact congrArg (a :: ·) ih

theorem takeWhile_append {p : α → Bool} {f : Forest α} (hf : ∀ a ∈ f.roots, p a = true)
    (g : Forest α) : (f ++ g).takeWhile p = f ++ g.takeWhile p := by
  induction f with
  | nil => rfl
  | node a cs ss _ ih =>
    show (if p a then node a cs ((ss ++ g).takeWhile p) else nil) = node a cs (ss ++ g.takeWhile p)
    rw [if_pos (hf a List.mem_cons_self), ih fun b hb => hf b (List.mem_cons_of_mem _ hb)]

theorem dropWhile_append {p : α → Bool} {f : Forest α} (hf : ∀ a ∈ f.roots, p a = true)
    (g : Forest α) : (f ++ g).dropWhile p = g.dropWhile p := by
  induction f with
  | nil => rfl
  | node a cs ss _ ih =>
    show (if p a then (ss ++ g).dropWhile p else node a cs (ss ++ g)) = g.dropWhile p
    rw [if_pos (hf a List.mem_cons_self), ih fun b hb => hf b (List.mem_cons_of_mem _ hb)]

/-- Nothing is cut off before a root that does not satisfy the condition. -/
theorem cut_eq {p : α → Bool} {f : Forest α} (h : ∀ a, f.roots.head? = some a → p a = false) :
    f.takeWhile p = nil ∧ f.dropWhile p = f := by
  cases f with
  | nil => exact ⟨rfl, rfl⟩
  | node a cs ss => simp [takeWhile, dropWhile, h a rfl]

/-! ## 4. Nesting -/

/-- Nesting looks at depths only. -/
theorem map_nest (g : α → β) (depth : β → Int) (ts : List (Tree α)) :
    (nest (depth ∘ g) ts).map g = nest depth (ts.map (Tree.map g)) := by
  induction ts with
  | nil => rfl
  | cons t ts ih =>
    let deeper : β → Bool := fun b => decide (depth (g t.label) < depth b)
    have htake := map_takeWhile g deeper (nest (depth ∘ g) ts)
    have hdrop := map_dropWhile g deeper (nest (depth ∘ g) ts)
    rw [ih] at htake hdrop
    show node (g t.label) ((t.children ++ (nest (depth ∘ g) ts).takeWhile (deeper ∘ g)).map g)
        (((nest (depth ∘ g) ts).dropWhile (deeper ∘ g)).map g) =
      node (g t.label) (t.children.map g ++ (nest depth (ts.map (Tree.map g))).takeWhile deeper)
        ((nest depth (ts.map (Tree.map g))).dropWhile deeper)
    rw [map_append, htake, hdrop]

end Forest

end OutlineMarkup
