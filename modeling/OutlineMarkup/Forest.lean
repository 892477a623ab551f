/-
  File:      OutlineMarkup/Forest.lean
  Subject:   Ordered forests with labels, and how a flat outline becomes one.

  A forest is nothing, or its first tree (a label and the forest of its children) and the trees
  after it. So every function on forests is recursion on one plain inductive type, and a tree is a
  label with a forest.
-/

namespace OutlineMarkup

/-- An ordered forest of labelled trees. -/
inductive Forest (α : Type) where
  | nil
  | node (label : α) (children siblings : Forest α)
  deriving DecidableEq, Repr

/-- A tree: its label and the forest of its children. -/
structure Tree (α : Type) where
  label : α
  children : Forest α
  deriving DecidableEq, Repr

namespace Forest

variable {α β : Type}

/-! ## 1. Views and operations -/

/-- The trees of one forest followed by those of another. -/
def append : Forest α → Forest α → Forest α
  | .nil, g => g
  | .node a cs ss, g => .node a cs (append ss g)

instance : Append (Forest α) := ⟨append⟩

/-- Whether there is no tree. -/
def isEmpty : Forest α → Bool
  | .nil => true
  | .node _ _ _ => false

/-- All labels in document order: a label stands before those of its children, and these before
    those of the trees that follow. -/
def labels : Forest α → List α
  | .nil => []
  | .node a cs ss => a :: (labels cs ++ labels ss)

/-- The trees of the forest. -/
def trees : Forest α → List (Tree α)
  | .nil => []
  | .node a cs ss => ⟨a, cs⟩ :: trees ss

/-- The forest of the given trees. -/
def ofTrees (ts : List (Tree α)) : Forest α := ts.foldr (fun t f => .node t.label t.children f) .nil

/-- All trees inside the forest, in document order. -/
def subtrees : Forest α → List (Tree α)
  | .nil => []
  | .node a cs ss => ⟨a, cs⟩ :: (subtrees cs ++ subtrees ss)

/-- The number of labels. -/
def size (f : Forest α) : Nat := f.labels.length

/-- The forest of the same shape with other labels. -/
def map (g : α → β) : Forest α → Forest β
  | .nil => .nil
  | .node a cs ss => .node (g a) (map g cs) (map g ss)

/-- The first trees of the forest, as long as their labels satisfy `p`. -/
def takeWhile (p : α → Bool) : Forest α → Forest α
  | .nil => .nil
  | .node a cs ss => if p a then .node a cs (takeWhile p ss) else .nil

/-- The trees from the first one on whose label does not satisfy `p`. -/
def dropWhile (p : α → Bool) : Forest α → Forest α
  | .nil => .nil
  | .node a cs ss => if p a then dropWhile p ss else .node a cs ss

/-! ## 2. From an outline to a forest -/

/-- Puts a tree before a forest: the trees that follow at once and lie deeper become children. -/
def nestOne (depth : α → Int) (t : Tree α) (f : Forest α) : Forest α :=
  let deeper := fun b => decide (depth t.label < depth b)
  .node t.label (t.children ++ f.takeWhile deeper) (f.dropWhile deeper)

/-- The forest of an outline: a sequence of trees with depths becomes a forest in which the parent
    of each is the nearest one before it that lies less deep. -/
def nest (depth : α → Int) (outline : List (Tree α)) : Forest α :=
  outline.foldr (nestOne depth) .nil

end Forest

namespace Tree

variable {α : Type}

/-- The tree with more children after those it has. -/
def addChildren (t : Tree α) (f : Forest α) : Tree α := { t with children := t.children ++ f }

/-- All labels of the tree in document order. -/
def labels (t : Tree α) : List α := t.label :: t.children.labels

end Tree

/-! ## 3. Laws of document order -/

namespace Forest

variable {α : Type}

@[simp] theorem labels_append (f g : Forest α) : (f ++ g).labels = f.labels ++ g.labels := by
  induction f with
  | nil => rfl
  | node a cs ss _ ih =>
    show a :: (cs.labels ++ (ss ++ g).labels) = a :: (cs.labels ++ ss.labels) ++ g.labels
    rw [ih, List.cons_append, List.append_assoc]

/-- Cutting a forest between two of its trees loses no label and keeps their order. -/
theorem labels_takeWhile_dropWhile (p : α → Bool) (f : Forest α) :
    (f.takeWhile p).labels ++ (f.dropWhile p).labels = f.labels := by
  induction f with
  | nil => rfl
  | node a cs ss _ ih =>
    by_cases h : p a
    · simp only [takeWhile, dropWhile, if_pos h, labels, List.cons_append, List.append_assoc, ih]
    · simp only [takeWhile, dropWhile, if_neg h, labels, List.nil_append]

/-- Nesting an outline keeps its labels and their order. -/
theorem labels_nest (depth : α → Int) (outline : List (Tree α)) :
    (nest depth outline).labels = outline.flatMap Tree.labels := by
  induction outline with
  | nil => rfl
  | cons t ts ih =>
    show t.label :: ((t.children ++ _).labels ++ _) = _
    rw [labels_append, List.append_assoc, labels_takeWhile_dropWhile]
    show t.label :: (t.children.labels ++ (nest depth ts).labels) = _
    rw [ih]
    rfl

end Forest

end OutlineMarkup
