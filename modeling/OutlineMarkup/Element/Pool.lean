/-
  File:      OutlineMarkup/Element/Pool.lean
  Subject:   Elements that are shared: a pool of numbered elements with links to their children.

  In a forest each element has one place. In a pool an element is known by a number and can be the
  child of several others, or of one other several times; a change to it shows in all its places.
  `tree` is the view of a pool: the tree that hangs from a number. Links never run in circles in the
  pools that arise from trees by adding links to elements that do not lead back.
-/
import OutlineMarkup.Element.Basic

namespace OutlineMarkup

/-- An element in a pool, and the numbers of its children. -/
structure PoolNode where
  element : Element
  children : List Nat
  deriving DecidableEq, Repr

/-- Numbered elements with links to their children. -/
structure Pool where
  nodes : List PoolNode := []
  deriving DecidableEq, Repr

namespace Pool

/-- The element at a number; an unused number has an element without a tag. -/
def node (p : Pool) (n : Nat) : PoolNode := p.nodes.getD n ⟨{ tag := [] }, []⟩

/-- Changes the element at a number. -/
def modify (p : Pool) (n : Nat) (f : PoolNode → PoolNode) : Pool := ⟨p.nodes.modify n f⟩

/-! ## 1. Adding trees and links -/

/-- Adds the trees of a forest; the result has the numbers of their roots. Children come before
    their parents. -/
def addForest (p : Pool) : Forest Element → Pool × List Nat
  | .nil => (p, [])
  | .node e cs ss =>
    let (p, children) := p.addForest cs
    let number := p.nodes.length
    let (p, roots) := Pool.addForest ⟨p.nodes ++ [⟨e, children⟩]⟩ ss
    (p, number :: roots)

/-- Adds a tree; the result has the number of its root. -/
def addTree (p : Pool) (t : Tree Element) : Pool × Nat :=
  let (p, children) := p.addForest t.children
  (⟨p.nodes ++ [⟨t.label, children⟩]⟩, p.nodes.length)

/-- Links an element as the last child of another. -/
def link (p : Pool) (parent child : Nat) : Pool :=
  p.modify parent fun node => { node with children := node.children ++ [child] }

/-- Adds a class to an element. -/
def addClass (p : Pool) (n : Nat) (name : Text) : Pool :=
  p.modify n fun node => { node with element := node.element.addClass name }

/-! ## 2. Views -/

/-- The tree that hangs from a number, cut off below the given height. -/
def treeOfHeight (p : Pool) : Nat → Nat → Tree Element
  | 0, n => ⟨(p.node n).element, .nil⟩
  | height + 1, n =>
    ⟨(p.node n).element, Forest.ofTrees ((p.node n).children.map (p.treeOfHeight height))⟩

/-- The tree that hangs from a number. No tree in a pool is higher than the pool is large. -/
def tree (p : Pool) (n : Nat) : Tree Element := p.treeOfHeight p.nodes.length n

/-- The numbers reached from some numbers over at most the given number of links. -/
def reachWithin (p : Pool) : Nat → List Nat → List Nat
  | 0, ns => ns
  | links + 1, ns => ns ++ p.reachWithin links (ns.flatMap fun n => (p.node n).children).eraseDups

/-! ## 3. Leaving out what says nothing -/

/-- Whether the tree at a number is more than elements that say nothing. -/
def isKept (p : Pool) (n : Nat) : Bool :=
  !(Forest.ofTrees [p.tree n]).prune.isEmpty

/-- Takes the trees that say nothing out of all trees that hang from the given numbers; the result
    has those of the numbers that are left. -/
def prune (p : Pool) (roots : List Nat) : Pool × List Nat :=
  let reached := p.reachWithin p.nodes.length roots
  let cut := fun (n : Nat) (node : PoolNode) =>
    if reached.contains n then { node with children := node.children.filter p.isKept } else node
  (⟨p.nodes.mapIdx cut⟩, roots.filter p.isKept)

end Pool

end OutlineMarkup
