/-
  File:      OutlineMarkup/Proofs/Pruning.lean
  Subject:   Pruning leaves out exactly the trees that say nothing.

  Pruning works from the innermost elements outwards: whether an element stays depends on what is
  left of its children. `Forest.keepWhere` states the outcome from above: a label stays if it or a
  label below it satisfies a condition. The two agree (`prune_eq_keepWhere`), because something is
  left of a forest exactly if one of its labels satisfies the condition (`isEmpty_keepWhere`).

  * `lines_keepWhere`: the labels that stay, each with the labels above it, are those of the forest
    whose tree satisfies the condition, in the same order;
  * `Pool.map_tree_prune`: pruning the links of a pool prunes the trees that hang from its numbers;
  * **`prune_exact`**: what pruning keeps, that nothing empty is left, that a second time changes
    nothing, and that it can be done in place.
-/
import OutlineMarkup.Element.Pool
import OutlineMarkup.Proofs.Mounting

namespace OutlineMarkup

/-! ## 1. Labels that stay -/

namespace Forest

variable {α β : Type}

/-- Keeps a label if it or a label below it satisfies `p`. -/
def keepWhere (p : α → Bool) : Forest α → Forest α
  | .nil => .nil
  | .node a cs ss =>
    if (a :: cs.labels).any p then .node a (cs.keepWhere p) (ss.keepWhere p) else ss.keepWhere p

/-- Something is left exactly if some label satisfies the condition. -/
theorem isEmpty_keepWhere (p : α → Bool) (f : Forest α) :
    (f.keepWhere p).isEmpty = !f.labels.any p := by
  induction f with
  | nil => rfl
  | node a cs ss _ ihs =>
    have hlabels : (node a cs ss).labels.any p = ((a :: cs.labels).any p || ss.labels.any p) := by
      rw [labels, ← List.cons_append, List.any_append]
    rw [keepWhere, hlabels]
    cases h : (a :: cs.labels).any p with
    | true => rfl
    | false => exact ihs

theorem keepWhere_map (g : α → β) (p : β → Bool) (f : Forest α) :
    (f.map g).keepWhere p = (f.keepWhere (p ∘ g)).map g := by
  induction f with
  | nil => rfl
  | node a cs ss ihc ihs =>
    have hany : (g a :: (cs.map g).labels).any p = (a :: cs.labels).any (p ∘ g) := by
      rw [labels_map, ← List.map_cons, List.any_map]
    rw [map, keepWhere, keepWhere, hany, ihc, ihs]
    split
    · rfl
    · rfl

theorem labels_keepWhere_sublist (p : α → Bool) (f : Forest α) :
    (f.keepWhere p).labels.Sublist f.labels := by
  induction f with
  | nil => exact .slnil
  | node a cs ss ihc ihs =>
    rw [keepWhere, labels]
    split
    · exact (ihc.append ihs).cons_cons a
    · exact (ihs.trans (List.sublist_append_right cs.labels ss.labels)).cons a

/-- A label that satisfies the condition stays. -/
theorem mem_labels_keepWhere {p : α → Bool} {f : Forest α} {a : α} (h : a ∈ f.labels)
    (ha : p a = true) : a ∈ (f.keepWhere p).labels := by
  induction f with
  | nil => cases h
  | node b cs ss ihc ihs =>
    rw [labels, ← List.cons_append] at h
    rw [keepWhere]
    rcases List.mem_append.mp h with h | h
    · rw [if_pos (List.any_eq_true.mpr ⟨a, h, ha⟩), labels, ← List.cons_append]
      refine List.mem_append_left _ ((List.mem_cons.mp h).elim ?_ ?_)
      · rintro rfl
        exact List.mem_cons_self
      · exact fun h => List.mem_cons_of_mem _ (ihc h)
    · split
      · exact List.mem_cons_of_mem _ (List.mem_append_right _ (ihs h))
      · exact ihs h

/-- Every tree inside the forest in document order, each with the labels above it, outermost first;
    those above the forest itself are given. -/
def lineages (above : List α) : Forest α → List (List α × Tree α)
  | .nil => []
  | .node a cs ss => (above, ⟨a, cs⟩) :: (cs.lineages (above ++ [a]) ++ ss.lineages above)

/-- The labels in document order, each with the labels above it. -/
def lines (above : List α) (f : Forest α) : List (List α × α) :=
  (f.lineages above).map fun x => (x.1, x.2.label)

theorem lines_node (above : List α) (a : α) (cs ss : Forest α) :
    (node a cs ss).lines above = (above, a) :: (cs.lines (above ++ [a]) ++ ss.lines above) := by
  simp only [lines, lineages, List.map_cons, List.map_append]

/-- The labels of a tree inside a forest are labels of the forest. -/
theorem labels_subset_of_mem_lineages {f : Forest α} {above : List α} {x : List α × Tree α}
    (h : x ∈ f.lineages above) : x.2.labels ⊆ f.labels := by
  induction f generalizing above with
  | nil => cases h
  | node a cs ss ihc ihs =>
    intro b hb
    rcases List.mem_cons.mp h with rfl | h
    · rw [labels, ← List.cons_append]
      exact List.mem_append_left _ hb
    · refine List.mem_cons_of_mem _ (List.mem_append.mpr ?_)
      exact (List.mem_append.mp h).imp (fun h => ihc h hb) (fun h => ihs h hb)

/-- **What stays are the labels whose tree satisfies the condition**, in document order and each
    under the labels that it stood under. -/
theorem lines_keepWhere (p : α → Bool) (f : Forest α) (above : List α) :
    (f.keepWhere p).lines above =
      ((f.lineages above).filter fun x => x.2.labels.any p).map fun x => (x.1, x.2.label) := by
  induction f generalizing above with
  | nil => rfl
  | node a cs ss ihc ihs =>
    rw [keepWhere, lineages, List.filter_cons, List.filter_append]
    by_cases h : (a :: cs.labels).any p = true
    · rw [if_pos h, lines_node, if_pos (show (Tree.mk a cs).labels.any p = true from h),
        List.map_cons, List.map_append, ihc, ihs]
    · -- no label below satisfies the condition either, so all of the tree goes
      have hbelow : (cs.lineages (above ++ [a])).filter (fun x => x.2.labels.any p) = [] := by
        refine List.filter_eq_nil_iff.mpr fun x hx hany => h ?_
        obtain ⟨b, hb, hpb⟩ := List.any_eq_true.mp hany
        exact List.any_eq_true.mpr
          ⟨b, List.mem_cons_of_mem _ (labels_subset_of_mem_lineages hx hb), hpb⟩
      rw [if_neg h, if_neg (show ¬(Tree.mk a cs).labels.any p = true from h), hbelow,
        List.nil_append, ihs]

end Forest

/-! ## 2. Pruning -/

/-- Whether an element says something of its own: a text that is not empty, an id, a class or an
    attribute. -/
def Element.speaks (e : Element) : Bool :=
  decide ((e.text ≠ none ∧ e.text ≠ some []) ∨ e.id ≠ [] ∨ e.classes ≠ [] ∨
    e.attributes.entries ≠ [])

theorem Element.speaks_eq (e : Element) : e.speaks = (e.hasText || e.hasAttributes) := by
  have htext : (e.text ≠ none ∧ e.text ≠ some []) ↔ e.hasText = true := by
    unfold hasText
    cases e.text with
    | none => simp
    | some t => simp
  rw [Bool.eq_iff_iff, speaks, decide_eq_true_iff, htext, Bool.or_eq_true]
  simp [hasAttributes, Table.isEmpty, or_assoc]

theorem Element.isEmpty_eq (e : Element) (children : Forest Element) :
    e.isEmpty children = !(e.speaks || !children.isEmpty) := by
  rw [speaks_eq, isEmpty, hasContent]
  cases e.hasText <;> cases e.hasAttributes <;> cases children.isEmpty <;> rfl

namespace Forest

/-- **Pruning from the inside keeps what says something, seen from above.** -/
theorem prune_eq_keepWhere (f : Forest Element) : f.prune = f.keepWhere Element.speaks := by
  induction f with
  | nil => rfl
  | node e cs ss ihc ihs =>
    have hempty : e.isEmpty (cs.keepWhere Element.speaks) =
        !(e :: cs.labels).any Element.speaks := by
      rw [Element.isEmpty_eq, isEmpty_keepWhere, Bool.not_not, List.any_cons]
    rw [prune, keepWhere, ihc, ihs, hempty]
    cases (e :: cs.labels).any Element.speaks with
    | true => rfl
    | false => rfl

/-- Pruning keeps the order of the elements that are left. -/
theorem labels_prune_sublist (f : Forest Element) : f.prune.labels.Sublist f.labels := by
  rw [prune_eq_keepWhere]
  exact labels_keepWhere_sublist _ f

/-- An element with an id, a class or an attribute is not pruned. -/
theorem mem_labels_prune {f : Forest Element} {e : Element} (h : e ∈ f.labels)
    (ha : e.hasAttributes = true) : e ∈ f.prune.labels := by
  rw [prune_eq_keepWhere]
  refine mem_labels_keepWhere h ?_
  rw [Element.speaks_eq, ha, Bool.or_true]

/-- No element of a pruned forest, at any level, is empty. -/
theorem isEmpty_of_mem_subtrees_prune {f : Forest Element} {t : Tree Element}
    (h : t ∈ f.prune.subtrees) : t.label.isEmpty t.children = false := by
  induction f with
  | nil => cases h
  | node e cs ss ihc ihs =>
    rw [prune] at h
    split at h
    · exact ihs h
    · rename_i hkept
      rcases List.mem_cons.mp h with rfl | h
      · exact Bool.eq_false_iff.mpr hkept
      · exact (List.mem_append.mp h).elim ihc ihs

/-- Where no element is empty, nothing is pruned. -/
theorem prune_eq_self {f : Forest Element}
    (h : ∀ t ∈ f.subtrees, t.label.isEmpty t.children = false) : f.prune = f := by
  induction f with
  | nil => rfl
  | node e cs ss ihc ihs =>
    have hcs : cs.prune = cs := ihc fun t ht =>
      h t (List.mem_cons_of_mem _ (List.mem_append_left _ ht))
    have hss : ss.prune = ss := ihs fun t ht =>
      h t (List.mem_cons_of_mem _ (List.mem_append_right _ ht))
    have he : e.isEmpty cs = false := h ⟨e, cs⟩ List.mem_cons_self
    rw [prune, hcs, hss, he]
    rfl

theorem prune_prune (f : Forest Element) : f.prune.prune = f.prune :=
  prune_eq_self fun _ => isEmpty_of_mem_subtrees_prune

/-! ## 3. Trees of a pruned forest -/

theorem trees_ofTrees {α : Type} (ts : List (Tree α)) : (ofTrees ts).trees = ts := by
  induction ts with
  | nil => rfl
  | cons t ts ih => exact congrArg (t :: ·) ih

theorem ofTrees_trees {α : Type} (f : Forest α) : ofTrees f.trees = f := by
  induction f with
  | nil => rfl
  | node a cs ss _ ih => exact congrArg (node a cs) ih

/-- Whether something is left of a tree. -/
def survives (t : Tree Element) : Bool := !(ofTrees [t]).prune.isEmpty

theorem survives_eq (t : Tree Element) : survives t = !t.label.isEmpty t.children.prune := by
  show (!(if t.label.isEmpty t.children.prune then nil else
    node t.label t.children.prune nil).isEmpty) = _
  cases t.label.isEmpty t.children.prune <;> rfl

/-- Pruning works on each tree apart. -/
theorem prune_ofTrees (ts : List (Tree Element)) :
    (ofTrees ts).prune =
      ofTrees ((ts.filter survives).map fun t => { t with children := t.children.prune }) := by
  induction ts with
  | nil => rfl
  | cons t ts ih =>
    show (if t.label.isEmpty t.children.prune then (ofTrees ts).prune else
      node t.label t.children.prune (ofTrees ts).prune) = _
    rw [List.filter_cons, survives_eq, ih]
    cases t.label.isEmpty t.children.prune <;> rfl

end Forest

/-! ## 4. Pruning in place -/

namespace Pool

/-- Links lead to smaller numbers, as in the pools that arise from forests. -/
def Descends (p : Pool) : Prop := ∀ n, ∀ c ∈ (p.node n).children, c < n

variable {p q : Pool}

theorem treeOfHeight_congr (hp : p.Descends) (n : Nat) {k k' : Nat} (hk : n ≤ k) (hk' : n ≤ k') :
    p.treeOfHeight k n = p.treeOfHeight k' n := by
  induction n using Nat.strongRecOn generalizing k k' with
  | ind n ih =>
    have hheight : ∀ {h : Nat}, n ≤ h → p.treeOfHeight h n =
        ⟨(p.node n).element, .ofTrees ((p.node n).children.map (p.treeOfHeight n))⟩ := by
      intro h hn
      cases h with
      | zero =>
        -- the number 0 has no children
        have hnone : (p.node n).children = [] := List.eq_nil_iff_forall_not_mem.mpr fun c hc => by
          have := hp n c hc
          omega
        rw [hnone]
        rfl
      | succ h =>
        have hmap : (p.node n).children.map (p.treeOfHeight h) =
            (p.node n).children.map (p.treeOfHeight n) := by
          refine List.map_congr_left fun c hc => ?_
          have hlt := hp n c hc
          exact ih c hlt (by omega) (by omega)
        rw [treeOfHeight, hmap]
    rw [hheight hk, hheight hk']

/-- The tree at a number is its element over the trees at its children. -/
theorem tree_eq (hp : p.Descends) {n : Nat} (hn : n < p.nodes.length) :
    p.tree n = ⟨(p.node n).element, .ofTrees ((p.node n).children.map p.tree)⟩ := by
  obtain ⟨k, hk⟩ := Nat.exists_eq_add_of_lt hn
  have hmap : (p.node n).children.map (p.treeOfHeight (n + k)) =
      (p.node n).children.map p.tree := by
    refine List.map_congr_left fun c hc => ?_
    have hlt := hp n c hc
    exact treeOfHeight_congr hp c (by omega) (by omega)
  show p.treeOfHeight p.nodes.length n = _
  rw [hk, treeOfHeight, hmap]

theorem length_prune (p : Pool) (roots : List Nat) :
    (p.prune roots).1.nodes.length = p.nodes.length :=
  List.length_mapIdx

theorem node_prune (p : Pool) (roots : List Nat) (n : Nat) :
    (p.prune roots).1.node n =
      if (p.reachWithin p.nodes.length roots).contains n then
        { p.node n with children := (p.node n).children.filter p.isKept }
      else p.node n := by
  simp only [node, prune, List.getD_eq_getElem?_getD, List.getElem?_mapIdx]
  cases p.nodes[n]? with
  | some node => rfl
  | none =>
    split
    · rfl
    · rfl

theorem elements_prune (p : Pool) (roots : List Nat) :
    (p.prune roots).1.nodes.map PoolNode.element = p.nodes.map PoolNode.element := by
  refine List.ext_getElem? fun n => ?_
  simp only [prune, List.getElem?_map, List.getElem?_mapIdx]
  cases p.nodes[n]? with
  | none => rfl
  | some node =>
    simp only [Option.map_some]
    split
    · rfl
    · rfl

theorem node_prune_of_reached {roots : List Nat} {n : Nat}
    (h : n ∈ p.reachWithin p.nodes.length roots) :
    (p.prune roots).1.node n =
      { p.node n with children := (p.node n).children.filter p.isKept } := by
  rw [node_prune, if_pos (List.contains_iff_mem.mpr h)]

theorem Descends.prune (hp : p.Descends) (roots : List Nat) : (p.prune roots).1.Descends := by
  intro n c hc
  rw [node_prune] at hc
  split at hc
  · exact hp n c (List.mem_filter.mp hc).1
  · exact hp n c hc

/-- What hangs from a number that is reached is pruned. The numbers below it are reached over as
    many links as the number itself counts, since each link leads to a smaller one. -/
theorem tree_prune (hp : p.Descends) (roots : List Nat) (n : Nat) (hn : n < p.nodes.length)
    {k : Nat} (hk : n ≤ k) {ns : List Nat} (hns : n ∈ ns)
    (hreach : p.reachWithin k ns ⊆ p.reachWithin p.nodes.length roots) :
    (p.prune roots).1.tree n = { p.tree n with children := (p.tree n).children.prune } := by
  induction n using Nat.strongRecOn generalizing k ns with
  | ind n ih =>
    have hself : n ∈ p.reachWithin k ns := by
      cases k with
      | zero => exact hns
      | succ k => exact List.mem_append_left _ hns
    have hchildren : ∀ c ∈ (p.node n).children,
        (p.prune roots).1.tree c = { p.tree c with children := (p.tree c).children.prune } := by
      intro c hc
      have hlt := hp n c hc
      obtain ⟨k, rfl⟩ : ∃ j, k = j + 1 := Nat.exists_eq_add_one.mpr (by omega)
      have hnext : c ∈ (ns.flatMap fun n => (p.node n).children).eraseDups :=
        List.mem_eraseDups.mpr (List.mem_flatMap.mpr ⟨n, hns, hc⟩)
      have hck : c ≤ k := by omega
      exact ih c hlt (by omega) hck hnext fun m hm => hreach (List.mem_append_right _ hm)
    have hn' : n < (p.prune roots).1.nodes.length := by rw [length_prune]; exact hn
    rw [tree_eq (hp.prune roots) hn', tree_eq hp hn, node_prune_of_reached (hreach hself)]
    dsimp only
    rw [Forest.prune_ofTrees, List.filter_map, List.map_map]
    congr 2
    refine List.map_congr_left fun c hc => ?_
    exact hchildren c (List.mem_filter.mp hc).1

/-- **Pruning the links of a pool prunes the trees that hang from its numbers.** -/
theorem map_tree_prune (hp : p.Descends) {roots : List Nat}
    (hroots : ∀ n ∈ roots, n < p.nodes.length) :
    (p.prune roots).2.map (p.prune roots).1.tree =
      (Forest.ofTrees (roots.map p.tree)).prune.trees := by
  rw [Forest.prune_ofTrees, Forest.trees_ofTrees, List.filter_map, List.map_map]
  refine List.map_congr_left fun n hn => ?_
  have hmem : n ∈ roots := (List.mem_filter.mp hn).1
  have hlt := hroots n hmem
  exact tree_prune hp roots n hlt (Nat.le_of_lt hlt) hmem fun _ h => h

/-! ## 5. The pool of a forest -/

theorem node_of_extension (h : p.nodes <+: q.nodes) {n : Nat} (hn : n < p.nodes.length) :
    q.node n = p.node n := by
  obtain ⟨more, e⟩ := h
  simp only [node, List.getD_eq_getElem?_getD, ← e, List.getElem?_append_left hn]

/-- More elements behind those of a pool change no tree of it. -/
theorem tree_of_extension (hp : p.Descends) (hq : q.Descends) (h : p.nodes <+: q.nodes) {n : Nat}
    (hn : n < p.nodes.length) : q.tree n = p.tree n := by
  induction n using Nat.strongRecOn with
  | ind n ih =>
    have hmap : (p.node n).children.map q.tree = (p.node n).children.map p.tree := by
      refine List.map_congr_left fun c hc => ?_
      have hlt := hp n c hc
      exact ih c hlt (by omega)
    rw [tree_eq hp hn, tree_eq hq (Nat.lt_of_lt_of_le hn h.length_le), node_of_extension h hn, hmap]

/-- The pool with one more element. -/
def push (p : Pool) (e : Element) (children : List Nat) : Pool := ⟨p.nodes ++ [⟨e, children⟩]⟩

theorem prefix_push (p : Pool) (e : Element) (children : List Nat) :
    p.nodes <+: (p.push e children).nodes := List.prefix_append _ _

theorem Descends.push (hp : p.Descends) (e : Element) {children : List Nat}
    (h : ∀ c ∈ children, c < p.nodes.length) : (p.push e children).Descends := by
  intro n c hc
  rcases Nat.lt_trichotomy n p.nodes.length with hn | rfl | hn
  · rw [node_of_extension (p.prefix_push e children) hn] at hc
    exact hp n c hc
  · have hnode : (p.push e children).node p.nodes.length = ⟨e, children⟩ := by
      simp [node, Pool.push]
    rw [hnode] at hc
    exact h c hc
  · have hnode : ((p.push e children).node n).children = [] := by
      have hlen : (p.push e children).nodes.length ≤ n := by
        simp [Pool.push]
        omega
      simp [node, List.getElem?_eq_none hlen]
    rw [hnode] at hc
    cases hc

/-- The children of an element go into the pool first, then the element, then what follows it. -/
theorem addForest_node {e : Element} {cs ss : Forest Element} {below behind : Pool × List Nat}
    (hbelow : p.addForest cs = below)
    (hbehind : (below.1.push e below.2).addForest ss = behind) :
    p.addForest (.node e cs ss) = (behind.1, below.1.nodes.length :: behind.2) := by
  subst hbelow hbehind
  rfl

/-- What adding a forest to a pool gives: more elements, links that lead to smaller numbers, and the
    trees of the forest at the numbers of its roots. -/
structure Holds (p : Pool) (f : Forest Element) (r : Pool × List Nat) : Prop where
  extends_old : p.nodes <+: r.1.nodes
  descends : r.1.Descends
  roots_lt : ∀ n ∈ r.2, n < r.1.nodes.length
  trees : r.2.map r.1.tree = f.trees

theorem holds_addForest (hp : p.Descends) (f : Forest Element) : Holds p f (p.addForest f) := by
  induction f generalizing p with
  | nil => exact ⟨List.prefix_refl _, hp, (fun n hn => nomatch hn), rfl⟩
  | node e cs ss ihc ihs =>
    obtain ⟨below, ebelow⟩ : ∃ below, p.addForest cs = below := ⟨_, rfl⟩
    obtain ⟨behind, ebehind⟩ : ∃ behind, (below.1.push e below.2).addForest ss = behind := ⟨_, rfl⟩
    have hbelow : Holds p cs below := ebelow ▸ ihc hp
    have hpush := hbelow.descends.push e hbelow.roots_lt
    have hbehind : Holds (below.1.push e below.2) ss behind := ebehind ▸ ihs hpush
    have hself : below.1.nodes.length < (below.1.push e below.2).nodes.length := by
      simp [push]
    have hroot : behind.1.tree below.1.nodes.length = ⟨e, cs⟩ := by
      have hnode : (below.1.push e below.2).node below.1.nodes.length = ⟨e, below.2⟩ := by
        simp [node, push]
      have hmap : below.2.map (below.1.push e below.2).tree = below.2.map below.1.tree :=
        List.map_congr_left fun n hn => tree_of_extension hbelow.descends hpush
          (below.1.prefix_push e below.2) (hbelow.roots_lt n hn)
      rw [tree_of_extension hpush hbehind.descends hbehind.extends_old hself, tree_eq hpush hself,
        hnode, hmap, hbelow.trees, Forest.ofTrees_trees]
    rw [addForest_node ebelow ebehind]
    refine ⟨?_, hbehind.descends, fun n hn => ?_, ?_⟩
    · exact (hbelow.extends_old.trans (below.1.prefix_push e below.2)).trans hbehind.extends_old
    · rcases List.mem_cons.mp hn with rfl | hn
      · exact Nat.lt_of_lt_of_le hself hbehind.extends_old.length_le
      · exact hbehind.roots_lt n hn
    · show behind.1.tree below.1.nodes.length :: behind.2.map behind.1.tree = ⟨e, cs⟩ :: ss.trees
      rw [hroot, hbehind.trees]

theorem descends_empty : ({} : Pool).Descends := by
  intro n c hc
  cases hc

end Pool

/-! ## 6. What pruning does -/

namespace Forest

/-- **Pruning leaves out exactly the trees that say nothing.** Number the elements in document
    order. What is left are the elements that say something or have one below them that does, in the
    same order, unchanged, and under the same elements. None of them is empty, and pruning again
    changes nothing. Done in place, on elements that link to their children by number, pruning
    changes links only and leaves the same trees. -/
theorem prune_exact (f : Forest Element) :
    (∃ kept : Forest (Nat × Element), kept.map Prod.snd = f.prune ∧
      kept.lines [] =
        (((f.numbered 0).lineages []).filter fun x => x.2.labels.any fun n => n.2.speaks).map
          fun x => (x.1, x.2.label)) ∧
    (∀ t ∈ f.prune.subtrees, t.label.isEmpty t.children = false) ∧
    f.prune.prune = f.prune ∧
    (let pool := (Pool.addForest {} f).1
     let roots := (Pool.addForest {} f).2
     let after := pool.prune roots
     roots.map pool.tree = f.trees ∧ after.2.map after.1.tree = f.prune.trees ∧
      after.1.nodes.map PoolNode.element = pool.nodes.map PoolNode.element) := by
  refine ⟨⟨(f.numbered 0).keepWhere (Element.speaks ∘ Prod.snd), ?_, lines_keepWhere _ _ _⟩,
    fun t => isEmpty_of_mem_subtrees_prune, f.prune_prune, ?_⟩
  · rw [← keepWhere_map, map_snd_numbered, prune_eq_keepWhere]
  · intro pool roots after
    have hholds := Pool.holds_addForest Pool.descends_empty f
    have htrees : roots.map pool.tree = f.trees := hholds.trees
    refine ⟨htrees, ?_, Pool.elements_prune pool roots⟩
    rw [Pool.map_tree_prune hholds.descends hholds.roots_lt, htrees, ofTrees_trees]

end Forest

end OutlineMarkup
