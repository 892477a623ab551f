/-
  File:      OutlineMarkup/Proofs/Mounting.lean
  Subject:   The calls that mount a document.

  The elements of a forest are numbered in document order (`Forest.numbered`), which is the order in
  which they are created. `buildCalls` are the calls for a numbered forest. The calls of an element
  stand together, from its creation to its being put under its parent, with those of its children in
  between (`buildCalls_segment`); this settles when each call is made.

  * **`builds_buildCalls`**: each element is created once and in document order, dressed right after
    that, and put once under its parent when its tree is built;
  * **`Host.mount_eq`**: every host gets these calls, with its own handles for the numbers.
-/
import OutlineMarkup.Markup.Mount
import OutlineMarkup.Proofs.Decoding
import OutlineMarkup.Proofs.Rules

namespace OutlineMarkup

/-! ## 1. Numbered forests -/

namespace Forest

variable {α β : Type}

/-- The forest with its labels numbered in document order, from the given number on. -/
def numbered : Nat → Forest α → Forest (Nat × α)
  | _, .nil => .nil
  | n, .node a cs ss => .node (n, a) (cs.numbered (n + 1)) (ss.numbered (n + 1 + cs.size))

/-- The numbers in document order. -/
def numbers (f : Forest (Nat × α)) : List Nat := f.labels.map Prod.fst

/-- All trees inside a numbered forest in document order, each with the number of its parent; the
    roots have the given one. -/
def placed (parent : Nat) : Forest (Nat × α) → List (Nat × Tree (Nat × α))
  | .nil => []
  | .node x cs ss => (parent, ⟨x, cs⟩) :: (cs.placed x.1 ++ ss.placed parent)

theorem numbers_node (x : Nat × α) (cs ss : Forest (Nat × α)) :
    (node x cs ss).numbers = x.1 :: (cs.numbers ++ ss.numbers) := by
  simp [numbers, labels]

theorem numbers_append (f g : Forest (Nat × α)) : (f ++ g).numbers = f.numbers ++ g.numbers := by
  simp [numbers]

theorem numbers_numbered (n : Nat) (f : Forest α) :
    (f.numbered n).numbers = List.range' n f.size := by
  induction f generalizing n with
  | nil => rfl
  | node a cs ss ihc ihs =>
    rw [numbered, numbers_node, ihc, ihs, List.range'_append_1, size_node, List.range'_succ]

/-- Numbered from 1, all numbers are different and 0 is left over. -/
theorem nodup_numbers_numbered (f : Forest α) : (0 :: (f.numbered 1).numbers).Nodup := by
  rw [numbers_numbered, List.nodup_cons, List.mem_range'_1]
  exact ⟨by omega, List.nodup_range'⟩

theorem map_snd_numbered (n : Nat) (f : Forest α) : (f.numbered n).map Prod.snd = f := by
  induction f generalizing n with
  | nil => rfl
  | node a cs ss ihc ihs => rw [numbered, map, ihc, ihs]

/-- Numbers that are different in a forest are different in its parts. -/
theorem nodup_numbers_node {x : Nat × α} {cs ss : Forest (Nat × α)}
    (h : (node x cs ss).numbers.Nodup) :
    (x.1 ∉ cs.numbers ∧ x.1 ∉ ss.numbers) ∧ cs.numbers.Nodup ∧ ss.numbers.Nodup ∧
      ∀ n ∈ cs.numbers, n ∉ ss.numbers := by
  rw [numbers_node, List.nodup_cons, List.nodup_append, List.mem_append, not_or] at h
  obtain ⟨hx, hc, hs, hdisjoint⟩ := h
  exact ⟨hx, hc, hs, fun n hn hn' => hdisjoint n hn n hn' rfl⟩

theorem exists_placed {f : Forest (Nat × α)} {x : Nat × α} (h : x ∈ f.labels) (parent : Nat) :
    ∃ y ∈ f.placed parent, y.2.label = x := by
  induction f generalizing parent with
  | nil => cases h
  | node a cs ss ihc ihs =>
    rcases List.mem_cons.mp h with rfl | h
    · exact ⟨_, List.mem_cons_self, rfl⟩
    · rcases List.mem_append.mp h with h | h
      · obtain ⟨y, hy, e⟩ := ihc h a.1
        exact ⟨y, List.mem_cons_of_mem _ (List.mem_append_left _ hy), e⟩
      · obtain ⟨y, hy, e⟩ := ihs h parent
        exact ⟨y, List.mem_cons_of_mem _ (List.mem_append_right _ hy), e⟩

/-- The labels of a tree inside of a forest stand together in the forest. -/
theorem infix_of_placed {f : Forest (Nat × α)} {parent : Nat} {y : Nat × Tree (Nat × α)}
    (h : y ∈ f.placed parent) : y.2.labels <:+: f.labels := by
  induction f generalizing parent with
  | nil => cases h
  | node a cs ss ihc ihs =>
    rcases List.mem_cons.mp h with rfl | h
    · exact ⟨[], ss.labels, rfl⟩
    · rcases List.mem_append.mp h with h | h
      · obtain ⟨before, after, e⟩ := ihc h
        exact ⟨a :: before, after ++ ss.labels, by simp [labels, ← e]⟩
      · obtain ⟨before, after, e⟩ := ihs h
        exact ⟨a :: cs.labels ++ before, after, by simp [labels, ← e]⟩

end Forest

/-- The numbers of a tree in document order. -/
def Tree.numbers {α : Type} (t : Tree (Nat × α)) : List Nat := t.labels.map Prod.fst

theorem Forest.numbers_infix_of_placed {α : Type} {f : Forest (Nat × α)} {parent : Nat}
    {y : Nat × Tree (Nat × α)} (h : y ∈ f.placed parent) : y.2.numbers <:+: f.numbers :=
  (infix_of_placed h).map Prod.fst

/-! ## 2. The calls -/

namespace Markup

/-- The calls that make an element, without its children: it is created, then it gets its
    attributes in order, and its text if it has one. -/
def createCalls (number : Nat) (e : Element) : List Call :=
  .createElement number e.tag ::
    (e.htmlAttributes.entries.map fun a => .setAttribute number a.1 a.2) ++
    (if e.hasText then [.setText number (e.text.getD [])] else [])

/-- The calls that build a numbered forest under a parent. -/
def buildCalls (parent : Nat) : Forest (Nat × Element) → List Call
  | .nil => []
  | .node x cs ss =>
    createCalls x.1 x.2 ++ buildCalls x.1 cs ++ .appendChild parent x.1 :: buildCalls parent ss

namespace Call

/-- The element that a call creates, with its tag. -/
def created? : Call → Option (Nat × Text)
  | .createElement n tag => some (n, tag)
  | _ => none

/-- The element that a call creates or changes. -/
def made? : Call → Option Nat
  | .createElement n _ | .setAttribute n _ _ | .setText n _ => some n
  | _ => none

/-- The element that a call puts under another. -/
def moved? : Call → Option Nat
  | .appendChild _ n => some n
  | _ => none

/-- The elements that a call names. -/
def elements : Call → List Nat
  | .mountPoint | .insertStylesheet _ => []
  | .createElement n _ | .setAttribute n _ _ | .setText n _ => [n]
  | .appendChild parent child => [parent, child]

theorem mem_elements_of_made {c : Call} {n : Nat} (h : c.made? = some n) : n ∈ c.elements := by
  cases c with
  | createElement k tag => cases h; exact List.mem_cons_self
  | setAttribute k name value => cases h; exact List.mem_cons_self
  | setText k text => cases h; exact List.mem_cons_self
  | _ => cases h

theorem mem_elements_of_moved {c : Call} {n : Nat} (h : c.moved? = some n) : n ∈ c.elements := by
  cases c with
  | appendChild p k => cases h; exact List.mem_cons_of_mem _ List.mem_cons_self
  | _ => cases h

end Call

theorem mem_createCalls {n : Nat} {e : Element} {c : Call} (h : c ∈ createCalls n e) :
    c.elements = [n] ∧ c.made? = some n ∧ c.moved? = none := by
  rcases List.mem_cons.mp h with rfl | h
  · exact ⟨rfl, rfl, rfl⟩
  · rcases List.mem_append.mp h with h | h
    · obtain ⟨a, _, rfl⟩ := List.mem_map.mp h
      exact ⟨rfl, rfl, rfl⟩
    · split at h
      · rw [List.mem_singleton.mp h]
        exact ⟨rfl, rfl, rfl⟩
      · cases h

section Calls

variable {parent : Nat} {f : Forest (Nat × Element)} {c : Call} {n : Nat}

/-- The calls for a forest name its elements and the parent. -/
theorem mem_elements_buildCalls (h : c ∈ buildCalls parent f) (hn : n ∈ c.elements) :
    n = parent ∨ n ∈ f.numbers := by
  induction f generalizing parent with
  | nil => cases h
  | node x cs ss ihc ihs =>
    rw [Forest.numbers_node, List.mem_cons, List.mem_append]
    rw [buildCalls, List.mem_append, List.mem_append, List.mem_cons] at h
    rcases h with (h | h) | rfl | h
    · rw [(mem_createCalls h).1, List.mem_singleton] at hn
      exact .inr (.inl hn)
    · exact .inr ((ihc h).imp_right .inl)
    · rcases List.mem_cons.mp hn with rfl | hn
      · exact .inl rfl
      · exact .inr (.inl (List.mem_singleton.mp hn))
    · exact (ihs h).imp_right fun h => .inr (.inr h)

/-- What the calls for a forest create, change or put under another is part of the forest. -/
theorem mem_numbers_of_touched (h : c ∈ buildCalls parent f)
    (hn : c.made? = some n ∨ c.moved? = some n) : n ∈ f.numbers := by
  induction f generalizing parent with
  | nil => cases h
  | node x cs ss ihc ihs =>
    rw [Forest.numbers_node, List.mem_cons, List.mem_append]
    rw [buildCalls, List.mem_append, List.mem_append, List.mem_cons] at h
    rcases h with (h | h) | rfl | h
    · obtain ⟨_, hmade, hmoved⟩ := mem_createCalls h
      rw [hmade, hmoved] at hn
      exact .inl (Option.some.inj (hn.resolve_right nofun)).symm
    · exact .inr (.inl (ihc h))
    · exact .inl (Option.some.inj (hn.resolve_left nofun)).symm
    · exact .inr (.inr (ihs h))

/-- **The calls for a tree stand together**: it is created, its children are built, and it is put
    under its parent. No call before or after these names an element of the tree. -/
theorem buildCalls_segment (hf : f.numbers.Nodup) (hp : parent ∉ f.numbers)
    {y : Nat × Tree (Nat × Element)} (hy : y ∈ f.placed parent) :
    ∃ before after, buildCalls parent f = before ++ (createCalls y.2.label.1 y.2.label.2 ++
        buildCalls y.2.label.1 y.2.children ++ [.appendChild y.1 y.2.label.1]) ++ after ∧
      ∀ c ∈ before ++ after, ∀ n ∈ c.elements, n ∉ y.2.numbers := by
  induction f generalizing parent with
  | nil => cases hy
  | node x cs ss ihc ihs =>
    obtain ⟨⟨hxc, hxs⟩, hc, hs, hdisjoint⟩ := Forest.nodup_numbers_node hf
    rw [Forest.numbers_node, List.mem_cons, List.mem_append, not_or, not_or] at hp
    obtain ⟨hpx, hpc, hps⟩ := hp
    rcases List.mem_cons.mp hy with rfl | hy
    · -- the first tree: nothing before it, and the trees after it have other numbers
      refine ⟨[], buildCalls parent ss, by simp [buildCalls], fun c hc n hn hmem => ?_⟩
      have htree : n = x.1 ∨ n ∈ cs.numbers := List.mem_cons.mp hmem
      rcases mem_elements_buildCalls hc hn with rfl | hns
      · exact htree.elim hpx hpc
      · rcases htree with rfl | hnc
        · exact hxs hns
        · exact hdisjoint n hnc hns
    · rcases List.mem_append.mp hy with hy | hy
      · -- a tree among the children of the first
        obtain ⟨before, after, e, hfree⟩ := ihc hc hxc hy
        have hsub := (Forest.numbers_infix_of_placed hy).subset
        refine ⟨createCalls x.1 x.2 ++ before, after ++ .appendChild parent x.1 ::
          buildCalls parent ss, by simp [buildCalls, e], fun c hc n hn hmem => ?_⟩
        simp only [List.mem_append, List.mem_cons] at hc
        rcases hc with (hc | hc) | hc | rfl | hc
        · rw [(mem_createCalls hc).1, List.mem_singleton] at hn
          exact hxc (hn ▸ hsub hmem)
        · exact hfree c (List.mem_append_left _ hc) n hn hmem
        · exact hfree c (List.mem_append_right _ hc) n hn hmem
        · rcases List.mem_cons.mp hn with rfl | hn
          · exact hpc (hsub hmem)
          · exact hxc (List.mem_singleton.mp hn ▸ hsub hmem)
        · rcases mem_elements_buildCalls hc hn with rfl | hns
          · exact hpc (hsub hmem)
          · exact hdisjoint n (hsub hmem) hns
      · -- a tree after the first
        obtain ⟨before, after, e, hfree⟩ := ihs hs hps hy
        have hsub := (Forest.numbers_infix_of_placed hy).subset
        refine ⟨createCalls x.1 x.2 ++ buildCalls x.1 cs ++ .appendChild parent x.1 :: before,
          after, by simp [buildCalls, e], fun c hc n hn hmem => ?_⟩
        simp only [List.mem_append, List.mem_cons] at hc
        rcases hc with ((hc | hc) | rfl | hc) | hc
        · rw [(mem_createCalls hc).1, List.mem_singleton] at hn
          exact hxs (hn ▸ hsub hmem)
        · rcases mem_elements_buildCalls hc hn with rfl | hnc
          · exact hxs (hsub hmem)
          · exact hdisjoint n hnc (hsub hmem)
        · rcases List.mem_cons.mp hn with rfl | hn
          · exact hps (hsub hmem)
          · exact hxs (List.mem_singleton.mp hn ▸ hsub hmem)
        · exact hfree c (List.mem_append_left _ hc) n hn hmem
        · exact hfree c (List.mem_append_right _ hc) n hn hmem

end Calls

/-- What calls do for a numbered forest that they build under the element 0. -/
structure Builds (f : Forest (Nat × Element)) (calls : List Call) : Prop where
  /-- Every element is created once, in document order, and nothing else is. -/
  created : calls.filterMap Call.created? = f.labels.map fun x => (x.1, x.2.tag)
  /-- Right after it is created an element gets its attributes in order, and its text if it has one.
      At no other time is it created or changed. -/
  dressed : ∀ x ∈ f.labels, ∃ before after, calls = before ++ createCalls x.1 x.2 ++ after ∧
    ∀ c ∈ before ++ after, c.made? ≠ some x.1
  /-- Every element is put once under another, which is its parent. By then its whole tree is built:
      no later call names an element of it. -/
  placed : ∀ y ∈ f.placed 0, ∃ before after,
    calls = before ++ .appendChild y.1 y.2.label.1 :: after ∧
    (∀ c ∈ before ++ after, c.moved? ≠ some y.2.label.1) ∧
    ∀ c ∈ after, ∀ n ∈ c.elements, n ∉ y.2.numbers
  /-- There are no other calls. -/
  only : ∀ c ∈ calls, (∃ x ∈ f.labels, c ∈ createCalls x.1 x.2) ∨
    ∃ y ∈ f.placed 0, c = .appendChild y.1 y.2.label.1

theorem created_createCalls (n : Nat) (e : Element) :
    (createCalls n e).filterMap Call.created? = [(n, e.tag)] := by
  have hattributes : ∀ as : List (Text × Text),
      (as.map fun a => Call.setAttribute n a.1 a.2).filterMap Call.created? = [] := by
    intro as
    rw [List.filterMap_eq_nil_iff]
    intro c hc
    obtain ⟨a, _, rfl⟩ := List.mem_map.mp hc
    rfl
  have htext : (if e.hasText then [Call.setText n (e.text.getD [])] else []).filterMap
      Call.created? = [] := by
    split <;> rfl
  show (n, e.tag) :: (_ ++ _ : List Call).filterMap Call.created? = _
  rw [List.filterMap_append, hattributes, htext]
  rfl

theorem created_buildCalls (parent : Nat) (f : Forest (Nat × Element)) :
    (buildCalls parent f).filterMap Call.created? = f.labels.map fun x => (x.1, x.2.tag) := by
  induction f generalizing parent with
  | nil => rfl
  | node x cs ss ihc ihs =>
    rw [buildCalls, List.filterMap_append, List.filterMap_append, List.filterMap_cons_none rfl,
      created_createCalls, ihc, ihs]
    simp [Forest.labels]

theorem mem_buildCalls {parent : Nat} {f : Forest (Nat × Element)} {c : Call}
    (h : c ∈ buildCalls parent f) : (∃ x ∈ f.labels, c ∈ createCalls x.1 x.2) ∨
      ∃ y ∈ f.placed parent, c = .appendChild y.1 y.2.label.1 := by
  induction f generalizing parent with
  | nil => cases h
  | node x cs ss ihc ihs =>
    rw [buildCalls, List.mem_append, List.mem_append, List.mem_cons] at h
    simp only [Forest.labels, Forest.placed, List.mem_cons, List.mem_append]
    rcases h with (h | h) | rfl | h
    · exact .inl ⟨x, .inl rfl, h⟩
    · rcases ihc h with ⟨y, hy, hc⟩ | ⟨y, hy, hc⟩
      · exact .inl ⟨y, .inr (.inl hy), hc⟩
      · exact .inr ⟨y, .inr (.inl hy), hc⟩
    · exact .inr ⟨_, .inl rfl, rfl⟩
    · rcases ihs h with ⟨y, hy, hc⟩ | ⟨y, hy, hc⟩
      · exact .inl ⟨y, .inr (.inr hy), hc⟩
      · exact .inr ⟨y, .inr (.inr hy), hc⟩

/-- **The calls for a forest with different numbers build it.** -/
theorem builds_buildCalls {f : Forest (Nat × Element)} (hf : f.numbers.Nodup)
    (h0 : 0 ∉ f.numbers) : Builds f (buildCalls 0 f) where
  created := created_buildCalls 0 f
  dressed := by
    intro x hx
    obtain ⟨y, hy, rfl⟩ := Forest.exists_placed hx 0
    obtain ⟨before, after, e, hfree⟩ := buildCalls_segment hf h0 hy
    have htree : y.2.numbers.Nodup := hf.sublist (Forest.numbers_infix_of_placed hy).sublist
    refine ⟨before, buildCalls y.2.label.1 y.2.children ++ .appendChild y.1 y.2.label.1 :: after,
      by simp [e], fun c hc hmade => ?_⟩
    simp only [List.mem_append, List.mem_cons] at hc
    rcases hc with hc | hc | rfl | hc
    · exact hfree c (List.mem_append_left _ hc) _ (Call.mem_elements_of_made hmade)
        List.mem_cons_self
    · exact (List.nodup_cons.mp htree).1 (mem_numbers_of_touched hc (.inl hmade))
    · cases hmade
    · exact hfree c (List.mem_append_right _ hc) _ (Call.mem_elements_of_made hmade)
        List.mem_cons_self
  placed := by
    intro y hy
    obtain ⟨before, after, e, hfree⟩ := buildCalls_segment hf h0 hy
    have htree : y.2.numbers.Nodup := hf.sublist (Forest.numbers_infix_of_placed hy).sublist
    refine ⟨before ++ createCalls y.2.label.1 y.2.label.2 ++ buildCalls y.2.label.1 y.2.children,
      after, by simp [e], fun c hc hmoved => ?_,
      fun c hc => hfree c (List.mem_append_right _ hc)⟩
    simp only [List.mem_append] at hc
    rcases hc with ((hc | hc) | hc) | hc
    · exact hfree c (List.mem_append_left _ hc) _ (Call.mem_elements_of_moved hmoved)
        List.mem_cons_self
    · rw [(mem_createCalls hc).2.2] at hmoved
      cases hmoved
    · exact (List.nodup_cons.mp htree).1 (mem_numbers_of_touched hc (.inr hmoved))
    · exact hfree c (List.mem_append_right _ hc) _ (Call.mem_elements_of_moved hmoved)
        List.mem_cons_self
  only := fun _ => mem_buildCalls

/-- The calls that build the elements of a compiled document at the place where it is mounted. -/
def mountCalls (c : Compiled) : List Call := buildCalls 0 (c.root.children.numbered 1)

/-! ## 3. Calls on any host -/

namespace Host

variable {m : Type → Type} [Monad m] {η : Type}

/-- Does a call on a host, given the handles of the numbers so far; the result has those after it.
    A number without a handle makes the call do nothing. -/
def perform (host : Host m η) (handles : List (Nat × η)) : Call → m (List (Nat × η))
  | .mountPoint => do
    let _ ← host.mountPoint
    return handles
  | .insertStylesheet css => do
    host.insertStylesheet css
    return handles
  | .createElement n tag => do return (n, ← host.createElement tag) :: handles
  | .setAttribute n name value => do
    if let some element := handles.lookup n then host.setAttribute element name value
    return handles
  | .setText n text => do
    if let some element := handles.lookup n then host.setText element text
    return handles
  | .appendChild parent child => do
    if let (some p, some element) := (handles.lookup parent, handles.lookup child) then
      host.appendChild p element
    return handles

/-- Builds a numbered forest and keeps the handles of its elements, latest first. -/
def buildKept (host : Host m η) (parent : η) : (f : Forest (Nat × Element)) →
    m { handles : List (Nat × η) // ∀ n ∉ f.numbers, handles.lookup n = none }
  | .nil => return ⟨[], fun _ _ => rfl⟩
  | .node x cs ss => do
    let element ← host.create x.2
    let inner ← buildKept host element cs
    host.appendChild parent element
    let after ← buildKept host parent ss
    return ⟨after.1 ++ (inner.1 ++ [(x.1, element)]), fun n hn => by
      rw [Forest.numbers_node, List.mem_cons, List.mem_append, not_or, not_or] at hn
      rw [List.lookup_append, List.lookup_append, after.2 n hn.2.2, inner.2 n hn.2.1]
      simp [List.lookup_cons, beq_false_of_ne hn.1]⟩

section Lawful

variable [LawfulMonad m] (host : Host m η)

theorem foldlM_attributes {n : Nat} {element : η} {handles : List (Nat × η)}
    (h : handles.lookup n = some element) (as : List (Text × Text)) :
    (as.map fun a => Call.setAttribute n a.1 a.2).foldlM host.perform handles = do
      as.forM fun a => host.setAttribute element a.1 a.2
      return handles := by
  induction as with
  | nil => simp
  | cons a as ih => simp [perform, h, ih]

/-- The calls that make an element make it on the host, and its number gets the handle. -/
theorem foldlM_createCalls (n : Nat) (e : Element) (handles : List (Nat × η)) :
    (createCalls n e).foldlM host.perform handles =
      do return (n, ← host.create e) :: handles := by
  have hlookup : ∀ element, ((n, element) :: handles).lookup n = some element :=
    fun element => List.lookup_cons_self
  rw [createCalls, List.cons_append, List.foldlM_cons]
  simp only [List.foldlM_append, foldlM_attributes host (hlookup _), perform, create, bind_assoc,
    pure_bind]
  congr 1
  funext element
  congr 1
  funext _
  split <;> simp [perform, hlookup]

/-- **The calls for a forest build it on every host**: each handle stands where the number of its
    element stands. -/
theorem foldlM_buildCalls {f : Forest (Nat × Element)} (hf : f.numbers.Nodup) {p : Nat}
    (hp : p ∉ f.numbers) {parent : η} {handles : List (Nat × η)}
    (h : handles.lookup p = some parent) :
    (buildCalls p f).foldlM host.perform handles =
      do return (← host.buildKept parent f).1 ++ handles := by
  induction f generalizing p parent handles with
  | nil => simp [buildCalls, buildKept]
  | node x cs ss ihc ihs =>
    obtain ⟨⟨hxc, _⟩, hc, hs, _⟩ := Forest.nodup_numbers_node hf
    rw [Forest.numbers_node, List.mem_cons, List.mem_append, not_or, not_or] at hp
    obtain ⟨hpx, hpc, hps⟩ := hp
    rw [buildCalls, List.append_assoc, List.foldlM_append, foldlM_createCalls]
    simp only [buildKept, bind_assoc, pure_bind]
    congr 1
    funext element
    rw [List.foldlM_append, ihc hc hxc List.lookup_cons_self]
    simp only [bind_assoc, pure_bind, List.foldlM_cons]
    congr 1
    funext inner
    -- the children have taken neither the number of the parent nor that of the element
    have hparent : (inner.1 ++ (x.1, element) :: handles).lookup p = some parent := by
      rw [List.lookup_append, inner.2 p hpc]
      simpa [List.lookup_cons, beq_false_of_ne hpx] using h
    have helement : (inner.1 ++ (x.1, element) :: handles).lookup x.1 = some element := by
      rw [List.lookup_append, inner.2 x.1 hxc]
      simp
    simp only [perform, hparent, helement, bind_assoc, pure_bind, ihs hs hps hparent,
      List.append_assoc, List.cons_append, List.nil_append]

/-- Numbers and handles apart, the forest itself is built. -/
theorem buildKept_bind {α : Type} (parent : η) (f : Forest Element) (n : Nat) (next : m α) :
    (host.buildKept parent (f.numbered n) >>= fun _ => next) =
      (host.build parent f >>= fun _ => next) := by
  induction f generalizing parent n next with
  | nil => simp [Forest.numbered, buildKept, build]
  | node e cs ss ihc ihs =>
    simp only [Forest.numbered, buildKept, build, bind_assoc, pure_bind, ihs, ihc]

/-- **Every host gets the calls of the document**, after the question for a place to mount it and
    the stylesheet; without such a place there is no other call. -/
theorem mount_eq (c : Compiled) :
    host.mount c = do
      match ← host.mountPoint with
      | none => return .error .noMountPoint
      | some place => do
        host.insertStylesheet c.stylesheet
        let _ ← (mountCalls c).foldlM host.perform [(0, place)]
        return .ok place := by
  obtain ⟨hzero, hnodup⟩ := List.nodup_cons.mp c.root.children.nodup_numbers_numbered
  unfold mount
  congr 1
  funext found
  cases found with
  | none => rfl
  | some place =>
    simp only [mountCalls, foldlM_buildCalls host hnodup hzero List.lookup_cons_self, bind_assoc,
      pure_bind, buildKept_bind]

end Lawful

end Host

end Markup

end OutlineMarkup
