/-
  File:      OutlineMarkup/Proofs/Replay.lean
  Subject:   The document that the calls of mounting build.

  A host document is a forest of numbered elements: what is not put under another element is a root.
  `replay` does calls on it and stops at a call that makes no sense there. Between two calls the
  document has the place where it all goes, with the trees that are finished under it, and as
  further roots the elements whose children are still being built:

  * `replay_createCalls`: making an element adds it as the last root;
  * `replay_buildCalls`: building a forest puts it under its parent and leaves all else as it was;
  * **`mount_drives_host`**: so the calls that any host gets rebuild the forest of the document.
-/
import OutlineMarkup.Proofs.Mounting

namespace OutlineMarkup

/-! ## 1. Host documents -/

namespace Markup

/-- A host document: its numbered elements, with what they show. -/
abbrev HostDocument := Forest (Nat × Shown)

namespace HostDocument

/-- The document that has nothing but an empty place to mount another. -/
def vacant : HostDocument := .node (0, ⟨[], [], []⟩) .nil .nil

/-- Changes the element with a number, if there is one. -/
def change (d : HostDocument) (n : Nat) (g : Shown → Shown) : Option HostDocument :=
  if n ∈ d.numbers then some (d.map fun x => if x.1 = n then (x.1, g x.2) else x) else none

/-- Takes the root with a number out of a document, with all that is under it. -/
def takeRoot (n : Nat) : HostDocument → Option (Tree (Nat × Shown) × HostDocument)
  | .nil => none
  | .node x cs ss =>
    if x.1 = n then some (⟨x, cs⟩, ss) else (takeRoot n ss).map fun r => (r.1, .node x cs r.2)

/-- Puts trees under the element with a number, behind those that are there. -/
def giveChildren (n : Nat) (g : HostDocument) : HostDocument → HostDocument
  | .nil => .nil
  | .node x cs ss =>
    .node x (giveChildren n g cs ++ if x.1 = n then g else .nil) (giveChildren n g ss)

/-- Does a call on a document: an element is created once, only an element that is there is changed
    or gets children, and only a root is put under another. -/
def apply (d : HostDocument) : Call → Option HostDocument
  | .mountPoint | .insertStylesheet _ => some d
  | .createElement n tag =>
    if n ∈ d.numbers then none else some (d ++ .node (n, ⟨tag, [], []⟩) .nil .nil)
  | .setAttribute n name value =>
    change d n fun s =>
      { s with attributes := ((⟨s.attributes⟩ : Table Text Text).insert name value).entries }
  | .setText n text => change d n fun s => { s with text }
  | .appendChild parent child => do
    let (t, rest) ← takeRoot child d
    if parent ∈ rest.numbers then
      some (giveChildren parent (.node t.label t.children .nil) rest)
    else none

/-- Does calls one after the other. -/
def replay (d : HostDocument) (calls : List Call) : Option HostDocument := calls.foldlM apply d

theorem replay_append (d : HostDocument) (calls calls' : List Call) :
    replay d (calls ++ calls') = (replay d calls).bind fun d => replay d calls' :=
  List.foldlM_append

/-! ## 2. Making one element -/

section Last

variable {d : HostDocument} {n : Nat} (h : n ∉ d.numbers)
include h

/-- A change to the last root, where no other element has its number. -/
theorem change_last (s : Shown) (g : Shown → Shown) :
    change (d ++ .node (n, s) .nil .nil) n g = some (d ++ .node (n, g s) .nil .nil) := by
  have hmem : n ∈ (d ++ .node (n, s) .nil .nil).numbers := by
    rw [Forest.numbers_append]
    exact List.mem_append_right _ List.mem_cons_self
  have hrest : d.map (fun x => if x.1 = n then (x.1, g x.2) else x) = d := by
    clear hmem
    induction d with
    | nil => rfl
    | node x cs ss ihc ihs =>
      rw [Forest.numbers_node, List.mem_cons, List.mem_append, not_or, not_or] at h
      rw [Forest.map, if_neg (Ne.symm h.1), ihc h.2.1, ihs h.2.2]
  rw [change, if_pos hmem, Forest.map_append, hrest]
  simp [Forest.map]

theorem takeRoot_last (s : Shown) (cs : HostDocument) :
    takeRoot n (d ++ .node (n, s) cs .nil) = some (⟨(n, s), cs⟩, d) := by
  induction d with
  | nil => exact if_pos rfl
  | node x cs' ss _ ih =>
    rw [Forest.numbers_node, List.mem_cons, List.mem_append, not_or, not_or] at h
    show (if x.1 = n then _ else (takeRoot n (ss ++ .node (n, s) cs .nil)).map _) = _
    rw [if_neg (Ne.symm h.1), ih h.2.2]
    rfl

theorem replay_attributes (s : Shown) (as : List (Text × Text)) :
    replay (d ++ .node (n, s) .nil .nil) (as.map fun a => .setAttribute n a.1 a.2) =
      some (d ++ .node (n, { s with
        attributes := ((⟨s.attributes⟩ : Table Text Text).insertAll as).entries }) .nil .nil) := by
  induction as generalizing s with
  | nil => rfl
  | cons a as ih =>
    rw [List.map_cons, replay, List.foldlM_cons, apply, change_last h]
    exact ih _

/-- **Making an element adds it as the last root**, with all that it shows. -/
theorem replay_createCalls (e : Element) :
    replay d (createCalls n e) = some (d ++ .node (n, shown e) .nil .nil) := by
  have hcreate : apply d (.createElement n e.tag) =
      some (d ++ .node (n, ⟨e.tag, [], []⟩) .nil .nil) := if_neg h
  have hentries : ((⟨[]⟩ : Table Text Text).insertAll e.htmlAttributes.entries).entries =
      e.htmlAttributes.entries := Table.entries_insertAll _ e.nodup_htmlAttributes
  have hdressed := replay_attributes h ⟨e.tag, [], []⟩ e.htmlAttributes.entries
  rw [hentries] at hdressed
  rw [createCalls, replay_append, replay, List.foldlM_cons, hcreate]
  show ((replay _ _).bind _) = _
  rw [hdressed, Option.bind_some]
  split
  · show (apply _ _).bind _ = _
    rw [apply, change_last h]
    rfl
  · rename_i htext
    -- without a text there is nothing to show
    have hnone : e.text.getD [] = [] := by simpa [Element.hasText] using htext
    rw [shown, hnone]
    rfl

end Last

/-! ## 3. Building a forest -/

section Give

variable {n : Nat} {g : HostDocument}

theorem giveChildren_append (d d' : HostDocument) :
    giveChildren n g (d ++ d') = giveChildren n g d ++ giveChildren n g d' := by
  induction d with
  | nil => rfl
  | node x cs ss _ ih =>
    show Forest.node x _ (giveChildren n g (ss ++ d')) = Forest.node x _ _
    rw [ih]
    rfl

theorem giveChildren_of_not_mem {d : HostDocument} (h : n ∉ d.numbers) :
    giveChildren n g d = d := by
  induction d with
  | nil => rfl
  | node x cs ss ihc ihs =>
    rw [Forest.numbers_node, List.mem_cons, List.mem_append, not_or, not_or] at h
    rw [giveChildren, if_neg (Ne.symm h.1), ihc h.2.1, ihs h.2.2, Forest.append_nil]

/-- Trees given one after the other are given together, if the first do not have the number. -/
theorem giveChildren_giveChildren (h : n ∉ g.numbers) (g' d : HostDocument) :
    giveChildren n g' (giveChildren n g d) = giveChildren n (g ++ g') d := by
  induction d with
  | nil => rfl
  | node x cs ss ihc ihs =>
    simp only [giveChildren, giveChildren_append, ihc, ihs]
    split
    · rw [giveChildren_of_not_mem h, Forest.append_assoc]
    · rw [giveChildren, Forest.append_nil, Forest.append_nil]

theorem mem_numbers_giveChildren {d : HostDocument} {k : Nat} :
    k ∈ (giveChildren n g d).numbers → k ∈ d.numbers ∨ k ∈ g.numbers := by
  induction d with
  | nil => exact .inl
  | node x cs ss ihc ihs =>
    rw [giveChildren, Forest.numbers_node, Forest.numbers_node, Forest.numbers_append]
    simp only [List.mem_cons, List.mem_append]
    rintro (h | (h | h) | h)
    · exact .inl (.inl h)
    · exact (ihc h).imp_left fun h => .inr (.inl h)
    · split at h
      · exact .inr h
      · cases h
    · exact (ihs h).imp_left fun h => .inr (.inr h)

theorem numbers_subset_giveChildren (d : HostDocument) :
    d.numbers ⊆ (giveChildren n g d).numbers := by
  induction d with
  | nil => exact fun _ h => h
  | node x cs ss ihc ihs =>
    intro k
    rw [giveChildren, Forest.numbers_node, Forest.numbers_node, Forest.numbers_append]
    simp only [List.mem_cons, List.mem_append]
    rintro (h | h | h)
    · exact .inl h
    · exact .inr (.inl (.inl (ihc h)))
    · exact .inr (.inr (ihs h))

end Give

/-- What a numbered forest shows in a host document. -/
def ofForest (f : Forest (Nat × Element)) : HostDocument := f.map fun x => (x.1, shown x.2)

theorem numbers_ofForest (f : Forest (Nat × Element)) : (ofForest f).numbers = f.numbers := by
  rw [Forest.numbers, ofForest, Forest.labels_map, List.map_map]
  rfl

/-- **Building a forest puts it under its parent and changes nothing else**, in every document that
    has the parent and none of the numbers of the forest. -/
theorem replay_buildCalls {d : HostDocument} {parent : Nat} {f : Forest (Nat × Element)}
    (hp : parent ∈ d.numbers) (hf : f.numbers.Nodup) (hd : ∀ n ∈ f.numbers, n ∉ d.numbers) :
    replay d (buildCalls parent f) = some (giveChildren parent (ofForest f) d) := by
  induction f generalizing d parent with
  | nil =>
    have hnone : ∀ d : HostDocument, giveChildren parent .nil d = d := by
      intro d
      induction d with
      | nil => rfl
      | node x cs ss ihc ihs =>
        rw [giveChildren, ihc, ihs]
        split <;> rw [Forest.append_nil]
    exact congrArg some (hnone d).symm
  | node x cs ss ihc ihs =>
    obtain ⟨⟨hxc, hxs⟩, hc, hs, hdisjoint⟩ := Forest.nodup_numbers_node hf
    simp only [Forest.numbers_node, List.mem_cons, List.mem_append] at hd
    have hx : x.1 ∉ d.numbers := hd x.1 (.inl rfl)
    let made : HostDocument := d ++ .node (x.1, shown x.2) .nil .nil
    let tree : HostDocument := .node (x.1, shown x.2) (ofForest cs) .nil
    -- the element gets its children while it is the last root
    have hchildren : replay made (buildCalls x.1 cs) = some (d ++ tree) := by
      have hmade : made.numbers = d.numbers ++ [x.1] := Forest.numbers_append _ _
      rw [ihc (by rw [hmade]; exact List.mem_append_right _ List.mem_cons_self) hc ?_,
        giveChildren_append, giveChildren_of_not_mem hx]
      · simp [giveChildren, tree]
        rfl
      · intro n hn
        rw [hmade, List.mem_append, List.mem_singleton]
        rintro (h | rfl)
        · exact hd n (.inr (.inl hn)) h
        · exact hxc hn
    have hmove : apply (d ++ tree) (.appendChild parent x.1) =
        some (giveChildren parent tree d) := by
      rw [apply, takeRoot_last hx]
      exact if_pos hp
    have htree : ∀ n ∈ tree.numbers, n = x.1 ∨ n ∈ cs.numbers := by
      intro n hn
      rw [Forest.numbers_node, numbers_ofForest, List.mem_cons, List.mem_append] at hn
      exact hn.imp_right fun h => h.resolve_right List.not_mem_nil
    have hfree : ∀ n ∈ ss.numbers, n ∉ (giveChildren parent tree d).numbers := by
      intro n hn hmem
      rcases mem_numbers_giveChildren hmem with h | h
      · exact hd n (.inr (.inr hn)) h
      · rcases htree n h with rfl | h
        · exact hxs hn
        · exact hdisjoint n h hn
    have hparent : parent ∉ tree.numbers := by
      intro hmem
      rcases htree parent hmem with rfl | h
      · exact hx hp
      · exact hd parent (.inr (.inl h)) hp
    rw [buildCalls, replay_append, replay_append, replay_createCalls hx, Option.bind_some,
      hchildren, Option.bind_some, replay, List.foldlM_cons, hmove]
    show replay (giveChildren parent tree d) (buildCalls parent ss) = _
    rw [ihs (numbers_subset_giveChildren d hp) hs hfree, giveChildren_giveChildren hparent]
    rfl

end HostDocument

/-! ## 4. The recorder -/

section Recorder

variable (mountable : Bool)

theorem run_bind {α β : Type} (x : StateM Record α) (next : α → StateM Record β) (r : Record) :
    (x >>= next).run r = (next (x.run r).1).run (x.run r).2 := rfl

theorem run_attributes (n : Nat) (as : List (Text × Text)) (r : Record) :
    (as.forM fun a => (recorder mountable).setAttribute n a.1 a.2).run r =
      ((), ⟨(as.map fun a => Call.setAttribute n a.1 a.2).reverse ++ r.calls, r.created⟩) := by
  induction as generalizing r with
  | nil => rfl
  | cons a as ih =>
    show ((recorder mountable).setAttribute n a.1 a.2 >>= fun _ => as.forM _).run r = _
    rw [run_bind, ih, List.map_cons, List.reverse_cons, List.append_assoc]
    rfl

theorem run_create (e : Element) (r : Record) :
    ((recorder mountable).create e).run r =
      (r.created + 1, ⟨(createCalls (r.created + 1) e).reverse ++ r.calls, r.created + 1⟩) := by
  unfold Host.create createCalls
  rw [run_bind, run_bind, run_attributes, List.reverse_append, List.reverse_cons]
  by_cases h : e.hasText
  · simp only [h, if_true, List.append_assoc]
    rfl
  · simp only [h, if_false, List.append_assoc, Bool.false_eq_true]
    rfl

theorem run_build (parent : Nat) (f : Forest Element) (r : Record) :
    ((recorder mountable).build parent f).run r =
      ((), ⟨(buildCalls parent (f.numbered (r.created + 1))).reverse ++ r.calls,
        r.created + f.size⟩) := by
  induction f generalizing parent r with
  | nil => rfl
  | node e cs ss ihc ihs =>
    have hsize : r.created + 1 + cs.size + ss.size = r.created + (cs.size + ss.size + 1) := by omega
    have hnext : r.created + 1 + cs.size + 1 = r.created + 1 + 1 + cs.size := by omega
    rw [Host.build, run_bind, run_create, run_bind, ihc, run_bind, ihs, Forest.numbered, buildCalls,
      Forest.size_node, ← hsize, ← hnext]
    simp only [List.reverse_append, List.reverse_cons, List.append_assoc]
    rfl

end Recorder

/-- What the recorder has written down when a document is mounted. -/
theorem run_mount (c : Compiled) :
    ((recorder true).mount c).run {} = (.ok 0,
      ⟨(.mountPoint :: .insertStylesheet c.stylesheet :: mountCalls c).reverse,
        c.root.children.size⟩) ∧
    ((recorder false).mount c).run {} = (.error .noMountPoint, ⟨[.mountPoint], 0⟩) := by
  refine ⟨?_, rfl⟩
  let asked : Record := ⟨[.insertStylesheet c.stylesheet, .mountPoint], 0⟩
  have hmount : ((recorder true).mount c).run {} =
      ((recorder true).build 0 c.root.children >>= fun _ => pure (Except.ok 0)).run asked := rfl
  have hbuild : ((recorder true).build 0 c.root.children).run asked =
      ((), ⟨(mountCalls c).reverse ++ asked.calls, 0 + c.root.children.size⟩) :=
    run_build true 0 c.root.children asked
  rw [hmount, run_bind, hbuild, Nat.zero_add, List.reverse_cons, List.reverse_cons,
    List.append_assoc]
  rfl

/-! ## 5. Mounting -/

open HostDocument

/-- **Mounting drives every host alike.** Whatever its handles and effects are, a host is asked for
    the place first; without one there is a fault and no other call. Then it gets the stylesheet and
    the calls that build the forest of the document, numbered in document order (`Builds`), each
    number standing for one handle. Done on a vacant document, these calls make the forest again,
    with all that its elements show. -/
theorem mount_drives_host (c : Compiled) :
    (∀ {m : Type → Type} {η : Type} [Monad m] [LawfulMonad m] (host : Host m η),
      host.mount c = do
        match ← host.mountPoint with
        | none => return .error .noMountPoint
        | some place => do
          host.insertStylesheet c.stylesheet
          let _ ← (mountCalls c).foldlM host.perform [(0, place)]
          return .ok place) ∧
    mount c true = .ok (.mountPoint :: .insertStylesheet c.stylesheet :: mountCalls c) ∧
    ((recorder false).mount c).run {} = (.error .noMountPoint, ⟨[.mountPoint], 0⟩) ∧
    ∃ f : Forest (Nat × Element), f.map Prod.snd = c.root.children ∧
      f.numbers = List.range' 1 f.size ∧ Builds f (mountCalls c) ∧
      replay vacant (.mountPoint :: .insertStylesheet c.stylesheet :: mountCalls c) =
        some (.node (0, ⟨[], [], []⟩) (ofForest f) .nil) := by
  obtain ⟨hmounted, hrefused⟩ := run_mount c
  obtain ⟨hzero, hnodup⟩ := List.nodup_cons.mp c.root.children.nodup_numbers_numbered
  refine ⟨fun host => host.mount_eq c, ?_, hrefused, c.root.children.numbered 1,
    Forest.map_snd_numbered 1 _, ?_, builds_buildCalls hnodup hzero,
    replay_buildCalls List.mem_cons_self hnodup ?_⟩
  · unfold mount
    rw [hmounted]
    exact congrArg Except.ok (List.reverse_reverse _)
  · rw [Forest.numbers_numbered, ← Forest.size_map Prod.snd, Forest.map_snd_numbered]
  · -- the only number that a vacant document has is 0
    rintro n hn h
    obtain rfl : n = 0 := List.mem_singleton.mp h
    exact hzero hn

/-- An element is put under its parent after its own children, and before its siblings are made. -/
theorem mount_drives_host_nested :
    let list : Element := { tag := "ul", id := "menu", classes := ["a", "b"] }
    let item : Element := { tag := "li", text := some "x" }
    let c : Compiled := ⟨⟨{ tag := "div" }, .node list (.node item .nil (.node item .nil .nil))
      (.node { tag := "hr", text := some [] } .nil .nil)⟩, "body {}", []⟩
    let build : List Call :=
      [.createElement 1 "ul", .setAttribute 1 "id" "menu", .setAttribute 1 "class" "a b",
        .createElement 2 "li", .setText 2 "x", .appendChild 1 2,
        .createElement 3 "li", .setText 3 "x", .appendChild 1 3, .appendChild 0 1,
        .createElement 4 "hr", .appendChild 0 4]
    mount c true = .ok (.mountPoint :: .insertStylesheet "body {}" :: build) ∧
      (recorder true).mount c = (do
        match ← (recorder true).mountPoint with
        | none => return .error .noMountPoint
        | some place => do
          (recorder true).insertStylesheet "body {}"
          let _ ← build.foldlM (recorder true).perform [(0, place)]
          return .ok place) := by
  intro list item c build
  obtain ⟨hhost, hmount, _⟩ := mount_drives_host c
  have hbuild : mountCalls c = build := by decide
  rw [hbuild] at hhost hmount
  exact ⟨hmount, hhost (recorder true)⟩

end Markup

end OutlineMarkup
