import Stencil.Proofs.Expansion.Narrowing
import Stencil.Proofs.FileSystem.Names
import Stencil.Proofs.Path.Below
import Stencil.Tree.Build
import Stencil.Tree.Destination
/-!
# The shape of a tree

The entries of a source and the bindings alone decide the tree that can be built of it.  Each node of it
belongs to one entry.

    n ∈ (nodeOf source entry b).preorder → ∃ place, Placed source entry place n
-/

namespace Stencil

namespace TemplateTree

/-! ## Algorithm -/

mutual

/-- The node of an entry with these bindings. -/
def nodeOf (source : Path) : Entry → Bindings → Node
  | .file _, bindings => ofFile source bindings
  | .directory children, bindings => .directory source bindings (nodesOf source bindings children)

/-- The nodes of the entries of a directory. -/
def nodesOf (source : Path) (bindings : Bindings) : List (String × Entry) → List Node
  | [] => []
  | (name, entry) :: entries =>
    (variants name bindings).map (nodeOf (source.join ⟨name⟩) entry) ++
      nodesOf source bindings entries

end

/-! ## Where the nodes stand -/

theorem exists_of_kind_eq_file {n : Node} (h : n.kind = .file) : ∃ source b, n = .file source b := by
  cases n with
  | file source b => exact ⟨source, b, rfl⟩
  | directory source b children => cases h
  | expanded source b children => cases h

theorem preorderAll_eq_flatMap (ns : List Node) :
    Node.preorderAll ns = ns.flatMap Node.preorder := by
  induction ns with
  | nil => rfl
  | cons n ns ih => rw [Node.preorderAll, ih, List.flatMap_cons]

theorem preorder_eq_cons (n : Node) :
    n.preorder = n :: n.children.flatMap Node.preorder := by
  cases n <;> simp [Node.preorder, Node.children, preorderAll_eq_flatMap]

theorem preorder_of_children_eq_nil {n : Node} (h : n.children = []) : n.preorder = [n] := by
  rw [preorder_eq_cons, h, List.flatMap_nil]

theorem mem_preorder_self (n : Node) : n ∈ n.preorder := by
  rw [preorder_eq_cons]
  exact List.mem_cons_self

mutual

/-- What stands below a node of a subtree is in the subtree. -/
theorem mem_preorder_of_child : ∀ (n : Node) {e k : Node}, e ∈ n.preorder → k ∈ e.children →
    k ∈ n.preorder
  | .file source b, e, k, he, hk => by
    rw [preorder_of_children_eq_nil rfl, List.mem_singleton] at he
    subst he
    cases hk
  | .directory source b children, e, k, he, hk => by
    rw [preorder_eq_cons, List.mem_cons] at he ⊢
    rcases he with rfl | he
    · exact .inr (List.mem_flatMap.2 ⟨k, hk, mem_preorder_self k⟩)
    · exact .inr (mem_flatMap_preorder_of_child children he hk)
  | .expanded source b children, e, k, he, hk => by
    rw [preorder_eq_cons, List.mem_cons] at he ⊢
    rcases he with rfl | he
    · exact .inr (List.mem_flatMap.2 ⟨k, hk, mem_preorder_self k⟩)
    · exact .inr (mem_flatMap_preorder_of_child children he hk)

theorem mem_flatMap_preorder_of_child : ∀ (ns : List Node) {e k : Node},
    e ∈ ns.flatMap Node.preorder → k ∈ e.children → k ∈ ns.flatMap Node.preorder
  | [], e, k, he, _ => by cases he
  | n :: ns, e, k, he, hk => by
    rw [List.flatMap_cons, List.mem_append] at he ⊢
    rcases he with he | he
    · exact .inl (mem_preorder_of_child n he hk)
    · exact .inr (mem_flatMap_preorder_of_child ns he hk)

end

mutual

/-- What passes from each node to its children holds in all of a subtree. -/
theorem forall_mem_preorder {P : Node → Prop} (hchild : ∀ n, P n → ∀ c ∈ n.children, P c) :
    ∀ n : Node, P n → ∀ m ∈ n.preorder, P m
  | .file source b, h, m, hm => by
    rw [preorder_of_children_eq_nil rfl, List.mem_singleton] at hm
    subst hm
    exact h
  | .directory source b children, h, m, hm => by
    rw [preorder_eq_cons, List.mem_cons] at hm
    rcases hm with rfl | hm
    · exact h
    · exact forall_mem_flatMap_preorder hchild children (hchild _ h) m hm
  | .expanded source b children, h, m, hm => by
    rw [preorder_eq_cons, List.mem_cons] at hm
    rcases hm with rfl | hm
    · exact h
    · exact forall_mem_flatMap_preorder hchild children (hchild _ h) m hm

theorem forall_mem_flatMap_preorder {P : Node → Prop} (hchild : ∀ n, P n → ∀ c ∈ n.children, P c) :
    ∀ ns : List Node, (∀ n ∈ ns, P n) → ∀ m ∈ ns.flatMap Node.preorder, P m
  | [], _, m, hm => by cases hm
  | n :: ns, h, m, hm => by
    obtain ⟨hn, hns⟩ := List.forall_mem_cons.1 h
    rw [List.flatMap_cons, List.mem_append] at hm
    rcases hm with hm | hm
    · exact forall_mem_preorder hchild n hn m hm
    · exact forall_mem_flatMap_preorder hchild ns hns m hm

end

mutual

/-- All that stands below a node comes right behind it. -/
theorem exists_append_of_preorder_eq : ∀ (n : Node) {before after : List Node} {d : Node},
    n.preorder = before ++ d :: after → ∃ rest, d :: after = d.preorder ++ rest
  | .file source b, before, after, d, h => by
    rw [preorder_eq_cons] at h
    cases before with
    | nil =>
      obtain ⟨rfl, rfl⟩ := List.cons.inj h
      exact ⟨[], by rw [preorder_eq_cons, List.append_nil]⟩
    | cons m before => simp [Node.children] at h
  | .directory source b children, before, after, d, h => by
    rw [preorder_eq_cons] at h
    cases before with
    | nil =>
      obtain ⟨rfl, rfl⟩ := List.cons.inj h
      exact ⟨[], by rw [preorder_eq_cons, List.append_nil]⟩
    | cons m before => exact exists_append_of_flatMap_eq children (List.cons.inj h).2
  | .expanded source b children, before, after, d, h => by
    rw [preorder_eq_cons] at h
    cases before with
    | nil =>
      obtain ⟨rfl, rfl⟩ := List.cons.inj h
      exact ⟨[], by rw [preorder_eq_cons, List.append_nil]⟩
    | cons m before => exact exists_append_of_flatMap_eq children (List.cons.inj h).2

theorem exists_append_of_flatMap_eq : ∀ (ns : List Node) {before after : List Node} {d : Node},
    ns.flatMap Node.preorder = before ++ d :: after → ∃ rest, d :: after = d.preorder ++ rest
  | [], before, after, d, h => by simp at h
  | n :: ns, before, after, d, h => by
    rw [List.flatMap_cons, List.append_eq_append_iff] at h
    rcases h with ⟨before', -, h⟩ | ⟨own, hn, h⟩
    · exact exists_append_of_flatMap_eq ns h
    · cases own with
      | nil =>
        have hnext : ns.flatMap Node.preorder = [] ++ d :: after := h.symm
        exact exists_append_of_flatMap_eq ns hnext
      | cons d' own =>
        rw [h]
        rw [List.cons_append, List.cons.injEq] at h
        obtain ⟨rfl, -⟩ := h
        obtain ⟨rest, hrest⟩ := exists_append_of_preorder_eq n hn
        exact ⟨rest ++ ns.flatMap Node.preorder, by rw [hrest, List.append_assoc]⟩

end

theorem fileNode_zero (source : Path) (b : Bindings) :
    fileNode source 0 b = .file (.path source) b := rfl

attribute [local irreducible] expansionOf in
theorem fileNode_succ (source : Path) (depth : Nat) (b : Bindings) :
    fileNode source (depth + 1) b =
      match expansionOf source.fileName b with
      | .leaf => .file (.path source) b
      | .fanOut overlays =>
        .expanded source b (overlays.map fun o => fileNode source depth (b.merge o))
      | .empty => .expanded source b [] := rfl

/-- Every node of a file has the file as its source, and none is a directory. -/
theorem of_mem_preorder_fileNode {source : Path} {depth : Nat} {b : Bindings} {n : Node}
    (h : n ∈ (fileNode source depth b).preorder) : n.source = .path source ∧ n.kind ≠ .directory := by
  induction depth generalizing b with
  | zero =>
    rw [fileNode_zero, preorder_of_children_eq_nil rfl, List.mem_singleton] at h
    subst h
    exact ⟨rfl, by simp [Node.kind]⟩
  | succ depth ih =>
    rw [fileNode_succ] at h
    split at h
    · rw [preorder_of_children_eq_nil rfl, List.mem_singleton] at h
      subst h
      exact ⟨rfl, by simp [Node.kind]⟩
    · rw [preorder_eq_cons, List.mem_cons] at h
      rcases h with rfl | h
      · exact ⟨rfl, by simp [Node.kind]⟩
      · obtain ⟨child, hchild, hn⟩ := List.mem_flatMap.1 h
        obtain ⟨o, -, rfl⟩ := List.mem_map.1 hchild
        exact ih hn
    · rw [preorder_of_children_eq_nil rfl, List.mem_singleton] at h
      subst h
      exact ⟨rfl, by simp [Node.kind]⟩

theorem of_mem_preorder_ofFile {source : Path} {b : Bindings} {n : Node}
    (h : n ∈ (ofFile source b).preorder) : n.source = .path source ∧ n.kind ≠ .directory :=
  of_mem_preorder_fileNode h

/-- The nodes of entries are the nodes of each of them with each of the variants of its name. -/
theorem mem_nodesOf_iff {source : Path} {b : Bindings} {entries : List (String × Entry)} {n : Node} :
    n ∈ nodesOf source b entries ↔ ∃ name entry b', (name, entry) ∈ entries ∧
      b' ∈ variants name b ∧ n = nodeOf (source.join ⟨name⟩) entry b' := by
  induction entries with
  | nil => simp [nodesOf]
  | cons e entries ih =>
    obtain ⟨name, entry⟩ := e
    rw [nodesOf, List.mem_append, ih, List.mem_map]
    constructor
    · rintro (⟨b', hb', rfl⟩ | ⟨name', entry', b', hmem, hb', rfl⟩)
      · exact ⟨name, entry, b', List.mem_cons_self, hb', rfl⟩
      · exact ⟨name', entry', b', List.mem_cons_of_mem _ hmem, hb', rfl⟩
    · rintro ⟨name', entry', b', hmem, hb', rfl⟩
      rcases List.mem_cons.1 hmem with heq | hmem
      · obtain ⟨rfl, rfl⟩ := Prod.mk.inj heq
        exact .inl ⟨b', hb', rfl⟩
      · exact .inr ⟨name', entry', b', hmem, hb', rfl⟩

/-- A node that belongs to the entry at this place below the root: it is a directory where the entry
is one, and then holds the nodes of the entries there. -/
structure Placed (root : Path) (entry : Entry) (place : Place) (n : Node) : Prop where
  source_eq : n.source = .path (root.below place)
  entry_at : ∃ e, entry.get? place = some e ∧
    ((∃ children, e = .directory children ∧ n = .directory (root.below place) n.bindings
        (nodesOf (root.below place) n.bindings children)) ∨
      e.isDirectory = false ∧ n.kind ≠ .directory)

/-- A node with the place of a directory is the node of that directory. -/
theorem Placed.eq_nodeOf {root : Path} {entry : Entry} {place : Place} {d : Node}
    (hplaced : Placed root entry place d) {children : List (String × Entry)}
    (hget : entry.get? place = some (.directory children)) :
    d = nodeOf (root.below place) (.directory children) d.bindings := by
  obtain ⟨e, he, hentry⟩ := hplaced.entry_at
  obtain rfl : .directory children = e := Option.some.inj (hget.symm.trans he)
  rcases hentry with ⟨_, heq, hd⟩ | ⟨hfile, -⟩
  · obtain rfl := Entry.directory.inj heq
    rw [nodeOf]
    exact hd
  · cases hfile

/-- What stands below an entry of a directory. -/
theorem Placed.of_child {root : Path} {children : List (String × Entry)} {name : String}
    {child : Entry} {place : Place} {n : Node} (hlookup : children.lookup name = some child)
    (h : Placed (root.join ⟨name⟩) child place n) :
    Placed root (.directory children) (name :: place) n := by
  refine ⟨h.source_eq, ?_⟩
  rw [Entry.get?_cons_directory, hlookup]
  exact h.entry_at

/-- What stands below a place. -/
theorem Placed.append {root : Path} {entry e : Entry} {place rest : Place} {n : Node}
    (hget : entry.get? place = some e) (h : Placed (root.below place) e rest n) :
    Placed root entry (place ++ rest) n := by
  refine ⟨?_, ?_⟩
  · rw [Path.below_append]
    exact h.source_eq
  · rw [Entry.get?_append hget, Path.below_append]
    exact h.entry_at

theorem placed_of_mem_preorder_file {source : Path} {content : ByteArray} {b : Bindings} {n : Node}
    (h : n ∈ (nodeOf source (.file content) b).preorder) : Placed source (.file content) [] n := by
  rw [nodeOf] at h
  obtain ⟨hsource, hkind⟩ := of_mem_preorder_ofFile h
  exact ⟨hsource, .file content, rfl, .inr ⟨rfl, hkind⟩⟩

theorem placed_nodeOf (source : Path) (entry : Entry) (b : Bindings) :
    Placed source entry [] (nodeOf source entry b) := by
  cases entry with
  | file content => exact placed_of_mem_preorder_file (mem_preorder_self _)
  | directory children =>
    rw [nodeOf]
    exact ⟨rfl, .directory children, rfl, .inl ⟨children, rfl, rfl⟩⟩

mutual

/-- Every node of the tree has its place. -/
theorem placed_of_mem_nodeOf (root : Path) : ∀ (entry : Entry), entry.WellNamed →
    ∀ (b : Bindings) (n : Node), n ∈ (nodeOf root entry b).preorder →
      ∃ place, Placed root entry place n
  | .file content, _, b, n, hn => ⟨[], placed_of_mem_preorder_file hn⟩
  | .directory children, hnamed, b, n, hn => by
    rw [nodeOf, preorder_eq_cons, List.mem_cons] at hn
    rcases hn with rfl | hn
    · refine ⟨[], ?_⟩
      rw [← nodeOf]
      exact placed_nodeOf root (.directory children) b
    · obtain ⟨name, e, place, hmem, hplaced⟩ :=
        placed_of_mem_nodesOf root children hnamed.2 b n hn
      exact ⟨name :: place, hplaced.of_child (KeyedList.lookup_of_mem hnamed.nodup hmem)⟩

theorem placed_of_mem_nodesOf (root : Path) : ∀ (entries : List (String × Entry)),
    Entry.AllWellNamed entries → ∀ (b : Bindings) (n : Node),
      n ∈ (nodesOf root b entries).flatMap Node.preorder →
        ∃ name e place, (name, e) ∈ entries ∧ Placed (root.join ⟨name⟩) e place n
  | [], _, b, n, hn => by simp [nodesOf] at hn
  | (name, entry) :: entries, hnamed, b, n, hn => by
    rw [nodesOf, List.flatMap_append, List.mem_append] at hn
    rcases hn with hn | hn
    · obtain ⟨m, hm, hn⟩ := List.mem_flatMap.1 hn
      obtain ⟨b', -, rfl⟩ := List.mem_map.1 hm
      obtain ⟨place, hplaced⟩ :=
        placed_of_mem_nodeOf (root.join ⟨name⟩) entry hnamed.2.1 b' n hn
      exact ⟨name, entry, place, List.mem_cons_self, hplaced⟩
    · obtain ⟨name', e, place, hmem, hplaced⟩ := placed_of_mem_nodesOf root entries hnamed.2.2 b n hn
      exact ⟨name', e, place, List.mem_cons_of_mem _ hmem, hplaced⟩

end

/-! ## How the bindings go down -/

/-- Everywhere below the node the bindings of a node are narrowed by those beneath it. -/
def NarrowsDown (n : Node) : Prop :=
  ∀ m ∈ n.preorder, ∀ k ∈ m.preorder, Bindings.Narrows m.bindings k.bindings

theorem narrowsDown_of_children {n : Node}
    (h : ∀ child ∈ n.children, Bindings.Narrows n.bindings child.bindings ∧ NarrowsDown child) :
    NarrowsDown n := by
  intro m hm k hk
  rw [preorder_eq_cons, List.mem_cons] at hm
  rcases hm with rfl | hm
  · rw [preorder_eq_cons, List.mem_cons] at hk
    rcases hk with rfl | hk
    · exact .refl k.bindings
    · obtain ⟨child, hchild, hk⟩ := List.mem_flatMap.1 hk
      obtain ⟨hnarrows, hdown⟩ := h child hchild
      exact hnarrows.trans (hdown child (mem_preorder_self child) k hk)
  · obtain ⟨child, hchild, hm⟩ := List.mem_flatMap.1 hm
    exact (h child hchild).2 m hm k hk

theorem bindings_fileNode (source : Path) (depth : Nat) (b : Bindings) :
    (fileNode source depth b).bindings = b := by
  cases depth with
  | zero => rfl
  | succ depth =>
    rw [fileNode_succ]
    split <;> rfl

theorem bindings_nodeOf (source : Path) (entry : Entry) (b : Bindings) :
    (nodeOf source entry b).bindings = b := by
  cases entry with
  | file content =>
    rw [nodeOf]
    exact bindings_fileNode source b.nesting b
  | directory children =>
    rw [nodeOf]
    rfl

theorem narrowsDown_fileNode (source : Path) (depth : Nat) (b : Bindings) :
    NarrowsDown (fileNode source depth b) := by
  induction depth generalizing b with
  | zero => exact narrowsDown_of_children (by simp [fileNode_zero, Node.children])
  | succ depth ih =>
    refine narrowsDown_of_children fun child hchild => ?_
    rw [bindings_fileNode]
    rw [fileNode_succ] at hchild
    split at hchild
    · cases hchild
    · next overlays hexpansion =>
      obtain ⟨o, ho, rfl⟩ := List.mem_map.1 hchild
      have hvariant : b.merge o ∈ variants source.fileName b := by
        rw [variants, hexpansion]
        exact List.mem_map_of_mem ho
      rw [bindings_fileNode]
      exact ⟨narrows_of_mem_variants hvariant, ih (b.merge o)⟩
    · cases hchild

mutual

theorem narrowsDown_nodeOf (source : Path) : ∀ (entry : Entry) (b : Bindings),
    NarrowsDown (nodeOf source entry b)
  | .file content, b => by
    rw [nodeOf]
    exact narrowsDown_fileNode source b.nesting b
  | .directory children, b => by
    rw [nodeOf]
    exact narrowsDown_of_children fun child hchild => narrowsDown_nodesOf source children b child hchild

theorem narrowsDown_nodesOf (source : Path) : ∀ (entries : List (String × Entry)) (b : Bindings),
    ∀ n ∈ nodesOf source b entries, Bindings.Narrows b n.bindings ∧ NarrowsDown n
  | [], b, n, hn => by
    rw [nodesOf] at hn
    cases hn
  | (name, entry) :: entries, b, n, hn => by
    rw [nodesOf, List.mem_append] at hn
    rcases hn with hn | hn
    · obtain ⟨b', hb', rfl⟩ := List.mem_map.1 hn
      rw [bindings_nodeOf]
      exact ⟨narrows_of_mem_variants hb', narrowsDown_nodeOf (source.join ⟨name⟩) entry b'⟩
    · exact narrowsDown_nodesOf source entries b n hn

end

/-- A node narrows the bindings of the root of the tree, or of the subtree that it is in. -/
theorem narrows_of_mem_nodeOf {source : Path} {entry : Entry} {b : Bindings} {n : Node}
    (hn : n ∈ (nodeOf source entry b).preorder) : Bindings.Narrows b n.bindings := by
  have hdown := narrowsDown_nodeOf source entry b _ (mem_preorder_self _) n hn
  rwa [bindings_nodeOf] at hdown

end TemplateTree

end Stencil
