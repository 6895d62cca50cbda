import Stencil.Proofs.Tree.Trials
import Stencil.Tree.Arena
import Stencil.Tree.Listing
/-!
# What grows in an arena

An arena grows node by node, with numbers that are handed out as the nodes are made.  In the end it is
the listing of the tree: whatever an entry adds is the listed subtree of its node at the end, with one
more child for the parent.

    (growEntry files policy source parent entry b).run a =
      (a.graft parent) <$> ofEntry files policy source entry b
    Arena.build files source b options = (build files source b options).map (the listing of its tree)
-/

namespace Stencil

open TemplateTree

/-! ## Algorithm -/

/-- What an arena keeps of a listed node. -/
def Slot.of (l : Listed) : Slot := ⟨l.node.source, l.node.kind, l.node.bindings, l.parent, l.children⟩

/-- The slots of a subtree whose first node has this number. -/
def slotsOf (parent : Option Nat) (number : Nat) (n : Node) : List Slot :=
  (listNode parent number n).map Slot.of

namespace Arena

/-- The arena of a tree. -/
def ofTree (t : TemplateTree) : Arena := ⟨t.listing.map Slot.of⟩

/-- The slots, where the parent has got the next number as a child. -/
def linked (a : Arena) (parent : Option Nat) : List Slot :=
  match parent with
  | some parent => (a.adopt parent a.size).slots
  | none => a.slots

/-- A whole subtree at the end, as the last child of the parent. -/
def graft (a : Arena) (parent : Option Nat) (n : Node) : Arena :=
  ⟨a.linked parent ++ slotsOf parent a.size n⟩

/-- Several subtrees one after the other, as the last children of one parent. -/
def graftAll (a : Arena) (parent : Nat) (ns : List Node) : Arena :=
  ns.foldl (fun a n => a.graft (some parent) n) a

/-- The parent is there. -/
def Holds (a : Arena) (parent : Option Nat) : Prop := ∀ p, parent = some p → p < a.size

/-! ## Sizes -/

mutual

theorem length_listNode : ∀ (n : Node) (parent : Option Nat) (number : Nat),
    (listNode parent number n).length = sizeOfNode n
  | .file s b, _, _ => rfl
  | .directory p b children, _, number => by
    rw [listNode, List.length_cons, length_listAll children, sizeOfNode]
  | .expanded p b children, _, number => by
    rw [listNode, List.length_cons, length_listAll children, sizeOfNode]

theorem length_listAll : ∀ (ns : List Node) (parent first : Nat),
    (listAll parent first ns).length = sizeOfAll ns
  | [], _, _ => rfl
  | n :: ns, parent, first => by
    rw [listAll, List.length_append, length_listNode n, length_listAll ns, sizeOfAll]

end

theorem length_slotsOf (parent : Option Nat) (number : Nat) (n : Node) :
    (slotsOf parent number n).length = sizeOfNode n := by
  rw [slotsOf, List.length_map, length_listNode]

theorem length_linked (a : Arena) (parent : Option Nat) : (a.linked parent).length = a.size := by
  cases parent with
  | none => rfl
  | some p => exact List.length_modify ..

theorem size_graft (a : Arena) (parent : Option Nat) (n : Node) :
    (a.graft parent n).size = a.size + sizeOfNode n := by
  rw [size, graft, List.length_append, length_linked, length_slotsOf]

theorem size_le_graftAll (a : Arena) (parent : Nat) (ns : List Node) :
    a.size ≤ (a.graftAll parent ns).size := by
  induction ns generalizing a with
  | nil => exact Nat.le_refl _
  | cons n ns ih =>
    have hfirst := size_graft a (some parent) n
    have hrest := ih (a.graft (some parent) n)
    rw [graftAll, List.foldl_cons, ← graftAll]
    omega

/-! ## Links -/

theorem modify_length_append {α : Type} (f : α → α) (before : List α) (x : α) (after : List α) :
    (before ++ x :: after).modify before.length f = before ++ f x :: after := by
  induction before with
  | nil => rfl
  | cons y before ih => rw [List.cons_append, List.length_cons, List.modify_succ_cons, ih]; rfl

theorem modify_append_of_lt {α : Type} (f : α → α) {xs : List α} {i : Nat} (h : i < xs.length)
    (ys : List α) : (xs ++ ys).modify i f = xs.modify i f ++ ys := by
  induction xs generalizing i with
  | nil => cases h
  | cons x xs ih =>
    cases i with
    | zero => rfl
    | succ i =>
      rw [List.cons_append, List.modify_succ_cons, ih (Nat.lt_of_succ_lt_succ h),
        List.modify_succ_cons]
      rfl

theorem slots_push {a : Arena} {slot : Slot} (h : a.Holds slot.parent) :
    (a.push slot).slots = a.linked slot.parent ++ [slot] := by
  rw [push]
  cases hparent : slot.parent with
  | none => rfl
  | some p => exact modify_append_of_lt _ (h p hparent) _

theorem graftAll_cons (a : Arena) (parent : Nat) (n : Node) (ns : List Node) :
    a.graftAll parent (n :: ns) = (a.graft (some parent) n).graftAll parent ns := rfl

theorem graftAll_append (a : Arena) (parent : Nat) (ns ms : List Node) :
    a.graftAll parent (ns ++ ms) = (a.graftAll parent ns).graftAll parent ms := List.foldl_append

/-- Subtrees are put behind everything, and their numbers into one slot. -/
theorem slots_graftAll {a : Arena} {before after : List Slot} {slot : Slot}
    (h : a.slots = before ++ slot :: after) (ns : List Node) :
    (a.graftAll before.length ns).slots =
      before ++ { slot with children := slot.children ++ numbersFrom a.size ns } :: after ++
        (listAll before.length a.size ns).map Slot.of := by
  induction ns generalizing a slot after with
  | nil => simp [graftAll, h, numbersFrom, listAll]
  | cons n ns ih =>
    have hgraft : (a.graft (some before.length) n).slots =
        before ++ { slot with children := slot.children ++ [a.size] } ::
          (after ++ slotsOf (some before.length) a.size n) := by
      rw [graft, linked, adopt, h, modify_length_append, List.append_assoc, List.cons_append]
    rw [graftAll_cons, ih hgraft, size_graft, numbersFrom, listAll, List.map_append, ← slotsOf]
    simp only [List.append_assoc, List.cons_append, List.nil_append]

theorem eq_of_slots {a a' : Arena} (h : a.slots = a'.slots) : a = a' := by
  cases a
  cases a'
  exact congrArg Arena.mk h

/-- A node at the end that gets its children one after the other is in the end the listed subtree. -/
theorem graftAll_of_slots {a : Arena} {before : List Slot} {slot : Slot}
    (h : a.slots = before ++ [slot]) (hslot : slot.children = []) (ns : List Node) :
    a.graftAll before.length ns =
      ⟨before ++ { slot with children := numbersFrom (before.length + 1) ns } ::
        (listAll before.length (before.length + 1) ns).map Slot.of⟩ := by
  have hsize : a.size = before.length + 1 := by rw [size, h, List.length_append]; rfl
  refine eq_of_slots ?_
  rw [slots_graftAll h, hsize, hslot]
  simp

/-! ## Runs -/

/-- A run of several growths of one parent is the list of their subtrees put in one after the other. -/
theorem run_forM {β : Type} {number : Nat} {grow : β → Growth Unit} {node : β → Build Node} {xs : List β}
    (h : ∀ x ∈ xs, ∀ a : Arena, number < a.size →
      (grow x).run a = (fun n => ((), a.graft (some number) n)) <$> node x)
    {a : Arena} (ha : number < a.size) :
    (xs.forM grow).run a = (fun ns => ((), a.graftAll number ns)) <$> xs.mapM node := by
  induction xs generalizing a with
  | nil =>
    rw [List.mapM_nil, map_pure]
    rfl
  | cons x xs ih =>
    obtain ⟨hx, hxs⟩ := List.forall_mem_cons.1 h
    rw [List.forM_eq_forM, List.forM_cons, StateT.run_bind, hx a ha, bind_map_left, List.mapM_cons,
      map_bind]
    refine bind_congr fun n => ?_
    have hsize : number < (a.graft (some number) n).size := by
      rw [size_graft]
      omega
    rw [← List.forM_eq_forM, ih hxs hsize, map_bind, ← bind_pure_comp]
    refine bind_congr fun ns => ?_
    rw [map_pure, graftAll_cons]

/-- A new node is at the end of the arena, where its number leads. -/
theorem run_make_bind {a : Arena} {parent : Option Nat} (h : a.Holds parent) {source : Path}
    {kind : Node.Kind} {b : Bindings} (grow : Nat → Growth Unit) :
    ∃ a' : Arena, a'.slots = a.linked parent ++ [⟨.path source, kind, b, parent, []⟩] ∧
      (make source kind b parent >>= grow).run a = (grow (a.linked parent).length).run a' := by
  refine ⟨a.push ⟨.path source, kind, b, parent, []⟩, slots_push h, ?_⟩
  rw [length_linked, StateT.run_bind, make, StateT.run_modifyGet, pure_bind]

theorem slots_setKind {a : Arena} {before after : List Slot} {slot : Slot}
    (h : a.slots = before ++ slot :: after) (kind : Node.Kind) :
    (a.setKind before.length kind).slots = before ++ { slot with kind } :: after := by
  rw [setKind, h, modify_length_append]

attribute [local irreducible] expansionOf in
theorem growFile_succ (source : Path) (depth : Nat) (b : Bindings) (number : Nat) :
    growFile source (depth + 1) b number =
      match expansionOf source.fileName b with
      | .leaf => return ()
      | .fanOut overlays => do
        modify (·.setKind number .expanded)
        overlays.forM fun o => do
          let child ← make source .file (b.merge o) (some number)
          growFile source depth (b.merge o) child
      | .empty => modify (·.setKind number .expanded) := rfl

/-- A file at the end of the arena becomes the listed subtree of its node. -/
theorem run_growFile {source : Path} {depth : Nat} {b : Bindings} {parent : Option Nat} {a : Arena}
    {before : List Slot} (h : a.slots = before ++ [⟨.path source, .file, b, parent, []⟩]) :
    (growFile source depth b before.length).run a =
      pure ((), ⟨before ++ slotsOf parent before.length (fileNode source depth b)⟩) := by
  induction depth generalizing b parent a before with
  | zero =>
    have hsame : a = ⟨before ++ slotsOf parent before.length (fileNode source 0 b)⟩ := eq_of_slots h
    rw [← hsame]
    rfl
  | succ depth ih =>
    have hexpanded := slots_setKind h .expanded
    have hsize : before.length < (a.setKind before.length .expanded).size := by
      rw [size, hexpanded, List.length_append]
      exact Nat.lt_succ_self _
    rw [growFile_succ, fileNode_succ]
    cases hexpansion : expansionOf source.fileName b with
    | leaf =>
      have hsame : a = ⟨before ++ slotsOf parent before.length (.file (.path source) b)⟩ := eq_of_slots h
      dsimp only
      rw [← hsame]
      rfl
    | empty =>
      have hgrown := graftAll_of_slots hexpanded rfl []
      dsimp only
      rw [StateT.run_modify]
      exact congrArg (fun a => pure ((), a)) hgrown
    | fanOut overlays =>
      have hchild : ∀ o ∈ overlays, ∀ a' : Arena, before.length < a'.size →
          (make source .file (b.merge o) (some before.length) >>= fun child =>
            growFile source depth (b.merge o) child).run a' =
              (fun n => ((), a'.graft (some before.length) n)) <$>
                (pure (fileNode source depth (b.merge o)) : Build Node) := by
        intro o _ a' ha'
        have hholds : a'.Holds (some before.length) := fun p hp => Option.some.inj hp ▸ ha'
        obtain ⟨a'', hslots, hrun⟩ := run_make_bind hholds _
        rw [hrun, ih hslots, length_linked, map_pure]
        rfl
      dsimp only
      rw [StateT.run_bind, StateT.run_modify, pure_bind, run_forM hchild hsize, List.mapM_pure, map_pure,
        graftAll_of_slots hexpanded rfl]
      rfl

/-! ## Entries -/

section
variable {files : FileSystem} {policy : UnboundPolicy}

theorem map_fst_growEntries (source : Path) (b : Bindings) (number : Nat)
    (entries : List (String × Entry)) :
    (growEntries files policy source b number entries).map Prod.fst = entries.map Prod.fst := by
  induction entries with
  | nil => rfl
  | cons e entries ih => rw [growEntries, List.map_cons, List.map_cons, ih]

/-- A new node of a file becomes the listed subtree of the file. -/
theorem run_make_growFile {a : Arena} {parent : Option Nat} (h : a.Holds parent) (source : Path)
    (b : Bindings) :
    (make source .file b parent >>= growFile source b.nesting b).run a =
      (fun n => ((), a.graft parent n)) <$> (pure (ofFile source b) : Build Node) := by
  obtain ⟨a', hslots, hrun⟩ := run_make_bind h (growFile source b.nesting b)
  rw [hrun, run_growFile hslots, length_linked, map_pure]
  rfl

mutual

/-- An entry adds the listed subtree of its node, with the same warnings and errors. -/
theorem run_growEntry : ∀ {entry : Entry}, entry.WellNamed → ∀ {a : Arena} {parent : Option Nat},
    a.Holds parent → ∀ (source : Path) (b : Bindings),
      (growEntry files policy source parent entry b).run a =
        (fun n => ((), a.graft parent n)) <$> ofEntry files policy source entry b
  | .file content, _, a, parent, h, source, b => by
    rw [growEntry, ofEntry]
    exact run_make_growFile h source b
  | .directory children, hnamed, a, parent, h, source, b => by
    rw [growEntry, ofEntry]
    cases files.isDirectory source with
    | false => exact run_make_growFile h source b
    | true =>
      rw [if_pos rfl, if_pos rfl, inOrder_ofEntries hnamed]
      obtain ⟨a', hslots, hrun⟩ := run_make_bind h _
      have hsize : (a.linked parent).length < a'.size := by
        rw [size, hslots, List.length_append]
        exact Nat.lt_succ_self _
      have hsorted : ((growEntries files policy source b (a.linked parent).length children).map
          Prod.fst).Pairwise (· < ·) := by
        rw [map_fst_growEntries]
        exact hnamed.1
      rw [hrun, StateT.run_bind, StateT.run_monadLift, bind_assoc, map_bind]
      refine bind_congr fun _ => ?_
      rw [pure_bind, Sorted.ofList_of_pairwise hsorted, run_growEntries hnamed.2 hsize, map_bind,
        bind_assoc, ← bind_pure_comp]
      refine bind_congr fun lists => ?_
      rw [pure_bind, map_pure, graftAll_of_slots hslots rfl, graft, slotsOf, ← length_linked a parent,
        listNode]
      rfl

/-- The entries of a directory add the listed subtrees of their nodes. -/
theorem run_growEntries : ∀ {entries : List (String × Entry)}, Entry.AllWellNamed entries →
    ∀ {a : Arena} {number : Nat}, number < a.size → ∀ {source : Path} {b : Bindings},
      ((growEntries files policy source b number entries).forM Prod.snd).run a =
        (fun lists => ((), a.graftAll number lists.flatten)) <$>
          (ofEntries files policy source b entries).mapM Prod.snd
  | [], _, a, number, _, source, b => by
    rw [growEntries, ofEntries, List.mapM_nil, map_pure]
    rfl
  | (name, entry) :: entries, hnamed, a, number, h, source, b => by
    have hvariants : ∀ b' ∈ variants name b, ∀ a : Arena, number < a.size →
        (growEntry files policy (source.join ⟨name⟩) (some number) entry b').run a =
          (fun n => ((), a.graft (some number) n)) <$>
            ofEntry files policy (source.join ⟨name⟩) entry b' :=
      fun b' _ a ha => run_growEntry hnamed.2.1 (fun p hp => Option.some.inj hp ▸ ha) _ b'
    rw [growEntries, ofEntries, List.mapM_cons, List.forM_eq_forM, List.forM_cons, StateT.run_bind,
      StateT.run_bind, StateT.run_monadLift, bind_assoc, bind_assoc, bind_assoc, map_bind]
    refine bind_congr fun _ => ?_
    rw [pure_bind, run_forM hvariants h, bind_map_left, map_bind]
    refine bind_congr fun nodes => ?_
    have hsize := size_le_graftAll a number nodes
    rw [← List.forM_eq_forM, run_growEntries hnamed.2.2 (Nat.lt_of_lt_of_le h hsize), map_bind,
      ← bind_pure_comp]
    refine bind_congr fun lists => ?_
    rw [map_pure, List.flatten_cons, graftAll_append]

end

end

/-! ## Top theorem -/

/-- An arena is built exactly where a tree is, with the same warnings and errors, and it is the listing
of that tree. -/
theorem build_eq_listing (files : FileSystem) (source : Path) (b : Bindings) (options : TreeOptions) :
    Arena.build files source b options =
      (TemplateTree.build files source b options).map fun (t, warnings) => (ofTree t, warnings) := by
  rw [Arena.build, TemplateTree.build]
  cases hlookup : files.lookup source with
  | error fault => cases fault <;> rfl
  | ok entry =>
    obtain ⟨-, hnamed, -⟩ := FileSystem.of_lookup_eq_ok hlookup
    have hempty : empty.Holds none := fun p hp => by cases hp
    have hentry : (growEntry files options.unbound source none entry b).run empty =
        (fun n => ((), empty.graft none n)) <$> ofEntry files options.unbound source entry b :=
      run_growEntry hnamed hempty source b
    have hroot : (growRoot files options.unbound source entry b).run empty =
        (fun n => ((), ofTree ⟨n, options⟩)) <$> ofRoot files options.unbound source entry b := by
      rw [growRoot, ofRoot]
      cases entry.isDirectory with
      | true => exact hentry
      | false =>
        simp only [Bool.not_false, if_true]
        rw [StateT.run_bind, map_bind]
        have hcheck : (liftM (checkUnbound options.unbound source.fileName b) : Growth Unit).run empty =
            (fun u => (u, empty)) <$> checkUnbound options.unbound source.fileName b := by
          rw [← bind_pure_comp]
          exact StateT.run_monadLift ..
        rw [hcheck, bind_map_left]
        exact bind_congr fun _ => hentry
    dsimp only
    rw [hroot, bind_map_left, Build.settle, Build.settle, EStateM.run_bind, EStateM.run_bind]
    cases hrun : (ofRoot files options.unbound source entry b).run [] <;> rfl

end Arena

end Stencil
