import Stencil.Proofs.FileSystem.Places
import Stencil.Proofs.Text.Bytes
import Stencil.Proofs.Tree.Links
import Stencil.Proofs.Tree.Narrowed
/-!
# Walks over an arena

The way up from a node ends at the root, since each parent has a lower number than its children.  The
walk with a stack goes over a whole subtree before anything below it on the stack, so from the root it
meets the nodes in the order in which they were made.

    visit (sizeOfNode n + turns) (number :: stack) order =
      visit turns stack (order ++ the numbers of the subtree n)          (`visit_node`)
    a.climb turns number = some 0,  a.visit turns [0] [] = some (List.range a.size)
-/

namespace Stencil

open TemplateTree

namespace Arena

/-! ## The way up -/

theorem WellLinked.climb {a : Arena} (h : a.WellLinked) {turns number : Nat} (hnumber : number < a.size)
    (hturns : number < turns) : a.climb turns number = some 0 := by
  induction turns generalizing number with
  | zero => cases hturns
  | succ turns ih =>
    obtain ⟨slot, hslot⟩ : ∃ slot, a.slots[number]? = some slot :=
      ⟨_, List.getElem?_eq_getElem hnumber⟩
    rw [Arena.climb, hslot]
    dsimp only
    cases hparent : slot.parent with
    | none => rw [(h.parent_eq_none_iff hslot).1 hparent]
    | some parent =>
      have hlt := h.parent_lt hslot hparent
      exact ih (Nat.lt_trans hlt hnumber) (by omega)

/-! ## The walk with a stack -/

theorem visit_cons {a : Arena} {number : Nat} {slot : Slot} (h : a.slots[number]? = some slot)
    (turns : Nat) (stack order : List Nat) :
    a.visit (turns + 1) (number :: stack) order =
      a.visit turns (slot.children ++ stack) (order ++ [number]) := by
  rw [visit, h]

theorem visit_nil (a : Arena) (turns : Nat) (order : List Nat) : a.visit turns [] order = some order := by
  cases turns <;> rfl

theorem visit_of_children {t : TemplateTree} {number : Nat} {parent : Option Nat} {n : Node}
    (h : Stands t.root number parent n) {turns : Nat} {stack order : List Nat}
    (hchildren : (ofTree t).visit (sizeOfAll n.children + turns)
        (numbersFrom (number + 1) n.children ++ stack) (order ++ [number]) =
      (ofTree t).visit turns stack
        (order ++ [number] ++ List.range' (number + 1) (sizeOfAll n.children))) :
    (ofTree t).visit (sizeOfNode n + turns) (number :: stack) order =
      (ofTree t).visit turns stack (order ++ List.range' number (sizeOfNode n)) := by
  rw [sizeOfNode_eq, Nat.add_right_comm, visit_cons (slot_of_stands h), hchildren, List.range'_succ,
    List.append_assoc]
  rfl

mutual

/-- The whole subtree is visited before the rest of the stack. -/
theorem visit_node {t : TemplateTree} : ∀ (n : Node) {number : Nat} {parent : Option Nat},
    Stands t.root number parent n → ∀ (turns : Nat) (stack order : List Nat),
      (ofTree t).visit (sizeOfNode n + turns) (number :: stack) order =
        (ofTree t).visit turns stack (order ++ List.range' number (sizeOfNode n))
  | .file _ _, _, _, h, turns, stack, order =>
    visit_of_children h (by simp [Node.children, sizeOfAll, numbersFrom])
  | .directory _ _ children, _, _, h, turns, stack, order =>
    visit_of_children h (visit_children children h [] rfl turns stack _)
  | .expanded _ _ children, _, _, h, turns, stack, order =>
    visit_of_children h (visit_children children h [] rfl turns stack _)

theorem visit_children {t : TemplateTree} : ∀ (ns : List Node) {number : Nat} {parent : Option Nat}
    {n : Node}, Stands t.root number parent n → ∀ before, n.children = before ++ ns →
      ∀ (turns : Nat) (stack order : List Nat),
        (ofTree t).visit (sizeOfAll ns + turns)
            (numbersFrom (number + 1 + sizeOfAll before) ns ++ stack) order =
          (ofTree t).visit turns stack
            (order ++ List.range' (number + 1 + sizeOfAll before) (sizeOfAll ns))
  | [], number, parent, n, h, before, hchildren, turns, stack, order => by
    rw [sizeOfAll, Nat.zero_add, List.range'_zero, List.append_nil]
    rfl
  | c :: ns, number, parent, n, h, before, hchildren, turns, stack, order => by
    have hrest := visit_children ns h (before ++ [c]) (by rw [hchildren, List.append_assoc]; rfl) turns stack
      (order ++ List.range' (number + 1 + sizeOfAll before) (sizeOfNode c))
    rw [sizeOfAll_concat, ← Nat.add_assoc, List.append_assoc, List.range'_append_1] at hrest
    rw [sizeOfAll, Nat.add_assoc, numbersFrom, List.cons_append, visit_node c (h.child hchildren), hrest]

end

/-- From the root every node is visited, in the order of the numbers. -/
theorem visit_root (t : TemplateTree) {turns : Nat} (h : (ofTree t).size ≤ turns) :
    (ofTree t).visit turns [0] [] = some (List.range (ofTree t).size) := by
  obtain ⟨left, rfl⟩ := Nat.exists_eq_add_of_le h
  rw [size_ofTree, visit_node t.root .root, visit_nil, List.nil_append, List.range_eq_range']

end Arena

namespace TemplateTree

/-! ## Kinds and sources -/

mutual

/-- A node that is no directory belongs to a file. -/
theorem exists_ofFile : ∀ (entry : Entry) {source : Path} {b : Bindings} {n : Node},
    n ∈ (nodeOf source entry b).preorder → n.kind ≠ .directory → ∃ p b', n ∈ (ofFile p b').preorder
  | .file content, source, b, n, hn, _ => by
    rw [nodeOf] at hn
    exact ⟨source, b, hn⟩
  | .directory children, source, b, n, hn, hkind => by
    rw [nodeOf, preorder_eq_cons, List.mem_cons] at hn
    rcases hn with rfl | hn
    · exact absurd rfl hkind
    · obtain ⟨m, hm, hn⟩ := List.mem_flatMap.1 hn
      exact exists_ofFile_of_mem children hm hn hkind

theorem exists_ofFile_of_mem : ∀ (entries : List (String × Entry)) {source : Path} {b : Bindings}
    {m n : Node}, m ∈ nodesOf source b entries → n ∈ m.preorder → n.kind ≠ .directory →
      ∃ p b', n ∈ (ofFile p b').preorder
  | [], source, b, m, n, hm, _, _ => by
    rw [nodesOf] at hm
    cases hm
  | (name, entry) :: entries, source, b, m, n, hm, hn, hkind => by
    rw [nodesOf, List.mem_append] at hm
    rcases hm with hm | hm
    · obtain ⟨b', -, rfl⟩ := List.mem_map.1 hm
      exact exists_ofFile entry hn hkind
    · exact exists_ofFile_of_mem entries hm hn hkind

end

/-- The children of a node that is no directory have its source, and are no directories either. -/
theorem of_mem_children {source : Path} {entry : Entry} {b : Bindings} {n c : Node}
    (hn : n ∈ (nodeOf source entry b).preorder) (hkind : n.kind ≠ .directory) (hc : c ∈ n.children) :
    c.source = n.source ∧ c.kind ≠ .directory := by
  obtain ⟨p, b', hmem⟩ := exists_ofFile entry hn hkind
  obtain ⟨hsource, hnot⟩ := of_mem_preorder_ofFile (mem_preorder_of_child _ hmem hc)
  exact ⟨hsource.trans (of_mem_preorder_ofFile hmem).1.symm, hnot⟩

/-- The names of the entries of a directory, once for each of their nodes. -/
def childNames (b : Bindings) (entries : List (String × Entry)) : List String :=
  entries.flatMap fun e => (variants e.1 b).map fun _ => e.1

theorem childNames_cons (b : Bindings) (e : String × Entry) (entries : List (String × Entry)) :
    childNames b (e :: entries) = ((variants e.1 b).map fun _ => e.1) ++ childNames b entries :=
  List.flatMap_cons

theorem map_source_nodesOf (p : Path) (b : Bindings) (entries : List (String × Entry)) :
    (nodesOf p b entries).map Node.source =
      (childNames b entries).map fun name => .path (p.join ⟨name⟩) := by
  induction entries with
  | nil => rfl
  | cons e entries ih =>
    obtain ⟨name, entry⟩ := e
    rw [nodesOf, List.map_append, ih, childNames_cons, List.map_append, List.map_map, List.map_map]
    refine congrArg (· ++ _) (List.map_congr_left fun b' _ => ?_)
    exact source_nodeOf _ entry b'

theorem mem_childNames {b : Bindings} {entries : List (String × Entry)} {name : String}
    (h : name ∈ childNames b entries) : name ∈ entries.map Prod.fst := by
  obtain ⟨e, he, h⟩ := List.mem_flatMap.1 h
  obtain ⟨b', -, rfl⟩ := List.mem_map.1 h
  exact List.mem_map_of_mem he

/-- In a sorted directory the names come in the order of their bytes. -/
theorem pairwise_childNames {entries : List (String × Entry)}
    (h : (entries.map Prod.fst).Pairwise (· < ·)) (b : Bindings) :
    (childNames b entries).Pairwise fun x y => Text.bytes x ≤ Text.bytes y := by
  induction entries with
  | nil => exact .nil
  | cons e entries ih =>
    rw [List.map_cons, List.pairwise_cons] at h
    obtain ⟨hfirst, hrest⟩ := h
    rw [childNames_cons, List.pairwise_append]
    refine ⟨?_, ih hrest, fun x hx y hy => ?_⟩
    · exact List.pairwise_map.2 (List.pairwise_of_forall fun _ _ => List.le_refl _)
    · obtain ⟨b', -, rfl⟩ := List.mem_map.1 hx
      exact List.le_of_lt (Text.bytes_lt (hfirst y (mem_childNames hy)))

end TemplateTree

namespace Arena

/-- The slots of the children of a node are those of the nodes below it. -/
theorem map_source_children {t : TemplateTree} {number : Nat} {parent : Option Nat} {n : Node}
    (h : Stands t.root number parent n) (ns : List Node) : ∀ before, n.children = before ++ ns →
      (numbersFrom (number + 1 + sizeOfAll before) ns).map
          (fun child => (ofTree t).slots[child]?.map Slot.source) = (ns.map Node.source).map some := by
  induction ns with
  | nil => exact fun _ _ => rfl
  | cons c ns ih =>
    intro before hchildren
    have hrest := ih (before ++ [c]) (by rw [hchildren, List.append_assoc]; rfl)
    rw [sizeOfAll_concat, ← Nat.add_assoc] at hrest
    rw [numbersFrom, List.map_cons, hrest, slot_of_stands (h.child hchildren)]
    rfl

/-- What the children of a node come from, for each kind of node. -/
structure WellSourced (a : Arena) (source : Path) (entry : Entry) (slot : Slot) : Prop where
  file : slot.kind = .file → slot.children = []
  expanded : slot.kind = .expanded → ∀ child ∈ slot.children, ∃ slot', a.slots[child]? = some slot' ∧
    slot'.source = slot.source ∧ (slot'.kind = .file ∨ slot'.kind = .expanded)
  directory : slot.kind = .directory → ∃ place entries, ∃ names : List String,
    entry.get? place = some (.directory entries) ∧ slot.source = .path (source.below place) ∧
      (slot.children.map fun child => a.slots[child]?.map Slot.source) =
        names.map (fun name => some (.path ((source.below place).join ⟨name⟩))) ∧
      (∀ name ∈ names, name ∈ entries.map Prod.fst) ∧
      names.Pairwise fun x y => Text.bytes x ≤ Text.bytes y

theorem wellSourced_of_slot {source : Path} {entry : Entry} (hnamed : entry.WellNamed) {b : Bindings}
    {options : TreeOptions} {number : Nat} {slot : Slot}
    (h : (ofTree ⟨nodeOf source entry b, options⟩).slots[number]? = some slot) :
    (ofTree ⟨nodeOf source entry b, options⟩).WellSourced source entry slot := by
  obtain ⟨parent, n, hn, rfl⟩ := exists_stands_of_slot h
  constructor
  case file =>
    intro hkind
    cases n with
    | file => rfl
    | directory | expanded => cases hkind
  case expanded =>
    intro hkind child hchild
    obtain ⟨c, hmem, hc⟩ := hn.exists_child hchild
    have hnot : n.kind ≠ .directory := fun h => by cases hkind.symm.trans h
    obtain ⟨hsource, hdirectory⟩ := of_mem_children hn.mem_preorder hnot hmem
    refine ⟨_, slot_of_stands hc, hsource, ?_⟩
    dsimp only
    cases h : c.kind with
    | directory => exact absurd h hdirectory
    | file => exact .inl rfl
    | expanded => exact .inr rfl
  case directory =>
    intro hkind
    obtain ⟨place, hplaced⟩ := placed_of_mem_nodeOf source entry hnamed b n hn.mem_preorder
    obtain ⟨e, hget, ⟨entries, rfl, hnode⟩ | ⟨-, hnot⟩⟩ := hplaced.entry_at
    · have hchildren : n.children = nodesOf (source.below place) n.bindings entries :=
        congrArg Node.children hnode
      have hsources := map_source_children hn n.children [] rfl
      rw [sizeOfAll, Nat.add_zero, hchildren, map_source_nodesOf, List.map_map, ← hchildren] at hsources
      exact ⟨place, entries, childNames n.bindings entries, hget, hplaced.source_eq, hsources,
        fun name hname => mem_childNames hname,
        pairwise_childNames (hnamed.get? hget).1.1 n.bindings⟩
    · exact absurd hkind hnot

/-- The entries that are shown are entries of the source. -/
theorem WellSourced.of_shown {a : Arena} {files : FileSystem} {source : Path} {entry : Entry}
    {slot : Slot} (h : a.WellSourced source (files.shown source entry) slot) :
    a.WellSourced source entry slot := by
  refine ⟨h.file, h.expanded, fun hkind => ?_⟩
  obtain ⟨place, shown, names, hget, hsource, hchildren, hnames, hsorted⟩ := h.directory hkind
  obtain ⟨children, hchild, rfl⟩ := FileSystem.exists_directory_of_shown hget
  rw [FileSystem.map_fst_shownAll] at hnames
  exact ⟨place, children, names, hchild, hsource, hchildren, hnames, hsorted⟩

/-! ## Top theorem -/

/-- The arena of a built tree is one tree.  Files are its leaves; what stands in place of a file has the
source of that file, and what stands in a directory has entries of the directory as sources, in the order
of the bytes of their names.  The way up from every node ends at node 0, and the walk with a stack ends
with all numbers in their order. -/
theorem build_wellLinked {files : FileSystem} {source : Path} {b : Bindings} {options : TreeOptions}
    {a : Arena} {warnings : List Warning} {entry : Entry}
    (hlookup : files.lookup source = .ok entry)
    (hbuild : Arena.build files source b options = .ok (a, warnings)) :
    a.WellLinked ∧
    (∀ (number : Nat) (slot : Slot), a.slots[number]? = some slot → a.WellSourced source entry slot) ∧
    (∀ number < a.size, a.rootOf? number = some 0 ∧
      ∀ turns, number < turns → a.climb turns number = some 0) ∧
    a.preorder? = some (List.range a.size) ∧
    ∀ turns, a.size ≤ turns → a.visit turns [0] [] = some (List.range a.size) := by
  rw [build_eq_listing] at hbuild
  cases htree : TemplateTree.build files source b options with
  | error e =>
    rw [htree] at hbuild
    cases hbuild
  | ok result =>
    obtain ⟨t, ws⟩ := result
    rw [htree] at hbuild
    obtain ⟨rfl, rfl⟩ := Prod.mk.inj (Except.ok.inj hbuild)
    obtain ⟨entry', hlookup', -, hnamed, rfl⟩ := exists_entry_of_build htree
    obtain rfl : entry = entry' := Except.ok.inj (hlookup.symm.trans hlookup')
    have hlinked := wellLinked_ofTree ⟨nodeOf source (files.shown source entry) b, options⟩
    refine ⟨hlinked, fun number slot hslot => (wellSourced_of_slot hnamed hslot).of_shown, ?_,
      visit_root _ (Nat.le_refl _), fun turns => visit_root _⟩
    exact fun number hnumber =>
      ⟨hlinked.climb hnumber hnumber, fun turns => hlinked.climb hnumber⟩

/-- A directory that comes twice, each time with a file in it, and a file with two variants, the first
of which has variants of its own. -/
def chapters : List (String × Entry) :=
  [("%chapter%", .directory [("notes.txt", .file ⟨#[]⟩)]), ("%page%.txt", .file ⟨#[]⟩)]

def chaptersFiles : FileSystem :=
  ⟨.directory [("src", .directory chapters)], [], .healthy, rfl, by decide +kernel⟩

def chaptersBindings : Bindings :=
  .ofList [("chapter", .seq [.int 1, .int 2]), ("page", .seq [.range 3 4, .int 5])]

theorem build_wellLinked_chapters :
    ∃ a warnings, chaptersFiles.lookup ⟨"src"⟩ = .ok (.directory chapters) ∧
      Arena.build chaptersFiles ⟨"src"⟩ chaptersBindings .standard = .ok (a, warnings) ∧
      a.slots.map Slot.children = [[1, 3, 5, 8], [2], [], [4], [], [6, 7], [], [], []] ∧
      a.WellLinked ∧ a.rootOf? 8 = some 0 ∧ a.preorder? = some (List.range 9) := by
  have hresolve : chaptersFiles.resolve ⟨"src"⟩ = .ok ["src"] := by decide +kernel
  have hlookup : chaptersFiles.lookup ⟨"src"⟩ = .ok (.directory chapters) :=
    FileSystem.lookup_eq_ok_iff.2 ⟨_, hresolve, rfl⟩
  have hslots : (Arena.build chaptersFiles ⟨"src"⟩ chaptersBindings .standard).toOption.map
      (fun result => result.1.slots.map Slot.children) =
        some [[1, 3, 5, 8], [2], [], [4], [], [6, 7], [], [], []] := by decide +kernel
  cases hbuild : Arena.build chaptersFiles ⟨"src"⟩ chaptersBindings .standard with
  | error e =>
    rw [hbuild] at hslots
    cases hslots
  | ok result =>
    obtain ⟨a, warnings⟩ := result
    rw [hbuild] at hslots
    have hchildren : a.slots.map Slot.children = _ := Option.some.inj hslots
    have hsize : a.size = 9 := by simpa [size] using congrArg List.length hchildren
    obtain ⟨hlinked, -, hup, hpreorder, -⟩ := build_wellLinked hlookup hbuild
    rw [hsize] at hup hpreorder
    exact ⟨a, warnings, hlookup, rfl, hchildren, hlinked, (hup 8 (by decide)).1, hpreorder⟩

end Arena

end Stencil
