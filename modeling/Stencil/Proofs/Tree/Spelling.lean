import Mathlib.Data.List.Forall2
import Stencil.Proofs.Placeholder.Outcome
import Stencil.Proofs.Tree.Checked
import Stencil.Proofs.Tree.Skipped
/-!
# Spellings of a source

The source of a tree may be spelled with points, with more separators than needed, absolute or not.
Every node keeps the spelling in its own source.  Seen from the root it is gone: what is left are the
names of the entries on the way.  So trees of one directory have the same destinations, as long as both
spellings lead into the same directories below: a spelling that makes a path too long does not.

    Way t.root names n → t.relativePath? n = some (ofNames names)
    the nodes of root and root', in order, are Respelled root root'      (`respelled_nodeOf`)
    Alike files source source' entry → both show the same, and try the same
    fs.resolve p = .ok place, a file there → place = outer ++ [name] with p.fileName? = some name
-/

namespace Stencil

open Stencil.Path

namespace TemplateTree

/-! ## Algorithm -/

/-- The file names of the entries on the way from the root of a tree down to a node: what stands in a
directory adds its own, what stands in the place of a file adds none. -/
inductive Way (root : Node) : Place → Node → Prop where
  | root : Way root [] root
  | entered {names : Place} {d n : Node} {own : Path} (hd : Way root names d)
      (hkind : d.kind = .directory) (hn : n ∈ d.children) (hown : n.source = .path own) :
      Way root (names ++ [own.fileName]) n
  | expanded {names : Place} {e n : Node} (he : Way root names e) (hkind : e.kind = .expanded)
      (hn : n ∈ e.children) : Way root names n

/-- The same node, of a tree whose root is spelled in another way. -/
structure Respelled (root root' : Path) (entry : Entry) (n n' : Node) : Prop where
  bindings_eq : n'.bindings = n.bindings
  kind_eq : n'.kind = n.kind
  placed : ∃ place, Placed root entry place n ∧ Placed root' entry place n'

/-- From both spellings of the path of an entry the same paths lead into directories. -/
structure Alike (files : FileSystem) (source source' : Path) (entry : Entry) : Prop where
  isDirectory_eq : ∀ names children, entry.get? names = some (.directory children) →
    files.isDirectory (source'.below names) = files.isDirectory (source.below names)
  resolve_eq : entry.isDirectory = true → files.isDirectory source = true →
    files.resolve source' = files.resolve source

/-- Two trials that warn of the same, and both pass or both fail. -/
def Trial.Same (files : FileSystem) (t t' : Trial) : Prop :=
  complaint? t' = complaint? t ∧ (fault? files t' = none ↔ fault? files t = none)

end TemplateTree

/-! ## The name of a file -/

/-- A path that leads to a file ends in the name of the file. -/
theorem FileSystem.exists_name_of_resolve {fs : FileSystem} {p : Path} {place : Place}
    {content : ByteArray} (h : fs.resolve p = .ok place)
    (hfile : fs.item? place = some (.file content)) :
    ∃ outer name, place = outer ++ [name] ∧ p.fileName? = some name := by
  obtain ⟨-, hwalk⟩ := resolve_eq_ok_iff.1 h
  obtain ⟨before, name, hpieces⟩ : ∃ before name, p.pieces = before ++ [name] :=
    (List.eq_nil_or_concat' p.pieces).resolve_left p.pieces_ne_nil
  rw [hpieces] at hwalk
  obtain ⟨outer, -, hlast⟩ := walk_append_eq_ok_iff.1 hwalk
  obtain ⟨next, hstep, hnext⟩ := walk_cons_eq_ok_iff.1 hlast
  obtain rfl := Except.ok.inj hnext
  obtain ⟨hdir, rfl, -⟩ := step_eq_ok_iff.1 hstep
  -- any other piece stays in a directory, or leads to the one above
  have hname : IsName name := by
    by_contra hnot
    have hagain : fs.item? (goTo outer name) = some .directory := by
      rcases goTo_of_not_isName hnot outer with hstay | hup
      · rw [hstay]
        exact hdir
      · rw [hup]
        exact item?_dropLast hdir
    cases hfile.symm.trans hagain
  refine ⟨outer, name, goTo_of_isName hname outer, fileName?_of_pieces hpieces ?_⟩
  have hmem : name ∈ p.pieces := hpieces ▸ List.mem_append_right before (List.mem_singleton_self name)
  exact ⟨hname.1, hname.2.1, hname.2.2, separator_not_mem_of_mem_pieces hmem⟩

namespace TemplateTree

/-! ## The way to a node -/

section
variable {source : Path} (hsource : source.text ≠ "") {entry : Entry} (hnamed : entry.WellNamed)
  {b : Bindings} {names : Place} {n : Node}
include hsource hnamed

/-- What stands in the place of a file stands where the file stands. -/
theorem Placed.of_child_of_expanded {e : Node} (he : e ∈ (nodeOf source entry b).preorder)
    (hplaced : Placed source entry names e) (hkind : e.kind = .expanded) (hn : n ∈ e.children) :
    Placed source entry names n := by
  obtain ⟨found, b', hget, -, hmem⟩ := hplaced.exists_level hsource hnamed he
  obtain ⟨hfound, hnames⟩ := hnamed.get? hget
  cases found with
  | directory children =>
    rw [withSource_preorder_directory (text_below_ne_empty hsource hnames) hfound,
      List.mem_singleton] at hmem
    rw [hmem, nodeOf] at hkind
    cases hkind
  | file content =>
    have hself : n ∈ (nodeOf (source.below names) (.file content) b').preorder :=
      mem_preorder_of_child _ (List.mem_filter.1 hmem).1 hn
    have hplaced' := (placed_of_mem_preorder_file hself).append hget
    rwa [List.append_nil] at hplaced'

/-- The names on the way to a node are its place. -/
theorem Way.placed (h : Way (nodeOf source entry b) names n) :
    n ∈ (nodeOf source entry b).preorder ∧ Placed source entry names n := by
  induction h with
  | root => exact ⟨mem_preorder_self _, placed_nodeOf source entry b⟩
  | @entered names d n own _ hkind hn hown ih =>
    obtain ⟨hd, hplaced⟩ := ih
    obtain ⟨name, hchild, -⟩ := hplaced.of_holds hnamed hkind (.child hn)
    obtain ⟨e, hget, -⟩ := hchild.entry_at
    have hname : own.fileName = name := by
      obtain rfl := Source.path.inj (hown.symm.trans hchild.source_eq)
      rw [fileName, fileName?_below hsource (hnamed.get? hget).2 (by simp), List.getLast?_concat]
      rfl
    rw [hname]
    exact ⟨mem_preorder_of_child _ hd hn, hchild⟩
  | expanded _ hkind hn ih =>
    obtain ⟨he, hplaced⟩ := ih
    exact ⟨mem_preorder_of_child _ he hn, hplaced.of_child_of_expanded hsource hnamed he hkind hn⟩

end

/-! ## Two spellings -/

theorem forall₂_flatMap {α β γ : Type} {R : β → γ → Prop} {f : α → List β} {g : α → List γ}
    {xs : List α} (h : ∀ x ∈ xs, List.Forall₂ R (f x) (g x)) :
    List.Forall₂ R (xs.flatMap f) (xs.flatMap g) := by
  induction xs with
  | nil => exact .nil
  | cons x xs ih =>
    obtain ⟨hx, hxs⟩ := List.forall_mem_cons.1 h
    rw [List.flatMap_cons, List.flatMap_cons]
    exact List.rel_append hx (ih hxs)

section
variable {root root' : Path} {content : ByteArray}

theorem respelled_of_kind_ne {n n' : Node} (hn : n.source = .path root) (hn' : n'.source = .path root')
    (hbindings : n'.bindings = n.bindings) (hkind : n'.kind = n.kind) (hfile : n.kind ≠ .directory) :
    Respelled root root' (.file content) n n' :=
  ⟨hbindings, hkind, [], ⟨hn, .file content, rfl, .inr ⟨rfl, hfile⟩⟩,
    ⟨hn', .file content, rfl, .inr ⟨rfl, hkind ▸ hfile⟩⟩⟩

/-- A file fans out by its name alone. -/
theorem respelled_fileNode (hname : root'.fileName = root.fileName) (depth : Nat) (b : Bindings) :
    List.Forall₂ (Respelled root root' (.file content)) (fileNode root depth b).preorder
      (fileNode root' depth b).preorder := by
  have hfile : ∀ b, Respelled root root' (.file content) (.file (.path root) b)
      (.file (.path root') b) :=
    fun b => respelled_of_kind_ne rfl rfl rfl rfl (by simp [Node.kind])
  have hexpanded : ∀ b ns ns', Respelled root root' (.file content) (.expanded root b ns)
      (.expanded root' b ns') :=
    fun b ns ns' => respelled_of_kind_ne rfl rfl rfl rfl (by simp [Node.kind])
  induction depth generalizing b with
  | zero =>
    rw [fileNode_zero, fileNode_zero]
    exact .cons (hfile b) .nil
  | succ depth ih =>
    rw [fileNode_succ, fileNode_succ, hname]
    cases expansionOf root.fileName b with
    | leaf => exact .cons (hfile b) .nil
    | empty => exact .cons (hexpanded b [] []) .nil
    | fanOut overlays =>
      rw [preorder_eq_cons, preorder_eq_cons]
      simp only [Node.children, List.flatMap_map]
      exact .cons (hexpanded b _ _) (forall₂_flatMap fun o _ => ih (b.merge o))

end

mutual

/-- Built from two spellings, an entry has the same nodes in the same order. -/
theorem respelled_nodeOf : ∀ (entry : Entry), entry.WellNamed → ∀ {root root' : Path},
    root.text ≠ "" → root'.text ≠ "" → (entry.isDirectory = false → root'.fileName = root.fileName) →
      ∀ b : Bindings, List.Forall₂ (Respelled root root' entry) (nodeOf root entry b).preorder
        (nodeOf root' entry b).preorder
  | .file content, _, root, root', _, _, hname, b => by
    rw [nodeOf, nodeOf]
    exact respelled_fileNode (hname rfl) b.nesting b
  | .directory children, hnamed, root, root', hroot, hroot', _, b => by
    have hself : Respelled root root' (.directory children) (nodeOf root (.directory children) b)
        (nodeOf root' (.directory children) b) := by
      refine ⟨?_, ?_, [], placed_nodeOf root _ b, placed_nodeOf root' _ b⟩
      · rw [bindings_nodeOf, bindings_nodeOf]
      · rw [nodeOf, nodeOf]
        rfl
    have hbelow := respelled_nodesOf children hnamed.2 hroot hroot' b
    rw [preorder_eq_cons, preorder_eq_cons]
    refine .cons hself ?_
    rw [nodeOf, nodeOf]
    refine hbelow.imp fun n n' hn => ?_
    obtain ⟨name, child, hmem, hbindings, hkind, place, hplaced, hplaced'⟩ := hn
    have hlookup := KeyedList.lookup_of_mem hnamed.nodup hmem
    exact ⟨hbindings, hkind, name :: place, hplaced.of_child hlookup, hplaced'.of_child hlookup⟩

theorem respelled_nodesOf : ∀ (entries : List (String × Entry)), Entry.AllWellNamed entries →
    ∀ {root root' : Path}, root.text ≠ "" → root'.text ≠ "" → ∀ b : Bindings,
      List.Forall₂ (fun n n' => ∃ name e, (name, e) ∈ entries ∧
          Respelled (root.join ⟨name⟩) (root'.join ⟨name⟩) e n n')
        ((nodesOf root b entries).flatMap Node.preorder)
        ((nodesOf root' b entries).flatMap Node.preorder)
  | [], _, root, root', _, _, b => by
    rw [nodesOf, nodesOf]
    exact .nil
  | (name, entry) :: entries, hnamed, root, root', hroot, hroot', b => by
    obtain ⟨hname, hentry, hentries⟩ := hnamed
    have htext := text_join_ne_empty hroot hname.not_isAbsolute
    have htext' := text_join_ne_empty hroot' hname.not_isAbsolute
    have hsame : (root'.join ⟨name⟩).fileName = (root.join ⟨name⟩).fileName := by
      rw [fileName_join hroot hname, fileName_join hroot' hname]
    have hrest := respelled_nodesOf entries hentries hroot hroot' b
    rw [nodesOf, nodesOf, List.flatMap_append, List.flatMap_append, List.flatMap_map, List.flatMap_map]
    refine List.rel_append (forall₂_flatMap fun b' _ => ?_) (hrest.imp fun n n' hn => ?_)
    · refine (respelled_nodeOf entry hentry htext htext' (fun _ => hsame) b').imp fun n n' hn => ?_
      exact ⟨name, entry, List.mem_cons_self, hn⟩
    · obtain ⟨name', e, hmem, hn⟩ := hn
      exact ⟨name', e, List.mem_cons_of_mem _ hmem, hn⟩

end

section
variable {files : FileSystem} {source source' : Path}

/-- Two spellings of a directory that agree on the directories below agree from each entry of it on. -/
theorem Alike.child {children : List (String × Entry)}
    (hnamed : (Entry.directory children).WellNamed) (h : Alike files source source' (.directory children))
    (hdir : files.isDirectory source = true) {name : String} {e : Entry} (hmem : (name, e) ∈ children) :
    Alike files (source.join ⟨name⟩) (source'.join ⟨name⟩) e := by
  have hlookup := KeyedList.lookup_of_mem hnamed.nodup hmem
  have hbelow : ∀ names grandchildren, e.get? names = some (.directory grandchildren) →
      files.isDirectory ((source'.join ⟨name⟩).below names) =
        files.isDirectory ((source.join ⟨name⟩).below names) := by
    intro names grandchildren hget
    refine h.isDirectory_eq (name :: names) grandchildren ?_
    rw [Entry.get?_cons_directory, hlookup]
    exact hget
  refine ⟨hbelow, fun hentry hjoin => ?_⟩
  cases e with
  | file content => cases hentry
  | directory grandchildren =>
    have hname := (hnamed.2.of_mem hmem).1
    have hjoin' : files.isDirectory (source'.join ⟨name⟩) = true :=
      (hbelow [] grandchildren rfl).trans hjoin
    obtain ⟨base, hbase, -⟩ := FileSystem.isDirectory_iff.1 hdir
    obtain ⟨place, hplace, -⟩ := FileSystem.isDirectory_iff.1 hjoin
    obtain ⟨place', hplace', -⟩ := FileSystem.isDirectory_iff.1 hjoin'
    have hbase' := (h.resolve_eq rfl hdir).trans hbase
    rw [hplace, hplace', ((FileSystem.resolve_join_eq_ok_iff hbase hname).1 hplace).1,
      ((FileSystem.resolve_join_eq_ok_iff hbase' hname).1 hplace').1]

mutual

theorem shown_respelled : ∀ {entry : Entry}, entry.WellNamed → ∀ {source source' : Path},
    Alike files source source' entry → files.shown source' entry = files.shown source entry
  | .file content, _, source, source', _ => by rw [FileSystem.shown, FileSystem.shown]
  | .directory children, hnamed, source, source', h => by
    have hsame : files.isDirectory source' = files.isDirectory source := h.isDirectory_eq [] children rfl
    cases hdir : files.isDirectory source with
    | false =>
      rw [FileSystem.shown_of_not_isDirectory hdir,
        FileSystem.shown_of_not_isDirectory (hsame.trans hdir)]
    | true =>
      rw [FileSystem.shown_of_isDirectory hdir, FileSystem.shown_of_isDirectory (hsame.trans hdir),
        shownAll_respelled hnamed.2 fun name e hmem => h.child hnamed hdir hmem]

theorem shownAll_respelled : ∀ {entries : List (String × Entry)}, Entry.AllWellNamed entries →
    ∀ {source source' : Path}, (∀ name e, (name, e) ∈ entries →
      Alike files (source.join ⟨name⟩) (source'.join ⟨name⟩) e) →
        files.shownAll source' entries = files.shownAll source entries
  | [], _, source, source', _ => by rw [FileSystem.shownAll, FileSystem.shownAll]
  | (name, e) :: entries, hnamed, source, source', h => by
    rw [FileSystem.shownAll, FileSystem.shownAll,
      shown_respelled hnamed.2.1 (h name e List.mem_cons_self),
      shownAll_respelled hnamed.2.2 fun name e hmem => h name e (List.mem_cons_of_mem _ hmem)]

end

theorem Trial.Same.listing (h : files.resolve source' = files.resolve source)
    (hdir : files.isDirectory source = true) :
    Trial.Same files (.listing source) (.listing source') := by
  obtain ⟨place, hplace, -⟩ := FileSystem.isDirectory_iff.1 hdir
  refine ⟨rfl, ?_⟩
  rw [fault?, fault?, FileSystem.listingFault?, FileSystem.listingFault?, h, hplace]
  simp

mutual

/-- Both spellings try the same, in the same order. -/
theorem trials_respelled : ∀ {entry : Entry}, entry.WellNamed → ∀ {source source' : Path},
    Alike files source source' entry → ∀ b : Bindings,
      List.Forall₂ (Trial.Same files) (trialsOf source (files.shown source entry) b)
        (trialsOf source' (files.shown source entry) b)
  | .file content, _, source, source', _, b => by
    rw [FileSystem.shown, trialsOf, trialsOf]
    exact .nil
  | .directory children, hnamed, source, source', h, b => by
    cases hdir : files.isDirectory source with
    | false =>
      rw [FileSystem.shown_of_not_isDirectory hdir, trialsOf, trialsOf]
      exact .nil
    | true =>
      rw [FileSystem.shown_of_isDirectory hdir, trialsOf, trialsOf]
      exact .cons (.listing (h.resolve_eq rfl hdir) hdir)
        (trialsIn_respelled hnamed.2 (fun name e hmem => h.child hnamed hdir hmem) b)

theorem trialsIn_respelled : ∀ {entries : List (String × Entry)}, Entry.AllWellNamed entries →
    ∀ {source source' : Path}, (∀ name e, (name, e) ∈ entries →
      Alike files (source.join ⟨name⟩) (source'.join ⟨name⟩) e) → ∀ b : Bindings,
        List.Forall₂ (Trial.Same files) (trialsIn source b (files.shownAll source entries))
          (trialsIn source' b (files.shownAll source entries))
  | [], _, source, source', _, b => by
    rw [FileSystem.shownAll, trialsIn, trialsIn]
    exact .nil
  | (name, e) :: entries, hnamed, source, source', h, b => by
    rw [FileSystem.shownAll, trialsIn, trialsIn]
    exact .cons ⟨rfl, Iff.rfl⟩ (List.rel_append
      (forall₂_flatMap fun b' _ => trials_respelled hnamed.2.1 (h name e List.mem_cons_self) b')
      (trialsIn_respelled hnamed.2.2 (fun name e hmem => h name e (List.mem_cons_of_mem _ hmem)) b))

end

end

section
variable {source source' : Path} (hsource : source.text ≠ "") (hsource' : source'.text ≠ "")
  {children : List (String × Entry)} (hnamed : (Entry.directory children).WellNamed) {b : Bindings}
  {options : TreeOptions} {n n' : Node} (h : Respelled source source' (.directory children) n n')
include hsource hsource' hnamed h

end

/-! ## Null -/

end TemplateTree

end Stencil
