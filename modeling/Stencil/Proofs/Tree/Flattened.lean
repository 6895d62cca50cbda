import Stencil.Proofs.Expansion.Flattening
import Stencil.Proofs.FileSystem.Places
import Stencil.Proofs.Tree.FanOut
import Stencil.Proofs.Tree.Narrowed
/-!
# Files with nested values

Wherever a name of a file still stands for something enumerable, the file expands again, all such names
at once.  It ends when nothing is left to go down into, and the files that stand in its place then carry
the combinations of the flattened values.

    Unfolds p b n ↔ n = ofFile p b: the recursion ends, and without a bound   (`unfolds_iff`)
    Flattened path b ns: combinations of the files of ns ~ flatProduct of the axes of b
-/

namespace Stencil.TemplateTree

open Bindings Expansion KeyedList

/-! ## Algorithm -/

/-- With no bound on how often its name fans out, the expansion of a file ends with this node. -/
inductive Unfolds (source : Path) : Bindings → Node → Prop where
  | leaf {b : Bindings} (h : expansionOf source.fileName b = .leaf) :
    Unfolds source b (.file (.path source) b)
  | expanded {b : Bindings} {children : List Node} (h : expansionOf source.fileName b ≠ .leaf)
    (hchildren : List.Forall₂ (Unfolds source) (variants source.fileName b) children) :
    Unfolds source b (.expanded source b children)

/-- The names that a path mentions, with their values. -/
def axesOf (path : String) (b : Bindings) : List (String × Value) :=
  axes (Placeholder.bound path b) b

/-- The nodes that are files. -/
def filesOf (ns : List Node) : List Node := ns.filter fun n => n.kind = .file

/-- What is to become of a file with this name under these bindings. -/
structure Flattened (path : String) (b : Bindings) (ns : List Node) : Prop where
  /-- The files carry the combinations of the flattened values, in some order. -/
  combinations : ((filesOf ns).map fun n => axesOf path n.bindings).Perm (flatProduct (axesOf path b))
  /-- The name of no file fans out any further. -/
  leaf : ∀ n ∈ filesOf ns, expansionOf path n.bindings = .leaf
  /-- All that stands below a node with children has the source of that node. -/
  beneath : ∀ e ∈ ns, e.kind = .expanded → ∀ m ∈ e.preorder, m.source = e.source
  /-- The names are the same, and those that the path does not mention keep their values. -/
  beside : ∀ n ∈ ns, n.bindings.keys = b.keys ∧
    ∀ name, name ∉ namesOf path → n.bindings.find? name = b.find? name

/-- Values nested no deeper than this on the axes of a path. -/
def Covers (depth : Nat) (path : String) (b : Bindings) : Prop :=
  ∀ axis ∈ axesOf path b, axis.2.nesting ≤ depth

/-! ## One expansion -/

theorem mem_choices_of_mem_product {as o : List (String × Value)} (h : o ∈ product as)
    {axis : String × Value} (haxis : axis ∈ o) : ∃ axis' ∈ as, axis.2 ∈ axis'.2.choices := by
  induction as generalizing o with
  | nil =>
    obtain rfl : o = [] := by simpa [product] using h
    cases haxis
  | cons first as ih =>
    obtain ⟨name, value⟩ := first
    rw [product, List.mem_flatMap] at h
    obtain ⟨choice, hchoice, h⟩ := h
    obtain ⟨o', ho', rfl⟩ := List.mem_map.1 h
    rcases List.mem_cons.1 haxis with rfl | haxis
    · exact ⟨(name, value), List.mem_cons_self, hchoice⟩
    · obtain ⟨axis', hmem, hchoice'⟩ := ih ho' haxis
      exact ⟨axis', List.mem_cons_of_mem _ hmem, hchoice'⟩

theorem map_axesOf_variants (path : String) (b : Bindings) :
    (variants path b).map (axesOf path) = product (axesOf path b) := by
  have hsame : ∀ b' ∈ variants path b, axesOf path b' = axes (Placeholder.bound path b) b' := by
    intro b' hb'
    rw [axesOf, bound_of_narrows (narrows_of_mem_variants hb')]
  rw [List.map_congr_left hsame, variants_eq_map_product, List.map_map]
  exact (List.map_congr_left fun o ho => axes_insertAll_of_mem_product ho).trans (List.map_id _)

/-- The variants of a path, flattened further, come to what the path itself is flattened to. -/
theorem flatMap_variants_perm (path : String) (b : Bindings) :
    ((variants path b).flatMap fun b' => flatProduct (axesOf path b')).Perm
      (flatProduct (axesOf path b)) := by
  rw [← List.flatMap_map, map_axesOf_variants]
  exact flatMap_product_perm (axesOf path b)

theorem Covers.of_mem_variants {depth : Nat} {path : String} {b b' : Bindings}
    (h : Covers (depth + 1) path b) (hb' : b' ∈ variants path b) : Covers depth path b' := by
  intro axis haxis
  have ho : axesOf path b' ∈ product (axesOf path b) := by
    rw [← map_axesOf_variants]
    exact List.mem_map_of_mem hb'
  obtain ⟨axis', hmem, hchoice⟩ := mem_choices_of_mem_product ho haxis
  have hnesting := Value.nesting_of_mem_choices hchoice
  have hdepth := h axis' hmem
  omega

theorem covers_nesting (path : String) (b : Bindings) : Covers b.nesting path b := by
  intro axis haxis
  have hv := mem_of_lookup (mem_axes_iff.1 haxis).2
  exact Value.nesting_le_nestingItems (List.mem_map_of_mem (f := Prod.snd) hv)

theorem Covers.settled {path : String} {b : Bindings} (h : Covers 0 path b) :
    ∀ axis ∈ axesOf path b, axis.2.isEnumerable = false := fun axis haxis =>
  Value.nesting_eq_zero_iff.1 (Nat.le_zero.1 (h axis haxis))

attribute [local irreducible] expansionOf in
/-- A file stays as it is if its name is settled, and else makes room for its variants. -/
theorem fileNode_cases (source : Path) (depth : Nat) (b : Bindings) :
    (∀ axis ∈ axesOf source.fileName b, axis.2.isEnumerable = false) ∧
        fileNode source (depth + 1) b = .file (.path source) b ∨
      expansionOf source.fileName b ≠ .leaf ∧
        fileNode source (depth + 1) b =
          .expanded source b ((variants source.fileName b).map (fileNode source depth)) := by
  rcases expansionOf_cases source.fileName b with ⟨hsettled, hleaf⟩ | ⟨-, hempty⟩ | hfan
  · rw [fileNode_succ, hleaf]
    exact .inl ⟨hsettled, rfl⟩
  · rw [fileNode_succ, variants, hempty]
    exact .inr ⟨(by cases ·), rfl⟩
  · rw [fileNode_succ, variants, hfan]
    simp only [List.map_map]
    exact .inr ⟨(by cases ·), rfl⟩

/-! ## The whole recursion -/

theorem filesOf_flatMap {α : Type} (f : α → List Node) (xs : List α) :
    filesOf (xs.flatMap f) = xs.flatMap fun x => filesOf (f x) := List.filter_flatMap ..

/-- A file whose name is settled is flattened as it is. -/
theorem flattened_file {source : Path} {path : String} {b : Bindings}
    (h : ∀ axis ∈ axesOf path b, axis.2.isEnumerable = false) :
    Flattened path b [.file (.path source) b] where
  combinations := by
    rw [flatProduct_of_settled h]
    exact .refl _
  leaf n hn := by
    obtain rfl := List.mem_singleton.1 (List.mem_filter.1 hn).1
    exact expansionOf_eq_leaf h
  beneath e he hkind := by
    obtain rfl := List.mem_singleton.1 he
    cases hkind
  beside n hn := by
    obtain rfl := List.mem_singleton.1 hn
    exact ⟨rfl, fun _ _ => rfl⟩

/-- Where each variant of a path is flattened, the path is. -/
theorem flattened_of_variants {path : String} {b : Bindings} {f : Bindings → List Node}
    (h : ∀ b' ∈ variants path b, Flattened path b' (f b')) :
    Flattened path b ((variants path b).flatMap f) where
  combinations := by
    rw [filesOf_flatMap, List.map_flatMap]
    exact (List.Perm.flatMap_left _ fun b' hb' => (h b' hb').combinations).trans
      (flatMap_variants_perm path b)
  leaf n hn := by
    rw [filesOf_flatMap] at hn
    obtain ⟨b', hb', hn⟩ := List.mem_flatMap.1 hn
    exact (h b' hb').leaf n hn
  beneath e he := by
    obtain ⟨b', hb', he⟩ := List.mem_flatMap.1 he
    exact (h b' hb').beneath e he
  beside n hn := by
    obtain ⟨b', hb', hn⟩ := List.mem_flatMap.1 hn
    obtain ⟨hkeys, hsame⟩ := (h b' hb').beside n hn
    have hnarrowed := narrowedBy_of_mem_variants hb'
    refine ⟨hkeys.trans hnarrowed.keys, fun name hname => (hsame name hname).trans ?_⟩
    by_contra hne
    exact hname (hnarrowed.named name hne)

/-- A node that has its children in its place adds nothing to them. -/
theorem Flattened.cons_expanded {path : String} {b : Bindings} {ns : List Node} (h : Flattened path b ns)
    {e : Node} (hkind : e.kind = .expanded) (hbindings : e.bindings = b)
    (hbeneath : ∀ m ∈ e.preorder, m.source = e.source) : Flattened path b (e :: ns) := by
  have hfiles : filesOf (e :: ns) = filesOf ns := List.filter_cons_of_neg (by simp [hkind])
  refine ⟨by rw [hfiles]; exact h.combinations, by rw [hfiles]; exact h.leaf, ?_, ?_⟩
  · exact List.forall_mem_cons.2 ⟨fun _ => hbeneath, h.beneath⟩
  · exact List.forall_mem_cons.2 ⟨by rw [hbindings]; exact ⟨rfl, fun _ _ => rfl⟩, h.beside⟩

/-- With enough room for the nesting of its values a file is flattened. -/
theorem flattened_fileNode {source : Path} {depth : Nat} {b : Bindings}
    (h : Covers depth source.fileName b) :
    Flattened source.fileName b (fileNode source depth b).preorder := by
  induction depth generalizing b with
  | zero =>
    rw [fileNode_zero, preorder_of_children_eq_nil rfl]
    exact flattened_file h.settled
  | succ depth ih =>
    have hsources : ∀ m ∈ (fileNode source (depth + 1) b).preorder, m.source = .path source :=
      fun m hm => (of_mem_preorder_fileNode hm).1
    rcases fileNode_cases source depth b with ⟨hsettled, hfile⟩ | ⟨-, hexpanded⟩
    · rw [hfile, preorder_of_children_eq_nil rfl]
      exact flattened_file hsettled
    · rw [hexpanded] at hsources ⊢
      have hbelow : Flattened source.fileName b
          ((variants source.fileName b).flatMap fun b' => (fileNode source depth b').preorder) :=
        flattened_of_variants fun b' hb' => ih (h.of_mem_variants hb')
      have hwhole := hbelow.cons_expanded (e := .expanded source b
        ((variants source.fileName b).map (fileNode source depth))) rfl rfl hsources
      rw [preorder_eq_cons]
      simp only [Node.children, List.flatMap_map]
      exact hwhole

theorem forall₂_iff_eq_map {α β : Type} {R : α → β → Prop} {f : α → β} {xs : List α} {ys : List β}
    (h : ∀ x ∈ xs, ∀ y, R x y ↔ y = f x) : List.Forall₂ R xs ys ↔ ys = xs.map f := by
  induction xs generalizing ys with
  | nil => exact List.forall₂_nil_left_iff
  | cons x xs ih =>
    obtain ⟨hx, hxs⟩ := List.forall_mem_cons.1 h
    rw [List.forall₂_cons_left_iff, List.map_cons]
    constructor
    · rintro ⟨y, ys', hy, hys, rfl⟩
      rw [(hx y).1 hy, (ih hxs).1 hys]
    · rintro rfl
      exact ⟨f x, xs.map f, (hx _).2 rfl, (ih hxs).2 rfl, rfl⟩

theorem unfolds_iff_of_leaf {source : Path} {b : Bindings} (h : expansionOf source.fileName b = .leaf)
    {n : Node} : Unfolds source b n ↔ n = .file (.path source) b := by
  constructor
  · intro hn
    cases hn with
    | leaf => rfl
    | expanded hnot => exact absurd h hnot
  · rintro rfl
    exact .leaf h

theorem unfolds_iff_of_covers {source : Path} {depth : Nat} {b : Bindings}
    (h : Covers depth source.fileName b) {n : Node} :
    Unfolds source b n ↔ n = fileNode source depth b := by
  induction depth generalizing b n with
  | zero =>
    rw [fileNode_zero]
    exact unfolds_iff_of_leaf (expansionOf_eq_leaf h.settled)
  | succ depth ih =>
    rcases fileNode_cases source depth b with ⟨hsettled, hfile⟩ | ⟨hnot, hexpanded⟩
    · rw [hfile]
      exact unfolds_iff_of_leaf (expansionOf_eq_leaf hsettled)
    · rw [hexpanded]
      have hvariants (children : List Node) :
          List.Forall₂ (Unfolds source) (variants source.fileName b) children ↔
            children = (variants source.fileName b).map (fileNode source depth) :=
        forall₂_iff_eq_map fun b' hb' n => ih (h.of_mem_variants hb')
      constructor
      · intro hn
        cases hn with
        | leaf hleaf => exact absurd hleaf hnot
        | expanded _ hchildren => rw [(hvariants _).1 hchildren]
      · rintro rfl
        exact .expanded hnot ((hvariants _).2 rfl)

/-- The recursion ends by itself, and there was room enough for it. -/
theorem unfolds_iff {source : Path} {b : Bindings} {n : Node} : Unfolds source b n ↔ n = ofFile source b :=
  unfolds_iff_of_covers (covers_nesting source.fileName b)

theorem flattened_ofFile (source : Path) (b : Bindings) :
    Flattened source.fileName b (ofFile source b).preorder :=
  flattened_fileNode (covers_nesting source.fileName b)

/-! ## Files of a tree -/

/-- The nodes of a file in a directory are those of its variants, one after the other. -/
theorem withSource_file {p : Path} (hp : p.text ≠ "") {children : List (String × Entry)}
    (hnamed : (Entry.directory children).WellNamed) (b : Bindings) {name : String}
    {content : ByteArray} (hmem : (name, .file content) ∈ children) :
    withSource (p.join ⟨name⟩) (nodeOf p (.directory children) b).preorder =
      (variants name b).flatMap fun b' => (ofFile (p.join ⟨name⟩) b').preorder := by
  have hget : (Entry.directory children).get? [name] = some (.file content) := by
    rw [Entry.get?_cons_directory, KeyedList.lookup_of_mem hnamed.nodup hmem]
    rfl
  have hnodes := withSource_nodeOf hp hnamed b hget
  rw [Path.below_cons, Path.below_nil, levels] at hnodes
  rw [hnodes, List.flatMap_assoc]
  refine List.flatMap_congr fun b' _ => ?_
  rw [levels, List.flatMap_singleton, nodeOf, withSource_preorder_ofFile]

/-! ## Top theorem -/

/-- Every file that a source shows, in a directory or by itself, is flattened: the recursion on its name
ends without a bound, and what it leaves are all nodes of the file below that directory. -/
theorem files_flattened {files : FileSystem} {source : Path} {b : Bindings} {options : TreeOptions}
    {t : TemplateTree} {warnings : List Warning} {entry : Entry}
    (hlookup : files.lookup source = .ok entry)
    (hbuild : build files source b options = .ok (t, warnings)) :
    (entry.isDirectory = false → Unfolds source b t.root ∧
      Flattened source.fileName b t.nodes ∧ ∀ n ∈ t.nodes, n.source = .path source) ∧
    ∀ place children name content,
      (files.shown source entry).get? place = some (.directory children) →
      (name, .file content) ∈ children → ∀ d ∈ withSource (source.below place) t.nodes,
        ∃ roots,
          List.Forall₂ (Unfolds ((source.below place).join ⟨name⟩)) (variants name d.bindings) roots ∧
          withSource ((source.below place).join ⟨name⟩) d.preorder = roots.flatMap Node.preorder ∧
          Flattened name d.bindings (withSource ((source.below place).join ⟨name⟩) d.preorder) := by
  obtain ⟨entry', hlookup', htext, hnamed, rfl⟩ := exists_entry_of_build hbuild
  obtain rfl : entry = entry' := Except.ok.inj (hlookup.symm.trans hlookup')
  constructor
  · intro hfile
    cases entry with
    | directory children => cases hfile
    | file content =>
      rw [nodes, FileSystem.shown, nodeOf]
      exact ⟨unfolds_iff.2 rfl, flattened_ofFile source b, fun n hn =>
        (of_mem_preorder_ofFile hn).1⟩
  · intro place children name content hget hmem d hd
    obtain ⟨hd, hsource⟩ := List.mem_filter.1 hd
    obtain ⟨place', hplaced⟩ := placed_of_mem_nodeOf source _ hnamed b d hd
    obtain ⟨hchildren, hplace⟩ := hnamed.get? hget
    obtain rfl : place = place' := by
      obtain ⟨e, he, -⟩ := hplaced.entry_at
      refine Path.below_injective htext hplace (hnamed.get? he).2 ?_
      rw [hplaced.source_eq] at hsource
      simpa using (of_decide_eq_true hsource).symm
    have hp := Path.text_below_ne_empty htext hplace
    have hname := Path.fileName_join hp (hchildren.2.of_mem hmem).1
    have hnodes := withSource_file hp hchildren d.bindings hmem
    rw [← hplaced.eq_nodeOf hget] at hnodes
    have hunfolds : ∀ b' ∈ variants name d.bindings, ∀ n,
        Unfolds ((source.below place).join ⟨name⟩) b' n ↔
          n = ofFile ((source.below place).join ⟨name⟩) b' := fun _ _ _ => unfolds_iff
    refine ⟨_, (forall₂_iff_eq_map hunfolds).2 rfl, ?_, ?_⟩
    · rw [hnodes, List.flatMap_map]
    · rw [hnodes]
      refine flattened_of_variants fun b' _ => ?_
      have hflattened := flattened_ofFile ((source.below place).join ⟨name⟩) b'
      rwa [hname] at hflattened

/-- The first name is nested to different depths, and one of its elements holds nothing. -/
def series : List (String × Entry) := [("%x%-%y%.txt", .file ⟨#[]⟩)]

def seriesFiles : FileSystem :=
  ⟨.directory [("src", .directory series)], [], .healthy, rfl, by decide +kernel⟩

def seriesBindings : Bindings :=
  .ofList [("x", .seq [.seq [.int 1, .int 2], .int 3, .seq []]), ("y", .range 4 5)]

def seriesPath : Path := (⟨"src"⟩ : Path).join ⟨"%x%-%y%.txt"⟩

theorem files_flattened_series :
    ∃ t warnings, seriesFiles.lookup ⟨"src"⟩ = .ok (.directory series) ∧
      build seriesFiles ⟨"src"⟩ seriesBindings .standard = .ok (t, warnings) ∧
      t.root ∈ withSource ⟨"src"⟩ t.nodes ∧
      ((filesOf (withSource seriesPath t.nodes)).map fun n =>
        (axesOf "%x%-%y%.txt" n.bindings).map fun axis => axis.2.pathText?).Perm
          [[some "1", some "4"], [some "1", some "5"], [some "2", some "4"], [some "2", some "5"],
            [some "3", some "4"], [some "3", some "5"]] := by
  have hresolve : seriesFiles.resolve ⟨"src"⟩ = .ok ["src"] := by decide +kernel
  have hlookup : seriesFiles.lookup ⟨"src"⟩ = .ok (.directory series) :=
    FileSystem.lookup_eq_ok_iff.2 ⟨_, hresolve, rfl⟩
  have hok : (build seriesFiles ⟨"src"⟩ seriesBindings .standard).isOk = true := by decide +kernel
  cases hbuild : build seriesFiles ⟨"src"⟩ seriesBindings .standard with
  | error e =>
    rw [hbuild] at hok
    cases hok
  | ok result =>
    obtain ⟨t, warnings⟩ := result
    obtain ⟨entry, hentry, -, -, ht⟩ := exists_entry_of_build hbuild
    obtain rfl : Entry.directory series = entry := Except.ok.inj (hlookup.symm.trans hentry)
    have hdir : seriesFiles.isDirectory ⟨"src"⟩ = true := by decide +kernel
    rw [FileSystem.shown_of_isDirectory hdir, nodeOf] at ht
    have hmem : t.root ∈ withSource ⟨"src"⟩ t.nodes := by
      refine List.mem_filter.2 ⟨mem_preorder_self t.root, ?_⟩
      rw [ht]
      rfl
    obtain ⟨roots, -, -, hflattened⟩ := (files_flattened hlookup hbuild).2 [] series
      "%x%-%y%.txt" ⟨#[]⟩ rfl List.mem_cons_self t.root hmem
    have hflat : (flatProduct (axesOf "%x%-%y%.txt" t.root.bindings)).map (fun o =>
        o.map fun axis => axis.2.pathText?) =
          [[some "1", some "4"], [some "1", some "5"], [some "2", some "4"], [some "2", some "5"],
            [some "3", some "4"], [some "3", some "5"]] := by
      rw [ht]
      decide +kernel
    refine ⟨t, warnings, hlookup, rfl, hmem, ?_⟩
    rw [← hflat]
    have hperm := hflattened.combinations.map fun o => o.map fun axis => axis.2.pathText?
    rw [List.map_map] at hperm
    exact hperm

end Stencil.TemplateTree
