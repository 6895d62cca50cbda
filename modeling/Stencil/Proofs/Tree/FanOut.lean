import Stencil.Proofs.Tree.Trials
/-!
# Fanning out level by level

Every name on the way to an entry is expanded by itself, with the bindings that the names above it
left.  Where no value is nested in another, they come together to the expansion of the whole path at
once, in the same order.

    the nodes at a place are those of its entry, for each b' in levels place b   (`withSource_nodeOf`)
    b.Flat → levels place b = narrowings (names on the way) b
    files.Shows source place ↔ the entry at the place has been reached at all
-/

namespace Stencil.TemplateTree

open Bindings

/-! ## The names on the way -/

theorem namesOf_intercalate (place : Place) :
    namesOf ("/".intercalate place) = place.flatMap namesOf := by
  induction place with
  | nil => rfl
  | cons name place ih =>
    cases place with
    | nil => simp
    | cons next place =>
      have hcut : "/".intercalate (name :: next :: place) =
          name ++ "/" ++ "/".intercalate (next :: place) := by
        apply String.toList_inj.1
        simp [List.append_assoc]
      rw [hcut, namesOf_append_separator, ih]
      rfl

/-! ## The nodes of one entry -/

/-- The bindings that a way down leads to, expanded name by name. -/
def levels : Place → Bindings → List Bindings
  | [], b => [b]
  | name :: place, b => (variants name b).flatMap (levels place)

/-- The nodes with this source, in their order. -/
def withSource (p : Path) (ns : List Node) : List Node := ns.filter fun n => n.source = .path p

theorem withSource_append (p : Path) (ns ms : List Node) :
    withSource p (ns ++ ms) = withSource p ns ++ withSource p ms := List.filter_append ..

theorem withSource_flatMap {α : Type} (p : Path) (f : α → List Node) (xs : List α) :
    withSource p (xs.flatMap f) = xs.flatMap fun x => withSource p (f x) := List.filter_flatMap ..

theorem withSource_eq_nil {p : Path} {ns : List Node} (h : ∀ n ∈ ns, n.source ≠ .path p) :
    withSource p ns = [] := by
  rw [withSource, List.filter_eq_nil_iff]
  intro n hn
  simpa using h n hn

theorem withSource_cons_of_ne {p : Path} {n : Node} (h : n.source ≠ .path p) (ns : List Node) :
    withSource p (n :: ns) = withSource p ns := List.filter_cons_of_neg (by simpa using h)

theorem withSource_cons_self {p : Path} {n : Node} (h : n.source = .path p) (ns : List Node) :
    withSource p (n :: ns) = n :: withSource p ns := List.filter_cons_of_pos (by simpa using h)

/-- Below one name of a directory no node has a source that lies elsewhere. -/
theorem Placed.source_ne {p : Path} (hp : p.text ≠ "") {name : String} (hname : Path.Ordinary name)
    {e : Entry} (he : e.WellNamed) {place : Place} {n : Node} (h : Placed (p.join ⟨name⟩) e place n)
    {way : Place} (hway : ∀ name ∈ way, Path.Ordinary name) (hne : way.head? ≠ some name) :
    n.source ≠ .path (p.below way) := by
  intro hsource
  obtain ⟨e', hget, -⟩ := h.entry_at
  have hplace := (he.get? hget).2
  rw [h.source_eq, ← Path.below_cons] at hsource
  have heq : name :: place = way :=
    Path.below_injective hp (List.forall_mem_cons.2 ⟨hname, hplace⟩) hway (Source.path.inj hsource)
  apply hne
  rw [← heq, List.head?_cons]

section
variable {p : Path} (hp : p.text ≠ "")
include hp

/-- Of the entries of a directory only the one with the first name on the way has nodes there. -/
theorem withSource_nodesOf {children : List (String × Entry)} (hnodup : (children.map Prod.fst).Nodup)
    (hnamed : Entry.AllWellNamed children) {name : String} {child : Entry}
    (hmem : (name, child) ∈ children) {place : Place} (hplace : ∀ n ∈ place, Path.Ordinary n)
    (b : Bindings) :
    withSource (p.below (name :: place)) ((nodesOf p b children).flatMap Node.preorder) =
      (variants name b).flatMap fun b' =>
        withSource (p.below (name :: place)) (nodeOf (p.join ⟨name⟩) child b').preorder := by
  have hname := (hnamed.of_mem hmem).1
  have hway : ∀ n ∈ name :: place, Path.Ordinary n := List.forall_mem_cons.2 ⟨hname, hplace⟩
  induction children with
  | nil => cases hmem
  | cons e' children ih =>
    obtain ⟨name', e'⟩ := e'
    rw [List.map_cons, List.nodup_cons] at hnodup
    rw [nodesOf, List.flatMap_append, withSource_append]
    rcases List.mem_cons.1 hmem with heq | htail
    · obtain ⟨rfl, rfl⟩ := Prod.mk.inj heq
      have hrest : withSource (p.below (name :: place))
          ((nodesOf p b children).flatMap Node.preorder) = [] := by
        refine withSource_eq_nil fun n hn => ?_
        obtain ⟨name', e', place', hmem', hplaced⟩ :=
          placed_of_mem_nodesOf p children hnamed.2.2 b n hn
        obtain ⟨hname', he'⟩ := hnamed.2.2.of_mem hmem'
        refine hplaced.source_ne hp hname' he' hway ?_
        intro hhead
        obtain rfl := Option.some.inj hhead
        exact hnodup.1 (List.mem_map.2 ⟨(name, e'), hmem', rfl⟩)
      rw [hrest, List.append_nil, List.flatMap_map, withSource_flatMap]
    · have hne : (name :: place).head? ≠ some name' := by
        intro hhead
        obtain rfl := Option.some.inj hhead
        exact hnodup.1 (List.mem_map.2 ⟨(name, child), htail, rfl⟩)
      have hfirst : withSource (p.below (name :: place))
          (((variants name' b).map (nodeOf (p.join ⟨name'⟩) e')).flatMap Node.preorder) = [] := by
        refine withSource_eq_nil fun n hn => ?_
        obtain ⟨m, hm, hn⟩ := List.mem_flatMap.1 hn
        obtain ⟨b', -, rfl⟩ := List.mem_map.1 hm
        obtain ⟨place', hplaced⟩ :=
          placed_of_mem_nodeOf (p.join ⟨name'⟩) e' hnamed.2.1 b' n hn
        exact hplaced.source_ne hp hnamed.1 hnamed.2.1 hway hne
      rw [hfirst, List.nil_append]
      exact ih hnodup.2 hnamed.2.2 htail

/-- The node of a directory is the only one with the directory as its source. -/
theorem withSource_preorder_directory {children : List (String × Entry)}
    (hnamed : (Entry.directory children).WellNamed) (b : Bindings) :
    withSource p (nodeOf p (.directory children) b).preorder = [nodeOf p (.directory children) b] := by
  have hbelow : withSource p ((nodesOf p b children).flatMap Node.preorder) = [] := by
    refine withSource_eq_nil fun n hn => ?_
    obtain ⟨name, e, place, hmem, hplaced⟩ := placed_of_mem_nodesOf p children hnamed.2 b n hn
    obtain ⟨hname, he⟩ := hnamed.2.of_mem hmem
    have hway : ∀ name ∈ ([] : Place), Path.Ordinary name := by simp
    exact hplaced.source_ne hp hname he hway (by simp)
  rw [nodeOf, preorder_eq_cons, withSource_cons_self rfl]
  simp only [Node.children, hbelow]

/-- The nodes at a place are those of the entry there, with the bindings that the way leads to. -/
theorem withSource_nodeOf {entry : Entry} (hnamed : entry.WellNamed) (b : Bindings) {place : Place}
    {e : Entry} (hplace : entry.get? place = some e) :
    withSource (p.below place) (nodeOf p entry b).preorder =
      (levels place b).flatMap fun b' =>
        withSource (p.below place) (nodeOf (p.below place) e b').preorder := by
  induction place generalizing p entry b with
  | nil =>
    obtain rfl := Option.some.inj hplace
    rw [levels, List.flatMap_singleton, Path.below_nil]
  | cons name place ih =>
    cases entry with
    | file content => cases hplace
    | directory children =>
      have hway := (hnamed.get? hplace).2
      rw [Entry.get?_cons_directory, Option.bind_eq_some_iff] at hplace
      obtain ⟨child, hlookup, hplace⟩ := hplace
      have hmem := KeyedList.mem_of_lookup hlookup
      obtain ⟨hname, hchild⟩ := hnamed.2.of_mem hmem
      -- the directory itself stands elsewhere
      have hself : (nodeOf p (.directory children) b).source ≠ .path (p.below (name :: place)) := by
        rw [nodeOf]
        intro hsource
        have heq : [] = name :: place :=
          Path.below_injective hp (by simp) hway (Source.path.inj hsource)
        cases heq
      have htext := Path.text_join_ne_empty (b := ⟨name⟩) hp hname.not_isAbsolute
      rw [preorder_eq_cons, withSource_cons_of_ne hself, nodeOf]
      simp only [Node.children]
      rw [withSource_nodesOf hp hnamed.nodup hnamed.2 hmem (List.forall_mem_cons.1 hway).2 b, levels,
        List.flatMap_assoc]
      exact List.flatMap_congr fun b' _ => ih htext hchild b' hplace

/-- A node at a place is made of the entry there, with bindings that the way leads to. -/
theorem Placed.exists_level {entry : Entry} (hnamed : entry.WellNamed) {b : Bindings} {n : Node}
    (hn : n ∈ (nodeOf p entry b).preorder) {place : Place} (hplaced : Placed p entry place n) :
    ∃ e b', entry.get? place = some e ∧ b' ∈ levels place b ∧
      n ∈ withSource (p.below place) (nodeOf (p.below place) e b').preorder := by
  obtain ⟨e, hget, -⟩ := hplaced.entry_at
  have hsource : n ∈ withSource (p.below place) (nodeOf p entry b).preorder :=
    List.mem_filter.2 ⟨hn, by simpa using hplaced.source_eq⟩
  rw [withSource_nodeOf hp hnamed b hget] at hsource
  obtain ⟨b', hb', hnode⟩ := List.mem_flatMap.1 hsource
  exact ⟨e, b', hget, hb', hnode⟩

end

/-- All nodes of a file have the file as their source. -/
theorem withSource_preorder_ofFile (source : Path) (b : Bindings) :
    withSource source (ofFile source b).preorder = (ofFile source b).preorder := by
  refine List.filter_eq_self.2 fun n hn => ?_
  rw [(of_mem_preorder_ofFile hn).1]
  simp

/-- Where the name of a file is settled, the file has one node. -/
theorem ofFile_of_settled {p : Path} {b : Bindings}
    (h : ∀ name ∈ namesOf p.fileName, b.Settled name) : ofFile p b = .file (.path p) b := by
  rw [ofFile]
  cases b.nesting with
  | zero => rfl
  | succ depth => rw [fileNode_succ, expansionOf_of_settled h]

/-- Flat bindings are narrowed on the way by all its names. -/
theorem levels_eq_narrowings {b : Bindings} (hflat : b.Flat) (place : Place) :
    levels place b = narrowings (place.flatMap namesOf) b := by
  induction place generalizing b with
  | nil => rfl
  | cons name place ih =>
    rw [levels, List.flatMap_cons, narrowings_append, variants_eq_narrowings hflat]
    exact List.flatMap_congr fun b' hb' => ih (hflat.of_mem_narrowings hb').1

/-- The nodes at a place have the bindings narrowed by the names on the way. -/
theorem map_bindings_withSource {p : Path} (hp : p.text ≠ "") {entry : Entry}
    (hnamed : entry.WellNamed) {b : Bindings} (hflat : b.Flat)
    (hfile : entry.isDirectory = false → ∀ name ∈ namesOf p.fileName, b.Settled name)
    {place : Place} {e : Entry} (hplace : entry.get? place = some e) :
    (withSource (p.below place) (nodeOf p entry b).preorder).map Node.bindings =
      narrowings (place.flatMap namesOf) b := by
  have hway := (hnamed.get? hplace).2
  have hone : ∀ b' ∈ narrowings (place.flatMap namesOf) b,
      (withSource (p.below place) (nodeOf (p.below place) e b').preorder).map Node.bindings = [b'] := by
    intro b' hb'
    cases e with
    | directory children =>
      rw [withSource_preorder_directory (Path.text_below_ne_empty hp hway) (hnamed.get? hplace).1,
        List.map_singleton, bindings_nodeOf]
    | file content =>
      have hsettled : ∀ name ∈ namesOf (p.below place).fileName, b'.Settled name := by
        rcases List.eq_nil_or_concat' place with rfl | ⟨init, own, rfl⟩
        · obtain rfl := Option.some.inj hplace
          obtain rfl : b' = b := by simpa [narrowings] using hb'
          exact hfile rfl
        · have hname := Path.fileName?_below hp hway (by simp)
          rw [Path.fileName, hname, List.getLast?_concat]
          intro name hmem
          exact (hflat.of_mem_narrowings hb').2 name
            (List.mem_flatMap.2 ⟨own, List.mem_append_right init List.mem_cons_self, hmem⟩)
      rw [nodeOf, withSource_preorder_ofFile, ofFile_of_settled hsettled,
        preorder_of_children_eq_nil rfl]
      rfl
  rw [withSource_nodeOf hp hnamed b hplace, levels_eq_narrowings hflat, List.map_flatMap,
    List.flatMap_congr hone]
  exact List.flatMap_singleton' _

/-! ## What is not reached -/

/-- Nothing is built of an entry to which the way does not show. -/
theorem withSource_of_not_shows {files : FileSystem} {source : Path} (hsource : source.text ≠ "")
    {entry : Entry} (hnamed : entry.WellNamed) {place : Place}
    (hplace : ∀ name ∈ place, Path.Ordinary name) (hnot : ¬ files.Shows source place) (b : Bindings) :
    withSource (source.below place) (nodeOf source (files.shown source entry) b).preorder = [] := by
  refine withSource_eq_nil fun n hn heq => hnot ?_
  obtain ⟨place', hplaced⟩ :=
    placed_of_mem_nodeOf source _ (FileSystem.wellNamed_shown source hnamed) b n hn
  obtain ⟨e', hget, -⟩ := hplaced.entry_at
  obtain ⟨hshows, e, he, -⟩ := FileSystem.get?_shown_eq_some_iff.1 hget
  rw [hplaced.source_eq] at heq
  obtain rfl : place' = place :=
    Path.below_injective hsource (hnamed.get? he).2 hplace (Source.path.inj heq)
  exact hshows

/-! ## Top theorem -/

/-- The nodes of an entry that is shown carry the bindings that the expansion of its whole path gives, in
the same order; there are as many as the enumerable values on the path multiply to, and no name on the
path fans out again at or below them.  An entry is shown if each directory on the way is one as its path
is spelled, which it is unless the path or a name is too long; of other entries there are no nodes. -/
theorem fanOut_eq_expansion {files : FileSystem} {source : Path} {b : Bindings}
    {options : TreeOptions} {t : TemplateTree} {warnings : List Warning}
    {children : List (String × Entry)} {place : Place} {e : Entry} (hflat : b.Flat)
    (hsource : files.lookup source = .ok (.directory children))
    (hbuild : build files source b options = .ok (t, warnings))
    (hplace : Entry.get? place (.directory children) = some e) :
    (files.Shows source place →
      (withSource (source.below place) t.nodes).map Node.bindings =
          (match Expansion.of (Placeholder.bound ("/".intercalate place) b) b with
            | .leaf => [b]
            | .fanOut overlays => overlays.map b.merge
            | .empty => []) ∧
        (withSource (source.below place) t.nodes).length =
          (((Expansion.axes (Placeholder.bound ("/".intercalate place) b) b).filter
            fun axis => axis.2.isEnumerable).map
              fun axis => axis.2.choices.length).foldr (· * ·) 1 ∧
        ∀ n ∈ withSource (source.below place) t.nodes,
          ∀ p ∈ Placeholder.bound ("/".intercalate place) b, ∃ v,
            n.bindings.find? p.name = some v ∧ v.isEnumerable = false ∧
              ∀ m ∈ n.preorder, m.bindings.find? p.name = some v) ∧
    (¬ files.Shows source place → withSource (source.below place) t.nodes = []) ∧
    (FileSystem.pathFault? (source.below place) = none →
      (∀ name ∈ place, name.utf8ByteSize ≤ FileSystem.maxNameBytes) → files.Shows source place) := by
  obtain ⟨entry, hlookup, htext, -, rfl⟩ := exists_entry_of_build hbuild
  obtain rfl : Entry.directory children = entry := Except.ok.inj (hsource.symm.trans hlookup)
  obtain ⟨-, hnamed, -⟩ := FileSystem.of_lookup_eq_ok hsource
  refine ⟨fun hshows => ?_, fun hnot => ?_, fun hfault hshort => ?_⟩
  · have hshown : (files.shown source (.directory children)).get? place =
        some (files.shown (source.below place) e) :=
      FileSystem.get?_shown_eq_some_iff.2 ⟨hshows, e, hplace, rfl⟩
    have hdir : (files.shown source (.directory children)).isDirectory = true := by
      rw [FileSystem.shown_of_lookup hsource]
      rfl
    have hbindings : (withSource (source.below place)
        (nodeOf source (files.shown source (.directory children)) b).preorder).map Node.bindings =
          variants ("/".intercalate place) b := by
      rw [map_bindings_withSource htext (FileSystem.wellNamed_shown source hnamed) hflat
        (fun hfile => by rw [hdir] at hfile; cases hfile) hshown, variants_eq_narrowings hflat,
        namesOf_intercalate]
    refine ⟨?_, ?_, fun n hn p hp => ?_⟩
    · rw [variants, expansionOf] at hbindings
      refine hbindings.trans ?_
      cases Expansion.of (Placeholder.bound ("/".intercalate place) b) b <;> rfl
    · rw [← length_variants, ← hbindings, List.length_map]
      rfl
    · rw [Placeholder.bound, List.mem_filter] at hp
      have hmem : n.bindings ∈ narrowings (namesOf ("/".intercalate place)) b := by
        rw [← variants_eq_narrowings hflat, ← hbindings]
        exact List.mem_map_of_mem hn
      have hsettled := (hflat.of_mem_narrowings hmem).2 p.name (List.mem_map_of_mem hp.1)
      have hbound : n.bindings.contains p.name = true := by
        rw [(Narrows.of_mem_narrowings hmem).contains]
        exact hp.2
      obtain ⟨v, hv⟩ := Option.isSome_iff_exists.1 hbound
      refine ⟨v, hv, hsettled v hv, fun m hm => ?_⟩
      have hdown := narrowsDown_nodeOf source (files.shown source (.directory children)) b n
        (List.mem_filter.1 hn).1 m hm
      rw [hdown.find? p.name hsettled, hv]
  · exact withSource_of_not_shows htext hnamed (hnamed.get? hplace).2 hnot b
  · obtain ⟨base, hbase, hget⟩ := FileSystem.lookup_eq_ok_iff.1 hsource
    refine FileSystem.shows_of_pathFault? hbase ?_ hfault hshort
    rw [FileSystem.item?, Entry.item?, Entry.get?_append hget, hplace]
    rfl

/-- The environment is a directory, and stands again in the name of each shard in it. -/
def shards : List (String × Entry) :=
  [("%env%", .directory [("%shard%-%env%.txt", .file ⟨#[]⟩)])]

def shardFiles : FileSystem :=
  ⟨.directory [("src", .directory shards)], [], .healthy, rfl, by decide +kernel⟩

def shardBindings : Bindings :=
  .ofList [("env", .seq [.str "dev", .str "prod"]), ("shard", .range 1 2)]

theorem fanOut_eq_expansion_shards :
    ∃ t warnings, shardBindings.Flat ∧ shardFiles.lookup ⟨"src"⟩ = .ok (.directory shards) ∧
      build shardFiles ⟨"src"⟩ shardBindings .standard = .ok (t, warnings) ∧
      (((withSource ((⟨"src"⟩ : Path).below ["%env%", "%shard%-%env%.txt"]) t.nodes).map
        Node.bindings).map fun b => b.entries.map fun e => (e.1, e.2.pathText?)) =
          [[("env", some "dev"), ("shard", some "1")], [("env", some "dev"), ("shard", some "2")],
            [("env", some "prod"), ("shard", some "1")], [("env", some "prod"), ("shard", some "2")]] := by
  have hflat : shardBindings.Flat := by decide +kernel
  have hresolve : shardFiles.resolve ⟨"src"⟩ = .ok ["src"] := by decide +kernel
  have hlookup : shardFiles.lookup ⟨"src"⟩ = .ok (.directory shards) :=
    FileSystem.lookup_eq_ok_iff.2 ⟨["src"], hresolve, rfl⟩
  have hplace : Entry.get? ["%env%", "%shard%-%env%.txt"] (.directory shards) =
      some (.file ⟨#[]⟩) := by rfl
  have hok : (build shardFiles ⟨"src"⟩ shardBindings .standard).isOk = true := by decide +kernel
  cases hbuild : build shardFiles ⟨"src"⟩ shardBindings .standard with
  | error e =>
    rw [hbuild] at hok
    cases hok
  | ok result =>
    obtain ⟨t, warnings⟩ := result
    obtain ⟨hnodes, -, hshows⟩ := fanOut_eq_expansion hflat hlookup hbuild hplace
    refine ⟨t, warnings, hflat, hlookup, rfl, ?_⟩
    rw [(hnodes (hshows (by decide +kernel) (by decide +kernel))).1]
    decide +kernel

def vault : List (String × Entry) := [("vault", .directory [("a.txt", .file ⟨#[97]⟩)])]

def vaultFiles : FileSystem :=
  ⟨.directory [("src", .directory vault)], [], .healthy, rfl, by decide +kernel⟩

/-- The directory of the vault, with so many separators behind it. -/
def vaultSource (n : Nat) : Path := Path.slashed ⟨"src"⟩ n

section
variable {n : Nat} (hshort : 3 + n < FileSystem.maxPathBytes)
include hshort

theorem resolve_vaultSource : vaultFiles.resolve (vaultSource n) = .ok ["src"] :=
  FileSystem.resolve_slashed (by decide +kernel) rfl hshort

theorem lookup_vaultSource : vaultFiles.lookup (vaultSource n) = .ok (.directory vault) :=
  FileSystem.lookup_eq_ok_iff.2 ⟨["src"], resolve_vaultSource hshort, rfl⟩

variable (hlong : FileSystem.maxPathBytes ≤ 3 + n + 5)
include hlong

/-- No path that is short enough leads from there into the vault. -/
theorem isDirectory_vault : vaultFiles.isDirectory ((vaultSource n).join ⟨"vault"⟩) = false := by
  obtain ⟨htext, -, -⟩ := FileSystem.of_lookup_eq_ok (lookup_vaultSource hshort)
  refine FileSystem.isDirectory_of_too_long (Nat.le_trans hlong ?_)
  have hjoin := Path.utf8ByteSize_le_join htext (b := ⟨"vault"⟩) (by decide +kernel)
  rwa [vaultSource, Path.utf8ByteSize_slashed] at hjoin

theorem shown_vaultSource : vaultFiles.shown (vaultSource n) (.directory vault) =
    .directory [("vault", .file .empty)] := by
  rw [FileSystem.shown_of_lookup (lookup_vaultSource hshort), vault, FileSystem.shownAll,
    FileSystem.shownAll, FileSystem.shown_of_not_isDirectory (isDirectory_vault hshort hlong)]

/-- The source is found, and the vault is built as a file. -/
theorem build_vaultSource : ∃ warnings, build vaultFiles (vaultSource n) .empty .standard =
    .ok (⟨nodeOf (vaultSource n) (.directory [("vault", .file .empty)]) .empty, .standard⟩,
      warnings) := by
  have hlisting : vaultFiles.listingFault? (vaultSource n) = none := by
    rw [FileSystem.listingFault?, resolve_vaultSource hshort]
    rfl
  have hvariants : (variants "vault" .empty).flatMap
      (trialsOf ((vaultSource n).join ⟨"vault"⟩) (.file .empty)) = [] := by
    rw [List.flatMap_eq_nil_iff]
    exact fun b _ => rfl
  have hfault : faultIn? vaultFiles (vaultSource n) (.directory vault) .empty = none := by
    rw [faultIn?, shown_vaultSource hshort hlong, trials, trialsOf, trialsIn, trialsIn, hvariants]
    simp [Entry.isDirectory, fault?, hlisting]
  refine ⟨_, (build_literal_eq_ok_iff (lookup_vaultSource hshort)).2 ⟨?_, rfl, hfault⟩⟩
  rw [shown_vaultSource hshort hlong]
  rfl

/-- Of the file in the vault there is no node. -/
theorem withSource_vaultSource :
    withSource ((vaultSource n).below ["vault", "a.txt"])
      (nodeOf (vaultSource n) (.directory [("vault", .file .empty)]) .empty).preorder = [] := by
  obtain ⟨htext, hnamed, -⟩ := FileSystem.of_lookup_eq_ok (lookup_vaultSource hshort)
  have hnot : ¬ vaultFiles.Shows (vaultSource n) ["vault", "a.txt"] := by
    rintro ⟨-, hinside, -⟩
    rw [isDirectory_vault hshort hlong] at hinside
    cases hinside
  rw [← shown_vaultSource hshort hlong]
  exact withSource_of_not_shows htext hnamed (by decide +kernel) hnot .empty

end

/-- No path leads into the vault, so the file in it has no node, though its name expands to itself. -/
theorem not_fanOut_eq_expansion_vault :
    Bindings.Flat .empty ∧
      vaultFiles.lookup (vaultSource 4090) = .ok (.directory vault) ∧
      Entry.get? ["vault", "a.txt"] (.directory vault) = some (.file ⟨#[97]⟩) ∧
      Expansion.of (Placeholder.bound ("/".intercalate ["vault", "a.txt"]) .empty) .empty = .leaf ∧
      ∃ t warnings, build vaultFiles (vaultSource 4090) .empty .standard = .ok (t, warnings) ∧
        withSource ((vaultSource 4090).below ["vault", "a.txt"]) t.nodes = [] := by
  have hshort : 3 + 4090 < FileSystem.maxPathBytes := by decide
  have hlong : FileSystem.maxPathBytes ≤ 3 + 4090 + 5 := by decide
  have hnames : namesOf ("/".intercalate ["vault", "a.txt"]) = [] := by decide +kernel
  have hleaf : expansionOf ("/".intercalate ["vault", "a.txt"]) .empty = .leaf := by
    refine expansionOf_of_settled fun name hname => ?_
    rw [hnames] at hname
    cases hname
  obtain ⟨warnings, hbuild⟩ := build_vaultSource hshort hlong
  exact ⟨by decide +kernel, lookup_vaultSource hshort, rfl, hleaf, _, warnings, hbuild,
    withSource_vaultSource hshort hlong⟩

end Stencil.TemplateTree
