import Stencil.Proofs.Tree.Containment
import Stencil.Proofs.Tree.Flattened
/-!
# Nested values on the way

A directory goes down one level of a value for each name on the way that mentions it, and no further;
only the own name of a file goes down to the bottom.  So a value that is nested deeper than the names
mention it is still enumerable in the directory, and neither the directory nor a file in it has a
destination then.

    b' ∈ levels place b → the values of b' are descents of those of b, as many steps as mentions
    EvenlyNested depth v → (still enumerable ↔ mentions < depth)
-/

namespace Stencil.TemplateTree

open Bindings Expansion Stencil.Path

/-! ## Algorithm -/

/-- How many of the names mention a variable, each counted once. -/
def mentions (name : String) (names : List String) : Nat := names.countP fun n => name ∈ namesOf n

/-- The variable is in the own name of a file. -/
def InFileName (n : Node) (relative : Path) (name : String) : Prop :=
  n.kind = .file ∧ name ∈ namesOf (lastPiece relative)

/-! ## One name -/

/-- A name that is mentioned takes a value of its choice, any other keeps its value. -/
theorem exists_descent_of_mem_variants {path name : String} {b b' : Bindings}
    (h : b' ∈ variants path b) {v : Value} (hv : b.find? name = some v) :
    ∃ v' ∈ v.descents (mentions name [path]), b'.find? name = some v' := by
  by_cases hname : name ∈ namesOf path
  · have hmem : name ∈ distinctNames (Placeholder.bound path b) := by
      rw [distinctNames, List.mem_eraseDups, map_name_bound, List.mem_filter]
      exact ⟨hname, KeyedList.contains_of_find? hv⟩
    rw [variants_eq_distinct] at h
    obtain ⟨choice, hchoice, hb'⟩ := exists_choice_of_mem_narrowings (nodup_eraseDups _) h hmem hv
    refine ⟨choice, ?_, hb'⟩
    have hone : mentions name [path] = 1 := by simp [mentions, hname]
    rw [hone]
    exact List.mem_flatMap.2 ⟨choice, hchoice, List.mem_singleton_self choice⟩
  · have hnone : mentions name [path] = 0 := by simp [mentions, hname]
    refine ⟨v, ?_, ?_⟩
    · rw [hnone]
      exact List.mem_singleton_self v
    · by_contra hne
      exact hname ((narrowedBy_of_mem_variants h).named name fun heq => hne (heq.trans hv))

/-- In a file whose name is flattened the variables of the name have a value from the bottom. -/
theorem Flattened.exists_bottom {path name : String} {b : Bindings} {ns : List Node}
    (h : Flattened path b ns) {n : Node} (hn : n ∈ filesOf ns) (hname : name ∈ namesOf path) {v : Value}
    (hv : b.find? name = some v) : ∃ w ∈ v.flat, n.bindings.find? name = some w := by
  have hcombination : axesOf path n.bindings ∈ flatProduct (axesOf path b) :=
    h.combinations.mem_iff.1 (List.mem_map_of_mem hn)
  have haxis : (name, v) ∈ axesOf path b := mem_axes_iff.2 ⟨hname, hv⟩
  obtain ⟨w, hw, hmem⟩ := exists_of_mem_flatProduct hcombination haxis
  exact ⟨w, hw, (mem_axes_iff.1 hmem).2⟩

/-! ## The way down -/

theorem mentions_cons (name first : String) (names : List String) :
    mentions name (first :: names) = mentions name [first] + mentions name names := by
  simp only [mentions, List.countP_cons, List.countP_nil]
  omega

theorem mem_descents_add {m k : Nat} {v w u : Value} (hw : w ∈ v.descents m) (hu : u ∈ w.descents k) :
    u ∈ v.descents (m + k) := by
  induction m generalizing v with
  | zero =>
    obtain rfl := List.mem_singleton.1 hw
    rwa [Nat.zero_add]
  | succ m ih =>
    obtain ⟨choice, hchoice, hw⟩ := List.mem_flatMap.1 hw
    rw [Nat.succ_add]
    exact List.mem_flatMap.2 ⟨choice, hchoice, ih hw⟩

/-- Each mention on the way is one level down. -/
theorem exists_descent_of_mem_levels {place : Place} {name : String} {b b' : Bindings}
    (h : b' ∈ levels place b) {v : Value} (hv : b.find? name = some v) :
    ∃ v' ∈ v.descents (mentions name place), b'.find? name = some v' := by
  induction place generalizing b v with
  | nil =>
    obtain rfl := List.mem_singleton.1 h
    exact ⟨v, List.mem_singleton_self v, hv⟩
  | cons first place ih =>
    obtain ⟨b₁, hb₁, h⟩ := List.mem_flatMap.1 h
    obtain ⟨v₁, hv₁, hfind⟩ := exists_descent_of_mem_variants hb₁ hv
    obtain ⟨v', hv', hb'⟩ := ih h hfind
    refine ⟨v', ?_, hb'⟩
    rw [mentions_cons]
    exact mem_descents_add hv₁ hv'

/-- What a value has become in a node: all the way down in the own name of a file, and else as many
levels as it is mentioned. -/
def Reached (n : Node) (relative : Path) (name : String) (v v' : Value) : Prop :=
  (InFileName n relative name → v' ∈ v.flat) ∧
    (¬ InFileName n relative name → v' ∈ v.descents (mentions name relative.pieces))

theorem mem_filesOf_ofFile {source : Path} {b : Bindings} {n : Node}
    (h : n ∈ (ofFile source b).preorder) (hkind : n.kind ≠ .expanded) :
    n ∈ filesOf (ofFile source b).preorder := by
  refine List.mem_filter.2 ⟨h, ?_⟩
  have hdirectory := (of_mem_preorder_ofFile h).2
  cases hn : n.kind <;> simp_all

/-- A file goes on from where the names above it have led. -/
theorem Flattened.exists_reached {path name : String} {b : Bindings} {ns : List Node}
    (h : Flattened path b ns) {n : Node} (hn : n ∈ filesOf ns) {relative : Path}
    (hlast : lastPiece relative = path) {v w : Value} (hw : b.find? name = some w)
    (hdescent : w ∈ v.descents (mentions name relative.pieces)) :
    ∃ v', n.bindings.find? name = some v' ∧ Reached n relative name v v' := by
  obtain ⟨hmem, hkind⟩ := List.mem_filter.1 hn
  by_cases hname : name ∈ namesOf path
  · obtain ⟨u, hu, hfind⟩ := h.exists_bottom hn hname hw
    refine ⟨u, hfind, fun _ => Value.mem_flat_of_mem_descents hdescent hu, fun hnot => ?_⟩
    exact absurd ⟨of_decide_eq_true hkind, by rwa [hlast]⟩ hnot
  · refine ⟨w, ((h.beside n hmem).2 name hname).trans hw, fun hfile => ?_, fun _ => hdescent⟩
    exact absurd (hlast ▸ hfile.2) hname

theorem mentions_pieces_ofNames {place : Place} (hplace : ∀ n ∈ place, Ordinary n) (name : String) :
    mentions name (ofNames place).pieces = mentions name place := by
  by_cases hnil : place = []
  · subst hnil
    have hpieces : (ofNames []).pieces = [""] := by decide +kernel
    have hnone : namesOf "" = [] := by decide +kernel
    rw [hpieces]
    simp [mentions, hnone]
  · rw [pieces_ofNames hplace hnil]

/-- Below a directory a value goes down by the names on the way. -/
theorem exists_reached_of_directory {root : Path} (hroot : root.text ≠ "")
    {children : List (String × Entry)} (hnamed : (Entry.directory children).WellNamed) {b : Bindings}
    {n : Node} (hn : n ∈ (nodeOf root (.directory children) b).preorder) (hkind : n.kind ≠ .expanded)
    {place : Place} (hplaced : Placed root (.directory children) place n) {name : String} {v : Value}
    (hv : b.find? name = some v) :
    ∃ v', n.bindings.find? name = some v' ∧ Reached n (ofNames place) name v v' := by
  obtain ⟨e, b', hget, hb', hnode⟩ := hplaced.exists_level hroot hnamed hn
  obtain ⟨he, hway⟩ := hnamed.get? hget
  obtain ⟨v', hv', hfind⟩ := exists_descent_of_mem_levels hb' hv
  rw [← mentions_pieces_ofNames hway] at hv'
  cases e with
  | directory entries =>
    rw [withSource_preorder_directory (text_below_ne_empty hroot hway) he, List.mem_singleton] at hnode
    refine ⟨v', ?_, fun hfile => ?_, fun _ => hv'⟩
    · rw [hnode, bindings_nodeOf]
      exact hfind
    · rw [hnode, nodeOf] at hfile
      cases hfile.1
  | file content =>
    rw [nodeOf, withSource_preorder_ofFile] at hnode
    have hfile : n ∈ filesOf (ofFile (root.below place) b').preorder :=
      mem_filesOf_ofFile hnode hkind
    rcases List.eq_nil_or_concat' place with rfl | ⟨init, own, rfl⟩
    · cases hget
    · have hname : (root.below (init ++ [own])).fileName = own := by
        rw [fileName, fileName?_below hroot hway (by simp), List.getLast?_concat]
        rfl
      have hlast : lastPiece (ofNames (init ++ [own])) = own := by
        rw [lastPiece, pieces_ofNames hway (by simp), List.getLast?_concat]
        rfl
      have hflattened := flattened_ofFile (root.below (init ++ [own])) b'
      rw [hname] at hflattened
      exact hflattened.exists_reached hfile hlast hfind hv'

theorem mentions_pos {place : Place} (hplace : ∀ n ∈ place, Ordinary n) {name : String}
    (hname : name ∈ namesOf (ofNames place).text) : 0 < mentions name (ofNames place).pieces := by
  rw [ofNames, namesOf_intercalate, List.mem_flatMap] at hname
  obtain ⟨own, hown, hname⟩ := hname
  rw [mentions_pieces_ofNames hplace, mentions, List.countP_pos_iff]
  exact ⟨own, hown, decide_eq_true hname⟩

/-! ## Trees -/

theorem exists_reached_of_build {files : FileSystem} {source : Path} {b : Bindings}
    {options : TreeOptions} {t : TemplateTree} {warnings : List Warning}
    (hbuild : build files source b options = .ok (t, warnings)) {n : Node} (hn : n ∈ t.nodes)
    (hkind : n.kind ≠ .expanded) {relative : Path} (hrelative : t.relativePath? n = some relative)
    {name : String} (hname : name ∈ namesOf relative.text) (hbound : n.bindings.contains name = true) :
    ∃ v v', b.find? name = some v ∧ n.bindings.find? name = some v' ∧ Reached n relative name v v' := by
  obtain ⟨entry, htext, hnamed, rfl⟩ := exists_shown_of_build hbuild
  rw [nodes] at hn
  rw [(narrows_of_mem_nodeOf hn).contains] at hbound
  obtain ⟨v, hv⟩ := Option.isSome_iff_exists.1 hbound
  refine ⟨v, ?_⟩
  cases entry with
  | directory children =>
    obtain ⟨place, hplaced⟩ := placed_of_mem_nodeOf source (.directory children) hnamed b n hn
    obtain ⟨v', hv', hreached⟩ := exists_reached_of_directory htext hnamed hn hkind hplaced hv
    rw [nodeOf, hplaced.relativePath? htext hnamed] at hrelative
    obtain rfl := Option.some.inj hrelative
    exact ⟨v', hv, hv', hreached⟩
  | file content =>
    rw [nodeOf] at hn hrelative
    obtain ⟨own, hown, rfl⟩ := fileName?_of_relativePath? hn hrelative
    have hfile := mem_filesOf_ofFile hn hkind
    have hflattened := flattened_ofFile source b
    rw [fileName, hown] at hflattened
    obtain ⟨w, hw, hfind⟩ := hflattened.exists_bottom hfile hname hv
    have hlast : lastPiece ⟨own⟩ = own := by
      rw [lastPiece, pieces_of_not_mem (ordinary_of_fileName? hown).separator_not_mem]
      rfl
    refine ⟨w, hv, hfind, fun _ => hw, fun hnot => ?_⟩
    exact absurd ⟨of_decide_eq_true (List.mem_filter.1 hfile).2, by rwa [hlast]⟩ hnot

/-! ## Top theorem -/

/-- What a variable on the path of a node has become.  In the own name of a file it is never enumerable.
Anywhere else it has gone down one level for each name that mentions it, which leaves nothing to expand
if it was nested no deeper, and with even nesting only then.  A value that is still enumerable has no
text, so such a node has no destination, and there are no other errors than those of the placeholders
and of a file name that is filled to nothing. -/
theorem nested_by_mentions {files : FileSystem} {source : Path} {b : Bindings} {options : TreeOptions}
    {t : TemplateTree} {warnings : List Warning}
    (hbuild : build files source b options = .ok (t, warnings)) {n : Node} (hn : n ∈ t.nodes)
    (hkind : n.kind ≠ .expanded) {relative : Path} (hrelative : t.relativePath? n = some relative) :
    (∀ p ∈ Placeholder.bound relative.text n.bindings,
      0 < mentions p.name relative.pieces ∧
      ∃ v v', b.find? p.name = some v ∧ n.bindings.find? p.name = some v' ∧
        (InFileName n relative p.name → v' ∈ v.flat ∧ v'.isEnumerable = false) ∧
        (¬ InFileName n relative p.name →
          v' ∈ v.descents (mentions p.name relative.pieces) ∧
          (v.nesting ≤ mentions p.name relative.pieces → v'.isEnumerable = false) ∧
          ∀ depth, v.EvenlyNested depth →
            (v'.isEnumerable = true ↔ mentions p.name relative.pieces < depth))) ∧
    ∀ base,
      (∀ target, t.destination n base = .ok (some target) →
        ∀ p ∈ Placeholder.bound (dropSuffix t.options.suffixes relative).text n.bindings,
          ∀ v, n.bindings.find? p.name = some v → v.isEnumerable = false) ∧
      ∀ e, t.destination n base = .error e →
        e = .format (lastPiece (dropSuffix t.options.suffixes relative)) .emptyFileName ∨
          ∃ p ∈ Placeholder.bound relative.text n.bindings,
            p.renderValue (n.bindings.find? p.name) = .error e := by
  obtain ⟨place, hplace, rfl, -⟩ := relativePath?_of_build hbuild hn hrelative
  refine ⟨fun p hp => ?_, fun base => ⟨fun target hdest p hp v hv => ?_, fun e hdest => ?_⟩⟩
  · obtain ⟨hscan, hbound⟩ := List.mem_filter.1 hp
    have hname : p.name ∈ namesOf (ofNames place).text := List.mem_map_of_mem hscan
    obtain ⟨v, v', hv, hv', hfile, hlevel⟩ :=
      exists_reached_of_build hbuild hn hkind hrelative hname hbound
    refine ⟨mentions_pos hplace hname, v, v', hv, hv', fun hin => ?_, fun hnot => ?_⟩
    · exact ⟨hfile hin, Value.not_isEnumerable_of_mem_flat v (hfile hin)⟩
    · have hdescent := hlevel hnot
      refine ⟨hdescent, fun hnesting => ?_, fun depth heven => ?_⟩
      · have hzero := Value.nesting_of_mem_descents hdescent
        exact Value.nesting_eq_zero_iff.1 (by omega)
      · rw [(heven.of_mem_descents hdescent).isEnumerable_iff]
        omega
  · obtain ⟨s, ⟨relative, hrel, hfill⟩, -⟩ := destination_eq_ok_some_iff.1 hdest
    obtain rfl := Option.some.inj (hrelative.symm.trans hrel)
    exact ((Placeholder.fillAll_eq_ok_some_iff.1 hfill).1 p hp).isEnumerable hv
  · refine (of_destination_eq_error hdest hrelative).imp_right fun ⟨p, hp, he⟩ => ⟨p, ?_, he⟩
    rw [dropSuffix_ofNames _ hplace] at hp
    obtain ⟨hscan, hbound⟩ := List.mem_filter.1 hp
    have hstart := Placeholder.scan_prefix (prefix_text_stripLast t.options.suffixes place)
    exact List.mem_filter.2 ⟨hstart.subset hscan, hbound⟩

/-- A sequence in a sequence, for the name of a directory. -/
def nestedFiles : FileSystem :=
  ⟨.directory [("src", .directory [("%x%", .directory [("a.txt", .file ⟨#[]⟩)])])],
    [], .healthy, rfl, by decide +kernel⟩

def nestedBindings : Bindings := .ofList [("x", .seq [.seq [.int 7]])]

/-- The node of the directory, in which the name is bound. -/
def isNested (t : TemplateTree) (n : Node) : Bool :=
  n.kind = .directory && t.relativePath? n = some ⟨"%x%"⟩ &&
    (Placeholder.bound "%x%" n.bindings).any fun p => p.name = "x"

theorem nested_by_mentions_directory :
    ∃ t warnings n v, build nestedFiles ⟨"src"⟩ nestedBindings .standard = .ok (t, warnings) ∧ n ∈ t.nodes ∧
      n.kind = .directory ∧ t.relativePath? n = some ⟨"%x%"⟩ ∧ n.bindings.find? "x" = some v ∧
      v.isEnumerable = true ∧ ∀ base target, t.destination n base ≠ .ok (some target) := by
  have hcheck : ((build nestedFiles ⟨"src"⟩ nestedBindings .standard).toOption.any fun result =>
      result.1.nodes.any (isNested result.1)) = true := by decide +kernel
  obtain ⟨⟨t, warnings⟩, hok, hany⟩ := (Option.any_eq_true _ _).1 hcheck
  have hbuild := eq_ok_of_toOption hok
  obtain ⟨n, hn, hnested⟩ := List.any_eq_true.1 hany
  simp only [isNested, Bool.and_eq_true, decide_eq_true_eq] at hnested
  obtain ⟨⟨hkind, hrelative⟩, hbound⟩ := hnested
  obtain ⟨p, hp, hname⟩ := List.any_eq_true.1 hbound
  have hx : p.name = "x" := of_decide_eq_true hname
  obtain ⟨hvalues, hdest⟩ := nested_by_mentions hbuild hn (by rw [hkind]; decide) hrelative
  obtain ⟨-, v, v', hv, hv', -, hlevel⟩ := hvalues p hp
  rw [hx] at hv hv' hlevel
  have hroot : v = .seq [.seq [.int 7]] := by
    have hfind : nestedBindings.find? "x" = some (.seq [.seq [.int 7]]) := by rfl
    exact Option.some.inj (hv.symm.trans hfind)
  have heven : v.EvenlyNested 2 := by
    subst hroot
    exact ⟨_, rfl, List.forall_mem_singleton.2 ⟨_, rfl, List.forall_mem_singleton.2 rfl⟩⟩
  have hmentions : mentions "x" (⟨"%x%"⟩ : Path).pieces < 2 := by decide +kernel
  have henum : v'.isEnumerable = true :=
    ((hlevel fun hfile => absurd (hkind.symm.trans hfile.1) (by decide)).2.2 2 heven).2 hmentions
  refine ⟨t, warnings, n, v', hbuild, hn, hkind, hrelative, hv', henum, ?_⟩
  intro base target hok
  obtain ⟨entry, -, -, ht⟩ := exists_shown_of_build hbuild
  have hsame : dropSuffix TreeOptions.standard.suffixes ⟨"%x%"⟩ = ⟨"%x%"⟩ := by decide +kernel
  have hunmarked : p ∈ Placeholder.bound (dropSuffix t.options.suffixes ⟨"%x%"⟩).text n.bindings := by
    rw [ht, hsame]
    exact hp
  have hscalar := (hdest base).1 target hok p hunmarked v' (by rw [hx]; exact hv')
  rw [henum] at hscalar
  cases hscalar

end Stencil.TemplateTree
