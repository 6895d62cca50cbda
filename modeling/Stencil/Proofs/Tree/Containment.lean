import Stencil.Proofs.Tree.Resolved
/-!
# Destinations below the base

A destination lies inside its base exactly if the filled text of the node stands for names: it has no
piece `..`, and names something if the node is not a directory; an absolute text stands by itself and
has to spell out the base in front of its names.  Values whose texts have no separator and are not made
of points alone, and names that are still names without their suffixes, never lead to any other text.

    Inside base p n: p.components = base.components ++ names.map .normal
-/

namespace Stencil

namespace Path

/-! ## Pieces that stand for components -/

/-- The pieces that stand for a component of a path. -/
def solid (pieces : List String) : List String := pieces.filter fun piece => piece ≠ "" ∧ piece ≠ "."

/-- The component that such a piece stands for. -/
def componentOf (piece : String) : Component := if piece = ".." then .parent else .normal piece

theorem solid_append (ps qs : List String) : solid (ps ++ qs) = solid ps ++ solid qs :=
  List.filter_append ..

theorem mem_solid_iff {pieces : List String} {piece : String} :
    piece ∈ solid pieces ↔ piece ∈ pieces ∧ piece ≠ "" ∧ piece ≠ "." := by
  rw [solid, List.mem_filter, decide_eq_true_iff]

theorem solid_ne_nil_iff {pieces : List String} :
    solid pieces ≠ [] ↔ ∃ piece ∈ pieces, piece ≠ "" ∧ piece ≠ "." := by
  constructor
  · intro hne
    obtain ⟨piece, hpiece⟩ := List.exists_mem_of_ne_nil _ hne
    exact ⟨piece, mem_solid_iff.1 hpiece⟩
  · rintro ⟨piece, hpiece⟩
    exact List.ne_nil_of_mem (mem_solid_iff.2 hpiece)

theorem componentOf_injective : Function.Injective componentOf := by
  intro piece other h
  rw [componentOf, componentOf] at h
  split at h
  · next hparent =>
    split at h
    · next hother => rw [hparent, hother]
    · cases h
  · split at h
    · cases h
    · exact Component.normal.inj h

/-- The first piece of a relative path apart, the components are those of the solid pieces. -/
theorem filterMap_componentOf? (pieces : List String) :
    pieces.filterMap (componentOf? false) = (solid pieces).map componentOf := by
  induction pieces with
  | nil => rfl
  | cons piece pieces ih =>
    by_cases hempty : piece = ""
    · subst hempty
      exact ih
    · by_cases hcurrent : piece = "."
      · subst hcurrent
        exact ih
      · have hsome : componentOf? false piece = some (componentOf piece) := by
          rw [componentOf?, if_neg hempty, if_neg hcurrent, componentOf]
          split <;> rfl
        have hsolid : solid (piece :: pieces) = piece :: solid pieces :=
          List.filter_cons_of_pos (decide_eq_true ⟨hempty, hcurrent⟩)
        rw [List.filterMap_cons_some hsome, hsolid, List.map_cons, ih]

theorem map_componentOf {names : List String} (h : ".." ∉ names) :
    names.map componentOf = names.map .normal := by
  refine List.map_congr_left fun name hname => if_neg ?_
  rintro rfl
  exact h hname

/-- What follows the given pieces in a path are names exactly if none of it is `..`. -/
theorem exists_names_iff (pre : List String) (p : Path) {strict : Prop} :
    (∃ names : List String, (∀ name ∈ names, Ordinary name) ∧
        (solid p.pieces).map componentOf = pre.map componentOf ++ names.map .normal ∧
          (strict → names ≠ [])) ↔
      ∃ names, ".." ∉ names ∧ solid p.pieces = pre ++ names ∧ (strict → names ≠ []) := by
  refine exists_congr fun names => ?_
  constructor
  · rintro ⟨hnames, heq, hne⟩
    have hparent : ".." ∉ names := fun hmem => (hnames ".." hmem).ne_parent rfl
    rw [← map_componentOf hparent, ← List.map_append] at heq
    exact ⟨hparent, List.map_injective_iff.2 componentOf_injective heq, hne⟩
  · rintro ⟨hparent, heq, hne⟩
    refine ⟨fun name hname => ?_, ?_, hne⟩
    · have hsolid : name ∈ solid p.pieces := by
        rw [heq]
        exact List.mem_append_right pre hname
      obtain ⟨hmem, hempty, hcurrent⟩ := mem_solid_iff.1 hsolid
      exact ⟨hempty, hcurrent, fun e => hparent (e ▸ hname), separator_not_mem_of_mem_pieces hmem⟩
    · rw [heq, List.map_append, map_componentOf hparent]

theorem components_of_isAbsolute {p : Path} (h : p.isAbsolute = true) :
    p.components = .root :: (solid p.pieces).map componentOf := by
  rw [components, h, labelled_eq, h, if_pos rfl, List.singleton_append, List.cons.injEq,
    ← filterMap_componentOf?]
  refine ⟨rfl, ?_⟩
  obtain ⟨rest, hpieces⟩ := pieces_of_isAbsolute h
  rw [hpieces, label, if_pos rfl, List.nil_append, List.filterMap_map]
  rfl

theorem components_of_text_eq_empty {p : Path} (h : p.text = "") : p.components = [] := by
  rw [show p = ⟨""⟩ from congrArg Path.mk h]
  decide

end Path

namespace TemplateTree

open Stencil.Path

/-! ## Inside the base -/

/-- The components of the base, then only names: at least one if the node is not a directory. -/
def Inside (base p : Path) (n : Node) : Prop :=
  ∃ names : List String, (∀ name ∈ names, Ordinary name) ∧
    p.components = base.components ++ names.map .normal ∧ (n.kind ≠ .directory → names ≠ [])

/-- The components that a text adds to those of the base under which it stands. -/
def added (base : Path) (s : String) : List Component :=
  if base.text = "" then (⟨s⟩ : Path).components else (solid (⟨s⟩ : Path).pieces).map componentOf

theorem under_of_isAbsolute (base : Path) {s : String} (h : (⟨s⟩ : Path).isAbsolute = true) :
    under (some base) s = ⟨s⟩ := by
  have hne : s ≠ "" := by
    rintro rfl
    cases h
  rw [under]
  rw [if_neg hne, join, h, Bool.true_or, if_pos rfl]

theorem components_under {base : Path} {s : String} (h : (⟨s⟩ : Path).isAbsolute = false) :
    (under (some base) s).components = base.components ++ added base s := by
  rw [under, added]
  by_cases hbase : base.text = ""
  · rw [if_pos hbase, components_of_text_eq_empty hbase, List.nil_append]
    split
    · next hempty =>
      subst hempty
      exact components_of_text_eq_empty hbase
    · rw [join, hbase, decide_eq_true rfl, Bool.or_true, if_pos rfl]
  · rw [if_neg hbase]
    split
    · next hempty =>
      subst hempty
      rw [show solid (⟨""⟩ : Path).pieces = [] by decide, List.map_nil, List.append_nil]
    · rw [components_join hbase h, filterMap_componentOf?]

/-- A point in front of a relative path is a component of its own, which no other piece names. -/
theorem components_of_relative {p : Path} (h : p.isAbsolute = false) :
    p.components =
      (if p.pieces.head? = some "." then [.current] else []) ++ (solid p.pieces).map componentOf := by
  rw [components, h, labelled_eq, h, ← filterMap_componentOf?]
  cases hpieces : p.pieces with
  | nil => exact absurd hpieces p.pieces_ne_nil
  | cons first rest =>
    by_cases hcurrent : first = "."
    · subst hcurrent
      rw [label, List.filterMap_append, List.filterMap_map]
      rfl
    · have hfirst : componentOf? true first = componentOf? false first := by
        rw [componentOf?, componentOf?, if_neg hcurrent, if_neg hcurrent]
      have hhead : (first :: rest).head? ≠ some "." := fun e => hcurrent (Option.some.inj e)
      rw [if_neg Bool.false_ne_true, List.nil_append, if_neg hhead, List.nil_append, label,
        if_neg Bool.false_ne_true, List.filterMap_append, List.filterMap_map, List.filterMap_cons,
        List.filterMap_nil, hfirst, List.filterMap_cons]
      cases componentOf? false first <;> rfl

/-- When a text that is no absolute path leads inside the base. -/
theorem inside_under_iff {base : Path} {s : String} (h : (⟨s⟩ : Path).isAbsolute = false) (n : Node) :
    Inside base (under (some base) s) n ↔
      ".." ∉ (⟨s⟩ : Path).pieces ∧ (base.text = "" → (⟨s⟩ : Path).pieces.head? ≠ some ".") ∧
        (n.kind ≠ .directory → ∃ piece ∈ (⟨s⟩ : Path).pieces, piece ≠ "" ∧ piece ≠ ".") := by
  have hsolid : (∃ names : List String, (∀ name ∈ names, Ordinary name) ∧
      (solid (⟨s⟩ : Path).pieces).map componentOf = names.map .normal ∧
        (n.kind ≠ .directory → names ≠ [])) ↔
      ".." ∉ (⟨s⟩ : Path).pieces ∧
        (n.kind ≠ .directory → ∃ piece ∈ (⟨s⟩ : Path).pieces, piece ≠ "" ∧ piece ≠ ".") := by
    have hparent : ".." ∈ solid (⟨s⟩ : Path).pieces ↔ ".." ∈ (⟨s⟩ : Path).pieces := by
      simp [mem_solid_iff]
    refine (exists_names_iff [] ⟨s⟩).trans ?_
    simp only [List.nil_append, ← solid_ne_nil_iff, ← hparent]
    constructor
    · rintro ⟨names, hnames, rfl, hne⟩
      exact ⟨hnames, hne⟩
    · rintro ⟨hnames, hne⟩
      exact ⟨_, hnames, rfl, hne⟩
  simp only [Inside, components_under h, List.append_cancel_left_eq]
  rw [added]
  by_cases hbase : base.text = ""
  · rw [if_pos hbase, components_of_relative h]
    by_cases hhead : (⟨s⟩ : Path).pieces.head? = some "."
    · refine iff_of_false ?_ fun hall => hall.2.1 hbase hhead
      rintro ⟨names, -, heq, -⟩
      rw [if_pos hhead] at heq
      cases names with
      | nil => cases heq
      | cons name names => cases (List.cons.inj heq).1
    · rw [if_neg hhead, List.nil_append, hsolid]
      exact ⟨fun hall => ⟨hall.1, fun _ => hhead, hall.2⟩, fun hall => ⟨hall.1, hall.2.2⟩⟩
  · rw [if_neg hbase, hsolid]
    exact ⟨fun hall => ⟨hall.1, fun e => absurd e hbase, hall.2⟩, fun hall => ⟨hall.1, hall.2.2⟩⟩

/-- When an absolute text leads inside the base. -/
theorem inside_of_isAbsolute_iff {base : Path} {s : String} (h : (⟨s⟩ : Path).isAbsolute = true)
    (n : Node) :
    Inside base ⟨s⟩ n ↔
      base.isAbsolute = true ∧ ∃ names, ".." ∉ names ∧
        solid (⟨s⟩ : Path).pieces = solid base.pieces ++ names ∧
          (n.kind ≠ .directory → names ≠ []) := by
  rw [Inside, components_of_isAbsolute h, ← exists_names_iff]
  cases hbase : base.isAbsolute with
  | true =>
    rw [components_of_isAbsolute hbase]
    simp only [List.cons_append, List.cons.injEq, true_and]
  | false =>
    refine iff_of_false ?_ fun hall => Bool.false_ne_true hall.1
    rintro ⟨names, -, heq, -⟩
    -- no piece of the base and no name stands for the root
    have hroot : Component.root ∈ base.components ++ names.map .normal := by
      rw [← heq]
      exact List.mem_cons_self
    rcases List.mem_append.1 hroot with hroot | hroot
    · rw [components, hbase, labelled_eq] at hroot
      exact root_not_mem_components_label _ _ hroot
    · obtain ⟨name, -, hname⟩ := List.mem_map.1 hroot
      cases hname

/-! ## Texts that keep names names -/

/-- A text without a separator that is not made of points alone. -/
def Tame (text : List Char) : Prop := '/' ∉ text ∧ ∃ c ∈ text, c ≠ '.'

instance (text : List Char) : Decidable (Tame text) :=
  decidable_of_iff ((!text.contains '/' && text.any (· != '.')) = true) (by simp [Tame])

theorem ordinary_of_tame {name : String} (h : Tame name.toList) : Ordinary name := by
  obtain ⟨hsep, c, hc, hne⟩ := h
  refine ⟨?_, ?_, ?_, hsep⟩ <;>
  · rintro rfl
    simp at hc
    try exact hne hc

/-- A name stays a name when a placeholder in it is replaced by a tame text. -/
theorem ordinary_replaceAll {p : Placeholder} {text : List Char} (htext : Tame text) {name : String}
    (hname : Ordinary name) :
    Ordinary (String.ofList (Text.replaceAll p.chars text name.toList)) := by
  rw [Text.replaceAll_of_ne_nil p.chars_ne_nil]
  rcases Text.replaceFrom_eq_or_subset p.chars text 0 name.toList with h | h
  · rw [h, List.drop_zero, String.ofList_toList]
    exact hname
  · obtain ⟨hsep, c, hc, hne⟩ := htext
    apply ordinary_of_tame
    rw [String.toList_ofList]
    refine ⟨fun hmem => ?_, c, h hc, hne⟩
    rcases Text.mem_replaceFrom hmem with hmem | hmem
    · exact hsep hmem
    · exact hname.separator_not_mem hmem

theorem ordinary_filled {b : Bindings} {ps : List Placeholder}
    (hps : ∀ p ∈ ps, Tame (Placeholder.textOf b p)) {name : String} (hname : Ordinary name) :
    Ordinary (String.ofList (Placeholder.filled b ps name.toList)) := by
  induction ps generalizing name with
  | nil =>
    rw [Placeholder.filled, String.ofList_toList]
    exact hname
  | cons p ps ih =>
    obtain ⟨hp, hrest⟩ := List.forall_mem_cons.1 hps
    have hstep := ih hrest (ordinary_replaceAll (p := p) hp hname)
    rw [String.toList_ofList] at hstep
    exact hstep

/-- Tame texts fill the path of names name by name. -/
theorem exists_names_of_filled {b : Bindings} {ps : List Placeholder} (hproper : ∀ p ∈ ps, p.Proper)
    (hps : ∀ p ∈ ps, Tame (Placeholder.textOf b p)) {place : Place}
    (hplace : ∀ name ∈ place, Ordinary name) (hne : place ≠ []) {s : String}
    (hs : s.toList = Placeholder.filled b ps (ofNames place).text.toList) :
    ∃ names : List String, (∀ name ∈ names, Ordinary name) ∧ names.length = place.length ∧
      s = (ofNames names).text := by
  refine ⟨place.map fun name => String.ofList (Placeholder.filled b ps name.toList), ?_,
    List.length_map .., ?_⟩
  · intro name hname
    obtain ⟨name', hname', rfl⟩ := List.mem_map.1 hname
    exact ordinary_filled hps (hplace name' hname')
  · apply String.toList_inj.1
    have hmap : place.map String.toList ≠ [] := by simpa using hne
    rw [hs, ofNames, ofNames, String.toList_intercalate, String.toList_intercalate,
      show "/".toList = ['/'] from rfl, Placeholder.filled_intercalate hproper hmap, List.map_map,
      List.map_map]
    simp [Function.comp_def]

theorem inside_under_ofNames {base : Path} {names : List String} (hnames : ∀ name ∈ names, Ordinary name)
    {n : Node} (hne : n.kind ≠ .directory → names ≠ []) :
    Inside base (under (some base) (ofNames names).text) n := by
  rw [inside_under_iff (s := (ofNames names).text) (isAbsolute_ofNames hnames)]
  by_cases hnil : names = []
  · subst hnil
    refine ⟨by decide, fun _ => by decide, fun hkind => absurd rfl (hne hkind)⟩
  · have hpieces := pieces_ofNames hnames hnil
    rw [show (⟨(ofNames names).text⟩ : Path) = ofNames names from rfl, hpieces]
    refine ⟨fun hmem => (hnames ".." hmem).ne_parent rfl, fun _ hhead => ?_, fun _ => ?_⟩
    · exact (hnames "." (List.mem_of_head? hhead)).ne_current rfl
    · obtain ⟨name, rest, rfl⟩ := List.exists_cons_of_ne_nil hnil
      have hname := hnames name List.mem_cons_self
      exact ⟨name, List.mem_cons_self, hname.ne_empty, hname.ne_current⟩

/-! ## Top theorem -/

/-- Where the root is a file, every node of it has the name of the file. -/
theorem relativePath?_ofFile {source : Path} {b : Bindings} {options : TreeOptions} {n : Node}
    (hn : n ∈ (ofFile source b).preorder) :
    relativePath? ⟨ofFile source b, options⟩ n = source.fileName?.map fun name => ⟨name⟩ := by
  obtain ⟨hroot, hkind⟩ := of_mem_preorder_ofFile (mem_preorder_self (ofFile source b))
  rw [relativePath?, (of_mem_preorder_ofFile hn).1]
  cases hofFile : ofFile source b with
  | directory p b' children =>
    rw [hofFile] at hkind
    exact absurd rfl hkind
  | expanded p b' children => rfl
  | file src b' =>
    rw [hofFile] at hroot
    cases hroot
    rfl

theorem fileName?_of_relativePath? {source : Path} {b : Bindings} {options : TreeOptions} {n : Node}
    (hn : n ∈ (ofFile source b).preorder) {relative : Path}
    (h : relativePath? ⟨ofFile source b, options⟩ n = some relative) :
    ∃ name, source.fileName? = some name ∧ relative = ⟨name⟩ := by
  rw [relativePath?_ofFile hn, Option.map_eq_some_iff] at h
  obtain ⟨name, hname, rfl⟩ := h
  exact ⟨name, hname, rfl⟩

/-- Seen from the root, a node of a built tree has a path of names. -/
theorem relativePath?_of_build {files : FileSystem} {source : Path} {b : Bindings}
    {options : TreeOptions} {t : TemplateTree} {warnings : List Warning}
    (hbuild : build files source b options = .ok (t, warnings)) {n : Node} (hn : n ∈ t.nodes)
    {relative : Path} (h : t.relativePath? n = some relative) :
    ∃ place : Place, (∀ name ∈ place, Ordinary name) ∧ relative = ofNames place ∧
      (n.kind ≠ .directory → place ≠ []) := by
  obtain ⟨entry, htext, hnamed, rfl⟩ := exists_shown_of_build hbuild
  rw [nodes] at hn
  cases entry with
  | directory children =>
    obtain ⟨place, hplaced⟩ := placed_of_mem_nodeOf source (.directory children) hnamed b n hn
    obtain ⟨e, hget, hentry⟩ := hplaced.entry_at
    have hplace := (hnamed.get? hget).2
    refine ⟨place, hplace, ?_, fun hkind hnil => ?_⟩
    · rw [nodeOf, hplaced.relativePath? htext hnamed] at h
      exact (Option.some.inj h).symm
    · subst hnil
      obtain rfl := Option.some.inj hget
      rcases hentry with ⟨children', -, hn'⟩ | ⟨hfile, -⟩
      · exact hkind (by rw [hn']; rfl)
      · cases hfile
  | file content =>
    rw [nodeOf] at h hn
    obtain ⟨name, hname, rfl⟩ := fileName?_of_relativePath? hn h
    refine ⟨[name], List.forall_mem_singleton.2 (ordinary_of_fileName? hname), ?_,
      fun _ => List.cons_ne_nil name []⟩
    simp [ofNames]

/-- A destination is the filled path of the node under the base.  A filled text that is no absolute
path leads inside the base exactly if it has no piece `..` and names something; an absolute one stands
by itself, inside only if it spells out the base and goes on with names.  With tame texts, and a last
name that is still a name without its suffix, the destination lies inside. -/
theorem destination_inside {files : FileSystem} {source : Path} {b : Bindings}
    {options : TreeOptions} {t : TemplateTree} {warnings : List Warning} {n : Node} {base p : Path}
    (hbuild : build files source b options = .ok (t, warnings))
    (hn : n ∈ t.nodes) (hdest : t.destination n (some base) = .ok (some p)) :
    ∃ relative s, t.relativePath? n = some relative ∧
      Placeholder.fillAll
        (Placeholder.bound (dropSuffix t.options.suffixes relative).text n.bindings) n.bindings
        (dropSuffix t.options.suffixes relative).text = .ok (some s) ∧
      p = under (some base) s ∧
      ((⟨s⟩ : Path).isAbsolute = false →
        (Inside base p n ↔
          ".." ∉ (⟨s⟩ : Path).pieces ∧ (base.text = "" → (⟨s⟩ : Path).pieces.head? ≠ some ".") ∧
            (n.kind ≠ .directory → ∃ piece ∈ (⟨s⟩ : Path).pieces, piece ≠ "" ∧ piece ≠ "."))) ∧
      ((⟨s⟩ : Path).isAbsolute = true →
        p = ⟨s⟩ ∧
        (Inside base p n ↔
          base.isAbsolute = true ∧ ∃ names, ".." ∉ names ∧
            solid (⟨s⟩ : Path).pieces = solid base.pieces ++ names ∧
              (n.kind ≠ .directory → names ≠ []))) ∧
      ((∀ q ∈ Placeholder.bound (dropSuffix t.options.suffixes relative).text n.bindings,
          Tame (Placeholder.textOf n.bindings q)) →
        (∀ name, relative.fileName? = some name → Ordinary (stripped t.options.suffixes name)) →
          Inside base p n) := by
  obtain ⟨s, ⟨relative, hrelative, hfill⟩, -, rfl⟩ := destination_eq_ok_some_iff.1 hdest
  refine ⟨relative, s, hrelative, hfill, rfl, fun hs => inside_under_iff hs n, fun hs => ?_,
    fun htame hstripped => ?_⟩
  · have hunder := under_of_isAbsolute base hs
    refine ⟨hunder, ?_⟩
    rw [hunder]
    exact inside_of_isAbsolute_iff hs n
  · obtain ⟨place, hplace, rfl, hne⟩ := relativePath?_of_build hbuild hn hrelative
    rw [dropSuffix_ofNames _ hplace] at hfill htame
    have hplace' : ∀ name ∈ stripLast t.options.suffixes place, Ordinary name := by
      intro name hname
      rw [stripLast, List.mem_append] at hname
      rcases hname with hname | hname
      · exact hplace name ((List.dropLast_sublist place).mem hname)
      · rw [Option.mem_toList] at hname
        obtain ⟨last, hlast, rfl⟩ := Option.map_eq_some_iff.1 hname
        exact hstripped last (by rw [fileName?_ofNames hplace, hlast])
    by_cases hnil : place = []
    · subst hnil
      have hs : s = (ofNames []).text := (Option.some.inj (Except.ok.inj hfill)).symm
      rw [hs]
      exact inside_under_ofNames (by simp) fun hkind => absurd rfl (hne hkind)
    · have hlength := length_stripLast t.options.suffixes place
      have hne' : stripLast t.options.suffixes place ≠ [] := by
        intro hempty
        rw [hempty] at hlength
        exact hnil (List.length_eq_zero_iff.1 hlength.symm)
      obtain ⟨-, htext⟩ := Placeholder.fillAll_eq_ok_some_iff.1 hfill
      obtain ⟨names, hnames, hcount, rfl⟩ := exists_names_of_filled
        (fun q hq => Placeholder.proper_of_mem_bound hq) htame hplace' hne' htext
      refine inside_under_ofNames hnames fun _ hempty => ?_
      rw [hempty, hlength] at hcount
      exact hnil (List.length_eq_zero_iff.1 hcount.symm)

/-- A directory named after a version, with a template in it. -/
def versionFiles : FileSystem :=
  ⟨.directory [("src", .directory [("%version%", .directory [("a.txt.template", .file ⟨#[]⟩)])])],
    [], .healthy, rfl, by decide +kernel⟩

/-- The node is written to this path, filled with tame texts. -/
def writesTo (t : TemplateTree) (base p : Path) (n : Node) : Bool :=
  (t.destination n (some base)).toOption = some (some p) &&
    (t.relativePath? n).all fun relative =>
      ((Placeholder.bound (dropSuffix t.options.suffixes relative).text n.bindings).all
        fun q => Tame (Placeholder.textOf n.bindings q)) &&
      relative.fileName?.all fun name => Ordinary (stripped t.options.suffixes name)

theorem destination_inside_version :
    ∃ t warnings n,
      build versionFiles ⟨"src"⟩ (.ofList [("version", .str "v1")]) .standard = .ok (t, warnings) ∧
      n ∈ t.nodes ∧ t.destination n (some ⟨"out"⟩) = .ok (some ⟨"out/v1/a.txt"⟩) ∧
      Inside ⟨"out"⟩ ⟨"out/v1/a.txt"⟩ n := by
  have hcheck : ((build versionFiles ⟨"src"⟩ (.ofList [("version", .str "v1")]) .standard).toOption.any
      fun result => result.1.nodes.any (writesTo result.1 ⟨"out"⟩ ⟨"out/v1/a.txt"⟩)) = true := by
    decide +kernel
  cases hbuild : build versionFiles ⟨"src"⟩ (.ofList [("version", .str "v1")]) .standard with
  | error e =>
    rw [hbuild] at hcheck
    cases hcheck
  | ok result =>
    obtain ⟨t, warnings⟩ := result
    rw [hbuild] at hcheck
    obtain ⟨n, hn, hwrites⟩ := List.any_eq_true.1 hcheck
    rw [writesTo, Bool.and_eq_true, decide_eq_true_iff] at hwrites
    obtain ⟨hsome, htame⟩ := hwrites
    have hdest := eq_ok_of_toOption hsome
    obtain ⟨relative, s, hrelative, -, -, -, -, hinside⟩ := destination_inside hbuild hn hdest
    rw [hrelative, Option.all_some, Bool.and_eq_true, List.all_eq_true] at htame
    refine ⟨t, warnings, n, rfl, hn, hdest, hinside (fun q hq => ?_) fun name hname => ?_⟩
    · exact of_decide_eq_true (htame.1 q hq)
    · have hordinary := htame.2
      rw [hname] at hordinary
      exact of_decide_eq_true hordinary

-- an empty value before a separator makes the filled path absolute
example : ((build versionFiles ⟨"src"⟩ (.ofList [("version", .str "")]) .standard).toOption.any
    fun result => result.1.nodes.any fun n =>
      (result.1.destination n (some ⟨"out"⟩)).toOption = some (some ⟨"/a.txt"⟩)) = true := by
  decide +kernel

end TemplateTree

end Stencil
