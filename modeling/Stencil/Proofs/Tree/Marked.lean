import Stencil.Proofs.Tree.Spelling
import Stencil.Tree.Content
/-!
# Names and contents of templates

A file is a template for its content exactly if its name is shortened for its destination.  The content
is decided by the path of the source, the name by the path seen from the root; both end in the name of
the file, and the same suffix marks it in both.

    suffixOf? suffixes name = some suffix ↔ suffix is the first one to mark the name
    t.destination n base = destinationFrom n base (dropSuffix t.options.suffixes relative)
    t.relativePath? n = some (ofNames (above ++ [name])), name: the file name of the source
-/

namespace Stencil.TemplateTree

open Stencil.Path

/-- The suffix marks a name that goes on in front of it. -/
def Marks (suffix name : String) : Prop := suffix ≠ "" ∧ ∃ stem, stem ≠ "" ∧ name = stem ++ suffix

/-- The first suffix of the list to mark the name. -/
def FirstMark (suffixes : List String) (name suffix : String) : Prop :=
  Marks suffix name ∧ ∃ before after, suffixes = before ++ suffix :: after ∧
    ∀ other ∈ before, ¬ Marks other name

/-- What a node is written to if this is the path that is filled for it. -/
def destinationFrom (n : Node) (base : Option Path) (path : Path) : Except Error (Option Path) :=
  match Placeholder.fillAll (Placeholder.bound path.text n.bindings) n.bindings path.text with
  | .error e => .error e
  | .ok none => .ok none
  | .ok (some filled) =>
    if n.kind != .directory && lacksName filled then
      .error (.format (lastPiece path) .emptyFileName)
    else .ok (some (under base filled))

/-! ## Marked names -/

theorem marks_iff {suffix name : String} :
    (suffix != "" && name != suffix && suffix.toList.isSuffixOf name.toList) = true ↔
      Marks suffix name := by
  rw [Bool.and_eq_true, Bool.and_eq_true, bne_iff_ne, bne_iff_ne, List.isSuffixOf_iff_suffix]
  constructor
  · rintro ⟨⟨hne, hproper⟩, front, hfront⟩
    have hname : name = String.ofList front ++ suffix := by
      rw [← String.toList_inj, String.toList_append, String.toList_ofList, hfront]
    refine ⟨hne, String.ofList front, ?_, hname⟩
    intro hempty
    rw [hempty, String.empty_append] at hname
    exact hproper hname
  · rintro ⟨hne, stem, hstem, rfl⟩
    refine ⟨⟨hne, ?_⟩, ?_⟩
    · intro hsame
      rw [← String.toList_inj, String.toList_append, List.append_left_eq_self] at hsame
      exact hstem (String.toList_eq_nil_iff.1 hsame)
    · rw [String.toList_append]
      exact List.suffix_append _ _

theorem suffixOf?_eq_some_iff {suffixes : List String} {name suffix : String} :
    suffixOf? suffixes name = some suffix ↔ FirstMark suffixes name suffix := by
  rw [suffixOf?, List.find?_eq_some_iff_append, marks_iff, FirstMark]
  simp only [Bool.not_eq_true', ← Bool.not_eq_true, marks_iff]

theorem suffixOf?_eq_none_iff {suffixes : List String} {name : String} :
    suffixOf? suffixes name = none ↔ ∀ suffix ∈ suffixes, ¬ Marks suffix name := by
  rw [suffixOf?, List.find?_eq_none]
  simp only [marks_iff]

theorem dropEnding_append (stem suffix : String) : dropEnding (stem ++ suffix) suffix = stem := by
  rw [dropEnding, String.length_append, Nat.add_sub_cancel, String.toList_append,
    ← String.length_toList, List.take_left, String.ofList_toList]

/-- What is left of a marked name, and the mark. -/
theorem stripped_append_of_marks {suffixes : List String} {name suffix : String}
    (h : FirstMark suffixes name suffix) :
    stripped suffixes name ≠ "" ∧ name = stripped suffixes name ++ suffix := by
  obtain ⟨-, stem, hstem, rfl⟩ := h.1
  rw [stripped, suffixOf?_eq_some_iff.2 h]
  dsimp only
  rw [dropEnding_append]
  exact ⟨hstem, rfl⟩

/-- A mark that is taken away is missed. -/
theorem length_stripped_lt {suffixes : List String} {name suffix : String}
    (h : FirstMark suffixes name suffix) : (stripped suffixes name).length < name.length := by
  have hsuffix : suffix.length ≠ 0 := fun hzero => h.1.1 (String.length_eq_zero_iff.1 hzero)
  have hsum := congrArg String.length (stripped_append_of_marks h).2
  rw [String.length_append] at hsum
  omega

theorem stripped_of_not_marks {suffixes : List String} {name : String}
    (h : ∀ suffix ∈ suffixes, ¬ Marks suffix name) : stripped suffixes name = name := by
  rw [stripped, suffixOf?_eq_none_iff.2 h]

/-! ## Where the name stands -/

theorem destination_eq_destinationFrom {t : TemplateTree} {n : Node} {relative : Path}
    (h : t.relativePath? n = some relative) (base : Option Path) :
    t.destination n base = destinationFrom n base (dropSuffix t.options.suffixes relative) := by
  cases hfill : Placeholder.fillAll
    (Placeholder.bound (dropSuffix t.options.suffixes relative).text n.bindings) n.bindings
    (dropSuffix t.options.suffixes relative).text with
  | error e => simp only [destination, h, destinationFrom, hfill]
  | ok filled =>
    cases filled with
    | none => simp only [destination, h, destinationFrom, hfill]
    | some filled => simp only [destination, h, destinationFrom, hfill]

/-- The path of a file and the path seen from the root end in the same name. -/
theorem exists_name_of_build {files : FileSystem} {source : Path} {b : Bindings}
    {options : TreeOptions} {t : TemplateTree} {warnings : List Warning}
    (hbuild : build files source b options = .ok (t, warnings)) {n : Node} (hn : n ∈ t.nodes)
    (hkind : n.kind = .file) :
    ∃ p above name, n.source = .path p ∧ p.fileName? = some name ∧
      (∀ piece ∈ above ++ [name], Ordinary piece) ∧
      t.relativePath? n = some (ofNames (above ++ [name])) := by
  obtain ⟨entry, hlookup, htext, hnamed, rfl⟩ := exists_entry_of_build hbuild
  rw [nodes] at hn
  cases entry with
  | directory children =>
    rw [FileSystem.shown_of_lookup hlookup] at hn hnamed ⊢
    obtain ⟨place, hplaced⟩ := placed_of_mem_nodeOf source _ hnamed b n hn
    obtain ⟨e, hget, hentry⟩ := hplaced.entry_at
    have hplace := (hnamed.get? hget).2
    rcases List.eq_nil_or_concat' place with rfl | ⟨above, name, rfl⟩
    · -- at the root stands the directory
      obtain rfl := Option.some.inj hget
      rcases hentry with ⟨children', -, hn'⟩ | ⟨hfile, -⟩
      · rw [hn'] at hkind
        cases hkind
      · cases hfile
    · refine ⟨source.below (above ++ [name]), above, name, hplaced.source_eq, ?_, hplace, ?_⟩
      · rw [fileName?_below htext hplace (by simp), List.getLast?_concat]
      · rw [nodeOf]
        exact hplaced.relativePath? htext hnamed b _ options
  | file content =>
    obtain ⟨place, hresolve, hget⟩ := FileSystem.lookup_eq_ok_iff.1 hlookup
    obtain ⟨outer, name, -, hname⟩ :=
      FileSystem.exists_name_of_resolve hresolve (Entry.item?_eq_file_iff.2 hget)
    rw [FileSystem.shown, nodeOf] at hn ⊢
    refine ⟨source, [], name, (of_mem_preorder_ofFile hn).1, hname,
      List.forall_mem_singleton.2 (ordinary_of_fileName? hname), ?_⟩
    rw [relativePath?_ofFile hn, hname]
    simp [ofNames]

/-! ## Contents -/

theorem isTemplate_iff {t : TemplateTree} {n : Node} {p : Path} {name : String}
    (hsource : n.source = .path p) (hname : p.fileName? = some name) :
    t.isTemplate n = true ↔ ∃ suffix, FirstMark t.options.suffixes name suffix := by
  have heq : t.isTemplate n = (suffixOf? t.options.suffixes name).isSome := by
    simp only [isTemplate, hsource, fileName, hname, Option.getD_some]
  rw [heq, Option.isSome_iff_exists]
  simp only [suffixOf?_eq_some_iff]

/-- A rendered template is never a copy. -/
theorem not_copied_of_renderTemplate {renderer : Renderer} {policy : FailurePolicy}
    {label text : String} {b : Bindings} {output : Output} {warning : Option Warning}
    (h : renderTemplate renderer policy label text b = .ok (output, warning)) (bytes : ByteArray) :
    output ≠ .copied bytes := by
  rintro rfl
  unfold renderTemplate at h
  split at h
  · cases h
  · cases h
  · cases h

theorem not_copied_of_isTemplate {t : TemplateTree} {n : Node} {files : FileSystem}
    {renderer : Renderer} {policy : FailurePolicy} {output : Output} {warning : Option Warning}
    (htemplate : t.isTemplate n = true)
    (h : t.content files renderer policy n = .ok (output, warning)) (bytes : ByteArray) :
    output ≠ .copied bytes := by
  unfold content at h
  split at h
  · exact not_copied_of_renderTemplate h bytes
  · rw [if_pos htemplate] at h
    split at h
    · cases h
    · exact not_copied_of_renderTemplate h bytes
  · cases h
  · cases h

theorem content_eq_copied {t : TemplateTree} {n : Node} {p : Path} (hkind : n.kind = .file)
    (hsource : n.source = .path p) (htemplate : t.isTemplate n = false) {files : FileSystem}
    {bytes : ByteArray} (hread : files.read p = .ok bytes) (renderer : Renderer)
    (policy : FailurePolicy) :
    t.content files renderer policy n = .ok (.copied bytes, none) := by
  obtain ⟨source, b, rfl⟩ := exists_of_kind_eq_file hkind
  obtain rfl : source = .path p := hsource
  rw [content, htemplate]
  simp only [Bool.false_eq_true, if_false, hread]

/-! ## Top theorem -/

/-- A file of a built tree has one name, at the end of its source and of its path seen from the root,
and only this name is ever shortened for the destination, never to nothing.  It is shortened exactly
for a template, by the first suffix to mark it, and then no rendering gives a copy; if it is not, no
suffix marks it, and whenever the source can be read its bytes are what is written. -/
theorem template_iff_shortened {files : FileSystem} {source : Path}
    {b : Bindings} {options : TreeOptions} {t : TemplateTree} {warnings : List Warning}
    (hbuild : build files source b options = .ok (t, warnings)) {n : Node} (hn : n ∈ t.nodes)
    (hkind : n.kind = .file) :
    ∃ (p : Path) (above : Place) (name last : String),
      n.source = .path p ∧ p.fileName? = some name ∧
      (∀ piece ∈ above ++ [name], Ordinary piece) ∧
      t.relativePath? n = some (ofNames (above ++ [name])) ∧
      (∀ base, t.destination n base = destinationFrom n base (ofNames (above ++ [last]))) ∧
      last ≠ "" ∧
      (t.isTemplate n = true ↔ last.length < name.length) ∧
      (t.isTemplate n = true →
        (∃ suffix, FirstMark options.suffixes name suffix ∧ name = last ++ suffix) ∧
        ∀ files' renderer policy output warning,
          t.content files' renderer policy n = .ok (output, warning) →
          ∀ bytes, output ≠ .copied bytes) ∧
      (t.isTemplate n = false →
        last = name ∧ (∀ suffix ∈ options.suffixes, ¬ Marks suffix name) ∧
        ∀ files' renderer policy bytes, files'.read p = .ok bytes →
          t.content files' renderer policy n = .ok (.copied bytes, none)) := by
  obtain ⟨p, above, name, hsource, hname, hordinary, hrelative⟩ :=
    exists_name_of_build hbuild hn hkind
  obtain ⟨entry, -, -, rfl⟩ := exists_shown_of_build hbuild
  have hmark : isTemplate ⟨nodeOf source entry b, options⟩ n = true ↔
      ∃ suffix, FirstMark options.suffixes name suffix := isTemplate_iff hsource hname
  refine ⟨p, above, name, stripped options.suffixes name, hsource, hname, hordinary, hrelative, ?_⟩
  refine ⟨?_, ?_⟩
  · intro base
    rw [destination_eq_destinationFrom hrelative, dropSuffix_ofNames _ hordinary, stripLast_concat]
  cases htemplate : isTemplate ⟨nodeOf source entry b, options⟩ n with
  | true =>
    obtain ⟨suffix, hfirst⟩ := hmark.1 htemplate
    obtain ⟨hne, happend⟩ := stripped_append_of_marks hfirst
    refine ⟨hne, iff_of_true rfl (length_stripped_lt hfirst), ?_, ?_⟩
    · intro _
      refine ⟨⟨suffix, hfirst, happend⟩, ?_⟩
      intro files' renderer policy output warning hcontent bytes
      exact not_copied_of_isTemplate htemplate hcontent bytes
    · intro hfalse
      cases hfalse
  | false =>
    have hnone : ∀ suffix ∈ options.suffixes, ¬ Marks suffix name := by
      rw [← suffixOf?_eq_none_iff, Option.eq_none_iff_forall_ne_some]
      intro suffix hsome
      rw [hmark.2 ⟨suffix, suffixOf?_eq_some_iff.1 hsome⟩] at htemplate
      cases htemplate
    rw [stripped_of_not_marks hnone]
    refine ⟨(hordinary name (by simp)).ne_empty, iff_of_false (by simp) (Nat.lt_irrefl _), ?_, ?_⟩
    · intro htrue
      cases htrue
    · intro _
      refine ⟨rfl, hnone, ?_⟩
      intro files' renderer policy bytes hread
      exact content_eq_copied hkind hsource htemplate hread renderer policy

/-- A directory with a letter for each of two names. -/
def letterFiles : FileSystem :=
  ⟨.directory [("src", .directory [("sub", .directory
    [("%x%.txt.j2", .file ⟨#[104, 105]⟩), ("a.png", .file ⟨#[1]⟩)])])],
    [], .healthy, rfl, by decide +kernel⟩

def letterBindings : Bindings := .ofList [("x", .seq [.str "a", .str "b"])]

/-- The empty suffix marks nothing, and of two that fit the first one counts. -/
def letterOptions : TreeOptions := ⟨["", ".j2", ".txt.j2"], .literal⟩

theorem template_iff_shortened_letters :
    ∃ t warnings n name last suffix,
      build letterFiles ⟨"src"⟩ letterBindings letterOptions = .ok (t, warnings) ∧
      n ∈ t.nodes ∧ n.kind = .file ∧
      t.destination n (some ⟨"out"⟩) = .ok (some ⟨"out/sub/b.txt"⟩) ∧
      FirstMark letterOptions.suffixes name suffix ∧ name = last ++ suffix ∧ last ≠ "" := by
  have hcheck : ((build letterFiles ⟨"src"⟩ letterBindings letterOptions).toOption.any fun result =>
      result.1.nodes.any fun n => n.kind = .file && result.1.isTemplate n &&
        (result.1.destination n (some ⟨"out"⟩)).toOption = some (some ⟨"out/sub/b.txt"⟩)) = true := by
    decide +kernel
  cases hbuild : build letterFiles ⟨"src"⟩ letterBindings letterOptions with
  | error e =>
    rw [hbuild] at hcheck
    cases hcheck
  | ok result =>
    obtain ⟨t, warnings⟩ := result
    rw [hbuild] at hcheck
    obtain ⟨n, hn, hletter⟩ := List.any_eq_true.1 hcheck
    simp only [Bool.and_eq_true, decide_eq_true_eq] at hletter
    obtain ⟨⟨hkind, htemplate⟩, hdest⟩ := hletter
    obtain ⟨-, -, name, last, -, -, -, -, -, hne, -, hmarked, -⟩ :=
      template_iff_shortened hbuild hn hkind
    obtain ⟨⟨suffix, hfirst, happend⟩, -⟩ := hmarked htemplate
    exact ⟨t, warnings, n, name, last, suffix, rfl, hn, hkind, eq_ok_of_toOption hdest, hfirst,
      happend, hne⟩

end Stencil.TemplateTree
