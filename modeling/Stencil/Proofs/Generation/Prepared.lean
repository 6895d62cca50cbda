import Stencil.CommandLine.Response
import Stencil.Proofs.Bindings.Layers
import Stencil.Proofs.Tree.Checked
/-!
# What comes before the writing

For a command line the output directory is looked at, the bindings are loaded and the tree is built, all
from the files as they are found.  Only then is anything written, so whatever stands in the way before
leaves the files as they were, at whatever depth of the source it is met.

    w.perform a = the error of a.prepare w.files, or the pass over the tree that was prepared
    (∃ failure, a.prepare files = .error failure) ↔ ∃ e, a.Obstacle files e
-/

namespace Stencil

/-! ## Algorithm -/

namespace TemplateTree

/-- What the building of an entry comes to, at whatever depth: a directory that it lists, or a name and
the bindings in force there.  Each directory on the way is entered once for each variant of its name. -/
inductive Meets : Path → Entry → Bindings → Trial → Prop where
  | listing {source : Path} {children : List (String × Entry)} {b : Bindings} :
    Meets source (.directory children) b (.listing source)
  | name {source : Path} {children : List (String × Entry)} {name : String} {child : Entry}
      {b : Bindings} :
    (name, child) ∈ children → Meets source (.directory children) b (.name name b)
  | inside {source : Path} {children : List (String × Entry)} {name : String} {child : Entry}
      {b b' : Bindings} {t : Trial} :
    (name, child) ∈ children → b' ∈ variants name b → Meets (source.join ⟨name⟩) child b' t →
      Meets source (.directory children) b t

end TemplateTree

namespace Arguments

/-- All that is done before anything is written: the tree, and the warnings. -/
def prepare (a : Arguments) (files : FileSystem) :
    Except TemplateTree.Failure (TemplateTree × List Warning) :=
  match files.outputDirectory a.output a.force with
  | .error e => .error ⟨e, []⟩
  | .ok _ =>
    match a.loadBindings files with
    | .error e => .error ⟨e, []⟩
    | .ok b => TemplateTree.build files a.template b a.options.tree

/-- What stands in the way of a command line, and the error that tells of it. -/
inductive Obstacle (a : Arguments) (files : FileSystem) : Error → Prop where
  /-- The output directory is there, and writing into it is not forced. -/
  | output : a.force = false → files.pathExists a.output = true →
    Obstacle a files (.outputDirectoryExists a.output)
  /-- A bindings file cannot be read, or holds no bindings. -/
  | bindings {p : Path} {e : Error} : p ∈ a.bindings → files.readBindings p = .error e →
    Obstacle a files e
  /-- A text is no assignment, or assigns what cannot be a value. -/
  | data {text : String} {e : Error} : text ∈ a.data → Bindings.readAssignment text = .error e →
    Obstacle a files e
  | source {fault : FileFault} : files.lookup a.template = .error fault →
    Obstacle a files (if fault = .notFound then .sourceNotFound a.template else .io fault)
  /-- The source is a file with an unbound placeholder in its own name. -/
  | ownName {b : Bindings} {content : ByteArray} {p : Placeholder} {ps : List Placeholder} :
    a.strictPlaceholders = true → a.loadBindings files = .ok b →
    files.lookup a.template = .ok (.file content) →
    Placeholder.unbound a.template.fileName b = p :: ps →
    Obstacle a files (.unresolvedPlaceholder a.template.fileName p.literal)
  /-- A name that is met in the source has an unbound placeholder. -/
  | name {b b' : Bindings} {entry : Entry} {name : String} {p : Placeholder} {ps : List Placeholder} :
    a.strictPlaceholders = true → a.loadBindings files = .ok b →
    files.lookup a.template = .ok entry →
    TemplateTree.Meets a.template (files.shown a.template entry) b (.name name b') →
    Placeholder.unbound name b' = p :: ps → Obstacle a files (.unresolvedPlaceholder name p.literal)
  /-- A directory that is met in the source cannot be listed. -/
  | listing {b : Bindings} {entry : Entry} {directory : Path} {fault : FileFault} :
    a.loadBindings files = .ok b → files.lookup a.template = .ok entry →
    TemplateTree.Meets a.template (files.shown a.template entry) b (.listing directory) →
    files.listingFault? directory = some fault → Obstacle a files (.io fault)

end Arguments

/-! ## What is met -/

namespace TemplateTree

theorem meets_of_mem_trialsOf {source : Path} {entry : Entry} {b : Bindings} {t : Trial}
    (h : t ∈ trialsOf source entry b) : Meets source entry b t := by
  match entry with
  | .file content => cases h
  | .directory children =>
    rw [trialsOf] at h
    rcases List.mem_cons.1 h with rfl | h
    · exact .listing
    · obtain ⟨first, child, hmem, rfl | ⟨b', hb', hbelow⟩⟩ := mem_trialsIn_iff.1 h
      · exact .name hmem
      · have hsmaller := Entry.sizeOf_lt_of_mem hmem
        exact .inside hmem hb' (meets_of_mem_trialsOf hbelow)
termination_by sizeOf entry

/-- What is met is what is tried. -/
theorem mem_trialsOf_iff {source : Path} {entry : Entry} {b : Bindings} {t : Trial} :
    t ∈ trialsOf source entry b ↔ Meets source entry b t := by
  refine ⟨meets_of_mem_trialsOf, fun h => ?_⟩
  induction h with
  | listing =>
    rw [trialsOf]
    exact List.mem_cons_self
  | name hmem =>
    rw [trialsOf]
    exact List.mem_cons_of_mem _ (mem_trialsIn_iff.2 ⟨_, _, hmem, .inl rfl⟩)
  | inside hmem hb' _ ih =>
    rw [trialsOf]
    exact List.mem_cons_of_mem _ (mem_trialsIn_iff.2 ⟨_, _, hmem, .inr ⟨_, hb', ih⟩⟩)

theorem exists_of_mem_complaintsOf {files : FileSystem} {ts : List Trial} {c : Complaint}
    (h : c ∈ complaintsOf files ts) :
    ∃ b ps, .name c.2 b ∈ ts ∧ Placeholder.unbound c.2 b = c.1 :: ps := by
  induction ts with
  | nil => cases h
  | cons t ts ih =>
    rw [complaintsOf] at h
    split at h
    · cases h
    · rcases List.mem_append.1 h with h | h
      · cases t with
        | listing directory => cases h
        | name name b =>
          obtain ⟨p, hp, rfl⟩ := Option.map_eq_some_iff.1 (Option.mem_toList.1 h)
          obtain ⟨ps, hps⟩ := List.head?_eq_some_iff.1 hp
          exact ⟨b, ps, List.mem_cons_self, hps⟩
      · obtain ⟨b, ps, hmem, hps⟩ := ih h
        exact ⟨b, ps, List.mem_cons_of_mem _ hmem, hps⟩

theorem exists_of_findSome?_fault {files : FileSystem} {ts : List Trial} {fault : FileFault}
    (h : ts.findSome? (fault? files) = some fault) :
    ∃ directory, .listing directory ∈ ts ∧ files.listingFault? directory = some fault := by
  obtain ⟨t, ht, hfault⟩ := List.exists_of_findSome?_eq_some h
  cases t with
  | listing directory => exact ⟨directory, ht, hfault⟩
  | name name b => cases hfault

end TemplateTree

/-! ## Bindings -/

namespace Arguments

section
variable {files : FileSystem} {a : Arguments} {e : Error}

/-- Bindings that cannot be loaded have a file or an assignment at fault. -/
theorem of_loadBindings_eq_error (h : a.loadBindings files = .error e) : a.Obstacle files e := by
  obtain ⟨before, l, after, hlayers, -, herror⟩ := loadBindings_eq_error_iff.1 h
  have hmem : l ∈ a.layers := by simp [hlayers]
  cases l with
  | file p => exact .bindings (by simpa [layers] using hmem) herror
  | assignment text =>
    exact .data (by simpa [layers] using hmem) (Layer.read_assignment_eq_error_iff.1 herror)

theorem loadBindings_of_file {p : Path} (hp : p ∈ a.bindings) (h : files.readBindings p = .error e) :
    ∃ e', a.loadBindings files = .error e' :=
  exists_loadBindings_eq_error (l := .file p) (by simp [layers, hp]) h

theorem loadBindings_of_assignment {text : String} (htext : text ∈ a.data)
    (h : Bindings.readAssignment text = .error e) : ∃ e', a.loadBindings files = .error e' :=
  exists_loadBindings_eq_error (l := .assignment text) (by simp [layers, htext])
    (Layer.read_assignment_eq_error_iff.2 h)

/-! ## Trees -/

/-- The listing that faults is one of a directory of the source. -/
theorem obstacle_of_fault {b : Bindings} {entry : Entry} {fault : FileFault}
    (hb : a.loadBindings files = .ok b) (hlookup : files.lookup a.template = .ok entry)
    (hfault : TemplateTree.faultIn? files a.template entry b = some fault) :
    a.Obstacle files (.io fault) := by
  obtain ⟨directory, hmem, hlisting⟩ := TemplateTree.exists_of_findSome?_fault hfault
  have htried : .listing directory ∈
      TemplateTree.trialsOf a.template (files.shown a.template entry) b := by
    refine (List.mem_append.1 hmem).resolve_left fun hown => ?_
    split at hown <;> simp at hown
  exact .listing hb hlookup (TemplateTree.mem_trialsOf_iff.1 htried) hlisting

/-- What there is to complain about is the name of a source that is a file, or a name in it. -/
theorem obstacle_of_complaint {b : Bindings} {entry : Entry} {c : TemplateTree.Complaint}
    (hstrict : a.strictPlaceholders = true) (hb : a.loadBindings files = .ok b)
    (hlookup : files.lookup a.template = .ok entry)
    (hc : c ∈ TemplateTree.complaints files a.template entry b) : a.Obstacle files c.error := by
  obtain ⟨b', ps, hmem, hps⟩ := TemplateTree.exists_of_mem_complaintsOf hc
  rcases List.mem_append.1 hmem with hown | hbelow
  · cases entry with
    | directory children =>
      rw [FileSystem.shown_of_lookup hlookup] at hown
      cases hown
    | file content =>
      obtain ⟨hname, rfl⟩ := TemplateTree.Trial.name.inj (List.mem_singleton.1 hown)
      rw [hname] at hps
      rw [TemplateTree.Complaint.error, hname]
      exact .ownName hstrict hb hlookup hps
  · exact .name hstrict hb hlookup (TemplateTree.mem_trialsOf_iff.1 hbelow) hps

/-- A tree that cannot be built has no source, or a directory in it cannot be listed, or it is built
strictly and has something to complain about. -/
theorem of_build_eq_error {b : Bindings} {failure : TemplateTree.Failure}
    (hb : a.loadBindings files = .ok b)
    (h : TemplateTree.build files a.template b a.options.tree = .error failure) :
    a.Obstacle files failure.error := by
  cases hlookup : files.lookup a.template with
  | error fault =>
    rw [TemplateTree.build_of_lookup_eq_error hlookup] at h
    obtain rfl := Except.error.inj h
    exact .source hlookup
  | ok entry =>
    rw [options] at h
    cases hstrict : a.strictPlaceholders with
    | false =>
      rw [hstrict, if_neg Bool.false_ne_true] at h
      obtain ⟨e, ws⟩ := failure
      obtain ⟨-, fault, hfault, rfl⟩ := (TemplateTree.build_literal_eq_error_iff hlookup).1 h
      exact obstacle_of_fault hb hlookup hfault
    | true =>
      rw [hstrict, if_pos rfl, TemplateTree.build_strict hlookup] at h
      split at h
      · next c cs hcs =>
        obtain rfl := Except.error.inj h
        exact obstacle_of_complaint hstrict hb hlookup (hcs ▸ List.mem_cons_self)
      · next fault _ hfault =>
        obtain rfl := Except.error.inj h
        exact obstacle_of_fault hb hlookup hfault
      · cases h

/-- A tree is not built strictly with a name to complain about on the way. -/
theorem build_of_unbound {b b' : Bindings} {entry : Entry} {name : String} {p : Placeholder}
    {ps : List Placeholder} (hstrict : a.strictPlaceholders = true)
    (hlookup : files.lookup a.template = .ok entry)
    (hmem : .name name b' ∈ TemplateTree.trials a.template (files.shown a.template entry) b)
    (hps : Placeholder.unbound name b' = p :: ps) :
    ∃ failure, TemplateTree.build files a.template b a.options.tree = .error failure := by
  cases hbuild : TemplateTree.build files a.template b a.options.tree with
  | error failure => exact ⟨failure, rfl⟩
  | ok result =>
    rw [options, hstrict, if_pos rfl] at hbuild
    obtain ⟨-, -, hcs, hfault⟩ := (TemplateTree.build_strict_eq_ok_iff hlookup).1 hbuild
    have hnone := (TemplateTree.passes_of_complaintsOf hfault hcs).unbound_eq_nil hmem
    rw [hps] at hnone
    cases hnone

/-- Nor is it built with a directory that cannot be listed, strictly or not. -/
theorem build_of_listingFault {b : Bindings} {entry : Entry} {directory : Path} {fault : FileFault}
    (hlookup : files.lookup a.template = .ok entry)
    (hmem : .listing directory ∈ TemplateTree.trials a.template (files.shown a.template entry) b)
    (hfault : files.listingFault? directory = some fault) :
    ∃ failure, TemplateTree.build files a.template b a.options.tree = .error failure := by
  have hsome : (TemplateTree.faultIn? files a.template entry b).isSome := by
    rw [TemplateTree.faultIn?, List.findSome?_isSome_iff]
    exact ⟨_, hmem, by rw [TemplateTree.fault?, hfault]; rfl⟩
  obtain ⟨fault', hfault'⟩ := Option.isSome_iff_exists.1 hsome
  generalize a.options.tree = options
  obtain ⟨suffixes, policy⟩ := options
  cases policy with
  | literal =>
    rw [TemplateTree.build_literal hlookup, hfault']
    exact ⟨_, rfl⟩
  | strict =>
    rw [TemplateTree.build_strict hlookup, hfault']
    cases TemplateTree.complaints files a.template entry b <;> exact ⟨_, rfl⟩

/-! ## Preparation -/

theorem outputDirectory_eq_error_iff {p : Path} {force : Bool} :
    files.outputDirectory p force = .error e ↔
      force = false ∧ files.pathExists p = true ∧ e = .outputDirectoryExists p := by
  rw [FileSystem.outputDirectory]
  cases files.pathExists p <;> cases force <;> simp [eq_comm]

/-- A preparation fails with the error of something that stands in the way. -/
theorem obstacle_of_prepare {failure : TemplateTree.Failure} (h : a.prepare files = .error failure) :
    a.Obstacle files failure.error := by
  rw [prepare] at h
  split at h
  · next e houtput =>
    obtain rfl := Except.error.inj h
    obtain ⟨hforce, hexists, rfl⟩ := outputDirectory_eq_error_iff.1 houtput
    exact .output hforce hexists
  · split at h
    · next e hload =>
      obtain rfl := Except.error.inj h
      exact of_loadBindings_eq_error hload
    · next b hload => exact of_build_eq_error hload h

theorem prepare_of_loadBindings (h : ∃ e', a.loadBindings files = .error e') :
    ∃ failure, a.prepare files = .error failure := by
  obtain ⟨e', hload⟩ := h
  rw [prepare]
  split
  · exact ⟨_, rfl⟩
  · exact ⟨⟨e', []⟩, by rw [hload]⟩

theorem prepare_of_build
    (h : ∀ b, a.loadBindings files = .ok b →
      ∃ failure, TemplateTree.build files a.template b a.options.tree = .error failure) :
    ∃ failure, a.prepare files = .error failure := by
  rw [prepare]
  split
  · exact ⟨_, rfl⟩
  · cases hload : a.loadBindings files with
    | error e' => exact ⟨⟨e', []⟩, rfl⟩
    | ok b => exact h b hload

/-- Whatever stands in the way, the preparation fails. -/
theorem Obstacle.prepare (h : a.Obstacle files e) : ∃ failure, a.prepare files = .error failure := by
  cases h with
  | output hforce hexists =>
    have houtput := outputDirectory_eq_error_iff.2 ⟨hforce, hexists, rfl⟩
    exact ⟨_, by rw [Arguments.prepare, houtput]⟩
  | bindings hp hfail => exact prepare_of_loadBindings (loadBindings_of_file hp hfail)
  | data htext hfail => exact prepare_of_loadBindings (loadBindings_of_assignment htext hfail)
  | source hlookup =>
    exact prepare_of_build fun b _ => ⟨_, TemplateTree.build_of_lookup_eq_error hlookup _⟩
  | ownName hstrict hload hlookup hps =>
    refine prepare_of_build fun b hb => ?_
    obtain rfl := Except.ok.inj (hb.symm.trans hload)
    exact build_of_unbound hstrict hlookup List.mem_cons_self hps
  | name hstrict hload hlookup hmeets hps =>
    refine prepare_of_build fun b hb => ?_
    obtain rfl := Except.ok.inj (hb.symm.trans hload)
    have htried := TemplateTree.mem_trialsOf_iff.2 hmeets
    exact build_of_unbound hstrict hlookup (TemplateTree.mem_trials_of_mem_trialsOf htried) hps
  | listing hload hlookup hmeets hfault =>
    refine prepare_of_build fun b hb => ?_
    obtain rfl := Except.ok.inj (hb.symm.trans hload)
    have htried := TemplateTree.mem_trialsOf_iff.2 hmeets
    exact build_of_listingFault hlookup (TemplateTree.mem_trials_of_mem_trialsOf htried) hfault

end

end Arguments

/-! ## Runs -/

namespace Workspace

/-- A run is a preparation, and the pass over the tree that was prepared. -/
theorem perform_eq (w : Workspace) (a : Arguments) :
    w.perform a =
      match a.prepare w.files with
      | .error failure => (w.warn failure.warnings).fail failure.error
      | .ok (tree, warnings) =>
        (⟨tree, .standard false, a.policy⟩ : Pass).writeTree a.output (w.warn warnings) := by
  have hquiet : w.warn [] = w := by rw [warn, List.append_nil]
  rw [perform, Arguments.prepare]
  cases houtput : w.files.outputDirectory a.output a.force with
  | error e => exact (congrArg (fail · e) hquiet).symm
  | ok output =>
    obtain rfl : a.output = output := by
      rw [FileSystem.outputDirectory] at houtput
      split at houtput
      · cases houtput
      · exact Except.ok.inj houtput
    dsimp only
    cases a.loadBindings w.files with
    | error e => exact (congrArg (fail · e) hquiet).symm
    | ok b =>
      dsimp only
      rw [generate, withTree]
      cases TemplateTree.build w.files a.template b a.options.tree <;> rfl

theorem run_of_prepare_eq_error {w : Workspace} {words : List String} {a : Arguments}
    (hread : Arguments.read words = .ok a) {failure : TemplateTree.Failure}
    (h : a.prepare w.files = .error failure) :
    w.run words = (⟨w.files, w.warnings ++ failure.warnings⟩, .failed failure.error) := by
  rw [run, hread]
  simp only [perform_eq, h]
  rfl

theorem withTree_of_build_eq_error {α : Type} {w : Workspace} {source : Path} {b : Bindings}
    {options : TreeOptions} {failure : TemplateTree.Failure}
    (h : TemplateTree.build w.files source b options = .error failure)
    (next : TemplateTree → Workspace → Outcome α) :
    w.withTree source b options next =
      ⟨⟨w.files, w.warnings ++ failure.warnings⟩, .error failure.error⟩ := by
  rw [withTree, h]
  rfl

/-! ## Top theorem -/

/-- A command line that is understood is carried out in two parts, and the first changes nothing.  If the
preparation fails, the run ends with its error, which tells of something that stands in the way; the files
are what they were, and only the warnings of the build are added to those before.  If anything stands in
the way, the preparation fails.  Else the run is the pass over the whole tree that was built.  An output
path that is there already is the first thing in the way.  Neither does a generation or a file that is
rendered change anything, or make a new directory, where the tree cannot be built. -/
theorem unprepared_changes_nothing (w : Workspace) {words : List String} {a : Arguments}
    (hread : Arguments.read words = .ok a) :
    (∀ failure, a.prepare w.files = .error failure →
      w.run words = (⟨w.files, w.warnings ++ failure.warnings⟩, .failed failure.error) ∧
        a.Obstacle w.files failure.error) ∧
    (∀ e, a.Obstacle w.files e → ∃ e' warnings, a.Obstacle w.files e' ∧
      w.run words = (⟨w.files, w.warnings ++ warnings⟩, .failed e')) ∧
    (∀ tree warnings, a.prepare w.files = .ok (tree, warnings) →
      w.perform a = (⟨tree, .standard false, a.policy⟩ : Pass).writeTree a.output (w.warn warnings)) ∧
    (a.force = false → w.files.pathExists a.output = true →
      w.run words = (w, .failed (.outputDirectoryExists a.output))) ∧
    ∀ source b options failure, TemplateTree.build w.files source b options.tree = .error failure →
      (∀ target, w.generate source target b options =
        ⟨⟨w.files, w.warnings ++ failure.warnings⟩, .error failure.error⟩) ∧
      ∀ target, w.renderFile source target b options =
        ⟨⟨w.files, w.warnings ++ failure.warnings⟩, .error failure.error⟩ := by
  refine ⟨fun failure h => ?_, fun e h => ?_, fun tree warnings h => ?_, fun hforce hexists => ?_,
    fun source b options failure h => ?_⟩
  · exact ⟨run_of_prepare_eq_error hread h, Arguments.obstacle_of_prepare h⟩
  · obtain ⟨failure, hprepare⟩ := h.prepare
    exact ⟨failure.error, failure.warnings, Arguments.obstacle_of_prepare hprepare,
      run_of_prepare_eq_error hread hprepare⟩
  · rw [perform_eq, h]
  · have hprepare : a.prepare w.files = .error ⟨.outputDirectoryExists a.output, []⟩ := by
      rw [Arguments.prepare, Arguments.outputDirectory_eq_error_iff.2 ⟨hforce, hexists, rfl⟩]
    rw [run_of_prepare_eq_error hread hprepare, List.append_nil]
  · exact ⟨fun target => withTree_of_build_eq_error h _, fun target => withTree_of_build_eq_error h _⟩

/-- The page is not bound, and its name stands in a directory of the source. -/
def chapters : List (String × Entry) :=
  [("chapter", .directory [("%page%.txt", .file ⟨#[]⟩)]), ("index.txt", .file ⟨#[]⟩)]

def chapterFiles : FileSystem :=
  ⟨.directory [("src", .directory chapters)], [], .healthy, rfl, by decide +kernel⟩

def chapterWords : List String := ["--strict-placeholders", "src", "out"]

def chapterArguments : Arguments where
  template := ⟨"src"⟩
  output := ⟨"out"⟩
  bindings := []
  data := []
  force := false
  verbose := false
  policy := .embed
  strictPlaceholders := true
  suffixes := []

theorem unprepared_changes_nothing_chapter :
    Arguments.read chapterWords = .ok chapterArguments ∧
      chapterArguments.Obstacle chapterFiles (.unresolvedPlaceholder "%page%.txt" "%page%") ∧
      ∃ e warnings, run ⟨chapterFiles, []⟩ chapterWords = (⟨chapterFiles, warnings⟩, .failed e) := by
  have hread : Arguments.read chapterWords = .ok chapterArguments :=
    TemplateTree.eq_ok_of_toOption (by decide +kernel)
  have hlookup : chapterFiles.lookup ⟨"src"⟩ = .ok (.directory chapters) := by
    have hresolve : chapterFiles.resolve ⟨"src"⟩ = .ok ["src"] := by decide +kernel
    exact FileSystem.lookup_eq_ok_iff.2 ⟨["src"], hresolve, rfl⟩
  have hvariants : TemplateTree.variants "chapter" .empty = [.empty] := by
    have hnames : TemplateTree.namesOf "chapter" = [] := by decide +kernel
    rw [TemplateTree.variants, TemplateTree.expansionOf_of_settled (by simp [hnames])]
  have hmeets : TemplateTree.Meets ⟨"src"⟩ (chapterFiles.shown ⟨"src"⟩ (.directory chapters)) .empty
      (.name "%page%.txt" .empty) := by
    have hchapter : chapterFiles.isDirectory ((⟨"src"⟩ : Path).join ⟨"chapter"⟩) = true := by
      decide +kernel
    rw [FileSystem.shown_of_lookup hlookup, chapters, FileSystem.shownAll,
      FileSystem.shown_of_isDirectory hchapter, FileSystem.shownAll]
    refine .inside List.mem_cons_self ?_ (.name List.mem_cons_self)
    rw [hvariants]
    exact List.mem_cons_self
  have hunbound : Placeholder.unbound "%page%.txt" .empty = [.ofName "page"] := by decide +kernel
  have hliteral : (Placeholder.ofName "page").literal = "%page%" := by decide +kernel
  have hobstacle :
      chapterArguments.Obstacle chapterFiles (.unresolvedPlaceholder "%page%.txt" "%page%") := by
    rw [← hliteral]
    exact .name rfl rfl hlookup hmeets hunbound
  obtain ⟨e, warnings, -, hrun⟩ :=
    (unprepared_changes_nothing ⟨chapterFiles, []⟩ hread).2.1 _ hobstacle
  exact ⟨hread, hobstacle, e, warnings, hrun⟩

end Workspace

end Stencil
