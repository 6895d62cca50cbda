import Stencil.Proofs.Tree.Deeds
import Stencil.Proofs.Tree.Resolved
/-!
# Trees that are one file

A tree that is one file can be written under a directory, with the destination that its name gives it,
or to a path of its own.  Whether there is a destination is the same with and without the directory, and
written to the same path the two leave the same behind: the file, the warnings, and the report but for
the output directory.  No other tree is written to a path of its own.

    destination n (some base) = (destination n none).map (·.map fun p => under (some base) p.text)
    writeTree base w = outcome (writeFile root target start), target: the destination of the root
    writeFile n target (p.withOutputDirectory d) = (writeFile n target p).withOutputDirectory d
-/

namespace Stencil

/-! ## Output directories -/

/-- The same report for another output directory. -/
def Report.withOutputDirectory (r : Report) (directory : Path) : Report :=
  { r with outputDirectory := directory }

/-- The same progress towards another output directory. -/
def Progress.withOutputDirectory (p : Progress) (directory : Path) : Progress :=
  { p with report := p.report.withOutputDirectory directory }

/-- The same step towards another output directory. -/
def Step.withOutputDirectory (s : Step) (directory : Path) : Step :=
  (s.1.withOutputDirectory directory, s.2)

namespace TemplateTree

/-- The directory is only put in front of the filled path: it decides neither whether there is one nor
which error there is. -/
theorem destination_some_eq (t : TemplateTree) (n : Node) (base : Path) :
    t.destination n (some base) =
      (t.destination n none).map (·.map fun p => under (some base) p.text) := by
  rw [destination, destination]
  cases t.relativePath? n with
  | none => rfl
  | some relative =>
    simp only
    cases Placeholder.fillAll (Placeholder.bound (dropSuffix t.options.suffixes relative).text n.bindings)
      n.bindings (dropSuffix t.options.suffixes relative).text with
    | error e => rfl
    | ok filled =>
      cases filled with
      | none => rfl
      | some filled =>
        simp only
        by_cases hlacks : (n.kind != .directory && lacksName filled) = true
        · rw [if_pos hlacks, if_pos hlacks]
          rfl
        · rw [if_neg hlacks, if_neg hlacks]
          rfl

end TemplateTree

namespace Pass

/-! ## Files -/

/-- Where a file is written to and what is written do not depend on the output directory. -/
theorem writeFile_withOutputDirectory (pass : Pass) (n : Node) (target : Path) (p : Progress)
    (directory : Path) : pass.writeFile n target (p.withOutputDirectory directory) =
      Step.withOutputDirectory (pass.writeFile n target p) directory := by
  have hfiles : (p.withOutputDirectory directory).files = p.files := rfl
  rw [writeFile, writeFile, hfiles]
  cases pass.tree.content p.files pass.renderer pass.policy n with
  | error e => rfl
  | ok result =>
    obtain ⟨output, warning⟩ := result
    simp only [Progress.files_warn, hfiles]
    cases p.files.writeFile target output.bytes with
    | mk files fault =>
      cases fault with
      | some e => rfl
      | none =>
        cases output with
        | rendered text => rfl
        | copied content => rfl
        | failed text => rfl

theorem outcome_withOutputDirectory (s : Step) (directory : Path) :
    outcome (s.withOutputDirectory directory) =
      ⟨(outcome s).workspace, (outcome s).result.map (·.withOutputDirectory directory)⟩ := by
  obtain ⟨p, fault⟩ := s
  cases fault with
  | none => rfl
  | some e => rfl

/-! ## One node -/

section
variable {pass : Pass}

theorem nodes_of_file (h : pass.tree.root.kind = .file) : pass.tree.nodes = [pass.tree.root] := by
  obtain ⟨source, b, hroot⟩ := TemplateTree.exists_of_kind_eq_file h
  rw [TemplateTree.nodes, hroot]
  exact TemplateTree.preorder_of_children_eq_nil rfl

/-- Nothing is claimed before the only file. -/
theorem claim_empty (w : Workspace) (directory target : Path) :
    Progress.claim ⟨w, .empty directory⟩ target = ⟨w, .empty directory⟩ := rfl

theorem writeTree_of_file (h : pass.tree.root.kind = .file) (base : Path) (w : Workspace) :
    pass.writeTree base w =
      match pass.tree.destination pass.tree.root (some base) with
      | .error e => w.fail e
      | .ok none => outcome (Progress.skip ⟨w, .empty base⟩ pass.tree.root.source.label
          (.noDestination pass.tree.root.source.label), none)
      | .ok (some target) => outcome (pass.writeFile pass.tree.root target ⟨w, .empty base⟩) := by
  have hkind : pass.tree.root.kind ≠ .expanded := by simp [h]
  have hstep := @writeNode_of_kind_ne pass base _ hkind ⟨w, .empty base⟩
  rw [writeTree, nodes_of_file h, writeNodes, hstep]
  cases pass.tree.destination pass.tree.root (some base) with
  | error e => rfl
  | ok found =>
    cases found with
    | none => rfl
    | some target =>
      simp only
      rw [if_neg (by simp [h]), claim_empty]
      cases pass.writeFile pass.tree.root target ⟨w, .empty base⟩ with
      | mk p fault =>
        cases fault with
        | none => rfl
        | some e => rfl

/-- The single file is decided by its destination under any directory. -/
theorem writeSingle_of_file (h : pass.tree.root.kind = .file) (base target : Path) (w : Workspace) :
    pass.writeSingle target w =
      match pass.tree.destination pass.tree.root (some base) with
      | .error e => w.fail e
      | .ok none => outcome (Progress.skip ⟨w, .empty (target.parent?.getD ⟨""⟩)⟩
          pass.tree.root.source.label (.noContent pass.tree.root.source.label), none)
      | .ok (some _) => outcome (pass.writeFile pass.tree.root target
          ⟨w, .empty (target.parent?.getD ⟨""⟩)⟩) := by
  obtain ⟨source, b, hroot⟩ := TemplateTree.exists_of_kind_eq_file h
  rw [writeSingle, TemplateTree.destination_some_eq, hroot]
  simp only
  cases pass.tree.destination (.file source b) none with
  | error e => rfl
  | ok found =>
    cases found with
    | none => rfl
    | some p => rfl

/-! ## Top theorem -/

/-- Nothing is written, and the report lists one source as skipped. -/
def OnlySkips (o : Outcome Report) (w : Workspace) (directory source : Path) : Prop :=
  o.workspace.files = w.files ∧ o.result = .ok { Report.empty directory with skipped := [source] }

theorem writeSingle_eq_writeTree (h : pass.tree.root.kind = .file) {base target : Path}
    (hdest : pass.tree.destination pass.tree.root (some base) = .ok (some target)) (w : Workspace) :
    pass.writeSingle target w = ⟨(pass.writeTree base w).workspace,
      (pass.writeTree base w).result.map (·.withOutputDirectory (target.parent?.getD ⟨""⟩))⟩ := by
  rw [writeSingle_of_file h base, writeTree_of_file h, hdest]
  show outcome (pass.writeFile pass.tree.root target
    (Progress.withOutputDirectory ⟨w, .empty base⟩ (target.parent?.getD ⟨""⟩))) = _
  rw [writeFile_withOutputDirectory, outcome_withOutputDirectory]

/-- For a tree that is one file, and for every directory: if the file has a destination there, writing
to exactly that path and writing the tree under the directory come to the same error, or to reports that
differ in the output directory alone, and leave the same behind; if it has none, either of the two only
reports the file as skipped; and an error of the destination is the error of both.  Any other tree is
refused for every path, and nothing is changed. -/
theorem writeSingle_agrees (pass : Pass) (w : Workspace) :
    (pass.tree.root.kind = .file → ∀ base : Path,
      (∀ target, pass.tree.destination pass.tree.root (some base) = .ok (some target) →
        (pass.writeSingle target w).workspace = (pass.writeTree base w).workspace ∧
        (pass.writeSingle target w).result =
          (pass.writeTree base w).result.map
            (·.withOutputDirectory (target.parent?.getD ⟨""⟩))) ∧
      (pass.tree.destination pass.tree.root (some base) = .ok none → ∀ target,
        OnlySkips (pass.writeSingle target w) w (target.parent?.getD ⟨""⟩)
          pass.tree.root.source.label ∧
        OnlySkips (pass.writeTree base w) w base pass.tree.root.source.label) ∧
      ∀ e, pass.tree.destination pass.tree.root (some base) = .error e → ∀ target,
        pass.writeSingle target w = w.fail e ∧ pass.writeTree base w = w.fail e) ∧
    (∀ source b children, pass.tree.root = .directory source b children → ∀ target,
      pass.writeSingle target w = w.fail (.config (.isDirectory source))) ∧
    ∀ source b children, pass.tree.root = .expanded source b children → ∀ target,
      pass.writeSingle target w = w.fail (.config (.expands source children.length)) := by
  refine ⟨?_, ?_, ?_⟩
  · intro h base
    refine ⟨?_, ?_, ?_⟩
    · intro target hdest
      rw [writeSingle_eq_writeTree h hdest]
      exact ⟨rfl, rfl⟩
    · intro hdest target
      rw [writeSingle_of_file h base, writeTree_of_file h, hdest]
      exact ⟨⟨rfl, rfl⟩, rfl, rfl⟩
    · intro e hdest target
      rw [writeSingle_of_file h base, writeTree_of_file h, hdest]
      exact ⟨rfl, rfl⟩
  · intro source b children hroot target
    rw [writeSingle, hroot]
  · intro source b children hroot target
    rw [writeSingle, hroot]

end

/-- The file of a page, named for its number. -/
def pagePass : Pass :=
  ⟨⟨.file (.path ⟨"page-%n%.txt.template"⟩) (.ofList [("n", .int 7)]), .standard⟩,
    fun _ text _ => .ok text, .abort⟩

def pageDisk : FileSystem :=
  ⟨.directory [("out", .directory []), ("page-%n%.txt.template", .file ⟨#[112, 55]⟩)],
    [], .healthy, rfl, by decide +kernel⟩

theorem writeSingle_agrees_page :
    pagePass.tree.root.kind = .file ∧
      pagePass.tree.destination pagePass.tree.root (some ⟨"out"⟩) = .ok (some ⟨"out/page-7.txt"⟩) ∧
      ((pagePass.writeTree ⟨"out"⟩ ⟨pageDisk, []⟩).result.toOption.map Report.files) =
        some [⟨"out/page-7.txt"⟩] ∧
      (pagePass.writeSingle ⟨"out/page-7.txt"⟩ ⟨pageDisk, []⟩).workspace =
        (pagePass.writeTree ⟨"out"⟩ ⟨pageDisk, []⟩).workspace := by
  have hdest : pagePass.tree.destination pagePass.tree.root (some ⟨"out"⟩) =
      .ok (some ⟨"out/page-7.txt"⟩) := TemplateTree.eq_ok_of_toOption (by decide +kernel)
  refine ⟨rfl, hdest, by decide +kernel, ?_⟩
  exact (((writeSingle_agrees pagePass ⟨pageDisk, []⟩).1 rfl ⟨"out"⟩).1 _ hdest).1

end Pass

end Stencil
