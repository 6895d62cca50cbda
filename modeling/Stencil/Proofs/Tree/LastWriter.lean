import Mathlib.Data.List.TakeWhile
import Stencil.Proofs.Path.Join
import Stencil.Proofs.Tree.Accounting
import Stencil.Proofs.Tree.Frame
/-!
# The last writer of a file

After a pass that succeeds the directories on record are there, and a file on record holds what was made
of the last node that is written as that file, whatever its path is spelled like and whatever stood
there before.  Only a path without a parent can be on record and lead to no directory, since nothing is
made for it: the empty path, and the root in a spelling that is too long.

    fs.SameFile p q ↔ ∃ place, fs.resolve p = .ok place ∧ fs.resolve q = .ok place
    no file behind n is written as the same one → final.Holds t output.bytes
    final.isDirectory d ↔ d.parent?.isSome ∨ d.text ≠ "" ∧ d.text.utf8ByteSize < maxPathBytes
-/

namespace Stencil

/-! ## Paths without a parent -/

namespace Path

variable {p : Path} (h : p.parent? = none)
include h

theorem labelled_of_parent?_eq_none : ∀ l ∈ p.labelled, l.2 = none := by
  rw [parent?] at h
  split at h
  · next htrim =>
    rw [trimEnd, List.reverse_eq_nil_iff, List.dropWhile_eq_nil_iff] at htrim
    intro l hl
    simpa using htrim l (List.mem_reverse.2 hl)
  · cases h

/-- A path without a parent is the empty path or the root. -/
theorem text_of_parent?_eq_none (hrelative : p.isAbsolute = false) : p.text = "" := by
  cases hchars : p.text.toList with
  | nil => exact String.toList_eq_nil_iff.1 hchars
  | cons c cs =>
    have hc : c ≠ separator := by
      rintro rfl
      simp [isAbsolute, hchars] at hrelative
    -- a first piece with a character in it is a component, be it `.`
    obtain ⟨piece, pieces, -, hsplit⟩ := Text.splitOnChar_cons_ne hc cs
    have hne : String.ofList (c :: piece) ≠ "" := by
      simp [← String.toList_inj]
    have hnone := labelled_of_parent?_eq_none h
    rw [labelled_eq, Path.pieces, hchars, hsplit, hrelative, List.map_cons, label,
      List.forall_mem_append] at hnone
    have hfirst := hnone.1 (String.ofList (c :: piece), componentOf? true (String.ofList (c :: piece)))
      (by simp)
    rw [componentOf?, if_neg hne] at hfirst
    split at hfirst
    · cases hfirst
    · split at hfirst <;> cases hfirst

theorem pieces_of_parent?_eq_none : ∀ piece ∈ p.pieces, piece = "" ∨ piece = "." := by
  cases habsolute : p.isAbsolute with
  | false =>
    have hpieces : p.pieces = [""] := by
      rw [pieces, text_of_parent?_eq_none h habsolute]
      rfl
    simp [hpieces]
  | true =>
    -- in front of the separator that comes first stands nothing
    obtain ⟨rest, hpieces⟩ := pieces_of_isAbsolute habsolute
    have hnone := labelled_of_parent?_eq_none h
    rw [labelled_eq, habsolute, hpieces, label, List.forall_mem_append] at hnone
    rw [hpieces]
    refine List.forall_mem_cons.2 ⟨.inl rfl, fun piece hmem => ?_⟩
    have hcomponent : componentOf? false piece = none := hnone.2 _ (List.mem_map_of_mem hmem)
    rw [componentOf?] at hcomponent
    split at hcomponent
    · next hempty => exact .inl hempty
    · split at hcomponent
      · next hcurrent => exact .inr hcurrent
      · split at hcomponent <;> cases hcomponent

theorem nul_not_mem_of_parent?_eq_none : '\x00' ∉ p.text.toList := by
  intro hmem
  have hne : '\x00' ≠ separator := by decide
  obtain ⟨piece, hpiece, hnul⟩ := Text.exists_mem_splitOnChar hne hmem
  rcases pieces_of_parent?_eq_none h _ (List.mem_map_of_mem hpiece) with hempty | hcurrent
  · rw [← String.toList_inj, String.toList_ofList] at hempty
    rw [hempty] at hnul
    cases hnul
  · rw [← String.toList_inj, String.toList_ofList] at hcurrent
    rw [hcurrent] at hnul
    revert hnul
    decide

end Path

namespace FileSystem

variable {fs : FileSystem}

/-- The empty path and the root name the place from which paths are walked. -/
theorem placeOf_of_parent?_eq_none {p : Path} (h : p.parent? = none) (fs : FileSystem) :
    fs.placeOf p = fs.start p := by
  have hstay : ∀ (pieces : List String) (place : Place),
      (∀ piece ∈ pieces, piece = "" ∨ piece = ".") → pieces.foldl goTo place = place := by
    intro pieces place hpieces
    induction pieces with
    | nil => rfl
    | cons piece pieces ih =>
      obtain ⟨hpiece, hrest⟩ := List.forall_mem_cons.1 hpieces
      have hgo : goTo place piece = place := by
        rcases hpiece with rfl | rfl <;> simp [goTo]
      rw [List.foldl_cons, hgo, ih hrest]
  exact hstay p.pieces (fs.start p) (Path.pieces_of_parent?_eq_none h)

/-- The empty path leads nowhere, and a spelling of the root leads to a directory if it is not too
long. -/
theorem isDirectory_of_parent?_eq_none {p : Path} (h : p.parent? = none) (fs : FileSystem) :
    fs.isDirectory p = true ↔ p.text ≠ "" ∧ p.text.utf8ByteSize < maxPathBytes := by
  rw [isDirectory_iff]
  constructor
  · rintro ⟨place, hresolve, -⟩
    exact (pathFault?_eq_none_iff.1 (resolve_eq_ok_iff.1 hresolve).1).2
  · rintro ⟨htext, hshort⟩
    have habsolute : p.isAbsolute = true := by
      by_contra hrelative
      exact htext (Path.text_of_parent?_eq_none h (Bool.not_eq_true _ ▸ hrelative))
    refine ⟨[], resolve_eq_ok_iff.2 ⟨?_, ?_⟩, fs.item?_root⟩
    · exact pathFault?_eq_none_iff.2 ⟨Path.nul_not_mem_of_parent?_eq_none h, htext, hshort⟩
    · rw [start, habsolute, if_pos rfl]
      exact walk_of_stay fs.item?_root (Path.pieces_of_parent?_eq_none h)

theorem item?_placeOf_of_isDirectory {p : Path} (h : fs.isDirectory p = true) :
    fs.item? (fs.placeOf p) = some .directory := by
  obtain ⟨place, hresolve, hitem⟩ := isDirectory_iff.1 h
  rw [← eq_placeOf_of_resolve hresolve]
  exact hitem

/-! ## The same file -/

/-- Both paths lead to one place. -/
def SameFile (fs : FileSystem) (p q : Path) : Prop :=
  ∃ place, fs.resolve p = .ok place ∧ fs.resolve q = .ok place

end FileSystem

/-! ## Turns -/

namespace Pass

open FileSystem

section
variable {pass : Pass} {base : Path}

/-- A file that had its turn holds what was made of it. -/
theorem of_file_turn {n : Node} {t : Path} {turn next : Progress}
    (hn : pass.writeNode base n turn = (next, none)) (ht : pass.fileTarget? base n = some t) :
    ∃ output warning place,
      pass.tree.content turn.files pass.renderer pass.policy n = .ok (output, warning) ∧
        next.files.resolve t = .ok place ∧ next.files.item? place = some (.file output.bytes) := by
  obtain ⟨d, hd, hperform, -⟩ := exists_deed hn
  have hwrites : d.fileTarget? = some t := (target?_of_deed hd).2.trans ht
  cases d with
  | writeFile target output =>
    obtain rfl : target = t := Option.some.inj hwrites
    obtain ⟨warning, hcontent⟩ := content_of_deed hd
    rw [Deed.perform] at hperform
    obtain ⟨made, place, -, hputs⟩ := of_writeFile_eq_ok hperform
    exact ⟨output, warning, place, hcontent, hputs.resolve, by rw [hputs.item?, if_pos rfl]⟩
  | nothing => cases hwrites
  | skip source => cases hwrites
  | makeDirectory target => cases hwrites

variable {ns : List Node} {ds : List Deed} {p p' : Progress} (hrun : Run pass base p ns ds p')
include hrun

/-- A run changes the files that its nodes are written as, and makes directories above them. -/
theorem Run.touches : Touches (pass.Writes base ns) (pass.Makes base ns) p.files p'.files := by
  have htouches := pass.touches_writeNodes base ns p
  rwa [exists_run_iff.1 ⟨ds, hrun⟩] at htouches

theorem Run.toExtends : Extends p.files p'.files := hrun.touches.toExtends

/-- Every deed of a run was done, and what there was then is there still. -/
theorem Run.perform_of_mem {d : Deed} (hd : d ∈ ds) :
    ∃ fs fs', d.perform fs = (fs', none) ∧ Extends fs' p'.files := by
  induction hrun with
  | nil p => cases hd
  | @cons p next p' n ns first ds hn hdeed hrest ih =>
    rcases List.mem_cons.1 hd with rfl | hd
    · obtain ⟨d', hd', hperform, -⟩ := exists_deed hn
      obtain rfl := Except.ok.inj (hdeed.symm.trans hd')
      exact ⟨p.files, next.files, hperform, hrest.toExtends⟩
    · exact ih hd

/-- A directory of a run is there in the end; nothing is made for a path without a parent. -/
theorem Run.directory {d : Path} (hd : Deed.makeDirectory d ∈ ds) :
    (p'.files.isDirectory d = true ↔
      d.parent?.isSome ∨ d.text ≠ "" ∧ d.text.utf8ByteSize < maxPathBytes) ∧
    (p.files.item? p.files.current = some .directory →
      p'.files.item? (p'.files.placeOf d) = some .directory) := by
  obtain ⟨fs, fs', hperform, hend⟩ := hrun.perform_of_mem hd
  cases hparent : d.parent? with
  | some parent =>
    rw [Deed.perform, Prod.mk.injEq, Option.map_eq_none_iff] at hperform
    have hmade : p'.files.isDirectory d = true :=
      hend.isDirectory (isDirectory_of_makeDirectories (Prod.ext hperform.1 hperform.2)
        (by rw [hparent]; rfl))
    exact ⟨iff_of_true hmade (.inl rfl), fun _ => item?_placeOf_of_isDirectory hmade⟩
  | none =>
    refine ⟨?_, fun hcurrent => ?_⟩
    · rw [isDirectory_of_parent?_eq_none hparent]
      simp
    · have hdir := hrun.toExtends.directory _ hcurrent
      rw [← hrun.toExtends.current] at hdir
      rw [placeOf_of_parent?_eq_none hparent, start]
      split
      · exact p'.files.item?_root
      · exact hdir

/-- The place of a file, and what is there in the end if no file behind it has the same place. -/
theorem Run.file {before after : List Node} {n : Node} (hns : ns = before ++ n :: after) {t : Path}
    (ht : pass.fileTarget? base n = some t) :
    ∃ turn output warning place, pass.writeNodes base before p = (turn, none) ∧
      pass.tree.content turn.files pass.renderer pass.policy n = .ok (output, warning) ∧
      p'.files.resolve t = .ok place ∧
      ((∀ m ∈ after, ∀ s, pass.fileTarget? base m = some s → p'.files.resolve s ≠ .ok place) →
        p'.files.item? place = some (.file output.bytes)) := by
  obtain ⟨ds₁, turn, d, next, ds₂, -, hbefore, hn, -, hafter⟩ := hrun.turn hns
  obtain ⟨output, warning, place, hcontent, hresolve, hitem⟩ := of_file_turn hn ht
  refine ⟨turn, output, warning, place, exists_run_iff.1 ⟨ds₁, hbefore⟩, hcontent,
    hafter.toExtends.resolve hresolve, fun hlast => ?_⟩
  rcases hafter.touches.item? place with hsame | ⟨-, content, s, -, ⟨m, hm, hs⟩, hresolve'⟩ | ⟨hnone, -⟩
  · exact hsame.trans hitem
  · exact absurd hresolve' (hlast m hm s hs)
  · rw [hitem] at hnone
    cases hnone

end

/-! ## Trees -/

/-- A member with a property has a last one behind which there is no other. -/
theorem exists_last {α : Type} {P : α → Prop} {xs : List α} (h : ∃ x ∈ xs, P x) :
    ∃ before x after, xs = before ++ x :: after ∧ P x ∧ ∀ y ∈ after, ¬ P y := by
  induction xs with
  | nil =>
    obtain ⟨x, hx, -⟩ := h
    cases hx
  | cons a xs ih =>
    by_cases hrest : ∃ x ∈ xs, P x
    · obtain ⟨before, x, after, rfl, hx, hafter⟩ := ih hrest
      exact ⟨a :: before, x, after, rfl, hx, hafter⟩
    · obtain ⟨x, hx, hP⟩ := h
      rcases List.mem_cons.1 hx with rfl | hx
      · exact ⟨[], x, xs, rfl, hP, fun y hy hPy => hrest ⟨y, hy, hPy⟩⟩
      · exact absurd ⟨x, hx, hP⟩ hrest

/-- What is made of a file that is no template is what is read. -/
theorem of_content_plain {tree : TemplateTree} {files : FileSystem} {renderer : Renderer}
    {policy : FailurePolicy} {source : Path} {bindings : Bindings}
    (hplain : tree.isTemplate (.file (.path source) bindings) = false) {output : Output}
    {warning : Option Warning}
    (h : tree.content files renderer policy (.file (.path source) bindings) = .ok (output, warning)) :
    files.read source = .ok output.bytes := by
  rw [TemplateTree.content, hplain, if_neg Bool.false_ne_true] at h
  split at h
  · cases h
  · next content hread =>
    obtain ⟨rfl, -⟩ := Prod.mk.inj (Except.ok.inj h)
    exact hread

/-- After a pass that succeeds a directory on record is there, unless it is the empty path or a spelling
of the root that is too long; what these name, the current directory or the root, is there too.  Every file
on record holds what was made, at its turn, of the last node that is written as that file, and a plain file
that no later node is written over holds the bytes that were read. -/
theorem last_writer_wins {pass : Pass} {base : Path} {w w' : Workspace} {report : Report}
    (h : pass.writeTree base w = ⟨w', .ok report⟩) :
    (∀ d ∈ report.directories,
      (w'.files.isDirectory d = true ↔
        d.parent?.isSome ∨ d.text ≠ "" ∧ d.text.utf8ByteSize < maxPathBytes) ∧
      (w.files.item? w.files.current = some .directory →
        w'.files.item? (w'.files.placeOf d) = some .directory)) ∧
    (∀ f ∈ report.files, ∃ before n after turn t output warning,
      pass.tree.nodes = before ++ n :: after ∧
      pass.writeNodes base before ⟨w, .empty base⟩ = (turn, none) ∧
      pass.fileTarget? base n = some t ∧ w'.files.SameFile f t ∧
      (∀ m ∈ after, ∀ s, pass.fileTarget? base m = some s → ¬ w'.files.SameFile f s) ∧
      pass.tree.content turn.files pass.renderer pass.policy n = .ok (output, warning) ∧
      w'.files.Holds f output.bytes) ∧
    (∀ before source bindings after t,
      pass.tree.nodes = before ++ .file (.path source) bindings :: after →
      pass.tree.isTemplate (.file (.path source) bindings) = false →
      pass.fileTarget? base (.file (.path source) bindings) = some t →
      (∀ m ∈ after, ∀ s, pass.fileTarget? base m = some s → ¬ w'.files.SameFile t s) →
      ∃ turn content, pass.writeNodes base before ⟨w, .empty base⟩ = (turn, none) ∧
        turn.files.read source = .ok content ∧ w'.files.Holds t content) := by
  obtain ⟨ds, hrun⟩ := exists_run_iff.2 (writeTree_eq_ok_iff.1 h)
  have hreport : report = Deed.reportOf base ds := hrun.report_eq
  refine ⟨fun d hd => ?_, fun f hf => ?_, ?_⟩
  · have hline : some (Report.Part.directories, d) ∈ ds.map Deed.line? := by
      rw [← Report.mem_listed_iff, ← Deed.list_reportOf base, ← hreport]
      exact hd
    obtain ⟨deed, hdeed, hline⟩ := List.mem_map.1 hline
    cases deed with
    | makeDirectory target =>
      obtain rfl : target = d := congrArg Prod.snd (Option.some.inj hline)
      exact hrun.directory hdeed
    | nothing => cases hline
    | skip source => cases hline
    | writeFile target output => cases output <;> cases hline
  · -- the file is the destination of a node, so there is a last node with the same place
    rw [hreport, (Deed.files_reportOf_perm base ds).mem_iff, hrun.fileTargets_eq,
      List.mem_filterMap] at hf
    obtain ⟨first, hfirst, hf⟩ := hf
    obtain ⟨before, after, hnodes⟩ := List.append_of_mem hfirst
    obtain ⟨-, -, -, place, -, -, hplace, -⟩ := hrun.file hnodes hf
    obtain ⟨before, n, after, hnodes, ⟨t, ht, hsame⟩, hlast⟩ := exists_last
      ⟨first, hfirst, f, hf, hplace⟩ (P := fun m => ∃ s, pass.fileTarget? base m = some s ∧
        w'.files.resolve s = .ok place)
    obtain ⟨turn, output, warning, place', hturn, hcontent, hresolve, hitem⟩ := hrun.file hnodes ht
    obtain rfl : place' = place := Except.ok.inj (hresolve.symm.trans hsame)
    refine ⟨before, n, after, turn, t, output, warning, hnodes, hturn, ht,
      ⟨place', hplace, hresolve⟩, fun m hm s hs ⟨q, hq, hqs⟩ => ?_, hcontent, ?_⟩
    · obtain rfl : q = place' := Except.ok.inj (hq.symm.trans hplace)
      exact hlast m hm ⟨s, hs, hqs⟩
    · exact ⟨place', hplace, hitem fun m hm s hs hqs => hlast m hm ⟨s, hs, hqs⟩⟩
  · intro before source bindings after t hnodes hplain ht hlast
    obtain ⟨turn, output, warning, place, hturn, hcontent, hresolve, hitem⟩ := hrun.file hnodes ht
    refine ⟨turn, output.bytes, hturn, of_content_plain hplain hcontent, ?_⟩
    exact ⟨place, hresolve, hitem fun m hm s hs hqs => hlast m hm s hs ⟨place, hresolve, hqs⟩⟩

theorem last_writer_wins_pair :
    ∃ w' report, pairPass.writeTree ⟨"out"⟩ ⟨pairFiles, []⟩ = ⟨w', .ok report⟩ ∧
      ∃ before n after turn output warning, pairPass.tree.nodes = before ++ n :: after ∧
        pairPass.writeNodes ⟨"out"⟩ before ⟨⟨pairFiles, []⟩, .empty ⟨"out"⟩⟩ = (turn, none) ∧
        pairPass.tree.content turn.files pairPass.renderer pairPass.policy n = .ok (output, warning) ∧
        w'.files.Holds ⟨"out/a.txt"⟩ output.bytes := by
  have hfiles : ((pairPass.writeTree ⟨"out"⟩ ⟨pairFiles, []⟩).result.toOption.map Report.files) =
      some [⟨"out/a.txt"⟩, ⟨"out/a.txt"⟩] := by decide +kernel
  cases hwrite : pairPass.writeTree ⟨"out"⟩ ⟨pairFiles, []⟩ with
  | mk w' result =>
    rw [hwrite] at hfiles
    cases result with
    | error e => cases hfiles
    | ok report =>
      have hmem : (⟨"out/a.txt"⟩ : Path) ∈ report.files := by
        have hlist : report.files = [⟨"out/a.txt"⟩, ⟨"out/a.txt"⟩] := Option.some.inj hfiles
        rw [hlist]
        exact List.mem_cons_self
      obtain ⟨before, n, after, turn, t, output, warning, hnodes, hturn, -, -, -, hcontent, hholds⟩ :=
        (last_writer_wins hwrite).2.1 _ hmem
      exact ⟨w', report, rfl, before, n, after, turn, output, warning, hnodes, hturn, hcontent, hholds⟩

/-- Written under the empty path, a tree has the empty path on record as its first directory. -/
theorem not_last_writer_wins_empty :
    ¬ ∀ (pass : Pass) (base : Path) (w w' : Workspace) (report : Report),
      pass.writeTree base w = ⟨w', .ok report⟩ →
        ∀ d ∈ report.directories, w'.files.isDirectory d = true := by
  intro hall
  have hdirectories : ((pairPass.writeTree ⟨""⟩ ⟨pairFiles, []⟩).result.toOption.map
      Report.directories) = some [⟨""⟩] := by decide +kernel
  cases hwrite : pairPass.writeTree ⟨""⟩ ⟨pairFiles, []⟩ with
  | mk w' result =>
    rw [hwrite] at hdirectories
    cases result with
    | error e => cases hdirectories
    | ok report =>
      have hmem : (⟨""⟩ : Path) ∈ report.directories := by
        have hlist : report.directories = [⟨""⟩] := Option.some.inj hdirectories
        rw [hlist]
        exact List.mem_cons_self
      obtain ⟨place, hresolve, -⟩ := isDirectory_iff.1 (hall _ _ _ _ _ hwrite _ hmem)
      cases (resolve_eq_ok_iff.1 hresolve).1

end Pass

end Stencil
