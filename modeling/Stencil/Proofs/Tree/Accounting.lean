import Mathlib.Data.Finset.Card
import Mathlib.Data.Finset.Dedup
import Stencil.Proofs.Tree.Deeds
/-!
# What a report accounts for

Every node puts one line on record, but for the nodes with children in their place, which put none; the
report holds nothing else.  A destination is listed as overwritten exactly when an earlier file has the
same one, and what is left counts the different destinations.

    report.list part = listed part lines                     with one of the lines for each node in turn
    ps.length = (Path.repeats ps).length + number of different component lists of ps
-/

namespace Stencil

/-! ## Repeated paths -/

/-- The paths that are the same as an earlier one, in their order and as often as they stand there. -/
def Path.repeats (ps : List Path) : List Path :=
  (ps.zipIdx.filter fun e => (ps.take e.2).any e.1.same).map Prod.fst

namespace Path

theorem repeats_concat (ps : List Path) (p : Path) :
    repeats (ps ++ [p]) = repeats ps ++ if ps.any p.same then [p] else [] := by
  have hearlier : ∀ e ∈ ps.zipIdx, ((ps ++ [p]).take e.2).any e.1.same = (ps.take e.2).any e.1.same := by
    intro e he
    have hlt : e.2 < ps.length := by
      have := List.snd_lt_of_mem_zipIdx he
      omega
    rw [List.take_append_of_le_length (by omega)]
  rw [repeats, repeats, List.zipIdx_append, List.filter_append, List.map_append,
    List.filter_congr hearlier]
  congr 1
  rw [List.zipIdx_singleton, Nat.zero_add, List.filter_singleton, List.take_left]
  by_cases h : ps.any p.same = true
  · simp only [h, if_true, cond_true, List.map_singleton]
  · simp [h]

/-- Each path is a repeated one or the first with its components. -/
theorem length_eq_length_repeats_add (ps : List Path) :
    ps.length = (repeats ps).length + (ps.map components).toFinset.card := by
  induction ps using List.reverseRecOn with
  | nil => rfl
  | append_singleton ps p ih =>
    have hany : ps.any p.same = true ↔ p.components ∈ (ps.map components).toFinset := by
      rw [List.any_eq_true, List.mem_toFinset, List.mem_map]
      constructor
      · rintro ⟨q, hq, hsame⟩
        exact ⟨q, hq, (beq_iff_eq.1 hsame).symm⟩
      · rintro ⟨q, hq, hsame⟩
        exact ⟨q, hq, beq_iff_eq.2 hsame.symm⟩
    have hset : ((ps ++ [p]).map components).toFinset =
        insert p.components (ps.map components).toFinset := by
      ext c
      simp
    rw [List.length_append, repeats_concat, List.length_append, hset, List.length_singleton]
    by_cases h : ps.any p.same = true
    · rw [if_pos h, Finset.insert_eq_of_mem (hany.1 h), List.length_singleton]
      omega
    · rw [if_neg h, Finset.card_insert_of_notMem (fun hmem => h (hany.2 hmem)), List.length_nil]
      omega

end Path

/-! ## Lines -/

namespace Report

/-- The lists of a report in which a node can stand. -/
inductive Part where
  | directories | rendered | copied | failed | skipped
deriving DecidableEq

def list (r : Report) : Part → List Path
  | .directories => r.directories
  | .rendered => r.rendered
  | .copied => r.copied
  | .failed => r.failed
  | .skipped => r.skipped

/-- In which list a node stands, and as which path. -/
abbrev Line := Part × Path

/-- One list of the report, from what the nodes put on record in turn. -/
def listed (part : Part) (lines : List (Option Line)) : List Path :=
  lines.filterMap fun line? => line?.bind fun line => if line.1 = part then some line.2 else none

theorem listed_append (part : Part) (lines more : List (Option Line)) :
    listed part (lines ++ more) = listed part lines ++ listed part more := List.filterMap_append ..

theorem mem_listed_iff {part : Part} {lines : List (Option Line)} {t : Path} :
    t ∈ listed part lines ↔ some (part, t) ∈ lines := by
  rw [listed, List.mem_filterMap]
  constructor
  · rintro ⟨line?, hline, ht⟩
    obtain ⟨⟨part', t'⟩, rfl, hpath⟩ := Option.bind_eq_some_iff.1 ht
    split at hpath
    · next heq =>
      obtain rfl := Option.some.inj hpath
      rw [← heq]
      exact hline
    · cases hpath
  · intro hline
    exact ⟨some (part, t), hline, if_pos rfl⟩

/-- Each line stands in one of the five lists. -/
theorem length_lines (lines : List (Option Line)) :
    lines.length = (listed .directories lines).length +
      ((listed .rendered lines).length + (listed .copied lines).length +
        (listed .failed lines).length) +
      (listed .skipped lines).length + lines.countP Option.isNone := by
  induction lines with
  | nil => rfl
  | cons line? lines ih =>
    have hone : ∀ part, listed part (line? :: lines) = listed part [line?] ++ listed part lines :=
      fun part => listed_append part [line?] lines
    simp only [hone, List.length_append, List.length_cons, List.countP_cons]
    cases line? with
    | none =>
      have hnone : ∀ part, listed part [none] = [] := fun part => rfl
      simp only [hnone, List.length_nil, Option.isNone_none, if_true]
      omega
    | some line =>
      obtain ⟨part, t⟩ := line
      have hsome : ∀ part', (listed part' [some (part, t)]).length = if part = part' then 1 else 0 := by
        intro part'
        by_cases h : part = part' <;> simp [listed, h]
      simp only [hsome]
      cases part <;> simp <;> omega

end Report

/-- The list for files with this content. -/
def Output.part : Output → Report.Part
  | .rendered _ => .rendered
  | .copied _ => .copied
  | .failed _ => .failed

namespace Deed

open Report

/-- What the deed puts on record. -/
def line? : Deed → Option Line
  | .nothing => none
  | .skip source => some (.skipped, source)
  | .makeDirectory target => some (.directories, target)
  | .writeFile target output => some (output.part, target)

/-- A deed adds its line to one list and nothing to the others. -/
theorem list_record (d : Deed) (r : Report) (part : Part) :
    (d.record r).list part = r.list part ++ listed part [d.line?] := by
  cases d with
  | nothing => simp [record, listed, line?]
  | skip source => cases part <;> simp [record, listed, line?, list, addSkipped]
  | makeDirectory target => cases part <;> simp [record, listed, line?, list, addDirectory]
  | writeFile target output =>
    have hclaim : ∀ part, (if r.files.any target.same then r.addOverwritten target else r).list part =
        r.list part := by
      intro part
      split
      · cases part <;> rfl
      · rfl
    rw [record, ← hclaim part]
    cases output <;> cases part <;> simp [listed, line?, Output.part, list, addFile]

/-- The files of the report grow by the one that is written. -/
theorem files_record_perm (d : Deed) (r : Report) :
    (d.record r).files.Perm (r.files ++ d.fileTarget?.toList) := by
  have hfiles : ∀ r : Report, r.files = r.list .rendered ++ r.list .copied ++ r.list .failed :=
    fun _ => rfl
  rw [List.perm_iff_count]
  intro t
  simp only [hfiles, list_record, List.count_append]
  cases d with
  | writeFile target output =>
    cases output <;> simp [listed, line?, Output.part, fileTarget?] <;> omega
  | _ => simp [listed, line?, fileTarget?]

/-- The report that deeds leave behind. -/
def reportOf (base : Path) (ds : List Deed) : Report :=
  ds.foldl (fun r d => record d r) (.empty base)

theorem reportOf_concat (base : Path) (ds : List Deed) (d : Deed) :
    reportOf base (ds ++ [d]) = d.record (reportOf base ds) := List.foldl_concat ..

theorem list_reportOf (base : Path) (ds : List Deed) (part : Part) :
    (reportOf base ds).list part = listed part (ds.map line?) := by
  induction ds using List.reverseRecOn with
  | nil => cases part <;> rfl
  | append_singleton ds d ih =>
    rw [reportOf_concat, list_record, ih, List.map_append, listed_append]
    rfl

/-- The files of the report are those that were written, if in another order. -/
theorem files_reportOf_perm (base : Path) (ds : List Deed) :
    (reportOf base ds).files.Perm (ds.filterMap fileTarget?) := by
  induction ds using List.reverseRecOn with
  | nil => exact .refl []
  | append_singleton ds d ih =>
    rw [reportOf_concat, List.filterMap_append]
    refine (files_record_perm d _).trans (ih.append ?_)
    rw [List.filterMap_cons, List.filterMap_nil]
    cases d.fileTarget? <;> exact .refl _

theorem overwritten_record (d : Deed) (r : Report) :
    (d.record r).overwritten =
      r.overwritten ++ d.fileTarget?.toList.filter fun t => r.files.any t.same := by
  cases d with
  | writeFile target output =>
    have haddFile : ∀ r : Report, (r.addFile target output).overwritten = r.overwritten := by
      intro r
      cases output <;> rfl
    rw [record, haddFile, fileTarget?, Option.toList_some, List.filter_singleton]
    split
    · next h =>
      rw [h]
      rfl
    · next h =>
      rw [Bool.not_eq_true] at h
      rw [h]
      exact (List.append_nil _).symm
  | _ => exact (List.append_nil _).symm

/-- Listed as overwritten are the written files that had been written before. -/
theorem overwritten_reportOf (base : Path) (ds : List Deed) :
    (reportOf base ds).overwritten = Path.repeats (ds.filterMap fileTarget?) := by
  induction ds using List.reverseRecOn with
  | nil => rfl
  | append_singleton ds d ih =>
    have hany : ∀ t : Path, (reportOf base ds).files.any t.same = (ds.filterMap fileTarget?).any t.same := by
      intro t
      rw [Bool.eq_iff_iff, List.any_eq_true, List.any_eq_true]
      simp only [(files_reportOf_perm base ds).mem_iff]
    rw [reportOf_concat, List.filterMap_append, overwritten_record, ih]
    simp only [hany]
    cases htarget : d.fileTarget? with
    | none => simp [htarget]
    | some t =>
      rw [List.filterMap_cons_some htarget, List.filterMap_nil, Path.repeats_concat, Option.toList_some,
        List.filter_singleton]
      cases (ds.filterMap fileTarget?).any t.same <;> rfl

end Deed

/-! ## Reports of passes -/

namespace Pass

open Report

/-- What a node puts on record, by its kind, its destination and, for a file, what is made of it from
the files as they are at its turn. -/
inductive Records (pass : Pass) (base : Path) (files : FileSystem) (n : Node) : Option Line → Prop where
  | expanded : n.kind = .expanded → Records pass base files n none
  | skipped : n.kind ≠ .expanded → pass.tree.destination n (some base) = .ok none →
      Records pass base files n (some (.skipped, n.source.label))
  | directory {target : Path} : n.kind = .directory →
      pass.tree.destination n (some base) = .ok (some target) →
      Records pass base files n (some (.directories, target))
  | file {target : Path} {output : Output} {warning : Option Warning} : n.kind = .file →
      pass.tree.destination n (some base) = .ok (some target) →
      pass.tree.content files pass.renderer pass.policy n = .ok (output, warning) →
      Records pass base files n (some (output.part, target))

section
variable {pass : Pass} {base : Path}

theorem records_of_deed {files : FileSystem} {n : Node} {d : Deed}
    (h : pass.deed base files n = .ok d) : pass.Records base files n d.line? := by
  rcases of_deed_eq_ok h with ⟨hexpanded, rfl⟩ | ⟨hexpanded, hdestination, rfl⟩ |
    ⟨hdir, target, hdestination, rfl⟩ | ⟨hfile, target, output, warning, hdestination, hcontent, rfl⟩
  · exact .expanded hexpanded
  · exact .skipped hexpanded hdestination
  · exact .directory hdir hdestination
  · exact .file hfile hdestination hcontent

theorem Records.isNone_iff {files : FileSystem} {n : Node} {line? : Option Line}
    (h : pass.Records base files n line?) : line?.isNone = true ↔ n.kind = .expanded := by
  cases h with
  | expanded hkind => simp [hkind]
  | skipped hkind _ => simp [hkind]
  | directory hkind _ => simp [hkind]
  | file hkind _ _ => simp [hkind]

variable {ns : List Node} {ds : List Deed} {p p' : Progress} (hrun : Run pass base p ns ds p')
include hrun

/-- The files that a run writes are the destinations of the nodes that are files. -/
theorem Run.fileTargets_eq :
    ds.filterMap Deed.fileTarget? = ns.filterMap (pass.fileTarget? base) := by
  induction hrun with
  | nil p => rfl
  | cons _ hd _ ih => rw [List.filterMap_cons, List.filterMap_cons, (target?_of_deed hd).2, ih]

/-- What stands in a list of the report stays there, and in front. -/
theorem Run.list_prefix (part : Part) : p.report.list part <+: p'.report.list part := by
  induction hrun with
  | nil p => exact List.prefix_refl _
  | @cons p next p' n ns d ds hn _ _ ih =>
    obtain ⟨d, -, -, hreport⟩ := exists_deed hn
    have hlist := Deed.list_record d p.report part
    rw [← hreport] at hlist
    exact List.IsPrefix.trans ⟨_, hlist.symm⟩ ih

theorem Run.countP_isNone :
    (ds.map Deed.line?).countP Option.isNone = ns.countP fun n => n.kind = .expanded := by
  induction hrun with
  | nil p => rfl
  | @cons p next p' n ns d ds _ hd _ ih =>
    have hnone : d.line?.isNone = decide (n.kind = .expanded) := by
      rw [Bool.eq_iff_iff, (records_of_deed hd).isNone_iff, decide_eq_true_iff]
    rw [List.map_cons, List.countP_cons, List.countP_cons, ih, hnone]

end

/-- The report of a pass that succeeds: every node puts one line on record at its turn, or none if it
has children in its place, and the lists hold these lines in the order of the nodes. -/
theorem report_accounts {pass : Pass} {base : Path} {w w' : Workspace} {report : Report}
    (h : pass.writeTree base w = ⟨w', .ok report⟩) :
    ∃ lines : List (Option Line), lines.length = pass.tree.size ∧
      (∀ before n after, pass.tree.nodes = before ++ n :: after →
        ∃ turn line?, pass.writeNodes base before ⟨w, .empty base⟩ = (turn, none) ∧
          lines[before.length]? = some line? ∧ pass.Records base turn.files n line?) ∧
      (∀ part, report.list part = listed part lines) ∧
      report.directories.length + report.filesWritten + report.skipped.length +
        pass.tree.nodes.countP (fun n => n.kind = .expanded) = pass.tree.size ∧
      report.overwritten = Path.repeats (pass.tree.nodes.filterMap (pass.fileTarget? base)) ∧
      report.filesWritten = report.overwritten.length +
        ((pass.tree.nodes.filterMap (pass.fileTarget? base)).map Path.components).toFinset.card := by
  obtain ⟨ds, hrun⟩ := exists_run_iff.2 (writeTree_eq_ok_iff.1 h)
  have hreport : report = Deed.reportOf base ds := hrun.report_eq
  have hlist : ∀ part, report.list part = listed part (ds.map Deed.line?) := by
    rw [hreport]
    exact Deed.list_reportOf base ds
  have hsize : (ds.map Deed.line?).length = pass.tree.size := by
    rw [List.length_map, hrun.length_eq]
    rfl
  have hwritten : report.filesWritten = (pass.tree.nodes.filterMap (pass.fileTarget? base)).length := by
    rw [← hrun.fileTargets_eq, hreport]
    exact (Deed.files_reportOf_perm base ds).length_eq
  have hoverwritten :
      report.overwritten = Path.repeats (pass.tree.nodes.filterMap (pass.fileTarget? base)) := by
    rw [← hrun.fileTargets_eq, hreport, Deed.overwritten_reportOf]
  refine ⟨ds.map Deed.line?, hsize, fun before n after hnodes => ?_, hlist, ?_, hoverwritten, ?_⟩
  · obtain ⟨ds₁, turn, d, next, ds₂, hds, hbefore, -, hd, -⟩ := hrun.turn hnodes
    refine ⟨turn, d.line?, exists_run_iff.1 ⟨ds₁, hbefore⟩, ?_, records_of_deed hd⟩
    rw [hds, List.map_append, List.map_cons, ← hbefore.length_eq, ← List.length_map Deed.line?,
      List.getElem?_append_right (le_refl _), Nat.sub_self]
    rfl
  · have hlines := length_lines (ds.map Deed.line?)
    rw [hsize, hrun.countP_isNone, ← hlist, ← hlist, ← hlist, ← hlist, ← hlist] at hlines
    have hfiles : report.filesWritten = (report.list .rendered).length +
        (report.list .copied).length + (report.list .failed).length := by
      rw [filesWritten, files, List.length_append, List.length_append]
      rfl
    rw [hfiles]
    exact hlines.symm
  · rw [hwritten, hoverwritten]
    exact Path.length_eq_length_repeats_add _

/-- A plain file, a template, and a name with a variable. -/
def pairFiles : FileSystem :=
  ⟨.directory [("src", .directory
    [("%x%.txt", .file ⟨#[]⟩), ("a.txt", .file ⟨#[104, 105]⟩), ("a.txt.template", .file ⟨#[]⟩)])],
    [], .healthy, rfl, by decide +kernel⟩

def pairBindings : Bindings := .ofList [("x", .null)]

/-- The plain file and the template have the same destination, and the variable stands for null. -/
def pairPass : Pass :=
  ⟨⟨.directory ⟨"src"⟩ pairBindings [.file (.path ⟨"src/%x%.txt"⟩) pairBindings,
    .file (.path ⟨"src/a.txt"⟩) pairBindings, .file (.path ⟨"src/a.txt.template"⟩) pairBindings],
    .standard⟩, fun _ text _ => .ok text, .abort⟩

theorem report_accounts_pair :
    ∃ w' report, pairPass.writeTree ⟨"out"⟩ ⟨pairFiles, []⟩ = ⟨w', .ok report⟩ ∧
      report.overwritten = [⟨"out/a.txt"⟩] ∧ report.filesWritten = 2 ∧
      report.directories.length + report.skipped.length = 2 := by
  have hok : (pairPass.writeTree ⟨"out"⟩ ⟨pairFiles, []⟩).result.isOk = true := by decide +kernel
  cases hwrite : pairPass.writeTree ⟨"out"⟩ ⟨pairFiles, []⟩ with
  | mk w' result =>
    cases result with
    | error e =>
      rw [hwrite] at hok
      cases hok
    | ok report =>
      obtain ⟨lines, -, -, -, hsum, hoverwritten, hwritten⟩ := report_accounts hwrite
      have htwice : Path.repeats (pairPass.tree.nodes.filterMap (pairPass.fileTarget? ⟨"out"⟩)) =
          [⟨"out/a.txt"⟩] := by decide +kernel
      have hone : ((pairPass.tree.nodes.filterMap (pairPass.fileTarget? ⟨"out"⟩)).map
          Path.components).toFinset.card = 1 := by decide +kernel
      rw [htwice] at hoverwritten
      rw [hoverwritten, hone] at hwritten
      have hfour : pairPass.tree.size = 4 := rfl
      have hnone : pairPass.tree.nodes.countP (fun n => n.kind = .expanded) = 0 := rfl
      rw [hwritten, hfour, hnone, List.length_singleton] at hsum
      exact ⟨w', report, rfl, hoverwritten, hwritten, by omega⟩

end Pass

end Stencil
