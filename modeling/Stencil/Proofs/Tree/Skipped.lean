import Stencil.Proofs.Tree.Accounting
import Stencil.Proofs.Tree.Agreement
/-!
# Subtrees that are not written

A placeholder that is refused in the path of a directory is the first that has no text in every path
below it, too: the placeholders of the directory come first there, and narrowing changes none of the
values up to it.  So a directory without a destination takes all that is below it along, and a pass goes
over the subtree without touching a file.

    t.destination d base = .ok none → ∀ n ∈ d.preorder, t.destination n base = .ok none
    … → pass.writeNodes base d.preorder p = (p', none) with p'.files = p.files
-/

namespace Stencil

namespace TemplateTree

open Stencil.Path Bindings

/-! ## Below a directory -/

/-- The names on the way to what stands below a directory start with those on the way to it. -/
theorem Placed.of_mem_preorder {root : Path} {entry : Entry} (hnamed : entry.WellNamed) {place : Place}
    {d n : Node} (hplaced : Placed root entry place d) (hkind : d.kind = .directory)
    (hn : n ∈ d.preorder) :
    Narrows d.bindings n.bindings ∧
      (n = d ∨ ∃ rest, rest ≠ [] ∧ Placed root entry (place ++ rest) n) := by
  obtain ⟨e, hget, hentry⟩ := hplaced.entry_at
  rcases hentry with ⟨children, rfl, -⟩ | ⟨-, hd⟩
  · have hnode := hplaced.eq_nodeOf hget
    have hnarrows : Narrows d.bindings n.bindings := by
      rw [hnode] at hn
      exact narrows_of_mem_nodeOf hn
    refine ⟨hnarrows, ?_⟩
    rw [preorder_eq_cons, List.mem_cons] at hn
    refine hn.imp_right fun hn => ?_
    rw [hnode, nodeOf] at hn
    obtain ⟨name, child, rest, hmem, hchild⟩ := placed_of_mem_nodesOf (root.below place) children
      (hnamed.get? hget).1.2 d.bindings n hn
    have hlookup : children.lookup name = some child :=
      KeyedList.lookup_of_mem (hnamed.get? hget).1.nodup hmem
    exact ⟨name :: rest, List.cons_ne_nil name rest, (hchild.of_child hlookup).append hget⟩
  · exact absurd hkind hd

/-- The placeholders of a directory come first in everything below it. -/
theorem prefix_bound_stripLast (suffixes : List String) {place rest : Place} (hne : rest ≠ [])
    {b b' : Bindings} (h : Narrows b b') :
    Placeholder.bound (ofNames (stripLast suffixes place)).text b <+:
      Placeholder.bound (ofNames (stripLast suffixes (place ++ rest))).text b' := by
  by_cases hnil : place = []
  · subst hnil
    exact List.nil_prefix
  · rw [← bound_of_narrows h, stripLast_append suffixes place hne,
      text_ofNames_append hnil (stripLast_ne_nil suffixes hne), bound_append_separator]
    exact ((Placeholder.scan_prefix (prefix_text_stripLast suffixes place)).filter _).trans
      (List.prefix_append _ _)

/-- A node with a place has no destination exactly if its path is refused. -/
theorem destination_eq_ok_none_iff {root : Path} (hroot : root.text ≠ "") {entry : Entry}
    (hnamed : entry.WellNamed) {b : Bindings} {children : List Node} {options : TreeOptions}
    {place : Place} {n : Node} (hplaced : Placed root entry place n) {base : Option Path} :
    (⟨.directory root b children, options⟩ : TemplateTree).destination n base = .ok none ↔
      Placeholder.fillAll (Placeholder.bound (ofNames (stripLast options.suffixes place)).text n.bindings)
        n.bindings (ofNames (stripLast options.suffixes place)).text = .ok none := by
  obtain ⟨e, hget, -⟩ := hplaced.entry_at
  have hplace := (hnamed.get? hget).2
  rw [destination, hplaced.relativePath? hroot hnamed]
  dsimp only
  rw [dropSuffix_ofNames _ hplace]
  split
  · next hfill => rw [hfill]; simp
  · next hfill => rw [hfill]; simp
  · next hfill =>
    rw [hfill]
    split <;> simp

/-- What is refused stays refused below a directory. -/
theorem fillAll_eq_ok_none_of_prefix {ps qs : List Placeholder} (hstart : ps <+: qs) {b b' : Bindings}
    (h : Narrows b b') {path : String} (path' : String)
    (hfill : Placeholder.fillAll ps b path = .ok none) : Placeholder.fillAll qs b' path' = .ok none := by
  obtain ⟨more, rfl⟩ := hstart
  obtain ⟨before, p, after, rfl, hbefore, hp⟩ := Placeholder.fillAll_eq_ok_none_iff.1 hfill
  refine Placeholder.fillAll_eq_ok_none_iff.2 ⟨before, p, after ++ more, by simp, fun q hq => ?_,
    renderValue_of_narrows h hp⟩
  obtain ⟨text, htext⟩ := hbefore q hq
  exact ⟨text, renderValue_of_narrows h htext⟩

end TemplateTree

namespace Pass

/-! ## Passing over nodes -/

/-- What is listed for nodes that are passed over: their sources, but none of a node that has children
in its place. -/
def passedOver (ns : List Node) : List Path :=
  (ns.filter fun n => n.kind ≠ .expanded).map fun n => n.source.label

section
variable {pass : Pass} {base : Path}

/-- A node without a destination is put on the list of those skipped, and that is all. -/
theorem writeNode_of_destination_eq_none {n : Node}
    (h : pass.tree.destination n (some base) = .ok none) (p : Progress) :
    ∃ p', pass.writeNode base n p = (p', none) ∧ p'.files = p.files ∧
      p'.report = { p.report with skipped := p.report.skipped ++ passedOver [n] } := by
  by_cases hexpanded : n.kind = .expanded
  · refine ⟨p, ?_, rfl, ?_⟩
    · rw [writeNode, hexpanded]
    · simp [passedOver, hexpanded]
  · refine ⟨p.skip n.source.label (.noDestination n.source.label), ?_, rfl, ?_⟩
    · rw [writeNode_of_kind_ne hexpanded, h]
    · simp [passedOver, hexpanded, Progress.skip, Report.addSkipped]

theorem writeNodes_of_destination_eq_none {ns : List Node}
    (h : ∀ n ∈ ns, pass.tree.destination n (some base) = .ok none) (p : Progress) :
    ∃ p', pass.writeNodes base ns p = (p', none) ∧ p'.files = p.files ∧
      p'.report = { p.report with skipped := p.report.skipped ++ passedOver ns } := by
  induction ns generalizing p with
  | nil => exact ⟨p, rfl, rfl, by simp [passedOver]⟩
  | cons n ns ih =>
    obtain ⟨hn, hrest⟩ := List.forall_mem_cons.1 h
    obtain ⟨next, hstep, hfiles, hreport⟩ := writeNode_of_destination_eq_none hn p
    obtain ⟨p', hrun, hfiles', hreport'⟩ := ih hrest next
    refine ⟨p', ?_, hfiles'.trans hfiles, ?_⟩
    · rw [writeNodes_cons_of_ok hstep, hrun]
    · have hone : passedOver (n :: ns) = passedOver [n] ++ passedOver ns := by
        rw [passedOver, ← List.singleton_append, List.filter_append, List.map_append]
        rfl
      rw [hreport', hreport, hone]
      simp only [List.append_assoc]

/-- The list of those skipped only grows. -/
theorem Run.skipped_prefix {ns : List Node} {ds : List Deed} {p p' : Progress}
    (h : Run pass base p ns ds p') : p.report.skipped <+: p'.report.skipped := h.list_prefix .skipped

end

end Pass

namespace TemplateTree

/-! ## Top theorem -/

/-- A directory without a destination leaves everything below it without one, and never an error.  A
pass goes over all of it without an error and without touching a file, and lists each of the nodes that
have no children in their place as skipped, one after the other. -/
theorem null_skips_subtree {files : FileSystem} {source : Path} {b : Bindings}
    {options : TreeOptions} {t : TemplateTree} {warnings : List Warning} {d : Node} {base : Path}
    (hbuild : build files source b options = .ok (t, warnings))
    (hd : d ∈ t.nodes) (hkind : d.kind = .directory)
    (hnull : t.destination d (some base) = .ok none) :
    (∀ n ∈ d.preorder, t.destination n (some base) = .ok none) ∧
      ∀ renderer policy,
        (∀ p, ∃ p', Pass.writeNodes ⟨t, renderer, policy⟩ base d.preorder p = (p', none) ∧
          p'.files = p.files ∧
          p'.report = { p.report with skipped := p.report.skipped ++ Pass.passedOver d.preorder }) ∧
        ∀ before after w w' report, t.nodes = before ++ d :: after →
          Pass.writeTree ⟨t, renderer, policy⟩ base w = ⟨w', .ok report⟩ →
            ∃ turn rest,
              Pass.writeNodes ⟨t, renderer, policy⟩ base before ⟨w, .empty base⟩ = (turn, none) ∧
              report.skipped = turn.report.skipped ++ Pass.passedOver d.preorder ++ rest := by
  have hbelow : ∀ n ∈ d.preorder, t.destination n (some base) = .ok none := by
    intro n hn
    obtain ⟨entry, htext, hnamed, rfl⟩ := exists_shown_of_build hbuild
    cases entry with
    | file content =>
      rw [nodes, nodeOf] at hd
      exact absurd hkind (of_mem_preorder_ofFile hd).2
    | directory children =>
      obtain ⟨place, hplaced⟩ := placed_of_mem_nodeOf source (.directory children) hnamed b d hd
      obtain ⟨hnarrows, rfl | ⟨rest, hne, hplaced'⟩⟩ := hplaced.of_mem_preorder hnamed hkind hn
      · exact hnull
      · rw [nodeOf] at hnull ⊢
        rw [destination_eq_ok_none_iff htext hnamed hplaced] at hnull
        rw [destination_eq_ok_none_iff htext hnamed hplaced']
        exact fillAll_eq_ok_none_of_prefix (prefix_bound_stripLast options.suffixes hne hnarrows)
          hnarrows _ hnull
  refine ⟨hbelow, fun renderer policy => ⟨fun p => ?_, fun before after w w' report hnodes hwrite => ?_⟩⟩
  · exact Pass.writeNodes_of_destination_eq_none hbelow p
  · obtain ⟨rest, hrest⟩ := exists_append_of_preorder_eq t.root hnodes
    obtain ⟨ds, hrun⟩ := Pass.exists_run_iff.2 (Pass.writeTree_eq_ok_iff.1 hwrite)
    obtain ⟨ds₁, turn, -, -, -, -, hbefore, -⟩ := hrun.turn hnodes
    have hturn := Pass.exists_run_iff.1 ⟨ds₁, hbefore⟩
    obtain ⟨next, hover, -, hreport⟩ : ∃ next,
        Pass.writeNodes ⟨t, renderer, policy⟩ base d.preorder turn = (next, none) ∧ _ :=
      Pass.writeNodes_of_destination_eq_none hbelow turn
    -- what is left of the pass once the subtree is behind it
    have hleft := Pass.writeTree_eq_ok_iff.1 hwrite
    rw [hnodes, hrest, Pass.writeNodes_append_of_ok hturn, Pass.writeNodes_append_of_ok hover] at hleft
    obtain ⟨ds₂, hrun₂⟩ := Pass.exists_run_iff.2 hleft
    obtain ⟨more, hmore⟩ := hrun₂.skipped_prefix
    refine ⟨turn, more, hturn, ?_⟩
    rw [← hmore, hreport]

/-- The name of the draft stands for null, and below it is a name that cannot be filled at all. -/
def draftFiles : FileSystem :=
  ⟨.directory [("src", .directory
    [("%draft%.template", .directory [("%n.key%", .directory [("%i%.txt", .file ⟨#[]⟩)])])])],
    [], .healthy, rfl, by decide +kernel⟩

def draftBindings : Bindings := .ofList [("draft", .null), ("n", .int 1), ("i", .range 1 2)]

def draftPass (t : TemplateTree) : Pass := ⟨t, fun _ text _ => .ok text, .abort⟩

/-- A directory without a destination, with two files below it in the end. -/
def isDraft (t : TemplateTree) (d : Node) : Bool :=
  d.kind = .directory && (t.destination d (some ⟨"out"⟩)).toOption = some none && d.preorder.length = 4

theorem null_skips_subtree_draft :
    ∃ t warnings d w' report,
      build draftFiles ⟨"src"⟩ draftBindings .standard = .ok (t, warnings) ∧
      d ∈ t.nodes ∧ d.kind = .directory ∧ t.destination d (some ⟨"out"⟩) = .ok none ∧ d.preorder.length = 4 ∧
      (∀ n ∈ d.preorder, t.destination n (some ⟨"out"⟩) = .ok none) ∧
      (draftPass t).writeTree ⟨"out"⟩ ⟨draftFiles, []⟩ = ⟨w', .ok report⟩ ∧
      Pass.passedOver d.preorder <:+: report.skipped := by
  have hcheck : ((build draftFiles ⟨"src"⟩ draftBindings .standard).toOption.any fun result =>
      ((draftPass result.1).writeTree ⟨"out"⟩ ⟨draftFiles, []⟩).result.isOk &&
        result.1.nodes.any (isDraft result.1)) = true := by decide +kernel
  obtain ⟨⟨t, warnings⟩, hok, hboth⟩ := (Option.any_eq_true _ _).1 hcheck
  have hbuild := eq_ok_of_toOption hok
  obtain ⟨hwritten, hdraft⟩ := Bool.and_eq_true_iff.1 hboth
  obtain ⟨d, hd, hdraft⟩ := List.any_eq_true.1 hdraft
  simp only [isDraft, Bool.and_eq_true, decide_eq_true_eq] at hdraft
  obtain ⟨⟨hkind, hnone⟩, hlength⟩ := hdraft
  have hnull := eq_ok_of_toOption hnone
  obtain ⟨hbelow, hpass⟩ := null_skips_subtree hbuild hd hkind hnull
  cases hwrite : (draftPass t).writeTree ⟨"out"⟩ ⟨draftFiles, []⟩ with
  | mk w' result =>
    cases result with
    | error e =>
      rw [hwrite] at hwritten
      cases hwritten
    | ok report =>
      obtain ⟨before, after, hnodes⟩ := List.append_of_mem hd
      obtain ⟨turn, rest, -, hskipped⟩ := (hpass _ _).2 before after _ w' report hnodes hwrite
      exact ⟨t, warnings, d, w', report, hbuild, hd, hkind, hnull, hlength, hbelow, hwrite,
        turn.report.skipped, rest, hskipped.symm⟩

end TemplateTree

end Stencil
