import Stencil.Proofs.Tree.Accounting
/-!
# Templates that are refused

The two policies for templates that cannot be rendered differ in one thing only: where the renderer
refuses the template of a node, one stops the pass and the other writes a diagnostic.  Up to the first
such node they leave the same files, warnings and report behind, and without one they are the same.

    writeNode abort n p = writeNode embed n p, unless the template of n is refused at its turn
    writeNodes abort ns p = (p', none) ↔
      writeNodes embed ns p = (p', none) ∧ p'.report.failed = p.report.failed
-/

namespace Stencil

namespace TemplateTree

variable {t : TemplateTree} {renderer : Renderer} {files : FileSystem} {n : Node}

/-! ## What is rendered -/

/-- What a node hands to the renderer: the label, the text and the bindings of a template that can be
read. -/
def template? (t : TemplateTree) (files : FileSystem) : Node → Option (String × String × Bindings)
  | .file (.text text) b => some ("<text>", text, b)
  | .file (.path p) b =>
    if t.isTemplate (.file (.path p) b) then
      (files.readText p).toOption.map fun text => (p.text, text, b)
    else none
  | _ => none

/-- The node is a template that can be read, and the renderer fails on it. -/
def Refuses (t : TemplateTree) (renderer : Renderer) (files : FileSystem) (n : Node) (e : Error) :
    Prop :=
  ∃ label text b, t.template? files n = some (label, text, b) ∧ renderer label text b = .error e

theorem content_of_template? {label text : String} {b : Bindings}
    (h : t.template? files n = some (label, text, b)) (policy : FailurePolicy) :
    t.content files renderer policy n = renderTemplate renderer policy label text b := by
  unfold template? at h
  split at h
  · obtain ⟨rfl, rfl, rfl⟩ := by simpa using h
    rfl
  · next p b' =>
    split at h
    · next htemplate =>
      unfold content
      simp only [htemplate, if_true]
      cases hread : files.readText p with
      | error fault =>
        rw [hread] at h
        cases h
      | ok text' =>
        rw [hread] at h
        obtain ⟨rfl, rfl, rfl⟩ := by simpa [Except.toOption] using h
        rfl
    · cases h
  · cases h

/-- What is not rendered does not depend on the policy, and is no diagnostic. -/
theorem content_of_template?_eq_none (h : t.template? files n = none) (policy : FailurePolicy) :
    t.content files renderer policy n = t.content files renderer .abort n ∧
      ∀ text warning, t.content files renderer policy n ≠ .ok (.failed text, warning) := by
  unfold template? at h
  split at h
  · cases h
  · next p b =>
    unfold content
    by_cases htemplate : t.isTemplate (.file (.path p) b) = true
    · rw [if_pos htemplate] at h
      simp only [htemplate, if_true]
      cases hread : files.readText p with
      | error fault => simp
      | ok text =>
        rw [hread] at h
        cases h
    · simp only [htemplate]
      cases files.read p <;> simp
  · cases n with
    | directory => simp [content]
    | expanded => simp [content]
    | file source b => cases source <;> simp_all

/-- A template that is refused stops the one policy and becomes a diagnostic with the other. -/
theorem content_of_refuses {e : Error} (h : t.Refuses renderer files n e) :
    t.content files renderer .abort n = .error e ∧
      ∃ text warning, t.content files renderer .embed n = .ok (.failed text, warning) := by
  obtain ⟨label, text, b, htemplate, hrender⟩ := h
  rw [content_of_template? htemplate, content_of_template? htemplate]
  simp [renderTemplate, hrender]

/-- The policies come apart only at a template that is refused. -/
theorem content_cases (t : TemplateTree) (renderer : Renderer) (files : FileSystem) (n : Node) :
    (t.content files renderer .abort n = t.content files renderer .embed n ∧
      ∀ text warning, t.content files renderer .abort n ≠ .ok (.failed text, warning)) ∨
    ∃ e, t.Refuses renderer files n e := by
  cases htemplate : t.template? files n with
  | none =>
    refine .inl ⟨((content_of_template?_eq_none htemplate .embed).1).symm, ?_⟩
    exact (content_of_template?_eq_none htemplate .abort).2
  | some handed =>
    obtain ⟨label, text, b⟩ := handed
    cases hrender : renderer label text b with
    | ok result =>
      rw [content_of_template? htemplate, content_of_template? htemplate]
      exact .inl (by simp [renderTemplate, hrender])
    | error e => exact .inr ⟨e, label, text, b, htemplate, hrender⟩

end TemplateTree

namespace Pass

open Report

/-! ## One node -/

section
variable {pass : Pass} {base : Path} {n : Node} {p p' : Progress}

/-- A node is written by its destination and, if that is one of a file, its content. -/
theorem writeNode_congr {tree : TemplateTree} {renderer : Renderer} {policy policy' : FailurePolicy}
    (h : ∀ t, fileTarget? ⟨tree, renderer, policy⟩ base n = some t →
      tree.content p.files renderer policy n = tree.content p.files renderer policy' n) :
    writeNode ⟨tree, renderer, policy⟩ base n p = writeNode ⟨tree, renderer, policy'⟩ base n p := by
  by_cases hexpanded : n.kind = .expanded
  · rw [writeNode, writeNode, hexpanded]
  · rw [writeNode_of_kind_ne hexpanded, writeNode_of_kind_ne hexpanded]
    dsimp only
    rcases hdestination : tree.destination n (some base) with e | target?
    · rfl
    · cases target? with
      | none => rfl
      | some target =>
        by_cases hdir : n.kind = .directory
        · simp only [if_pos hdir]
        · have hfile := kind_eq_file hexpanded hdir
          simp only [if_neg hdir]
          rw [writeFile, writeFile, p.files_claim target]
          dsimp only
          rw [h target (fileTarget?_eq_some_iff.2 ⟨hfile, hdestination⟩)]

/-- A file without a content stops the pass. -/
theorem writeNode_of_content_eq_error {t : Path} (ht : pass.fileTarget? base n = some t) {e : Error}
    (he : pass.tree.content p.files pass.renderer pass.policy n = .error e) :
    pass.writeNode base n p = (p.claim t, some e) := by
  obtain ⟨hkind, hdestination⟩ := fileTarget?_eq_some_iff.1 ht
  rw [writeNode_of_kind_ne (by rw [hkind]; simp), hdestination]
  dsimp only
  rw [if_neg (by rw [hkind]; simp)]
  rw [← p.files_claim t] at he
  exact writeFile_of_content_eq_error he

/-- A file that is no diagnostic is not listed as one. -/
theorem failed_of_content_ne (hn : pass.writeNode base n p = (p', none))
    (h : ∀ t, pass.fileTarget? base n = some t → ∀ text warning,
      pass.tree.content p.files pass.renderer pass.policy n ≠ .ok (.failed text, warning)) :
    p'.report.failed = p.report.failed := by
  obtain ⟨d, hd, -, hreport⟩ := exists_deed hn
  have hlist := Deed.list_record d p.report .failed
  rw [← hreport] at hlist
  cases d with
  | writeFile target output =>
    obtain ⟨warning, hcontent⟩ := content_of_deed hd
    have htarget := ((target?_of_deed hd).2).symm
    cases output with
    | failed text => exact absurd hcontent (h target htarget text warning)
    | rendered text => simpa [list, listed, Deed.line?, Output.part] using hlist
    | copied content => simpa [list, listed, Deed.line?, Output.part] using hlist
  | nothing => simpa [list, listed, Deed.line?] using hlist
  | skip source => simpa [list, listed, Deed.line?] using hlist
  | makeDirectory target => simpa [list, listed, Deed.line?] using hlist

/-- A diagnostic is listed where it is written. -/
theorem failed_of_content_eq (hn : pass.writeNode base n p = (p', none)) {t : Path}
    (ht : pass.fileTarget? base n = some t) {text : String} {warning : Option Warning}
    (h : pass.tree.content p.files pass.renderer pass.policy n = .ok (.failed text, warning)) :
    p'.report.failed = p.report.failed ++ [t] := by
  obtain ⟨d, hd, -, hreport⟩ := exists_deed hn
  have hlist := Deed.list_record d p.report .failed
  have htarget := (target?_of_deed hd).2.trans ht
  rw [← hreport] at hlist
  cases d with
  | writeFile target output =>
    obtain rfl : target = t := Option.some.inj htarget
    obtain ⟨warning', hcontent⟩ := content_of_deed hd
    obtain ⟨rfl, -⟩ := Prod.mk.inj (Except.ok.inj (hcontent.symm.trans h))
    simpa [list, listed, Deed.line?, Output.part] using hlist
  | nothing => cases htarget
  | skip source => cases htarget
  | makeDirectory target => cases htarget

end

section
variable {tree : TemplateTree} {renderer : Renderer} {base : Path}

/-- One node is written in the same way under both policies, or its template is refused. -/
theorem writeNode_cases (n : Node) (p : Progress) :
    (writeNode ⟨tree, renderer, .abort⟩ base n p = writeNode ⟨tree, renderer, .embed⟩ base n p ∧
      ∀ p', writeNode ⟨tree, renderer, .abort⟩ base n p = (p', none) →
        p'.report.failed = p.report.failed) ∨
    ∃ t e, fileTarget? ⟨tree, renderer, .abort⟩ base n = some t ∧ tree.Refuses renderer p.files n e ∧
      writeNode ⟨tree, renderer, .abort⟩ base n p = (p.claim t, some e) := by
  cases htarget : fileTarget? ⟨tree, renderer, .abort⟩ base n with
  | none =>
    refine .inl ⟨writeNode_congr fun t ht => ?_, fun p' hn => failed_of_content_ne hn fun t ht => ?_⟩
    · cases htarget.symm.trans ht
    · cases htarget.symm.trans ht
  | some t =>
    rcases tree.content_cases renderer p.files n with ⟨hsame, hne⟩ | ⟨e, hrefuses⟩
    · exact .inl ⟨writeNode_congr fun _ _ => hsame, fun p' hn => failed_of_content_ne hn fun _ _ => hne⟩
    · have habort := (TemplateTree.content_of_refuses hrefuses).1
      exact .inr ⟨t, e, rfl, hrefuses, writeNode_of_content_eq_error htarget habort⟩

/-! ## Many nodes -/

/-- Both policies do the same for several nodes, or they do the same up to a template that is
refused. -/
theorem writeNodes_cases (ns : List Node) (p : Progress) :
    (writeNodes ⟨tree, renderer, .abort⟩ base ns p = writeNodes ⟨tree, renderer, .embed⟩ base ns p ∧
      ∀ p', writeNodes ⟨tree, renderer, .abort⟩ base ns p = (p', none) →
        p'.report.failed = p.report.failed) ∨
    ∃ before n after turn t e, ns = before ++ n :: after ∧
      writeNodes ⟨tree, renderer, .abort⟩ base before p = (turn, none) ∧
      writeNodes ⟨tree, renderer, .embed⟩ base before p = (turn, none) ∧
      turn.report.failed = p.report.failed ∧
      fileTarget? ⟨tree, renderer, .abort⟩ base n = some t ∧
      tree.Refuses renderer turn.files n e ∧
      writeNodes ⟨tree, renderer, .abort⟩ base ns p = (turn.claim t, some e) := by
  induction ns generalizing p with
  | nil =>
    refine .inl ⟨rfl, fun p' h => ?_⟩
    obtain ⟨rfl, -⟩ := Prod.mk.inj h
    rfl
  | cons n ns ih =>
    rcases writeNode_cases n p with
      ⟨hsame, hfailed⟩ | ⟨t, e, ht, hrefuses, hn⟩
    · rcases hn : writeNode ⟨tree, renderer, .abort⟩ base n p with ⟨next, _ | e⟩
      · have hnext := hfailed next hn
        have hn' := hsame.symm.trans hn
        rw [writeNodes_cons_of_ok hn, writeNodes_cons_of_ok hn']
        rcases ih next with ⟨hrest, hfailed'⟩ |
          ⟨before, m, after, turn, t, e, rfl, habort, hembed, hturn, ht, hrefuses, hstop⟩
        · exact .inl ⟨hrest, fun p' h => (hfailed' p' h).trans hnext⟩
        · refine .inr ⟨n :: before, m, after, turn, t, e, rfl, ?_, ?_, hturn.trans hnext, ht, hrefuses,
            hstop⟩
          · rw [writeNodes_cons_of_ok hn, habort]
          · rw [writeNodes_cons_of_ok hn', hembed]
      · rw [writeNodes_cons_of_error hn, writeNodes_cons_of_error (hsame.symm.trans hn)]
        exact .inl ⟨rfl, fun p' h => by cases h⟩
    · exact .inr ⟨[], n, ns, p, t, e, rfl, rfl, rfl, rfl, ht, hrefuses, writeNodes_cons_of_error hn ns⟩

/-- A pass that goes on lists the first template that is refused in front of all others. -/
theorem failed_of_refused {before after : List Node} {n : Node} {p turn p' : Progress} {t : Path}
    (hbefore : writeNodes ⟨tree, renderer, .embed⟩ base before p = (turn, none))
    (ht : fileTarget? ⟨tree, renderer, .abort⟩ base n = some t) {e : Error}
    (he : tree.content turn.files renderer .abort n = .error e)
    (h : writeNodes ⟨tree, renderer, .embed⟩ base (before ++ n :: after) p = (p', none)) :
    ∃ rest, p'.report.failed = turn.report.failed ++ t :: rest := by
  rw [writeNodes_append_of_ok hbefore] at h
  obtain ⟨ds, hrun⟩ := exists_run_iff.2 h
  cases hrun with
  | @cons _ next _ _ _ d _ hn hd hrest =>
    have ht' : fileTarget? ⟨tree, renderer, .embed⟩ base n = some t := ht
    rcases tree.content_cases renderer turn.files n with ⟨hsame, -⟩ | ⟨e', hrefuses⟩
    · -- without a content the node could not have been written
      have hwrites := (target?_of_deed hd).2.trans ht'
      cases d with
      | writeFile target output =>
        obtain ⟨warning, hcontent⟩ := content_of_deed hd
        cases (he.symm.trans hsame).trans hcontent
      | nothing => cases hwrites
      | skip source => cases hwrites
      | makeDirectory target => cases hwrites
    · obtain ⟨-, text, warning, hembed⟩ := TemplateTree.content_of_refuses hrefuses
      obtain ⟨rest, hlater⟩ := hrest.list_prefix .failed
      have hfailed := failed_of_content_eq hn ht' hembed
      refine ⟨rest, ?_⟩
      rw [← List.singleton_append, ← List.append_assoc, ← hfailed]
      exact hlater.symm

end

/-- Nodes that a stopping pass has behind it are behind a pass that goes on, too. -/
theorem writeNodes_abort_eq_ok_iff {tree : TemplateTree} {renderer : Renderer} {base : Path}
    {ns : List Node} {p p' : Progress} :
    writeNodes ⟨tree, renderer, .abort⟩ base ns p = (p', none) ↔
      writeNodes ⟨tree, renderer, .embed⟩ base ns p = (p', none) ∧
        p'.report.failed = p.report.failed := by
  rcases writeNodes_cases ns p with
    ⟨hsame, hfailed⟩ | ⟨before, n, after, turn, t, e, rfl, -, hembed, hturn, ht, hrefuses, hstop⟩
  · rw [← hsame]
    exact ⟨fun h => ⟨h, hfailed p' h⟩, fun h => h.1⟩
  · rw [hstop]
    constructor
    · intro h
      cases h
    · rintro ⟨h, hfailed⟩
      have he := (TemplateTree.content_of_refuses hrefuses).1
      obtain ⟨rest, hrest⟩ := failed_of_refused hembed ht he h
      rw [hfailed, hturn] at hrest
      simp at hrest

/-! ## Top theorem -/

/-- A pass that stops at failures succeeds exactly where one that goes on succeeds without a diagnostic,
and leaves the same behind.  Where it stops because a node has no content, the other pass comes to that
node with the same files, warnings and report, and lists it first if it succeeds in the end.  Where it
stops otherwise, the other pass stops in the same way. -/
theorem abort_agrees_with_embed (tree : TemplateTree) (renderer : Renderer) (base : Path)
    (w : Workspace) :
    (∀ w' report, writeTree ⟨tree, renderer, .abort⟩ base w = ⟨w', .ok report⟩ ↔
      writeTree ⟨tree, renderer, .embed⟩ base w = ⟨w', .ok report⟩ ∧ report.failed = []) ∧
    (∀ before n after turn t e, tree.nodes = before ++ n :: after →
      writeNodes ⟨tree, renderer, .abort⟩ base before ⟨w, .empty base⟩ = (turn, none) →
      fileTarget? ⟨tree, renderer, .abort⟩ base n = some t →
      tree.content turn.files renderer .abort n = .error e →
        (writeTree ⟨tree, renderer, .abort⟩ base w).result = .error e ∧
        writeNodes ⟨tree, renderer, .embed⟩ base before ⟨w, .empty base⟩ = (turn, none) ∧
        ∀ w' report, writeTree ⟨tree, renderer, .embed⟩ base w = ⟨w', .ok report⟩ →
          report.failed.head? = some t) ∧
    ∀ w' e, writeTree ⟨tree, renderer, .abort⟩ base w = ⟨w', .error e⟩ →
      writeTree ⟨tree, renderer, .embed⟩ base w = ⟨w', .error e⟩ ∨
      ∃ before n after turn t, tree.nodes = before ++ n :: after ∧
        writeNodes ⟨tree, renderer, .abort⟩ base before ⟨w, .empty base⟩ = (turn, none) ∧
        fileTarget? ⟨tree, renderer, .abort⟩ base n = some t ∧
        tree.Refuses renderer turn.files n e := by
  refine ⟨fun w' report => ?_, fun before n after turn t e hnodes hbefore ht he => ?_,
    fun w' e hwrite => ?_⟩
  · rw [writeTree_eq_ok_iff, writeTree_eq_ok_iff]
    exact writeNodes_abort_eq_ok_iff
  · obtain ⟨hembed, hfailed⟩ := writeNodes_abort_eq_ok_iff.1 hbefore
    refine ⟨?_, hembed, fun w' report hwrite => ?_⟩
    · have hn := writeNode_of_content_eq_error ht he
      rw [writeTree]
      dsimp only
      rw [hnodes, writeNodes_append_of_ok hbefore, writeNodes_cons_of_error hn]
      rfl
    · have hall := writeTree_eq_ok_iff.1 hwrite
      dsimp only at hall
      rw [hnodes] at hall
      obtain ⟨rest, hrest⟩ := failed_of_refused hembed ht he hall
      rw [hfailed] at hrest
      exact congrArg List.head? hrest
  · rcases writeNodes_cases tree.nodes
      ⟨w, .empty base⟩ with
      ⟨hsame, -⟩ | ⟨before, n, after, turn, t, e', hnodes, habort, -, -, ht, hrefuses, hstop⟩
    · rw [writeTree] at hwrite ⊢
      exact .inl ((congrArg outcome hsame).symm.trans hwrite)
    · rw [writeTree] at hwrite
      dsimp only at hwrite
      rw [hstop] at hwrite
      obtain rfl : e' = e := Except.error.inj (congrArg Outcome.result hwrite)
      exact .inr ⟨before, n, after, turn, t, hnodes, habort, ht, hrefuses⟩

/-- The first of three templates can be rendered, the others cannot. -/
def brokenFiles : FileSystem :=
  ⟨.directory [("src", .directory [("a.txt.template", .file ⟨#[104, 105]⟩),
    ("b.txt.template", .file ⟨#[]⟩), ("c.txt.template", .file ⟨#[]⟩)])],
    [], .healthy, rfl, by decide +kernel⟩

def brokenTree : TemplateTree :=
  ⟨.directory ⟨"src"⟩ .empty [.file (.path ⟨"src/a.txt.template"⟩) .empty,
    .file (.path ⟨"src/b.txt.template"⟩) .empty, .file (.path ⟨"src/c.txt.template"⟩) .empty], .standard⟩

/-- Refuses empty templates. -/
def refuseEmpty : Renderer := fun label text _ =>
  if text = "" then .error (.render label "nothing to render") else .ok text

theorem abort_agrees_with_embed_broken :
    ∃ before n after turn t e w' report, brokenTree.nodes = before ++ n :: after ∧
      writeNodes ⟨brokenTree, refuseEmpty, .abort⟩ ⟨"out"⟩ before ⟨⟨brokenFiles, []⟩, .empty ⟨"out"⟩⟩ =
        (turn, none) ∧
      fileTarget? ⟨brokenTree, refuseEmpty, .abort⟩ ⟨"out"⟩ n = some t ∧
      brokenTree.content turn.files refuseEmpty .abort n = .error e ∧
      (writeTree ⟨brokenTree, refuseEmpty, .abort⟩ ⟨"out"⟩ ⟨brokenFiles, []⟩).result = .error e ∧
      writeTree ⟨brokenTree, refuseEmpty, .embed⟩ ⟨"out"⟩ ⟨brokenFiles, []⟩ = ⟨w', .ok report⟩ ∧
      report.failed = [⟨"out/b.txt"⟩, ⟨"out/c.txt"⟩] ∧ t = ⟨"out/b.txt"⟩ := by
  have hagree := abort_agrees_with_embed brokenTree refuseEmpty ⟨"out"⟩ ⟨brokenFiles, []⟩
  have hstops : (writeTree ⟨brokenTree, refuseEmpty, .abort⟩ ⟨"out"⟩ ⟨brokenFiles, []⟩).result.isOk =
      false := by decide +kernel
  have hfailed : (writeTree ⟨brokenTree, refuseEmpty, .embed⟩ ⟨"out"⟩
      ⟨brokenFiles, []⟩).result.toOption.map Report.failed =
        some [⟨"out/b.txt"⟩, ⟨"out/c.txt"⟩] := by decide +kernel
  rcases habort : writeTree ⟨brokenTree, refuseEmpty, .abort⟩ ⟨"out"⟩ ⟨brokenFiles, []⟩ with
    ⟨stopped, e | report⟩
  · rcases hembed : writeTree ⟨brokenTree, refuseEmpty, .embed⟩ ⟨"out"⟩ ⟨brokenFiles, []⟩ with
      ⟨w', e' | report⟩
    · rw [hembed] at hfailed
      cases hfailed
    · rw [hembed] at hfailed
      have hlist : report.failed = [⟨"out/b.txt"⟩, ⟨"out/c.txt"⟩] := Option.some.inj hfailed
      rcases hagree.2.2 stopped e habort with hsame | ⟨before, n, after, turn, t, hnodes, hbefore, ht, hn⟩
      · cases hembed.symm.trans hsame
      · have he := (TemplateTree.content_of_refuses hn).1
        obtain ⟨hresult, -, hfirst⟩ := hagree.2.1 before n after turn t e hnodes hbefore ht he
        have hhead := hfirst w' report hembed
        rw [hlist] at hhead
        exact ⟨before, n, after, turn, t, e, w', report, hnodes, hbefore, ht, he, habort ▸ hresult, rfl,
          hlist, (Option.some.inj hhead).symm⟩
  · rw [habort] at hstops
    cases hstops

end Pass

end Stencil
