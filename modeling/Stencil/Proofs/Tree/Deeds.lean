import Stencil.Proofs.FileSystem.Effects
import Stencil.Tree.Write
/-!
# What a pass does for each node

For every node a pass decides what is to be done, from the files as they are at its turn, and then does
it.  An error of the decision leaves the files alone.  A pass that succeeds is a run: one deed for each
node, done one after another, and its report is what the deeds put on record.

    pass.writeNode base n p = (p', none) → d.perform p.files = (p'.files, none) where d is the deed of n
    (∃ ds, Run pass base p ns ds p') ↔ pass.writeNodes base ns p = (p', none)
-/

namespace Stencil

/-- What is to be done for a node. -/
inductive Deed where
  /-- Nothing: the node has children in its place. -/
  | nothing
  | skip (source : Path)
  | makeDirectory (target : Path)
  | writeFile (target : Path) (output : Output)

namespace Deed

/-- What a deed does to the files, and the error that stops it, if one does. -/
def perform : Deed → FileSystem → FileSystem × Option Error
  | .nothing, fs => (fs, none)
  | .skip _, fs => (fs, none)
  | .makeDirectory target, fs =>
    ((fs.makeDirectories target).1, (fs.makeDirectories target).2.map (Error.write target))
  | .writeFile target output, fs => fs.writeFile target output.bytes

/-- The path that the deed writes to. -/
def target? : Deed → Option Path
  | .makeDirectory target => some target
  | .writeFile target _ => some target
  | _ => none

/-- The path of the file that the deed writes. -/
def fileTarget? : Deed → Option Path
  | .writeFile target _ => some target
  | _ => none

/-- The report once the deed is done. -/
def record : Deed → Report → Report
  | .nothing, r => r
  | .skip source, r => r.addSkipped source
  | .makeDirectory target, r => r.addDirectory target
  | .writeFile target output, r =>
    (if r.files.any target.same then r.addOverwritten target else r).addFile target output

end Deed

namespace Progress

@[simp] theorem files_warn (p : Progress) (warnings : List Warning) :
    (p.warn warnings).files = p.files := rfl

@[simp] theorem files_claim (p : Progress) (target : Path) : (p.claim target).files = p.files := by
  rw [claim]
  split <;> rfl

theorem report_claim (p : Progress) (target : Path) :
    (p.claim target).report =
      if p.report.files.any target.same then p.report.addOverwritten target else p.report := by
  rw [claim]
  split <;> rfl

end Progress

namespace Pass

/-- What is to be done for a node, decided from the files as they are at its turn. -/
def deed (pass : Pass) (base : Path) (files : FileSystem) (n : Node) : Except Error Deed :=
  match n.kind with
  | .expanded => .ok .nothing
  | kind =>
    match pass.tree.destination n (some base) with
    | .error e => .error e
    | .ok none => .ok (.skip n.source.label)
    | .ok (some target) =>
      if kind = .directory then .ok (.makeDirectory target)
      else
        match pass.tree.content files pass.renderer pass.policy n with
        | .error e => .error e
        | .ok (output, _) => .ok (.writeFile target output)

/-- Where a node is written, if it is. -/
def target? (pass : Pass) (base : Path) (n : Node) : Option Path :=
  if n.kind = .expanded then none else (pass.tree.destination n (some base)).toOption.join

/-- Where a node is written as a file. -/
def fileTarget? (pass : Pass) (base : Path) (n : Node) : Option Path :=
  if n.kind = .file then pass.target? base n else none

/-! ## One node -/

section
variable {pass : Pass} {base : Path} {n : Node}

theorem deed_of_kind_ne (h : n.kind ≠ .expanded) (files : FileSystem) :
    pass.deed base files n =
      match pass.tree.destination n (some base) with
      | .error e => .error e
      | .ok none => .ok (.skip n.source.label)
      | .ok (some target) =>
        if n.kind = .directory then .ok (.makeDirectory target)
        else
          match pass.tree.content files pass.renderer pass.policy n with
          | .error e => .error e
          | .ok (output, _) => .ok (.writeFile target output) := by
  rw [deed]
  cases hkind : n.kind with
  | expanded => exact absurd hkind h
  | directory => rfl
  | file => rfl

theorem writeNode_of_kind_ne (h : n.kind ≠ .expanded) (p : Progress) :
    pass.writeNode base n p =
      match pass.tree.destination n (some base) with
      | .error e => (p, some e)
      | .ok none => (p.skip n.source.label (.noDestination n.source.label), none)
      | .ok (some target) =>
        if n.kind = .directory then writeDirectory target p
        else pass.writeFile n target (p.claim target) := by
  rw [writeNode]
  cases hkind : n.kind with
  | expanded => exact absurd hkind h
  | directory => rfl
  | file => rfl

theorem kind_eq_file (hexpanded : n.kind ≠ .expanded) (hdir : n.kind ≠ .directory) :
    n.kind = .file := by
  cases hkind : n.kind with
  | expanded => exact absurd hkind hexpanded
  | directory => exact absurd hkind hdir
  | file => rfl

/-- What is decided for a node, by its kind and its destination. -/
theorem of_deed_eq_ok {files : FileSystem} {d : Deed} (h : pass.deed base files n = .ok d) :
    (n.kind = .expanded ∧ d = .nothing) ∨
    (n.kind ≠ .expanded ∧ pass.tree.destination n (some base) = .ok none ∧
      d = .skip n.source.label) ∨
    (n.kind = .directory ∧ ∃ target, pass.tree.destination n (some base) = .ok (some target) ∧
      d = .makeDirectory target) ∨
    (n.kind = .file ∧ ∃ target output warning,
      pass.tree.destination n (some base) = .ok (some target) ∧
      pass.tree.content files pass.renderer pass.policy n = .ok (output, warning) ∧
      d = .writeFile target output) := by
  by_cases hexpanded : n.kind = .expanded
  · rw [deed, hexpanded] at h
    exact .inl ⟨hexpanded, (Except.ok.inj h).symm⟩
  · rw [deed_of_kind_ne hexpanded] at h
    split at h
    · cases h
    · next hdestination =>
      exact .inr (.inl ⟨hexpanded, hdestination, (Except.ok.inj h).symm⟩)
    · next target hdestination =>
      split at h
      · next hdir =>
        exact .inr (.inr (.inl ⟨hdir, target, hdestination, (Except.ok.inj h).symm⟩))
      · next hdir =>
        split at h
        · cases h
        · next output warning hcontent =>
          exact .inr (.inr (.inr ⟨kind_eq_file hexpanded hdir, target, output, warning, hdestination,
            hcontent, (Except.ok.inj h).symm⟩))

theorem target?_eq_some_iff {t : Path} :
    pass.target? base n = some t ↔
      n.kind ≠ .expanded ∧ pass.tree.destination n (some base) = .ok (some t) := by
  rw [target?]
  by_cases hexpanded : n.kind = .expanded
  · simp [hexpanded]
  · rw [if_neg hexpanded]
    rcases hdestination : pass.tree.destination n (some base) with e | target
    · simp [Except.toOption]
    · simp [Except.toOption, hexpanded]

theorem fileTarget?_eq_some_iff {t : Path} :
    pass.fileTarget? base n = some t ↔
      n.kind = .file ∧ pass.tree.destination n (some base) = .ok (some t) := by
  rw [fileTarget?]
  by_cases hfile : n.kind = .file
  · rw [if_pos hfile, target?_eq_some_iff, hfile]
    simp
  · simp [hfile]

/-- A deed writes where the node is written. -/
theorem target?_of_deed {files : FileSystem} {d : Deed} (h : pass.deed base files n = .ok d) :
    d.target? = pass.target? base n ∧ d.fileTarget? = pass.fileTarget? base n := by
  rcases of_deed_eq_ok h with ⟨hexpanded, rfl⟩ | ⟨hexpanded, hdestination, rfl⟩ |
    ⟨hdir, target, hdestination, rfl⟩ | ⟨hfile, target, output, warning, hdestination, -, rfl⟩
  · simp [Deed.target?, Deed.fileTarget?, target?, fileTarget?, hexpanded]
  · simp [Deed.target?, Deed.fileTarget?, target?, fileTarget?, hexpanded, hdestination,
      Except.toOption]
  · simp [Deed.target?, Deed.fileTarget?, target?, fileTarget?, hdir, hdestination, Except.toOption]
  · simp [Deed.target?, Deed.fileTarget?, target?, fileTarget?, hfile, hdestination, Except.toOption]

/-- A file is written with what is made of it at its turn. -/
theorem content_of_deed {files : FileSystem} {target : Path} {output : Output}
    (h : pass.deed base files n = .ok (.writeFile target output)) :
    ∃ warning, pass.tree.content files pass.renderer pass.policy n = .ok (output, warning) := by
  rcases of_deed_eq_ok h with ⟨-, hd⟩ | ⟨-, -, hd⟩ | ⟨-, _, -, hd⟩ |
    ⟨-, _, _, warning, -, hcontent, hd⟩
  · cases hd
  · cases hd
  · cases hd
  · cases hd
    exact ⟨warning, hcontent⟩

/-- Nothing can be decided without a destination, or for a file without its content. -/
theorem of_deed_eq_error {files : FileSystem} {e : Error} (h : pass.deed base files n = .error e) :
    n.kind ≠ .expanded ∧
      (pass.tree.destination n (some base) = .error e ∨
        (∃ target, pass.fileTarget? base n = some target) ∧
          pass.tree.content files pass.renderer pass.policy n = .error e) := by
  have hexpanded : n.kind ≠ .expanded := by
    intro hexpanded
    rw [deed, hexpanded] at h
    cases h
  refine ⟨hexpanded, ?_⟩
  rw [deed_of_kind_ne hexpanded] at h
  split at h
  · next hdestination =>
    obtain rfl := Except.error.inj h
    exact .inl hdestination
  · cases h
  · next target hdestination =>
    split at h
    · cases h
    · next hdir =>
      split at h
      · next hcontent =>
        obtain rfl := Except.error.inj h
        have htarget := fileTarget?_eq_some_iff.2 ⟨kind_eq_file hexpanded hdir, hdestination⟩
        exact .inr ⟨⟨target, htarget⟩, hcontent⟩
      · cases h

theorem writeFile_of_content_eq_error {target : Path} {p : Progress} {e : Error}
    (h : pass.tree.content p.files pass.renderer pass.policy n = .error e) :
    pass.writeFile n target p = (p, some e) := by
  rw [writeFile, h]

/-- A file with this content is written and put on record, unless there is an error. -/
theorem writeFile_of_content_eq_ok (target : Path) {p : Progress} {output : Output}
    {warning : Option Warning}
    (h : pass.tree.content p.files pass.renderer pass.policy n = .ok (output, warning)) :
    ∃ p', pass.writeFile n target p = (p', (p.files.writeFile target output.bytes).2) ∧
      p'.files = (p.files.writeFile target output.bytes).1 ∧
      ((p.files.writeFile target output.bytes).2 = none →
        p'.report = p.report.addFile target output) := by
  rw [writeFile, h]
  dsimp only
  rw [Progress.files_warn]
  cases hwrite : p.files.writeFile target output.bytes with
  | mk files error =>
    cases error with
    | some e => exact ⟨_, rfl, rfl, fun h => nomatch h⟩
    | none => exact ⟨_, rfl, rfl, fun _ => rfl⟩

theorem writeDirectory_spec (target : Path) (p : Progress) :
    ∃ p', writeDirectory target p = (p', ((Deed.makeDirectory target).perform p.files).2) ∧
      p'.files = ((Deed.makeDirectory target).perform p.files).1 ∧
      (((Deed.makeDirectory target).perform p.files).2 = none →
        p'.report = (Deed.makeDirectory target).record p.report) := by
  rw [writeDirectory, Deed.perform]
  cases hmake : p.files.makeDirectories target with
  | mk files fault =>
    cases fault with
    | some fault => exact ⟨_, rfl, rfl, fun h => nomatch h⟩
    | none => exact ⟨_, rfl, rfl, fun _ => rfl⟩

variable {p : Progress}

/-- A node without a destination leaves all as it was, one without content claims its destination. -/
theorem writeNode_cases_of_deed_eq_error {e : Error} (h : pass.deed base p.files n = .error e) :
    (pass.tree.destination n (some base) = .error e ∧ pass.writeNode base n p = (p, some e)) ∨
      ∃ t, pass.fileTarget? base n = some t ∧
        pass.tree.content p.files pass.renderer pass.policy n = .error e ∧
        pass.writeNode base n p = (p.claim t, some e) := by
  obtain ⟨hexpanded, hdestination | ⟨⟨t, ht⟩, hcontent⟩⟩ := of_deed_eq_error h
  · exact .inl ⟨hdestination, by rw [writeNode_of_kind_ne hexpanded, hdestination]⟩
  · refine .inr ⟨t, ht, hcontent, ?_⟩
    obtain ⟨hfile, hdestination⟩ := fileTarget?_eq_some_iff.1 ht
    rw [writeNode_of_kind_ne hexpanded, hdestination]
    dsimp only
    rw [if_neg (by rw [hfile]; simp)]
    rw [← p.files_claim t] at hcontent
    exact writeFile_of_content_eq_error hcontent

/-- Where it cannot be decided what is to be done, nothing is. -/
theorem writeNode_of_deed_eq_error {e : Error} (h : pass.deed base p.files n = .error e) :
    ∃ p', pass.writeNode base n p = (p', some e) ∧ p'.files = p.files := by
  rcases writeNode_cases_of_deed_eq_error h with ⟨-, hwrite⟩ | ⟨t, -, -, hwrite⟩
  · exact ⟨p, hwrite, rfl⟩
  · exact ⟨p.claim t, hwrite, p.files_claim t⟩

/-- What is decided is done and, without an error, put on record. -/
theorem writeNode_of_deed_eq_ok {d : Deed} (h : pass.deed base p.files n = .ok d) :
    ∃ p', pass.writeNode base n p = (p', (d.perform p.files).2) ∧
      p'.files = (d.perform p.files).1 ∧
      ((d.perform p.files).2 = none → p'.report = d.record p.report) := by
  rcases of_deed_eq_ok h with ⟨hexpanded, rfl⟩ | ⟨hexpanded, hdestination, rfl⟩ |
    ⟨hdir, target, hdestination, rfl⟩ | ⟨hfile, target, output, warning, hdestination, hcontent, rfl⟩
  · rw [writeNode, hexpanded]
    exact ⟨p, rfl, rfl, fun _ => rfl⟩
  · rw [writeNode_of_kind_ne hexpanded, hdestination]
    exact ⟨_, rfl, rfl, fun _ => rfl⟩
  · rw [writeNode_of_kind_ne (by rw [hdir]; simp), hdestination]
    dsimp only
    rw [if_pos hdir]
    exact writeDirectory_spec target p
  · rw [writeNode_of_kind_ne (by rw [hfile]; simp), hdestination]
    dsimp only
    rw [if_neg (by rw [hfile]; simp)]
    rw [← p.files_claim target] at hcontent
    obtain ⟨p', hwrite, hfiles, hreport⟩ := writeFile_of_content_eq_ok target hcontent
    rw [p.files_claim target] at hwrite hfiles hreport
    rw [p.report_claim target] at hreport
    exact ⟨p', hwrite, hfiles, hreport⟩

end

/-! ## Many nodes -/

section
variable {pass : Pass} {base : Path}

theorem writeNodes_cons_of_ok {n : Node} {p next : Progress}
    (h : pass.writeNode base n p = (next, none)) (ns : List Node) :
    pass.writeNodes base (n :: ns) p = pass.writeNodes base ns next := by
  rw [writeNodes, h]

theorem writeNodes_cons_of_error {n : Node} {p next : Progress} {e : Error}
    (h : pass.writeNode base n p = (next, some e)) (ns : List Node) :
    pass.writeNodes base (n :: ns) p = (next, some e) := by
  rw [writeNodes, h]

/-- Nodes that are written without an error leave the rest to be written. -/
theorem writeNodes_append_of_ok {ns : List Node} {p next : Progress}
    (h : pass.writeNodes base ns p = (next, none)) (ms : List Node) :
    pass.writeNodes base (ns ++ ms) p = pass.writeNodes base ms next := by
  induction ns generalizing p with
  | nil =>
    obtain ⟨rfl, -⟩ := Prod.mk.inj h
    rfl
  | cons n ns ih =>
    cases hn : pass.writeNode base n p with
    | mk p' error =>
      cases error with
      | some e =>
        rw [writeNodes_cons_of_error hn] at h
        cases h
      | none =>
        rw [writeNodes_cons_of_ok hn] at h
        rw [List.cons_append, writeNodes_cons_of_ok hn]
        exact ih h

/-- An error stops the pass at one node, before which all went well. -/
theorem exists_turn_of_error {ns : List Node} {p p' : Progress} {e : Error}
    (h : pass.writeNodes base ns p = (p', some e)) :
    ∃ before n after turn, ns = before ++ n :: after ∧
      pass.writeNodes base before p = (turn, none) ∧ pass.writeNode base n turn = (p', some e) := by
  induction ns generalizing p with
  | nil => cases h
  | cons m ns ih =>
    cases hm : pass.writeNode base m p with
    | mk p₁ error =>
      cases error with
      | some e' =>
        rw [writeNodes_cons_of_error hm] at h
        obtain ⟨rfl, he⟩ := Prod.mk.inj h
        obtain rfl := Option.some.inj he
        exact ⟨[], m, ns, p, rfl, rfl, hm⟩
      | none =>
        rw [writeNodes_cons_of_ok hm] at h
        obtain ⟨before, n, after, turn, rfl, hbefore, hn⟩ := ih h
        refine ⟨m :: before, n, after, turn, rfl, ?_, hn⟩
        rw [writeNodes_cons_of_ok hm]
        exact hbefore

/-- Without an error the deed of a node was decided, and done. -/
theorem exists_deed {n : Node} {p p' : Progress} (h : pass.writeNode base n p = (p', none)) :
    ∃ d, pass.deed base p.files n = .ok d ∧ d.perform p.files = (p'.files, none) ∧
      p'.report = d.record p.report := by
  cases hd : pass.deed base p.files n with
  | error e =>
    obtain ⟨q, hq, -⟩ := writeNode_of_deed_eq_error hd
    rw [hq] at h
    cases h
  | ok d =>
    obtain ⟨q, hq, hfiles, hreport⟩ := writeNode_of_deed_eq_ok hd
    rw [hq] at h
    obtain ⟨rfl, hnone⟩ := Prod.mk.inj h
    exact ⟨d, rfl, Prod.ext hfiles.symm hnone, hreport hnone⟩

end

/-- Nodes written one after another without an error, with the deed that was done for each. -/
inductive Run (pass : Pass) (base : Path) : Progress → List Node → List Deed → Progress → Prop where
  | nil (p : Progress) : Run pass base p [] [] p
  | cons {p next p' : Progress} {n : Node} {ns : List Node} {d : Deed} {ds : List Deed} :
    pass.writeNode base n p = (next, none) → pass.deed base p.files n = .ok d →
      Run pass base next ns ds p' → Run pass base p (n :: ns) (d :: ds) p'

section
variable {pass : Pass} {base : Path} {ns : List Node} {p p' : Progress}

theorem exists_run_iff :
    (∃ ds, Run pass base p ns ds p') ↔ pass.writeNodes base ns p = (p', none) := by
  constructor
  · rintro ⟨ds, hrun⟩
    induction hrun with
    | nil p => rfl
    | cons hn _ _ ih => rw [writeNodes_cons_of_ok hn, ih]
  · intro h
    induction ns generalizing p with
    | nil =>
      obtain ⟨rfl, -⟩ := Prod.mk.inj h
      exact ⟨[], .nil p⟩
    | cons n ns ih =>
      cases hn : pass.writeNode base n p with
      | mk next error =>
        cases error with
        | some e =>
          rw [writeNodes_cons_of_error hn] at h
          cases h
        | none =>
          rw [writeNodes_cons_of_ok hn] at h
          obtain ⟨d, hd, -⟩ := exists_deed hn
          obtain ⟨ds, hrun⟩ := ih h
          exact ⟨d :: ds, .cons hn hd hrun⟩

variable {ds : List Deed} (hrun : Run pass base p ns ds p')
include hrun

theorem Run.length_eq : ds.length = ns.length := by
  induction hrun with
  | nil p => rfl
  | cons _ _ _ ih => rw [List.length_cons, List.length_cons, ih]

/-- The report of a run is what its deeds put on record. -/
theorem Run.report_eq : p'.report = ds.foldl (fun r d => d.record r) p.report := by
  induction hrun with
  | nil p => rfl
  | cons hn hd _ ih =>
    obtain ⟨d, hd', -, hrecord⟩ := exists_deed hn
    obtain rfl := Except.ok.inj (hd.symm.trans hd')
    rw [ih, hrecord, List.foldl_cons]

/-- Every node has its turn. -/
theorem Run.turn {before after : List Node} {n : Node} (hns : ns = before ++ n :: after) :
    ∃ ds₁ turn d next ds₂, ds = ds₁ ++ d :: ds₂ ∧ Run pass base p before ds₁ turn ∧
      pass.writeNode base n turn = (next, none) ∧ pass.deed base turn.files n = .ok d ∧
      Run pass base next after ds₂ p' := by
  induction before generalizing p ns ds with
  | nil =>
    subst hns
    cases hrun with
    | cons hn hd hrest => exact ⟨[], _, _, _, _, rfl, .nil p, hn, hd, hrest⟩
  | cons m before ih =>
    subst hns
    cases hrun with
    | cons hm hd hrest =>
      obtain ⟨ds₁, turn, d, next, ds₂, rfl, hbefore, hn⟩ := ih hrest rfl
      exact ⟨_ :: ds₁, turn, d, next, ds₂, rfl, .cons hm hd hbefore, hn⟩

end

/-- The pass over the whole tree. -/
theorem writeTree_eq_ok_iff {pass : Pass} {base : Path} {w w' : Workspace} {report : Report} :
    pass.writeTree base w = ⟨w', .ok report⟩ ↔
      pass.writeNodes base pass.tree.nodes ⟨w, .empty base⟩ = (⟨w', report⟩, none) := by
  rw [writeTree]
  cases hwrite : pass.writeNodes base pass.tree.nodes ⟨w, .empty base⟩ with
  | mk p error =>
    cases error with
    | some e => simp [outcome, Workspace.fail]
    | none =>
      cases p
      simp [outcome, Workspace.succeed]

end Pass

end Stencil
