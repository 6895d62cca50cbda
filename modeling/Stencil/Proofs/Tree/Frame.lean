import Stencil.Proofs.Tree.Deeds
/-!
# What a pass leaves alone

A node changes the file that it is written as, and makes directories at or above its destination.  So a
pass, whether it succeeds or not, removes nothing, rewrites only files that are destinations, and adds
nothing but destinations and what is above them.  An error stops it at one node, which has made
directories at most, and written a first part of its file if it is the disk that took no more.

    Touches (pass.Writes base ns) (pass.Makes base ns) p.files (pass.writeNodes base ns p).1.files
    fs.writeFile target content = (fs', some e) →
      MakesOnly target.AtOrAbove fs fs' ∨ BreaksOff target content fault fs fs'
-/

namespace Stencil

open FileSystem

/-! ## Files -/

namespace FileSystem

theorem makesOnly_makeParents (fs : FileSystem) (target : Path) :
    MakesOnly target.AtOrAbove fs (fs.makeDirectories (target.parent?.getD ⟨""⟩)).1 := by
  cases hparent : target.parent? with
  | none =>
    have hempty : fs.makeDirectories ⟨""⟩ = (fs, none) :=
      makeDirectories_of_parent?_eq_none (by decide) fs
    rw [Option.getD_none, hempty]
    exact .refl fs
  | some parent =>
    refine (makesOnly_makeDirectories fs parent).mono (fun _ h => h) fun a ha => ?_
    exact .head hparent ha

/-- What is left of a file that the disk did not take in full: the directories above it are there, and in
its place is a first part of its bytes. -/
def BreaksOff (target : Path) (content : ByteArray) (fault : FileFault) (fs fs' : FileSystem) : Prop :=
  ∃ made place part, MakesOnly target.AtOrAbove fs made ∧ IsPart part content ∧
    fs.disk.store place content = (part, some fault) ∧ Puts target (.file part) place made fs'

/-- Either the file stands where its path says, or it cannot be written: then the directories above it may
have been made, and if the disk took no more, a first part of it has been written. -/
theorem writeFile_cases (fs : FileSystem) (target : Path) (content : ByteArray) :
    (∃ made place fs', fs.writeFile target content = (fs', none) ∧
      MakesOnly target.AtOrAbove fs made ∧ Puts target (.file content) place made fs') ∨
    ∃ path fault fs', fs.writeFile target content = (fs', some (.write path fault)) ∧
      (MakesOnly target.AtOrAbove fs fs' ∨ path = target ∧ BreaksOff target content fault fs fs') := by
  have hmakes := makesOnly_makeParents fs target
  rw [writeFile]
  rcases hmake : fs.makeDirectories (target.parent?.getD ⟨""⟩) with ⟨made, _ | fault⟩
  · rw [hmake] at hmakes
    rcases write_cases made target content with ⟨fault, hwrite⟩ |
      ⟨place, name, fs', -, ⟨hwrite, -, hputs⟩ | ⟨part, fault, hwrite, hpart, hstore, hputs⟩⟩
    · exact .inr ⟨target, fault, made, by simp [hwrite], .inl hmakes⟩
    · exact .inl ⟨made, place ++ [name.val], fs', by simp [hwrite], hmakes, hputs⟩
    · rw [hmakes.disk] at hstore
      exact .inr ⟨target, fault, fs', by simp [hwrite],
        .inr ⟨rfl, made, place ++ [name.val], part, hmakes, hpart, hstore, hputs⟩⟩
  · rw [hmake] at hmakes
    exact .inr ⟨target.parent?.getD ⟨""⟩, fault, made, rfl, .inl hmakes⟩

section
variable {fs fs' : FileSystem} {target : Path} {content : ByteArray}

theorem of_writeFile_eq_ok (h : fs.writeFile target content = (fs', none)) :
    ∃ made place, MakesOnly target.AtOrAbove fs made ∧ Puts target (.file content) place made fs' := by
  rcases writeFile_cases fs target content with ⟨made, place, after, hwrite, hmakes, hputs⟩ |
    ⟨path, fault, after, hwrite, -⟩
  · obtain ⟨rfl, -⟩ := Prod.mk.inj (hwrite.symm.trans h)
    exact ⟨made, place, hmakes, hputs⟩
  · cases hwrite.symm.trans h

theorem of_writeFile_eq_error {e : Error} (h : fs.writeFile target content = (fs', some e)) :
    ∃ path fault, e = .write path fault ∧
      (MakesOnly target.AtOrAbove fs fs' ∨ path = target ∧ BreaksOff target content fault fs fs') := by
  rcases writeFile_cases fs target content with ⟨made, place, after, hwrite, -⟩ |
    ⟨path, fault, after, hwrite, hleft⟩
  · cases hwrite.symm.trans h
  · obtain ⟨rfl, he⟩ := Prod.mk.inj (hwrite.symm.trans h)
    exact ⟨path, fault, (Option.some.inj he).symm, hleft⟩

/-- A file that is put where its path says is the only file that changes. -/
theorem touches_of_puts {written made : Path → Prop} {between : FileSystem} {place : Place}
    (hmakes : MakesOnly target.AtOrAbove fs between) (hputs : Puts target (.file content) place between fs')
    (hwritten : written target) (hmade : ∀ a, target.AtOrAbove a → made a) :
    Touches written made fs fs' :=
  (hmakes.mono (fun _ h => h.elim) hmade).trans
    (hputs.touches (fun _ _ => hwritten) fun hitem => absurd hitem (by simp))

end

end FileSystem

/-! ## Deeds -/

namespace Deed

variable {d : Deed} {fs fs' : FileSystem}

/-- A deed that fails has made directories at most, or breaks off in the file that it writes. -/
theorem of_perform_eq_error {e : Error} (h : d.perform fs = (fs', some e)) :
    ∃ target path fault, d.target? = some target ∧ e = .write path fault ∧
      (MakesOnly target.AtOrAbove fs fs' ∨
        ∃ output, d = .writeFile target output ∧ path = target ∧
          BreaksOff target output.bytes fault fs fs') := by
  cases d with
  | nothing => cases h
  | skip source => cases h
  | makeDirectory target =>
    rw [perform, Prod.mk.injEq] at h
    obtain ⟨fault, -, rfl⟩ := Option.map_eq_some_iff.1 h.2
    exact ⟨target, target, fault, rfl, rfl, .inl (h.1 ▸ makesOnly_makeDirectories fs target)⟩
  | writeFile target output =>
    rw [perform] at h
    obtain ⟨path, fault, rfl, hleft⟩ := of_writeFile_eq_error h
    refine ⟨target, path, fault, rfl, rfl, hleft.imp_right ?_⟩
    rintro ⟨hpath, hbreaks⟩
    exact ⟨output, rfl, hpath, hbreaks⟩

/-- A deed changes the file that it writes and makes directories at or above its path. -/
theorem touches_perform (d : Deed) (fs : FileSystem) :
    Touches (fun t => d.fileTarget? = some t) (fun a => ∃ t, d.target? = some t ∧ t.AtOrAbove a) fs
      (d.perform fs).1 := by
  rcases hperform : d.perform fs with ⟨fs', _ | e⟩
  · cases d with
    | nothing =>
      obtain ⟨rfl, -⟩ := Prod.mk.inj hperform
      exact .refl _
    | skip source =>
      obtain ⟨rfl, -⟩ := Prod.mk.inj hperform
      exact .refl _
    | makeDirectory target =>
      rw [perform, Prod.mk.injEq] at hperform
      have hmakes : MakesOnly target.AtOrAbove fs fs' := hperform.1 ▸ makesOnly_makeDirectories fs target
      exact hmakes.mono (fun _ h => h.elim) fun a ha => ⟨target, rfl, ha⟩
    | writeFile target output =>
      rw [perform] at hperform
      obtain ⟨made, place, hmakes, hputs⟩ := of_writeFile_eq_ok hperform
      exact touches_of_puts hmakes hputs rfl fun a ha => ⟨target, rfl, ha⟩
  · obtain ⟨target, _, _, htarget, -, hmakes | ⟨output, rfl, -, hbreaks⟩⟩ := of_perform_eq_error hperform
    · exact hmakes.mono (fun _ h => h.elim) fun a ha => ⟨target, htarget, ha⟩
    · obtain ⟨made, place, part, hmakes, -, -, hputs⟩ := hbreaks
      exact touches_of_puts hmakes hputs rfl fun a ha => ⟨target, rfl, ha⟩

end Deed

/-! ## Nodes -/

namespace Pass

/-- One of the nodes is written as this file. -/
def Writes (pass : Pass) (base : Path) (ns : List Node) (t : Path) : Prop :=
  ∃ n ∈ ns, pass.fileTarget? base n = some t

/-- The path is at or above the destination of one of the nodes. -/
def Makes (pass : Pass) (base : Path) (ns : List Node) (a : Path) : Prop :=
  ∃ n ∈ ns, ∃ t, pass.target? base n = some t ∧ t.AtOrAbove a

/-- What some of the nodes touch, all of them do. -/
theorem touches_of_subset {pass : Pass} {base : Path} {ns ms : List Node} (hsub : ns ⊆ ms)
    {fs fs' : FileSystem} (h : Touches (pass.Writes base ns) (pass.Makes base ns) fs fs') :
    Touches (pass.Writes base ms) (pass.Makes base ms) fs fs' :=
  h.mono (fun _ ⟨n, hn, ht⟩ => ⟨n, hsub hn, ht⟩) fun _ ⟨n, hn, ha⟩ => ⟨n, hsub hn, ha⟩

section
variable (pass : Pass) (base : Path)

/-- One node changes what it is written as. -/
theorem touches_writeNode (n : Node) (p : Progress) :
    Touches (pass.Writes base [n]) (pass.Makes base [n]) p.files (pass.writeNode base n p).1.files := by
  cases hd : pass.deed base p.files n with
  | error e =>
    obtain ⟨p', hwrite, hfiles⟩ := writeNode_of_deed_eq_error hd
    rw [hwrite, hfiles]
    exact .refl p.files
  | ok d =>
    obtain ⟨p', hwrite, hfiles, -⟩ := writeNode_of_deed_eq_ok hd
    obtain ⟨htarget, hfileTarget⟩ := target?_of_deed hd
    rw [hwrite, hfiles]
    refine (d.touches_perform p.files).mono (fun t ht => ?_) fun a ⟨t, ht, ha⟩ => ?_
    · exact ⟨n, List.mem_singleton_self n, hfileTarget ▸ ht⟩
    · exact ⟨n, List.mem_singleton_self n, t, htarget ▸ ht, ha⟩

/-- Several nodes change what they are written as, however far they come. -/
theorem touches_writeNodes (ns : List Node) (p : Progress) :
    Touches (pass.Writes base ns) (pass.Makes base ns) p.files (pass.writeNodes base ns p).1.files := by
  induction ns generalizing p with
  | nil => exact .refl p.files
  | cons n ns ih =>
    have hfirst := touches_of_subset (List.cons_subset_cons n (List.nil_subset ns))
      (pass.touches_writeNode base n p)
    rcases hn : pass.writeNode base n p with ⟨next, _ | e⟩
    · rw [hn] at hfirst
      rw [writeNodes_cons_of_ok hn]
      exact hfirst.trans (touches_of_subset (List.subset_cons_self n ns) (ih next))
    · rw [hn] at hfirst
      rw [writeNodes_cons_of_error hn]
      exact hfirst

variable {pass base}

/-- What a node that stops the pass has done, with this error.  Without a destination it has done nothing;
without content it has changed no file, and it may have warned that its destination is written again.  Where
it could not be written, it has made directories on its path at most; only a disk that takes no more leaves
more behind, a first part of the file that was to be written. -/
def Stops (pass : Pass) (base : Path) (n : Node) (e : Error) (turn : Progress) (left : Workspace) : Prop :=
  (pass.tree.destination n (some base) = .error e ∧ left = turn.workspace) ∨
  (∃ t, pass.fileTarget? base n = some t ∧
    pass.tree.content turn.files pass.renderer pass.policy n = .error e ∧
    left.files = turn.files ∧ left = (turn.claim t).workspace) ∨
  ∃ t path fault, pass.target? base n = some t ∧ e = .write path fault ∧
    (MakesOnly t.AtOrAbove turn.files left.files ∨
      ∃ output warning, pass.fileTarget? base n = some t ∧ path = t ∧
        pass.tree.content turn.files pass.renderer pass.policy n = .ok (output, warning) ∧
        BreaksOff t output.bytes fault turn.files left.files)

theorem stops_of_writeNode {n : Node} {p p' : Progress} {e : Error}
    (h : pass.writeNode base n p = (p', some e)) : pass.Stops base n e p p'.workspace := by
  cases hd : pass.deed base p.files n with
  | error e' =>
    rcases writeNode_cases_of_deed_eq_error hd with ⟨hdestination, hwrite⟩ | ⟨t, ht, hcontent, hwrite⟩
    · obtain ⟨rfl, he⟩ := Prod.mk.inj (h.symm.trans hwrite)
      obtain rfl := Option.some.inj he
      exact .inl ⟨hdestination, rfl⟩
    · obtain ⟨rfl, he⟩ := Prod.mk.inj (h.symm.trans hwrite)
      obtain rfl := Option.some.inj he
      exact .inr (.inl ⟨t, ht, hcontent, p.files_claim t, rfl⟩)
  | ok d =>
    obtain ⟨q, hq, hfiles, -⟩ := writeNode_of_deed_eq_ok hd
    obtain ⟨rfl, he⟩ := Prod.mk.inj (h.symm.trans hq)
    obtain ⟨t, path, fault, ht, rfl, hleft⟩ := Deed.of_perform_eq_error (Prod.ext hfiles.symm he.symm)
    obtain ⟨htarget, hfileTarget⟩ := target?_of_deed hd
    refine .inr (.inr ⟨t, path, fault, htarget ▸ ht, rfl, hleft.imp_right ?_⟩)
    rintro ⟨output, rfl, hpath, hbreaks⟩
    obtain ⟨warning, hcontent⟩ := content_of_deed hd
    exact ⟨output, warning, hfileTarget ▸ rfl, hpath, hcontent, hbreaks⟩

end

/-! ## Trees -/

/-- How far the files after a pass may differ from those before it. -/
structure Framed (pass : Pass) (base : Path) (fs fs' : FileSystem) : Prop where
  /-- Nothing is removed. -/
  kept : Extends fs fs'
  /-- A file that no file of the tree is written as keeps its bytes. -/
  file : ∀ place content, fs.item? place = some (.file content) →
    fs'.item? place = some (.file content) ∨
      ∃ t, pass.Writes base pass.tree.nodes t ∧ fs'.resolve t = .ok place
  /-- What is new is a file that is written, or a directory at or above a destination. -/
  new : ∀ place item, fs.item? place = none → fs'.item? place = some item →
    (item ≠ .directory ∧ ∃ t, pass.Writes base pass.tree.nodes t ∧ fs'.resolve t = .ok place) ∨
      (item = .directory ∧ ∃ a, pass.Makes base pass.tree.nodes a ∧ fs'.resolve a = .ok place)

theorem framed_of_touches {pass : Pass} {base : Path} {fs fs' : FileSystem}
    (h : Touches (pass.Writes base pass.tree.nodes) (pass.Makes base pass.tree.nodes) fs fs') :
    pass.Framed base fs fs' := by
  refine ⟨h.toExtends, fun place content hold => ?_, fun place item hold hnew => ?_⟩
  · rcases h.item? place with hsame | ⟨-, content', t, -, ht, hresolve⟩ | ⟨hnone, -⟩
    · exact .inl (hsame.trans hold)
    · exact .inr ⟨t, ht, hresolve⟩
    · rw [hold] at hnone
      cases hnone
  · rcases h.item? place with hsame | ⟨-, content, t, hfile, ht, hresolve⟩ |
      ⟨-, hdir, a, ha, hresolve⟩
    · rw [hsame, hold] at hnew
      cases hnew
    · obtain rfl := Option.some.inj (hfile.symm.trans hnew)
      exact .inl ⟨by simp, t, ht, hresolve⟩
    · obtain rfl := Option.some.inj (hdir.symm.trans hnew)
      exact .inr ⟨rfl, a, ha, hresolve⟩

theorem files_writeTree (pass : Pass) (base : Path) (w : Workspace) :
    (pass.writeTree base w).workspace.files =
      (pass.writeNodes base pass.tree.nodes ⟨w, .empty base⟩).1.files := by
  rw [writeTree]
  rcases pass.writeNodes base pass.tree.nodes ⟨w, .empty base⟩ with ⟨p, _ | e⟩ <;> rfl

/-- A pass touches nothing but the destinations of its nodes and what is above them.  If an error
stops it, it does so at one node: the nodes behind it do not count, and what its own turn has left is
nothing if it has no destination, at most a warning if it has no content, else directories at or above its
destination, and a first part of its file where the disk took no more. -/
theorem writeTree_frame (pass : Pass) (base : Path) (w : Workspace) :
    pass.Framed base w.files (pass.writeTree base w).workspace.files ∧
      ∀ e, (pass.writeTree base w).result = .error e →
        ∃ before n after turn, pass.tree.nodes = before ++ n :: after ∧
          pass.writeNodes base before ⟨w, .empty base⟩ = (turn, none) ∧
          (∀ rest, outcome (pass.writeNodes base (before ++ n :: rest) ⟨w, .empty base⟩) =
            pass.writeTree base w) ∧
          pass.Stops base n e turn (pass.writeTree base w).workspace := by
  constructor
  · rw [files_writeTree]
    exact framed_of_touches (pass.touches_writeNodes base pass.tree.nodes ⟨w, .empty base⟩)
  · intro e herror
    rcases hwrite : pass.writeNodes base pass.tree.nodes ⟨w, .empty base⟩ with ⟨p, _ | e'⟩
    · rw [writeTree, hwrite] at herror
      cases herror
    · obtain rfl : e' = e := by
        rw [writeTree, hwrite] at herror
        exact Except.error.inj herror
      obtain ⟨before, n, after, turn, hnodes, hbefore, hn⟩ := exists_turn_of_error hwrite
      have hleft : (pass.writeTree base w).workspace = p.workspace := by rw [writeTree, hwrite]; rfl
      refine ⟨before, n, after, turn, hnodes, hbefore, fun rest => ?_, hleft ▸ stops_of_writeNode hn⟩
      rw [writeTree, hwrite, writeNodes_append_of_ok hbefore, writeNodes_cons_of_error hn]

/-- A page that is copied from a directory to another. -/
def copyPass : Pass :=
  ⟨⟨.directory ⟨"src"⟩ .empty [.file (.path ⟨"src/a.txt"⟩) .empty], .standard⟩,
    fun _ text _ => .ok text, .abort⟩

/-- A directory stands where a file is to be written. -/
def blockedFiles : FileSystem :=
  ⟨.directory [("out", .directory [("a.txt", .directory [])]),
    ("src", .directory [("a.txt", .file ⟨#[104, 105]⟩)])], [], .healthy, rfl, by decide +kernel⟩

theorem writeTree_frame_blocked :
    ∃ e before n after turn, (copyPass.writeTree ⟨"out"⟩ ⟨blockedFiles, []⟩).result = .error e ∧
      copyPass.tree.nodes = before ++ n :: after ∧
      copyPass.writeNodes ⟨"out"⟩ before ⟨⟨blockedFiles, []⟩, .empty ⟨"out"⟩⟩ = (turn, none) ∧
      copyPass.Stops ⟨"out"⟩ n e turn (copyPass.writeTree ⟨"out"⟩ ⟨blockedFiles, []⟩).workspace := by
  have hfails : (copyPass.writeTree ⟨"out"⟩ ⟨blockedFiles, []⟩).result.isOk = false := by
    decide +kernel
  cases hresult : (copyPass.writeTree ⟨"out"⟩ ⟨blockedFiles, []⟩).result with
  | ok report =>
    rw [hresult] at hfails
    cases hfails
  | error e =>
    obtain ⟨before, n, after, turn, hnodes, hbefore, -, hstops⟩ :=
      (writeTree_frame copyPass ⟨"out"⟩ ⟨blockedFiles, []⟩).2 e hresult
    exact ⟨e, before, n, after, turn, rfl, hnodes, hbefore, hstops⟩

/-- A disk on which only the first byte of the page fits in place of what is there. -/
def fullFiles : FileSystem :=
  ⟨.directory [("out", .directory [("a.txt", .file ⟨#[1, 2, 3]⟩)]),
    ("src", .directory [("a.txt", .file ⟨#[104, 105]⟩)])], [],
    { Disk.healthy with
      full := fun place => if place = ["out", "a.txt"] then some (1, .noSpace) else none },
    rfl, by decide +kernel⟩

/-- A page and a template for it, in one directory. -/
def draftFiles : FileSystem :=
  ⟨.directory [("src", .directory [("a.txt", .file ⟨#[97]⟩), ("a.txt.template", .file ⟨#[123, 123]⟩)])],
    [], .healthy, rfl, by decide +kernel⟩

/-- The page is written, and the template that comes to the same file cannot be rendered. -/
def draftPass : Pass :=
  ⟨⟨.directory ⟨"src"⟩ .empty
    [.file (.path ⟨"src/a.txt"⟩) .empty, .file (.path ⟨"src/a.txt.template"⟩) .empty], .standard⟩,
    fun label _ _ => .error (.render label "syntax error"), .abort⟩

/-- A full disk leaves more than new directories: what was in the page is gone, and what is there now is not
all of the new page.  A template that cannot be rendered leaves more than nothing: it has warned already
that the page is written again. -/
theorem not_writeTree_frame :
    (∃ before n turn, copyPass.tree.nodes = before ++ [n] ∧
      copyPass.writeNodes ⟨"out"⟩ before ⟨⟨fullFiles, []⟩, .empty ⟨"out"⟩⟩ = (turn, none) ∧
      (copyPass.writeTree ⟨"out"⟩ ⟨fullFiles, []⟩).result.isOk = false ∧
      turn.files.item? ["out", "a.txt"] = some (.file ⟨#[1, 2, 3]⟩) ∧
      (copyPass.writeTree ⟨"out"⟩ ⟨fullFiles, []⟩).workspace.files.item? ["out", "a.txt"] =
        some (.file ⟨#[104]⟩) ∧
      ¬ MakesOnly (fun _ => True) turn.files
        (copyPass.writeTree ⟨"out"⟩ ⟨fullFiles, []⟩).workspace.files) ∧
    ∃ before n turn, draftPass.tree.nodes = before ++ [n] ∧
      draftPass.writeNodes ⟨"out"⟩ before ⟨⟨draftFiles, []⟩, .empty ⟨"out"⟩⟩ = (turn, none) ∧
      (draftPass.writeTree ⟨"out"⟩ ⟨draftFiles, []⟩).result.isOk = false ∧
      (draftPass.tree.content turn.files draftPass.renderer draftPass.policy n).isOk = false ∧
      turn.workspace.warnings.map Warning.message = [] ∧
      (draftPass.writeTree ⟨"out"⟩ ⟨draftFiles, []⟩).workspace.warnings.map Warning.message =
        ["out/a.txt is written by more than one node; the later one wins"] := by
  constructor
  · have hold : (copyPass.writeNodes ⟨"out"⟩ [copyPass.tree.root]
        ⟨⟨fullFiles, []⟩, .empty ⟨"out"⟩⟩).1.files.item? ["out", "a.txt"] =
          some (.file ⟨#[1, 2, 3]⟩) := by decide +kernel
    have hnone : (copyPass.writeNodes ⟨"out"⟩ [copyPass.tree.root]
        ⟨⟨fullFiles, []⟩, .empty ⟨"out"⟩⟩).2.isNone = true := by decide +kernel
    have hnew : (copyPass.writeTree ⟨"out"⟩ ⟨fullFiles, []⟩).workspace.files.item? ["out", "a.txt"] =
        some (.file ⟨#[104]⟩) := by decide +kernel
    refine ⟨[copyPass.tree.root], .file (.path ⟨"src/a.txt"⟩) .empty, _, rfl,
      Prod.ext rfl (Option.isNone_iff_eq_none.1 hnone), by decide +kernel, hold, hnew, fun hmakes => ?_⟩
    have hkept := hmakes.item?_of_makesOnly hold
    rw [hnew] at hkept
    cases hkept
  · have hnone : (draftPass.writeNodes ⟨"out"⟩
        [draftPass.tree.root, .file (.path ⟨"src/a.txt"⟩) .empty]
        ⟨⟨draftFiles, []⟩, .empty ⟨"out"⟩⟩).2.isNone = true := by decide +kernel
    exact ⟨[draftPass.tree.root, .file (.path ⟨"src/a.txt"⟩) .empty],
      .file (.path ⟨"src/a.txt.template"⟩) .empty, _, rfl,
      Prod.ext rfl (Option.isNone_iff_eq_none.1 hnone), by decide +kernel, by decide +kernel, rfl,
      by decide +kernel⟩

end Pass

end Stencil
