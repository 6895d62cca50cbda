import Stencil.Proofs.Tree.Containment
/-!
# Directories and what they hold

Every node is resolved by itself, from the root on.  The filled text of a node still continues that of
the directory that holds it, as long as nothing was stripped from the directory and no placeholder of
the node's own name occurs in the text of the directory; then the destinations agree unless the text
has become absolute only below the directory.

    D.components <+: N.components ↔ Continues base S s    S, s: the filled texts of directory and node
    s = S ++ "/" ++ rest → (Continues base S s ↔ (s absolute → S absolute) ∨ base.components <+: those of s)
-/

namespace Stencil.TemplateTree

open Stencil.Path Bindings

/-! ## What a directory holds -/

/-- The directory is the nearest one above the node: only expanded files may stand between them. -/
inductive Holds (d : Node) : Node → Prop where
  | child {n : Node} (h : n ∈ d.children) : Holds d n
  | beneath {e n : Node} (he : Holds d e) (hkind : e.kind = .expanded) (h : n ∈ e.children) : Holds d n

/-- What a directory holds are the nodes of its entries, and those below expanded files. -/
theorem Holds.of_nodesOf {q : Path} {b : Bindings} {children : List (String × Entry)} {n : Node}
    (h : Holds (.directory q b (nodesOf q b children)) n) :
    ∃ name child b', (name, child) ∈ children ∧ b' ∈ variants name b ∧
      (n = nodeOf (q.join ⟨name⟩) child b' ∨
        child.isDirectory = false ∧ n ∈ (nodeOf (q.join ⟨name⟩) child b').preorder) := by
  induction h with
  | child h =>
    obtain ⟨name, child, b', hmem, hb', rfl⟩ := mem_nodesOf_iff.1 h
    exact ⟨name, child, b', hmem, hb', .inl rfl⟩
  | @beneath e n _ hkind h ih =>
    obtain ⟨name, child, b', hmem, hb', he⟩ := ih
    refine ⟨name, child, b', hmem, hb', .inr ?_⟩
    rcases he with rfl | ⟨hfile, he⟩
    · cases child with
      | directory entries =>
        rw [nodeOf] at hkind
        cases hkind
      | file content => exact ⟨rfl, mem_preorder_of_child _ (mem_preorder_self _) h⟩
    · exact ⟨hfile, mem_preorder_of_child _ he h⟩

/-- A node stands one name below the directory that holds it, with its bindings narrowed. -/
theorem Placed.of_holds {root : Path} {entry : Entry} (hnamed : entry.WellNamed) {place : Place}
    {d n : Node} (hplaced : Placed root entry place d) (hkind : d.kind = .directory) (h : Holds d n) :
    ∃ name, Placed root entry (place ++ [name]) n ∧ Narrows d.bindings n.bindings := by
  obtain ⟨e, hget, hentry⟩ := hplaced.entry_at
  rcases hentry with ⟨children, rfl, hd⟩ | ⟨-, hd⟩
  · rw [hd] at h
    obtain ⟨name, child, b', hmem, hb', hn⟩ := h.of_nodesOf
    have hself : Placed ((root.below place).join ⟨name⟩) child [] n := by
      rcases hn with rfl | ⟨hfile, hn⟩
      · exact placed_nodeOf _ child b'
      · cases child with
        | directory entries => cases hfile
        | file content => exact placed_of_mem_preorder_file hn
    have hlookup : children.lookup name = some child :=
      KeyedList.lookup_of_mem (hnamed.get? hget).1.nodup hmem
    refine ⟨name, (hself.of_child hlookup).append hget, (narrows_of_mem_variants hb').trans ?_⟩
    have hn' : n ∈ (nodeOf ((root.below place).join ⟨name⟩) child b').preorder := by
      rcases hn with rfl | ⟨-, hn⟩
      · exact mem_preorder_self _
      · exact hn
    exact narrows_of_mem_nodeOf hn'
  · exact absurd hkind hd

/-! ## Filling below a directory -/

section
open Placeholder

theorem bound_append_separator (dir own : String) (b : Bindings) :
    bound (dir ++ "/" ++ own) b = bound dir b ++ bound own b := by
  rw [bound, scan_append_separator, List.filter_append]
  rfl

/-- Narrowing keeps what a placeholder comes to, unless that is an error. -/
theorem renderValue_of_narrows {b b' : Bindings} (h : Narrows b b') {p : Placeholder}
    {text? : Option String} (hp : p.renderValue (b.find? p.name) = .ok text?) :
    p.renderValue (b'.find? p.name) = .ok text? := by
  have hsettled : b.Settled p.name := fun v hv => isEnumerable_of_renderValue_eq_ok hp hv
  rw [h.find? p.name hsettled]
  exact hp

/-- Narrowing keeps the texts that there are. -/
theorem textOf_of_narrows {b b' : Bindings} (h : Narrows b b') {p : Placeholder} (hp : Renders b p) :
    textOf b' p = textOf b p := by
  obtain ⟨text, htext⟩ := hp
  rw [textOf_eq (renderValue_of_narrows h htext), textOf_eq htext]

/-- The filled text of a name below a directory continues that of the directory. -/
theorem filled_below {b b' : Bindings} (h : Narrows b b') {dir own : String}
    (hrender : ∀ p ∈ bound dir b, Renders b p)
    (hown : ∀ q ∈ bound own b', ¬ q.chars <:+: filled b (bound dir b) dir.toList) :
    ∃ rest, filled b' (bound (dir ++ "/" ++ own) b') (dir ++ "/" ++ own).toList =
      filled b (bound dir b) dir.toList ++ '/' :: rest := by
  have htext : (dir ++ "/" ++ own).toList = dir.toList ++ '/' :: own.toList := by simp
  have hdir : filled b' (bound dir b') dir.toList = filled b (bound dir b) dir.toList := by
    rw [bound_of_narrows h]
    exact filled_congr (fun p hp => textOf_of_narrows h (hrender p hp)) _
  refine ⟨filled b' (bound own b') (filled b' (bound dir b') own.toList), ?_⟩
  rw [htext, bound_append_separator, filled_append,
    filled_append_separator fun p hp => proper_of_mem_bound hp,
    filled_append_separator fun p hp => proper_of_mem_bound hp, hdir, filled_of_not_infix hown]

end

/-! ## Components of a continued text -/

theorem isAbsolute_append {S : String} (h : S ≠ "") (rest : String) :
    (⟨S ++ rest⟩ : Path).isAbsolute = (⟨S⟩ : Path).isAbsolute := by
  have hne : S.toList ≠ [] := by
    intro hnil
    exact h (String.toList_inj.1 (by simpa using hnil))
  obtain ⟨c, cs, hchars⟩ := List.exists_cons_of_ne_nil hne
  rw [isAbsolute, isAbsolute, String.toList_append, hchars]
  rfl

theorem pieces_append_separator (S rest : String) :
    (⟨S ++ "/" ++ rest⟩ : Path).pieces = (⟨S⟩ : Path).pieces ++ (⟨rest⟩ : Path).pieces := by
  have htext : (S ++ "/" ++ rest).toList = S.toList ++ separator :: rest.toList := by simp [separator]
  rw [pieces, htext, Text.splitOnChar_append_sep, List.map_append]
  rfl

theorem components_prefix_append {S : String} (h : S ≠ "") (rest : String) :
    (⟨S⟩ : Path).components <+: (⟨S ++ "/" ++ rest⟩ : Path).components := by
  have habsolute : (⟨S ++ "/" ++ rest⟩ : Path).isAbsolute = (⟨S⟩ : Path).isAbsolute := by
    rw [String.append_assoc]
    exact isAbsolute_append h _
  rw [components, components, labelled_eq, labelled_eq, habsolute, pieces_append_separator,
    label_append _ (pieces_ne_nil _), List.filterMap_append, ← List.append_assoc]
  exact List.prefix_append _ _

theorem added_prefix_append {base : Path} {S : String} (h : S ≠ "") (rest : String) :
    added base S <+: added base (S ++ "/" ++ rest) := by
  rw [added, added]
  split
  · exact components_prefix_append h rest
  · rw [pieces_append_separator, solid_append, List.map_append]
    exact List.prefix_append _ _

theorem base_prefix_under {base : Path} {s : String} (h : (⟨s⟩ : Path).isAbsolute = false) :
    base.components <+: (under (some base) s).components := by
  rw [components_under h]
  exact List.prefix_append _ _

theorem added_prefix_iff_of_isAbsolute {base : Path} {S s : String}
    (hS : (⟨S⟩ : Path).isAbsolute = true) (hs : (⟨s⟩ : Path).isAbsolute = true) :
    added base S <+: added base s ↔ (⟨S⟩ : Path).components <+: (⟨s⟩ : Path).components := by
  rw [added, added]
  split
  · rfl
  · rw [components_of_isAbsolute hS, components_of_isAbsolute hs, List.cons_prefix_cons,
      and_iff_right rfl]

/-- The components of the second text under the base start with those of the first. -/
def Continues (base : Path) (S s : String) : Prop :=
  match (⟨S⟩ : Path).isAbsolute, (⟨s⟩ : Path).isAbsolute with
  | false, true => base.components ++ added base S <+: (⟨s⟩ : Path).components
  | true, false => (⟨S⟩ : Path).components <+: base.components ++ added base s
  | _, _ => added base S <+: added base s

theorem under_prefix_iff_continues (base : Path) (S s : String) :
    (under (some base) S).components <+: (under (some base) s).components ↔ Continues base S s := by
  rw [Continues]
  cases hS : (⟨S⟩ : Path).isAbsolute <;> cases hs : (⟨s⟩ : Path).isAbsolute
  · rw [components_under hS, components_under hs, List.prefix_append_right_inj]
  · rw [components_under hS, under_of_isAbsolute base hs]
  · rw [under_of_isAbsolute base hS, components_under hs]
  · rw [under_of_isAbsolute base hS, under_of_isAbsolute base hs]
    exact (added_prefix_iff_of_isAbsolute hS hs).symm

/-- A continued text leads below the text itself unless it has become absolute by the continuation. -/
theorem under_prefix_iff {base : Path} {S s : String} (hs : S = "" ∨ ∃ rest, s = S ++ "/" ++ rest) :
    (under (some base) S).components <+: (under (some base) s).components ↔
      ((⟨s⟩ : Path).isAbsolute = true → (⟨S⟩ : Path).isAbsolute = true) ∨
        base.components <+: (⟨s⟩ : Path).components := by
  have hcontinued : S ≠ "" → ∃ rest, s = S ++ "/" ++ rest ∧
      (⟨s⟩ : Path).isAbsolute = (⟨S⟩ : Path).isAbsolute := by
    intro hne
    obtain ⟨rest, rfl⟩ := hs.resolve_left hne
    refine ⟨rest, rfl, ?_⟩
    rw [String.append_assoc, isAbsolute_append hne]
  constructor
  · intro hprefix
    by_cases habsolute : (⟨s⟩ : Path).isAbsolute = true → (⟨S⟩ : Path).isAbsolute = true
    · exact .inl habsolute
    · rw [Classical.not_imp, Bool.not_eq_true] at habsolute
      rw [under_of_isAbsolute base habsolute.1] at hprefix
      exact .inr ((base_prefix_under habsolute.2).trans hprefix)
  · intro h
    by_cases hne : S = ""
    · subst hne
      have hempty : under (some base) "" = base := by
        rw [under, if_pos rfl]
      rw [hempty]
      cases habsolute : (⟨s⟩ : Path).isAbsolute with
      | false => exact base_prefix_under habsolute
      | true =>
        rw [under_of_isAbsolute base habsolute]
        rcases h with h | h
        · cases h habsolute
        · exact h
    · obtain ⟨rest, rfl, habsolute⟩ := hcontinued hne
      cases hS : (⟨S⟩ : Path).isAbsolute with
      | false =>
        rw [hS] at habsolute
        rw [components_under hS, components_under habsolute, List.prefix_append_right_inj]
        exact added_prefix_append hne rest
      | true =>
        rw [hS] at habsolute
        rw [under_of_isAbsolute base hS, under_of_isAbsolute base habsolute]
        exact components_prefix_append hne rest

/-! ## Top theorem -/

/-- The text of a node is that of the directory that holds it, continued; the root has the empty
text. -/
theorem Fills.of_holds {root : Path} (hroot : root.text ≠ "") {entry : Entry}
    (hnamed : entry.WellNamed) {b : Bindings} {children : List Node} {options : TreeOptions}
    {place : Place} {d n : Node} (hplaced : Placed root entry place d) (hkind : d.kind = .directory)
    (hholds : Holds d n) {S s : String} (hS : Fills ⟨.directory root b children, options⟩ d S)
    (hs : Fills ⟨.directory root b children, options⟩ n s)
    (hunmarked : dropSuffix options.suffixes (ofNames place) = ofNames place)
    (hown : ∀ own, n.source = .path own →
      ∀ q ∈ Placeholder.bound (stripped options.suffixes own.fileName) n.bindings,
        ¬ q.chars <:+: S.toList) :
    S = "" ∨ ∃ rest, s = S ++ "/" ++ rest := by
  obtain ⟨e, hget, -⟩ := hplaced.entry_at
  have hplace := (hnamed.get? hget).2
  obtain ⟨name, hplaced', hnarrows⟩ := hplaced.of_holds hnamed hkind hholds
  obtain ⟨e', hget', -⟩ := hplaced'.entry_at
  have hplace' := (hnamed.get? hget').2
  rw [fills_iff hroot hnamed hplaced, ← dropSuffix_ofNames _ hplace, hunmarked] at hS
  rw [fills_iff hroot hnamed hplaced', stripLast_concat] at hs
  by_cases hnil : place = []
  · subst hnil
    exact .inl (String.toList_inj.1 hS.2)
  · right
    have hfileName : (root.below (place ++ [name])).fileName = name := by
      rw [fileName, fileName?_below hroot hplace' (by simp), List.getLast?_concat]
      rfl
    have hfree := hown _ hplaced'.source_eq
    rw [hfileName, hS.2] at hfree
    rw [text_ofNames_concat hnil] at hs
    obtain ⟨rest, hrest⟩ := filled_below hnarrows hS.1 hfree
    refine ⟨String.ofList rest, String.toList_inj.1 ?_⟩
    rw [hs.2, hrest, ← hS.2]
    simp

/-- Destinations of a directory and of a node that it holds.  The components of the one start those of
the other exactly if the text of the node continues that of the directory.  With nothing stripped from
the directory and no placeholder of the node's own name in its text, that is to say that the text has
not become absolute below the directory, or is an absolute path below the base all the same. -/
theorem destination_prefix_iff {files : FileSystem} {source : Path} {b : Bindings}
    {options : TreeOptions} {t : TemplateTree} {warnings : List Warning} {d n : Node} {base D N : Path}
    (hbuild : build files source b options = .ok (t, warnings))
    (hd : d ∈ t.nodes) (hkind : d.kind = .directory) (hholds : Holds d n)
    (hD : t.destination d (some base) = .ok (some D))
    (hN : t.destination n (some base) = .ok (some N)) :
    ∃ S s, Fills t d S ∧ Fills t n s ∧ D = under (some base) S ∧ N = under (some base) s ∧
      (D.components <+: N.components ↔ Continues base S s) ∧
      ((∀ relative, t.relativePath? d = some relative →
          dropSuffix t.options.suffixes relative = relative) →
        (∀ own, n.source = .path own →
          ∀ q ∈ Placeholder.bound (stripped t.options.suffixes own.fileName) n.bindings,
            ¬ q.chars <:+: S.toList) →
        (D.components <+: N.components ↔
          ((⟨s⟩ : Path).isAbsolute = true → (⟨S⟩ : Path).isAbsolute = true) ∨
            base.components <+: (⟨s⟩ : Path).components)) := by
  obtain ⟨S, hS, -, rfl⟩ := destination_eq_ok_some_iff.1 hD
  obtain ⟨s, hs, -, rfl⟩ := destination_eq_ok_some_iff.1 hN
  refine ⟨S, s, hS, hs, rfl, rfl, under_prefix_iff_continues base S s,
    fun hunmarked hown => under_prefix_iff ?_⟩
  obtain ⟨entry, htext, hnamed, rfl⟩ := exists_shown_of_build hbuild
  cases entry with
  | file content =>
    rw [nodes, nodeOf] at hd
    exact absurd hkind (of_mem_preorder_ofFile hd).2
  | directory entries =>
    obtain ⟨place, hplaced⟩ := placed_of_mem_nodeOf source (.directory entries) hnamed b d hd
    rw [nodeOf] at hS hs hunmarked
    exact Fills.of_holds htext hnamed hplaced hkind hholds hS hs
      (hunmarked _ (hplaced.relativePath? htext hnamed _ _ _)) hown

/-- The directory and a node in it are written to these paths, and neither a suffix of the directory
nor a placeholder in the name of the node comes between them. -/
def agreeAt (t : TemplateTree) (base D N : Path) (d n : Node) : Bool :=
  d.kind = .directory && (t.destination d (some base)).toOption = some (some D) &&
    (t.destination n (some base)).toOption = some (some N) &&
    ((t.relativePath? d).all fun relative => dropSuffix t.options.suffixes relative = relative) &&
    match n.source with
    | .path own => (Placeholder.bound (stripped t.options.suffixes own.fileName) n.bindings).isEmpty
    | .text _ => true

theorem destination_prefix_iff_version :
    ∃ t warnings d n,
      build versionFiles ⟨"src"⟩ (.ofList [("version", .str "v1")]) .standard = .ok (t, warnings) ∧
      d ∈ t.nodes ∧ d.kind = .directory ∧ Holds d n ∧
      t.destination d (some ⟨"out"⟩) = .ok (some ⟨"out/v1"⟩) ∧
      t.destination n (some ⟨"out"⟩) = .ok (some ⟨"out/v1/a.txt"⟩) ∧
      (⟨"out/v1"⟩ : Path).components <+: (⟨"out/v1/a.txt"⟩ : Path).components := by
  have hcheck : ((build versionFiles ⟨"src"⟩ (.ofList [("version", .str "v1")]) .standard).toOption.any
      fun result => result.1.nodes.any fun d =>
        d.children.any (agreeAt result.1 ⟨"out"⟩ ⟨"out/v1"⟩ ⟨"out/v1/a.txt"⟩ d)) = true := by
    decide +kernel
  cases hbuild : build versionFiles ⟨"src"⟩ (.ofList [("version", .str "v1")]) .standard with
  | error e =>
    rw [hbuild] at hcheck
    cases hcheck
  | ok result =>
    obtain ⟨t, warnings⟩ := result
    rw [hbuild] at hcheck
    obtain ⟨d, hd, hchildren⟩ := List.any_eq_true.1 hcheck
    obtain ⟨n, hn, hagree⟩ := List.any_eq_true.1 hchildren
    simp only [agreeAt, Bool.and_eq_true, decide_eq_true_eq] at hagree
    obtain ⟨⟨⟨⟨hkind, hdirectory⟩, hnode⟩, hunmarked⟩, hempty⟩ := hagree
    have hD := eq_ok_of_toOption hdirectory
    have hN := eq_ok_of_toOption hnode
    obtain ⟨S, s, -, -, -, hs, -, hiff⟩ := destination_prefix_iff hbuild hd hkind (.child hn) hD hN
    refine ⟨t, warnings, d, n, rfl, hd, hkind, .child hn, hD, hN, (hiff ?_ ?_).2 (.inl ?_)⟩
    · intro relative hrelative
      rw [hrelative] at hunmarked
      exact of_decide_eq_true hunmarked
    · intro own hsource q hq
      rw [hsource] at hempty
      rw [List.isEmpty_iff.1 hempty] at hq
      cases hq
    · intro habsolute
      rw [under_of_isAbsolute _ habsolute] at hs
      rw [← hs] at habsolute
      have hrelative : (⟨"out/v1/a.txt"⟩ : Path).isAbsolute = false := by decide
      rw [hrelative] at habsolute
      cases habsolute

-- a suffix is stripped from a directory, but not from the paths of what it holds
example :
    ((build ⟨.directory [("src", .directory [("foo.template", .directory [("a.txt", .file ⟨#[]⟩)])])],
        [], .healthy, rfl, by decide +kernel⟩ ⟨"src"⟩ (.ofList []) .standard).toOption.any fun result =>
      (result.1.nodes.map fun n => (result.1.destination n (some ⟨"out"⟩)).toOption) =
        [some (some ⟨"out"⟩), some (some ⟨"out/foo"⟩), some (some ⟨"out/foo.template/a.txt"⟩)]) = true := by
  decide +kernel

end Stencil.TemplateTree
