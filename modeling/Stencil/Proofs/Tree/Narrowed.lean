import Stencil.Proofs.Tree.FanOut
/-!
# Bindings along a tree

A node has the bindings of its parent, but for the names in its own file name, which are fixed to one of
their elements.  What is not enumerable stays as it is all the way down.

    b' ∈ variants path b → NarrowedBy (namesOf path) b b'
    c ∈ p.children → c.bindings ∈ variants (the file name of c) p.bindings
-/

namespace Stencil

/-! ## Fixed names -/

theorem Value.mem_choices_iff {v choice : Value} :
    choice ∈ v.choices ↔ (∃ items, v.elements? = some items ∧ choice ∈ items) ∨
      v.elements? = none ∧ choice = v := by
  rw [Value.choices]
  cases v.elements? <;> simp

namespace Bindings

/-- Narrowed by the names: each value is kept or is an element of the value before, and only the values
of these names are others. -/
structure NarrowedBy (names : List String) (b b' : Bindings) : Prop extends Narrows b b' where
  value : ∀ name v, b.find? name = some v → ∃ v', b'.find? name = some v' ∧
    (v' = v ∨ ∃ items, v.elements? = some items ∧ v' ∈ items)
  named : ∀ name, b'.find? name ≠ b.find? name → name ∈ names

/-- A name that is not fixed keeps its value. -/
theorem find?_of_mem_narrowings {b b' : Bindings} {names : List String}
    (h : b' ∈ narrowings names b) {name : String} (hname : name ∉ names) :
    b'.find? name = b.find? name := by
  induction names generalizing b with
  | nil =>
    obtain rfl : b' = b := by simpa [narrowings] using h
    rfl
  | cons first names ih =>
    rw [List.mem_cons, not_or] at hname
    obtain ⟨hfirst, hrest⟩ := hname
    cases hv : b.find? first with
    | none =>
      rw [narrowings_cons_none hv] at h
      exact ih h hrest
    | some v =>
      rw [narrowings_cons_some hv, List.mem_flatMap] at h
      obtain ⟨choice, -, h⟩ := h
      rw [ih h hrest, KeyedList.find?_insert, if_neg hfirst]

/-- A name that is fixed once takes a value of its choice. -/
theorem exists_choice_of_mem_narrowings {b b' : Bindings} {names : List String} (hnodup : names.Nodup)
    (h : b' ∈ narrowings names b) {name : String} (hname : name ∈ names) {v : Value}
    (hv : b.find? name = some v) : ∃ choice ∈ v.choices, b'.find? name = some choice := by
  induction names generalizing b with
  | nil => cases hname
  | cons first names ih =>
    obtain ⟨hfirst, hnodup⟩ := List.nodup_cons.1 hnodup
    by_cases heq : name = first
    · subst heq
      rw [narrowings_cons_some hv, List.mem_flatMap] at h
      obtain ⟨choice, hchoice, h⟩ := h
      refine ⟨choice, hchoice, ?_⟩
      rw [find?_of_mem_narrowings h hfirst, KeyedList.find?_insert, if_pos rfl]
    · have hrest : name ∈ names := (List.mem_cons.1 hname).resolve_left heq
      cases hw : b.find? first with
      | none =>
        rw [narrowings_cons_none hw] at h
        exact ih hnodup h hrest hv
      | some w =>
        rw [narrowings_cons_some hw, List.mem_flatMap] at h
        obtain ⟨choice, -, h⟩ := h
        refine ih hnodup h hrest ?_
        rw [KeyedList.find?_insert, if_neg heq, hv]

theorem NarrowedBy.of_mem_narrowings {b b' : Bindings} {names : List String} (hnodup : names.Nodup)
    (h : b' ∈ narrowings names b) : NarrowedBy names b b' := by
  refine ⟨.of_mem_narrowings h, fun name v hv => ?_, fun name hne => ?_⟩
  · by_cases hname : name ∈ names
    · obtain ⟨choice, hchoice, hb'⟩ := exists_choice_of_mem_narrowings hnodup h hname hv
      refine ⟨choice, hb', ?_⟩
      rcases Value.mem_choices_iff.1 hchoice with hitems | ⟨-, rfl⟩
      · exact .inr hitems
      · exact .inl rfl
    · exact ⟨v, (find?_of_mem_narrowings h hname).trans hv, .inl rfl⟩
  · by_contra hname
    exact hne (find?_of_mem_narrowings h hname)

end Bindings

namespace TemplateTree

open Bindings Expansion

theorem narrowedBy_of_mem_variants {path : String} {b b' : Bindings} (h : b' ∈ variants path b) :
    NarrowedBy (namesOf path) b b' := by
  rw [variants_eq_distinct] at h
  have hnarrowed := NarrowedBy.of_mem_narrowings (nodup_eraseDups _) h
  refine ⟨hnarrowed.toNarrows, hnarrowed.value, fun name hne => ?_⟩
  have hname := hnarrowed.named name hne
  rw [List.mem_eraseDups, map_name_bound, List.mem_filter] at hname
  exact hname.1

/-! ## Children -/

/-- The bindings of a node are a variant, by its own file name, of these. -/
def VariantOf (b : Bindings) (n : Node) : Prop :=
  ∃ source, n.source = .path source ∧ n.bindings ∈ variants source.fileName b

/-- Everywhere below the node the bindings of the children are variants. -/
def Varies (n : Node) : Prop := ∀ p ∈ n.preorder, ∀ c ∈ p.children, VariantOf p.bindings c

theorem varies_of_children {n : Node}
    (h : ∀ child ∈ n.children, VariantOf n.bindings child ∧ Varies child) : Varies n := by
  intro p hp c hc
  rw [preorder_eq_cons, List.mem_cons] at hp
  rcases hp with rfl | hp
  · exact (h c hc).1
  · obtain ⟨child, hchild, hp⟩ := List.mem_flatMap.1 hp
    exact (h child hchild).2 p hp c hc

theorem source_nodeOf (source : Path) (entry : Entry) (b : Bindings) :
    (nodeOf source entry b).source = .path source :=
  (placed_nodeOf source entry b).source_eq

theorem varies_fileNode (source : Path) (depth : Nat) (b : Bindings) :
    Varies (fileNode source depth b) := by
  induction depth generalizing b with
  | zero => exact varies_of_children (by simp [fileNode_zero, Node.children])
  | succ depth ih =>
    refine varies_of_children fun child hchild => ?_
    rw [bindings_fileNode]
    rw [fileNode_succ] at hchild
    split at hchild
    · cases hchild
    · next overlays hexpansion =>
      obtain ⟨o, ho, rfl⟩ := List.mem_map.1 hchild
      have hvariant : b.merge o ∈ variants source.fileName b := by
        rw [variants, hexpansion]
        exact List.mem_map_of_mem ho
      refine ⟨⟨source, ?_, ?_⟩, ih (b.merge o)⟩
      · exact (of_mem_preorder_fileNode (mem_preorder_self _)).1
      · rw [bindings_fileNode]
        exact hvariant
    · cases hchild

mutual

theorem varies_nodeOf {source : Path} (hsource : source.text ≠ "") : ∀ (entry : Entry),
    entry.WellNamed → ∀ b : Bindings, Varies (nodeOf source entry b)
  | .file content, _, b => by
    rw [nodeOf]
    exact varies_fileNode source b.nesting b
  | .directory children, hnamed, b => by
    rw [nodeOf]
    exact varies_of_children fun child hchild => varies_nodesOf hsource children hnamed.2 b child hchild

theorem varies_nodesOf {source : Path} (hsource : source.text ≠ "") :
    ∀ (entries : List (String × Entry)), Entry.AllWellNamed entries → ∀ b : Bindings,
      ∀ n ∈ nodesOf source b entries, VariantOf b n ∧ Varies n
  | [], _, b, n, hn => by
    rw [nodesOf] at hn
    cases hn
  | (name, entry) :: entries, hnamed, b, n, hn => by
    obtain ⟨hname, hentry, hentries⟩ := hnamed
    rw [nodesOf, List.mem_append] at hn
    rcases hn with hn | hn
    · obtain ⟨b', hb', rfl⟩ := List.mem_map.1 hn
      have htext := Path.text_join_ne_empty hsource hname.not_isAbsolute
      refine ⟨⟨source.join ⟨name⟩, source_nodeOf _ entry b', ?_⟩, varies_nodeOf htext entry hentry b'⟩
      rw [bindings_nodeOf, Path.fileName_join hsource hname]
      exact hb'
    · exact varies_nodesOf hsource entries hentries b n hn

end

/-! ## Trees -/

/-- The bindings of a node have the names of those of its parent in the same order; each value is that
of the parent or one of its elements, and another one only for a name in the file name of the node.
What is not enumerable in a node is the same in every node below it. -/
theorem bindings_narrow {files : FileSystem} {source : Path} {b : Bindings}
    {options : TreeOptions} {t : TemplateTree} {warnings : List Warning}
    (h : build files source b options = .ok (t, warnings)) :
    (∀ p ∈ t.nodes, ∀ c ∈ p.children, ∃ own, c.source = .path own ∧
      NarrowedBy (namesOf own.fileName) p.bindings c.bindings) ∧
    ∀ p ∈ t.nodes, ∀ d ∈ p.preorder, ∀ name v, p.bindings.find? name = some v →
      v.isEnumerable = false → d.bindings.find? name = some v := by
  obtain ⟨entry, hsource, hentry, rfl⟩ := exists_shown_of_build h
  refine ⟨fun p hp c hc => ?_, fun p hp d hd name v hv hscalar => ?_⟩
  · obtain ⟨own, hown, hvariant⟩ := varies_nodeOf hsource entry hentry b p hp c hc
    exact ⟨own, hown, narrowedBy_of_mem_variants hvariant⟩
  · have hsettled : p.bindings.Settled name := by
      intro w hw
      obtain rfl := Option.some.inj (hv.symm.trans hw)
      exact hscalar
    rw [(narrowsDown_nodeOf source entry b p hp d hd).find? name hsettled, hv]

theorem bindings_narrow_shards :
    ∃ t warnings, build shardFiles ⟨"src"⟩ shardBindings .standard = .ok (t, warnings) ∧ t.size = 7 ∧
      ∀ p ∈ t.nodes, ∀ c ∈ p.children, c.bindings.keys = p.bindings.keys := by
  have hsize : ((build shardFiles ⟨"src"⟩ shardBindings .standard).toOption.map fun r => r.1.size) =
      some 7 := by decide +kernel
  cases hbuild : build shardFiles ⟨"src"⟩ shardBindings .standard with
  | error e =>
    rw [hbuild] at hsize
    cases hsize
  | ok result =>
    obtain ⟨t, warnings⟩ := result
    rw [hbuild] at hsize
    refine ⟨t, warnings, rfl, Option.some.inj hsize, fun p hp c hc => ?_⟩
    obtain ⟨own, -, hnarrowed⟩ := (bindings_narrow hbuild).1 p hp c hc
    exact hnarrowed.keys

end TemplateTree

end Stencil
