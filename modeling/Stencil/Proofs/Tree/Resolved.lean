import Stencil.Proofs.Placeholder.Filled
import Stencil.Proofs.Tree.Trials
/-!
# How destinations are resolved

A node below a directory is written to its place seen from the root, the last name without the suffix
of templates, and all of it filled in one go.

    t.destination n base = .ok (some p) ↔
      ∃ s, Fills t n s ∧ (n.kind ≠ .directory → lacksName s = false) ∧ p = under base s
    dropSuffix suffixes (ofNames place) = ofNames (stripLast suffixes place)
-/

namespace Stencil.TemplateTree

open Stencil.Path

/-! ## Names without suffixes -/

/-- The name without the suffix that marks a template. -/
def stripped (suffixes : List String) (name : String) : String :=
  match suffixOf? suffixes name with
  | some suffix => dropEnding name suffix
  | none => name

/-- The names on the way, the last of them stripped. -/
def stripLast (suffixes : List String) (place : Place) : Place :=
  place.dropLast ++ (place.getLast?.map (stripped suffixes)).toList

theorem stripLast_concat (suffixes : List String) (place : Place) (name : String) :
    stripLast suffixes (place ++ [name]) = place ++ [stripped suffixes name] := by
  rw [stripLast, List.dropLast_concat, List.getLast?_concat]
  rfl

theorem length_stripLast (suffixes : List String) (place : Place) :
    (stripLast suffixes place).length = place.length := by
  rcases List.eq_nil_or_concat' place with rfl | ⟨init, last, rfl⟩
  · rfl
  · rw [stripLast_concat, List.length_append, List.length_append]
    rfl

theorem stripLast_append (suffixes : List String) (place : Place) {rest : Place} (hne : rest ≠ []) :
    stripLast suffixes (place ++ rest) = place ++ stripLast suffixes rest := by
  rw [stripLast, stripLast, List.dropLast_append_of_ne_nil hne, List.getLast?_append_of_ne_nil _ hne,
    List.append_assoc]

theorem stripLast_ne_nil (suffixes : List String) {place : Place} (hne : place ≠ []) :
    stripLast suffixes place ≠ [] := by
  intro hnil
  have hlength := length_stripLast suffixes place
  rw [hnil] at hlength
  exact hne (List.length_eq_zero_iff.1 hlength.symm)

theorem prefix_stripped (suffixes : List String) (name : String) :
    (stripped suffixes name).toList <+: name.toList := by
  rw [stripped]
  split
  · rw [dropEnding, String.toList_ofList]
    exact List.take_prefix _ _
  · exact List.prefix_refl _

/-- Without the suffix of the last name the text is shorter at its end. -/
theorem prefix_text_stripLast (suffixes : List String) (place : Place) :
    (ofNames (stripLast suffixes place)).text.toList <+: (ofNames place).text.toList := by
  rcases List.eq_nil_or_concat' place with rfl | ⟨init, last, rfl⟩
  · exact List.prefix_refl _
  · rw [stripLast_concat]
    by_cases hnil : init = []
    · subst hnil
      simpa [ofNames] using prefix_stripped suffixes last
    · rw [text_ofNames_concat hnil, text_ofNames_concat hnil, String.toList_append,
        String.toList_append (t := last), List.prefix_append_right_inj]
      exact prefix_stripped suffixes last

theorem separator_not_mem_stripped (suffixes : List String) {name : String} (h : '/' ∉ name.toList) :
    '/' ∉ (stripped suffixes name).toList := by
  rw [stripped]
  split
  · rw [dropEnding, String.toList_ofList]
    intro hmem
    exact h (List.mem_of_mem_take hmem)
  · exact h

/-- On a path of names the suffix of the last one is dropped. -/
theorem dropSuffix_ofNames (suffixes : List String) {place : Place}
    (hplace : ∀ name ∈ place, Ordinary name) :
    dropSuffix suffixes (ofNames place) = ofNames (stripLast suffixes place) := by
  rcases List.eq_nil_or_concat' place with rfl | ⟨init, last, rfl⟩
  · rw [dropSuffix, fileName?_ofNames hplace]
    rfl
  · have hlast := (hplace last (List.mem_append_right init (List.mem_singleton_self last)))
    have hfileName : (ofNames (init ++ [last])).fileName? = some last := by
      rw [fileName?_ofNames hplace, List.getLast?_concat]
    have hsep := separator_not_mem_stripped suffixes hlast.separator_not_mem
    rw [stripLast_concat, dropSuffix, hfileName]
    dsimp only
    cases hsuffix : suffixOf? suffixes last with
    | none => rw [stripped, hsuffix]
    | some suffix =>
      have hstripped : stripped suffixes last = dropEnding last suffix := by rw [stripped, hsuffix]
      rw [hstripped] at hsep ⊢
      exact withFileName_ofNames_concat hplace hsep

/-! ## What a node is filled to -/

/-- The path of the node, seen from the root and without its suffix, is filled to this text. -/
def Fills (t : TemplateTree) (n : Node) (s : String) : Prop :=
  ∃ relative, t.relativePath? n = some relative ∧
    Placeholder.fillAll (Placeholder.bound (dropSuffix t.options.suffixes relative).text n.bindings)
      n.bindings (dropSuffix t.options.suffixes relative).text = .ok (some s)

theorem destination_eq_ok_some_iff {t : TemplateTree} {n : Node} {base : Option Path} {p : Path} :
    t.destination n base = .ok (some p) ↔
      ∃ s, Fills t n s ∧ (n.kind ≠ .directory → lacksName s = false) ∧ p = under base s := by
  constructor
  · intro h
    rw [destination] at h
    split at h
    · cases h
    · next relative hrelative =>
      dsimp only at h
      split at h
      · cases h
      · cases h
      · next s hfill =>
        split at h
        · cases h
        · next hlacks =>
          refine ⟨s, ⟨relative, hrelative, hfill⟩, fun hkind => ?_,
            (Option.some.inj (Except.ok.inj h)).symm⟩
          rw [Bool.and_eq_true, not_and] at hlacks
          exact Bool.eq_false_iff.2 (hlacks (bne_iff_ne.2 hkind))
  · rintro ⟨s, ⟨relative, hrelative, hfill⟩, hlacks, rfl⟩
    rw [destination, hrelative]
    dsimp only
    rw [hfill]
    dsimp only
    rw [if_neg]
    rw [Bool.and_eq_true, not_and]
    intro hkind
    rw [hlacks (bne_iff_ne.1 hkind)]
    exact Bool.false_ne_true

/-- An error comes from a placeholder, or from a name that is filled to nothing. -/
theorem of_destination_eq_error {t : TemplateTree} {n : Node} {base : Option Path} {e : Error}
    (h : t.destination n base = .error e) {relative : Path}
    (hrelative : t.relativePath? n = some relative) :
    e = .format (lastPiece (dropSuffix t.options.suffixes relative)) .emptyFileName ∨
      ∃ p ∈ Placeholder.bound (dropSuffix t.options.suffixes relative).text n.bindings,
        p.renderValue (n.bindings.find? p.name) = .error e := by
  rw [destination, hrelative] at h
  dsimp only at h
  split at h
  · next e' hfill =>
    obtain rfl := Except.error.inj h
    obtain ⟨before, p, after, hps, -, hp⟩ := (Placeholder.fillAll_eq_iff fun s h => by cases h).1 hfill
    rw [hps]
    exact .inr ⟨p, List.mem_append_right before List.mem_cons_self, hp⟩
  · cases h
  · split at h
    · exact .inl (Except.error.inj h).symm
    · cases h

theorem eq_ok_of_toOption {ε α : Type} {x : Except ε α} {a : α} (h : x.toOption = some a) :
    x = .ok a := by
  cases x with
  | error e => cases h
  | ok b => exact congrArg Except.ok (Option.some.inj h)

/-- Seen from the root, a node with a place has the names on the way. -/
theorem Placed.relativePath? {root : Path} (hroot : root.text ≠ "") {entry : Entry}
    (hnamed : entry.WellNamed) {place : Place} {n : Node} (hplaced : Placed root entry place n)
    (b : Bindings) (children : List Node) (options : TreeOptions) :
    TemplateTree.relativePath? ⟨.directory root b children, options⟩ n = some (ofNames place) := by
  obtain ⟨e, hget, -⟩ := hplaced.entry_at
  rw [TemplateTree.relativePath?, hplaced.source_eq]
  exact stripPrefix?_below hroot (hnamed.get? hget).2

/-- For a node with a place the text is that of the names on the way. -/
theorem fills_iff {root : Path} (hroot : root.text ≠ "") {entry : Entry} (hnamed : entry.WellNamed)
    {b : Bindings} {children : List Node} {options : TreeOptions} {place : Place} {n : Node}
    (hplaced : Placed root entry place n) {s : String} :
    Fills ⟨.directory root b children, options⟩ n s ↔
      (∀ p ∈ Placeholder.bound (ofNames (stripLast options.suffixes place)).text n.bindings,
        Placeholder.Renders n.bindings p) ∧
      s.toList = Placeholder.filled n.bindings
        (Placeholder.bound (ofNames (stripLast options.suffixes place)).text n.bindings)
        (ofNames (stripLast options.suffixes place)).text.toList := by
  obtain ⟨e, hget, -⟩ := hplaced.entry_at
  have hplace := (hnamed.get? hget).2
  rw [Fills, hplaced.relativePath? hroot hnamed]
  simp only [Option.some.injEq, exists_eq_left', dropSuffix_ofNames _ hplace,
    Placeholder.fillAll_eq_ok_some_iff]

end Stencil.TemplateTree
