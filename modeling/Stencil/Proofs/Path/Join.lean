import Stencil.Path
import Stencil.Proofs.Text.Separated
/-!
# Joined paths

What `join` does to the pieces and the components of a path, whatever its spelling.

    (a.join b).pieces = a.stem ++ b.pieces
    (a.join b).components = a.components ++ b.pieces.filterMap (componentOf? false)
-/

namespace Stencil.Path

/-! ## Names -/

theorem Ordinary.componentOf? {name : String} (h : Ordinary name) (leading : Bool) :
    componentOf? leading name = some (.normal name) := by
  simp [Path.componentOf?, h.ne_empty, h.ne_current, h.ne_parent]

theorem Ordinary.toList_ne_nil {name : String} (h : Ordinary name) : name.toList ≠ [] := by
  intro e
  exact h.ne_empty (String.toList_inj.1 (by simpa using e))

theorem Ordinary.not_isAbsolute {name : String} (h : Ordinary name) :
    (⟨name⟩ : Path).isAbsolute = false := by
  have hsep := h.separator_not_mem
  cases hname : name.toList with
  | nil => simp [isAbsolute, hname]
  | cons c cs =>
    rw [hname, List.mem_cons, not_or] at hsep
    simp [isAbsolute, hname, separator, Ne.symm hsep.1]

theorem pieces_of_not_mem {name : String} (h : '/' ∉ name.toList) :
    (⟨name⟩ : Path).pieces = [name] := by
  simp [pieces, separator, Text.splitOnChar_of_not_mem h]

theorem separator_not_mem_of_mem_pieces {p : Path} {piece : String} (h : piece ∈ p.pieces) :
    '/' ∉ piece.toList := by
  rw [pieces, List.mem_map] at h
  obtain ⟨cs, hcs, rfl⟩ := h
  rw [String.toList_ofList]
  exact Text.not_mem_of_mem_splitOnChar hcs

theorem pieces_ne_nil (p : Path) : p.pieces ≠ [] := by
  simp [pieces, Text.splitOnChar_ne_nil]

theorem pieces_of_isAbsolute {p : Path} (h : p.isAbsolute = true) :
    ∃ pieces, p.pieces = "" :: pieces := by
  obtain ⟨cs, hcs⟩ := List.head?_eq_some_iff.1 (beq_iff_eq.1 h)
  refine ⟨(Text.splitOnChar separator cs).map String.ofList, ?_⟩
  rw [pieces, hcs]
  exact congrArg (List.map String.ofList) (Text.splitOnChar_append_sep separator [] cs)

/-- The pieces of names with separators between them are the names. -/
theorem pieces_intercalate {place : List String} (hne : place ≠ [])
    (h : ∀ name ∈ place, '/' ∉ name.toList) :
    (⟨"/".intercalate place⟩ : Path).pieces = place := by
  rw [pieces]
  simp only [String.toList_intercalate, separator]
  rw [show "/".toList = ['/'] from rfl, Text.splitOnChar_intercalate (by simpa using hne)]
  · simp
  · intro piece hp
    rw [List.mem_map] at hp
    obtain ⟨name, hname, rfl⟩ := hp
    exact h name hname

theorem mem_labelled {p : Path} {l : Labelled} (h : l ∈ p.labelled) :
    l.1 ∈ p.pieces ∧ ∃ leading, l.2 = componentOf? leading l.1 := by
  rw [labelled] at h
  split at h
  · next first rest _ hpieces =>
    obtain ⟨piece, hpiece, rfl⟩ := List.mem_map.1 h
    exact ⟨hpieces ▸ List.mem_cons_of_mem first hpiece, false, rfl⟩
  · next first rest _ hpieces =>
    rcases List.mem_cons.1 h with rfl | h
    · exact ⟨hpieces ▸ List.mem_cons_self, true, rfl⟩
    · obtain ⟨piece, hpiece, rfl⟩ := List.mem_map.1 h
      exact ⟨hpieces ▸ List.mem_cons_of_mem first hpiece, false, rfl⟩
  · cases h

/-- The name of a file is one that an entry can have. -/
theorem ordinary_of_fileName? {p : Path} {name : String} (h : p.fileName? = some name) :
    Ordinary name := by
  rw [fileName?] at h
  split at h
  · next piece name' hlast =>
    obtain rfl := Option.some.inj h
    have hmem : (piece, some (Component.normal name')) ∈ p.labelled := by
      have hrev := List.mem_of_getLast? hlast
      rw [trimEnd, List.mem_reverse] at hrev
      exact List.mem_reverse.1 ((List.dropWhile_sublist _).mem hrev)
    obtain ⟨hpiece, leading, hcomponent⟩ := mem_labelled hmem
    have hsep := separator_not_mem_of_mem_pieces hpiece
    rw [Path.componentOf?] at hcomponent
    split at hcomponent
    · cases hcomponent
    · next hempty =>
      split at hcomponent
      · split at hcomponent <;> cases hcomponent
      · next hcurrent =>
        split at hcomponent
        · cases hcomponent
        · next hparent =>
          obtain rfl : name' = piece := Component.normal.inj (Option.some.inj hcomponent)
          exact ⟨hempty, hcurrent, hparent, hsep⟩
  · cases h

/-! ## Joining -/

/-- The pieces to which `join` appends: a separator at the end does not start another one. -/
def stem (p : Path) : List String :=
  if p.text.toList.getLast? = some separator then p.pieces.dropLast else p.pieces

/-- Pieces with what they name, those of a relative path from its start. -/
def label (absolute : Bool) : List String → List Labelled
  | [] => []
  | first :: rest =>
    (if absolute then [] else [(first, componentOf? true first)]) ++
      rest.map fun piece => (piece, componentOf? false piece)

theorem labelled_eq (p : Path) : p.labelled = label p.isAbsolute p.pieces := by
  cases hp : p.pieces with
  | nil => exact absurd hp p.pieces_ne_nil
  | cons first rest =>
    rw [labelled, hp]
    cases p.isAbsolute <;> rfl

theorem label_append (absolute : Bool) {ps : List String} (hne : ps ≠ []) (qs : List String) :
    label absolute (ps ++ qs) =
      label absolute ps ++ qs.map fun piece => (piece, componentOf? false piece) := by
  cases ps with
  | nil => exact absurd rfl hne
  | cons first rest => simp [label]

theorem pieces_of_ends_with_separator {p : Path} (h : p.text.toList.getLast? = some separator) :
    p.pieces = p.stem ++ [""] ∧ p.stem ≠ [] := by
  obtain ⟨cs, hcs⟩ := List.getLast?_eq_some_iff.1 h
  have hpieces : p.pieces = (Text.splitOnChar separator cs).map String.ofList ++ [""] := by
    rw [pieces, hcs, Text.splitOnChar_append_sep]
    simp [Text.splitOnChar]
  have hstem : p.stem = (Text.splitOnChar separator cs).map String.ofList := by
    rw [stem, if_pos h, hpieces, List.dropLast_concat]
  refine ⟨by rw [hstem, hpieces], ?_⟩
  simp [hstem, Text.splitOnChar_ne_nil]

theorem stem_ne_nil (p : Path) : p.stem ≠ [] := by
  by_cases h : p.text.toList.getLast? = some separator
  · exact (pieces_of_ends_with_separator h).2
  · rw [stem, if_neg h]
    exact p.pieces_ne_nil

/-- The piece that a separator at the end leaves behind names nothing. -/
theorem labelled_eq_stem (p : Path) :
    ∃ tail, p.labelled = label p.isAbsolute p.stem ++ tail ∧ ∀ l ∈ tail, l.2 = none := by
  by_cases h : p.text.toList.getLast? = some separator
  · obtain ⟨hpieces, hne⟩ := pieces_of_ends_with_separator h
    refine ⟨[("", none)], ?_, by simp⟩
    rw [labelled_eq, hpieces, label_append _ hne]
    rfl
  · refine ⟨[], ?_, by simp⟩
    rw [labelled_eq, stem, if_neg h, List.append_nil]

theorem toList_join {a b : Path} (ha : a.text ≠ "") (hb : b.isAbsolute = false) :
    (a.join b).text.toList = a.text.toList ++
      (if a.text.toList.getLast? = some separator then b.text.toList else '/' :: b.text.toList) := by
  rw [join, hb, Bool.false_or, if_neg (by simpa using ha)]
  split <;> simp

theorem isAbsolute_join {a b : Path} (ha : a.text ≠ "") (hb : b.isAbsolute = false) :
    (a.join b).isAbsolute = a.isAbsolute := by
  rw [isAbsolute, isAbsolute, toList_join ha hb]
  cases htext : a.text.toList with
  | nil => exact absurd (String.toList_inj.1 (by simpa using htext)) ha
  | cons c cs => rfl

theorem text_join_ne_empty {a b : Path} (ha : a.text ≠ "") (hb : b.isAbsolute = false) :
    (a.join b).text ≠ "" := by
  intro e
  have htext := toList_join ha hb
  rw [e] at htext
  have hnil := (List.append_eq_nil_iff.1 htext.symm).1
  exact ha (String.toList_inj.1 (by simpa using hnil))

/-- The pieces of the second path follow those of the first. -/
theorem pieces_join {a b : Path} (ha : a.text ≠ "") (hb : b.isAbsolute = false) :
    (a.join b).pieces = a.stem ++ b.pieces := by
  rw [pieces, toList_join ha hb]
  by_cases h : a.text.toList.getLast? = some separator
  · obtain ⟨cs, hcs⟩ := List.getLast?_eq_some_iff.1 h
    have hstem : a.stem = (Text.splitOnChar separator cs).map String.ofList := by
      rw [stem, if_pos h, pieces, hcs, Text.splitOnChar_append_sep]
      simp [Text.splitOnChar]
    rw [if_pos h, hstem, pieces, hcs, List.append_assoc, List.singleton_append,
      Text.splitOnChar_append_sep, List.map_append]
  · rw [if_neg h, stem, if_neg h, show '/' = separator from rfl, Text.splitOnChar_append_sep,
      List.map_append]
    rfl

theorem labelled_join {a b : Path} (ha : a.text ≠ "") (hb : b.isAbsolute = false) :
    (a.join b).labelled =
      label a.isAbsolute a.stem ++ b.pieces.map fun piece => (piece, componentOf? false piece) := by
  rw [labelled_eq, isAbsolute_join ha hb, pieces_join ha hb, label_append _ a.stem_ne_nil]

theorem components_eq_stem (p : Path) :
    p.components =
      (if p.isAbsolute then [.root] else []) ++ (label p.isAbsolute p.stem).filterMap Prod.snd := by
  obtain ⟨tail, hlabelled, htail⟩ := p.labelled_eq_stem
  have hnone : tail.filterMap Prod.snd = [] := List.filterMap_eq_nil_iff.2 htail
  rw [components, hlabelled, List.filterMap_append, hnone, List.append_nil]

/-- What a joined path names: the components of the first, then what the pieces of the second name. -/
theorem components_join {a b : Path} (ha : a.text ≠ "") (hb : b.isAbsolute = false) :
    (a.join b).components = a.components ++ b.pieces.filterMap (componentOf? false) := by
  rw [components, labelled_join ha hb, isAbsolute_join ha hb, List.filterMap_append,
    ← List.append_assoc, ← components_eq_stem, List.filterMap_map]
  rfl

/-! ## Separators at the end -/

/-- The path with so many separators behind it. -/
def slashed (p : Path) : Nat → Path
  | 0 => p
  | n + 1 => ⟨(slashed p n).text ++ "/"⟩

section
variable {p : Path} {n : Nat}

theorem utf8ByteSize_slashed : (p.slashed n).text.utf8ByteSize = p.text.utf8ByteSize + n := by
  induction n with
  | zero => rfl
  | succ n ih =>
    rw [slashed, String.utf8ByteSize_append, ih]
    rfl

/-- All the pieces behind are empty. -/
theorem pieces_slashed : (p.slashed n).pieces = p.pieces ++ List.replicate n "" := by
  induction n with
  | zero => exact (List.append_nil _).symm
  | succ n ih =>
    rw [List.replicate_succ', ← List.append_assoc, ← ih, slashed, pieces, String.toList_append,
      show "/".toList = [separator] from rfl, Text.splitOnChar_append_sep, List.map_append, ← pieces]
    rfl

theorem toList_slashed : (p.slashed n).text.toList = p.text.toList ++ List.replicate n separator := by
  induction n with
  | zero => exact (List.append_nil _).symm
  | succ n ih =>
    rw [slashed, String.toList_append, ih, List.append_assoc, List.replicate_succ']
    rfl

theorem text_slashed_ne_empty (hp : p.text ≠ "") : (p.slashed n).text ≠ "" := by
  intro h
  have htext := congrArg String.toList h
  rw [toList_slashed] at htext
  exact hp (String.toList_inj.1 (List.append_eq_nil_iff.1 htext).1)

theorem isAbsolute_slashed (hp : p.text ≠ "") : (p.slashed n).isAbsolute = p.isAbsolute := by
  rw [isAbsolute, isAbsolute, toList_slashed]
  cases htext : p.text.toList with
  | nil => exact absurd (String.toList_inj.1 htext) hp
  | cons c cs => rfl

end

/-- A path with another one behind it is at least as long as both. -/
theorem utf8ByteSize_le_join {a b : Path} (ha : a.text ≠ "") (hb : b.isAbsolute = false) :
    a.text.utf8ByteSize + b.text.utf8ByteSize ≤ (a.join b).text.utf8ByteSize := by
  rw [join, hb, Bool.false_or, if_neg (by simpa using ha)]
  split <;> simp only [String.utf8ByteSize_append] <;> omega

end Stencil.Path
