import Stencil.Proofs.Path.Join
/-!
# Paths below a path

The paths that are reached from a path by the names of entries, and what they look like from there.

    (p.below names).stripPrefix? p = some (ofNames names)
    p.below names = p.below names' → names = names'
    (ofNames (names ++ [name])).withFileName new = ofNames (names ++ [new])
-/

namespace Stencil.Path

/-! ## Going down by names -/

/-- The path of an entry below, given by the names on the way. -/
def below (p : Path) (place : List String) : Path := place.foldl (fun p name => p.join ⟨name⟩) p

@[simp] theorem below_nil (p : Path) : p.below [] = p := rfl

@[simp] theorem below_cons (p : Path) (name : String) (place : List String) :
    p.below (name :: place) = (p.join ⟨name⟩).below place := rfl

theorem below_append (p : Path) (place rest : List String) :
    p.below (place ++ rest) = (p.below place).below rest := List.foldl_append ..

section
variable {p : Path} (hp : p.text ≠ "") {place : List String} (hplace : ∀ name ∈ place, Ordinary name)
include hp hplace

theorem text_below_ne_empty : (p.below place).text ≠ "" := by
  induction place generalizing p with
  | nil => exact hp
  | cons name place ih =>
    obtain ⟨hname, hrest⟩ := List.forall_mem_cons.1 hplace
    exact ih (text_join_ne_empty hp hname.not_isAbsolute) hrest

theorem isAbsolute_below : (p.below place).isAbsolute = p.isAbsolute := by
  induction place generalizing p with
  | nil => rfl
  | cons name place ih =>
    have hname := (hplace name List.mem_cons_self).not_isAbsolute
    rw [below_cons, ih (text_join_ne_empty hp hname) (fun n hn => hplace n (List.mem_cons_of_mem _ hn)),
      isAbsolute_join hp hname]

/-- Each name on the way is one more piece. -/
theorem pieces_below (hne : place ≠ []) : (p.below place).pieces = p.stem ++ place := by
  induction place generalizing p with
  | nil => exact absurd rfl hne
  | cons name place ih =>
    have hname := hplace name List.mem_cons_self
    have hpieces : (p.join ⟨name⟩).pieces = p.stem ++ [name] := by
      rw [pieces_join hp hname.not_isAbsolute, pieces_of_not_mem hname.separator_not_mem]
    rw [below_cons]
    cases place with
    | nil => exact hpieces
    | cons next place =>
      have hstem : (p.join ⟨name⟩).stem = p.stem ++ [name] := by
        rw [stem, if_neg, hpieces]
        intro h
        obtain ⟨init, hinit⟩ : ∃ init, (p.join ⟨name⟩).pieces = init ++ [""] :=
          ⟨_, (pieces_of_ends_with_separator h).1⟩
        rw [hpieces] at hinit
        exact hname.ne_empty (List.append_inj_right' hinit rfl |> List.singleton_inj.1)
      rw [ih (text_join_ne_empty hp hname.not_isAbsolute)
        (fun n hn => hplace n (List.mem_cons_of_mem _ hn)) (List.cons_ne_nil _ _), hstem,
        List.append_assoc, List.singleton_append]

/-- Different ways down lead to different paths. -/
theorem below_injective {place' : List String} (hplace' : ∀ name ∈ place', Ordinary name)
    (h : p.below place = p.below place') : place = place' := by
  have hpieces : ∀ {q : List String}, (∀ name ∈ q, Ordinary name) → q ≠ [] →
      p.below q ≠ p := by
    intro q hq hne e
    have heq := pieces_below hp hq hne
    rw [e] at heq
    by_cases hsep : p.text.toList.getLast? = some separator
    · obtain ⟨hends, -⟩ := pieces_of_ends_with_separator hsep
      rw [hends, List.append_cancel_left_eq] at heq
      have hempty : "" ∈ q := heq ▸ List.mem_singleton_self _
      exact (hq "" hempty).ne_empty rfl
    · rw [stem, if_neg hsep, List.self_eq_append_right] at heq
      exact hne heq
  by_cases hne : place = []
  · subst hne
    by_cases hne' : place' = []
    · exact hne'.symm
    · exact absurd h.symm (hpieces hplace' hne')
  · by_cases hne' : place' = []
    · subst hne'
      exact absurd h (hpieces hplace hne)
    · have heq : p.stem ++ place = p.stem ++ place' := by
        rw [← pieces_below hp hplace hne, ← pieces_below hp hplace' hne', h]
      exact List.append_cancel_left heq

/-- The names on the way, each with itself as what it names, end the labelled pieces. -/
theorem labelled_below (hne : place ≠ []) :
    (p.below place).labelled =
      label p.isAbsolute p.stem ++ place.map fun name => (name, some (.normal name)) := by
  have hnames : (place.map fun name => (name, componentOf? false name)) =
      place.map fun name => (name, some (.normal name)) :=
    List.map_congr_left fun name hname => by rw [(hplace name hname).componentOf?]
  rw [labelled_eq, isAbsolute_below hp hplace, pieces_below hp hplace hne,
    label_append _ p.stem_ne_nil, hnames]

omit hp in
theorem trimEnd_append_names (ls : List Labelled) (hne : place ≠ []) :
    trimEnd (ls ++ place.map fun name => (name, some (.normal name))) =
      ls ++ place.map fun name => (name, some (Component.normal name)) := by
  obtain ⟨init, last, rfl⟩ : ∃ init last, place = init ++ [last] :=
    ⟨_, _, (List.dropLast_concat_getLast hne).symm⟩
  simp [trimEnd]

/-- The last name is the name of the file. -/
theorem fileName?_below (hne : place ≠ []) : (p.below place).fileName? = place.getLast? := by
  rw [fileName?, labelled_below hp hplace hne, trimEnd_append_names hplace _ hne]
  obtain ⟨init, last, rfl⟩ : ∃ init last, place = init ++ [last] :=
    ⟨_, _, (List.dropLast_concat_getLast hne).symm⟩
  simp

end

/-- A name at the end of a path is the name of the file. -/
theorem fileName?_of_pieces {p : Path} {before : List String} {name : String}
    (h : p.pieces = before ++ [name]) (hname : Ordinary name) : p.fileName? = some name := by
  obtain ⟨ls, hlabelled⟩ : ∃ ls, p.labelled = ls ++ [name].map fun n => (n, some (.normal n)) := by
    rw [labelled_eq, h]
    cases before with
    | nil =>
      have hrelative : p.isAbsolute = false := by
        refine Bool.eq_false_iff.2 fun habsolute => ?_
        obtain ⟨rest, hrest⟩ := pieces_of_isAbsolute habsolute
        rw [h] at hrest
        exact hname.ne_empty (List.cons.inj hrest).1
      refine ⟨[], ?_⟩
      rw [hrelative]
      simp [label, hname.componentOf?]
    | cons first before =>
      refine ⟨label p.isAbsolute (first :: before), ?_⟩
      rw [label_append _ (List.cons_ne_nil first before)]
      simp [hname.componentOf?]
  have htrim := trimEnd_append_names (List.forall_mem_singleton.2 hname) ls (List.cons_ne_nil name [])
  rw [fileName?, hlabelled, htrim]
  simp

theorem fileName_join {p : Path} (hp : p.text ≠ "") {name : String} (hname : Ordinary name) :
    (p.join ⟨name⟩).fileName = name := by
  have hlast := fileName?_below hp (List.forall_mem_singleton.2 hname) (List.cons_ne_nil name [])
  rw [below_cons, below_nil] at hlast
  rw [fileName, hlast]
  rfl

/-! ## Names as a relative path -/

/-- The relative path of names. -/
def ofNames (names : List String) : Path := ⟨"/".intercalate names⟩

theorem text_ofNames_cons (first : String) {names : List String} (hne : names ≠ []) :
    (ofNames (first :: names)).text = first ++ "/" ++ (ofNames names).text := by
  cases names with
  | nil => exact absurd rfl hne
  | cons next names =>
    apply String.toList_inj.1
    simp [ofNames, List.append_assoc]

theorem text_ofNames_append {names more : List String} (hne : names ≠ []) (hmore : more ≠ []) :
    (ofNames (names ++ more)).text = (ofNames names).text ++ "/" ++ (ofNames more).text := by
  induction names with
  | nil => exact absurd rfl hne
  | cons first names ih =>
    cases names with
    | nil =>
      rw [List.singleton_append, text_ofNames_cons first hmore]
      simp [ofNames]
    | cons next names =>
      rw [List.cons_append, text_ofNames_cons first (by simp), ih (List.cons_ne_nil next names),
        text_ofNames_cons first (List.cons_ne_nil next names)]
      simp only [String.append_assoc]

theorem text_ofNames_concat {names : List String} (hne : names ≠ []) (name : String) :
    (ofNames (names ++ [name])).text = (ofNames names).text ++ "/" ++ name := by
  rw [text_ofNames_append hne (List.cons_ne_nil name [])]
  simp [ofNames]

section
variable {names : List String} (hnames : ∀ name ∈ names, Ordinary name)
include hnames

theorem pieces_ofNames (hne : names ≠ []) : (ofNames names).pieces = names :=
  pieces_intercalate hne fun name hname => (hnames name hname).separator_not_mem

theorem isAbsolute_ofNames : (ofNames names).isAbsolute = false := by
  cases names with
  | nil => decide
  | cons first names =>
    have hfirst := (hnames first List.mem_cons_self).not_isAbsolute
    have hne := (hnames first List.mem_cons_self).toList_ne_nil
    by_cases hnil : names = []
    · subst hnil
      have htext : ofNames [first] = ⟨first⟩ := by simp [ofNames]
      rw [htext, hfirst]
    · obtain ⟨c, cs, hchars⟩ := List.exists_cons_of_ne_nil hne
      rw [isAbsolute, hchars] at hfirst
      rw [isAbsolute, text_ofNames_cons first hnil, String.toList_append, String.toList_append, hchars]
      exact hfirst

theorem text_ofNames_ne_empty (hne : names ≠ []) : (ofNames names).text ≠ "" := by
  intro htext
  have hpieces := pieces_ofNames hnames hne
  have hempty : (ofNames names).pieces = [""] := by
    rw [pieces, htext]
    rfl
  rw [hempty] at hpieces
  subst hpieces
  exact (hnames "" List.mem_cons_self).ne_empty rfl

theorem labelled_ofNames (hne : names ≠ []) :
    (ofNames names).labelled = names.map fun name => (name, some (Component.normal name)) := by
  rw [labelled_eq, isAbsolute_ofNames hnames, pieces_ofNames hnames hne]
  cases names with
  | nil => exact absurd rfl hne
  | cons first names =>
    obtain ⟨hfirst, hrest⟩ := List.forall_mem_cons.1 hnames
    rw [label, if_neg Bool.false_ne_true, List.singleton_append, List.map_cons,
      hfirst.componentOf? true]
    congr 1
    exact List.map_congr_left fun name hname => by rw [(hrest name hname).componentOf?]

theorem trimEnd_names :
    trimEnd (names.map fun name => (name, some (.normal name))) =
      names.map fun name => (name, some (Component.normal name)) := by
  by_cases hne : names = []
  · subst hne
    rfl
  · exact trimEnd_append_names hnames [] hne

theorem fileName?_ofNames : (ofNames names).fileName? = names.getLast? := by
  by_cases hne : names = []
  · subst hne
    decide
  · rw [fileName?, labelled_ofNames hnames hne, trimEnd_names hnames, List.getLast?_map]
    cases hlast : names.getLast? with
    | none => exact absurd (List.getLast?_eq_none_iff.1 hlast) hne
    | some name => rfl

end

section
variable {names : List String} {name : String} (hnames : ∀ n ∈ names ++ [name], Ordinary n)
include hnames

theorem parent?_ofNames_concat : (ofNames (names ++ [name])).parent? = some (ofNames names) := by
  have hne : names ++ [name] ≠ [] := by simp
  have hinit : ∀ n ∈ names, Ordinary n := fun n hn => hnames n (List.mem_append_left [name] hn)
  have hdrop : ((names ++ [name]).map fun n => (n, some (Component.normal n))).dropLast =
      names.map fun n => (n, some (.normal n)) := by
    rw [List.map_append, List.map_singleton, List.dropLast_concat]
  have hassemble : assemble false (names.map fun n => (n, some (Component.normal n))) = ofNames names := by
    simp [assemble, ofNames, Function.comp_def]
  rw [parent?, labelled_ofNames hnames hne, trimEnd_names hnames]
  split
  · next hnil => exact absurd (List.map_eq_nil_iff.1 hnil) hne
  · rw [hdrop, trimEnd_names hinit, isAbsolute_ofNames hnames, hassemble]

/-- Another name in place of the last one. -/
theorem withFileName_ofNames_concat {new : String} (hnew : '/' ∉ new.toList) :
    (ofNames (names ++ [name])).withFileName new = ofNames (names ++ [new]) := by
  have hinit : ∀ n ∈ names, Ordinary n := fun n hn => hnames n (List.mem_append_left [name] hn)
  have habsolute : (⟨new⟩ : Path).isAbsolute = false := by
    rw [isAbsolute]
    cases hchars : new.toList with
    | nil => rfl
    | cons c cs =>
      rw [hchars, List.mem_cons, not_or] at hnew
      simpa [separator] using Ne.symm hnew.1
  have hlast : (names ++ [name]).getLast? = some name := List.getLast?_concat
  rw [withFileName, fileName?_ofNames hnames, hlast, parent?_ofNames_concat hnames]
  dsimp only
  by_cases hne : names = []
  · subst hne
    simp [join, ofNames]
  · have htext := text_ofNames_ne_empty hinit hne
    rw [join, habsolute, Bool.false_or, if_neg (by simpa using htext), if_neg]
    · rw [← text_ofNames_concat hne]
    · intro hsep
      have hends := (pieces_of_ends_with_separator hsep).1
      rw [pieces_ofNames hinit hne] at hends
      have hempty : "" ∈ names := by
        rw [hends]
        simp
      exact (hinit "" hempty).ne_empty rfl

end

/-! ## Seen from above -/

/-- What is left of labelled pieces once the components of the first of them are taken away. -/
theorem dropComponents_append (ls rest : List Labelled) :
    ∃ tail, dropComponents (ls.filterMap Prod.snd) (ls ++ rest) = some (tail ++ rest) ∧
      ∀ l ∈ tail, l.2 = none := by
  induction ls with
  | nil =>
    refine ⟨[], ?_, by simp⟩
    cases rest <;> simp [dropComponents]
  | cons l ls ih =>
    obtain ⟨piece, component⟩ := l
    obtain ⟨tail, hdrop, htail⟩ := ih
    cases component with
    | some c => exact ⟨tail, by simpa [dropComponents] using hdrop, htail⟩
    | none =>
      cases hcs : ls.filterMap Prod.snd with
      | nil =>
        refine ⟨(piece, none) :: ls, by simp [hcs, dropComponents], fun l hl => ?_⟩
        rcases List.mem_cons.1 hl with rfl | hl
        · rfl
        · exact List.filterMap_eq_nil_iff.1 hcs l hl
      | cons c cs =>
        rw [hcs] at hdrop
        exact ⟨tail, by simpa [hcs, dropComponents] using hdrop, htail⟩

theorem componentOf?_ne_root (leading : Bool) (piece : String) :
    componentOf? leading piece ≠ some .root := by
  unfold componentOf?
  split
  · simp
  · split
    · split <;> simp
    · split <;> simp

theorem root_not_mem_components_label (absolute : Bool) (ps : List String) :
    Component.root ∉ (label absolute ps).filterMap Prod.snd := by
  intro h
  obtain ⟨⟨piece, component⟩, hmem, hroot⟩ := List.mem_filterMap.1 h
  simp only at hroot
  subst hroot
  cases ps with
  | nil => cases hmem
  | cons first rest =>
    rw [label, List.mem_append] at hmem
    rcases hmem with hmem | hmem
    · split at hmem
      · cases hmem
      · exact componentOf?_ne_root true first (Prod.mk.inj (List.mem_singleton.1 hmem)).2.symm
    · obtain ⟨piece', -, e⟩ := List.mem_map.1 hmem
      exact componentOf?_ne_root false piece' (Prod.mk.inj e).2

/-- Seen from `p`, a path below `p` is the names on the way. -/
theorem stripPrefix?_below {p : Path} (hp : p.text ≠ "") {place : List String}
    (hplace : ∀ name ∈ place, Ordinary name) :
    (p.below place).stripPrefix? p = some (ofNames place) := by
  -- the pieces behind those that name `p`
  obtain ⟨ls, hlabelled, hls⟩ : ∃ ls, (p.below place).labelled = label p.isAbsolute p.stem ++ ls ∧
      trimEnd (ls.dropWhile fun piece => piece.2.isNone) =
        place.map fun name => (name, some (.normal name)) := by
    by_cases hne : place = []
    · subst hne
      obtain ⟨tail, hlabelled, htail⟩ := p.labelled_eq_stem
      have hdropped : (tail ++ []).dropWhile (fun piece : Labelled => piece.2.isNone) = [] :=
        List.dropWhile_append_of_pos fun l hl => by simp [htail l hl]
      refine ⟨tail, hlabelled, ?_⟩
      rw [List.append_nil] at hdropped
      rw [hdropped]
      rfl
    · refine ⟨_, labelled_below hp hplace hne, ?_⟩
      have htrim := trimEnd_append_names hplace [] hne
      cases place with
      | nil => exact absurd rfl hne
      | cons name place => simpa using htrim
  obtain ⟨tail, hdrop, htail⟩ := dropComponents_append (label p.isAbsolute p.stem) ls
  have hrest : ((tail ++ ls).dropWhile fun piece => piece.2.isNone) =
      ls.dropWhile fun piece => piece.2.isNone :=
    List.dropWhile_append_of_pos fun l hl => by simp [htail l hl]
  have hassemble : assemble false (trimEnd ((tail ++ ls).dropWhile fun piece => piece.2.isNone)) =
      ofNames place := by
    rw [hrest, hls, assemble]
    simp [Function.comp_def, ofNames]
  have habsolute := isAbsolute_below hp hplace
  have hcomponents := p.components_eq_stem
  have hroot := root_not_mem_components_label p.isAbsolute p.stem
  rw [stripPrefix?, habsolute, hlabelled]
  cases ha : p.isAbsolute with
  | true =>
    rw [ha] at hcomponents hdrop
    simp only [hcomponents, if_true, List.singleton_append]
    rw [hdrop, Option.map_some, hassemble]
  | false =>
    rw [ha] at hcomponents hdrop hroot
    simp only [Bool.false_eq_true, if_false, List.nil_append] at hcomponents
    rw [← hcomponents] at hdrop hroot
    split
    · next cs hcs => simp [hcs] at hroot
    · next hcs =>
      rw [hcs] at hdrop
      simp only [hdrop, Option.map_some, hassemble]
    · rw [if_neg Bool.false_ne_true]
      simp only [hdrop, Option.map_some, hassemble]

end Stencil.Path
