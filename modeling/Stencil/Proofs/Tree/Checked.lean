import Stencil.Proofs.Tree.Levels
/-!
# The names that a build checks

The two policies build the same trees, but for the first complaint about a name: it is a warning to the
one and an error to the other.  Where there is none, no name in the tree has an unbound placeholder.

    no complaint → every name on the way to a node has none but bound placeholders
-/

namespace Stencil.TemplateTree

open Stencil.Path Bindings

/-! ## What is on the way to a node -/

theorem unbound_eq_nil_iff {path : String} {b : Bindings} :
    Placeholder.unbound path b = [] ↔ ∀ name ∈ namesOf path, b.contains name = true := by
  rw [Placeholder.unbound, List.filter_eq_nil_iff, namesOf, List.forall_mem_map]
  simp

theorem unbound_of_narrows {b b' : Bindings} (h : Narrows b b') (path : String) :
    Placeholder.unbound path b' = Placeholder.unbound path b := by
  rw [Placeholder.unbound, Placeholder.unbound]
  exact List.filter_congr fun p _ => by rw [h.contains]

/-- Placeholders do not reach over a separator. -/
theorem unbound_ofNames {place : Place} {b : Bindings}
    (h : ∀ name ∈ place, Placeholder.unbound name b = []) :
    Placeholder.unbound (ofNames place).text b = [] := by
  rw [unbound_eq_nil_iff, ofNames, namesOf_intercalate]
  intro name hname
  obtain ⟨own, hown, hname⟩ := List.mem_flatMap.1 hname
  exact unbound_eq_nil_iff.1 (h own hown) name hname

theorem mem_trialsIn_iff {source : Path} {b : Bindings} {entries : List (String × Entry)} {t : Trial} :
    t ∈ trialsIn source b entries ↔ ∃ name entry, (name, entry) ∈ entries ∧
      (t = .name name b ∨ ∃ b' ∈ variants name b, t ∈ trialsOf (source.join ⟨name⟩) entry b') := by
  induction entries with
  | nil => simp [trialsIn]
  | cons e entries ih =>
    obtain ⟨name, entry⟩ := e
    rw [trialsIn, List.mem_cons, List.mem_append, List.mem_flatMap, ih]
    constructor
    · rintro (rfl | hbelow | ⟨name', entry', hmem, ht⟩)
      · exact ⟨name, entry, List.mem_cons_self, .inl rfl⟩
      · exact ⟨name, entry, List.mem_cons_self, .inr hbelow⟩
      · exact ⟨name', entry', List.mem_cons_of_mem _ hmem, ht⟩
    · rintro ⟨name', entry', hmem, ht⟩
      rcases List.mem_cons.1 hmem with heq | hmem
      · obtain ⟨rfl, rfl⟩ := Prod.mk.inj heq
        exact ht.imp_right .inl
      · exact .inr (.inr ⟨name', entry', hmem, ht⟩)

/-- On the way to an entry every name is tried, and what is tried from there on is tried. -/
theorem tried_of_levels (source : Path) {entry e : Entry} {place : Place} {b b' : Bindings}
    (hget : entry.get? place = some e) (hlevel : b' ∈ levels place b) :
    Narrows b b' ∧
      (∀ name ∈ place, ∃ b'', Narrows b'' b' ∧ .name name b'' ∈ trialsOf source entry b) ∧
      ∀ t ∈ trialsOf (source.below place) e b', t ∈ trialsOf source entry b := by
  induction place generalizing source entry b with
  | nil =>
    obtain rfl := Option.some.inj hget
    obtain rfl := List.mem_singleton.1 hlevel
    exact ⟨.refl _, by simp, fun t ht => ht⟩
  | cons first place ih =>
    cases entry with
    | file content => cases hget
    | directory children =>
      rw [Entry.get?_cons_directory, Option.bind_eq_some_iff] at hget
      obtain ⟨child, hlookup, hget⟩ := hget
      obtain ⟨b₁, hb₁, hlevel⟩ := List.mem_flatMap.1 hlevel
      obtain ⟨hnarrows, hway, hrest⟩ := ih (source.join ⟨first⟩) hget hlevel
      have hfirst := narrows_of_mem_variants hb₁
      have hmem := KeyedList.mem_of_lookup hlookup
      have hbelow : ∀ t ∈ trialsOf (source.join ⟨first⟩) child b₁,
          t ∈ trialsOf source (.directory children) b := by
        intro t ht
        rw [trialsOf]
        exact List.mem_cons_of_mem _ (mem_trialsIn_iff.2 ⟨first, child, hmem, .inr ⟨b₁, hb₁, ht⟩⟩)
      refine ⟨hfirst.trans hnarrows, List.forall_mem_cons.2 ⟨?_, fun name hname => ?_⟩,
        fun t ht => hbelow t (hrest t ht)⟩
      · refine ⟨b, hfirst.trans hnarrows, ?_⟩
        rw [trialsOf]
        exact List.mem_cons_of_mem _ (mem_trialsIn_iff.2 ⟨first, child, hmem, .inl rfl⟩)
      · obtain ⟨b'', hb'', ht⟩ := hway name hname
        exact ⟨b'', hb'', hbelow _ ht⟩

/-- Nothing to complain about: each of the names is passed. -/
def Passes (ts : List Trial) : Prop := ∀ t ∈ ts, complaint? t = none

theorem Passes.unbound_eq_nil {ts : List Trial} (h : Passes ts) {name : String} {b : Bindings}
    (ht : .name name b ∈ ts) : Placeholder.unbound name b = [] := by
  have hnone := h _ ht
  rwa [complaint?, Option.map_eq_none_iff, List.head?_eq_none_iff] at hnone

theorem mem_trials_of_mem_trialsOf {source : Path} {entry : Entry} {b : Bindings} {t : Trial}
    (ht : t ∈ trialsOf source entry b) : t ∈ trials source entry b := List.mem_append_right _ ht

/-- Without a complaint no name on the way to a node has an unbound placeholder. -/
theorem Placed.unbound_eq_nil {source : Path} (hsource : source.text ≠ "") {entry : Entry}
    (hnamed : entry.WellNamed) {b : Bindings} (h : Passes (trials source entry b)) {n : Node}
    (hn : n ∈ (nodeOf source entry b).preorder) {place : Place} (hplaced : Placed source entry place n) :
    ∀ name ∈ place, Placeholder.unbound name n.bindings = [] := by
  intro name hname
  obtain ⟨e, b', hget, hlevel, hnode⟩ := hplaced.exists_level hsource hnamed hn
  obtain ⟨b'', hb'', ht⟩ := (tried_of_levels source hget hlevel).2.1 name hname
  have hnarrows := hb''.trans (narrows_of_mem_nodeOf (List.mem_filter.1 hnode).1)
  rw [unbound_of_narrows hnarrows]
  exact h.unbound_eq_nil (mem_trials_of_mem_trialsOf ht)

/-- Without a complaint the path of a node has no unbound placeholder. -/
theorem unbound_relativePath? {source : Path} (hsource : source.text ≠ "") {entry : Entry}
    (hnamed : entry.WellNamed) {b : Bindings} (h : Passes (trials source entry b))
    {options : TreeOptions} {n : Node} (hn : n ∈ (nodeOf source entry b).preorder) {relative : Path}
    (hrelative : relativePath? ⟨nodeOf source entry b, options⟩ n = some relative) :
    Placeholder.unbound relative.text n.bindings = [] := by
  cases entry with
  | directory children =>
    obtain ⟨place, hplaced⟩ := placed_of_mem_nodeOf source (.directory children) hnamed b n hn
    have hway := hplaced.unbound_eq_nil hsource hnamed h hn
    rw [nodeOf, hplaced.relativePath? hsource hnamed] at hrelative
    obtain rfl := Option.some.inj hrelative
    exact unbound_ofNames hway
  | file content =>
    have hnarrows := narrows_of_mem_nodeOf hn
    rw [nodeOf] at hn hrelative
    obtain ⟨own, hown, rfl⟩ := fileName?_of_relativePath? hn hrelative
    have htried : .name source.fileName b ∈ trials source (.file content) b := List.mem_cons_self
    have hroot := h.unbound_eq_nil htried
    rw [Path.fileName, hown] at hroot
    rw [unbound_of_narrows hnarrows]
    exact hroot

/-- Where no listing faults, all that there is to complain about is complained about. -/
theorem passes_of_complaintsOf {files : FileSystem} {ts : List Trial}
    (hfault : ts.findSome? (fault? files) = none) (hnone : complaintsOf files ts = []) : Passes ts := by
  induction ts with
  | nil => exact fun t ht => by cases ht
  | cons t ts ih =>
    rw [List.findSome?_cons] at hfault
    rw [complaintsOf] at hnone
    cases ht : fault? files t with
    | some fault => simp [ht] at hfault
    | none =>
      rw [ht] at hfault hnone
      obtain ⟨hfirst, hrest⟩ := List.append_eq_nil_iff.1 hnone
      exact List.forall_mem_cons.2 ⟨Option.toList_eq_nil_iff.1 hfirst, ih hfault hrest⟩

/-! ## Top theorem -/

theorem unbound_not_mem_warnings_iff {cs : List Complaint} :
    (∀ p name, Warning.unbound p name ∉ cs.map Complaint.warning) ↔ cs = [] := by
  constructor
  · intro h
    cases cs with
    | nil => rfl
    | cons c cs => exact absurd List.mem_cons_self (h c.1 c.2)
  · rintro rfl
    simp

/-- Among warnings of complaints the first that tells of an unbound placeholder is the first of all. -/
theorem eq_cons_of_warnings {cs : List Complaint} {before after : List Warning} {p : Placeholder}
    {name : String} (h : cs.map Complaint.warning = before ++ .unbound p name :: after)
    (hbefore : ∀ p' name', .unbound p' name' ∉ before) : ∃ rest, cs = (p, name) :: rest := by
  cases before with
  | nil =>
    obtain ⟨c, rest, rfl, hc, -⟩ := List.map_eq_cons_iff.1 h
    obtain ⟨rfl, rfl⟩ := Warning.unbound.inj hc
    exact ⟨rest, rfl⟩
  | cons w before =>
    obtain ⟨c, rest, -, rfl, -⟩ := List.map_eq_cons_iff.1 h
    exact absurd List.mem_cons_self (hbefore c.1 c.2)

/-- A strict build succeeds exactly where a lenient one does without warning of an unbound placeholder,
and makes the same nodes.  Where the lenient build warns, whether it then succeeds or fails, the strict one
fails with the first of these warnings; where the lenient build fails without such a warning, the strict
one fails in the same way.  In a tree of a strict build no path has an unbound placeholder. -/
theorem strict_agrees_with_literal (files : FileSystem) (source : Path) (b : Bindings)
    (suffixes : List String) :
    (∀ root,
      (∃ ws, build files source b ⟨suffixes, .strict⟩ = .ok (⟨root, ⟨suffixes, .strict⟩⟩, ws)) ↔
        ∃ ws, build files source b ⟨suffixes, .literal⟩ = .ok (⟨root, ⟨suffixes, .literal⟩⟩, ws) ∧
          ∀ p name, .unbound p name ∉ ws) ∧
    (∀ before p name after,
      ((∃ t, build files source b ⟨suffixes, .literal⟩ =
          .ok (t, before ++ .unbound p name :: after)) ∨
        ∃ e, build files source b ⟨suffixes, .literal⟩ =
          .error ⟨e, before ++ .unbound p name :: after⟩) →
      (∀ p' name', .unbound p' name' ∉ before) →
        build files source b ⟨suffixes, .strict⟩ =
          .error ⟨.unresolvedPlaceholder name p.literal, []⟩) ∧
    (∀ failure, build files source b ⟨suffixes, .literal⟩ = .error failure →
      (∀ p name, .unbound p name ∉ failure.warnings) →
        build files source b ⟨suffixes, .strict⟩ = .error failure) ∧
    ∀ t ws, build files source b ⟨suffixes, .strict⟩ = .ok (t, ws) → ∀ n ∈ t.nodes, ∀ relative,
      t.relativePath? n = some relative → Placeholder.unbound relative.text n.bindings = [] := by
  cases hlookup : files.lookup source with
  | error fault => simp [build_of_lookup_eq_error hlookup]
  | ok entry =>
    refine ⟨fun root => ?_, fun before p name after hbuild hbefore => ?_, fun failure hbuild hnone => ?_,
      fun t ws hbuild n hn relative hrelative => ?_⟩
    · simp only [build_strict_eq_ok_iff hlookup, build_literal_eq_ok_iff hlookup, mk.injEq, and_true]
      constructor
      · rintro ⟨ws, hroot, -, hcs, hfault⟩
        refine ⟨_, ⟨hroot, rfl, hfault⟩, ?_⟩
        exact unbound_not_mem_warnings_iff.2 hcs
      · rintro ⟨ws, ⟨hroot, rfl, hfault⟩, hnone⟩
        exact ⟨[], hroot, rfl, unbound_not_mem_warnings_iff.1 hnone, hfault⟩
    · -- the warnings are the complaints, whether or not there is a fault behind them
      have hwarnings : before ++ .unbound p name :: after =
          (complaints files source entry b).map Complaint.warning := by
        rcases hbuild with ⟨t, hbuild⟩ | ⟨e, hbuild⟩
        · exact ((build_literal_eq_ok_iff hlookup).1 hbuild).2.1
        · exact ((build_literal_eq_error_iff hlookup).1 hbuild).1
      obtain ⟨rest, hrest⟩ := eq_cons_of_warnings hwarnings.symm hbefore
      rw [build_strict hlookup, hrest]
      rfl
    · obtain ⟨e, ws⟩ := failure
      obtain ⟨rfl, fault, hfault, rfl⟩ := (build_literal_eq_error_iff hlookup).1 hbuild
      have hnil := unbound_not_mem_warnings_iff.1 hnone
      rw [build_strict hlookup, hfault, hnil]
      rfl
    · obtain ⟨rfl, -, hcs, hfault⟩ := (build_strict_eq_ok_iff hlookup).1 hbuild
      obtain ⟨hsource, hnamed, -⟩ := FileSystem.of_lookup_eq_ok hlookup
      exact unbound_relativePath? hsource (FileSystem.wellNamed_shown source hnamed)
        (passes_of_complaintsOf hfault hcs) hn hrelative

/-- The name of each note has two unbound placeholders, and stands below both of the volumes. -/
def notes : List (String × Entry) :=
  [("%volume%", .directory [("%page%-%line%.txt", .file ⟨#[]⟩)]), ("index", .directory [])]

/-- The directory that comes last cannot be listed. -/
def notesFiles : FileSystem :=
  ⟨.directory [("src", .directory notes)], [],
    Disk.healthy.refusing ["src", "index"] .permissionDenied, rfl, by decide +kernel⟩

def notesBindings : Bindings := .ofList [("volume", .range 1 2)]

/-- The lenient build warns twice and then fails; the strict one fails with the first warning. -/
theorem strict_agrees_with_literal_notes :
    ∃ ws, build notesFiles ⟨"src"⟩ notesBindings ⟨[], .literal⟩ =
        .error ⟨.io (.unlisted ⟨"src/index"⟩ .permissionDenied), ws⟩ ∧ ws.length = 2 ∧
      build notesFiles ⟨"src"⟩ notesBindings ⟨[], .strict⟩ =
        .error ⟨.unresolvedPlaceholder "%page%-%line%.txt" "%page%", []⟩ := by
  have hlookup : notesFiles.lookup ⟨"src"⟩ = .ok (.directory notes) := by
    have hresolve : notesFiles.resolve ⟨"src"⟩ = .ok ["src"] := by decide +kernel
    exact FileSystem.lookup_eq_ok_iff.2 ⟨["src"], hresolve, rfl⟩
  have hcomplaints : complaints notesFiles ⟨"src"⟩ (.directory notes) notesBindings =
      [(.ofName "page", "%page%-%line%.txt"), (.ofName "page", "%page%-%line%.txt")] := by decide +kernel
  have hfault : faultIn? notesFiles ⟨"src"⟩ (.directory notes) notesBindings =
      some (.unlisted ⟨"src/index"⟩ .permissionDenied) := by decide +kernel
  have hbuild := build_literal (b := notesBindings) hlookup []
  rw [hfault, hcomplaints] at hbuild
  have hnone : ∀ p name, Warning.unbound p name ∉ ([] : List Warning) := by simp
  have hliteral : (Placeholder.ofName "page").literal = "%page%" := by decide +kernel
  refine ⟨_, hbuild, rfl, ?_⟩
  rw [← hliteral]
  exact (strict_agrees_with_literal notesFiles ⟨"src"⟩ notesBindings []).2.1 [] _ _ _
    (.inr ⟨_, hbuild⟩) hnone

end Stencil.TemplateTree
