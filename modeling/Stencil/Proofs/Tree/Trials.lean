import Stencil.Proofs.Sorted
import Stencil.Proofs.Tree.Shape
import Stencil.Proofs.Tree.Shown
/-!
# What a build tries

A build lists each directory that it comes to, and looks at the name of every entry there, once for each
of the bindings that the directory has.  A build is these trials in order and then the tree of what the
source shows: a name can be complained about, a listing can fault, and nothing else warns or fails.  The
two policies differ only in what the first complaint does; both stop at the first fault.

    ofEntry files policy source entry b = do
      (trialsOf source (files.shown source entry) b).forM (attempt files policy)
      return nodeOf source (files.shown source entry) b
    lenient: the warnings are the complaints before the first fault
    strict: the first of these complaints is the error, or else the fault
-/

namespace Stencil.TemplateTree

open Stencil.Path

/-! ## Algorithm -/

/-- What a build tries: to list a directory, and to pass a name with the bindings in force. -/
inductive Trial where
  | listing (directory : Path)
  | name (name : String) (b : Bindings)

mutual

/-- What is tried at an entry and below it, in order. -/
def trialsOf (source : Path) : Entry → Bindings → List Trial
  | .file _, _ => []
  | .directory children, b => .listing source :: trialsIn source b children

/-- What is tried in a directory: each name, then what is below it, once for each variant. -/
def trialsIn (source : Path) (b : Bindings) : List (String × Entry) → List Trial
  | [] => []
  | (name, entry) :: entries =>
    .name name b :: ((variants name b).flatMap (trialsOf (source.join ⟨name⟩) entry) ++
      trialsIn source b entries)

end

/-- What is tried of a source: of a file its own name. -/
def trials (source : Path) (entry : Entry) (b : Bindings) : List Trial :=
  (if entry.isDirectory then [] else [.name source.fileName b]) ++ trialsOf source entry b

def attempt (files : FileSystem) (policy : UnboundPolicy) : Trial → Build Unit
  | .listing directory => checkListing files directory
  | .name name b => checkUnbound policy name b

/-- The first unbound placeholder of a name, with the name. -/
abbrev Complaint := Placeholder × String

def complaint? : Trial → Option Complaint
  | .listing _ => none
  | .name name b => (Placeholder.unbound name b).head?.map fun p => (p, name)

/-- Why a trial fails whatever the policy. -/
def fault? (files : FileSystem) : Trial → Option FileFault
  | .listing directory => files.listingFault? directory
  | .name _ _ => none

/-- What there is to complain about before the first fault, in order. -/
def complaintsOf (files : FileSystem) : List Trial → List Complaint
  | [] => []
  | t :: ts =>
    match fault? files t with
    | some _ => []
    | none => (complaint? t).toList ++ complaintsOf files ts

/-- What there is to complain about in a source. -/
def complaints (files : FileSystem) (source : Path) (entry : Entry) (b : Bindings) : List Complaint :=
  complaintsOf files (trials source (files.shown source entry) b)

/-- The first fault of a source. -/
def faultIn? (files : FileSystem) (source : Path) (entry : Entry) (b : Bindings) : Option FileFault :=
  (trials source (files.shown source entry) b).findSome? (fault? files)

def Complaint.warning (c : Complaint) : Warning := .unbound c.1 c.2

def Complaint.error (c : Complaint) : Error := .unresolvedPlaceholder c.2 c.1.literal

/-! ## A build is its trials -/

/-- Where each computation is some trials and then its result, so is a list of them. -/
theorem mapM_eq_forM_bind {α β γ : Type} {f : α → Build β} {g : α → List γ} {c : γ → Build Unit}
    {h : α → β} (xs : List α) (hf : ∀ x ∈ xs, f x = (g x).forM c >>= fun _ => pure (h x)) :
    xs.mapM f = (xs.flatMap g).forM c >>= fun _ => pure (xs.map h) := by
  induction xs with
  | nil =>
    rw [List.mapM_nil, List.flatMap_nil, List.map_nil]
    exact (pure_bind _ _).symm
  | cons x xs ih =>
    obtain ⟨hx, hxs⟩ := List.forall_mem_cons.1 hf
    rw [List.mapM_cons, hx, ih hxs, List.flatMap_cons]
    simp only [List.forM_eq_forM, List.forM_append, bind_assoc, pure_bind, List.map_cons]

section
variable {files : FileSystem} {policy : UnboundPolicy}

theorem map_fst_ofEntries (source : Path) (b : Bindings) (entries : List (String × Entry)) :
    (ofEntries files policy source b entries).map Prod.fst = entries.map Prod.fst := by
  induction entries with
  | nil => rfl
  | cons e entries ih => rw [ofEntries, List.map_cons, List.map_cons, ih]

/-- The entries of a directory stand in the order in which they are built. -/
theorem inOrder_ofEntries {entries : List (String × Entry)} (h : (Entry.directory entries).WellNamed)
    (source : Path) (b : Bindings) :
    inOrder (ofEntries files policy source b entries) =
      ((ofEntries files policy source b entries).mapM Prod.snd >>= fun ns => pure ns.flatten) := by
  rw [inOrder, Sorted.ofList_of_pairwise]
  rw [map_fst_ofEntries]
  exact h.1

variable (policy)

mutual

/-- The node of an entry comes of itself once the trials are passed. -/
theorem ofEntry_eq : ∀ {entry : Entry}, entry.WellNamed → ∀ (source : Path) (b : Bindings),
    ofEntry files policy source entry b =
      (trialsOf source (files.shown source entry) b).forM (attempt files policy) >>= fun _ =>
        pure (nodeOf source (files.shown source entry) b)
  | .file content, _, source, b => by
    rw [ofEntry, FileSystem.shown, trialsOf, nodeOf]
    exact (pure_bind _ _).symm
  | .directory children, hnamed, source, b => by
    rw [ofEntry]
    cases hdir : files.isDirectory source with
    | false =>
      rw [FileSystem.shown_of_not_isDirectory hdir, trialsOf, nodeOf, if_neg Bool.false_ne_true]
      exact (pure_bind _ _).symm
    | true =>
      obtain ⟨lists, hlists, hflatten⟩ := mapM_ofEntries_eq hnamed.2 source b
      rw [FileSystem.shown_of_isDirectory hdir, trialsOf, nodeOf, if_pos rfl, inOrder_ofEntries hnamed,
        hlists, ← hflatten]
      simp only [List.forM_eq_forM, List.forM_cons, bind_assoc, pure_bind, attempt]

theorem mapM_ofEntries_eq : ∀ {entries : List (String × Entry)}, Entry.AllWellNamed entries →
    ∀ (source : Path) (b : Bindings), ∃ lists : List (List Node),
      (ofEntries files policy source b entries).mapM Prod.snd =
        ((trialsIn source b (files.shownAll source entries)).forM (attempt files policy) >>= fun _ =>
          pure lists) ∧
        lists.flatten = nodesOf source b (files.shownAll source entries)
  | [], _, source, b => ⟨[], by rw [ofEntries, List.mapM_nil]; exact (pure_bind _ _).symm, rfl⟩
  | (name, entry) :: entries, hnamed, source, b => by
    have hvariants := mapM_eq_forM_bind (variants name b)
      fun b' _ => ofEntry_eq hnamed.2.1 (source.join ⟨name⟩) b'
    obtain ⟨rest, hrest, hflatten⟩ := mapM_ofEntries_eq hnamed.2.2 source b
    refine ⟨(variants name b).map
      (nodeOf (source.join ⟨name⟩) (files.shown (source.join ⟨name⟩) entry)) :: rest, ?_, ?_⟩
    · rw [ofEntries, List.mapM_cons, hvariants, hrest, FileSystem.shownAll, trialsIn]
      simp only [List.forM_eq_forM, List.forM_cons, List.forM_append, bind_assoc, pure_bind, attempt]
    · rw [List.flatten_cons, hflatten, FileSystem.shownAll, nodesOf]

end

/-- A root is built by its trials too. -/
theorem ofRoot_eq {source : Path} {entry : Entry} (hlookup : files.lookup source = .ok entry)
    (b : Bindings) :
    ofRoot files policy source entry b =
      (trials source (files.shown source entry) b).forM (attempt files policy) >>= fun _ =>
        pure (nodeOf source (files.shown source entry) b) := by
  obtain ⟨-, hnamed, -⟩ := FileSystem.of_lookup_eq_ok hlookup
  have hdir : (files.shown source entry).isDirectory = entry.isDirectory := by
    rw [FileSystem.isDirectory_shown, FileSystem.isDirectory, hlookup]
    exact Bool.and_self _
  rw [ofRoot, ofEntry_eq policy hnamed, trials, hdir]
  cases entry.isDirectory with
  | true => rfl
  | false =>
    simp only [Bool.not_false, if_true, Bool.false_eq_true, if_false, List.forM_eq_forM,
      List.cons_append, List.nil_append, List.forM_cons, bind_assoc]
    rfl

end

/-! ## What the policies do -/

section
variable {files : FileSystem}

/-- A lenient trial warns of what there is to complain about; only a fault stops it. -/
theorem run_attempt_literal (t : Trial) (ws : List Warning) :
    (attempt files .literal t).run ws =
      match fault? files t with
      | some fault => .error (.io fault) ws
      | none => .ok () (ws ++ (complaint? t).toList.map Complaint.warning) := by
  cases t with
  | listing directory =>
    rw [attempt, checkListing, fault?]
    cases files.listingFault? directory with
    | none => exact congrArg (EStateM.Result.ok ()) (List.append_nil ws).symm
    | some fault => rfl
  | name name b =>
    rw [attempt, fault?, complaint?]
    unfold checkUnbound
    cases Placeholder.unbound name b with
    | nil => exact congrArg (EStateM.Result.ok ()) (List.append_nil ws).symm
    | cons p ps => rfl

/-- A strict trial passes exactly if there is neither a fault nor a complaint. -/
theorem run_attempt_strict (t : Trial) (ws : List Warning) :
    (attempt files .strict t).run ws =
      match fault? files t, complaint? t with
      | some fault, _ => .error (.io fault) ws
      | none, some complaint => .error complaint.error ws
      | none, none => .ok () ws := by
  cases t with
  | listing directory =>
    rw [attempt, checkListing, fault?]
    cases files.listingFault? directory <;> rfl
  | name name b =>
    rw [attempt, fault?, complaint?]
    unfold checkUnbound
    cases Placeholder.unbound name b <;> rfl

theorem run_attempts_literal (ts : List Trial) (ws : List Warning) :
    (ts.forM (attempt files .literal)).run ws =
      match ts.findSome? (fault? files) with
      | some fault => .error (.io fault) (ws ++ (complaintsOf files ts).map Complaint.warning)
      | none => .ok () (ws ++ (complaintsOf files ts).map Complaint.warning) := by
  induction ts generalizing ws with
  | nil => exact congrArg (EStateM.Result.ok ()) (List.append_nil ws).symm
  | cons t ts ih =>
    rw [List.forM_eq_forM, List.forM_cons, EStateM.run_bind, run_attempt_literal, ← List.forM_eq_forM,
      List.findSome?_cons, complaintsOf]
    cases fault? files t with
    | some fault => exact congrArg (EStateM.Result.error (Error.io fault)) (List.append_nil ws).symm
    | none =>
      simp only [List.map_append, ← List.append_assoc]
      exact ih _

theorem run_attempts_strict (ts : List Trial) (ws : List Warning) :
    (ts.forM (attempt files .strict)).run ws =
      match complaintsOf files ts, ts.findSome? (fault? files) with
      | complaint :: _, _ => .error complaint.error ws
      | [], some fault => .error (.io fault) ws
      | [], none => .ok () ws := by
  induction ts with
  | nil => rfl
  | cons t ts ih =>
    rw [List.forM_eq_forM, List.forM_cons, EStateM.run_bind, run_attempt_strict, ← List.forM_eq_forM,
      List.findSome?_cons, complaintsOf]
    cases fault? files t with
    | some fault => rfl
    | none =>
      cases complaint? t with
      | none => exact ih
      | some complaint => rfl

end

/-! ## Builds -/

section
variable {files : FileSystem} {source : Path} {b : Bindings} {entry : Entry}

/-- A lenient build of an entry that is there warns of every complaint, and fails only with a fault. -/
theorem build_literal (h : files.lookup source = .ok entry) (suffixes : List String) :
    build files source b ⟨suffixes, .literal⟩ =
      match faultIn? files source entry b with
      | some fault => .error ⟨.io fault, (complaints files source entry b).map Complaint.warning⟩
      | none => .ok (⟨nodeOf source (files.shown source entry) b, ⟨suffixes, .literal⟩⟩,
        (complaints files source entry b).map Complaint.warning) := by
  rw [build, h]
  dsimp only
  rw [ofRoot_eq .literal h, Build.settle, EStateM.run_bind, EStateM.run_bind, run_attempts_literal,
    ← faultIn?, ← complaints]
  cases faultIn? files source entry b <;> rfl

/-- A strict build makes the same tree, or fails with the first complaint, or with a fault before it. -/
theorem build_strict (h : files.lookup source = .ok entry) (suffixes : List String) :
    build files source b ⟨suffixes, .strict⟩ =
      match complaints files source entry b, faultIn? files source entry b with
      | complaint :: _, _ => .error ⟨complaint.error, []⟩
      | [], some fault => .error ⟨.io fault, []⟩
      | [], none => .ok (⟨nodeOf source (files.shown source entry) b, ⟨suffixes, .strict⟩⟩, []) := by
  rw [build, h]
  dsimp only
  rw [ofRoot_eq .strict h, Build.settle, EStateM.run_bind, EStateM.run_bind, run_attempts_strict,
    ← faultIn?, ← complaints]
  cases complaints files source entry b with
  | cons complaint cs => rfl
  | nil => cases faultIn? files source entry b <;> rfl

theorem build_literal_eq_ok_iff (h : files.lookup source = .ok entry) {suffixes : List String}
    {t : TemplateTree} {ws : List Warning} :
    build files source b ⟨suffixes, .literal⟩ = .ok (t, ws) ↔
      t = ⟨nodeOf source (files.shown source entry) b, ⟨suffixes, .literal⟩⟩ ∧
        ws = (complaints files source entry b).map Complaint.warning ∧
        faultIn? files source entry b = none := by
  rw [build_literal h]
  cases faultIn? files source entry b <;> simp [eq_comm]

theorem build_literal_eq_error_iff (h : files.lookup source = .ok entry) {suffixes : List String}
    {e : Error} {ws : List Warning} :
    build files source b ⟨suffixes, .literal⟩ = .error ⟨e, ws⟩ ↔
      ws = (complaints files source entry b).map Complaint.warning ∧
        ∃ fault, faultIn? files source entry b = some fault ∧ e = .io fault := by
  rw [build_literal h]
  cases faultIn? files source entry b <;> simp [eq_comm, and_comm]

theorem build_strict_eq_ok_iff (h : files.lookup source = .ok entry) {suffixes : List String}
    {t : TemplateTree} {ws : List Warning} :
    build files source b ⟨suffixes, .strict⟩ = .ok (t, ws) ↔
      t = ⟨nodeOf source (files.shown source entry) b, ⟨suffixes, .strict⟩⟩ ∧ ws = [] ∧
        complaints files source entry b = [] ∧ faultIn? files source entry b = none := by
  rw [build_strict h]
  cases complaints files source entry b with
  | cons complaint cs => simp
  | nil => cases faultIn? files source entry b <;> simp [eq_comm]

/-- Where nothing is found, the policy does not matter. -/
theorem build_of_lookup_eq_error {fault : FileFault} (h : files.lookup source = .error fault)
    (options : TreeOptions) :
    build files source b options =
      .error ⟨if fault = .notFound then .sourceNotFound source else .io fault, []⟩ := by
  rw [build, h]
  cases fault <;> rfl

end

/-- A build that succeeds makes the tree of what the source shows, where names are as names must be. -/
theorem exists_entry_of_build {files : FileSystem} {source : Path} {b : Bindings}
    {options : TreeOptions} {t : TemplateTree} {warnings : List Warning}
    (h : build files source b options = .ok (t, warnings)) :
    ∃ entry, files.lookup source = .ok entry ∧ source.text ≠ "" ∧
      (files.shown source entry).WellNamed ∧
      t = ⟨nodeOf source (files.shown source entry) b, options⟩ := by
  cases hlookup : files.lookup source with
  | error fault =>
    rw [build_of_lookup_eq_error hlookup] at h
    cases h
  | ok entry =>
    obtain ⟨htext, hnamed, -⟩ := FileSystem.of_lookup_eq_ok hlookup
    refine ⟨entry, rfl, htext, FileSystem.wellNamed_shown source hnamed, ?_⟩
    obtain ⟨suffixes, policy⟩ := options
    cases policy with
    | literal => exact ((build_literal_eq_ok_iff hlookup).1 h).1
    | strict => exact ((build_strict_eq_ok_iff hlookup).1 h).1

/-- A build that succeeds makes the tree of some entry, where names are as names must be. -/
theorem exists_shown_of_build {files : FileSystem} {source : Path} {b : Bindings}
    {options : TreeOptions} {t : TemplateTree} {warnings : List Warning}
    (h : build files source b options = .ok (t, warnings)) :
    ∃ entry : Entry, source.text ≠ "" ∧ entry.WellNamed ∧ t = ⟨nodeOf source entry b, options⟩ := by
  obtain ⟨entry, -, htext, hnamed, ht⟩ := exists_entry_of_build h
  exact ⟨files.shown source entry, htext, hnamed, ht⟩

end Stencil.TemplateTree
