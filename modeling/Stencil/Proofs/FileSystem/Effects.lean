import Mathlib.Data.List.Basic
import Mathlib.Logic.Relation
import Stencil.Proofs.FileSystem.Places
/-!
# What operations change

A directory that is made, or a file that is written, changes what stands at one place, which its path
names afterwards.  Directories made on the way to a path stand where the path or a path above it says.

    fs.makeDirectory p = .ok fs' → ∃ place, Puts p .directory place fs fs'
    fs.write p content = (fs', none) → ∃ place, Puts p (.file content) place fs fs'
    fs.write p content = (fs', some fault) →
      fs' = fs ∨ ∃ place part, IsPart part content ∧ Puts p (.file part) place fs fs'
    MakesOnly p.AtOrAbove fs (fs.makeDirectories p).1
    Touches written made fs fs' → Touches written made fs' fs'' → Touches written made fs fs''
-/

namespace Stencil

/-- The second path is the first, or its parent, or the parent of that, and so on. -/
def Path.AtOrAbove : Path → Path → Prop :=
  Relation.ReflTransGen fun p q => p.parent? = some q

theorem Path.atOrAbove_of_mem_ancestorsFrom {fuel : Nat} {p a : Path}
    (h : a ∈ ancestorsFrom fuel p) : p.AtOrAbove a := by
  induction fuel generalizing p with
  | zero =>
    obtain rfl := List.mem_singleton.1 h
    exact .refl
  | succ fuel ih =>
    rw [ancestorsFrom] at h
    split at h
    · next parent hparent =>
      rcases List.mem_cons.1 h with rfl | h
      · exact .refl
      · exact .head hparent (ih h)
    · obtain rfl := List.mem_singleton.1 h
      exact .refl

/-- The first of the ancestors is the path itself. -/
theorem Path.ancestors_eq_cons (p : Path) : ∃ outer, p.ancestors = p :: outer := by
  rw [ancestors]
  cases p.pieces.length with
  | zero => exact ⟨[], rfl⟩
  | succ fuel =>
    rw [ancestorsFrom]
    split
    · next parent _ => exact ⟨ancestorsFrom fuel parent, rfl⟩
    · exact ⟨[], rfl⟩

/-! ## Disks -/

/-- The first of some bytes, but not all of them. -/
def IsPart (part content : ByteArray) : Prop := ∃ n, n < content.size ∧ part = content.extract 0 n

/-- A disk takes all the bytes of a file, or a first part of them. -/
theorem Disk.store_cases (disk : Disk) (place : Place) (content : ByteArray) :
    disk.store place content = (content, none) ∨
      ∃ part fault, IsPart part content ∧ disk.store place content = (part, some fault) := by
  rw [store]
  split
  · exact .inl rfl
  · next room fault _ =>
    split
    · next hless => exact .inr ⟨_, fault, ⟨room, hless, rfl⟩, rfl⟩
    · exact .inl rfl

namespace FileSystem

/-! ## Slots -/

theorem exists_empties (pieces : List String) :
    ∃ empties, pieces = dropTrailingEmpty pieces ++ empties ∧ ∀ piece ∈ empties, piece = "" := by
  refine ⟨(pieces.reverse.takeWhile (· = "")).reverse, ?_, ?_⟩
  · rw [dropTrailingEmpty, ← List.reverse_append, List.takeWhile_append_dropWhile,
      List.reverse_reverse]
  · intro piece hpiece
    have hempty := List.all_eq_true.1 List.all_takeWhile piece (List.mem_reverse.1 hpiece)
    simpa using hempty

/-- Without an empty piece at the end there are none in a row at the end. -/
theorem eq_nil_of_getLast?_ne {way empties : List String} (hempties : ∀ piece ∈ empties, piece = "")
    (hlast : (way ++ empties).getLast? ≠ some "") : empties = [] := by
  rcases List.eq_nil_or_concat' empties with hnil | ⟨init, piece, rfl⟩
  · exact hnil
  · rw [← List.append_assoc, List.getLast?_concat] at hlast
    exact absurd (congrArg some (hempties piece (by simp))) hlast

/-- The walk to a slot, and the name that is left behind it. -/
theorem walk_of_slot {fs : FileSystem} {p : Path} {dots : FileFault} {slash : Option FileFault}
    {place : Place} {name : FileName} (h : fs.slot p dots slash = .ok (place, name)) :
    pathFault? p = none ∧ name.val.utf8ByteSize ≤ maxNameBytes ∧
      ∃ way empties, p.pieces = way ++ name.val :: empties ∧ (∀ piece ∈ empties, piece = "") ∧
        (slash.isSome → empties = []) ∧ walk fs.root (fs.start p) way = .ok place := by
  rw [slot] at h
  split at h
  · cases h
  · next hfault =>
    dsimp only at h
    split at h
    · cases h
    · next place' hwalk =>
      split at h
      · cases h
      · cases h
      · cases h
      · next children last _ hlast =>
        split at h
        · split at h
          · cases h
          · next hslash =>
            split at h
            · cases h
            · next hshort =>
              obtain ⟨rfl, rfl⟩ := Prod.mk.inj (Except.ok.inj h)
              obtain ⟨empties, hpieces, hempties⟩ := exists_empties p.pieces
              obtain ⟨way, hway⟩ := List.getLast?_eq_some_iff.1 hlast
              rw [hway, List.dropLast_concat] at hwalk
              refine ⟨hfault, Nat.le_of_not_lt hshort, way, empties, ?_, hempties, fun hsome => ?_, hwalk⟩
              · rw [← List.singleton_append, ← List.append_assoc, ← hway]
                exact hpieces
              · rw [hsome, Bool.and_true, decide_eq_true_iff, hpieces] at hslash
                exact eq_nil_of_getLast?_ne hempties hslash
        · cases h

/-- Once something stands in the slot, the path names it. -/
theorem resolve_of_slot {fs fs' : FileSystem} {p : Path} {dots : FileFault} {slash : Option FileFault}
    {place : Place} {name : FileName} (hslot : fs.slot p dots slash = .ok (place, name))
    (hext : Extends fs fs') {item : Item} (hitem : fs'.item? (place ++ [name.val]) = some item)
    (hkind : slash.isSome ∨ item = .directory) : fs'.resolve p = .ok (place ++ [name.val]) := by
  obtain ⟨children, hget⟩ := of_slot_eq_ok hslot
  obtain ⟨hfault, hshort, way, empties, hpieces, hempties, hslash, hwalk⟩ := walk_of_slot hslot
  have hplace : fs.item? place = some .directory := Entry.item?_eq_directory_iff.2 ⟨children, hget⟩
  have hname := name.property
  have hisName : IsName name.val := ⟨hname.ne_empty, hname.ne_current, hname.ne_parent⟩
  have hstep : step fs'.root place name.val = .ok (place ++ [name.val]) := by
    refine step_eq_ok_iff.2 ⟨hext.directory place hplace, (goTo_of_isName hisName place).symm, ?_⟩
    intro _
    exact ⟨hshort, Option.isSome_iff_exists.2 ⟨item, hitem⟩⟩
  have hrest : walk fs'.root (place ++ [name.val]) empties = .ok (place ++ [name.val]) := by
    rcases hkind with hsome | rfl
    · rw [hslash hsome]
      rfl
    · exact walk_of_stay hitem fun piece hpiece => .inl (hempties piece hpiece)
  refine resolve_eq_ok_iff.2 ⟨hfault, ?_⟩
  rw [hpieces, hext.start p]
  exact walk_append_eq_ok_iff.2
    ⟨place, hext.walk hwalk, walk_cons_eq_ok_iff.2 ⟨place ++ [name.val], hstep, hrest⟩⟩

/-! ## One place changes -/

/-- The path names a place where the item now stands, over nothing or a file over a file; everything
else is as it was. -/
structure Puts (p : Path) (item : Item) (place : Place) (fs fs' : FileSystem) : Prop where
  current : fs'.current = fs.current
  disk : fs'.disk = fs.disk
  before : fs.item? place = none ∨
    ∃ old new, fs.item? place = some (.file old) ∧ item = .file new
  item? : ∀ q, fs'.item? q = if q = place then some item else fs.item? q
  resolve : fs'.resolve p = .ok place

/-- Putting something over nothing, or a file over a file, removes nothing. -/
theorem extends_of_item? {fs fs' : FileSystem} {place : Place} {item : Item}
    (hcurrent : fs'.current = fs.current) (hdisk : fs'.disk = fs.disk)
    (hbefore : fs.item? place = none ∨
      ∃ old new, fs.item? place = some (.file old) ∧ item = .file new)
    (hitem : ∀ q, fs'.item? q = if q = place then some item else fs.item? q) : Extends fs fs' := by
  refine ⟨hcurrent, hdisk, fun q hq => ?_, fun q content hq => ?_⟩
  · rw [hitem, if_neg]
    · exact hq
    · rintro rfl
      rcases hbefore with hnone | ⟨old, new, hold, -⟩
      · rw [hnone] at hq
        cases hq
      · rw [hold] at hq
        cases hq
  · rw [hitem]
    by_cases heq : q = place
    · subst heq
      rcases hbefore with hnone | ⟨old, new, -, rfl⟩
      · rw [hnone] at hq
        cases hq
      · exact ⟨new, by rw [if_pos rfl]⟩
    · rw [if_neg heq]
      exact ⟨content, hq⟩

theorem Puts.toExtends {p : Path} {item : Item} {place : Place} {fs fs' : FileSystem}
    (h : Puts p item place fs fs') : Extends fs fs' :=
  extends_of_item? h.current h.disk h.before h.item?

/-- A file or an empty directory that is put into a slot. -/
theorem puts_of_slot {fs : FileSystem} {p : Path} {dots : FileFault} {slash : Option FileFault}
    {place : Place} {name : FileName} (hslot : fs.slot p dots slash = .ok (place, name)) {new : Entry}
    (hnamed : new.WellNamed) (hnew : new.children = [])
    (hbefore : fs.item? (place ++ [name.val]) = none ∨
      ∃ old content, fs.item? (place ++ [name.val]) = some (.file old) ∧ new.item = .file content)
    (hkind : slash.isSome ∨ new.item = .directory) :
    Puts p new.item (place ++ [name.val]) fs (fs.put place name new hnamed) := by
  obtain ⟨children, hget⟩ := of_slot_eq_ok hslot
  have hconcat : fs.item? (place ++ [name.val]) = (children.lookup name.val).map Entry.item :=
    Entry.item?_concat hget name.val
  have hfile : ∀ old, children.lookup name.val = some old → old.isDirectory = false := by
    intro old hold
    rw [hold, Option.map_some] at hconcat
    cases old with
    | file content => rfl
    | directory entries =>
      rcases hbefore with hnone | ⟨_, _, hsome, -⟩
      · rw [hconcat] at hnone
        cases hnone
      · rw [hconcat] at hsome
        cases hsome
  have hitem := Entry.item?_set hnew hget hfile
  have hext : Extends fs (fs.put place name new hnamed) := extends_of_item? rfl rfl hbefore hitem
  have hthere := hitem (place ++ [name.val])
  rw [if_pos rfl] at hthere
  exact ⟨rfl, rfl, hbefore, hitem, resolve_of_slot hslot hext hthere hkind⟩

theorem puts_of_makeDirectory {fs fs' : FileSystem} {p : Path} (h : fs.makeDirectory p = .ok fs') :
    ∃ place, Puts p .directory place fs fs' := by
  rw [makeDirectory] at h
  split at h
  · cases h
  · next place name hslot =>
    split at h
    · cases h
    · next habsent =>
      obtain rfl := Except.ok.inj h
      refine ⟨place ++ [name.val], puts_of_slot hslot Entry.wellNamed_empty rfl (.inl ?_) (.inr rfl)⟩
      rw [Bool.not_eq_true, Option.isSome_eq_false_iff, Option.isNone_iff_eq_none] at habsent
      rw [item?, Entry.item?, habsent]
      rfl

/-- What is written goes into the slot of its path, as much of it as the disk takes. -/
theorem puts_of_write_slot {fs : FileSystem} {p : Path} {place : Place} {name : FileName}
    (hslot : fs.slot p .isADirectory (some .isADirectory) = .ok (place, name)) (content : ByteArray)
    (hfile : ∀ children, fs.root.get? (place ++ [name.val]) ≠ some (.directory children)) :
    ∃ fs', fs.write p content = (fs', (fs.disk.store (place ++ [name.val]) content).2) ∧
      Puts p (.file (fs.disk.store (place ++ [name.val]) content).1) (place ++ [name.val]) fs fs' := by
  have hnamed := Entry.wellNamed_file (fs.disk.store (place ++ [name.val]) content).1
  refine ⟨fs.put place name _ hnamed, ?_, puts_of_slot hslot hnamed rfl ?_ (.inl rfl)⟩
  · rw [write, hslot]
    dsimp only
    split
    · next children hget => exact absurd hget (hfile children)
    · rfl
  · rw [item?, Entry.item?]
    cases hget : fs.root.get? (place ++ [name.val]) with
    | none => exact .inl rfl
    | some e =>
      cases e with
      | directory children => exact absurd hget (hfile children)
      | file old => exact .inr ⟨old, _, rfl, rfl⟩

/-- A path that is written leads to no slot for a file and nothing changes, or a file stands in its slot,
with all the bytes or, where the disk takes no more, with a first part of them. -/
theorem write_cases (fs : FileSystem) (p : Path) (content : ByteArray) :
    (∃ fault, fs.write p content = (fs, some fault)) ∨
    ∃ place name fs', fs.slot p .isADirectory (some .isADirectory) = .ok (place, name) ∧
      ((fs.write p content = (fs', none) ∧
          fs.disk.store (place ++ [name.val]) content = (content, none) ∧
          Puts p (.file content) (place ++ [name.val]) fs fs') ∨
        ∃ part fault, fs.write p content = (fs', some fault) ∧ IsPart part content ∧
          fs.disk.store (place ++ [name.val]) content = (part, some fault) ∧
          Puts p (.file part) (place ++ [name.val]) fs fs') := by
  cases hslot : fs.slot p .isADirectory (some .isADirectory) with
  | error fault => exact .inl ⟨fault, by rw [write, hslot]⟩
  | ok slot =>
    obtain ⟨place, name⟩ := slot
    by_cases hdir : ∃ children, fs.root.get? (place ++ [name.val]) = some (.directory children)
    · obtain ⟨children, hget⟩ := hdir
      exact .inl ⟨.isADirectory, by rw [write, hslot]; simp only [hget]⟩
    · obtain ⟨fs', hwrite, hputs⟩ := puts_of_write_slot hslot content (not_exists.1 hdir)
      refine .inr ⟨place, name, fs', rfl, ?_⟩
      rcases fs.disk.store_cases (place ++ [name.val]) content with hall | ⟨part, fault, hpart, hstore⟩
      · rw [hall] at hwrite hputs
        exact .inl ⟨hwrite, hall, hputs⟩
      · rw [hstore] at hwrite hputs
        exact .inr ⟨part, fault, hwrite, hpart, hstore, hputs⟩

section
variable {fs fs' : FileSystem} {p : Path} {content : ByteArray}

end

/-! ## Many places change -/

/-- The second file system is the first one but for files at places that the `written` paths name, and
for new directories at places that the `made` paths name. -/
structure Touches (written made : Path → Prop) (fs fs' : FileSystem) : Prop where
  current : fs'.current = fs.current
  disk : fs'.disk = fs.disk
  item? : ∀ place, fs'.item? place = fs.item? place ∨
    (fs.item? place ≠ some .directory ∧
      ∃ content t, fs'.item? place = some (.file content) ∧ written t ∧ fs'.resolve t = .ok place) ∨
    (fs.item? place = none ∧ fs'.item? place = some .directory ∧
      ∃ a, made a ∧ fs'.resolve a = .ok place)

/-- Nothing but new directories. -/
abbrev MakesOnly : (Path → Prop) → FileSystem → FileSystem → Prop := Touches fun _ => False

namespace Touches

variable {written made : Path → Prop} {fs fs' fs'' : FileSystem}

theorem refl (fs : FileSystem) : Touches written made fs fs :=
  ⟨rfl, rfl, fun _ => .inl rfl⟩

theorem toExtends (h : Touches written made fs fs') : Extends fs fs' := by
  refine ⟨h.current, h.disk, fun place hplace => ?_, fun place content hplace => ?_⟩
  · rcases h.item? place with hsame | ⟨hne, -⟩ | ⟨hnone, -⟩
    · exact hsame.trans hplace
    · exact absurd hplace hne
    · rw [hnone] at hplace
      cases hplace
  · rcases h.item? place with hsame | ⟨-, content', t, hnew, -⟩ | ⟨hnone, -⟩
    · exact ⟨content, hsame.trans hplace⟩
    · exact ⟨content', hnew⟩
    · rw [hnone] at hplace
      cases hplace

theorem mono (h : Touches written made fs fs') {written' made' : Path → Prop}
    (hwritten : ∀ t, written t → written' t) (hmade : ∀ a, made a → made' a) :
    Touches written' made' fs fs' := by
  refine ⟨h.current, h.disk, fun place => ?_⟩
  rcases h.item? place with hsame | ⟨hne, content, t, hnew, ht, hresolve⟩ |
    ⟨hnone, hnew, a, ha, hresolve⟩
  · exact .inl hsame
  · exact .inr (.inl ⟨hne, content, t, hnew, hwritten t ht, hresolve⟩)
  · exact .inr (.inr ⟨hnone, hnew, a, hmade a ha, hresolve⟩)

theorem trans (h : Touches written made fs fs') (h' : Touches written made fs' fs'') :
    Touches written made fs fs'' := by
  refine ⟨h'.current.trans h.current, h'.disk.trans h.disk, fun place => ?_⟩
  rcases h'.item? place with hsame' | ⟨hne', content, t, hnew, ht, hresolve⟩ |
    ⟨hnone', hnew, a, ha, hresolve⟩
  · -- what the first change left is what there is in the end
    rw [hsame']
    rcases h.item? place with hsame | ⟨hne, content, t, hnew, ht, hresolve⟩ |
      ⟨hnone, hnew, a, ha, hresolve⟩
    · exact .inl hsame
    · exact .inr (.inl ⟨hne, content, t, hnew, ht, h'.toExtends.resolve hresolve⟩)
    · exact .inr (.inr ⟨hnone, hnew, a, ha, h'.toExtends.resolve hresolve⟩)
  · refine .inr (.inl ⟨fun hdir => ?_, content, t, hnew, ht, hresolve⟩)
    exact hne' (h.toExtends.directory place hdir)
  · refine .inr (.inr ⟨?_, hnew, a, ha, hresolve⟩)
    rcases h.item? place with hsame | ⟨-, content, t, hfile, -⟩ | ⟨-, hdir, -⟩
    · exact hsame.symm.trans hnone'
    · rw [hfile] at hnone'
      cases hnone'
    · rw [hdir] at hnone'
      cases hnone'

/-- Where only directories are new, a file has kept its bytes. -/
theorem item?_of_makesOnly (h : MakesOnly made fs fs') {place : Place} {content : ByteArray}
    (hold : fs.item? place = some (.file content)) : fs'.item? place = some (.file content) := by
  rcases h.item? place with hsame | ⟨-, _, _, -, hwritten, -⟩ | ⟨habsent, -⟩
  · exact hsame.trans hold
  · exact hwritten.elim
  · rw [hold] at habsent
    cases habsent

end Touches

theorem Puts.touches {p : Path} {item : Item} {place : Place} {fs fs' : FileSystem}
    (h : Puts p item place fs fs') {written made : Path → Prop}
    (hfile : ∀ content, item = .file content → written p) (hdir : item = .directory → made p) :
    Touches written made fs fs' := by
  refine ⟨h.current, h.disk, fun q => ?_⟩
  rw [h.item?]
  by_cases hq : q = place
  · subst hq
    rw [if_pos rfl]
    cases item with
    | directory =>
      rcases h.before with hnone | ⟨old, new, -, hitem⟩
      · exact .inr (.inr ⟨hnone, rfl, p, hdir rfl, h.resolve⟩)
      · cases hitem
    | file content =>
      refine .inr (.inl ⟨fun hold => ?_, content, p, rfl, hfile content rfl, h.resolve⟩)
      rcases h.before with hnone | ⟨old, new, hsome, -⟩
      · rw [hnone] at hold
        cases hold
      · rw [hsome] at hold
        cases hold
  · rw [if_neg hq]
    exact .inl rfl

/-! ## Directories on the way -/

section
variable {fs fs' : FileSystem} {made : Path → Prop}

theorem makesOnly_of_makeDirectory {p : Path} (h : fs.makeDirectory p = .ok fs') (hp : made p) :
    MakesOnly made fs fs' := by
  obtain ⟨place, hputs⟩ := puts_of_makeDirectory h
  exact hputs.touches (fun _ hitem => by cases hitem) fun _ => hp

theorem isDirectory_of_makeDirectory {p : Path} (h : fs.makeDirectory p = .ok fs') :
    fs'.isDirectory p = true := by
  obtain ⟨place, hputs⟩ := puts_of_makeDirectory h
  exact isDirectory_iff.2 ⟨place, hputs.resolve, by rw [hputs.item?, if_pos rfl]⟩

theorem isDirectory_of_isThere {p : Path} {fault : FileFault} (h : fs.isThere p fault = true) :
    fs.isDirectory p = true := by
  rw [isThere, Bool.and_eq_true] at h
  exact h.2

/-- Going upward adds paths in front of those that are missing already. -/
theorem makeUpward_spec {missing outer missing' : List Path} (houter : ∀ p ∈ outer, made p)
    (h : fs.makeUpward missing outer = .ok (fs', missing')) :
    MakesOnly made fs fs' ∧ ∃ more, missing' = more ++ missing ∧ ∀ p ∈ more, made p := by
  induction outer generalizing missing with
  | nil =>
    obtain ⟨rfl, rfl⟩ := Prod.mk.inj (Except.ok.inj h)
    exact ⟨.refl fs, [], rfl, by simp⟩
  | cons p outer ih =>
    obtain ⟨hp, hrest⟩ := List.forall_mem_cons.1 houter
    rw [makeUpward] at h
    split at h
    · obtain ⟨rfl, rfl⟩ := Prod.mk.inj (Except.ok.inj h)
      exact ⟨.refl fs, [], rfl, by simp⟩
    · split at h
      · next files hmade =>
        obtain ⟨rfl, rfl⟩ := Prod.mk.inj (Except.ok.inj h)
        exact ⟨makesOnly_of_makeDirectory hmade hp, [], rfl, by simp⟩
      · split at h
        · obtain ⟨hmakes, more, rfl, hmore⟩ := ih hrest h
          refine ⟨hmakes, more ++ [p], by simp, fun q hq => ?_⟩
          rcases List.mem_append.1 hq with hq | hq
          · exact hmore q hq
          · exact List.mem_singleton.1 hq ▸ hp
        · split at h
          · obtain ⟨rfl, rfl⟩ := Prod.mk.inj (Except.ok.inj h)
            exact ⟨.refl fs, [], rfl, by simp⟩
          · cases h

theorem makesOnly_makeDownward {missing : List Path} (hmissing : ∀ p ∈ missing, made p)
    (fs : FileSystem) : MakesOnly made fs (fs.makeDownward missing).1 := by
  induction missing generalizing fs with
  | nil => exact .refl fs
  | cons p inner ih =>
    obtain ⟨hp, hinner⟩ := List.forall_mem_cons.1 hmissing
    rw [makeDownward]
    split
    · next files hmade => exact (makesOnly_of_makeDirectory hmade hp).trans (ih hinner files)
    · split
      · exact ih hinner fs
      · exact .refl fs

/-- Where going downward does not fail, all that was missing is there. -/
theorem isDirectory_of_makeDownward {missing : List Path}
    (h : fs.makeDownward missing = (fs', none)) : ∀ p ∈ missing, fs'.isDirectory p = true := by
  induction missing generalizing fs with
  | nil => simp
  | cons p inner ih =>
    have hfirst : ∀ files : FileSystem, files.isDirectory p = true →
        files.makeDownward inner = (fs', none) → fs'.isDirectory p = true := by
      intro files hdir hinner
      have hmakes : MakesOnly (fun _ => True) files (files.makeDownward inner).1 :=
        makesOnly_makeDownward (fun _ _ => trivial) files
      rw [hinner] at hmakes
      exact hmakes.toExtends.isDirectory hdir
    rw [makeDownward] at h
    split at h
    · next files hmade =>
      exact List.forall_mem_cons.2 ⟨hfirst files (isDirectory_of_makeDirectory hmade) h, ih h⟩
    · split at h
      · next hthere => exact List.forall_mem_cons.2 ⟨hfirst fs (isDirectory_of_isThere hthere) h, ih h⟩
      · cases h

end

/-- Making a directory with all above it makes nothing but directories at or above its path. -/
theorem makesOnly_makeDirectories (fs : FileSystem) (p : Path) :
    MakesOnly p.AtOrAbove fs (fs.makeDirectories p).1 := by
  rw [makeDirectories]
  split
  · next files missing hup =>
    have hancestors : ∀ a ∈ p.ancestors, p.AtOrAbove a :=
      fun a ha => Path.atOrAbove_of_mem_ancestorsFrom ha
    obtain ⟨hmakes, more, hmissing, hmore⟩ := makeUpward_spec hancestors hup
    rw [List.append_nil] at hmissing
    subst hmissing
    exact hmakes.trans (makesOnly_makeDownward hmore files)
  · exact .refl fs

theorem makeDirectories_of_parent?_eq_none {p : Path} (hp : p.parent? = none) (fs : FileSystem) :
    fs.makeDirectories p = (fs, none) := by
  obtain ⟨outer, houter⟩ := p.ancestors_eq_cons
  have hup : fs.makeUpward [] (p :: outer) = .ok (fs, []) := by
    rw [makeUpward, if_pos (by simp [hp])]
  rw [makeDirectories, houter, hup]
  rfl

/-- Where it does not fail, the directory is there; a path without a parent needs no making. -/
theorem isDirectory_of_makeDirectories {fs fs' : FileSystem} {p : Path}
    (h : fs.makeDirectories p = (fs', none)) (hp : p.parent?.isSome) : fs'.isDirectory p = true := by
  obtain ⟨outer, houter⟩ := p.ancestors_eq_cons
  have htext : p.text ≠ "" := by
    intro hempty
    have hpath : p = ⟨""⟩ := by
      cases p
      exact congrArg Path.mk hempty
    rw [hpath] at hp
    revert hp
    decide
  have hproper : ¬ (decide (p.text = "") || p.parent?.isNone) = true := by
    rw [Bool.or_eq_true, decide_eq_true_iff, not_or]
    exact ⟨htext, by simpa [Option.isSome_iff_ne_none] using hp⟩
  rw [makeDirectories, houter] at h
  split at h
  · next files missing hup =>
    rw [makeUpward, if_neg hproper] at hup
    split at hup
    · next made hmade =>
      obtain ⟨rfl, rfl⟩ := Prod.mk.inj (Except.ok.inj hup)
      obtain ⟨rfl, -⟩ := Prod.mk.inj h
      exact isDirectory_of_makeDirectory hmade
    · split at hup
      · have hall : ∀ a ∈ outer, True := fun _ _ => trivial
        obtain ⟨-, more, rfl, -⟩ := makeUpward_spec hall hup
        exact isDirectory_of_makeDownward h p (List.mem_append_right more List.mem_cons_self)
      · split at hup
        · next hthere =>
          obtain ⟨rfl, rfl⟩ := Prod.mk.inj (Except.ok.inj hup)
          obtain ⟨rfl, -⟩ := Prod.mk.inj h
          exact isDirectory_of_isThere hthere
        · cases hup
  · cases h

end FileSystem

end Stencil
