import Mathlib.Data.List.Basic
import Stencil.Proofs.Placeholder.Filled
/-!
# Where filled characters come from

Filling searches a text that changes from turn to turn.  Here every character carries its origin: an
occurrence that the scanner found and that is still open, the rest of the path, or the text that came
in at some turn.  A search that only ever hits open occurrences is undisturbed, and then the turns
together fill every occurrence at once; any other hit destroys a character that belongs there.

    (traced path b).map char = filled b (bound path b) path.toList
    traced path b = simultaneous path b ↔ undisturbed path b
-/

namespace Stencil.Placeholder

/-! ## Algorithm -/

/-- Where a character comes from. -/
inductive Origin where
  /-- An occurrence of a bound placeholder that is not filled yet. -/
  | hole (p : Placeholder)
  /-- Any other part of the path. -/
  | path
  /-- The text that was put in at this turn. -/
  | value (turn : Nat)
deriving DecidableEq

/-- A character and its origin. -/
structure Cell where
  char : Char
  origin : Origin
deriving DecidableEq

/-- The characters with one origin. -/
def cellsFrom (origin : Origin) (cs : List Char) : List Cell := cs.map fun c => ⟨c, origin⟩

/-- Whether the text of the placeholder starts here, whatever its origin. -/
def hits (p : Placeholder) (cells : List Cell) : Bool := p.chars.isPrefixOf (cells.map Cell.char)

/-- Every hit from left to right becomes `fresh`, as in `Text.replaceFrom`. -/
def replaceCells (p : Placeholder) (fresh : List Cell) : Nat → List Cell → List Cell
  | _, [] => []
  | skip + 1, _ :: cells => replaceCells p fresh skip cells
  | 0, cell :: cells =>
    if p.hits (cell :: cells) then fresh ++ replaceCells p fresh (p.chars.length - 1) cells
    else cell :: replaceCells p fresh 0 cells

/-- Whether each of those hits is an open occurrence of the placeholder. -/
def hitsOnlyHoles (p : Placeholder) : Nat → List Cell → Bool
  | _, [] => true
  | skip + 1, _ :: cells => hitsOnlyHoles p skip cells
  | 0, cell :: cells =>
    if p.hits (cell :: cells) then
      cell.origin = .hole p && hitsOnlyHoles p (p.chars.length - 1) cells
    else hitsOnlyHoles p 0 cells

/-- What comes in for the placeholder at a turn. -/
def fresh (b : Bindings) (turn : Nat) (p : Placeholder) : List Cell :=
  cellsFrom (.value turn) (textOf b p)

/-- The turns of a filling. -/
def tracedFrom (b : Bindings) : Nat → List Placeholder → List Cell → List Cell
  | _, [], cells => cells
  | turn, p :: ps, cells => tracedFrom b (turn + 1) ps (replaceCells p (fresh b turn p) 0 cells)

/-- No turn hits anything but open occurrences. -/
def undisturbedFrom (b : Bindings) : Nat → List Placeholder → List Cell → Bool
  | _, [], _ => true
  | turn, p :: ps, cells =>
    hitsOnlyHoles p 0 cells && undisturbedFrom b (turn + 1) ps (replaceCells p (fresh b turn p) 0 cells)

/-- A path with its occurrences of bound placeholders open. -/
def opened (path : String) (b : Bindings) : List Cell :=
  (pieces path).flatMap fun
    | .hole p => cellsFrom (if b.contains p.name then .hole p else .path) p.chars
    | .plain c => [⟨c, .path⟩]

/-- The filling of a path by the placeholders that are bound in it. -/
def traced (path : String) (b : Bindings) : List Cell :=
  tracedFrom b 0 (bound path b) (opened path b)

def undisturbed (path : String) (b : Bindings) : Bool :=
  undisturbedFrom b 0 (bound path b) (opened path b)

/-- The path with each occurrence of a bound placeholder filled where the scanner found it, and every
other character unchanged. -/
def simultaneous (path : String) (b : Bindings) : List Cell :=
  (pieces path).flatMap fun
    | .hole p =>
      if b.contains p.name then fresh b ((bound path b).idxOf p) p else cellsFrom .path p.chars
    | .plain c => [⟨c, .path⟩]

/-! ## The characters alone -/

theorem map_char_cellsFrom (origin : Origin) (cs : List Char) :
    (cellsFrom origin cs).map Cell.char = cs := by
  rw [cellsFrom, List.map_map]
  exact List.map_id cs

theorem map_char_replaceCells (p : Placeholder) (new : List Cell) (skip : Nat) (cells : List Cell) :
    (replaceCells p new skip cells).map Cell.char =
      Text.replaceFrom p.chars (new.map Cell.char) skip (cells.map Cell.char) := by
  induction cells generalizing skip with
  | nil => cases skip <;> rfl
  | cons cell cells ih =>
    cases skip with
    | succ skip => exact ih skip
    | zero =>
      rw [replaceCells, List.map_cons, Text.replaceFrom, hits, List.map_cons]
      split
      · rw [List.map_append, ih]
      · rw [List.map_cons, ih]

theorem map_char_tracedFrom (b : Bindings) (turn : Nat) (ps : List Placeholder) (cells : List Cell) :
    (tracedFrom b turn ps cells).map Cell.char = filled b ps (cells.map Cell.char) := by
  induction ps generalizing turn cells with
  | nil => rfl
  | cons p ps ih =>
    rw [tracedFrom, ih, map_char_replaceCells, filled, Text.replaceAll_of_ne_nil p.chars_ne_nil, fresh,
      map_char_cellsFrom]

theorem map_char_opened (path : String) (b : Bindings) :
    (opened path b).map Cell.char = path.toList := by
  rw [opened, List.map_flatMap, ← flatMap_pieces path]
  refine List.flatMap_congr fun piece _ => ?_
  cases piece with
  | hole p => exact map_char_cellsFrom _ p.chars
  | plain c => rfl

/-- The trace is a trace of the text that the filling makes. -/
theorem map_char_traced (path : String) (b : Bindings) :
    (traced path b).map Cell.char = filled b (bound path b) path.toList := by
  rw [traced, map_char_tracedFrom, map_char_opened]

/-! ## One search -/

theorem replaceCells_eq_drop (p : Placeholder) (new : List Cell) (skip : Nat) (cells : List Cell) :
    replaceCells p new skip cells = replaceCells p new 0 (cells.drop skip) := by
  induction cells generalizing skip with
  | nil => cases skip <;> rfl
  | cons cell cells ih =>
    cases skip with
    | zero => rfl
    | succ skip =>
      rw [replaceCells, List.drop_succ_cons]
      exact ih skip

theorem hitsOnlyHoles_eq_drop (p : Placeholder) (skip : Nat) (cells : List Cell) :
    hitsOnlyHoles p skip cells = hitsOnlyHoles p 0 (cells.drop skip) := by
  induction cells generalizing skip with
  | nil => cases skip <;> rfl
  | cons cell cells ih =>
    cases skip with
    | zero => rfl
    | succ skip =>
      rw [hitsOnlyHoles, List.drop_succ_cons]
      exact ih skip

section
variable {p : Placeholder} {new : List Cell}

theorem replaceCells_cons_of_hit {cell : Cell} {cells : List Cell}
    (h : p.hits (cell :: cells) = true) : replaceCells p new 0 (cell :: cells) =
      new ++ replaceCells p new 0 (cells.drop (p.chars.length - 1)) := by
  rw [replaceCells, if_pos h, replaceCells_eq_drop]

theorem replaceCells_cons_of_miss {cell : Cell} {cells : List Cell}
    (h : p.hits (cell :: cells) = false) :
    replaceCells p new 0 (cell :: cells) = cell :: replaceCells p new 0 cells := by
  rw [replaceCells, h]
  rfl

theorem hitsOnlyHoles_cons_of_hit {cell : Cell} {cells : List Cell}
    (h : p.hits (cell :: cells) = true) : hitsOnlyHoles p 0 (cell :: cells) =
      (decide (cell.origin = .hole p) && hitsOnlyHoles p 0 (cells.drop (p.chars.length - 1))) := by
  rw [hitsOnlyHoles, if_pos h, hitsOnlyHoles_eq_drop]

theorem hitsOnlyHoles_cons_of_miss {cell : Cell} {cells : List Cell}
    (h : p.hits (cell :: cells) = false) :
    hitsOnlyHoles p 0 (cell :: cells) = hitsOnlyHoles p 0 cells := by
  rw [hitsOnlyHoles, h]
  rfl

/-- Every hit starts with a delimiter. -/
theorem not_hits_of_ne {cell : Cell} (h : cell.char ≠ '%') (cells : List Cell) :
    p.hits (cell :: cells) = false := by
  rw [hits, List.map_cons, chars_eq, List.isPrefixOf]
  simp [Ne.symm h]

/-- A stretch without delimiters is passed over. -/
theorem replaceCells_append_of_not_mem {cs : List Cell} (h : ∀ c ∈ cs, c.char ≠ '%')
    (rest : List Cell) : replaceCells p new 0 (cs ++ rest) = cs ++ replaceCells p new 0 rest := by
  induction cs with
  | nil => rfl
  | cons c cs ih =>
    obtain ⟨hc, hcs⟩ := List.forall_mem_cons.1 h
    rw [List.cons_append, replaceCells_cons_of_miss (not_hits_of_ne hc _), ih hcs]
    rfl

theorem hitsOnlyHoles_append_of_not_mem {cs : List Cell} (h : ∀ c ∈ cs, c.char ≠ '%')
    (rest : List Cell) : hitsOnlyHoles p 0 (cs ++ rest) = hitsOnlyHoles p 0 rest := by
  induction cs with
  | nil => rfl
  | cons c cs ih =>
    obtain ⟨hc, hcs⟩ := List.forall_mem_cons.1 h
    rw [List.cons_append, hitsOnlyHoles_cons_of_miss (not_hits_of_ne hc _), ih hcs]

theorem hits_cellsFrom_append (origin : Origin) (q : Placeholder) (rest : List Cell) :
    p.hits (cellsFrom origin q.chars ++ rest) = p.chars.isPrefixOf (q.chars ++ rest.map Cell.char) := by
  rw [hits, List.map_append, map_char_cellsFrom]

/-- An open occurrence is its first character, a stretch without delimiters, and a delimiter. -/
theorem cellsFrom_chars (origin : Origin) (q : Placeholder) :
    cellsFrom origin q.chars = ⟨'%', origin⟩ :: (cellsFrom origin q.body ++ [⟨'%', origin⟩]) := by
  rw [chars_eq]
  simp [cellsFrom]

theorem Proper.ne_of_mem_body {q : Placeholder} (hq : q.Proper) (origin : Origin) :
    ∀ c ∈ cellsFrom origin q.body, c.char ≠ '%' := by
  intro c hc hchar
  obtain ⟨x, hx, rfl⟩ := List.mem_map.1 hc
  obtain rfl : x = '%' := hchar
  exact hq.delimiter_not_mem_body hx

end

/-! ## One open occurrence -/

section
variable {p : Placeholder} {new : List Cell}

/-- The search fills an occurrence of its own placeholder. -/
theorem replaceCells_hole_self (rest : List Cell) :
    replaceCells p new 0 (cellsFrom (.hole p) p.chars ++ rest) =
      new ++ replaceCells p new 0 rest := by
  have hhit : p.hits (cellsFrom (.hole p) p.chars ++ rest) = true := by
    rw [hits_cellsFrom_append, List.isPrefixOf_iff_prefix]
    exact List.prefix_append _ _
  rw [cellsFrom_chars, List.cons_append] at hhit ⊢
  rw [replaceCells_cons_of_hit hhit, List.drop_left']
  simp [chars_eq, cellsFrom]

theorem hitsOnlyHoles_hole_self (rest : List Cell) :
    hitsOnlyHoles p 0 (cellsFrom (.hole p) p.chars ++ rest) = hitsOnlyHoles p 0 rest := by
  have hhit : p.hits (cellsFrom (.hole p) p.chars ++ rest) = true := by
    rw [hits_cellsFrom_append, List.isPrefixOf_iff_prefix]
    exact List.prefix_append _ _
  rw [cellsFrom_chars, List.cons_append] at hhit ⊢
  rw [hitsOnlyHoles_cons_of_hit hhit, List.drop_left']
  · simp
  · simp [chars_eq, cellsFrom]

variable {q : Placeholder} (hp : p.Proper) (hq : q.Proper)
include hp hq

theorem not_hits_of_ne_hole (hne : p ≠ q) (rest : List Cell) :
    p.hits (cellsFrom (.hole q) q.chars ++ rest) = false := by
  rw [Bool.eq_false_iff]
  intro hhit
  rw [hits_cellsFrom_append, List.isPrefixOf_iff_prefix] at hhit
  exact hne (hp.eq_of_prefix hq hhit)

/-- The search passes over an occurrence of another placeholder up to its closing delimiter. -/
theorem replaceCells_hole_of_ne (hne : p ≠ q) (rest : List Cell) :
    replaceCells p new 0 (cellsFrom (.hole q) q.chars ++ rest) =
      ⟨'%', .hole q⟩ :: (cellsFrom (.hole q) q.body ++
        replaceCells p new 0 (⟨'%', .hole q⟩ :: rest)) := by
  have hmiss := not_hits_of_ne_hole hp hq hne rest
  rw [cellsFrom_chars, List.cons_append, List.append_assoc, List.singleton_append] at hmiss ⊢
  rw [replaceCells_cons_of_miss hmiss, replaceCells_append_of_not_mem (hq.ne_of_mem_body _)]

theorem hitsOnlyHoles_hole_of_ne (hne : p ≠ q) (rest : List Cell) :
    hitsOnlyHoles p 0 (cellsFrom (.hole q) q.chars ++ rest) =
      hitsOnlyHoles p 0 (⟨'%', .hole q⟩ :: rest) := by
  have hmiss := not_hits_of_ne_hole hp hq hne rest
  rw [cellsFrom_chars, List.cons_append, List.append_assoc, List.singleton_append] at hmiss ⊢
  rw [hitsOnlyHoles_cons_of_miss hmiss, hitsOnlyHoles_append_of_not_mem (hq.ne_of_mem_body _)]

end

/-! ## Open occurrences and settled characters -/

/-- A part of a text between two turns. -/
inductive Part where
  | hole (p : Placeholder)
  | cell (c : Cell)

def Part.cells : Part → List Cell
  | .hole p => cellsFrom (.hole p) p.chars
  | .cell c => [c]

/-- The characters that were there before a turn and are not to be filled. -/
def Origin.before (turn : Nat) : Origin → Bool
  | .hole _ => false
  | .path => true
  | .value k => k < turn

/-- What the parts are like before a turn. -/
def Part.Before (turn : Nat) : Part → Prop
  | .hole p => p.Proper
  | .cell c => c.origin.before turn = true

/-- The part with an open occurrence of the placeholder filled. -/
def Part.fill (p : Placeholder) (new : List Cell) : Part → List Part
  | .hole q => if q = p then new.map .cell else [.hole q]
  | .cell c => [.cell c]

/-- How many characters are there from before a turn. -/
def countBefore (turn : Nat) (cells : List Cell) : Nat := cells.countP fun c => c.origin.before turn

theorem cells_map_cell (cs : List Cell) : (cs.map Part.cell).flatMap Part.cells = cs := by
  rw [List.flatMap_map]
  exact List.flatMap_singleton' cs

/-- The second character of a hit is the first one of a name or its zeros. -/
theorem Proper.second_of_hit {p : Placeholder} (hp : p.Proper) {c : Cell} {rest : List Cell}
    (h : p.hits (c :: rest) = true) : ∃ d ds, rest = d :: ds ∧ goesOn d.char = true := by
  obtain ⟨x, xs, hbody, hx⟩ := hp.body_eq_cons
  rw [hits, List.isPrefixOf_iff_prefix, chars_eq, hbody, List.map_cons, List.cons_append,
    List.cons_prefix_cons, List.cons_prefix_iff] at h
  obtain ⟨-, ds, hrest, -⟩ := h
  obtain ⟨d, ds', rfl, hd, -⟩ := List.map_eq_cons_iff.1 hrest
  exact ⟨d, ds', rfl, hd ▸ hx⟩

section
variable {p : Placeholder} {turn : Nat} {new : List Cell}

/-- An undisturbed search fills the open occurrences of its placeholder. -/
theorem replaceCells_parts (hp : p.Proper) {parts : List Part} (hparts : ∀ part ∈ parts, part.Before turn)
    (h : hitsOnlyHoles p 0 (parts.flatMap Part.cells) = true) :
    replaceCells p new 0 (parts.flatMap Part.cells) =
      (parts.flatMap (Part.fill p new)).flatMap Part.cells := by
  induction parts with
  | nil => rfl
  | cons part parts ih =>
    obtain ⟨hpart, hrest⟩ := List.forall_mem_cons.1 hparts
    rw [List.flatMap_cons] at h
    rw [List.flatMap_cons, List.flatMap_cons, List.flatMap_append]
    cases part with
    | hole q =>
      by_cases hq : q = p
      · subst hq
        rw [Part.cells, hitsOnlyHoles_hole_self] at h
        rw [Part.cells, replaceCells_hole_self, ih hrest h, Part.fill, if_pos rfl, cells_map_cell]
      · rw [Part.cells, hitsOnlyHoles_hole_of_ne hp hpart (Ne.symm hq)] at h
        have hmiss : p.hits (⟨'%', .hole q⟩ :: parts.flatMap Part.cells) = false := by
          rw [Bool.eq_false_iff]
          intro hhit
          rw [hitsOnlyHoles_cons_of_hit hhit, Bool.and_eq_true, decide_eq_true_iff] at h
          exact hq (Origin.hole.inj h.1)
        rw [hitsOnlyHoles_cons_of_miss hmiss] at h
        rw [Part.cells, replaceCells_hole_of_ne hp hpart (Ne.symm hq), replaceCells_cons_of_miss hmiss,
          ih hrest h, Part.fill, if_neg hq, List.flatMap_singleton, Part.cells, cellsFrom_chars]
        simp
    | cell c =>
      have hmiss : p.hits (c :: parts.flatMap Part.cells) = false := by
        rw [Bool.eq_false_iff]
        intro hhit
        rw [Part.cells, List.singleton_append, hitsOnlyHoles_cons_of_hit hhit, Bool.and_eq_true,
          decide_eq_true_iff] at h
        have hbefore : c.origin.before turn = true := hpart
        rw [h.1] at hbefore
        cases hbefore
      rw [Part.cells, List.singleton_append, hitsOnlyHoles_cons_of_miss hmiss] at h
      rw [Part.cells, List.singleton_append, replaceCells_cons_of_miss hmiss, ih hrest h, Part.fill,
        List.flatMap_singleton, Part.cells, List.singleton_append]

/-- A search brings no characters from before. -/
theorem countBefore_replaceCells_le (hnew : countBefore turn new = 0) (skip : Nat) (cells : List Cell) :
    countBefore turn (replaceCells p new skip cells) ≤ countBefore turn (cells.drop skip) := by
  induction cells generalizing skip with
  | nil => cases skip <;> exact Nat.zero_le _
  | cons cell cells ih =>
    cases skip with
    | succ skip => exact ih skip
    | zero =>
      rw [replaceCells, List.drop_zero]
      split
      · have hrest := ih (p.chars.length - 1)
        have hdrop : countBefore turn (cells.drop (p.chars.length - 1)) ≤ countBefore turn cells :=
          (List.drop_sublist _ _).countP_le
        have hcons : countBefore turn cells ≤ countBefore turn (cell :: cells) :=
          (List.sublist_cons_self _ _).countP_le
        rw [countBefore, List.countP_append, ← countBefore, ← countBefore, hnew]
        omega
      · have hrest := ih 0
        rw [List.drop_zero] at hrest
        rw [countBefore, countBefore, List.countP_cons, List.countP_cons, ← countBefore, ← countBefore]
        omega

theorem countBefore_append (turn : Nat) (cs ds : List Cell) :
    countBefore turn (cs ++ ds) = countBefore turn cs + countBefore turn ds := List.countP_append

theorem countBefore_cellsFrom_hole (turn : Nat) (q : Placeholder) (cs : List Char) :
    countBefore turn (cellsFrom (.hole q) cs) = 0 := by
  rw [countBefore, List.countP_eq_zero]
  intro c hc
  obtain ⟨x, -, rfl⟩ := List.mem_map.1 hc
  exact Bool.false_ne_true

/-- A hit puts an end to all characters that it covers. -/
theorem countBefore_replaceCells_of_hit (hnew : countBefore turn new = 0)
    {c d : Cell} {ds : List Cell} (h : p.hits (c :: d :: ds) = true) :
    countBefore turn (replaceCells p new 0 (c :: d :: ds)) ≤ countBefore turn ds := by
  have hlen : p.chars.length - 1 = (p.body.length) + 1 := by
    rw [chars_eq, List.length_cons, List.length_append, List.length_singleton]
    omega
  rw [replaceCells_cons_of_hit h, countBefore_append, hnew, Nat.zero_add, hlen, List.drop_succ_cons]
  have hle := countBefore_replaceCells_le (p := p) hnew 0 (ds.drop p.body.length)
  have hdrop : countBefore turn (ds.drop p.body.length) ≤ countBefore turn ds :=
    (List.drop_sublist _ _).countP_le
  rw [List.drop_zero] at hle
  omega

/-- Only a settled character at the start of parts can be the second one of a hit. -/
theorem before_of_head {parts : List Part} (hparts : ∀ part ∈ parts, part.Before turn) {d : Cell}
    {ds : List Cell} (h : parts.flatMap Part.cells = d :: ds) (hd : goesOn d.char = true) :
    d.origin.before turn = true := by
  cases parts with
  | nil => cases h
  | cons part parts =>
    cases part with
    | hole q =>
      rw [List.flatMap_cons, Part.cells, cellsFrom_chars, List.cons_append] at h
      rw [← (List.cons.inj h).1] at hd
      cases hd
    | cell c =>
      rw [List.flatMap_cons, Part.cells, List.singleton_append] at h
      rw [← (List.cons.inj h).1]
      exact hparts (.cell c) List.mem_cons_self

/-- An open occurrence of another placeholder has nothing to lose. -/
theorem countBefore_replaceCells_hole_of_ne (hp : p.Proper) {q : Placeholder} (hq : q.Proper)
    (hne : p ≠ q) (rest : List Cell) :
    countBefore turn (replaceCells p new 0 (cellsFrom (.hole q) q.chars ++ rest)) =
      countBefore turn (replaceCells p new 0 (⟨'%', .hole q⟩ :: rest)) := by
  rw [replaceCells_hole_of_ne hp hq hne, ← List.singleton_append, countBefore_append,
    countBefore_append, countBefore_cellsFrom_hole, Nat.zero_add]
  exact Nat.zero_add _

/-- A disturbed search loses characters that were to stay. -/
theorem countBefore_replaceCells_lt (hp : p.Proper) {parts : List Part}
    (hparts : ∀ part ∈ parts, part.Before turn) (hnew : countBefore turn new = 0)
    (h : hitsOnlyHoles p 0 (parts.flatMap Part.cells) = false) :
    countBefore turn (replaceCells p new 0 (parts.flatMap Part.cells)) <
      countBefore turn (parts.flatMap Part.cells) := by
  induction parts with
  | nil => cases h
  | cons part parts ih =>
    obtain ⟨hpart, hrest⟩ := List.forall_mem_cons.1 hparts
    rw [List.flatMap_cons] at h ⊢
    cases part with
    | hole q =>
      rw [Part.cells] at h ⊢
      rw [countBefore_append, countBefore_cellsFrom_hole, Nat.zero_add]
      by_cases hq : q = p
      · subst hq
        rw [hitsOnlyHoles_hole_self] at h
        rw [replaceCells_hole_self, countBefore_append, hnew, Nat.zero_add]
        exact ih hrest h
      · rw [hitsOnlyHoles_hole_of_ne hp hpart (Ne.symm hq)] at h
        rw [countBefore_replaceCells_hole_of_ne hp hpart (Ne.symm hq)]
        cases hhit : p.hits (⟨'%', .hole q⟩ :: parts.flatMap Part.cells) with
        | false =>
          rw [hitsOnlyHoles_cons_of_miss hhit] at h
          rw [replaceCells_cons_of_miss hhit, ← List.singleton_append, countBefore_append]
          have hlt := ih hrest h
          have hclosing : countBefore turn [⟨'%', .hole q⟩] = 0 := rfl
          omega
        | true =>
          -- the hit starts at the closing delimiter, so its second character is a settled one
          obtain ⟨d, ds, hds, hd⟩ := hp.second_of_hit hhit
          have hbefore := before_of_head hrest hds hd
          rw [hds] at hhit ⊢
          have hle := countBefore_replaceCells_of_hit hnew hhit
          have hcons : countBefore turn (d :: ds) = countBefore turn ds + 1 :=
            List.countP_cons_of_pos hbefore
          omega
    | cell c =>
      have hbefore : c.origin.before turn = true := hpart
      have hcons : countBefore turn (c :: parts.flatMap Part.cells) =
          countBefore turn (parts.flatMap Part.cells) + 1 := List.countP_cons_of_pos hbefore
      rw [Part.cells, List.singleton_append] at h ⊢
      cases hhit : p.hits (c :: parts.flatMap Part.cells) with
      | false =>
        rw [hitsOnlyHoles_cons_of_miss hhit] at h
        have hsame : countBefore turn (c :: replaceCells p new 0 (parts.flatMap Part.cells)) =
            countBefore turn (replaceCells p new 0 (parts.flatMap Part.cells)) + 1 :=
          List.countP_cons_of_pos hbefore
        have hlt := ih hrest h
        rw [replaceCells_cons_of_miss hhit]
        omega
      | true =>
        obtain ⟨d, ds, hds, -⟩ := hp.second_of_hit hhit
        rw [hds] at hhit hcons ⊢
        have hle := countBefore_replaceCells_of_hit hnew hhit
        have htail : countBefore turn ds ≤ countBefore turn (d :: ds) :=
          (List.sublist_cons_self _ _).countP_le
        omega

end

end Stencil.Placeholder
