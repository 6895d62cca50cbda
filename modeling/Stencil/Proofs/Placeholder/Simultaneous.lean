import Stencil.Proofs.Placeholder.Trace
/-!
# Filling at once

Turn after turn, a filling keeps to the occurrences that the scanner found exactly if no turn is
disturbed; then it does what filling all of them at once does.

    traced path b = simultaneous path b ↔ undisturbed path b
    undisturbed path b → filled b (bound path b) path.toList = atOnce path b
    separated b (pieces path) → undisturbed path b      (for values without delimiters)
-/

namespace Stencil.Placeholder

/-! ## All turns -/

/-- The open occurrences filled turn by turn. -/
def fillParts (b : Bindings) : Nat → List Placeholder → List Part → List Part
  | _, [], parts => parts
  | turn, p :: ps, parts => fillParts b (turn + 1) ps (parts.flatMap (Part.fill p (fresh b turn p)))

section
variable {b : Bindings}

theorem countBefore_fresh {turn k : Nat} (h : turn ≤ k) (p : Placeholder) :
    countBefore turn (fresh b k p) = 0 := by
  rw [countBefore, List.countP_eq_zero]
  intro c hc
  obtain ⟨x, -, rfl⟩ := List.mem_map.1 hc
  simp only [Origin.before, decide_eq_true_iff]
  omega

theorem before_of_mem_fill {turn : Nat} {parts : List Part} (hparts : ∀ part ∈ parts, part.Before turn)
    (p : Placeholder) :
    ∀ part ∈ parts.flatMap (Part.fill p (fresh b turn p)), part.Before (turn + 1) := by
  intro part hpart
  obtain ⟨part', hmem, hpart⟩ := List.mem_flatMap.1 hpart
  have hbefore := hparts part' hmem
  cases part' with
  | hole q =>
    rw [Part.fill] at hpart
    split at hpart
    · obtain ⟨c, hc, rfl⟩ := List.mem_map.1 hpart
      obtain ⟨x, -, rfl⟩ := List.mem_map.1 hc
      exact decide_eq_true (Nat.lt_succ_self turn)
    · obtain rfl := List.mem_singleton.1 hpart
      exact hbefore
  | cell c =>
    obtain rfl := List.mem_singleton.1 hpart
    rw [Part.Before] at hbefore ⊢
    cases horigin : c.origin with
    | hole q => rw [horigin] at hbefore; cases hbefore
    | path => rfl
    | value k =>
      rw [horigin, Origin.before, decide_eq_true_iff] at hbefore
      rw [Origin.before, decide_eq_true_iff]
      omega

/-- What is lost does not come back in later turns. -/
theorem countBefore_tracedFrom_le {turn k : Nat} (hk : turn ≤ k) (ps : List Placeholder)
    (cells : List Cell) : countBefore turn (tracedFrom b k ps cells) ≤ countBefore turn cells := by
  induction ps generalizing k cells with
  | nil => exact Nat.le_refl _
  | cons p ps ih =>
    have hturn := countBefore_replaceCells_le (p := p) (countBefore_fresh (b := b) hk p) 0 cells
    have hrest := ih (k := k + 1) (by omega) (replaceCells p (fresh b k p) 0 cells)
    rw [List.drop_zero] at hturn
    rw [tracedFrom]
    omega

theorem countBefore_fill_le (turn : Nat) (p : Placeholder) (new : List Cell) (parts : List Part) :
    countBefore turn (parts.flatMap Part.cells) ≤
      countBefore turn ((parts.flatMap (Part.fill p new)).flatMap Part.cells) := by
  induction parts with
  | nil => exact Nat.le_refl _
  | cons part parts ih =>
    rw [List.flatMap_cons, List.flatMap_cons, List.flatMap_append, countBefore_append,
      countBefore_append]
    cases part with
    | hole q =>
      have hhole : countBefore turn (Part.hole q).cells = 0 := countBefore_cellsFrom_hole turn q q.chars
      omega
    | cell c =>
      have hcell : (Part.fill p new (.cell c)).flatMap Part.cells = (Part.cell c).cells :=
        List.flatMap_singleton ..
      rw [hcell]
      omega

/-- Nothing is lost when only open occurrences are filled. -/
theorem countBefore_fillParts_le (turn k : Nat) (ps : List Placeholder) (parts : List Part) :
    countBefore turn (parts.flatMap Part.cells) ≤
      countBefore turn ((fillParts b k ps parts).flatMap Part.cells) := by
  induction ps generalizing k parts with
  | nil => exact Nat.le_refl _
  | cons p ps ih =>
    have hturn := countBefore_fill_le turn p (fresh b k p) parts
    have hrest := ih (k + 1) (parts.flatMap (Part.fill p (fresh b k p)))
    rw [fillParts]
    omega

/-- A filling keeps to the open occurrences exactly if no turn is disturbed. -/
theorem tracedFrom_eq_iff {ps : List Placeholder} (hps : ∀ p ∈ ps, p.Proper) {turn : Nat}
    {parts : List Part} (hparts : ∀ part ∈ parts, part.Before turn) :
    tracedFrom b turn ps (parts.flatMap Part.cells) = (fillParts b turn ps parts).flatMap Part.cells ↔
      undisturbedFrom b turn ps (parts.flatMap Part.cells) = true := by
  induction ps generalizing turn parts with
  | nil => simp [tracedFrom, fillParts, undisturbedFrom]
  | cons p ps ih =>
    obtain ⟨hp, hrest⟩ := List.forall_mem_cons.1 hps
    cases hhits : hitsOnlyHoles p 0 (parts.flatMap Part.cells) with
    | true =>
      rw [tracedFrom, undisturbedFrom, fillParts, hhits, Bool.true_and,
        replaceCells_parts hp hparts hhits]
      exact ih hrest (before_of_mem_fill hparts p)
    | false =>
      rw [undisturbedFrom, hhits, Bool.false_and]
      refine iff_of_false (fun heq => ?_) Bool.false_ne_true
      have hlost := countBefore_replaceCells_lt hp hparts (countBefore_fresh (b := b) (Nat.le_refl turn) p)
        hhits
      have hafter := countBefore_tracedFrom_le (b := b) (Nat.le_add_right turn 1) ps
        (replaceCells p (fresh b turn p) 0 (parts.flatMap Part.cells))
      have hkept := countBefore_fillParts_le (b := b) turn turn (p :: ps) parts
      rw [← heq, tracedFrom] at hkept
      omega

end

/-! ## A whole path -/

/-- A path as parts, its occurrences of bound placeholders open. -/
def partsOf (path : String) (b : Bindings) : List Part :=
  (pieces path).flatMap fun
    | .hole p =>
      if b.contains p.name then [.hole p] else (cellsFrom .path p.chars).map .cell
    | .plain c => [.cell ⟨c, .path⟩]

section
variable (path : String) (b : Bindings)

theorem cells_partsOf : (partsOf path b).flatMap Part.cells = opened path b := by
  rw [partsOf, opened, List.flatMap_assoc]
  refine List.flatMap_congr fun piece _ => ?_
  cases piece with
  | plain c => rfl
  | hole p =>
    dsimp only
    split
    · exact List.flatMap_singleton ..
    · exact cells_map_cell _

theorem before_of_mem_partsOf : ∀ part ∈ partsOf path b, part.Before 0 := by
  intro part hpart
  obtain ⟨piece, hpiece, hpart⟩ := List.mem_flatMap.1 hpart
  cases piece with
  | plain c =>
    obtain rfl := List.mem_singleton.1 hpart
    rfl
  | hole p =>
    dsimp only at hpart
    split at hpart
    · obtain rfl := List.mem_singleton.1 hpart
      exact proper_of_mem_piecesFrom hpiece
    · obtain ⟨c, hc, rfl⟩ := List.mem_map.1 hpart
      obtain ⟨x, -, rfl⟩ := List.mem_map.1 hc
      rfl

variable {b}

theorem fillParts_flatMap {α : Type} (turn : Nat) (ps : List Placeholder) (f : α → List Part)
    (xs : List α) : fillParts b turn ps (xs.flatMap f) = xs.flatMap fun x => fillParts b turn ps (f x) := by
  induction ps generalizing turn f with
  | nil => rfl
  | cons p ps ih =>
    rw [fillParts, List.flatMap_assoc, ih]
    rfl

theorem fillParts_cells (turn : Nat) (ps : List Placeholder) (cs : List Cell) :
    fillParts b turn ps (cs.map .cell) = cs.map .cell := by
  induction ps generalizing turn with
  | nil => rfl
  | cons p ps ih =>
    have hsame : (cs.map Part.cell).flatMap (Part.fill p (fresh b turn p)) = cs.map .cell := by
      rw [List.flatMap_map]
      exact List.flatMap_pure_eq_map ..
    rw [fillParts, hsame, ih]

/-- An open occurrence is filled at the first turn of its placeholder. -/
theorem fillParts_hole (turn : Nat) {ps : List Placeholder} {p : Placeholder} (h : p ∈ ps) :
    fillParts b turn ps [.hole p] = (fresh b (turn + ps.idxOf p) p).map .cell := by
  induction ps generalizing turn with
  | nil => cases h
  | cons q ps ih =>
    rw [fillParts, List.flatMap_singleton, Part.fill]
    by_cases hq : p = q
    · subst hq
      rw [if_pos rfl, fillParts_cells, List.idxOf_cons_self, Nat.add_zero]
    · rw [if_neg hq, ih (turn + 1) ((List.mem_cons.1 h).resolve_left hq),
        List.idxOf_cons_ne ps (Ne.symm hq), Nat.add_assoc, Nat.add_comm 1]

variable (b)

theorem cells_fillParts_partsOf :
    (fillParts b 0 (bound path b) (partsOf path b)).flatMap Part.cells = simultaneous path b := by
  rw [partsOf, fillParts_flatMap, simultaneous, List.flatMap_assoc]
  refine List.flatMap_congr fun piece hpiece => ?_
  cases piece with
  | plain c =>
    have hsame := fillParts_cells (b := b) 0 (bound path b) [⟨c, .path⟩]
    rw [List.map_singleton] at hsame
    dsimp only
    rw [hsame]
    rfl
  | hole p =>
    dsimp only
    split
    · next hbound =>
      have hmem : p ∈ bound path b := List.mem_filter.2 ⟨mem_scan_iff.2 hpiece, hbound⟩
      rw [fillParts_hole 0 hmem, Nat.zero_add, cells_map_cell]
    · rw [fillParts_cells, cells_map_cell]

/-- A filling is the simultaneous one exactly if it is undisturbed. -/
theorem traced_eq_iff : traced path b = simultaneous path b ↔ undisturbed path b = true := by
  have hps : ∀ p ∈ bound path b, p.Proper := fun p hp => proper_of_mem_bound hp
  have hiff := tracedFrom_eq_iff (b := b) hps (before_of_mem_partsOf path b)
  rw [cells_partsOf, cells_fillParts_partsOf] at hiff
  exact hiff

/-- The text with each occurrence of a bound placeholder replaced where the scanner found it. -/
def atOnce : List Char :=
  (pieces path).flatMap fun
    | .hole p => if b.contains p.name then textOf b p else p.chars
    | .plain c => [c]

theorem map_char_simultaneous : (simultaneous path b).map Cell.char = atOnce path b := by
  rw [simultaneous, atOnce, List.map_flatMap]
  refine List.flatMap_congr fun piece _ => ?_
  cases piece with
  | plain c => rfl
  | hole p =>
    dsimp only
    split
    · exact map_char_cellsFrom _ _
    · exact map_char_cellsFrom _ _

end

/-! ## Paths that are never disturbed -/

/-- No delimiter stands outside of bound placeholders, and what follows one of them, if anything, is a
character with which no placeholder goes on. -/
def separated (b : Bindings) : List Piece → Bool
  | [] => true
  | .plain c :: rest => c != '%' && separated b rest
  | .hole p :: rest =>
    b.contains p.name && separated b rest &&
      match rest with
      | [] => true
      | .plain c :: _ => !goesOn c
      | .hole _ :: _ => false

/-- The same of the parts of a text between two turns. -/
def Clear : List Part → Prop
  | [] => True
  | .cell c :: rest => c.char ≠ '%' ∧ Clear rest
  | .hole p :: rest =>
    p.Proper ∧ Clear rest ∧
      match rest with
      | [] => True
      | .cell c :: _ => goesOn c.char = false
      | .hole _ :: _ => False

theorem hitsOnlyHoles_of_clear {p : Placeholder} (hp : p.Proper) {parts : List Part}
    (h : Clear parts) : hitsOnlyHoles p 0 (parts.flatMap Part.cells) = true := by
  induction parts with
  | nil => rfl
  | cons part parts ih =>
    rw [List.flatMap_cons]
    cases part with
    | cell c =>
      obtain ⟨hc, hrest⟩ := h
      rw [Part.cells, List.singleton_append, hitsOnlyHoles_cons_of_miss (not_hits_of_ne hc _)]
      exact ih hrest
    | hole q =>
      obtain ⟨hq, hrest, hnext⟩ := h
      rw [Part.cells]
      by_cases heq : p = q
      · subst heq
        rw [hitsOnlyHoles_hole_self]
        exact ih hrest
      · have hmiss : p.hits (⟨'%', .hole q⟩ :: parts.flatMap Part.cells) = false := by
          rw [Bool.eq_false_iff]
          intro hhit
          obtain ⟨d, ds, hds, hd⟩ := hp.second_of_hit hhit
          cases parts with
          | nil => cases hds
          | cons next parts =>
            cases next with
            | hole r => exact hnext
            | cell c =>
              rw [List.flatMap_cons, Part.cells, List.singleton_append] at hds
              rw [← (List.cons.inj hds).1, hnext] at hd
              cases hd
        rw [hitsOnlyHoles_hole_of_ne hp hq heq, hitsOnlyHoles_cons_of_miss hmiss]
        exact ih hrest

theorem clear_cells_append {cs : List Cell} (hcs : ∀ c ∈ cs, c.char ≠ '%') {parts : List Part}
    (h : Clear parts) : Clear (cs.map .cell ++ parts) := by
  induction cs with
  | nil => exact h
  | cons c cs ih =>
    obtain ⟨hc, hrest⟩ := List.forall_mem_cons.1 hcs
    exact ⟨hc, ih hrest⟩

/-- A text without delimiters that fills an open occurrence leaves the rest as clear as it was. -/
theorem clear_fill {p : Placeholder} {new : List Cell} (hnew : ∀ c ∈ new, c.char ≠ '%')
    {parts : List Part} (h : Clear parts) : Clear (parts.flatMap (Part.fill p new)) := by
  induction parts with
  | nil => exact h
  | cons part parts ih =>
    rw [List.flatMap_cons]
    cases part with
    | cell c => exact ⟨h.1, ih h.2⟩
    | hole q =>
      obtain ⟨hq, hrest, hnext⟩ := h
      rw [Part.fill]
      split
      · exact clear_cells_append hnew (ih hrest)
      · refine ⟨hq, ih hrest, ?_⟩
        cases parts with
        | nil => exact hnext
        | cons next parts =>
          cases next with
          | hole r => cases hnext
          | cell c => exact hnext

theorem undisturbedFrom_of_clear {b : Bindings} {ps : List Placeholder} (hps : ∀ p ∈ ps, p.Proper)
    (htext : ∀ p ∈ ps, '%' ∉ textOf b p) {turn : Nat} {parts : List Part}
    (hparts : ∀ part ∈ parts, part.Before turn) (h : Clear parts) :
    undisturbedFrom b turn ps (parts.flatMap Part.cells) = true := by
  induction ps generalizing turn parts with
  | nil => rfl
  | cons p ps ih =>
    obtain ⟨hp, hrest⟩ := List.forall_mem_cons.1 hps
    obtain ⟨hfree, htexts⟩ := List.forall_mem_cons.1 htext
    have hnew : ∀ c ∈ fresh b turn p, c.char ≠ '%' := by
      intro c hc hchar
      obtain ⟨x, hx, rfl⟩ := List.mem_map.1 hc
      obtain rfl : x = '%' := hchar
      exact hfree hx
    have hhits := hitsOnlyHoles_of_clear hp h
    rw [undisturbedFrom, hhits, Bool.true_and, replaceCells_parts hp hparts hhits]
    exact ih hrest htexts (before_of_mem_fill hparts p) (clear_fill hnew h)

theorem clear_of_separated {b : Bindings} {ps : List Piece} (hps : ∀ p, .hole p ∈ ps → p.Proper)
    (h : separated b ps = true) :
    Clear (ps.flatMap fun
      | .hole p =>
        if b.contains p.name then [.hole p] else (cellsFrom .path p.chars).map .cell
      | .plain c => [.cell ⟨c, .path⟩]) := by
  induction ps with
  | nil => exact trivial
  | cons piece ps ih =>
    have hrest := fun hsep => ih (fun p hp => hps p (List.mem_cons_of_mem piece hp)) hsep
    rw [List.flatMap_cons]
    cases piece with
    | plain c =>
      rw [separated, Bool.and_eq_true, bne_iff_ne] at h
      exact ⟨h.1, hrest h.2⟩
    | hole p =>
      unfold separated at h
      rw [Bool.and_eq_true, Bool.and_eq_true] at h
      obtain ⟨⟨hbound, hsep⟩, hnext⟩ := h
      dsimp only
      rw [if_pos hbound]
      refine ⟨hps p List.mem_cons_self, hrest hsep, ?_⟩
      cases ps with
      | nil => exact trivial
      | cons next ps =>
        cases next with
        | hole q => cases hnext
        | plain c =>
          rw [Bool.not_eq_true'] at hnext
          exact hnext

/-- Values without delimiters fill a separated path at once. -/
theorem undisturbed_of_separated {path : String} {b : Bindings}
    (htext : ∀ p ∈ bound path b, '%' ∉ textOf b p) (h : separated b (pieces path) = true) :
    undisturbed path b = true := by
  rw [undisturbed, ← cells_partsOf]
  refine undisturbedFrom_of_clear (fun p hp => proper_of_mem_bound hp) htext
    (before_of_mem_partsOf path b) ?_
  exact clear_of_separated (fun p hp => proper_of_mem_piecesFrom hp) h

/-! ## Top theorem -/

/-- Where every bound placeholder has a text, the filling of a path ends with a text.  It is the path
with each occurrence replaced where the scanner found it, and no other character touched, exactly if
no turn of the filling hits anything but such occurrences. -/
theorem fillAll_bound {path : String} {b : Bindings}
    (hrender : ∀ p ∈ bound path b, Renders b p) :
    ∃ s, fillAll (bound path b) b path = .ok (some s) ∧
      s.toList = (traced path b).map Cell.char ∧
      (traced path b = simultaneous path b ↔ undisturbed path b = true) ∧
      (undisturbed path b = true → s.toList = atOnce path b) := by
  refine ⟨String.ofList (filled b (bound path b) path.toList), ?_, ?_, traced_eq_iff path b, fun h => ?_⟩
  · rw [fillAll_eq_ok_some_iff, String.toList_ofList]
    exact ⟨hrender, rfl⟩
  · rw [String.toList_ofList, map_char_traced]
  · rw [String.toList_ofList, ← map_char_traced, (traced_eq_iff path b).2 h, map_char_simultaneous]

theorem fillAll_bound_repeated :
    (∀ p ∈ bound "%a%-%u%.%a%" (.ofList [("a", .str "x")]), Renders (.ofList [("a", .str "x")]) p) ∧
      undisturbed "%a%-%u%.%a%" (.ofList [("a", .str "x")]) = true ∧
      ∃ s, fillAll (bound "%a%-%u%.%a%" (.ofList [("a", .str "x")])) (.ofList [("a", .str "x")])
          "%a%-%u%.%a%" = .ok (some s) ∧ s.toList = "x-%u%.x".toList := by
  have hrender : ∀ p ∈ bound "%a%-%u%.%a%" (.ofList [("a", .str "x")]),
      Renders (.ofList [("a", .str "x")]) p := by decide +kernel
  have hundisturbed : undisturbed "%a%-%u%.%a%" (.ofList [("a", .str "x")]) = true := by decide +kernel
  obtain ⟨s, hfill, -, -, honce⟩ := fillAll_bound hrender
  refine ⟨hrender, hundisturbed, s, hfill, ?_⟩
  rw [honce hundisturbed]
  decide +kernel

-- the literal of `b` is hit across the end of an unbound placeholder, which does not survive
example : (fillAll (bound "%b%-%u%b%" (.ofList [("b", .str "Y")])) (.ofList [("b", .str "Y")])
      "%b%-%u%b%").toOption = some (some "Y-%uY") ∧
    undisturbed "%b%-%u%b%" (.ofList [("b", .str "Y")]) = false ∧
    atOnce "%b%-%u%b%" (.ofList [("b", .str "Y")]) = "Y-%u%b%".toList := by decide +kernel

end Stencil.Placeholder
