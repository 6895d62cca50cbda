import Stencil.Proofs.Placeholder.Scan
/-!
# How a path is cut

The placeholders that the scanner finds cut a path into gaps and literals.  No placeholder starts inside
a gap, whatever follows the gap in the path, and there is only one way to cut a path so.

    Segmented cs segments last ↔ piecesFrom 0 cs = segments.flatMap Segment.pieces ++ last.map .plain
    Segmented cs segments last → Segmented cs segments' last' → segments' = segments ∧ last' = last
-/

namespace Stencil.Placeholder

/-! ## Cut texts -/

/-- A placeholder and the gap before it. -/
structure Segment where
  gap : List Char
  hole : Placeholder

def Segment.chars (s : Segment) : List Char := s.gap ++ s.hole.chars

def Segment.pieces (s : Segment) : List Piece := s.gap.map .plain ++ [.hole s.hole]

/-- No placeholder starts inside the gap, read with the text behind it. -/
def Free (gap behind : List Char) : Prop :=
  ∀ i < gap.length, ∀ p : Placeholder, p.Proper → ¬ p.chars <+: (gap ++ behind).drop i

/-- The text is cut into segments and a last gap. -/
inductive Segmented : List Char → List Segment → List Char → Prop where
  | last {gap : List Char} : Free gap [] → Segmented gap [] gap
  | segment {gap : List Char} {p : Placeholder} {cs : List Char} {segments : List Segment}
      {last : List Char} : p.Proper → Free gap (p.chars ++ cs) → Segmented cs segments last →
      Segmented (gap ++ (p.chars ++ cs)) (⟨gap, p⟩ :: segments) last

/-! ## Lemmas -/

theorem at?_eq_none_iff {cs : List Char} :
    at? cs = none ↔ ∀ p : Placeholder, p.Proper → ¬ p.chars <+: cs := by
  rw [Option.eq_none_iff_forall_ne_some]
  simp only [ne_eq, at?_eq_some_iff, not_and]

theorem free_nil (behind : List Char) : Free [] behind := fun i hi => absurd hi (Nat.not_lt_zero i)

theorem free_cons_iff {c : Char} {gap behind : List Char} :
    Free (c :: gap) behind ↔ at? (c :: (gap ++ behind)) = none ∧ Free gap behind := by
  rw [at?_eq_none_iff]
  constructor
  · intro h
    exact ⟨h 0 (Nat.zero_lt_succ _), fun i hi => h (i + 1) (Nat.succ_lt_succ hi)⟩
  · rintro ⟨hfirst, hrest⟩ i hi
    cases i with
    | zero => exact hfirst
    | succ i => exact hrest i (Nat.lt_of_succ_lt_succ hi)

/-- A gap is read character by character. -/
theorem piecesFrom_of_free {gap behind : List Char} (h : Free gap behind) :
    piecesFrom 0 (gap ++ behind) = gap.map .plain ++ piecesFrom 0 behind := by
  induction gap with
  | nil => rfl
  | cons c gap ih =>
    obtain ⟨hfirst, hrest⟩ := free_cons_iff.1 h
    rw [List.cons_append, piecesFrom_cons_plain hfirst, ih hrest]
    rfl

theorem Segmented.piecesFrom_eq {cs : List Char} {segments : List Segment} {last : List Char}
    (h : Segmented cs segments last) :
    piecesFrom 0 cs = segments.flatMap Segment.pieces ++ last.map .plain := by
  induction h with
  | @last gap hfree => simpa [piecesFrom] using piecesFrom_of_free hfree
  | segment hp hfree _ ih =>
    rw [piecesFrom_of_free hfree, piecesFrom_chars_append hp, ih]
    simp [Segment.pieces]

theorem Segmented.text_eq {cs : List Char} {segments : List Segment} {last : List Char}
    (h : Segmented cs segments last) : segments.flatMap Segment.chars ++ last = cs := by
  induction h with
  | last => rfl
  | segment _ _ _ ih => simp [Segment.chars, ← ih]

theorem Segmented.proper {cs : List Char} {segments : List Segment} {last : List Char}
    (h : Segmented cs segments last) : ∀ s ∈ segments, s.hole.Proper := by
  induction h with
  | last => exact fun s hs => absurd hs List.not_mem_nil
  | segment hp _ _ ih => exact List.forall_mem_cons.2 ⟨hp, ih⟩

/-- A character that starts no placeholder makes the first gap longer. -/
theorem Segmented.cons {c : Char} {cs : List Char} (hc : at? (c :: cs) = none)
    {segments : List Segment} {last : List Char} (h : Segmented cs segments last) :
    ∃ segments' last', Segmented (c :: cs) segments' last' := by
  cases h with
  | last hfree =>
    exact ⟨[], _, Segmented.last (free_cons_iff.2 ⟨by rwa [List.append_nil], hfree⟩)⟩
  | @segment gap p cs segments _ hp hfree hrest =>
    exact ⟨⟨c :: gap, p⟩ :: segments, last, .segment hp (free_cons_iff.2 ⟨hc, hfree⟩) hrest⟩

theorem exists_segmented (cs : List Char) : ∃ segments last, Segmented cs segments last := by
  -- on the length, since a placeholder takes several characters at once
  induction hn : cs.length using Nat.strongRecOn generalizing cs with
  | _ n ih =>
    cases cs with
    | nil => exact ⟨[], [], .last (free_nil [])⟩
    | cons c cs =>
      cases hread : at? (c :: cs) with
      | none =>
        obtain ⟨segments, last, hrest⟩ := ih cs.length (by rw [← hn, List.length_cons]; omega) cs rfl
        exact hrest.cons hread
      | some p =>
        obtain ⟨hp, rest, hcs⟩ := at?_eq_some_iff.1 hread
        have hlen : rest.length < n := by
          rw [← hn, ← hcs, List.length_append, chars_eq, List.length_cons]
          omega
        obtain ⟨segments, last, hrest⟩ := ih rest.length hlen rest rfl
        exact ⟨⟨[], p⟩ :: segments, last, hcs ▸ .segment hp (free_nil _) hrest⟩

/-- The segments of a list of pieces, and the gap behind them. -/
def cut : List Piece → List Segment × List Char
  | [] => ([], [])
  | .hole p :: pieces => (⟨[], p⟩ :: (cut pieces).1, (cut pieces).2)
  | .plain c :: pieces =>
    match cut pieces with
    | ([], last) => ([], c :: last)
    | (s :: segments, last) => ({ s with gap := c :: s.gap } :: segments, last)

theorem cut_map_plain (last : List Char) : cut (last.map .plain) = ([], last) := by
  induction last with
  | nil => rfl
  | cons c last ih => rw [List.map_cons, cut, ih]

theorem cut_segment (s : Segment) (pieces : List Piece) :
    cut (s.pieces ++ pieces) = (s :: (cut pieces).1, (cut pieces).2) := by
  obtain ⟨gap, p⟩ := s
  induction gap with
  | nil => rfl
  | cons c gap ih =>
    have hcons : Segment.pieces ⟨c :: gap, p⟩ = .plain c :: Segment.pieces ⟨gap, p⟩ := rfl
    rw [hcons, List.cons_append, cut, ih]

/-- The pieces tell where each gap ends. -/
theorem cut_pieces (segments : List Segment) (last : List Char) :
    cut (segments.flatMap Segment.pieces ++ last.map .plain) = (segments, last) := by
  induction segments with
  | nil => exact cut_map_plain last
  | cons s segments ih => rw [List.flatMap_cons, List.append_assoc, cut_segment, ih]

/-- There is one way to cut a text. -/
theorem segmented_iff {cs : List Char} {segments : List Segment} {last : List Char} :
    Segmented cs segments last ↔ cut (piecesFrom 0 cs) = (segments, last) := by
  constructor
  · intro h
    rw [h.piecesFrom_eq, cut_pieces]
  · intro h
    obtain ⟨segments', last', hcut⟩ := exists_segmented cs
    rw [hcut.piecesFrom_eq, cut_pieces] at h
    obtain ⟨rfl, rfl⟩ := Prod.mk.inj h
    exact hcut

theorem Segmented.holes_eq {cs : List Char} {segments : List Segment} {last : List Char}
    (h : Segmented cs segments last) : holes cs = segments.map (·.hole) := by
  have hpieces : ∀ s : Segment, s.pieces.filterMap Piece.hole? = [s.hole] := by
    intro s
    rw [Segment.pieces, List.filterMap_append, List.filterMap_map]
    simp [Function.comp_def, Piece.hole?]
  have hlast : (last.map Piece.plain).filterMap Piece.hole? = [] := by
    rw [List.filterMap_map]
    simp [Function.comp_def, Piece.hole?]
  rw [holes, h.piecesFrom_eq, List.filterMap_append, hlast, List.append_nil, List.filterMap_flatMap]
  simp only [hpieces]
  exact List.map_eq_flatMap.symm

/-! ## Top theorem -/

/-- The placeholders that are found are the literals of a cut of the path: each is a word of the grammar,
they and the gaps between them are the whole path, and nothing inside a gap starts another one.  There is
no other cut. -/
theorem scan_segmented (path : String) :
    ∃ segments last,
      Segmented path.toList segments last ∧
      path.toList = (segments.flatMap fun s => s.gap ++ s.hole.literal.toList) ++ last ∧
      (∀ s ∈ segments, s.hole.Proper) ∧
      scan path = segments.map (·.hole) ∧
      ∀ segments' last', Segmented path.toList segments' last' → segments' = segments ∧ last' = last := by
  obtain ⟨segments, last, hcut⟩ := exists_segmented path.toList
  refine ⟨segments, last, hcut, ?_, hcut.proper, hcut.holes_eq, fun segments' last' hcut' => ?_⟩
  · have hchars : Segment.chars = fun s => s.gap ++ s.hole.literal.toList :=
      funext fun s => by rw [Segment.chars, literal, String.toList_ofList]
    rw [← hchars, hcut.text_eq]
  · rw [segmented_iff] at hcut hcut'
    exact Prod.mk.inj (hcut'.symm.trans hcut)

/-- A delimiter that closes a placeholder opens no other one. -/
example : scan "%a%b%0.c%%00d.e%é%" = [⟨"a", 0, none⟩, ⟨"d", 2, some "e"⟩] := by decide +kernel

end Stencil.Placeholder
