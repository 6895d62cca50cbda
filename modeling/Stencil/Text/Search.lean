/-!
# Search in texts

Splitting a text at the first occurrence of a mark, and replacing every occurrence of a mark from
left to right.  Texts are lists of characters, so that each function follows the list.

    splitAtFirst mark cs = some (a, b) → cs = a ++ mark ++ b       (`eq_append_of_splitAtFirst`)
-/

namespace Stencil.Text

/-! ## Algorithm -/

/-- The parts before and after the first occurrence of `mark`. -/
def splitAtFirst (mark : List Char) : List Char → Option (List Char × List Char)
  | [] => if mark.isEmpty then some ([], []) else none
  | c :: cs =>
    if mark.isPrefixOf (c :: cs) then some ([], (c :: cs).drop mark.length)
    else (splitAtFirst mark cs).map fun (before, after) => (c :: before, after)

/-- Every occurrence of the non-empty `mark` becomes `fresh`; `skip` characters of an occurrence that
was already replaced are still to be passed over. -/
def replaceFrom (mark fresh : List Char) : Nat → List Char → List Char
  | _, [] => []
  | skip + 1, _ :: cs => replaceFrom mark fresh skip cs
  | 0, c :: cs =>
    if mark.isPrefixOf (c :: cs) then fresh ++ replaceFrom mark fresh (mark.length - 1) cs
    else c :: replaceFrom mark fresh 0 cs

/-- Every occurrence of `mark`, found from left to right without overlap, becomes `fresh`.  The empty
mark occurs before each character and at the end. -/
def replaceAll (mark fresh : List Char) (cs : List Char) : List Char :=
  if mark.isEmpty then fresh ++ cs.flatMap (fun c => c :: fresh) else replaceFrom mark fresh 0 cs

/-- Whether `mark` occurs in the text. -/
def occursIn (mark cs : List Char) : Bool := (splitAtFirst mark cs).isSome

/-- The pieces between the occurrences of one character. -/
def splitOnChar (sep : Char) : List Char → List (List Char)
  | [] => [[]]
  | c :: cs =>
    match splitOnChar sep cs with
    | [] => [[]]
    | piece :: pieces => if c = sep then [] :: piece :: pieces else (c :: piece) :: pieces

/-- The text after `mark`, if it starts with it. -/
def afterMark? (mark cs : List Char) : Option (List Char) :=
  if mark.isPrefixOf cs then some (cs.drop mark.length) else none

/-! ## Lemmas -/

theorem eq_append_drop_of_isPrefixOf {mark cs : List Char} (h : mark.isPrefixOf cs = true) :
    cs = mark ++ cs.drop mark.length := by
  obtain ⟨rest, rfl⟩ := List.isPrefixOf_iff_prefix.1 h
  simp

theorem eq_append_of_splitAtFirst {mark cs a b : List Char}
    (h : splitAtFirst mark cs = some (a, b)) : cs = a ++ mark ++ b := by
  induction cs generalizing a b with
  | nil =>
    cases mark with
    | nil => simp [splitAtFirst] at h; simp [h.1, h.2]
    | cons _ _ => simp [splitAtFirst] at h
  | cons c cs ih =>
    unfold splitAtFirst at h
    split at h
    · next hp =>
      simp only [Option.some.injEq, Prod.mk.injEq] at h
      obtain ⟨rfl, rfl⟩ := h
      simpa using eq_append_drop_of_isPrefixOf hp
    · obtain ⟨⟨a', b'⟩, hs, hab⟩ := Option.map_eq_some_iff.1 h
      simp only [Prod.mk.injEq] at hab
      obtain ⟨rfl, rfl⟩ := hab
      simpa using ih hs

theorem splitOnChar_ne_nil (sep : Char) (cs : List Char) : splitOnChar sep cs ≠ [] := by
  induction cs with
  | nil => simp [splitOnChar]
  | cons c cs ih =>
    unfold splitOnChar
    split
    · simp
    · split <;> simp

end Stencil.Text
