import Mathlib.Data.List.Basic
import Mathlib.Data.List.TakeWhile
import Stencil.Text.Blank
/-!
# Trimmed texts

A text is blanks, what trimming leaves, and blanks again; blanks around a text that neither starts nor
ends with one are trimmed away, and nothing else.

    ∃ w w', Blanks w ∧ Blanks w' ∧ cs = w ++ trim cs ++ w'              (`exists_blanks_trim`)
    Blanks w → Blanks w' → Tight a → trim (w ++ a ++ w') = a            (`trim_blanks_append`)
-/

namespace Stencil.Text

/-- Nothing but blanks. -/
def Blanks (cs : List Char) : Prop := ∀ c ∈ cs, isBlank c = true

theorem Blanks.append_left {b : List Char} (hb : Blanks b) {a : List Char} (ha : Blanks a) :
    Blanks (a ++ b) :=
  List.forall_mem_append.2 ⟨ha, hb⟩

/-- No blank stands at either end. -/
structure Tight (cs : List Char) : Prop where
  head : ∀ c, cs.head? = some c → isBlank c = false
  last : ∀ c, cs.getLast? = some c → isBlank c = false

theorem tight_of_not_blank {cs : List Char} (h : ∀ c ∈ cs, isBlank c = false) : Tight cs :=
  ⟨fun c hc => h c (List.mem_of_mem_head? hc), fun c hc => h c (List.mem_of_getLast? hc)⟩

/-- What stands between two tight texts does not matter. -/
theorem Tight.append {a b : List Char} (ha : Tight a) (hb : Tight b) (hane : a ≠ []) (hbne : b ≠ [])
    (mid : List Char) : Tight (a ++ mid ++ b) := by
  constructor
  · intro c hc
    rw [List.append_assoc, List.head?_append_of_ne_nil _ hane] at hc
    exact ha.head c hc
  · intro c hc
    rw [List.getLast?_append_of_ne_nil _ hbne] at hc
    exact hb.last c hc

theorem exists_blanks_trim (cs : List Char) :
    ∃ w w', Blanks w ∧ Blanks w' ∧ cs = w ++ trim cs ++ w' := by
  have hfront : cs.takeWhile isBlank ++ trimLeft cs = cs := List.takeWhile_append_dropWhile
  have hback : (trimLeft cs).reverse.takeWhile isBlank ++ (trimLeft cs).reverse.dropWhile isBlank =
      (trimLeft cs).reverse := List.takeWhile_append_dropWhile
  have hcore : trim cs ++ ((trimLeft cs).reverse.takeWhile isBlank).reverse = trimLeft cs := by
    rw [trim, trimRight, ← List.reverse_append, hback, List.reverse_reverse]
  refine ⟨cs.takeWhile isBlank, ((trimLeft cs).reverse.takeWhile isBlank).reverse, ?_, ?_, ?_⟩
  · intro c hc
    exact List.mem_takeWhile_imp hc
  · intro c hc
    exact List.mem_takeWhile_imp (List.mem_reverse.1 hc)
  · rw [List.append_assoc, hcore, hfront]

theorem trim_blanks_append {w a w' : List Char} (hw : Blanks w) (hw' : Blanks w') (ha : Tight a) :
    trim (w ++ a ++ w') = a := by
  have hback : ∀ c ∈ w'.reverse, isBlank c = true := fun c hc => hw' c (List.mem_reverse.1 hc)
  have hlast : a.reverse.dropWhile isBlank = a.reverse := by
    refine dropWhile_eq_self fun c hc => ha.last c ?_
    rwa [List.head?_reverse] at hc
  rw [trim, trimLeft, trimRight, List.append_assoc, List.dropWhile_append_of_pos hw]
  by_cases hnil : a = []
  · subst hnil
    -- nothing stops the trimming before the blanks at the end
    rw [List.nil_append, List.dropWhile_eq_nil_iff.2 hw']
    rfl
  · have hhead : (a ++ w').dropWhile isBlank = a ++ w' := by
      refine dropWhile_eq_self fun c hc => ha.head c ?_
      rwa [List.head?_append_of_ne_nil _ hnil] at hc
    rw [hhead, List.reverse_append, List.dropWhile_append_of_pos hback, hlast, List.reverse_reverse]

/-- A text without blanks stays as it is. -/
theorem trim_of_not_blank {cs : List Char} (h : ∀ c ∈ cs, isBlank c = false) : trim cs = cs := by
  have hnone : Blanks [] := by simp [Blanks]
  have htrim := trim_blanks_append hnone hnone (tight_of_not_blank h)
  simpa using htrim

end Stencil.Text
