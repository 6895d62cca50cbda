import Mathlib.Logic.Relation
import Stencil.Proofs.Tree.Grown
/-!
# Links of an arena

The numbers in the arena of a tree.  A node has its subtree right behind it, so its children are found
by the sizes of the subtrees before them, and the two links, up and down, say the same.

    Stands root number parent n: below this root the node has this number and this parent
    a.slots[number]? = some slot ↔ slot is that of a node that stands there
    (ofTree t).WellLinked
-/

namespace Stencil

open TemplateTree

/-! ## Algorithm -/

namespace TemplateTree

/-- Below this root a node has this number, and its parent has that one. -/
inductive Stands (root : Node) : Nat → Option Nat → Node → Prop where
  | root : Stands root 0 none root
  | child {number : Nat} {parent : Option Nat} {n : Node} {before : List Node} {c : Node}
    {after : List Node} (hn : Stands root number parent n) (hchildren : n.children = before ++ c :: after) :
    Stands root (number + 1 + sizeOfAll before) (some number) c

end TemplateTree

namespace Arena

/-- The number is among the children of the node with the other. -/
def Child (a : Arena) (parent child : Nat) : Prop :=
  ∃ slot, a.slots[parent]? = some slot ∧ child ∈ slot.children

/-- Down from a node by any number of children. -/
def Descends (a : Arena) : Nat → Nat → Prop := Relation.ReflTransGen a.Child

/-- The nodes are one tree, and each of their links is there in both directions. -/
structure WellLinked (a : Arena) : Prop where
  /-- Node 0 is the only one without a parent. -/
  parent_eq_none_iff : ∀ {number : Nat} {slot : Slot}, a.slots[number]? = some slot →
    (slot.parent = none ↔ number = 0)
  /-- A node is among the children of its parent once, and among those of no other node. -/
  count_children : ∀ {parent child : Nat} {slot slot' : Slot}, a.slots[parent]? = some slot →
    a.slots[child]? = some slot' →
      slot.children.count child = if slot'.parent = some parent then 1 else 0
  /-- A parent is there, before its children. -/
  parent_lt : ∀ {number parent : Nat} {slot : Slot}, a.slots[number]? = some slot →
    slot.parent = some parent → parent < number
  /-- All children are there. -/
  child_lt_size : ∀ {parent child : Nat}, a.Child parent child → child < a.size
  /-- What stands below one child of a node has lower numbers than the children after it. -/
  siblings : ∀ {number : Nat} {slot : Slot}, a.slots[number]? = some slot →
    slot.children.Pairwise fun first second => ∀ below, a.Descends first below → below < second

end Arena

namespace TemplateTree

/-! ## Numbers -/

theorem sizeOfAll_append (ns ms : List Node) :
    sizeOfAll (ns ++ ms) = sizeOfAll ns + sizeOfAll ms := by
  induction ns with
  | nil => exact (Nat.zero_add _).symm
  | cons n ns ih => rw [List.cons_append, sizeOfAll, sizeOfAll, ih, Nat.add_assoc]

theorem sizeOfAll_concat (ns : List Node) (n : Node) :
    sizeOfAll (ns ++ [n]) = sizeOfAll ns + sizeOfNode n := by
  rw [sizeOfAll_append, sizeOfAll, sizeOfAll, Nat.add_zero]

theorem sizeOfNode_eq (n : Node) : sizeOfNode n = sizeOfAll n.children + 1 := by
  cases n <;> rfl

theorem sizeOfNode_pos (n : Node) : 0 < sizeOfNode n := by
  rw [sizeOfNode_eq]
  exact Nat.succ_pos _

theorem listNode_eq_cons (parent : Option Nat) (number : Nat) (n : Node) :
    listNode parent number n =
      ⟨n, parent, numbersFrom (number + 1) n.children⟩ :: listAll number (number + 1) n.children := by
  cases n <;> rfl

theorem listAll_append (parent first : Nat) (ns ms : List Node) :
    listAll parent first (ns ++ ms) = listAll parent first ns ++ listAll parent (first + sizeOfAll ns) ms := by
  induction ns generalizing first with
  | nil => rfl
  | cons n ns ih =>
    rw [List.cons_append, listAll, listAll, ih, sizeOfAll, List.append_assoc, Nat.add_assoc]

theorem mem_numbersFrom_iff {first number : Nat} {ns : List Node} :
    number ∈ numbersFrom first ns ↔
      ∃ before c after, ns = before ++ c :: after ∧ number = first + sizeOfAll before := by
  induction ns generalizing first with
  | nil => simp [numbersFrom]
  | cons n ns ih =>
    rw [numbersFrom, List.mem_cons, ih]
    constructor
    · rintro (rfl | ⟨before, c, after, rfl, rfl⟩)
      · exact ⟨[], n, ns, rfl, rfl⟩
      · exact ⟨n :: before, c, after, rfl, by rw [sizeOfAll, Nat.add_assoc]⟩
    · rintro ⟨before, c, after, heq, rfl⟩
      cases before with
      | nil => exact .inl rfl
      | cons m before =>
        obtain ⟨rfl, rfl⟩ := List.cons.inj heq
        exact .inr ⟨before, c, after, rfl, by rw [sizeOfAll, Nat.add_assoc]⟩

/-- A number behind another leaves room for the subtree of that one. -/
theorem pairwise_numbersFrom (first : Nat) (ns : List Node) :
    (numbersFrom first ns).Pairwise fun number next =>
      ∃ before c after, ns = before ++ c :: after ∧ number = first + sizeOfAll before ∧
        number + sizeOfNode c ≤ next := by
  induction ns generalizing first with
  | nil => exact .nil
  | cons n ns ih =>
    rw [numbersFrom, List.pairwise_cons]
    constructor
    · intro next hnext
      obtain ⟨before, c, after, -, rfl⟩ := mem_numbersFrom_iff.1 hnext
      exact ⟨[], n, ns, rfl, rfl, Nat.le_add_right _ _⟩
    · refine (ih (first + sizeOfNode n)).imp ?_
      rintro number next ⟨before, c, after, heq, hnumber, hle⟩
      exact ⟨n :: before, c, after, by rw [heq]; rfl, by rw [hnumber, sizeOfAll, Nat.add_assoc], hle⟩

theorem nodup_numbersFrom (first : Nat) (ns : List Node) : (numbersFrom first ns).Nodup := by
  refine (pairwise_numbersFrom first ns).imp ?_
  rintro number next ⟨_, c, _, _, _, hle⟩ heq
  have := sizeOfNode_pos c
  omega

/-! ## Where nodes stand -/

section
variable {root : Node} {number : Nat} {parent : Option Nat} {n : Node}

/-- The subtree of a node is listed from its number on. -/
theorem Stands.listed (h : Stands root number parent n) :
    ∃ before after, listNode none 0 root = before ++ listNode parent number n ++ after ∧
      before.length = number := by
  induction h with
  | root => exact ⟨[], [], by simp, rfl⟩
  | @child number parent n befores c afters _ hchildren ih =>
    obtain ⟨before, after, hlist, hlength⟩ := ih
    have hparts : listNode parent number n =
        ⟨n, parent, numbersFrom (number + 1) n.children⟩ :: listAll number (number + 1) befores ++
          (listNode (some number) (number + 1 + sizeOfAll befores) c ++
            listAll number (number + 1 + sizeOfAll befores + sizeOfNode c) afters) := by
      rw [listNode_eq_cons, hchildren, listAll_append, listAll]
      rfl
    refine ⟨before ++ ⟨n, parent, numbersFrom (number + 1) n.children⟩ ::
      listAll number (number + 1) befores, listAll number (number + 1 + sizeOfAll befores + sizeOfNode c)
        afters ++ after, ?_, ?_⟩
    · rw [hlist, hparts]
      simp only [List.append_assoc]
    · rw [List.length_append, List.length_cons, Arena.length_listAll, hlength]
      omega

theorem Stands.getElem? (h : Stands root number parent n) :
    (listNode none 0 root)[number]? = some ⟨n, parent, numbersFrom (number + 1) n.children⟩ := by
  obtain ⟨before, after, hlist, rfl⟩ := h.listed
  rw [hlist, List.append_assoc, List.getElem?_append_right (Nat.le_refl _), Nat.sub_self,
    listNode_eq_cons]
  rfl

theorem Stands.size_le (h : Stands root number parent n) : number + sizeOfNode n ≤ sizeOfNode root := by
  obtain ⟨before, after, hlist, rfl⟩ := h.listed
  have hlength := congrArg List.length hlist
  rw [List.length_append, List.length_append, Arena.length_listNode, Arena.length_listNode] at hlength
  omega

theorem Stands.unique {parent' : Option Nat} {n' : Node} (h : Stands root number parent n)
    (h' : Stands root number parent' n') : parent' = parent ∧ n' = n := by
  have heq := h'.getElem?.symm.trans h.getElem?
  injection heq with heq
  injection heq with hn hparent
  exact ⟨hparent, hn⟩

theorem Stands.exists_child (h : Stands root number parent n) {child : Nat}
    (hchild : child ∈ numbersFrom (number + 1) n.children) :
    ∃ c ∈ n.children, Stands root child (some number) c := by
  obtain ⟨before, c, after, hchildren, rfl⟩ := mem_numbersFrom_iff.1 hchild
  refine ⟨c, ?_, h.child hchildren⟩
  rw [hchildren]
  exact List.mem_append_right before List.mem_cons_self

theorem Stands.mem_preorder (h : Stands root number parent n) : n ∈ root.preorder := by
  induction h with
  | root => exact mem_preorder_self root
  | child _ hchildren ih =>
    refine mem_preorder_of_child root ih ?_
    rw [hchildren]
    exact List.mem_append_right _ List.mem_cons_self

end

theorem exists_stands_of_children {root : Node} {first : Nat} {parent : Option Nat} {n : Node}
    (h : Stands root first parent n)
    (hchildren : ∀ number, first + 1 ≤ number → number < first + 1 + sizeOfAll n.children →
      ∃ p m, Stands root number p m) (number : Nat) (hle : first ≤ number)
    (hlt : number < first + sizeOfNode n) : ∃ p m, Stands root number p m := by
  rcases Nat.eq_or_lt_of_le hle with rfl | hlt'
  · exact ⟨parent, n, h⟩
  · rw [sizeOfNode_eq] at hlt
    apply hchildren <;> omega

mutual

/-- Every number in the range of a subtree has a node. -/
theorem exists_stands {root : Node} : ∀ (n : Node) {first : Nat} {parent : Option Nat},
    Stands root first parent n → ∀ number, first ≤ number → number < first + sizeOfNode n →
      ∃ p m, Stands root number p m
  | .file _ _, _, _, h => exists_stands_of_children h fun _ hle hlt => absurd hlt (Nat.not_lt.2 hle)
  | .directory _ _ children, _, _, h =>
    exists_stands_of_children h (exists_stands_children children h [] rfl)
  | .expanded _ _ children, _, _, h =>
    exists_stands_of_children h (exists_stands_children children h [] rfl)

theorem exists_stands_children {root : Node} : ∀ (ns : List Node) {first : Nat} {parent : Option Nat}
    {n : Node}, Stands root first parent n → ∀ before, n.children = before ++ ns →
      ∀ number, first + 1 + sizeOfAll before ≤ number →
        number < first + 1 + sizeOfAll before + sizeOfAll ns → ∃ p m, Stands root number p m
  | [], first, parent, n, h, before, hchildren, number, hle, hlt => by
    rw [sizeOfAll] at hlt
    omega
  | c :: ns, first, parent, n, h, before, hchildren, number, hle, hlt => by
    rw [sizeOfAll] at hlt
    by_cases hc : number < first + 1 + sizeOfAll before + sizeOfNode c
    · exact exists_stands c (h.child hchildren) number hle hc
    · have hsize := sizeOfAll_concat before c
      refine exists_stands_children ns h (before ++ [c]) ?_ number ?_ ?_
      · rw [hchildren, List.append_assoc]
        rfl
      · rw [hsize]
        omega
      · rw [hsize]
        omega

end

end TemplateTree

namespace Arena

/-! ## Slots -/

section
variable {t : TemplateTree}

theorem size_ofTree (t : TemplateTree) : (ofTree t).size = sizeOfNode t.root := by
  rw [size, ofTree, List.length_map, listing, length_listNode]

theorem slot_of_stands {number : Nat} {parent : Option Nat} {n : Node}
    (h : Stands t.root number parent n) :
    (ofTree t).slots[number]? =
      some ⟨n.source, n.kind, n.bindings, parent, numbersFrom (number + 1) n.children⟩ := by
  rw [ofTree, listing, List.getElem?_map, h.getElem?]
  rfl

/-- A slot is that of a node that stands there. -/
theorem exists_stands_of_slot {number : Nat} {slot : Slot} (h : (ofTree t).slots[number]? = some slot) :
    ∃ parent n, Stands t.root number parent n ∧
      slot = ⟨n.source, n.kind, n.bindings, parent, numbersFrom (number + 1) n.children⟩ := by
  have hlt : number < (ofTree t).size := (List.getElem?_eq_some_iff.1 h).1
  rw [size_ofTree] at hlt
  obtain ⟨parent, n, hn⟩ := exists_stands t.root .root number (Nat.zero_le _) (by rwa [Nat.zero_add])
  exact ⟨parent, n, hn, Option.some.inj (h.symm.trans (slot_of_stands hn))⟩

theorem child_iff {parent child : Nat} :
    (ofTree t).Child parent child ↔ ∃ c, Stands t.root child (some parent) c := by
  constructor
  · rintro ⟨slot, hslot, hmem⟩
    obtain ⟨p, n, hn, rfl⟩ := exists_stands_of_slot hslot
    obtain ⟨c, -, hc⟩ := hn.exists_child hmem
    exact ⟨c, hc⟩
  · rintro ⟨c, hc⟩
    cases hc with
    | child hn hchildren =>
      exact ⟨_, slot_of_stands hn, mem_numbersFrom_iff.2 ⟨_, _, _, hchildren, rfl⟩⟩

/-- All that stands below a node is within its subtree. -/
theorem lt_of_descends {number below : Nat} (h : (ofTree t).Descends number below) {parent : Option Nat}
    {n : Node} (hn : Stands t.root number parent n) : below < number + sizeOfNode n := by
  suffices hrange : ∃ p m, Stands t.root below p m ∧ below + sizeOfNode m ≤ number + sizeOfNode n by
    obtain ⟨p, m, -, hle⟩ := hrange
    have := sizeOfNode_pos m
    omega
  induction h with
  | refl => exact ⟨parent, n, hn, Nat.le_refl _⟩
  | tail _ hchild ih =>
    obtain ⟨p, m, hm, hle⟩ := ih
    obtain ⟨c, hc⟩ := child_iff.1 hchild
    cases hc with
    | @child _ _ m' before _ after hm' hchildren =>
      obtain ⟨-, rfl⟩ := hm.unique hm'
      refine ⟨_, c, hm.child hchildren, ?_⟩
      have hsize := sizeOfNode_eq m'
      rw [hchildren, sizeOfAll_append, sizeOfAll] at hsize
      omega

/-- The arena of a tree is linked as the tree is. -/
theorem wellLinked_ofTree (t : TemplateTree) : (ofTree t).WellLinked where
  parent_eq_none_iff h := by
    obtain ⟨parent, n, hn, rfl⟩ := exists_stands_of_slot h
    cases hn with
    | root => simp
    | child => simp
  count_children h h' := by
    obtain ⟨p, n, hn, rfl⟩ := exists_stands_of_slot h
    obtain ⟨p', n', hn', rfl⟩ := exists_stands_of_slot h'
    dsimp only
    rw [(nodup_numbersFrom _ n.children).count]
    refine if_congr ⟨fun hmem => ?_, fun hparent => ?_⟩ rfl rfl
    · obtain ⟨c, hc⟩ := child_iff.1 ⟨_, h, hmem⟩
      exact (hc.unique hn').1
    · rw [hparent] at hn'
      obtain ⟨slot, hslot, hmem⟩ := child_iff.2 ⟨n', hn'⟩
      rw [slot_of_stands hn] at hslot
      obtain rfl := Option.some.inj hslot
      exact hmem
  parent_lt h hparent := by
    obtain ⟨p, n, hn, rfl⟩ := exists_stands_of_slot h
    cases hn with
    | root => cases hparent
    | child => simp at hparent; omega
  child_lt_size h := by
    obtain ⟨c, hc⟩ := child_iff.1 h
    have hle := hc.size_le
    have hpos := sizeOfNode_pos c
    rw [size_ofTree]
    omega
  siblings h := by
    obtain ⟨p, n, hn, rfl⟩ := exists_stands_of_slot h
    refine (pairwise_numbersFrom _ n.children).imp ?_
    rintro first second ⟨before, c, after, hchildren, hnumber, hle⟩ below hbelow
    subst hnumber
    exact Nat.lt_of_lt_of_le (lt_of_descends hbelow (hn.child hchildren)) hle

end

end Arena

end Stencil
