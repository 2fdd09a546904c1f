import Mathlib.Data.List.Basic
import Mathlib.Data.List.Induction
import Mathlib.Logic.Function.Basic
import Mathlib.Tactic.Common

/-! Doubly linked lists in a heap of nodes addressed by numbers, 0 being the null
pointer. `Chain` relates the heap and a head pointer to the list of node
addresses; each pointer operation has one lemma saying what it does to that
list, and `Chain.frame` says that other nodes do not matter. -/
namespace Mysnips.LinkedList

/-- The two links of a node. -/
structure Node where
  prev : Nat
  next : Nat
  deriving DecidableEq, Repr

abbrev Heap := Nat → Node

def setPrev (heap : Heap) (node target : Nat) : Heap :=
  Function.update heap node { heap node with prev := target }

def setNext (heap : Heap) (node target : Nat) : Heap :=
  Function.update heap node { heap node with next := target }

/-- Following `next` from `here` visits the listed nodes and ends at null; the
first one points back to `back`, every other one to its predecessor. -/
def Chain (heap : Heap) : (back here : Nat) → List Nat → Prop
  | _, here, [] => here = 0
  | back, here, node :: rest =>
    here = node ∧ node ≠ 0 ∧ (heap node).prev = back ∧ Chain heap node (heap node).next rest

variable {heap heap' : Heap} {back here node : Nat} {nodes : List Nat}

@[simp] theorem chain_nil : Chain heap back here [] ↔ here = 0 := Iff.rfl

@[simp] theorem chain_cons {rest : List Nat} : Chain heap back here (node :: rest) ↔
    here = node ∧ node ≠ 0 ∧ (heap node).prev = back ∧ Chain heap node (heap node).next rest :=
  Iff.rfl

theorem setPrev_ne {target other : Nat} (different : other ≠ node) :
    setPrev heap node target other = heap other := Function.update_of_ne different _ _

theorem setNext_ne {target other : Nat} (different : other ≠ node) :
    setNext heap node target other = heap other := Function.update_of_ne different _ _

@[simp] theorem setPrev_self {target : Nat} :
    setPrev heap node target node = { heap node with prev := target } := Function.update_self _ _ _

@[simp] theorem setNext_self {target : Nat} :
    setNext heap node target node = { heap node with next := target } := Function.update_self _ _ _

/-- Only the listed nodes matter. -/
theorem Chain.frame (chain : Chain heap back here nodes)
    (same : ∀ node ∈ nodes, heap' node = heap node) : Chain heap' back here nodes := by
  induction nodes generalizing back here with
  | nil => exact chain
  | cons first rest ih =>
    obtain ⟨rfl, nonnull, prev, tail⟩ := chain
    refine ⟨rfl, nonnull, ?_, ?_⟩
    · rw [same _ (by simp)]
      exact prev
    · rw [same _ (by simp)]
      exact ih tail fun node member => same node (List.mem_cons_of_mem _ member)

/-- A heap and a head pointer have one list of nodes. -/
theorem Chain.unique {others : List Nat} (chain : Chain heap back here nodes)
    (other : Chain heap back here others) : nodes = others := by
  induction nodes generalizing back here others with
  | nil =>
    cases others with
    | nil => rfl
    | cons second _ => exact absurd (other.1.symm.trans chain) other.2.1
  | cons first rest ih =>
    cases others with
    | nil => exact absurd (chain.1.symm.trans other) chain.2.1
    | cons second others =>
      obtain ⟨rfl, _, _, tail⟩ := chain
      obtain ⟨rfl, _, _, tail'⟩ := other
      rw [ih tail tail']

theorem Chain.null_not_mem (chain : Chain heap back here nodes) : 0 ∉ nodes := by
  induction nodes generalizing back here with
  | nil => simp
  | cons first rest ih =>
    obtain ⟨_, nonnull, _, tail⟩ := chain
    simp only [List.mem_cons, not_or]
    exact ⟨Ne.symm nonnull, ih tail⟩

/-- The head pointer is null exactly for the empty list. -/
theorem Chain.null_iff (chain : Chain heap back here nodes) : here = 0 ↔ nodes = [] := by
  cases nodes with
  | nil => simpa using chain
  | cons first rest =>
    obtain ⟨rfl, nonnull, _, _⟩ := chain
    simp [nonnull]

/-- The first node gets another predecessor. -/
theorem Chain.redirect (chain : Chain heap back here nodes) (distinct : nodes.Nodup)
    (target : Nat) : Chain (if here = 0 then heap else setPrev heap here target) target here nodes := by
  cases nodes with
  | nil => exact chain
  | cons first rest =>
    obtain ⟨rfl, nonnull, _, tail⟩ := chain
    rw [if_neg nonnull]
    refine ⟨rfl, nonnull, by simp, ?_⟩
    simp only [setPrev_self]
    refine tail.frame fun node member => setPrev_ne ?_
    rintro rfl
    exact (List.nodup_cons.mp distinct).1 member

/-- Put a node in front of the list that starts at `head`. -/
def pushFront (heap : Heap) (head node : Nat) : Heap :=
  let heap := if head = 0 then heap else setPrev heap head node
  setNext (setPrev heap node 0) node head

theorem pushFront_ne {head other : Nat} (notHead : other ≠ head) (notNode : other ≠ node) :
    pushFront heap head node other = heap other := by
  unfold pushFront
  rw [setNext_ne notNode, setPrev_ne notNode]
  split
  · rfl
  · exact setPrev_ne notHead

theorem Chain.pushFront {head : Nat} (chain : Chain heap 0 head nodes) (distinct : nodes.Nodup)
    (nonnull : node ≠ 0) (fresh : node ∉ nodes) :
    Chain (pushFront heap head node) 0 node (node :: nodes) := by
  refine ⟨rfl, nonnull, by simp [LinkedList.pushFront], ?_⟩
  have next : (LinkedList.pushFront heap head node node).next = head := by
    simp [LinkedList.pushFront]
  rw [next]
  refine (chain.redirect distinct node).frame fun other member => ?_
  have different : other ≠ node := fun same => fresh (same ▸ member)
  simp only [LinkedList.pushFront]
  rw [setNext_ne different, setPrev_ne different]

/-- Take the node `head` off the front of its list. -/
def popFront (heap : Heap) (head : Nat) : Heap :=
  if (heap head).next = 0 then heap else setPrev heap (heap head).next 0

theorem popFront_ne {head other : Nat} (notNext : other ≠ (heap head).next) :
    popFront heap head other = heap other := by
  unfold popFront
  split
  · rfl
  · exact setPrev_ne notNext

theorem Chain.popFront {rest : List Nat} (chain : Chain heap 0 here (node :: rest))
    (distinct : (node :: rest).Nodup) : Chain (popFront heap here) 0 (heap here).next rest := by
  obtain ⟨rfl, _, _, tail⟩ := chain
  exact tail.redirect (List.nodup_cons.mp distinct).2 0

/-- Let the neighbours of a node point past it. -/
def unlink (heap : Heap) (node : Nat) : Heap :=
  let heap := if (heap node).prev = 0 then heap else setNext heap (heap node).prev (heap node).next
  if (heap node).next = 0 then heap else setPrev heap (heap node).next (heap node).prev

/-- The predecessor of a node, `back` for the first one. -/
theorem Chain.prev_eq {before after : List Nat}
    (chain : Chain heap back here (before ++ node :: after)) :
    (heap node).prev = before.getLastD back := by
  induction before generalizing back here with
  | nil => exact chain.2.2.1
  | cons first rest ih =>
    rw [ih chain.2.2.2]
    cases rest with
    | nil => rfl
    | cons second rest => simp [List.getLastD_eq_getLast?, List.getLast?_eq_some_getLast]

/-- A node of a list that starts behind null has the null predecessor exactly
when it is the first one; otherwise its predecessor is before it. -/
theorem Chain.prev_null_iff {before after : List Nat}
    (chain : Chain heap 0 here (before ++ node :: after)) : (heap node).prev = 0 ↔ before = [] := by
  have null := chain.null_not_mem
  rw [chain.prev_eq]
  cases before using List.reverseRecOn with
  | nil => simp
  | append_singleton before last =>
    have nonnull : last ≠ 0 := fun zero => null (by simp [zero])
    simp [nonnull]

theorem Chain.prev_mem {before after : List Nat}
    (chain : Chain heap 0 here (before ++ node :: after)) :
    (heap node).prev = 0 ∨ (heap node).prev ∈ before := by
  rw [chain.prev_eq]
  cases before using List.reverseRecOn with
  | nil => exact Or.inl rfl
  | append_singleton before last => simp

/-- The successor of a node. -/
theorem Chain.next_mem {before after : List Nat}
    (chain : Chain heap back here (before ++ node :: after)) :
    (heap node).next = 0 ∨ (heap node).next ∈ after := by
  induction before generalizing back here with
  | nil =>
    have tail := chain.2.2.2
    cases after with
    | nil => exact Or.inl tail
    | cons second rest => exact Or.inr (by simp [tail.1])
  | cons first rest ih => exact ih chain.2.2.2

/-- `unlink`, when the node is not its own predecessor. -/
private theorem unlink_eq (apart : (heap node).prev ≠ node) :
    unlink heap node =
      let bypassed := if (heap node).prev = 0 then heap
        else setNext heap (heap node).prev (heap node).next
      if (heap node).next = 0 then bypassed
      else setPrev bypassed (heap node).next (heap node).prev := by
  have own : (if (heap node).prev = 0 then heap
      else setNext heap (heap node).prev (heap node).next) node = heap node := by
    split
    · rfl
    · exact setNext_ne apart.symm
  unfold unlink
  simp only [own]

theorem unlink_ne {other : Nat} (apart : (heap node).prev ≠ node)
    (notPrev : other ≠ (heap node).prev) (notNext : other ≠ (heap node).next) :
    unlink heap node other = heap other := by
  rw [unlink_eq apart]
  simp only
  by_cases last : (heap node).next = 0 <;> by_cases first : (heap node).prev = 0 <;>
    simp only [last, first, if_true, if_false]
  · exact setNext_ne notPrev
  · exact setPrev_ne notNext
  · rw [setPrev_ne notNext, setNext_ne notPrev]

private theorem unlink_prev (apart : (heap node).prev ≠ node) (nonnull : (heap node).prev ≠ 0)
    (ends : (heap node).prev ≠ (heap node).next) :
    unlink heap node (heap node).prev =
      { heap (heap node).prev with next := (heap node).next } := by
  rw [unlink_eq apart]
  simp only [nonnull, if_false]
  split
  · exact setNext_self
  · rw [setPrev_ne ends, setNext_self]

private theorem unlink_next (apart : (heap node).prev ≠ node) (nonnull : (heap node).next ≠ 0)
    (ends : (heap node).prev ≠ (heap node).next) :
    unlink heap node (heap node).next =
      { heap (heap node).next with prev := (heap node).prev } := by
  rw [unlink_eq apart]
  simp only [nonnull, if_false, setPrev_self]
  split
  · rfl
  · rw [setNext_ne ends.symm]

/-- Unlinking a node of a chain leaves the chain of the other nodes. -/
theorem Chain.unlink {before after : List Nat}
    (chain : Chain heap back here (before ++ node :: after))
    (distinct : (before ++ node :: after).Nodup) (outside : back ∉ before ++ node :: after) :
    Chain (unlink heap node) back (if before = [] then (heap node).next else here)
      (before ++ after) := by
  induction before generalizing back here with
  | nil =>
    have notNode : back ≠ node := fun same => outside (by simp [same])
    have notAfter : back ∉ after := fun member => outside (by simp [member])
    obtain ⟨rfl, _, prev, tail⟩ := chain
    refine (tail.redirect (List.nodup_cons.mp distinct).2 back).frame fun other member => ?_
    have notBack : other ≠ back := fun same => notAfter (same ▸ member)
    have apart : (heap here).prev ≠ here := prev ▸ notNode
    by_cases isNext : other = (heap here).next
    · have nonnull : (heap here).next ≠ 0 := isNext ▸ fun null => tail.null_not_mem (null ▸ member)
      rw [isNext, unlink_next apart nonnull (by rw [prev, ← isNext]; exact notBack.symm),
        if_neg nonnull, setPrev_self, prev]
    · rw [unlink_ne apart (prev ▸ notBack) isNext]
      split
      · rfl
      · exact (setPrev_ne isNext).symm
  | cons first rest ih =>
    have whole := chain
    obtain ⟨rfl, nonnull, prev, tail⟩ := chain
    obtain ⟨fresh, distinctTail⟩ := List.nodup_cons.mp distinct
    have after' := ih tail distinctTail fresh
    have prevNode := Chain.prev_eq tail
    have nextNode := Chain.next_mem tail
    have notNext : here ≠ (heap node).next := by
      rintro same
      rcases nextNode with null | member
      · exact nonnull (same.trans null)
      · exact fresh (by simp [same, member])
    rw [if_neg (by simp)]
    cases rest with
    | nil =>
      have isPrev : (heap node).prev = here := prevNode
      have apart : (heap node).prev ≠ node := by
        rw [isPrev]
        rintro rfl
        exact fresh (by simp)
      have updated := unlink_prev apart (isPrev ▸ nonnull) (isPrev ▸ notNext)
      rw [isPrev] at updated
      refine ⟨rfl, nonnull, by rw [updated]; exact prev, ?_⟩
      rw [updated]
      exact after'
    | cons second rest =>
      have inRest : (heap node).prev ∈ second :: rest := by
        rw [prevNode, List.getLastD_eq_getLast?, List.getLast?_eq_some_getLast (by simp)]
        exact List.getLast_mem _
      have apart : (heap node).prev ≠ node := by
        intro same
        rw [same] at inRest
        exact (List.nodup_append.mp distinctTail).2.2 _ inRest node (by simp) rfl
      have kept : LinkedList.unlink heap node here = heap here := by
        refine unlink_ne apart ?_ notNext
        rintro same
        exact fresh (by rw [same]; exact List.mem_append_left _ inRest)
      refine ⟨rfl, nonnull, by rw [kept]; exact prev, ?_⟩
      rw [kept]
      rwa [if_neg (by simp)] at after'

/-- Append a node behind the last one of a chain. -/
theorem Chain.snoc {last : Nat} (chain : Chain heap back here (nodes ++ [last]))
    (distinct : (nodes ++ [last]).Nodup) (nonnull : node ≠ 0) (fresh : node ∉ nodes ++ [last]) :
    Chain (setNext (setPrev (setNext heap last node) node last) node 0) back here
      (nodes ++ [last, node]) := by
  induction nodes generalizing back here with
  | nil =>
    obtain ⟨rfl, lastNonnull, prev, _⟩ := chain
    have different : here ≠ node := fun same => fresh (by simp [same])
    have kept : setNext (setPrev (setNext heap here node) node here) node 0 here =
        { heap here with next := node } := by
      rw [setNext_ne different, setPrev_ne different, setNext_self]
    refine ⟨rfl, lastNonnull, by rw [kept]; exact prev, ?_⟩
    rw [kept]
    exact ⟨rfl, nonnull, by simp, by simp⟩
  | cons first rest ih =>
    obtain ⟨rfl, firstNonnull, prev, tail⟩ := chain
    obtain ⟨apart, distinctTail⟩ := List.nodup_cons.mp distinct
    have different : here ≠ node := fun same => fresh (by simp [same])
    have notLast : here ≠ last := fun same => apart (by simp [same])
    have kept : setNext (setPrev (setNext heap last node) node last) node 0 here = heap here := by
      rw [setNext_ne different, setPrev_ne different, setNext_ne notLast]
    refine ⟨rfl, firstNonnull, by rw [kept]; exact prev, ?_⟩
    rw [kept]
    exact ih tail distinctTail fun member => fresh (List.mem_cons_of_mem _ member)

end Mysnips.LinkedList
