import Mysnips.BuddyAlloc

/-! The free lists of the buddy allocator. Every list operation turns linked lists
into linked lists and changes exactly one of them, because no block is linked
twice. -/
namespace Mysnips.BuddyAlloc
open LinkedList

/-- The nodes of every free list, in order; no node is in two places. -/
structure Linked (b : Buddy) (chain : Nat → List Nat) : Prop where
  chains : ∀ i < numLists, Chain b.heap 0 (b.lists i) (chain i)
  distinct : ∀ i < numLists, (chain i).Nodup
  apart : ∀ i < numLists, ∀ j < numLists, i ≠ j → ∀ a ∈ chain i, a ∉ chain j

/-- The same pool with other lists: neither the geometry nor the bit trees
changed. -/
structure SamePool (b b' : Buddy) : Prop where
  self : b'.self = b.self
  base : b'.base = b.base
  size : b'.size = b.size
  trees : b'.trees = b.trees
  numTrees : b'.numTrees = b.numTrees
  bits : b'.bits = b.bits

theorem SamePool.trans {b b' b'' : Buddy} (first : SamePool b b') (second : SamePool b' b'') :
    SamePool b b'' :=
  ⟨second.self.trans first.self, second.base.trans first.base, second.size.trans first.size,
    second.trees.trans first.trees, second.numTrees.trans first.numTrees,
    second.bits.trans first.bits⟩

namespace Linked

variable {b : Buddy} {chain : Nat → List Nat} {i : Nat}

theorem null_iff (linked : Linked b chain) (bound : i < numLists) :
    b.lists i = 0 ↔ chain i = [] := (linked.chains i bound).null_iff

/-- The head of a list is in no other list. -/
theorem head_apart (linked : Linked b chain) (bound : i < numLists) {j : Nat}
    (other : j < numLists) (different : j ≠ i) {a : Nat} (member : a ∈ chain j) :
    a ≠ b.lists i := by
  rintro rfl
  cases nodes : chain i with
  | nil =>
    have null := (linked.null_iff bound).mpr nodes
    exact (linked.chains j other).null_not_mem (null ▸ member)
  | cons first rest =>
    have head := linked.chains i bound
    rw [nodes] at head
    exact linked.apart j other i bound different _ member (by rw [nodes, head.1]; simp)

/-- `append` puts the block in front of its list. -/
theorem append (linked : Linked b chain) (bound : i < numLists) {a : Nat} (nonnull : a ≠ 0)
    (fresh : ∀ j < numLists, a ∉ chain j) :
    ∃ b', append b i a = some b' ∧ SamePool b b' ∧
      Linked b' (Function.update chain i (a :: chain i)) := by
  have pushed : (if b.lists i ≠ 0 then setPrev b.heap (b.lists i) a else b.heap) =
      if b.lists i = 0 then b.heap else setPrev b.heap (b.lists i) a := by
    by_cases null : b.lists i = 0 <;> simp [null]
  refine ⟨{ b with heap := pushFront b.heap (b.lists i) a,
                   lists := Function.update b.lists i a }, ?_, ⟨rfl, rfl, rfl, rfl, rfl, rfl⟩, ?_⟩
  · have inside : (0 : Int) ≤ (i : Int) ∧ (i : Int) < numLists := by omega
    simp only [BuddyAlloc.append, if_pos inside, Int.toNat_natCast, pushed]
    rfl
  · refine ⟨fun j other => ?_, fun j other => ?_, ?_⟩
    · by_cases same : j = i
      · subst same
        simpa using (linked.chains j other).pushFront (linked.distinct j other) nonnull (fresh j other)
      · simp only [Function.update_of_ne same]
        refine (linked.chains j other).frame fun node member => pushFront_ne ?_ ?_
        · exact linked.head_apart bound other same member
        · exact fun isNew => fresh j other (isNew ▸ member)
    · by_cases same : j = i
      · subst same
        simpa using ⟨fresh j other, linked.distinct j other⟩
      · simpa [same] using linked.distinct j other
    · intro j first k second different node member
      by_cases isJ : j = i <;> by_cases isK : k = i
      · exact absurd (isJ.trans isK.symm) different
      · subst isJ
        simp only [Function.update_self, List.mem_cons] at member
        rw [Function.update_of_ne isK]
        rcases member with rfl | member
        · exact fresh k second
        · exact linked.apart j first k second different node member
      · subst isK
        rw [Function.update_of_ne isJ] at member
        simp only [Function.update_self, List.mem_cons, not_or]
        exact ⟨fun isNew => fresh j first (isNew ▸ member),
          linked.apart j first k second different node member⟩
      · rw [Function.update_of_ne isJ] at member
        rw [Function.update_of_ne isK]
        exact linked.apart j first k second different node member

/-- Shortening one list keeps all of them linked. -/
private theorem shorten (linked : Linked b chain) {b' : Buddy}
    {nodes : List Nat} (subset : nodes.Sublist (chain i))
    (changed : Chain b'.heap 0 (b'.lists i) nodes)
    (others : ∀ j < numLists, j ≠ i → Chain b'.heap 0 (b'.lists j) (chain j)) :
    Linked b' (Function.update chain i nodes) := by
  have within : ∀ j a, a ∈ Function.update chain i nodes j → a ∈ chain j := by
    intro j a member
    by_cases same : j = i
    · subst same
      rw [Function.update_self] at member
      exact subset.subset member
    · rwa [Function.update_of_ne same] at member
  refine ⟨fun j other => ?_, fun j other => ?_, ?_⟩
  · by_cases same : j = i
    · subst same
      simpa using changed
    · rw [Function.update_of_ne same]
      exact others j other same
  · by_cases same : j = i
    · subst same
      simpa using (linked.distinct j other).sublist subset
    · simpa [same] using linked.distinct j other
  · intro j first k second different a member inOther
    exact linked.apart j first k second different a (within j a member) (within k a inOther)

/-- `pop` takes the first block off its list. -/
theorem pop (linked : Linked b chain) (bound : i < numLists) {a : Nat} {rest : List Nat}
    (nodes : chain i = a :: rest) :
    ∃ b', pop b i = some (b', a) ∧ SamePool b b' ∧ Linked b' (Function.update chain i rest) := by
  have list := linked.chains i bound
  have distinct := linked.distinct i bound
  rw [nodes] at list distinct
  obtain ⟨head, nonnull, _, _⟩ := list
  have popped : (if (b.heap a).next ≠ 0 then setPrev b.heap (b.heap a).next 0 else b.heap) =
      popFront b.heap a := by
    unfold popFront
    by_cases null : (b.heap a).next = 0 <;> simp [null]
  refine ⟨{ b with heap := popFront b.heap a, lists := Function.update b.lists i (b.heap a).next },
    ?_, ⟨rfl, rfl, rfl, rfl, rfl, rfl⟩, ?_⟩
  · simp only [BuddyAlloc.pop, head, if_pos (And.intro bound nonnull), popped]
  · apply shorten linked (by rw [nodes]; exact List.sublist_cons_self a rest)
    · have shortened := (linked.chains i bound)
      rw [nodes] at shortened
      simpa [head] using shortened.popFront distinct
    · intro j other different
      simp only [Function.update_of_ne different]
      refine (linked.chains j other).frame fun node member => popFront_ne ?_
      rintro rfl
      -- the successor of the popped block is in its list or null
      have whole : Chain b.heap 0 (b.lists i) ([] ++ a :: rest) := by
        rw [List.nil_append, ← nodes]
        exact linked.chains i bound
      rcases whole.next_mem with null | inRest
      · exact (linked.chains j other).null_not_mem (null ▸ member)
      · exact linked.apart j other i bound different _ member (by rw [nodes]; simp [inRest])

/-- What `remove_sibling_from_list` computes. -/
private theorem remove_eq {ptr sibling : Nat}
    (isSibling : siblingOf ptr (1 <<< (i + minBlockLog2)) = some sibling) :
    removeSiblingFromList b i ptr = some { b with
      heap := unlink b.heap sibling
      lists := if (b.heap sibling).prev = 0 then
        Function.update b.lists i (b.heap sibling).next else b.lists } := by
  simp only [removeSiblingFromList, isSibling, Option.bind_eq_bind, Option.bind_some, unlink]
  by_cases first : (b.heap sibling).prev = 0
  · by_cases last : (b.heap sibling).next = 0 <;> simp [first, last]
  · simp only [first, ne_eq, not_false_eq_true, if_true, if_false]
    split <;> simp_all

/-- `remove_sibling_from_list` unlinks a member of the list, wherever it is. -/
theorem remove (linked : Linked b chain) (bound : i < numLists) {ptr sibling : Nat}
    (isSibling : siblingOf ptr (1 <<< (i + minBlockLog2)) = some sibling)
    (member : sibling ∈ chain i) :
    ∃ b' nodes, removeSiblingFromList b i ptr = some b' ∧ SamePool b b' ∧
      Linked b' (Function.update chain i nodes) ∧ ∀ a, a ∈ nodes ↔ a ∈ chain i ∧ a ≠ sibling := by
  obtain ⟨before, after, nodes⟩ := List.append_of_mem member
  have list := linked.chains i bound
  have distinct := linked.distinct i bound
  rw [nodes] at list distinct
  have null := list.null_not_mem
  have inList : ∀ a, a ∈ before ∨ a ∈ after → a ∈ chain i := by
    intro a side
    rw [nodes]
    rcases side with side | side <;> simp [side]
  have absent : sibling ∉ before ++ after :=
    (List.nodup_cons.mp (List.perm_middle.nodup_iff.mp distinct)).1
  have notSelf : (b.heap sibling).prev ≠ sibling := by
    intro same
    rcases list.prev_mem with zero | inBefore
    · exact null (by simp [← zero, same])
    · exact absent (List.mem_append_left _ (same ▸ inBefore))
  refine ⟨_, before ++ after, remove_eq isSibling, ⟨rfl, rfl, rfl, rfl, rfl, rfl⟩, ?_, ?_⟩
  · apply shorten linked
    · rw [nodes]
      exact (List.Sublist.refl before).append (List.sublist_cons_self sibling after)
    · have unlinked := list.unlink distinct null
      simp only [list.prev_null_iff]
      by_cases first : before = []
      · simpa [first] using unlinked
      · simpa [first] using unlinked
    · intro j other different
      have sameHead : (if (b.heap sibling).prev = 0 then
          Function.update b.lists i (b.heap sibling).next else b.lists) j = b.lists j := by
        split
        · exact Function.update_of_ne different _ _
        · rfl
      simp only [sameHead]
      refine (linked.chains j other).frame fun node inOther => unlink_ne notSelf ?_ ?_
      · rintro rfl
        rcases list.prev_mem with zero | inBefore
        · exact (linked.chains j other).null_not_mem (zero ▸ inOther)
        · exact linked.apart j other i bound different _ inOther (inList _ (Or.inl inBefore))
      · rintro rfl
        rcases list.next_mem with zero | inAfter
        · exact (linked.chains j other).null_not_mem (zero ▸ inOther)
        · exact linked.apart j other i bound different _ inOther (inList _ (Or.inr inAfter))
  · intro a
    rw [nodes]
    constructor
    · intro side
      refine ⟨by rcases List.mem_append.mp side with side | side <;> simp [side], ?_⟩
      rintro rfl
      exact absent side
    · rintro ⟨side, different⟩
      simpa [different] using side

end Linked

end Mysnips.BuddyAlloc
