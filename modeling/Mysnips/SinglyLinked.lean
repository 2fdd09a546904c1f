import Mathlib.Data.List.Basic
import Mathlib.Logic.Function.Basic

/-! Singly linked lists in a heap of nodes. `Chain` relates the links and a head
pointer to the list of nodes that are visited, without a null pointer being
followed; each pointer operation has one lemma saying what it does to that list. -/
namespace Mysnips.SinglyLinked

/-- Following the links from `here` visits the listed nodes and ends at null. -/
def Chain {Node : Type*} (next : Node → Option Node) : Option Node → List Node → Prop
  | here, [] => here = none
  | here, node :: rest => here = some node ∧ Chain next (next node) rest

variable {Node : Type*} {next next' : Node → Option Node} {here : Option Node} {node : Node}
  {nodes rest : List Node}

@[simp] theorem chain_nil : Chain next here [] ↔ here = none := Iff.rfl

@[simp] theorem chain_cons : Chain next here (node :: rest) ↔
    here = some node ∧ Chain next (next node) rest := Iff.rfl

/-- Only the listed nodes matter. -/
theorem Chain.frame (chain : Chain next here nodes)
    (same : ∀ node ∈ nodes, next' node = next node) : Chain next' here nodes := by
  induction nodes generalizing here with
  | nil => exact chain
  | cons first rest ih =>
    obtain ⟨head, tail⟩ := chain
    refine ⟨head, ?_⟩
    rw [same first List.mem_cons_self]
    exact ih tail fun node listed => same node (List.mem_cons_of_mem first listed)

/-- A link of another node can be set. -/
theorem Chain.update [DecidableEq Node] (chain : Chain next here nodes) (apart : node ∉ nodes)
    (target : Option Node) : Chain (Function.update next node target) here nodes := by
  apply chain.frame
  intro other listed
  apply Function.update_of_ne
  rintro rfl
  exact apart listed

/-- A list that starts at a node has it as its first entry. -/
theorem Chain.of_some (chain : Chain next (some node) nodes) :
    ∃ rest, nodes = node :: rest ∧ Chain next (next node) rest := by
  cases nodes with
  | nil => cases chain
  | cons first rest =>
    obtain ⟨head, tail⟩ := chain
    cases head
    exact ⟨rest, rfl, tail⟩

/-- Following the links visits the nodes in one order only. -/
theorem Chain.unique {others : List Node} (chain : Chain next here nodes)
    (other : Chain next here others) : nodes = others := by
  induction nodes generalizing here others with
  | nil =>
    cases others with
    | nil => rfl
    | cons node others =>
      rw [chain_nil] at chain
      rw [chain] at other
      cases other.1
  | cons node nodes ih =>
    obtain ⟨rfl, rest⟩ := chain
    obtain ⟨others, rfl, tail⟩ := other.of_some
    rw [ih rest tail]

/-- The links behind a node visit the nodes that come behind it. -/
theorem Chain.behind {before : List Node} (chain : Chain next here (before ++ node :: rest)) :
    Chain next (next node) rest := by
  induction before generalizing here with
  | nil => exact chain.2
  | cons first before ih => exact ih chain.2

/-- The link of a listed node leads to a listed node. -/
theorem Chain.link_mem {target : Node} (chain : Chain next here nodes) (listed : node ∈ nodes)
    (link : next node = some target) : target ∈ nodes := by
  obtain ⟨before, after, rfl⟩ := List.append_of_mem listed
  have rest := chain.behind
  rw [link] at rest
  obtain ⟨others, rfl, -⟩ := rest.of_some
  simp

end Mysnips.SinglyLinked
