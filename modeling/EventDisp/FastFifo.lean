import Mathlib.Data.List.Nodup

/-! `fast_fifo.h` as the sequence it stands for: the live nodes in push order,
each named by the address `push` returned. The links between the nodes, the
sentinel and the repair of `head_` and `tail_` are not represented here. -/
namespace EventDisp

/-- The live nodes, front first. No two live nodes share an address, and `new`
has not handed out the next one yet. -/
structure FastFifo (α : Type u) where
  nodes : List (Nat × α) := []
  nextNode : Nat := 0
  fresh : ∀ node ∈ nodes, node.1 < nextNode := by
    intro node member
    cases member
  distinct : (nodes.map Prod.fst).Nodup := by exact List.nodup_nil

namespace FastFifo

variable {α : Type u} {fifo popped : FastFifo α} {node : Nat}

/-- `FastFIFO::FastFIFO`: nothing but the sentinel. -/
def empty : FastFifo α := {}

/-- `FastFIFO::push`: a new node in front of the sentinel, and its address. -/
def push (fifo : FastFifo α) (data : α) : Nat × FastFifo α :=
  (fifo.nextNode,
    { nodes := fifo.nodes ++ [(fifo.nextNode, data)]
      nextNode := fifo.nextNode + 1
      fresh := by
        intro node member
        rcases List.mem_append.mp member with old | new
        · have := fifo.fresh node old
          omega
        · simp [List.mem_singleton.mp new]
      distinct := by
        simp only [List.map_append, List.map_cons, List.map_nil]
        apply fifo.distinct.append (by simp)
        intro address old new
        obtain ⟨node, member, rfl⟩ := List.mem_map.mp old
        have := fifo.fresh node member
        have := List.mem_singleton.mp new
        omega })

/-- `FastFIFO::removeNode`. Handing in a node that is not in the queue is the
misuse its warning is about, and has no defined result. -/
def removeNode (fifo : FastFifo α) (node : Nat) : Option (FastFifo α) :=
  if node ∈ fifo.nodes.map Prod.fst then
    some
      { nodes := fifo.nodes.filter fun entry => entry.1 ≠ node
        nextNode := fifo.nextNode
        fresh := fun entry member => fifo.fresh entry (List.mem_filter.mp member).1
        distinct := (List.filter_sublist.map _).nodup fifo.distinct }
  else none

/-- `FastFIFO::pop`: the data at the front and the queue without it. -/
def pop (fifo : FastFifo α) : Option (α × FastFifo α) :=
  match h : fifo.nodes with
  | [] => none
  | head :: rest =>
    some (head.2,
      { nodes := rest
        nextNode := fifo.nextNode
        fresh := fun entry member => fifo.fresh entry (h ▸ List.mem_cons_of_mem _ member)
        distinct := by
          have distinct := fifo.distinct
          rw [h, List.map_cons] at distinct
          exact distinct.of_cons })

@[simp] theorem push_node (data : α) : (fifo.push data).1 = fifo.nextNode := rfl

@[simp] theorem push_nodes (data : α) :
    (fifo.push data).2.nodes = fifo.nodes ++ [(fifo.nextNode, data)] := rfl

/-- Popping fails exactly when nothing is live, and otherwise takes the first
node away. -/
theorem pop_eq_none : fifo.pop = none ↔ fifo.nodes = [] := by
  unfold pop
  split <;> simp_all

theorem pop_eq_some {data : α} (took : fifo.pop = some (data, popped)) :
    ∃ address, fifo.nodes = (address, data) :: popped.nodes := by
  unfold pop at took
  split at took
  · cases took
  · rename_i head rest shape
    simp only [Option.some.injEq, Prod.mk.injEq] at took
    obtain ⟨rfl, rfl⟩ := took
    exact ⟨head.1, shape⟩

/-- Removing a live node keeps the order of all others. -/
theorem removeNode_nodes (removed : fifo.removeNode node = some popped) :
    popped.nodes = fifo.nodes.filter fun entry => entry.1 ≠ node := by
  unfold removeNode at removed
  split at removed
  · cases removed
    rfl
  · cases removed

theorem removeNode_isSome : (fifo.removeNode node).isSome ↔ node ∈ fifo.nodes.map Prod.fst := by
  unfold removeNode
  split <;> simp_all

/-- Two live nodes with one address are one node. -/
theorem node_unique {first second : α} (one : (node, first) ∈ fifo.nodes)
    (two : (node, second) ∈ fifo.nodes) :
    first = second := by
  have same := List.inj_on_of_nodup_map fifo.distinct one two rfl
  simpa using same

/-- Removing a node takes no node of other data away. -/
theorem removeNode_keeps {other : Nat} {gone kept : α}
    (removed : fifo.removeNode node = some popped) (one : (node, gone) ∈ fifo.nodes)
    (two : (other, kept) ∈ fifo.nodes) (different : kept ≠ gone) :
    (other, kept) ∈ popped.nodes := by
  rw [removeNode_nodes removed]
  refine List.mem_filter.mpr ⟨two, ?_⟩
  have elsewhere : other ≠ node := by
    rintro rfl
    exact different (node_unique two one)
  simpa using elsewhere

end FastFifo
end EventDisp
