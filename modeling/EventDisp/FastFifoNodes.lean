import Mathlib.Logic.Function.Basic
import EventDisp.FastFifo
import EventDisp.Fault
import EventDisp.General.Execution

/-! `fast_fifo.h` node by node: the links between the nodes, the sentinel, and the
repair of `head_` and `tail_`. It refines the sequence of its live nodes, in which form
the cache uses it. -/
namespace EventDisp.FastFifoNodes

open Execution

/-- `FastFIFONode`; `τ` is the type of the pointer to its data. -/
structure FastFifoNode (τ : Type) where
  data : τ
  before : Option Nat := none
  next : Option Nat := none
  deriving DecidableEq, Repr

/-- The pointers of a `FastFIFO`, the nodes they lead to, and the address of the next
node. The addresses of deleted nodes are not used again. -/
structure NodeFifo (τ : Type) where
  tail : Nat
  head : Nat
  heap : Nat → Option (FastFifoNode τ)
  nextNode : Nat

namespace NodeFifo

variable {τ : Type}

/-- `FastFIFO()`: a sentinel, both tail and head. -/
def fresh (null : τ) : NodeFifo τ where
  tail := 0
  head := 0
  heap := Function.update (fun _ => none) 0 (some { data := null })
  nextNode := 1

/-- The node at an address, as long as it has not been deleted. -/
def node (fifo : NodeFifo τ) (address : Nat) : Except Fault (FastFifoNode τ) :=
  match fifo.heap address with
  | some node => .ok node
  | none => .error .dangling

def set (fifo : NodeFifo τ) (address : Nat) (node : FastFifoNode τ) : NodeFifo τ :=
  { fifo with heap := Function.update fifo.heap address (some node) }

/-- An assignment to the `next` of a node, if there is one. -/
def link (fifo : NodeFifo τ) (address : Option Nat) (next : Nat) : Except Fault (NodeFifo τ) :=
  match address with
  | none => .ok fifo
  | some address => do
    let node ← fifo.node address
    return fifo.set address { node with next := some next }

/-- `delete node`. -/
def delete (fifo : NodeFifo τ) (address : Nat) : NodeFifo τ :=
  { fifo with heap := Function.update fifo.heap address none }

/-- `FastFIFO::push`. -/
def push (fifo : NodeFifo τ) (data : τ) : Except Fault (Nat × NodeFifo τ) := do
  let newNode := fifo.nextNode
  let last ← fifo.node fifo.tail
  let fifo :=
    { fifo with nextNode := newNode + 1 }.set newNode
      { data, before := last.before, next := some fifo.tail }
  let fifo ← fifo.link last.before newNode
  let last ← fifo.node fifo.tail
  let fifo := fifo.set fifo.tail { last with before := some newNode }
  return (newNode, if fifo.head = fifo.tail then { fifo with head := newNode } else fifo)

/-- `FastFIFO::removeNode`. -/
def removeNode (fifo : NodeFifo τ) : Option Nat → Except Fault (NodeFifo τ)
  | none => .error (.assertion .removeNodeGiven)
  | some node => do
    let removed ← fifo.node node
    match removed.next with
    | none => .error (.assertion .removeNodeFormed)
    | some next => do
      let fifo ← if removed.before.isNone then .ok { fifo with head := next } else fifo.link removed.before next
      let later ← fifo.node next
      return (fifo.set next { later with before := removed.before }).delete node

/-- `FastFIFO::pop`; it answers `none` for `false`. -/
def pop (fifo : NodeFifo τ) : Except Fault (Option τ × NodeFifo τ) :=
  if fifo.head ≠ fifo.tail then do
    let first ← fifo.node fifo.head
    let fifo ← fifo.removeNode (some fifo.head)
    return (some first.data, fifo)
  else return (none, fifo)

/-- The nodes met by following `next` up to `tail_`, as long as it is met within the given
number of steps. -/
def walk (fifo : NodeFifo τ) : Nat → Nat → Option (List (Nat × τ))
  | 0, address => if address = fifo.tail then some [] else none
  | steps + 1, address =>
    if address = fifo.tail then some []
    else
      match fifo.heap address with
      | none => none
      | some node =>
        match node.next with
        | none => none
        | some next => (walk fifo steps next).map ((address, node.data) :: ·)

end NodeFifo

variable {τ : Type} {heap other : Nat → Option (FastFifoNode τ)} {fifo after : NodeFifo τ}
  {sequence : FastFifo τ}
variable {first : Nat} {before last : Option Nat} {nodes front rest : List (Nat × τ)} {final : Nat}

/-- From one node on, the given nodes follow each other up to another node. -/
def Linked (heap : Nat → Option (FastFifoNode τ)) :
    (before : Option Nat) → (first : Nat) → List (Nat × τ) → (last : Option Nat) → (final : Nat) →
    Prop
  | before, first, [], last, final => before = last ∧ first = final
  | before, first, (address, data) :: rest, last, final =>
    first = address ∧ ∃ next, heap address = some ⟨data, before, some next⟩ ∧
    Linked heap (some address) next rest last final

theorem Linked.append : Linked heap before first (front ++ rest) last final ↔
    ∃ middle between, Linked heap before first front middle between ∧
    Linked heap middle between rest last final := by
  induction front generalizing before first with
  | nil =>
    constructor
    · exact fun linked => ⟨before, first, ⟨rfl, rfl⟩, linked⟩
    · rintro ⟨_, _, ⟨rfl, rfl⟩, linked⟩
      exact linked
  | cons head front ih =>
    simp only [List.cons_append, Linked, ih]
    constructor
    · rintro ⟨own, next, held, middle, between, one, two⟩
      exact ⟨middle, between, ⟨own, next, held, one⟩, two⟩
    · rintro ⟨middle, between, ⟨own, next, held, one⟩, two⟩
      exact ⟨own, next, held, middle, between, one, two⟩

/-- Only the nodes that are linked matter. -/
theorem Linked.congr (linked : Linked heap before first nodes last final)
    (same : ∀ node ∈ nodes, other node.1 = heap node.1) :
    Linked other before first nodes last final := by
  induction nodes generalizing before first with
  | nil => exact linked
  | cons head nodes ih =>
    obtain ⟨own, next, held, linked⟩ := linked
    exact ⟨own, next, (same head List.mem_cons_self).trans held, ih linked fun node member =>
      same node (List.mem_cons_of_mem _ member)⟩

/-- The last node is linked on to another one. -/
theorem Linked.relink {address : Nat} {data : τ} (on : Nat)
    (linked : Linked heap before first (front ++ [(address, data)]) last final)
    (distinct : ∀ node ∈ front, node.1 ≠ address) :
    last = some address ∧ ∃ node, heap address = some node ∧ node.data = data ∧
    node.next = some final ∧
      Linked (Function.update heap address (some { node with next := some on })) before first
      (front ++ [(address, data)])
        (some address) on := by
  obtain ⟨middle, between, one, own, next, held, same, reached⟩ := Linked.append.mp linked
  subst reached
  refine ⟨same.symm, _, held, rfl, rfl, Linked.append.mpr ⟨middle, between, one.congr ?_, own, on,
    ?_, rfl, rfl⟩⟩
  · intro node member
    exact Function.update_of_ne (distinct node member) ..
  · exact Function.update_self ..

/-- Around one of several nodes at different addresses. -/
theorem distinct_parts {address : Nat} {data : τ}
    (distinct : ((front ++ (address, data) :: rest).map Prod.fst).Nodup) :
    (∀ node ∈ front, node.1 ≠ address) ∧ (∀ node ∈ rest, node.1 ≠ address) ∧
      (∀ node ∈ front, ∀ later ∈ rest, node.1 ≠ later.1) ∧ (rest.map Prod.fst).Nodup := by
  rw [List.map_append, List.map_cons, List.nodup_append, List.nodup_cons] at distinct
  obtain ⟨_, ⟨absent, alone⟩, across⟩ := distinct
  refine ⟨?_, ?_, ?_, alone⟩
  · intro node member
    exact across node.1 (List.mem_map_of_mem member) address List.mem_cons_self
  · rintro node member rfl
    exact absent (List.mem_map.mpr ⟨node, member, rfl⟩)
  · intro node member later behind
    exact across node.1 (List.mem_map_of_mem member) later.1
      (List.mem_cons_of_mem _ (List.mem_map_of_mem behind))

/-- The nodes follow each other up to the sentinel. -/
def Ending (heap : Nat → Option (FastFifoNode τ)) (tail : Nat) (before : Option Nat) (first : Nat)
    (nodes : List (Nat × τ)) : Prop :=
  ∃ last null, Linked heap before first nodes last tail ∧ heap tail = some ⟨null, last, none⟩

variable {tail : Nat}

theorem Ending.congr (ending : Ending heap tail before first nodes)
    (same : ∀ node ∈ nodes, other node.1 = heap node.1) (sentinel : other tail = heap tail) :
    Ending other tail before first nodes := by
  obtain ⟨last, null, linked, held⟩ := ending
  exact ⟨last, null, linked.congr same, sentinel.trans held⟩

/-- The first of the nodes, or the sentinel, is given another one before it. -/
theorem Ending.rebefore (ending : Ending heap tail before first nodes)
    (distinct : (nodes.map Prod.fst).Nodup) (apart : ∀ node ∈ nodes, node.1 ≠ tail)
    (behind : Option Nat) :
    ∃ later, heap first = some later ∧
      Ending (Function.update heap first (some { later with before := behind })) tail behind first
      nodes := by
  obtain ⟨last, null, linked, held⟩ := ending
  cases nodes with
  | nil =>
    obtain ⟨rfl, rfl⟩ := linked
    exact ⟨_, held, behind, null, ⟨rfl, rfl⟩, Function.update_self ..⟩
  | cons head nodes =>
    obtain ⟨rfl, next, own, linked⟩ := linked
    have others (node : Nat × τ) (member : node ∈ nodes) : node.1 ≠ head.1 := fun same =>
      (List.nodup_cons.mp distinct).1 (same ▸ List.mem_map_of_mem member)
    refine ⟨_, own, last, null, ⟨rfl, next, Function.update_self .., linked.congr ?_⟩, ?_⟩
    · intro node member
      exact Function.update_of_ne (others node member) ..
    · exact (Function.update_of_ne (apart head List.mem_cons_self).symm ..).trans held

/-- The nodes are those of the sequence, linked in its order, and no others are left. -/
structure Represents (fifo : NodeFifo τ) (sequence : FastFifo τ) : Prop where
  nextNode : sequence.nextNode = fifo.nextNode
  ending : Ending fifo.heap fifo.tail none fifo.head sequence.nodes
  tail : fifo.tail < fifo.nextNode
  apart : ∀ node ∈ sequence.nodes, node.1 ≠ fifo.tail
  dead : ∀ address, fifo.heap address ≠ none → address = fifo.tail ∨
    address ∈ sequence.nodes.map Prod.fst

theorem represents_fresh (null : τ) : Represents (.fresh null) { nextNode := 1 } where
  nextNode := rfl
  ending := ⟨none, null, ⟨rfl, rfl⟩, by simp [NodeFifo.fresh]⟩
  tail := by simp [NodeFifo.fresh]
  apart := nofun
  dead address held := by
    left
    by_contra other
    apply held
    have aside : address ≠ 0 := other
    simp [NodeFifo.fresh, aside]

/-- The queue is empty exactly when its head is the sentinel. -/
theorem Represents.head_tail (represents : Represents fifo sequence) : fifo.head = fifo.tail ↔
    sequence.nodes = [] := by
  obtain ⟨last, null, linked, _⟩ := represents.ending
  cases shape : sequence.nodes with
  | nil =>
    rw [shape] at linked
    exact iff_of_true linked.2 rfl
  | cons head nodes =>
    rw [shape] at linked
    refine iff_of_false ?_ (List.cons_ne_nil head nodes)
    rw [linked.1]
    exact represents.apart head (by simp [shape])

/-- No live node is at the next address. -/
theorem Represents.fresh (represents : Represents fifo sequence) (node : Nat × τ)
    (member : node ∈ sequence.nodes) :
    node.1 ≠ fifo.nextNode := by
  have less := sequence.fresh node member
  have count := represents.nextNode
  omega

/-- `push` links a new node in front of the sentinel. -/
theorem Represents.push (represents : Represents fifo sequence) (data : τ) :
    ∃ after, fifo.push data = .ok ((sequence.push data).1, after) ∧
    Represents after (sequence.push data).2 := by
  have fresh := represents.fresh
  have empty := represents.head_tail
  obtain ⟨count, ⟨last, null, linked, sentinel⟩, tail, apart, dead⟩ := represents
  have other : fifo.nextNode ≠ fifo.tail := (Nat.ne_of_lt tail).symm
  -- every node of the new heap is the sentinel, the new node or an old one
  have places (heap : Nat → Option (FastFifoNode τ))
      (same : ∀ address, address ≠ fifo.tail → address ≠ fifo.nextNode → heap address ≠ none →
        fifo.heap address ≠ none)
      (address : Nat) (held : heap address ≠ none) :
      address = fifo.tail ∨ address ∈ (sequence.push data).2.nodes.map Prod.fst := by
    rw [FastFifo.push_nodes, List.map_append, List.mem_append, count]
    by_cases final : address = fifo.tail
    · exact .inl final
    by_cases new : address = fifo.nextNode
    · exact .inr (.inr (by simp [new]))
    · exact (dead address (same address final new held)).imp_right .inl
  have distant (node : Nat × τ) (member : node ∈ (sequence.push data).2.nodes) :
    node.1 ≠ fifo.tail := by
    rw [FastFifo.push_nodes, List.mem_append, List.mem_singleton] at member
    rcases member with old | rfl
    · exact apart node old
    · simpa [count] using other
  rcases List.eq_nil_or_concat sequence.nodes with none_live | ⟨front, ⟨address, own⟩, shape⟩
  · rw [none_live] at linked
    obtain ⟨rfl, same⟩ := linked
    refine ⟨{ fifo with
      head := fifo.nextNode
      heap := Function.update (Function.update fifo.heap fifo.nextNode
        (some ⟨data, none, some fifo.tail⟩)) fifo.tail
        (some ⟨null, some fifo.nextNode, none⟩)
      nextNode := fifo.nextNode + 1 }, ?_, ?_⟩
    · simp [NodeFifo.push, NodeFifo.node, sentinel, NodeFifo.link, NodeFifo.set, count, same,
        other.symm, bind, Except.bind,
        pure, Except.pure]
    · refine ⟨congrArg (· + 1) count, ⟨some fifo.nextNode, null, ?_, by simp⟩,
        Nat.lt_succ_of_lt tail, distant, places _ ?_⟩
      · simp only [FastFifo.push_nodes, none_live, List.nil_append, count]
        exact ⟨rfl, fifo.tail, by simp [Function.update_of_ne other], rfl, rfl⟩
      · intro address final new held
        simpa [final, new] using held
  · rw [List.concat_eq_append] at shape
    rw [shape] at linked
    have aside : ∀ node ∈ front, node.1 ≠ address := by
      have distinct := sequence.distinct
      rw [shape] at distinct
      exact (distinct_parts distinct).1
    have old : address ≠ fifo.nextNode := fresh (address, own) (by simp [shape])
    have live : address ≠ fifo.tail := apart (address, own) (by simp [shape])
    have filled : fifo.head ≠ fifo.tail := fun same => by simpa [shape] using empty.mp same
    obtain ⟨rfl, node, held, rfl, follows, relinked⟩ := linked.relink fifo.nextNode aside
    refine ⟨{ fifo with
      heap := Function.update (Function.update (Function.update fifo.heap fifo.nextNode
        (some ⟨data, some address, some fifo.tail⟩))
        address (some { node with next := some fifo.nextNode })) fifo.tail
        (some ⟨null, some fifo.nextNode, none⟩)
      nextNode := fifo.nextNode + 1 }, ?_, ?_⟩
    · simp [NodeFifo.push, NodeFifo.node, sentinel, NodeFifo.link, NodeFifo.set, count, old, held,
        filled, live.symm, other.symm, bind,
        Except.bind, pure, Except.pure]
    · refine ⟨congrArg (· + 1) count, ⟨some fifo.nextNode, null, ?_, by simp⟩,
        Nat.lt_succ_of_lt tail, distant, places _ ?_⟩
      · simp only [FastFifo.push_nodes, shape, count]
        refine Linked.append.mpr ⟨some address, fifo.nextNode, relinked.congr fun other member =>
          ?_, rfl, fifo.tail, ?_, rfl, rfl⟩
        · have distant := apart other (shape ▸ member)
          have earlier := fresh other (shape ▸ member)
          by_cases same : other.1 = address
          · simp [same, live]
          · simp [distant, earlier, same]
        · simp [other, old.symm]
      · intro place final new held'
        by_cases same : place = address
        · simp [same, held]
        · simpa [final, new, same] using held'

/-- Following the nodes starts at one of them or at the sentinel. -/
theorem Ending.start (ending : Ending heap tail before first nodes) : first = tail ∨ ∃ node ∈ nodes,
    node.1 = first := by
  obtain ⟨last, null, linked, held⟩ := ending
  cases nodes with
  | nil => exact .inl linked.2
  | cons head nodes => exact .inr ⟨head, List.mem_cons_self, linked.1.symm⟩

/-- Without one of several nodes at different addresses. -/
theorem filter_parts {address : Nat} {data : τ}
    (distinct : ((front ++ (address, data) :: rest).map Prod.fst).Nodup) :
    (front ++ (address, data) :: rest).filter (fun entry => entry.1 ≠ address) = front ++ rest := by
  obtain ⟨ahead, behind, _⟩ := distinct_parts distinct
  have kept : front.filter (fun entry => decide (entry.1 ≠ address)) = front :=
    List.filter_eq_self.mpr fun node member => by simpa using ahead node member
  have left : rest.filter (fun entry => decide (entry.1 ≠ address)) = rest :=
    List.filter_eq_self.mpr fun node member => by simpa using behind node member
  rw [List.filter_append, List.filter_cons, kept, left]
  simp

/-- The node before one that is removed, or the head, is led past it. -/
theorem Linked.bypass {middle : Option Nat} {address : Nat}
    (linked : Linked fifo.heap none fifo.head front middle address)
    (distinct : (front.map Prod.fst).Nodup) (on : Nat) :
    ∃ past, (if middle.isNone then .ok { fifo with head := on } else fifo.link middle on) =
    .ok past ∧
      Linked past.heap none past.head front middle on ∧ past.tail = fifo.tail ∧
      past.nextNode = fifo.nextNode ∧
      (∀ other, (∀ node ∈ front, node.1 ≠ other) → past.heap other = fifo.heap other) ∧
      ∀ other, past.heap other ≠ none → fifo.heap other ≠ none := by
  rcases List.eq_nil_or_concat front with empty | ⟨ahead, ⟨place, data⟩, shape⟩
  · subst empty
    obtain ⟨rfl, _⟩ := linked
    exact ⟨_, if_pos rfl, ⟨rfl, rfl⟩, rfl, rfl, fun _ _ => rfl, fun _ => id⟩
  · rw [List.concat_eq_append] at shape
    subst shape
    obtain ⟨rfl, node, held, _, _, relinked⟩ := linked.relink on (distinct_parts distinct).1
    refine ⟨fifo.set place { node with next := some on }, ?_, relinked, rfl, rfl, ?_, ?_⟩
    · simp [NodeFifo.link, NodeFifo.node, held, bind, Except.bind, pure, Except.pure]
    · intro other aside
      exact Function.update_of_ne (aside (place, data) (by simp)).symm ..
    · intro other kept
      by_cases same : other = place
      · simp [same, held]
      · simpa [NodeFifo.set, same] using kept

/-- `removeNode` takes just that node out. -/
theorem Represents.removeNode (represents : Represents fifo sequence) {node : Nat}
    {removed : FastFifo τ} (took : sequence.removeNode node = some removed) :
    ∃ after, fifo.removeNode (some node) = .ok after ∧ Represents after removed := by
  have shorter := FastFifo.removeNode_nodes took
  have counter : removed.nextNode = sequence.nextNode := by
    unfold FastFifo.removeNode at took
    split at took
    · cases took
      rfl
    · cases took
  have live : node ∈ sequence.nodes.map Prod.fst :=
    FastFifo.removeNode_isSome.mp (by rw [took]; rfl)
  obtain ⟨⟨address, data⟩, member, rfl⟩ := List.mem_map.mp live
  obtain ⟨front, rest, shape⟩ := List.append_of_mem member
  have distinct := sequence.distinct
  rw [shape] at distinct
  rw [shape, filter_parts distinct] at shorter
  obtain ⟨ahead, behind, across, alone⟩ := distinct_parts distinct
  obtain ⟨count, ⟨last, null, linked, sentinel⟩, tail, apart, dead⟩ := represents
  rw [shape] at linked apart dead
  obtain ⟨middle, between, before, rfl, next, own, later⟩ := Linked.append.mp linked
  have live : between ≠ fifo.tail := apart (between, data) (by simp)
  -- the nodes ahead are led to the next one
  have ordered : (front.map Prod.fst).Nodup := (List.nodup_append.mp (by simpa using distinct)).1
  obtain ⟨past, led, first, sameTail, sameNext, others, kept⟩ := before.bypass ordered next
  -- and the next one back to them
  have onward : Ending past.heap fifo.tail (some between) next rest := by
    refine Ending.congr ⟨last, null, later, sentinel⟩ (fun node member =>
      others _ fun other ahead' => across other ahead' node member) ?_
    exact others _ fun other ahead' => apart other (by simp [ahead'])
  obtain ⟨after, reached, backward⟩ := onward.rebefore alone (fun node member => apart node (by simp [member])) middle
  have start := onward.start
  refine ⟨(past.set next { after with before := middle }).delete between, ?_, ?_⟩
  · have looked : fifo.node between = .ok ⟨data, middle, some next⟩ := by rw [NodeFifo.node, own]
    have met : past.node next = .ok after := by rw [NodeFifo.node, reached]
    by_cases none_ahead : middle.isNone
    · rw [if_pos none_ahead] at led
      cases led
      simp only [NodeFifo.removeNode, looked, none_ahead, met, bind, Except.bind, pure, Except.pure,
        if_true]
    · rw [if_neg none_ahead] at led
      simp only [NodeFifo.removeNode, looked, none_ahead, led, met, bind, Except.bind, pure,
        Except.pure, if_false, Bool.false_eq_true]
  · -- the first of the others is not one of the nodes ahead
    have beyond : ∀ node ∈ front, node.1 ≠ next := by
      rintro node member rfl
      rcases start with final | ⟨other, member', same⟩
      · exact apart node (by simp [member]) final
      · exact across node member other member' same.symm
    have aside : next ≠ between := by
      rcases start with rfl | ⟨other, member', rfl⟩
      · exact live.symm
      · exact behind other member'
    have elsewhere (other : Nat) (different : other ≠ between) :
        ((past.set next { after with before := middle }).delete between).heap other =
          Function.update past.heap next (some { after with before := middle }) other :=
      Function.update_of_ne different ..
    have ends : ((past.set next { after with before := middle }).delete between).tail = fifo.tail :=
      sameTail
    obtain ⟨final, null, reachesEnd, held⟩ := backward
    constructor
    · rw [counter, count]
      exact sameNext.symm
    · rw [shorter, ends]
      refine ⟨final, null, Linked.append.mpr ⟨middle, next, first.congr ?_,
        reachesEnd.congr fun node member => elsewhere _ (behind node member)⟩, ?_⟩
      · intro node member
        rw [elsewhere _ (ahead node member), Function.update_of_ne (beyond node member)]
      · exact (elsewhere _ live.symm).trans held
    · rw [ends]
      exact Nat.lt_of_lt_of_eq tail sameNext.symm
    · rw [shorter, ends]
      intro node member
      apply apart node
      rcases List.mem_append.mp member with one | other
      · simp [one]
      · simp [other]
    · rw [shorter, ends]
      intro other present
      by_cases gone : other = between
      · simp [gone, NodeFifo.delete] at present
      have old : fifo.heap other ≠ none := by
        apply kept other
        by_cases same : other = next
        · simp [same, reached]
        · rwa [elsewhere _ gone, Function.update_of_ne same] at present
      rcases dead other old with last | live
      · exact .inl last
      · rw [List.map_append, List.map_cons, List.mem_append, List.mem_cons] at live
        rw [List.map_append, List.mem_append]
        rcases live with one | same | two
        · exact .inr (.inl one)
        · exact absurd same gone
        · exact .inr (.inr two)

/-- `pop` takes the first node out, and fails without one. -/
theorem Represents.pop (represents : Represents fifo sequence) :
    (sequence.nodes = [] ∧ fifo.pop = .ok (none, fifo)) ∨
      ∃ node data rest after popped, sequence.nodes = (node, data) :: rest ∧
      fifo.pop = .ok (some data, after) ∧
        popped.nodes = rest ∧ Represents after popped := by
  have empty := represents.head_tail
  cases shape : sequence.nodes with
  | nil => exact .inl ⟨rfl, by simp [NodeFifo.pop, empty.mpr shape, pure, Except.pure]⟩
  | cons head rest =>
    obtain ⟨node, data⟩ := head
    have filled : fifo.head ≠ fifo.tail := fun same => by simpa [shape] using empty.mp same
    obtain ⟨last, null, linked, _⟩ := represents.ending
    rw [shape] at linked
    obtain ⟨first, next, held, _⟩ := linked
    obtain ⟨popped, took⟩ : ∃ popped, sequence.removeNode node = some popped :=
      Option.isSome_iff_exists.mp (FastFifo.removeNode_isSome.mpr (by simp [shape]))
    obtain ⟨after, ran, kept⟩ := represents.removeNode took
    refine .inr ⟨node, data, rest, after, popped, rfl, ?_, ?_, kept⟩
    · have looked : fifo.node node = .ok ⟨data, none, some next⟩ := by rw [NodeFifo.node, held]
      have other : node ≠ fifo.tail := first ▸ filled
      simp [NodeFifo.pop, first, other, looked, ran, bind, Except.bind, pure, Except.pure]
    · have distinct := sequence.distinct
      rw [shape] at distinct
      rw [FastFifo.removeNode_nodes took, shape]
      exact filter_parts (show (([] ++ (node, data) :: rest).map Prod.fst).Nodup from distinct)

/-- The first of the nodes, or the sentinel, has what is expected before it. -/
theorem Ending.behind (ending : Ending heap tail before first nodes) :
    ∃ own, heap first = some own ∧ own.before = before := by
  obtain ⟨last, null, linked, held⟩ := ending
  cases nodes with
  | nil =>
    obtain ⟨rfl, rfl⟩ := linked
    exact ⟨_, held, rfl⟩
  | cons head nodes =>
    obtain ⟨rfl, next, own, _⟩ := linked
    exact ⟨_, own, rfl⟩

theorem Ending.onward (ending : Ending heap tail before first ((final, null) :: rest)) :
    ∃ next, heap final = some ⟨null, before, some next⟩ ∧
    Ending heap tail (some final) next rest := by
  obtain ⟨last, empty, ⟨_, next, own, linked⟩, held⟩ := ending
  exact ⟨next, own, last, empty, linked, held⟩

/-- Every node is the one before its next one. -/
theorem Ending.forward (ending : Ending heap tail before first nodes) (node : Nat × τ)
    (member : node ∈ nodes) :
    ∃ own next later, heap node.1 = some own ∧ own.next = some next ∧ heap next = some later ∧
    later.before = some node.1 := by
  induction nodes generalizing before first with
  | nil => cases member
  | cons head nodes ih =>
    obtain ⟨next, held, rest⟩ := ending.onward
    rcases List.mem_cons.mp member with rfl | inside
    · obtain ⟨later, reached, behind⟩ := rest.behind
      exact ⟨_, next, later, held, rfl, reached, behind⟩
    · exact ih rest inside

/-- Every node, and the sentinel, is the next one of the one before it. -/
theorem Ending.backward (ending : Ending heap tail before first nodes) {address behind : Nat}
    {own : FastFifoNode τ} (listed : address = tail ∨ address ∈ nodes.map Prod.fst)
    (held : heap address = some own) (pointed : own.before = some behind) :
    before = some behind ∧ address = first ∨ ∃ earlier, heap behind = some earlier ∧
    earlier.next = some address := by
  induction nodes generalizing before first with
  | nil =>
    obtain ⟨last, null, ⟨rfl, rfl⟩, sentinel⟩ := ending
    rcases listed with rfl | inside
    · cases held.symm.trans sentinel
      exact .inl ⟨pointed, rfl⟩
    · cases inside
  | cons head nodes ih =>
    obtain ⟨next, own', rest⟩ := ending.onward
    have one : first = head.1 := by
      obtain ⟨_, _, ⟨same, _⟩, _⟩ := ending
      exact same
    rcases listed with final | inside
    · rcases ih rest (.inl final) with ⟨same, place⟩ | found
      · cases same
        exact .inr ⟨_, own', by rw [place]⟩
      · exact .inr found
    · rw [List.map_cons, List.mem_cons] at inside
      rcases inside with same | inside
      · subst same
        cases held.symm.trans own'
        exact .inl ⟨pointed, one.symm⟩
      · rcases ih rest (.inr inside) with ⟨same, place⟩ | found
        · cases same
          exact .inr ⟨_, own', by rw [place]⟩
        · exact .inr found

/-- Following `next` up to the sentinel visits the nodes. -/
theorem Linked.walk (linked : Linked fifo.heap before first nodes last fifo.tail)
    (apart : ∀ node ∈ nodes, node.1 ≠ fifo.tail) :
    fifo.walk nodes.length first = some nodes := by
  induction nodes generalizing before first with
  | nil => exact if_pos linked.2
  | cons head nodes ih =>
    obtain ⟨rfl, next, own, linked⟩ := linked
    rw [List.length_cons, NodeFifo.walk, if_neg (apart head List.mem_cons_self)]
    simp only [own]
    rw [ih linked fun node member => apart node (List.mem_cons_of_mem _ member)]
    rfl

/-- One call of a client. -/
inductive Operation (τ : Type) where
  | push (data : τ)
  | pop
  | removeNode (node : Nat)
  deriving DecidableEq, Repr

/-- A returned call, with the node or the data it returned. -/
inductive Call (τ : Type) where
  | push (data : τ) (node : Nat)
  | pop (data : Option τ)
  | removeNode (node : Nat)
  deriving DecidableEq, Repr

/-- What a call makes of the live nodes. -/
def liveAfter (nodes : List (Nat × τ)) : Call τ → List (Nat × τ)
  | .push data node => nodes ++ [(node, data)]
  | .pop none => nodes
  | .pop (some _) => nodes.tail
  | .removeNode node => nodes.filter fun entry => entry.1 ≠ node

/-- The nodes pushed and not yet popped or removed, in push order. -/
def live (calls : List (Call τ)) : List (Nat × τ) :=
  calls.foldl liveAfter []

/-- The queue and the calls made on it so far. -/
structure Client (τ : Type) where
  fifo : NodeFifo τ
  calls : List (Call τ) := []

def exec (client : Client τ) : Operation τ → Except Fault (Client τ)
  | .push data => do
    let (node, fifo) ← client.fifo.push data
    return ⟨fifo, client.calls ++ [.push data node]⟩
  | .pop => do
    let (data, fifo) ← client.fifo.pop
    return ⟨fifo, client.calls ++ [.pop data]⟩
  | .removeNode node => do
    let fifo ← client.fifo.removeNode (some node)
    return ⟨fifo, client.calls ++ [.removeNode node]⟩

/-- Only live nodes are removed. -/
def Allowed (client : Client τ) : Operation τ → Prop
  | .push _ | .pop => True
  | .removeNode node => node ∈ (live client.calls).map Prod.fst

instance (client : Client τ) : DecidablePred (Allowed client)
  | .push _ | .pop => inferInstanceAs (Decidable True)
  | .removeNode node => inferInstanceAs (Decidable (node ∈ (live client.calls).map Prod.fst))

/-- Calls on a fresh queue whose sentinel holds the given null pointer. -/
def client (null : τ) : Program (Client τ) (Operation τ) Fault where
  start := { fifo := .fresh null }
  allowed := Allowed
  exec := exec

instance (null : τ) (state : Client τ) : DecidablePred ((client null).allowed state) :=
  inferInstanceAs (DecidablePred (Allowed state))

/-- The queue is the sequence of the given nodes. -/
structure Faithful (fifo : NodeFifo τ) (nodes : List (Nat × τ)) : Prop where
  visited : fifo.walk nodes.length fifo.head = some nodes
  inverse : ∀ address next, (∃ node, fifo.heap address = some node ∧ node.next = some next) ↔
    ∃ node, fifo.heap next = some node ∧ node.before = some address
  first : ∃ node, fifo.heap fifo.head = some node ∧ node.before = none
  empty : fifo.head = fifo.tail ↔ nodes = []
  kept : ∀ address, fifo.heap address ≠ none ↔ address = fifo.tail ∨ address ∈ nodes.map Prod.fst

/-- What a call answers, and what it makes of the sequence. -/
inductive Answered (nodes : List (Nat × τ)) : Operation τ → Call τ → List (Nat × τ) → Prop where
  | push (fresh : node ∉ nodes.map Prod.fst) : Answered nodes (.push data) (.push data node) (nodes ++ [(node, data)])
  | popped (found : nodes = (node, data) :: others) : Answered nodes .pop (.pop (some data)) others
  | empty (none_live : nodes = []) : Answered nodes .pop (.pop none) []
  | removed :
    Answered nodes (.removeNode node) (.removeNode node) (nodes.filter fun entry => entry.1 ≠ node)

theorem Represents.faithful (represents : Represents fifo sequence) :
    Faithful fifo sequence.nodes where
  visited := by
    obtain ⟨last, null, linked, _⟩ := represents.ending
    exact linked.walk represents.apart
  inverse address next := by
    have ending := represents.ending
    obtain ⟨last, null, linked, sentinel⟩ := represents.ending
    constructor
    · rintro ⟨node, held, onward⟩
      rcases represents.dead address (by simp [held]) with rfl | inside
      · cases held.symm.trans sentinel
        cases onward
      · obtain ⟨entry, member, rfl⟩ := List.mem_map.mp inside
        obtain ⟨own, on, later, held', onward', reached, behind⟩ := ending.forward entry member
        cases held.symm.trans held'
        cases onward.symm.trans onward'
        exact ⟨later, reached, behind⟩
    · rintro ⟨node, held, pointed⟩
      rcases ending.backward (represents.dead next (by simp [held])) held pointed with ⟨nobody,
        _⟩ | found
      · cases nobody
      · exact found
  first := represents.ending.behind
  empty := represents.head_tail
  kept address := by
    refine ⟨represents.dead address, ?_⟩
    rintro (rfl | inside)
    · obtain ⟨_, _, _, sentinel⟩ := represents.ending
      simp [sentinel]
    · obtain ⟨entry, member, rfl⟩ := List.mem_map.mp inside
      obtain ⟨_, _, _, held, _⟩ := represents.ending.forward entry member
      simp [held]

/-- The queue is the sequence of the nodes its calls left alive. -/
def Refines (state : Client τ) : Prop :=
  ∃ sequence : FastFifo τ, Represents state.fifo sequence ∧ sequence.nodes = live state.calls

/-- One more call is answered as by the sequence. -/
theorem refines_step {state : Client τ} {op : Operation τ} (refines : Refines state)
    (allowed : Allowed state op) :
    ∃ next call, exec state op = .ok next ∧ next.calls = state.calls ++ [call] ∧
      Answered (live state.calls) op call (live next.calls) ∧ Refines next := by
  obtain ⟨sequence, represents, same⟩ := refines
  have concat (call : Call τ) : live (state.calls ++ [call]) = liveAfter (live state.calls) call :=
    List.foldl_append ..
  cases op with
  | push data =>
    obtain ⟨after, ran, kept⟩ := represents.push data
    refine ⟨⟨after, _⟩, .push data
      (sequence.push
        data).1, by simp [exec, ran, bind, Except.bind, pure, Except.pure], rfl, ?_, _, kept, ?_⟩
    · rw [concat]
      refine .push fun inside => ?_
      obtain ⟨entry, member, place⟩ := List.mem_map.mp inside
      exact Nat.ne_of_lt (sequence.fresh entry (same ▸ member)) place
    · rw [concat, FastFifo.push_nodes, same]
      rfl
  | pop =>
    rcases represents.pop with ⟨none_live, ran⟩ | ⟨node, data, rest, after, popped, shape, ran,
      left, kept⟩
    · refine ⟨⟨state.fifo, _⟩,
        .pop none, by simp [exec, ran, bind, Except.bind, pure, Except.pure], rfl, ?_, sequence, represents, ?_⟩
      · rw [concat, ← same, none_live]
        exact .empty rfl
      · rw [concat, same]
        rfl
    · refine ⟨⟨after, _⟩,
        .pop (some
        data), by simp [exec, ran, bind, Except.bind, pure, Except.pure], rfl, ?_, popped, kept, ?_⟩
      · rw [concat, ← same, shape]
        exact .popped rfl
      · rw [concat, ← same, shape]
        exact left
  | removeNode node =>
    obtain ⟨removed, took⟩ : ∃ removed, sequence.removeNode node = some removed :=
      Option.isSome_iff_exists.mp (FastFifo.removeNode_isSome.mpr (same ▸ allowed))
    obtain ⟨after, ran, kept⟩ := represents.removeNode took
    refine ⟨⟨after, _⟩,
      .removeNode
      node, by simp [exec, ran, bind, Except.bind, pure, Except.pure], rfl, ?_, removed, kept, ?_⟩
    · rw [concat]
      exact .removed
    · rw [concat, FastFifo.removeNode_nodes took, same]
      rfl

/-- A queue that is used as its warning asks is the sequence of its live nodes, and every
call on it returns and answers as the sequence does. -/
theorem reachable_faithful {null : τ} {state : Client τ} (reached : Reachable (client null) state) :
    Faithful state.fifo (live state.calls) ∧
      ∀ op, (client null).allowed state op → ∃ next call, (client null).exec state op = .ok next ∧
        next.calls = state.calls ++ [call] ∧ Answered (live state.calls) op call
        (live next.calls) := by
  have refines : Refines state := by
    apply reached.invariant Refines ⟨_, represents_fresh null, rfl⟩
    intro state op next refines allowed ran
    obtain ⟨after, _, ran', _, _, kept⟩ := refines_step refines allowed
    cases ran.symm.trans ran'
    exact kept
  constructor
  · obtain ⟨sequence, represents, same⟩ := refines
    exact same ▸ represents.faithful
  · intro op allowed
    obtain ⟨next, call, ran, recorded, answered, _⟩ := refines_step refines allowed
    exact ⟨next, call, ran, recorded, answered⟩

/-- Nodes are taken out in the middle, at the front, at the back and as the last one. -/
theorem reachable_faithful_run : ∃ state : Client (Option Char), Reachable (client none) state ∧
    live state.calls = [(5, some 'e')] ∧ Faithful state.fifo (live state.calls) := by
  obtain ⟨state, ran, left⟩ : ∃ state : Client (Option Char),
      (client none).replay (client none).start
        [.push (some 'a'), .pop, .pop, .push (some 'b'), .push (some 'c'), .push (some 'd'),
          .removeNode 3, .removeNode 2,
          .push (some 'e'), .removeNode 4] = .ok state ∧ live state.calls = [(5, some 'e')] := ⟨_, rfl, rfl⟩
  have reached : Reachable (client none) state := .replayed (by decide) ran
  exact ⟨state, reached, left, (reachable_faithful reached).1⟩

end EventDisp.FastFifoNodes
