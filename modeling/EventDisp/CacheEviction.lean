import Mathlib.Data.List.Induction
import EventDisp.CacheFreeList
import EventDisp.CacheSize
import EventDisp.CacheStrays
import EventDisp.General.Shedding

/-! What is evicted when nothing is reserved: a `doneWith` gives up the slots that have
been idle for longest, and no more of them than the quota asks for. But every eviction
uses the slot it has freed, so that the policy is carried out only where it asks for none. -/
namespace EventDisp.CacheEviction

open Cache CacheRuns CacheSize CacheFreeList CacheBuffers Execution Shedding

variable {κ δ : Type} [DecidableEq κ] {quota : Nat}
variable {cache next : Cache κ δ Nat} {state after : State κ δ} {op : Op κ δ} {key name : κ}
variable {calls : List (Call κ δ)} {call : Call κ δ}

/-- What the policy looks at in a slot. -/
structure Item (δ : Type) where
  data : Option δ
  size : Nat
  refCount : Nat
  deriving DecidableEq, Repr

def item (entry : CacheEntry δ Nat) : Item δ := ⟨entry.data, entry.size, entry.refCount⟩

/-- What is stored. -/
def items (cache : Cache κ δ Nat) (key : κ) : Option (Item δ) := (cache.find key).map item

/-- What is stored when a reference has been obtained. -/
def refer (items : κ → Option (Item δ)) (key : κ) : κ → Option (Item δ) :=
  Function.update items key ((items key).map fun item =>
    { item with refCount := item.refCount + 1 })

/-- What is stored when a reference has been given back. -/
def drop (items : κ → Option (Item δ)) (key : κ) : κ → Option (Item δ) :=
  Function.update items key ((items key).map fun item =>
    { item with refCount := item.refCount - 1 })

/-- The size of what is stored. -/
def sizeOf (items : κ → Option (Item δ)) (key : κ) : Nat := (items key).elim 0 Item.size

def isDoneOf (key : κ) : Op κ δ → Bool
  | .doneWith name => name = key
  | .put .. | .get _ | .reserve _ | .cancelReservation _ => false

/-- The number of the last `doneWith` for a key, which is the one that dropped the
reference count to zero if it is zero now. -/
def lastDone (key : κ) (calls : List (Call κ δ)) : Nat :=
  (calls.zipIdx 1).foldl (fun last numbered =>
    if isDoneOf key numbered.1.op then numbered.2 else last) 0

/-- The keys without references, from the one that has been idle for longest on. -/
structure IdleOrder (items : κ → Option (Item δ)) (calls : List (Call κ δ)) (idle : List κ) :
    Prop where
  members : ∀ key, key ∈ idle ↔ ∃ item, items key = some item ∧ item.refCount = 0
  order : idle.Pairwise fun earlier later => lastDone earlier calls < lastDone later calls

/-- What a call does to what is stored. A `doneWith` gives up the shortest front of the
idle keys that brings the stored sizes within the quota, or all of them. -/
def Policy (quota : Nat) (state after : State κ δ) : Op κ δ → Prop
  | .put key buf size => ∀ name, items after.cache name =
      if name = key ∧ items state.cache key = none then some ⟨buf, size, 1⟩ else items state.cache
      name
  | .get key => items after.cache = refer (items state.cache) key
  | .doneWith key => ∃ idle gone rest, IdleOrder (drop (items state.cache) key) after.calls idle ∧
      Sheds (sizeOf (drop (items state.cache) key))
      (state.cache.storedSize - quota) idle gone rest ∧
      ∀ name, items after.cache name = if name ∈ gone then none else drop
      (items state.cache) key name
  | .reserve _ | .cancelReservation _ => True

/-- The call returns and uses nothing that was freed, and does what the policy says. -/
def PolicyKept (quota : Nat) (state : State κ δ) (op : Op κ δ) : Prop :=
  ∃ after, exec state op = .ok after ∧ after.cache.strays = state.cache.strays ∧
    Policy quota state after op

/-- The call reserves nothing, and what is stored keeps to a `size_t`. -/
def Borrows (cache : Cache κ δ Nat) : Op κ δ → Prop
  | .put key _ size => (cache.find key).isNone = true → cache.storedSize + size < 2 ^ 64
  | .get _ | .doneWith _ => True
  | .reserve _ | .cancelReservation _ => False

instance (cache : Cache κ δ Nat) : DecidablePred (Borrows cache)
  | .put key _ size =>
    inferInstanceAs (Decidable ((cache.find key).isNone = true → cache.storedSize + size < 2 ^ 64))
  | .get _ | .doneWith _ => isTrue trivial
  | .reserve _ | .cancelReservation _ => isFalse id

/-- A client that keeps its contract and reserves nothing. -/
def borrower (κ δ : Type) [DecidableEq κ] (quota : Nat) : Program (State κ δ) (Op κ δ) Fault where
  start := ⟨{ sizeQuota := quota }, []⟩
  allowed state op := (op.Sized ∧ Contract state.cache op) ∧ Borrows state.cache op
  exec := exec

instance (state : State κ δ) : DecidablePred ((borrower κ δ quota).allowed state) :=
  fun op => inferInstanceAs (Decidable ((op.Sized ∧ Contract state.cache op) ∧
    Borrows state.cache op))

@[simp] theorem lastDone_concat :
    lastDone key (calls ++ [call]) = if isDoneOf key call.op then calls.length + 1 else lastDone key
    calls := by
  simp only [lastDone, List.zipIdx_append, List.foldl_append, List.zipIdx_singleton,
    List.foldl_cons, List.foldl_nil]
  rw [Nat.add_comm 1]

theorem lastDone_le (key : κ) (calls : List (Call κ δ)) : lastDone key calls ≤ calls.length := by
  induction calls using List.reverseRecOn with
  | nil => exact Nat.le_refl 0
  | append_singleton calls call ih =>
    rw [lastDone_concat, List.length_append, List.length_singleton]
    split <;> omega

/-- The keys on the free list. -/
def listed (cache : Cache κ δ Nat) : List κ := cache.freeList.nodes.map fun node => node.2.name

/-- No slot is reserved, the counter and the free list are exact, and the free list is in
the order of the last `doneWith`. -/
structure Shelved (quota : Nat) (state : State κ δ) : Prop where
  listing : Listing state.cache
  served : Served state
  sizes : SizeInvariant state
  unreserved : ∀ key entry, state.cache.find key = some entry → entry.isReserved = false
  order : (listed state.cache).Pairwise fun earlier later =>
    lastDone earlier state.calls < lastDone later state.calls
  quota : state.cache.sizeQuota = quota

variable {entry : CacheEntry δ Nat}

/-- The loop of `cleanup` gives up the front of the free list. -/
private theorem cleanupLoop_sheds {space freed freed' rounds : Nat}
    (rounded : cache.freeList.nodes.length ≤ rounds) (bound : freed + cache.storedSize < 2 ^ 64)
    (distinct : (listed cache).Nodup)
    (ran : cleanupLoop space rounds freed cache = .ok (freed', next)) :
    ∃ gone, Sheds (sizeOf (items cache)) (space - freed) (listed cache) gone (listed next) ∧
      ∀ name, next.find name = if name ∈ gone then none else cache.find name := by
  induction rounds generalizing freed cache with
  | zero =>
    cases ran
    have empty : listed next = [] := by
      simp [listed, List.length_eq_zero_iff.mp (Nat.le_zero.mp rounded)]
    rw [empty]
    exact ⟨[], .exhausted _ _, by simp⟩
  | succ rounds ih =>
    simp only [cleanupLoop] at ran
    split at ran
    · rename_i more
      split at ran
      · rename_i nothing
        cases ran
        have empty : listed next = [] := by simp [listed, FastFifo.pop_eq_none.mp nothing]
        rw [empty]
        exact ⟨[], .exhausted _ _, by simp⟩
      · rename_i ptr freeList popped
        obtain ⟨address, shape⟩ := FastFifo.pop_eq_some popped
        have front : listed cache = ptr.name :: freeList.nodes.map fun node => node.2.name := by
          simp [listed, shape]
        cases found : cache.deref ptr with
        | error fault => simp [found, bind, Except.bind] at ran
        | ok entry =>
          obtain ⟨held, same⟩ := deref_eq_ok.mp found
          simp only [found, bind, Except.bind] at ran
          split at ran
          · cases ran
          · have less := storedSize_evict freeList held
            have counted : addSize freed entry.size = freed + entry.size :=
              Nat.mod_eq_of_lt (by omega)
            rw [counted] at ran
            rw [front] at distinct
            have behind : (listed (cache.evict ptr freeList)).Nodup := distinct.of_cons
            have within : freed + entry.size + (cache.evict ptr freeList).storedSize < 2 ^ 64 := by
              omega
            obtain ⟨gone, sheds, finds⟩ :=
              ih (by simpa [evict, shape] using rounded) within behind ran
            have size : sizeOf (items cache) ptr.name = entry.size := by
              simp [sizeOf, items, held, item]
            refine ⟨ptr.name :: gone, ?_, ?_⟩
            · rw [front]
              refine .cons (by omega) ?_
              rw [size, Nat.sub_sub]
              apply sheds.congr
              intro name member
              have other : name ≠ ptr.name :=
                fun same => (List.nodup_cons.mp distinct).1 (same ▸ member)
              simp only [sizeOf, items, find_evict, if_neg other]
            · intro name
              rw [finds, find_evict]
              by_cases here : name = ptr.name <;> simp [here]
    · cases ran
      rw [show space - freed' = 0 by omega]
      exact ⟨[], .nothing _ _, by simp⟩

/-- On a proper free list are the keys that are idle. -/
private theorem listed_idle (listing : Listing cache) (name : κ) :
    name ∈ listed cache ↔ ∃ entry, cache.find name = some entry ∧ entry.refCount = 0 := by
  constructor
  · intro member
    obtain ⟨node, inside, rfl⟩ := List.mem_map.mp member
    obtain ⟨entry, held, _, names⟩ := listing.listed node inside
    cases listing.standing _ _ held with
    | referenced counted unlisted => cases unlisted.symm.trans names
    | listed uncounted => exact ⟨entry, held, uncounted⟩
  · rintro ⟨entry, held, uncounted⟩
    cases listing.standing _ _ held with
    | referenced counted => omega
    | listed _ _ _ member => exact List.mem_map.mpr ⟨_, member, rfl⟩

/-- A reference is dropped: the slot goes to the end of the free list if it was the last
one. -/
private theorem release_items (ran : cache.release key = .ok next) :
    items next = drop (items cache) key ∧
    (listed next = listed cache ∨ listed next = listed cache ++ [key]) := by
  obtain ⟨entry, held, ⟨_, rfl⟩ | ⟨last, rfl⟩⟩ := release_cases ran
  · refine ⟨funext ?_, .inl rfl⟩
    intro name
    simp only [items, drop, Function.update_apply, find_store]
    split
    · simp [held, item]
    · rfl
  · refine ⟨funext ?_, .inr (by simp [listed])⟩
    intro name
    simp only [items, drop, Function.update_apply, find_store]
    split
    · simp [held, item, last]
    · rfl

/-- What a `doneWith` does to the free list and to what is stored. -/
private theorem doneWith_sheds {bound : Nat} (call : Call κ δ) (listing : Listing cache)
    (sizes : SizeExact cache) (small : cache.currentSize < 2 ^ 64) (limit : cache.sizeQuota = quota)
    (contract : Contract cache (.doneWith key : Op κ δ))
    (guarded : KeepsReservedReferenced cache (.doneWith key : Op κ δ))
    (earlier : ∀ name, lastDone name calls ≤ bound) (later : bound < lastDone key (calls ++ [call]))
    (others : ∀ name, name ≠ key → lastDone name (calls ++ [call]) = lastDone name calls)
    (order : (listed cache).Pairwise fun earlier later =>
      lastDone earlier calls < lastDone later calls)
    (ran : cache.doneWith key = .ok next) :
    ∃ idle gone, IdleOrder (drop (items cache) key) (calls ++ [call]) idle ∧
      Sheds (sizeOf (drop (items cache) key)) (cache.storedSize - quota) idle gone (listed next) ∧
      (∀ name, items next name = if name ∈ gone then none else drop (items cache) key name) ∧
      next.sizeQuota = quota := by
  obtain ⟨released, dropped, after⟩ := doneWith_cases ran
  obtain ⟨released', again, listing'⟩ := release_listing listing contract guarded
  cases dropped.symm.trans again
  obtain ⟨stored, front⟩ := release_items dropped
  obtain ⟨current, limit', same⟩ := release_sizes dropped
  have unlisted : key ∉ listed cache := by
    rw [listed_idle listing]
    rintro ⟨entry, held, uncounted⟩
    simp only [Contract, held] at contract
    omega
  have idle : IdleOrder (drop (items cache) key) (calls ++ [call]) (listed released) := by
    rw [← stored]
    constructor
    · intro name
      rw [listed_idle listing']
      constructor
      · rintro ⟨entry, held, uncounted⟩
        exact ⟨item entry, by simp [items, held], uncounted⟩
      · rintro ⟨_, held, uncounted⟩
        obtain ⟨entry, found, rfl⟩ := Option.map_eq_some_iff.mp held
        exact ⟨entry, found, uncounted⟩
    · have kept : (listed cache).Pairwise fun earlier later =>
          lastDone earlier (calls ++ [call]) < lastDone later (calls ++ [call]) := by
        refine order.imp_of_mem fun {first second} one two less => ?_
        rw [others first fun same => unlisted (same ▸ one), others second fun same =>
          unlisted (same ▸ two)]
        exact less
      rcases front with same | pushed
      · rwa [same]
      · rw [pushed]
        refine List.pairwise_append.mpr ⟨kept, List.pairwise_singleton ..,
          fun name member last here => ?_⟩
        rw [List.mem_singleton.mp here, others name fun same => unlisted (same ▸ member)]
        exact Nat.lt_of_le_of_lt (earlier name) later
  have total : cache.storedSize = cache.currentSize := sizes.symm
  refine ⟨listed released, ?_⟩
  rcases after with ⟨within, rfl⟩ | ⟨exceeds, cleaned⟩
  · rw [show cache.storedSize - quota = 0 by omega]
    exact ⟨[], idle, .nothing _ _, fun name => by simp [stored], limit'.trans limit⟩
  · obtain ⟨freed, left, loop, rfl⟩ := cleanup_eq_ok cleaned
    have distinct : (listed released).Nodup := by
      apply idle.order.imp
      rintro first _ less rfl
      exact Nat.lt_irrefl _ less
    obtain ⟨gone, sheds, finds⟩ := cleanupLoop_sheds (Nat.le_refl _) (by omega) distinct loop
    rw [show released.currentSize - released.sizeQuota - 0 =
      cache.storedSize - quota by omega, stored] at sheds
    have unchanged : left.sizeQuota = released.sizeQuota :=
      cleanupLoop_rule (fun _ left => left.sizeQuota = released.sizeQuota)
        (fun _ _ _ _ _ same _ _ _ _ _ => same) rfl loop
    refine ⟨gone, idle, sheds, ?_, unchanged.trans (limit'.trans limit)⟩
    intro name
    rw [← stored]
    simp only [items, find_resized, finds]
    split <;> rfl

private theorem isDoneOf_eq (op : Op κ δ) (name : κ) (undone : ∀ key, op ≠ .doneWith key) :
    isDoneOf name op = false := by
  cases op with
  | doneWith key => exact absurd rfl (undone key)
  | put | get | reserve | cancelReservation => rfl

/-- A call other than `doneWith` takes no more than its own key off the free list. -/
private theorem effect_listed {number : Nat} {ret : Bool} {delivered : List (Delivery δ)}
    (effect : Effect number cache op ret next delivered) (undone : ∀ key, op ≠ .doneWith key) :
    (listed next).Sublist (listed cache) ∧ next.sizeQuota = cache.sizeQuota := by
  cases effect with
  | done ran => exact absurd rfl (undone _)
  | putReserved _ _ rewrites | cancelled _ _ rewrites =>
    exact ⟨by rw [listed, rewrites.freeList]; exact List.Sublist.refl _, rewrites.sizeQuota⟩
  | getDelivered held ready unlisted sizes find =>
    refine ⟨?_, sizes.2.1⟩
    cases unlisted with
    | idle _ same => rw [listed, same]; exact List.Sublist.refl _
    | listed _ removed =>
      rw [listed, FastFifo.removeNode_nodes removed]
      exact List.filter_sublist.map _
  | putFresh | putRefused | getMissed | getQueued | reserveFresh | reserveHeld | reserveRefused
  | cancelRefused => exact ⟨List.Sublist.refl _, rfl⟩

/-- Nothing becomes reserved. -/
private theorem effect_unreserved {number : Nat} {ret : Bool} {delivered : List (Delivery δ)}
    (effect : Effect number cache op ret next delivered) (borrows : Borrows cache op)
    (unreserved : ∀ key entry, cache.find key = some entry → entry.isReserved = false)
    {entry : CacheEntry δ Nat} (found : next.find name = some entry) :
    entry.isReserved = false := by
  have rewritten {new : CacheEntry δ Nat}
    (find : next.find name = if name = op.key then some new else cache.find name)
      (ready : new.isReserved = false) : entry.isReserved = false := by
    rw [find] at found
    split at found
    · cases found
      exact ready
    · exact unreserved name entry found
  cases effect with
  | putFresh absent => exact rewritten ((find_resized _).trans find_insertNew) rfl
  | putReserved held reserved rewrites => exact rewritten (rewrites.find name) rfl
  | putRefused | getMissed => exact unreserved name entry found
  | getQueued held reserved => cases (unreserved _ _ held).symm.trans reserved
  | getDelivered held ready unlisted sizes find => exact rewritten (find name) ready
  | done ran =>
    obtain ⟨before, held, same⟩ := doneWith_find ran found
    rw [same.isReserved]
    exact unreserved name before held
  | reserveFresh | reserveHeld | reserveRefused | cancelled | cancelRefused => exact borrows.elim

/-- What a `put` or a `get` does to what is stored. -/
private theorem effect_policy {number : Nat} {ret : Bool} {delivered : List (Delivery δ)}
    (effect : Effect number state.cache op ret after.cache delivered)
    (undone : ∀ key, op ≠ .doneWith key)
    (unreserved : ∀ key entry, state.cache.find key = some entry → entry.isReserved = false) :
    Policy quota state after op := by
  generalize stored : after.cache = next at effect
  cases effect with
  | @putFresh key buf size absent =>
    intro name
    rw [stored]
    simp only [items, find_resized, find_insertNew, absent, Option.map_none, and_true]
    split <;> rfl
  | putReserved held reserved => cases (unreserved _ _ held).symm.trans reserved
  | putRefused held =>
    intro name
    rw [stored]
    simp [items, held]
  | getMissed absent =>
    apply funext
    intro name
    simp only [items, refer, Function.update_apply, stored, absent, Option.map_none]
    split
    · rename_i here
      rw [here, absent]
      rfl
    · rfl
  | getQueued held reserved => cases (unreserved _ _ held).symm.trans reserved
  | getDelivered held ready unlisted sizes find =>
    apply funext
    intro name
    simp only [items, refer, Function.update_apply, stored, find, held]
    split <;> rfl
  | reserveFresh | reserveHeld | reserveRefused | cancelled | cancelRefused => trivial
  | done => exact absurd rfl (undone _)

/-- A call of a client that reserves nothing returns, keeps to the policy, and leaves the
slots as they should be. -/
private theorem shelved_step (shelved : Shelved quota state)
    (allowed : (borrower κ δ quota).allowed state op) :
    ∃ after, exec state op = .ok after ∧ Policy quota state after op ∧ Shelved quota after := by
  obtain ⟨⟨sized, contract⟩, borrows⟩ := allowed
  have guarded : KeepsReservedReferenced state.cache op := by
    cases op with
    | put | get | cancelReservation => trivial
    | reserve => exact borrows.elim
    | doneWith key =>
      simp only [KeepsReservedReferenced]
      split
      · rename_i entry held
        intro reserved
        exact Bool.noConfusion ((shelved.unreserved key entry held).symm.trans reserved)
      · trivial
  have accounts : AccountsPut state.cache op := by
    cases op with
    | put key buf size =>
      simp only [AccountsPut]
      split
      · rename_i absent
        exact borrows (by rw [absent]; rfl)
      · rename_i entry held
        intro reserved
        exact Bool.noConfusion ((shelved.unreserved key entry held).symm.trans reserved)
    | get | reserve | cancelReservation | doneWith => trivial
  obtain ⟨after, ran, listing, _⟩ := exec_listing shelved.listing shelved.served contract guarded
  obtain ⟨ret, delivered, effect, calls⟩ := exec_effect ran
  have sizes := size_invariant_step shelved.sizes sized accounts ran
  have unreserved (key : κ) (entry : CacheEntry δ Nat) (found : after.cache.find key = some entry) :
      entry.isReserved = false := effect_unreserved effect borrows shelved.unreserved found
  have served := served_step shelved.served ran
  by_cases done : ∃ key, op = .doneWith key
  · obtain ⟨key, rfl⟩ := done
    have released : state.cache.doneWith key = .ok after.cache := by
      generalize after.cache = next at effect ⊢
      cases effect with
      | done released => exact released
    obtain ⟨idle, gone, order, sheds, left, limit⟩ := doneWith_sheds
      (record state.cache after.cache (.doneWith key) ret delivered) shelved.listing shelved.sizes.1
      shelved.sizes.2
      shelved.quota contract guarded (fun name => lastDone_le name state.calls)
        (by simp [record, isDoneOf])
      (fun name other => by simp [record, isDoneOf, other.symm]) shelved.order released
    rw [← calls] at order
    refine ⟨after, ran, ⟨idle, gone, _, order, sheds, left⟩, listing, served, sizes, unreserved, ?_,
      limit⟩
    refine order.order.sublist ?_
    rw [sheds.split]
    exact List.sublist_append_right ..
  · have undone (key : κ) : op ≠ .doneWith key := fun same => done ⟨key, same⟩
    obtain ⟨fewer, limit⟩ := effect_listed effect undone
    refine ⟨after, ran, effect_policy effect undone shelved.unreserved, listing, served, sizes,
      unreserved, ?_,
      limit.trans shelved.quota⟩
    refine (shelved.order.sublist fewer).imp fun {first second} less => ?_
    rw [calls, lastDone_concat, lastDone_concat]
    simp only [record, isDoneOf_eq op _ undone, Bool.false_eq_true, if_false]
    exact less

/-- A fresh cache is shelved. -/
private theorem shelved_start : Shelved quota (borrower κ δ quota).start :=
  ⟨⟨nofun, nofun⟩, nofun, ⟨rfl, show 0 < 2 ^ 64 by decide⟩, nofun, .nil, rfl⟩

private theorem shelved_preserved (shelved : Shelved quota state)
    (allowed : (borrower κ δ quota).allowed state op) (ran : exec state op = .ok after) :
    Shelved quota after := by
  obtain ⟨left, same, _, kept⟩ := shelved_step shelved allowed
  cases ran.symm.trans same
  exact kept

private theorem reachable_shelved (reached : Reachable (borrower κ δ quota) state) :
    Shelved quota state :=
  reached.invariant (Shelved quota) shelved_start fun _ _ _ shelved allowed ran =>
    shelved_preserved shelved allowed ran

/-- **The least recently released go first.** When nothing is reserved, every call that returns
does what the policy says: a `doneWith` evicts the shortest front of the idle slots, in the order
in which their last references were dropped, that brings the stored sizes within the quota, or all
of them; a `put` and a `get` evict nothing. -/
theorem evicts_longest_idle (reached : Reachable (borrower κ δ quota) state)
    (allowed : (borrower κ δ quota).allowed state op) (ran : exec state op = .ok after) :
    Policy quota state after op := by
  obtain ⟨left, again, policy, _⟩ := shelved_step (reachable_shelved reached) allowed
  cases ran.symm.trans again
  exact policy

/-- With nothing reserved, what strays is what evicts. -/
private theorem strays_iff_evicts (shelved : Shelved quota state)
    (ran : exec state op = .ok after) :
    after.cache.strays = state.cache.strays ↔ ¬ Evicts state.cache op := by
  rw [exec_strays ran]
  refine and_iff_left fun calls => ?_
  cases op with
  | put key | cancelReservation key =>
    simp only [CallsDeleted] at calls
    split at calls
    · rename_i entry held
      cases (shelved.unreserved key entry held).symm.trans calls.1
    · exact calls
  | get | reserve | doneWith => exact calls

/-- **The policy is kept where it evicts nothing.** In every run that reserves nothing, all
calls return without the use of anything freed and do what the policy says exactly when no
`doneWith` finds the quota exceeded and something to evict. -/
theorem policy_kept_iff_evicts_nothing (run : Run (borrower κ δ quota) attempts outcome) :
    (∀ attempt ∈ attempts, PolicyKept quota attempt.1 attempt.2) ↔
      ∀ attempt ∈ attempts, ¬ Evicts attempt.1.cache attempt.2 := by
  refine run.exact (Shelved quota) (PolicyKept quota)
    (fun state op => ¬ Evicts state.cache op) shelved_start ?_ ?_
  · intro state op next shelved allowed _ ran
    exact shelved_preserved shelved allowed ran
  · intro state op shelved allowed
    obtain ⟨after, ran, policy, _⟩ := shelved_step shelved allowed
    have strays := strays_iff_evicts shelved ran
    constructor
    · rintro ⟨left, again, unstrayed, _⟩
      cases ran.symm.trans again
      exact strays.mp unstrayed
    · intro spared
      exact ⟨after, ran, strays.mpr spared, policy⟩

/-- Two slots become idle within the quota, and one of them is acquired again. -/
theorem policy_kept_iff_evicts_nothing_run :
    ∃ attempts : List (State (List Char) Bool × Op (List Char) Bool), attempts.map Prod.snd =
        [.put ['a'] (some true) 2, .put ['b'] (some true) 1, .doneWith ['b'], .doneWith ['a'],
          .get ['b'], .put ['c'] (some true) 1, .doneWith ['b']] ∧
      ∀ attempt ∈ attempts, PolicyKept 4 attempt.1 attempt.2 :=
  ⟨_, rfl, (policy_kept_iff_evicts_nothing (replayed (borrower (List Char) Bool 4)
    [.put ['a'] (some true) 2, .put ['b'] (some true) 1, .doneWith ['b'], .doneWith ['a'],
      .get ['b'], .put ['c'] (some true) 1, .doneWith ['b']] (by decide))).mpr (by decide)⟩

/-- The first slot that is evicted is used after it was erased. -/
theorem eviction_strays :
    ∃ attempts after, Run (borrower (List Char) Bool 0) attempts (.ok after) ∧
      attempts.map Prod.snd = [.put ['a'] (some true) 1, .doneWith ['a']] ∧
      after.cache.strays = 1 ∧ ∃ attempt ∈ attempts, ¬ PolicyKept 0 attempt.1 attempt.2 := by
  refine ⟨_, _, replayed (borrower (List Char) Bool 0)
    [.put ['a'] (some true) 1, .doneWith ['a']] (by decide), rfl, rfl, _, .tail _ (.head _), ?_⟩
  rintro ⟨after, ran, unstrayed, _⟩
  cases ran
  cases unstrayed

end EventDisp.CacheEviction
