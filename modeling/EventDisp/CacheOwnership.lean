import EventDisp.CacheLedger

/-! Who frees what. `~Cache` does as it should as long as nothing was evicted and
no buffer replaced: `cleanup` reads a slot after it erased it, and `put` drops the
buffer it finds in the reserved slot it fills. -/
namespace EventDisp.CacheBuffers

open Cache CacheRuns Execution Outcome

variable {κ δ β : Type} [DecidableEq κ]
variable {cache next : Cache κ δ β} {key : κ} {named left : κ → Prop} {accesses : List (Access κ δ)}

/-- Every node of the free list leads to a slot, and the slots of some keys name
their own node if any. -/
structure Linked (cache : Cache κ δ β) (named : κ → Prop) : Prop where
  nodes : ∀ node ∈ cache.freeList.nodes, ∃ entry, cache.find node.2.name = some entry ∧
    entry.ref = node.2.ref
  refs : ∀ key entry node, named key → cache.find key = some entry → entry.freeListRef = some node →
    (node, ⟨key, entry.ref⟩) ∈ cache.freeList.nodes

/-- Slots that stay, fewer nodes, and no node gone that a slot still names. -/
theorem Linked.shrink (linked : Linked cache named)
    (stays : ∀ key entry, cache.find key = some entry → ∃ kept, next.find key = some kept ∧
      kept.ref = entry.ref)
    (fewer : ∀ node ∈ next.freeList.nodes, node ∈ cache.freeList.nodes)
    (refs : ∀ key kept node, left key → next.find key = some kept → kept.freeListRef = some node →
      named key ∧ (∃ entry, cache.find key = some entry ∧ kept.ref = entry.ref ∧
      entry.freeListRef = some node) ∧
        ∀ ptr : EntryPtr κ, ptr.name = key → (node, ptr) ∈ cache.freeList.nodes →
        (node, ptr) ∈ next.freeList.nodes) :
    Linked next left where
  nodes node member := by
    obtain ⟨entry, found, same⟩ := linked.nodes node (fewer node member)
    obtain ⟨kept, there, ref⟩ := stays _ _ found
    exact ⟨kept, there, ref.trans same⟩
  refs key kept node among found names := by
    obtain ⟨before, ⟨entry, there, ref, named⟩, keeps⟩ := refs key kept node among found names
    apply keeps _ rfl
    rw [ref]
    exact linked.refs key entry node before there named

/-- The round of `~Cache` for a slot that names a node on the list, or none. -/
theorem destroySlot_returns {rest : List κ} (linked : Linked cache (· ∈ key :: rest))
    (fresh : key ∉ rest) :
    ∃ accesses next, destroySlot cache key = .ok (accesses, next) ∧ Linked next (· ∈ rest) := by
  unfold destroySlot
  cases found : cache.find key with
  | none =>
    exact ⟨[], cache, rfl, linked.nodes, fun other entry node among =>
      linked.refs other entry node (.tail _ among)⟩
  | some entry =>
    have find {after : Cache κ δ β}
      (map : after.cacheMap = (cache.store key { entry with data := none }).cacheMap)
        (other : κ) : after.find other = if other =
        key then some { entry with data := none } else cache.find other := by
      unfold Cache.find
      rw [map]
      exact find_store
    have stays {after : Cache κ δ β}
      (map : after.cacheMap = (cache.store key { entry with data := none }).cacheMap)
        (other : κ) (old : CacheEntry δ β) (was : cache.find other = some old) :
        ∃ kept, after.find other = some kept ∧ kept.ref = old.ref := by
      rw [find map]
      split
      · rename_i same
        rw [same, found] at was
        cases was
        exact ⟨_, rfl, rfl⟩
      · exact ⟨old, was, rfl⟩
    have elsewhere {after : Cache κ δ β} {other : κ}
        (map : after.cacheMap = (cache.store key { entry with data := none }).cacheMap)
        (among : other ∈ rest) :
        other ≠ key ∧ after.find other = cache.find other := by
      have different : other ≠ key := by
        rintro rfl
        exact fresh among
      exact ⟨different, (find map other).trans (if_neg different)⟩
    simp only
    split
    · refine ⟨_, _, rfl, linked.shrink (stays rfl) (fun _ member => member) ?_⟩
      intro other kept node among there names
      obtain ⟨different, same⟩ := elsewhere rfl among
      exact ⟨.tail _ among, ⟨kept, same ▸ there, rfl, names⟩, fun _ _ member => member⟩
    · rename_i node names
      have own := linked.refs key entry node List.mem_cons_self found names
      obtain ⟨freeList, removed⟩ := Option.isSome_iff_exists.mp
        (FastFifo.removeNode_isSome.mpr (List.mem_map_of_mem own))
      simp only [store_freeList] at removed ⊢
      simp only [removed]
      refine ⟨_, _, rfl, linked.shrink (stays rfl) ?_ ?_⟩
      · intro member among
        rw [FastFifo.removeNode_nodes removed] at among
        exact (List.mem_filter.mp among).1
      · intro other kept another among there names
        obtain ⟨different, same⟩ := elsewhere rfl among
        refine ⟨.tail _ among, ⟨kept, same ▸ there, rfl, names⟩, ?_⟩
        intro ptr name member
        apply FastFifo.removeNode_keeps removed own member
        rintro rfl
        exact different name.symm

theorem destroySlots_returns {order : List κ} (linked : Linked cache (· ∈ order))
    (distinct : order.Nodup) :
    ∃ accesses next, destroySlots order cache = .ok (accesses, next) ∧
    Linked next (· ∈ ([] : List κ)) := by
  induction order generalizing cache with
  | nil => exact ⟨[], cache, rfl, linked⟩
  | cons key rest ih =>
    obtain ⟨fresh, distinct⟩ := List.nodup_cons.mp distinct
    obtain ⟨now, between, first, linked⟩ := destroySlot_returns linked fresh
    obtain ⟨later, left, others, linked⟩ := ih linked distinct
    refine ⟨now ++ later, left, ?_, linked⟩
    simp only [destroySlots, first, others, bind, Except.bind, pure, Except.pure]

theorem drainLoop_returns (rounds : Nat) (linked : Linked cache named) :
    ∃ result, drainLoop rounds cache = .ok result := by
  induction rounds generalizing cache named with
  | zero => exact ⟨_, rfl⟩
  | succ rounds ih =>
    unfold drainLoop
    split
    · exact ⟨_, rfl⟩
    · rename_i ptr freeList popped
      obtain ⟨address, shape⟩ := FastFifo.pop_eq_some popped
      obtain ⟨entry, found, same⟩ := linked.nodes (address, ptr) (by simp [shape])
      have fewer : Linked { cache with freeList } (fun _ => False) :=
        ⟨fun node member => linked.nodes node (by rw [shape]; exact .tail _ member), nofun⟩
      obtain ⟨⟨later, left⟩, drained⟩ := ih fewer
      simp only [deref_eq_ok.mpr ⟨found, same⟩, drained, bind, Except.bind, pure, Except.pure]
      exact ⟨_, rfl⟩

/-- `~Cache` returns when every node leads to a slot. -/
theorem destroy_returns {order : List κ} (linked : Linked cache fun _ => True)
    (every : order.Perm cache.cacheMap.keys) :
    ∃ result, destroy order cache = .ok result := by
  have within : Linked cache (· ∈ order) :=
    ⟨linked.nodes, fun key entry node _ => linked.refs key entry node trivial⟩
  obtain ⟨slots, between, first, linked⟩ :=
    destroySlots_returns within (every.nodup_iff.mpr cache.cacheMap.keys_nodup)
  obtain ⟨⟨nodes, left⟩, drained⟩ := drainLoop_returns between.freeList.nodes.length linked
  exact ⟨(slots ++ nodes,
    left), by simp only [destroy, first, drained, bind, Except.bind, pure, Except.pure]⟩

section Calls

variable {cache next : Cache κ δ Nat} {number : Nat} {op : Op κ δ} {ret : Bool}
  {delivered : List (Delivery δ)}

/-- Dropping a reference lists at most the slot itself. -/
theorem release_linked (linked : Linked cache fun _ => True) (ran : cache.release key = .ok next) :
    Linked next fun _ => True := by
  obtain ⟨entry, found, ⟨_, rfl⟩ | ⟨_, rfl⟩⟩ := release_cases ran
  · refine linked.shrink (fun other old was => ?_) (fun _ member =>
      member) fun other kept node _ there names => ?_
    · rw [find_store]
      split
      · rename_i same
        rw [same, found] at was
        cases was
        exact ⟨_, rfl, rfl⟩
      · exact ⟨old, was, rfl⟩
    · rw [find_store] at there
      split at there
      · rename_i same
        cases there
        exact ⟨trivial, ⟨entry, same ▸ found, rfl, names⟩, fun _ _ member => member⟩
      · exact ⟨trivial, ⟨kept, there, rfl, names⟩, fun _ _ member => member⟩
  · constructor
    · intro node member
      have leads : ∃ old, cache.find node.2.name = some old ∧ old.ref = node.2.ref := by
        rcases List.mem_append.mp member with old | new
        · exact linked.nodes node old
        · obtain rfl := List.mem_singleton.mp new
          exact ⟨entry, found, rfl⟩
      obtain ⟨old, was, ref⟩ := leads
      rw [find_store]
      split
      · rename_i same
        rw [same, found] at was
        cases was
        exact ⟨_, rfl, ref⟩
      · exact ⟨old, was, ref⟩
    · intro other kept node _ there names
      rw [find_store] at there
      split at there
      · rename_i same
        subst same
        obtain rfl := Option.some.inj there
        obtain rfl := Option.some.inj names
        exact List.mem_append_right _ List.mem_cons_self
      · exact List.mem_append_left _ (linked.refs other kept node trivial there names)

/-- A `doneWith` that evicts nothing only drops a reference. -/
theorem doneWith_spared (ran : cache.doneWith key = .ok next)
    (spared : ¬ Evicts cache (.doneWith key : Op κ δ)) :
    ∃ released, cache.release key = .ok released ∧ next.freeList = released.freeList ∧
    next.find = released.find := by
  obtain ⟨released, dropped, ⟨_, rfl⟩ | ⟨exceeds, cleaned⟩⟩ := doneWith_cases ran
  · exact ⟨next, dropped, rfl, rfl⟩
  · obtain ⟨freed, left, loop, rfl⟩ := cleanup_eq_ok cleaned
    have empty : released.freeList.nodes = [] := by
      obtain ⟨entry, found, ⟨_, rfl⟩ | ⟨last, rfl⟩⟩ := release_cases dropped
      · by_contra listed
        simp only [Evicts, found] at spared
        exact spared ⟨exceeds, .inl listed⟩
      · simp only [Evicts, found] at spared
        exact absurd ⟨exceeds, .inr last⟩ spared
    rw [empty] at loop
    cases loop
    exact ⟨released, dropped, rfl, funext fun _ => find_resized _⟩

/-- A slot keeps its node, or names none. -/
theorem effect_node (effect : Effect number cache op ret next delivered)
    (notDone : ∀ key, op ≠ .doneWith key) {kept : CacheEntry δ Nat}
    (found : next.find key = some kept) :
    kept.freeListRef = none ∨
      ∃ entry, cache.find key = some entry ∧ kept.ref = entry.ref ∧
      entry.freeListRef = kept.freeListRef := by
  have rewritten {changed : κ} {new : CacheEntry δ Nat}
      (find : ∀ other, next.find other = if other = changed then some new else cache.find other)
      (fine : new.freeListRef = none ∨
        ∃ old, cache.find changed = some old ∧ new.ref = old.ref ∧
        old.freeListRef = new.freeListRef) :
      kept.freeListRef = none ∨
        ∃ entry, cache.find key = some entry ∧ kept.ref = entry.ref ∧
        entry.freeListRef = kept.freeListRef := by
    rw [find] at found
    split at found
    · rename_i same
      cases found
      exact same ▸ fine
    · exact .inr ⟨kept, found, rfl, rfl⟩
  cases effect with
  | putFresh absent => exact rewritten (fun _ => (find_resized _).trans find_insertNew) (.inl rfl)
  | putReserved held _ rewrites | cancelled held _ rewrites =>
    exact rewritten rewrites.find (.inr ⟨_, held, rfl, rfl⟩)
  | putRefused | getMissed | reserveRefused | cancelRefused => exact .inr ⟨kept, found, rfl, rfl⟩
  | getQueued held | reserveHeld held =>
    exact rewritten (fun _ => find_store) (.inr ⟨_, held, rfl, rfl⟩)
  | getDelivered held ready unlisted sizes find => exact rewritten find (.inl rfl)
  | reserveFresh absent => exact rewritten (fun _ => find_insertNew) (.inl rfl)
  | done ran => exact absurd rfl (notDone _)

/-- A call that evicts nothing keeps slots and nodes linked. -/
theorem effect_linked (linked : Linked cache fun _ => True)
    (effect : Effect number cache op ret next delivered) (spared : ¬ Evicts cache op) :
    Linked next fun _ => True := by
  by_cases done : ∃ key, op = .doneWith key
  · obtain ⟨key, rfl⟩ := done
    cases effect with
    | done ran =>
      obtain ⟨released, dropped, list, find⟩ := doneWith_spared ran spared
      have kept := release_linked linked dropped
      exact ⟨by rw [list, find]; exact kept.nodes, by rw [list, find]; exact kept.refs⟩
  · have notDone : ∀ key, op ≠ .doneWith key := fun key same => done ⟨key, same⟩
    have stays (other : κ) (old : CacheEntry δ Nat) (was : cache.find other = some old) :
        ∃ kept, next.find other = some kept ∧ kept.ref = old.ref :=
          effect_keeps_slots effect notDone was
    have unchanged (same : next.freeList = cache.freeList) : Linked next fun _ => True := by
      refine linked.shrink stays (fun node member => same ▸ member)
        fun other kept node _ there names => ?_
      obtain idle | ⟨entry, was, ref, named⟩ := effect_node effect notDone there
      · simp [idle] at names
      · exact ⟨trivial, ⟨entry, was, ref, named.trans names⟩, fun _ _ member => same.symm ▸ member⟩
    cases effect with
    | putFresh | putRefused | getMissed | getQueued | reserveFresh | reserveHeld | reserveRefused
    | cancelRefused => exact unchanged rfl
    | putReserved _ _ rewrites | cancelled _ _ rewrites => exact unchanged rewrites.freeList
    | @getDelivered key entry next held ready unlisted sizes find =>
      cases unlisted with
      | idle _ same => exact unchanged same
      | @listed node names removed =>
        have own := linked.refs key entry node trivial held names
        refine linked.shrink stays (fun member among => ?_) fun other kept another _ there named =>
          ?_
        · rw [FastFifo.removeNode_nodes removed] at among
          exact (List.mem_filter.mp among).1
        · rw [find] at there
          split at there
          · cases there
            cases named
          · rename_i different
            refine ⟨trivial, ⟨kept, there, rfl, named⟩, ?_⟩
            intro ptr name member
            apply FastFifo.removeNode_keeps removed own member
            rintro rfl
            exact different name.symm
    | done ran => exact absurd rfl (notDone _)

end Calls

section Lives

variable {quota : Nat} {life after : Life κ δ} {step : Step κ δ}

theorem accepted_record (calls : List (Call κ δ)) (cache next : Cache κ δ Nat) (op : Op κ δ)
    (ret : Bool) (delivered : List (Delivery δ)) :
    accepted (calls ++ [record cache next op ret delivered]) =
      accepted calls ++ if ret then (buffer op).toList else [] := by
  cases ret with
  | false => simp [accepted, record]
  | true => cases handedOver : buffer op <;> simp [accepted, handed, record, handedOver]

/-- The buffer a step replaces. -/
def lost (life : Life κ δ) : Step κ δ → Option δ
  | .call op => replaced life.run.cache op
  | .destroy _ => none

theorem spares_iff : Spares life step ↔ (∀ op, step = .call op → ¬ Evicts life.run.cache op) ∧
    lost life step = none := by
  cases step with
  | call op => simp [Spares, lost]
  | destroy order => simp [Spares, lost]

variable [DecidableEq δ]

/-- What was accepted lies in the slots or was freed, and no slot was read after it
left `cacheMap_`. -/
def Settled (life : Life κ δ) : Prop :=
  (∀ buf, (accepted life.run.calls).count buf = held buf life.run.cache +
    (frees life.accesses).count buf) ∧
    ∀ access ∈ life.accesses, access.present = true

/-- No buffer was freed, or lies in a slot, more often than it was accepted. -/
def Bounded (life : Life κ δ) : Prop :=
  ∀ buf, held buf life.run.cache + (frees life.accesses).count buf ≤ (accepted life.run.calls).count
    buf

/-- What a step does to the ledger. -/
theorem exec_ledger (allowed : (lives κ δ quota).allowed life step)
    (ran : exec life step = .ok after) (buf : δ) :
    ∃ gained, (accepted after.run.calls).count buf = (accepted life.run.calls).count buf + gained ∧
      held buf after.run.cache + (frees after.accesses).count buf + (lost life step).toList.count
      buf =
        held buf life.run.cache + (frees life.accesses).count buf + gained := by
  cases step with
  | call op =>
    obtain ⟨run, called, ran⟩ := bind_returns.mp ran
    obtain ⟨accesses, accessed, ran⟩ := bind_returns.mp ran
    cases ran
    obtain ⟨ret, delivered, effect, calls⟩ := exec_effect called
    have balance := effect_held effect accessed buf
    refine ⟨if ret then (buffer op).toList.count buf else 0, ?_, ?_⟩
    · rw [calls, accepted_record, List.count_append]
      cases ret <;> simp
    · simp only [frees_append, List.count_append, lost]
      omega
  | destroy order =>
    obtain ⟨⟨accesses, cache⟩, destroyed, ran⟩ := bind_returns.mp ran
    cases ran
    obtain ⟨freed, gone⟩ := (destroy_frees allowed.2 destroyed).1 buf
    refine ⟨0, rfl, ?_⟩
    simp only [frees_append, List.count_append, lost, Option.toList_none, List.count_nil]
    omega

/-- A step reads a slot that is gone exactly when it evicts one. -/
theorem exec_present (allowed : (lives κ δ quota).allowed life step)
    (ran : exec life step = .ok after) :
    (∀ access ∈ after.accesses, access.present = true) ↔
      (∀ access ∈ life.accesses, access.present = true) ∧
        ∀ op, step = .call op → ¬ Evicts life.run.cache op := by
  cases step with
  | call op =>
    obtain ⟨run, called, ran⟩ := bind_returns.mp ran
    obtain ⟨accesses, accessed, ran⟩ := bind_returns.mp ran
    cases ran
    have now : (∀ access ∈ accesses, access.present = true) ↔ ¬ Evicts life.run.cache op := by
      cases op with
      | doneWith key => exact doneWith_present accessed
      | put | get | reserve | cancelReservation =>
        cases accessed
        exact iff_of_true nofun id
    simp only [List.forall_mem_append, now, Step.call.injEq, forall_eq']
  | destroy order =>
    obtain ⟨⟨accesses, cache⟩, destroyed, ran⟩ := bind_returns.mp ran
    cases ran
    have now := (destroy_frees allowed.2 destroyed).2
    simp only [List.forall_mem_append]
    exact ⟨fun all => ⟨all.1, nofun⟩, fun all => ⟨all.1, now⟩⟩

theorem exec_bounded (bounded : Bounded life) (allowed : (lives κ δ quota).allowed life step)
    (ran : exec life step = .ok after) : Bounded after := by
  intro buf
  obtain ⟨gained, more, moved⟩ := exec_ledger allowed ran buf
  have before := bounded buf
  omega

/-- A step keeps a settled life settled exactly when it evicts nothing and
replaces no buffer. -/
theorem exec_settled (bounded : Bounded life) (allowed : (lives κ δ quota).allowed life step)
    (ran : exec life step = .ok after) : Settled after ↔ Settled life ∧ Spares life step := by
  have present := exec_present allowed ran
  rw [spares_iff]
  constructor
  · rintro ⟨balance, read⟩
    obtain ⟨before, kept⟩ := present.mp read
    have same (buf : δ) : (accepted life.run.calls).count buf =
        held buf life.run.cache + (frees life.accesses).count buf ∧
          (lost life step).toList.count buf = 0 := by
      obtain ⟨gained, more, moved⟩ := exec_ledger allowed ran buf
      have now := balance buf
      have bound := bounded buf
      omega
    refine ⟨⟨fun buf => (same buf).1, before⟩, kept, ?_⟩
    cases found : lost life step with
    | none => rfl
    | some buf => simpa [found] using (same buf).2
  · rintro ⟨⟨balance, before⟩, kept, spared⟩
    refine ⟨?_, present.mpr ⟨before, kept⟩⟩
    intro buf
    obtain ⟨gained, more, moved⟩ := exec_ledger allowed ran buf
    rw [spared] at moved
    have was := balance buf
    simp only [Option.toList_none, List.count_nil] at moved
    omega

omit [DecidableEq κ] in
/-- After `~Cache`, a settled life is one in which every buffer was freed as it
should be. -/
theorem settled_owned (empty : ∀ buf, held buf life.run.cache = 0) : Settled life ↔ Owned life := by
  constructor
  · rintro ⟨balance, present⟩
    have settled : (frees life.accesses).Perm (accepted life.run.calls) :=
      List.perm_iff_count.mpr fun buf => by rw [balance buf, empty buf, Nat.zero_add]
    have within : (accepted life.run.calls).Sublist (handed life.run.calls) :=
      List.Sublist.filterMap _ List.filter_sublist
    refine ⟨settled, ?_, ?_, present⟩
    · intro distinct buf member
      rw [settled.count_eq]
      exact List.count_eq_one_of_mem (within.nodup distinct) member
    · intro distinct buf member freed
      have parts : (accepted life.run.calls ++ refused life.run.calls).Perm
        (handed life.run.calls) := by
        have split := (List.filter_append_perm (·.ret) life.run.calls).filterMap fun call =>
          buffer call.op
        rwa [List.filterMap_append] at split
      have apart := List.disjoint_of_nodup_append (parts.nodup_iff.mpr distinct)
      exact apart (settled.mem_iff.mp freed) member
  · intro owned
    refine ⟨?_, owned.present⟩
    intro buf
    rw [empty buf, Nat.zero_add]
    exact (owned.settled.count_eq buf).symm

omit [DecidableEq δ] in
/-- As long as nothing is evicted, nodes and slots stay linked. -/
theorem exec_linked (linked : life.destroyed = false → Linked life.run.cache fun _ => True)
    (ran : exec life step = .ok after) (spares : Spares life step) :
    after.destroyed = false → Linked after.run.cache fun _ => True := by
  cases step with
  | call op =>
    obtain ⟨run, called, ran⟩ := bind_returns.mp ran
    obtain ⟨accesses, accessed, ran⟩ := bind_returns.mp ran
    cases ran
    obtain ⟨ret, delivered, effect, calls⟩ := exec_effect called
    intro alive
    exact effect_linked (linked alive) effect spares.1
  | destroy order =>
    obtain ⟨result, destroyed, ran⟩ := bind_returns.mp ran
    cases ran
    nofun

/-- **Every accepted buffer is freed once, and slots are read while they are there,
as long as nothing is evicted and nothing replaced.** In every run that ends with
`~Cache`, the buffers are freed as they should be exactly when no call evicts a
slot or replaces a buffer. -/
theorem owned_iff_spares {attempts : List (Life κ δ × Step κ δ)} {order : List κ}
    {outcome : Except Fault (Life κ δ)}
    (run : Run (lives κ δ quota) (attempts ++ [(life, .destroy order)]) outcome) :
    (∃ ended, outcome = .ok ended ∧ Owned ended) ↔ ∀ attempt ∈ attempts,
    Spares attempt.1 attempt.2 := by
  obtain ⟨before, allowed, same⟩ := run.last
  have settles {ended : Life κ δ} (ran : exec life (.destroy order) = .ok ended) :
      Owned ended ↔ ∀ attempt ∈ attempts, Spares attempt.1 attempt.2 := by
    obtain ⟨⟨accesses, cache⟩, destroyed, made⟩ := bind_returns.mp ran
    cases made
    rw [← settled_owned fun buf => ((destroy_frees allowed.2 destroyed).1 buf).2]
    have ended := run
    rw [same, show (lives κ δ quota).exec life (.destroy order) = .ok _ from ran] at ended
    rw [ended.exact_state Bounded Settled Spares ⟨fun buf => Nat.le_refl _, fun buf => rfl, nofun⟩
      (fun state step next bounded allowed ran => exec_bounded bounded allowed ran)
      (fun state step next bounded allowed ran => exec_settled bounded allowed ran)]
    simp only [List.forall_mem_append, List.forall_mem_singleton]
    exact and_iff_left trivial
  constructor
  · rintro ⟨ended, rfl, owned⟩
    exact (settles same.symm).mp owned
  · intro spares
    have linked :=
      before.guarded (fun life => life.destroyed = false → Linked life.run.cache fun _ =>
        True) Spares
      (fun _ => ⟨nofun, nofun⟩) (fun state step next linked _ spared ran =>
        exec_linked linked ran spared) spares
    obtain ⟨⟨accesses, cache⟩, destroyed⟩ := destroy_returns (linked allowed.1) allowed.2
    have ran : exec life (.destroy order) = .ok
        { run := { life.run with cache }, accesses := life.accesses ++ accesses, destroyed := true } := by
      simp only [exec, destroyed, bind, Except.bind, pure, Except.pure]
    exact ⟨_, same.trans ran, (settles ran).mpr spares⟩

/-- A buffer is put and released, a second one for its key is refused, and a third
fills a reserved slot. -/
def withinQuota : List (Step (List Char) Nat) :=
  [.call (.put ['a'] (some 1) 4), .call (.put ['a'] (some 2) 4), .call (.doneWith ['a']),
    .call (.reserve ['b']),
    .call (.put ['b'] (some 3) 4)]

theorem owned_iff_spares_run :
    ∃ attempts ended, Run (lives (List Char) Nat 4) attempts (.ok ended) ∧
      attempts.map Prod.snd = withinQuota ++ [.destroy [['b'], ['a']]] ∧ Owned ended := by
  obtain ⟨life, ran, allowed⟩ : ∃ life,
      (lives (List Char) Nat 4).replay (lives (List Char) Nat 4).start withinQuota = .ok life ∧
        (lives (List Char) Nat 4).allowed life (.destroy [['b'], ['a']]) := ⟨_, rfl, by decide⟩
  have before := replayed (lives (List Char) Nat 4) withinQuota (by decide)
  rw [ran] at before
  obtain ⟨ended, same, owned⟩ := (owned_iff_spares (before.step allowed)).mpr (by decide)
  exact ⟨_, ended, same ▸ before.step allowed, rfl, owned⟩

/-- Releasing a slot when the quota is exceeded reads the slot after erasing it, and
filling a slot that was reserved again drops the buffer in it. -/
theorem misowned :
    (∃ attempts ended, Run (lives (List Char) Nat 0) attempts (.ok ended) ∧
      attempts.map Prod.snd = [.call (.put ['a'] (some 1) 4), .call (.doneWith ['a']),
      .destroy []] ∧
        .dataRead ⟨['a'], 0⟩ false ∈ ended.accesses ∧ ¬ Owned ended) ∧
      ∃ attempts ended, Run (lives (List Char) Nat 8) attempts (.ok ended) ∧
        attempts.map Prod.snd = [.call (.put ['a'] (some 1) 4), .call (.reserve ['a']),
          .call (.put ['a'] (some 2) 4), .destroy [['a']]] ∧
        1 ∈ accepted ended.run.calls ∧ 1 ∉ frees ended.accesses ∧ ¬ Owned ended := by
  constructor
  · refine ⟨_, _, replayed (lives (List Char) Nat 0)
      [.call (.put ['a'] (some 1) 4), .call (.doneWith ['a']), .destroy []] (by decide),
      rfl, by decide, ?_⟩
    intro owned
    have present := owned.present (.dataRead ⟨['a'], 0⟩ false) (by decide)
    cases present
  · refine ⟨_, _, replayed (lives (List Char) Nat 8)
      [.call (.put ['a'] (some 1) 4), .call (.reserve ['a']), .call (.put ['a'] (some 2) 4),
        .destroy [['a']]]
      (by decide), rfl, by decide, by decide, ?_⟩
    intro owned
    have freed := owned.settled.mem_iff.mpr (show 1 ∈ _ by decide)
    revert freed
    decide

end Lives

end EventDisp.CacheBuffers
