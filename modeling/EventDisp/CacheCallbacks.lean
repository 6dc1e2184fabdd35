import Mathlib.Data.Nat.Find
import Mathlib.Data.List.Induction
import EventDisp.CacheEffects

/-! Which call invokes a callback handed to `get`. The queue of a slot is not
emptied when its reservation is resolved, and it goes away with an evicted slot,
so a run can invoke a callback twice or lose it. -/
namespace EventDisp.CacheCallbacks

open Cache CacheRuns Execution

variable {κ δ : Type} [DecidableEq κ] {quota number : Nat}
variable {cache next : Cache κ δ Nat} {state after : State κ δ} {op : Op κ δ} {ret : Bool}
variable {delivered : List (Delivery δ)} {key : κ} {calls : List (Call κ δ)} {call : Call κ δ}

/-- The call resolves a reservation of the key, if there is one. -/
def Resolves (key : κ) : Op κ δ → Prop
  | .put name _ _ | .cancelReservation name => name = key
  | .get _ | .reserve _ | .doneWith _ => False

def Gets (key : κ) : Op κ δ → Prop
  | .get name => name = key
  | .put .. | .reserve _ | .cancelReservation _ | .doneWith _ => False

instance (key : κ) : DecidablePred (Resolves key : Op κ δ → Prop)
  | .put name _ _ | .cancelReservation name => inferInstanceAs (Decidable (name = key))
  | .get _ | .reserve _ | .doneWith _ => isFalse id

instance (key : κ) : DecidablePred (Gets key : Op κ δ → Prop)
  | .get name => inferInstanceAs (Decidable (name = key))
  | .put .. | .reserve _ | .cancelReservation _ | .doneWith _ => isFalse id

/-- A `get` on the key that left its callback on the queue. -/
def Queued (key : κ) (call : Call κ δ) : Prop :=
  Gets key call.op ∧ call.ret = true ∧ call.delivered = []

instance (key : κ) : DecidablePred (Queued key : Call κ δ → Prop) := fun call =>
  inferInstanceAs (Decidable (Gets key call.op ∧ call.ret = true ∧ call.delivered = []))

/-- Call `number` of the run queued its callback on the key. -/
def QueuedOn (calls : List (Call κ δ)) (key : κ) (number : Nat) : Prop :=
  ∃ call, calls[number]? = some call ∧ Queued key call

/-- No call since call `number` has resolved a reservation of the key. -/
def UnresolvedSince (calls : List (Call κ δ)) (key : κ) (number : Nat) : Prop :=
  ∀ later call, number < later → calls[later]? = some call → ¬ Resolves key call.op

/-- Call `later` is the first after call `number` to resolve the key. -/
structure FirstResolver (calls : List (Call κ δ)) (key : κ) (number later : Nat) : Prop where
  after : number < later
  resolves : ∃ call, calls[later]? = some call ∧ Resolves key call.op
  first : UnresolvedSince (calls.take later) key number

/-- Every callback is invoked at most once, and a queued one exactly by the first
later call that resolves a reservation of its key. -/
def InvokedOnce (calls : List (Call κ δ)) : Prop :=
  (invoked calls).Nodup ∧
    ∀ key number, QueuedOn calls key number → ∀ later call, calls[later]? = some call →
      (number ∈ call.delivered.map Prod.fst ↔ FirstResolver calls key number later)

/-- The callbacks queued on a key since it was last resolved. -/
def waiting (key : κ) (calls : List (Call κ δ)) : List Nat :=
  calls.zipIdx.foldl (fun queue (call, number) =>
    if Resolves key call.op then []
    else if Queued key call then queue ++ [number]
    else queue) []

/-- The callbacks resolving the key would invoke. -/
def pending (cache : Cache κ δ Nat) (key : κ) : List Nat :=
  match cache.find key with
  | some entry => if entry.isReserved then entry.queue else []
  | none => []

/-- A call that resolves a key finds no callback of an earlier reservation on the
slot's queue, and the slot the waiting callbacks are on has not been evicted. -/
def QueueCurrent (state : State κ δ) : Op κ δ → Prop
  | .put key _ _ | .cancelReservation key =>
    (∀ callback ∈ pending state.cache key, callback ∉ invoked state.calls) ∧
      ∀ callback ∈ waiting key state.calls, callback ∈ pending state.cache key
  | .get _ | .reserve _ | .doneWith _ => True

instance (state : State κ δ) : DecidablePred (QueueCurrent state)
  | .put key _ _ | .cancelReservation key =>
    inferInstanceAs (Decidable ((∀ callback ∈ pending state.cache key,
    callback ∉ invoked state.calls) ∧
      ∀ callback ∈ waiting key state.calls, callback ∈ pending state.cache key))
  | .get _ | .reserve _ | .doneWith _ => isTrue trivial

omit [DecidableEq κ] in
private theorem not_resolves_of_gets (gets : Gets key op) : ¬ Resolves key op := by
  cases op with
  | get => exact id
  | put | reserve | cancelReservation | doneWith => exact gets.elim

omit [DecidableEq κ] in
private theorem getElem?_snoc {calls : List (Call κ δ)} {last call : Call κ δ} {i : Nat} :
    (calls ++ [last])[i]? = some call ↔ calls[i]? = some call ∨
    (i = calls.length ∧ last = call) := by
  rcases Nat.lt_trichotomy i calls.length with inside | rfl | beyond
  · rw [List.getElem?_append_left inside]
    simp [Nat.ne_of_lt inside]
  · simp
  · rw [List.getElem?_append_right (by omega), List.getElem?_eq_none (l := calls) (by omega)]
    simp only [reduceCtorEq, Nat.ne_of_gt beyond, false_and, or_false, iff_false]
    rw [List.getElem?_eq_none (by simp; omega)]
    nofun

omit [DecidableEq κ] in
private theorem queuedOn_lt (queued : QueuedOn calls key number) : number < calls.length := by
  obtain ⟨_, at_number, _⟩ := queued
  exact (List.getElem?_eq_some_iff.mp at_number).1

omit [DecidableEq κ] in
private theorem queuedOn_snoc :
    QueuedOn (calls ++ [call]) key number ↔
      QueuedOn calls key number ∨ (number = calls.length ∧ Queued key call) := by
  simp only [QueuedOn, getElem?_snoc]
  constructor
  · rintro ⟨found, here | ⟨rfl, rfl⟩, queued⟩
    · exact .inl ⟨found, here, queued⟩
    · exact .inr ⟨rfl, queued⟩
  · rintro (⟨found, here, queued⟩ | ⟨rfl, queued⟩)
    · exact ⟨found, .inl here, queued⟩
    · exact ⟨call, .inr ⟨rfl, rfl⟩, queued⟩

omit [DecidableEq κ] in
private theorem unresolvedSince_snoc :
    UnresolvedSince (calls ++ [call]) key number ↔
      UnresolvedSince calls key number ∧ (number < calls.length → ¬ Resolves key call.op) := by
  simp only [UnresolvedSince, getElem?_snoc]
  constructor
  · intro unresolved
    exact ⟨fun later found after here => unresolved later found after (.inl here),
      fun before => unresolved calls.length call before (.inr ⟨rfl, rfl⟩)⟩
  · rintro ⟨unresolved, last⟩ later found after (here | ⟨rfl, rfl⟩)
    · exact unresolved later found after here
    · exact last after

private theorem waiting_snoc :
    waiting key (calls ++ [call]) =
      if Resolves key call.op then []
      else if Queued key call then waiting key calls ++ [calls.length]
      else waiting key calls := by
  simp [waiting, List.zipIdx_append]

/-- The waiting callbacks are those queued and not resolved since. -/
theorem mem_waiting :
    number ∈ waiting key calls ↔ QueuedOn calls key number ∧ UnresolvedSince calls key number := by
  induction calls using List.reverseRecOn with
  | nil => simp [waiting, QueuedOn]
  | append_singleton calls call ih =>
    rw [waiting_snoc, queuedOn_snoc, unresolvedSince_snoc]
    split
    · rename_i resolves
      simp only [List.not_mem_nil, false_iff, not_and]
      rintro (queued | ⟨rfl, queued⟩) _
      · intro unresolved
        exact unresolved (queuedOn_lt queued) resolves
      · exact absurd resolves (not_resolves_of_gets queued.1)
    · rename_i unresolving
      have unresolvedAfter : UnresolvedSince calls key calls.length :=
        fun later found after here => by
        have := (List.getElem?_eq_some_iff.mp here).1
        omega
      split
      · rename_i queued
        simp only [List.mem_append, List.mem_singleton, ih]
        constructor
        · rintro (⟨before, unresolved⟩ | rfl)
          · exact ⟨.inl before, unresolved, fun _ => unresolving⟩
          · exact ⟨.inr ⟨rfl, queued⟩, unresolvedAfter, fun _ => unresolving⟩
        · rintro ⟨before | ⟨rfl, _⟩, unresolved, _⟩
          · exact .inl ⟨before, unresolved⟩
          · exact .inr rfl
      · rename_i unqueued
        rw [ih]
        constructor
        · rintro ⟨before, unresolved⟩
          exact ⟨.inl before, unresolved, fun _ => unresolving⟩
        · rintro ⟨before | ⟨_, queued⟩, unresolved, _⟩
          · exact ⟨before, unresolved⟩
          · exact absurd queued unqueued

omit [DecidableEq κ] in
private theorem firstResolver_snoc {later : Nat} (earlier : later < calls.length) :
    FirstResolver (calls ++ [call]) key number later ↔ FirstResolver calls key number later := by
  have shorter : (calls ++ [call]).take later = calls.take later := by
    rw [List.take_append_of_le_length (by omega)]
  constructor <;> rintro ⟨after, resolves, first⟩
  · exact ⟨after, by rwa [List.getElem?_append_left earlier] at resolves, shorter ▸ first⟩
  · exact ⟨after, by rwa [List.getElem?_append_left earlier], shorter ▸ first⟩

private theorem firstResolver_last (queued : QueuedOn calls key number) :
    FirstResolver (calls ++ [call]) key number calls.length ↔
      Resolves key call.op ∧ number ∈ waiting key calls := by
  constructor
  · rintro ⟨_, ⟨found, here, resolves⟩, first⟩
    simp only [List.length_append, List.length_singleton, Nat.lt_add_one, getElem?_pos,
      List.getElem_concat_length, Option.some.injEq] at here
    subst here
    exact ⟨resolves, mem_waiting.mpr ⟨queued, by simpa using first⟩⟩
  · rintro ⟨resolves, waits⟩
    exact ⟨queuedOn_lt queued, ⟨call, by simp, resolves⟩, by simpa using (mem_waiting.mp waits).2⟩

/-- What one more call has to do for the history to stay right. -/
private theorem invokedOnce_snoc (numbered : ∀ callback ∈ invoked calls, callback < calls.length) :
    InvokedOnce (calls ++ [call]) ↔ InvokedOnce calls ∧
      (call.delivered.map Prod.fst).Nodup ∧
      (∀ callback ∈ call.delivered.map Prod.fst, callback ∉ invoked calls) ∧
      ∀ key number, QueuedOn calls key number →
        (number ∈ call.delivered.map Prod.fst ↔ Resolves key call.op ∧
          number ∈ waiting key calls) := by
  have last : invoked [call] = call.delivered.map Prod.fst := by simp [invoked]
  simp only [InvokedOnce, invoked_append, last, List.nodup_append]
  constructor
  · rintro ⟨⟨before, fresh, apart⟩, exact⟩
    refine ⟨⟨before, ?_⟩, fresh,
      fun callback member old => apart callback old callback member rfl, ?_⟩
    · intro key number queued later found here
      have inside := (List.getElem?_eq_some_iff.mp here).1
      rw [← firstResolver_snoc inside]
      exact exact key number (queuedOn_snoc.mpr (.inl queued)) later found
        (getElem?_snoc.mpr (.inl here))
    · intro key number queued
      rw [← firstResolver_last queued]
      exact exact key number (queuedOn_snoc.mpr (.inl queued)) calls.length call (by simp)
  · rintro ⟨⟨before, exact⟩, fresh, apart, resolved⟩
    refine ⟨⟨before, fresh, ?_⟩, ?_⟩
    · rintro callback old _ member rfl
      exact apart callback member old
    · intro key number queued later found here
      rcases getElem?_snoc.mp here with earlier | ⟨rfl, rfl⟩
      · have inside := (List.getElem?_eq_some_iff.mp earlier).1
        rw [firstResolver_snoc inside]
        rcases queuedOn_snoc.mp queued with before | ⟨rfl, own⟩
        · exact exact key number before later found earlier
        · refine iff_of_false (fun member => ?_) (fun first => by have := first.after; omega)
          have old : calls.length ∈ invoked calls :=
            List.mem_flatMap.mpr ⟨found, List.mem_of_getElem? earlier, member⟩
          exact absurd (numbered _ old) (Nat.lt_irrefl _)
      · rcases queuedOn_snoc.mp queued with before | ⟨rfl, own⟩
        · rw [firstResolver_last before]
          exact resolved key number before
        · simp only [own.2.2, List.map_nil, List.not_mem_nil, false_iff]
          intro first
          exact absurd first.after (Nat.lt_irrefl _)

/-- What a resolving call invokes: the queue of the slot, as it is. -/
private theorem effect_pending (effect : Effect number cache op ret next delivered)
    (resolves : Resolves key op) :
    delivered.map Prod.fst = pending cache key := by
  cases effect with
  | getMissed | getQueued | getDelivered | reserveFresh | reserveHeld | reserveRefused | done =>
    exact resolves.elim
  | putFresh absent =>
    obtain rfl := resolves
    simp [pending, absent]
  | putReserved held reserved rewrites =>
    obtain rfl := resolves
    simp [pending, held, reserved, Function.comp_def]
  | putRefused held occupied =>
    obtain rfl := resolves
    simp [pending, held, occupied]
  | cancelled held reserved =>
    obtain rfl := resolves
    simp [pending, held, reserved, Function.comp_def]
  | cancelRefused unreserved =>
    obtain rfl := resolves
    unfold pending
    split
    · rename_i entry held
      simp [unreserved entry held]
    · rfl

/-- Any other call invokes at most its own callback. -/
private theorem effect_own (effect : Effect number cache op ret next delivered)
    (unresolving : ∀ key, ¬ Resolves key op) :
    delivered.map Prod.fst = [] ∨ delivered.map Prod.fst = [number] := by
  cases effect with
  | getDelivered => simp
  | getMissed | getQueued | reserveFresh | reserveHeld | reserveRefused | done => simp
  | putFresh | putReserved | putRefused | cancelled | cancelRefused =>
    exact absurd rfl (unresolving _)

/-- The queues hold numbers of `get` calls on their own key, each once, and only
callbacks handed over so far were invoked. -/
structure Numbering (state : State κ δ) : Prop where
  queued : ∀ key entry, state.cache.find key = some entry →
    ∀ callback ∈ entry.queue, QueuedOn state.calls key callback
  once : ∀ key entry, state.cache.find key = some entry → entry.queue.Nodup
  invoked : ∀ callback ∈ invoked state.calls, callback < state.calls.length

private theorem numbering_step (numbering : Numbering state) (ran : exec state op = .ok after) :
    Numbering after := by
  obtain ⟨ret, delivered, effect, calls⟩ := exec_effect ran
  have earlier {key : κ} {callback : Nat} (queued : QueuedOn state.calls key callback) :
      QueuedOn after.calls key callback := by
    rw [calls, queuedOn_snoc]
    exact .inl queued
  have cases (key : κ) (kept : CacheEntry δ Nat) (found : after.cache.find key = some kept) :
      (∀ callback ∈ kept.queue, QueuedOn after.calls key callback) ∧ kept.queue.Nodup := by
    rcases effect_queue effect found with
      ⟨entry, held, same⟩ | empty | ⟨rfl, rfl, rfl, entry, held, longer⟩
    · rw [same]
      exact ⟨fun callback member => earlier (numbering.queued key entry held callback member),
        numbering.once key entry held⟩
    · simp [empty]
    · rw [longer]
      have own : QueuedOn after.calls key state.calls.length := by
        rw [calls, queuedOn_snoc]
        exact .inr ⟨rfl, rfl, rfl, rfl⟩
      refine ⟨List.forall_mem_append.mpr ⟨fun callback member =>
        earlier (numbering.queued key entry held callback member), by simpa using own⟩, ?_⟩
      refine List.nodup_append.mpr ⟨numbering.once key entry held, List.nodup_singleton _, ?_⟩
      rintro callback member _ new rfl
      obtain rfl := List.mem_singleton.mp new
      exact absurd (queuedOn_lt (numbering.queued key entry held _ member)) (Nat.lt_irrefl _)
  refine ⟨fun key kept found => (cases key kept found).1, fun key kept found =>
    (cases key kept found).2, ?_⟩
  intro callback member
  simp only [calls, invoked_append, List.mem_append, List.length_append,
    List.length_singleton] at member ⊢
  rcases member with old | new
  · exact Nat.lt_succ_of_lt (numbering.invoked callback old)
  · replace new : callback ∈ delivered.map Prod.fst := by simpa [invoked, record] using new
    by_cases resolving : ∃ key, Resolves key op
    · obtain ⟨key, resolves⟩ := resolving
      rw [effect_pending effect resolves] at new
      unfold pending at new
      split at new
      · rename_i entry held
        split at new
        · exact Nat.lt_succ_of_lt (queuedOn_lt (numbering.queued key entry held callback new))
        · simp at new
      · simp at new
    · rcases effect_own effect (fun key resolves => resolving ⟨key, resolves⟩) with nothing | own
      · simp [nothing] at new
      · rw [own, List.mem_singleton] at new
        omega

omit [DecidableEq κ] in
private theorem queuedOn_key {other : κ} (one : QueuedOn calls key number)
    (two : QueuedOn calls other number) :
    key = other := by
  obtain ⟨call, here, gets, _⟩ := one
  obtain ⟨_, again, getsOther, _⟩ := two
  rw [here] at again
  cases again
  cases shape : call.op with
  | get name =>
    rw [shape] at gets getsOther
    exact gets.symm.trans getsOther
  | put | reserve | cancelReservation | doneWith =>
    rw [shape] at gets
    exact gets.elim

omit [DecidableEq κ] in
private theorem resolves_key {other : κ} (one : Resolves key op) (two : Resolves other op) :
    key = other := by
  cases op with
  | put | cancelReservation => exact one.symm.trans two
  | get | reserve | doneWith => exact one.elim

private theorem queueCurrent_iff (resolves : Resolves key op) :
    QueueCurrent state op ↔ (∀ callback ∈ pending state.cache key, callback ∉ invoked state.calls) ∧
      ∀ callback ∈ waiting key state.calls, callback ∈ pending state.cache key := by
  cases op with
  | put | cancelReservation =>
    obtain rfl := resolves
    rfl
  | get | reserve | doneWith => exact resolves.elim

private theorem queueCurrent_trivial (unresolving : ∀ key, ¬ Resolves key op) :
    QueueCurrent state op := by
  cases op with
  | put | cancelReservation => exact absurd rfl (unresolving _)
  | get | reserve | doneWith => trivial

omit [DecidableEq κ] in
/-- In a right history a callback whose key was resolved has been invoked. -/
private theorem resolved_invoked (once : InvokedOnce calls) (queued : QueuedOn calls key number)
    (resolved : ¬ UnresolvedSince calls key number) : number ∈ invoked calls := by
  classical
  have some_resolver : ∃ later, number < later ∧
      ∃ call, calls[later]? = some call ∧ Resolves key call.op := by
    simp only [UnresolvedSince, not_forall, not_not] at resolved
    obtain ⟨later, call, after, here, resolves⟩ := resolved
    exact ⟨later, after, call, here, resolves⟩
  obtain ⟨after, call, here, resolves⟩ := Nat.find_spec some_resolver
  have first : FirstResolver calls key number (Nat.find some_resolver) := by
    refine ⟨after, ⟨call, here, resolves⟩, ?_⟩
    intro later found since there resolvesToo
    rw [List.getElem?_take] at there
    split at there
    · rename_i before
      exact Nat.find_min some_resolver before ⟨since, found, there, resolvesToo⟩
    · cases there
  exact List.mem_flatMap.mpr
    ⟨call, List.mem_of_getElem? here, ((once.2 key number queued _ call here).mpr first)⟩

/-- One call keeps the history right exactly when the queue it resolves is
current. -/
private theorem invokedOnce_step (numbering : Numbering state) (ran : exec state op = .ok after) :
    InvokedOnce after.calls ↔ InvokedOnce state.calls ∧ QueueCurrent state op := by
  obtain ⟨ret, delivered, effect, calls⟩ := exec_effect ran
  rw [calls, invokedOnce_snoc numbering.invoked]
  apply and_congr_right
  intro once
  simp only [record]
  by_cases resolving : ∃ key, Resolves key op
  · obtain ⟨key, resolves⟩ := resolving
    rw [queueCurrent_iff resolves, effect_pending effect resolves]
    have held (callback : Nat) (member : callback ∈ pending state.cache key) :
        QueuedOn state.calls key callback := by
      unfold pending at member
      split at member
      · split at member
        · exact numbering.queued _ _ (by assumption) callback member
        · simp at member
      · simp at member
    constructor
    · rintro ⟨_, apart, resolved⟩
      refine ⟨apart, ?_⟩
      intro callback waits
      exact (resolved key callback (mem_waiting.mp waits).1).mpr ⟨resolves, waits⟩
    · rintro ⟨apart, kept⟩
      refine ⟨?_, apart, fun other callback queued => ⟨?_, ?_⟩⟩
      · unfold pending
        split
        · split
          · exact numbering.once _ _ (by assumption)
          · exact List.nodup_nil
        · exact List.nodup_nil
      · intro member
        obtain rfl := queuedOn_key (held callback member) queued
        refine ⟨resolves, mem_waiting.mpr ⟨queued, ?_⟩⟩
        by_contra resolved
        exact apart callback member (resolved_invoked once queued resolved)
      · rintro ⟨resolvesOther, waits⟩
        obtain rfl := resolves_key resolves resolvesOther
        exact kept callback waits
  · have unresolving : ∀ key, ¬ Resolves key op := fun key resolves => resolving ⟨key, resolves⟩
    refine iff_of_true ?_ (queueCurrent_trivial unresolving)
    have apart (callback : Nat) (old : callback < state.calls.length) :
        callback ∉ delivered.map Prod.fst := by
      rcases effect_own effect unresolving with nothing | own
      · simp [nothing]
      · rw [own, List.mem_singleton]
        omega
    refine ⟨?_, fun callback member old => apart callback (numbering.invoked callback old) member,
      ?_⟩
    · rcases effect_own effect unresolving with nothing | own
      · simp [nothing]
      · simp [own]
    · intro key callback queued
      exact iff_of_false (apart callback (queuedOn_lt queued)) fun resolved =>
        unresolving key resolved.1

/-- **Callbacks are invoked once as long as queues are current.** A run invokes
every callback at most once, and a queued one exactly by the first call that
resolves its key, exactly when every resolving call finds the slot's queue free
of callbacks of earlier reservations, with every waiting callback on it. -/
theorem invoked_once_iff_queues_current (run : Run (anyClient κ δ quota) attempts (.ok state)) :
    InvokedOnce state.calls ↔ ∀ attempt ∈ attempts, QueueCurrent attempt.1 attempt.2 :=
  run.exact_state Numbering (fun state => InvokedOnce state.calls) QueueCurrent
    ⟨⟨nofun, nofun, nofun⟩, List.nodup_nil, nofun⟩
    (fun _ _ _ numbering _ ran => numbering_step numbering ran)
    (fun _ _ _ numbering _ ran => invokedOnce_step numbering ran)

/-- Two waiters on one reservation, and a third served at once. -/
theorem invoked_once_iff_queues_current_run :
    ∃ state, (anyClient (List Char) Unit 0).replay (anyClient (List Char) Unit 0).start
        [.reserve ['a'], .get ['a'], .get ['a'], .put ['a'] (some ()) 1, .get ['a'], .reserve ['b'],
          .get ['b'], .cancelReservation ['b']] = .ok state ∧ InvokedOnce state.calls :=
  ⟨_, rfl, (invoked_once_iff_queues_current (replayed (anyClient (List Char) Unit 0)
    [.reserve ['a'], .get ['a'], .get ['a'], .put ['a'] (some ()) 1, .get ['a'], .reserve ['b'],
      .get ['b'], .cancelReservation ['b']] (by decide))).mpr (by decide)⟩

/-- The callback of the first reservation is invoked again by the second. -/
theorem second_reservation_invokes_again :
    ∃ attempts state, Run (anyClient (List Char) Unit 0) attempts (.ok state) ∧
      attempts.map Prod.snd =
        [.reserve ['a'], .get ['a'], .put ['a'] (some ()) 1, .reserve ['a'],
          .put ['a'] (some ()) 1] ∧
      invoked state.calls = [1, 1] ∧ ¬ InvokedOnce state.calls :=
  ⟨_, _, replayed (anyClient (List Char) Unit 0)
    [.reserve ['a'], .get ['a'], .put ['a'] (some ()) 1, .reserve ['a'], .put ['a'] (some ()) 1]
    (by decide), rfl, rfl, fun once => by
      have twice : (invoked _).Nodup := once.1
      exact absurd twice (by decide)⟩

end EventDisp.CacheCallbacks
