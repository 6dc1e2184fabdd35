import EventDisp.CacheEffects

/-! What the cache hands out against the history of the key. A reservation that
is cancelled leaves its slot behind, and the slot is then served like one that
was filled. -/
namespace EventDisp.CacheDeliveries

open Cache CacheRuns Execution

variable {κ δ : Type} [DecidableEq κ] {quota : Nat}
variable {next : Cache κ δ Nat} {state after : State κ δ} {op : Op κ δ} {ret : Bool}
variable {delivered : List (Delivery δ)} {key : κ} {calls : List (Call κ δ)} {call : Call κ δ}

/-- The buffer and the size of the most recent successful `put` on the key. -/
def latestPut (key : κ) (calls : List (Call κ δ)) : Option (Option δ × Nat) :=
  calls.foldl (fun latest call =>
    match call.op with
    | .put name buf size => if name = key ∧ call.ret = true then some (buf, size) else latest
    | .get _ | .reserve _ | .cancelReservation _ | .doneWith _ => latest) none

/-- The calls on the key since its slot was inserted. -/
def sinceInserted (key : κ) (calls : List (Call κ δ)) : List (Call κ δ) :=
  calls.foldl (fun since call =>
    if call.op.key = key then if call.created then [call] else since ++ [call]
    else since) []

def IsPut : Op κ δ → Prop
  | .put .. => True
  | .get _ | .reserve _ | .cancelReservation _ | .doneWith _ => False

def IsCancel : Op κ δ → Prop
  | .cancelReservation _ => True
  | .put .. | .get _ | .reserve _ | .doneWith _ => False

instance : DecidablePred (IsPut : Op κ δ → Prop)
  | .put .. => isTrue trivial
  | .get _ | .reserve _ | .cancelReservation _ | .doneWith _ => isFalse id

instance : DecidablePred (IsCancel : Op κ δ → Prop)
  | .cancelReservation _ => isTrue trivial
  | .put .. | .get _ | .reserve _ | .doneWith _ => isFalse id

/-- A `put` has succeeded since the slot was inserted. -/
def Filled (key : κ) (calls : List (Call κ δ)) : Prop :=
  ∃ call ∈ sinceInserted key calls, IsPut call.op ∧ call.ret = true

/-- A reservation was cancelled since the slot was inserted. -/
def Cancelled (key : κ) (calls : List (Call κ δ)) : Prop :=
  ∃ call ∈ sinceInserted key calls, IsCancel call.op ∧ call.ret = true

instance (key : κ) (calls : List (Call κ δ)) : Decidable (Filled key calls) :=
  inferInstanceAs (Decidable (∃ call ∈ sinceInserted key calls, IsPut call.op ∧ call.ret = true))

instance (key : κ) (calls : List (Call κ δ)) : Decidable (Cancelled key calls) :=
  inferInstanceAs (Decidable (∃ call ∈ sinceInserted key calls, IsCancel call.op ∧ call.ret = true))

/-- A delivery carries what the latest `put` on the key stored, and the slot was
filled since it was inserted. -/
def Latest (key : κ) (calls : List (Call κ δ)) (data : CacheData δ) : Prop :=
  data.isCached = true → latestPut key calls = some (data.data, data.size) ∧ Filled key calls

/-- Every delivery of every call is the latest. -/
def DeliversLatest (calls : List (Call κ δ)) : Prop :=
  ∀ index call, calls[index]? = some call → ∀ delivery ∈ call.delivered,
    Latest call.op.key (calls.take (index + 1)) delivery.2

/-- No `get` is served from a slot whose reservation was cancelled and that no
`put` has filled. -/
def AvoidsCancelled (state : State κ δ) : Op κ δ → Prop
  | .get key =>
    match state.cache.find key with
    | some entry => entry.isReserved = false → Cancelled key state.calls → Filled key state.calls
    | none => True
  | .put .. | .reserve _ | .cancelReservation _ | .doneWith _ => True

instance (state : State κ δ) : DecidablePred (AvoidsCancelled state)
  | .get key =>
    match held : state.cache.find key with
    | some entry =>
      decidable_of_iff (entry.isReserved = false → Cancelled key state.calls →
      Filled key state.calls)
        (by simp [AvoidsCancelled, held])
    | none => isTrue (by simp [AvoidsCancelled, held])
  | .put .. | .reserve _ | .cancelReservation _ | .doneWith _ => isTrue trivial

private theorem latestPut_snoc :
    latestPut key (calls ++ [call]) =
      match call.op with
      | .put name buf size =>
        if name = key ∧ call.ret = true then some (buf, size) else latestPut key calls
      | .get _ | .reserve _ | .cancelReservation _ | .doneWith _ => latestPut key calls := by
  simp [latestPut]

private theorem sinceInserted_snoc :
    sinceInserted key (calls ++ [call]) =
      if call.op.key = key then if call.created then [call] else sinceInserted key calls ++ [call]
      else sinceInserted key calls := by
  simp [sinceInserted]

/-- A call that does not insert the slot of the key keeps what happened since the
insertion. -/
private theorem filled_snoc (kept : call.op.key = key → call.created = false) :
    Filled key (calls ++ [call]) ↔
      Filled key calls ∨ (call.op.key = key ∧ IsPut call.op ∧ call.ret = true) := by
  unfold Filled
  rw [sinceInserted_snoc]
  split
  · rename_i own
    rw [if_neg (by simp [kept own])]
    simp [or_and_right, exists_or, own]
  · rename_i other
    simp [other]

private theorem cancelled_snoc (kept : call.op.key = key → call.created = false) :
    Cancelled key (calls ++ [call]) ↔
      Cancelled key calls ∨ (call.op.key = key ∧ IsCancel call.op ∧ call.ret = true) := by
  unfold Cancelled
  rw [sinceInserted_snoc]
  split
  · rename_i own
    rw [if_neg (by simp [kept own])]
    simp [or_and_right, exists_or, own]
  · rename_i other
    simp [other]

private theorem deliversLatest_snoc :
    DeliversLatest (calls ++ [call]) ↔ DeliversLatest calls ∧
      ∀ delivery ∈ call.delivered, Latest call.op.key (calls ++ [call]) delivery.2 := by
  have whole : (calls ++ [call]).take (calls.length + 1) = calls ++ [call] :=
    List.take_of_length_le (by simp)
  constructor
  · intro latest
    constructor
    · intro index found here
      have inside := (List.getElem?_eq_some_iff.mp here).1
      have before := latest index found (by rwa [List.getElem?_append_left inside])
      rwa [List.take_append_of_le_length inside] at before
    · simpa [whole] using latest calls.length call (by simp)
  · rintro ⟨before, last⟩ index found here
    rcases Nat.lt_or_ge index calls.length with inside | beyond
    · rw [List.getElem?_append_left inside] at here
      rw [List.take_append_of_le_length inside]
      exact before index found here
    · rw [List.getElem?_append_right beyond] at here
      obtain ⟨_, rfl⟩ : index - calls.length = 0 ∧ call = found := by
        simpa [List.getElem?_singleton] using here
      obtain rfl : index = calls.length := by omega
      rw [whole]
      exact last

/-- Only a successful `put` on the key is the latest one. -/
private theorem latestPut_quiet (quiet : IsPut call.op → call.op.key = key → call.ret = false) :
    latestPut key (calls ++ [call]) = latestPut key calls := by
  rw [latestPut_snoc]
  cases shape : call.op with
  | put name buf size =>
    rw [shape] at quiet
    exact if_neg fun succeeded => by simp [quiet trivial succeeded.1] at succeeded
  | get | reserve | cancelReservation | doneWith => rfl

/-- What the slots owe to the history. -/
structure History (state : State κ δ) : Prop where
  stored : ∀ key entry, state.cache.find key = some entry → Filled key state.calls →
    latestPut key state.calls = some (entry.data, entry.size)
  opened : ∀ key entry, state.cache.find key = some entry → entry.isReserved = false →
    Filled key state.calls ∨ Cancelled key state.calls

/-- A call that inserts nothing and puts nothing keeps the history, when the slots
keep their contents and are opened only by a cancelled reservation. -/
private theorem history_kept (history : History state) {delivered : List (Delivery δ)}
    (calls : after.calls = state.calls ++ [record state.cache after.cache op ret delivered])
    (kept : (record state.cache after.cache op ret delivered).created = false)
    (quiet : IsPut op → ret = false)
    (slots : ∀ key slot, after.cache.find key = some slot → ∃ entry,
      state.cache.find key = some entry ∧
      slot.data = entry.data ∧ slot.size = entry.size ∧ (slot.isReserved = false →
        entry.isReserved = false ∨ (op.key = key ∧ IsCancel op ∧ ret = true))) : History after := by
  have filled (key : κ) : Filled key after.calls ↔ Filled key state.calls := by
    rw [calls, filled_snoc fun _ => kept]
    apply or_iff_left
    intro put
    obtain ⟨_, isPut, succeeded⟩ := put
    cases (quiet isPut).symm.trans succeeded
  have latest (key : κ) : latestPut key after.calls = latestPut key state.calls := by
    rw [calls]
    exact latestPut_quiet fun put _ => quiet put
  constructor
  · intro key slot found
    obtain ⟨entry, held, sameData, sameSize, _⟩ := slots key slot found
    rw [filled, latest, sameData, sameSize]
    exact history.stored key entry held
  · intro key slot found ready
    obtain ⟨entry, held, _, _, opened⟩ := slots key slot found
    rw [filled, calls, cancelled_snoc fun _ => kept]
    rcases opened ready with before | now
    · exact (history.opened key entry held before).imp_right .inl
    · exact .inr (.inr now)

/-- A successful `put` is the latest one, on a slot it has filled. -/
private theorem put_latest {buf : Option δ} {size : Nat} {created : Bool}
    {delivered : List (Delivery δ)} :
    latestPut key (calls ++ [⟨.put key buf size, true, created, delivered⟩]) = some (buf, size) ∧
      Filled key (calls ++ [⟨.put key buf size, true, created, delivered⟩]) := by
  refine ⟨by simp [latestPut_snoc], ?_⟩
  unfold Filled
  rw [sinceInserted_snoc]
  cases created <;> simp [Op.key, IsPut]

/-- A call on another key changes nothing for this one. -/
private theorem other_key (calls : List (Call κ δ)) (call : Call κ δ)
    (different : call.op.key ≠ key) :
    latestPut key (calls ++ [call]) = latestPut key calls ∧
      sinceInserted key (calls ++ [call]) = sinceInserted key calls := by
  constructor
  · exact latestPut_quiet fun _ same => absurd same different
  · rw [sinceInserted_snoc, if_neg different]

/-- A call that leaves the lookups alone and puts nothing keeps the history. -/
private theorem history_unchanged (history : History state) {delivered : List (Delivery δ)}
    (calls : after.calls = state.calls ++ [record state.cache after.cache op ret delivered])
    (quiet : IsPut op → ret = false) (same : after.cache = state.cache) : History after := by
  refine history_kept history calls ?_ quiet fun key slot found =>
    ⟨slot, by rw [← same, found], rfl, rfl, .inl⟩
  rw [same, record]
  cases state.cache.find op.key <;> rfl

/-- A call that rewrites a slot without touching its contents keeps the history,
when only a cancelled reservation opens it. -/
private theorem history_rewritten (history : History state) {delivered : List (Delivery δ)}
    (calls : after.calls = state.calls ++ [record state.cache after.cache op ret delivered])
    (nextCache : after.cache = next) (quiet : IsPut op → ret = false) {old new : CacheEntry δ Nat}
    (held : state.cache.find op.key = some old)
    (find : ∀ other, next.find other = if other = op.key then some new else state.cache.find other)
    (data : new.data = old.data) (size : new.size = old.size)
    (opened : new.isReserved = false → old.isReserved = false ∨ (IsCancel op ∧ ret = true)) :
    History after := by
  apply history_kept history calls (by simp [record, held]) quiet
  intro key slot found
  rw [nextCache, find] at found
  split at found
  · rename_i here
    subst here
    cases found
    exact ⟨old, held, data, size, fun ready => (opened ready).imp_right fun cancel => ⟨rfl, cancel⟩⟩
  · exact ⟨slot, found, rfl, rfl, .inl⟩

/-- A call that writes one slot leaves the others and their histories alone. -/
private theorem history_written (history : History state) {delivered : List (Delivery δ)}
    (calls : after.calls = state.calls ++ [record state.cache after.cache op ret delivered])
    (nextCache : after.cache = next) {new : CacheEntry δ Nat}
    (find : ∀ other, next.find other = if other = op.key then some new else state.cache.find other)
    (stored : Filled op.key after.calls → latestPut op.key after.calls = some (new.data, new.size))
    (opened : new.isReserved = false → Filled op.key after.calls) : History after := by
  have apart {key : κ} (different : key ≠ op.key) :
      latestPut key after.calls = latestPut key state.calls ∧
        sinceInserted key after.calls = sinceInserted key state.calls := by
    rw [calls]
    exact other_key _ _ (Ne.symm different)
  refine ⟨fun key slot found => ?_, fun key slot found => ?_⟩ <;>
    rw [nextCache, find] at found <;> split at found
  · rename_i here
    subst here
    cases found
    exact stored
  · rename_i different
    rw [Filled, (apart different).1, (apart different).2]
    exact history.stored key slot found
  · rename_i here
    subst here
    cases found
    intro ready
    exact .inl (opened ready)
  · rename_i different
    rw [Filled, Cancelled, (apart different).2]
    exact history.opened key slot found

private theorem history_step (history : History state) (ran : exec state op = .ok after) :
    History after := by
  obtain ⟨ret, delivered, effect, calls⟩ := exec_effect ran
  generalize nextCache : after.cache = next at effect
  cases effect with
  | @putFresh key buf size absent =>
    have put : latestPut key after.calls = some (buf, size) ∧ Filled key after.calls := by
      rw [calls]
      exact put_latest
    exact history_written history calls nextCache (fun _ => (find_resized _).trans find_insertNew)
      (fun _ => put.1) (fun _ => put.2)
  | @putReserved key buf size _ _ held reserved rewrites =>
    have put : latestPut key after.calls = some (buf, size) ∧ Filled key after.calls := by
      rw [calls]
      exact put_latest
    exact history_written history calls nextCache rewrites.find
      (fun _ => put.1) (fun _ => put.2)
  | @reserveFresh key absent =>
    refine history_written history calls nextCache (fun _ => find_insertNew)
      (fun filled => ?_) nofun
    have inserted : sinceInserted key after.calls =
      [record state.cache after.cache (.reserve key) true []] := by
      rw [calls, sinceInserted_snoc]
      simp [record, absent, nextCache, Op.key]
    obtain ⟨call, member, put, _⟩ := filled
    rw [Op.key, inserted, List.mem_singleton] at member
    subst member
    exact put.elim
  | putRefused => exact history_unchanged history calls (fun _ => rfl) nextCache
  | getMissed | reserveRefused | cancelRefused =>
    exact history_unchanged history calls nofun nextCache
  | getQueued held reserved =>
    exact history_rewritten history calls nextCache nofun held (fun _ => find_store) rfl rfl .inl
  | getDelivered held ready unlisted sizes find =>
    exact history_rewritten history calls nextCache nofun held find rfl rfl .inl
  | reserveHeld held ready =>
    exact history_rewritten history calls nextCache nofun held (fun _ => find_store) rfl rfl nofun
  | cancelled held reserved rewrites =>
    exact history_rewritten history calls nextCache nofun held rewrites.find rfl rfl
      fun _ => .inr ⟨trivial, rfl⟩
  | @done key next released =>
    obtain ⟨left, dropped, _⟩ := doneWith_cases released
    obtain ⟨entry, held, _⟩ := release_cases dropped
    apply history_kept history calls (by simp [record, held, Op.key]) nofun
    intro other slot found
    obtain ⟨before, holds, same⟩ := doneWith_find released (nextCache ▸ found)
    exact ⟨before, holds, same.data, same.size, fun ready => .inl (same.isReserved ▸ ready)⟩

/-- A `get` served at once delivers the latest `put` exactly when its slot was
not merely cancelled. -/
private theorem get_latest_iff {entry : CacheEntry δ Nat} (history : History state)
    (held : state.cache.find key = some entry) (ready : entry.isReserved = false) :
    Latest key (state.calls ++ [record state.cache next (.get key) true delivered])
      ⟨entry.data, entry.size, true⟩ ↔ AvoidsCancelled state (.get key) := by
  have kept : (record state.cache next (.get key) true delivered).created = false := by
    simp [record, Op.key, held]
  have latest : latestPut key (state.calls ++ [record state.cache next (.get key) true delivered]) =
      latestPut key state.calls := latestPut_quiet nofun
  have filled : Filled key (state.calls ++ [record state.cache next (.get key) true delivered]) ↔
      Filled key state.calls :=
        (filled_snoc fun _ => kept).trans (or_iff_left fun put => put.2.1.elim)
  simp only [Latest, latest, filled, AvoidsCancelled, held, true_implies]
  constructor
  · intro delivers _ _
    exact delivers.2
  · intro avoids
    have fill : Filled key state.calls :=
      (history.opened key entry held ready).elim id (avoids ready)
    exact ⟨history.stored key entry held fill, fill⟩

/-- One call delivers the latest contents exactly when it is not served from a
merely cancelled slot. -/
private theorem deliversLatest_step (history : History state) (ran : exec state op = .ok after) :
    DeliversLatest after.calls ↔ DeliversLatest state.calls ∧ AvoidsCancelled state op := by
  obtain ⟨ret, delivered, effect, calls⟩ := exec_effect ran
  rw [calls, deliversLatest_snoc]
  apply and_congr_right
  intro _
  generalize nextCache : after.cache = next at effect
  cases effect with
  | putFresh | putRefused | reserveFresh | reserveHeld | reserveRefused | cancelRefused | done =>
    exact iff_of_true nofun trivial
  | putReserved =>
    refine iff_of_true (fun delivery member _ => ?_) trivial
    obtain ⟨callback, _, rfl⟩ := List.mem_map.mp member
    exact put_latest
  | getMissed absent => exact iff_of_true nofun (by simp [AvoidsCancelled, absent])
  | getQueued held reserved => exact iff_of_true nofun (by simp [AvoidsCancelled, held, reserved])
  | getDelivered held ready =>
    exact List.forall_mem_singleton.trans (get_latest_iff history held ready)
  | cancelled =>
    refine iff_of_true (fun delivery member cached => ?_) trivial
    obtain ⟨callback, _, rfl⟩ := List.mem_map.mp member
    cases cached

/-- **What is delivered is the latest put, unless a slot was merely cancelled.**
Every cached delivery of a run carries the latest successful `put` on its key,
made since the slot was inserted, exactly when no `get` is served from a slot
whose reservation was cancelled and never filled. -/
theorem delivers_latest_iff_avoids_cancelled (run : Run (client κ δ quota) attempts (.ok state)) :
    DeliversLatest state.calls ↔ ∀ attempt ∈ attempts, AvoidsCancelled attempt.1 attempt.2 :=
  run.exact_state History (fun state => DeliversLatest state.calls) AvoidsCancelled
    ⟨⟨nofun, nofun⟩, nofun⟩
    (fun _ _ _ history _ ran => history_step history ran)
    (fun _ _ _ history _ ran => deliversLatest_step history ran)

/-- A slot is filled, reserved again in vain, and filled again for a waiter; it is looked
up each time. -/
theorem delivers_latest_iff_avoids_cancelled_run :
    ∃ state, (client (List Char) Nat 0).replay (client (List Char) Nat 0).start
        [.reserve ['a'], .put ['a'] (some 7) 1, .reserve ['a'], .cancelReservation ['a'],
          .get ['a'], .reserve ['a'], .get ['a'], .put ['a'] (some 8) 2, .get ['a']] = .ok state ∧
      state.cache.strays = 0 ∧ DeliversLatest state.calls :=
  ⟨_, rfl, rfl, (delivers_latest_iff_avoids_cancelled (replayed (client (List Char) Nat 0)
    [.reserve ['a'], .put ['a'] (some 7) 1, .reserve ['a'], .cancelReservation ['a'],
      .get ['a'], .reserve ['a'], .get ['a'], .put ['a'] (some 8) 2, .get ['a']]
    (by decide))).mpr (by decide)⟩

/-- A cancelled slot is served as a cached buffer of no bytes. -/
theorem cancelled_slot_is_served :
    ∃ attempts state, Run (client (List Char) Nat 0) attempts (.ok state) ∧
      attempts.map Prod.snd = [.reserve ['a'], .cancelReservation ['a'], .get ['a']] ∧
      state.calls.map Call.delivered = [[], [], [(2, ⟨none, 0, true⟩)]] ∧
      ¬ DeliversLatest state.calls :=
  ⟨_, _, replayed (client (List Char) Nat 0) [.reserve ['a'], .cancelReservation ['a'], .get ['a']]
    (by decide), rfl, rfl, fun latest => by
      have served := (latest 2 _ rfl (2, ⟨none, 0, true⟩) (.head _) rfl).1
      cases served⟩

end EventDisp.CacheDeliveries
