import EventDisp.CacheEffects

/-! What a cancelled reservation leaves behind. The waiters are told, but the slot stays
in the map, unreserved and with its queue: a key that was absent before it was reserved
does not become absent again. -/
namespace EventDisp.CacheCancellation

open Cache CacheRuns Execution

variable {κ δ : Type} [DecidableEq κ] {quota : Nat}
variable {state reserved waiting cancelled after : State κ δ} {key : κ} {op : Op κ δ}
  {calls : List (Call κ δ)}
variable {call : Call κ δ} {start : Nat}

/-- What an absent key does: a `get` misses it, a `put` stores under it, and a `reserve`
finds nobody waiting. -/
structure BehavesAbsent (state : State κ δ) (key : κ) : Prop where
  misses : ∀ after, exec state (.get key) = .ok after → ∃ call,
    after.calls = state.calls ++ [call] ∧ call.ret = false
  stores : ∀ buf size after, exec state (.put key buf size) = .ok after →
    (∃ call, after.calls = state.calls ++ [call] ∧ call.ret = true) ∧
      ∀ final, exec after (.get key) = .ok final →
        ∃ call, final.calls = after.calls ++ [call] ∧
        call.delivered = [(after.calls.length, ⟨buf, size, true⟩)]
  reserves : ∀ after, exec state (.reserve key) = .ok after →
    (∃ call, after.calls = state.calls ++ [call] ∧ call.ret = true) ∧
      ∃ entry, after.cache.find key = some entry ∧ entry.isReserved = true ∧ entry.queue = []

def isGetOf (key : κ) : Op κ δ → Bool
  | .get name => name = key
  | .put .. | .reserve _ | .cancelReservation _ | .doneWith _ => false

/-- The callbacks handed to `get` for a key, from a call on. -/
def waiters (key : κ) (start : Nat) (calls : List (Call κ δ)) : List Nat :=
  (((calls.drop start).zipIdx start).filter fun numbered => isGetOf key numbered.1.op).map Prod.snd

/-- A client that keeps its contract, and leaves a key alone but for looking it up. -/
def onlooker (κ δ : Type) [DecidableEq κ] (quota : Nat) (key : κ) : Program (State κ δ)
    (Op κ δ) Fault where
  start := ⟨{ sizeQuota := quota }, []⟩
  allowed state op := (op.Sized ∧ Contract state.cache op) ∧ (op = .get key ∨ op.key ≠ key)
  exec := exec

theorem waiters_concat (within : start ≤ calls.length) :
    waiters key start (calls ++ [call]) =
      waiters key start calls ++ if isGetOf key call.op then [calls.length] else [] := by
  unfold waiters
  rw [List.drop_append_of_le_length within, List.zipIdx_append, List.filter_append, List.map_append]
  congr 1
  have number : start + (calls.length - start) = calls.length := by omega
  simp only [List.length_drop, List.zipIdx_singleton, number, List.filter_singleton]
  cases isGetOf key call.op <;> rfl

/-- An absent key does what an absent key does. -/
theorem absent_behaves (absent : state.cache.find key = none) : BehavesAbsent state key := by
  refine ⟨?_, ?_, ?_⟩
  · intro after ran
    obtain ⟨ret, delivered, effect, calls⟩ := exec_effect ran
    refine ⟨_, calls, ?_⟩
    generalize after.cache = next at effect
    cases effect with
    | getMissed => rfl
    | getQueued held => cases absent.symm.trans held
    | getDelivered held => cases absent.symm.trans held
  · intro buf size after ran
    obtain ⟨ret, delivered, effect, calls⟩ := exec_effect ran
    generalize stored : after.cache = next at effect
    cases effect with
    | putReserved held => cases absent.symm.trans held
    | putRefused held => cases absent.symm.trans held
    | putFresh =>
      have there : after.cache.find key = some (.filled state.cache.nextRef buf size) := by
        rw [stored, find_resized, find_insertNew, if_pos rfl]
      refine ⟨⟨_, calls, rfl⟩, ?_⟩
      intro final served
      obtain ⟨ret, delivered, effect, calls⟩ := exec_effect served
      refine ⟨_, calls, ?_⟩
      generalize final.cache = last at effect
      cases effect with
      | getMissed absent => cases there.symm.trans absent
      | getQueued held reserved =>
        cases there.symm.trans held
        cases reserved
      | getDelivered held =>
        cases there.symm.trans held
        rfl
  · intro after ran
    obtain ⟨ret, delivered, effect, calls⟩ := exec_effect ran
    generalize after.cache = next at effect calls ⊢
    cases effect with
    | reserveHeld held => cases absent.symm.trans held
    | reserveRefused held => cases absent.symm.trans held
    | reserveFresh =>
      have there : (state.cache.insertNew key .reserved).find key =
        some (.reserved state.cache.nextRef) := by
        rw [find_insertNew, if_pos rfl]
      exact ⟨⟨_, calls, rfl⟩, _, there, rfl, rfl⟩

/-- The slot is as it was inserted, but for those who wait. -/
def Awaits (key : κ) (start : Nat) (state : State κ δ) : Prop :=
  start ≤ state.calls.length ∧ ∃ ref, state.cache.find key =
    some { (CacheEntry.reserved ref : CacheEntry δ Nat) with queue := waiters key start state.calls }

private theorem awaits_step (awaits : Awaits key start state) (alone : op = .get key ∨ op.key ≠ key)
    (ran : exec state op = .ok after) : Awaits key start after := by
  obtain ⟨within, ref, found⟩ := awaits
  obtain ⟨ret, delivered, effect, calls⟩ := exec_effect ran
  refine ⟨by rw [calls, List.length_append]; omega, ref, ?_⟩
  rw [calls, waiters_concat within]
  rcases alone with rfl | other
  · generalize after.cache = next at effect
    cases effect with
    | getMissed absent => cases found.symm.trans absent
    | getDelivered held ready =>
      cases found.symm.trans held
      cases ready
    | getQueued held =>
      cases found.symm.trans held
      rw [find_store, if_pos rfl]
      simp [record, isGetOf]
  · have apart : isGetOf key (record state.cache after.cache op ret delivered).op = false := by
      cases op <;> simp_all [record, isGetOf, Op.key]
    rw [apart, if_neg (by simp), List.append_nil]
    rcases effect_elsewhere effect other with same | ⟨_, entry, held, unreferenced⟩
    · exact same.trans found
    · cases found.symm.trans held
      cases unreferenced

/-- A key is reserved that was absent. -/
private theorem awaits_reserve (absent : state.cache.find key = none)
    (ran : exec state (.reserve key) = .ok reserved) :
    Awaits key reserved.calls.length reserved := by
  obtain ⟨ret, delivered, effect, calls⟩ := exec_effect ran
  refine ⟨Nat.le_refl _, ?_⟩
  have nobody : waiters key reserved.calls.length reserved.calls = [] := by simp [waiters]
  rw [nobody]
  generalize reserved.cache = next at effect ⊢
  cases effect with
  | reserveHeld held => cases absent.symm.trans held
  | reserveRefused held => cases absent.symm.trans held
  | reserveFresh => exact ⟨state.cache.nextRef, by rw [find_insertNew, if_pos rfl]; rfl⟩

/-- Every waiter is told once, and the slot stays. -/
private theorem cancel_leaves (awaits : Awaits key start waiting)
    (ran : exec waiting (.cancelReservation key) = .ok cancelled) :
    (∃ call, cancelled.calls = waiting.calls ++ [call] ∧ call.ret = true ∧
        call.delivered = (waiters key start waiting.calls).map (·, ⟨none, 0, false⟩)) ∧
      ∃ entry, cancelled.cache.find key = some entry ∧ entry.data = none ∧ entry.size = 0 ∧
      entry.isReserved = false ∧
        entry.freeListRef = none ∧ entry.queue = waiters key start waiting.calls := by
  obtain ⟨within, ref, found⟩ := awaits
  obtain ⟨ret, delivered, effect, calls⟩ := exec_effect ran
  generalize cancelled.cache = next at effect calls ⊢
  cases effect with
  | cancelled held reserved rewrites =>
    cases found.symm.trans held
    exact ⟨⟨_, calls, rfl, rfl⟩, _, rewrites.found, rfl, rfl, rfl, rfl, rfl⟩
  | cancelRefused unreserved => cases unreserved _ found

/-- **A cancelled reservation is not undone.** A key that is absent is reserved, looked
up any number of times between calls on other keys, and its reservation cancelled. Each
waiter is told once that nothing is cached; but a `get` then answers `true` and hands out
`NULL`, a `put` answers `false` and stores nothing, and a `reserve` finds the old waiters
still queued. -/
theorem cancelled_never_absent (absent : state.cache.find key = none)
    (reserves : exec state (.reserve key) = .ok reserved)
    (between : Leads (onlooker κ δ quota key) reserved waiting)
    (cancels : exec waiting (.cancelReservation key) = .ok cancelled) :
    (∃ call, cancelled.calls = waiting.calls ++ [call] ∧ call.ret = true ∧
        call.delivered = (waiters key reserved.calls.length waiting.calls).map
        (·, ⟨none, 0, false⟩)) ∧
      (∃ after call, exec cancelled (.get key) = .ok after ∧
        after.calls = cancelled.calls ++ [call] ∧ call.ret = true ∧
        call.delivered = [(cancelled.calls.length, ⟨none, 0, true⟩)]) ∧
      (∀ buf size, ∃ after call, exec cancelled (.put key buf size) = .ok after ∧
        after.calls = cancelled.calls ++ [call] ∧ call.ret = false ∧
        after.cache = cancelled.cache) ∧
      (∃ after entry, exec cancelled (.reserve key) = .ok after ∧
        after.cache.find key = some entry ∧
        entry.isReserved = true ∧ entry.queue = waiters key reserved.calls.length waiting.calls) ∧
      ¬ BehavesAbsent cancelled key := by
  have awaits : Awaits key reserved.calls.length waiting :=
    between.invariant (Awaits key reserved.calls.length)
      (fun _ _ _ awaits allowed ran => awaits_step awaits allowed.2 ran)
      (awaits_reserve absent reserves)
  obtain ⟨told, entry, found, empty, sizeless, ready, unlisted, queue⟩ :=
    cancel_leaves awaits cancels
  have hands : ∃ after call, exec cancelled (.get key) = .ok after ∧
    after.calls = cancelled.calls ++ [call] ∧
      call.ret = true ∧ call.delivered = [(cancelled.calls.length, ⟨none, 0, true⟩)] := by
    obtain ⟨result, returned⟩ := get_returns cancelled.calls.length fun slot node held names => by
      cases found.symm.trans held
      cases unlisted.symm.trans names
    obtain ⟨after, ran⟩ := exec_returns returned
    obtain ⟨ret, delivered, effect, calls⟩ := exec_effect ran
    refine ⟨after, _, ran, calls, ?_⟩
    generalize after.cache = next at effect
    cases effect with
    | getMissed absent => cases found.symm.trans absent
    | getQueued held reserved => cases found.symm.trans held; cases ready.symm.trans reserved
    | getDelivered held =>
      cases found.symm.trans held
      exact ⟨rfl, by rw [← empty, ← sizeless]; rfl⟩
  refine ⟨told, hands, ?_, ?_, ?_⟩
  · intro buf size
    obtain ⟨ret, next, delivered, returned, _⟩ :=
      put_effect cancelled.calls.length cancelled.cache key buf size
    obtain ⟨after, ran⟩ := exec_returns returned
    obtain ⟨ret, delivered, effect, calls⟩ := exec_effect ran
    refine ⟨after, _, ran, calls, ?_⟩
    generalize after.cache = next at effect
    cases effect with
    | putFresh absent => cases found.symm.trans absent
    | putReserved held reserved => cases found.symm.trans held; cases ready.symm.trans reserved
    | putRefused => exact ⟨rfl, rfl⟩
  · obtain ⟨ret, next, delivered, returned, _⟩ :=
      reserve_effect cancelled.calls.length cancelled.cache key
    obtain ⟨after, ran⟩ := exec_returns returned
    obtain ⟨ret, delivered, effect, calls⟩ := exec_effect ran
    refine ⟨after, { entry with isReserved := true }, ran, ?_, rfl, queue⟩
    generalize after.cache = next at effect ⊢
    cases effect with
    | reserveFresh absent => cases found.symm.trans absent
    | reserveRefused held reserved => cases found.symm.trans held; cases ready.symm.trans reserved
    | reserveHeld held =>
      cases found.symm.trans held
      rw [find_store, if_pos rfl]
  · intro behaves
    obtain ⟨after, call, ran, calls, answered, _⟩ := hands
    obtain ⟨_, same, missed⟩ := behaves.misses after ran
    rw [calls, List.append_cancel_left_eq, List.cons.injEq] at same
    rw [same.1, missed] at answered
    cases answered

/-- A key is reserved on a fresh cache and looked up twice, and another one is put between. -/
theorem cancelled_never_absent_run : ∃ (reserved waiting cancelled : State (List Char) Bool),
    exec ⟨{ sizeQuota := 0 }, []⟩ (.reserve ['a']) = .ok reserved ∧
      exec waiting (.cancelReservation ['a']) = .ok cancelled ∧
      waiters ['a'] reserved.calls.length waiting.calls = [1, 3] ∧
      ¬ BehavesAbsent cancelled ['a'] := by
  obtain ⟨reserved, first, second, waiting, cancelled, reserves, asks, puts, asksAgain, cancels,
    both⟩ :
      ∃ reserved first second waiting cancelled : State (List Char) Bool,
        exec ⟨{ sizeQuota := 0 }, []⟩ (.reserve ['a']) = .ok reserved ∧
        exec reserved (.get ['a']) = .ok first ∧
          exec first (.put ['b'] (some true) 1) = .ok second ∧
          exec second (.get ['a']) = .ok waiting ∧
          exec waiting (.cancelReservation ['a']) = .ok cancelled ∧
          waiters ['a'] reserved.calls.length waiting.calls = [1, 3] :=
            ⟨_, _, _, _, _, rfl, rfl, rfl, rfl, rfl, rfl⟩
  have looks (state : State (List Char) Bool) :
    (onlooker (List Char) Bool 0 ['a']).allowed state (.get ['a']) :=
    ⟨⟨trivial, trivial⟩, .inl rfl⟩
  have other (state : State (List Char) Bool) :
    (onlooker (List Char) Bool 0 ['a']).allowed state (.put ['b'] (some true) 1) :=
    ⟨⟨show 1 < 2 ^ 64 by decide, trivial⟩, .inr (by decide)⟩
  have between : Leads (onlooker (List Char) Bool 0 ['a']) reserved waiting :=
    ((Leads.here.step (looks _) asks).step (other _) puts).step (looks _) asksAgain
  exact ⟨reserved, waiting, cancelled, reserves, cancels, both,
    (cancelled_never_absent rfl reserves between cancels).2.2.2.2⟩

/-- Once a reservation has been cancelled, a `get` hands out `NULL` as if it were cached. -/
theorem cancelled_answers_get : ∃ attempts after,
    Run (client (List Char) Bool 0) attempts (.ok after) ∧
    attempts.map Prod.snd = [.reserve ['a'], .cancelReservation ['a'], .get ['a']] ∧
    after.calls.getLast?.map Call.ret = some true ∧
    after.calls.getLast?.map Call.delivered = some [(2, ⟨none, 0, true⟩)] :=
  ⟨_, _, replayed (client (List Char) Bool 0) [.reserve ['a'], .cancelReservation ['a'],
    .get ['a']] (by decide), rfl, rfl, rfl⟩

end EventDisp.CacheCancellation
