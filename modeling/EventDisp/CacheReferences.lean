import EventDisp.CacheEffects

/-! The reference count of a slot against the calls of its life: one reference from
the start, one more for every delivery and one less for every `doneWith`. -/
namespace EventDisp.CacheReferences

open Cache CacheRuns Execution

variable {κ δ : Type} [DecidableEq κ] {quota : Nat}
variable {cache next : Cache κ δ Nat} {state after : State κ δ} {op : Op κ δ} {key : κ}
  {number : Nat} {ret : Bool}
variable {delivered : List (Delivery δ)} {calls : List (Call κ δ)} {call : Call κ δ}
  {entry : CacheEntry δ Nat}

/-- The calls on a key since its slot was inserted, after one more call. -/
def lifeAfter (key : κ) (life : List (Call κ δ)) (call : Call κ δ) : List (Call κ δ) :=
  if call.op.key = key then if call.created then [call] else life ++ [call] else life

/-- The calls on a key since its slot was inserted. -/
def life (key : κ) (calls : List (Call κ δ)) : List (Call κ δ) := calls.foldl (lifeAfter key) []

def hits (delivered : List (Delivery δ)) : Nat :=
  delivered.countP fun delivery => delivery.2.isCached

/-- How many callbacks the calls invoked with `isCached == true`. -/
def served (calls : List (Call κ δ)) : Nat := (calls.map fun call => hits call.delivered).sum

def isDone : Op κ δ → Bool
  | .doneWith _ => true
  | .put .. | .get _ | .reserve _ | .cancelReservation _ => false

/-- How many of the calls are `doneWith`. -/
def dones (calls : List (Call κ δ)) : Nat := calls.countP fun call => isDone call.op

@[simp] theorem life_concat : life key (calls ++ [call]) = lifeAfter key (life key calls) call := by
  simp [life]

omit [DecidableEq κ] in
@[simp] theorem served_concat : served (calls ++ [call]) = served calls + hits call.delivered := by
  simp [served]

omit [DecidableEq κ] in
@[simp] theorem dones_concat : dones (calls ++ [call]) =
    dones calls + if isDone call.op then 1 else 0 := by
  simp [dones, List.countP_singleton]

omit [DecidableEq κ] in
/-- All waiters of a slot that is filled are served. -/
theorem hits_put (queue : List Nat) (data : Option δ) (size : Nat) :
    hits (queue.map (·, (⟨data, size, true⟩ : CacheData δ))) = queue.length := by
  simp [hits, List.countP_map, Function.comp_def]

omit [DecidableEq κ] in
/-- No waiter of a cancelled reservation is. -/
theorem hits_cancel (queue : List Nat) : hits (queue.map (·, (⟨none, 0, false⟩ : CacheData δ))) =
    0 := by
  simp [hits, List.countP_map, Function.comp_def]

/-- What a call makes of the count of a slot: it is one when the call inserts the slot,
and otherwise its deliveries and its `doneWith` are counted in the slot of its key. -/
def Counts (cache : Cache κ δ Nat) (op : Op κ δ) (delivered : List (Delivery δ)) (key : κ)
    (count : Nat) : Prop :=
  if op.key = key then
    cache.find key = none ∧ count = 1 ∧ delivered = [] ∧ isDone op = false ∨
      ∃ before, cache.find key = some before ∧
        count + (if isDone op then 1 else 0) = before.refCount + hits delivered
  else ∃ before, cache.find key = some before ∧ count = before.refCount

theorem effect_counts (effect : Effect number cache op ret next delivered)
    (found : next.find key = some entry) :
    Counts cache op delivered key entry.refCount := by
  have unchanged (undone : isDone op = false) (same : next.find key = cache.find key)
    (nothing : delivered = []) :
      Counts cache op delivered key entry.refCount := by
    rw [same] at found
    unfold Counts
    split
    · exact .inr ⟨entry, found, by simp [undone, nothing, hits]⟩
    · exact ⟨entry, found, rfl⟩
  have overwritten {old new : CacheEntry δ Nat}
    (undone : isDone op = false) (held : cache.find op.key = some old)
      (find : ∀ other, next.find other = if other = op.key then some new else cache.find other)
      (counted : new.refCount = old.refCount + hits delivered) :
        Counts cache op delivered key entry.refCount := by
    rw [find] at found
    unfold Counts
    split
    · rename_i here
      subst here
      rw [if_pos rfl] at found
      cases found
      exact .inr ⟨old, held, by simpa [undone] using counted⟩
    · rename_i different
      rw [if_neg fun same => different same.symm] at found
      exact ⟨entry, found, rfl⟩
  have inserted {new : CacheEntry δ Nat} (undone : isDone op = false) (absent : cache.find op.key =
    none)
      (find : ∀ other, next.find other = if other = op.key then some new else cache.find other)
      (one : new.refCount = 1) (nothing : delivered = []) :
        Counts cache op delivered key entry.refCount := by
    rw [find] at found
    unfold Counts
    split
    · rename_i here
      subst here
      rw [if_pos rfl] at found
      cases found
      exact .inl ⟨absent, one, nothing, undone⟩
    · rename_i different
      rw [if_neg fun same => different same.symm] at found
      exact ⟨entry, found, rfl⟩
  cases effect with
  | putFresh absent =>
    exact inserted rfl absent (fun _ => (find_resized _).trans find_insertNew) rfl rfl
  | putReserved held reserved rewrites =>
    exact overwritten rfl held rewrites.find (by rw [hits_put]; rfl)
  | putRefused | getMissed | reserveRefused | cancelRefused => exact unchanged rfl rfl rfl
  | getQueued held reserved => exact overwritten rfl held (fun _ => find_store) rfl
  | getDelivered held ready unlisted sizes find => exact overwritten rfl held find rfl
  | reserveFresh absent => exact inserted rfl absent (fun _ => find_insertNew) rfl rfl
  | reserveHeld held ready => exact overwritten rfl held (fun _ => find_store) rfl
  | cancelled held reserved rewrites =>
    exact overwritten rfl held rewrites.find (by rw [hits_cancel]; rfl)
  | @done name next ran =>
    obtain ⟨before, held, _⟩ := doneWith_find ran found
    obtain ⟨kept, there, _, counted⟩ | ⟨gone, _⟩ := doneWith_counts ran held
    · rw [found] at there
      cases there
      unfold Counts
      split
      · rename_i here
        rw [if_pos (Eq.symm here : key = name)] at counted
        exact .inr ⟨before, held, counted⟩
      · rename_i different
        rw [if_neg fun same : key = name => different same.symm] at counted
        exact ⟨before, held, counted⟩
    · rw [found] at gone
      cases gone

/-- Every reference of a slot has been obtained in its life and not been given back. -/
def Counted (state : State κ δ) : Prop :=
  ∀ key entry, state.cache.find key = some entry →
    entry.refCount + dones (life key state.calls) = 1 + served (life key state.calls)

/-- The life of a slot that is there begins with the call that inserts it. -/
theorem life_record (found : next.find key = some entry) :
    life key (calls ++ [record cache next op ret delivered]) =
      if op.key = key then
        if (cache.find key).isNone then [record cache next op ret delivered]
        else life key calls ++ [record cache next op ret delivered]
      else life key calls := by
  rw [life_concat]
  unfold lifeAfter
  by_cases own : op.key = key
  · simp [record, own, found]
  · simp [record, own]

theorem counted_step (counted : Counted state) (ran : exec state op = .ok after) :
    Counted after := by
  intro key entry found
  obtain ⟨ret, delivered, effect, calls⟩ := exec_effect ran
  have counts := effect_counts effect found
  rw [calls, life_record found]
  unfold Counts at counts
  split at counts
  · rename_i own
    rw [if_pos own]
    rcases counts with ⟨absent, one, nothing, undone⟩ | ⟨before, held, balance⟩
    · rw [absent, if_pos Option.isNone_none]
      simp [dones, served, record, nothing, hits, undone, one]
    · have earlier := counted key before held
      rw [held, if_neg (by simp), dones_concat, served_concat]
      change entry.refCount + (dones _ + if isDone op then 1 else 0) =
        1 + (served _ + hits delivered)
      omega
  · rename_i other
    rw [if_neg other]
    obtain ⟨before, held, same⟩ := counts
    rw [same]
    exact counted key before held

/-- In every reachable state, the count of a slot is one, and one for every invocation
with `isCached == true` made in its life, less one for every `doneWith`. -/
theorem reachable_counted (reached : Reachable (client κ δ quota) state)
    (held : state.cache.find key = some entry) :
    (entry.refCount : Int) = 1 + served (life key state.calls) - dones (life key state.calls) := by
  have counted : Counted state :=
    reached.invariant Counted nofun fun _ _ _ counted _ ran => counted_step counted ran
  have balance := counted key entry held
  omega

/-- A slot is reserved, waited for, filled, released once and acquired again, and the
reservation of another one is cancelled. -/
theorem reachable_counted_run : ∃ (state : State (List Char) Unit) (entry : CacheEntry Unit Nat),
    Reachable (client (List Char) Unit 10) state ∧ state.cache.strays = 0 ∧
      state.cache.find ['a'] = some entry ∧ entry.refCount = 1 ∧
      (entry.refCount : Int) = 1 + served (life ['a'] state.calls) - dones
      (life ['a'] state.calls) := by
  obtain ⟨state, entry, ran, unstrayed, held, counted⟩ :
      ∃ (state : State (List Char) Unit) (entry : CacheEntry Unit Nat),
      (client (List Char) Unit 10).replay (client (List Char) Unit 10).start
        [.reserve ['a'], .get ['a'], .put ['a'] (some ()) 3, .doneWith ['a'], .get ['a'],
          .reserve ['b'], .get ['b'], .cancelReservation ['b'], .doneWith ['a']] = .ok state ∧
        state.cache.strays = 0 ∧ state.cache.find ['a'] = some entry ∧ entry.refCount = 1 :=
    ⟨_, _, rfl, rfl, rfl, rfl⟩
  have reached : Reachable (client (List Char) Unit 10) state := .replayed (by decide) ran
  exact ⟨state, entry, reached, unstrayed, held, counted, reachable_counted reached held⟩

end EventDisp.CacheReferences
