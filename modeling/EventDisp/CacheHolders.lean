import Mathlib.Data.List.Perm.Basic
import EventDisp.CacheReferences

/-! Clients that hold buffers. A reference is obtained by a delivery or by a `put` that
succeeds, and is given back by one `doneWith`. `reserve` succeeds on a slot that is
occupied, and the `put` it allows fills the slot a second time: it replaces a buffer
that is held, or hands out a reference that is not counted. -/
namespace EventDisp.CacheHolders

open Cache CacheRuns CacheReferences Execution

variable {κ δ : Type} [DecidableEq κ] {quota : Nat}

/-- What a client has been handed: the slot of a key, and the buffer in it. -/
structure Reference (κ δ : Type) where
  key : κ
  ref : Nat
  data : Option δ
  size : Nat
  deriving DecidableEq, Repr

/-- What a client does: it makes a call, or calls `doneWith` for one of the references
that are held. -/
inductive Request (κ δ : Type) where
  | call (op : Op κ δ)
  | release (index : Nat)
  deriving DecidableEq, Repr

/-- The run so far, and the references that are held. -/
structure Ledger (κ δ : Type) where
  run : State κ δ
  held : List (Reference κ δ)

/-- The references the caller of `put` and the callbacks of a returned call obtain. -/
def obtained (cache : Cache κ δ Nat) (call : Call κ δ) : List (Reference κ δ) :=
  match cache.find call.op.key with
  | none => []
  | some entry =>
    let handed : List (Reference κ δ) :=
      (call.delivered.filter fun delivery => delivery.2.isCached).map fun delivery =>
      ⟨call.op.key, entry.ref, delivery.2.data, delivery.2.size⟩
    match call.op with
    | .put key buf size => if call.ret then ⟨key, entry.ref, buf, size⟩ :: handed else handed
    | .get _ | .reserve _ | .cancelReservation _ | .doneWith _ => handed

def exec (ledger : Ledger κ δ) : Request κ δ → Except Fault (Ledger κ δ)
  | .call op => do
    let run ← CacheRuns.exec ledger.run op
    return ⟨run, ledger.held ++ (run.calls.drop ledger.run.calls.length).flatMap
    (obtained run.cache)⟩
  | .release index =>
    match ledger.held[index]? with
    | none => .ok ledger
    | some reference => do
      let run ← CacheRuns.exec ledger.run (.doneWith reference.key)
      return ⟨run, ledger.held.eraseIdx index⟩

/-- `doneWith` is called for references that are held, and for nothing else. -/
def Permitted (ledger : Ledger κ δ) : Request κ δ → Prop
  | .call op => op.Sized ∧ isDone op = false
  | .release index => index < ledger.held.length

instance (ledger : Ledger κ δ) : DecidablePred (Permitted ledger)
  | .call op => inferInstanceAs (Decidable (op.Sized ∧ isDone op = false))
  | .release index => inferInstanceAs (Decidable (index < ledger.held.length))

/-- Any clients of a fresh cache with the given quota. -/
def clients (κ δ : Type) [DecidableEq κ] (quota : Nat) : Program (Ledger κ δ)
    (Request κ δ) Fault where
  start := ⟨⟨{ sizeQuota := quota }, []⟩, []⟩
  allowed := Permitted
  exec := exec

instance (quota : Nat) (ledger : Ledger κ δ) : DecidablePred ((clients κ δ quota).allowed ledger) :=
  inferInstanceAs (DecidablePred (Permitted ledger))

/-- The slot is as it was handed out. -/
def Reference.Holds (cache : Cache κ δ Nat) (reference : Reference κ δ) : Prop :=
  ∃ entry, cache.find reference.key = some entry ∧ entry.ref = reference.ref ∧
    entry.data = reference.data ∧
    entry.size = reference.size

/-- The slots of all references that are held are as they were handed out. -/
def Stable (ledger : Ledger κ δ) : Prop := ∀ reference ∈ ledger.held,
    reference.Holds ledger.run.cache

def fills (call : Call κ δ) : Bool :=
  match call.op with
  | .put .. => call.ret
  | .get _ | .reserve _ | .cancelReservation _ | .doneWith _ => false

/-- How many of the calls filled their slot. -/
def filled (calls : List (Call κ δ)) : Nat := calls.countP fills

/-- No reserved slot is filled that has been filled before, or whose contents someone
holds. -/
def FillsOnce (ledger : Ledger κ δ) : Request κ δ → Prop
  | .call (.put key _ _) =>
    match ledger.run.cache.find key with
    | none => True
    | some entry => entry.isReserved = true →
        filled (life key ledger.run.calls) = 0 ∧ ∀ reference ∈ ledger.held, reference.key ≠ key
  | .call (.get _) | .call (.reserve _) | .call (.cancelReservation _) | .call (.doneWith _)
  | .release _ => True

instance (ledger : Ledger κ δ) : DecidablePred (FillsOnce ledger)
  | .call (.put key _ _) =>
    match found : ledger.run.cache.find key with
    | none => isTrue (by simp [FillsOnce, found])
    | some entry => decidable_of_iff (entry.isReserved = true →
        filled (life key ledger.run.calls) = 0 ∧ ∀ reference ∈ ledger.held, reference.key ≠ key)
        (by simp [FillsOnce, found])
  | .call (.get _) | .call (.reserve _) | .call (.cancelReservation _) | .call (.doneWith _)
  | .release _ => isTrue trivial

variable {cache next : Cache κ δ Nat} {ledger after : Ledger κ δ} {request : Request κ δ}
  {op : Op κ δ} {key : κ}
variable {number : Nat} {ret : Bool} {delivered : List (Delivery δ)} {entry : CacheEntry δ Nat}

/-- How many references to the slot of a key are held. -/
def holders (key : κ) (held : List (Reference κ δ)) : Nat :=
  held.countP fun reference => reference.key = key

/-- Every slot counts the references that are held to it, and one more before it is
filled; it is filled once at most. -/
structure Covered (ledger : Ledger κ δ) : Prop where
  stable : Stable ledger
  counted : ∀ key entry, ledger.run.cache.find key = some entry →
    entry.refCount + filled (life key ledger.run.calls) = 1 + holders key ledger.held
  once : ∀ key entry, ledger.run.cache.find key = some entry →
    filled (life key ledger.run.calls) ≤ 1

/-- A slot that is not there has no holders. -/
theorem Stable.unheld (stable : Stable ledger) (absent : ledger.run.cache.find key = none) :
    holders key ledger.held = 0 := by
  apply List.countP_eq_zero.mpr
  intro reference member same
  obtain ⟨entry, found, _⟩ := stable reference member
  rw [of_decide_eq_true same, absent] at found
  cases found

/-- A call other than `doneWith` keeps the contents of all slots, but for that of a
reserved slot it fills. -/
theorem effect_contents (effect : Effect number cache op ret next delivered)
    (kept : isDone op = false) (held : cache.find key = some entry) :
    ∃ stays, next.find key = some stays ∧ stays.ref = entry.ref ∧
      (stays.data = entry.data ∧ stays.size = entry.size ∨
        op.key = key ∧ entry.isReserved = true ∧ ∃ buf size, op = .put key buf size) := by
  have overwritten {changed : κ} {old new : CacheEntry δ Nat}
    (holds : cache.find changed = some old)
      (find : ∀ other, next.find other = if other = changed then some new else cache.find other)
      (same : new.ref = old.ref ∧ new.data = old.data ∧ new.size = old.size) :
      ∃ stays, next.find key = some stays ∧ stays.ref = entry.ref ∧
        (stays.data = entry.data ∧ stays.size = entry.size ∨
          op.key = key ∧ entry.isReserved = true ∧ ∃ buf size, op = .put key buf size) := by
    obtain ⟨stays, there, ref, contents⟩ := overwritten_kept
      (fun old new => new.ref = old.ref ∧ new.data = old.data ∧ new.size = old.size) (fun _ =>
        ⟨rfl, rfl, rfl⟩) find holds
      same held
    exact ⟨stays, there, ref, .inl contents⟩
  have inserted {changed : κ} {new : CacheEntry δ Nat} (absent : cache.find changed = none)
      (find : ∀ other, next.find other = if other = changed then some new else cache.find other) :
      ∃ stays, next.find key = some stays ∧ stays.ref = entry.ref ∧
        (stays.data = entry.data ∧ stays.size = entry.size ∨
          op.key = key ∧ entry.isReserved = true ∧ ∃ buf size, op = .put key buf size) :=
    ⟨entry, inserted_kept absent find held, rfl, .inl ⟨rfl, rfl⟩⟩
  cases effect with
  | putFresh absent => exact inserted absent fun _ => (find_resized _).trans find_insertNew
  | @putReserved name buf size old _ holds reserved rewrites =>
    by_cases here : name = key
    · subst here
      rw [held] at holds
      cases holds
      exact ⟨_, rewrites.found, rfl, .inr ⟨rfl, reserved, buf, size, rfl⟩⟩
    · refine ⟨entry, ?_, rfl, .inl ⟨rfl, rfl⟩⟩
      rw [rewrites.find, if_neg fun same => here same.symm, held]
  | putRefused | getMissed | reserveRefused | cancelRefused =>
    exact ⟨entry, held, rfl, .inl ⟨rfl, rfl⟩⟩
  | getQueued holds reserved => exact overwritten holds (fun _ => find_store) ⟨rfl, rfl, rfl⟩
  | getDelivered holds ready unlisted sizes find => exact overwritten holds find ⟨rfl, rfl, rfl⟩
  | reserveFresh absent => exact inserted absent fun _ => find_insertNew
  | reserveHeld holds ready => exact overwritten holds (fun _ => find_store) ⟨rfl, rfl, rfl⟩
  | cancelled holds reserved rewrites => exact overwritten holds rewrites.find ⟨rfl, rfl, rfl⟩
  | done ran => cases kept

/-- What a call hands out is in the slot. -/
theorem effect_hands_out (effect : Effect number cache op ret next delivered) :
    ∀ reference ∈ obtained next (record cache next op ret delivered), reference.key = op.key ∧
    reference.Holds next := by
  intro reference member
  have none' (nothing : obtained next (record cache next op ret delivered) = []) :
      reference.key = op.key ∧ reference.Holds next := by
    rw [nothing] at member
    cases member
  cases effect with
  | @putFresh key buf size absent =>
    have inserted : (cache.insertNew key (.filled · buf size)).find key =
      some (.filled cache.nextRef buf size) := by
      rw [find_insertNew, if_pos rfl]
    have found := (find_resized (addSize cache.currentSize size)).trans inserted
    simp only [obtained, record, Op.key, found, if_true, List.filter_nil, List.map_nil,
      List.mem_singleton] at member
    subst member
    exact ⟨rfl, _, found, rfl, rfl, rfl⟩
  | @putReserved key buf size entry _ held reserved rewrites =>
    have found := rewrites.found
    simp only [obtained, record, Op.key, found, if_true, List.mem_cons, List.mem_map,
      List.mem_filter] at member
    rcases member with rfl | ⟨delivery, ⟨inside, _⟩, rfl⟩
    · exact ⟨rfl, _, found, rfl, rfl, rfl⟩
    · obtain ⟨_, _, rfl⟩ := inside
      exact ⟨rfl, _, found, rfl, rfl, rfl⟩
  | @putRefused key buf size entry held occupied =>
    exact none' (by simp [obtained, record, Op.key, held])
  | getMissed absent => exact none' (by simp [obtained, record, Op.key, absent])
  | getQueued held reserved => exact none' (by simp [obtained, record, Op.key])
  | @getDelivered key entry _ held ready unlisted sizes find =>
    have found := find key
    rw [if_pos rfl] at found
    simp only [obtained, record, Op.key, found, List.filter_cons_of_pos, List.filter_nil,
      List.map_cons, List.map_nil,
      List.mem_singleton] at member
    subst member
    exact ⟨rfl, _, found, rfl, rfl, rfl⟩
  | reserveFresh absent => exact none' (by simp [obtained, record, Op.key])
  | reserveHeld held ready => exact none' (by simp [obtained, record, Op.key])
  | reserveRefused held reserved => exact none' (by simp [obtained, record, Op.key, held])
  | @cancelled key entry _ held reserved rewrites =>
    apply none'
    have nothing : (entry.queue.map fun callback =>
      (callback, (⟨none, 0, false⟩ : CacheData δ))).filter
        (fun delivery => delivery.2.isCached) = [] := by
      rw [List.filter_eq_nil_iff]
      simp
    simp [obtained, record, Op.key, rewrites.found, nothing]
  | cancelRefused unreserved =>
    apply none'
    unfold obtained
    split <;> rfl
  | done ran =>
    apply none'
    unfold obtained
    split <;> rfl

variable {call : Call κ δ} {held more : List (Reference κ δ)} {calls : List (Call κ δ)}

@[simp] theorem holders_append : holders key (held ++ more) = holders key held + holders key more :=
  List.countP_append ..

omit [DecidableEq κ] in
@[simp] theorem filled_concat : filled (calls ++ [call]) =
    filled calls + if fills call then 1 else 0 := by
  simp [filled, List.countP_singleton]

/-- As many references are handed out as the call counts. -/
theorem obtained_length (found : cache.find call.op.key = some entry) :
    (obtained cache call).length = hits call.delivered + if fills call then 1 else 0 := by
  obtain ⟨op, ret, created, delivered⟩ := call
  cases op with
  | put => cases ret <;> simp [obtained, found, fills, hits, List.countP_eq_length_filter]
  | get | reserve | cancelReservation | doneWith =>
    simp [obtained, found, fills, hits, List.countP_eq_length_filter]

private theorem holders_obtained (own : ∀ reference ∈ obtained cache call,
    reference.key = call.op.key) :
    holders key (obtained cache call) = if call.op.key =
    key then (obtained cache call).length else 0 := by
  unfold holders
  split
  · rename_i here
    exact List.countP_eq_length.mpr fun reference member => by simp [own reference member, here]
  · rename_i other
    exact List.countP_eq_zero.mpr fun reference member => by simp [own reference member, other]

/-- One call, with the references it hands out. -/
private theorem call_cases (ran : exec ledger (.call op) = .ok after) :
    ∃ ret delivered, Effect ledger.run.calls.length ledger.run.cache op ret after.run.cache
    delivered ∧
      after.run.calls = ledger.run.calls ++
      [record ledger.run.cache after.run.cache op ret delivered] ∧
      after.held = ledger.held ++ obtained after.run.cache
      (record ledger.run.cache after.run.cache op ret delivered) := by
  simp only [exec] at ran
  cases step : CacheRuns.exec ledger.run op with
  | error fault => simp [step, bind, Except.bind] at ran
  | ok run =>
    simp only [step, bind, Except.bind, pure, Except.pure, Except.ok.injEq] at ran
    subst ran
    obtain ⟨ret, delivered, effect, calls⟩ := exec_effect step
    exact ⟨ret, delivered, effect, calls, by simp [calls]⟩

/-- One `doneWith`, with the reference it is called for. -/
private theorem release_request_cases {index : Nat} (allowed : Permitted ledger (.release index))
    (ran : exec ledger (.release index) = .ok after) :
    ∃ reference, (reference :: after.held).Perm ledger.held ∧
      ledger.run.cache.doneWith reference.key = .ok after.run.cache ∧
      after.run.calls = ledger.run.calls ++
      [record ledger.run.cache after.run.cache (.doneWith reference.key) true []] := by
  have within : index < ledger.held.length := allowed
  simp only [exec, List.getElem?_eq_getElem within] at ran
  cases step : CacheRuns.exec ledger.run (.doneWith ledger.held[index].key) with
  | error fault => simp [step, bind, Except.bind] at ran
  | ok run =>
    simp only [step, bind, Except.bind, pure, Except.pure, Except.ok.injEq] at ran
    subst ran
    obtain ⟨ret, delivered, effect, calls⟩ := exec_effect step
    cases effect with
    | done released =>
      exact ⟨ledger.held[index], List.getElem_cons_eraseIdx_perm within, released, calls⟩

/-- Only a reserved slot is filled when it is there already. -/
private theorem effect_fills (effect : Effect number cache op ret next delivered)
    (filling : fills (record cache next op ret delivered) = true)
    (held : cache.find op.key = some entry) :
    entry.isReserved = true ∧ ∃ buf size, op = .put op.key buf size := by
  cases effect with
  | putFresh absent => cases held.symm.trans absent
  | putReserved found reserved =>
    cases held.symm.trans found
    exact ⟨reserved, _, _, rfl⟩
  | putRefused | getMissed | getQueued | getDelivered | reserveFresh | reserveHeld | reserveRefused
  | cancelled | cancelRefused | done => cases filling

private theorem covered_call (covered : Covered ledger) (kept : isDone op = false)
    (once : FillsOnce ledger (.call op)) (ran : exec ledger (.call op) = .ok after) :
    Covered after := by
  obtain ⟨ret, delivered, effect, calls, held⟩ := call_cases ran
  have handed := effect_hands_out effect
  have obtains (name : κ) :
    holders name (obtained after.run.cache
    (record ledger.run.cache after.run.cache op ret delivered)) =
      if op.key = name then
        (obtained after.run.cache (record ledger.run.cache after.run.cache op ret delivered)).length
      else 0 :=
    holders_obtained fun reference member => (handed reference member).1
  refine ⟨?_, ?_, ?_⟩
  · intro reference member
    rw [held] at member
    rcases List.mem_append.mp member with old | new
    · obtain ⟨entry, found, ref, data, size⟩ := covered.stable reference old
      obtain ⟨stays, there, same, ⟨still, large⟩ | ⟨here, reserved, buf, bytes, rfl⟩⟩ :=
        effect_contents effect kept found
      · exact ⟨stays, there, same.trans ref, still.trans data, large.trans size⟩
      · simp only [FillsOnce, found] at once
        exact absurd rfl ((once reserved).2 reference old)
    · exact (handed reference new).2
  · intro name entry found
    have counts := effect_counts effect found
    rw [calls, life_record found, held, holders_append, obtains]
    unfold Counts at counts
    split at counts
    · rename_i own
      subst own
      rw [if_pos rfl, if_pos rfl, obtained_length found]
      rcases counts with ⟨absent, one, nothing, _⟩ | ⟨before, there, balance⟩
      · rw [absent, if_pos Option.isNone_none, covered.stable.unheld absent, one]
        simp [filled, List.countP_singleton, record, nothing, hits]
      · have earlier := covered.counted _ before there
        rw [there, if_neg (by simp), filled_concat]
        change _ = _ + (_ + (hits delivered + _))
        rw [kept] at balance
        simp only [Bool.false_eq_true, if_false] at balance
        omega
    · rename_i other
      obtain ⟨before, there, same⟩ := counts
      rw [if_neg other, if_neg other, same]
      exact covered.counted name before there
  · intro name entry found
    rw [calls, life_record found]
    by_cases own : op.key = name
    · subst own
      rw [if_pos rfl]
      cases there : ledger.run.cache.find op.key with
      | none => exact List.countP_le_length
      | some before =>
        rw [if_neg (by simp), filled_concat]
        split
        · rename_i filling
          obtain ⟨reserved, buf, size, put⟩ := effect_fills effect filling there
          generalize op.key = name at put there
          subst put
          simp only [FillsOnce, there] at once
          rw [(once reserved).1]
        · exact covered.once _ before there
    · rw [if_neg own]
      have counts := effect_counts effect found
      unfold Counts at counts
      rw [if_neg own] at counts
      obtain ⟨before, there, _⟩ := counts
      exact covered.once name before there

private theorem covered_release {index : Nat} (covered : Covered ledger)
    (allowed : Permitted ledger (.release index)) (ran : exec ledger (.release index) = .ok after) :
    Covered after := by
  obtain ⟨given, permuted, released, calls⟩ := release_request_cases allowed ran
  have counts (name : κ) : holders name ledger.held = holders name after.held + if name =
    given.key then 1 else 0 := by
    unfold holders
    rw [← permuted.countP_eq, List.countP_cons]
    simp [eq_comm]
  have lives {name : κ} {before entry : CacheEntry δ Nat}
    (there : ledger.run.cache.find name = some before)
      (found : after.run.cache.find name = some entry) :
      filled (life name after.run.calls) = filled (life name ledger.run.calls) := by
    rw [calls, life_record found, there]
    split
    · rw [if_neg (by simp), filled_concat]
      rfl
    · rfl
  refine ⟨?_, ?_, ?_⟩
  · intro reference member
    obtain ⟨before, there, ref, data, size⟩ :=
      covered.stable reference (permuted.subset (List.mem_cons_of_mem _ member))
    obtain ⟨kept, found, same, _⟩ | ⟨_, last⟩ := doneWith_counts released there
    · exact ⟨kept, found, same.ref.trans ref, same.data.trans data, same.size.trans size⟩
    · have counted := covered.counted _ before there
      have once := covered.once _ before there
      have holding := counts reference.key
      have present : 0 < holders reference.key after.held :=
        List.countP_pos_iff.mpr ⟨reference, member, by simp⟩
      omega
  · intro name entry found
    obtain ⟨before, there, _⟩ := doneWith_find released found
    obtain ⟨kept, again, _, counted⟩ | ⟨gone, _⟩ := doneWith_counts released there
    · rw [found] at again
      cases again
      have earlier := covered.counted name before there
      have holding := counts name
      rw [lives there found]
      omega
    · rw [found] at gone
      cases gone
  · intro name entry found
    obtain ⟨before, there, _⟩ := doneWith_find released found
    rw [lives there found]
    exact covered.once name before there

private theorem covered_step (covered : Covered ledger) (allowed : Permitted ledger request)
    (once : FillsOnce ledger request) (ran : exec ledger request = .ok after) : Covered after := by
  cases request with
  | call op => exact covered_call covered allowed.2 once ran
  | release index => exact covered_release covered allowed ran

/-- **What is held stays.** In every run in which no slot is filled a second time, or
while someone holds its contents, the slot of every reference that is held is there
with the buffer and the size that were handed out. -/
theorem held_stays {attempts : List (Ledger κ δ × Request κ δ)}
    (run : Run (clients κ δ quota) attempts (.ok ledger))
    (once : ∀ attempt ∈ attempts, FillsOnce attempt.1 attempt.2) : Stable ledger := by
  have covered : Covered ledger := run.guarded Covered FillsOnce ⟨nofun, nofun, nofun⟩
    (fun _ _ _ covered allowed once ran => covered_step covered allowed once ran) once
  exact covered.stable

/-- A buffer is put, looked up and released by both clients; another one is put for a
client that waits for it. -/
private def lending : List (Request (List Char) Bool) :=
  [.call (.put ['a'] (some true) 1), .call (.get ['a']), .release 0, .call (.reserve ['b']),
    .call (.get ['b']), .call (.put ['b'] (some false) 2), .release 0]

theorem held_stays_run : ∃ (attempts : List (Ledger (List Char) Bool × Request (List Char) Bool))
    (ledger : Ledger (List Char) Bool),
    Run (clients (List Char) Bool 10) attempts (.ok ledger) ∧ ledger.run.cache.strays = 0 ∧
    ledger.held = [⟨['b'], 1, some false, 2⟩, ⟨['b'], 1, some false, 2⟩] ∧ Stable ledger := by
  obtain ⟨ledger, ran, unstrayed, held⟩ : ∃ ledger : Ledger (List Char) Bool,
      (clients (List Char) Bool 10).replay (clients (List Char) Bool 10).start lending =
        .ok ledger ∧ ledger.run.cache.strays = 0 ∧
        ledger.held = [⟨['b'], 1, some false, 2⟩, ⟨['b'], 1, some false, 2⟩] := ⟨_, rfl, rfl, rfl⟩
  have run := replayed (clients (List Char) Bool 10) lending (by decide)
  rw [ran] at run
  exact ⟨_, ledger, run, unstrayed, held, held_stays run (by decide)⟩

/-- A slot is reserved while its contents are held, and filled: the buffer that is held
is replaced. -/
theorem held_buffer_replaced : ∃ attempts ledger, Run (clients (List Char) Bool 0) attempts
    (.ok ledger) ∧
    attempts.map Prod.snd = [.call (.put ['a'] (some true) 1), .call (.reserve ['a']),
    .call (.put ['a'] (some false) 2)] ∧
    ⟨['a'], 0, some true, 1⟩ ∈ ledger.held ∧ (ledger.run.cache.find ['a']).map CacheEntry.data =
    some (some false) ∧
    ¬ Stable ledger := by
  refine ⟨_, _, replayed (clients (List Char) Bool 0)
    [.call (.put ['a'] (some true) 1), .call (.reserve ['a']), .call (.put ['a'] (some false) 2)]
    (by decide), rfl,
    List.mem_cons_self, rfl, ?_⟩
  intro stable
  obtain ⟨entry, found, _, data, _⟩ := stable ⟨['a'], 0, some true, 1⟩ List.mem_cons_self
  cases found
  cases data

end EventDisp.CacheHolders
