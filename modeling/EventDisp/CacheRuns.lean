import EventDisp.Cache
import EventDisp.General.Execution

/-! Sequences of calls on a fresh cache by a client whose callbacks do not call
the cache again. The callback handed over by the `n`-th call of the run is
number `n`, so that no callback object is handed over twice. -/
namespace EventDisp.CacheRuns

open Cache

variable {κ δ : Type} [DecidableEq κ]

/-- One call of a client. -/
inductive Op (κ δ : Type) where
  | put (key : κ) (buf : Option δ) (size : Nat)
  | get (key : κ)
  | reserve (key : κ)
  | cancelReservation (key : κ)
  | doneWith (key : κ)
  deriving DecidableEq, Repr

def Op.key : Op κ δ → κ
  | put key _ _ | get key | reserve key | cancelReservation key | doneWith key => key

/-- One invocation of a callback, by number, with what it was handed. -/
abbrev Delivery (δ : Type) := Nat × CacheData δ

/-- A returned call: what it answered, whether it inserted the slot of its key,
and the callbacks it invoked, in order. -/
structure Call (κ δ : Type) where
  op : Op κ δ
  ret : Bool
  created : Bool
  delivered : List (Delivery δ)

/-- The numbers of the callbacks invoked so far, in order. -/
def invoked (calls : List (Call κ δ)) : List Nat :=
  calls.flatMap fun call => call.delivered.map Prod.fst

/-- The cache and the calls made on it so far. -/
structure State (κ δ : Type) where
  cache : Cache κ δ Nat
  calls : List (Call κ δ)

/-- A callback that records its invocation. -/
def deliver : Invoke κ δ Nat (List (Delivery δ)) := fun callback data host =>
  .ok { host with client := host.client ++ [(callback, data)] }

/-- The call itself; `number` is the callback a `get` hands over. `doneWith`
answers nothing. -/
def apply (number : Nat) (cache : Cache κ δ Nat) :
    Op κ δ → Except Fault (Bool × Host κ δ Nat (List (Delivery δ)))
  | .put key buf size => put deliver key buf size ⟨cache, []⟩
  | .get key => get deliver key (some number) ⟨cache, []⟩
  | .reserve key => .ok ((cache.reserve key).1, ⟨(cache.reserve key).2, []⟩)
  | .cancelReservation key => cancelReservation deliver key ⟨cache, []⟩
  | .doneWith key => (cache.doneWith key).map fun cache => (true, ⟨cache, []⟩)

def exec (state : State κ δ) (op : Op κ δ) : Except Fault (State κ δ) := do
  let (ret, host) ← apply state.calls.length state.cache op
  return {
    cache := host.cache
    calls := state.calls ++ [{
      op, ret
      created := (state.cache.find op.key).isNone && (host.cache.find op.key).isSome
      delivered := host.client }] }

/-- A buffer size is a `size_t`. -/
def Op.Sized : Op κ δ → Prop
  | .put _ _ size => size < 2 ^ 64
  | _ => True

/-- What the client owes the cache: `doneWith` only for keys whose reference
count is positive. -/
def Contract (cache : Cache κ δ Nat) : Op κ δ → Prop
  | .doneWith key =>
    match cache.find key with
    | some entry => 0 < entry.refCount
    | none => False
  | _ => True

instance : DecidablePred (Op.Sized : Op κ δ → Prop)
  | .put _ _ size => inferInstanceAs (Decidable (size < 2 ^ 64))
  | .get _ | .reserve _ | .cancelReservation _ | .doneWith _ => isTrue trivial

instance (cache : Cache κ δ Nat) : DecidablePred (Contract cache)
  | .doneWith key =>
    match held : cache.find key with
    | some entry => decidable_of_iff (0 < entry.refCount) (by simp [Contract, held])
    | none => isFalse (by simp [Contract, held])
  | .put .. | .get _ | .reserve _ | .cancelReservation _ => isTrue trivial

/-- Any client of a fresh cache with the given quota. -/
def anyClient (κ δ : Type) [DecidableEq κ] (quota : Nat) : Execution.Program (State κ δ)
    (Op κ δ) Fault where
  start := ⟨{ sizeQuota := quota }, []⟩
  allowed _ op := op.Sized
  exec := exec

/-- A client that keeps its contract. -/
def client (κ δ : Type) [DecidableEq κ] (quota : Nat) : Execution.Program (State κ δ)
    (Op κ δ) Fault where
  start := ⟨{ sizeQuota := quota }, []⟩
  allowed state op := op.Sized ∧ Contract state.cache op
  exec := exec

omit [DecidableEq κ] in
@[simp] theorem invoked_append (calls more : List (Call κ δ)) :
    invoked (calls ++ more) = invoked calls ++ invoked more :=
  List.flatMap_append ..

instance (quota : Nat) (state : State κ δ) : DecidablePred ((anyClient κ δ quota).allowed state) :=
  inferInstanceAs (DecidablePred Op.Sized)

instance (quota : Nat) (state : State κ δ) : DecidablePred ((client κ δ quota).allowed state) :=
  fun op => inferInstanceAs (Decidable (op.Sized ∧ Contract state.cache op))

end EventDisp.CacheRuns
