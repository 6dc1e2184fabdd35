import EventDisp.CacheBuffers
import EventDisp.CacheChanges

/-! Which calls use what has been freed: those that evict a slot, and those that call a
deleted callback. No other call does, whatever came before. -/
namespace EventDisp.CacheRuns

open Cache CacheBuffers

variable {κ δ : Type} [DecidableEq κ]
variable {cache next : Cache κ δ Nat} {state after : State κ δ} {op : Op κ δ} {number : Nat}
  {ret : Bool} {delivered : List (Delivery δ)}

/-- The call resolves a reserved slot whose first waiter has been deleted. -/
def CallsDeleted (cache : Cache κ δ Nat) : Op κ δ → Prop
  | .put key _ _ | .cancelReservation key =>
    match cache.find key with
    | some entry => entry.isReserved = true ∧ 0 < entry.deleted ∧ entry.queue ≠ []
    | none => False
  | .get _ | .reserve _ | .doneWith _ => False

/-- A `doneWith` that returns evicts exactly when the reference cannot simply be given back. -/
theorem evicts_iff {key : κ} {entry : CacheEntry δ Nat} (held : cache.find key = some entry)
    (referenced : 0 < entry.refCount) :
    Evicts cache (.doneWith key : Op κ δ) ↔ ¬ Bears cache entry.refCount := by
  simp only [Evicts, held, Bears, not_or, not_and]
  constructor
  · rintro ⟨exceeds, listed | last⟩
    · exact ⟨Nat.not_le.mpr exceeds, fun empty => absurd empty listed⟩
    · exact ⟨Nat.not_le.mpr exceeds, fun _ => by omega⟩
  · rintro ⟨exceeds, several⟩
    refine ⟨Nat.lt_of_not_le exceeds, ?_⟩
    by_cases empty : cache.freeList.nodes = []
    · have last := several empty
      exact .inr (by omega)
    · exact .inl empty

/-- A call that has returned used nothing freed exactly when it evicted nothing and called no
deleted callback. -/
theorem effect_strays (effect : Effect number cache op ret next delivered) :
    next.strays = cache.strays ↔ ¬ Evicts cache op ∧ ¬ CallsDeleted cache op := by
  have resolved {entry : CacheEntry δ Nat} (reserved : entry.isReserved = true)
      (strays : next.strays = cache.strays + min entry.deleted entry.queue.length) :
      next.strays = cache.strays ↔
        ¬ (entry.isReserved = true ∧ 0 < entry.deleted ∧ entry.queue ≠ []) := by
    have some : entry.queue ≠ [] ↔ 0 < entry.queue.length := List.length_pos_iff.symm
    rw [strays, some]
    simp only [reserved, true_and]
    omega
  cases effect with
  | putReserved held reserved _ strays =>
    simpa [Evicts, CallsDeleted, held] using resolved reserved strays
  | cancelled held reserved _ strays =>
    simpa [Evicts, CallsDeleted, held] using resolved reserved strays
  | getDelivered _ _ _ _ _ strays => exact iff_of_true strays ⟨id, id⟩
  | putFresh absent => exact iff_of_true rfl ⟨id, by simp [CallsDeleted, absent]⟩
  | putRefused held occupied =>
    exact iff_of_true rfl ⟨id, by simp [CallsDeleted, held, occupied]⟩
  | @cancelRefused key unreserved =>
    refine iff_of_true rfl ⟨id, ?_⟩
    simp only [CallsDeleted]
    split
    · rename_i entry held
      simp [unreserved entry held]
    · exact id
  | getMissed | getQueued | reserveFresh | reserveHeld | reserveRefused =>
    exact iff_of_true rfl ⟨id, id⟩
  | @done key _ ran =>
    obtain ⟨entry, held, referenced⟩ := doneWith_referenced ran
    rw [doneWith_strays held ran, evicts_iff held referenced, not_not]
    exact (and_iff_left id).symm

/-- The same of a call of a run. -/
theorem exec_strays (ran : exec state op = .ok after) :
    after.cache.strays = state.cache.strays ↔
      ¬ Evicts state.cache op ∧ ¬ CallsDeleted state.cache op := by
  obtain ⟨ret, delivered, effect, _⟩ := exec_effect ran
  exact effect_strays effect

end EventDisp.CacheRuns
