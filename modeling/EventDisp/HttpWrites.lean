import EventDisp.HttpFraming
import EventDisp.HttpShortWrites

/-! What a step tells to have been written: the write that completes in it, and nothing else.
A head is written once, and before anything of the body behind it. -/
namespace EventDisp.Server

open Execution History

variable {server after : Server} {step : Step} {pk : PackagePtr} {key : Key}
variable {good : KeyUse → Text → Prop} {log : List Event}

/-- Taking up the work of a step only tells what has been written. -/
private theorem begun_log (server : Server) (step : Step) :
    (begun server step).client.log = server.client.log ∨
    ∃ index count around pk part data, step = .complete index (.wrote count) around ∧
      (begun server step).client.log = server.client.log ++ [.written pk part data count] ∧
      (part = .body ∧ server.client.aios[index]? = some (.writeBody pk data) ∨
        part = .head ∧ step.headWrite server = some (pk, data, count)) := by
  cases step with
  | accept => exact .inl rfl
  | run index around =>
    unfold begun
    dsimp only
    split <;> exact .inl rfl
  | complete index completion around =>
    unfold begun
    dsimp only
    split
    · exact .inl rfl
    · rename_i aio found
      cases completion with
      | read | failed => cases aio <;> exact .inl rfl
      | wrote count =>
        cases aio with
        | readRequest | readBody => exact .inl rfl
        | writeHead pk data | write400 pk data =>
          exact .inr ⟨index, count, around, pk, .head, data, rfl, rfl,
            .inr ⟨rfl, by simp [Step.headWrite, found]⟩⟩
        | writeBody pk data =>
          exact .inr ⟨index, count, around, pk, .body, data, rfl, rfl, .inl ⟨rfl, found⟩⟩

/-- What a step adds to the history: perhaps what has been written, and then nothing of the kind. -/
theorem exec_adds (ran : exec server step = .ok after) : ∃ front more,
    after.client.log = server.client.log ++ front ++ more ∧
    (front = [] ∨ ∃ index count around pk part data, step = .complete index (.wrote count) around ∧
      front = [.written pk part data count] ∧
      (part = .body ∧ server.client.aios[index]? = some (.writeBody pk data) ∨
        part = .head ∧ step.headWrite server = some (pk, data, count))) ∧
    ∀ event ∈ more, event.By ⟨step.Seeks server, step.Names server⟩ := by
  obtain ⟨more, grown, by'⟩ := (exec_acts ran).told
  rcases begun_log server step with same | ⟨index, count, around, pk, part, data, rfl, same, kind⟩
  · exact ⟨[], more, by rw [← grown, same, List.append_nil], .inl rfl, by'⟩
  · exact ⟨_,
      more, by rw [← grown, same], .inr ⟨index, count, around, pk, part, data, rfl, rfl, kind⟩, by'⟩

/-- What is looked up in a step is what may be. -/
theorem exec_seeks {use : KeyUse} {found : Lookup} {added : List Event} (ran : exec server step = .ok after)
    (grown : after.client.log = server.client.log ++ added) (member : .asked pk key use found ∈ added) :
    step.Seeks server pk use := by
  obtain ⟨front, more, grown', told, by'⟩ := exec_adds ran
  rw [grown, List.append_assoc, List.append_cancel_left_eq] at grown'
  subst grown'
  rcases List.mem_append.mp member with here | acted
  · rcases told with rfl | ⟨_, _, _, _, _, _, _, rfl, _⟩
    · cases here
    · cases List.mem_singleton.mp here
  · exact by' _ acted

/-- A completed write of a head is told first of all. -/
theorem headWrite_told {data : Text} {count : Nat} (ran : exec server step = .ok after)
    (writes : step.headWrite server = some (pk, data, count)) :
    server.client.log ++ [.written pk .head data count] <+: after.client.log := by
  obtain ⟨more, grown, _⟩ := (exec_acts ran).told
  have taken : (begun server step).client.log =
      server.client.log ++ [.written pk .head data count] := by
    unfold Step.headWrite at writes
    split at writes
    · split at writes
      · rename_i found
        cases writes
        simp only [begun, found]
        rfl
      · rename_i found
        cases writes
        simp only [begun, found]
        rfl
      all_goals cases writes
    all_goals cases writes
  exact ⟨more, taken ▸ grown⟩

/-- Only what has completed is told to have been written. -/
theorem exec_writes (ran : exec server step = .ok after) : ∃ front more,
    after.client.log = server.client.log ++ (front ++ more) ∧
    (∀ event ∈ more, event.By ⟨step.Seeks server, step.Names server⟩) ∧
    ∀ pk part data count, .written pk part data count ∈ front ++ more →
      front = [.written pk part data count] ∧ ∃ index around,
      step = .complete index (.wrote count) around ∧
        (part = .body ∧ server.client.aios[index]? = some (.writeBody pk data) ∨
          part = .head ∧ step.headWrite server = some (pk, data, count)) := by
  obtain ⟨front, more, grown, told, by'⟩ := exec_adds ran
  refine ⟨front, more, by rw [grown, List.append_assoc], by', ?_⟩
  intro pk part data count member
  rcases List.mem_append.mp member with here | acted
  · rcases told with rfl | ⟨index, _, around, _, _, _, rfl, rfl, kind⟩
    · cases here
    · cases List.mem_singleton.mp here
      exact ⟨rfl, index, around, rfl, kind⟩
  · exact (by' _ acted).elim

/-- What has completed is told first of all. -/
theorem written_first {part : HttpWST} {data : Text} {count : Nat} {first rest : List Event}
    (ran : exec server step = .ok after)
    (grown : after.client.log =
      server.client.log ++ (first ++ .written pk part data count :: rest)) :
    first = [] ∧ ∃ index around, step = .complete index (.wrote count) around ∧
      (part = .body ∧ server.client.aios[index]? = some (.writeBody pk data) ∨
        part = .head ∧ step.headWrite server = some (pk, data, count)) := by
  obtain ⟨front, more, longer, by', written⟩ := exec_writes ran
  have shape := List.append_cancel_left (longer.symm.trans grown)
  obtain ⟨rfl, told⟩ := written pk part data count (by simp [shape])
  refine ⟨?_, told⟩
  cases first with
  | nil => rfl
  | cons event first =>
    obtain ⟨_, rfl⟩ := List.cons.inj shape
    exact (by' (.written pk part data count) (by simp)).elim

/-- Who has had a head written goes on, and so writes no other one. -/
theorem heads_keep (sound : Sound good server) (ran : exec server step = .ok after)
    (once : Throughout HeadOnce server.client.log)
    (moved : ∀ pk data count, .written pk .head data count ∈ server.client.log →
      ∃ event ∈ server.client.log, event.movesOn pk = true) :
    Throughout HeadOnce after.client.log ∧
    ∀ pk data count, .written pk .head data count ∈ after.client.log →
      ∃ event ∈ after.client.log, event.movesOn pk = true := by
  obtain ⟨front, more, grown, _, written⟩ := exec_writes ran
  constructor
  · rw [grown]
    refine throughout_append.mpr ⟨once, fun earlier event rest shape => ?_⟩
    cases event with
    | written pk part data count =>
      cases part with
      | body | unknown => trivial
      | head =>
        intro data' count' again
        obtain ⟨rfl, index, around, _, ⟨part, _⟩ | ⟨_, writes⟩⟩ :=
          written_first ran (grown.trans (by rw [shape]))
        · cases part
        · rw [List.append_nil] at again
          obtain ⟨event, inside, movesOn⟩ := moved pk data' count' again
          rw [headWrite_unmoved sound writes event inside] at movesOn
          cases movesOn
    | finalised | accepted | created | activated | rearmed | closed | asked | reserved | loading
    | put | cancelled | delivered | aborted | released => trivial
  · intro pk data count member
    have old : server.client.log ⊆ after.client.log := by
      rw [grown]
      exact List.subset_append_left ..
    rcases List.mem_append.mp (grown ▸ member) with before | new
    · obtain ⟨event, inside, movesOn⟩ := moved pk data count before
      exact ⟨event, old inside, movesOn⟩
    · obtain ⟨_, index, around, _, ⟨part, _⟩ | ⟨_, writes⟩⟩ := written _ _ _ _ new
      · cases part
      · obtain ⟨event, inside, movesOn⟩ := headWrite_moves sound writes ran
        exact ⟨event, List.mem_of_mem_drop inside, movesOn⟩

end EventDisp.Server
