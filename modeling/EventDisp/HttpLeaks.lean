import EventDisp.HttpGrowth
import EventDisp.HttpRuns

/-! References to slots of the cache that nobody holds: the one a reservation begins with
is never released, so that no slot is ever freed. -/
namespace EventDisp.Server

open Execution

variable {server : Server}

/-- Every child that has been made is finalised. -/
def Settled (server : Server) : Prop := ∀ pk, .created pk ∈ server.client.log →
    .finalised pk ∈ server.client.log

/-- Every slot is without references and on the free list. -/
def Unleaked (server : Server) : Prop :=
  ∀ key entry, server.cache.find key = some entry → entry.refCount = 0 ∧
    ∃ node, entry.freeListRef = some node ∧ (node, (⟨key, entry.ref⟩ : EntryPtr Key)) ∈
    server.cache.freeList.nodes

/-- The history of a run tells which keys are in the cache. -/
theorem reachable_known (reached : Reachable program server) : Known server ∧ Answered server := by
  have kept : Sound (fun _ _ => True) server ∧ Known server ∧ Answered server := by
    refine reached.invariant (fun server => Sound (fun _ _ => True) server ∧ Known server ∧
      Answered server) ?_ ?_
    · refine ⟨.start _, ⟨Nat.zero_le _, ?_⟩, ?_⟩
      · intro key
        constructor
        · rintro ⟨_, found⟩
          cases found
        · rintro ⟨_, member⟩
          cases member
      · intro _ _ _ _ member
        cases member
    · rintro server step after ⟨sound, known, answered⟩ allowed ran
      have next : Sound (fun _ _ => True) after :=
        (exec_sound sound allowed (provides_anything server step)).returned ran
      have extended := exec_extends ran
      have promising : Promising after := ⟨_, next.1.lawful, List.prefix_rfl⟩
      exact ⟨next, extended.known promising known, extended.answered promising known answered⟩
  exact kept.2

/-- No reference is left exactly when no request has been looked up: the first lookup
makes a slot that is never freed. -/
theorem unleaked_iff (reached : Reachable program server) :
    Unleaked server ↔ ∀ pk key use found, .asked pk key use found ∉ server.client.log := by
  obtain ⟨known, answered⟩ := reachable_known reached
  obtain ⟨lives, stocked⟩ := reachable_sound reached
  constructor
  · intro unleaked pk key use found asked
    obtain ⟨loader, name, reserved⟩ := answered pk key use found asked
    obtain ⟨entry, there⟩ := (known.reserved name).mpr ⟨loader, reserved⟩
    obtain ⟨_, node, listed, _⟩ := unleaked name entry there
    rw [(stocked.entries name entry there).1] at listed
    cases listed
  · intro quiet key entry there
    obtain ⟨loader, reserved⟩ := (known.reserved key).mp ⟨entry, there⟩
    obtain ⟨before, after, shape⟩ := List.append_of_mem reserved
    obtain ⟨_, _, asked⟩ := lives.lawful before _ after shape
    obtain ⟨⟨name, use⟩, last, _⟩ := Option.map_eq_some_iff.mp asked
    obtain ⟨found, member⟩ := asked_of_story last
    refine absurd ?_ (quiet loader name use found)
    rw [shape]
    exact List.mem_append_left _ member

/-- A request that is bad, and its answer. -/
private def answeredBad : List Step :=
  asking "GET /a FOO\r\n\r\n".toList bare ++ [.complete 0 (.wrote 4) bare]

/-- A bad request is looked up nowhere. -/
theorem unleaked_bad : ∃ server, Reachable program server ∧ Settled server ∧ Unleaked server := by
  obtain ⟨server, ran, log⟩ : ∃ server, program.replay program.start answeredBad = .ok server ∧
      server.client.log = [.accepted 0, .created ⟨0, 1⟩, .activated ⟨0, 1⟩,
      .written ⟨0, 1⟩ .head answer400 4,
        .finalised ⟨0, 1⟩, .rearmed ⟨0, 0⟩] := ⟨_, rfl, rfl⟩
  have reached : Reachable program server := .replayed (by decide) ran
  refine ⟨server, reached, ?_, (unleaked_iff reached).mpr ?_⟩
  · simp [Settled, log]
  · simp [log]

/-- A request for a file that is not there, and its answer. -/
private def answeredMissing : List Step :=
  asking "GET /a HTTP/1.1\r\n\r\n".toList bare ++ [.complete 0 (.wrote 26) bare]

/-- When the request has been answered, its slot still has two references. -/
theorem missing_leaks : ∃ server entry, Reachable program server ∧ Settled server ∧
    server.cache.find "a".toList = some entry ∧ entry.refCount = 2 ∧ ¬ Unleaked server := by
  have made : ∃ server entry, program.replay program.start answeredMissing = .ok server ∧
      server.client.log = [.accepted 0, .created ⟨0, 1⟩, .activated ⟨0, 1⟩,
      .asked ⟨0, 1⟩ "a".toList (.head "a".toList 1) .missed,
        .reserved ⟨0, 1⟩ "a".toList, .asked ⟨0, 1⟩ "a".toList (.head "a".toList 1) .queued,
        .loading ⟨0, 1⟩ "a".toList,
        .put ⟨0, 1⟩ "a".toList (head404 1), .delivered ⟨0, 1⟩ true,
          .written ⟨0, 1⟩ .head (head404 1) 26, .finalised ⟨0, 1⟩,
        .rearmed ⟨0, 0⟩] ∧
      server.cache.find "a".toList = some entry ∧ entry.refCount = 2 := ⟨_, _, rfl, rfl, rfl, rfl⟩
  obtain ⟨server, entry, ran, log, found, counted⟩ := made
  have reached : Reachable program server := .replayed (by decide) ran
  refine ⟨server, entry, reached, by simp [Settled, log], found, counted, ?_⟩
  intro unleaked
  have freed := (unleaked _ entry found).1
  omega

end EventDisp.Server
