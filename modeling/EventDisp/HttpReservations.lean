import EventDisp.HttpGrowth
import EventDisp.HttpRuns

/-! How a key is loaded: who reserves it loads it, everyone else who asks for it waits,
and only who has reserved it resolves the reservation. -/
namespace EventDisp.Server

open Execution History

variable {server after : Server} {pk one two : PackagePtr} {key : Key} {log : List Event}
  {event : Event}
variable {good : KeyUse → Text → Prop} {around : Surroundings} {index : Nat}
  {completion : Completion}

/-- The event resolves the reservation of the key. -/
def Event.Resolves (key : Key) : Event → Prop
  | .put _ name _ | .cancelled _ name => name = key
  | .accepted _ | .created _ | .activated _ | .rearmed _ | .finalised _ | .closed _ | .asked ..
  | .reserved .. | .loading .. | .delivered .. | .aborted _ | .released .. | .written .. => False

/-- The package has reserved the key, and the reservation has not been resolved since. -/
def Loading (pk : PackagePtr) (key : Key) : List Event → Prop :=
  Since (fun event => event = .reserved pk key) (Event.Resolves key)

/-- The package has found the key reserved, and the reservation has not been resolved since. -/
def Waiting (pk : PackagePtr) (key : Key) : List Event → Prop :=
  Since (fun event => ∃ use, event = .asked pk key use .queued) (Event.Resolves key)

/-- Which events may follow a history, as far as reservations go. -/
def Exclusive (earlier : List Event) : Event → Prop
  | .asked _ key _ found => found = .queued ↔ ∃ loader, Loading loader key earlier
  | .reserved _ key => ∀ loader, ¬ Loading loader key earlier
  | .loading pk key | .put pk key _ | .cancelled pk key => Loading pk key earlier
  | .accepted _ | .created _ | .activated _ | .rearmed _ | .finalised _ | .closed _ | .delivered ..
  | .aborted _ | .released .. | .written .. => True

/-- The slot of a key tells who loads it. -/
theorem loader_iff (lawful : Throughout (Lawful good) log) : (slot key log).loader = some pk ↔
    Loading pk key log := by
  induction log using List.reverseRecOn with
  | nil =>
    constructor
    · intro loads
      cases loads
    · intro loads
      exact absurd loads not_since_nil
  | append_singleton log event ih =>
    obtain ⟨before, last⟩ := throughout_concat.mp lawful
    rw [Loading, since_concat, slot_concat, ← Loading, ← ih before]
    cases event with
    | reserved loader name =>
      obtain ⟨free, _⟩ := last
      simp only [slotAfter, Event.reserved.injEq, Event.Resolves, not_false_iff, true_and]
      split
      · rename_i same
        subst same
        rw [free]
        simp
      · rename_i different
        simp [different]
    | put loader name data | cancelled loader name =>
      simp only [slotAfter, Event.Resolves, reduceCtorEq, false_or]
      split
      · rename_i same
        simp [same]
      · rename_i different
        simp [different]
    | asked asker name use found =>
      simp only [slotAfter, Event.Resolves, reduceCtorEq, false_or, not_false_iff, true_and]
      split <;> rfl
    | accepted | created | activated | rearmed | finalised | closed | loading | delivered | aborted
    | released | written =>
      simp [slotAfter, Event.Resolves]

theorem loading_iff (lawful : Throughout (Lawful good) log) :
    (slot key log).loader.isSome = true ↔ ∃ loader, Loading loader key log := by
  rw [Option.isSome_iff_exists]
  exact exists_congr fun loader => loader_iff lawful

/-- Nobody waits for a key that is not loaded. -/
private theorem unloaded (lawful : Throughout (Lawful good) log)
    (free : (slot key log).loader = none) :
    (slot key log).waiters = [] := by
  induction log using List.reverseRecOn with
  | nil => rfl
  | append_singleton log event ih =>
    obtain ⟨before, last⟩ := throughout_concat.mp lawful
    rw [slot_concat] at free ⊢
    cases event with
    | reserved loader name =>
      simp only [slotAfter] at free ⊢
      split
      · rfl
      · rename_i different
        rw [if_neg different] at free
        exact ih before free
    | put loader name data | cancelled loader name =>
      simp only [slotAfter] at free ⊢
      split
      · rfl
      · rename_i different
        rw [if_neg different] at free
        exact ih before free
    | asked asker name use found =>
      obtain ⟨_, queued, _⟩ := last
      simp only [slotAfter] at free ⊢
      split
      · rename_i same
        obtain ⟨rfl, waits⟩ := same
        rw [if_pos ⟨rfl, waits⟩] at free
        have loads := queued.mpr waits
        rw [free] at loads
        cases loads
      · rename_i different
        rw [if_neg different] at free
        exact ih before free
    | accepted | created | activated | rearmed | finalised | closed | loading | delivered | aborted
    | released | written =>
      exact ih before free

/-- The slot of a key tells who waits for it. -/
theorem waiters_iff (lawful : Throughout (Lawful good) log) : pk ∈ (slot key log).waiters ↔
    Waiting pk key log := by
  induction log using List.reverseRecOn with
  | nil =>
    constructor
    · intro waits
      cases waits
    · intro waits
      exact absurd waits not_since_nil
  | append_singleton log event ih =>
    obtain ⟨before, last⟩ := throughout_concat.mp lawful
    rw [Waiting, since_concat, slot_concat, ← Waiting, ← ih before]
    cases event with
    | reserved loader name =>
      obtain ⟨free, _⟩ := last
      simp only [slotAfter, Event.Resolves, reduceCtorEq, exists_false, false_or, not_false_iff,
        true_and]
      split
      · rename_i same
        subst same
        rw [unloaded before free]
      · rfl
    | put loader name data | cancelled loader name =>
      simp only [slotAfter, Event.Resolves, reduceCtorEq, exists_false, false_or]
      split
      · rename_i same
        simp [same]
      · rename_i different
        simp [different]
    | asked asker name use found =>
      simp only [slotAfter, Event.Resolves, Event.asked.injEq, not_false_iff, true_and]
      split
      · rename_i same
        obtain ⟨rfl, rfl⟩ := same
        simp [or_comm, eq_comm]
      · rename_i different
        constructor
        · exact .inr
        · rintro (⟨_, _, same, _, queued⟩ | waits)
          · exact absurd ⟨same, queued⟩ different
          · exact waits
    | accepted | created | activated | rearmed | finalised | closed | loading | delivered | aborted
    | released | written =>
      simp [slotAfter, Event.Resolves]

/-- The assertions on `reserve`, on the second `get` and on `put`. -/
def reserving : List Assertion :=
  [.headReserved, .headQueued, .headPut, .bodyReserved, .bodyQueued, .bodyPut]

/-- How keys are loaded in a run. -/
structure Reserves (server : Server) : Prop where
  events : Throughout Exclusive server.client.log
  alone : ∀ key one two, Loading one key server.client.log → Loading two key server.client.log →
    one = two
  /-- Who reads a part of a body has reserved its key, and reads nothing else. -/
  reads : ∀ pk hfd offset, .readBody pk hfd offset ∈ server.client.aios →
    (readers server.client).count pk = 1 ∧
    ∃ hpkg key, server.client.packages pk = some hpkg ∧ hpkg.bodykey = some key ∧
    Loading pk key server.client.log
  /-- Between two steps, whoever has reserved a key reads. -/
  loads : ∀ pk key, Loading pk key server.client.log → ∃ hfd offset,
    .readBody pk hfd offset ∈ server.client.aios
  reserved : ∀ key, (∃ entry, server.cache.find key = some entry ∧ entry.isReserved = true) ↔
    ∃ loader, Loading loader key server.client.log
  waits : ∀ key entry, server.cache.find key = some entry → entry.isReserved = true →
    ∀ pk, pk ∈ entry.queue.map Callback.pk ↔ Waiting pk key server.client.log
  /-- A read that completes resolves the reservation. -/
  resolves : ∀ index pk hfd offset completion around after,
    server.client.aios[index]? = some (.readBody pk hfd offset) →
    program.allowed server (.complete index completion around) →
    exec server (.complete index completion around) = .ok after →
    ∃ key events event, Loading pk key server.client.log ∧
      (event = .cancelled pk key ∨ ∃ data, event = .put pk key data) ∧
      server.client.log ++ events ++ [event] <+: after.client.log
  asserts : ∀ step which, program.allowed server step →
    exec server step = .error (.assertion which) → which ∉ reserving

/-- What may follow a history may follow it as far as reservations go. -/
private theorem exclusive (lawful : Throughout (Lawful good) log) : Throughout Exclusive log := by
  intro earlier event later shape
  have last := lawful earlier event later shape
  have before : Throughout (Lawful good) earlier := by
    intro first inner rest inside
    exact lawful first inner (rest ++ event :: later) (by rw [shape, inside]; simp)
  cases event with
  | asked =>
    obtain ⟨_, queued, _⟩ := last
    exact queued.symm.trans (loading_iff before)
  | reserved loader name =>
    obtain ⟨free, _⟩ := last
    intro other loads
    rw [(loader_iff before).mpr loads] at free
    cases free
  | loading | cancelled => exact (loader_iff before).mp last
  | put => exact (loader_iff before).mp last.1
  | accepted | created | activated | rearmed | finalised | closed | delivered | aborted | released
  | written => trivial

/-- In every run a key is loaded by one package at a time, and all others wait. -/
theorem reachable_reserves (reached : Reachable program server) : Reserves server := by
  obtain ⟨lives, _⟩ := id (reachable_sound reached)
  have lawful := lives.lawful
  have agrees (key : Key) := lives.loads.agrees key nofun
  refine ⟨exclusive lawful, ?_, ?_, ?_,
    fun key => (agrees key).reserved.trans (loading_iff lawful), ?_, ?_, ?_⟩
  · intro key one two first second
    exact Option.some.inj (((loader_iff lawful).mpr first).symm.trans
      ((loader_iff lawful).mpr second))
  · intro pk hfd offset member
    obtain ⟨index, found⟩ := List.mem_iff_getElem?.mp member
    obtain ⟨key, entry, rest, cn, done, hpkg, loader, _⟩ :=
      (reachable_sound reached).takeRead found (without_aio server.client index) rfl rfl
    obtain ⟨_, _, _, _, own⟩ := loader.fits
    exact ⟨List.count_eq_one_of_mem lives.loads.distinct (List.mem_filterMap.mpr ⟨_, member, rfl⟩),
      hpkg, key, loader.hand.there, own, (loader_iff lawful).mp loader.loader⟩
  · intro pk key loads
    obtain ⟨reads, _⟩ := (agrees key).loads pk ((loader_iff lawful).mpr loads)
    obtain ⟨aio, member, reader⟩ := List.mem_filterMap.mp reads
    cases aio with
    | readBody other hfd offset =>
      cases reader
      exact ⟨hfd, offset, member⟩
    | readRequest | writeHead | write400 | writeBody => cases reader
  · intro key entry found reserved pk
    have waiters := (agrees key).waiters
    rw [queues_found found, if_pos reserved] at waiters
    rw [waiters]
    exact waiters_iff lawful
  · intro index pk hfd offset completion around after found allowed ran
    obtain ⟨key, entry, rest, cn, done, hpkg, loader, _⟩ :=
      (reachable_sound reached).takeRead found (without_aio server.client index) rfl rfl
    obtain ⟨_, _, state, part, own⟩ := loader.fits
    simp only [exec, found] at ran
    obtain ⟨events, event, resolves, grown⟩ :=
      readBody_resolves ran loader.hand.there state part own
    exact ⟨key, events, event, (loader_iff lawful).mp loader.loader, resolves, grown⟩
  · intro step which allowed stopped member
    rcases reachable_stops reached allowed stopped with null | ⟨asserted, _⟩
    · cases null
    · cases asserted
      simp [reserving] at member

/-- A request for a file, whose head has been written, and one for the same file on another
connection: both answers are at their first part of the body. -/
private def bothReading : List Step :=
  let file : Surroundings := ⟨some ⟨3, []⟩, [], true⟩
  [.accept file, .accept file, .complete 0 (.read "GET /a HTTP/1.1\r\n\r\n".toList []) file,
    .run 0 file,
    .complete 0 (.read "GET /a HTTP/1.1\r\n\r\n".toList []) file, .run 0 file,
    .complete 0 (.wrote 100) file,
    .complete 0 (.wrote 100) file]

set_option maxRecDepth 8000 in
/-- Two requests for one file: one reads the body, and the other one waits. -/
theorem reachable_reserves_run : ∃ server, Reachable program server ∧
    server.client.aios = [.readBody ⟨0, 1⟩ (some "a".toList) 0] ∧
    (server.cache.find "a#0".toList).map CacheEntry.queue = some [.bodyWio ⟨0, 1⟩,
    .bodyWio ⟨1, 1⟩] ∧ Reserves server := by
  obtain ⟨server, ran, reads, waits⟩ : ∃ server, program.replay program.start bothReading =
    .ok server ∧
      server.client.aios = [.readBody ⟨0, 1⟩ (some "a".toList) 0] ∧
      (server.cache.find "a#0".toList).map CacheEntry.queue = some [.bodyWio ⟨0, 1⟩,
        .bodyWio ⟨1, 1⟩] := ⟨_, rfl, rfl, rfl⟩
  have reached : Reachable program server := .replayed (by decide) ran
  exact ⟨server, reached, reads, waits, reachable_reserves reached⟩

end EventDisp.Server
