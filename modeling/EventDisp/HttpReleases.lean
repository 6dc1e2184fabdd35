import EventDisp.HttpConnections

/-! The references to slots of the cache that packages give back: each has been handed
to the same package before, and has not been given back yet. -/
namespace EventDisp.Server

open Execution History

variable {server : Server} {pk : PackagePtr} {key : Key} {log : List Event} {event : Event}
  {aio : Aio}
variable {good : KeyUse → Text → Prop}

/-- The key whose slot the package obtains a reference to: the one it has looked up last,
when what it is handed is cached. -/
def obtained? (pk : PackagePtr) (entry : List Event × Event) : Option Key :=
  if entry.2 = .delivered pk true then (story pk entry.1).ask.map Prod.fst else none

/-- The key whose slot the package calls `doneWith` for. -/
def released? (pk : PackagePtr) : Event → Option Key
  | .released other key => if other = pk then some key else none
  | .accepted _ | .created _ | .activated _ | .rearmed _ | .finalised _ | .closed _ | .asked ..
  | .reserved .. | .loading .. | .put .. | .cancelled .. | .delivered .. | .aborted _
  | .written .. => none

/-- The keys to whose slots the package has obtained references. -/
def obtainedBy (pk : PackagePtr) (log : List Event) : List Key :=
  (entries [] log).filterMap (obtained? pk)

/-- The keys to whose slots it has released them. -/
def releasedBy (pk : PackagePtr) (log : List Event) : List Key := log.filterMap (released? pk)

private theorem obtainedBy_concat :
    obtainedBy pk (log ++ [event]) = obtainedBy pk log ++ (obtained? pk (log, event)).toList := by
  rw [obtainedBy, entries_concat, List.filterMap_append, obtainedBy, List.nil_append]
  cases obtains : obtained? pk (log, event) <;> simp [obtains]

private theorem releasedBy_concat : releasedBy pk (log ++ [event]) = releasedBy pk log ++
    (released? pk event).toList := by
  rw [releasedBy, List.filterMap_append, releasedBy]
  cases releases : released? pk event <;> simp [releases]

/-- The account of a package is what it has obtained, less what it has released. -/
theorem references_eq (pk : PackagePtr) (key : Key) (log : List Event) :
    (story pk log).references key = (obtainedBy pk log).count key - (releasedBy pk log).count
    key := by
  induction log using List.reverseRecOn with
  | nil => rfl
  | append_singleton log event ih =>
    rw [story_concat, obtainedBy_concat, releasedBy_concat, List.count_append, List.count_append]
    unfold storyAfter
    cases event with
    | delivered other isCached =>
      by_cases own : other = pk
      · subst own
        rw [Event.teller, if_pos rfl]
        cases asked : (story other log).ask with
        | none => simpa [Story.tell, obtained?, released?, asked] using ih
        | some found =>
          cases isCached with
          | false => simpa [Story.tell, obtained?, released?, asked] using ih
          | true =>
            simp only [Story.tell, asked, Story.refer, Function.update_apply, obtained?, released?,
              if_true, Option.map_some,
              Option.toList_some, Option.toList_none, List.count_nil]
            split
            · rename_i same
              rw [same, List.count_singleton_self, ← same, ih]
              omega
            · rename_i different
              rw [List.count_singleton, if_neg (by simpa using fun same => different same.symm), ih]
              omega
      · simpa [Event.teller, obtained?, released?, own] using ih
    | released other name =>
      by_cases own : other = pk
      · subst own
        simp only [Event.teller, if_true, Story.tell, Story.refer, Function.update_apply, obtained?,
          released?, reduceCtorEq,
          if_false, Option.toList_some, Option.toList_none, List.count_nil]
        split
        · rename_i same
          rw [same, List.count_singleton_self, ← same, ih]
          omega
        · rename_i different
          rw [List.count_singleton, if_neg (by simpa using fun same => different same.symm), ih]
          omega
      · simpa [Event.teller, obtained?, released?, own] using ih
    | written other part =>
      split
      · cases part <;> simpa [Story.tell, obtained?, released?] using ih
      · simpa [obtained?, released?] using ih
    | accepted | created | activated | rearmed | finalised | closed | asked | reserved | loading
    | put | cancelled | aborted =>
      split <;> simpa [Story.tell, obtained?, released?] using ih

/-- The key that is released when the write completes. -/
def HPKG.releases (hpkg : HPKG) : Aio → Option Key
  | .writeHead .. => hpkg.headkey
  | .writeBody .. => hpkg.bodykey
  | .readRequest _ | .write400 .. | .readBody .. => none

/-- How references are released in a run. -/
structure Releases (server : Server) : Prop where
  /-- What is released has been obtained for the same key, and has not been released. -/
  once : ∀ earlier pk key later, server.client.log = earlier ++ .released pk key :: later →
    (releasedBy pk earlier).count key < (obtainedBy pk earlier).count key
  /-- Who waits for a key has looked it up last. -/
  waits : ∀ key, ∀ callback ∈ queues server.cache key,
    (story callback.pk server.client.log).ask.map Prod.fst = some key
  /-- The slot that a write holds a reference to is there. -/
  writes : ∀ aio ∈ server.client.aios, ∀ hpkg key, server.client.packages aio.pk = some hpkg →
    hpkg.releases aio = some key →
    (releasedBy aio.pk server.client.log).count key < (obtainedBy aio.pk server.client.log).count
    key ∧
      ∃ entry, server.cache.find key = some entry ∧ 0 < entry.refCount
  asserts : ∀ step which, program.allowed server step →
    exec server step = .error (.assertion which) →
    which ≠ .doneWithPresent ∧ which ≠ .doneWithReferenced

/-- The slot is there that a write is going to release. -/
private theorem Sound.stored (sound : Sound good server) {data : Text}
    (stored : (slot key server.client.log).stored = some data) :
    ∃ entry, server.cache.find key = some entry ∧ 0 < entry.refCount := by
  obtain ⟨lives, stocked⟩ := sound
  cases found : server.cache.find key with
  | none =>
    rw [(lives.loads.agrees key nofun).absent found] at stored
    cases stored
  | some entry =>
    obtain ⟨_, enough⟩ := stocked.entries key entry found
    exact ⟨entry, rfl, by omega⟩

/-- In every run no reference is released that has not been obtained. -/
theorem reachable_releases (reached : Reachable program server) : Releases server := by
  have sound := reachable_sound reached
  obtain ⟨lives, _⟩ := id sound
  have account {pk : PackagePtr} {key : Key} {log : List Event}
    (refers : 0 < (story pk log).references key) :
      (releasedBy pk log).count key < (obtainedBy pk log).count key := by
    rw [references_eq] at refers
    omega
  refine ⟨fun earlier pk key later shape => account (lives.lawful earlier _ later shape), ?_,
    ?_, ?_⟩
  · intro key callback member
    have told := lives.tells.waits key callback member
    cases callback with
    | headerWio pk =>
      obtain ⟨uri, vern, asked⟩ := told
      rw [Callback.pk, asked]
      rfl
    | bodyWio pk =>
      obtain ⟨uri, asked⟩ := told
      rw [Callback.pk, asked]
      rfl
  · intro aio member hpkg key there own
    have package := lives.tells.packages aio.pk hpkg (Option.some_ne_none _).symm there
    have told := lives.tells.aios aio member
    cases aio with
    | writeHead pk data =>
      obtain ⟨name, uri, vern, asked, stored, refers⟩ := told
      cases own.symm.trans (package.head name uri vern asked)
      exact ⟨account refers, sound.stored stored⟩
    | writeBody pk data =>
      obtain ⟨name, uri, asked, stored, refers⟩ := told
      cases own.symm.trans (package.body name uri _ asked)
      exact ⟨account refers, sound.stored stored⟩
    | readRequest | write400 | readBody => cases own
  · intro step which allowed stopped
    rcases reachable_stops reached allowed stopped with null | ⟨asserted, _⟩
    · cases null
    · cases asserted
      exact ⟨by simp, by simp⟩

/-- The head of the answer is being written. -/
theorem reachable_releases_run : ∃ server, Reachable program server ∧
    server.client.aios = [.writeHead ⟨0, 1⟩ (head404 1)] ∧ obtainedBy ⟨0, 1⟩ server.client.log =
    ["a".toList] ∧
    Releases server := by
  obtain ⟨server, ran, writes, obtained⟩ : ∃ server,
    program.replay program.start (asking "GET /a HTTP/1.1\r\n\r\n".toList bare) = .ok server ∧
      server.client.aios = [.writeHead ⟨0, 1⟩ (head404 1)] ∧ obtainedBy ⟨0, 1⟩ server.client.log =
      ["a".toList] :=
    ⟨_, rfl, rfl, rfl⟩
  have reached : Reachable program server := .replayed (by decide) ran
  exact ⟨server, reached, writes, obtained, reachable_releases reached⟩

end EventDisp.Server
