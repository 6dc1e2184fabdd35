import EventDisp.General.Grouping
import EventDisp.HttpWrites

/-! The answers on a connection, whatever is written and fails: they come in the order in
which their requests were parsed, each with one head in front of its body, and with nothing
of another one in between. -/
namespace EventDisp.Server

open Execution History Grouping

variable {server after : Server} {step : Step} {pk : PackagePtr} {key : Key} {conn : Nat}
  {uri : Text} {offset : Nat}
variable {good : KeyUse → Text → Prop} {log : List Event}

/-- What the event tells to have been written on the connection, and for which package. -/
def Event.part? (conn : Nat) : Event → Option (Nat × Text)
  | .written pk _ data count => if pk.conn = conn then some (pk.number, data.take count) else none
  | .accepted _ | .created _ | .activated _ | .rearmed _ | .finalised _ | .closed _ | .asked ..
  | .reserved .. | .loading .. | .put .. | .cancelled .. | .delivered .. | .aborted _
  | .released .. => none

/-- What has been written on the connection, part by part. -/
def parts (conn : Nat) (log : List Event) : List (Nat × Text) :=
  log.filterMap (Event.part? conn)

/-- What the event tells to have been written for the package. -/
def Event.sends (pk : PackagePtr) : Event → Text
  | .written other _ data count => if other = pk then data.take count else []
  | .accepted _ | .created _ | .activated _ | .rearmed _ | .finalised _ | .closed _ | .asked ..
  | .reserved .. | .loading .. | .put .. | .cancelled .. | .delivered .. | .aborted _
  | .released .. => []

/-- What has been written for the package. -/
def answer (pk : PackagePtr) (log : List Event) : Text := log.flatMap (Event.sends pk)

/-- What the event tells to have been written of the package's head. -/
def Event.head? (pk : PackagePtr) : Event → Option Text
  | .written other .head data count => if other = pk then some (data.take count) else none
  | .written _ .body .. | .written _ .unknown .. | .accepted _ | .created _ | .activated _
  | .rearmed _ | .finalised _ | .closed _ | .asked .. | .reserved .. | .loading .. | .put ..
  | .cancelled .. | .delivered .. | .aborted _ | .released .. => none

/-- The heads of which something has been written for the package. -/
def headsOf (pk : PackagePtr) (log : List Event) : List Text := log.filterMap (Event.head? pk)

/-- When something is written of an answer, the answers in front of it are over. -/
def InTurn (earlier : List Event) : Event → Prop
  | .written pk .. => ∀ number, 0 < number → number < pk.number →
      .finalised ⟨pk.conn, number⟩ ∈ earlier
  | .accepted _ | .created _ | .activated _ | .rearmed _ | .finalised _ | .closed _ | .asked ..
  | .reserved .. | .loading .. | .put .. | .cancelled .. | .delivered .. | .aborted _
  | .released .. => True

/-- How the bytes on the connections are made up. -/
structure Ordered (log : List Event) : Prop where
  answers : ∀ conn, bytesOn conn log =
    (createdOf conn log).flatMap fun number => answer ⟨conn, number⟩ log
  turns : Throughout InTurn log
  shape : ∀ pk, answer pk log = (headsOf pk log).flatten ++ (story pk log).streamed
  once : ∀ pk, (headsOf pk log).length ≤ 1
  headed : ∀ pk, (story pk log).streamed ≠ [] → headsOf pk log ≠ []

private theorem bytesOn_parts (conn : Nat) (log : List Event) :
    bytesOn conn log = (parts conn log).flatMap Prod.snd := by
  induction log with
  | nil => rfl
  | cons event rest ih =>
    unfold bytesOn parts at ih ⊢
    rw [List.flatMap_cons, ih, List.filterMap_cons]
    cases event with
    | written other part data count =>
      simp only [Event.bytes, Event.part?]
      split <;> rfl
    | accepted | created | activated | rearmed | finalised | closed | asked | reserved | loading
    | put | cancelled | delivered | aborted | released => rfl

private theorem answer_parts (pk : PackagePtr) (log : List Event) :
    answer pk log = (groupOf Prod.fst pk.number (parts pk.conn log)).flatMap Prod.snd := by
  induction log with
  | nil => rfl
  | cons event rest ih =>
    unfold answer parts groupOf at ih ⊢
    rw [List.flatMap_cons, ih, List.filterMap_cons]
    cases event with
    | written other part data count =>
      simp only [Event.sends, Event.part?]
      by_cases own : other.conn = pk.conn
      · by_cases same : other.number = pk.number
        · have here : other = pk := PackagePtr.ext own same
          simp [here]
        · have apart : other ≠ pk := fun here => same (congrArg PackagePtr.number here)
          simp [own, same, apart]
      · have apart : other ≠ pk := fun here => own (congrArg PackagePtr.conn here)
        simp [own, apart]
    | accepted | created | activated | rearmed | finalised | closed | asked | reserved | loading
    | put | cancelled | delivered | aborted | released => rfl

/-- For whom something is written has been activated. -/
private theorem parts_active (lawful : Throughout (Lawful good) log) {part : Nat × Text}
    (member : part ∈ parts conn log) : part.1 ∈ activatedOf conn log := by
  obtain ⟨event, inside, shows⟩ := List.mem_filterMap.mp member
  obtain ⟨earlier, later, rfl⟩ := List.append_of_mem inside
  have here := lawful earlier event later rfl
  cases event with
  | written pk kind data count =>
    obtain ⟨⟨child, active, _⟩, _⟩ := here
    simp only [Event.part?] at shows
    split at shows
    · rename_i own
      cases shows
      subst own
      simp only [activatedOf, numbers_append] at active ⊢
      refine List.mem_append_left _ ?_
      rw [active, List.mem_range'_1]
      omega
    · cases shows
  | accepted | created | activated | rearmed | finalised | closed | asked | reserved | loading
  | put | cancelled | delivered | aborted | released => cases shows

/-- Answers do not go back. -/
private theorem parts_sorted (lawful : Throughout (Lawful good) log) (conn : Nat) :
    (parts conn log).Pairwise fun one two => one.1 ≤ two.1 := by
  induction log using List.reverseRecOn with
  | nil => exact .nil
  | append_singleton log event ih =>
    obtain ⟨before, last⟩ := throughout_concat.mp lawful
    unfold parts at ih ⊢
    rw [List.filterMap_append, List.pairwise_append]
    have single : ([event].filterMap (Event.part? conn)).Pairwise fun one two => one.1 ≤ two.1 := by
      rw [List.filterMap_cons]
      split <;> simp
    refine ⟨ih before, single, ?_⟩
    intro one member two shown
    obtain ⟨_, inside, shows⟩ := List.mem_filterMap.mp shown
    cases List.mem_singleton.mp inside
    have active := parts_active before member
    cases event with
    | written pk kind data count =>
      obtain ⟨⟨_, upTo, _⟩, _⟩ := last
      simp only [Event.part?] at shows
      split at shows
      · rename_i own
        cases shows
        subst own
        rw [upTo, List.mem_range'_1] at active
        omega
      · cases shows
    | accepted | created | activated | rearmed | finalised | closed | asked | reserved | loading
    | put | cancelled | delivered | aborted | released => cases shows

/-- What is written on a connection are the answers to its requests, in the order in which
these were made. -/
theorem Sound.answers (sound : Sound good server) (conn : Nat) :
    bytesOn conn server.client.log =
    (createdOf conn server.client.log).flatMap fun number => answer ⟨conn, number⟩
      server.client.log := by
  obtain ⟨count, row⟩ : ∃ count, createdOf conn server.client.log = List.range' 1 count := by
    rcases sound.1.keeps.rests conn nofun with ⟨work, _, rfl, cn, _, _, ⟨_, line, _⟩, _⟩ | ⟨_, shut⟩
    · exact ⟨_, line.created⟩
    · obtain ⟨made, created, _⟩ := shut.history
      exact ⟨made, created⟩
  have within : ∀ part ∈ parts conn server.client.log, part.1 ∈ List.range' 1 count :=
    fun part member => row ▸ (sound.finals conn).1.subset (parts_active sound.1.lawful member)
  calc bytesOn conn server.client.log
    _ = (parts conn server.client.log).flatMap Prod.snd := bytesOn_parts ..
    _ = ((List.range' 1 count).flatMap (groupOf Prod.fst · (parts conn server.client.log))).flatMap
        Prod.snd := by
      rw [flatMap_groupOf (parts_sorted sound.1.lawful conn) within]
    _ = _ := by
      rw [List.flatMap_assoc, row]
      exact List.flatMap_congr fun number _ => (answer_parts ⟨conn, number⟩ _).symm

/-- When something is written of an answer, the answers in front of it are over. -/
theorem turns_taken (lawful : Throughout (Lawful good) log) : Throughout InTurn log := by
  intro earlier event later shape
  have here := lawful earlier event later shape
  cases event with
  | written pk part data count =>
    intro number positive below
    obtain ⟨⟨_, _, finalised⟩, _⟩ := here
    refine mem_finalisedOf.mp ?_
    rw [finalised, List.mem_range'_1]
    omega
  | accepted | created | activated | rearmed | finalised | closed | asked | reserved | loading
  | put | cancelled | delivered | aborted | released => trivial

theorem headsOf_nil (unwritten : ∀ data count, .written pk .head data count ∉ log) :
    headsOf pk log = [] := by
  refine List.filterMap_eq_nil_iff.mpr fun event member => ?_
  cases event with
  | written other part data count =>
    cases part with
    | head =>
      refine if_neg fun same => ?_
      subst same
      exact unwritten data count member
    | body | unknown => rfl
  | accepted | created | activated | rearmed | finalised | closed | asked | reserved | loading
  | put | cancelled | delivered | aborted | released => rfl

theorem headsOf_written {data : Text} {count : Nat}
    (written : .written pk .head data count ∈ log) : headsOf pk log ≠ [] :=
  List.ne_nil_of_mem (List.mem_filterMap.mpr ⟨_, written, if_pos rfl⟩)

theorem answer_concat (pk : PackagePtr) (log : List Event) (event : Event) :
    answer pk (log ++ [event]) = answer pk log ++ event.sends pk := by
  simp [answer]

theorem headsOf_concat (pk : PackagePtr) (log : List Event) (event : Event) :
    headsOf pk (log ++ [event]) = headsOf pk log ++ (event.head? pk).toList := by
  unfold headsOf
  rw [List.filterMap_append, List.filterMap_cons]
  cases event.head? pk <;> rfl

/-- An answer is its head, and then what has been written of its body. -/
theorem answer_shape (lawful : Throughout (Lawful good) log)
    (once : Throughout HeadOnce log) (pk : PackagePtr) :
    answer pk log = (headsOf pk log).flatten ++ (story pk log).streamed ∧
      (headsOf pk log).length ≤ 1 := by
  induction log using List.reverseRecOn with
  | nil => exact ⟨rfl, Nat.zero_le 1⟩
  | append_singleton log event ih =>
    obtain ⟨before, last⟩ := throughout_concat.mp lawful
    obtain ⟨earlier, first⟩ := throughout_concat.mp once
    obtain ⟨shape, few⟩ := ih before earlier
    rw [answer_concat, headsOf_concat, streamed_concat, shape]
    cases event with
    | written other part data count =>
      cases part with
      | body => simpa [Event.sends, Event.head?, Event.streams] using few
      | unknown => exact last.2.2.2.elim
      | head =>
        by_cases own : other = pk
        · -- Nothing has been written for it so far.
          subst own
          have none' : headsOf other log = [] := headsOf_nil first
          have nothing : (story other log).streamed = [] := by
            refine unstreamed before fun name uri offset asked => ?_
            obtain ⟨_, _, _, ⟨unasked, _⟩ | ⟨_, _, _, sought, _⟩⟩ := last
            · cases unasked.symm.trans asked
            · cases sought.symm.trans asked
          simp [Event.sends, Event.head?, Event.streams, none', nothing]
        · simpa [Event.sends, Event.head?, Event.streams, own] using few
    | accepted | created | activated | rearmed | finalised | closed | asked | reserved | loading
    | put | cancelled | delivered | aborted | released =>
      simpa [Event.sends, Event.head?, Event.streams] using few

/-- Who has looked up a part of its body has had its head written. -/
def Headed (log : List Event) : Prop :=
  ∀ pk key uri offset found, .asked pk key (.body uri offset) found ∈ log → headsOf pk log ≠ []

private theorem Headed.keeps (headed : Headed server.client.log) (sound : Sound good server)
    (ran : exec server step = .ok after) : Headed after.client.log := by
  obtain ⟨front, more, grown, _, written⟩ := exec_writes ran
  have old : server.client.log ⊆ after.client.log := by
    rw [grown]
    exact List.subset_append_left ..
  have kept {pk : PackagePtr} (before : headsOf pk server.client.log ≠ []) :
      headsOf pk after.client.log ≠ [] := by
    unfold headsOf at before ⊢
    rw [grown, List.filterMap_append]
    exact List.append_ne_nil_of_left_ne_nil before _
  intro pk key uri offset found member
  rcases List.mem_append.mp (grown ▸ member) with before | new
  · exact kept (headed pk key uri offset found before)
  · -- A write has completed: that of the head, or of a part of the body that was looked up before.
    cases step with
    | accept => cases exec_seeks ran grown new
    | run =>
      obtain ⟨_, _, _, head⟩ := exec_seeks ran grown new
      cases head
    | complete index completion around =>
      obtain ⟨aio, at', nbytes, hpkg, path, place, rfl, rfl, _, _, next, _⟩ :=
        exec_seeks ran grown new
      cases aio with
      | readRequest | readBody => cases next
      | writeHead pk data | write400 pk data =>
        have writes : Step.headWrite server (.complete index (.wrote nbytes) around) =
            some (pk, data, nbytes) := by
          simp [Step.headWrite, at']
        have member : .written pk .head data nbytes ∈ after.client.log :=
          (headWrite_told ran writes).subset
            (List.mem_append_right _ (List.mem_singleton_self _))
        exact headsOf_written member
      | writeBody pk data =>
        obtain ⟨name, path, asked, _⟩ := sound.1.tells.aios _ (List.mem_of_getElem? at')
        obtain ⟨earlier, member⟩ := asked_of_story asked
        exact kept (headed _ _ _ _ _ member)

/-- In every run a head is written once, and before its body is looked up. -/
theorem reachable_headed (reached : Reachable program server) :
    Throughout HeadOnce server.client.log ∧ Headed server.client.log := by
  suffices written : Throughout HeadOnce server.client.log ∧ (∀ pk data count,
      .written pk .head data count ∈ server.client.log → ∃ event ∈ server.client.log,
        event.movesOn pk = true) ∧ Headed server.client.log from ⟨written.1, written.2.2⟩
  obtain ⟨attempts, run⟩ := reached
  generalize ended : Except.ok server = outcome at run
  induction run generalizing server with
  | start =>
    cases ended
    exact ⟨throughout_nil, nofun, nofun⟩
  | @step attempts state call before allowed ih =>
    obtain ⟨once, moved, headed⟩ := ih rfl
    have sound := reachable_sound ⟨attempts, before⟩
    obtain ⟨once, moved⟩ := heads_keep sound ended.symm once moved
    exact ⟨once, moved, headed.keeps sound ended.symm⟩

/-- There is no body without a head. -/
theorem Headed.streams (headed : Headed log) (lawful : Throughout (Lawful good) log)
    (some' : (story pk log).streamed ≠ []) : headsOf pk log ≠ [] := by
  intro none'
  refine some' (unstreamed lawful fun key uri offset asked => ?_)
  obtain ⟨found, member⟩ := asked_of_story asked
  exact headed pk key uri offset found member none'

/-- In every run the bytes on a connection are the answers to its requests, in the order of
these, each a head and then a body, and none begins before the ones in front of it are over. -/
theorem answers_ordered (reached : Reachable program server) : Ordered server.client.log := by
  have sound := reachable_sound reached
  obtain ⟨once, headed⟩ := reachable_headed reached
  exact ⟨sound.answers, turns_taken sound.1.lawful,
    fun pk => (answer_shape sound.1.lawful once pk).1,
    fun pk => (answer_shape sound.1.lawful once pk).2, fun pk => headed.streams sound.1.lawful⟩

/-- Two requests that are read at once, and the answer to the first of them in full. -/
private def twoAnswers : List Step :=
  asking "GET /a HTTP/1.1\r\n\r\nGET /b HTTP/1.0\r\n\r\n".toList bare ++
    [.complete 0 (.wrote 26) bare, .run 0 bare, .complete 0 (.wrote 9) bare]

/-- The second answer has been begun behind the whole of the first one. -/
theorem answers_ordered_two : ∃ server, Reachable program server ∧
    createdOf 0 server.client.log = [1, 2] ∧
    bytesOn 0 server.client.log = head404 1 ++ "HTTP/1.0 ".toList ∧
    Ordered server.client.log := by
  have shown : (program.replay program.start twoAnswers).map
      (fun server => (createdOf 0 server.client.log, bytesOn 0 server.client.log)) =
      .ok ([1, 2], head404 1 ++ "HTTP/1.0 ".toList) := by
    decide +kernel
  obtain ⟨server, run, seen⟩ := Run.shown (by decide +kernel) shown
  obtain ⟨made, bytes⟩ := Prod.mk.inj seen
  have reached : Reachable program server := ⟨_, run⟩
  exact ⟨server, reached, made, bytes, answers_ordered reached⟩

end EventDisp.Server
