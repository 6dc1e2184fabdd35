import Mathlib.Data.List.Induction
import EventDisp.HttpPassing

/-! What the history tells of a package, of a key and of a connection, and which
events may follow it. -/
namespace EventDisp.Server

def KeyUse.uri : KeyUse → Text
  | .head uri _ | .body uri _ => uri

/-- The key that is made for the use. -/
def KeyUse.key : KeyUse → Key
  | .head uri _ => headKey uri
  | .body uri offset => bodyKey uri offset

/-- What a package has done. -/
structure Story where
  /-- The key it looked up last, and what for. -/
  ask : Option (Key × KeyUse) := none
  /-- The references to a slot it has obtained, less those it has released. -/
  references : Key → Int := fun _ => 0
  /-- What has been written of the body. -/
  streamed : Text := []

/-- One more reference, or one less. -/
def Story.refer (story : Story) (key : Key) (change : Int) : Story :=
  { story with references := Function.update story.references key (story.references key + change) }

/-- What a package has done after one more event of its own. -/
def Story.tell (story : Story) : Event → Story
  | .asked _ key use _ => { story with ask := some (key, use) }
  | .delivered _ isCached =>
    match story.ask with
    | some (key, _) => if isCached then story.refer key 1 else story
    | none => story
  | .released _ key => story.refer key (-1)
  | .written _ .body data count => { story with streamed := story.streamed ++ data.take count }
  | .written _ .head .. | .written _ .unknown .. | .accepted _ | .created _ | .activated _
  | .rearmed _ | .finalised _ | .closed _ | .reserved .. | .loading .. | .put .. | .cancelled ..
  | .aborted _ => story

/-- The package that an event is about, unless it is about which packages there are. -/
def Event.teller : Event → Option PackagePtr
  | .asked pk .. | .reserved pk _ | .loading pk _ | .put pk .. | .cancelled pk _ | .delivered pk _
  | .aborted pk | .released pk _ | .written pk .. => some pk
  | .accepted _ | .created _ | .activated _ | .rearmed _ | .finalised _ | .closed _ => none

def storyAfter (pk : PackagePtr) (story : Story) (event : Event) : Story :=
  if event.teller = some pk then story.tell event else story

def story (pk : PackagePtr) (log : List Event) : Story := log.foldl (storyAfter pk) {}

/-- What has been done about a key. -/
structure Slot where
  /-- Who has reserved it and not resolved it. -/
  loader : Option PackagePtr := none
  /-- Who has asked for it since it was reserved. -/
  waiters : List PackagePtr := []
  /-- What was put. -/
  stored : Option Text := none

/-- What has been done about a key after one more event. -/
def slotAfter (key : Key) (slot : Slot) : Event → Slot
  | .reserved pk name => if name = key then { slot with loader := some pk, waiters := [] } else slot
  | .asked pk name _ found =>
    if name = key ∧ found = .queued then { slot with waiters := slot.waiters ++ [pk] } else slot
  | .put _ name data =>
    if name = key then { loader := none, waiters := [], stored := some data } else slot
  | .cancelled _ name => if name = key then { slot with loader := none, waiters := [] } else slot
  | .accepted _ | .created _ | .activated _ | .rearmed _ | .finalised _ | .closed _ | .loading ..
  | .delivered .. | .aborted _ | .released .. | .written .. => slot

def slot (key : Key) (log : List Event) : Slot := log.foldl (slotAfter key) {}

def statusAfter (conn : Nat) (cst : ConnST) : Event → ConnST
  | .aborted pk =>
    if pk.conn = conn then
      if pk.number = 0 then if cst = .closingW then .closing else .closingR
      else if cst = .closingR then .closing else .closingW
    else cst
  | .accepted _ | .created _ | .activated _ | .rearmed _ | .finalised _ | .closed _ | .asked ..
  | .reserved .. | .loading .. | .put .. | .cancelled .. | .delivered .. | .released ..
  | .written .. => cst

/-- The status a connection has been given. -/
def status (conn : Nat) (log : List Event) : ConnST := log.foldl (statusAfter conn) .connected

/-- It is the child's turn. -/
def Current (pk : PackagePtr) (log : List Event) : Prop :=
  pk.number ≠ 0 ∧ activatedOf pk.conn log = List.range' 1 pk.number ∧
    finalisedOf pk.conn log = List.range' 1 (pk.number - 1)

/-- Why a package may be finalised: it is the root, nothing can be written any more,
its request was bad, its head is not one of a file, it was handed `NULL`, or nothing
was left to write of the body. -/
def MayEnd (pk : PackagePtr) (log : List Event) : Prop :=
  pk.number ≠ 0 → status pk.conn log = .connected → ∀ key use,
    (story pk log).ask = some (key, use) →
    match use with
    | .head .. =>
      ∃ data count, .written pk .head data count ∈ log ∧ (slot key log).stored = some data ∧
        statusOf data ≠ .ok200
    | .body .. => (slot key log).stored = none ∨ ∃ data, .written pk .body data 0 ∈ log

/-- What an answer may be: the one to a bad request, or what is stored under the key
the package looked up last. -/
def Answers (pk : PackagePtr) (data : Text) (log : List Event) : HttpWST → Prop
  | .head => (story pk log).ask = none ∧ data = answer400 ∨
      ∃ key uri vern, (story pk log).ask = some (key, .head uri vern) ∧
      (slot key log).stored = some data
  | .body => ∃ key uri, (story pk log).ask = some (key, .body uri (story pk log).streamed.length) ∧
      (slot key log).stored = some data
  | .unknown => False

/-- What a package may look up: the head first, and then the body from where it has
been written to. -/
def Asks (pk : PackagePtr) (log : List Event) : KeyUse → Prop
  | .head uri vern => ∀ key use, (story pk log).ask = some (key, use) → use = .head uri vern
  | .body uri offset => offset = (story pk log).streamed.length ∧
      ∃ key use, (story pk log).ask = some (key, use) ∧ use.uri = uri

/-- Which events may follow a history. Who finds a key reserved waits, and only who
reserved it loads and resolves it; `good` is asked of what is put. -/
def Lawful (good : KeyUse → Text → Prop) (earlier : List Event) : Event → Prop
  | .asked pk key use found =>
    key = use.key ∧ ((slot key earlier).loader.isSome = true ↔ found = .queued) ∧
      status pk.conn earlier = .connected ∧ Asks pk earlier use
  | .reserved pk key => (slot key earlier).loader = none ∧ (slot key earlier).stored = none ∧
      (story pk earlier).ask.map Prod.fst = some key
  | .loading pk key | .cancelled pk key => (slot key earlier).loader = some pk
  | .put pk key data => (slot key earlier).loader = some pk ∧
      ∃ use, (story pk earlier).ask = some (key, use) ∧ good use data
  | .written pk part data count => Current pk earlier ∧ status pk.conn earlier = .connected ∧
      count ≤ data.length ∧ Answers pk data earlier part
  | .released pk key => 0 < (story pk earlier).references key
  | .finalised pk => MayEnd pk earlier
  | .aborted pk => .closed pk.conn ∉ earlier ∧
      if pk.number = 0 then finalisedOf pk.conn earlier = createdOf pk.conn earlier ∧
        (status pk.conn earlier = .connected ∨ status pk.conn earlier = .closingW)
      else Current pk earlier ∧ status pk.conn earlier = .connected
  | .accepted _ | .created _ | .activated _ | .rearmed _ | .closed _ | .delivered .. => True

variable {pk other : PackagePtr} {key : Key} {conn : Nat} {log events : List Event} {event : Event}
variable {good : KeyUse → Text → Prop}

@[simp] theorem story_concat : story pk (log ++ [event]) = storyAfter pk (story pk log) event := by
  simp [story]

@[simp] theorem slot_concat : slot key (log ++ [event]) = slotAfter key (slot key log) event := by
  simp [slot]

@[simp] theorem status_concat : status conn (log ++ [event]) = statusAfter conn
    (status conn log) event := by
  simp [status]

theorem story_other (different : event.teller ≠ some pk) :
    story pk (log ++ [event]) = story pk log := by
  rw [story_concat, storyAfter, if_neg different]

theorem status_other (different : event.conn ≠ conn) :
    status conn (log ++ [event]) = status conn log := by
  rw [status_concat]
  cases event with
  | aborted pk => exact if_neg different
  | accepted | created | activated | rearmed | finalised | closed | asked | reserved | loading | put
  | cancelled | delivered | released | written => rfl

/-- Events about which packages there are tell nothing else. -/
theorem apart_tells (apart : ∀ event ∈ events, event.apart = true) (log : List Event) :
    (∀ pk, story pk (log ++ events) = story pk log) ∧
    (∀ key, slot key (log ++ events) = slot key log) ∧
      ∀ conn, status conn (log ++ events) = status conn log := by
  induction events generalizing log with
  | nil => simp
  | cons event rest ih =>
    rw [List.append_cons]
    obtain ⟨stories, slots, statuses⟩ :=
      ih (fun inner member => apart inner (List.mem_cons_of_mem _ member)) (log ++ [event])
    have here := apart event List.mem_cons_self
    simp only [stories, slots, statuses, story_concat, slot_concat, status_concat]
    cases event <;> first | exact ⟨fun _ => rfl, fun _ => rfl, fun _ => rfl⟩ | cases here

/-- Nobody owes a reference. -/
theorem references_nonneg (lawful : History.Throughout (Lawful good) log) (pk : PackagePtr)
    (key : Key) :
    0 ≤ (story pk log).references key := by
  induction log using List.reverseRecOn with
  | nil => exact Int.le_refl 0
  | append_singleton log event ih =>
    obtain ⟨before, last⟩ := History.throughout_concat.mp lawful
    have nonneg := ih before
    rw [story_concat]
    unfold storyAfter
    split
    · rename_i own
      cases event with
      | released other name =>
        cases own
        simp only [Story.tell, Story.refer, Function.update_apply]
        split
        · rename_i same
          subst same
          have positive : 0 < (story pk log).references key := last
          omega
        · exact nonneg
      | delivered other isCached =>
        simp only [Story.tell]
        split
        · split
          · simp only [Story.refer, Function.update_apply]
            split
            · rename_i same
              subst same
              omega
            · exact nonneg
          · exact nonneg
        · exact nonneg
      | written other part => cases part <;> exact nonneg
      | accepted | created | activated | rearmed | finalised | closed | asked | reserved | loading
      | put | cancelled | aborted => exact nonneg
    · exact nonneg

/-- What is being loaded has never been put. -/
theorem loader_unstored (lawful : History.Throughout (Lawful good) log)
    (loads : (slot key log).loader = some pk) :
    (slot key log).stored = none := by
  induction log using List.reverseRecOn with
  | nil => cases loads
  | append_singleton log event ih =>
    obtain ⟨before, last⟩ := History.throughout_concat.mp lawful
    rw [slot_concat] at loads ⊢
    cases event with
    | reserved loader name =>
      simp only [slotAfter] at loads ⊢
      split
      · rename_i same
        subst same
        exact last.2.1
      · rename_i different
        rw [if_neg different] at loads
        exact ih before loads
    | put | cancelled =>
      simp only [slotAfter] at loads ⊢
      split
      · rename_i same
        rw [if_pos same] at loads
        cases loads
      · rename_i different
        rw [if_neg different] at loads
        exact ih before loads
    | asked =>
      simp only [slotAfter] at loads ⊢
      split at loads <;> split <;> exact ih before loads
    | accepted | created | activated | rearmed | finalised | closed | loading | delivered | aborted
    | released | written => exact ih before loads

/-- What was put stays, and nobody resolves what another one loads. -/
theorem slot_stays (lawful : History.Throughout (Lawful good) log) (last : Lawful good log event) :
    (∀ data, (slot key log).stored = some data → (slot key (log ++ [event])).stored = some data) ∧
      ∀ pk, event.teller ≠ some pk → (slot key log).loader = some pk →
      (slot key (log ++ [event])).loader = some pk := by
  rw [slot_concat]
  cases event with
  | put loader name data =>
    obtain ⟨loads, _⟩ := last
    simp only [slotAfter, Event.teller]
    split
    · rename_i same
      subst same
      constructor
      · intro old stored
        rw [loader_unstored lawful loads] at stored
        cases stored
      · intro pk different own
        exact absurd (loads.symm.trans own) different
    · exact ⟨fun _ => id, fun _ _ => id⟩
  | cancelled loader name =>
    have loads : (slot name log).loader = some loader := last
    simp only [slotAfter, Event.teller]
    split
    · rename_i same
      subst same
      exact ⟨fun _ => id, fun pk different own => absurd (loads.symm.trans own) different⟩
    · exact ⟨fun _ => id, fun _ _ => id⟩
  | reserved loader name =>
    obtain ⟨free, _⟩ := last
    simp only [slotAfter, Event.teller]
    split
    · rename_i same
      subst same
      refine ⟨fun _ => id, ?_⟩
      intro pk _ own
      rw [free] at own
      cases own
    · exact ⟨fun _ => id, fun _ _ => id⟩
  | asked asker name use found =>
    simp only [slotAfter]
    split <;> exact ⟨fun _ => id, fun _ _ => id⟩
  | accepted | created | activated | rearmed | finalised | closed | loading | delivered | aborted
  | released | written => exact ⟨fun _ => id, fun _ _ => id⟩

/-- Only a lookup changes what was looked up last. -/
theorem Story.tell_ask (story : Story)
    (unlike : ∀ pk key use found, event ≠ .asked pk key use found) :
    (story.tell event).ask = story.ask := by
  cases event with
  | asked pk key use found => exact absurd rfl (unlike pk key use found)
  | delivered other isCached =>
    simp only [Story.tell]
    split
    · split <;> rfl
    · rfl
  | written other part => cases part <;> rfl
  | accepted | created | activated | rearmed | finalised | closed | reserved | loading | put
  | cancelled | aborted | released => rfl

/-- The lookup behind one more event is the one before, or the event's own. -/
theorem ask_concat (pk : PackagePtr) (log : List Event) (event : Event) :
    (story pk (log ++ [event])).ask = (story pk log).ask ∨
    ∃ key use found, event = .asked pk key use found ∧ (story pk (log ++ [event])).ask = some (key,
    use) := by
  rw [story_concat, storyAfter]
  split
  · rename_i own
    by_cases asks : ∃ other key use found, event = .asked other key use found
    · obtain ⟨other, key, use, found, rfl⟩ := asks
      cases own
      exact .inr ⟨key, use, found, rfl, rfl⟩
    · refine .inl ((story pk log).tell_ask fun other key use found same =>
        asks ⟨other, key, use, found, same⟩)
  · exact .inl rfl

/-- Who has a lookup behind it has looked something up. -/
theorem asked_of_story {use : KeyUse} (asked : (story pk log).ask = some (key, use)) :
    ∃ found, .asked pk key use found ∈ log := by
  induction log using List.reverseRecOn with
  | nil => cases asked
  | append_singleton log event ih =>
    rcases ask_concat pk log event with same | ⟨name, sought, found, rfl, last⟩
    · obtain ⟨found, member⟩ := ih (same ▸ asked)
      exact ⟨found, List.mem_append_left _ member⟩
    · cases last.symm.trans asked
      exact ⟨found, List.mem_append_right _ (List.mem_singleton_self _)⟩

/-- The key that was looked up last is the one for its use. -/
theorem ask_key {use : KeyUse} (lawful : History.Throughout (Lawful good) log)
    (asked : (story pk log).ask = some (key, use)) :
    key = use.key := by
  obtain ⟨found, member⟩ := asked_of_story asked
  obtain ⟨earlier, later, shape⟩ := List.append_of_mem member
  exact (lawful earlier _ later shape).1

/-- A package goes on with what it has looked up: it looks up nothing of another URI, and
the head only before the body. -/
theorem ask_kept {more : List Event} {use : KeyUse}
    (lawful : History.Throughout (Lawful good) (log ++ more))
    (asked : (story pk log).ask = some (key, use)) : ∃ name also,
    (story pk (log ++ more)).ask = some (name, also) ∧
      also.uri = use.uri ∧ ∀ uri vern, also = .head uri vern → name = key ∧ also = use := by
  induction more using List.reverseRecOn with
  | nil => exact ⟨key, use, by simpa using asked, rfl, fun _ _ _ => ⟨rfl, rfl⟩⟩
  | append_singleton more event ih =>
    rw [← List.append_assoc] at lawful ⊢
    obtain ⟨before, last⟩ := History.throughout_concat.mp lawful
    obtain ⟨name, also, known, same, first⟩ := ih before
    rcases ask_concat pk (log ++ more) event with still | ⟨next, sought, found, rfl, now⟩
    · exact ⟨name, also, still.trans known, same, first⟩
    · obtain ⟨named, _, _, asks⟩ := last
      refine ⟨next, sought, now, ?_⟩
      cases sought with
      | head uri vern =>
        obtain rfl := asks name also known
        obtain ⟨rfl, rfl⟩ := first uri vern rfl
        exact ⟨rfl, fun _ _ _ => ⟨named.trans (ask_key before known).symm, rfl⟩⟩
      | body uri offset =>
        obtain ⟨_, _, _, known', own⟩ := asks
        cases known.symm.trans known'
        exact ⟨own.symm.trans same, nofun⟩

/-- What the event tells to have been written of the package's body. -/
def Event.streams (pk : PackagePtr) : Event → Text
  | .written other .body data count => if other = pk then data.take count else []
  | .written _ .head .. | .written _ .unknown .. | .accepted _ | .created _ | .activated _
  | .rearmed _ | .finalised _ | .closed _ | .asked .. | .reserved .. | .loading .. | .put ..
  | .cancelled .. | .delivered .. | .aborted _ | .released .. => []

theorem streamed_concat (pk : PackagePtr) (log : List Event) (event : Event) :
    (story pk (log ++ [event])).streamed = (story pk log).streamed ++ event.streams pk := by
  rw [story_concat, storyAfter]
  cases event with
  | written other part data count =>
    cases part with
    | body =>
      simp only [Event.teller, Option.some.injEq, Event.streams]
      split <;> simp [Story.tell]
    | head | unknown =>
      simp only [Story.tell, Event.streams, List.append_nil]
      split <;> rfl
  | delivered other isCached =>
    simp only [Story.tell, Event.streams, List.append_nil]
    split
    · split
      · split <;> rfl
      · rfl
    · rfl
  | accepted | created | activated | rearmed | finalised | closed | asked | reserved | loading | put
  | cancelled | aborted | released =>
    simp only [Story.tell, Event.streams, List.append_nil]
    split <;> rfl

theorem streamed_grows (pk : PackagePtr) (log more : List Event) :
    (story pk log).streamed <+: (story pk (log ++ more)).streamed := by
  induction more using List.reverseRecOn with
  | nil => simp
  | append_singleton more event ih =>
    rw [← List.append_assoc, streamed_concat]
    exact ih.trans (List.prefix_append ..)

/-- A body has been written up to where it was looked up. -/
theorem ask_offset {uri : Text} {offset : Nat} (lawful : History.Throughout (Lawful good) log)
    (asked : (story pk log).ask = some (key, .body uri offset)) :
    offset ≤ (story pk log).streamed.length := by
  induction log using List.reverseRecOn with
  | nil => cases asked
  | append_singleton log event ih =>
    obtain ⟨before, last⟩ := History.throughout_concat.mp lawful
    have grown := (streamed_grows pk log [event]).length_le
    rcases ask_concat pk log event with still | ⟨name, sought, found, rfl, now⟩
    · exact (ih before (still ▸ asked)).trans grown
    · cases now.symm.trans asked
      obtain ⟨_, _, _, here, _⟩ := last
      rwa [← here] at grown

/-- Nothing of a body is written before it has been looked up. -/
theorem unstreamed (lawful : History.Throughout (Lawful good) log)
    (unasked : ∀ name uri offset, (story pk log).ask ≠ some (name, .body uri offset)) :
    (story pk log).streamed = [] := by
  induction log using List.reverseRecOn with
  | nil => rfl
  | append_singleton log event ih =>
    obtain ⟨before, last⟩ := History.throughout_concat.mp lawful
    have earlier : ∀ name uri offset, (story pk log).ask ≠ some (name, .body uri offset) := by
      intro name uri offset asked
      obtain ⟨next, also, known, _, first⟩ := ask_kept lawful asked
      cases also with
      | head path vern => cases (first path vern rfl).2
      | body path place => exact unasked next path place known
    rw [streamed_concat, ih before earlier, List.nil_append]
    cases event with
    | written other part data count =>
      cases part with
      | body =>
        obtain ⟨_, _, _, name, uri, asked, _⟩ := last
        exact if_neg fun own => earlier name uri _ (own ▸ asked)
      | head | unknown => rfl
    | accepted | created | activated | rearmed | finalised | closed | asked | reserved | loading
    | put | cancelled | delivered | aborted | released => rfl

/-- What a package looked up last was looked up before, or is among the last events. -/
theorem ask_since {more : List Event} {use : KeyUse}
    (asked : (story pk (log ++ more)).ask = some (key, use)) :
    (story pk log).ask = some (key, use) ∨ ∃ found, .asked pk key use found ∈ more := by
  induction more using List.reverseRecOn with
  | nil => exact .inl (by simpa using asked)
  | append_singleton more event ih =>
    rw [← List.append_assoc] at asked
    rcases ask_concat pk (log ++ more) event with still | ⟨name, sought, found, rfl, now⟩
    · exact (ih (still ▸ asked)).imp_right fun ⟨found, member⟩ =>
        ⟨found, List.mem_append_left _ member⟩
    · cases now.symm.trans asked
      exact .inr ⟨found, List.mem_append_right _ (List.mem_singleton_self _)⟩

/-- What a slot holds was put for the use its loader had looked up. -/
theorem stored_put {data : Text} (lawful : History.Throughout (Lawful good) log)
    (stored : (slot key log).stored = some data) :
    ∃ earlier loader later use, log = earlier ++ .put loader key data :: later ∧
      (story loader earlier).ask = some (key, use) ∧ good use data := by
  induction log using List.reverseRecOn with
  | nil => cases stored
  | append_singleton log event ih =>
    obtain ⟨before, last⟩ := History.throughout_concat.mp lawful
    have earlier (held : (slot key log).stored = some data) : ∃ earlier loader later use,
        log ++ [event] = earlier ++ .put loader key data :: later ∧
        (story loader earlier).ask = some (key, use) ∧
          good use data := by
      obtain ⟨earlier, loader, later, use, rfl, asked, isGood⟩ := ih before held
      exact ⟨earlier, loader, later ++ [event], use, by simp, asked, isGood⟩
    rw [slot_concat] at stored
    cases event with
    | put loader name put =>
      simp only [slotAfter] at stored
      split at stored
      · rename_i same
        cases same
        cases stored
        obtain ⟨_, use, asked, isGood⟩ := last
        exact ⟨log, loader, [], use, rfl, asked, isGood⟩
      · exact earlier stored
    | asked | reserved | cancelled =>
      simp only [slotAfter] at stored
      split at stored <;> exact earlier stored
    | accepted | created | activated | rearmed | finalised | closed | loading | delivered | aborted
    | released | written =>
      exact earlier stored

/-- What a key is made for has been looked up. -/
def Looked (log : List Event) (use : KeyUse) : Prop := ∃ pk key found, .asked pk key use found ∈ log

/-- What the event has looked up. -/
def Event.use? : Event → Option KeyUse
  | .asked _ _ use _ => some use
  | _ => none

theorem looked_iff {use : KeyUse} : Looked log use ↔ use ∈ log.filterMap Event.use? := by
  rw [List.mem_filterMap]
  constructor
  · rintro ⟨pk, key, found, member⟩
    exact ⟨_, member, rfl⟩
  · rintro ⟨event, member, shows⟩
    cases event <;> cases shows
    exact ⟨_, _, _, member⟩

theorem Looked.later {use : KeyUse} {earlier : List Event} (looked : Looked earlier use)
    (grown : earlier <+: log) : Looked log use := by
  obtain ⟨pk, key, found, member⟩ := looked
  exact ⟨pk, key, found, grown.subset member⟩

/-- What is good for one of the uses that have been looked up is good for the others of its key. -/
def Carries (good : KeyUse → Text → Prop) (log : List Event) : Prop :=
  ∀ use also, Looked log use → Looked log also → use.key = also.key → ∀ data, good use data →
    good also data

theorem Carries.earlier {earlier : List Event} (carries : Carries good log)
    (grown : earlier <+: log) : Carries good earlier :=
  fun use also one two => carries use also (one.later grown) (two.later grown)

/-- What is stored is good for whoever has looked up its key. -/
theorem stored_good {data : Text} {use : KeyUse} (lawful : History.Throughout (Lawful good) log)
    (carries : Carries good log) (asked : (story pk log).ask = some (key, use))
    (stored : (slot key log).stored = some data) :
    good use data := by
  obtain ⟨earlier, loader, later, also, rfl, sought, isGood⟩ := stored_put lawful stored
  have before := lawful.before
  obtain ⟨found, here⟩ := asked_of_story asked
  obtain ⟨lookedUp, there⟩ := asked_of_story sought
  have same : also.key = use.key := (ask_key before sought).symm.trans (ask_key lawful asked)
  exact carries also use ⟨loader, key, lookedUp, List.mem_append_left _ there⟩ ⟨pk, key, found,
    here⟩ same data isGood

/-- What is stored stays. -/
theorem stored_stays {more : List Event} {data : Text}
    (lawful : History.Throughout (Lawful good) (log ++ more))
    (stored : (slot key log).stored = some data) : (slot key (log ++ more)).stored = some data := by
  induction more using List.reverseRecOn with
  | nil => simpa using stored
  | append_singleton more event ih =>
    rw [← List.append_assoc] at lawful ⊢
    obtain ⟨before, last⟩ := History.throughout_concat.mp lawful
    exact (slot_stays before last).1 data (ih before)

/-- What was put is what the slot holds. -/
theorem put_stored {earlier later : List Event} {data : Text}
    (lawful : History.Throughout (Lawful good) (earlier ++ .put pk key data :: later)) :
    (slot key (earlier ++ .put pk key data :: later)).stored = some data := by
  rw [List.append_cons] at lawful ⊢
  exact stored_stays lawful (by simp [slotAfter])

/-- A package may be finalised for the same reason after events about which packages
there are. -/
theorem MayEnd.append (may : MayEnd pk log) (apart : ∀ event ∈ events, event.apart = true) :
    MayEnd pk (log ++ events) := by
  obtain ⟨stories, slots, statuses⟩ := apart_tells apart log
  intro child connected key use asked
  rw [statuses] at connected
  rw [stories] at asked
  have ends := may child connected key use asked
  cases use with
  | head =>
    obtain ⟨data, count, written, stored, other⟩ := ends
    exact ⟨data, count, List.mem_append_left _ written, by rw [slots]; exact stored, other⟩
  | body =>
    rcases ends with null | ⟨data, written⟩
    · exact .inl (by rw [slots]; exact null)
    · exact .inr ⟨data, List.mem_append_left _ written⟩

/-- The events of a connection that moves are lawful when it may finalise a package. -/
theorem lawful_append (lawful : History.Throughout (Lawful good) log)
    (apart : ∀ event ∈ events, event.apart = true)
    (ends : ∀ other, .finalised other ∈ events → MayEnd other log) :
    History.Throughout (Lawful good) (log ++ events) := by
  induction events using List.reverseRecOn with
  | nil => simpa using lawful
  | append_singleton events event ih =>
    have before : ∀ inner ∈ events, inner.apart = true :=
      fun inner member => apart inner (List.mem_append_left _ member)
    rw [← List.append_assoc]
    refine History.throughout_concat.mpr ⟨ih before fun other member =>
      ends other (List.mem_append_left _ member), ?_⟩
    have here := apart event (by simp)
    cases event with
    | finalised other => exact (ends other (by simp)).append before
    | accepted | created | activated | rearmed | closed => trivial
    | asked | reserved | loading | put | cancelled | delivered | aborted | released | written =>
      cases here

end EventDisp.Server
