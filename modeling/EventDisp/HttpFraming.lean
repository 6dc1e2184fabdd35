import EventDisp.HttpClosing
import EventDisp.HttpStreams

/-! How the answers on a connection are told apart. Nothing but the length that a head
announces says where the body behind it ends and the next answer begins. -/
namespace EventDisp.Server

open CString History

variable {pk other : PackagePtr} {key : Key} {use also : KeyUse}
  {log earlier middle later : List Event} {event : Event}
variable {uri head data : Text} {vern size offset conn : Nat} {files : Text → Text}

/-- The head says that the answer is good, and how long its body is. -/
def Announces (head : Text) (size : Nat) : Prop :=
  statusOf head = .ok200 ∧ ∃ before, head = before ++ "Content-Length: ".toList ++ decimal size ++
    crlf ++ crlf

/-- What the event tells to have been written on the connection. -/
def Event.bytes (conn : Nat) : Event → Text
  | .written pk _ data count => if pk.conn = conn then data.take count else []
  | .accepted _ | .created _ | .activated _ | .rearmed _ | .finalised _ | .closed _ | .asked ..
  | .reserved .. | .loading .. | .put .. | .cancelled .. | .delivered .. | .aborted _
  | .released .. => []

/-- What has been written on the connection. -/
def bytesOn (conn : Nat) (log : List Event) : Text := log.flatMap (Event.bytes conn)

/-- Something is written on the package's connection that is not of its body. -/
def Event.Begins (pk : PackagePtr) : Event → Prop
  | .written other part data count =>
    other.conn = pk.conn ∧ ¬ (other = pk ∧ part = .body) ∧ data.take count ≠ []
  | .accepted _ | .created _ | .activated _ | .rearmed _ | .finalised _ | .closed _ | .asked ..
  | .reserved .. | .loading .. | .put .. | .cancelled .. | .delivered .. | .aborted _
  | .released .. => False

/-- Behind a head that has been written whole, no more of the body is written than it
announces, and all of that before anything of another answer. -/
def Framed (log : List Event) : Prop :=
  ∀ earlier pk head middle later size, log = earlier ++ .written pk .head head head.length ::
    (middle ++ later) →
    Announces head size → (∀ event ∈ middle, ¬ event.Begins pk) →
    (bytesOn pk.conn middle).length ≤ size ∧
      ∀ event ∈ later.head?, event.Begins pk → (bytesOn pk.conn middle).length = size

/-- The length that is announced is that of the file. -/
theorem head200_announces_iff (vern : Nat) (date lastModified : Text) (size announced : Nat) :
    Announces (head200 vern date lastModified size) announced ↔ announced = size := by
  have status : statusOf (head200 vern date lastModified size) = .ok200 := by
    unfold statusOf
    rw [if_pos]
    unfold head200 sline200
    split <;> rfl
  have digits (number : Nat) : ' ' ∉ decimal number :=
    fun member => by simpa using decimal_digits member
  have shape (before : Text) (number : Nat) :
    before ++ "Content-Length: ".toList ++ decimal number ++ crlf ++ crlf =
      (before ++ "Content-Length:".toList) ++ ' ' :: decimal number ++ (crlf ++ crlf) := by
    simp
  obtain ⟨before, made⟩ : ∃ before, head200 vern date lastModified size =
      before ++ "Content-Length: ".toList ++ decimal size ++ crlf ++ crlf := by
    refine ⟨List.flatten [sline200 vern, crlf, "Date: ".toList, date, crlf, "Server: ".toList,
      websvrd, crlf,
      "Last-Modified: ".toList, lastModified, crlf, "Content-Type: ".toList, "text/plain".toList,
      crlf], ?_⟩
    simp [head200]
  constructor
  · rintro ⟨_, front, same⟩
    rw [made, shape, shape, List.append_cancel_right_eq,
      append_mark_inj (digits size) (digits announced)] at same
    exact (decimal_inj same.2).symm
  · rintro rfl
    exact ⟨status, before, made⟩

/-- The other heads announce nothing. -/
theorem head404_announces (vern : Nat) : ¬ Announces (head404 vern) size := by
  rintro ⟨status, _⟩
  unfold head404 sline404 at status
  split at status <;> cases status

theorem answer400_announces : ¬ Announces answer400 size := by
  rintro ⟨status, _⟩
  cases status

/-- What is put under a key is a head that announces the length of the file, or a part of the file. -/
def Wholes (files : Text → Text) : KeyUse → Text → Prop
  | .head uri _, head => ∀ size, Announces head size → size = (files (str uri)).length
  | .body uri offset, bytes => Chunk (files (str uri)) offset bytes

/-- Two uses of a key ask for the same: heads for files of one length, or parts of bodies behind
which the same is left. -/
def KeyUse.Alike (files : Text → Text) : KeyUse → KeyUse → Prop
  | .head uri _, .head other _ => (files (str uri)).length = (files (str other)).length
  | .body uri offset, .body other position =>
    (files (str uri)).drop offset = (files (str other)).drop position
  | .head .., .body .. | .body .., .head .. => False

instance (files : Text → Text) (use also : KeyUse) : Decidable (use.Alike files also) :=
  match use, also with
  | .head .., .head .. => inferInstanceAs (Decidable (_ = _))
  | .body .., .body .. => inferInstanceAs (Decidable (_ = _))
  | .head .., .body .. => inferInstanceAs (Decidable False)
  | .body .., .head .. => inferInstanceAs (Decidable False)

/-- Where the same is left, the same may be read. -/
theorem Chunk.congr {content changed bytes : Text} {position : Nat}
    (chunk : Chunk content offset bytes) (same : content.drop offset = changed.drop position) :
    Chunk changed position bytes := by
  refine ⟨same ▸ chunk.part, fun more => chunk.some ?_⟩
  have lengths := congrArg List.length same
  rw [List.length_drop, List.length_drop] at lengths
  omega

/-- What is put for one use of a key can be given to the others when they are alike. -/
theorem wholes_carry (alike : ∀ use also, Looked log use → Looked log also → use.key = also.key →
    use.Alike files also) :
    Carries (Wholes files) log := by
  intro use also one two same data isGood
  have like := alike use also one two same
  cases use with
  | head uri vern =>
    cases also with
    | head other version =>
      intro size announced
      rw [isGood size announced]
      exact like
    | body => cases like
  | body uri offset =>
    cases also with
    | head => cases like
    | body other position => exact isGood.congr like

/-- A child that can be written to and whose body has been looked up is finalised only when all
of the file has been written. -/
def EndsWhole (files : Text → Text) (earlier : List Event) : Event → Prop
  | .finalised pk => pk.number ≠ 0 → status pk.conn earlier = .connected → ∀ key uri offset,
      (story pk earlier).ask = some (key, .body uri offset) →
      (files (str uri)).length ≤ (story pk earlier).streamed.length
  | .accepted _ | .created _ | .activated _ | .rearmed _ | .closed _ | .asked .. | .reserved ..
  | .loading .. | .put .. | .cancelled .. | .delivered .. | .aborted _ | .released ..
  | .written .. => True

/-- The head of an answer is written once. -/
def HeadOnce (earlier : List Event) : Event → Prop
  | .written pk .head _ _ => ∀ data count, .written pk .head data count ∉ earlier
  | .written _ .body .. | .written _ .unknown .. | .accepted _ | .created _ | .activated _
  | .rearmed _ | .finalised _ | .closed _ | .asked .. | .reserved .. | .loading .. | .put ..
  | .cancelled .. | .delivered .. | .aborted _ | .released .. => True

theorem connected_before (connected : status conn (log ++ later) = .connected) :
    status conn log = .connected := by
  by_contra failed
  exact status_failed.mp (failed_append (status_failed.mpr failed) later) connected

/-- As long as nothing else is written on the connection, the body is. -/
private theorem streams_bytes (alone : ∀ event ∈ middle, ¬ event.Begins pk) :
    (story pk (log ++ middle)).streamed = (story pk log).streamed ++ bytesOn pk.conn middle := by
  induction middle using List.reverseRecOn with
  | nil => simp [bytesOn]
  | append_singleton middle event ih =>
    have before := ih fun inner member => alone inner (List.mem_append_left _ member)
    have own : event.streams pk = event.bytes pk.conn := by
      cases event with
      | written other part data count =>
        have nothing := alone _ (List.mem_append_right _ (List.mem_singleton_self _))
        simp only [Event.Begins, not_and, not_not] at nothing
        by_cases same : other.conn = pk.conn
        · by_cases body : other = pk ∧ part = .body
          · obtain ⟨rfl, rfl⟩ := body
            simp [Event.streams, Event.bytes]
          · rw [Event.bytes, if_pos same, nothing same fun one two => body ⟨one, two⟩]
            cases part with
            | body => exact if_neg fun same => body ⟨same, rfl⟩
            | head | unknown => rfl
        · have different : other ≠ pk := fun here => same (congrArg PackagePtr.conn here)
          rw [Event.bytes, if_neg same]
          cases part with
          | body => exact if_neg different
          | head | unknown => rfl
      | accepted | created | activated | rearmed | finalised | closed | asked | reserved | loading
      | put | cancelled | delivered | aborted | released => rfl
    rw [← List.append_assoc, streamed_concat, before, own, List.append_assoc]
    simp [bytesOn]

/-- When another child has its turn, the child has been finalised. -/
private theorem Current.passed (current : Current pk log) (next : Current other (log ++ middle))
    (same : other.conn = pk.conn) (different : other ≠ pk) : .finalised pk ∈ middle := by
  obtain ⟨child, active, done⟩ := current
  obtain ⟨_, activated, finalised⟩ := next
  unfold activatedOf at active activated
  unfold finalisedOf at done finalised
  rw [same, numbers_append, active] at activated
  rw [same, numbers_append, done] at finalised
  have further : pk.number ≤ other.number := by
    have grown := congrArg List.length activated
    rw [List.length_append, List.length_range', List.length_range'] at grown
    omega
  have apart : pk.number ≠ other.number := fun here => different (PackagePtr.ext same here.symm)
  have inside : pk.number ∈ List.range' 1 (other.number - 1) := by
    rw [List.mem_range'_1]
    omega
  rw [← finalised] at inside
  refine mem_finalisedOf.mp ((List.mem_append.mp inside).resolve_left fun before => ?_)
  rw [List.mem_range'_1] at before
  omega

/-- Answers are framed when what is put is what has been announced, and no child is finalised
before all of that has been written. -/
theorem framed_of_ends (lawful : Throughout (Lawful (Wholes files)) log)
    (carries : Carries (Wholes files) log) (ends : Throughout (EndsWhole files) log)
    (once : Throughout HeadOnce log) : Framed log := by
  rintro earlier pk head middle later size rfl announced alone
  have shape : earlier ++ .written pk .head head head.length :: (middle ++ later) =
      earlier ++ .written pk .head head head.length :: middle ++ later := by simp
  -- The head is the one for the file that has been looked up.
  have before : Throughout (Lawful (Wholes files)) earlier := lawful.before
  obtain ⟨current, _, _, answers⟩ := lawful earlier _ _ rfl
  obtain ⟨key, uri, vern, asked, stored⟩ : ∃ key uri vern,
    (story pk earlier).ask = some (key, .head uri vern) ∧
      (slot key earlier).stored = some head := by
    rcases answers with ⟨_, rfl⟩ | found
    · exact absurd announced answer400_announces
    · exact found
  have length : size = (files (str uri)).length :=
    stored_good before (carries.earlier (List.prefix_append ..)) asked stored size announced
  rw [shape] at lawful ends once carries
  have past : Throughout (Lawful (Wholes files))
    (earlier ++ .written pk .head head head.length :: middle) := lawful.before
  -- What has been written since is what the file begins with.
  have streamed : (story pk (earlier ++ .written pk .head head head.length :: middle)).streamed =
    bytesOn pk.conn middle := by
    have nothing : (story pk earlier).streamed = [] :=
      unstreamed before fun name uri offset body => by
      cases asked.symm.trans body
    rw [List.append_cons, streams_bytes alone, streamed_concat, nothing]
    rfl
  have within : (bytesOn pk.conn middle).length ≤ size := by
    obtain ⟨name, also, known, same, _⟩ := ask_kept past asked
    have begins :=
      (streamed_begins past (carries.earlier (List.prefix_append ..)) (fun _ _ _ => id) pk).2 name
        also known
    rw [same, streamed] at begins
    rw [length, begins]
    exact List.length_take_le' ..
  refine ⟨within, fun event first begins => Nat.le_antisymm within ?_⟩
  obtain ⟨rest, rfl⟩ := List.head?_eq_some_iff.mp first
  cases event with
  | written other part data count =>
    obtain ⟨conn, foreign, _⟩ := begins
    obtain ⟨next, connected, _, answers⟩ := lawful _ _ _ rfl
    have different : other ≠ pk := by
      rintro rfl
      cases part with
      | head => exact once _ _ _ rfl head head.length (by simp)
      | body => exact foreign ⟨rfl, rfl⟩
      | unknown => exact answers
    -- The child has been finalised in between, and not because of its head.
    have ended : .finalised pk ∈ middle := by
      have inside := current.passed next conn different
      simpa using inside
    obtain ⟨first, last, rfl⟩ := List.append_of_mem ended
    have between : earlier ++ .written pk .head head head.length ::
      (first ++ .finalised pk :: last) =
        earlier ++ .written pk .head head head.length :: first ++ .finalised pk :: last := by simp
    have connected' : status pk.conn (earlier ++ .written pk .head head head.length :: first) =
      .connected := by
      rw [between, conn] at connected
      exact connected_before connected
    rw [between] at past
    obtain ⟨name, also, known, same, head'⟩ := ask_kept past.before asked
    have file : (files (str uri)).length ≤
        (story pk (earlier ++ .written pk .head head head.length :: first)).streamed.length := by
      cases also with
      | head path version =>
        obtain ⟨rfl, _⟩ := head' path version rfl
        obtain ⟨data, _, _, held, other⟩ := past _ _ _ rfl current.1 connected' _ _ known
        cases held.symm.trans (stored_stays past.before stored)
        exact absurd announced.1 other
      | body path offset =>
        cases same
        refine ends.before _ (.finalised pk) last ?_ current.1 connected' name _ _ known
        rw [between]
    have grown :=
      (streamed_grows pk (earlier ++ .written pk .head head head.length :: first) (.finalised pk ::
        last)).length_le
    rw [← between, streamed] at grown
    omega
  | accepted | created | activated | rearmed | finalised | closed | asked | reserved | loading | put
  | cancelled | delivered | aborted | released => cases begins

end EventDisp.Server
