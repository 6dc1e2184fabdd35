import EventDisp.HttpConnections

/-! The bodies of answers. The parts of a file are cached by where they begin, with
whatever length they were read, and every answer takes up the part at the place up to
which it has been written. -/
namespace EventDisp.Server

open CString Execution History

variable {server : Server} {pk : PackagePtr} {key : Key} {uri content bytes : Text} {offset : Nat}
  {log : List Event}
variable {files : Text → Text} {use also : KeyUse} {good : KeyUse → Text → Prop}

/-- What a read may bring: bytes from the offset on, and some unless there are none. -/
structure Chunk (content : Text) (offset : Nat) (bytes : Text) : Prop where
  part : bytes <+: (content.drop offset).take maxBlock
  some : offset < content.length → bytes ≠ []

instance (content : Text) (offset : Nat) (bytes : Text) : Decidable (Chunk content offset bytes) :=
  decidable_of_iff (bytes <+: (content.drop offset).take maxBlock ∧
    (offset < content.length → bytes ≠ []))
    ⟨fun both => ⟨both.1, both.2⟩, fun chunk => ⟨chunk.part, chunk.some⟩⟩

/-- Reads bring what is in the files, and a write of something writes something. `open`
is given the URI as a string. -/
def Faithful (files : Text → Text) (server : Server) : Step → Prop
  | .complete index (.read bytes _) _ => ∀ pk path offset,
      server.client.aios[index]? = some (.readBody pk (some path) offset) →
      Chunk (files (str path)) offset bytes
  | .complete index (.wrote nbytes) _ => ∀ pk data,
      server.client.aios[index]? = some (.writeBody pk data) → data ≠ [] → 0 < nbytes
  | .complete _ .failed _ => False
  | .accept _ | .run .. => True

/-- The URI is without `#`, and the key made for it is not cut. -/
def KeyUse.Plain : KeyUse → Prop
  | .head uri _ => '#' ∉ str uri ∧ (str uri).length < maxKeys
  | .body uri offset => '#' ∉ str uri ∧ (str uri ++ '#' :: decimal offset).length < maxKeys

/-- Parts of bodies have keys of their own. -/
theorem Plain.body (plain : (KeyUse.body uri offset).Plain) (too : also.Plain)
    (same : also.key = bodyKey uri offset) :
    ∃ other, also = .body other offset ∧ str other = str uri := by
  obtain ⟨_, short⟩ := plain
  have whole : bodyKey uri offset = str uri ++ '#' :: decimal offset :=
    List.take_of_length_le (Nat.le_sub_one_of_lt short)
  rw [whole] at same
  cases also with
  | head other vern =>
    obtain ⟨clean, fits⟩ := too
    simp only [KeyUse.key, headKey, List.take_of_length_le (Nat.le_sub_one_of_lt fits)] at same
    exact absurd (by simp [same]) clean
  | body other position =>
    obtain ⟨_, fits⟩ := too
    simp only [KeyUse.key, bodyKey, List.take_of_length_le (Nat.le_sub_one_of_lt fits)] at same
    have digits : ∀ number, '#' ∉ decimal number :=
      fun number member => by simpa using decimal_digits member
    obtain ⟨strings, numbers⟩ := (append_mark_inj (digits position) (digits offset)).mp same
    exact ⟨other, by rw [decimal_inj numbers], strings⟩

/-- What is put for a part of a body is a part of the file. -/
private def Chunks (files : Text → Text) : KeyUse → Text → Prop
  | .head .., _ => True
  | .body uri offset, bytes => Chunk (files (str uri)) offset bytes

private theorem Faithful.provides {step : Step} (faithful : Faithful files server step) :
    Provides (Chunks files) server step := by
  cases step with
  | accept => trivial
  | run => exact fun _ _ _ _ _ _ _ => trivial
  | complete index completion =>
    cases completion with
    | read bytes stale => exact faithful
    | wrote | failed => trivial

/-- What is part of one file is part of the others with the same key. -/
private theorem chunks_carry (plain : ∀ pk key use found, .asked pk key use found ∈ log →
    use.Plain) :
    Carries (Chunks files) log := by
  rintro use also ⟨_, _, _, here⟩ ⟨_, _, _, there⟩ same data isGood
  cases also with
  | head => trivial
  | body uri offset =>
    obtain ⟨other, rfl, strings⟩ := Plain.body (plain _ _ _ _ there) (plain _ _ _ _ here) same
    rw [Chunks, ← strings]
    exact isGood

/-- Writing a part of what is there goes on where the writing has stopped. -/
private theorem Chunk.extends {count : Nat} {streamed : Text}
    (chunk : Chunk content streamed.length bytes)
    (before : streamed = content.take streamed.length) :
    streamed ++ bytes.take count = content.take (streamed ++ bytes.take count).length := by
  have shorter : bytes.take count <+: content.drop streamed.length :=
    (List.take_prefix _ _).trans (chunk.part.trans (List.take_prefix _ _))
  have cut := List.prefix_iff_eq_take.mp shorter
  rw [List.length_append, List.take_add, ← before, ← cut]

/-- What has been written of a body is what the file begins with. -/
theorem streamed_begins (lawful : Throughout (Lawful good) log) (carries : Carries good log)
    (chunk : ∀ uri offset bytes, good (.body uri offset) bytes →
      Chunk (files (str uri)) offset bytes) (pk : PackagePtr) :
    ((story pk log).ask = none → (story pk log).streamed = []) ∧ ∀ key use,
    (story pk log).ask = some (key, use) →
      (story pk log).streamed = (files (str use.uri)).take (story pk log).streamed.length := by
  induction log using List.reverseRecOn with
  | nil =>
    refine ⟨fun _ => rfl, ?_⟩
    intro key use asked
    cases asked
  | append_singleton log event ih =>
    obtain ⟨before, last⟩ := throughout_concat.mp lawful
    have earlier := carries.earlier (List.prefix_append log [event])
    obtain ⟨unasked, asked⟩ := ih before earlier
    by_cases own : event.teller = some pk
    · rw [story_concat, storyAfter, if_pos own]
      cases event with
      | asked other key use found =>
        cases own
        obtain ⟨_, _, _, asks⟩ := last
        constructor
        · intro absent
          cases absent
        rintro _ _ ⟨⟩
        simp only [Story.tell]
        cases known : (story pk log).ask with
        | none =>
          rw [unasked known]
          rfl
        | some pair =>
          obtain ⟨name, sought⟩ := pair
          have kept := asked name sought known
          cases use with
          | head uri vern =>
            rw [asks name sought known] at kept
            exact kept
          | body uri offset =>
            obtain ⟨_, name', sought', known', same⟩ := asks
            rw [known] at known'
            cases known'
            rw [same] at kept
            exact kept
      | written other part data count =>
        cases own
        cases part with
        | head | unknown => exact ⟨unasked, asked⟩
        | body =>
          obtain ⟨_, _, _, key, uri, sought, stored⟩ := last
          have part := chunk _ _ _ (stored_good before earlier sought stored)
          simp only [Story.tell]
          constructor
          · intro none
            rw [sought] at none
            cases none
          · intro name use known
            rw [sought] at known
            cases known
            exact part.extends (asked _ _ sought)
      | delivered other isCached =>
        have same : ((story pk log).tell (.delivered other isCached)).ask = (story pk log).ask ∧
            ((story pk log).tell (.delivered other isCached)).streamed =
            (story pk log).streamed := by
          simp only [Story.tell]
          split
          · split <;> exact ⟨rfl, rfl⟩
          · exact ⟨rfl, rfl⟩
        rw [same.1, same.2]
        exact ⟨unasked, asked⟩
      | accepted | created | activated | rearmed | finalised | closed | reserved | loading | put
      | cancelled | aborted | released => exact ⟨unasked, asked⟩
    · rw [story_other own]
      exact ⟨unasked, asked⟩

/-- What has been written of the bodies of answers. -/
structure Streams (files : Text → Text) (server : Server) : Prop where
  begins : ∀ pk hpkg uri, server.client.packages pk = some hpkg → hpkg.uri = some uri →
    (story pk server.client.log).streamed = (files (str uri)).take hpkg.trOffset
  /-- Nothing is going to be written exactly when the whole file has been. -/
  ends : ∀ pk data hpkg uri, .writeBody pk data ∈ server.client.aios →
    server.client.packages pk = some hpkg →
    hpkg.uri = some uri → (data = [] ↔ (story pk server.client.log).streamed = files (str uri))
  /-- Only a write of nothing tells that nothing was written, and so ends the body. -/
  goes : ∀ index pk data nbytes around, server.client.aios[index]? = some (.writeBody pk data) →
    program.allowed server (.complete index (.wrote nbytes) around) →
    Faithful files server (.complete index (.wrote nbytes) around) → (nbytes = 0 ↔ data = [])
  /-- What has been written stays the beginning of the file, also of what is finalised. -/
  left : ∀ pk key use, (story pk server.client.log).ask = some (key, use) →
    (story pk server.client.log).streamed = (files (str use.uri)).take
    (story pk server.client.log).streamed.length

/-- Bodies are written exactly, whatever is read and written at a time and whoever has
read it. -/
theorem streams_exact {attempts : List (Server × Step)} (run : Run program attempts (.ok server))
    (faithful : ∀ attempt ∈ attempts, Faithful files attempt.1 attempt.2)
    (plain : ∀ pk key use found, .asked pk key use found ∈ server.client.log → use.Plain) :
    Streams files server := by
  have sound := run_keeps run fun attempt member => (faithful attempt member).provides
  obtain ⟨lives, _⟩ := id sound
  have carries : Carries (Chunks files) server.client.log := chunks_carry plain
  have written := streamed_begins lives.lawful carries fun _ _ _ => id
  refine ⟨?_, ?_, ?_, fun pk => (written pk).2⟩
  · intro pk hpkg uri there known
    have told := lives.tells.packages pk hpkg nofun there
    rw [told.offset]
    cases sought : (story pk server.client.log).ask with
    | none =>
      rw [(written pk).1 sought]
      rfl
    | some pair =>
      obtain ⟨key, use⟩ := pair
      have same := told.asked key use sought
      rw [known, Option.some.injEq] at same
      rw [same]
      exact (written pk).2 key use sought
  · intro pk data hpkg uri member there known
    obtain ⟨key, name, sought, stored, _⟩ := lives.tells.aios _ member
    have same := (lives.tells.packages pk hpkg nofun there).asked _ _ sought
    rw [known, Option.some.injEq] at same
    have chunk : Chunk (files (str name)) _ data := stored_good lives.lawful carries sought stored
    have before := (written pk).2 _ _ sought
    simp only [KeyUse.uri] at same before
    rw [same]
    constructor
    · rintro rfl
      have all : (files (str name)).length ≤ (story pk server.client.log).streamed.length :=
        Nat.le_of_not_lt fun more => chunk.some more rfl
      rw [before, List.take_of_length_le all]
    · intro whole
      have nothing := chunk.part
      rw [whole] at nothing
      simpa using nothing
  · intro index pk data nbytes around found allowed faithful
    simp only [program, enabled, found, Aio.completes, Bool.and_eq_true,
      decide_eq_true_eq] at allowed
    constructor
    · intro none'
      by_contra more
      have positive := faithful pk data found more
      omega
    · rintro rfl
      have within := allowed.2
      simpa using within

/-- A file read two bytes and written one byte at a time. -/
private def byteByByte : List Step :=
  let file : Surroundings := ⟨some ⟨3, []⟩, [], true⟩
  asking "GET /a HTTP/1.1\r\n\r\n".toList file ++
    [.complete 0 (.wrote 100) file, .complete 0 (.read "ab".toList []) file,
      .complete 0 (.wrote 1) file]

set_option maxRecDepth 8000 in
private theorem byteByByte_faithful :
    ∀ attempt ∈ program.trace program.start byteByByte,
    Faithful (fun _ => "abc".toList) attempt.1 attempt.2 := by
  intro attempt member
  obtain ⟨head, aios⟩ : ∃ head, (program.trace program.start byteByByte).map
    (fun attempt => (attempt.1.client.aios, attempt.2)) =
      [[], [.readRequest ⟨0, 0⟩], [], [.writeHead ⟨0, 1⟩ head],
        [.readBody ⟨0, 1⟩ (some "a".toList) 0],
        [.writeBody ⟨0, 1⟩ "ab".toList]].zip byteByByte := ⟨_, rfl⟩
  have pair :=
    List.mem_map_of_mem (f := fun attempt : Server × Step =>
      (attempt.1.client.aios, attempt.2)) member
  rw [aios] at pair
  simp only [byteByByte, asking, List.cons_append, List.nil_append, List.zip_cons_cons,
    List.zip_nil_left, List.mem_cons,
    Prod.mk.injEq, List.not_mem_nil, or_false] at pair
  obtain ⟨server, step⟩ := attempt
  rcases pair with ⟨_, rfl⟩ | ⟨inside, rfl⟩ | ⟨_, rfl⟩ | ⟨inside, rfl⟩ | ⟨inside, rfl⟩ | ⟨_, rfl⟩
  · trivial
  · rintro pk path offset found
    simp only at inside
    rw [inside] at found
    cases found
  · trivial
  · rintro pk data found
    simp only at inside
    rw [inside] at found
    cases found
  · rintro pk path offset found
    simp only at inside
    rw [inside] at found
    cases found
    exact ⟨by decide, by decide⟩
  · intro _ _ _ _
    exact Nat.one_pos

set_option maxRecDepth 8000 in
/-- After a write of one byte the part is read again from there. -/
theorem streams_exact_run : ∃ attempts server, Run program attempts (.ok server) ∧
    server.client.aios = [.readBody ⟨0, 1⟩ (some "a".toList) 1] ∧
    (story ⟨0, 1⟩ server.client.log).streamed = "a".toList ∧
    Streams (fun _ => "abc".toList) server := by
  obtain ⟨server, ran, aios, asked, streamed⟩ : ∃ server, program.replay program.start byteByByte =
    .ok server ∧
      server.client.aios = [.readBody ⟨0, 1⟩ (some "a".toList) 1] ∧
      server.client.log.filterMap Event.use? = [.head "a".toList 1, .head "a".toList 1,
        .body "a".toList 0,
        .body "a".toList 0, .body "a".toList 1, .body "a".toList 1] ∧
      (story ⟨0, 1⟩ server.client.log).streamed = "a".toList := ⟨_, rfl, rfl, rfl, rfl⟩
  have run := replayed program byteByByte (by decide)
  rw [ran] at run
  refine ⟨_, server, run, aios, streamed, streams_exact run byteByByte_faithful ?_⟩
  intro pk key use found member
  have inside : use ∈ server.client.log.filterMap Event.use? :=
    List.mem_filterMap.mpr ⟨_, member, rfl⟩
  simp only [asked, List.mem_cons, List.not_mem_nil, or_false] at inside
  rcases inside with rfl | rfl | rfl | rfl | rfl | rfl <;> exact ⟨by decide, by decide⟩

end EventDisp.Server
