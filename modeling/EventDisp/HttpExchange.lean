import EventDisp.HttpAnswering

/-! What a client gets. As long as the files do not change and nobody is handed `NULL` before
the end of one, the bytes on every connection are what the answers to its requests begin
with, one behind the other. -/
namespace EventDisp.Server

open CString Execution Grouping History

variable {server : Server} {pk : PackagePtr} {conn : Nat} {gk : HPKG}
  {attempts : List (Server × Step)} {use also : KeyUse}
variable {log earlier later : List Event} {site : Text → Option Text}

/-- What is in a file, and nothing when there is none. -/
def contentsOf (site : Text → Option Text) (path : Text) : Text := (site path).getD []

/-- The files are as the site has them: what is there is opened with its length, and reads
bring what is in it. -/
def OnSite (site : Text → Option Text) (server : Server) : Step → Prop
  | .run index around =>
    ∀ task ∈ server.client.tasks[index]?, ∀ hpkg ∈ server.client.packages task.work.pk,
      ∀ uri ∈ hpkg.uri, around.file.map Stat.size = (site (str uri)).map List.length
  | .complete index (.read bytes _) _ =>
    ∀ aio ∈ server.client.aios[index]?, aio.Brings (contentsOf site) bytes
  | .accept _ | .complete _ (.wrote _) _ | .complete _ .failed _ => True

instance (site : Text → Option Text) (server : Server) : DecidablePred (OnSite site server)
  | .run .. => inferInstanceAs (Decidable (∀ _ ∈ _, _))
  | .complete _ (.read ..) _ => inferInstanceAs (Decidable (∀ _ ∈ _, _))
  | .accept _ | .complete _ (.wrote _) _ | .complete _ .failed _ => inferInstanceAs (Decidable True)

/-- The answer to a request: the head that has been put for its file and what is in it, or that
the request is a bad one. -/
def replyTo (site : Text → Option Text) (log : List Event) (gk : HPKG) : Text :=
  match gk.wanted with
  | none => answer400
  | some (uri, _) => (slot (headKey uri) log).stored.getD [] ++ contentsOf site (str uri)

/-- What the clients have got. -/
structure Exchanged (site : Text → Option Text) (attempts : List (Server × Step))
    (log : List Event) : Prop where
  begins : ∀ conn, bytesOn conn log <+: (requestsOn attempts conn).flatMap (replyTo site log)
  /-- As long as nothing has failed, the answers of all children that are finalised are whole. -/
  whole : ∀ conn count, status conn log = .connected → finalisedOf conn log = List.range' 1 count →
    ((requestsOn attempts conn).take count).flatMap (replyTo site log) <+: bytesOn conn log
  /-- A head is the one that is made for the file, at some time and for some version. -/
  heads : ∀ uri vern head, Looked log (.head uri vern) →
    (slot (headKey uri) log).stored = some head → ∃ version around, head = headOf version around ∧
      around.file.map Stat.size = (site (str uri)).map List.length

/-- What is put for a use of a key is what the site has for it. -/
private def OfSite (site : Text → Option Text) : KeyUse → Text → Prop
  | .head uri _, head => ∃ version around, head = headOf version around ∧
      around.file.map Stat.size = (site (str uri)).map List.length
  | .body uri offset, bytes => Chunk (contentsOf site (str uri)) offset bytes

private theorem OnSite.provides {step : Step} (onSite : OnSite site server step) :
    Provides (OfSite site) server step := by
  cases step with
  | accept => trivial
  | run index around =>
    intro pk hpkg uri vern found there known
    exact ⟨vern, around, rfl, onSite _ found hpkg there uri known⟩
  | complete index completion =>
    cases completion with
    | read => exact fun pk path offset found => onSite _ found
    | wrote | failed => trivial

private theorem OnSite.unchanged {step : Step} (onSite : OnSite site server step) :
    Unchanged (contentsOf site) server step := by
  cases step with
  | run index around =>
    intro task found hpkg there uri known stat opened
    have sizes := onSite task found hpkg there uri known
    rw [opened] at sizes
    unfold contentsOf
    cases held : site (str uri) with
    | none =>
      rw [held] at sizes
      cases sizes
    | some content =>
      rw [held] at sizes
      exact Option.some.inj sizes
  | complete index completion =>
    cases completion with
    | read => exact onSite
    | wrote | failed => trivial
  | accept => trivial

/-- Heads of plain URIs have keys of their own. -/
private theorem plain_head {uri : Text} {vern : Nat} (plain : (KeyUse.head uri vern).Plain)
    (too : also.Plain) (same : also.key = headKey uri) :
    ∃ other version, also = .head other version ∧ str other = str uri := by
  cases also with
  | head other version =>
    obtain ⟨_, short⟩ := plain
    obtain ⟨_, fits⟩ := too
    simp only [KeyUse.key, headKey, List.take_of_length_le (Nat.le_sub_one_of_lt fits),
      List.take_of_length_le (Nat.le_sub_one_of_lt short)] at same
    exact ⟨other, version, rfl, same⟩
  | body other offset =>
    obtain ⟨_, impossible, _⟩ := Plain.body too plain same.symm
    cases impossible

/-- What is put for one use of a key can be given to the others. -/
private theorem ofSite_carries (plain : ∀ use, Looked log use → use.Plain) :
    Carries (OfSite site) log := by
  intro use also one two same data isGood
  cases also with
  | head uri vern =>
    obtain ⟨other, version, rfl, strings⟩ := plain_head (plain _ two) (plain _ one) same
    rw [OfSite, ← strings]
    exact isGood
  | body uri offset =>
    obtain ⟨other, rfl, strings⟩ := Plain.body (plain _ two) (plain _ one) same
    rw [OfSite, ← strings]
    exact isGood

private theorem plain_alike {files : Text → Text} (plain : use.Plain) (too : also.Plain)
    (same : use.key = also.key) : use.Alike files also := by
  cases also with
  | head uri vern =>
    obtain ⟨other, version, rfl, strings⟩ := plain_head too plain same
    rw [KeyUse.Alike, strings]
  | body uri offset =>
    obtain ⟨other, rfl, strings⟩ := Plain.body too plain same
    rw [KeyUse.Alike, strings]

/-- The whole of a head has been written. -/
private def HeadsWhole (log : List Event) : Prop :=
  ∀ pk data count, .written pk .head data count ∈ log → count = data.length

private theorem run_tidy (run : Run program attempts (.ok server))
    (onSite : ∀ attempt ∈ attempts, OnSite site attempt.1 attempt.2)
    (undisturbed : ∀ attempt ∈ attempts, Undisturbed (contentsOf site) attempt.1 attempt.2)
    (reports : ∀ attempt ∈ attempts, ReportsWhole attempt.1 attempt.2)
    (plain : ∀ use, Looked server.client.log use → use.Plain) :
    Tidy (contentsOf site) server.client.log ∧ HeadsWhole server.client.log := by
  generalize ended : Except.ok server = outcome at run
  induction run generalizing server with
  | start =>
    cases ended
    exact ⟨⟨throughout_nil, throughout_nil, nofun, nofun⟩, nofun⟩
  | @step attempts state call before allowed ih =>
    obtain ⟨onSite, now⟩ := List.forall_mem_append.mp onSite
    obtain ⟨undisturbed, here⟩ := List.forall_mem_append.mp undisturbed
    obtain ⟨reports, all⟩ := List.forall_mem_append.mp reports
    have ran : exec state call = .ok server := ended.symm
    have step : Run program (attempts ++ [(state, call)]) (.ok server) :=
      ended ▸ before.step allowed
    have grown : state.client.log <+: server.client.log := (exec_extends ran).log
    obtain ⟨tidy, whole⟩ :=
      ih onSite undisturbed reports (fun use looked => plain use (looked.later grown)) rfl
    constructor
    · refine tidy.keeps
        (run_keeps before fun attempt member => (onSite attempt member).unchanged.provides)
        (run_keeps step fun attempt member =>
          ((List.mem_append.mp member).elim (onSite attempt) (now attempt)).unchanged.provides)
        (here _ (List.mem_singleton_self _)) allowed ran fun use also one two =>
          plain_alike (plain use one) (plain also two)
    · intro pk data count member
      obtain ⟨front, more, longer, _, written⟩ := exec_writes ran
      rcases List.mem_append.mp (longer ▸ member) with old | new
      · exact whole pk data count old
      · obtain ⟨_, _, _, _, ⟨part, _⟩ | ⟨_, writes⟩⟩ := written _ _ _ _ new
        · cases part
        · exact all _ (List.mem_singleton_self _) pk data count writes

/-- What the history of such a run tells. -/
private structure Exchanging (site : Text → Option Text) (attempts : List (Server × Step))
    (log : List Event) : Prop where
  lawful : Throughout (Lawful (OfSite site)) log
  carries : Carries (OfSite site) log
  ends : Throughout (EndsWhole (contentsOf site)) log
  once : Throughout HeadOnce log
  headed : Headed log
  whole : HeadsWhole log
  asks : ∀ pk key uri vern found, .asked pk key (.head uri vern) found ∈ log →
    Asked attempts pk (some (uri, vern))
  replies : Throughout (Replies attempts) log
  answered : Throughout (EndsAnswered attempts) log

/-- What has been looked up is what the request asks for. -/
private theorem Exchanging.wanted {key : Key} (told : Exchanging site attempts log)
    (request : requestOf? attempts pk = some gk) (asked : (story pk log).ask = some (key, use)) :
    ∃ vern, gk.wanted = some (use.uri, vern) := by
  obtain ⟨name, vern, found, member⟩ := head_asked told.lawful asked
  obtain ⟨other, there, wanted⟩ := told.asks pk name _ vern found member
  cases request.symm.trans there
  exact ⟨vern, wanted⟩

/-- What has been written of a body is what the file begins with. -/
private theorem Exchanging.streams (told : Exchanging site attempts log) {uri : Text} {vern : Nat}
    (request : requestOf? attempts pk = some gk) (wanted : gk.wanted = some (uri, vern)) :
    (story pk log).streamed = (contentsOf site (str uri)).take (story pk log).streamed.length := by
  have streamed := streamed_begins told.lawful told.carries (fun _ _ _ => id) pk
  cases asked : (story pk log).ask with
  | none =>
    rw [streamed.1 asked]
    rfl
  | some pair =>
    obtain ⟨key, use⟩ := pair
    obtain ⟨_, same⟩ := told.wanted request asked
    cases wanted.symm.trans same
    exact streamed.2 key use asked

/-- Nothing of a body is written for a bad request. -/
private theorem Exchanging.refused (told : Exchanging site attempts log)
    (request : requestOf? attempts pk = some gk) (bad : gk.wanted = none) :
    (story pk log).streamed = [] := by
  refine unstreamed told.lawful fun key uri offset asked => ?_
  obtain ⟨_, same⟩ := told.wanted request asked
  cases bad.symm.trans same

/-- The head that has been written is the whole of the one that the reply has. -/
private theorem Exchanging.head (told : Exchanging site attempts log)
    (request : requestOf? attempts pk = some gk) {head : Text} (member : head ∈ headsOf pk log) :
    (gk.wanted = none ∧ head = answer400) ∨ ∃ uri vern, gk.wanted = some (uri, vern) ∧
      (slot (headKey uri) log).stored = some head := by
  obtain ⟨event, inside, shows⟩ := List.mem_filterMap.mp member
  cases event with
  | written other part data count =>
    cases part with
    | body | unknown => cases shows
    | head =>
      simp only [Event.head?] at shows
      split at shows
      · rename_i own
        subst own
        cases shows
        obtain rfl := told.whole other data count inside
        obtain ⟨earlier, later, rfl⟩ := List.append_of_mem inside
        obtain ⟨_, there, answers⟩ := told.replies earlier _ later rfl
        cases request.symm.trans there
        rw [List.take_length]
        cases wanted : gk.wanted with
        | none =>
          rw [wanted] at answers
          exact .inl ⟨rfl, answers⟩
        | some pair =>
          obtain ⟨uri, vern⟩ := pair
          rw [wanted] at answers
          exact .inr ⟨uri, vern, rfl, stored_stays told.lawful answers.2⟩
      · cases shows
  | accepted | created | activated | rearmed | finalised | closed | asked | reserved | loading
  | put | cancelled | delivered | aborted | released => cases shows

private theorem replyTo_bad (bad : gk.wanted = none) : replyTo site log gk = answer400 := by
  simp only [replyTo, bad]

private theorem replyTo_good {uri head : Text} {vern : Nat} (wanted : gk.wanted = some (uri, vern))
    (stored : (slot (headKey uri) log).stored = some head) :
    replyTo site log gk = head ++ contentsOf site (str uri) := by
  simp only [replyTo, wanted, stored, Option.getD_some]

private theorem headsOf_single {head : Text} (few : (headsOf pk log).length ≤ 1)
    (member : head ∈ headsOf pk log) : headsOf pk log = [head] := by
  generalize headsOf pk log = heads at few member ⊢
  cases heads with
  | nil => cases member
  | cons first rest =>
    obtain rfl : rest = [] := by simpa using few
    rw [List.mem_singleton.mp member]

/-- What has been written for a child is what the reply begins with. -/
private theorem Exchanging.answer_begins (told : Exchanging site attempts log)
    (request : requestOf? attempts pk = some gk) : answer pk log <+: replyTo site log gk := by
  obtain ⟨shape, few⟩ := answer_shape told.lawful told.once pk
  rw [shape]
  by_cases heads : headsOf pk log = []
  · have nothing : (story pk log).streamed = [] := by
      by_contra some'
      exact told.headed.streams told.lawful some' heads
    rw [heads, nothing]
    exact List.nil_prefix
  · obtain ⟨head, member⟩ := List.exists_mem_of_ne_nil _ heads
    rw [headsOf_single few member, List.flatten_singleton]
    rcases told.head request member with ⟨bad, rfl⟩ | ⟨uri, vern, wanted, stored⟩
    · simp [replyTo_bad bad, told.refused request bad]
    · rw [replyTo_good wanted stored, List.prefix_append_right_inj, told.streams request wanted]
      exact List.take_prefix ..

/-- What a child is finalised with as long as something can be written is the whole reply. -/
private theorem Exchanging.answer_whole (told : Exchanging site attempts log)
    (request : requestOf? attempts pk = some gk) (child : pk.number ≠ 0)
    (shape : log = earlier ++ .finalised pk :: later)
    (connected : status pk.conn earlier = .connected) :
    replyTo site log gk <+: answer pk log := by
  have before : earlier <+: log := shape ▸ List.prefix_append ..
  have lawful : Throughout (Lawful (OfSite site)) earlier := by
    have whole := told.lawful
    rw [shape] at whole
    exact whole.before
  have stays {key : Key} {data : Text} (stored : (slot key earlier).stored = some data) :
      (slot key log).stored = some data := by
    obtain ⟨more, rfl⟩ := before
    exact stored_stays told.lawful stored
  obtain ⟨parts, few⟩ := answer_shape told.lawful told.once pk
  -- The only head is the one that is known to have been written.
  have only {head : Text} {count : Nat} (written : .written pk .head head count ∈ log) :
      headsOf pk log = [head] := by
    obtain rfl := told.whole pk head count written
    exact headsOf_single few (List.mem_filterMap.mpr ⟨_, written, by simp [Event.head?]⟩)
  rw [parts]
  cases asked : (story pk earlier).ask with
  | none =>
    obtain ⟨⟨other, there, bad⟩, count, written⟩ :=
      told.answered earlier _ later shape child connected asked
    cases request.symm.trans there
    rw [replyTo_bad bad, only (before.subset written), List.flatten_singleton]
    exact List.prefix_append ..
  | some pair =>
    obtain ⟨key, use⟩ := pair
    obtain ⟨name, vern, found, member⟩ := head_asked lawful asked
    obtain ⟨other, there, wanted⟩ := told.asks pk name _ vern found (before.subset member)
    cases request.symm.trans there
    have named := ask_key lawful asked
    cases use with
    | head uri version =>
      -- The head told that there is no file.
      obtain ⟨data, count, written, stored, status⟩ :=
        told.lawful earlier _ later shape child connected key _ asked
      cases named
      have nothing : contentsOf site (str uri) = [] := by
        obtain ⟨vern, around, rfl, sizes⟩ :=
          stored_good lawful (told.carries.earlier before) asked stored
        unfold headOf at status
        unfold contentsOf
        cases opened : around.file with
        | none =>
          rw [opened] at sizes
          rw [Option.map_eq_none_iff.mp sizes.symm]
          rfl
        | some stat =>
          rw [opened] at status
          exact absurd ((head200_announces_iff vern around.date stat.lastModified stat.size
            stat.size).mpr rfl).1 status
      rw [KeyUse.uri] at wanted
      rw [replyTo_good wanted (stays stored), only (before.subset written), List.flatten_singleton,
        nothing, List.append_nil]
      exact List.prefix_append ..
    | body uri offset =>
      -- All of the file has been written.
      have all := told.ends earlier _ later shape child connected key uri offset asked
      have streamed : (story pk earlier).streamed = contentsOf site (str uri) := by
        have begins :=
          (streamed_begins lawful (told.carries.earlier before) (fun _ _ _ => id) pk).2 _ _ asked
        rw [KeyUse.uri, List.take_of_length_le all] at begins
        exact begins
      have grown : contentsOf site (str uri) <+: (story pk log).streamed := by
        rw [← streamed]
        obtain ⟨more, rfl⟩ := before
        exact streamed_grows ..
      obtain ⟨found, member⟩ := asked_of_story asked
      obtain ⟨head, there⟩ := List.exists_mem_of_ne_nil _
        (told.headed pk key uri offset found (before.subset member))
      rw [headsOf_single few there, List.flatten_singleton]
      rcases told.head request there with ⟨bad, _⟩ | ⟨_, _, same, stored⟩
      · cases wanted.symm.trans bad
      · cases wanted.symm.trans same
        rw [KeyUse.uri] at wanted stored
        rw [replyTo_good wanted stored, List.prefix_append_right_inj]
        exact grown

/-- Whoever is finalised by the time something is written on the connection has got all of the
reply. -/
private theorem Exchanging.passed (told : Exchanging site attempts log)
    (request : requestOf? attempts pk = some gk) (child : pk.number ≠ 0)
    (finalised : .finalised pk ∈ earlier) (shape : earlier <+: log)
    (connected : status pk.conn earlier = .connected) : answer pk log = replyTo site log gk := by
  obtain ⟨rest, rfl⟩ := shape
  obtain ⟨first, last, rfl⟩ := List.append_of_mem finalised
  have position : first ++ .finalised pk :: last ++ rest =
      first ++ .finalised pk :: (last ++ rest) := by simp
  exact (told.answer_begins request).eq_of_length_le
    (told.answer_whole request child position (connected_before connected)).length_le

/-- There is a child for every request. -/
private theorem request_there {number : Nat}
    (member : number ∈ List.range' 1 (requestsOn attempts conn).length) :
    number ≠ 0 ∧ requestOf? attempts ⟨conn, number⟩ = (requestsOn attempts conn)[number - 1]? ∧
      ∃ gk, requestOf? attempts ⟨conn, number⟩ = some gk := by
  obtain ⟨positive, below⟩ := List.mem_range'_1.mp member
  have child : number ≠ 0 := by omega
  have inside : number - 1 < (requestsOn attempts conn).length := by omega
  have same : requestOf? attempts ⟨conn, number⟩ = (requestsOn attempts conn)[number - 1]? :=
    if_neg child
  exact ⟨child, same, _, same.trans (List.getElem?_eq_getElem inside)⟩

/-- The replies, by the numbers of the children. -/
private theorem replies_places (site : Text → Option Text) (log : List Event) (count : Nat) :
    ((requestsOn attempts conn).take count).flatMap (replyTo site log) =
    (List.range' 1 ((requestsOn attempts conn).take count).length).flatMap fun number =>
      (requestOf? attempts ⟨conn, number⟩).elim [] (replyTo site log) := by
  rw [← flatMap_places]
  refine List.flatMap_congr fun number member => ?_
  obtain ⟨positive, below⟩ := List.mem_range'_1.mp member
  rw [List.length_take] at below
  have within : number ∈ List.range' 1 (requestsOn attempts conn).length := by
    rw [List.mem_range'_1]
    omega
  rw [(request_there within).2.1, List.getElem?_take_of_lt (by omega)]

/-- As long as the files do not change, writes of bodies write at least one character, nobody is
handed `NULL` before the end of a file and heads are written whole, the bytes on every connection
are what the answers to its requests begin with, and no more is missing than what has not been
finalised. -/
theorem exchange (run : Run program attempts (.ok server))
    (onSite : ∀ attempt ∈ attempts, OnSite site attempt.1 attempt.2)
    (undisturbed : ∀ attempt ∈ attempts, Undisturbed (contentsOf site) attempt.1 attempt.2)
    (reports : ∀ attempt ∈ attempts, ReportsWhole attempt.1 attempt.2)
    (plain : ∀ use, Looked server.client.log use → use.Plain) :
    Exchanged site attempts server.client.log := by
  have sound := run_keeps run fun attempt member => (onSite attempt member).provides
  have lawful := sound.1.lawful
  obtain ⟨tidy, whole⟩ := run_tidy run onSite undisturbed reports plain
  obtain ⟨once, headed⟩ := reachable_headed ⟨attempts, run⟩
  have identified := run_identified run
  have told : Exchanging site attempts server.client.log :=
    ⟨lawful, ofSite_carries plain, tidy.ends, once, headed, whole, identified.heads,
      run_replies run, run_answered run⟩
  have bytes (conn : Nat) : bytesOn conn server.client.log =
      (List.range' 1 (requestsOn attempts conn).length).flatMap fun number =>
        answer ⟨conn, number⟩ server.client.log := by
    rw [sound.answers conn, identified.made conn]
  refine ⟨fun conn => ?_, fun conn count connected finalised => ?_,
    fun uri vern head looked stored => ?_⟩
  · rw [bytes, ← List.take_length (l := requestsOn attempts conn), replies_places, List.take_length]
    refine flatMap_begins (fun number member => ?_)
      (List.Pairwise.imp_of_mem ?_ List.pairwise_lt_range')
    · obtain ⟨_, _, gk, request⟩ := request_there member
      rw [request]
      exact told.answer_begins request
    · intro one two first _ less some'
      obtain ⟨child, _, gk, request⟩ := request_there first
      rw [request]
      -- Something of the later answer is written, when the earlier child is finalised.
      obtain ⟨event, member, sends⟩ : ∃ event ∈ server.client.log,
          event.sends ⟨conn, two⟩ ≠ [] := by
        simpa [answer, List.flatMap_eq_nil_iff] using some'
      cases event with
      | written pk part data count =>
        simp only [Event.sends] at sends
        split at sends
        · rename_i own
          subst own
          obtain ⟨earlier, later, shape⟩ := List.append_of_mem member
          have finalised := turns_taken lawful earlier _ later shape one (by omega) less
          obtain ⟨_, connected, _⟩ := lawful earlier _ later shape
          exact told.passed request child finalised (shape ▸ List.prefix_append ..) connected
        · exact absurd rfl sends
      | accepted | created | activated | rearmed | finalised | closed | asked | reserved | loading
      | put | cancelled | delivered | aborted | released => exact absurd rfl sends
  · rw [bytes, replies_places]
    have shorter : ((requestsOn attempts conn).take count).length ≤
        (requestsOn attempts conn).length := List.length_take_le' ..
    obtain ⟨rest, more⟩ := Nat.exists_eq_add_of_le shorter
    have answered : (List.range' 1 ((requestsOn attempts conn).take count).length).flatMap
        (fun number => answer ⟨conn, number⟩ server.client.log) =
        (List.range' 1 ((requestsOn attempts conn).take count).length).flatMap fun number =>
          (requestOf? attempts ⟨conn, number⟩).elim [] (replyTo site server.client.log) := by
      refine List.flatMap_congr fun number member => ?_
      obtain ⟨positive, below⟩ := List.mem_range'_1.mp member
      have within : number ∈ List.range' 1 (requestsOn attempts conn).length :=
        List.mem_range'_1.mpr ⟨positive, by omega⟩
      obtain ⟨child, _, gk, request⟩ := request_there within
      have gone : .finalised ⟨conn, number⟩ ∈ server.client.log := by
        rw [List.length_take] at below
        rw [← mem_finalisedOf, finalised, List.mem_range'_1]
        omega
      rw [request]
      exact told.passed request child gone List.prefix_rfl connected
    rw [more, ← List.range'_append_1, List.flatMap_append, answered]
    exact List.prefix_append ..
  · obtain ⟨earlier, loader, later, use, shape, asked, isGood⟩ := stored_put lawful stored
    have before : earlier <+: server.client.log := shape ▸ List.prefix_append ..
    rw [shape] at lawful
    obtain ⟨found, member⟩ := asked_of_story asked
    exact ofSite_carries plain use (.head uri vern) ⟨_, _, _, before.subset member⟩ looked
      (ask_key lawful.before asked).symm head isGood

/-- A file of three characters, and nothing else. -/
private def oneFile (path : Text) : Option Text :=
  if path = "a".toList then some "abc".toList else none

/-- Three requests that are read at once: for the file, for what is not there and a bad one. -/
private def threeAnswers : List Step :=
  asking "GET /a HTTP/1.1\r\n\r\nGET /b HTTP/1.1\r\n\r\nGET /a HTTP/3.0\r\n\r\n".toList fileOf3 ++
    [.complete 0 (.wrote 107) fileOf3, .complete 0 (.read "abc".toList []) fileOf3,
      .complete 0 (.wrote 3) fileOf3, .complete 0 (.read [] []) fileOf3,
      .complete 0 (.wrote 0) fileOf3, .run 0 bare, .complete 0 (.wrote 26) bare, .run 0 fileOf3,
      .complete 0 (.wrote 28) fileOf3]

instance (server : Server) : DecidablePred (ReportsWhole server) := fun step =>
  decidable_of_iff (∀ report ∈ step.headWrite server, report.2.2 = report.2.1.length)
    ⟨fun all pk data nbytes writes => all (pk, data, nbytes) writes,
      fun all _ writes => all _ _ _ writes⟩

/-- All three of them are answered. -/
theorem exchange_three : ∃ attempts server, Run program attempts (.ok server) ∧
    bytesOn 0 server.client.log =
      head200 1 [] [] 3 ++ "abc".toList ++ head404 1 ++ answer400 ∧
    Exchanged oneFile attempts server.client.log := by
  have shown : (program.replay program.start threeAnswers).map
      (fun server => (bytesOn 0 server.client.log, server.client.log.filterMap Event.use?)) =
      .ok (head200 1 [] [] 3 ++ "abc".toList ++ head404 1 ++ answer400,
        [.head "a".toList 1, .head "a".toList 1, .body "a".toList 0, .body "a".toList 0,
          .body "a".toList 3, .body "a".toList 3, .head "b".toList 1, .head "b".toList 1]) := by
    decide +kernel
  obtain ⟨server, run, seen⟩ := Run.shown (by decide +kernel) shown
  obtain ⟨bytes, uses⟩ := Prod.mk.inj seen
  refine ⟨_, server, run, bytes, exchange run (by decide +kernel) (by decide +kernel)
    (by decide +kernel) fun use looked => ?_⟩
  rw [looked_iff, uses] at looked
  simp only [List.mem_cons, List.not_mem_nil, or_false] at looked
  rcases looked with rfl | rfl | rfl | rfl | rfl | rfl | rfl | rfl <;>
    exact ⟨by decide, by decide⟩

end EventDisp.Server
