import EventDisp.HttpInvariant

/-! What the package at hand may do without anybody else noticing, and how it passes
its work on. -/
namespace EventDisp.Server

variable {http after : Http} {conn : Nat} {pk other : PackagePtr} {key : Key}
  {log events : List Event}
variable {event : Event} {waiting : Key → List Callback} {tasks : List Task}
variable {aios : List Aio} {work : Work} {cache : Cache Key Text Callback} {loading : Option Key}
  {hpkg : HPKG}
variable {good : KeyUse → Text → Prop} {reason : Prop} {issues : Aio → Prop} {callback : Callback}
  {cn : Conn}

theorem Told.congr {more : List Event} (told : Told log pk hpkg)
    (ask : (story pk more).ask = (story pk log).ask)
    (streamed : (story pk more).streamed = (story pk log).streamed) : Told more pk hpkg := by
  refine ⟨?_, ?_, ?_, ?_, ?_, told.opened⟩
  · rw [streamed]
    exact told.offset
  · rw [ask]
    exact told.asked
  · rw [ask]
    exact told.head
  · rw [ask]
    exact told.body
  · rw [ask]
    exact told.unasked

theorem Told.same {more : List Event} (told : Told log pk hpkg)
    (same : story pk more = story pk log) :
    Told more pk hpkg :=
  told.congr (by rw [same]) (by rw [same])

theorem Told.like {old : HPKG} (told : Told log pk old) (like : old.Like hpkg) :
    Told log pk hpkg := by
  refine ⟨?_, ?_, ?_, ?_, ?_, ?_⟩
  · rw [like.trOffset]
    exact told.offset
  · rw [like.uri]
    exact told.asked
  · rw [like.headkey]
    exact told.head
  · rw [like.bodykey]
    exact told.body
  · rw [like.headkey]
    exact told.unasked
  · rw [like.hfd, like.uri]
    exact told.opened

/-- A package for which nothing has been done. -/
theorem Told.blank (blank : hpkg.Blank)
    (unmade : (story pk log).ask = none ∧ (story pk log).streamed = []) :
    Told log pk hpkg := by
  obtain ⟨unasked, nothing⟩ := unmade
  refine ⟨?_, ?_, ?_, ?_, fun _ => unasked, ?_⟩
  · rw [nothing]
    exact blank.trOffset
  · simp [unasked]
  · simp [unasked]
  · simp [unasked]
  · simp [blank.hfd]

/-- The history grows, and tells the same of the package. -/
theorem Aio.Told.grow {aio : Aio} {more : List Event} (told : aio.Told log)
    (same : story aio.pk more = story aio.pk log)
    (stored : ∀ key data, (slot key log).stored = some data → (slot key more).stored = some data)
    (loader : ∀ key, (slot key log).loader = some aio.pk → (slot key more).loader = some aio.pk) :
    aio.Told more := by
  cases aio with
  | readRequest => trivial
  | writeHead pk data =>
    obtain ⟨key, uri, vern, asked, holds, positive⟩ := told
    simp only [Aio.pk] at same
    rw [← same] at asked positive
    exact ⟨key, uri, vern, asked, stored key data holds, positive⟩
  | write400 pk data =>
    obtain ⟨unasked, text⟩ := told
    simp only [Aio.pk] at same
    rw [← same] at unasked
    exact ⟨unasked, text⟩
  | readBody pk hfd offset =>
    obtain ⟨key, uri, asked, loads, opened⟩ := told
    simp only [Aio.pk] at same
    rw [← same] at asked
    exact ⟨key, uri, asked, loader key loads, opened⟩
  | writeBody pk data =>
    obtain ⟨key, uri, asked, holds, positive⟩ := told
    simp only [Aio.pk] at same
    rw [← same] at asked positive
    exact ⟨key, uri, asked, stored key data holds, positive⟩

theorem Callback.Told.congr {more : List Event} (told : callback.Told log key)
    (same : story callback.pk more = story callback.pk log) : callback.Told more key := by
  cases callback with
  | headerWio pk =>
    obtain ⟨uri, vern, asked⟩ := told
    simp only [Callback.pk] at same
    exact ⟨uri, vern, by rw [same]; exact asked⟩
  | bodyWio pk =>
    obtain ⟨uri, asked⟩ := told
    simp only [Callback.pk] at same
    exact ⟨uri, by rw [same]; exact asked⟩

theorem Aio.key_congr {aio : Aio} {more : List Event}
    (same : story aio.pk more = story aio.pk log) :
    aio.key more = aio.key log := by
  cases aio with
  | writeHead pk data | writeBody pk data =>
    simp only [Aio.pk] at same
    simp only [Aio.key, same]
  | readRequest | write400 | readBody => rfl

/-- The package at hand reads and writes nothing. -/
theorem Lives.idle (lives : Lives good (some pk) loading waiting cache http) {aio : Aio}
    (member : aio ∈ http.aios) :
    aio.pk.conn ≠ pk.conn := by
  cases shows : aio.work with
  | some work => exact lives.keeps.idleAio member shows
  | none =>
    cases aio with
    | readBody reader hfd offset =>
      obtain ⟨key, apart, loads⟩ :=
        lives.loads.reads reader (List.mem_filterMap.mpr ⟨_, member, rfl⟩)
      have agrees := lives.loads.agrees key apart
      have waits : .bodyWio reader ∈ waiting key := by
        rw [agrees.waiting]
        exact List.mem_of_mem_head? (agrees.loads reader loads).2
      exact lives.keeps.idleWait waits
    | readRequest | writeHead | write400 | writeBody => cases shows

/-- What the package at hand does changes no references of others. -/
theorem Lives.keys (lives : Lives good (some pk) loading waiting cache http)
    (stories : ∀ other : PackagePtr, other.conn ≠ pk.conn →
      story other log = story other http.log) :
    http.aios.filterMap (Aio.key log) = held http :=
  List.filterMap_congr fun _ member => Aio.key_congr (stories _ (lives.idle member))

/-- A step that leaves a key alone. -/
theorem Agrees.same (agrees : Agrees waiting cache http key)
    (same : slot key after.log = slot key http.log)
    (reading : ∀ reader ∈ readers http, reader ∈ readers after) :
    Agrees waiting cache after key := by
  refine ⟨?_, agrees.waiting, ?_, ?_, ?_, ?_⟩ <;> rw [same]
  · exact agrees.reserved
  · exact agrees.waiters
  · intro reader loads
    exact ⟨reading reader (agrees.loads reader loads).1, (agrees.loads reader loads).2⟩
  · exact agrees.stored
  · exact agrees.absent

/-- Nobody else sees what a step does that leaves the keys alone. -/
theorem Loads.same (loads : Loads loading waiting cache http)
    (slots : ∀ key, loading ≠ some key → slot key after.log = slot key http.log)
    (reading : readers after = readers http) :
    Loads loading waiting cache after := by
  refine ⟨fun key apart => (loads.agrees key apart).same
    (slots key apart) fun reader reads => by rwa [reading],
    ?_, ?_⟩
  · intro reader reads
    rw [reading] at reads
    obtain ⟨key, apart, loader⟩ := loads.reads reader reads
    refine ⟨key, apart, ?_⟩
    rw [slots key apart]
    exact loader
  · rw [reading]
    exact loads.distinct

theorem Same.setPackage {conn : Nat} (different : conn ≠ pk.conn) :
    Same conn http (http.setPackage pk hpkg) := by
  refine ⟨rfl, ?_, [], by simp, by simp [Silent]⟩
  intro number
  rw [setPackage_packages, if_neg]
  rintro rfl
  exact different rfl

/-- The package at hand is changed. -/
theorem Lives.setPackage (lives : Lives good (some pk) loading waiting cache http) (hpkg : HPKG) :
    Lives good (some pk) loading waiting cache (http.setPackage pk hpkg) := by
  obtain ⟨keeps, loads, tells, lawful⟩ := lives
  refine ⟨keeps.same (fun other different => .setPackage different) fun _ => rfl,
    loads.same (fun _ _ => rfl) rfl, { tells with
    packages := ?_ }, lawful⟩
  intro other found away there
  rw [setPackage_packages, if_neg fun same => away (congrArg some same.symm)] at there
  exact tells.packages other found away there

/-- Events about what packages do change nothing in which packages there are. -/
theorem Same.emit (http : Http) (conn : Nat) {event : Event} (about : event.apart = false) :
    Same conn http (http.emit event) :=
  ⟨rfl, fun _ => rfl, [event], rfl, by simp [Silent, about]⟩

theorem Event.told {event : Event} (teller : event.teller = some pk) : event.conn = pk.conn ∧
    event.apart = false := by
  cases event <;> first | (cases teller; exact ⟨rfl, rfl⟩) | cases teller

/-- The history tells everything else as before after an event of the package at hand. -/
theorem Lives.tellsOn (lives : Lives good (some pk) loading waiting cache http)
    (teller : event.teller = some pk) (made : .created pk ∈ http.log)
    (last : Lawful good http.log event)
    (statuses : ∀ conn, status conn (http.log ++ [event]) = status conn http.log) :
    Tells (some pk) waiting (http.emit event) := by
  obtain ⟨own, about⟩ := Event.told teller
  have others {other : PackagePtr} (different : other ≠ pk) : event.teller ≠ some other := by
    rw [teller]
    rintro ⟨⟩
    exact different rfl
  have away {other : PackagePtr} (different : other.conn ≠ pk.conn) : event.teller ≠ some other :=
    others fun same => different (congrArg PackagePtr.conn same)
  have tells := lives.tells
  refine ⟨?_, ?_, ?_, ?_,
    ?_, ?_, ?_⟩
  · intro other hpkg apart there
    exact (tells.packages other hpkg apart there).same
      (story_other (others fun same => apart (congrArg some same.symm)))
  · intro aio member
    have apart := away (lives.idle member)
    exact (tells.aios aio member).grow (story_other apart)
      (fun key => (slot_stays lives.lawful last).1)
      fun key => (slot_stays lives.lawful last).2 aio.pk apart
  · intro key callback member
    exact (tells.waits key callback member).congr (story_other (away (lives.keeps.idleWait member)))
  · intro other unmade
    have before : .created other ∉ http.log := fun member => unmade (List.mem_append_left _ member)
    have apart : other ≠ pk := by
      rintro rfl
      exact before made
    rw [emit_log, story_other (others apart)]
    exact tells.unmade other before
  · intro conn cn found
    rw [emit_log, statuses]
    exact tells.conns conn cn found
  · intro inner member
    rw [emit_log] at member ⊢
    apply List.mem_append_left _
    rcases List.mem_append.mp member with old | new
    · exact tells.known inner old
    · rw [List.mem_singleton.mp new, own]
      exact tells.known _ made
  · intro conn accepted
    refine tells.ahead conn ((List.mem_append.mp accepted).resolve_right fun new => ?_)
    rw [← List.mem_singleton.mp new] at about
    cases about

/-- An event of the package at hand, about no key but the one being loaded. -/
theorem Lives.emit (lives : Lives good (some pk) loading waiting cache http)
    (teller : event.teller = some pk) (made : .created pk ∈ http.log)
    (last : Lawful good http.log event)
    (statuses : ∀ conn, status conn (http.log ++ [event]) = status conn http.log)
    (slots : ∀ key, loading ≠ some key → slot key (http.log ++ [event]) = slot key http.log) :
    Lives good (some pk) loading waiting cache (http.emit event) :=
  ⟨lives.keeps.same (fun _ _ => .emit http _ (Event.told teller).2) fun _ => rfl,
    lives.loads.same slots rfl,
    lives.tellsOn teller made last statuses, History.throughout_concat.mpr ⟨lives.lawful, last⟩⟩

/-- An event changes no references of others. -/
theorem Lives.emit_held (lives : Lives good (some pk) loading waiting cache http)
    (teller : event.teller = some pk) :
    held (http.emit event) = held http :=
  lives.keys fun other different => story_other (by
    rw [teller]
    rintro ⟨⟩
    exact different rfl)

/-- The history still tells everything when the package at hand has moved on. -/
private theorem Tells.moves (tells : Tells (some pk) waiting http)
    (moves : Moves pk.conn http after tasks aios events)
    (known : .accepted pk.conn ∈ http.log) (own : ∀ hpkg, http.packages pk = some hpkg →
    Told http.log pk hpkg)
    (added : ∀ aio ∈ aios, aio.Told http.log) : Tells none waiting after := by
  have apart : ∀ event ∈ events, event.apart = true :=
    fun event member => (moves.events event member).2
  obtain ⟨stories, slots, statuses⟩ := apart_tells apart http.log
  rw [← moves.log] at stories slots statuses
  have told : ∀ other hpkg, http.packages other = some hpkg → Told http.log other hpkg := by
    intro other hpkg there
    by_cases here : other = pk
    · exact here ▸ own hpkg (here ▸ there)
    · exact tells.packages other hpkg (fun same => here (Option.some.inj same).symm) there
  refine ⟨?_, ?_, ?_, ?_,
    ?_, ?_, ?_⟩
  · intro other hpkg _ there
    by_cases elsewhere : other.conn = pk.conn
    · obtain ⟨conn, number⟩ := other
      obtain rfl : conn = pk.conn := elsewhere
      rcases moves.kin number hpkg there with ⟨old, before, like⟩ | ⟨blank, _, new⟩
      · exact ((told _ old before).like like).same (stories _)
      · refine .blank blank ?_
        rw [stories]
        exact tells.unmade _ new
    · rw [moves.packages other elsewhere] at there
      exact (told other hpkg there).same (stories _)
  · intro aio member
    have before : aio.Told http.log := by
      rw [moves.aios] at member
      exact (List.mem_append.mp member).elim (tells.aios aio) (added aio)
    exact before.grow (stories _) (fun key data => by rw [slots]; exact id) fun key => by
      rw [slots]
      exact id
  · intro key callback member
    exact (tells.waits key callback member).congr (stories _)
  · intro other unmade
    rw [stories]
    refine tells.unmade other fun made => unmade ?_
    rw [moves.log]
    exact List.mem_append_left _ made
  · intro conn cn found
    rw [statuses]
    by_cases here : conn = pk.conn
    · subst here
      obtain ⟨old, there, same⟩ := moves.status cn found
      rw [same]
      exact tells.conns _ old there
    · rw [moves.conns conn here] at found
      exact tells.conns conn cn found
  · intro event member
    rw [moves.log] at member ⊢
    apply List.mem_append_left _
    rcases List.mem_append.mp member with old | new
    · exact tells.known event old
    · rw [(moves.events event new).1]
      exact known
  · intro conn accepted
    rw [moves.nextConn]
    rw [moves.log] at accepted
    rcases List.mem_append.mp accepted with old | new
    · exact tells.ahead conn old
    · obtain rfl : conn = pk.conn := (moves.events _ new).1
      exact tells.ahead _ known

/-- A package that passes its work on does nothing about any key. -/
theorem Passes.keyless (passes : Passes reason issues pk http after) :
    (∀ key, slot key after.log = slot key http.log) ∧ readers after = readers http := by
  have quiet {tasks : List Task} {aios : List Aio} {events : List Event}
      (moves : Moves pk.conn http after tasks aios events)
      (unread : aios.filterMap Aio.reader = []) :
      (∀ key, slot key after.log = slot key http.log) ∧ readers after = readers http := by
    constructor
    · intro key
      rw [moves.log]
      exact (apart_tells (fun event member => (moves.events event member).2) http.log).2.1 key
    · unfold readers
      rw [moves.aios, List.filterMap_append, unread, List.append_nil]
  cases passes with
  | task task events own moves ends ready => exact quiet moves rfl
  | aio aio work events own shows fits moves ends ready =>
    apply quiet moves
    cases aio <;> first | rfl | cases shows
  | closes events moves ends shut => exact quiet moves rfl

/-- The package at hand passes its work on. -/
theorem Lives.passes (lives : Lives good (some pk) loading waiting cache http)
    (passes : Passes reason issues pk http after)
    (known : .accepted pk.conn ∈ http.log) (own : ∀ hpkg, http.packages pk = some hpkg →
    Told http.log pk hpkg)
    (because : reason → MayEnd pk http.log) (issued : ∀ aio, issues aio → aio.Told http.log) :
    Lives good none loading waiting cache after := by
  have lawful {tasks : List Task} {aios : List Aio} {events : List Event}
      (moves : Moves pk.conn http after tasks aios events) (ends : Finalises reason pk events) :
      History.Throughout (Lawful good) after.log := by
    rw [moves.log]
    refine lawful_append lives.lawful (fun event member => (moves.events event member).2)
      fun other member => ?_
    obtain ⟨rfl, holds⟩ := ends other member
    exact because holds
  have keeps := lives.keeps.passes passes
  have loads := lives.loads.same (fun key _ => passes.keyless.1 key) passes.keyless.2
  cases passes with
  | task task events own' moves ends ready =>
    exact ⟨keeps, loads, lives.tells.moves moves known own (by simp), lawful moves ends⟩
  | aio aio work events own' shows fits moves ends ready =>
    refine ⟨keeps, loads, lives.tells.moves moves known own ?_, lawful moves ends⟩
    intro new member
    rw [List.mem_singleton.mp member]
    exact issued aio fits
  | closes events moves ends shut =>
    exact ⟨keeps, loads, lives.tells.moves moves known own (by simp), lawful moves ends⟩

/-- The references held after the package has passed its work on. -/
theorem Passes.held (passes : Passes reason issues pk http after) :
    Server.held after = Server.held http ∨ ∃ aio, issues aio ∧
    Server.held after = Server.held http ++ (aio.key http.log).toList := by
  have grown {tasks : List Task} {aios : List Aio} {events : List Event}
      (moves : Moves pk.conn http after tasks aios events) :
      Server.held after = Server.held http ++ aios.filterMap (Aio.key http.log) := by
    have stories := (apart_tells (fun event member => (moves.events event member).2) http.log).1
    unfold Server.held
    rw [moves.aios, moves.log, List.filterMap_append]
    refine congrArg₂ _ ?_ ?_
    · exact List.filterMap_congr fun _ _ => Aio.key_congr (stories _)
    · exact List.filterMap_congr fun _ _ => Aio.key_congr (stories _)
  cases passes with
  | task task events own moves ends ready => exact .inl (by simpa using grown moves)
  | aio aio work events own shows fits moves ends ready =>
    refine .inr ⟨aio, fits, ?_⟩
    rw [grown moves]
    cases held' : aio.key http.log <;> simp [held']
  | closes events moves ends shut => exact .inl (by simpa using grown moves)

end EventDisp.Server
