import EventDisp.HttpBodies

/-! The handlers of a request up to its head: a connection is accepted, requests are
read and parsed, and the head of an answer is looked up or made. -/
namespace EventDisp.Server

open Outcome

variable {http after : Http} {pk : PackagePtr} {key : Key}
variable {cache next : Cache Key Text Callback} {cn : Conn} {done : Nat} {hpkg : HPKG}
  {good : KeyUse → Text → Prop}
variable {around : Surroundings} {uri : Text}

/-- The head that is made for a URI. -/
def headOf (vern : Nat) (around : Surroundings) : Text :=
  match around.file with
  | none => head404 vern
  | some stat => head200 vern around.date stat.lastModified stat.size

/-- A handler that does not touch the cache passes the work of the package at hand on. -/
theorem Hand.applies {reason : Prop} {issues : Aio → Prop} {handler : Http → Except Fault Http}
    (hand : Hand good none (queues cache) cache http pk cn done hpkg) (stocked : Stocked cache http)
    (told : Told http.log pk hpkg)
    (passes : ∃ after, handler http = .ok after ∧ Passes reason issues pk http after)
    (because : reason → MayEnd pk http.log)
    (issued : ∀ aio, issues aio → aio.Told http.log ∧ aio.key http.log = none) :
    Ends (· = .nullAccess) (apart handler ⟨cache, http⟩) (Sound good) := by
  obtain ⟨after, ran, passes⟩ := passes
  have passed := hand.passes told passes because issued
  simp only [apart, ran, bind, Except.bind]
  exact Ends.ok ⟨passed.lives, stocked.same (by rw [passed.held, List.append_nil])⟩

/-- The root goes on reading. -/
theorem read_sound (hand : Hand good none (queues cache) cache http pk cn done hpkg)
    (stocked : Stocked cache http) (told : Told http.log pk hpkg) (root : pk.number = 0)
    (around : Surroundings) :
    Ends (· = .nullAccess) (apart (svrHttpRead around pk) ⟨cache, http⟩) (Sound good) := by
  have passes : ∃ after, svrHttpRead around pk http = .ok after ∧
    Passes False (· = .readRequest pk) pk http after :=
    read_passes hand.runs hand.serves root around
  apply hand.applies stocked told passes nofun
  rintro _ rfl
  exact ⟨trivial, rfl⟩

/-- Requests have been read. -/
theorem parseAio_sound (hand : Hand good none (queues cache) cache http pk cn done hpkg)
    (stocked : Stocked cache http) (told : Told http.log pk hpkg) (root : pk.number = 0)
    (bytes : Text) (around : Surroundings) :
    Ends (· = .nullAccess) (svrHttpParseAio around pk bytes ⟨cache, http⟩) (Sound good) := by
  have may : MayEnd pk http.log := fun child => absurd root child
  by_cases closes : cn.closesWrite = true
  · simp only [svrHttpParseAio, Http.package, Http.connection, hand.there, hand.runs.1, closes,
      if_true, bind, Except.bind]
    exact hand.applies stocked told (final_passes hand.runs (fun _ => hand.serves) around
      (fun _ => False) trivial)
      (fun _ => may) fun _ => False.elim
  · let parsing : HPKG :=
      { hpkg with hst := .parsing, chead := some bytes, cheadSize := subSize bytes.length 1 }
    have hand' := hand.setPackage parsing ⟨rfl, rfl, rfl⟩
    have told' : Told (http.setPackage pk parsing).log pk parsing :=
      told.like ⟨rfl, rfl, rfl, rfl, rfl⟩
    simp only [svrHttpParseAio, Http.package, Http.connection, hand.there, hand.runs.1, closes,
      if_false, bind, Except.bind,
      Bool.false_eq_true]
    split
    · obtain ⟨after, ran, sound⟩ :=
        finalAio_root hand' (stocked.same rfl) told' root (.inr rfl) around
      rw [ran]
      exact Ends.ok sound
    · exact hand'.applies (stocked.same rfl) told'
        (parse_passes hand'.runs hand'.serves root hand'.there rfl around (fun _ => False)
        (fun _ => trivial)) (fun _ => may) fun _ => False.elim

/-- A head is put for all who wait for it. -/
private theorem Reserved.puts {vern : Nat} {changed : HPKG} {chead : Text}
    (reserved : Reserved good (.head uri vern) pk cn done hpkg cache next after)
    (links : changed.ppg = hpkg.ppg ∧ changed.nsg = hpkg.nsg ∧ changed.lcg = hpkg.lcg)
    (same : changed.uri = hpkg.uri) (trOffset : changed.trOffset = hpkg.trOffset)
    (headkey : changed.headkey = hpkg.headkey)
    (bodykey : changed.bodykey = hpkg.bodykey) (opened : ∀ path, changed.hfd = some path →
    changed.uri = some path)
    (fits : Fits cn changed (.wait (headKey uri) (.headerWio pk)))
    (isGood : good (.head uri vern) chead)
    (around : Surroundings) :
    Ends (· = .nullAccess) (putHead around pk changed chead
    (emit (.loading pk (headKey uri)) ⟨next, after⟩)) (Sound good) := by
  obtain ⟨hand, stocked, told, waits, state, asked, ⟨ref, sets⟩, queue⟩ := reserved
  simp only [KeyUse.key, KeyUse.callback] at hand waits state asked sets queue
  have loader : (slot (headKey uri) after.log).loader = some pk := by rw [state]
  have still (key : Key) : slot key (after.log ++ [.loading pk (headKey uri)]) =
    slot key after.log := by
    rw [slot_concat]
    rfl
  have stories : story pk (after.log ++ [.loading pk (headKey uri)]) = story pk after.log := by
    rw [story_concat, storyAfter]
    split <;> rfl
  obtain ⟨loading, held'⟩ := hand.emit fits.1 (.loading pk (headKey uri)) rfl loader
    (fun _ => by rw [status_concat]; rfl) fun key _ => still key
  let filling : HPKG := { changed with chead := some chead, cheadSize := chead.length }
  have ready : Hand good (some (headKey uri)) (queues cache) next
    ((after.emit (.loading pk (headKey uri))).setPackage pk filling)
      (Callback.headerWio pk).pk cn done filling := loading.setPackage filling links
  have told' : Told ((after.emit (.loading pk (headKey uri))).setPackage pk filling).log pk
    filling :=
    (told.same stories).reopen same trOffset headkey bodykey opened
  have given : good (.head uri vern) (chead.take chead.length) := by
    rw [List.take_length]
    exact isGood
  have puts :=
    ready.puts (stocked.same held') told' fits (waits.congr stories) sets.found rfl rfl queue
    (by rw [setPackage_log, emit_log, still]; exact loader)
    (by rw [setPackage_log, emit_log]; exact stories ▸ asked)
    given around
  rw [List.take_length] at puts
  have own : changed.headkey = some (headKey uri) := fits.2.2.2.2
  unfold putHead
  split
  · rename_i nothing
    rw [own] at nothing
    cases nothing
  · rename_i key some'
    rw [own] at some'
    cases some'
    apply puts.bind
    intro result _ passed
    obtain ⟨result, after⟩ := result
    obtain ⟨put, sound, remain⟩ := passed
    obtain ⟨hpkg, there⟩ :=
      Option.isSome_iff_exists.mp (remain pk (by rw [setPackage_packages, if_pos rfl]; rfl))
    dsimp only at put sound there
    rw [put]
    simp only [Bool.true_eq_false, if_false, Http.package, there, bind, Except.bind]
    exact Ends.ok (sound.flag there true hpkg.cbodyCached)

/-- The head is made. -/
private theorem headerRio_sound
    (reserved : Reserved good (.head uri hpkg.vern) pk cn done hpkg cache next after)
    (fits : Fits cn hpkg (.wait (headKey uri) (.headerWio pk))) (unopened : hpkg.hfd = none)
    (empty : hpkg.chead = none) (trOffset : hpkg.trOffset = 0) (known : hpkg.uri = some uri)
    (isGood : good (.head uri hpkg.vern) (headOf hpkg.vern around)) :
    Ends (· = .nullAccess) (svrHttpHeaderRio around pk ⟨next, after⟩) (Sound good) := by
  have headkey : hpkg.headkey.getD [] = headKey uri := by rw [fits.2.2.2.2]; rfl
  unfold svrHttpHeaderRio
  simp only [Http.package, reserved.hand.there, unopened, Option.isNone_none, if_true, headkey,
    bind, Except.bind]
  cases file : around.file with
  | none =>
    simp only [headOf, file] at isGood
    simp only [Option.bind_none]
    refine reserved.puts ?_ ?_ ?_ ?_ ?_ ?_ ?_ isGood around
    · exact ⟨rfl, rfl, rfl⟩
    · rfl
    · rfl
    · rfl
    · rfl
    · intro path here
      cases here
    · exact ⟨fits.1, fits.2.1, rfl, rfl, fits.2.2.2.2⟩
  | some stat =>
    simp only [headOf, file] at isGood
    have stat' : around.fstat = stat := by rw [Surroundings.fstat, file, Option.getD_some]
    simp only [Option.bind_some, stat']
    split
    · rename_i nothing
      rw [known] at nothing
      cases nothing
    · split
      · rename_i full
        rw [empty] at full
        cases full
      · refine reserved.puts ?_ ?_ ?_ ?_ ?_ ?_ ?_ isGood around
        · exact ⟨rfl, rfl, rfl⟩
        · rfl
        · exact trOffset.symm
        · rfl
        · rfl
        · intro path here
          exact here
        · exact ⟨fits.1, fits.2.1, rfl, rfl, fits.2.2.2.2⟩

/-- The head is looked up, or made. -/
theorem header_sound (hand : Hand good none (queues cache) cache http pk cn done hpkg)
    (stocked : Stocked cache http) (told : Told http.log pk hpkg) (child : pk.number ≠ 0)
    (fresh : hpkg.Fresh) (known : hpkg.uri = some uri) (around : Surroundings)
    (isGood : good (.head uri hpkg.vern) (headOf hpkg.vern around)) :
    Ends (· = .nullAccess) (svrHttpHeader around pk ⟨cache, http⟩) (Sound good) := by
  let fetching : HPKG := { hpkg with hst := .fetching, wst := .head }
  by_cases closes : cn.closesWrite = true
  · have hand' := hand.setPackage fetching ⟨rfl, rfl, rfl⟩
    obtain ⟨after, ran, sound⟩ :=
      hand'.ends (stocked.same rfl) (told.like ⟨rfl, rfl, rfl, rfl, rfl⟩) (hand'.mayEnd closes)
        around
    simp only [svrHttpHeader, Http.package, Http.connection, hand.there, setPackage_conns,
      hand.runs.1, closes, if_true, bind,
      Except.bind, apart, ran, fetching]
    exact sound
  · let seeking : HPKG := { fetching with headkey := some (headKey uri) }
    have hand' := hand.setPackage seeking ⟨rfl, rfl, rfl⟩
    have unasked := told.unasked fresh.headkey
    have fits : Fits cn seeking (.wait (headKey uri) (.headerWio pk)) :=
      ⟨child, hand.serves.connected closes, rfl, rfl, rfl⟩
    have seeks : Seeks cn seeking (.head uri hpkg.vern) pk http.log := by
      refine ⟨fits, ?_, told.offset, known, ?_, told.opened⟩
      · intro key use asked
        rw [unasked] at asked
        cases asked
      · intro nothing
        cases nothing
    have sought := hand'.seek (stocked.same rfl) seeks around .headReserved .headQueued
      (svrHttpHeaderRio around pk)
      fun next after reserved => headerRio_sound reserved fits fresh.hfd fresh.chead fresh.trOffset
      known isGood
    simp only [svrHttpHeader, Http.package, Http.connection, hand.there, setPackage_conns,
      hand.runs.1, closes, if_false,
      known, setPackage_setPackage, bind, Except.bind, Bool.false_eq_true]
    simp only [known, bind, Except.bind, seeking, fetching] at sought
    exact sought

/-- A child's request is answered. -/
theorem fetch_sound (hand : Hand good none (queues cache) cache http pk cn done hpkg)
    (stocked : Stocked cache http) (told : Told http.log pk hpkg) (child : pk.number ≠ 0)
    (fresh : hpkg.Fresh) (around : Surroundings)
    (isGood : ∀ uri vern, hpkg.uri = some uri → good (.head uri vern) (headOf vern around)) :
    Ends (· = .nullAccess) (svrHttpFetch around pk ⟨cache, http⟩) (Sound good) := by
  by_cases closes : cn.closesWrite = true
  · simp only [svrHttpFetch, Http.package, Http.connection, hand.there, hand.runs.1, closes,
      if_true, bind, Except.bind]
    exact hand.applies stocked told (final_passes hand.runs (fun _ => hand.serves) around
      (fun _ => False) closes) hand.mayEnd
      fun _ => False.elim
  · let fetching : HPKG := { hpkg with hst := .fetching, wst := .head, hsn := .unknown }
    have hand' := hand.setPackage fetching ⟨rfl, rfl, rfl⟩
    have told' : Told (http.setPackage pk fetching).log pk fetching :=
      told.like ⟨rfl, rfl, rfl, rfl, rfl⟩
    have bad : Ends (· = .nullAccess) (apart (svrHttpWrite400 around pk)
      ⟨cache, http.setPackage pk fetching⟩) (Sound good) := by
      refine hand'.applies (stocked.same rfl) told'
        (write400_passes hand'.runs hand'.serves hand'.there child fresh.headkey around
        id) hand'.mayEnd ?_
      rintro _ rfl
      exact ⟨⟨told.unasked fresh.headkey, rfl⟩, rfl⟩
    have answers (uri : Text) (known : hpkg.uri = some uri) (vern : Nat) : Ends (· = .nullAccess)
        (svrHttpHeader around pk ⟨cache,
          (http.setPackage pk fetching).setPackage pk { fetching with vern }⟩) (Sound good) :=
      header_sound (hand'.setPackage { fetching with vern } ⟨rfl, rfl, rfl⟩) (stocked.same rfl)
        (told'.like ⟨rfl, rfl, rfl, rfl, rfl⟩) child ⟨fresh.chead, fresh.headkey, fresh.bodykey,
        fresh.hfd, fresh.trOffset⟩ known
        around (isGood uri vern known)
    simp only [svrHttpFetch, Http.package, Http.connection, hand.there, hand.runs.1, closes,
      Bool.false_eq_true, if_false, bind,
      Except.bind]
    split
    · rename_i uri _ _ known
      split
      · exact answers uri known 0
      · split
        · exact answers uri known 1
        · exact bad
    · exact bad

end EventDisp.Server
