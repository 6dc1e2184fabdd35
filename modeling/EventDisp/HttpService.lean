import EventDisp.CacheOperations
import EventDisp.General.Outcome
import EventDisp.HttpHands

/-! How the callbacks of the cache are served: the ones that waited when a key is put
or its reservation cancelled, and the one that finds its key at once. While they are
served they do not touch the cache. -/
namespace EventDisp.Server

open Outcome

variable {http after : Http} {pk : PackagePtr} {key : Key} {cn : Conn} {done : Nat} {hpkg : HPKG}
variable {waiting : Key → List Callback} {cache : Cache Key Text Callback} {loading : Option Key}
variable {around : Surroundings} {cd : CacheData Text} {callback : Callback}
  {good : KeyUse → Text → Prop}

/-- What a callback does to everything but the cache. -/
def serve (around : Surroundings) (cd : CacheData Text) : Callback → Http → Except Fault Http
  | .headerWio pk, http => svrHttpHeaderWio around pk cd (http.emit (.delivered pk cd.isCached))
  | .bodyWio pk, http =>
    match cd.data with
    | none => svrHttpFinal around pk (http.emit (.delivered pk cd.isCached))
    | some data => do
      let http := http.emit (.delivered pk cd.isCached)
      let hpkg ← http.package pk
      return (http.setPackage pk { hpkg with hst := .writing, wst := .body }).issue (.writeBody pk (data.take cd.size))

/-- Several callbacks, one after the other. -/
def serveAll (around : Surroundings) (cd : CacheData Text) : List Callback → Http →
    Except Fault Http
  | [], http => .ok http
  | callback :: rest, http => do
    let http ← serve around cd callback http
    serveAll around cd rest http

theorem invoke_serve (found : http.conns callback.pk.conn = some cn)
    (connected : cn.cst = .connected) (there : http.packages callback.pk = some hpkg)
    (around : Surroundings) (cd : CacheData Text) (cache : Cache Key Text Callback) :
    invoke around callback cd ⟨cache, http⟩ = (serve around cd callback http).map
    (Host.mk cache) := by
  have open' : cn.closesWrite = false := by simp [Conn.closesWrite, connected]
  cases callback with
  | headerWio pk => rfl
  | bodyWio pk =>
    simp only [Callback.pk] at there found
    cases data : cd.data with
    | none =>
      simp only [invoke, svrHttpBodyWio, serve, emit, data, Http.package, emit_packages, there,
        bind, Except.bind]
      rfl
    | some data =>
      simp only [invoke, svrHttpBodyWio, serve, emit, data, Http.package, Http.connection,
        emit_packages, emit_conns, there,
        found, open', bind, Except.bind]
      rfl

theorem cancelled_serve (around : Surroundings) (cd : CacheData Text)
    (cache : Cache Key Text Callback) :
    cancelled around callback cd ⟨cache, http⟩ = (serve around ⟨none, 0, false⟩ callback http).map
    (Host.mk cache) := by
  cases callback <;> rfl

theorem serve_head (found : http.conns pk.conn = some cn) (open' : cn.closesWrite = false)
    (there : http.packages pk = some hpkg) {data : Text} (given : cd.data = some data)
    (around : Surroundings) :
    serve around cd (.headerWio pk) http =
      .ok (((http.emit (.delivered pk cd.isCached)).setPackage pk
        { hpkg with hst := .writing, wst := .head, hsn := statusOf data }).issue
          (.writeHead pk (data.take cd.size))) := by
  simp only [serve, svrHttpHeaderWio, Http.package, Http.connection, emit_packages,
    setPackage_conns, emit_conns, there,
    found, open', given, bind, Except.bind, pure, Except.pure, setPackage_setPackage, statusOf]
  rfl

theorem serve_body (there : http.packages pk = some hpkg) {data : Text}
    (given : cd.data = some data) (around : Surroundings) :
    serve around cd (.bodyWio pk) http =
      .ok (((http.emit (.delivered pk cd.isCached)).setPackage pk { hpkg with hst := .writing, wst := .body }).issue
        (.writeBody pk (data.take cd.size))) := by
  simp only [serve, Http.package, emit_packages, there, given, bind, Except.bind, pure, Except.pure]

theorem serve_head_null (found : http.conns pk.conn = some cn) (open' : cn.closesWrite = false)
    (there : http.packages pk = some hpkg) (given : cd.data = none) (around : Surroundings) :
    serve around cd (.headerWio pk) http = .error .nullAccess := by
  simp only [serve, svrHttpHeaderWio, Http.package, Http.connection, emit_packages,
    setPackage_conns, emit_conns, there,
    found, open', given, bind, Except.bind]
  rfl

theorem serve_body_null (given : cd.data = none) (around : Surroundings) :
    serve around cd (.bodyWio pk) http = svrHttpFinal around pk
    (http.emit (.delivered pk cd.isCached)) := by
  simp only [serve, given]

/-- What the buffer says of a head when only a part of it is handed out. -/
theorem statusOf_take {data : Text} {size : Nat} (ok : statusOf (data.take size) = .ok200) :
    statusOf data = .ok200 := by
  unfold statusOf at ok ⊢
  split at ok
  · rename_i same
    have before : (data.take size).drop 9 <+: data.drop 9 := by
      rw [List.drop_take]
      exact List.take_prefix ..
    rw [if_pos (CString.strncmp_prefix before (by decide) same)]
  · split at ok <;> cases ok

/-- What waits is connected. -/
theorem Fits.waits (fits : Fits cn hpkg (.wait key callback)) : callback.pk.number ≠ 0 ∧
    cn.cst = .connected := by
  cases callback <;> exact ⟨fits.1, fits.2.1⟩

/-- A callback is invoked, and nothing else has happened yet. -/
private theorem Hand.delivered (hand : Hand good loading waiting cache http pk cn done hpkg)
    (told : Told http.log pk hpkg) (child : pk.number ≠ 0) (isCached : Bool) :
    Hand good loading waiting cache (http.emit (.delivered pk isCached)) pk cn done hpkg ∧
      held (http.emit (.delivered pk isCached)) = held http ∧
      Told (http.emit (.delivered pk isCached)).log pk hpkg ∧
      (story pk (http.emit (.delivered pk isCached)).log).ask = (story pk http.log).ask ∧
      (story pk (http.emit (.delivered pk isCached)).log).streamed = (story pk http.log).streamed ∧
      ∀ key, slot key (http.emit (.delivered pk isCached)).log = slot key http.log := by
  obtain ⟨delivered, same⟩ := hand.emit child (.delivered pk isCached) rfl trivial
    (fun _ => by rw [status_concat]; rfl) (fun _ _ => by rw [slot_concat]; rfl)
  have ask : (story pk (http.emit (.delivered pk isCached)).log).ask = (story pk http.log).ask ∧
      (story pk (http.emit (.delivered pk isCached)).log).streamed =
      (story pk http.log).streamed := by
    simp only [emit_log, story_concat, storyAfter, Event.teller, if_true, Story.tell]
    split
    · split <;> exact ⟨rfl, rfl⟩
    · exact ⟨rfl, rfl⟩
  exact ⟨delivered, same, told.congr ask.1 ask.2, ask.1, ask.2,
    fun key => by rw [emit_log, slot_concat]; rfl⟩

/-- A reference is obtained with what is delivered. -/
private theorem delivered_refers {use : KeyUse} (lawful : History.Throughout (Lawful good) http.log)
    (asked : (story pk http.log).ask = some (key, use)) :
    0 < (story pk (http.emit (.delivered pk true)).log).references key := by
  have nonneg := references_nonneg lawful pk key
  simp only [emit_log, story_concat, storyAfter, Event.teller, if_true, Story.tell, asked,
    Story.refer,
    Function.update_self]
  omega

/-- The keys to whose slots a callback takes references. -/
def taken (cd : CacheData Text) (key : Key) : List Key := if cd.data.isSome then [key] else []

theorem taken_count (cd : CacheData Text) (key : Key) :
    (taken cd key).count key ≤ 1 ∧ ∀ other, other ≠ key → (taken cd key).count other = 0 := by
  unfold taken
  split
  · exact ⟨by simp, fun other different => by simp [different.symm]⟩
  · simp

/-- No package is deleted. -/
def Remain (http after : Http) : Prop :=
  ∀ other, (http.packages other).isSome = true → (after.packages other).isSome = true

private theorem remain_written (pk : PackagePtr) (hpkg : HPKG) (event : Event) (aio : Aio) :
    Remain http (((http.emit event).setPackage pk hpkg).issue aio) := by
  intro other present
  show (((http.emit event).setPackage pk hpkg).packages other).isSome = true
  rw [setPackage_packages]
  split
  · rfl
  · exact present

/-- A callback writes what it is handed, or finalises its package. -/
theorem Hand.serve (hand : Hand good loading waiting cache http callback.pk cn done hpkg)
    (cd : CacheData Text) (told : Told http.log callback.pk hpkg)
    (fits : Fits cn hpkg (.wait key callback)) (tells : callback.Told http.log key)
    (given : cd.data.map (·.take cd.size) = (slot key http.log).stored)
    (cached : cd.data.isSome = true → cd.isCached = true) (around : Surroundings) :
    Ends (· = .nullAccess) (serve around cd callback http) fun after =>
      Passed good loading waiting cache http after (taken cd key) ∧
      (cd.data.isSome = true → Remain http after) := by
  obtain ⟨child, connected⟩ := fits.waits
  obtain ⟨hand', same, told', ask, streamed, slots⟩ := hand.delivered told child cd.isCached
  have open' : cn.closesWrite = false := by simp [Conn.closesWrite, connected]
  have back {after : Http} {keys : List Key}
      (passed : Passed good loading waiting cache (http.emit (.delivered callback.pk cd.isCached))
        after keys) :
      Passed good loading waiting cache http after keys :=
    ⟨passed.lives, by rw [passed.held, same], fun key => (passed.slots key).trans (slots key), passed.readers⟩
  cases callback with
  | headerWio pk =>
    simp only [Callback.pk] at hand told child hand' told' ask slots back
    cases null : cd.data with
    | none =>
      rw [serve_head_null hand.runs.1 open' hand.there null]
      exact rfl
    | some data =>
      obtain ⟨uri, vern, asked⟩ := tells
      obtain ⟨_, _, _, _, headkey⟩ := fits
      have refers := delivered_refers hand.lives.lawful asked
      rw [null, Option.map_some] at given
      rw [serve_head hand.runs.1 open' hand.there null]
      have passed :=
        hand'.starts told' { hpkg with hst := .writing, wst := .head, hsn := statusOf data }
          ⟨rfl, rfl, rfl⟩
        ⟨rfl, rfl, rfl, rfl, rfl⟩ (.writeHead pk (data.take cd.size))
        (.writeHead pk (data.take cd.size)) rfl rfl
        ⟨child, connected, rfl, rfl, statusOf_take, by simp [headkey]⟩
        ⟨key, uri, vern, by rw [ask]; exact asked, by rw [slots]; exact given.symm, by
          rw [cached (by simp [null])]
          exact refers⟩
      have keys : Aio.key (http.emit (.delivered pk cd.isCached)).log
        (.writeHead pk (data.take cd.size)) = some key := by
        simp only [Aio.key, ask, asked, Option.map_some]
      rw [keys] at passed
      have one : taken cd key = [key] := by simp [taken, null]
      rw [one]
      exact ⟨back passed, fun _ => remain_written pk _ _ _⟩
  | bodyWio pk =>
    simp only [Callback.pk] at hand told child hand' told' ask streamed slots back
    obtain ⟨uri, asked⟩ := tells
    cases null : cd.data with
    | none =>
      have nothing : taken cd key = [] := by simp [taken, null]
      rw [serve_body_null null, nothing]
      rw [null, Option.map_none] at given
      have may : MayEnd pk (http.emit (.delivered pk cd.isCached)).log := by
        intro _ _ name use found
        rw [ask, asked] at found
        cases found
        exact .inl (by rw [slots]; exact given.symm)
      obtain ⟨after, ran, passed⟩ := hand'.final told' may around
      rw [ran]
      refine ⟨back passed, ?_⟩
      intro handed
      cases handed
    | some data =>
      obtain ⟨_, _, _, _, bodykey⟩ := fits
      have refers := delivered_refers hand.lives.lawful asked
      rw [null, Option.map_some] at given
      rw [serve_body hand.there null]
      have passed := hand'.starts told' { hpkg with hst := .writing, wst := .body } ⟨rfl, rfl, rfl⟩
        ⟨rfl, rfl, rfl, rfl, rfl⟩ (.writeBody pk (data.take cd.size)) (.writeBody pk) rfl rfl
        ⟨child, connected, rfl, rfl, by simp [bodykey]⟩
        ⟨key, uri, by rw [ask, streamed]; exact asked, by rw [slots]; exact given.symm, by
          rw [cached (by simp [null])]
          exact refers⟩
      have keys : Aio.key (http.emit (.delivered pk cd.isCached)).log
        (.writeBody pk (data.take cd.size)) = some key := by
        simp only [Aio.key, ask, asked, Option.map_some]
      rw [keys] at passed
      have one : taken cd key = [key] := by simp [taken, null]
      rw [one]
      exact ⟨back passed, fun _ => remain_written pk _ _ _⟩

/-- The package at hand, on whose connection nothing can be written, is handed `NULL`. -/
theorem Hand.serveNull (hand : Hand good loading waiting cache http pk cn done hpkg)
    (told : Told http.log pk hpkg) (child : pk.number ≠ 0) (closes : cn.closesWrite = true)
    (around : Surroundings) :
    Ends (· = .nullAccess) (Server.serve around ⟨none, 0, false⟩ (.bodyWio pk) http) fun after =>
      Passed good loading waiting cache http after [] := by
  obtain ⟨hand', same, told', _, _, slots⟩ := hand.delivered told child false
  obtain ⟨after, ran, passed⟩ := hand'.final told' (hand'.mayEnd closes) around
  rw [serve_body_null rfl, show svrHttpFinal around pk (http.emit (.delivered pk false)) =
    .ok after from ran]
  exact ⟨passed.lives, by rw [passed.held, same], fun key => (passed.slots key).trans (slots key), passed.readers⟩

/-- The callbacks of a queue have been served. -/
structure Served (good : KeyUse → Text → Prop) (cd : CacheData Text) (key : Key)
    (waiting : Key → List Callback) (cache : Cache Key Text Callback) (queue : List Callback)
    (http after : Http) : Prop where
  passed : Passed good (some key) (Function.update waiting key []) cache http after
    (queue.flatMap fun _ => taken cd key)
  remain : cd.data.isSome = true → Remain http after

/-- The callback of the package at hand is served, and then others. -/
private theorem Hand.serveThen {rest : List Callback}
    (hand : Hand good (some key) waiting cache http callback.pk cn done hpkg)
    (told : Told http.log callback.pk hpkg) (fits : Fits cn hpkg (.wait key callback))
    (tells : callback.Told http.log key)
    (given : cd.data.map (·.take cd.size) = (slot key http.log).stored)
    (cached : cd.data.isSome = true → cd.isCached = true) (around : Surroundings)
    (later : ∀ between, Lives good none (some key) waiting cache between →
      cd.data.map (·.take cd.size) = (slot key between.log).stored →
      Ends (· = .nullAccess) (serveAll around cd rest between)
      (Served good cd key waiting cache rest between)) :
    Ends (· = .nullAccess) (serveAll around cd (callback :: rest) http)
      (Served good cd key waiting cache (callback :: rest) http) := by
  refine (hand.serve cd told fits tells given cached around).bind fun between _ ⟨passed, remain⟩ =>
    ?_
  have given' : cd.data.map (·.take cd.size) = (slot key between.log).stored := by
    rw [passed.slots]
    exact given
  refine (later between passed.lives given').mono fun after ⟨next, remain'⟩ => ?_
  exact ⟨⟨next.lives, by rw [next.held, passed.held, List.append_assoc, List.flatMap_cons],
    fun name => (next.slots name).trans (passed.slots name), next.readers.trans passed.readers⟩,
    fun given other there => remain' given other (remain given other there)⟩

/-- All callbacks of a queue are served. -/
theorem Lives.serveAll (queue : List Callback)
    (lives : Lives good none (some key) waiting cache http) (cd : CacheData Text)
    (queued : waiting key = queue)
    (given : cd.data.map (·.take cd.size) = (slot key http.log).stored)
    (cached : cd.data.isSome = true → cd.isCached = true) (around : Surroundings) :
    Ends (· = .nullAccess) (serveAll around cd queue http)
    (Served good cd key waiting cache queue http) := by
  induction queue generalizing waiting http with
  | nil =>
    have same : Function.update waiting key [] = waiting := by
      rw [← queued]
      exact Function.update_eq_self key waiting
    refine ⟨?_, fun _ _ => id⟩
    rw [same]
    exact ⟨lives, by simp, fun _ => rfl, rfl⟩
  | cons callback rest ih =>
    obtain ⟨cn, done, hpkg, hand, told, fits, tells⟩ := lives.dequeue queued
    refine (hand.serveThen told fits tells given cached around fun between lives' given' =>
      ih lives' (Function.update_self ..) given').mono fun after ⟨passed, remain⟩ => ⟨?_, remain⟩
    rwa [Function.update_idem] at passed

/-- The callback of the package at hand is served, and then all that wait. -/
theorem Hand.serveAll (rest : List Callback)
    (hand : Hand good (some key) waiting cache http callback.pk cn done hpkg) (cd : CacheData Text)
    (told : Told http.log callback.pk hpkg) (fits : Fits cn hpkg (.wait key callback))
    (tells : callback.Told http.log key) (queued : waiting key = rest)
    (given : cd.data.map (·.take cd.size) = (slot key http.log).stored)
    (cached : cd.data.isSome = true → cd.isCached = true) (around : Surroundings) :
    Ends (· = .nullAccess) (serveAll around cd (callback :: rest) http)
      (Served good cd key waiting cache (callback :: rest) http) :=
  hand.serveThen told fits tells given cached around fun _ lives given =>
    lives.serveAll rest cd queued given cached around

end EventDisp.Server
