import EventDisp.HttpTaking

/-! `svr_http_final_aio`: a read or write has failed, the status of its connection
changes, and its package is finalised. -/
namespace EventDisp.Server

open Outcome

variable {http after : Http} {pk : PackagePtr} {key : Key} {waiting : Key → List Callback}
variable {cache next : Cache Key Text Callback} {entry : CacheEntry Text Callback} {cn : Conn}
  {done : Nat}
variable {hpkg : HPKG} {good : KeyUse → Text → Prop} {rest : List Callback} {loading : Option Key}

/-- The status of the connection of a package for which something failed. -/
def aborting (pk : PackagePtr) (cn : Conn) : ConnST := statusAfter pk.conn cn.cst (.aborted pk)

/-- The connection has the status it is given when something has failed. -/
def abort (pk : PackagePtr) (cn : Conn) (http : Http) : Http :=
  (http.setConn pk.conn { cn with cst := aborting pk cn }).emit (.aborted pk)

@[simp] theorem abort_packages : (abort pk cn http).packages = http.packages := rfl
@[simp] theorem abort_log : (abort pk cn http).log = http.log ++ [.aborted pk] := rfl
@[simp] theorem aborted_story (other : PackagePtr) (story : Story) :
    storyAfter other story (.aborted pk) = story := by
  unfold storyAfter
  split <;> rfl

/-- Something may fail for the package at hand; for a child as long as its connection
can be written to. -/
private theorem Hand.mayAbort (hand : Hand good loading waiting cache http pk cn done hpkg)
    (connected : pk.number ≠ 0 → cn.cst = .connected) : Lawful good http.log (.aborted pk) := by
  obtain ⟨found, line, tied, turns⟩ := id hand.runs
  refine ⟨line.opened, ?_⟩
  by_cases root : pk.number = 0
  · obtain ⟨_, last, _⟩ := hand.runs.root root
    rw [if_pos root, line.finalised, line.created, ← last, Nat.add_sub_cancel, ← hand.status]
    exact ⟨rfl, hand.serves⟩
  · rw [if_neg root, ← hand.status]
    exact ⟨(hand.child root).2, connected root⟩

/-- Everything but the status of the connection stays as it is. -/
theorem Hand.aborts (hand : Hand good loading waiting cache http pk cn done hpkg)
    (connected : pk.number ≠ 0 → cn.cst = .connected) :
    Lives good (some pk) loading waiting cache (abort pk cn http) ∧
      Runs (abort pk cn http) pk { cn with cst := aborting pk cn } done ∧
      held (abort pk cn http) = held http := by
  obtain ⟨lives, ⟨found, line, tied, turns⟩, serves, there⟩ := id hand
  have tells := lives.tells
  refine ⟨⟨?_, ?_, ⟨?_, ?_, ?_, ?_, ?_, ?_, ?_⟩, ?_⟩, ?_, ?_⟩
  · refine lives.keeps.same (fun other different =>
      ⟨?_, fun _ => rfl, [.aborted pk], rfl, by simp [Silent, Event.apart]⟩)
      fun _ => rfl
    show (http.setConn pk.conn _).conns other = http.conns other
    rw [setConn_conns, if_neg different]
  · exact lives.loads.same (fun key _ => by rw [abort_log, slot_concat]; rfl) rfl
  · intro other hpkg' apart there'
    exact (tells.packages other hpkg' apart there').same (by simp)
  · intro aio member
    exact (tells.aios aio member).grow (by simp)
      (fun key data => by rw [abort_log, slot_concat]; exact id)
      fun key => by rw [abort_log, slot_concat]; exact id
  · intro key callback member
    exact (tells.waits key callback member).congr (by simp)
  · intro other unmade
    rw [abort_log, story_concat, aborted_story]
    exact tells.unmade other fun made => unmade (List.mem_append_left _ made)
  · intro conn cn' found'
    change (http.setConn pk.conn _).conns conn = some cn' at found'
    rw [setConn_conns] at found'
    rw [abort_log]
    split at found'
    · rename_i same
      cases found'
      rw [same, status_concat, ← hand.status]
      rfl
    · rename_i different
      rw [status_other fun same => different same.symm]
      exact tells.conns conn cn' found'
  · intro event member
    rw [abort_log] at member ⊢
    apply List.mem_append_left _
    rcases List.mem_append.mp member with old | new
    · exact tells.known event old
    · rw [List.mem_singleton.mp new]
      exact line.accepted
  · intro conn member
    apply tells.ahead conn
    rw [abort_log] at member
    simpa using member
  · exact History.throughout_concat.mpr ⟨lives.lawful, hand.mayAbort connected⟩
  · have runs : Runs (http.setConn pk.conn { cn with cst := aborting pk cn }) pk
      { cn with cst := aborting pk cn } done :=
      ⟨by simp, ⟨line.remaining, line.accepted, line.opened, line.created, line.activated, line.finalised, line.rearms,
        line.root, line.child, line.fresh, line.gone, line.beyond⟩, tied, turns⟩
    exact runs.same (.emit _ _ rfl)
  · exact List.filterMap_congr fun _ _ => Aio.key_congr (by simp)

/-- A child whose connection could be written to is at hand when something has failed. -/
theorem Hand.abortsChild (hand : Hand good loading waiting cache http pk cn done hpkg)
    (told : Told http.log pk hpkg) (child : pk.number ≠ 0) (connected : cn.cst = .connected) :
    Hand good loading waiting cache (abort pk cn http) pk { cn with cst := .closingW } done hpkg ∧
      held (abort pk cn http) = held http ∧ Told (abort pk cn http).log pk hpkg := by
  have status : aborting pk cn = .closingW := by simp [aborting, statusAfter, child, connected]
  obtain ⟨lives, runs, same⟩ := hand.aborts fun _ => connected
  rw [status] at runs
  exact ⟨⟨lives, runs, .inr rfl, hand.there⟩, same, told.same (by simp)⟩

/-- The root is finalised when it has failed. -/
theorem Hand.abortsRoot (hand : Hand good none (queues cache) cache http pk cn done hpkg)
    (stocked : Stocked cache http) (told : Told http.log pk hpkg) (root : pk.number = 0)
    (around : Surroundings) :
    ∃ after, svrHttpFinal around pk (abort pk cn http) = .ok after ∧ Sound good ⟨cache, after⟩ := by
  have child : pk.number ≠ 0 → cn.cst = .connected := fun child => absurd root child
  obtain ⟨lives, runs, same⟩ := hand.aborts child
  obtain ⟨after, ran, passes⟩ : ∃ after, svrHttpFinal around pk (abort pk cn http) = .ok after ∧
      Passes True (fun _ => False) pk (abort pk cn http) after :=
    final_passes runs (fun child => absurd root child) around _ trivial
  have known : .accepted pk.conn ∈ (abort pk cn http).log := List.mem_append_left _ hand.known
  refine ⟨after, ran, lives.passes passes known (?_) (fun _ child => absurd root child) nofun, ?_⟩
  · intro other there
    rw [abort_packages, hand.there] at there
    cases there
    exact told.same (by simp)
  · rcases passes.held with kept | ⟨aio, impossible, _⟩
    · exact stocked.same (kept.trans same)
    · cases impossible

/-- A read of the root has failed. -/
theorem finalAio_root (hand : Hand good none (queues cache) cache http pk cn done hpkg)
    (stocked : Stocked cache http) (told : Told http.log pk hpkg) (root : pk.number = 0)
    (state : hpkg.hst = .reading ∨ hpkg.hst = .parsing) (around : Surroundings) :
    ∃ after, svrHttpFinalAio around pk ⟨cache, http⟩ = .ok after ∧ Sound good after := by
  obtain ⟨after, ran, sound⟩ := hand.abortsRoot stocked told root around
  refine ⟨⟨cache, after⟩, ?_, sound⟩
  have status : (if cn.cst = .closingW then .closing else .closingR) = aborting pk cn := by
    simp [aborting, statusAfter, root]
  have running : cn.cst ≠ .closing := by
    rcases hand.serves with connected | closing
    · simp [connected]
    · simp [closing]
  rcases state with state | state
  all_goals
    simp only [svrHttpFinalAio, Http.package, Http.connection, hand.there, hand.runs.1, running,
    state, if_false, status,
      bind, Except.bind, emit, apart]
    rw [abort] at ran
    rw [ran]
    rfl

/-- A write of an answer has failed that holds a reference. -/
theorem finalAio_write (hand : Hand good none (queues cache) cache http pk cn done hpkg)
    (stocked : Stocked cache http) (told : Told http.log pk hpkg) (child : pk.number ≠ 0)
    (connected : cn.cst = .connected) (state : hpkg.hst = .writing)
    (own : hpkg.wst = .head ∧ hpkg.headkey = some key ∨ hpkg.wst = .body ∧ hpkg.bodykey = some key)
    (spare : Spare cache http key) (refers : 0 < (story pk http.log).references key)
    (around : Surroundings) :
    ∃ after, svrHttpFinalAio around pk ⟨cache, http⟩ = .ok after ∧ Sound good after := by
  obtain ⟨aborted, same, told'⟩ := hand.abortsChild told child connected
  have spare' : Spare cache (abort pk cn http) key := by
    rw [Spare, same]
    exact spare
  obtain ⟨next, released, hand', stocked', told''⟩ :=
    aborted.releases (stocked.same same) child spare' (by simpa using refers)
  obtain ⟨after, ran, passed⟩ := hand'.final (told'' hpkg told') (hand'.mayEnd (by rfl)) around
  refine ⟨⟨next, after⟩, ?_, passed.lives, stocked'.same (by rw [passed.held, List.append_nil])⟩
  have status : aborting pk cn = .closingW := by simp [aborting, statusAfter, child, connected]
  rw [abort, status] at released ran
  rcases own with ⟨part, own⟩ | ⟨part, own⟩
  all_goals
    simp only [svrHttpFinalAio, Http.package, Http.connection, hand.there, hand.runs.1, connected,
    state, part, own,
      reduceCtorEq, if_false, bind, Except.bind, emit, apart, released, ran]
    rfl

/-- The reading of a part of a body has failed. -/
theorem finalAio_read (loader : Loader good key cache http pk entry rest cn done hpkg)
    (around : Surroundings) :
    Ends (· = .nullAccess) (svrHttpFinalAio around pk ⟨cache, http⟩) (Sound good) := by
  obtain ⟨child, connected, state, part, own⟩ := loader.fits
  obtain ⟨aborted, same, told⟩ := loader.hand.abortsChild loader.told child connected
  have slot' : slot key (abort pk cn http).log = slot key http.log := by
    rw [abort_log, slot_concat]
    rfl
  have cancels :=
    aborted.cancels (loader.stocked.same same) told child (by rfl) loader.found loader.reserved
      loader.shape
    (Function.update_self ..)
    (by rw [slot']; exact loader.loader) (by rw [slot']; exact loader.stored) around
  have status : aborting pk cn = .closingW := by simp [aborting, statusAfter, child, connected]
  rw [abort, status] at cancels
  simp only [svrHttpFinalAio, Http.package, Http.connection, loader.hand.there, loader.hand.runs.1,
    connected, state, part,
    own, reduceCtorEq, if_false, bind, Except.bind]
  exact cancels.bind fun _ _ sound => sound

/-- A bad request has no head to release. -/
theorem finalAio_400 (hand : Hand good loading waiting cache http pk cn done hpkg)
    (connected : cn.cst = .connected) (state : hpkg.hst = .writing) (part : hpkg.wst = .head)
    (own : hpkg.headkey = none) (around : Surroundings) :
    svrHttpFinalAio around pk ⟨cache, http⟩ = .error (.assertion .finalHeadKey) := by
  simp only [svrHttpFinalAio, Http.package, Http.connection, hand.there, hand.runs.1, connected,
    state, part, own,
    reduceCtorEq, if_false, bind, Except.bind]

end EventDisp.Server
