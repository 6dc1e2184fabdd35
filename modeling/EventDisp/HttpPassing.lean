import EventDisp.HttpLines

/-! What the handlers that do not touch the cache do with the package whose turn it
is: they pass the work on, and nothing is left behind. -/
namespace EventDisp.Server

open Outcome

variable {http after : Http} {conn number : Nat} {cn : Conn} {done active : Nat} {pk : PackagePtr}
  {hpkg : HPKG}
variable {around : Surroundings} {reason : Prop} {issues : Aio → Prop}

@[simp] theorem setPackage_packages (other : PackagePtr) :
    (http.setPackage pk hpkg).packages other = if other = pk then some hpkg else http.packages
    other :=
  Function.update_apply ..

@[simp] theorem deletePackage_packages (other : PackagePtr) :
    (http.deletePackage pk).packages other = if other = pk then none else http.packages other :=
  Function.update_apply ..

@[simp] theorem setConn_conns (other : Nat) :
    (http.setConn conn cn).conns other = if other = conn then some cn else http.conns other :=
  Function.update_apply ..

@[simp] theorem deleteConn_conns (other : Nat) :
    (http.deleteConn conn).conns other = if other = conn then none else http.conns other :=
  Function.update_apply ..

/-- A package of the line changes, but not its links. -/
theorem Line.setPackage (line : Line http conn cn done active) (hpkg : HPKG) {old : HPKG}
    (held : http.packages ⟨conn, number⟩ = some old) (ppg : hpkg.ppg = old.ppg)
    (nsg : hpkg.nsg = old.nsg) (fresh : active < number → hpkg.Fresh) :
    Line (http.setPackage ⟨conn, number⟩ hpkg) conn cn done active := by
  refine ⟨line.remaining, line.accepted, line.opened, line.created, line.activated, line.finalised,
    line.rearms,
    ?_, ?_, ?_, ?_,
    ?_⟩
  · obtain ⟨root, found, none⟩ := line.root
    by_cases same : 0 = number
    · subst same
      rw [found] at held
      cases held
      exact ⟨hpkg, by simp, ppg.trans none⟩
    · exact ⟨root, by simp [same, found], none⟩
  · intro other left within
    obtain ⟨child, found, parent, sibling⟩ := line.child other left within
    by_cases same : other = number
    · subst same
      rw [found] at held
      cases held
      exact ⟨hpkg, by simp, ppg.trans parent, nsg.trans sibling⟩
    · exact ⟨child, by simp [same, found], parent, sibling⟩
  · intro other found later
    simp only [setPackage_packages, PackagePtr.mk.injEq, true_and]
    split
    · rename_i same
      rintro ⟨⟩
      exact fresh (same ▸ later)
    · exact line.fresh other found later
  · intro other made gone
    have none := line.gone other made gone
    have apart : other ≠ number := by
      rintro rfl
      rw [none] at held
      cases held
    simp [apart, none]
  · intro other beyond
    have none := line.beyond other beyond
    have apart : other ≠ number := by
      rintro rfl
      rw [none] at held
      cases held
    simp [apart, none]

theorem Tied.setPackage (tied : Tied http conn cn done) {old : HPKG}
    (held : http.packages ⟨conn, number⟩ = some old) (lcg : hpkg.lcg = old.lcg) :
    Tied (http.setPackage ⟨conn, number⟩ hpkg) conn cn done := by
  intro root
  simp only [setPackage_packages, PackagePtr.mk.injEq, true_and]
  split
  · rename_i same
    subst same
    rintro ⟨⟩
    exact lcg.trans (tied old held)
  · exact tied root

/-- The package whose turn it is changes, but not its links. -/
theorem Runs.setPackage (runs : Runs http pk cn done) (hpkg : HPKG) {old : HPKG}
    (held : http.packages pk = some old) (ppg : hpkg.ppg = old.ppg) (nsg : hpkg.nsg = old.nsg)
    (lcg : hpkg.lcg = old.lcg) :
    Runs (http.setPackage pk hpkg) pk cn done := by
  obtain ⟨found, line, tied, turns⟩ := runs
  refine ⟨found, line.setPackage hpkg held ppg nsg ?_, tied.setPackage held lcg, turns⟩
  intro later
  have remaining := line.remaining
  unfold activeUpTo at later
  unfold turn at turns
  split at turns <;> omega

/-- The package whose turn it is is there. -/
theorem Runs.held (runs : Runs http pk cn done) : ∃ hpkg, http.packages pk = some hpkg ∧
    hpkg.ppg = (if pk.number = 0 then none else some ⟨pk.conn, 0⟩) ∧
    (pk.number ≠ 0 → pk.number = done + 1 ∧ done + 1 < cn.packages ∧
      hpkg.nsg = if done + 2 < cn.packages then some ⟨pk.conn, done + 2⟩ else none) := by
  obtain ⟨found, line, tied, turns⟩ := runs
  unfold turn at turns
  obtain ⟨conn, number⟩ := pk
  dsimp only at turns
  subst turns
  by_cases more : done + 1 < cn.packages
  · obtain ⟨hpkg, held, ppg, nsg⟩ := line.child (done + 1) (by omega) more
    simp only [more, if_true] at *
    exact ⟨hpkg, held, by simpa using ppg, fun _ => ⟨trivial, trivial, nsg⟩⟩
  · obtain ⟨root, held, ppg⟩ := line.root
    simp only [more, if_false] at *
    exact ⟨root, held, by simpa using ppg, fun child => absurd rfl child⟩

@[simp] theorem setPackage_log : (http.setPackage pk hpkg).log = http.log := rfl
@[simp] theorem setPackage_aios : (http.setPackage pk hpkg).aios = http.aios := rfl
@[simp] theorem setPackage_conns : (http.setPackage pk hpkg).conns = http.conns := rfl
@[simp] theorem deletePackage_log : (http.deletePackage pk).log = http.log := rfl
@[simp] theorem deletePackage_conns : (http.deletePackage pk).conns = http.conns := rfl
@[simp] theorem emit_log (event : Event) : (http.emit event).log = http.log ++ [event] := rfl
@[simp] theorem issue_log (aio : Aio) : (http.issue aio).log = http.log := rfl
@[simp] theorem emit_packages (event : Event) : (http.emit event).packages = http.packages := rfl
@[simp] theorem emit_conns (event : Event) : (http.emit event).conns = http.conns := rfl

theorem HPKG.Like.refl (hpkg : HPKG) : hpkg.Like hpkg := ⟨rfl, rfl, rfl, rfl, rfl⟩

theorem HPKG.Like.trans {old between : HPKG} (first : old.Like between)
    (second : between.Like hpkg) : old.Like hpkg :=
  ⟨second.uri.trans first.uri, second.trOffset.trans first.trOffset,
    second.headkey.trans first.headkey,
    second.bodykey.trans first.bodykey, second.hfd.trans first.hfd⟩

theorem HPKG.Blank.like {old : HPKG} (blank : old.Blank) (like : old.Like hpkg) : hpkg.Blank :=
  ⟨like.trOffset.trans blank.trOffset, like.headkey.trans blank.headkey, like.hfd.trans blank.hfd⟩

theorem HPKG.Fresh.blank (fresh : hpkg.Fresh) : hpkg.Blank :=
  ⟨fresh.trOffset, fresh.headkey, fresh.hfd⟩

theorem Kin.like {old : HPKG} (kin : Kin http pk old) (like : old.Like hpkg) :
    Kin http pk hpkg := by
  rcases kin with ⟨before, held, same⟩ | ⟨blank, child, new⟩
  · exact .inl ⟨before, held, same.trans like⟩
  · exact .inr ⟨blank.like like, child, new⟩

theorem Kin.held (held : http.packages pk = some hpkg) : Kin http pk hpkg :=
  .inl ⟨hpkg, held, .refl hpkg⟩

theorem Moves.refl (http : Http) (conn : Nat) : Moves conn http http [] [] [] :=
  ⟨by simp, by simp, by simp, rfl, by simp, fun _ _ => rfl, fun cn found => ⟨cn, found, rfl⟩, fun _ _ => rfl,
    fun _ _ held => .held held⟩

/-- The package is changed, and goes on with its request; or it is new. -/
theorem Moves.setPackage {tasks : List Task} {aios : List Aio} {events : List Event}
    (moves : Moves conn http after tasks aios events) (number : Nat) (hpkg : HPKG)
    (kin : Kin http ⟨conn, number⟩ hpkg) :
    Moves conn http (after.setPackage ⟨conn, number⟩ hpkg) tasks aios events := by
  refine ⟨moves.tasks, moves.aios, moves.log, moves.nextConn, moves.events, moves.conns,
    moves.status,
    ?_, ?_⟩
  · intro other different
    have apart : other ≠ ⟨conn, number⟩ := by
      rintro rfl
      exact different rfl
    rw [setPackage_packages, if_neg apart]
    exact moves.packages other different
  · intro other found held
    rw [setPackage_packages] at held
    split at held
    · rename_i same
      cases held
      rw [same]
      exact kin
    · exact moves.kin other found held

theorem Moves.deletePackage {tasks : List Task} {aios : List Aio} {events : List Event}
    (moves : Moves conn http after tasks aios events) (own : pk.conn = conn) :
    Moves conn http (after.deletePackage pk) tasks aios events := by
  refine ⟨moves.tasks, moves.aios, moves.log, moves.nextConn, moves.events, moves.conns,
    moves.status,
    ?_, ?_⟩
  · intro other different
    have apart : other ≠ pk := by
      rintro rfl
      exact different own
    rw [deletePackage_packages, if_neg apart]
    exact moves.packages other different
  · intro number hpkg held
    rw [deletePackage_packages] at held
    split at held
    · cases held
    · exact moves.kin number hpkg held

/-- The connection is changed, but not its status. -/
theorem Moves.setConn {tasks : List Task} {aios : List Aio} {events : List Event}
    (moves : Moves conn http after tasks aios events) {old : Conn}
    (found : after.conns conn = some old) (same : cn.cst = old.cst) :
    Moves conn http (after.setConn conn cn) tasks aios events := by
  refine ⟨moves.tasks, moves.aios, moves.log, moves.nextConn, moves.events, ?_, ?_,
    moves.packages, moves.kin⟩
  · intro other different
    rw [setConn_conns, if_neg different]
    exact moves.conns other different
  · intro now shown
    rw [setConn_conns, if_pos rfl] at shown
    cases shown
    rw [same]
    exact moves.status old found

theorem Moves.deleteConn {tasks : List Task} {aios : List Aio} {events : List Event}
    (moves : Moves conn http after tasks aios events) :
    Moves conn http (after.deleteConn conn) tasks aios events := by
  refine ⟨moves.tasks, moves.aios, moves.log, moves.nextConn, moves.events, ?_, ?_,
    moves.packages, moves.kin⟩
  · intro other different
    rw [deleteConn_conns, if_neg different]
    exact moves.conns other different
  · intro now shown
    rw [deleteConn_conns, if_pos rfl] at shown
    cases shown

theorem Moves.emit {tasks : List Task} {aios : List Aio} {events : List Event} {event : Event}
    (moves : Moves conn http after tasks aios events)
    (own : event.conn = conn ∧ event.apart = true) :
    Moves conn http (after.emit event) tasks aios (events ++ [event]) := by
  refine ⟨moves.tasks, moves.aios, ?_, moves.nextConn, ?_, moves.conns, moves.status,
    moves.packages,
    moves.kin⟩
  · rw [emit_log, moves.log, List.append_assoc]
  · intro inner member
    rcases List.mem_append.mp member with old | new
    · exact moves.events inner old
    · rw [List.mem_singleton.mp new]
      exact own

theorem Moves.enqueue {tasks : List Task} {aios : List Aio} {events : List Event}
    (moves : Moves conn http after tasks aios events) (task : Task) :
    Moves conn http (after.enqueue task) (tasks ++ [task]) aios events := by
  refine ⟨?_, moves.aios, moves.log, moves.nextConn, moves.events, moves.conns, moves.status,
    moves.packages, moves.kin⟩
  show after.tasks ++ [task] = http.tasks ++ (tasks ++ [task])
  rw [moves.tasks, List.append_assoc]

theorem Moves.issue {tasks : List Task} {aios : List Aio} {events : List Event}
    (moves : Moves conn http after tasks aios events) (aio : Aio) :
    Moves conn http (after.issue aio) tasks (aios ++ [aio]) events := by
  refine ⟨moves.tasks, ?_, moves.log, moves.nextConn, moves.events, moves.conns, moves.status,
    moves.packages, moves.kin⟩
  show after.aios ++ [aio] = http.aios ++ (aios ++ [aio])
  rw [moves.aios, List.append_assoc]

/-- One step after another. -/
theorem Moves.trans {middle : Http} {tasks more : List Task} {aios further : List Aio}
    {events next : List Event} (first : Moves conn http middle tasks aios events)
    (second : Moves conn middle after more further next) :
    Moves conn http after (tasks ++ more) (aios ++ further) (events ++ next) := by
  refine ⟨?_, ?_, ?_, second.nextConn.trans first.nextConn, ?_, ?_,
    ?_, ?_, ?_⟩
  · rw [second.tasks, first.tasks, List.append_assoc]
  · rw [second.aios, first.aios, List.append_assoc]
  · rw [second.log, first.log, List.append_assoc]
  · intro event member
    exact (List.mem_append.mp member).elim (first.events event) (second.events event)
  · intro other different
    exact (second.conns other different).trans (first.conns other different)
  · intro cn found
    obtain ⟨between, found, same⟩ := second.status cn found
    obtain ⟨old, found, same'⟩ := first.status between found
    exact ⟨old, found, same.trans same'⟩
  · intro other different
    exact (second.packages other different).trans (first.packages other different)
  · intro number hpkg held
    rcases second.kin number hpkg held with ⟨old, held, like⟩ | ⟨blank, child, new⟩
    · exact (first.kin number old held).like like
    · refine .inr ⟨blank, child, fun before => new ?_⟩
      rw [first.log]
      exact List.mem_append_left _ before

/-- What is done before the work is passed on. -/
theorem Moves.passes {middle : Http} (moves : Moves pk.conn http middle [] [] [])
    (passes : Passes reason issues pk middle after) :
    Passes reason issues pk http after := by
  cases passes with
  | task task more own rest ends ready => exact .task task _ own (moves.trans rest) ends ready
  | aio aio work more own shows issued rest ends ready =>
    exact .aio aio work _ own shows issued (moves.trans rest) ends ready
  | closes more rest ends shut => exact .closes _ (moves.trans rest) ends shut

theorem Same.enqueue (task : Task) : Same conn http (http.enqueue task) :=
  ⟨rfl, fun _ => rfl, [], by simp [Http.enqueue], by simp [Silent]⟩

theorem Same.issue (aio : Aio) : Same conn http (http.issue aio) :=
  ⟨rfl, fun _ => rfl, [], by simp [Http.issue], by simp [Silent]⟩

/-- The first child left is deleted. -/
theorem Line.finalise (line : Line http conn cn done active) (more : done + 1 < cn.packages) :
    Line ((http.deletePackage ⟨conn, done + 1⟩).emit (.finalised ⟨conn, done + 1⟩)) conn cn
    (done + 1) active := by
  refine ⟨more, ?_, ?_, ?_, ?_, ?_, ?_, ?_, ?_, ?_,
    ?_, ?_⟩
  · simpa using line.accepted
  · simpa using line.opened
  · simpa [Event.created?] using line.created
  · simpa [Event.activated?] using line.activated
  · simp [Event.finalised?, line.finalised, List.range'_concat, Nat.add_comm]
  · exact line.rearms.append fun event member earlier same => by simp_all
  · obtain ⟨root, found, none⟩ := line.root
    exact ⟨root, by simp [found], none⟩
  · intro number later within
    obtain ⟨child, found, links⟩ := line.child number (by omega) within
    exact ⟨child, by simp [found, show number ≠ done + 1 by omega], links⟩
  · intro number hpkg later
    simp only [emit_packages, deletePackage_packages]
    split
    · simp
    · exact line.fresh number hpkg later
  · intro number positive gone
    simp only [emit_packages, deletePackage_packages]
    split
    · rfl
    · rename_i other
      exact line.gone number positive (by simp at other; omega)
  · intro number beyond
    simp only [emit_packages, deletePackage_packages]
    split
    · rfl
    · exact line.beyond number beyond

/-- The next child is activated. -/
theorem Line.activate (line : Line http conn cn done active) :
    Line (http.emit (.activated ⟨conn, active + 1⟩)) conn cn done (active + 1) := by
  refine ⟨line.remaining, ?_, ?_, ?_, ?_, ?_, ?_, line.root, line.child, fun number hpkg later =>
    line.fresh number hpkg (by omega), line.gone, line.beyond⟩
  · simpa using line.accepted
  · simpa using line.opened
  · simpa [Event.created?] using line.created
  · simp [Event.activated?, line.activated, List.range'_concat, Nat.add_comm]
  · simpa [Event.finalised?] using line.finalised
  · exact line.rearms.append fun event member earlier same => by simp_all

/-- The root reads on when no child is left. -/
theorem Line.rearm (line : Line http conn cn done active) (last : done + 1 = cn.packages) :
    Line (http.emit (.rearmed ⟨conn, 0⟩)) conn cn done active := by
  refine ⟨line.remaining, ?_, ?_, ?_, ?_, ?_, ?_, line.root, line.child, line.fresh, line.gone,
    line.beyond⟩
  · simpa using line.accepted
  · simpa using line.opened
  · simpa [Event.created?] using line.created
  · simpa [Event.activated?] using line.activated
  · simpa [Event.finalised?] using line.finalised
  · refine History.throughout_concat.mpr ⟨line.rearms, fun _ => ?_⟩
    rw [line.finalised, line.created, ← last, Nat.add_sub_cancel]

/-- The root is deleted, after all its children, and the connection closed. -/
theorem Line.shut (line : Line http conn cn done active) (last : done + 1 = cn.packages)
    (ready : active = done) :
    Shut (((http.deletePackage ⟨conn, 0⟩).emit (.finalised ⟨conn, 0⟩)).emit (.closed conn))
    conn := by
  refine ⟨?_, ⟨done, ?_, ?_, .inl ⟨?_, ?_, ?_⟩⟩, ?_⟩
  · intro number
    simp only [emit_packages, deletePackage_packages, PackagePtr.mk.injEq, true_and]
    split
    · rfl
    · by_cases gone : number ≤ done
      · exact line.gone number (by omega) gone
      · exact line.beyond number (by omega)
  · simp [Event.created?, line.created, ← last]
  · simp [Event.activated?, line.activated, ready]
  · simp [line.accepted]
  · simp
  · simp [Event.finalised?, line.finalised]
  · rw [emit_log, emit_log, deletePackage_log, List.append_assoc]
    exact line.rearms.append fun event member earlier same => by simp_all

theorem Shut.deleteConn (shut : Shut http conn) : Shut (http.deleteConn conn) conn :=
  ⟨shut.packages, shut.history, shut.rearms⟩

/-- The root's turn comes when no child is left. -/
theorem Runs.root {pk : PackagePtr} (runs : Runs http pk cn done) (root : pk.number = 0) :
    pk = ⟨pk.conn, 0⟩ ∧ done + 1 = cn.packages ∧ activeUpTo cn done = done := by
  obtain ⟨found, line, tied, turns⟩ := runs
  have remaining := line.remaining
  have whole : pk = ⟨pk.conn, 0⟩ := by rw [← root]
  unfold turn at turns
  unfold activeUpTo
  split at turns
  · omega
  · exact ⟨whole, by omega, by omega⟩

private theorem Moves.finalised (http : Http) (pk : PackagePtr) :
    Moves pk.conn http ((http.deletePackage pk).emit (.finalised pk)) [] [] [.finalised pk] :=
  ((Moves.refl http pk.conn).deletePackage rfl).emit ⟨rfl, rfl⟩

private theorem Finalises.only (because : reason) {last : Event}
    (unlike : ∀ other, last ≠ .finalised other) :
    Finalises reason pk ([.finalised pk] ++ [last]) := by
  intro other member
  rcases List.mem_append.mp member with here | there
  · cases List.mem_singleton.mp here
    exact ⟨rfl, because⟩
  · exact absurd (List.mem_singleton.mp there).symm (unlike other)

private theorem final_root (runs : Runs http pk cn done) (held : http.packages pk = some hpkg)
    (ppg : hpkg.ppg = none) (root : pk.number = 0) (around : Surroundings) (issues : Aio → Prop)
    (because : reason) :
    ∃ after, svrHttpFinal around pk http = .ok after ∧ Passes reason issues pk http after := by
  obtain ⟨whole, last, ready⟩ := runs.root root
  obtain ⟨found, line, tied, turns⟩ := runs
  have shut := line.shut last ready
  rw [← whole] at shut
  have moves : Moves pk.conn http (((http.deletePackage pk).emit (.finalised pk)).emit
    (.closed pk.conn)) [] []
      [.finalised pk, .closed pk.conn] := (Moves.finalised http pk).emit ⟨rfl, rfl⟩
  have ran : svrHttpFinal around pk http =
      svrConnClose around pk.conn ((http.deletePackage pk).emit (.finalised pk)) := by
    simp [svrHttpFinal, Http.package, held, ppg, bind, Except.bind]
  have ends : Finalises reason pk [.finalised pk, .closed pk.conn] := .only because (by simp)
  by_cases closes : around.closes = true
  · refine ⟨_, ?_, .closes _ moves.deleteConn ends shut.deleteConn⟩
    simp [ran, svrConnClose, Http.connection, found, closes, bind, Except.bind, pure, Except.pure]
  · refine ⟨_, ?_, .closes _ moves ends shut⟩
    simp [ran, svrConnClose, Http.connection, found, closes, bind, Except.bind, pure, Except.pure]

private theorem final_next (runs : Runs http pk cn done) (serves : cn.Serves)
    (held : http.packages pk = some hpkg) (ppg : hpkg.ppg = some ⟨pk.conn, 0⟩)
    (first : pk.number = done + 1) (next : done + 2 < cn.packages)
    (nsg : hpkg.nsg = some ⟨pk.conn, done + 2⟩) (around : Surroundings) (issues : Aio → Prop)
    (because : reason) :
    ∃ after, svrHttpFinal around pk http = .ok after ∧ Passes reason issues pk http after := by
  obtain ⟨found, line, tied, turns⟩ := runs
  have whole : pk = ⟨pk.conn, done + 1⟩ := by rw [← first]
  have finalised := line.finalise (by omega)
  have now : activeUpTo cn done = done + 1 := by unfold activeUpTo; omega
  rw [← whole, now] at finalised
  have activated := (finalised.same (.enqueue (.fetch ⟨pk.conn, done + 2⟩))).activate
  have root : (⟨pk.conn, 0⟩ : PackagePtr) ≠ pk := by
    rw [whole]
    simp
  have other : (⟨pk.conn, done + 2⟩ : PackagePtr) ≠ pk := by
    rw [whole]
    simp
  have ran : svrHttpFinal around pk http =
      .ok ((((http.deletePackage pk).emit (.finalised pk)).enqueue
        (.fetch ⟨pk.conn, done + 2⟩)).emit
        (.activated ⟨pk.conn, done + 2⟩)) := by
    simp [svrHttpFinal, Http.package, held, ppg, nsg, bind, Except.bind, pure, Except.pure]
  obtain ⟨sibling, there, _⟩ := line.child (done + 2) (by omega) next
  have moves := (Moves.finalised http pk).enqueue (.fetch ⟨pk.conn, done + 2⟩)
  refine ⟨_, ran, .task (.fetch ⟨pk.conn, done + 2⟩) _ rfl (moves.emit ⟨rfl, rfl⟩)
    (.only because (by simp)) ?_⟩
  refine ⟨cn, done + 1, sibling, ⟨found, ?_, ?_, ?_⟩, serves, ?_, ?_⟩
  · have next' : activeUpTo cn (done + 1) = done + 2 := by unfold activeUpTo; omega
    rw [next']
    exact activated
  · intro parent there
    have before : http.packages ⟨pk.conn, 0⟩ = some parent := by
      simpa [Http.enqueue, Task.work, Work.pk, root] using there
    rw [tied parent before, if_pos (by omega), if_pos (by omega)]
    rfl
  · simp [Task.work, Work.pk, turn, next]
  · simpa [Http.enqueue, Task.work, Work.pk, other] using there
  · exact ⟨by simp, line.fresh (done + 2) sibling (by omega) there⟩

private theorem final_last (runs : Runs http pk cn done) (serves : cn.Serves)
    (held : http.packages pk = some hpkg) (ppg : hpkg.ppg = some ⟨pk.conn, 0⟩)
    (first : pk.number = done + 1) (last : done + 2 = cn.packages) (nsg : hpkg.nsg = none)
    (around : Surroundings) (issues : Aio → Prop) (because : reason) :
    ∃ after, svrHttpFinal around pk http = .ok after ∧ Passes reason issues pk http after := by
  obtain ⟨found, line, tied, turns⟩ := runs
  have whole : pk = ⟨pk.conn, done + 1⟩ := by rw [← first]
  have finalised := line.finalise (by omega)
  rw [← whole] at finalised
  have root : (⟨pk.conn, 0⟩ : PackagePtr) ≠ pk := by
    rw [whole]
    simp
  obtain ⟨parent, there, _⟩ := line.root
  have ran : svrHttpFinal around pk http =
      .ok (((((http.deletePackage pk).emit (.finalised pk)).setPackage ⟨pk.conn,
        0⟩ { parent with lcg := none }).enqueue
        (.read ⟨pk.conn, 0⟩)).emit (.rearmed ⟨pk.conn, 0⟩)) := by
    simp [svrHttpFinal, Http.package, held, ppg, nsg, there, root, bind, Except.bind, pure,
      Except.pure]
  have kept : ((http.deletePackage pk).emit (.finalised pk)).packages ⟨pk.conn, 0⟩ =
    some parent := by
    simp [root, there]
  have relinked := finalised.setPackage { parent with lcg := none } kept rfl rfl fun impossible =>
    absurd impossible (Nat.not_lt_zero _)
  have rearmed := (relinked.same (.enqueue (.read ⟨pk.conn, 0⟩))).rearm last
  have moves := (Moves.finalised http pk).setPackage 0 { parent with lcg := none }
    ((Kin.held there).like ⟨rfl, rfl, rfl, rfl, rfl⟩)
  refine ⟨_, ran, .task (.read ⟨pk.conn, 0⟩) _ rfl
    ((moves.enqueue (.read ⟨pk.conn, 0⟩)).emit ⟨rfl, rfl⟩)
    (.only because (by simp)) ?_⟩
  refine ⟨cn, done + 1, { parent with lcg := none }, ⟨found, ?_, ?_, ?_⟩, serves, ?_, rfl⟩
  · have now : activeUpTo cn (done + 1) = activeUpTo cn done := by unfold activeUpTo; omega
    rw [now]
    exact rearmed
  · intro root there
    simp only [Http.enqueue, Task.work, Work.pk, emit_packages, setPackage_packages, if_true,
      Option.some.injEq] at there
    subst there
    rw [if_neg (by omega)]
  · simp [Task.work, Work.pk, turn, last]
  · simp [Http.enqueue, Task.work, Work.pk]

/-- Whoever is finalised hands on to the next child, to the root, or to nobody. -/
theorem final_passes (runs : Runs http pk cn done) (serves : pk.number ≠ 0 → cn.Serves)
    (around : Surroundings) (issues : Aio → Prop) (because : reason) :
    ∃ after, svrHttpFinal around pk http = .ok after ∧ Passes reason issues pk http after := by
  obtain ⟨hpkg, held, ppg, child⟩ := runs.held
  by_cases root : pk.number = 0
  · rw [if_pos root] at ppg
    exact final_root runs held ppg root around issues because
  · obtain ⟨first, more, nsg⟩ := child root
    rw [if_neg root] at ppg
    by_cases next : done + 2 < cn.packages
    · rw [if_pos next] at nsg
      exact final_next runs (serves root) held ppg first next nsg around issues because
    · rw [if_neg next] at nsg
      exact final_last runs (serves root) held ppg first (by omega) nsg around issues because

@[simp] theorem setPackage_setPackage (old : HPKG) :
    (http.setPackage pk old).setPackage pk hpkg = http.setPackage pk hpkg := by
  simp [Http.setPackage]

theorem Aio.shown {aio : Aio} {work : Work} (shows : aio.work = some work) : work.pk = aio.pk := by
  cases aio <;> cases shows <;> rfl

/-- The package at hand is changed and begins to read or write. -/
theorem Runs.starts (runs : Runs http pk cn done) (serves : cn.Serves) {old : HPKG}
    (held : http.packages pk = some old) (hpkg : HPKG)
    (links : hpkg.ppg = old.ppg ∧ hpkg.nsg = old.nsg ∧ hpkg.lcg = old.lcg) (like : old.Like hpkg)
    (aio : Aio) (work : Work) (own : aio.pk = pk) (shows : aio.work = some work)
    (fits : Fits cn hpkg work) :
    Passes reason (· = aio) pk http ((http.setPackage pk hpkg).issue aio) := by
  obtain ⟨ppg, nsg, lcg⟩ := links
  have same : work.pk = pk := (Aio.shown shows).trans own
  have moves :=
    ((Moves.refl http pk.conn).setPackage pk.number hpkg ((Kin.held held).like like)).issue aio
  refine .aio aio work [] own shows rfl moves (fun other none => by cases none) ?_
  have ready : Ready (http.setPackage pk hpkg) work :=
    ⟨cn, done,
      hpkg, by rw [same]; exact runs.setPackage hpkg held ppg nsg lcg, serves, by simp [same], fits⟩
  exact ready.same (.issue aio)

/-- The root reads. -/
theorem read_passes (runs : Runs http pk cn done) (serves : cn.Serves) (root : pk.number = 0)
    (around : Surroundings) :
    ∃ after, svrHttpRead around pk http = .ok after ∧
    Passes reason (· = .readRequest pk) pk http after := by
  obtain ⟨hpkg, held, _⟩ := runs.held
  obtain ⟨found, line, _⟩ := id runs
  have readable : cn.closesRead = false := by
    rcases id serves with open' | closing
    · simp [Conn.closesRead, open']
    · simp [Conn.closesRead, closing]
  refine ⟨_, ?_, runs.starts serves held { hpkg with
    hst := .reading, chead := some [], cheadSize :=
      if hpkg.chead.isNone then 0 else hpkg.cheadSize } ⟨rfl, rfl, rfl⟩
    ⟨rfl, rfl, rfl, rfl, rfl⟩ (.readRequest pk) (.readRequest pk) rfl rfl ⟨root, rfl⟩⟩
  simp [svrHttpRead, Http.package, Http.connection, held, found, readable, bind, Except.bind, pure,
    Except.pure]

/-- What is written for a bad request. -/
def answer400 : Text := sline400 ++ crlf ++ crlf

/-- A bad request is answered. -/
theorem write400_passes (runs : Runs http pk cn done) (serves : cn.Serves)
    (held : http.packages pk = some hpkg) (child : pk.number ≠ 0) (fresh : hpkg.headkey = none)
    (around : Surroundings) (because : cn.closesWrite = true → reason) :
    ∃ after, svrHttpWrite400 around pk http = .ok after ∧
    Passes reason (· = .write400 pk answer400) pk http after := by
  let answered : HPKG := { hpkg with hst := .writing, wst := .head, hsn := .badRequest400 }
  obtain ⟨found, line, _⟩ := id runs
  rcases id serves with connected | closing
  · have open' : cn.closesWrite = false := by simp [Conn.closesWrite, connected]
    refine ⟨_, ?_, runs.starts serves held { answered with
      chead := some answer400, cheadSize := answer400.length } ⟨rfl, rfl, rfl⟩
      ⟨rfl, rfl, rfl, rfl, rfl⟩ (.write400 pk answer400) (.write400 pk) rfl rfl
      ⟨child, connected, rfl, rfl, fresh⟩⟩
    simp [svrHttpWrite400, answer400, Http.package, Http.connection, held, found, open', answered,
      bind, Except.bind, pure,
      Except.pure]
  · have closes : cn.closesWrite = true := by simp [Conn.closesWrite, closing]
    obtain ⟨after, ran, passes⟩ :=
      final_passes (runs.setPackage answered held rfl rfl rfl) (fun _ => serves) around _
      (because closes)
    have moves := (Moves.refl http pk.conn).setPackage pk.number answered
      ((Kin.held held).like ⟨rfl, rfl, rfl, rfl, rfl⟩)
    refine ⟨after, ?_, moves.passes passes⟩
    simpa [svrHttpWrite400, Http.package, Http.connection, held, found, closes, bind,
      Except.bind] using ran

end EventDisp.Server
