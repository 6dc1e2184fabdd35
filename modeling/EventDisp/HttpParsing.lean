import EventDisp.HttpPassing

/-! `svr_http_parse`: the loop over the lines of a request makes children and links
them in order. -/
namespace EventDisp.Server

variable {http after : Http} {conn number : Nat} {cn : Conn} {done active : Nat} {pk : PackagePtr}
  {hpkg : HPKG}
variable {reason : Prop}

/-- A child is made, and linked behind the last one. -/
private theorem Line.add (line : Line http conn cn done active)
    (log : after.log = http.log ++ [.created ⟨conn, cn.packages⟩])
    (new : ∃ gk, after.packages ⟨conn, cn.packages⟩ = some gk ∧ gk.ppg = some ⟨conn, 0⟩ ∧
      gk.nsg = none ∧ gk.Fresh)
    (linked : ∀ number hpkg, http.packages ⟨conn, number⟩ = some hpkg →
      ∃ next, after.packages ⟨conn, number⟩ = some next ∧ next.ppg = hpkg.ppg ∧
      (hpkg.Fresh → next.Fresh) ∧
        (done < number → next.nsg = if number + 1 = cn.packages then some
          ⟨conn, cn.packages⟩ else hpkg.nsg))
    (others : ∀ number, number ≠ cn.packages → http.packages ⟨conn, number⟩ = none →
      after.packages ⟨conn, number⟩ = none) :
    Line after conn { cn with packages := cn.packages + 1 } done active := by
  have remaining := line.remaining
  refine ⟨Nat.lt_succ_of_lt line.remaining, ?_, ?_, ?_, ?_, ?_, ?_, ?_, ?_,
    ?_, ?_, ?_⟩
  · rw [log]
    exact List.mem_append_left _ line.accepted
  · simpa [log] using line.opened
  · have whole : 1 + (cn.packages - 1) = cn.packages := by omega
    rw [show cn.packages + 1 - 1 = cn.packages - 1 + 1 by omega, List.range'_concat]
    simp [log, Event.created?, line.created, whole]
  · simpa [log, Event.activated?] using line.activated
  · simpa [log, Event.finalised?] using line.finalised
  · rw [log]
    exact line.rearms.append fun event member earlier same => by simp_all
  · obtain ⟨root, found, parent⟩ := line.root
    obtain ⟨next, there, ppg, _⟩ := linked 0 root found
    exact ⟨next, there, ppg.trans parent⟩
  · intro number later within
    dsimp only at within ⊢
    by_cases latest : number = cn.packages
    · subst latest
      obtain ⟨gk, there, ppg, nsg, _⟩ := new
      exact ⟨gk, there, ppg, by simpa using nsg⟩
    · obtain ⟨hpkg, found, parent, sibling⟩ := line.child number later (by omega)
      obtain ⟨next, there, ppg, _, nsg⟩ := linked number hpkg found
      refine ⟨next, there, ppg.trans parent, (nsg later).trans ?_⟩
      by_cases final : number + 1 = cn.packages
      · rw [if_pos final, if_pos (by omega), final]
      · rw [if_neg final, sibling, if_pos (by omega), if_pos (by omega)]
  · intro number hpkg later there
    by_cases latest : number = cn.packages
    · subst latest
      obtain ⟨gk, made, _, _, fresh⟩ := new
      rw [made] at there
      cases there
      exact fresh
    · cases found : http.packages ⟨conn, number⟩ with
      | none =>
        rw [others number latest found] at there
        cases there
      | some before =>
        obtain ⟨next, same, _, fresh, _⟩ := linked number before found
        rw [same] at there
        cases there
        exact fresh (line.fresh number before later found)
  · intro number positive gone
    exact others number (by omega) (line.gone number positive gone)
  · intro number beyond
    dsimp only at beyond
    exact others number (by omega) (line.beyond number (by omega))

/-- Where the loop of `svr_http_parse` stands. -/
private def Parsing (pk : PackagePtr) (cst : ConnST) (done : Nat) (start http : Http)
    (fget : Option PackagePtr) : Prop :=
  ∃ cn events, cn.cst = cst ∧ http.conns pk.conn = some cn ∧ Line http pk.conn cn done done ∧
    Tied http pk.conn cn done ∧ Moves pk.conn start http [] [] events ∧
    (∀ event ∈ events, ∃ child, event = .created child) ∧
    fget = if done + 1 < cn.packages then some ⟨pk.conn, done + 1⟩ else none

/-- A package is made, and not linked yet. -/
def withChild (pk : PackagePtr) (cn : Conn) (gk : HPKG) (http : Http) : Http :=
  ((http.setConn pk.conn { cn with packages := cn.packages + 1 }).setPackage ⟨pk.conn, cn.packages⟩
    { gk with ppg := some pk }).emit (.created ⟨pk.conn, cn.packages⟩)

theorem addChild_first (fget : Option PackagePtr) {gk parent : HPKG}
    (found : http.conns pk.conn = some cn)
    (held : (withChild pk cn gk http).packages pk = some parent) (childless : parent.lcg = none) :
    addChild pk gk fget http = .ok (some ⟨pk.conn, cn.packages⟩,
      (withChild pk cn gk http).setPackage pk
      { parent with lcg := some ⟨pk.conn, cn.packages⟩ }) := by
  unfold withChild at held ⊢
  simp only [addChild, Http.connection, found, bind, Except.bind, pure, Except.pure, Http.package,
    held, childless]

theorem addChild_next (fget : Option PackagePtr) {gk parent sibling : HPKG} {last : PackagePtr}
    (found : http.conns pk.conn = some cn)
    (held : (withChild pk cn gk http).packages pk = some parent) (lcg : parent.lcg = some last)
    (behind : (withChild pk cn gk http).packages last = some sibling) (apart : pk ≠ last) :
    addChild pk gk fget http = .ok (fget,
      ((withChild pk cn gk http).setPackage last
        { sibling with nsg := some ⟨pk.conn, cn.packages⟩ }).setPackage pk
        { parent with lcg := some ⟨pk.conn, cn.packages⟩ }) := by
  unfold withChild at held behind ⊢
  simp only [addChild, Http.connection, found, bind, Except.bind, pure, Except.pure, Http.package,
    held, lcg, behind]
  rw [setPackage_packages, if_neg apart, held]

theorem withChild_packages {gk : HPKG} (other : PackagePtr) :
    (withChild pk cn gk http).packages other =
    if other = ⟨pk.conn, cn.packages⟩ then some { gk with ppg := some pk } else http.packages
    other :=
  setPackage_packages other

/-- A package that is not there yet has not been made. -/
private theorem Line.unmade (line : Line http conn cn done active) :
    .created ⟨conn, cn.packages⟩ ∉ http.log := by
  intro made
  have remaining := line.remaining
  have listed : cn.packages ∈ createdOf conn http.log := mem_createdOf.mpr made
  rw [line.created, List.mem_range'_1] at listed
  omega

private theorem withChild_moves {start : Http} {events : List Event} {gk : HPKG}
    (moves : Moves conn start http [] [] events) (found : http.conns conn = some cn)
    (line : Line http conn cn done active) (fresh : gk.Fresh) :
    Moves conn start (withChild ⟨conn, 0⟩ cn gk http)
    [] [] (events ++ [.created ⟨conn, cn.packages⟩]) := by
  have blank : ({ gk with ppg := some ⟨conn, 0⟩ } : HPKG).Blank :=
    ⟨fresh.trOffset, fresh.headkey, fresh.hfd⟩
  have remaining := line.remaining
  have new : .created ⟨conn, cn.packages⟩ ∉ start.log := fun made => line.unmade (by
    rw [moves.log]
    exact List.mem_append_left _ made)
  have numbered : Moves conn start (http.setConn conn { cn with packages := cn.packages + 1 })
    [] [] events :=
    moves.setConn found rfl
  exact (numbered.setPackage cn.packages _ (.inr ⟨blank, by dsimp only; omega, new⟩)).emit ⟨rfl,
    rfl⟩

private theorem Line.within (line : Line http conn cn done active)
    (there : http.packages ⟨conn, number⟩ = some hpkg) :
    number < cn.packages := by
  by_contra beyond
  rw [line.beyond number (by omega)] at there
  cases there

private theorem fresh_adopted {gk : HPKG} (fresh : gk.Fresh) (parent : PackagePtr) :
    ({ gk with ppg := some parent } : HPKG).Fresh :=
  ⟨fresh.chead, fresh.headkey, fresh.bodykey, fresh.hfd, fresh.trOffset⟩

private theorem Line.addFirst (line : Line http conn cn done active) (last : done + 1 = cn.packages)
    {gk : HPKG} (fresh : gk.Fresh) (nsg : gk.nsg = none) :
    Line (withChild ⟨conn, 0⟩ cn gk http) conn { cn with packages := cn.packages + 1 } done
    active := by
  refine line.add rfl ⟨{ gk with ppg := some ⟨conn, 0⟩ }, ?_, rfl, nsg, fresh_adopted fresh _⟩
    (fun number hpkg there => ?_) fun number other gone => ?_
  · simp [withChild_packages]
  · have within := line.within there
    refine ⟨hpkg, ?_, rfl, id, ?_⟩
    · rw [withChild_packages, if_neg (by simp only [PackagePtr.mk.injEq, true_and]; omega), there]
    · intro later
      omega
  · rw [withChild_packages, if_neg (by simpa using other), gone]

private theorem Line.addNext (line : Line http conn cn done active) {gk sibling : HPKG}
    (behind : http.packages ⟨conn, cn.packages - 1⟩ = some sibling) (fresh : gk.Fresh)
    (nsg : gk.nsg = none) :
    Line ((withChild ⟨conn, 0⟩ cn gk http).setPackage ⟨conn, cn.packages - 1⟩
        { sibling with nsg := some ⟨conn, cn.packages⟩ }) conn
        { cn with packages := cn.packages + 1 } done active := by
  have remaining := line.remaining
  refine line.add rfl ⟨{ gk with ppg := some ⟨conn, 0⟩ }, ?_, rfl, nsg, fresh_adopted fresh _⟩
    (fun number hpkg there => ?_) fun number other gone => ?_
  · rw [setPackage_packages, if_neg (by simp only [PackagePtr.mk.injEq, true_and]; omega),
      withChild_packages, if_pos rfl]
  · have within := line.within there
    by_cases latest : number = cn.packages - 1
    · subst latest
      rw [behind] at there
      cases there
      refine ⟨{ sibling with nsg := some ⟨conn, cn.packages⟩ }, by simp, rfl, ?_, ?_⟩
      · intro fresh
        exact ⟨fresh.chead, fresh.headkey, fresh.bodykey, fresh.hfd, fresh.trOffset⟩
      · intro _
        rw [if_pos (by omega)]
    · refine ⟨hpkg, ?_, rfl, id, fun _ => by rw [if_neg (by omega)]⟩
      rw [setPackage_packages, if_neg (by simpa using latest), withChild_packages,
        if_neg (by simp only [PackagePtr.mk.injEq, true_and]; omega), there]
  · have apart : number ≠ cn.packages - 1 := by
      rintro rfl
      rw [behind] at gone
      cases gone
    rw [setPackage_packages, if_neg (by simpa using apart), withChild_packages,
      if_neg (by simpa using other), gone]

private theorem addChild_parsing {start : Http} {cst : ConnST} {fget : Option PackagePtr}
    {gk : HPKG} (parsing : Parsing ⟨conn, 0⟩ cst done start http fget) (fresh : gk.Fresh)
    (nsg : gk.nsg = none) :
    ∃ first after, addChild ⟨conn, 0⟩ gk fget http = .ok (first, after) ∧
      Parsing ⟨conn, 0⟩ cst done start after first := by
  obtain ⟨cn, events, status, found, line, tied, moves, making, first⟩ := parsing
  dsimp only at found line tied first
  have remaining := line.remaining
  obtain ⟨parent, there, orphan⟩ := line.root
  have lcg := tied parent there
  have held : (withChild ⟨conn, 0⟩ cn gk http).packages ⟨conn, 0⟩ = some parent := by
    rw [withChild_packages, if_neg (by simp only [PackagePtr.mk.injEq, true_and]; omega), there]
  have moved := withChild_moves moves found line fresh
  have making' : ∀ event ∈ events ++ [.created ⟨conn, cn.packages⟩], ∃ child,
    event = .created child := by
    intro event member
    exact (List.mem_append.mp member).elim (making event) fun new => ⟨_, List.mem_singleton.mp new⟩
  by_cases more : done + 1 < cn.packages
  · -- The last child gets a sibling.
    rw [if_pos more] at lcg
    obtain ⟨sibling, behind, _, _⟩ := line.child (cn.packages - 1) (by omega) (by omega)
    have apart : (⟨conn, 0⟩ : PackagePtr) ≠ ⟨conn, cn.packages - 1⟩ := by
      simp only [ne_eq, PackagePtr.mk.injEq, true_and]
      omega
    have ran := addChild_next fget found held lcg
      (by rw [withChild_packages, if_neg (by simp only [PackagePtr.mk.injEq, true_and]; omega), behind]) apart
    have kept : ((withChild ⟨conn, 0⟩ cn gk http).setPackage ⟨conn, cn.packages - 1⟩
        { sibling with nsg := some ⟨conn, cn.packages⟩ }).packages ⟨conn, 0⟩ = some parent := by
      rw [setPackage_packages, if_neg apart, held]
    refine ⟨_, _, ran, { cn with packages := cn.packages + 1 }, _,
      status, by simp [withChild, Http.setConn],
      (line.addNext behind fresh nsg).setPackage { parent with lcg := some ⟨conn, cn.packages⟩ }
      kept rfl rfl
        fun impossible => absurd impossible (Nat.not_lt_zero _), ?_,
      (moved.setPackage (cn.packages - 1) { sibling with nsg := some ⟨conn, cn.packages⟩ }
        ((moves.kin _ _ behind).like ⟨rfl, rfl, rfl, rfl, rfl⟩)).setPackage 0
        { parent with lcg := some ⟨conn, cn.packages⟩ }
          ((moves.kin _ _ there).like ⟨rfl, rfl, rfl, rfl, rfl⟩), making', ?_⟩
    · intro root there
      rw [setPackage_packages, if_pos rfl] at there
      cases there
      rw [if_pos (by dsimp only; omega)]
      rfl
    · rw [first, if_pos more, if_pos (by dsimp only; omega)]
  · rw [if_neg more] at lcg
    have ran := addChild_first fget found held lcg
    refine ⟨_, _, ran, { cn with packages := cn.packages + 1 }, _,
      status, by simp [withChild, Http.setConn],
      (line.addFirst (by omega) fresh nsg).setPackage
      { parent with lcg := some ⟨conn, cn.packages⟩ } held rfl rfl
        fun impossible => absurd impossible (Nat.not_lt_zero _), ?_,
      moved.setPackage 0 { parent with lcg := some ⟨conn, cn.packages⟩ }
        ((moves.kin _ _ there).like ⟨rfl, rfl, rfl, rfl, rfl⟩), making', ?_⟩
    · intro root there
      rw [setPackage_packages, if_pos rfl] at there
      cases there
      rw [if_pos (by dsimp only; omega)]
      rfl
    · rw [if_pos (by dsimp only; omega)]
      have same : cn.packages = done + 1 := by omega
      rw [same]

theorem parseLine_fresh {memory : Text} {pe ph next : Nat} {gk : HPKG}
    (made : parseLine memory pe ph = (some gk, next)) : gk.Fresh ∧ gk.nsg = none := by
  unfold parseLine at made
  dsimp only at made
  repeat' split at made
  all_goals cases made
  all_goals exact ⟨⟨rfl, rfl, rfl, rfl, rfl⟩, rfl⟩

private theorem parseLoop_parsing (memory : Text) (pe rounds ph : Nat) {start : Http} {cst : ConnST}
    {fget : Option PackagePtr} (parsing : Parsing ⟨conn, 0⟩ cst done start http fget) :
    ∃ first after, parseLoop ⟨conn, 0⟩ memory pe rounds ph fget http = .ok (first, after) ∧
      Parsing ⟨conn, 0⟩ cst done start after first := by
  induction rounds generalizing ph fget http with
  | zero => exact ⟨fget, http, rfl, parsing⟩
  | succ rounds ih =>
    unfold parseLoop
    split
    · split
      · exact ih _ parsing
      · rename_i gk ph made
        obtain ⟨fresh, nsg⟩ := parseLine_fresh made
        obtain ⟨first, after, ran, grown⟩ := addChild_parsing parsing fresh nsg
        simp only [ran, bind, Except.bind]
        exact ih _ grown
    · exact ⟨fget, http, rfl, parsing⟩

/-- The root makes children for the requests it has read, and hands on to the first
of them, or goes on reading. -/
theorem parse_passes (runs : Runs http pk cn done) (serves : cn.Serves) (root : pk.number = 0)
    (held : http.packages pk = some hpkg) (buffer : hpkg.chead.isSome = true)
    (around : Surroundings) (issues : Aio → Prop) (because : cn.closesWrite = true → reason) :
    ∃ after, svrHttpParse around pk http = .ok after ∧ Passes reason issues pk http after := by
  obtain ⟨whole, last, ready⟩ := runs.root root
  by_cases closes : cn.closesWrite = true
  · obtain ⟨after, ran, passes⟩ :=
      final_passes runs (fun _ => serves) around issues (because closes)
    refine ⟨after, ?_, passes⟩
    simpa [svrHttpParse, Http.package, Http.connection, held, runs.1, closes, bind,
      Except.bind] using ran
  · obtain ⟨memory, chead⟩ := Option.isSome_iff_exists.mp buffer
    obtain ⟨found, line, tied, _⟩ := runs.setPackage { hpkg with hst := .parsing } held rfl rfl rfl
    obtain ⟨conn, number⟩ := pk
    subst root
    rw [ready] at line
    have parsing : Parsing ⟨conn, 0⟩ cn.cst done http
      (http.setPackage ⟨conn, 0⟩ { hpkg with hst := .parsing }) none :=
      ⟨cn, _, rfl, found, line, tied,
        (Moves.refl http conn).setPackage 0 _ ((Kin.held held).like ⟨rfl, rfl, rfl, rfl, rfl⟩),
        by simp, by rw [if_neg (by omega)]⟩
    obtain ⟨first, after, looped, now, events, status, found', line', tied', moves, making,
      shape⟩ :=
      parseLoop_parsing memory hpkg.cheadSize hpkg.cheadSize 0 parsing
    dsimp only at found' line' tied' shape moves
    rw [chead] at looped
    have ends {last : Event} (unlike : ∀ other, last ≠ .finalised other) :
        Finalises reason ⟨conn, 0⟩ (events ++ [last]) := by
      intro other member
      rcases List.mem_append.mp member with made | here
      · obtain ⟨_, impossible⟩ := making _ made
        cases impossible
      · exact absurd (List.mem_singleton.mp here).symm (unlike other)
    have still : now.Serves := by
      unfold Conn.Serves
      rw [status]
      exact serves
    by_cases more : done + 1 < now.packages
    · rw [if_pos more] at shape
      subst shape
      have ran : svrHttpParse around ⟨conn, 0⟩ http =
          .ok ((after.enqueue (.fetch ⟨conn, done + 1⟩)).emit (.activated ⟨conn, done + 1⟩)) := by
        simp [svrHttpParse, Http.package, Http.connection, held, runs.1, closes, chead, looped,
          bind, Except.bind,
          pure, Except.pure]
      obtain ⟨child, there, _⟩ := line'.child (done + 1) (by omega) more
      have active : activeUpTo now done = done + 1 := by unfold activeUpTo; omega
      refine ⟨_, ran, .task (.fetch ⟨conn, done + 1⟩) _ rfl ((moves.enqueue _).emit ⟨rfl, rfl⟩)
        (ends (by simp)) ?_⟩
      refine ⟨now, done, child, ⟨found', ?_, tied', ?_⟩, still, there, ?_,
        line'.fresh (done + 1) child (by omega) there⟩
      · rw [active]
        exact (line'.same (.enqueue _)).activate
      · simp [Task.work, Work.pk, turn, more]
      · simp
    · rw [if_neg more] at shape
      subst shape
      have ran : svrHttpParse around ⟨conn, 0⟩ http =
          .ok ((after.enqueue (.read ⟨conn, 0⟩)).emit (.rearmed ⟨conn, 0⟩)) := by
        simp [svrHttpParse, Http.package, Http.connection, held, runs.1, closes, chead, looped,
          bind, Except.bind,
          pure, Except.pure]
      have remaining := line'.remaining
      obtain ⟨parent, there, _⟩ := line'.root
      have active : activeUpTo now done = done := by unfold activeUpTo; omega
      refine ⟨_, ran, .task (.read ⟨conn, 0⟩) _ rfl ((moves.enqueue _).emit ⟨rfl, rfl⟩)
        (ends (by simp)) ?_⟩
      refine ⟨now, done, parent, ⟨found', ?_, tied', ?_⟩, still, there, rfl⟩
      · rw [active]
        exact (line'.same (.enqueue _)).rearm (by omega)
      · simp [Task.work, Work.pk, turn, more]

end EventDisp.Server
