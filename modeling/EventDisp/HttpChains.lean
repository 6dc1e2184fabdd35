import EventDisp.HttpRuns
import EventDisp.HttpScanning

/-! What a read leaves: the children that `svr_http_parse` makes of it, each linked
to the next, and a task for the first of them. -/
namespace EventDisp.Server

open Execution

variable {before http after : Http} {pk : PackagePtr} {cn : Conn} {first index : Nat}
  {gks : List HPKG} {gk : HPKG}
variable {server : Server} {bytes stale memory : Text} {around : Surroundings}

/-- The first of the children, if there are any. -/
def firstChild (pk : PackagePtr) (first : Nat) : List HPKG → Option PackagePtr
  | [] => none
  | _ :: _ => some ⟨pk.conn, first⟩

/-- A child as it is linked to its parent and to the next child. -/
def HPKG.linked (gk : HPKG) (parent : PackagePtr) (next : Option PackagePtr) : HPKG :=
  { gk with ppg := some parent, nsg := next }

/-- The children of a package that has had none, linked in order from a number on. -/
structure Chained (before after : Http) (pk : PackagePtr) (first : Nat) (gks : List HPKG) :
    Prop where
  child : ∀ index gk, gks[index]? = some gk → after.packages ⟨pk.conn, first + index⟩ =
    some (gk.linked pk (if index + 1 < gks.length then some ⟨pk.conn,
      first + (index + 1)⟩ else none))
  last : ∃ root, after.packages pk = some root ∧
    root.lcg = if gks = [] then none else some ⟨pk.conn, first + (gks.length - 1)⟩
  others : ∀ other, other ≠ pk → (∀ index < gks.length, other ≠ ⟨pk.conn, first + index⟩) →
    after.packages other = before.packages other

/-- Where the loop of `svr_http_parse` stands when it has made the children. -/
private structure Adding (before http : Http) (pk : PackagePtr) (cn : Conn) (gks : List HPKG) : Prop
    extends Chained before http pk cn.packages gks where
  conn : http.conns pk.conn = some { cn with packages := cn.packages + gks.length }
  tasks : http.tasks = before.tasks
  aios : http.aios = before.aios
  log : http.log = before.log ++ (List.range' cn.packages gks.length).map fun number =>
    .created ⟨pk.conn, number⟩

private theorem younger (inside : pk.number < first) (index : Nat) :
    (⟨pk.conn, first + index⟩ : PackagePtr) ≠ pk := by
  intro same
  have numbers := congrArg PackagePtr.number same
  dsimp only at numbers
  omega

/-- What is done before a child is linked. -/
private theorem Adding.grown (adding : Adding before http pk cn gks) (gk : HPKG) :
    let grown := withChild pk { cn with packages := cn.packages + gks.length } gk http
    grown.conns pk.conn = some { cn with packages := cn.packages + (gks.length + 1) } ∧
      grown.log = before.log ++ (List.range' cn.packages (gks.length + 1)).map fun number =>
        .created ⟨pk.conn, number⟩ := by
  refine ⟨by simp [withChild, Nat.add_assoc], ?_⟩
  rw [List.range'_concat, List.map_append, ← List.append_assoc, ← adding.log, Nat.one_mul]
  rfl

/-- The first child is added. -/
private theorem Adding.addFirst (adding : Adding before http pk cn [])
    (inside : pk.number < cn.packages) (alone : gk.nsg = none) :
    ∃ after, addChild pk gk none http = .ok (some ⟨pk.conn, cn.packages⟩, after) ∧
    Adding before after pk cn [gk] := by
  obtain ⟨root, there, lcg⟩ := adding.last
  obtain ⟨conn, log⟩ := adding.grown gk
  have held : (withChild pk { cn with packages := cn.packages + 0 } gk http).packages pk =
    some root := by
    rw [withChild_packages, if_neg (younger inside 0).symm, there]
  refine ⟨_, addChild_first none adding.conn held lcg, ⟨?_,
    ⟨{ root with lcg := some ⟨pk.conn, cn.packages⟩ }, by simp, by simp⟩, ?_⟩, conn,
    adding.tasks, adding.aios, log⟩
  · intro index child found
    obtain ⟨rfl, rfl⟩ : index = 0 ∧ gk = child := by
      cases index <;> simp_all
    rw [setPackage_packages, if_neg (younger inside 0), withChild_packages]
    simp [HPKG.linked, alone]
  · intro other away unmade
    have new := unmade 0 (by simp)
    rw [setPackage_packages, if_neg away, withChild_packages, if_neg (by simpa using new)]
    exact adding.others other away (by simp)

/-- A child is added behind the last one. -/
private theorem Adding.addNext {latest : HPKG} (fget : Option PackagePtr)
    (adding : Adding before http pk cn (gks ++ [latest])) (inside : pk.number < cn.packages)
    (alone : gk.nsg = none) :
    ∃ after, addChild pk gk fget http = .ok (fget, after) ∧
    Adding before after pk cn (gks ++ [latest] ++ [gk]) := by
  obtain ⟨root, there, lcg⟩ := adding.last
  obtain ⟨conn, log⟩ := adding.grown gk
  have behind := adding.child gks.length latest (by simp)
  rw [if_neg (by simp)] at behind
  have apart (number : Nat) (less : number < gks.length + 1) :
      (⟨pk.conn, cn.packages + number⟩ : PackagePtr) ≠ ⟨pk.conn,
      cn.packages + (gks ++ [latest]).length⟩ := by
    simp only [List.length_append, List.length_singleton, ne_eq, PackagePtr.mk.injEq, true_and]
    omega
  have held : (withChild pk { cn with packages := cn.packages + (gks ++ [latest]).length } gk
    http).packages pk = some root := by
    rw [withChild_packages, if_neg (younger inside _).symm, there]
  have called : root.lcg = some ⟨pk.conn, cn.packages + gks.length⟩ := by simpa using lcg
  have ran := addChild_next fget adding.conn held called
    (by rw [withChild_packages, if_neg (apart _ (Nat.lt_succ_self _)), behind])
    (younger inside _).symm
  refine ⟨_, ran, ⟨?_, ⟨{ root with lcg := some ⟨pk.conn, cn.packages + (gks ++ [latest]).length⟩ },
    by simp, by simp⟩, ?_⟩, by simpa using conn, adding.tasks, adding.aios, by simpa using log⟩
  · intro index child found
    rw [setPackage_packages, if_neg (younger inside _), setPackage_packages, withChild_packages]
    rcases Nat.lt_trichotomy index gks.length with earlier | rfl | later
    · have same :=
        adding.child index child (by rwa [List.getElem?_append_left (by simp; omega)] at found)
      rw [if_neg (by simp; omega), if_neg (apart index (by omega)), same, if_pos (by simp; omega),
        if_pos (by simp; omega)]
    · obtain rfl : latest = child := by simpa using found
      rw [if_pos rfl, if_pos (by simp)]
      simp [HPKG.linked]
    · have within := (List.getElem?_eq_some_iff.mp found).1
      obtain rfl : index = (gks ++ [latest]).length := by
        simp at within ⊢
        omega
      obtain rfl : gk = child := by simpa using found
      rw [if_neg (by simp), if_pos rfl, if_neg (by simp)]
      simp [HPKG.linked, alone]
  · intro other away unmade
    rw [setPackage_packages, if_neg away, setPackage_packages, if_neg (unmade gks.length (by simp)),
      withChild_packages, if_neg (unmade (gks ++ [latest]).length (by simp))]
    exact adding.others other away fun index less => unmade index (by simp at less ⊢; omega)

private theorem Adding.add (adding : Adding before http pk cn gks)
    (inside : pk.number < cn.packages) (alone : gk.nsg = none) :
    ∃ after, addChild pk gk (firstChild pk cn.packages gks) http =
    .ok (firstChild pk cn.packages (gks ++ [gk]), after) ∧
      Adding before after pk cn (gks ++ [gk]) := by
  rcases List.eq_nil_or_concat' gks with rfl | ⟨front, latest, rfl⟩
  · exact adding.addFirst inside alone
  · have same : firstChild pk cn.packages (front ++ [latest] ++ [gk]) = firstChild pk cn.packages
      (front ++ [latest]) := by
      cases front <;> rfl
    rw [same]
    exact adding.addNext _ inside alone

private theorem Adding.start {root : HPKG} (found : http.conns pk.conn = some cn)
    (held : http.packages pk = some root) (childless : root.lcg = none) :
    Adding http http pk cn [] where
  child := by simp
  last := ⟨root, held, childless⟩
  others _ _ _ := rfl
  conn := found
  tasks := rfl
  aios := rfl
  log := by simp

/-- The loop makes exactly the children of the text. -/
private theorem parseLoop_adding (memory : Text) (pe rounds ph : Nat)
    (adding : Adding before http pk cn gks) (inside : pk.number < cn.packages) :
    ∃ after, parseLoop pk memory pe rounds ph (firstChild pk cn.packages gks) http =
        .ok (firstChild pk cn.packages (gks ++ children memory pe rounds ph), after) ∧
      Adding before after pk cn (gks ++ children memory pe rounds ph) := by
  induction rounds generalizing ph gks http with
  | zero => exact ⟨http, by simp [parseLoop, children], by simpa [children] using adding⟩
  | succ rounds ih =>
    unfold parseLoop children
    split
    · rcases parsed : parseLine memory pe ph with ⟨_ | gk, next⟩
      · exact ih next adding
      · obtain ⟨middle, added, grown⟩ := adding.add inside (parseLine_fresh parsed).2
        obtain ⟨after, ran, all⟩ := ih next grown
        rw [List.append_assoc, List.singleton_append] at ran all
        exact ⟨after, by simpa only [added, bind, Except.bind] using ran, all⟩
    · exact ⟨http, by simp, by simpa using adding⟩

/-- What a read leaves behind: the children, linked, and a task for the first, or to go on
reading when there are none. -/
structure Parsed (before after : Http) (index : Nat) (pk : PackagePtr) (first : Nat)
    (gks : List HPKG) : Prop
    extends Chained before after pk first gks where
  tasks : after.tasks = before.tasks ++ [((firstChild pk first gks).map Task.fetch).getD (.read pk)]
  aios : after.aios = before.aios.eraseIdx index
  log : after.log = before.log ++ (List.range' first gks.length).map
    (fun number => .created ⟨pk.conn, number⟩) ++
    [((firstChild pk first gks).map Event.activated).getD (.rearmed pk)]

/-- A package without children gets those of its text. -/
private theorem parse_makes {root : HPKG} (held : http.packages pk = some root)
    (found : http.conns pk.conn = some cn) (writes : cn.closesWrite = false)
    (text : root.chead = some memory) (childless : root.lcg = none)
    (inside : pk.number < cn.packages) (around : Surroundings) :
    ∃ after, svrHttpParse around pk http = .ok after ∧
      Chained http after pk cn.packages (scan memory root.cheadSize) ∧ after.aios = http.aios ∧
      after.tasks = http.tasks ++
      [((firstChild pk cn.packages (scan memory root.cheadSize)).map Task.fetch).getD (.read pk)] ∧
      after.log = http.log ++
        (List.range' cn.packages (scan memory root.cheadSize).length).map
        (fun number => .created ⟨pk.conn, number⟩) ++
          [((firstChild pk cn.packages (scan memory root.cheadSize)).map Event.activated).getD
            (.rearmed pk)] := by
  have parsing : (http.setPackage pk { root with hst := .parsing }).packages pk =
    some { root with hst := .parsing } := by simp
  have start : Adding _ (http.setPackage pk { root with hst := .parsing }) pk cn [] :=
    .start found parsing childless
  obtain ⟨after, looped, ⟨child, last, others⟩, conn, tasks, aios, log⟩ :=
    parseLoop_adding memory root.cheadSize root.cheadSize 0 start inside
  rw [List.nil_append] at looped child last others conn log
  have away (other : PackagePtr) (different : other ≠ pk)
      (unmade : ∀ index < (scan memory root.cheadSize).length,
        other ≠ ⟨pk.conn, cn.packages + index⟩) :
      after.packages other = http.packages other := by
    rw [others other different unmade, setPackage_packages, if_neg different]
  change parseLoop _ _ _ _ _ none _ = _ at looped
  rw [text] at looped
  unfold scan at away ⊢
  cases first : firstChild pk cn.packages (children memory root.cheadSize root.cheadSize 0) with
  | some fget =>
    have ran : svrHttpParse around pk http =
      .ok ((after.enqueue (.fetch fget)).emit (.activated fget)) := by
      simp only [svrHttpParse, Http.package, Http.connection, held, found, writes, text, looped,
        first, bind, Except.bind,
        Bool.false_eq_true, if_false]
      rfl
    exact ⟨_, ran, ⟨child, last, away⟩, aios, congrArg (· ++ _) tasks, congrArg (· ++ _) log⟩
  | none =>
    have ran : svrHttpParse around pk http =
      .ok ((after.enqueue (.read pk)).emit (.rearmed pk)) := by
      simp only [svrHttpParse, Http.package, Http.connection, held, found, writes, text, looped,
        first, bind, Except.bind,
        Bool.false_eq_true, if_false]
      rfl
    exact ⟨_, ran, ⟨child, last, away⟩, aios, congrArg (· ++ _) tasks, congrArg (· ++ _) log⟩

/-- A read of a request leaves the children of its text. -/
theorem exec_parses (reached : Reachable program server)
    (reading : server.client.aios[index]? = some (.readRequest pk))
    (found : server.client.conns pk.conn = some cn) (writes : cn.closesWrite = false)
    (some' : bytes ≠ []) (fits : bytes.length < maxRequest) (stale : Text) (around : Surroundings) :
    ∃ after, exec server (.complete index (.read bytes stale) around) = .ok after ∧
    after.cache = server.cache ∧
      Parsed server.client after.client index pk cn.packages (scan bytes (bytes.length - 1)) := by
  have shows : (Aio.readRequest pk).work = some (.readRequest pk) := rfl
  obtain ⟨now, done, hpkg, hand, _, reads, _⟩ :=
    (reachable_sound reached).takeAio reading shows (without_aio server.client index)
    rfl rfl
  obtain ⟨known, line, tied, _⟩ := id hand.runs
  obtain rfl : now = cn := Option.some.inj (known.symm.trans found)
  obtain ⟨whole, last, _⟩ := hand.runs.root reads.1
  have there : server.client.packages pk = some hpkg := hand.there
  have childless : hpkg.lcg = none := by
    rw [tied hpkg (whole ▸ there), if_neg (by omega)]
  have inside : pk.number < now.packages := by
    have within := line.remaining
    rw [reads.1]
    omega
  have size : subSize bytes.length 1 = bytes.length - 1 := by
    have positive := List.length_pos_iff.mpr some'
    unfold subSize
    unfold maxRequest at fits
    omega
  have held : (Http.setPackage { server.client with aios := server.client.aios.eraseIdx index } pk
        { hpkg with hst := .parsing, chead := some bytes, cheadSize := bytes.length - 1 }).packages
        pk =
      some { hpkg with hst := .parsing, chead := some bytes, cheadSize := bytes.length - 1 } := by
        simp
  obtain ⟨after, ran, ⟨child, last, others⟩, aios, tasks, log⟩ :=
    parse_makes held found writes rfl childless inside around
  refine ⟨{ server with client := after }, ?_, rfl, ⟨child, last, ?_⟩, tasks, aios, log⟩
  · simp only [exec, reading, handle, svrHttpParseAio, Http.package, Http.connection, there, found,
      writes, size, bind, Except.bind,
      List.length_eq_zero_iff, some', Bool.false_eq_true, if_false, apart, ran, pure, Except.pure]
  · intro other away unmade
    rw [others other away unmade, setPackage_packages, if_neg away]

end EventDisp.Server
