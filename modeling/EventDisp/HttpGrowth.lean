import EventDisp.CacheOperations
import EventDisp.General.Outcome
import EventDisp.HttpHistory
import EventDisp.HttpScanning

/-! The history only grows: no handler takes back what has happened, and only some tell
that a key is looked up. It tells which keys are in the cache: those that have been
reserved. -/
namespace EventDisp.Server

open Outcome

variable {log : List Event} {aios : List Aio} {origin http : Http} {server after middle : Server}
  {around : Surroundings} {pk : PackagePtr}
variable {key : Key} {cache : Cache Key Text Callback} {event : Event} {use : KeyUse} {may : Leave}

/-- The event is not about looking up or reserving a key, and not about a completed write. -/
def Event.quiet : Event → Bool
  | .asked .. | .reserved .. | .written .. => false
  | .accepted _ | .created _ | .activated _ | .rearmed _ | .finalised _ | .closed _ | .loading ..
  | .put .. | .cancelled .. | .delivered .. | .aborted _ | .released .. => true

/-- What a computation may do: look a key up for a package, and for what, and make a
package, and with what URI. -/
structure Leave where
  seeks : PackagePtr → KeyUse → Prop
  names : PackagePtr → Option Text → Prop

/-- Nothing is looked up and nothing is made. -/
def Leave.nothing : Leave := ⟨fun _ _ => False, fun _ _ => False⟩

/-- A package has the URI that it had, or one that it may be made with. -/
def Named (may : Leave) (origin http : Http) : Prop :=
  ∀ pk hpkg, http.packages pk = some hpkg →
    (∃ old, origin.packages pk = some old ∧ old.uri = hpkg.uri) ∨ may.names pk hpkg.uri

/-- The history has grown, nothing has been looked up, and no call has completed. -/
structure Adds (may : Leave) (origin http : Http) : Prop where
  told : ∃ more, origin.log ++ more = http.log ∧ ∀ event ∈ more, event.quiet = true
  named : Named may origin http
  aios : origin.aios <+: http.aios

theorem Named.refl (http : Http) : Named may http http :=
  fun _ hpkg there => .inl ⟨hpkg, there, rfl⟩

theorem Named.trans {between : Http} (one : Named may origin between)
    (two : Named may between http) : Named may origin http := by
  intro pk hpkg there
  rcases two pk hpkg there with ⟨middle, found, same⟩ | made
  · rcases one pk middle found with ⟨old, first, also⟩ | made
    · exact .inl ⟨old, first, also.trans same⟩
    · exact .inr (same ▸ made)
  · exact .inr made

theorem Adds.refl (http : Http) : Adds may http http :=
  ⟨⟨[], by simp, nofun⟩, .refl http, List.prefix_rfl⟩

theorem Adds.emit (grown : Adds may origin http) (quiet : event.quiet = true) :
    Adds may origin (http.emit event) := by
  obtain ⟨⟨more, same, still⟩, named, further⟩ := grown
  refine ⟨⟨more ++ [event], ?_, ?_⟩, named, further⟩
  · rw [← List.append_assoc, same]
    rfl
  · intro inner member
    rcases List.mem_append.mp member with before | last
    · exact still inner before
    · exact List.mem_singleton.mp last ▸ quiet

theorem Adds.enqueue (grown : Adds may origin http) (task : Task) :
    Adds may origin (http.enqueue task) :=
  ⟨grown.told, grown.named, grown.aios⟩

theorem Adds.issue (grown : Adds may origin http) (aio : Aio) : Adds may origin (http.issue aio) :=
  ⟨grown.told, grown.named, grown.aios.trans (List.prefix_append ..)⟩

theorem Adds.setConn (grown : Adds may origin http) (conn : Nat) (cn : Conn) :
    Adds may origin (http.setConn conn cn) :=
  ⟨grown.told, grown.named, grown.aios⟩

theorem Adds.deleteConn (grown : Adds may origin http) (conn : Nat) :
    Adds may origin (http.deleteConn conn) :=
  ⟨grown.told, grown.named, grown.aios⟩

/-- A package is changed, but for its URI. -/
theorem Adds.setPackage {old hpkg : HPKG} (grown : Adds may origin http)
    (there : http.packages pk = some old) (uri : hpkg.uri = old.uri) :
    Adds may origin (http.setPackage pk hpkg) := by
  refine ⟨grown.told, ?_, grown.aios⟩
  intro other changed found
  simp only [Http.setPackage, Function.update_apply] at found
  split at found
  · rename_i here
    cases found
    rw [here, uri]
    exact grown.named pk old there
  · exact grown.named other changed found

theorem Adds.deletePackage (grown : Adds may origin http) (pk : PackagePtr) :
    Adds may origin (http.deletePackage pk) := by
  refine ⟨grown.told, ?_, grown.aios⟩
  intro other changed found
  simp only [Http.deletePackage, Function.update_apply] at found
  split at found
  · cases found
  · exact grown.named other changed found

/-- A package is made. -/
theorem Adds.create {hpkg : HPKG} (grown : Adds may origin http) (names : may.names pk hpkg.uri) :
    Adds may origin (http.setPackage pk hpkg) := by
  refine ⟨grown.told, ?_, grown.aios⟩
  intro other changed found
  simp only [Http.setPackage, Function.update_apply] at found
  split at found
  · rename_i here
    cases found
    rw [here]
    exact .inr names
  · exact grown.named other changed found

/-- Whatever becomes of the computation, the history goes on from the given one. -/
abbrev Grows (may : Leave) (origin : Http) (outcome : Except Fault Http) : Prop :=
  Ends (fun _ => True) outcome (Adds may origin)

/-- Nothing is known of what a computation ends with. -/
private theorem ends_anyhow {α : Type} (outcome : Except Fault α) :
    Ends (fun _ => True) outcome fun _ => True := by
  cases outcome <;> trivial

private theorem package_eq_ok {hpkg : HPKG} : http.package pk = .ok hpkg ↔
    http.packages pk = some hpkg := by
  unfold Http.package
  cases http.packages pk <;> simp

private theorem connClose_grows (grown : Adds may origin http) (around : Surroundings)
    (conn : Nat) :
    Grows may origin (svrConnClose around conn http) := by
  unfold svrConnClose
  apply (ends_anyhow _).bind
  intro _ _ _
  dsimp only
  split
  · exact (grown.emit rfl).deleteConn conn
  · exact grown.emit rfl

private theorem final_grows (grown : Adds may origin http) (around : Surroundings)
    (pk : PackagePtr) :
    Grows may origin (svrHttpFinal around pk http) := by
  unfold svrHttpFinal
  apply (ends_anyhow _).bind
  intro hpkg _ _
  have finalised : Adds may origin ((http.deletePackage pk).emit (.finalised pk)) :=
    (grown.deletePackage pk).emit rfl
  dsimp only
  split
  · exact connClose_grows finalised around pk.conn
  · apply (ends_anyhow _).bind
    intro parent there _
    exact ((finalised.setPackage (package_eq_ok.mp there) (by rfl)).enqueue _).emit (by rfl)
  · exact (finalised.enqueue _).emit (by rfl)

private theorem read_grows (grown : Adds may origin http) (around : Surroundings)
    (pk : PackagePtr) :
    Grows may origin (svrHttpRead around pk http) := by
  unfold svrHttpRead
  refine (ends_anyhow _).bind fun hpkg there _ => (ends_anyhow _).bind fun _ _ _ => ?_
  split
  · exact final_grows grown around pk
  · have reading (changed : HPKG) (uri : changed.uri = hpkg.uri) :=
      (grown.setPackage (package_eq_ok.mp there) uri).issue (.readRequest pk)
    exact reading _ rfl

private theorem addChild_grows {gk : HPKG} (grown : Adds may origin http) (pk : PackagePtr)
    (names : ∀ number, may.names ⟨pk.conn, number⟩ gk.uri) (fget : Option PackagePtr) :
    Ends (fun _ => True) (addChild pk gk fget http) fun result => Adds may origin result.2 := by
  unfold addChild
  refine (ends_anyhow _).bind fun cn _ _ => (ends_anyhow _).bind fun parent there _ => ?_
  have made : Adds may origin
    ((http.setConn pk.conn { cn with packages := cn.packages + 1 }).setPackage
      ⟨pk.conn, cn.packages⟩ { gk with ppg := some pk }) :=
        (grown.setConn _ _).create (names cn.packages)
  have created : Adds may origin (_ : Http) :=
    made.emit (show (Event.created ⟨pk.conn, cn.packages⟩).quiet = true from rfl)
  split
  · exact created.setPackage (package_eq_ok.mp there) (by rfl)
  · refine (ends_anyhow _).bind fun sibling behind _ => (ends_anyhow _).bind fun parent again _ =>
      ?_
    exact (created.setPackage (package_eq_ok.mp behind) (by rfl)).setPackage
      (package_eq_ok.mp again) (by rfl)

private theorem parseLoop_grows (grown : Adds may origin http) (pk : PackagePtr) (memory : Text)
    (pe rounds ph : Nat)
    (names : ∀ gk ∈ children memory pe rounds ph, ∀ number, may.names ⟨pk.conn, number⟩ gk.uri)
    (fget : Option PackagePtr) :
    Ends (fun _ => True) (parseLoop pk memory pe rounds ph fget http) fun result =>
      Adds may origin result.2 := by
  induction rounds generalizing ph fget http with
  | zero => exact grown
  | succ rounds ih =>
    unfold children at names
    unfold parseLoop
    split
    · rename_i inside
      rw [if_pos inside] at names
      split
      · rename_i next parsed
        rw [parsed] at names
        exact ih grown _ names _
      · rename_i gk next parsed
        rw [parsed] at names
        apply (addChild_grows grown pk (names gk List.mem_cons_self) fget).bind
        intro result _ made
        exact ih made _ (fun gk member => names gk (List.mem_cons_of_mem _ member)) _
    · exact grown

private theorem parse_grows (grown : Adds may origin http) (around : Surroundings)
    (names : ∀ root memory, http.packages pk = some root → root.chead = some memory →
      ∀ gk ∈ scan memory root.cheadSize, ∀ number, may.names ⟨pk.conn, number⟩ gk.uri) :
    Grows may origin (svrHttpParse around pk http) := by
  unfold svrHttpParse
  refine (ends_anyhow _).bind fun hpkg there _ => (ends_anyhow _).bind fun _ _ _ => ?_
  split
  · exact final_grows grown around pk
  · split
    · trivial
    · rename_i memory text
      have begins : Adds may origin (http.setPackage pk { hpkg with hst := .parsing }) :=
        grown.setPackage (package_eq_ok.mp there) (by rfl)
      apply (parseLoop_grows begins pk memory _ _ _ (names hpkg memory
        (package_eq_ok.mp there) text) _).bind
      intro result _ made
      dsimp only
      split <;> exact (made.enqueue _).emit (by rfl)

private theorem headerWio_grows (grown : Adds may origin http) (around : Surroundings)
    (pk : PackagePtr) (cd : CacheData Text) :
    Grows may origin (svrHttpHeaderWio around pk cd http) := by
  unfold svrHttpHeaderWio
  refine (ends_anyhow _).bind fun hpkg there _ => (ends_anyhow _).bind fun _ _ _ => ?_
  have begins : Adds may origin (http.setPackage pk { hpkg with hst := .writing, wst := .head }) :=
    grown.setPackage (package_eq_ok.mp there) (by rfl)
  split
  · exact final_grows begins around pk
  · split
    · trivial
    · exact (begins.setPackage (Function.update_self ..) (by rfl)).issue _

private theorem write400_grows (grown : Adds may origin http) (around : Surroundings)
    (pk : PackagePtr) :
    Grows may origin (svrHttpWrite400 around pk http) := by
  unfold svrHttpWrite400
  refine (ends_anyhow _).bind fun hpkg there _ => (ends_anyhow _).bind fun _ _ _ => ?_
  have begins : Adds may origin
    (http.setPackage pk { hpkg with hst := .writing, wst := .head, hsn := .badRequest400 }) :=
    grown.setPackage (package_eq_ok.mp there) (by rfl)
  split
  · exact final_grows begins around pk
  · exact (begins.setPackage (Function.update_self ..) (by rfl)).issue _

/-! What the cache holds. -/

/-- A key is in the cache when it has been reserved, and the cache is not full. -/
structure Known (server : Server) : Prop where
  roomy : server.cache.currentSize ≤ server.cache.sizeQuota
  reserved : ∀ key, (∃ entry, server.cache.find key = some entry) ↔ ∃ pk,
    .reserved pk key ∈ server.client.log

/-- Some key has been reserved. -/
def Reserving (server : Server) : Prop := ∃ pk key, .reserved pk key ∈ server.client.log

/-- If a key has been looked up, some key has been reserved. -/
def Answered (server : Server) : Prop :=
  ∀ pk key use found, .asked pk key use found ∈ server.client.log → Reserving server

/-- The history is part of a lawful one. -/
def Promising (server : Server) : Prop :=
  ∃ whole, History.Throughout (Lawful fun _ _ => True) whole ∧ server.client.log <+: whole

/-- Keys are only looked up that may be looked up, and only for what, and no write is told
to have completed. -/
def Event.By (may : Leave) : Event → Prop
  | .asked pk _ use _ => may.seeks pk use
  | .reserved pk _ => ∃ use, may.seeks pk use
  | .written .. => False
  | .accepted _ | .created _ | .activated _ | .rearmed _ | .finalised _ | .closed _ | .loading ..
  | .put .. | .cancelled .. | .delivered .. | .aborted _ | .released .. => True

private theorem Event.quiet_by (quiet : event.quiet = true) : event.By may := by
  cases event <;> trivial

/-- The history has grown, and as far as it is lawful it still tells which keys are in the
cache. -/
structure Follows (may : Leave) (server after : Server) : Prop where
  told : ∃ more, server.client.log ++ more = after.client.log ∧ ∀ event ∈ more, event.By may
  named : Named may server.client after.client
  aios : server.client.aios <+: after.client.aios
  known : Promising after → Known server → Known after

/-- A lookup that finds nothing has been followed by a reservation, besides. -/
structure Acts (may : Leave) (server after : Server) : Prop extends Follows may server after where
  answered : Promising after → Known server → Answered server → Answered after

theorem Promising.earlier (promising : Promising after)
    (grown : server.client.log <+: after.client.log) : Promising server := by
  obtain ⟨whole, lawful, within⟩ := promising
  exact ⟨whole, lawful, grown.trans within⟩

theorem Follows.grown (follows : Follows may server after) :
    server.client.log <+: after.client.log := by
  obtain ⟨more, grown, _⟩ := follows.told
  exact ⟨more, grown⟩

private theorem Event.By.mono {allowed : Leave} (by' : event.By may)
    (wider : ∀ pk use, may.seeks pk use → allowed.seeks pk use) :
    event.By allowed := by
  cases event with
  | asked => exact wider _ _ by'
  | reserved =>
    obtain ⟨use, seeks⟩ := by'
    exact ⟨use, wider _ _ seeks⟩
  | written => exact by'
  | accepted | created | activated | rearmed | finalised | closed | loading | put | cancelled
  | delivered | aborted | released => trivial

theorem Follows.trans (one : Follows may server middle) (two : Follows may middle after) :
    Follows may server after := by
  refine ⟨?_, one.named.trans two.named, one.aios.trans two.aios,
    fun promising known => two.known promising (one.known (promising.earlier two.grown) known)⟩
  obtain ⟨more, grown, allowed⟩ := one.told
  obtain ⟨further, longer, still⟩ := two.told
  refine ⟨more ++ further, by rw [← longer, ← grown, List.append_assoc], ?_⟩
  intro event member
  exact (List.mem_append.mp member).elim (allowed event) (still event)

theorem Acts.refl (server : Server) : Acts may server server :=
  ⟨⟨⟨[], by simp, nofun⟩, .refl _, List.prefix_rfl, fun _ => id⟩, fun _ _ => id⟩

theorem Acts.trans (one : Acts may server middle) (two : Acts may middle after) :
    Acts may server after := by
  refine ⟨one.toFollows.trans two.toFollows, ?_⟩
  intro promising known answered
  have earlier := promising.earlier two.grown
  exact two.answered promising (one.known earlier known) (one.answered earlier known answered)

/-- More may be done. -/
private theorem Acts.mono {allowed : Leave} (acts : Acts may server after)
    (wider : ∀ pk use, may.seeks pk use → allowed.seeks pk use)
    (further : ∀ pk uri, may.names pk uri → allowed.names pk uri) : Acts allowed server after := by
  obtain ⟨⟨⟨more, grown, by'⟩, named, aios, known⟩, answered⟩ := acts
  exact ⟨⟨⟨more, grown, fun event member => (by' event member).mono wider⟩,
    fun pk hpkg there => (named pk hpkg there).imp_right (further pk _), aios, known⟩, answered⟩

/-- Something has been reserved. -/
private theorem Follows.reserving (follows : Follows may server after)
    (reserving : Reserving after) : Acts may server after :=
  ⟨follows, fun _ _ _ _ _ _ _ _ => reserving⟩

private theorem Reserving.later (reserving : Reserving server)
    (follows : Follows may server after) : Reserving after := by
  obtain ⟨pk, key, member⟩ := reserving
  exact ⟨pk, key, follows.grown.subset member⟩

/-- Whatever becomes of the computation, the server goes on from the given one. -/
abbrev Goes (may : Leave) (server : Server) (outcome : Except Fault Server) : Prop :=
  Ends (fun _ => True) outcome (Acts may server)

/-- As much is in the cache as before. -/
private theorem Known.same (known : Known server)
    (quota : after.cache.sizeQuota = server.cache.sizeQuota)
    (size : after.cache.currentSize = server.cache.currentSize)
    (found : ∀ key, (∃ entry, after.cache.find key = some entry) ↔ ∃ entry,
      server.cache.find key = some entry)
    (reserved : ∀ pk key, .reserved pk key ∈ after.client.log ↔
      .reserved pk key ∈ server.client.log) : Known after := by
  constructor
  · rw [quota, size]
    exact known.roomy
  · intro key
    rw [found, known.reserved]
    exact exists_congr fun pk => (reserved pk key).symm

/-- The cache holds the same keys, and nothing has been looked up or reserved. -/
private theorem acts_same (grown : Adds may server.client after.client)
    (quota : after.cache.sizeQuota = server.cache.sizeQuota)
    (size : after.cache.currentSize = server.cache.currentSize)
    (found : ∀ key, (∃ entry, after.cache.find key = some entry) ↔ ∃ entry,
      server.cache.find key = some entry) :
    Acts may server after := by
  obtain ⟨⟨more, grown, quiet⟩, named, aios⟩ := grown
  have old (event : Event) (seeks : event.quiet = false) (member : event ∈ after.client.log) :
    event ∈ server.client.log := by
    rw [← grown] at member
    apply (List.mem_append.mp member).resolve_right
    intro new
    rw [quiet event new] at seeks
    cases seeks
  have follows : Follows may server after := by
    refine ⟨⟨more, grown, fun event member => Event.quiet_by (quiet event member)⟩, named, aios,
      fun _ known => known.same quota size found fun pk key => ⟨old _ rfl, ?_⟩⟩
    intro member
    rw [← grown]
    exact List.mem_append_left _ member
  refine ⟨follows, ?_⟩
  intro _ _ answered pk key use lookedUp member
  exact (answered pk key use lookedUp (old _ rfl member)).later follows

/-- Everything but the cache has changed. -/
private theorem acts_client (grown : Adds may server.client http) :
    Acts may server { server with client := http } :=
  acts_same grown rfl rfl fun _ => Iff.rfl

private theorem acts_emit (server : Server) {event : Event} (quiet : event.quiet = true) :
    Acts may server (emit event server) :=
  acts_client ((Adds.refl _).emit quiet)

private theorem Acts.goes {outcome : Except Fault Server} (before : Acts may server middle)
    (goes : Goes may middle outcome) :
    Goes may server outcome :=
  goes.mono fun _ => before.trans

/-- Something has been changed at first. -/
private theorem Acts.quiet (acted : Acts may { server with client := http } after)
    (grown : Adds may server.client http) :
    Acts may server after :=
  (acts_client grown).trans acted

private theorem Goes.quiet {outcome : Except Fault Server}
    (goes : Goes may { server with client := http } outcome) (grown : Adds may server.client http) :
    Goes may server outcome :=
  goes.mono fun _ acted => acted.quiet grown

/-- A package is changed, but for its URI. -/
private theorem updates {old : HPKG} (there : http.package pk = .ok old) (hpkg : HPKG)
    (uri : hpkg.uri = old.uri) :
    Adds may http (http.setPackage pk hpkg) :=
  (Adds.refl http).setPackage (package_eq_ok.mp there) uri

/-- A package is changed again. -/
private theorem updated {old : HPKG} (hpkg : HPKG) (uri : hpkg.uri = old.uri) :
    Adds may (http.setPackage pk old) ((http.setPackage pk old).setPackage pk hpkg) :=
  (Adds.refl _).setPackage (Function.update_self ..) uri

private theorem apart_goes {handler : Http → Except Fault Http}
    (grows : Grows may server.client (handler server.client)) :
    Goes may server (apart handler server) :=
  grows.bind fun _ _ grown => acts_client grown

private theorem final_goes (server : Server) (around : Surroundings) (pk : PackagePtr) :
    Goes may server (apart (svrHttpFinal around pk) server) :=
  apart_goes (final_grows (.refl _) around pk)

/-! The operations of the cache. -/

/-- A callback of the cache goes on from where it is called. -/
private abbrev Continues (may : Leave) (invoke : Cache.Invoke Key Text Callback Http) : Prop :=
  ∀ callback cd server, Goes may server (invoke callback cd server)

private theorem cancelled_continues (may : Leave) (around : Surroundings) :
    Continues may (cancelled around) := by
  intro callback cd server
  cases callback with
  | headerWio pk =>
    exact (acts_emit server rfl).goes (apart_goes (headerWio_grows (.refl _) around pk _))
  | bodyWio pk => exact (acts_emit server rfl).goes (final_goes _ around pk)

/-- A slot that is there is overwritten. -/
private theorem acts_store {entry changed : CacheEntry Text Callback}
    (found : server.cache.find key = some entry) :
    Acts may server { server with cache := server.cache.store key changed } := by
  refine acts_same (.refl _) rfl rfl fun name => ?_
  rw [Cache.find_store]
  split
  · rename_i same
    rw [same, found]
    simp
  · exact Iff.rfl

private theorem modifyHost_goes (may : Leave) (ptr : EntryPtr Key)
    (change : CacheEntry Text Callback → CacheEntry Text Callback) (server : Server) :
    Goes may server (Cache.modifyHost ptr change server) := by
  cases ran : Cache.modifyHost ptr change server with
  | error => trivial
  | ok after =>
    obtain ⟨entry, found, _, rfl⟩ := Cache.modifyHost_eq_ok.mp ran
    exact acts_store found

private theorem release_goes (key : Key) (server : Server) :
    Ends (fun _ => True) (server.cache.release key) fun cache =>
      Acts may server { server with cache } := by
  cases ran : server.cache.release key with
  | error => trivial
  | ok cache =>
    obtain ⟨entry, found, ⟨_, rfl⟩ | ⟨_, rfl⟩⟩ := Cache.release_cases ran
    · exact acts_store found
    · have listed : Acts may server { server with cache := { server.cache with
          freeList := (server.cache.freeList.push ⟨key, entry.ref⟩).2 } } :=
        acts_same (.refl _) rfl rfl fun _ => Iff.rfl
      exact listed.trans (acts_store found)

/-- Nothing is evicted from a cache that is not full. -/
private theorem doneWith_goes (may : Leave) (pk : PackagePtr) (key : Key) (server : Server) :
    Ends (fun _ => True) (doneWith pk key server) fun after =>
      Acts may server after ∧ after.client = server.client.emit (.released pk key) := by
  unfold doneWith
  refine (ends_anyhow _).bind fun cache ran _ => ⟨?_, rfl⟩
  obtain ⟨released, dropped, ⟨_, rfl⟩ | ⟨full, _⟩⟩ := Cache.doneWith_cases ran
  · exact ((release_goes key server).returned dropped).trans (acts_emit _ rfl)
  · have one : Acts may server { server with cache := released } :=
      (release_goes key server).returned dropped
    have impossible (promising : Promising server) (known : Known server) : False :=
      Nat.not_lt.mpr (one.known promising known).roomy full
    have grown : server.client.log <+: (server.client.emit (.released pk key)).log :=
      List.prefix_append ..
    exact ⟨⟨⟨[.released pk key], rfl, by simp [Event.By]⟩, .refl _, List.prefix_rfl,
        fun promising known => (impossible (promising.earlier grown) known).elim⟩,
      fun promising known => (impossible (promising.earlier grown) known).elim⟩

variable {called : Cache.Invoke Key Text Callback Http}

/-- The slots do not depend on how a callback is called. -/
private theorem acts_calling (may : Leave) (server : Server) (deleted : Nat) :
    Acts may server (server.calling deleted) :=
  acts_same (.refl _) rfl rfl fun _ => Iff.rfl

private theorem putLoop_goes (continues : Continues may called) (ptr : EntryPtr Key)
    (cd : CacheData Text) (deleted : Nat) (queue : List Callback) (server : Server) :
    Goes may server (Cache.putLoop called ptr cd deleted queue server) := by
  induction queue generalizing deleted server with
  | nil => exact .refl server
  | cons callback rest ih =>
    apply (modifyHost_goes may ptr _ server).bind
    intro counted _ one
    have calls := one.trans (acts_calling may counted deleted)
    apply (calls.goes (continues callback cd _)).bind
    intro served _ two
    exact two.goes (ih (deleted - 1) served)

private theorem cancelLoop_goes (continues : Continues may called) (deleted : Nat)
    (queue : List Callback) (server : Server) :
    Goes may server (Cache.cancelLoop called deleted queue server) := by
  induction queue generalizing deleted server with
  | nil => exact .refl server
  | cons callback rest ih =>
    apply ((acts_calling may server deleted).goes (continues callback _ _)).bind
    intro served _ one
    exact one.goes (ih (deleted - 1) served)

/-- What is loaded has been reserved. -/
private theorem reserved_of_loader (loads : (slot key log).loader = some pk) :
    .reserved pk key ∈ log := by
  induction log using List.reverseRecOn with
  | nil => cases loads
  | append_singleton log event ih =>
    rw [slot_concat] at loads
    cases event with
    | reserved loader name =>
      simp only [slotAfter] at loads
      split at loads
      · rename_i same
        cases loads
        rw [same]
        exact List.mem_append_right _ (List.mem_singleton_self _)
      · exact List.mem_append_left _ (ih loads)
    | put | cancelled =>
      simp only [slotAfter] at loads
      split at loads
      · cases loads
      · exact List.mem_append_left _ (ih loads)
    | asked =>
      simp only [slotAfter] at loads
      split at loads <;> exact List.mem_append_left _ (ih loads)
    | accepted | created | activated | rearmed | finalised | closed | loading | delivered | aborted
    | released | written =>
      exact List.mem_append_left _ (ih loads)

/-- What is put has been reserved. -/
private theorem Promising.putReserved {data : Text}
    (promising : Promising (emit (.put pk key data) server)) :
    .reserved pk key ∈ (emit (.put pk key data) server).client.log := by
  obtain ⟨whole, lawful, rest, rfl⟩ := promising
  have last := lawful server.client.log (.put pk key data) rest (by simp [emit, Http.emit])
  exact List.mem_append_left _ (reserved_of_loader last.1)

/-- A `put` that is told of first. -/
private theorem put_goes (continues : Continues may called) (pk : PackagePtr) (key : Key)
    (data : Text) (buf : Option Text) (size : Nat) (server : Server) :
    Ends (fun _ => True) (Cache.put called key buf size (emit (.put pk key data) server))
    fun result =>
      Acts may (emit (.put pk key data) server) result.2 := by
  have told (promising : Promising (emit (.put pk key data) server)) := promising.putReserved
  generalize emit (.put pk key data) server = server at told ⊢
  unfold Cache.put
  split
  · rename_i absent
    have impossible (promising : Promising server) (known : Known server) : False := by
      obtain ⟨entry, found⟩ := (known.reserved key).mpr ⟨pk, told promising⟩
      rw [absent] at found
      cases found
    exact ⟨⟨⟨[], by simp, nofun⟩, .refl _, List.prefix_rfl, fun promising known =>
      (impossible promising known).elim⟩,
      fun promising known => (impossible promising known).elim⟩
  · split
    · apply (modifyHost_goes may _ _ server).bind
      intro filled _ one
      apply (one.goes (putLoop_goes continues _ _ _ _ filled)).bind
      intro served _ two
      exact (two.goes (modifyHost_goes may _ _ served)).bind fun _ _ three => three
    · exact .refl server

private theorem unlist_goes (ptr : EntryPtr Key) (server : Server) :
    Ends (fun _ => True) (server.cache.unlist ptr) fun cache =>
      Acts may server { server with cache } := by
  unfold Cache.unlist
  apply (ends_anyhow _).bind
  intro entry ran _
  split
  · exact .refl server
  · split
    · trivial
    · rename_i freeList removed
      have extended : Acts may server { server with cache := { server.cache with freeList } } :=
        acts_same (.refl _) rfl rfl fun _ => Iff.rfl
      exact extended.trans (acts_store (Cache.deref_eq_ok.mp ran).1)

/-- Only what is in the cache is found. -/
private theorem get_goes (continues : Continues may called) (key : Key) (callback : Option Callback)
    (server : Server) :
    Ends (fun _ => True) (Cache.get called key callback server) fun result =>
      Acts may server result.2 ∧
      (result.1 = true → ∃ entry, server.cache.find key = some entry) := by
  unfold Cache.get
  split
  · exact ⟨.refl server, nofun⟩
  · trivial
  · rename_i entry callback found
    split
    · exact ⟨acts_store found, fun _ => ⟨entry, found⟩⟩
    · apply (continues callback _ server).bind
      intro served _ one
      apply (one.goes (modifyHost_goes may _ _ served)).bind
      intro counted _ two
      exact (unlist_goes _ counted).bind fun _ _ three => ⟨two.trans three, fun _ => ⟨entry, found⟩⟩

private theorem cancelReservation_goes (continues : Continues may called) (key : Key)
    (server : Server) :
    Ends (fun _ => True) (Cache.cancelReservation called key server) fun result =>
      Acts may server result.2 := by
  unfold Cache.cancelReservation
  split
  · exact .refl server
  · rename_i entry found
    split
    · have opened : Acts may server
        { server with cache := server.cache.store key { entry with isReserved := false } } :=
        acts_store found
      apply (opened.goes (cancelLoop_goes continues _ _ _)).bind
      intro told _ one
      exact (one.goes (modifyHost_goes may _ _ told)).bind fun _ _ two => two
    · exact .refl server

/-! The handlers. -/

private theorem finalAio_goes (server : Server) (around : Surroundings) (pk : PackagePtr) :
    Goes may server (svrHttpFinalAio around pk server) := by
  unfold svrHttpFinalAio
  refine (ends_anyhow _).bind fun hpkg _ _ => (ends_anyhow _).bind fun cn _ _ => ?_
  have aborted (cst : ConnST) :
      Acts may server (emit (.aborted pk)
      { server with client := server.client.setConn pk.conn { cn with cst } }) :=
    acts_client (((Adds.refl _).setConn _ _).emit rfl)
  have released (cst : ConnST) (key : Key) :
      Goes may server (do
        let server ← doneWith pk key
          (emit (.aborted pk)
            { server with client := server.client.setConn pk.conn { cn with cst } })
        apart (svrHttpFinal around pk) server) :=
    (doneWith_goes may pk key _).bind fun _ _ ⟨one, _⟩ =>
      ((aborted cst).trans one).goes (final_goes _ around pk)
  split
  · trivial
  · split
    · exact (aborted _).goes (final_goes _ around pk)
    · exact (aborted _).goes (final_goes _ around pk)
    · dsimp only
      split
      · split
        · trivial
        · apply (cancelReservation_goes (cancelled_continues may around) _ _).bind
          intro _ _ one
          exact (aborted _).trans ((acts_emit _ rfl).trans one)
      · split
        · trivial
        · exact released _ _
      · split
        · trivial
        · exact released _ _
      · exact (aborted _).goes (final_goes _ around pk)
    · dsimp only
      split
      · split
        · trivial
        · apply (cancelReservation_goes (cancelled_continues may around) _ _).bind
          intro _ _ one
          exact (aborted _).trans ((acts_emit _ rfl).trans one)
      · split
        · trivial
        · exact released _ _
      · split
        · trivial
        · exact released _ _
      · exact (aborted _).goes (final_goes _ around pk)
    · exact final_goes server around pk

/-- A failed read of a body has its reservation cancelled. -/
private theorem finalAio_cancels {hpkg : HPKG} (there : server.client.packages pk = some hpkg)
    (state : hpkg.hst = .fetching) (part : hpkg.wst = .body) (own : hpkg.bodykey = some key)
    (around : Surroundings) :
    Ends (fun _ => True) (svrHttpFinalAio around pk server) fun after =>
      server.client.log ++ [.aborted pk, .cancelled pk key] <+: after.client.log := by
  unfold svrHttpFinalAio
  simp only [package_eq_ok.mpr there, state, part, own, bind, Except.bind]
  apply (ends_anyhow _).bind
  intro cn _ _
  split
  · trivial
  · apply (cancelReservation_goes (cancelled_continues .nothing around) key _).bind
    intro result _ one
    have grown := one.grown
    simp only [emit, Http.emit, Http.setConn, List.append_assoc, List.cons_append,
      List.nil_append] at grown
    exact grown

private theorem parseAio_goes {bytes : Text} (server : Server) (around : Surroundings)
    (pk : PackagePtr)
    (names : ∀ gk ∈ scan bytes (subSize bytes.length 1), ∀ number,
      may.names ⟨pk.conn, number⟩ gk.uri) :
    Goes may server (svrHttpParseAio around pk bytes server) := by
  unfold svrHttpParseAio
  refine (ends_anyhow _).bind fun hpkg there _ => (ends_anyhow _).bind fun cn _ _ => ?_
  split
  · exact final_goes server around pk
  · dsimp only
    split
    · exact (finalAio_goes _ around pk).quiet (updates there _ rfl)
    · refine (apart_goes (parse_grows (.refl _) around fun root memory found text => ?_)).quiet
        (updates there _ rfl)
      simp only [Http.setPackage, Function.update_self, Option.some.injEq] at found
      subst found
      cases text
      exact names

private theorem bodyWio_goes (server : Server) (around : Surroundings) (pk : PackagePtr)
    (cd : CacheData Text) :
    Goes may server (svrHttpBodyWio around pk cd server) := by
  unfold svrHttpBodyWio
  apply (ends_anyhow _).bind
  intro hpkg there _
  split
  · exact final_goes server around pk
  · apply (ends_anyhow _).bind
    intro cn _ _
    split
    · exact finalAio_goes server around pk
    · exact acts_client ((updates there { hpkg with hst := .writing, wst := .body } rfl).issue _)

private theorem invoke_continues (may : Leave) (around : Surroundings) :
    Continues may (invoke around) := by
  intro callback cd server
  cases callback with
  | headerWio pk =>
    exact (acts_emit server rfl).goes (apart_goes (headerWio_grows (.refl _) around pk _))
  | bodyWio pk => exact (acts_emit server rfl).goes (bodyWio_goes _ around pk cd)

/-- A key is looked up. -/
private theorem follows_asked (allowed : may.seeks pk use) (server : Server) (key : Key)
    (found : Lookup) :
    Follows may server (emit (.asked pk key use found) server) :=
  ⟨⟨[.asked pk key use found], rfl, by simpa [Event.By] using allowed⟩, .refl _, List.prefix_rfl,
    fun _ known => known.same rfl rfl (fun _ => Iff.rfl) (by simp [emit, Http.emit])⟩

private theorem ask_goes (allowed : may.seeks pk use) (server : Server) (around : Surroundings)
    (key : Key) (callback : Callback) :
    Ends (fun _ => True) (ask around pk key use callback server) fun result =>
      Follows may server result.2 ∧ (result.1 = true → Acts may server result.2) := by
  refine (get_goes (invoke_continues may around) _ _ _).mono fun result ⟨one, present⟩ => ?_
  have follows := (follows_asked allowed server key _).trans one.toFollows
  refine ⟨follows, fun found => ⟨follows, ?_⟩⟩
  intro _ known _
  obtain ⟨loader, reserved⟩ := (known.reserved key).mp (present found)
  exact fun _ _ _ _ _ => ⟨loader, key, follows.grown.subset reserved⟩

private theorem follows_reserve (allowed : may.seeks pk use) (server : Server) (key : Key) :
    Follows may server (emit (.reserved pk key)
    { server with cache := (server.cache.reserve key).2 }) := by
  refine ⟨⟨[.reserved pk key], rfl, by simpa [Event.By] using ⟨use, allowed⟩⟩, .refl _,
    List.prefix_rfl, ?_⟩
  intro _ known
  have own (name : Key) : (∃ loader, .reserved loader name ∈ server.client.log ++
    [.reserved pk key]) ↔
      name = key ∨ ∃ loader, .reserved loader name ∈ server.client.log := by
    simp only [List.mem_append, List.mem_singleton, Event.reserved.injEq, exists_or]
    exact or_comm.trans (or_congr_left ⟨fun ⟨_, _, same⟩ => same, fun same => ⟨pk, rfl, same⟩⟩)
  have found (name : Key) : (∃ entry, (server.cache.reserve key).2.find name = some entry) ↔
      name = key ∨ ∃ entry, server.cache.find name = some entry := by
    unfold Cache.reserve
    split
    · rw [Cache.find_insertNew]
      split
      · simp [*]
      · simp [*]
    · rename_i held there
      split
      · constructor
        · exact .inr
        · rintro (rfl | present)
          · exact ⟨held, there⟩
          · exact present
      · rw [Cache.find_store]
        split
        · simp [*]
        · simp [*]
  have still : (server.cache.reserve key).2.currentSize = server.cache.currentSize ∧
      (server.cache.reserve key).2.sizeQuota = server.cache.sizeQuota := by
    unfold Cache.reserve
    split
    · exact ⟨rfl, rfl⟩
    · split <;> exact ⟨rfl, rfl⟩
  constructor
  · show (server.cache.reserve key).2.currentSize ≤ (server.cache.reserve key).2.sizeQuota
    rw [still.1, still.2]
    exact known.roomy
  · intro name
    exact (found name).trans ((or_congr_right (known.reserved name)).trans (own name).symm)

private theorem reserveAndAsk_goes (allowed : may.seeks pk use) (server : Server)
    (around : Surroundings) (key : Key) (callback : Callback) (notReserved notQueued : Assertion) :
    Ends (fun _ => True) (reserveAndAsk around pk key use callback notReserved notQueued server)
    fun after =>
      Follows may server after ∧ Reserving after := by
  unfold reserveAndAsk
  have follows := follows_reserve allowed server key
  generalize server.cache.reserve key = result at follows ⊢
  obtain ⟨rsvp, cache⟩ := result
  have reserving : Reserving (emit (.reserved pk key) { server with cache }) :=
    ⟨pk, key, List.mem_append_right _ (List.mem_singleton_self _)⟩
  dsimp only at follows ⊢
  split
  · trivial
  · refine (ask_goes allowed _ around key callback).bind fun asked _ ⟨one, _⟩ => ?_
    split
    · trivial
    · exact ⟨follows.trans one, reserving.later one⟩

private theorem putHead_goes {old hpkg : HPKG} (there : server.client.package pk = .ok old)
    (uri : hpkg.uri = old.uri) (around : Surroundings) (chead : Text) :
    Goes may server (putHead around pk hpkg chead server) := by
  unfold putHead
  split
  · trivial
  · rename_i key own
    apply (put_goes (invoke_continues may around) pk key chead _ _ _).bind
    intro put _ one
    dsimp only
    split
    · trivial
    · have told : Acts may server put.2 := ((acts_emit _ rfl).trans one).quiet (updates there _ uri)
      exact (ends_anyhow _).bind fun _ again _ => told.trans (acts_client (updates again _ rfl))

private theorem headerRio_goes (server : Server) (around : Surroundings) (pk : PackagePtr) :
    Goes may server (svrHttpHeaderRio around pk server) := by
  unfold svrHttpHeaderRio
  apply (ends_anyhow _).bind
  intro hpkg there _
  have still (event : Event) : (emit event server).client.package pk = .ok hpkg := there
  dsimp only
  split
  · exact (acts_emit server rfl).goes (putHead_goes (still _) (by rfl) around _)
  · split
    · trivial
    · exact (acts_emit server rfl).goes (putHead_goes (still _) (by rfl) around _)

private theorem header_goes (allowed : ∀ uri vern, may.seeks pk (.head uri vern)) (server : Server)
    (around : Surroundings) :
    Goes may server (svrHttpHeader around pk server) := by
  unfold svrHttpHeader
  refine (ends_anyhow _).bind fun hpkg there _ => (ends_anyhow _).bind fun cn _ _ => ?_
  have begins : Adds may server.client _ :=
    updates there { hpkg with hst := .fetching, wst := .head } rfl
  split
  · exact (final_goes _ around pk).quiet begins
  · split
    · trivial
    · apply (ask_goes (allowed _ _) _ around _ _).bind
      intro asked _ one
      dsimp only
      split
      · rename_i found
        exact Acts.quiet (Acts.quiet (one.2 found) (updated _ rfl)) begins
      · refine (reserveAndAsk_goes (allowed _ _) _ around _ _ _ _).bind
          fun reserved _ ⟨two, reserving⟩ => ?_
        have sought : Acts may server reserved :=
          Acts.quiet (Acts.quiet ((one.1.trans two).reserving reserving) (updated _ rfl)) begins
        exact sought.goes (headerRio_goes _ around pk)

private theorem fetch_goes (allowed : ∀ uri vern, may.seeks pk (.head uri vern)) (server : Server)
    (around : Surroundings) :
    Goes may server (svrHttpFetch around pk server) := by
  unfold svrHttpFetch
  refine (ends_anyhow _).bind fun hpkg there _ => (ends_anyhow _).bind fun cn _ _ => ?_
  have begins : Adds may server.client _ :=
    updates there { hpkg with hst := .fetching, wst := .head, hsn := .unknown } rfl
  have refused : Goes may server _ :=
    Goes.quiet (apart_goes (write400_grows (.refl _) around pk)) begins
  split
  · exact final_goes server around pk
  · dsimp only
    split
    · split
      · exact Goes.quiet (header_goes allowed _ around)
          (begins.setPackage (Function.update_self ..) (by rfl))
      · split
        · exact Goes.quiet (header_goes allowed _ around)
            (begins.setPackage (Function.update_self ..) (by rfl))
        · exact refused
    · exact refused

private theorem body_goes (allowed : ∀ hpkg uri, server.client.packages pk = some hpkg →
    hpkg.uri = some uri →
    may.seeks pk (.body uri hpkg.trOffset))
    (around : Surroundings) : Goes may server (svrHttpBody around pk server) := by
  unfold svrHttpBody
  refine (ends_anyhow _).bind fun hpkg there _ => (ends_anyhow _).bind fun cn _ _ => ?_
  have begins : Adds may server.client _ :=
    updates there { hpkg with hst := .fetching, wst := .body } rfl
  split
  · exact (final_goes _ around pk).quiet begins
  · split
    · trivial
    · rename_i uri known
      have seeks : may.seeks pk (.body uri hpkg.trOffset) :=
        allowed hpkg uri (package_eq_ok.mp there) known
      apply (ask_goes seeks _ around _ _).bind
      intro asked _ one
      dsimp only
      split
      · rename_i found
        exact Acts.quiet (Acts.quiet (one.2 found) (updated _ rfl)) begins
      · refine (reserveAndAsk_goes seeks _ around _ _ _ _).bind fun reserved _ ⟨two, reserving⟩ =>
          ?_
        have sought : Acts may server reserved :=
          Acts.quiet (Acts.quiet ((one.1.trans two).reserving reserving) (updated _ rfl)) begins
        refine (ends_anyhow _).bind fun again found _ => sought.trans (acts_client ?_)
        exact ((updates found _ (by rfl)).emit (by rfl)).issue _

private theorem headerToBody_goes (allowed : ∀ hpkg uri, server.client.packages pk = some hpkg →
    hpkg.hsn = .ok200 →
    hpkg.uri = some uri → may.seeks pk (.body uri hpkg.trOffset)) (around : Surroundings) :
    Goes may server (svrHttpHeaderToBodyAio around pk server) := by
  unfold svrHttpHeaderToBodyAio
  apply (ends_anyhow _).bind
  intro hpkg there _
  have begins : Adds may server.client _ :=
    updates there { hpkg with hst := .unknown, wst := .head } rfl
  dsimp only
  split
  · rename_i ok
    refine Goes.quiet (body_goes (fun changed uri found known => ?_) around) begins
    simp only [Http.setPackage, Function.update_self, Option.some.injEq] at found
    subst found
    exact allowed hpkg uri (package_eq_ok.mp there) ok known
  all_goals exact (final_goes _ around pk).quiet begins

private theorem bodyRio_goes {nbytes : Nat}
    (allowed : ∀ hpkg uri, server.client.packages pk = some hpkg → hpkg.wst = .body →
    0 < nbytes → hpkg.uri = some uri → may.seeks pk (.body uri (hpkg.trOffset + nbytes)))
    (around : Surroundings) :
    Goes may server (svrHttpBodyRio around pk nbytes server) := by
  unfold svrHttpBodyRio
  apply (ends_anyhow _).bind
  intro hpkg there _
  split
  · rename_i part
    have written (freed : Server) (still : freed.client.package pk = .ok hpkg) : Goes may freed
        (if nbytes > 0 then
           svrHttpBody around pk
             { freed with client := freed.client.setPackage pk { hpkg with trOffset := hpkg.trOffset + nbytes } }
         else apart (svrHttpFinal around pk)
           { freed with client := freed.client.setPackage pk { hpkg with wst := .unknown } }) := by
      split
      · rename_i some'
        refine Goes.quiet (body_goes (fun changed uri found known => ?_) around)
          (updates still _ rfl)
        simp only [Http.setPackage, Function.update_self, Option.some.injEq] at found
        subst found
        exact allowed hpkg uri (package_eq_ok.mp there) part some' known
      · exact (final_goes _ around pk).quiet (updates still _ rfl)
    dsimp only
    split
    · exact written server there
    · apply (doneWith_goes may pk _ server).bind
      intro freed _ did
      obtain ⟨one, same⟩ := did
      refine one.goes (written freed ?_)
      rw [same]
      exact there
  all_goals exact final_goes server around pk

/-- What has been read of a body is put. -/
private theorem bodyPio_put (may : Leave) (server : Server) (around : Surroundings)
    (pk : PackagePtr) (buf : Text) (nbytes : Nat) :
    Ends (fun _ => True) (svrHttpBodyPio around pk buf nbytes server) fun after => ∃ hpkg key,
      server.client.packages pk = some hpkg ∧ hpkg.bodykey = some key ∧
        Acts may (emit (.put pk key (buf.take nbytes)) server) after := by
  unfold svrHttpBodyPio
  apply (ends_anyhow _).bind
  intro hpkg there _
  split
  · trivial
  · rename_i key own
    apply (put_goes (invoke_continues may around) pk key (buf.take nbytes) _ _ server).bind
    intro put _ one
    dsimp only
    split
    · trivial
    · refine (ends_anyhow _).bind fun _ again _ =>
        ⟨hpkg, key, ?_, own, one.trans (acts_client (updates again _ rfl))⟩
      exact package_eq_ok.mp there

private theorem bodyPio_goes (server : Server) (around : Surroundings) (pk : PackagePtr)
    (buf : Text) (nbytes : Nat) :
    Goes may server (svrHttpBodyPio around pk buf nbytes server) :=
  (bodyPio_put may server around pk buf nbytes).mono fun _ ⟨_, _, _, _, one⟩ =>
    (acts_emit server rfl).trans one

/-- What follows at once when the reading of a part of a body completes. -/
theorem readBody_begins {hpkg : HPKG} {hfd : Option Text} {offset : Nat} {completion : Completion}
    (ran : handle around server (.readBody pk hfd offset) completion = .ok after)
    (there : server.client.packages pk = some hpkg) (state : hpkg.hst = .fetching)
    (part : hpkg.wst = .body) (own : hpkg.bodykey = some key) :
    match completion with
    | .read .. => ∃ data, server.client.log ++ [.put pk key data] <+: after.client.log
    | .wrote _ | .failed =>
      server.client.log ++ [.aborted pk, .cancelled pk key] <+: after.client.log := by
  cases completion with
  | read bytes stale =>
    obtain ⟨hpkg', key', there', own', one⟩ :=
      (bodyPio_put .nothing server around pk _ _).returned ran
    cases there.symm.trans there'
    cases own.symm.trans own'
    exact ⟨_, one.grown⟩
  | wrote | failed => exact (finalAio_cancels there state part own around).returned ran

/-- The reading of a part of a body ends with its reservation resolved. -/
theorem readBody_resolves {hpkg : HPKG} {hfd : Option Text} {offset : Nat} {completion : Completion}
    (ran : handle around server (.readBody pk hfd offset) completion = .ok after)
    (there : server.client.packages pk = some hpkg) (state : hpkg.hst = .fetching)
    (part : hpkg.wst = .body) (own : hpkg.bodykey = some key) :
    ∃ events event, (event = .cancelled pk key ∨ ∃ data, event = .put pk key data) ∧
      server.client.log ++ events ++ [event] <+: after.client.log := by
  have begins := readBody_begins ran there state part own
  cases completion with
  | read =>
    obtain ⟨data, begins⟩ := begins
    exact ⟨[], _, .inr ⟨data, rfl⟩, by simpa using begins⟩
  | wrote | failed => exact ⟨[.aborted pk], _, .inl rfl, by simpa using begins⟩

/-! How a package goes on when its head has been written. -/

/-- The package goes on behind its head: its body is looked up, or it is finalised. -/
def Event.movesOn (pk : PackagePtr) : Event → Bool
  | .finalised other => other = pk
  | .asked other _ (.body ..) _ => other = pk
  | .asked _ _ (.head ..) _ | .accepted _ | .created _ | .activated _ | .rearmed _ | .closed _
  | .reserved .. | .loading .. | .put .. | .cancelled .. | .delivered .. | .aborted _ | .released ..
  | .written .. => false

/-- The package goes on, first of all. -/
abbrev MovesOn (pk : PackagePtr) (log : List Event) (outcome : Except Fault Server) : Prop :=
  Ends (fun _ => True) outcome fun after => ∃ event, event.movesOn pk = true ∧
    log ++ [event] <+: after.client.log

private theorem final_movesOn (server : Server) (around : Surroundings) (pk : PackagePtr) :
    MovesOn pk server.client.log (apart (svrHttpFinal around pk) server) := by
  have finalises : Grows .nothing ((server.client.deletePackage pk).emit (.finalised pk))
    (svrHttpFinal around pk server.client) := by
    unfold svrHttpFinal
    apply (ends_anyhow _).bind
    intro hpkg _ _
    have finalised : Adds .nothing _ _ :=
      .refl ((server.client.deletePackage pk).emit (.finalised pk))
    dsimp only
    split
    · exact connClose_grows finalised around pk.conn
    · apply (ends_anyhow _).bind
      intro parent there _
      exact ((finalised.setPackage (package_eq_ok.mp there) (by rfl)).enqueue _).emit (by rfl)
    · exact (finalised.enqueue _).emit (by rfl)
  apply finalises.bind
  intro http _ grown
  obtain ⟨more, same, _⟩ := grown.told
  exact ⟨.finalised pk, by simp [Event.movesOn], more, same⟩

private theorem body_movesOn (server : Server) (around : Surroundings) (pk : PackagePtr) :
    MovesOn pk server.client.log (svrHttpBody around pk server) := by
  unfold svrHttpBody
  refine (ends_anyhow _).bind fun hpkg _ _ => (ends_anyhow _).bind fun cn _ _ => ?_
  split
  · exact final_movesOn _ around pk
  · split
    · trivial
    · rename_i uri known
      refine (get_goes (invoke_continues ⟨fun _ _ => True, fun _ _ => True⟩ around) _ _ _).bind
        fun asked _ ⟨one, _⟩ => ?_
      obtain ⟨event, passes, first⟩ : ∃ event : Event, event.movesOn pk = true ∧
        server.client.log ++ [event] <+: asked.2.client.log :=
        ⟨.asked pk (bodyKey uri hpkg.trOffset) (.body uri hpkg.trOffset)
          (lookup server.cache (bodyKey uri hpkg.trOffset)),
          by simp [Event.movesOn], one.grown⟩
      dsimp only
      split
      · exact ⟨event, passes, first⟩
      · refine (@reserveAndAsk_goes pk (.body uri hpkg.trOffset) ⟨fun _ _ => True, fun _ _ =>
          True⟩ trivial _ around _ _ _ _).bind fun reserved _ ⟨two, _⟩ => ?_
        refine (ends_anyhow _).bind fun _ _ _ => ⟨event, passes, ?_⟩
        exact (first.trans two.grown).trans (List.prefix_append ..)

/-- However much of a head has been written, the package goes on. -/
theorem headWritten_movesOn (server : Server) (around : Surroundings) (pk : PackagePtr) :
    MovesOn pk server.client.log (svrHttpHeaderToBodyAio around pk server) := by
  unfold svrHttpHeaderToBodyAio
  apply (ends_anyhow _).bind
  intro hpkg _ _
  dsimp only
  split
  · exact body_movesOn _ around pk
  all_goals exact final_movesOn _ around pk

/-- However much of the answer to a bad request has been written, the package goes on. -/
theorem badRequestWritten_movesOn {hpkg : HPKG} (there : server.client.packages pk = some hpkg)
    (head : hpkg.wst = .head) (around : Surroundings) (nbytes : Nat) :
    MovesOn pk server.client.log (svrHttpBodyRio around pk nbytes server) := by
  have ran : svrHttpBodyRio around pk nbytes server = apart (svrHttpFinal around pk) server := by
    simp only [svrHttpBodyRio, Http.package, there, head, bind, Except.bind]
  rw [ran]
  exact final_movesOn server around pk

/-- What is told of a call as soon as it has completed. -/
def told (server : Server) : Aio → Completion → Server
  | .writeHead pk data, .wrote nbytes | .write400 pk data, .wrote nbytes =>
    emit (.written pk .head data nbytes) server
  | .writeBody pk data, .wrote nbytes => emit (.written pk .body data nbytes) server
  | .readRequest _, _ | .readBody .., _ | .writeHead .., _ | .write400 .., _ | .writeBody .., _ =>
    server

/-- From where on the package looks up the body when a write has completed. -/
def HPKG.next (hpkg : HPKG) (nbytes : Nat) : Aio → Option Nat
  | .writeHead .. => if hpkg.hsn = .ok200 then some hpkg.trOffset else none
  | .write400 .. | .writeBody .. =>
    if hpkg.wst = .body ∧ 0 < nbytes then some (hpkg.trOffset + nbytes) else none
  | .readRequest _ | .readBody .. => none

/-- A completed write may have a part of a body looked up. -/
def Aio.Seeks (server : Server) (aio : Aio) (completion : Completion) (pk : PackagePtr)
    (use : KeyUse) : Prop :=
  ∃ nbytes hpkg uri offset, completion = .wrote nbytes ∧ aio.pk = pk ∧
    server.client.packages pk = some hpkg ∧
    hpkg.uri = some uri ∧ hpkg.next nbytes aio = some offset ∧ use = .body uri offset

/-- A completed read may have packages made for what it read on the connection. -/
def Aio.Names (aio : Aio) (completion : Completion) (pk : PackagePtr) (uri : Option Text) : Prop :=
  ∃ reader bytes stale, aio = .readRequest reader ∧ completion = .read bytes stale ∧
    reader.conn = pk.conn ∧
    ∃ gk ∈ scan bytes (subSize bytes.length 1), gk.uri = uri

private theorem handle_goes (server : Server) (around : Surroundings) (aio : Aio)
    (completion : Completion) :
    Goes ⟨aio.Seeks server completion, aio.Names completion⟩ (told server aio completion)
    (handle around server aio completion) := by
  cases aio with
  | readRequest pk =>
    cases completion with
    | read bytes stale =>
      exact parseAio_goes server around pk fun gk member number =>
        ⟨pk, bytes, stale, rfl, rfl, rfl, gk, member, rfl⟩
    | wrote | failed => exact finalAio_goes server around pk
  | readBody pk =>
    cases completion with
    | read => exact bodyPio_goes server around pk _ _
    | wrote | failed => exact finalAio_goes server around pk
  | writeHead pk data =>
    cases completion with
    | wrote nbytes =>
      refine headerToBody_goes (fun hpkg uri there ok known => ?_) around
      exact ⟨nbytes, hpkg, uri, _, rfl, rfl, there, known, if_pos ok, rfl⟩
    | read | failed => exact finalAio_goes server around pk
  | write400 pk data | writeBody pk data =>
    cases completion with
    | wrote nbytes =>
      refine bodyRio_goes (fun hpkg uri there part some' known => ?_) around
      exact ⟨nbytes, hpkg, uri, _, rfl, rfl, there, known, if_pos ⟨part, some'⟩, rfl⟩
    | read | failed => exact finalAio_goes server around pk

/-- The server when the work of a step has been taken up. -/
def begun (server : Server) : Step → Server
  | .accept _ => server
  | .run index _ =>
    match server.client.tasks[index]? with
    | none => server
    | some _ => { server with client.tasks := server.client.tasks.eraseIdx index }
  | .complete index completion _ =>
    match server.client.aios[index]? with
    | none => server
    | some aio =>
      told { server with client.aios := server.client.aios.eraseIdx index } aio completion

/-- What the step may look up. -/
def Step.Seeks (server : Server) : Step → PackagePtr → KeyUse → Prop
  | .accept _, _, _ => False
  | .run index _, pk, use =>
    server.client.tasks[index]? = some (.fetch pk) ∧ ∃ uri vern, use = .head uri vern
  | .complete index completion _, pk, use =>
    ∃ aio, server.client.aios[index]? = some aio ∧ aio.Seeks server completion pk use

/-- What packages the step may make: a root has no URI. -/
def Step.Names (server : Server) : Step → PackagePtr → Option Text → Prop
  | .accept _, _, uri => uri = none
  | .run .., _, _ => False
  | .complete index completion _, pk, uri =>
    ∃ aio, server.client.aios[index]? = some aio ∧ aio.Names completion pk uri

/-- What a step does once its work has been taken up. -/
theorem exec_acts {step : Step} (ran : exec server step = .ok after) :
    Acts ⟨step.Seeks server, step.Names server⟩ (begun server step) after := by
  suffices goes : Goes ⟨step.Seeks server, step.Names server⟩ (begun server step)
    (exec server step) from goes.returned ran
  cases step with
  | accept around =>
    have opened : Adds ⟨Step.Seeks server (.accept around), Step.Names server (.accept around)⟩
      server.client
        ({ server.client with nextConn := server.client.nextConn + 1 }.setConn
          server.client.nextConn
          { cst := .connected, packages := 1 }) :=
      ⟨⟨[], List.append_nil _, nofun⟩, fun _ hpkg there => .inl ⟨hpkg, there, rfl⟩, List.prefix_rfl⟩
    have named : Step.Names server (.accept around) ⟨server.client.nextConn, 0⟩ ({} : HPKG).uri :=
      rfl
    exact apart_goes (read_grows ((opened.create named).emit rfl) around ⟨server.client.nextConn,
      0⟩)
  | run index around =>
    simp only [exec, begun]
    cases found : server.client.tasks[index]? with
    | none => exact Acts.refl server
    | some task =>
      cases task with
      | read pk => exact apart_goes (read_grows (.refl _) around pk)
      | fetch pk =>
        refine fetch_goes (fun uri vern => ?_) _ around
        exact ⟨found, uri, vern, rfl⟩
  | complete index completion around =>
    simp only [exec, begun]
    cases found : server.client.aios[index]? with
    | none => exact Acts.refl server
    | some aio =>
      exact (handle_goes _ around aio completion).mono fun _ acted =>
        acted.mono (fun _ _ seeks => ⟨aio, found, seeks⟩) fun _ _ names => ⟨aio, found, names⟩

/-- The history has grown, and still tells which keys are in the cache. -/
structure Extends (server after : Server) : Prop where
  log : server.client.log <+: after.client.log
  known : Promising after → Known server → Known after
  answered : Promising after → Known server → Answered server → Answered after

theorem Extends.refl (server : Server) : Extends server server :=
  ⟨List.prefix_rfl, fun _ => id, fun _ _ => id⟩

theorem Extends.trans (one : Extends server middle) (two : Extends middle after) :
    Extends server after := by
  refine ⟨one.log.trans two.log, ?_, ?_⟩
  · intro promising known
    exact two.known promising (one.known (promising.earlier two.log) known)
  · intro promising known answered
    have earlier := promising.earlier two.log
    exact two.answered promising (one.known earlier known) (one.answered earlier known answered)

/-- Only a completed write has been told of. -/
private theorem extends_written (told : Option (PackagePtr × HttpWST × Text × Nat))
    (cache : after.cache = server.cache)
    (grown : after.client.log = server.client.log ++ told.toList.map fun (pk, part, data, nbytes) =>
      .written pk part data nbytes) :
    Extends server after := by
  have prefixed : server.client.log <+: after.client.log := ⟨_, grown.symm⟩
  refine ⟨prefixed, fun _ known => known.same (by rw [cache]) (by rw [cache]) (by simp [cache]) ?_,
    ?_⟩
  · intro pk key
    rw [grown, List.mem_append, or_iff_left]
    cases told <;> simp
  · intro _ _ answered pk key use found member
    rw [grown] at member
    obtain ⟨loader, name, reserved⟩ :=
      answered pk key use found ((List.mem_append.mp member).resolve_right (by cases told <;> simp))
    exact ⟨loader, name, prefixed.subset reserved⟩

/-- Taking up the work of a step only tells of what has been written. -/
private theorem begun_extends (server : Server) (step : Step) :
    Extends server (begun server step) := by
  cases step with
  | accept => exact .refl server
  | run index around =>
    unfold begun
    dsimp only
    split
    · exact .refl server
    · exact extends_written none rfl (by simp)
  | complete index completion around =>
    unfold begun
    dsimp only
    split
    · exact .refl server
    · unfold told
      split
      · exact extends_written (some (_, _, _, _)) rfl rfl
      · exact extends_written (some (_, _, _, _)) rfl rfl
      · exact extends_written (some (_, _, _, _)) rfl rfl
      all_goals exact extends_written none rfl (by simp)

/-- A step only adds to the history, which still tells which keys are in the cache. -/
theorem exec_extends {step : Step} (ran : exec server step = .ok after) : Extends server after := by
  have acted := exec_acts ran
  exact (begun_extends server step).trans ⟨acted.grown, acted.known, acted.answered⟩

open Execution

/-- A run only adds to the history. -/
theorem leads_extend {origin : Server} (leads : Leads program origin server) :
    Extends origin server := by
  induction leads with
  | here => exact .refl origin
  | step _ _ ran ih => exact ih.trans (exec_extends ran)

end EventDisp.Server
