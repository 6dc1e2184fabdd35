import EventDisp.SvrConnAccept
import EventDisp.General.History

/-! How many peers the listening connection has: as many as `nc` says, and up to one
more than the limit. -/
namespace EventDisp.SvrConn

open Execution

variable {cn next : Listener} {move : Move} {peer : Nat} {pc old : PeerPc} {succeeds : Bool}
variable {attempts : List (Listener × Move)}

def AcceptPc.locks : AcceptPc → Bool
  | .constructRead | .constructWrite _ | .constructUnlock => true
  | .idle | .poolTest | .sleeping | .accepting | .setting | .constructLock => false

def PeerPc.locks : PeerPc → Bool
  | .destroyRead | .destroyWrite _ | .destroyUnlock => true
  | .constructed | .closing | .destroyLock | .deleted => false

/-- The accepting thread has passed the test and not counted the new connection. -/
def AcceptPc.isAdmitted : AcceptPc → Bool
  | .accepting | .setting | .constructLock | .constructRead | .constructWrite _ => true
  | .idle | .poolTest | .sleeping | .constructUnlock => false

namespace Listener

/-- Who is inside the critical section on `lock`. -/
def inside (cn : Listener) : Holder → Bool
  | .acceptor => cn.acceptor.locks
  | .peer peer => (cn.peers[peer]?).elim false PeerPc.locks

/-- What somebody has read of `nc` and is about to write back. -/
def reading (cn : Listener) : Holder → Option Nat
  | .acceptor =>
    match cn.acceptor with
    | .constructWrite nc => some nc
    | _ => none
  | .peer peer =>
    match cn.peers[peer]? with
    | some (.destroyWrite nc) => some nc
    | _ => none

end Listener

/-- The lock excludes, `nc` counts the peers that are alive, and whoever passed the test did so
with room. -/
structure Sound (cn : Listener) : Prop where
  lock : Lock.Guards cn.lock cn.inside
  reads : ∀ who nc, cn.reading who = some nc → nc = cn.nc
  counted : cn.nc = cn.alive
  admitted : cn.acceptor.isAdmitted = true → cn.nc ≤ maxAccept
  bound : cn.nc ≤ maxAccept + 1

theorem Sound.start : Sound {} where
  lock := .start fun who => by cases who <;> rfl
  reads who _ read := by cases who <;> cases read
  counted := rfl
  admitted := nofun
  bound := Nat.zero_le _

/-- Who has read `nc` holds the lock. -/
theorem reading_inside {who : Holder} {nc : Nat} (read : cn.reading who = some nc) :
    cn.inside who = true := by
  cases who with
  | acceptor =>
    simp only [Listener.reading] at read
    split at read
    · rename_i pc
      simp [Listener.inside, pc, AcceptPc.locks]
    · cases read
  | peer number =>
    simp only [Listener.reading] at read
    split at read
    · rename_i pc
      simp [Listener.inside, pc, PeerPc.locks]
    · cases read

/-- The peers are counted one by one. -/
theorem alive_set (here : cn.peers[peer]? = some old) :
    (cn.peers.set peer pc).countP PeerPc.isAlive + (if old.isAlive then 1 else 0) =
      cn.alive + if pc.isAlive then 1 else 0 := by
  obtain ⟨within, is_old⟩ := List.getElem?_eq_some_iff.mp here
  rw [List.countP_set within, is_old, Listener.alive]
  have some_alive : old.isAlive = true → 0 < cn.peers.countP PeerPc.isAlive := fun lives =>
    List.countP_pos_iff.mpr ⟨old, List.mem_of_getElem? here, lives⟩
  cases lives : old.isAlive with
  | false => simp
  | true =>
    have positive := some_alive lives
    simp only [if_true]
    omega

/-- A step of the accepting thread that leaves the peers and `nc` alone. -/
private theorem Sound.accepts (sound : Sound cn) (peers : next.peers = cn.peers)
    (nc : next.nc = cn.nc) (lock : Lock.Guards next.lock next.inside)
    (reads : ∀ value, next.reading .acceptor = some value → value = cn.nc)
    (admitted : next.acceptor.isAdmitted = true → cn.nc ≤ maxAccept) : Sound next where
  lock := lock
  reads who value read := by
    rw [nc]
    cases who with
    | acceptor => exact reads value read
    | peer number =>
      apply sound.reads (.peer number) value
      simpa [Listener.reading, peers] using read
  counted := by
    rw [nc, Listener.alive, peers]
    exact sound.counted
  admitted held := by
    rw [nc]
    exact admitted held
  bound := by
    rw [nc]
    exact sound.bound

/-- Where only the accepting thread goes on, the others stay inside or outside. -/
private theorem inside_acceptor (peers : next.peers = cn.peers) (who : Holder)
    (other : who ≠ .acceptor) :
    next.inside who = cn.inside who := by
  cases who with
  | acceptor => exact absurd rfl other
  | peer number => simp [Listener.inside, peers]

private theorem lock_acceptor (sound : Sound cn) (peers : next.peers = cn.peers)
    (lock : next.lock = cn.lock) (same : next.acceptor.locks = cn.acceptor.locks) :
    Lock.Guards next.lock next.inside := by
  rw [lock]
  apply sound.lock.keep
  intro who
  by_cases own : who = .acceptor
  · rw [own]
    exact same
  · exact inside_acceptor peers who own

/-- A new peer is not in its destructor. -/
private theorem constructed_pc (peers : List PeerPc) (number : Nat) :
    (peers ++ [.constructed])[number]? = peers[number]? ∨
      (peers ++ [.constructed])[number]? = some .constructed ∧ peers[number]? = none := by
  by_cases before : number < peers.length
  · exact .inl (List.getElem?_append_left before)
  · rw [List.getElem?_append_right (Nat.le_of_not_lt before),
      List.getElem?_eq_none (Nat.le_of_not_lt before)]
    cases number - peers.length with
    | zero => exact .inr ⟨rfl, rfl⟩
    | succ => exact .inl rfl

private theorem sound_acceptor (sound : Sound cn)
    (enabled : cn.enabled (.acceptor succeeds) = true) :
    Sound (cn.acceptorStep succeeds) := by
  cases pc : cn.acceptor with
  | idle =>
    simp only [Listener.acceptorStep, pc]
    split
    · exact sound.accepts rfl rfl (lock_acceptor sound rfl rfl (by rw [pc])) nofun nofun
    · exact sound.accepts rfl rfl (lock_acceptor sound rfl rfl (by rw [pc]; rfl)) nofun nofun
  | poolTest =>
    simp only [Listener.acceptorStep, pc]
    split
    · exact sound.accepts rfl rfl (lock_acceptor sound rfl rfl (by rw [pc]; rfl)) nofun nofun
    · rename_i room
      exact sound.accepts rfl rfl (lock_acceptor sound rfl rfl (by rw [pc]; rfl)) nofun fun _ =>
        Nat.le_of_not_lt room
  | sleeping =>
    simp only [Listener.acceptorStep, pc]
    exact sound.accepts rfl rfl (lock_acceptor sound rfl rfl (by rw [pc]; rfl)) nofun nofun
  | accepting | setting =>
    have room := sound.admitted (by rw [pc]; rfl)
    simp only [Listener.acceptorStep, pc]
    split
    · exact sound.accepts rfl rfl (lock_acceptor sound rfl rfl (by rw [pc]; rfl)) nofun fun _ =>
        room
    · exact sound.accepts rfl rfl (lock_acceptor sound rfl rfl (by rw [pc]; rfl)) nofun nofun
  | constructLock =>
    have free : cn.lock = none := by simpa [Listener.enabled, pc] using enabled
    have guards := sound.lock
    rw [free] at guards
    simp only [Listener.acceptorStep, pc]
    exact sound.accepts rfl rfl (guards.acquire rfl (inside_acceptor rfl)) nofun fun _ =>
      sound.admitted (by rw [pc]; rfl)
  | constructRead =>
    simp only [Listener.acceptorStep, pc]
    exact sound.accepts rfl rfl (lock_acceptor sound rfl rfl (by rw [pc]; rfl))
      (by rintro value ⟨⟩; rfl) fun _ => sound.admitted (by rw [pc]; rfl)
  | constructWrite value =>
    have inside : cn.inside .acceptor = true := by simp [Listener.inside, pc, AcceptPc.locks]
    have fresh : value = cn.nc := sound.reads .acceptor value (by simp [Listener.reading, pc])
    have room := sound.admitted (by rw [pc]; rfl)
    have grown : (value + 1) % 2 ^ 64 = cn.nc + 1 := by
      rw [fresh]
      simp only [maxAccept] at room
      omega
    simp only [Listener.acceptorStep, pc, grown]
    refine ⟨sound.lock.keep ?_, ?_, ?_, nofun, Nat.succ_le_succ room⟩
    · intro who
      cases who with
      | acceptor => simp [Listener.inside, pc, AcceptPc.locks]
      | peer number =>
        rcases constructed_pc cn.peers number with same | ⟨new, absent⟩
        · simp [Listener.inside, same]
        · simp [Listener.inside, new, absent, PeerPc.locks]
    · intro who value read
      -- Whoever else had read `nc` would hold the lock.
      cases who with
      | acceptor => cases read
      | peer number =>
        have before : cn.reading (.peer number) = some value := by
          rcases constructed_pc cn.peers number with same | ⟨new, absent⟩
          · simpa [Listener.reading, same] using read
          · simp [Listener.reading, new] at read
        cases sound.lock.alone inside (reading_inside before)
    · simp [Listener.alive, PeerPc.isAlive, sound.counted]
  | constructUnlock =>
    have inside : cn.inside .acceptor = true := by simp [Listener.inside, pc, AcceptPc.locks]
    simp only [Listener.acceptorStep, pc]
    exact sound.accepts rfl rfl (sound.lock.release inside rfl (inside_acceptor rfl)) nofun nofun

/-- Where a peer goes on, the others stay inside or outside. -/
private theorem inside_closer (peers : next.peers = cn.peers.set peer pc)
    (acceptor : next.acceptor = cn.acceptor) (who : Holder) (other : who ≠ .peer peer) :
    next.inside who = cn.inside who := by
  cases who with
  | acceptor => simp [Listener.inside, acceptor]
  | peer number =>
    have apart : peer ≠ number := fun same => other (by rw [same])
    simp [Listener.inside, peers, List.getElem?_set_ne apart]

private theorem own_closer (here : cn.peers[peer]? = some old)
    (peers : next.peers = cn.peers.set peer pc) :
    next.peers[peer]? = some pc := by
  rw [peers, List.getElem?_set_self (List.getElem?_eq_some_iff.mp here).1]

private theorem inside_own (here : cn.peers[peer]? = some old)
    (peers : next.peers = cn.peers.set peer pc) :
    next.inside (.peer peer) = pc.locks := by
  simp [Listener.inside, own_closer here peers]

private theorem lock_closer (sound : Sound cn) (here : cn.peers[peer]? = some old)
    (peers : next.peers = cn.peers.set peer pc) (acceptor : next.acceptor = cn.acceptor)
    (lock : next.lock = cn.lock) (same : pc.locks = old.locks) :
    Lock.Guards next.lock next.inside := by
  rw [lock]
  apply sound.lock.keep
  intro who
  by_cases own : who = .peer peer
  · rw [own, inside_own here peers, same]
    simp [Listener.inside, here]
  · exact inside_closer peers acceptor who own

/-- A step of somebody who closes a connection, but for the one that writes `nc`. -/
private theorem Sound.closes (sound : Sound cn) (here : cn.peers[peer]? = some old)
    (peers : next.peers = cn.peers.set peer pc) (acceptor : next.acceptor = cn.acceptor)
    (lock : Lock.Guards next.lock next.inside) (nc : next.nc = cn.nc)
    (lives : pc.isAlive = old.isAlive) (reads : ∀ value, pc = .destroyWrite value → value = cn.nc) :
    Sound next where
  lock := lock
  reads who value read := by
    rw [nc]
    by_cases own : who = .peer peer
    · simp only [own, Listener.reading, own_closer here peers] at read
      split at read
      · rename_i shape
        cases shape
        cases read
        exact reads _ rfl
      · cases read
    · apply sound.reads who value
      cases who with
      | acceptor => simpa [Listener.reading, acceptor] using read
      | peer number =>
        have apart : peer ≠ number := fun same => own (by rw [same])
        simpa [Listener.reading, peers, List.getElem?_set_ne apart] using read
  counted := by
    have count := @alive_set cn peer pc _ here
    rw [lives, Nat.add_right_cancel_iff] at count
    rw [nc, Listener.alive, peers, count]
    exact sound.counted
  admitted held := by
    rw [nc]
    exact sound.admitted (acceptor ▸ held)
  bound := by
    rw [nc]
    exact sound.bound

private theorem sound_closer (sound : Sound cn)
    (enabled : cn.enabled (.closer peer succeeds) = true) :
    Sound (cn.closerStep peer succeeds) := by
  cases here : cn.peers[peer]? with
  | none => simp [Listener.enabled, here] at enabled
  | some pc =>
    cases pc with
    | constructed | deleted => simp [Listener.enabled, here] at enabled
    | closing =>
      simp only [Listener.closerStep, here]
      split
      · exact sound.closes here rfl rfl (lock_closer sound here rfl rfl rfl rfl) rfl rfl nofun
      · exact sound.closes here rfl rfl (lock_closer sound here rfl rfl rfl rfl) rfl rfl nofun
    | destroyLock =>
      have free : cn.lock = none := by simpa [Listener.enabled, here] using enabled
      have guards := sound.lock
      rw [free] at guards
      simp only [Listener.closerStep, here]
      refine sound.closes here rfl rfl (guards.acquire ?_ (inside_closer rfl rfl)) rfl rfl nofun
      exact (inside_own here rfl).trans rfl
    | destroyRead =>
      simp only [Listener.closerStep, here]
      exact sound.closes here rfl rfl (lock_closer sound here rfl rfl rfl rfl) rfl rfl
        (by rintro _ ⟨⟩; rfl)
    | destroyWrite value =>
      have inside : cn.inside (.peer peer) = true := by simp [Listener.inside, here, PeerPc.locks]
      have fresh : value = cn.nc :=
        sound.reads (.peer peer) value (by simp [Listener.reading, here])
      have count := @alive_set cn peer .destroyUnlock _ here
      simp only [PeerPc.isAlive, if_true, Bool.false_eq_true, if_false, Nat.add_zero] at count
      have less : (value + (2 ^ 64 - 1)) % 2 ^ 64 = cn.nc - 1 := by
        have bound := sound.bound
        have counted := sound.counted
        rw [fresh]
        simp only [maxAccept] at bound
        omega
      have others :=
        @inside_closer cn { cn.goto peer .destroyUnlock with nc := cn.nc - 1 } peer .destroyUnlock
          rfl rfl
      simp only [Listener.closerStep, here, less]
      refine ⟨sound.lock.keep ?_, ?_, ?_, ?_, ?_⟩
      · intro who
        by_cases own : who = .peer peer
        · rw [own, inside]
          exact (inside_own here rfl).trans rfl
        · exact others who own
      · intro who read is
        -- Whoever else had read `nc` would hold the lock.
        have also : cn.inside who = true := by
          by_cases own : who = .peer peer
          · rw [own, inside]
          · rw [← others who own]
            exact reading_inside is
        obtain rfl := sound.lock.alone inside also
        simp [Listener.reading, Listener.goto,
          List.getElem?_set_self (List.getElem?_eq_some_iff.mp here).1] at is
      · have counted := sound.counted
        show cn.nc - 1 = (cn.peers.set peer .destroyUnlock).countP PeerPc.isAlive
        omega
      · intro held
        exact (Nat.sub_le _ _).trans (sound.admitted held)
      · exact (Nat.sub_le _ _).trans sound.bound
    | destroyUnlock =>
      have inside : cn.inside (.peer peer) = true := by simp [Listener.inside, here, PeerPc.locks]
      simp only [Listener.closerStep, here]
      refine sound.closes here rfl rfl (sound.lock.release inside ?_ (inside_closer rfl rfl)) rfl
        rfl nofun
      exact (inside_own here rfl).trans rfl

theorem Sound.step (sound : Sound cn) (enabled : cn.enabled move = true) :
    Sound (cn.step move) := by
  cases move with
  | acceptor succeeds => exact sound_acceptor sound enabled
  | close peer =>
    have here : cn.peers[peer]? = some .constructed := by simpa [Listener.enabled] using enabled
    exact sound.closes here rfl rfl (lock_closer sound here rfl rfl rfl rfl) rfl rfl nofun
  | closer peer succeeds => exact sound_closer sound enabled

theorem reachable_sound (reached : Reachable program cn) : Sound cn :=
  reached.invariant Sound .start fun _ _ _ sound enabled ran =>
    Except.ok.inj ran ▸ sound.step enabled

/-- The limit that holds: one more than `MaxACCEPT`, and `nc` is the number of peers that are
alive. -/
theorem pool_bound (reached : Reachable program cn) : cn.nc = cn.alive ∧ cn.nc ≤ maxAccept + 1 :=
  ⟨(reachable_sound reached).counted, (reachable_sound reached).bound⟩

/-- The decrement of a destructor takes one from zero. -/
def Underflows (attempt : Listener × Move) : Prop :=
  ∃ peer succeeds, attempt.2 = .closer peer succeeds ∧
    attempt.1.peers[peer]? = some (.destroyWrite 0)

/-- In every state of the run `nc` is within the limit, and no decrement underflows. -/
structure Limited (attempts : List (Listener × Move)) (cn : Listener) : Prop where
  within : (∀ attempt ∈ attempts, attempt.1.nc ≤ maxAccept) ∧ cn.nc ≤ maxAccept
  noUnderflow : ∀ attempt ∈ attempts, ¬ Underflows attempt

/-- The test of the loop lets a call of `svr_conn_accept` through with `nc` at the limit. -/
def LetInFull (attempt : Listener × Move) : Prop :=
  ∃ succeeds, attempt.2 = .acceptor succeeds ∧ attempt.1.acceptor = .poolTest ∧
    attempt.1.nc = maxAccept

/-- `accept` or `setsockopt` fails, so the call makes no connection. -/
def Refuses (attempt : Listener × Move) : Prop :=
  attempt.2 = .acceptor false ∧
    (attempt.1.acceptor = .accepting ∨ attempt.1.acceptor = .setting)

/-- A destructor writes back what it has counted down. -/
def CountsDown (attempt : Listener × Move) : Prop :=
  ∃ peer succeeds nc, attempt.2 = .closer peer succeeds ∧
    attempt.1.peers[peer]? = some (.destroyWrite nc)

/-- A constructor writes back what it has counted up. -/
def CountsUp (attempt : Listener × Move) : Prop :=
  ∃ succeeds nc, attempt.2 = .acceptor succeeds ∧ attempt.1.acceptor = .constructWrite nc

/-- A call has been let in at the limit; since then neither `accept` nor `setsockopt` has failed,
and no destructor has counted down. -/
def FullSince (earlier : List (Listener × Move)) : Prop :=
  History.Since LetInFull (fun inner => Refuses inner ∨ CountsDown inner) earlier

/-- A call that was let in at the limit gets to its constructor. -/
def Overfills (earlier : List (Listener × Move)) (attempt : Listener × Move) : Prop :=
  CountsUp attempt ∧ FullSince earlier

/-- A destructor takes one from what is not zero. -/
theorem Sound.positive {nc : Nat} (sound : Sound cn)
    (here : cn.peers[peer]? = some (.destroyWrite nc)) :
    nc = cn.nc ∧ 0 < cn.nc := by
  have lives : 0 < cn.alive := List.countP_pos_iff.mpr ⟨_, List.mem_of_getElem? here, rfl⟩
  refine ⟨sound.reads (.peer peer) nc (by simp [Listener.reading, here]), ?_⟩
  rw [sound.counted]
  exact lives

/-- Who closes a connection and does not count down leaves `nc` alone. -/
theorem closer_nc (elsewhere : ¬ CountsDown (cn, .closer peer succeeds)) :
    (cn.closerStep peer succeeds).nc = cn.nc := by
  unfold Listener.closerStep
  split
  case h_7 nc here => exact absurd ⟨peer, succeeds, nc, rfl, here⟩ elsewhere
  case h_4 => split <;> rfl
  all_goals rfl

/-- A destructor counts one down. -/
theorem counted_down (sound : Sound cn) (down : CountsDown (cn, move)) :
    (cn.step move).nc + 1 = cn.nc := by
  obtain ⟨peer, succeeds, nc, rfl, here⟩ := down
  obtain ⟨rfl, positive⟩ := sound.positive here
  have bound := sound.bound
  simp only [Listener.step, Listener.closerStep, here]
  simp only [maxAccept] at bound
  omega

/-- The accepting thread adds a peer only where its constructor writes. -/
theorem acceptor_nc (elsewhere : ¬ CountsUp (cn, .acceptor succeeds)) :
    (cn.acceptorStep succeeds).nc = cn.nc := by
  unfold Listener.acceptorStep
  split
  case h_8 nc pc => exact absurd ⟨succeeds, nc, rfl, pc⟩ elsewhere
  case h_1 | h_2 | h_4 | h_5 => split <;> rfl
  all_goals rfl

/-- The test of the loop leaves `nc` alone. -/
theorem tested_nc (pc : cn.acceptor = .poolTest) : (cn.acceptorStep succeeds).nc = cn.nc :=
  acceptor_nc (by simp [CountsUp, pc])

/-- A constructor counts one up. -/
theorem counted_up (sound : Sound cn) (up : CountsUp (cn, move)) :
    (cn.step move).nc = cn.nc + 1 := by
  obtain ⟨succeeds, nc, rfl, pc⟩ := up
  simp only at pc
  have fresh : nc = cn.nc := sound.reads .acceptor nc (by simp [Listener.reading, pc])
  have bound := sound.bound
  simp only [Listener.step, Listener.acceptorStep, pc, fresh]
  simp only [maxAccept] at bound
  omega

/-- Every other step leaves `nc` alone. -/
theorem nc_kept (not_up : ¬ CountsUp (cn, move)) (not_down : ¬ CountsDown (cn, move)) :
    (cn.step move).nc = cn.nc := by
  cases move with
  | acceptor succeeds => exact acceptor_nc not_up
  | close peer => rfl
  | closer peer succeeds => exact closer_nc not_down

/-- Who closes a connection does not move the accepting thread. -/
theorem closer_acceptor : (cn.closerStep peer succeeds).acceptor = cn.acceptor := by
  unfold Listener.closerStep
  split
  case h_4 => split <;> rfl
  all_goals rfl

/-- Where the accepting thread has passed the test after a step, it had before, or the step is
the test. -/
theorem admitted_before (admitted : (cn.step move).acceptor.isAdmitted = true) :
    (cn.acceptor.isAdmitted = true ∧ ¬ Refuses (cn, move) ∧ ¬ CountsUp (cn, move)) ∨
      ∃ succeeds, move = .acceptor succeeds ∧ cn.acceptor = .poolTest := by
  cases move with
  | close peer => exact .inl ⟨admitted, by simp [Refuses], by simp [CountsUp]⟩
  | closer peer succeeds =>
    refine .inl ⟨?_, by simp [Refuses], by simp [CountsUp]⟩
    rw [← closer_acceptor]
    exact admitted
  | acceptor succeeds =>
    cases pc : cn.acceptor with
    | poolTest => exact .inr ⟨succeeds, rfl, rfl⟩
    | accepting | setting =>
      cases succeeds with
      | false => simp [Listener.step, Listener.acceptorStep, pc, AcceptPc.isAdmitted] at admitted
      | true => exact .inl ⟨rfl, by simp [Refuses], by simp [CountsUp, pc]⟩
    | constructLock | constructRead =>
      exact .inl ⟨rfl, by simp [Refuses, pc], by simp [CountsUp, pc]⟩
    | idle =>
      simp only [Listener.step, Listener.acceptorStep, pc] at admitted
      split at admitted <;> simp [AcceptPc.isAdmitted] at admitted
    | sleeping | constructWrite | constructUnlock =>
      simp [Listener.step, Listener.acceptorStep, pc, AcceptPc.isAdmitted] at admitted

/-- Who is in with `nc` at the limit was let in at the limit, and nobody has left since. -/
theorem admitted_full (run : Run program attempts (.ok cn))
    (admitted : cn.acceptor.isAdmitted = true) (full : cn.nc = maxAccept) :
    FullSince attempts := by
  generalize ended : Except.ok cn = outcome at run
  induction run generalizing cn with
  | start =>
    cases ended
    cases admitted
  | @step attempts before move earlier allowed ih =>
    obtain rfl : cn = before.step move := Except.ok.inj ended
    have sound := reachable_sound ⟨_, earlier⟩
    apply History.since_concat.mpr
    rcases admitted_before admitted with ⟨was, not_refused, not_up⟩ | ⟨succeeds, rfl, pc⟩
    · -- Who was in had room, so a count down leaves less than the limit.
      have not_down : ¬ CountsDown (before, move) := by
        intro down
        have room := sound.admitted was
        have less := counted_down sound down
        omega
      have was_full : before.nc = maxAccept := by rw [← nc_kept not_up not_down, full]
      exact .inr ⟨fun relieved => relieved.elim not_refused not_down, ih was was_full rfl⟩
    · exact .inl ⟨succeeds, rfl, pc, (tested_nc pc).symm.trans full⟩

/-- As long as nobody has left since a call was let in at the limit, `nc` is not below it. -/
theorem since_full (run : Run program attempts (.ok cn))
    (since : FullSince attempts) :
    maxAccept ≤ cn.nc := by
  generalize ended : Except.ok cn = outcome at run
  induction run generalizing cn with
  | start => exact absurd since History.not_since_nil
  | @step attempts before move earlier allowed ih =>
    obtain rfl : cn = before.step move := Except.ok.inj ended
    rcases History.since_concat.mp since with ⟨succeeds, rfl, pc, full⟩ | ⟨stays, since⟩
    · exact Nat.le_of_eq ((tested_nc pc).trans full).symm
    · have full := ih since rfl
      by_cases up : CountsUp (before, move)
      · rw [counted_up (reachable_sound ⟨_, earlier⟩) up]
        exact full.trans (Nat.le_succ _)
      · rw [nc_kept up fun down => stays (.inr down)]
        exact full

/-- Only a constructor whose call was let in at the limit exceeds it. -/
theorem nc_step (run : Run program attempts (.ok cn)) (room : cn.nc ≤ maxAccept) :
    (cn.step move).nc ≤ maxAccept ↔ ¬ Overfills attempts (cn, move) := by
  have sound := reachable_sound ⟨_, run⟩
  by_cases up : CountsUp (cn, move)
  · rw [counted_up sound up]
    obtain ⟨succeeds, nc, rfl, pc⟩ := id up
    constructor
    · rintro few ⟨_, since⟩
      have full := since_full run since
      omega
    · intro spared
      by_contra more
      exact spared ⟨up, admitted_full run (by simp only at pc; rw [pc]; rfl) (by omega)⟩
  · have kept : (cn.step move).nc ≤ cn.nc := by
      by_cases down : CountsDown (cn, move)
      · have less := counted_down sound down
        omega
      · exact Nat.le_of_eq (nc_kept up down)
    exact iff_of_true (kept.trans room) fun overfills => up overfills.1

/-- **The limit is `MaxACCEPT` as long as no call that is let in at the limit gets to its
constructor.** -/
theorem limited_iff (run : Run program attempts (.ok cn)) :
    Limited attempts cn ↔
      History.Throughout (fun earlier attempt => ¬ Overfills earlier attempt) attempts := by
  have noUnderflow : ∀ attempt ∈ attempts, ¬ Underflows attempt := by
    rintro attempt member ⟨peer, succeeds, _, here⟩
    obtain ⟨_, _, reached, _⟩ := run.attempted attempt member
    obtain ⟨zero, positive⟩ := (reachable_sound ⟨_, reached⟩).positive here
    omega
  have within : ((∀ attempt ∈ attempts, attempt.1.nc ≤ maxAccept) ∧ cn.nc ≤ maxAccept) ↔
      History.Throughout (fun earlier attempt => ¬ Overfills earlier attempt) attempts := by
    clear noUnderflow
    generalize ended : Except.ok cn = outcome at run
    induction run generalizing cn with
    | start =>
      cases ended
      exact iff_of_true ⟨nofun, Nat.zero_le _⟩ History.throughout_nil
    | @step attempts before move earlier allowed ih =>
      obtain rfl : cn = before.step move := Except.ok.inj ended
      have so_far := ih rfl
      rw [History.throughout_concat, ← so_far]
      simp only [List.forall_mem_append, List.forall_mem_singleton]
      exact and_congr_right fun spared => nc_step earlier spared.2
  exact ⟨fun limited => within.mp limited.within, fun spared => ⟨within.mpr spared, noUnderflow⟩⟩

/-- One connection is accepted, and closed at the second attempt. -/
def sampleMoves : List Move :=
  List.flatten [List.replicate 8 (.acceptor true), [.close 0, .closer 0 false, .close 0],
    List.replicate 5 (.closer 0 true)]

theorem limited_sample :
    ∃ cn, program.replay program.start sampleMoves = .ok cn ∧
      (Limited (program.trace program.start sampleMoves) cn ↔
        History.Throughout (fun earlier attempt => ¬ Overfills earlier attempt)
          (program.trace program.start sampleMoves)) :=
  ⟨_, rfl, limited_iff (replayed program sampleMoves (by decide))⟩

/-- So many connections have been accepted and none was closed. -/
def filled (number : Nat) : Listener where
  nc := number
  peers := List.replicate number .constructed
  log := List.replicate number (.accepted .ok)

/-- As long as there is room, and once more, another connection is accepted. -/
theorem filled_leads {number : Nat} (room : number ≤ maxAccept) :
    Leads program (filled number) (filled (number + 1)) := by
  have tested (cn : Listener) (pc : cn.acceptor = .poolTest) (few : cn.nc ≤ maxAccept) :
      cn.step (.acceptor true) = { cn with acceptor := .accepting } := by
    simp [Listener.step, Listener.acceptorStep, pc, few]
  have small : (number + 1) % 2 ^ 64 = number + 1 := by
    simp only [maxAccept] at room
    omega
  have counted (cn : Listener) (pc : cn.acceptor = .constructWrite number) :
    cn.step (.acceptor true) =
      { cn with acceptor := .constructUnlock, nc := number + 1, peers := cn.peers ++ [.constructed] } := by
    simp only [Listener.step, Listener.acceptorStep, pc, small]
  have unlocked : (({ filled number with
      acceptor := .constructUnlock
      nc := number + 1
      lock := some .acceptor
      peers := (filled number).peers ++ [.constructed] } : Listener).step (.acceptor true)) =
        filled (number + 1) := by
    simp [Listener.step, Listener.acceptorStep, filled, List.replicate_succ']
  have goes {cn next : Listener} (leads : Leads program (filled number) cn)
      (free : cn.lock = none ∨ cn.acceptor ≠ .constructLock)
      (is_next : cn.step (.acceptor true) = next) :
      Leads program (filled number) next := by
    have allowed : cn.enabled (.acceptor true) = true := by
      rcases free with free | elsewhere
      · simp [Listener.enabled, free]
      · simp [Listener.enabled, elsewhere]
    exact leads.step allowed (congrArg Except.ok is_next)
  have accepting := goes (goes .here (.inl rfl) rfl) (.inl rfl) (tested _ rfl room)
  have constructing := goes (goes accepting (.inl rfl) rfl) (.inl rfl) rfl
  have writing := goes (goes constructing (.inl rfl) rfl) (.inr AcceptPc.noConfusion) rfl
  exact goes (goes writing (.inr AcceptPc.noConfusion) (counted _ rfl))
    (.inr AcceptPc.noConfusion) unlocked

/-- With nobody leaving, the pool has one connection more than the limit. -/
theorem limited_overfilled : ∃ attempts, Run program attempts (.ok (filled (maxAccept + 1))) ∧
    ¬ (filled (maxAccept + 1)).nc ≤ maxAccept := by
  have fills (number : Nat) (room : number ≤ maxAccept + 1) :
    Reachable program (filled number) := by
    induction number with
    | zero => exact .start
    | succ number ih => exact (ih (by omega)).leads (filled_leads (by omega))
  obtain ⟨attempts, run⟩ := fills (maxAccept + 1) (Nat.le_refl _)
  exact ⟨attempts, run, by decide⟩

end EventDisp.SvrConn
