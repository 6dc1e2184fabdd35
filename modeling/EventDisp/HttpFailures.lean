import EventDisp.HttpRuns

/-! The assertions of `svr_http_final_aio`: they hold whatever fails, but for the
writing of an answer to a bad request, which has no head in the cache. -/
namespace EventDisp.Server

open Execution

variable {server : Server} {index : Nat} {aio : Aio} {around : Surroundings}

private theorem failed_completes (aio : Aio) : aio.completes .failed = true := by
  cases aio <;> rfl

/-- No assertion fails exactly when what fails is not the writing of an answer to a bad
request. -/
theorem failure_asserts_iff (reached : Reachable program server)
    (pending : server.client.aios[index]? = some aio) (fits : around.fits = true) :
    (∀ which, exec server (.complete index .failed around) ≠ .error (.assertion which)) ↔
      ∀ pk data, aio ≠ .write400 pk data := by
  have allowed : program.allowed server (.complete index .failed around) := by
    simp [program, enabled, Step.around, fits, pending, failed_completes]
  constructor
  · rintro holds pk data rfl
    obtain ⟨cn, done, hpkg, hand, told, ⟨child, connected, state, part, unset⟩, _⟩ :=
      (reachable_sound reached).takeAio pending rfl (without_aio server.client index) rfl rfl
    apply holds .finalHeadKey
    simp only [exec, pending]
    exact finalAio_400 hand connected state part unset around
  · intro other which stopped
    rcases reachable_stops reached allowed stopped with null | ⟨_, failing, found, fails⟩
    · cases null
    · rw [pending] at found
      cases found
      cases aio with
      | write400 pk data => exact other pk data rfl
      | readRequest | writeHead | readBody | writeBody => exact fails

/-- The writing of a head and the reading of a body may both fail. -/
theorem failure_asserts_both : ∃ server, Reachable program server ∧
    server.client.aios = [.writeHead ⟨1, 1⟩ (head200 1 [] [] 3),
      .readBody ⟨0, 1⟩ (some "a".toList) 0] ∧
    ∀ index < 2, ∀ which,
      exec server (.complete index .failed fileOf3) ≠ .error (.assertion which) := by
  obtain ⟨server, run, pending⟩ :=
    @Run.shown _ _ _ program _ (fun server => server.client.aios)
      [.writeHead ⟨1, 1⟩ (head200 1 [] [] 3), .readBody ⟨0, 1⟩ (some "a".toList) 0] sharing
      (by decide +kernel) (by decide +kernel)
  have reached : Reachable program server := ⟨_, run⟩
  refine ⟨server, reached, pending, ?_⟩
  intro index below
  match index, below with
  | 0, _ => exact (failure_asserts_iff reached (by rw [pending]; rfl) rfl).mpr (by simp)
  | 1, _ => exact (failure_asserts_iff reached (by rw [pending]; rfl) rfl).mpr (by simp)

/-- A request of a version that is not known. -/
private def refused : List Step := asking "GET /a FOO\r\n\r\n".toList bare

/-- When the answer to it cannot be written, the assertion that a head has been looked
up fails. -/
theorem refused_asserts : ∃ server, Reachable program server ∧
    server.client.aios[0]? = some (.write400 ⟨0, 1⟩ answer400) ∧
    exec server (.complete 0 .failed bare) = .error (.assertion .finalHeadKey) := by
  obtain ⟨server, ran, pending, stopped⟩ : ∃ server,
    program.replay program.start refused = .ok server ∧
      server.client.aios[0]? = some (.write400 ⟨0, 1⟩ answer400) ∧
      exec server (.complete 0 .failed bare) = .error (.assertion .finalHeadKey) :=
        ⟨_, rfl, rfl, rfl⟩
  exact ⟨server, .replayed (by decide) ran, pending, stopped⟩

end EventDisp.Server
