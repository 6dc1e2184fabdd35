/-! The ways a run of the program ends abnormally. -/
namespace EventDisp

/-- The `assert`s whose failure the model represents, named by what they test. -/
inductive Assertion where
  /-- `Cache::doneWith`: `entry->refCount > 0`. -/
  | doneWithReferenced
  /-- `Cache::doneWith`: the key is in the cache. -/
  | doneWithPresent
  /-- `Cache::cleanup`: `entry->refCount == 0`. -/
  | cleanupUnreferenced
  /-- `FastFIFO::removeNode`: `node != NULL`. -/
  | removeNodeGiven
  /-- `FastFIFO::removeNode`: `next != NULL`. -/
  | removeNodeFormed
  /-- `DelayedTask::DelayedTask`: `timer_create` answers `0`. -/
  | timerCreated
  /-- `DelayedTask::DelayedTask`: `timer_settime` answers `0`. -/
  | timerStarted
  /-- `DelayedTask::resetTimer`: `timer_settime` answers `0`. -/
  | timerReset
  /-- `svr_http_header`: `rsvp == true`. -/
  | headReserved
  /-- `svr_http_header`: the second `get` answers `true`. -/
  | headQueued
  /-- `svr_http_header_rio`: `isput == true`. -/
  | headPut
  /-- `svr_http_header_rio`: `pk->chead.p == NULL`. -/
  | headUnset
  /-- `svr_http_body`: `rsvp == true`. -/
  | bodyReserved
  /-- `svr_http_body`: the second `get` answers `true`. -/
  | bodyQueued
  /-- `svr_http_body_pio`: `iscac == true`. -/
  | bodyPut
  /-- `svr_http_final_aio`: `cn->cst != CS_CLOSING`. -/
  | finalNotClosing
  /-- `svr_http_final_aio`: `pk->headkey.p != NULL`. -/
  | finalHeadKey
  /-- `svr_http_final_aio`: `pk->bodykey.p != NULL`. -/
  | finalBodyKey
  deriving DecidableEq, Repr

/-- A failed assertion, an access through a null pointer, or a use of an object
that has been deleted. -/
inductive Fault where
  | assertion (which : Assertion)
  | nullAccess
  | dangling
  deriving DecidableEq, Repr

end EventDisp
