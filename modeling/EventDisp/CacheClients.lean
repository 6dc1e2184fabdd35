import EventDisp.CacheOperations
import EventDisp.General.Outcome

/-! The client of a cache. What every callback keeps of it, the operations of the cache
keep, whoever is called and however often. -/
namespace EventDisp.Cache

open Outcome

variable {κ δ β ω : Type} [DecidableEq κ] {host : Host κ δ β ω}
variable {invoke : Invoke κ δ β ω} {keeps : ω → ω → Prop}

/-- Whenever a callback returns, the client is kept. -/
def Minds (keeps : ω → ω → Prop) (invoke : Invoke κ δ β ω) : Prop :=
  ∀ callback data host, Ends (fun _ => True) (invoke callback data host) fun after =>
    keeps host.client after.client

/-- The client is left alone. -/
private theorem modifyHost_client (ptr : EntryPtr κ) (change : CacheEntry δ β → CacheEntry δ β)
    (host : Host κ δ β ω) :
    Ends (fun _ => True) (modifyHost ptr change host) fun after => after.client = host.client := by
  unfold modifyHost
  cases host.cache.modify ptr change with
  | error => trivial
  | ok => rfl

section
variable (refl : ∀ client, keeps client client)
  (trans : ∀ {one two three}, keeps one two → keeps two three → keeps one three)
  (minds : Minds keeps invoke)
include refl trans minds

private theorem putLoop_client (ptr : EntryPtr κ) (data : CacheData δ) (deleted : Nat)
    (queue : List β) (host : Host κ δ β ω) :
    Ends (fun _ => True) (putLoop invoke ptr data deleted queue host) fun after =>
      keeps host.client after.client := by
  induction queue generalizing deleted host with
  | nil => exact refl host.client
  | cons callback rest ih =>
    refine (modifyHost_client ptr _ host).bind fun counted _ same => ?_
    refine (minds callback data (counted.calling deleted)).bind fun served _ called => ?_
    rw [← same]
    exact (ih (deleted - 1) served).mono fun _ => trans called

theorem put_client (key : κ) (buf : Option δ) (size : Nat) (host : Host κ δ β ω) :
    Ends (fun _ => True) (put invoke key buf size host) fun result =>
      keeps host.client result.2.client := by
  unfold put
  split
  · exact refl host.client
  · split
    · refine (modifyHost_client _ _ host).bind fun filled _ one => ?_
      refine (putLoop_client refl trans minds _ _ _ _ filled).bind fun served _ two => ?_
      refine (modifyHost_client _ _ served).bind fun resolved _ three => ?_
      show keeps host.client resolved.client
      rw [three, ← one]
      exact two
    · exact refl host.client

omit trans in
theorem get_client (key : κ) (callback : Option β) (host : Host κ δ β ω) :
    Ends (fun _ => True) (get invoke key callback host) fun result =>
      keeps host.client result.2.client := by
  unfold get
  split
  · exact refl host.client
  · trivial
  · split
    · exact refl host.client
    · refine (minds _ _ host).bind fun served _ one => ?_
      refine (modifyHost_client _ _ served).bind fun counted _ two => ?_
      cases counted.cache.unlist _ with
      | error => trivial
      | ok =>
        show keeps host.client counted.client
        rw [two]
        exact one

omit [DecidableEq κ] in
private theorem cancelLoop_client (deleted : Nat) (queue : List β) (host : Host κ δ β ω) :
    Ends (fun _ => True) (cancelLoop invoke deleted queue host) fun after =>
      keeps host.client after.client := by
  induction queue generalizing deleted host with
  | nil => exact refl host.client
  | cons callback rest ih =>
    refine (minds callback _ (host.calling deleted)).bind fun served _ called => ?_
    exact (ih (deleted - 1) served).mono fun _ => trans called

theorem cancelReservation_client (key : κ) (host : Host κ δ β ω) :
    Ends (fun _ => True) (cancelReservation invoke key host) fun result =>
      keeps host.client result.2.client := by
  unfold cancelReservation
  split
  · exact refl host.client
  · split
    · refine (cancelLoop_client refl trans minds _ _ _).bind fun told _ one => ?_
      refine (modifyHost_client _ _ told).bind fun resolved _ two => ?_
      show keeps host.client resolved.client
      rw [two]
      exact one
    · exact refl host.client

end

end EventDisp.Cache
