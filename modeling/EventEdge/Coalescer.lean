import Mathlib.Data.List.AList
import Mathlib.Logic.Function.Basic
/-!
# Coalescer — the open flights and their waiters (`request_coalescer.cpp`)

`complete` is the part of `RequestCoalescer::complete` under the mutex: the flight leaves the map and its waiters come
out, in join order, to be called one after the other once the mutex is released.  Calling them is the caller's
business here: the server posts one callback each (`Server`), and `CoalescerRuns` lets anything happen in between.
Waiters are never looked into, so they are a type parameter.
-/
namespace EventEdge

structure RequestCoalescer (κ ω : Type) where
  flights : AList (fun _ : κ => List ω)

namespace RequestCoalescer

inductive Role where
  | leader | waiter
  deriving DecidableEq, Repr

variable {κ ω : Type}

def make : RequestCoalescer κ ω := ⟨∅⟩

def size (c : RequestCoalescer κ ω) : Nat := c.flights.entries.length

variable [DecidableEq κ]

def joinOrStart (c : RequestCoalescer κ ω) (key : κ) (waiter : ω) : Role × RequestCoalescer κ ω :=
  match c.flights.lookup key with
  | none => (.leader, ⟨c.flights.insert key []⟩)
  | some waiters => (.waiter, ⟨c.flights.insert key (waiters ++ [waiter])⟩)

def complete (c : RequestCoalescer κ ω) (key : κ) : List ω × RequestCoalescer κ ω :=
  match c.flights.lookup key with
  | none => ([], c)
  | some waiters => (waiters, ⟨c.flights.erase key⟩)

def waiterCount (c : RequestCoalescer κ ω) (key : κ) : Nat := ((c.flights.lookup key).map List.length).getD 0

/-- The waiters of every open flight. -/
def waiters (c : RequestCoalescer κ ω) (key : κ) : Option (List ω) := c.flights.lookup key

/-! ## One call, read off `waiters` -/

variable (c : RequestCoalescer κ ω) (key : κ) (w : ω)

theorem waiters_insert (m : AList (fun _ : κ => List ω)) (ws : List ω) :
    (RequestCoalescer.mk (m.insert key ws)).waiters = Function.update (RequestCoalescer.mk m).waiters key (some ws) := by
  funext k
  unfold waiters
  by_cases hk : k = key
  · subst hk; rw [Function.update_self]; exact AList.lookup_insert m
  · rw [Function.update_of_ne hk]; exact AList.lookup_insert_ne hk

theorem waiters_erase (m : AList (fun _ : κ => List ω)) :
    (RequestCoalescer.mk (m.erase key)).waiters = Function.update (RequestCoalescer.mk m).waiters key none := by
  funext k
  unfold waiters
  by_cases hk : k = key
  · subst hk; rw [Function.update_self]; exact AList.lookup_erase k m
  · rw [Function.update_of_ne hk]; exact AList.lookup_erase_ne hk

/-- **The first caller leads** an empty flight. -/
theorem joinOrStart_none (h : c.waiters key = none) : (c.joinOrStart key w).1 = .leader ∧
    (c.joinOrStart key w).2.waiters = Function.update c.waiters key (some []) := by
  unfold waiters at h
  unfold joinOrStart
  rw [h]
  exact ⟨rfl, waiters_insert key c.flights []⟩

/-- **A later caller queues last.** -/
theorem joinOrStart_some {ws : List ω} (h : c.waiters key = some ws) : (c.joinOrStart key w).1 = .waiter ∧
    (c.joinOrStart key w).2.waiters = Function.update c.waiters key (some (ws ++ [w])) := by
  unfold waiters at h
  unfold joinOrStart
  rw [h]
  exact ⟨rfl, waiters_insert key c.flights (ws ++ [w])⟩

/-- **`complete` empties its own key and touches no other.** -/
theorem complete_waiters : (c.complete key).1 = (c.waiters key).getD [] ∧
    (c.complete key).2.waiters = Function.update c.waiters key none := by
  unfold complete
  cases h : c.flights.lookup key with
  | none =>
    refine ⟨by unfold waiters; rw [h]; rfl, ?_⟩
    rw [Function.update_eq_self_iff.2 (show none = c.waiters key from h.symm)]
  | some ws => exact ⟨by unfold waiters; rw [h]; rfl, waiters_erase key c.flights⟩

end RequestCoalescer
end EventEdge
