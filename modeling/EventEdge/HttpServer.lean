import EventEdge.Http
/-!
# HttpServer — the acceptor (`http_server.cpp`)

The constructor opens, binds and listens, and throws at the first call that fails; `run` starts the first
`async_accept`, and the handler of one starts the next as long as the acceptor is open.  Closing the acceptor completes
the `async_accept` that still waits with `operation_aborted`; one that completed before keeps its outcome.

Ghost: `aborted`.
-/
namespace EventEdge

/-- How an `async_accept` completes. -/
inductive Accepted where
  | socket
  | operationAborted
  | error (message : Str)
  deriving DecidableEq, Repr

/-- An `async_accept` whose handler has not run. -/
inductive Accept where
  | waiting
  | completed (outcome : Accepted)
  deriving DecidableEq, Repr

/-- The acceptor is closed. -/
def Accept.close : Accept → Accept
  | .waiting => .completed .operationAborted
  | .completed outcome => .completed outcome

/-- `HttpServer`: whether `acceptor_` is open, the outstanding accepts, how many sessions were made and run, and the
lines written to `std::cerr`. -/
structure HttpServer where
  isOpen : Bool
  accepts : List Accept
  sessions : Nat
  printed : List Str
  aborted : Nat
  deriving DecidableEq, Repr

namespace HttpServer

/-- The error codes of the four calls of the constructor. -/
structure Calls (ε : Type) where
  opened : Option ε
  reuseAddress : Option ε
  bound : Option ε
  listening : Option ε

section

variable {ε : Type}

/-- A `system_error` is its code and the operation. -/
def throwIfError (error : Option ε) (operation : String) : Except (ε × String) Unit :=
  match error with
  | some code => .error (code, operation)
  | none => .ok ()

def make (calls : Calls ε) : Except (ε × String) HttpServer := do
  throwIfError calls.opened "opening acceptor"
  throwIfError calls.reuseAddress "setting reuse address"
  throwIfError calls.bound "binding acceptor"
  throwIfError calls.listening "listening on acceptor"
  return ⟨true, [], 0, [], 0⟩

/-- **The constructor returns exactly if no call fails.** -/
theorem make_ok_iff {calls : Calls ε} {s : HttpServer} :
    make calls = .ok s ↔ calls = ⟨none, none, none, none⟩ ∧ s = ⟨true, [], 0, [], 0⟩ := by
  obtain ⟨opened, reuseAddress, bound, listening⟩ := calls
  cases opened with
  | some e => simp [make, throwIfError, bind, Except.bind]
  | none =>
    cases reuseAddress with
    | some e => simp [make, throwIfError, bind, Except.bind]
    | none =>
      cases bound with
      | some e => simp [make, throwIfError, bind, Except.bind]
      | none =>
        cases listening with
        | some e => simp [make, throwIfError, bind, Except.bind]
        | none => simp [make, throwIfError, bind, Except.bind, pure, Except.pure, eq_comm]

end

def doAccept (s : HttpServer) : HttpServer := { s with accepts := s.accepts ++ [.waiting] }

def run (s : HttpServer) : HttpServer := s.doAccept

def stop (s : HttpServer) : HttpServer := { s with isOpen := false, accepts := s.accepts.map Accept.close }

/-- The handler of the accept at place `k`: a session is made and run, or an error printed, and the next accept
started. -/
def onAccept (s : HttpServer) (k : Nat) (outcome : Accepted) : HttpServer :=
  let s := { s with accepts := s.accepts.eraseIdx k }
  let s := match outcome with
    | .socket => { s with sessions := s.sessions + 1 }
    | .operationAborted => { s with aborted := s.aborted + 1 }
    | .error message => { s with printed := s.printed ++ ["Accept error: ".toList ++ message ++ ['\n']] }
  if s.isOpen then s.doAccept else s

/-- The sessions made, and the one that is about to be. -/
def due (s : HttpServer) : Nat := s.sessions + s.accepts.count (.completed .socket)

/-- An open acceptor has one accept outstanding; a closed one has at most one, and it does not wait any more. -/
structure Ready (s : HttpServer) : Prop where
  one : s.isOpen = true → ∃ a, s.accepts = [a]
  last : s.isOpen = false → s.accepts = [] ∨ ∃ outcome, s.accepts = [.completed outcome]

variable {s : HttpServer}

theorem ready_run : Ready (run ⟨true, [], 0, [], 0⟩) :=
  ⟨fun _ => ⟨.waiting, rfl⟩, fun h => (by cases h)⟩

theorem Ready.le_one (h : Ready s) : s.accepts.length ≤ 1 := by
  cases ho : s.isOpen with
  | true =>
    obtain ⟨a, ha⟩ := h.one ho
    rw [ha]
    exact Nat.le_refl 1
  | false =>
    rcases h.last ho with ha | ⟨outcome, ha⟩
    · rw [ha]; exact Nat.zero_le 1
    · rw [ha]; exact Nat.le_refl 1

theorem Ready.stop (h : Ready s) : Ready s.stop := by
  refine ⟨fun ho => (by cases ho), fun _ => ?_⟩
  show s.accepts.map Accept.close = [] ∨ _
  cases ho : s.isOpen with
  | true =>
    obtain ⟨a, ha⟩ := h.one ho
    refine .inr ?_
    show ∃ outcome, s.accepts.map Accept.close = [.completed outcome]
    rw [ha]
    cases a with
    | waiting => exact ⟨.operationAborted, rfl⟩
    | completed outcome => exact ⟨outcome, rfl⟩
  | false =>
    rcases h.last ho with ha | ⟨outcome, ha⟩
    · rw [ha]; exact .inl rfl
    · refine .inr ⟨outcome, ?_⟩
      show s.accepts.map Accept.close = _
      rw [ha]
      rfl

/-- The only place is the first. -/
theorem Ready.eq_singleton (h : Ready s) {k : Nat} {a : Accept} (hk : s.accepts[k]? = some a) :
    k = 0 ∧ s.accepts = [a] := by
  have hlt := (List.getElem?_eq_some_iff.1 hk).1
  have hle := h.le_one
  have h0 : k = 0 := by omega
  subst h0
  obtain ⟨b, hb⟩ := List.length_eq_one_iff.1 (by omega : s.accepts.length = 1)
  rw [hb] at hk ⊢
  exact ⟨rfl, by rw [Option.some.inj hk]⟩

theorem Ready.complete (h : Ready s) {k : Nat} (hk : s.accepts[k]? = some .waiting) (outcome : Accepted) :
    Ready { s with accepts := s.accepts.set k (.completed outcome) } := by
  obtain ⟨rfl, ha⟩ := h.eq_singleton hk
  refine ⟨fun _ => ⟨.completed outcome, ?_⟩, fun _ => .inr ⟨outcome, ?_⟩⟩
  · show s.accepts.set 0 _ = _
    rw [ha]; rfl
  · show s.accepts.set 0 _ = _
    rw [ha]; rfl

/-- What the handler leaves: one more session or none, and the next accept if the acceptor is open. -/
theorem onAccept_frame (s : HttpServer) (k : Nat) (outcome : Accepted) :
    (s.onAccept k outcome).isOpen = s.isOpen ∧
    (s.onAccept k outcome).accepts = s.accepts.eraseIdx k ++ (if s.isOpen then [.waiting] else []) ∧
    (s.onAccept k outcome).sessions = s.sessions + (if outcome = .socket then 1 else 0) := by
  unfold onAccept
  cases outcome with
  | socket | operationAborted | error message =>
    cases ho : s.isOpen with
    | true => exact ⟨rfl, rfl, rfl⟩
    | false => exact ⟨rfl, by simp, rfl⟩

theorem Ready.onAccept (h : Ready s) {k : Nat} {a : Accept} (hk : s.accepts[k]? = some a) (outcome : Accepted) :
    Ready (s.onAccept k outcome) := by
  obtain ⟨rfl, ha⟩ := h.eq_singleton hk
  obtain ⟨hopen, haccepts, -⟩ := s.onAccept_frame 0 outcome
  rw [ha] at haccepts
  refine ⟨fun ho => ?_, fun ho => ?_⟩
  · rw [hopen] at ho
    rw [haccepts, if_pos ho]
    exact ⟨.waiting, rfl⟩
  · rw [hopen] at ho
    rw [haccepts, if_neg (by rw [ho]; exact Bool.false_ne_true)]
    exact .inl rfl

end HttpServer
end EventEdge
