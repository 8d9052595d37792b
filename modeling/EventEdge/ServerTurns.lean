import EventEdge.ServerRequests
import EventEdge.ServerWaiters
/-!
# ServerTurns — on every connection, a request and its answer take turns

`turns i` forgets everything of the log but what session `i` read and wrote, by number.  Whatever the other sessions,
the flights and the upstreams do, these take turns: the first request, its answer, the second request, its answer, and
so on (`dialogue`), up to the request the session is working on.
-/
namespace EventEdge
namespace Server

/-- The session read its `number`-th request, or began to write the answer to it. -/
inductive Turn where
  | asked (number : Nat)
  | told (number : Nat)
  deriving DecidableEq, Repr

def Event.turn (i : Nat) : Event → Option Turn
  | .received j n _ => if j = i then some (.asked n) else none
  | .wrote j n _ => if j = i then some (.told n) else none
  | _ => none

def turns (i : Nat) (log : List Logged) : List Turn := log.filterMap (fun e => e.event.turn i)

/-- **The abstract connection** after `n` exchanges. -/
def dialogue : Nat → List Turn
  | 0 => []
  | n + 1 => dialogue n ++ [.asked (n + 1), .told (n + 1)]

/-- The turns of a session that read `number` requests, and answered them all or all but the last. -/
def TurnsOk (ts : List Turn) (number : Nat) (settled : Bool) : Prop :=
  if settled then ts = dialogue number else ∃ n, number = n + 1 ∧ ts = dialogue n ++ [.asked number]

def TurnInv (st : State) : Prop := ∀ i, TurnsOk (turns i st.log) (st.sessions i).number (st.sessions i).phase.settled

variable {cfg : Config} {st st' : State} {a : Action}

theorem turns_quiet {i : Nat} {log l : List Logged} (h : ∀ e ∈ l, e.event.quiet = true) :
    turns i (log ++ l) = turns i log := by
  have hnone : l.filterMap (fun e => e.event.turn i) = [] := by
    refine List.filterMap_eq_nil_iff.2 (fun e he => ?_)
    have hq := h e he
    cases hev : e.event <;> rw [hev] at hq <;> first | rfl | cases hq
  unfold turns
  rw [List.filterMap_append, hnone, List.append_nil]

/-- A session moves on, by steps that are no turn. -/
theorem TurnInv.move (h : TurnInv st) {i : Nat} {s : Session} {l : List Logged}
    (hs : st'.sessions = Function.update st.sessions i s) (hl : st'.log = st.log ++ l)
    (hq : ∀ e ∈ l, e.event.quiet = true) (hn : s.number = (st.sessions i).number)
    (hp : s.phase.settled = (st.sessions i).phase.settled) : TurnInv st' := by
  intro j
  rw [hl, turns_quiet hq]
  rcases Lts.update_cases hs j with ⟨rfl, hj⟩ | ⟨-, hj⟩
  · rw [hj, hn, hp]; exact h j
  · rw [hj]; exact h j

theorem TurnInv.same (h : TurnInv st) (hs : st'.sessions = st.sessions) (hl : st'.log = st.log) : TurnInv st' := by
  intro j
  rw [hs, hl]
  exact h j

/-- A session takes a turn. -/
theorem TurnInv.turn (h : TurnInv st) {i : Nat} {s : Session} {e : Logged} {t : Turn}
    (hs : st'.sessions = Function.update st.sessions i s) (hl : st'.log = st.log ++ [e])
    (he : ∀ j, e.event.turn j = if i = j then some t else none)
    (hok : TurnsOk (turns i st.log ++ [t]) s.number s.phase.settled) : TurnInv st' := by
  intro j
  have hturns : turns j st'.log = turns j st.log ++ (if i = j then [t] else []) := by
    unfold turns
    rw [hl, List.filterMap_append]
    by_cases hij : i = j <;> simp [he, hij]
  rw [hturns]
  rcases Lts.update_cases hs j with ⟨rfl, hj⟩ | ⟨hne, hj⟩
  · rw [hj, if_pos rfl]; exact hok
  · rw [hj, if_neg (Ne.symm hne), List.append_nil]; exact h j

/-- The next request is read only when the last one is answered. -/
theorem TurnInv.read (h : TurnInv st) {i : Nat} {request : HttpRequest} {phase : Phase}
    (hold : (st.sessions i).phase = .reading) (hnew : phase.settled = false)
    (hs : st'.sessions = Function.update st.sessions i (received st i request phase))
    (hl : st'.log = receivedLog st i request) : TurnInv st' := by
  refine h.turn hs hl (t := .asked ((st.sessions i).number + 1)) (fun j => rfl) ?_
  have hi := h i
  rw [hold] at hi
  have hturns : turns i st.log = dialogue (st.sessions i).number := hi
  show TurnsOk _ ((st.sessions i).number + 1) phase.settled
  rw [hnew, hturns]
  exact ⟨_, rfl, rfl⟩

/-- The answer is to the request read last. -/
theorem TurnInv.answer (h : TurnInv st) {i : Nat} {reply : Reply} {c : Bool}
    (hold : (st.sessions i).phase = .responding reply) (hs : st'.sessions = atPhase st i (.writing c))
    (hl : st'.log = st.log ++ [⟨st.now, .wrote i (st.sessions i).number reply⟩]) : TurnInv st' := by
  refine h.turn hs hl (t := .told (st.sessions i).number) (fun j => rfl) ?_
  have hi := h i
  rw [hold] at hi
  obtain ⟨n, hn, hturns⟩ : ∃ n, (st.sessions i).number = n + 1 ∧
      turns i st.log = dialogue n ++ [Turn.asked (st.sessions i).number] := hi
  show turns i st.log ++ [.told (st.sessions i).number] = dialogue (st.sessions i).number
  rw [hturns, hn, List.append_assoc]
  rfl

theorem settled_flightPhase (key : Str) (reply : Reply) (c : Bool) : (flightPhase key reply c).settled = false :=
  Phase.settled_of_pending (flightPhase_pending key reply c)

theorem TurnInv.step (h : TurnInv st) (hc : CoreInv cfg st) (hs : Step cfg st a st') : TurnInv st' := by
  cases hs with
  | tick | proxyStep | proxyThrow | health => exact h.same rfl rfl
  | readLocal i _ _ _ hph | readCacheable i _ _ hph | readOther i _ _ hph => exact h.read hph rfl rfl rfl
  | respond i reply hph => exact h.answer hph rfl rfl
  | accept i _ hph | readError i _ _ hph | writtenNext i _ hph | writtenLast i _ _ _ hph | leadThrow i _ _ _ hph
  | directThrow i _ _ hph | miss i _ hph | missAlone i _ hph | leadUnavailable i _ hph | leadFetch i _ _ _ hph
  | directUnavailable i hph | directFetch i _ _ hph =>
    exact h.move (l := []) rfl (List.append_nil _).symm nofun rfl (by rw [hph]; rfl)
  | hit i _ _ hph | lead i _ hph | wait i _ _ hph | store i _ _ hph | release i _ _ hph =>
    exact h.move rfl rfl (mem_singleton_quiet rfl) rfl (by rw [hph]; rfl)
  | callback pre post w reply _ hp =>
    obtain ⟨k, hk⟩ := hc.callback_waiting hp
    exact h.move (l := []) rfl (List.append_nil _).symm nofun rfl (by rw [hk]; rfl)
  | proxyFlight id p q event i key r _ hp hop hh =>
    refine h.move rfl rfl (mem_singleton_quiet rfl) rfl ?_
    rw [hc.proxies.flight_phase hp hop hh]
    exact settled_flightPhase key _ true
  | proxyDirect id p q event i r _ hp hop hh =>
    refine h.move rfl rfl (mem_singleton_quiet rfl) rfl ?_
    rw [hc.proxies.direct_phase hp hop hh]
    rfl

/-- **Requests and answers take turns on every connection**: in every run, and however the sessions interleave, what a
session read and wrote so far is its first request, the answer to it, its second request, and so on; only the answer to
the last request may be missing, and it is exactly as long as the session works on it. -/
theorem Reachable.takes_turns (h : Reachable cfg st) (i : Nat) :
    if (st.sessions i).phase.settled then turns i st.log = dialogue (st.sessions i).number
    else ∃ n, (st.sessions i).number = n + 1 ∧ turns i st.log = dialogue n ++ [.asked (n + 1)] := by
  have hinv : TurnInv st := h.invWith (J := CoreInv cfg) (fun _ hr => Reachable.core hr) (fun _ => rfl)
    (fun _ a _ hc hi _ hs => hi.step hc (step_sound a hs))
  have hi := hinv i
  unfold TurnsOk at hi
  split
  · rename_i hset; rwa [if_pos hset] at hi
  · rename_i hset
    rw [if_neg hset] at hi
    obtain ⟨n, hn, hturns⟩ := hi
    exact ⟨n, hn, by rw [hturns, hn]⟩

/-- A kept connection: the first request is answered, the second is being answered while another client's waits. -/
theorem takes_turns_keptAlive : ∃ st, Reachable sampleConfig st ∧ (st.sessions 0).phase.settled = false ∧
    ∃ n, (st.sessions 0).number = n + 1 ∧ turns 0 st.log = dialogue n ++ [.asked (n + 1)] := by
  obtain ⟨st, hr, hf⟩ := Lts.exists_reach (step sampleConfig) (fun _ _ => true) (init sampleConfig)
    ([.accept 0, .read 0 (.ok (getOf "/health".toList [])), .respond 0, .written 0 true, .accept 1,
      .read 1 (.ok (getOf "/x".toList [])), .read 0 (.ok (getOf "/x".toList []))])
    (fun st => decide ((st.sessions 0).phase.settled = false)) (by decide +kernel)
  have ht := Reachable.takes_turns hr.any 0
  rw [of_decide_eq_true hf] at ht
  exact ⟨st, hr.any, of_decide_eq_true hf, ht⟩

end Server
end EventEdge
