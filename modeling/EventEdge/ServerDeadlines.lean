import EventEdge.ServerOrigins
/-!
# ServerDeadlines — the client's deadline when its answer is written

`do_read` sets the deadline of a client's stream, thirty seconds ahead; the read of the request, the work upstream and
the write of the answer share it.  What is assumed of time: handlers take none (`Instant`), and a posted callback runs,
and every operation ends, before the clock passes it (`prompt`; the resolve has no deadline in the code, so it is given
`resolving`).  Then a session that goes upstream with the longest a run can take still left (`roomy`) writes its answer
before its deadline, whether it leads, waits for another session's flight or asks for itself (`answered_in_time`).
Without that it need not (`answered_late`).
-/
namespace EventEdge

/-! ## How long a run takes -/

def ProxyOp.next : ProxyOp → Option ProxyOp
  | .resolve => some .connect
  | .connect => some .write
  | .write => some .read
  | .read => none

namespace ProxyTimeouts

variable (timeouts : ProxyTimeouts) (resolving : Int)

/-- The time an operation is given. -/
def allowed : ProxyOp → Int
  | .resolve => resolving
  | .connect => timeouts.connect
  | .write => timeouts.write
  | .read => timeouts.read

/-- How long after the start of the run an operation ends at the latest. -/
def spent : ProxyOp → Int
  | .resolve => max 0 resolving
  | .connect => max 0 resolving + max 0 timeouts.connect
  | .write => max 0 resolving + max 0 timeouts.connect + max 0 timeouts.write
  | .read => max 0 resolving + max 0 timeouts.connect + max 0 timeouts.write + max 0 timeouts.read

/-- The longest a run takes. -/
def budget : Int := spent timeouts resolving .read

theorem spent_le_budget (op : ProxyOp) : timeouts.spent resolving op ≤ timeouts.budget resolving := by
  unfold budget
  cases op <;> simp only [spent] <;> omega

theorem spent_next {op op' : ProxyOp} (h : op.next = some op') :
    timeouts.spent resolving op' = timeouts.spent resolving op + max 0 (timeouts.allowed resolving op') := by
  cases op <;> cases h <;> rfl

example : ({} : ProxyTimeouts).budget 0 = 9000000000 := by decide

end ProxyTimeouts

namespace UpstreamProxy

/-- When the outstanding operation ends at the latest. -/
def limit (resolving : Int) (p : UpstreamProxy) : Int := p.deadline.getD (p.fetch.startedAt + resolving)

/-- A handler that does not complete starts the next operation, with that operation's time. -/
theorem handle_next (B : Beast) {timeouts : ProxyTimeouts} {now : Int} {p q : UpstreamProxy} {h : CompletionHandler}
    {event : ProxyEvent} (hc : p.completed = false) (hch : p.completionHandler = some h) (resolving : Int)
    (hh : p.handle B timeouts now event = .ok (q, none)) :
    ∃ op, event.op.next = some op ∧ q = p.startOp op (now + timeouts.allowed resolving op) := by
  have failed : ∀ e, p.fail B e ≠ .ok (q, none) := by
    intro e he
    obtain ⟨r, -, hr⟩ := fail_running B p h e hc hch
    rw [hr] at he; cases he
  match event with
  | .resolved none => cases hh; exact ⟨.connect, rfl, rfl⟩
  | .connected none => cases hh; exact ⟨.write, rfl, rfl⟩
  | .wrote none => cases hh; exact ⟨.read, rfl, rfl⟩
  | .resolved (some e) | .connected (some e) | .wrote (some e) | .read (.error e) => exact absurd hh (failed e)
  | .read (.ok raw) =>
    replace hh : p.onRead B raw = .ok (q, none) := hh
    cases hr : (p.relayed B raw).preparePayload B with
    | ok r => rw [onRead_running B p h raw r hc hch hr] at hh; cases hh
    | error e => rw [onRead, hr] at hh; cases hh

/-- The run is on schedule: its outstanding operation ends in time, and its time has not passed. -/
def OnTime (timeouts : ProxyTimeouts) (resolving now : Int) (p : UpstreamProxy) : Prop :=
  p.limit resolving ≤ p.fetch.startedAt + timeouts.budget resolving ∧
    ∀ op ∈ p.outstanding, p.limit resolving ≤ p.fetch.startedAt + timeouts.spent resolving op ∧
      now ≤ p.fetch.startedAt + timeouts.spent resolving op

/-- The next operation starts, on schedule. -/
theorem OnTime.next {timeouts : ProxyTimeouts} {resolving now : Int} {p : UpstreamProxy} {op op' : ProxyOp}
    (h : p.OnTime timeouts resolving now) (ho : p.outstanding = [op]) (hn : op.next = some op') :
    (({ p with outstanding := p.outstanding.erase op } : UpstreamProxy).startOp op'
      (now + timeouts.allowed resolving op')).OnTime timeouts resolving now := by
  have hnow := (h.2 op (by rw [ho]; exact List.mem_singleton.2 rfl)).2
  have hspent := timeouts.spent_next resolving hn
  have hbudget := timeouts.spent_le_budget resolving op'
  refine ⟨?_, fun o hm => ?_⟩
  · show now + timeouts.allowed resolving op' ≤ p.fetch.startedAt + timeouts.budget resolving
    omega
  · replace hm : o ∈ op' :: p.outstanding.erase op := hm
    rw [ho, List.erase_cons_head, List.mem_singleton] at hm
    subst hm
    show now + timeouts.allowed resolving o ≤ p.fetch.startedAt + timeouts.spent resolving o ∧
      now ≤ p.fetch.startedAt + timeouts.spent resolving o
    omega

end UpstreamProxy

namespace Server

variable {cfg : Config} {st st' : State} {a : Action} {resolving : Int}

/-! ## Time -/

/-- Handlers take no time. -/
def Instant (st : State) (a : Action) : Prop := ∀ t, a = .tick t → ∀ i, (st.sessions i).phase.between = true

/-- The clock waits for posted callbacks and for operations whose time is over; nothing is read or written by a client's
stream after its deadline. -/
def prompt (resolving : Int) (st : State) : Action → Bool
  | .tick t => st.posted.isEmpty && st.proxies.all (fun p => p.completed || decide (t ≤ p.limit resolving))
  | .read i (.ok _) | .written i true => decide (st.now ≤ (st.sessions i).deadline)
  | _ => true

/-- Whoever goes upstream has the longest a run can take left. -/
def roomy (cfg : Config) (resolving : Int) (st : State) : Action → Bool
  | .join i | .select i => decide (st.now + cfg.timeouts.budget resolving ≤ (st.sessions i).deadline)
  | _ => true

/-- When the answer session `j` gets, or fetches for its flight, is there at the latest. -/
def DueBy (cfg : Config) (resolving : Int) (st : State) (j : Nat) (due : Int) : Prop :=
  (∃ key, (st.sessions j).phase = .leading key ∧ due = st.now + cfg.timeouts.budget resolving) ∨
  ∃ id flight p, (st.sessions j).phase = .proxying id flight ∧ st.proxies[id]? = some p ∧
    due = p.fetch.startedAt + cfg.timeouts.budget resolving

structure TimeInv (cfg : Config) (resolving : Int) (st : State) : Prop where
  started : ∀ (id : Nat) (p : UpstreamProxy), st.proxies[id]? = some p → p.fetch.startedAt ≤ st.now
  onTime : ∀ (id : Nat) (p : UpstreamProxy), st.proxies[id]? = some p → p.completed = false →
    p.OnTime cfg.timeouts resolving st.now
  working : ∀ i, (st.sessions i).phase.settled = false → st.now ≤ (st.sessions i).deadline
  due : ∀ j d, DueBy cfg resolving st j d → d ≤ (st.sessions j).deadline
  queued : ∀ key ws w j d, st.coalescer.waiters key = some ws → w ∈ ws → (st.sessions j).phase.role = .leads key →
    DueBy cfg resolving st j d → d ≤ (st.sessions w).deadline

theorem timeInv_init : TimeInv cfg resolving (init cfg) := by
  refine ⟨?_, ?_, ?_, ?_, ?_⟩
  · intro id p hp; cases hp
  · intro id p hp; cases hp
  · intro i hi; cases hi
  · rintro j d (⟨key, hph, -⟩ | ⟨id, f, p, hph, -⟩) <;> cases hph
  · intro key ws w j d hws; cases hws

/-! ## What a step does -/

/-- Only a read sets a session to work, and whoever works keeps its deadline. -/
theorem CoreInv.working_step (h : CoreInv cfg st) (hs : Step cfg st a st') {j : Nat}
    (hj : (st'.sessions j).phase.settled = false) : (st'.sessions j).deadline = (st.sessions j).deadline ∧
      ((st.sessions j).phase.settled = false ∨ ∃ request, a = .read j (.ok request)) := by
  have move : ∀ {i : Nat} {s : Session}, st'.sessions = Function.update st.sessions i s →
      (s.phase.settled = false → s.deadline = (st.sessions i).deadline ∧
        ((st.sessions i).phase.settled = false ∨ ∃ request, a = .read i (.ok request))) →
      (st'.sessions j).deadline = (st.sessions j).deadline ∧
        ((st.sessions j).phase.settled = false ∨ ∃ request, a = .read j (.ok request)) := by
    intro i s hu hi
    rcases Lts.update_cases hu j with ⟨rfl, hsame⟩ | ⟨-, hsame⟩
    · rw [hsame] at hj ⊢; exact hi hj
    · rw [hsame] at hj ⊢; exact ⟨rfl, .inl hj⟩
  cases hs with
  | tick _ _ | proxyStep _ _ _ _ _ _ _ _ | proxyThrow _ _ _ _ _ _ _ _ | health _ _ _ _ _ _ => exact ⟨rfl, .inl hj⟩
  | accept i | readError i | respond i | writtenNext i | writtenLast i => exact move (i := i) rfl (fun hf => by cases hf)
  | readLocal i request | readCacheable i request | readOther i request =>
    exact move (i := i) rfl (fun _ => ⟨rfl, .inr ⟨request, rfl⟩⟩)
  | hit i _ _ hph | miss i _ hph | missAlone i _ hph | lead i _ hph | wait i _ _ hph | leadUnavailable i _ hph
  | leadFetch i _ _ _ hph | leadThrow i _ _ _ hph | directUnavailable i hph | directFetch i _ _ hph
  | directThrow i _ _ hph | store i _ _ hph | release i _ _ hph =>
    exact move (i := i) rfl (fun _ => ⟨rfl, .inl (by rw [hph]; rfl)⟩)
  | callback pre post w reply _ hp =>
    obtain ⟨k, hk⟩ := h.callback_waiting hp
    exact move (i := w) rfl (fun _ => ⟨rfl, .inl (by rw [hk]; rfl)⟩)
  | proxyFlight id p q event i key r _ hp hop hh =>
    exact move (i := i) rfl (fun _ => ⟨rfl, .inl (by rw [h.proxies.flight_phase hp hop hh]; rfl)⟩)
  | proxyDirect id p q event i r _ hp hop hh =>
    exact move (i := i) rfl (fun _ => ⟨rfl, .inl (by rw [h.proxies.direct_phase hp hop hh]; rfl)⟩)

/-- Only `join_or_start` puts a session in a queue. -/
theorem Step.queued (hs : Step cfg st a st') {key : Str} {ws' : List Nat} {w : Nat}
    (hws : st'.coalescer.waiters key = some ws') (hw : w ∈ ws') :
    (∃ ws, st.coalescer.waiters key = some ws ∧ w ∈ ws) ∨ a = .join w := by
  cases hs with
  | lead i k _ hnone =>
    replace hws : (st.coalescer.joinOrStart k i).2.waiters key = some ws' := hws
    rw [(st.coalescer.joinOrStart_none k i hnone).2] at hws
    by_cases hk : key = k
    · subst hk
      rw [Function.update_self] at hws; cases hws; cases hw
    · rw [Function.update_of_ne hk] at hws; exact .inl ⟨ws', hws, hw⟩
  | wait i k ws _ hsome =>
    replace hws : (st.coalescer.joinOrStart k i).2.waiters key = some ws' := hws
    rw [(st.coalescer.joinOrStart_some k i hsome).2] at hws
    by_cases hk : key = k
    · subst hk
      rw [Function.update_self] at hws; cases hws
      rcases List.mem_append.1 hw with hw | hw
      · exact .inl ⟨ws, hsome, hw⟩
      · exact .inr (by rw [List.mem_singleton.1 hw])
    · rw [Function.update_of_ne hk] at hws; exact .inl ⟨ws', hws, hw⟩
  | release i k reply _ =>
    replace hws : (takeWaiters cfg st k).2.waiters key = some ws' := hws
    unfold takeWaiters at hws
    split at hws
    · rw [(st.coalescer.complete_waiters k).2] at hws
      by_cases hk : key = k
      · subst hk
        rw [Function.update_self] at hws; cases hws
      · rw [Function.update_of_ne hk] at hws; exact .inl ⟨ws', hws, hw⟩
    · exact .inl ⟨ws', hws, hw⟩
  | _ => exact .inl ⟨ws', hws, hw⟩

theorem flightPhase_ne_leading (key : Str) (reply : Reply) (c : Bool) (k : Str) : flightPhase key reply c ≠ .leading k := by
  unfold flightPhase
  split <;> exact Phase.noConfusion

/-- A run that starts is due its whole time from now. -/
theorem DueBy.fetched {j i : Nat} {f : Option Str} {d : Int} {u : UpstreamEndpoint} {handler : CompletionHandler}
    {p : UpstreamProxy} (h : DueBy cfg resolving st' j d) (hps : st'.proxies = st.proxies ++ [p])
    (hph : (st'.sessions j).phase = .proxying st.proxies.length f)
    (hrun : (freshProxy cfg st i u handler).run cfg.beast = .ok p) : d = st.now + cfg.timeouts.budget resolving := by
  rcases h with ⟨k, hk, -⟩ | ⟨id, f', q, hp, hget, hd⟩
  · rw [hph] at hk; cases hk
  · rw [hph] at hp; cases hp
    rw [hps, List.getElem?_concat_length] at hget
    cases hget
    rw [hd, UpstreamProxy.run_ok cfg.beast _ p hrun]; rfl

/-- **A due time is set when a session goes upstream, and does not move.**  A leader that has one has led since, unless
its flight is new. -/
theorem DueBy.step (hc : CoreInv cfg st) (hs : Step cfg st a st') (hi : Instant st a) {j : Nat} {d : Int}
    (h : DueBy cfg resolving st' j d) :
    (DueBy cfg resolving st j d ∧ (st'.sessions j).phase.role = (st.sessions j).phase.role) ∨
    (d = st.now + cfg.timeouts.budget resolving ∧ (a = .join j ∨ a = .select j) ∧
      ∀ key, (st'.sessions j).phase.role = .leads key → st'.coalescer.waiters key = some []) := by
  have same : (st'.sessions j).phase = (st.sessions j).phase → st'.now = st.now →
      DueBy cfg resolving st j d ∧ (st'.sessions j).phase.role = (st.sessions j).phase.role := by
    intro hph hnow
    refine ⟨?_, by rw [hph]⟩
    rcases h with ⟨key, hl, rfl⟩ | ⟨id, f, p, hp, hget, rfl⟩
    · exact .inl ⟨key, by rw [← hph]; exact hl, by rw [hnow]⟩
    · rw [hph] at hp
      obtain ⟨p₁, hp₁, -⟩ := hc.proxies.proxying j id f hp
      rcases hc.proxies.fetch_step hs hget with ⟨p₀, hp₀, hf⟩ | ⟨i, rfl, -⟩
      · exact .inr ⟨id, f, p₀, hp, hp₀, by rw [hf]⟩
      · rw [List.getElem?_eq_none (Nat.le_refl _)] at hp₁; cases hp₁
  have move : ∀ {i : Nat} {s : Session}, st'.sessions = Function.update st.sessions i s → st'.now = st.now →
      (∀ key, s.phase ≠ .leading key) → (∀ id f, s.phase ≠ .proxying id f) →
      DueBy cfg resolving st j d ∧ (st'.sessions j).phase.role = (st.sessions j).phase.role := by
    intro i s hu hnow hl hp
    rcases Lts.update_cases hu j with ⟨rfl, hsame⟩ | ⟨-, hsame⟩
    · rcases h with ⟨key, hph, -⟩ | ⟨id, f, p, hph, -⟩
      · rw [hsame] at hph; exact absurd hph (hl key)
      · rw [hsame] at hph; exact absurd hph (hp id f)
    · exact same (by rw [hsame]) hnow
  cases hs with
  | tick t hle =>
    rcases h with ⟨key, hph, -⟩ | h
    · have hb := hi t rfl j
      rw [show (st.sessions j).phase = .leading key from hph] at hb
      cases hb
    · exact .inl ⟨.inr h, rfl⟩
  | health _ _ _ _ _ _ | proxyStep _ _ _ _ _ _ _ _ | proxyThrow _ _ _ _ _ _ _ _ => exact .inl (same rfl rfl)
  | lead i key hph hnone =>
    rcases Lts.update_cases (rfl : atPhase st i (.leading key) = _) j with ⟨rfl, hj⟩ | ⟨-, hj⟩
    · rcases h with ⟨k, -, hd⟩ | ⟨id, f, p, hp, -⟩
      · refine .inr ⟨hd, .inl rfl, fun k' hk' => ?_⟩
        replace hk' : (atPhase st j (.leading key) j).phase.role = .leads k' := hk'
        rw [hj] at hk'
        cases hk'
        show (st.coalescer.joinOrStart key j).2.waiters key = some []
        rw [(st.coalescer.joinOrStart_none key j hnone).2, Function.update_self]
      · replace hp : (atPhase st j (.leading key) j).phase = _ := hp
        rw [hj] at hp; cases hp
    · exact .inl (same (congrArg Session.phase hj) rfl)
  | leadFetch i key u p hph _ hrun =>
    rcases Lts.update_cases (rfl : atPhase st i (.proxying st.proxies.length (some key)) = _) j with ⟨rfl, hj⟩ | ⟨-, hj⟩
    · have hnew := congrArg Session.phase hj
      exact .inl ⟨.inl ⟨key, hph, h.fetched rfl hnew hrun⟩, by rw [hph]; exact (congrArg Phase.role hnew).trans rfl⟩
    · exact .inl (same (congrArg Session.phase hj) rfl)
  | directFetch i u p hph _ hrun =>
    rcases Lts.update_cases (rfl : atPhase st i (.proxying st.proxies.length none) = _) j with ⟨rfl, hj⟩ | ⟨-, hj⟩
    · have hnew := congrArg Session.phase hj
      refine .inr ⟨h.fetched rfl hnew hrun, .inr rfl, fun k hk => ?_⟩
      cases (congrArg Phase.role hnew).symm.trans hk
    · exact .inl (same (congrArg Session.phase hj) rfl)
  | proxyFlight id p q event i key r =>
    refine .inl (move (i := i) rfl rfl (fun k => ?_) (flightPhase_ne_proxying key _ true))
    exact flightPhase_ne_leading key _ true k
  | accept i | readError i | readLocal i | readCacheable i | readOther i | hit i | miss i | missAlone i | wait i
  | leadUnavailable i | leadThrow i | directUnavailable i | directThrow i | store i | release i | respond i
  | writtenNext i | writtenLast i | proxyDirect _ _ _ _ i =>
    exact .inl (move (i := i) rfl rfl (fun _ => Phase.noConfusion) (fun _ _ => Phase.noConfusion))
  | callback pre post w =>
    exact .inl (move (i := w) rfl rfl (fun _ => Phase.noConfusion) (fun _ _ => Phase.noConfusion))

/-! ## The invariant is kept -/

theorem onTime_fresh {i : Nat} {u : UpstreamEndpoint} {handler : CompletionHandler} {p : UpstreamProxy}
    (hrun : (freshProxy cfg st i u handler).run cfg.beast = .ok p) : p.OnTime cfg.timeouts resolving st.now := by
  rw [UpstreamProxy.run_ok cfg.beast _ p hrun]
  have hbudget := cfg.timeouts.spent_le_budget resolving .resolve
  have hspent : cfg.timeouts.spent resolving .resolve = max 0 resolving := rfl
  refine ⟨?_, fun op hop => ?_⟩
  · show st.now + resolving ≤ st.now + cfg.timeouts.budget resolving
    omega
  · obtain rfl : op = .resolve := List.mem_singleton.1 hop
    show st.now + resolving ≤ st.now + cfg.timeouts.spent resolving .resolve ∧
      st.now ≤ st.now + cfg.timeouts.spent resolving .resolve
    omega

theorem TimeInv.onTime_step (h : TimeInv cfg resolving st) (hc : CoreInv cfg st) (hs : Step cfg st a st')
    (hp : prompt resolving st a = true) {id : Nat} {p : UpstreamProxy} (hget : st'.proxies[id]? = some p)
    (hrun : p.completed = false) : p.OnTime cfg.timeouts resolving st'.now := by
  have other : ∀ {id' : Nat} {q : UpstreamProxy}, st'.proxies = st.proxies.set id' q → st'.now = st.now →
      (q.completed = false → q.OnTime cfg.timeouts resolving st.now) → p.OnTime cfg.timeouts resolving st'.now := by
    intro id' q hps hnow hq
    rw [hps] at hget
    rw [hnow]
    rcases Lts.getElem?_set_cases hget with ⟨-, rfl⟩ | ⟨-, hget⟩
    · exact hq hrun
    · exact h.onTime id p hget hrun
  cases hs with
  | tick t _ =>
    obtain ⟨hlimit, hops⟩ := h.onTime id p hget hrun
    rw [prompt, Bool.and_eq_true, List.all_eq_true] at hp
    have ht : t ≤ p.limit resolving := by
      have := hp.2 p (List.mem_of_getElem? hget)
      rw [hrun, Bool.false_or] at this
      exact of_decide_eq_true this
    exact ⟨hlimit, fun op hop => ⟨(hops op hop).1, Int.le_trans ht (hops op hop).1⟩⟩
  | leadFetch i _ u q _ _ hq | directFetch i u q _ _ hq =>
    rcases Lts.getElem?_snoc_iff.1 hget with hget | ⟨-, rfl⟩
    · exact h.onTime id p hget hrun
    · show p.OnTime cfg.timeouts resolving st.now
      exact onTime_fresh hq
  | proxyStep id' p' q event _ hp' hop hh =>
    obtain ⟨hc', ho, hch, -⟩ := hc.proxies.event hp' hop
    obtain ⟨op, hn, rfl⟩ := UpstreamProxy.handle_next cfg.beast (p := withoutOp p' event) hc' hch resolving hh
    exact other rfl rfl (fun _ => (h.onTime id' p' hp' hc').next ho hn)
  | proxyFlight id' p' q event i key r _ hp' hop hh | proxyDirect id' p' q event i r _ hp' hop hh =>
    obtain ⟨-, -, rfl, -, -⟩ := hc.proxies.finished hp' hop hh
    exact other rfl rfl (fun hf => by cases hf)
  | proxyThrow id' p' event e _ hp' hop _ =>
    obtain ⟨hc', ho, -, -⟩ := hc.proxies.event hp' hop
    refine other rfl rfl (fun _ => ⟨(h.onTime id' p' hp' hc').1, fun op hm => ?_⟩)
    rw [withoutOp, ho, List.erase_cons_head] at hm
    cases hm
  | _ => exact h.onTime id p hget hrun

/-- **The clock stops for whoever works.**  A session in none of its handlers that has not answered waits for its run,
or for a flight whose leader waits for one. -/
theorem TimeInv.tick (h : TimeInv cfg resolving st) (hc : CoreInv cfg st) {t : Int} (hi : Instant st (.tick t))
    (hp : prompt resolving st (.tick t) = true) {i : Nat} (hw : (st.sessions i).phase.settled = false) :
    t ≤ (st.sessions i).deadline := by
  rw [prompt, Bool.and_eq_true, List.all_eq_true, List.isEmpty_iff] at hp
  have running : ∀ {j id : Nat} {f : Option Str}, (st.sessions j).phase = .proxying id f →
      ∃ d, t ≤ d ∧ DueBy cfg resolving st j d := by
    intro j id f hph
    obtain ⟨p, hget, hrun, -⟩ := hc.proxies.proxying j id f hph
    have ht := hp.2 p (List.mem_of_getElem? hget)
    rw [hrun, Bool.false_or] at ht
    exact ⟨_, Int.le_trans (of_decide_eq_true ht) (h.onTime id p hget hrun).1, .inr ⟨id, f, p, hph, hget, rfl⟩⟩
  have hb := hi t rfl i
  cases hph : (st.sessions i).phase with
  | proxying id f =>
    obtain ⟨d, ht, hd⟩ := running hph
    exact Int.le_trans ht (h.due i d hd)
  | waiting key =>
    rcases hc.flights.waits_held i key (congrArg Phase.role hph) with ⟨ws, hws, hm⟩ | hposted
    · obtain ⟨j, hj⟩ := hc.flights.open_led key ws hws
      replace hj : (st.sessions j).phase.role = .leads key := hj
      obtain ⟨id, hfetch⟩ : ∃ id, (st.sessions j).phase = .proxying id (some key) := by
        have hbj := hi t rfl j
        unfold Phase.role at hj
        split at hj
        · rename_i hl; rw [hl] at hbj; cases hbj
        · rename_i hl; rw [hl] at hbj; cases hbj
        · rename_i hl; rw [hl] at hbj; cases hbj
        · rename_i id k hl; cases hj; exact ⟨id, hl⟩
        · cases hj
        · cases hj
      obtain ⟨d, ht, hd⟩ := running hfetch
      exact Int.le_trans ht (h.queued key ws i j d hws hm hj hd)
    · rw [show (flightView st).posted = [] from hp.1] at hposted
      cases hposted
  | unaccepted | reading | writing _ | closed => rw [hph] at hw; cases hw
  | _ => rw [hph] at hb; cases hb

/-- No due time is further away than a run takes. -/
theorem TimeInv.due_le (h : TimeInv cfg resolving st) {j : Nat} {d : Int} (hd : DueBy cfg resolving st j d) :
    d ≤ st.now + cfg.timeouts.budget resolving := by
  rcases hd with ⟨key, -, rfl⟩ | ⟨id, f, p, -, hget, rfl⟩
  · exact Int.le_refl _
  · exact Int.add_le_add_right (h.started id p hget) _

theorem TimeInv.step (h : TimeInv cfg resolving st) (hc : CoreInv cfg st) (hs : Step cfg st a st') (hi : Instant st a)
    (hp : prompt resolving st a = true) (hr : roomy cfg resolving st a = true) : TimeInv cfg resolving st' := by
  have hc' := hc.step hs
  have hroom : ∀ j, a = .join j ∨ a = .select j → st.now + cfg.timeouts.budget resolving ≤ (st.sessions j).deadline := by
    rintro j (rfl | rfl) <;> exact of_decide_eq_true hr
  refine ⟨fun id p hget => ?_, fun id p => h.onTime_step hc hs hp, fun i hw => ?_, fun j d hd => ?_, ?_⟩
  · have hnow := (hc.proxies.grows hs).now
    rcases hc.proxies.fetch_step hs hget with ⟨p₀, hp₀, hf⟩ | ⟨i, -, hstart, -⟩
    · rw [← hf]; exact Int.le_trans (h.started id p₀ hp₀) hnow
    · rw [hstart]; exact hnow
  · obtain ⟨hdeadline, hold⟩ := hc.working_step hs hw
    rw [hdeadline]
    by_cases htick : ∃ t, a = .tick t
    · obtain ⟨t, rfl⟩ := htick
      cases hs
      exact h.tick hc hi hp hw
    · have hnow : st'.now = st.now := by
        cases hs with
        | tick t _ => exact absurd ⟨t, rfl⟩ htick
        | _ => rfl
      rw [hnow]
      rcases hold with hold | ⟨request, rfl⟩
      · exact h.working i hold
      · exact of_decide_eq_true hp
  · have hw : (st'.sessions j).phase.settled = false := by
      rcases hd with ⟨key, hph, -⟩ | ⟨id, f, p, hph, -⟩ <;> rw [hph] <;> rfl
    rw [(hc.working_step hs hw).1]
    rcases hd.step hc hs hi with ⟨hd, -⟩ | ⟨rfl, ha, -⟩
    · exact h.due j d hd
    · exact hroom j ha
  · intro key ws w j d hws hm hrole hd
    have hw : (st'.sessions w).phase.settled = false := by
      rw [Phase.waiting_of_role (hc'.flights.queued_waits key ws hws w hm)]; rfl
    rw [(hc.working_step hs hw).1]
    rcases hd.step hc hs hi with ⟨hd, hsame⟩ | ⟨-, -, hnew⟩
    · rcases hs.queued hws hm with ⟨ws₀, hws₀, hm₀⟩ | ha
      · exact h.queued key ws₀ w j d hws₀ hm₀ (hsame ▸ hrole) hd
      · exact Int.le_trans (h.due_le hd) (hroom w (.inl ha))
    · -- nobody waits in a new flight
      rw [hnew key hrole] at hws
      cases hws; cases hm

/-- **Whoever went upstream with the longest a run can take left writes its answer before its deadline.** -/
theorem answered_in_time {resolving : Int} (h : Lts.Reach (step cfg)
      (fun st a => Instant st a ∧ prompt resolving st a = true ∧ roomy cfg resolving st a = true) (init cfg) st)
    {i : Nat} (hs : step cfg st (.respond i) = some st') : st.now ≤ (st.sessions i).deadline := by
  have hinv : TimeInv cfg resolving st := h.invWith (J := CoreInv cfg) (fun _ hr => Reachable.core hr) timeInv_init
    (fun _ a _ hc hi hP hs => hi.step hc (step_sound a hs) hP.1 hP.2.1 hP.2.2)
  apply hinv.working
  cases step_sound _ hs with
  | respond _ reply hph => rw [hph]; rfl

/-- The test of `Instant` where only the sessions below `n` are accepted. -/
def instantBelow (n : Nat) (st : State) : Action → Bool
  | .accept i => decide (i < n)
  | .tick _ => (List.range n).all (fun i => (st.sessions i).phase.between)
  | _ => true

theorem instant_of_below {n : Nat} {p : State → Action → Bool}
    (h : Lts.Reach (step cfg) (fun st a => (instantBelow n st a && p st a) = true) (init cfg) st) :
    Lts.Reach (step cfg) (fun st a => Instant st a ∧ p st a = true) (init cfg) st := by
  refine h.invFrom (Lts.Reach.refl _) (fun s a s' hr hi hP hs => hi.tail ?_ hs)
  rw [Bool.and_eq_true] at hP
  refine ⟨?_, hP.2⟩
  rintro t rfl i
  by_cases hlt : i < n
  · exact List.all_eq_true.1 hP.1 i (List.mem_range.2 hlt)
  · rw [unaccepted hr (j := i) (fun _ hP => ?_)]
    · rfl
    · rw [Bool.and_eq_true] at hP
      exact hlt (of_decide_eq_true hP.1)

/-- A resolve of one second, twenty seconds after the first client connected; a second client joins the flight. -/
def slowAnswer : List Action :=
  [.accept 0, .accept 1, .tick 20000000000, .read 0 (.ok (getOf "/x".toList [])), .get 0, .join 0, .select 0,
    .tick 20000000000, .read 1 (.ok (getOf "/x".toList [])), .get 1, .join 1,
    .tick 21000000000, .proxy 0 (.resolved none), .tick 23000000000, .proxy 0 (.connected none),
    .tick 25000000000, .proxy 0 (.wrote none), .tick 30000000000,
    .proxy 0 (.read (.ok ⟨200, 11, [], "hello".toList⟩)), .put 0, .complete 0, .callback 0]

theorem answered_in_time_slowAnswer : ∃ st, Lts.Reach (step sampleConfig) (fun st a => Instant st a ∧
      prompt 1000000000 st a = true ∧ roomy sampleConfig 1000000000 st a = true) (init sampleConfig) st ∧
    (∃ st', step sampleConfig st (.respond 1) = some st') ∧ st.now = 30000000000 ∧ st.now ≤ (st.sessions 1).deadline := by
  obtain ⟨st, hr, hf⟩ := Lts.exists_reach (step sampleConfig)
    (fun st a => instantBelow 2 st a && (prompt 1000000000 st a && roomy sampleConfig 1000000000 st a))
    (init sampleConfig) slowAnswer
    (fun st => (step sampleConfig st (.respond 1)).isSome && decide (st.now = 30000000000)) (by decide +kernel)
  simp only [Bool.and_eq_true, Option.isSome_iff_exists, decide_eq_true_eq] at hf
  obtain ⟨⟨st', hs⟩, hnow⟩ := hf
  have hr' := (instant_of_below hr).mono (Q := fun st a => Instant st a ∧
    prompt 1000000000 st a = true ∧ roomy sampleConfig 1000000000 st a = true)
    (fun _ _ hP => ⟨hP.1, Bool.and_eq_true_iff.1 hP.2⟩)
  exact ⟨st, hr', ⟨st', hs⟩, hnow, answered_in_time hr' hs⟩

/-- A request read after twenty-nine seconds; the upstream answers within two. -/
def idleAnswer : List Action :=
  [.accept 0, .tick 29000000000, .read 0 (.ok (getOf "/x".toList [])), .get 0, .join 0, .select 0,
    .proxy 0 (.resolved none), .proxy 0 (.connected none), .proxy 0 (.wrote none), .tick 31000000000,
    .proxy 0 (.read (.ok ⟨200, 11, [], "hello".toList⟩)), .put 0, .complete 0]

/-- Session `i` is about to write a 200. -/
def respondsOk (st : State) (i : Nat) : Bool :=
  match (st.sessions i).phase with
  | .responding reply => decide (reply.message.result = 200)
  | _ => false

/-- **A response obtained within the timeouts is written after the deadline, and so lost**: the read left one second. -/
theorem answered_late : ∃ st reply st', Lts.Reach (step sampleConfig) (fun st a => Instant st a ∧ prompt 0 st a = true)
      (init sampleConfig) st ∧
    (st.sessions 0).phase = .responding reply ∧ reply.message.result = 200 ∧ (st.sessions 0).deadline < st.now ∧
    step sampleConfig st (.respond 0) = some st' ∧ prompt 0 st' (.written 0 true) = false := by
  obtain ⟨st, hr, hf⟩ := Lts.exists_reach (step sampleConfig) (fun st a => instantBelow 1 st a && prompt 0 st a)
    (init sampleConfig) idleAnswer
    (fun st => decide ((st.sessions 0).deadline < st.now) &&
      (step sampleConfig st (.respond 0)).any (fun st' => !prompt 0 st' (.written 0 true)) && respondsOk st 0)
    (by decide +kernel)
  simp only [Bool.and_eq_true, Option.any_eq_true, Bool.not_eq_true', decide_eq_true_eq] at hf
  obtain ⟨⟨hlate, st', hs, hlost⟩, hok⟩ := hf
  unfold respondsOk at hok
  split at hok
  · rename_i reply hreply
    exact ⟨st, reply, st', instant_of_below hr, hreply, of_decide_eq_true hok, hlate, hs, hlost⟩
  · cases hok

end Server
end EventEdge
