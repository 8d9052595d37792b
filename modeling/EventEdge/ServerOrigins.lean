import EventEdge.ServerWaiters
/-!
# ServerOrigins — where every answer comes from

Nothing that happened is undone: the log only grows, a proxy run keeps what it was started for, and its result once it
has one (`Grows`).  On top of that every reply the server holds has a known origin (`OriginInv`): one that a leader is
about to store or hand out is its own run's, one in the cache was stored under its target and has its time to live,
one posted to a waiter was released to it by the flight it joined.  So every answer ever written is one of six kinds,
with the events that led to it (`Answer`, `Reachable.answer`).
-/
namespace EventEdge
namespace Server

open RequestCoalescer (Role)

variable {cfg : Config} {st st' : State} {a : Action}

/-! ## What only grows -/

/-- Proxy run `id`, started for `fetch`, has handed over `m`. -/
def Completed (st : State) (id : Nat) (fetch : Fetch) (m : HttpResponse) : Prop :=
  ∃ p, st.proxies[id]? = some p ∧ p.completed = true ∧ p.fetch = fetch ∧ p.result = some m

theorem Completed.unique {id : Nat} {f f' : Fetch} {m m' : HttpResponse} (h : Completed st id f m)
    (h' : Completed st id f' m') : f = f' ∧ m = m' := by
  obtain ⟨p, hp, -, rfl, hm⟩ := h
  obtain ⟨p', hp', -, rfl, hm'⟩ := h'
  rw [hp] at hp'; cases hp'
  rw [hm] at hm'; cases hm'
  exact ⟨rfl, rfl⟩

structure Grows (st st' : State) : Prop where
  now : st.now ≤ st'.now
  log : st'.log = st.log ∨ ∃ e, st'.log = st.log ++ [⟨st.now, e⟩]
  started : ∀ (id : Nat) (p : UpstreamProxy), st.proxies[id]? = some p →
    ∃ p', st'.proxies[id]? = some p' ∧ p'.fetch = p.fetch ∧ (p.completed = true → p' = p)

theorem Grows.completed (g : Grows st st') {id : Nat} {f : Fetch} {m : HttpResponse} (h : Completed st id f m) :
    Completed st' id f m := by
  obtain ⟨p, hp, hc, hf, hm⟩ := h
  obtain ⟨p', hp', -, heq⟩ := g.started id p hp
  rw [heq hc] at hp'
  exact ⟨p, hp', hc, hf, hm⟩

theorem Grows.sublist (g : Grows st st') {l : List Logged} (h : l.Sublist st.log) : l.Sublist st'.log := by
  rcases g.log with hl | ⟨e, hl⟩
  · rw [hl]; exact h
  · rw [hl]; exact h.trans (List.sublist_append_left _ _)

theorem Grows.mem (g : Grows st st') {e : Logged} (h : e ∈ st.log) : e ∈ st'.log :=
  List.singleton_sublist.1 (g.sublist (List.singleton_sublist.2 h))

/-- **What a step does to the proxies**: nothing, or it starts one for the request of a session that leads or selects,
or it moves on one that has not completed. -/
theorem ProxyInv.change (h : ProxyInv st) (hs : Step cfg st a st') :
    st'.proxies = st.proxies ∨
    (∃ i u handler p, st'.proxies = st.proxies ++ [p] ∧
      p = { freshProxy cfg st i u handler with
        request := UpstreamProxy.sent cfg.beast u (st.sessions i).request, outstanding := [.resolve] } ∧
      ((∃ key, handler = .flight i key ∧ (st.sessions i).phase = .leading key) ∨
        handler = .direct i ∧ (st.sessions i).phase = .selecting)) ∨
    ∃ id p q, st.proxies[id]? = some p ∧ p.completed = false ∧ st'.proxies = st.proxies.set id q ∧ q.fetch = p.fetch ∧
      q.request = p.request ∧ q.upstream = p.upstream := by
  cases hs with
  | leadFetch i key u p hph _ hrun =>
    exact .inr (.inl ⟨i, u, .flight i key, p, rfl, UpstreamProxy.run_ok cfg.beast _ p hrun, .inl ⟨key, rfl, hph⟩⟩)
  | directFetch i u p hph _ hrun =>
    exact .inr (.inl ⟨i, u, .direct i, p, rfl, UpstreamProxy.run_ok cfg.beast _ p hrun, .inr ⟨rfl, hph⟩⟩)
  | proxyStep id p q event _ hp hop hh =>
    obtain ⟨op, d, rfl⟩ := h.stepped hp hop hh
    exact .inr (.inr ⟨id, p, _, hp, (h.event hp hop).1, rfl, rfl, rfl, rfl⟩)
  | proxyFlight id p q event i key r _ hp hop hh =>
    obtain ⟨-, -, rfl, -, -⟩ := h.finished hp hop hh
    exact .inr (.inr ⟨id, p, _, hp, (h.event hp hop).1, rfl, rfl, rfl, rfl⟩)
  | proxyDirect id p q event i r _ hp hop hh =>
    obtain ⟨-, -, rfl, -, -⟩ := h.finished hp hop hh
    exact .inr (.inr ⟨id, p, _, hp, (h.event hp hop).1, rfl, rfl, rfl, rfl⟩)
  | proxyThrow id p event e _ hp hop _ =>
    exact .inr (.inr ⟨id, p, _, hp, (h.event hp hop).1, rfl, rfl, rfl, rfl⟩)
  | _ => exact .inl rfl

/-- **A run completes once**, by the step that hands its result over. -/
theorem ProxyInv.completed_step (h : ProxyInv st) (hs : Step cfg st a st') {id : Nat} {f : Fetch} {m : HttpResponse}
    (hc : Completed st' id f m) : Completed st id f m ∨ ∃ p event, a = .proxy id event ∧ st.proxies[id]? = some p ∧
      p.completed = false ∧ p.fetch = f ∧ UpstreamProxy.Outcome cfg.beast (withoutOp p event) event m ∧
      (∃ q, (withoutOp p event).handle cfg.beast cfg.timeouts st.now event = .ok (q, some (f.handler, m))) ∧
      ∀ i key, f.handler = .flight i key → (st'.sessions i).phase = flightPhase key ⟨m, .proxy id⟩ true := by
  obtain ⟨q, hq, hqc, hf, hm⟩ := hc
  have other : ∀ {id' : Nat} {q' : UpstreamProxy}, st'.proxies = st.proxies.set id' q' → (id = id' → q ≠ q') →
      Completed st id f m := by
    intro id' q' hps hne
    rw [hps] at hq
    rcases Lts.getElem?_set_cases hq with ⟨rfl, rfl⟩ | ⟨-, hq⟩
    · exact absurd rfl (hne rfl)
    · exact ⟨q, hq, hqc, hf, hm⟩
  cases hs with
  | leadFetch i key u p _ _ hrun | directFetch i u p _ _ hrun =>
    rcases Lts.getElem?_snoc_iff.1 hq with hq | ⟨-, rfl⟩
    · exact .inl ⟨q, hq, hqc, hf, hm⟩
    · rw [UpstreamProxy.run_ok cfg.beast _ q hrun] at hqc; cases hqc
  | proxyStep id' p q' event _ hp hop hh =>
    obtain ⟨op, d, rfl⟩ := h.stepped hp hop hh
    refine .inl (other rfl (fun _ e => ?_))
    have hpc : p.completed = true := by rw [e] at hqc; exact hqc
    rw [(h.event hp hop).1] at hpc; cases hpc
  | proxyThrow id' p event e _ hp hop _ =>
    refine .inl (other rfl (fun _ e => ?_))
    have hpc : p.completed = true := by rw [e] at hqc; exact hqc
    rw [(h.event hp hop).1] at hpc; cases hpc
  | proxyFlight id' p q' event i key r _ hp hop hh =>
    obtain ⟨hph, hout, rfl, -, -⟩ := h.finished hp hop hh
    rcases Lts.getElem?_set_cases hq with ⟨rfl, rfl⟩ | ⟨-, hq⟩
    · cases hm
      refine .inr ⟨p, event, rfl, hp, (h.event hp hop).1, hf, hout, ⟨_, by rw [← hf, withoutOp, hph]; exact hh⟩,
        fun i' key' hfl => ?_⟩
      rw [← hf] at hfl
      cases hph.symm.trans hfl
      simp [atPhase]
    · exact .inl ⟨q, hq, hqc, hf, hm⟩
  | proxyDirect id' p q' event i r _ hp hop hh =>
    obtain ⟨hph, hout, rfl, -, -⟩ := h.finished hp hop hh
    rcases Lts.getElem?_set_cases hq with ⟨rfl, rfl⟩ | ⟨-, hq⟩
    · cases hm
      refine .inr ⟨p, event, rfl, hp, (h.event hp hop).1, hf, hout, ⟨_, by rw [← hf, withoutOp, hph]; exact hh⟩,
        fun i' key' hfl => ?_⟩
      rw [← hf] at hfl
      cases hph.symm.trans hfl
    · exact .inl ⟨q, hq, hqc, hf, hm⟩
  | _ => exact .inl ⟨q, hq, hqc, hf, hm⟩

/-- **Every step only adds.** -/
theorem ProxyInv.grows (h : ProxyInv st) (hs : Step cfg st a st') : Grows st st' := by
  refine ⟨?_, ?_, ?_⟩
  · cases hs with
    | tick now hle => exact hle
    | _ => exact Int.le_refl _
  · cases hs <;> first | exact .inl rfl | exact .inr ⟨_, rfl⟩
  · intro id p hp
    rcases h.change hs with hps | ⟨i, u, handler, q, hps, -, -⟩ | ⟨id', p', q, hp', hc', hps, hf, -, -⟩
    · exact ⟨p, by rw [hps]; exact hp, rfl, fun _ => rfl⟩
    · refine ⟨p, ?_, rfl, fun _ => rfl⟩
      rw [hps, List.getElem?_append_left (List.getElem?_eq_some_iff.1 hp).1]
      exact hp
    · by_cases hid : id' = id
      · subst hid
        rw [hp] at hp'; cases hp'
        refine ⟨q, ?_, hf, fun hc => by rw [hc] at hc'; cases hc'⟩
        rw [hps, List.getElem?_set_self (List.getElem?_eq_some_iff.1 hp).1]
      · exact ⟨p, by rw [hps, List.getElem?_set_ne hid]; exact hp, rfl, fun _ => rfl⟩

/-- **A run keeps what it was started for**, and a new one starts now. -/
theorem ProxyInv.fetch_step (h : ProxyInv st) (hs : Step cfg st a st') {id : Nat} {p : UpstreamProxy}
    (hp : st'.proxies[id]? = some p) : (∃ p₀, st.proxies[id]? = some p₀ ∧ p₀.fetch = p.fetch) ∨
      ∃ i, id = st.proxies.length ∧ p.fetch.startedAt = st.now ∧
        ∀ key, p.fetch.handler.key = some key → (st.sessions i).phase = .leading key := by
  rcases h.change hs with hps | ⟨i, u, handler, q, hps, rfl, hi⟩ | ⟨id₀, p₀, q, hp₀, -, hps, hf, -, -⟩
  · exact .inl ⟨p, by rw [← hps]; exact hp, rfl⟩
  · rw [hps] at hp
    rcases Lts.getElem?_snoc_iff.1 hp with hp | ⟨rfl, rfl⟩
    · exact .inl ⟨p, hp, rfl⟩
    · refine .inr ⟨i, rfl, rfl, fun key hk => ?_⟩
      rcases hi with ⟨k, rfl, hph⟩ | ⟨rfl, -⟩
      · cases hk; exact hph
      · cases hk
  · rw [hps] at hp
    rcases Lts.getElem?_set_cases hp with ⟨rfl, rfl⟩ | ⟨-, hp⟩
    · exact .inl ⟨p₀, hp₀, hf.symm⟩
    · exact .inl ⟨p, hp, rfl⟩

/-- The clock readings of the log are in order, none of them later than the clock. -/
structure ClockInv (st : State) : Prop where
  sorted : st.log.Pairwise (fun e e' => e.time ≤ e'.time)
  past : ∀ e ∈ st.log, e.time ≤ st.now

theorem ClockInv.grows (h : ClockInv st) (g : Grows st st') : ClockInv st' := by
  have hnow := g.now
  rcases g.log with hl | ⟨e, hl⟩
  · exact ⟨by rw [hl]; exact h.sorted, fun x hx => Int.le_trans (h.past x (by rw [← hl]; exact hx)) hnow⟩
  · constructor
    · rw [hl, List.pairwise_append]
      exact ⟨h.sorted, List.pairwise_singleton _ _, fun x hx y hy => by
        rw [List.mem_singleton] at hy; rw [hy]; exact h.past x hx⟩
    · intro x hx
      rw [hl, List.mem_append, List.mem_singleton] at hx
      rcases hx with hx | rfl
      · exact Int.le_trans (h.past x hx) hnow
      · exact hnow

theorem ClockInv.before (h : ClockInv st) {e e' : Logged} (hs : [e, e'].Sublist st.log) : e.time ≤ e'.time := by
  have hp : [e, e'].Pairwise (fun e e' => e.time ≤ e'.time) := h.sorted.sublist hs
  exact (List.pairwise_cons.1 hp).1 e' (List.mem_singleton.2 rfl)

theorem Reachable.clock (h : Reachable cfg st) : ClockInv st :=
  h.invWith (J := CoreInv cfg) (fun _ hr => Reachable.core hr) ⟨List.Pairwise.nil, nofun⟩
    (fun _ a _ hc hi _ hs => hi.grows (hc.proxies.grows (step_sound a hs)))

theorem Reachable.start_le (h : Reachable cfg st) : cfg.start ≤ st.now :=
  h.invWith (J := CoreInv cfg) (I := fun st : State => cfg.start ≤ st.now) (fun _ hr => Reachable.core hr) (Int.le_refl _)
    (fun _ a _ hc hi _ hs => Int.le_trans hi (hc.proxies.grows (step_sound a hs)).now)

/-- **A session keeps the request it works on.** -/
theorem Step.kept (hs : Step cfg st a st') {j : Nat} (hp : (st.sessions j).phase.pending = true) :
    (st'.sessions j).number = (st.sessions j).number ∧ (st'.sessions j).request = (st.sessions j).request := by
  have frame : ∀ {i : Nat} {s : Session}, st'.sessions = Function.update st.sessions i s →
      (j = i → s.number = (st.sessions i).number ∧ s.request = (st.sessions i).request) →
      (st'.sessions j).number = (st.sessions j).number ∧ (st'.sessions j).request = (st.sessions j).request := by
    intro i s hu hi
    rcases Lts.update_cases hu j with ⟨rfl, hj⟩ | ⟨-, hj⟩
    · rw [hj]; exact hi rfl
    · rw [hj]; exact ⟨rfl, rfl⟩
  cases hs with
  | tick _ _ | proxyStep _ _ _ _ _ _ _ _ | proxyThrow _ _ _ _ _ _ _ _ | health _ _ _ _ _ _ => exact ⟨rfl, rfl⟩
  | accept i _ hph | readLocal i _ _ _ hph | readCacheable i _ _ hph | readOther i _ _ hph | writtenNext i _ hph =>
    exact frame (i := i) rfl (fun e => by rw [e, hph] at hp; cases hp)
  | _ => exact frame rfl (fun _ => ⟨rfl, rfl⟩)

/-- A session writes what it was about to write, for its current request. -/
theorem Step.wrote (hs : Step cfg st a st') {t : Int} {i n : Nat} {reply : Reply}
    (hm : ⟨t, .wrote i n reply⟩ ∈ st'.log) : ⟨t, .wrote i n reply⟩ ∈ st.log ∨
      (n = (st.sessions i).number ∧ (st.sessions i).phase = .responding reply) := by
  cases hs with
  | respond j reply' hph =>
    rcases List.mem_append.1 hm with hm | hm
    · exact .inl hm
    · rw [List.mem_singleton] at hm
      cases hm
      exact .inr ⟨rfl, hph⟩
  | _ => exact .inl (by simpa [receivedLog] using hm)

/-- **What every message about to be written has, every message written has**, for the request it answers. -/
theorem written {P : State → Action → Prop} {Q : HttpRequest → Reply → Prop} (h : Lts.Reach (step cfg) P (init cfg) st)
    (hQ : ∀ st i reply, Lts.Reach (step cfg) P (init cfg) st → (st.sessions i).phase = .responding reply →
      Q (st.sessions i).request reply) {t : Int} {i n : Nat} {reply : Reply} (hw : ⟨t, .wrote i n reply⟩ ∈ st.log) :
    ∃ b request, ⟨b, .received i n request⟩ ∈ st.log ∧ Q request reply := by
  revert t i n reply
  refine h.invFrom (I := fun st => ∀ {t : Int} {i n : Nat} {reply : Reply}, ⟨t, .wrote i n reply⟩ ∈ st.log →
    ∃ b request, ⟨b, .received i n request⟩ ∈ st.log ∧ Q request reply) (fun hm => by cases hm) ?_
  intro st a st' hr hi _ hs t i n reply hm
  have g := (Reachable.core hr.any).proxies.grows (step_sound a hs)
  rcases (step_sound a hs).wrote hm with hm | ⟨rfl, hph⟩
  · obtain ⟨b, request, hb, hq⟩ := hi hm
    exact ⟨b, request, g.mem hb, hq⟩
  · exact ⟨_, _, g.mem ((Reachable.requests hr.any).current i (by rw [hph]; rfl)), hQ st i reply hr hph⟩

/-! ## Origins -/

/-- What a run was started for, and what it sends. -/
def FetchOk (cfg : Config) (p : UpstreamProxy) : Prop :=
  p.request = UpstreamProxy.sent cfg.beast p.upstream p.fetch.client ∧ isLocalRequest p.fetch.client = false ∧
    match p.fetch.handler with
    | .flight _ key => key = p.fetch.client.target ∧ cacheableRequest p.fetch.client = true
    | .direct _ => cacheableRequest p.fetch.client = false

/-- A reply of a flight for `key`: the leader's 503, or what its proxy run handed over. -/
def FlightReply (cfg : Config) (st : State) (key : Str) (reply : Reply) : Prop :=
  (reply.origin = .server ∧ ∃ request, reply.message = unavailableResponse cfg.beast request) ∨
    ∃ id fetch, reply.origin = .proxy id ∧ Completed st id fetch reply.message ∧ fetch.handler.key = some key

/-- The reply of the flight session `i` leads with request `n`, and the run it comes from. -/
def OwnReply (cfg : Config) (st : State) (i n : Nat) (request : HttpRequest) (key : Str) (reply : Reply) : Prop :=
  (reply.origin = .server ∧ reply.message = unavailableResponse cfg.beast request) ∨
    ∃ id fetch tj tc, reply.origin = .proxy id ∧ Completed st id fetch reply.message ∧ fetch.handler = .flight i key ∧
      fetch.number = n ∧ fetch.client = request ∧
      [⟨tj, .joined i n key .leader⟩, ⟨tc, .completed id⟩].Sublist st.log

/-- An entry of the cache was stored, from a flight for its key, and has the expiry of that moment. -/
def Kept (cfg : Config) (st : State) (key : Str) (e : Entry Reply) : Prop :=
  ∃ t id fetch, ⟨t, .stored key (.proxy id)⟩ ∈ st.log ∧ e.expiresAt = cfg.cacheOptions.expiry t ∧
    e.response.origin = .proxy id ∧ Completed st id fetch e.response.message ∧ fetch.handler.key = some key ∧
    cacheableResponse e.response.message = true

/-- The flight session `w` joined released `reply` to it. -/
def Handed (cfg : Config) (st : State) (w n : Nat) (key : Str) (reply : Reply) : Prop :=
  FlightReply cfg st key reply ∧ ∃ tj tr ws,
    [⟨tj, .joined w n key .waiter⟩, ⟨tr, .released key reply.origin ws⟩].Sublist st.log ∧ (w, n) ∈ ws

/-- **Where the answer to request `n` of session `i` comes from.** -/
inductive Answer (cfg : Config) (st : State) (i n : Nat) (request : HttpRequest) (reply : Reply) : Prop
  | localRoute : isLocalRequest request = true → reply.origin = .server →
      reply.message.result = 200 ∨ reply.message.result = 404 ∨ reply.message.result = 405 →
      Answer cfg st i n request reply
  | unavailable (asked : HttpRequest) : isLocalRequest request = false → reply.origin = .server →
      reply.message.SameContent (unavailableResponse cfg.beast asked) → Answer cfg st i n request reply
  | direct (id : Nat) (fetch : Fetch) (m : HttpResponse) : reply.origin = .proxy id → Completed st id fetch m →
      fetch.handler = .direct i → fetch.number = n → fetch.client = request → reply.message.SameContent m →
      Answer cfg st i n request reply
  | led (id : Nat) (fetch : Fetch) (m : HttpResponse) (tj tc : Int) : reply.origin = .proxy id →
      Completed st id fetch m → fetch.handler = .flight i request.target → fetch.number = n → fetch.client = request →
      [⟨tj, .joined i n request.target .leader⟩, ⟨tc, .completed id⟩].Sublist st.log →
      reply.message.SameContent m → Answer cfg st i n request reply
  | hit (id : Nat) (fetch : Fetch) (m : HttpResponse) (t a g : Int) : reply.origin = .proxy id → Completed st id fetch m →
      fetch.handler.key = some request.target → cacheableResponse m = true →
      [⟨t, .stored request.target (.proxy id)⟩, ⟨g, .hit i n (.proxy id)⟩].Sublist st.log →
      [⟨a, .received i n request⟩, ⟨g, .hit i n (.proxy id)⟩].Sublist st.log → g < cfg.cacheOptions.expiry t →
      reply.message.SameContent m → cacheableRequest request = true → Answer cfg st i n request reply
  | waited (id : Nat) (fetch : Fetch) (m : HttpResponse) (tj tr : Int) (ws : List (Nat × Nat)) :
      reply.origin = .proxy id → Completed st id fetch m → fetch.handler.key = some request.target →
      [⟨tj, .joined i n request.target .waiter⟩, ⟨tr, .released request.target (.proxy id) ws⟩].Sublist st.log →
      (i, n) ∈ ws → reply.message.SameContent m → cacheableRequest request = true → Answer cfg st i n request reply

/-- What is known of a session by where it is. -/
def PhaseOk (cfg : Config) (st : State) (i : Nat) (s : Session) : Prop :=
  match s.phase with
  | .leading key => ∃ t, ⟨t, .joined i s.number key .leader⟩ ∈ st.log
  | .waiting key => ∃ t, ⟨t, .joined i s.number key .waiter⟩ ∈ st.log
  | .proxying id flight => (∃ p, st.proxies[id]? = some p ∧ p.fetch.number = s.number ∧ p.fetch.client = s.request) ∧
    ∀ key, flight = some key → ∃ t, ⟨t, .joined i s.number key .leader⟩ ∈ st.log
  | .storing key reply => OwnReply cfg st i s.number s.request key reply ∧ reply.origin ≠ .server ∧
    cacheableResponse reply.message = true
  | .completing key reply => OwnReply cfg st i s.number s.request key reply
  | .responding reply => Answer cfg st i s.number s.request reply
  | _ => True

/-- **Every reply the server holds or has written has a known origin.** -/
structure OriginInv (cfg : Config) (st : State) : Prop where
  fetched : ∀ (id : Nat) (p : UpstreamProxy), st.proxies[id]? = some p → FetchOk cfg p
  options : st.cache.options = cfg.cacheOptions
  cached : ∀ key e, st.cache.entries.lookup key = some e → Kept cfg st key e
  phases : ∀ i, PhaseOk cfg st i (st.sessions i)
  posted : ∀ w reply, (w, reply) ∈ st.posted →
    Handed cfg st w (st.sessions w).number (st.sessions w).request.target reply
  released : ∀ t key id ws, ⟨t, .released key (.proxy id) ws⟩ ∈ st.log → ∃ fetch m, Completed st id fetch m
  wrote : ∀ t i n reply, ⟨t, .wrote i n reply⟩ ∈ st.log →
    ∃ a request, ⟨a, .received i n request⟩ ∈ st.log ∧ Answer cfg st i n request reply

theorem Grows.flightReply (g : Grows st st') {key : Str} {reply : Reply} (h : FlightReply cfg st key reply) :
    FlightReply cfg st' key reply := by
  rcases h with h | ⟨id, fetch, ho, hc, hk⟩
  · exact .inl h
  · exact .inr ⟨id, fetch, ho, g.completed hc, hk⟩

theorem Grows.ownReply (g : Grows st st') {i n : Nat} {request : HttpRequest} {key : Str} {reply : Reply}
    (h : OwnReply cfg st i n request key reply) : OwnReply cfg st' i n request key reply := by
  rcases h with h | ⟨id, fetch, tj, tc, ho, hc, hh, hn, hq, hl⟩
  · exact .inl h
  · exact .inr ⟨id, fetch, tj, tc, ho, g.completed hc, hh, hn, hq, g.sublist hl⟩

theorem Grows.kept (g : Grows st st') {key : Str} {e : Entry Reply} (h : Kept cfg st key e) : Kept cfg st' key e := by
  obtain ⟨t, id, fetch, ht, hx, ho, hc, hk, hr⟩ := h
  exact ⟨t, id, fetch, g.mem ht, hx, ho, g.completed hc, hk, hr⟩

theorem Grows.handed (g : Grows st st') {w n : Nat} {key : Str} {reply : Reply} (h : Handed cfg st w n key reply) :
    Handed cfg st' w n key reply := by
  obtain ⟨hf, tj, tr, ws, hl, hw⟩ := h
  exact ⟨g.flightReply hf, tj, tr, ws, g.sublist hl, hw⟩

theorem Grows.answer (g : Grows st st') {i n : Nat} {request : HttpRequest} {reply : Reply}
    (h : Answer cfg st i n request reply) : Answer cfg st' i n request reply := by
  cases h with
  | localRoute hl ho hr => exact .localRoute hl ho hr
  | unavailable asked hl ho hs => exact .unavailable asked hl ho hs
  | direct id f m ho hc hh hn hq hs => exact .direct id f m ho (g.completed hc) hh hn hq hs
  | led id f m tj tc ho hc hh hn hq hl hs => exact .led id f m tj tc ho (g.completed hc) hh hn hq (g.sublist hl) hs
  | hit id f m t a b ho hc hk hr hl hl' hlt hs hq =>
    exact .hit id f m t a b ho (g.completed hc) hk hr (g.sublist hl) (g.sublist hl') hlt hs hq
  | waited id f m tj tr ws ho hc hk hl hw hs hq =>
    exact .waited id f m tj tr ws ho (g.completed hc) hk (g.sublist hl) hw hs hq

theorem Grows.phaseOk (g : Grows st st') {i : Nat} {s : Session} (h : PhaseOk cfg st i s) : PhaseOk cfg st' i s := by
  have hmem : ∀ {key : Str} {role : Role}, (∃ t, ⟨t, .joined i s.number key role⟩ ∈ st.log) →
      ∃ t, ⟨t, .joined i s.number key role⟩ ∈ st'.log := fun ⟨t, ht⟩ => ⟨t, g.mem ht⟩
  unfold PhaseOk at h ⊢
  split
  · rename_i hph; rw [hph] at h; exact hmem h
  · rename_i hph; rw [hph] at h; exact hmem h
  · rename_i hph
    rw [hph] at h
    obtain ⟨⟨p, hp, hn, hq⟩, hk⟩ := h
    obtain ⟨p', hp', hf, -⟩ := g.started _ p hp
    exact ⟨⟨p', hp', by rw [hf]; exact hn, by rw [hf]; exact hq⟩, fun key e => hmem (hk key e)⟩
  · rename_i hph; rw [hph] at h; exact ⟨g.ownReply h.1, h.2⟩
  · rename_i hph; rw [hph] at h; exact g.ownReply h
  · rename_i hph; rw [hph] at h; exact g.answer h
  · trivial

theorem originInv_init : OriginInv cfg (init cfg) := by
  constructor
  · intro id p hp; cases hp
  · rfl
  · intro key e he; cases he
  · intro i; trivial
  · intro w reply hm; cases hm
  · intro t key id ws hm; cases hm
  · intro t i n reply hm; cases hm

/-! ## Every step keeps them -/

/-- The answer `write_response_for_current_request` writes. -/
theorem sameContent_forRequest (request : HttpRequest) (reply : Reply) :
    (forRequest cfg request reply).message.SameContent reply.message :=
  ⟨rfl, rfl, cfg.beast.setKeepAlive_others _ _ _⟩

theorem OriginInv.fetched_step (h : OriginInv cfg st) (hc : CoreInv cfg st) (hs : Step cfg st a st') (id : Nat)
    (p : UpstreamProxy) (hp : st'.proxies[id]? = some p) : FetchOk cfg p := by
  rcases hc.proxies.change hs with hps | ⟨i, u, handler, q, hps, rfl, hi⟩ | ⟨id', p', q, hp', -, hps, hf, hr, hu⟩
  · exact h.fetched id p (by rw [← hps]; exact hp)
  · rw [hps] at hp
    rcases Lts.getElem?_snoc_iff.1 hp with hp | ⟨-, rfl⟩
    · exact h.fetched id p hp
    · have hpath := hc.path i
      rcases hi with ⟨key, rfl, hph⟩ | ⟨rfl, hph⟩
      · rw [PathOk, hph] at hpath; exact ⟨rfl, hpath.2.2.1, hpath.1, hpath.2.1⟩
      · rw [PathOk, hph] at hpath; exact ⟨rfl, hpath.2, hpath.1⟩
  · rw [hps] at hp
    rcases Lts.getElem?_set_cases hp with ⟨-, rfl⟩ | ⟨-, hp⟩
    · have := h.fetched id' p' hp'
      unfold FetchOk at this ⊢
      rw [hr, hu, hf]
      exact this
    · exact h.fetched id p hp

theorem OriginInv.options_step (h : OriginInv cfg st) (hs : Step cfg st a st') :
    st'.cache.options = cfg.cacheOptions := by
  cases hs with
  | hit _ _ _ _ _ | miss _ _ _ _ _ | missAlone _ _ _ _ _ => exact (st.cache.get_options _ _).trans h.options
  | store _ _ _ _ => exact (st.cache.put_options _ _ _).trans h.options
  | _ => exact h.options

theorem OriginInv.cached_step (h : OriginInv cfg st) (g : Grows st st') (hs : Step cfg st a st') (key : Str)
    (e : Entry Reply) (he : st'.cache.entries.lookup key = some e) : Kept cfg st' key e := by
  cases hs with
  | hit _ _ _ _ _ | miss _ _ _ _ _ | missAlone _ _ _ _ _ =>
    exact g.kept (h.cached key e (st.cache.lookup_of_lookup_get _ _ he))
  | store i k reply hph =>
    by_cases hk : key = k
    · subst hk
      obtain ⟨e', he', hr, hx⟩ := st.cache.lookup_put_self key st.now reply
      rw [show (st.cache.put key reply st.now).entries.lookup key = some e from he] at he'
      cases he'
      have hi := h.phases i
      rw [PhaseOk, hph] at hi
      obtain ⟨hown, hos, hcr⟩ := hi
      rcases hown with ⟨ho, -⟩ | ⟨id, fetch, tj, tc, ho, hcm, hh, -, -, -⟩
      · exact absurd ho hos
      · refine ⟨st.now, id, fetch, ?_, by rw [hx, h.options], by rw [hr]; exact ho, ?_, by rw [hh]; rfl,
          by rw [hr]; exact hcr⟩
        · rw [← ho]; exact List.mem_append_right _ (List.mem_singleton.2 rfl)
        · rw [hr]; exact g.completed hcm
    · exact g.kept (h.cached key e (st.cache.lookup_of_lookup_put k st.now hk he))
  | _ => exact g.kept (h.cached key e he)

/-- Only the session that moves has to be looked at. -/
theorem OriginInv.phases_update (h : OriginInv cfg st) (g : Grows st st') {i : Nat} {s : Session}
    (hu : st'.sessions = Function.update st.sessions i s) (hi : PhaseOk cfg st' i s) (j : Nat) :
    PhaseOk cfg st' j (st'.sessions j) :=
  Lts.update_all (Q := PhaseOk cfg st') hu hi (fun j => g.phaseOk (h.phases j)) j

/-- The leader goes on with what its own run handed over. -/
theorem OriginInv.phaseOk_flight (i : Nat) (s : Session) (key : Str) (reply : Reply)
    (ho : OwnReply cfg st i s.number s.request key reply) (hos : reply.origin ≠ .server) :
    PhaseOk cfg st i { s with phase := flightPhase key reply true } := by
  unfold flightPhase
  split
  · rename_i hc; exact ⟨ho, hos, by simpa using hc⟩
  · exact ho

/-- The leader answers with what its flight brought. -/
theorem OwnReply.answer {i n : Nat} {request : HttpRequest} {reply : Reply}
    (h : OwnReply cfg st i n request request.target reply) (hl : isLocalRequest request = false) :
    Answer cfg st i n request (forRequest cfg request reply) := by
  rcases h with ⟨ho, hm⟩ | ⟨id, fetch, tj, tc, ho, hc, hh, hn, hq, hlog⟩
  · exact .unavailable request hl ho (by rw [← hm]; exact sameContent_forRequest request reply)
  · exact .led id fetch reply.message tj tc ho hc hh hn hq hlog (sameContent_forRequest request reply)

/-- The waiter answers with what its flight released. -/
theorem Handed.answer {i n : Nat} {request : HttpRequest} {reply : Reply}
    (h : Handed cfg st i n request.target reply) (hl : isLocalRequest request = false)
    (hq : cacheableRequest request = true) : Answer cfg st i n request (forRequest cfg request reply) := by
  obtain ⟨⟨ho, r, hr⟩ | ⟨id, fetch, ho, hc, hk⟩, tj, tr, ws, hlog, hw⟩ := h
  · exact .unavailable r hl ho (by rw [← hr]; exact sameContent_forRequest request reply)
  · rw [ho] at hlog
    exact .waited id fetch reply.message tj tr ws ho hc hk hlog hw (sameContent_forRequest request reply) hq

/-- A hit answers with what is kept under the target. -/
theorem OriginInv.hit_answer (h : OriginInv cfg st) (hr : RequestInv st) (g : Grows st st') {i : Nat} {cached : Reply}
    (hpend : (st.sessions i).phase.pending = true) (hq : cacheableRequest (st.sessions i).request = true)
    (hget : (st.cache.get (st.sessions i).request.target st.now).1 = some cached)
    (hl : st'.log = st.log ++ [⟨st.now, .hit i (st.sessions i).number cached.origin⟩]) :
    Answer cfg st' i (st.sessions i).number (st.sessions i).request (forRequest cfg (st.sessions i).request cached) := by
  obtain ⟨e, he, hlt, rfl⟩ := st.cache.get_some _ _ hget
  obtain ⟨t, id, fetch, ht, hx, ho, hc, hk, hcr⟩ := h.cached _ e he
  rw [ho] at hl
  refine .hit id fetch e.response.message t (st.sessions i).requestStarted st.now ho (g.completed hc) hk hcr ?_ ?_
    (by rw [← hx]; exact hlt) (sameContent_forRequest _ e.response) hq
  · rw [hl]; exact Lts.sublist_snoc ht
  · rw [hl]; exact Lts.sublist_snoc (hr.current i hpend)

theorem OriginInv.phases_step (h : OriginInv cfg st) (hc : CoreInv cfg st) (hr : RequestInv st) (g : Grows st st')
    (hs : Step cfg st a st') (j : Nat) : PhaseOk cfg st' j (st'.sessions j) := by
  have last : ∀ {e : Logged}, st'.log = st.log ++ [e] → e ∈ st'.log := fun hl => by
    rw [hl]; exact List.mem_append_right _ (List.mem_singleton.2 rfl)
  cases hs with
  | tick _ _ | proxyStep _ _ _ _ _ _ _ _ | proxyThrow _ _ _ _ _ _ _ _ | health _ _ _ _ _ _ => exact g.phaseOk (h.phases j)
  | accept i | readError i | readCacheable i | readOther i | miss i | leadThrow i | directThrow i | respond i
  | writtenNext i | writtenLast i =>
    refine h.phases_update g (i := i) rfl ?_ j
    exact trivial
  | readLocal i request response _ _ hl hresp =>
    obtain ⟨r, hr', hres⟩ := @localResponse_ok cfg (localMetrics st.metrics.recordRequest request) st.pool request
    rw [hresp] at hr'; cases hr'
    refine h.phases_update g (i := i) rfl ?_ j
    exact Answer.localRoute hl rfl hres
  | hit i key cached hph hget =>
    have hi := hc.path i
    rw [PathOk, hph] at hi
    obtain ⟨rfl, hq, -⟩ := hi
    refine h.phases_update g (i := i) rfl ?_ j
    exact h.hit_answer hr g (by rw [hph]; rfl) hq hget rfl
  | missAlone i key hph =>
    have hi := hc.path i
    rw [PathOk, hph] at hi
    refine h.phases_update g (i := i) rfl ?_ j
    exact Answer.unavailable _ hi.2.2 rfl (sameContent_forRequest _ (unavailable cfg st i))
  | lead i | wait i =>
    refine h.phases_update g (i := i) rfl ?_ j
    exact ⟨_, last rfl⟩
  | leadUnavailable i =>
    refine h.phases_update g (i := i) rfl ?_ j
    exact Or.inl ⟨rfl, rfl⟩
  | directUnavailable i hph =>
    have hi := hc.path i
    rw [PathOk, hph] at hi
    refine h.phases_update g (i := i) rfl ?_ j
    exact Answer.unavailable _ hi.2 rfl (HttpResponse.SameContent.refl _)
  | leadFetch i key u p hph _ hrun =>
    have hi := h.phases i
    rw [PhaseOk, hph] at hi
    refine h.phases_update g (i := i) rfl ?_ j
    refine ⟨⟨p, List.getElem?_concat_length, ?_⟩, fun k hk => ?_⟩
    · rw [UpstreamProxy.run_ok cfg.beast _ p hrun]; exact ⟨rfl, rfl⟩
    · cases hk; exact hi
  | directFetch i u p hph _ hrun =>
    refine h.phases_update g (i := i) rfl ?_ j
    refine ⟨⟨p, List.getElem?_concat_length, ?_⟩, fun k hk => ?_⟩
    · rw [UpstreamProxy.run_ok cfg.beast _ p hrun]; exact ⟨rfl, rfl⟩
    · cases hk
  | store i key reply hph =>
    have hi := h.phases i
    rw [PhaseOk, hph] at hi
    refine h.phases_update g (i := i) rfl ?_ j
    exact g.ownReply hi.1
  | release i key reply hph =>
    have hi := h.phases i
    rw [PhaseOk, hph] at hi
    have hpath := hc.path i
    rw [PathOk, hph] at hpath
    obtain ⟨rfl, -, hl, -⟩ := hpath
    refine h.phases_update g (i := i) rfl ?_ j
    exact (g.ownReply hi).answer hl
  | callback pre post w reply _ hp =>
    have hm : (w, reply) ∈ st.posted := by rw [hp]; simp
    obtain ⟨k, hk⟩ := hc.posted_waiting hm
    have hpath := hc.path w
    rw [PathOk, hk] at hpath
    refine h.phases_update g (i := w) rfl ?_ j
    exact (g.handed (h.posted w reply hm)).answer hpath.2.2.1 hpath.2.1
  | proxyFlight id p q event i key r _ hp hop hh =>
    obtain ⟨hf, -, rfl, -, hph⟩ := hc.proxies.finished hp hop hh
    have hph' : (st.sessions i).phase = .proxying id (some key) := hph
    have hi := h.phases i
    rw [PhaseOk, hph'] at hi
    obtain ⟨⟨p', hp', hn, hq⟩, hj⟩ := hi
    rw [hp] at hp'; cases hp'
    obtain ⟨tj, htj⟩ := hj key rfl
    refine h.phases_update g (i := i) rfl ?_ j
    refine OriginInv.phaseOk_flight i (st.sessions i) key _ (.inr ⟨id, p.fetch, tj, st.now, rfl, ?_, hf, hn, hq, ?_⟩)
      (fun e => by cases e)
    · exact ⟨_, List.getElem?_set_self (List.getElem?_eq_some_iff.1 hp).1, rfl, rfl, rfl⟩
    · exact Lts.sublist_snoc htj
  | proxyDirect id p q event i r _ hp hop hh =>
    obtain ⟨hf, -, rfl, -, hph⟩ := hc.proxies.finished hp hop hh
    have hph' : (st.sessions i).phase = .proxying id none := hph
    have hi := h.phases i
    rw [PhaseOk, hph'] at hi
    obtain ⟨⟨p', hp', hn, hq⟩, -⟩ := hi
    rw [hp] at hp'; cases hp'
    refine h.phases_update g (i := i) rfl ?_ j
    refine Answer.direct id p.fetch r rfl ?_ hf hn hq (sameContent_forRequest _ ⟨r, .proxy id⟩)
    exact ⟨_, List.getElem?_set_self (List.getElem?_eq_some_iff.1 hp).1, rfl, rfl, rfl⟩

theorem OwnReply.flightReply {i n : Nat} {request : HttpRequest} {key : Str} {reply : Reply}
    (h : OwnReply cfg st i n request key reply) : FlightReply cfg st key reply := by
  rcases h with ⟨ho, hm⟩ | ⟨id, fetch, tj, tc, ho, hc, hh, -, -, -⟩
  · exact .inl ⟨ho, request, hm⟩
  · exact .inr ⟨id, fetch, ho, hc, by rw [hh]; rfl⟩

theorem OriginInv.posted_step (h : OriginInv cfg st) (hc : CoreInv cfg st) (g : Grows st st') (hs : Step cfg st a st')
    (w : Nat) (reply : Reply) (hm : (w, reply) ∈ st'.posted) :
    Handed cfg st' w (st'.sessions w).number (st'.sessions w).request.target reply := by
  have old : (w, reply) ∈ st.posted → Handed cfg st' w (st'.sessions w).number (st'.sessions w).request.target reply := by
    intro hm
    obtain ⟨k, hk⟩ := hc.posted_waiting hm
    obtain ⟨hn, hq⟩ := hs.kept (j := w) (by rw [hk]; rfl)
    rw [hn, hq]
    exact g.handed (h.posted w reply hm)
  -- kept for the new callbacks: `hs` is about to be split
  have kept : (st.sessions w).phase.pending = true → _ := fun hp => hs.kept (j := w) hp
  cases hs with
  | callback pre post w' reply' _ hp =>
    refine old ?_
    rw [hp]
    rw [List.mem_append] at hm ⊢
    exact hm.imp_right (List.mem_cons_of_mem _)
  | release i key reply' hph =>
    rcases List.mem_append.1 hm with hm | hm
    · exact old hm
    · obtain ⟨w', hw, heq⟩ := List.mem_map.1 hm
      cases heq
      have hwait := hc.taken_waiting hw
      obtain ⟨hn, hq⟩ := kept (by rw [hwait]; rfl)
      have hpath := hc.path w
      rw [PathOk, hwait] at hpath
      obtain ⟨rfl, -⟩ := hpath
      have hi := h.phases i
      rw [PhaseOk, hph] at hi
      have hj := h.phases w
      rw [PhaseOk, hwait] at hj
      obtain ⟨tj, htj⟩ := hj
      rw [hn, hq]
      exact ⟨g.flightReply hi.flightReply, tj, st.now, _, Lts.sublist_snoc htj, List.mem_map.2 ⟨w, hw, rfl⟩⟩
  | _ => exact old hm

theorem OriginInv.released_step (h : OriginInv cfg st) (g : Grows st st') (hs : Step cfg st a st') (t : Int) (key : Str)
    (id : Nat) (ws : List (Nat × Nat)) (hm : ⟨t, .released key (.proxy id) ws⟩ ∈ st'.log) :
    ∃ fetch m, Completed st' id fetch m := by
  have old : ⟨t, .released key (.proxy id) ws⟩ ∈ st.log → ∃ fetch m, Completed st' id fetch m := fun hm => by
    obtain ⟨fetch, m, hc⟩ := h.released t key id ws hm
    exact ⟨fetch, m, g.completed hc⟩
  cases hs with
  | release i k reply hph =>
    rcases List.mem_append.1 hm with hm | hm
    · exact old hm
    · have hi := h.phases i
      rw [PhaseOk, hph] at hi
      rcases hi with ⟨ho, -⟩ | ⟨id', fetch, tj, tc, ho, hcm, -⟩
      · rw [List.mem_singleton, ho] at hm; cases hm
      · rw [List.mem_singleton, ho] at hm; cases hm
        exact ⟨fetch, _, g.completed hcm⟩
  | _ => exact old (by simpa [receivedLog] using hm)

theorem OriginInv.wrote_step (h : OriginInv cfg st) (hr : RequestInv st) (g : Grows st st') (hs : Step cfg st a st')
    (t : Int) (i n : Nat) (reply : Reply) (hm : ⟨t, .wrote i n reply⟩ ∈ st'.log) :
    ∃ a request, ⟨a, .received i n request⟩ ∈ st'.log ∧ Answer cfg st' i n request reply := by
  rcases hs.wrote hm with hm | ⟨rfl, hph⟩
  · obtain ⟨b, request, hb, hans⟩ := h.wrote t i n reply hm
    exact ⟨b, request, g.mem hb, g.answer hans⟩
  · have hi := h.phases i
    rw [PhaseOk, hph] at hi
    exact ⟨_, _, g.mem (hr.current i (by rw [hph]; rfl)), g.answer hi⟩

theorem OriginInv.step (h : OriginInv cfg st) (hc : CoreInv cfg st) (hr : RequestInv st) (hs : Step cfg st a st') :
    OriginInv cfg st' := by
  have g := hc.proxies.grows hs
  exact ⟨h.fetched_step hc hs, h.options_step hs, h.cached_step g hs, h.phases_step hc hr g hs, h.posted_step hc g hs,
    h.released_step g hs, h.wrote_step hr g hs⟩

theorem Reachable.origins (h : Reachable cfg st) : OriginInv cfg st :=
  h.invWith (J := fun st => CoreInv cfg st ∧ RequestInv st) (fun _ hr => ⟨Reachable.core hr, Reachable.requests hr⟩)
    originInv_init (fun _ a _ hc hi _ hs => hi.step hc.1 hc.2 (step_sound a hs))

/-- Request `n` of session `i` was answered with a reply that passes the test. -/
def wroteWith (st : State) (i n : Nat) (p : Reply → Bool) : Bool :=
  st.log.any (fun e => match e.event with
    | .wrote i' n' reply => decide (i' = i ∧ n' = n) && p reply
    | _ => false)

theorem wroteWith_iff {i n : Nat} {p : Reply → Bool} : wroteWith st i n p = true ↔
    ∃ t reply, ⟨t, .wrote i n reply⟩ ∈ st.log ∧ p reply = true := by
  unfold wroteWith
  rw [List.any_eq_true]
  constructor
  · rintro ⟨⟨t, e⟩, hm, he⟩
    cases e with
    | wrote i' n' reply =>
      simp only [Bool.and_eq_true, decide_eq_true_eq] at he
      obtain ⟨⟨rfl, rfl⟩, hp⟩ := he
      exact ⟨t, reply, hm, hp⟩
    | _ => cases he
  · rintro ⟨t, reply, hm, hp⟩
    exact ⟨_, hm, by simp [hp]⟩

/-- The answer written for request `n` of session `i` is proxy run `id`'s. -/
def delivered (st : State) (i n id : Nat) : Bool := wroteWith st i n (fun reply => decide (reply.origin = .proxy id))

theorem delivered_iff (st : State) (i n id : Nat) : delivered st i n id = true ↔
    ∃ t reply, ⟨t, .wrote i n reply⟩ ∈ st.log ∧ reply.origin = .proxy id := by
  unfold delivered
  simp only [wroteWith_iff, decide_eq_true_eq]

/-- **Every answer ever written has an origin**, whatever request the number stands for. -/
theorem Reachable.answer (h : Reachable cfg st) {t b : Int} {i n : Nat} {request : HttpRequest} {reply : Reply}
    (hb : ⟨b, .received i n request⟩ ∈ st.log) (hw : ⟨t, .wrote i n reply⟩ ∈ st.log) :
    Answer cfg st i n request reply := by
  obtain ⟨b', request', hb', hans⟩ := (Reachable.origins h).wrote t i n reply hw
  obtain ⟨-, rfl⟩ := (Reachable.requests h).unique b b' i n request request' hb hb'
  exact hans

end Server
end EventEdge
