import EventEdge.ServerSteps
/-!
# ServerProxies — which proxy belongs to which session

A proxy that has not completed still has its completion handler and at most one operation outstanding (exactly one
as long as no handler threw), and the session it was started by is waiting for it; a session that waits for a proxy
waits for one that has not completed (`ProxyInv`).  Every step keeps this (`ProxyInv.step`), once the sessions with a
posted callback are known to be waiting.
-/
namespace EventEdge
namespace Server

/-- **Proxies and sessions belong together.** -/
structure ProxyInv (st : State) : Prop where
  running : ∀ (id : Nat) (p : UpstreamProxy), st.proxies[id]? = some p → p.completed = false →
    (st.sessions p.fetch.handler.session).phase = .proxying id p.fetch.handler.key ∧
      p.completionHandler = some p.fetch.handler ∧ p.outstanding.length ≤ 1 ∧
      (st.stopped = false → p.outstanding.length = 1)
  done : ∀ (id : Nat) (p : UpstreamProxy), st.proxies[id]? = some p → p.completed = true → p.outstanding = []
  proxying : ∀ i id f, (st.sessions i).phase = .proxying id f →
    ∃ p, st.proxies[id]? = some p ∧ p.completed = false ∧ p.fetch.handler.session = i ∧ p.fetch.handler.key = f

variable {cfg : Config} {st st' : State}

theorem proxyInv_init : ProxyInv (init cfg) := by
  constructor
  · intro id p hp; cases hp
  · intro id p hp; cases hp
  · intro i id f h; cases h

/-- A session that has no proxy before or after moves. -/
theorem ProxyInv.move (h : ProxyInv st) {i : Nat} {s : Session} (hs : st'.sessions = Function.update st.sessions i s)
    (hp : st'.proxies = st.proxies) (ht : st'.stopped = false → st.stopped = false)
    (hold : ∀ id f, (st.sessions i).phase ≠ .proxying id f) (hnew : ∀ id f, s.phase ≠ .proxying id f) :
    ProxyInv st' := by
  constructor
  · intro id p hget hc
    rw [hp] at hget
    obtain ⟨h1, h2, h3, h4⟩ := h.running id p hget hc
    have hne : p.fetch.handler.session ≠ i := by rintro rfl; exact hold _ _ h1
    exact ⟨by rw [hs, Function.update_of_ne hne]; exact h1, h2, h3, fun hst => h4 (ht hst)⟩
  · intro id p hget hc
    exact h.done id p (by rw [← hp]; exact hget) hc
  · intro j id f hj
    have hne : j ≠ i := by rintro rfl; rw [hs, Function.update_self] at hj; exact hnew _ _ hj
    rw [hs, Function.update_of_ne hne] at hj
    rw [hp]
    exact h.proxying j id f hj

/-- A session starts a proxy. -/
theorem ProxyInv.started (h : ProxyInv st) {i : Nat} {s : Session} {p : UpstreamProxy}
    (hs : st'.sessions = Function.update st.sessions i s) (hp : st'.proxies = st.proxies ++ [p])
    (ht : st'.stopped = st.stopped) (hold : ∀ id f, (st.sessions i).phase ≠ .proxying id f)
    (hnew : s.phase = .proxying st.proxies.length p.fetch.handler.key) (hi : p.fetch.handler.session = i)
    (hc : p.completed = false) (hh : p.completionHandler = some p.fetch.handler) (ho : p.outstanding = [.resolve]) :
    ProxyInv st' := by
  constructor
  · intro id q hq hqc
    rw [hp] at hq
    rcases Lts.getElem?_snoc_iff.1 hq with hq | ⟨rfl, rfl⟩
    · obtain ⟨h1, h2, h3, h4⟩ := h.running id q hq hqc
      have hne : q.fetch.handler.session ≠ i := fun e => hold _ _ (e ▸ h1)
      exact ⟨by rw [hs, Function.update_of_ne hne]; exact h1, h2, h3, fun hst => h4 (by rw [← ht]; exact hst)⟩
    · exact ⟨by rw [hs, hi, Function.update_self, hnew], hh, by simp [ho], fun _ => by simp [ho]⟩
  · intro id q hq hqc
    rw [hp] at hq
    rcases Lts.getElem?_snoc_iff.1 hq with hq | ⟨rfl, rfl⟩
    · exact h.done id q hq hqc
    · rw [hc] at hqc; cases hqc
  · intro j id f hj
    by_cases hji : j = i
    · subst hji
      rw [hs, Function.update_self, hnew] at hj
      cases hj
      exact ⟨p, by rw [hp]; simp, hc, hi, rfl⟩
    · rw [hs, Function.update_of_ne hji] at hj
      obtain ⟨q, hq, hrest⟩ := h.proxying j id f hj
      refine ⟨q, ?_, hrest⟩
      rw [hp, List.getElem?_append_left (List.getElem?_eq_some_iff.1 hq).1]
      exact hq

/-- A completed operation was the only one of a proxy that has not completed. -/
theorem ProxyInv.event (h : ProxyInv st) {id : Nat} {p : UpstreamProxy} {event : ProxyEvent}
    (hp : st.proxies[id]? = some p) (hop : event.op ∈ p.outstanding) :
    p.completed = false ∧ p.outstanding = [event.op] ∧ p.completionHandler = some p.fetch.handler ∧
      (st.sessions p.fetch.handler.session).phase = .proxying id p.fetch.handler.key := by
  have hc : p.completed = false := by
    cases hc : p.completed with
    | false => rfl
    | true => rw [h.done id p hp hc] at hop; cases hop
  obtain ⟨h1, h2, h3, -⟩ := h.running id p hp hc
  refine ⟨hc, ?_, h2, h1⟩
  match ho : p.outstanding, h3 with
  | [], _ => rw [ho] at hop; cases hop
  | [op], _ => rw [ho, List.mem_singleton] at hop; rw [hop]

/-- The handler of a completed operation started the next one. -/
theorem ProxyInv.stepped (h : ProxyInv st) {id : Nat} {p q : UpstreamProxy} {event : ProxyEvent}
    (hp : st.proxies[id]? = some p) (hop : event.op ∈ p.outstanding)
    (hh : (withoutOp p event).handle cfg.beast cfg.timeouts st.now event = .ok (q, none)) :
    ∃ op d, q = (withoutOp p event).startOp op d := by
  obtain ⟨hc, -, hch, -⟩ := h.event hp hop
  rcases UpstreamProxy.handle_running cfg.beast cfg.timeouts st.now (withoutOp p event) _ event hc hch with
    ⟨op, d, h1⟩ | ⟨r, -, h1⟩ | ⟨-, h1⟩
  · rw [h1] at hh; cases hh; exact ⟨op, d, rfl⟩
  · rw [h1] at hh; cases hh
  · rw [h1] at hh; cases hh

/-- The handler of a completed operation completed the proxy, and called the handler it was started with. -/
theorem ProxyInv.finished (h : ProxyInv st) {id : Nat} {p q : UpstreamProxy} {event : ProxyEvent}
    {handler : CompletionHandler} {r : HttpResponse} (hp : st.proxies[id]? = some p) (hop : event.op ∈ p.outstanding)
    (hh : (withoutOp p event).handle cfg.beast cfg.timeouts st.now event = .ok (q, some (handler, r))) :
    p.fetch.handler = handler ∧ UpstreamProxy.Outcome cfg.beast (withoutOp p event) event r ∧
      q = { withoutOp p event with completed := true, completionHandler := none, result := some r } ∧
      q.outstanding = [] ∧ (st.sessions handler.session).phase = .proxying id handler.key := by
  obtain ⟨hc, ho, hch, hph⟩ := h.event hp hop
  rcases UpstreamProxy.handle_running cfg.beast cfg.timeouts st.now (withoutOp p event) _ event hc hch with
    ⟨op, d, h1⟩ | ⟨r', hout, h1⟩ | ⟨-, h1⟩
  · rw [h1] at hh; cases hh
  · rw [h1] at hh; cases hh
    exact ⟨rfl, hout, rfl, by simp [withoutOp, ho], hph⟩
  · rw [h1] at hh; cases hh

theorem ProxyInv.flight_phase (h : ProxyInv st) {id i : Nat} {p q : UpstreamProxy} {event : ProxyEvent} {key : Str}
    {r : HttpResponse} (hp : st.proxies[id]? = some p) (hop : event.op ∈ p.outstanding)
    (hh : (withoutOp p event).handle cfg.beast cfg.timeouts st.now event = .ok (q, some (.flight i key, r))) :
    (st.sessions i).phase = .proxying id (some key) :=
  (h.finished hp hop hh).2.2.2.2

theorem ProxyInv.direct_phase (h : ProxyInv st) {id i : Nat} {p q : UpstreamProxy} {event : ProxyEvent} {r : HttpResponse}
    (hp : st.proxies[id]? = some p) (hop : event.op ∈ p.outstanding)
    (hh : (withoutOp p event).handle cfg.beast cfg.timeouts st.now event = .ok (q, some (.direct i, r))) :
    (st.sessions i).phase = .proxying id none :=
  (h.finished hp hop hh).2.2.2.2

/-- A proxy changes in place, without completing. -/
theorem ProxyInv.replaced (h : ProxyInv st) {id : Nat} {p q : UpstreamProxy} (hp : st.proxies[id]? = some p)
    (hpc : p.completed = false) (hs : st'.sessions = st.sessions) (hps : st'.proxies = st.proxies.set id q)
    (ht : st'.stopped = false → st.stopped = false) (hf : q.fetch = p.fetch) (hqc : q.completed = false)
    (hch : q.completionHandler = p.completionHandler) (ho : q.outstanding.length ≤ 1)
    (ho' : st'.stopped = false → q.outstanding.length = 1) : ProxyInv st' := by
  have hlt := (List.getElem?_eq_some_iff.1 hp).1
  constructor
  · intro id' p' hp' hc'
    rw [hps] at hp'
    rcases Lts.getElem?_set_cases hp' with ⟨rfl, rfl⟩ | ⟨hid, hp'⟩
    · obtain ⟨h1, h2, -, -⟩ := h.running _ p hp hpc
      exact ⟨by rw [hs, hf]; exact h1, by rw [hch, hf]; exact h2, ho, ho'⟩
    · obtain ⟨h1, h2, h3, h4⟩ := h.running id' p' hp' hc'
      exact ⟨by rw [hs]; exact h1, h2, h3, fun hst => h4 (ht hst)⟩
  · intro id' p' hp' hc'
    rw [hps] at hp'
    rcases Lts.getElem?_set_cases hp' with ⟨rfl, rfl⟩ | ⟨hid, hp'⟩
    · rw [hqc] at hc'; cases hc'
    · exact h.done id' p' hp' hc'
  · intro j id' f hj
    rw [hs] at hj
    obtain ⟨p', hp', hc', hi', hf'⟩ := h.proxying j id' f hj
    by_cases hid : id' = id
    · subst hid
      rw [hp] at hp'; cases hp'
      exact ⟨q, by rw [hps]; simp [hlt], hqc, by rw [hf]; exact hi', by rw [hf]; exact hf'⟩
    · exact ⟨p', by rw [hps, List.getElem?_set_ne (Ne.symm hid)]; exact hp', hc', hi', hf'⟩

/-- A proxy completes and its session moves on. -/
theorem ProxyInv.completed (h : ProxyInv st) {id : Nat} {p q : UpstreamProxy} {s : Session}
    (hp : st.proxies[id]? = some p) (hpc : p.completed = false)
    (hs : st'.sessions = Function.update st.sessions p.fetch.handler.session s)
    (hps : st'.proxies = st.proxies.set id q) (ht : st'.stopped = st.stopped) (hqc : q.completed = true)
    (ho : q.outstanding = []) (hnew : ∀ id f, s.phase ≠ .proxying id f) : ProxyInv st' := by
  have hlt := (List.getElem?_eq_some_iff.1 hp).1
  have hown := (h.running id p hp hpc).1
  constructor
  · intro id' p' hp' hc'
    rw [hps] at hp'
    rcases Lts.getElem?_set_cases hp' with ⟨rfl, rfl⟩ | ⟨hid, hp'⟩
    · rw [hqc] at hc'; cases hc'
    · obtain ⟨h1, h2, h3, h4⟩ := h.running id' p' hp' hc'
      -- another proxy of the same session would be the session's only one
      have hne : p'.fetch.handler.session ≠ p.fetch.handler.session := fun e => by
        rw [e, hown] at h1; exact hid (Phase.proxying.inj h1).1.symm
      exact ⟨by rw [hs, Function.update_of_ne hne]; exact h1, h2, h3, fun hst => h4 (by rw [← ht]; exact hst)⟩
  · intro id' p' hp' hc'
    rw [hps] at hp'
    rcases Lts.getElem?_set_cases hp' with ⟨rfl, rfl⟩ | ⟨hid, hp'⟩
    · exact ho
    · exact h.done id' p' hp' hc'
  · intro j id' f hj
    have hne : j ≠ p.fetch.handler.session := by
      rintro rfl; rw [hs, Function.update_self] at hj; exact hnew _ _ hj
    rw [hs, Function.update_of_ne hne] at hj
    obtain ⟨p', hp', hc', hi', hf'⟩ := h.proxying j id' f hj
    have hid : id ≠ id' := by
      rintro rfl; rw [hp] at hp'; cases hp'; exact hne hi'.symm
    exact ⟨p', by rw [hps, List.getElem?_set_ne hid]; exact hp', hc', hi', hf'⟩

theorem ProxyInv.same (h : ProxyInv st) (hs : st'.sessions = st.sessions) (hp : st'.proxies = st.proxies)
    (ht : st'.stopped = st.stopped) : ProxyInv st' := by
  constructor
  · rw [hs, hp, ht]; exact h.running
  · rw [hp]; exact h.done
  · rw [hs, hp]; exact h.proxying

theorem flightPhase_ne_proxying (key : Str) (reply : Reply) (c : Bool) (id : Nat) (f : Option Str) :
    flightPhase key reply c ≠ .proxying id f := by
  unfold flightPhase
  split <;> nofun

/-- **Every step keeps proxies and sessions together.** -/
theorem ProxyInv.step {a : Action} (h : ProxyInv st)
    (hw : ∀ w r, (w, r) ∈ st.posted → ∃ k, (st.sessions w).phase = .waiting k) (hs : Step cfg st a st') :
    ProxyInv st' := by
  cases hs with
  | tick now _ => exact h.same rfl rfl rfl
  | accept i _ hph | readError i _ _ hph | readLocal i _ _ _ hph | readCacheable i _ _ hph | readOther i _ _ hph
  | hit i _ _ hph | miss i _ hph | missAlone i _ hph | lead i _ hph | wait i _ _ hph | leadUnavailable i _ hph
  | directUnavailable i hph | store i _ _ hph | release i _ _ hph | respond i _ hph | writtenNext i _ hph
  | writtenLast i _ _ _ hph =>
    exact h.move (i := i) rfl rfl (fun hst => hst) (by rw [hph]; nofun) (by nofun)
  | leadThrow i _ _ _ hph | directThrow i _ _ hph => exact h.move (i := i) rfl rfl nofun (by rw [hph]; nofun) (by nofun)
  | leadFetch i key u p hph _ hrun =>
    have hp := UpstreamProxy.run_ok cfg.beast _ p hrun
    refine h.started (i := i) rfl rfl rfl (by rw [hph]; nofun) ?_ ?_ ?_ ?_ ?_ <;> rw [hp] <;> rfl
  | directFetch i u p hph _ hrun =>
    have hp := UpstreamProxy.run_ok cfg.beast _ p hrun
    refine h.started (i := i) rfl rfl rfl (by rw [hph]; nofun) ?_ ?_ ?_ ?_ ?_ <;> rw [hp] <;> rfl
  | callback pre post w reply _ hp =>
    obtain ⟨k, hk⟩ := hw w reply (by rw [hp]; simp)
    exact h.move (i := w) rfl rfl (fun hst => hst) (by rw [hk]; nofun) (by nofun)
  | proxyStep id p q event hst hp hop hh =>
    obtain ⟨hc, ho, -, -⟩ := h.event hp hop
    obtain ⟨op, d, rfl⟩ := h.stepped hp hop hh
    have hlen : ((withoutOp p event).startOp op d).outstanding.length = 1 := by
      simp [UpstreamProxy.startOp, withoutOp, ho]
    exact h.replaced hp hc rfl rfl (fun hst => hst) rfl hc rfl (by rw [hlen]) (fun _ => hlen)
  | proxyFlight id p q event i key r hst hp hop hh =>
    obtain ⟨hc, -, -, -⟩ := h.event hp hop
    obtain ⟨hf, -, hq, ho, -⟩ := h.finished hp hop hh
    have hs : atPhase st i (flightPhase key ⟨r, .proxy id⟩ true) = Function.update st.sessions p.fetch.handler.session
        { st.sessions i with phase := flightPhase key ⟨r, .proxy id⟩ true } := by rw [hf]; rfl
    exact h.completed hp hc hs rfl rfl (by rw [hq]) ho (flightPhase_ne_proxying key _ true)
  | proxyDirect id p q event i r hst hp hop hh =>
    obtain ⟨hc, -, -, -⟩ := h.event hp hop
    obtain ⟨hf, -, hq, ho, -⟩ := h.finished hp hop hh
    have hs : atPhase st i (.responding (forRequest cfg (st.sessions i).request ⟨r, .proxy id⟩)) =
        Function.update st.sessions p.fetch.handler.session
          { st.sessions i with phase := .responding (forRequest cfg (st.sessions i).request ⟨r, .proxy id⟩) } := by
      rw [hf]; rfl
    exact h.completed hp hc hs rfl rfl (by rw [hq]) ho (by nofun)
  | proxyThrow id p event e hst hp hop hh =>
    obtain ⟨hc, ho, -, -⟩ := h.event hp hop
    exact h.replaced hp hc rfl rfl nofun rfl hc rfl (by simp [withoutOp, ho]) nofun
  | health _ _ _ _ _ _ => exact h.same rfl rfl rfl

end Server
end EventEdge
