import EventEdge.Server
/-!
# ServerSteps — everything one step of the server can do

`Step cfg st a st'` lists the branches of `step`, each with its guards and the state after, field by field.
`step_sound` says that the list is complete; every invariant of the server is proved on it.
-/
namespace EventEdge
namespace Server

open RequestCoalescer (Role)

/-- Session `i` after `async_read` brought it a request. -/
def received (st : State) (i : Nat) (request : HttpRequest) (phase : Phase) : Session :=
  { st.sessions i with
    phase := phase, request := request, requestStarted := st.now, number := (st.sessions i).number + 1 }

def receivedLog (st : State) (i : Nat) (request : HttpRequest) : List Logged :=
  st.log ++ [⟨st.now, .received i ((st.sessions i).number + 1) request⟩]

def atPhase (st : State) (i : Nat) (phase : Phase) : Nat → Session :=
  Function.update st.sessions i { st.sessions i with phase := phase }

def unavailable (cfg : Config) (st : State) (i : Nat) : Reply :=
  ⟨unavailableResponse cfg.beast (st.sessions i).request, .server⟩

def readingAgain (st : State) (i : Nat) : Nat → Session :=
  Function.update st.sessions i
    { st.sessions i with phase := .reading, request := .empty, deadline := st.now + 30000000000 }

/-- The proxy `startProxy` runs. -/
def freshProxy (cfg : Config) (st : State) (i : Nat) (upstream : UpstreamEndpoint) (handler : CompletionHandler) :
    UpstreamProxy :=
  UpstreamProxy.make cfg.beast upstream (st.sessions i).request handler
    ⟨handler, (st.sessions i).number, (st.sessions i).request, st.now⟩

def startedMetrics (m : MetricsRegistry) (upstream : UpstreamEndpoint) : MetricsRegistry :=
  (m.recordProxyRequest.recordUpstreamSelection (selectionLabel upstream)).proxyStarted

/-- Proxy `p` once the operation of the event is no longer outstanding. -/
def withoutOp (p : UpstreamProxy) (event : ProxyEvent) : UpstreamProxy :=
  { p with outstanding := p.outstanding.erase event.op }

/-- **The branches of `step`.** -/
inductive Step (cfg : Config) (st : State) : Action → State → Prop
  | tick (now : Int) : st.now ≤ now → Step cfg st (.tick now) { st with now := now }
  | accept (i : Nat) : st.stopped = false → (st.sessions i).phase = .unaccepted →
      Step cfg st (.accept i) { st with sessions := readingAgain st i }
  | readError (i : Nat) (e : ReadError) : st.stopped = false → (st.sessions i).phase = .reading →
      Step cfg st (.read i (.error e)) { st with sessions := atPhase st i .closed }
  | readLocal (i : Nat) (request : HttpRequest) (response : HttpResponse) : st.stopped = false →
      (st.sessions i).phase = .reading → isLocalRequest request = true →
      localResponse cfg (localMetrics st.metrics.recordRequest request) st.pool request = .ok response →
      Step cfg st (.read i (.ok request)) { st with
        sessions := Function.update st.sessions i (received st i request (.responding ⟨response, .server⟩))
        metrics := localMetrics st.metrics.recordRequest request
        log := receivedLog st i request }
  | readCacheable (i : Nat) (request : HttpRequest) : st.stopped = false → (st.sessions i).phase = .reading →
      isLocalRequest request = false → cacheableRequest request = true →
      Step cfg st (.read i (.ok request)) { st with
        sessions := Function.update st.sessions i (received st i request (.lookup request.target))
        metrics := st.metrics.recordRequest
        log := receivedLog st i request }
  | readOther (i : Nat) (request : HttpRequest) : st.stopped = false → (st.sessions i).phase = .reading →
      isLocalRequest request = false → cacheableRequest request = false →
      Step cfg st (.read i (.ok request)) { st with
        sessions := Function.update st.sessions i (received st i request .selecting)
        metrics := st.metrics.recordRequest
        log := receivedLog st i request }
  | hit (i : Nat) (key : Str) (cached : Reply) : (st.sessions i).phase = .lookup key →
      (st.cache.get key st.now).1 = some cached →
      Step cfg st (.get i) { st with
        sessions := atPhase st i (.responding (forRequest cfg (st.sessions i).request cached))
        cache := (st.cache.get key st.now).2
        metrics := st.metrics.recordCacheHit
        log := st.log ++ [⟨st.now, .hit i (st.sessions i).number cached.origin⟩] }
  | miss (i : Nat) (key : Str) : (st.sessions i).phase = .lookup key → (st.cache.get key st.now).1 = none →
      cfg.hasCoalescer = true →
      Step cfg st (.get i) { st with
        sessions := Function.update st.sessions i
          { st.sessions i with phase := .joining key, missedAt := st.log.length }
        cache := (st.cache.get key st.now).2
        metrics := st.metrics.recordCacheMiss }
  | missAlone (i : Nat) (key : Str) : (st.sessions i).phase = .lookup key → (st.cache.get key st.now).1 = none →
      cfg.hasCoalescer = false →
      Step cfg st (.get i) { st with
        sessions := atPhase st i (.responding (forRequest cfg (st.sessions i).request (unavailable cfg st i)))
        cache := (st.cache.get key st.now).2
        metrics := st.metrics.recordCacheMiss }
  | lead (i : Nat) (key : Str) : (st.sessions i).phase = .joining key → st.coalescer.waiters key = none →
      Step cfg st (.join i) { st with
        sessions := atPhase st i (.leading key)
        coalescer := (st.coalescer.joinOrStart key i).2
        metrics := st.metrics.recordCoalescingLeader
        log := st.log ++ [⟨st.now, .joined i (st.sessions i).number key .leader⟩] }
  | wait (i : Nat) (key : Str) (ws : List Nat) : (st.sessions i).phase = .joining key →
      st.coalescer.waiters key = some ws →
      Step cfg st (.join i) { st with
        sessions := atPhase st i (.waiting key)
        coalescer := (st.coalescer.joinOrStart key i).2
        metrics := st.metrics.recordCoalescingWaiter
        log := st.log ++ [⟨st.now, .joined i (st.sessions i).number key .waiter⟩] }
  | leadUnavailable (i : Nat) (key : Str) : (st.sessions i).phase = .leading key → st.pool.select.1 = none →
      Step cfg st (.select i) { st with
        sessions := atPhase st i (.completing key (unavailable cfg st i))
        pool := st.pool.select.2 }
  | leadFetch (i : Nat) (key : Str) (upstream : UpstreamEndpoint) (p : UpstreamProxy) :
      (st.sessions i).phase = .leading key → st.pool.select.1 = some upstream →
      (freshProxy cfg st i upstream (.flight i key)).run cfg.beast = .ok p →
      Step cfg st (.select i) { st with
        sessions := atPhase st i (.proxying st.proxies.length (some key))
        pool := st.pool.select.2
        proxies := st.proxies ++ [p]
        metrics := startedMetrics st.metrics upstream }
  | leadThrow (i : Nat) (key : Str) (upstream : UpstreamEndpoint) (e : Thrown) : (st.sessions i).phase = .leading key →
      st.pool.select.1 = some upstream → (freshProxy cfg st i upstream (.flight i key)).run cfg.beast = .error e →
      Step cfg st (.select i) { st with
        sessions := atPhase st i .failed
        pool := st.pool.select.2
        metrics := startedMetrics st.metrics upstream
        stopped := true }
  | directUnavailable (i : Nat) : (st.sessions i).phase = .selecting → st.pool.select.1 = none →
      Step cfg st (.select i) { st with
        sessions := atPhase st i (.responding (unavailable cfg st i))
        pool := st.pool.select.2 }
  | directFetch (i : Nat) (upstream : UpstreamEndpoint) (p : UpstreamProxy) : (st.sessions i).phase = .selecting →
      st.pool.select.1 = some upstream → (freshProxy cfg st i upstream (.direct i)).run cfg.beast = .ok p →
      Step cfg st (.select i) { st with
        sessions := atPhase st i (.proxying st.proxies.length none)
        pool := st.pool.select.2
        proxies := st.proxies ++ [p]
        metrics := startedMetrics st.metrics upstream }
  | directThrow (i : Nat) (upstream : UpstreamEndpoint) (e : Thrown) : (st.sessions i).phase = .selecting →
      st.pool.select.1 = some upstream → (freshProxy cfg st i upstream (.direct i)).run cfg.beast = .error e →
      Step cfg st (.select i) { st with
        sessions := atPhase st i .failed
        pool := st.pool.select.2
        metrics := startedMetrics st.metrics upstream
        stopped := true }
  | store (i : Nat) (key : Str) (reply : Reply) : (st.sessions i).phase = .storing key reply →
      Step cfg st (.put i) { st with
        sessions := atPhase st i (.completing key reply)
        cache := st.cache.put key reply st.now
        log := st.log ++ [⟨st.now, .stored key reply.origin⟩] }
  | release (i : Nat) (key : Str) (reply : Reply) : (st.sessions i).phase = .completing key reply →
      Step cfg st (.complete i) { st with
        sessions := atPhase st i (.responding (forRequest cfg (st.sessions i).request reply))
        coalescer := (takeWaiters cfg st key).2
        posted := st.posted ++ (takeWaiters cfg st key).1.map (fun w => (w, reply))
        log := st.log ++ [⟨st.now, .released key reply.origin
          ((takeWaiters cfg st key).1.map (fun w => (w, (st.sessions w).number)))⟩] }
  | respond (i : Nat) (reply : Reply) : (st.sessions i).phase = .responding reply →
      Step cfg st (.respond i) { st with
        sessions := atPhase st i (.writing (reply.message.needEof cfg.beast))
        metrics := (st.metrics.recordResponseStatus reply.message.result).observeDuration
          (st.now - (st.sessions i).requestStarted)
        log := st.log ++ [⟨st.now, .wrote i (st.sessions i).number reply⟩] }
  | writtenNext (i : Nat) : st.stopped = false → (st.sessions i).phase = .writing false →
      Step cfg st (.written i true) { st with sessions := readingAgain st i }
  | writtenLast (i : Nat) (closeAfterWrite ok : Bool) : st.stopped = false →
      (st.sessions i).phase = .writing closeAfterWrite → (ok && !closeAfterWrite) = false →
      Step cfg st (.written i ok) { st with sessions := atPhase st i .closed }
  | callback (pre post : List (Nat × Reply)) (w : Nat) (reply : Reply) : st.stopped = false →
      st.posted = pre ++ (w, reply) :: post →
      Step cfg st (.callback pre.length) { st with
        sessions := atPhase st w (.responding (forRequest cfg (st.sessions w).request reply))
        posted := pre ++ post }
  | proxyStep (id : Nat) (p q : UpstreamProxy) (event : ProxyEvent) : st.stopped = false → st.proxies[id]? = some p →
      event.op ∈ p.outstanding →
      (withoutOp p event).handle cfg.beast cfg.timeouts st.now event = .ok (q, none) →
      Step cfg st (.proxy id event) { st with proxies := st.proxies.set id q }
  | proxyFlight (id : Nat) (p q : UpstreamProxy) (event : ProxyEvent) (i : Nat) (key : Str) (response : HttpResponse) :
      st.stopped = false → st.proxies[id]? = some p → event.op ∈ p.outstanding →
      (withoutOp p event).handle cfg.beast cfg.timeouts st.now event = .ok (q, some (.flight i key, response)) →
      Step cfg st (.proxy id event) { st with
        sessions := atPhase st i (flightPhase key ⟨response, .proxy id⟩ true)
        proxies := st.proxies.set id q
        metrics := st.metrics.proxyCompleted
        log := st.log ++ [⟨st.now, .completed id⟩] }
  | proxyDirect (id : Nat) (p q : UpstreamProxy) (event : ProxyEvent) (i : Nat) (response : HttpResponse) :
      st.stopped = false → st.proxies[id]? = some p → event.op ∈ p.outstanding →
      (withoutOp p event).handle cfg.beast cfg.timeouts st.now event = .ok (q, some (.direct i, response)) →
      Step cfg st (.proxy id event) { st with
        sessions := atPhase st i (.responding (forRequest cfg (st.sessions i).request ⟨response, .proxy id⟩))
        proxies := st.proxies.set id q
        metrics := st.metrics.proxyCompleted
        log := st.log ++ [⟨st.now, .completed id⟩] }
  | proxyThrow (id : Nat) (p : UpstreamProxy) (event : ProxyEvent) (e : Thrown) : st.stopped = false →
      st.proxies[id]? = some p → event.op ∈ p.outstanding →
      (withoutOp p event).handle cfg.beast cfg.timeouts st.now event = .error e →
      Step cfg st (.proxy id event) { st with proxies := st.proxies.set id (withoutOp p event), stopped := true }
  | health (index : Nat) (healthy changed : Bool) (pool : UpstreamPool) : st.stopped = false →
      st.pool.setHealthy index healthy = some (changed, pool) →
      Step cfg st (.health index healthy) { st with
        pool := pool
        metrics := if changed then st.metrics.recordHealthTransition else st.metrics }

/-! ## The list is complete -/

variable {cfg : Config} {st st' : State}

theorem localResponse_ok (m : MetricsRegistry) (pool : UpstreamPool) (request : HttpRequest) :
    ∃ r, localResponse cfg m pool request = .ok r ∧ (r.result = 200 ∨ r.result = 404 ∨ r.result = 405) := by
  unfold localResponse
  split
  · exact handleRequest_ok cfg.beast request
  · dsimp only
    rw [HttpResponse.preparePayload, if_neg (fun h => absurd (show bodiless 200 = true from h.1) (by decide))]
    exact ⟨_, rfl, .inl rfl⟩

theorem step_read (i : Nat) (outcome : Except ReadError HttpRequest) (h : step cfg st (.read i outcome) = some st') :
    Step cfg st (.read i outcome) st' := by
  simp only [step] at h
  split at h
  · rename_i hstop hphase
    cases h
    match outcome with
    | .error e => exact .readError i e hstop hphase
    | .ok request =>
      by_cases hl : isLocalRequest request = true
      · obtain ⟨r, hr, -⟩ := @localResponse_ok cfg (localMetrics st.metrics.recordRequest request) st.pool request
        have := @Step.readLocal cfg st i request r hstop hphase hl hr
        simpa [onRead, State.setSession, State.record, State.setPhase, hl, hr, received, receivedLog] using this
      · have hl' : isLocalRequest request = false := by simpa using hl
        by_cases hc : cacheableRequest request = true
        · have := @Step.readCacheable cfg st i request hstop hphase hl' hc
          simpa [onRead, State.setSession, State.record, State.setPhase, hl', hc, received, receivedLog] using this
        · have hc' : cacheableRequest request = false := by simpa using hc
          have := @Step.readOther cfg st i request hstop hphase hl' hc'
          simpa [onRead, State.setSession, State.record, State.setPhase, hl', hc', received, receivedLog] using this
  · cases h

theorem step_get (i : Nat) (h : step cfg st (.get i) = some st') : Step cfg st (.get i) st' := by
  simp only [step] at h
  split at h
  · rename_i key hphase
    cases h
    unfold onLookup
    cases hg : (st.cache.get key st.now).1 with
    | some cached => simp only [hg]; exact Step.hit i key cached hphase hg
    | none =>
      cases hc : cfg.hasCoalescer with
      | true => simp only [hg, if_true]; exact Step.miss i key hphase hg hc
      | false =>
        simp only [hg, Bool.false_eq_true, if_false, makeServiceUnavailableResponse_ok]
        exact Step.missAlone i key hphase hg hc
  · cases h

theorem step_join (i : Nat) (h : step cfg st (.join i) = some st') : Step cfg st (.join i) st' := by
  simp only [step] at h
  split at h
  · rename_i key hphase
    cases h
    unfold onJoin
    cases hw : st.coalescer.waiters key with
    | none =>
      have hr := (st.coalescer.joinOrStart_none key i hw).1
      simp only [hr]
      exact Step.lead i key hphase hw
    | some ws =>
      have hr := (st.coalescer.joinOrStart_some key i hw).1
      simp only [hr]
      exact Step.wait i key ws hphase hw
  · cases h

theorem step_select (i : Nat) (h : step cfg st (.select i) = some st') : Step cfg st (.select i) st' := by
  simp only [step] at h
  split at h
  · rename_i key hphase
    cases h
    unfold onSelectLeader
    cases hs : st.pool.select.1 with
    | none =>
      simp only [hs, makeServiceUnavailableResponse_ok, flightPhase, Bool.false_and, Bool.false_eq_true, if_false]
      exact Step.leadUnavailable i key hphase hs
    | some u =>
      cases hr : (freshProxy cfg st i u (.flight i key)).run cfg.beast with
      | ok p =>
        have := Step.leadFetch i key u p hphase hs hr
        unfold freshProxy at hr
        simp only [hs, startProxy, hr]
        exact this
      | error e =>
        have := Step.leadThrow i key u e hphase hs hr
        unfold freshProxy at hr
        simp only [hs, startProxy, hr]
        exact this
  · rename_i hphase
    cases h
    unfold onSelectDirect
    cases hs : st.pool.select.1 with
    | none =>
      simp only [hs, makeServiceUnavailableResponse_ok]
      exact Step.directUnavailable i hphase hs
    | some u =>
      cases hr : (freshProxy cfg st i u (.direct i)).run cfg.beast with
      | ok p =>
        have := Step.directFetch i u p hphase hs hr
        unfold freshProxy at hr
        simp only [hs, startProxy, hr]
        exact this
      | error e =>
        have := Step.directThrow i u e hphase hs hr
        unfold freshProxy at hr
        simp only [hs, startProxy, hr]
        exact this
  · cases h

theorem step_proxy (id : Nat) (event : ProxyEvent) (h : step cfg st (.proxy id event) = some st') :
    Step cfg st (.proxy id event) st' := by
  simp only [step] at h
  split at h
  · rename_i p hstop hp
    split at h
    · rename_i hop
      cases h
      unfold onProxy
      cases hh : (withoutOp p event).handle cfg.beast cfg.timeouts st.now event with
      | error e =>
        have := Step.proxyThrow id p event e hstop hp hop hh
        unfold withoutOp at hh this
        simp only [hh]
        exact this
      | ok res =>
        match res with
        | (q, none) =>
          have := Step.proxyStep id p q event hstop hp hop hh
          unfold withoutOp at hh
          simp only [hh]
          exact this
        | (q, some (.flight i key, r)) =>
          have := Step.proxyFlight id p q event i key r hstop hp hop hh
          unfold withoutOp at hh
          simp only [hh]
          exact this
        | (q, some (.direct i, r)) =>
          have := Step.proxyDirect id p q event i r hstop hp hop hh
          unfold withoutOp at hh
          simp only [hh]
          exact this
    · cases h
  · cases h

/-- **Every step of the server is one of the branches.** -/
theorem step_sound (a : Action) (h : step cfg st a = some st') : Step cfg st a st' := by
  cases a with
  | read i outcome => exact step_read i outcome h
  | get i => exact step_get i h
  | join i => exact step_join i h
  | select i => exact step_select i h
  | proxy id event => exact step_proxy id event h
  | tick now =>
    simp only [step] at h
    split at h
    · rename_i hle; cases h; exact .tick now hle
    · cases h
  | accept i =>
    simp only [step] at h
    split at h
    · rename_i hs hp; cases h; exact .accept i hs hp
    · cases h
  | put i =>
    simp only [step] at h
    split at h
    · rename_i key reply hp; cases h; exact .store i key reply hp
    · cases h
  | complete i =>
    simp only [step] at h
    split at h
    · rename_i key reply hp; cases h; exact .release i key reply hp
    · cases h
  | respond i =>
    simp only [step] at h
    split at h
    · rename_i reply hp; cases h; exact .respond i reply hp
    · cases h
  | written i ok =>
    simp only [step] at h
    split at h
    · rename_i c hs hp
      cases h
      unfold onWrite
      cases hk : (ok && !c) with
      | true =>
        simp only [Bool.and_eq_true, Bool.not_eq_true'] at hk
        obtain ⟨rfl, rfl⟩ := hk
        exact .writtenNext i hs hp
      | false => exact .writtenLast i c ok hs hp hk
    · cases h
  | callback index =>
    simp only [step] at h
    split at h
    · rename_i w reply hs hp
      cases h
      obtain ⟨pre, post, hsplit, -, herase, rfl⟩ := Lts.getElem?_split hp
      rw [herase]
      exact .callback pre post w reply hs hsplit
    · cases h
  | health index healthy =>
    simp only [step] at h
    split at h
    · rename_i changed pool hs hp; cases h; exact .health index healthy changed pool hs hp
    · cases h

end Server
end EventEdge
