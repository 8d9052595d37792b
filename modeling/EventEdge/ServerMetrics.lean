import EventEdge.Monitor
import EventEdge.ServerWaiters
/-!
# ServerMetrics — the counters and what they count

Every counter wraps at 64 bits, so what it says is a number of things modulo that.  A counter that is bumped at one
place counts the steps of the run that pass it (`Lts.run_tally`); a difference of two counters is the number of sessions
between the two places (`Lts.Tallied`).  `counted` puts them together for the states between the handlers.
-/
namespace EventEdge
namespace Server

variable {cfg : Config} {st st' : State} {a : Action}

/-! ## One counter at a time -/

/-- A local route counts itself, and leaves every other counter `f`. -/
theorem localMetrics_other {β : Type} (f : MetricsRegistry → β)
    (hf : ∀ m h l, f { m with healthRequests := h, metricsRequests := l } = f m) (m : MetricsRegistry)
    (request : HttpRequest) : f (localMetrics m request) = f m := by
  unfold localMetrics
  split
  · apply hf
  · apply hf

theorem recordResponseStatus_other {β : Type} (f : MetricsRegistry → β)
    (hf : ∀ m b s g, f { m with badGateway := b, serviceUnavailable := s, gatewayTimeout := g } = f m)
    (m : MetricsRegistry) (status : Nat) : f (m.recordResponseStatus status) = f m := by
  unfold MetricsRegistry.recordResponseStatus
  split
  · apply hf
  · split
    · apply hf
    · split
      · apply hf
      · rfl

/-! ## Requests and answers -/

/-- As many requests are counted and not timed as sessions work on one. -/
def RequestsCounted (st : State) : Prop :=
  ∃ n, Lts.Tallied (fun s : Session => !s.phase.settled) st.sessions n ∧
    st.metrics.requests = st.metrics.durationCount + UInt64.ofNat n

theorem RequestsCounted.step (h : RequestsCounted st) (hc : CoreInv cfg st) (hs : Step cfg st a st') :
    RequestsCounted st' := by
  obtain ⟨n, hn, hreq⟩ := h
  have keep : st'.sessions = st.sessions → st'.metrics.requests = st.metrics.requests →
      st'.metrics.durationCount = st.metrics.durationCount → RequestsCounted st' := by
    intro hss hr hd
    exact ⟨n, by rw [hss]; exact hn, by rw [hr, hd]; exact hreq⟩
  have move : ∀ {i : Nat} {s : Session}, st'.sessions = Function.update st.sessions i s →
      s.phase.settled = (st.sessions i).phase.settled → st'.metrics.requests = st.metrics.requests →
      st'.metrics.durationCount = st.metrics.durationCount → RequestsCounted st' := by
    intro i s hu hp hr hd
    exact ⟨n, hn.same hu (by rw [hp]), by rw [hr, hd]; exact hreq⟩
  have read : ∀ {i : Nat} {s : Session}, st'.sessions = Function.update st.sessions i s →
      (st.sessions i).phase = .reading → s.phase.settled = false → st'.metrics.requests = st.metrics.requests + 1 →
      st'.metrics.durationCount = st.metrics.durationCount → RequestsCounted st' := by
    intro i s hu hold hp hr hd
    refine ⟨n + 1, hn.gain hu (by rw [hold]; rfl) (by rw [hp]; rfl), ?_⟩
    rw [hr, hd, hreq, UInt64.add_assoc]
    exact congrArg _ (UInt64.ofNat_add n 1).symm
  cases hs with
  | tick _ _ | proxyStep _ _ _ _ _ _ _ _ | proxyThrow _ _ _ _ _ _ _ _ => exact keep rfl rfl rfl
  | health _ _ changed _ _ _ => cases changed <;> exact keep rfl rfl rfl
  | readLocal i request _ _ hph =>
    refine read (i := i) rfl hph rfl ?_ ?_
    · exact localMetrics_other (fun m => m.requests) (fun _ _ _ => rfl) _ request
    · exact localMetrics_other (fun m => m.durationCount) (fun _ _ _ => rfl) _ request
  | readCacheable i _ _ hph | readOther i _ _ hph => exact read (i := i) rfl hph rfl rfl rfl
  | respond i reply hph =>
    obtain ⟨m, rfl, hm⟩ := hn.lose (i := i) (x := { st.sessions i with phase := .writing (reply.message.needEof cfg.beast) })
      rfl (by rw [hph]; rfl) rfl
    refine ⟨m, hm, ?_⟩
    show (st.metrics.recordResponseStatus _).requests = (st.metrics.recordResponseStatus _).durationCount + 1 + _
    rw [recordResponseStatus_other (fun m => m.requests) (fun _ _ _ _ => rfl),
      recordResponseStatus_other (fun m => m.durationCount) (fun _ _ _ _ => rfl), hreq, UInt64.add_assoc,
      UInt64.add_comm 1]
    exact congrArg _ (UInt64.ofNat_add m 1)
  | accept i _ hph | readError i _ _ hph | hit i _ _ hph | miss i _ hph | missAlone i _ hph | lead i _ hph
  | wait i _ _ hph | leadUnavailable i _ hph | leadFetch i _ _ _ hph | leadThrow i _ _ _ hph | directUnavailable i hph
  | directFetch i _ _ hph | directThrow i _ _ hph | store i _ _ hph | release i _ _ hph | writtenNext i _ hph
  | writtenLast i _ _ _ hph => exact move (i := i) rfl (by rw [hph]; rfl) rfl rfl
  | callback pre post w reply _ hp =>
    obtain ⟨k, hk⟩ := hc.callback_waiting hp
    exact move (i := w) rfl (by rw [hk]; rfl) rfl rfl
  | proxyFlight id p q event i key r _ hp hop hh =>
    refine move (i := i) rfl ?_ rfl rfl
    rw [hc.proxies.flight_phase hp hop hh]
    exact Phase.settled_of_pending (flightPhase_pending key _ true)
  | proxyDirect id p q event i r _ hp hop hh =>
    exact move (i := i) rfl (by rw [hc.proxies.direct_phase hp hop hh]; rfl) rfl rfl

theorem Reachable.requestsCounted (h : Reachable cfg st) : RequestsCounted st :=
  h.invWith (J := CoreInv cfg) (fun _ hr => Reachable.core hr) ⟨0, Lts.tallied_zero (fun _ => rfl), rfl⟩
    (fun _ a _ hc hi _ hs => RequestsCounted.step hi hc (step_sound a hs))

/-! ## Misses, leaders and waiters -/

def Phase.isJoining : Phase → Bool
  | .joining _ => true
  | _ => false

/-- Whoever missed has become a leader or a waiter, or is about to; without a coalescer nobody does. -/
def MissesCounted (cfg : Config) (st : State) : Prop :=
  if cfg.hasCoalescer then
    ∃ n, Lts.Tallied (fun s : Session => s.phase.isJoining) st.sessions n ∧
      st.metrics.cacheMisses = st.metrics.coalescingLeaders + st.metrics.coalescingWaiters + UInt64.ofNat n
  else st.metrics.coalescingLeaders = 0 ∧ st.metrics.coalescingWaiters = 0

theorem MissesCounted.alone (hco : cfg.hasCoalescer = false) :
    MissesCounted cfg st ↔ st.metrics.coalescingLeaders = 0 ∧ st.metrics.coalescingWaiters = 0 := by
  rw [MissesCounted, hco]; exact Iff.rfl

theorem MissesCounted.together (hco : cfg.hasCoalescer = true) : MissesCounted cfg st ↔
    ∃ n, Lts.Tallied (fun s : Session => s.phase.isJoining) st.sessions n ∧
      st.metrics.cacheMisses = st.metrics.coalescingLeaders + st.metrics.coalescingWaiters + UInt64.ofNat n := by
  rw [MissesCounted, hco]; exact Iff.rfl

theorem flightPhase_isJoining (key : Str) (reply : Reply) (c : Bool) : (flightPhase key reply c).isJoining = false := by
  unfold flightPhase
  split <;> rfl

theorem MissesCounted.step (h : MissesCounted cfg st) (hc : CoreInv cfg st) (hs : Step cfg st a st') :
    MissesCounted cfg st' := by
  have keep : (∀ n, Lts.Tallied (fun s : Session => s.phase.isJoining) st.sessions n →
        Lts.Tallied (fun s : Session => s.phase.isJoining) st'.sessions n) →
      st'.metrics.cacheMisses = st.metrics.cacheMisses → st'.metrics.coalescingLeaders = st.metrics.coalescingLeaders →
      st'.metrics.coalescingWaiters = st.metrics.coalescingWaiters → MissesCounted cfg st' := by
    intro hn hm hl hw
    cases hco : cfg.hasCoalescer with
    | false =>
      rw [MissesCounted.alone hco] at h ⊢
      rw [hl, hw]; exact h
    | true =>
      rw [MissesCounted.together hco] at h ⊢
      obtain ⟨n, hn', hmiss⟩ := h
      exact ⟨n, hn n hn', by rw [hm, hl, hw]; exact hmiss⟩
  have move : ∀ {i : Nat} {s : Session}, st'.sessions = Function.update st.sessions i s → s.phase.isJoining = false →
      (st.sessions i).phase.isJoining = false → st'.metrics.cacheMisses = st.metrics.cacheMisses →
      st'.metrics.coalescingLeaders = st.metrics.coalescingLeaders →
      st'.metrics.coalescingWaiters = st.metrics.coalescingWaiters → MissesCounted cfg st' := by
    intro i s hu hnew hold
    exact keep (fun n hn => hn.same hu (by rw [hnew, hold]))
  -- only where the coalescer is
  have alive : ∀ {i : Nat} {key : Str}, (st.sessions i).phase = .joining key → cfg.hasCoalescer = true := by
    intro i key hph
    have hi := hc.path i
    rw [PathOk, hph] at hi
    exact hi.2.2.2
  cases hs with
  | tick _ _ | proxyStep _ _ _ _ _ _ _ _ | proxyThrow _ _ _ _ _ _ _ _ => exact keep (fun _ hn => hn) rfl rfl rfl
  | health _ _ changed _ _ _ => cases changed <;> exact keep (fun _ hn => hn) rfl rfl rfl
  | readLocal i request _ _ hph =>
    refine move (i := i) rfl rfl (by rw [hph]; rfl) ?_ ?_ ?_
    · exact localMetrics_other (fun m => m.cacheMisses) (fun _ _ _ => rfl) _ request
    · exact localMetrics_other (fun m => m.coalescingLeaders) (fun _ _ _ => rfl) _ request
    · exact localMetrics_other (fun m => m.coalescingWaiters) (fun _ _ _ => rfl) _ request
  | respond i reply hph =>
    refine move (i := i) rfl rfl (by rw [hph]; rfl) ?_ ?_ ?_
    · exact recordResponseStatus_other (fun m => m.cacheMisses) (fun _ _ _ _ => rfl) _ _
    · exact recordResponseStatus_other (fun m => m.coalescingLeaders) (fun _ _ _ _ => rfl) _ _
    · exact recordResponseStatus_other (fun m => m.coalescingWaiters) (fun _ _ _ _ => rfl) _ _
  | miss i key hph _ hco =>
    rw [MissesCounted.together hco] at h ⊢
    obtain ⟨n, hn, hmiss⟩ := h
    refine ⟨n + 1, hn.gain (i := i) rfl (by rw [hph]; rfl) rfl, ?_⟩
    show st.metrics.cacheMisses + 1 = _
    rw [hmiss, UInt64.add_assoc]
    exact congrArg _ (UInt64.ofNat_add n 1).symm
  | missAlone i key hph _ hco =>
    rw [MissesCounted.alone hco] at h ⊢
    exact h
  | lead i key hph _ =>
    have hco := alive hph
    rw [MissesCounted.together hco] at h ⊢
    obtain ⟨n, hn, hmiss⟩ := h
    obtain ⟨m, rfl, hm⟩ := hn.lose (i := i) (x := { st.sessions i with phase := .leading key }) rfl (by rw [hph]; rfl) rfl
    refine ⟨m, hm, ?_⟩
    show st.metrics.cacheMisses = st.metrics.coalescingLeaders + 1 + st.metrics.coalescingWaiters + UInt64.ofNat m
    rw [hmiss, UInt64.ofNat_add]
    grind
  | wait i key ws hph _ =>
    have hco := alive hph
    rw [MissesCounted.together hco] at h ⊢
    obtain ⟨n, hn, hmiss⟩ := h
    obtain ⟨m, rfl, hm⟩ := hn.lose (i := i) (x := { st.sessions i with phase := .waiting key }) rfl (by rw [hph]; rfl) rfl
    refine ⟨m, hm, ?_⟩
    show st.metrics.cacheMisses = st.metrics.coalescingLeaders + (st.metrics.coalescingWaiters + 1) + UInt64.ofNat m
    rw [hmiss, UInt64.ofNat_add]
    grind
  | accept i _ hph | readError i _ _ hph | readCacheable i _ _ hph | readOther i _ _ hph | hit i _ _ hph
  | leadUnavailable i _ hph | leadFetch i _ _ _ hph | leadThrow i _ _ _ hph | directUnavailable i hph
  | directFetch i _ _ hph | directThrow i _ _ hph | store i _ _ hph | release i _ _ hph | writtenNext i _ hph
  | writtenLast i _ _ _ hph => exact move (i := i) rfl rfl (by rw [hph]; rfl) rfl rfl rfl
  | callback pre post w reply _ hp =>
    obtain ⟨k, hk⟩ := hc.callback_waiting hp
    exact move (i := w) rfl rfl (by rw [hk]; rfl) rfl rfl rfl
  | proxyFlight id p q event i key r _ hp hop hh =>
    exact move (i := i) rfl (flightPhase_isJoining key _ true) (by rw [hc.proxies.flight_phase hp hop hh]; rfl) rfl rfl rfl
  | proxyDirect id p q event i r _ hp hop hh =>
    exact move (i := i) rfl rfl (by rw [hc.proxies.direct_phase hp hop hh]; rfl) rfl rfl rfl

theorem missesCounted_init : MissesCounted cfg (init cfg) := by
  unfold MissesCounted
  split
  · exact ⟨0, Lts.tallied_zero (fun _ => rfl), rfl⟩
  · exact ⟨rfl, rfl⟩

theorem Reachable.missesCounted (h : Reachable cfg st) : MissesCounted cfg st :=
  h.invWith (J := CoreInv cfg) (fun _ hr => Reachable.core hr) missesCounted_init
    (fun _ a _ hc hi _ hs => MissesCounted.step hi hc (step_sound a hs))

/-! ## Selections -/

/-- The successful calls of `select` a step makes. -/
def selects (x : State × Action × State) : Nat :=
  match x.2.1 with
  | .select _ => if x.1.pool.select.1.isSome then 1 else 0
  | _ => 0

/-- The selections of all upstreams. -/
def selectionSum : List UpstreamMetrics → UInt64
  | [] => 0
  | u :: us => u.selections + selectionSum us

theorem sum_bumpFirst {label : Str} : ∀ {us : List UpstreamMetrics}, label ∈ us.map UpstreamMetrics.label →
    selectionSum (MetricsRegistry.bumpFirst label us) = selectionSum us + 1
  | u :: us, h => by
    rw [MetricsRegistry.bumpFirst]
    split
    · simp only [selectionSum]
      grind
    · rename_i hne
      have hm : label ∈ us.map UpstreamMetrics.label :=
        (List.mem_cons.1 h).resolve_left (fun e => hne e.symm)
      simp only [selectionSum, sum_bumpFirst hm]
      grind

theorem label_bumpFirst (label : Str) : ∀ us : List UpstreamMetrics,
    (MetricsRegistry.bumpFirst label us).map UpstreamMetrics.label = us.map UpstreamMetrics.label
  | [] => rfl
  | u :: us => by
    rw [MetricsRegistry.bumpFirst]
    split
    · rfl
    · rw [List.map_cons, List.map_cons, label_bumpFirst label us]

/-- **A session selects in one place**: the cursor moves, and a selection is counted three times. -/
theorem Step.selected {i : Nat} (hs : Step cfg st (.select i) st') : st'.pool = st.pool.select.2 ∧
    (st.pool.select.1 = none ∧ st'.metrics = st.metrics ∨
      ∃ u, st.pool.select.1 = some u ∧ st'.metrics = startedMetrics st.metrics u) := by
  cases hs with
  | leadUnavailable _ _ _ hsel | directUnavailable _ _ hsel => exact ⟨rfl, .inl ⟨hsel, rfl⟩⟩
  | leadFetch _ _ u _ _ hsel _ | leadThrow _ _ u _ _ hsel _ | directFetch _ u _ _ hsel _ | directThrow _ u _ _ hsel _ =>
    exact ⟨rfl, .inr ⟨u, hsel, rfl⟩⟩

/-- No other step touches the cursor or counts a selection. -/
theorem Step.unselected (hs : Step cfg st a st') (hns : ∀ i, a ≠ .select i) :
    st'.pool.nextIndex = st.pool.nextIndex ∧
      st'.pool.backends.map Backend.endpoint = st.pool.backends.map Backend.endpoint ∧
      st'.metrics.upstreams = st.metrics.upstreams ∧ st'.metrics.proxyRequests = st.metrics.proxyRequests := by
  cases hs with
  | leadUnavailable i | directUnavailable i | leadFetch i | leadThrow i | directFetch i | directThrow i =>
    exact absurd rfl (hns i)
  | health _ _ changed _ _ hset =>
    obtain ⟨he, hn⟩ := UpstreamPool.setHealthy_frame hset
    cases changed <;> exact ⟨hn, he, rfl, rfl⟩
  | readLocal _ request =>
    refine ⟨rfl, rfl, ?_, ?_⟩
    · exact localMetrics_other (fun m => m.upstreams) (fun _ _ _ => rfl) _ request
    · exact localMetrics_other (fun m => m.proxyRequests) (fun _ _ _ => rfl) _ request
  | respond _ reply =>
    refine ⟨rfl, rfl, ?_, ?_⟩
    · exact recordResponseStatus_other (fun m => m.upstreams) (fun _ _ _ _ => rfl) _ _
    · exact recordResponseStatus_other (fun m => m.proxyRequests) (fun _ _ _ _ => rfl) _ _
  | _ => exact ⟨rfl, rfl, rfl, rfl⟩

/-- Every label `select` can bring is one of the registry's, so no selection is lost. -/
structure SelectionInv (cfg : Config) (st : State) : Prop where
  labels : st.metrics.upstreams.map UpstreamMetrics.label = cfg.pool.backends.map (fun b => endpointLabel b.endpoint)
  endpoints : st.pool.backends.map Backend.endpoint = cfg.pool.backends.map Backend.endpoint
  sum : selectionSum st.metrics.upstreams = st.metrics.proxyRequests

theorem selectionInv_init : SelectionInv cfg (init cfg) := by
  have hzero : ∀ bs : List Backend,
      selectionSum (bs.map (fun b => (⟨endpointLabel b.endpoint, 0⟩ : UpstreamMetrics))) = 0 := by
    intro bs
    induction bs with
    | nil => rfl
    | cons b bs ih => rw [List.map_cons, selectionSum, ih]; rfl
  exact ⟨by simp [init, MetricsRegistry.make, Function.comp_def], rfl, hzero cfg.pool.backends⟩

theorem SelectionInv.step (h : SelectionInv cfg st) (hs : Step cfg st a st') : SelectionInv cfg st' := by
  by_cases hsel : ∃ i, a = .select i
  · obtain ⟨i, rfl⟩ := hsel
    obtain ⟨hpool, ⟨-, hm⟩ | ⟨u, hu, hm⟩⟩ := hs.selected
    · refine ⟨by rw [hm]; exact h.labels, ?_, by rw [hm]; exact h.sum⟩
      rw [hpool, UpstreamPool.select_backends]; exact h.endpoints
    · have hlabel : selectionLabel u ∈ st.metrics.upstreams.map UpstreamMetrics.label := by
        have hmem := UpstreamPool.select_mem hu
        rw [h.endpoints] at hmem
        obtain ⟨b, hb, rfl⟩ := List.mem_map.1 hmem
        rw [h.labels]
        exact List.mem_map.2 ⟨b, hb, rfl⟩
      refine ⟨?_, ?_, ?_⟩
      · rw [hm]; exact (label_bumpFirst _ _).trans h.labels
      · rw [hpool, UpstreamPool.select_backends]; exact h.endpoints
      · rw [hm]
        exact (sum_bumpFirst hlabel).trans (congrArg (· + 1) h.sum)
  · obtain ⟨-, he, hu, hp⟩ := hs.unselected (fun i hi => hsel ⟨i, hi⟩)
    exact ⟨by rw [hu]; exact h.labels, he.trans h.endpoints, by rw [hu, hp]; exact h.sum⟩

theorem Reachable.selections (h : Reachable cfg st) : SelectionInv cfg st :=
  h.inv selectionInv_init (fun _ a _ hi _ hs => hi.step (step_sound a hs))

theorem Step.proxyRequests (hs : Step cfg st a st') :
    st'.metrics.proxyRequests = st.metrics.proxyRequests + UInt64.ofNat (selects (st, a, st')) := by
  by_cases hsel : ∃ i, a = .select i
  · obtain ⟨i, rfl⟩ := hsel
    obtain ⟨-, ⟨hnone, hm⟩ | ⟨u, hu, hm⟩⟩ := hs.selected
    · simp [selects, hnone, hm]
    · simp only [selects, hu, hm]; rfl
  · obtain ⟨-, -, -, hp⟩ := hs.unselected (fun i hi => hsel ⟨i, hi⟩)
    have hzero : selects (st, a, st') = 0 := by
      unfold selects
      split
      · rename_i i hi; exact absurd ⟨i, hi⟩ hsel
      · rfl
    rw [hp, hzero]
    exact (UInt64.add_zero _).symm

/-! ## Runs in flight -/

/-- The runs that have not completed. -/
def inFlight (st : State) : Nat := st.proxies.countP (fun p => !p.completed)

/-- **What a step does to the runs in flight**, and to their counter. -/
theorem ProxyInv.inFlight_step (h : ProxyInv st) (hs : Step cfg st a st') :
    (st'.stopped = true) ∨
    (inFlight st' = inFlight st ∧ st'.metrics.proxyInFlight = st.metrics.proxyInFlight) ∨
    (inFlight st' = inFlight st + 1 ∧ st'.metrics.proxyInFlight = st.metrics.proxyInFlight + 1) ∨
    (inFlight st = inFlight st' + 1 ∧ st'.metrics.proxyInFlight = st.metrics.proxyInFlight - 1) := by
  have started : ∀ {p : UpstreamProxy} {u : UpstreamEndpoint} {i : Nat} {handler : CompletionHandler},
      (freshProxy cfg st i u handler).run cfg.beast = .ok p →
      (st.proxies ++ [p]).countP (fun p => !p.completed) = inFlight st + 1 := by
    intro p u i handler hrun
    have hc : p.completed = false := by rw [UpstreamProxy.run_ok cfg.beast _ p hrun]; rfl
    rw [List.countP_append, List.countP_singleton, hc]; rfl
  have replaced : ∀ {id : Nat} {p q : UpstreamProxy}, st.proxies[id]? = some p → p.completed = false →
      (st.proxies.set id q).countP (fun p => !p.completed) + 1 = inFlight st + if q.completed then 0 else 1 := by
    intro id p q hp hc
    obtain ⟨pre, post, hl, hset, -⟩ := Lts.getElem?_split hp
    rw [hset, inFlight, hl, List.countP_append, List.countP_append, List.countP_cons, List.countP_cons, hc]
    cases q.completed
    · simp
    · simp; omega
  cases hs with
  | leadThrow | directThrow | proxyThrow => exact .inl rfl
  | leadFetch i key u p _ _ hrun | directFetch i u p _ _ hrun => exact .inr (.inr (.inl ⟨started hrun, rfl⟩))
  | proxyStep id p q event _ hp hop hh =>
    obtain ⟨op, d, rfl⟩ := h.stepped hp hop hh
    have hc := (h.event hp hop).1
    have hcount := replaced (q := (withoutOp p event).startOp op d) hp hc
    rw [show ((withoutOp p event).startOp op d).completed = false from hc] at hcount
    exact .inr (.inl ⟨Nat.succ.inj hcount, rfl⟩)
  | proxyFlight id p q event i key r _ hp hop hh | proxyDirect id p q event i r _ hp hop hh =>
    obtain ⟨-, -, hq, -, -⟩ := h.finished hp hop hh
    have hcount := replaced (q := q) hp (h.event hp hop).1
    rw [hq] at hcount
    exact .inr (.inr (.inr ⟨by rw [hq]; exact hcount.symm, rfl⟩))
  | health _ _ changed _ _ _ => cases changed <;> exact .inr (.inl ⟨rfl, rfl⟩)
  | readLocal _ request =>
    exact .inr (.inl ⟨rfl, localMetrics_other (fun m => m.proxyInFlight) (fun _ _ _ => rfl) _ request⟩)
  | respond _ reply =>
    exact .inr (.inl ⟨rfl, recordResponseStatus_other (fun m => m.proxyInFlight) (fun _ _ _ _ => rfl) _ _⟩)
  | _ => exact .inr (.inl ⟨rfl, rfl⟩)

theorem Step.stopped_mono (hs : Step cfg st a st') (h : st.stopped = true) : st'.stopped = true := by
  cases hs with
  | leadThrow | directThrow | proxyThrow => rfl
  | _ => exact h

/-- **The counter is the number of runs in flight**, as long as no handler throws. -/
theorem Reachable.inFlight (h : Reachable cfg st) :
    st.stopped = true ∨ st.metrics.proxyInFlight = UInt64.ofNat (inFlight st) := by
  refine h.invWith (I := fun st => st.stopped = true ∨ st.metrics.proxyInFlight = UInt64.ofNat (Server.inFlight st))
    (J := ProxyInv) (fun _ hr => (Reachable.core hr).proxies) (.inr rfl) ?_
  intro st a st' hp hi _ hs
  have hs := step_sound a hs
  rcases hi with ht | hi
  · exact .inl (hs.stopped_mono ht)
  · rcases hp.inFlight_step hs with ht | ⟨hn, hm⟩ | ⟨hn, hm⟩ | ⟨hn, hm⟩
    · exact .inl ht
    · exact .inr (by rw [hm, hn]; exact hi)
    · exact .inr (by rw [hm, hn, hi, UInt64.ofNat_add]; rfl)
    · refine .inr ?_
      rw [hm, hi, hn, UInt64.ofNat_add]
      grind

/-- The counter goes down only when a run in flight completes. -/
theorem ProxyInv.inFlight_pos (h : ProxyInv st) (hs : Step cfg st a st') (ht : st'.stopped = false)
    (hdown : st'.metrics.proxyInFlight = st.metrics.proxyInFlight - 1) : 0 < inFlight st := by
  rcases h.inFlight_step hs with hstop | ⟨-, hm⟩ | ⟨-, hm⟩ | ⟨hn, -⟩
  · rw [ht] at hstop; cases hstop
  · rw [hm] at hdown; grind
  · rw [hm] at hdown; grind
  · omega

/-! ## Health transitions -/

/-- The flags a step changes. -/
def flagChanges (x : State × Action × State) : Nat := x.1.pool.changes x.2.2.pool

theorem Step.healthTransitions (hs : Step cfg st a st') :
    st'.metrics.healthTransitions = st.metrics.healthTransitions + UInt64.ofNat (flagChanges (st, a, st')) := by
  have keep : (∀ i, st'.pool.healthyAt i = st.pool.healthyAt i) →
      st'.metrics.healthTransitions = st.metrics.healthTransitions →
      st'.metrics.healthTransitions = st.metrics.healthTransitions + UInt64.ofNat (flagChanges (st, a, st')) := by
    intro hp hm
    rw [hm, flagChanges, UpstreamPool.changes_zero hp]
    exact (UInt64.add_zero _).symm
  cases hs with
  | health _ _ changed _ _ hset =>
    rw [flagChanges, UpstreamPool.setHealthy_changes hset]
    cases changed with
    | false => exact (UInt64.add_zero _).symm
    | true => rfl
  | leadUnavailable | directUnavailable | leadFetch | leadThrow | directFetch | directThrow =>
    exact keep (fun i => UpstreamPool.select_healthyAt _ i) rfl
  | readLocal _ request =>
    exact keep (fun _ => rfl) (localMetrics_other (fun m => m.healthTransitions) (fun _ _ _ => rfl) _ request)
  | respond _ reply =>
    exact keep (fun _ => rfl) (recordResponseStatus_other (fun m => m.healthTransitions) (fun _ _ _ _ => rfl) _ _)
  | _ => exact keep (fun _ => rfl) rfl

/-- **The monitor's part in the shared objects is the server's `health` step.** -/
theorem health_of_monitor {mon mon' : Monitor.State} {b : Monitor.Action} (hs : Monitor.Step mon b mon')
    (hb : b ≠ .select) (ht : st.stopped = false) (hp : mon.pool = st.pool) (hm : mon.metrics = some st.metrics) :
    (mon'.pool = st.pool ∧ mon'.metrics = some st.metrics) ∨
    ∃ index healthy st', step cfg st (.health index healthy) = some st' ∧ mon'.pool = st'.pool ∧
      mon'.metrics = some st'.metrics := by
  rcases hs.shared with ⟨hpool, hmetrics⟩ | hsel | ⟨index, healthy, changed, hset, hmetrics⟩
  · exact .inl ⟨hpool.trans hp, hmetrics.trans hm⟩
  · exact absurd hsel hb
  · rw [hp] at hset
    refine .inr ⟨index, healthy, { st with
      pool := mon'.pool
      metrics := if changed then st.metrics.recordHealthTransition else st.metrics }, ?_, rfl, ?_⟩
    · simp only [step, ht, hset]
    · rw [hmetrics, hm]
      cases changed <;> rfl

/-! ## All of them -/

/-- **A counter that every step bumps by `g` counts `g` along the run**, modulo 64 bits. -/
theorem counter_run {f : State → UInt64} {g : State × Action × State → Nat}
    (hf : ∀ {s a s'}, Step cfg s a s' → f s' = f s + UInt64.ofNat (g (s, a, s'))) (h0 : f (init cfg) = 0)
    {as : List Action} (h : Lts.run (step cfg) (init cfg) as = some st) :
    f st = UInt64.ofNat (Lts.tally g (Lts.trace (step cfg) (init cfg) as)) := by
  refine (Lts.run_tally (R := fun st n => f st = UInt64.ofNat n) ?_ as h h0).trans
    (congrArg UInt64.ofNat (Nat.zero_add _))
  intro s a s' n hs hn
  rw [hf (step_sound a hs), hn, UInt64.ofNat_add]

/-- The session waits for a flight or a proxy. -/
def Phase.awaiting : Phase → Bool
  | .waiting _ | .proxying _ _ => true
  | _ => false

/-- What the counters say after the actions `as`; the first two between the handlers only. -/
structure Counted (cfg : Config) (as : List Action) (st : State) : Prop where
  requests : (∀ i, (st.sessions i).phase.between = true) →
    ∃ n, Lts.Tallied (fun s : Session => s.phase.awaiting) st.sessions n ∧
      st.metrics.requests - st.metrics.durationCount = UInt64.ofNat n
  misses : (∀ i, (st.sessions i).phase.between = true) →
    if cfg.hasCoalescer then st.metrics.cacheMisses = st.metrics.coalescingLeaders + st.metrics.coalescingWaiters
    else st.metrics.coalescingLeaders = 0 ∧ st.metrics.coalescingWaiters = 0
  selections : st.metrics.proxyRequests = UInt64.ofNat (Lts.tally selects (Lts.trace (step cfg) (init cfg) as))
  upstreams : selectionSum st.metrics.upstreams = st.metrics.proxyRequests
  rotation : ∀ x ∈ Lts.trace (step cfg) (init cfg) as, x.2.2.pool.nextIndex ≠ x.1.pool.nextIndex →
    selects x = 1 ∧ ∃ i, x.2.1 = .select i ∧
      ((∃ key, (x.1.sessions i).phase = .leading key) ∨ cacheableRequest (x.1.sessions i).request = false)
  proxies : st.metrics.proxyInFlight = UInt64.ofNat (inFlight st)
  wraps : ∀ x ∈ Lts.trace (step cfg) (init cfg) as,
    x.2.2.metrics.proxyInFlight = x.1.metrics.proxyInFlight - 1 →
      0 < inFlight x.1 ∧ x.1.metrics.proxyInFlight = UInt64.ofNat (inFlight x.1)
  transitions : st.metrics.healthTransitions = UInt64.ofNat (Lts.tally flagChanges (Lts.trace (step cfg) (init cfg) as))

theorem RequestsCounted.between (h : RequestsCounted st) (hb : ∀ i, (st.sessions i).phase.between = true) :
    ∃ n, Lts.Tallied (fun s : Session => s.phase.awaiting) st.sessions n ∧
      st.metrics.requests - st.metrics.durationCount = UInt64.ofNat n := by
  obtain ⟨n, hn, hreq⟩ := h
  refine ⟨n, hn.congr (fun i => ?_), ?_⟩
  · have hi := hb i
    cases hph : (st.sessions i).phase <;> rw [hph] at hi <;> first | rfl | cases hi
  · rw [hreq]; grind

theorem MissesCounted.between (h : MissesCounted cfg st) (hb : ∀ i, (st.sessions i).phase.between = true) :
    if cfg.hasCoalescer then st.metrics.cacheMisses = st.metrics.coalescingLeaders + st.metrics.coalescingWaiters
    else st.metrics.coalescingLeaders = 0 ∧ st.metrics.coalescingWaiters = 0 := by
  cases hco : cfg.hasCoalescer with
  | false => exact (MissesCounted.alone hco).1 h
  | true =>
    obtain ⟨n, hn, hmiss⟩ := (MissesCounted.together hco).1 h
    have hzero : Lts.Tallied (fun s : Session => s.phase.isJoining) st.sessions 0 := by
      refine Lts.tallied_zero (fun i => ?_)
      have hi := hb i
      cases hph : (st.sessions i).phase <;> rw [hph] at hi <;> first | rfl | cases hi
    rw [hn.unique hzero] at hmiss
    exact hmiss.trans (UInt64.add_zero _)

/-- The cursor moves when a leader, or a request that is not shared, finds an upstream. -/
theorem CoreInv.rotation (h : CoreInv cfg st) (hs : Step cfg st a st') (hne : st'.pool.nextIndex ≠ st.pool.nextIndex) :
    selects (st, a, st') = 1 ∧ ∃ i, a = .select i ∧
      ((∃ key, (st.sessions i).phase = .leading key) ∨ cacheableRequest (st.sessions i).request = false) := by
  by_cases hsel : ∃ i, a = .select i
  · obtain ⟨i, rfl⟩ := hsel
    obtain ⟨hpool, ⟨hnone, -⟩ | ⟨u, hu, -⟩⟩ := hs.selected
    · rw [hpool, UpstreamPool.select_snd_of_none hnone] at hne
      exact absurd rfl hne
    · refine ⟨by simp [selects, hu], i, rfl, ?_⟩
      have direct : (st.sessions i).phase = .selecting → cacheableRequest (st.sessions i).request = false := by
        intro hph
        have hi := h.path i
        rw [PathOk, hph] at hi
        exact hi.1
      cases hs with
      | leadUnavailable _ key hph | leadFetch _ key _ _ hph | leadThrow _ key _ _ hph => exact .inl ⟨key, hph⟩
      | directUnavailable _ hph | directFetch _ _ _ hph | directThrow _ _ _ hph => exact .inr (direct hph)
  · exact absurd (hs.unselected (fun i hi => hsel ⟨i, hi⟩)).1 hne

/-- **What the counters count**, after any run in which no handler threw. -/
theorem counted (as : List Action) (h : Lts.run (step cfg) (init cfg) as = some st) (ht : st.stopped = false) :
    Counted cfg as st := by
  have hr : Reachable cfg st := Lts.reach_any h
  refine ⟨hr.requestsCounted.between, hr.missesCounted.between, counter_run Step.proxyRequests rfl h, hr.selections.sum,
    ?_, ?_, ?_, counter_run Step.healthTransitions rfl h⟩
  · intro x hx hne
    obtain ⟨hx₀, hs, -⟩ := Lts.of_mem_trace as (Lts.Reach.refl _) h hx
    exact (Reachable.core hx₀).rotation (step_sound _ hs) hne
  · rcases hr.inFlight with hstop | hn
    · rw [ht] at hstop; cases hstop
    · exact hn
  · intro x hx hdown
    obtain ⟨hx₀, hs, hend⟩ := Lts.of_mem_trace as (Lts.Reach.refl _) h hx
    have hs := step_sound _ hs
    have ht' : x.2.2.stopped = false := by
      by_contra hstop
      rw [Bool.not_eq_false] at hstop
      have := hend.inv (I := fun st => st.stopped = true) hstop (fun _ a _ hi _ hs => (step_sound a hs).stopped_mono hi)
      rw [ht] at this; cases this
    refine ⟨(Reachable.core hx₀).proxies.inFlight_pos hs ht' hdown, ?_⟩
    rcases Reachable.inFlight hx₀ with hstop | hn
    · have := hs.stopped_mono hstop
      rw [ht'] at this; cases this
    · exact hn

/-- Two cold requests for one resource, after the monitor had taken the upstream down and up again. -/
def flappedMisses : List Action :=
  [.health 0 false, .health 0 false, .health 0 true] ++ coldMisses (getOf "/x".toList []) (getOf "/x".toList [])

theorem counted_flappedMisses : ∃ st, Lts.run (step sampleConfig) (init sampleConfig) flappedMisses = some st ∧
    st.stopped = false ∧ (∀ i, (st.sessions i).phase.between = true) ∧ st.metrics.requests = 2 ∧
    st.metrics.cacheMisses = 2 ∧ st.metrics.proxyRequests = 1 ∧ st.metrics.healthTransitions = 2 ∧
    Counted sampleConfig flappedMisses st := by
  obtain ⟨st, hrun, hf⟩ := Lts.exists_run (step sampleConfig) (init sampleConfig) flappedMisses
    (fun st => decide (st.stopped = false ∧ (st.sessions 0).phase.between = true ∧
      (st.sessions 1).phase.between = true ∧ st.metrics.requests = 2 ∧ st.metrics.cacheMisses = 2 ∧
      st.metrics.proxyRequests = 1 ∧ st.metrics.healthTransitions = 2)) (by decide +kernel)
  obtain ⟨ht, h0, h1, hm⟩ := of_decide_eq_true hf
  refine ⟨st, hrun, ht, fun i => ?_, hm.1, hm.2.1, hm.2.2.1, hm.2.2.2, counted flappedMisses hrun ht⟩
  match i with
  | 0 => exact h0
  | 1 => exact h1
  | i + 2 => rw [unaccepted_of_run hrun (by simp [flappedMisses, coldMisses])]; rfl

/-- A server whose sessions find no coalescer. -/
def aloneConfig : Config := { sampleConfig with hasCoalescer := false }

/-- **Without a coalescer a miss is counted and nobody leads or waits.** -/
theorem missed_alone : ∃ st, Lts.run (step aloneConfig) (init aloneConfig)
      [.accept 0, .read 0 (.ok (getOf "/x".toList [])), .get 0, .respond 0] = some st ∧
    st.stopped = false ∧ (∀ i, (st.sessions i).phase.between = true) ∧
    st.metrics.cacheMisses ≠ st.metrics.coalescingLeaders + st.metrics.coalescingWaiters := by
  obtain ⟨st, hrun, hf⟩ := Lts.exists_run (step aloneConfig) (init aloneConfig)
    [.accept 0, .read 0 (.ok (getOf "/x".toList [])), .get 0, .respond 0]
    (fun st => decide (st.stopped = false ∧ (st.sessions 0).phase.between = true ∧
      st.metrics.cacheMisses ≠ st.metrics.coalescingLeaders + st.metrics.coalescingWaiters)) (by decide +kernel)
  obtain ⟨ht, h0, hne⟩ := of_decide_eq_true hf
  refine ⟨st, hrun, ht, fun i => ?_, hne⟩
  match i with
  | 0 => exact h0
  | i + 1 => rw [unaccepted_of_run hrun (by simp)]; rfl

end Server
end EventEdge
