import EventEdge.ServerMetrics
import EventEdge.ServerOrigins
/-!
# ServerRecord — the registry is what the run says

The registry was bumped as the run went on.  `Counter` names the counters whose events are logged and says which events
each one counts; `durations` reads the time from every request to its answer off the log.  What is not logged, the
misses, the selections of each upstream and the changes of the health flags, is counted along the steps of the run.
After every run the registry, every counter of it, is the run's summary (`Recorded`).
-/
namespace EventEdge
namespace Server

/-! ## What the counters count -/

inductive Counter where
  | requests | healthRequests | metricsRequests | cacheHits | coalescingLeaders | coalescingWaiters
  | badGateway | serviceUnavailable | gatewayTimeout | durationCount
  deriving DecidableEq, Repr

def Counter.value (m : MetricsRegistry) : Counter → UInt64
  | .requests => m.requests
  | .healthRequests => m.healthRequests
  | .metricsRequests => m.metricsRequests
  | .cacheHits => m.cacheHits
  | .coalescingLeaders => m.coalescingLeaders
  | .coalescingWaiters => m.coalescingWaiters
  | .badGateway => m.badGateway
  | .serviceUnavailable => m.serviceUnavailable
  | .gatewayTimeout => m.gatewayTimeout
  | .durationCount => m.durationCount

def Counter.counts : Counter → Event → Bool
  | .requests, .received _ _ _ => true
  | .healthRequests, .received _ _ request => isHealthRequest request
  | .metricsRequests, .received _ _ request => isMetricsRequest request
  | .cacheHits, .hit _ _ _ => true
  | .coalescingLeaders, .joined _ _ _ role => decide (role = .leader)
  | .coalescingWaiters, .joined _ _ _ role => decide (role = .waiter)
  | .badGateway, .wrote _ _ reply => decide (reply.message.result = 502)
  | .serviceUnavailable, .wrote _ _ reply => decide (reply.message.result = 503)
  | .gatewayTimeout, .wrote _ _ reply => decide (reply.message.result = 504)
  | .durationCount, .wrote _ _ _ => true
  | _, _ => false

/-! ## How long the answers took -/

/-- When session `i` read its `n`-th request, if this is that event. -/
def Logged.readTime (i n : Nat) (e : Logged) : Option Int :=
  match e.event with
  | .received j k _ => if j = i ∧ k = n then some e.time else none
  | _ => none

/-- The time from every request to the start of its answer, newest first; so is the log. -/
def durations : List Logged → List Int
  | [] => []
  | e :: older => match e.event with
    | .wrote i n _ => (e.time - (older.findSome? (Logged.readTime i n)).getD e.time) :: durations older
    | _ => durations older

def total : List Int → Int
  | [] => 0
  | d :: ds => d + total ds

/-- The registry has the log's summary. -/
structure LogRecorded (m : MetricsRegistry) (log : List Logged) : Prop where
  counters : ∀ c : Counter, c.value m = UInt64.ofNat (log.countP (fun e => c.counts e.event))
  sum : m.durationSumNanos = UInt64.ofNat (total (durations log.reverse) % 18446744073709551616).toNat
  buckets : m.durationBuckets =
    buckets.map (fun b => UInt64.ofNat ((durations log.reverse).countP (fun d => decide (d ≤ b.2))))

/-! ## What is not logged -/

/-- The lookups of a step that miss. -/
def misses (x : State × Action × State) : Nat :=
  match x.2.1 with
  | .get i => match (x.1.sessions i).phase with
    | .lookup key => if (x.1.cache.get key x.1.now).1.isNone then 1 else 0
    | _ => 0
  | _ => 0

/-- The calls of `select` in a step that return an upstream of that label. -/
def selectsLabel (label : Str) (x : State × Action × State) : Nat :=
  match x.2.1 with
  | .select _ => if x.1.pool.select.1.map endpointLabel = some label then 1 else 0
  | _ => 0

def Event.isCompleted : Event → Bool
  | .completed _ => true
  | _ => false

/-- The runs of proxies that completed. -/
def completions (log : List Logged) : Nat := log.countP (fun e => e.event.isCompleted)

/-- The labels of the upstreams, in the order of the arguments. -/
def Config.labels (cfg : Config) : List Str := cfg.pool.backends.map (fun b => endpointLabel b.endpoint)

/-- **The registry is the summary of the run.**  The selections of a label that is there twice are counted at its first
place; a proxy is in flight from its selection to its completion. -/
structure Recorded (cfg : Config) (as : List Action) (st : State) : Prop where
  logged : LogRecorded st.metrics st.log
  cacheMisses : st.metrics.cacheMisses = UInt64.ofNat (Lts.tally misses (Lts.trace (step cfg) (init cfg) as))
  proxyRequests : st.metrics.proxyRequests = UInt64.ofNat (Lts.tally selects (Lts.trace (step cfg) (init cfg) as))
  proxyInFlight : st.metrics.proxyInFlight =
    UInt64.ofNat (Lts.tally selects (Lts.trace (step cfg) (init cfg) as)) -
      UInt64.ofNat (completions st.log)
  healthTransitions : st.metrics.healthTransitions =
    UInt64.ofNat (Lts.tally flagChanges (Lts.trace (step cfg) (init cfg) as))
  upstreams : st.metrics.upstreams = cfg.labels.zipIdx.map (fun x => ⟨x.1,
    if x.1 ∈ cfg.labels.take x.2 then 0
    else UInt64.ofNat (Lts.tally (selectsLabel x.1) (Lts.trace (step cfg) (init cfg) as))⟩)

variable {cfg : Config} {st st' : State} {a : Action} {as : List Action}

/-! ## One step -/

theorem isMetricsRequest_of_health {request : HttpRequest} (h : isHealthRequest request = true) :
    isMetricsRequest request = false := by
  unfold isHealthRequest at h
  unfold isMetricsRequest
  rw [of_decide_eq_true h]
  decide

/-- A counter after the log grew by one event. -/
theorem countP_snoc (c : Counter) (log : List Logged) (e : Logged) :
    UInt64.ofNat ((log ++ [e]).countP (fun e => c.counts e.event)) =
      UInt64.ofNat (log.countP (fun e => c.counts e.event)) + if c.counts e.event then 1 else 0 := by
  rw [List.countP_append, List.countP_singleton]
  split
  · exact UInt64.ofNat_add _ 1
  · exact (UInt64.add_zero _).symm

/-- **Every step bumps the counters of what it logs**, and no other. -/
theorem Step.counters (hs : Step cfg st a st') (c : Counter)
    (h : c.value st.metrics = UInt64.ofNat (st.log.countP (fun e => c.counts e.event))) :
    c.value st'.metrics = UInt64.ofNat (st'.log.countP (fun e => c.counts e.event)) := by
  have keep : st'.log = st.log → c.value st'.metrics = c.value st.metrics →
      c.value st'.metrics = UInt64.ofNat (st'.log.countP (fun e => c.counts e.event)) := by
    intro hl hm
    rw [hm, hl, h]
  have log : ∀ e, st'.log = st.log ++ [e] →
      c.value st'.metrics = c.value st.metrics + (if c.counts e.event then 1 else 0) →
      c.value st'.metrics = UInt64.ofNat (st'.log.countP (fun e => c.counts e.event)) := by
    intro e hl hm
    rw [hm, hl, h, countP_snoc]
  cases hs with
  | readLocal i request response _ _ hlocal =>
    refine log _ rfl ?_
    unfold isLocalRequest at hlocal
    unfold localMetrics
    cases hh : isHealthRequest request with
    | true => cases c <;> simp [Counter.value, Counter.counts, hh, isMetricsRequest_of_health hh,
        MetricsRegistry.recordRequest, MetricsRegistry.recordHealthRequest]
    | false =>
      rw [hh, Bool.false_or] at hlocal
      cases c <;> simp [Counter.value, Counter.counts, hh, hlocal, MetricsRegistry.recordRequest,
        MetricsRegistry.recordMetricsRequest]
  | readCacheable i request _ _ hlocal | readOther i request _ _ hlocal =>
    refine log _ rfl ?_
    obtain ⟨hh, hm⟩ := Bool.or_eq_false_iff.1 hlocal
    cases c <;> simp [Counter.value, Counter.counts, hh, hm, MetricsRegistry.recordRequest]
  | hit => exact log _ rfl (by cases c <;> simp [Counter.value, Counter.counts, MetricsRegistry.recordCacheHit])
  | lead => exact log _ rfl (by cases c <;> simp [Counter.value, Counter.counts, MetricsRegistry.recordCoalescingLeader])
  | wait => exact log _ rfl (by cases c <;> simp [Counter.value, Counter.counts, MetricsRegistry.recordCoalescingWaiter])
  | respond i reply hph =>
    refine log _ rfl ?_
    unfold MetricsRegistry.recordResponseStatus
    by_cases h2 : reply.message.result = 502
    · cases c <;> simp [Counter.value, Counter.counts, h2, MetricsRegistry.observeDuration]
    · by_cases h3 : reply.message.result = 503
      · cases c <;> simp [Counter.value, Counter.counts, h3, MetricsRegistry.observeDuration]
      · by_cases h4 : reply.message.result = 504
        · cases c <;> simp [Counter.value, Counter.counts, h4, MetricsRegistry.observeDuration]
        · cases c <;> simp [Counter.value, Counter.counts, h2, h3, h4, MetricsRegistry.observeDuration]
  | store | release | proxyFlight | proxyDirect =>
    exact log _ rfl (by cases c <;> simp [Counter.value, Counter.counts, MetricsRegistry.proxyCompleted])
  | health _ _ changed => exact keep rfl (by cases changed <;> cases c <;> rfl)
  | _ => exact keep rfl (by cases c <;> rfl)

/-! ## The durations -/

/-- An answer, and nothing else, adds a duration. -/
theorem durations_cons_other {e : Logged} {older : List Logged} (h : ∀ i n reply, e.event ≠ .wrote i n reply) :
    durations (e :: older) = durations older := by
  rw [durations]
  split
  · rename_i i n reply he; exact absurd he (h i n reply)
  · rfl

/-- The log knows when the request a session works on was read. -/
theorem RequestInv.readTime (h : RequestInv st) {i : Nat} (hp : (st.sessions i).phase.pending = true) :
    st.log.reverse.findSome? (Logged.readTime i (st.sessions i).number) = some (st.sessions i).requestStarted := by
  have hmem := h.current i hp
  have hsome : (st.log.reverse.findSome? (Logged.readTime i (st.sessions i).number)).isSome = true := by
    rw [List.findSome?_isSome_iff]
    exact ⟨_, List.mem_reverse.2 hmem, by simp [Logged.readTime]⟩
  obtain ⟨t, ht⟩ := Option.isSome_iff_exists.1 hsome
  obtain ⟨e, he, hread⟩ := List.exists_of_findSome?_eq_some ht
  rw [ht]
  -- the number is read once
  unfold Logged.readTime at hread
  split at hread
  · rename_i j k request hev
    split at hread
    · rename_i hjk
      obtain ⟨rfl, rfl⟩ := hjk
      have he' : (⟨e.time, .received j (st.sessions j).number request⟩ : Logged) ∈ st.log := by
        rw [← hev]; exact List.mem_reverse.1 he
      rw [← hread, (h.unique _ _ _ _ _ _ he' hmem).1]
    · cases hread
  · cases hread

/-- **A step times the answer it starts to write**, from the request on. -/
theorem Step.timed (hs : Step cfg st a st') (hr : RequestInv st) :
    (durations st'.log.reverse = durations st.log.reverse ∧ st'.metrics.durationSumNanos = st.metrics.durationSumNanos ∧
      st'.metrics.durationBuckets = st.metrics.durationBuckets) ∨
    ∃ (d : Int) (m : MetricsRegistry), durations st'.log.reverse = d :: durations st.log.reverse ∧
      st'.metrics = m.observeDuration d ∧ m.durationSumNanos = st.metrics.durationSumNanos ∧
      m.durationBuckets = st.metrics.durationBuckets := by
  have other : ∀ e, st'.log = st.log ++ [e] → (∀ i n reply, e.event ≠ .wrote i n reply) →
      durations st'.log.reverse = durations st.log.reverse := by
    intro e hl he
    rw [hl, List.reverse_append]
    exact durations_cons_other he
  cases hs with
  | respond i reply hph =>
    refine .inr ⟨st.now - (st.sessions i).requestStarted, st.metrics.recordResponseStatus reply.message.result, ?_, rfl,
      recordResponseStatus_other (fun m => m.durationSumNanos) (fun _ _ _ _ => rfl) _ _,
      recordResponseStatus_other (fun m => m.durationBuckets) (fun _ _ _ _ => rfl) _ _⟩
    have hread := hr.readTime (i := i) (by rw [hph]; rfl)
    rw [List.reverse_append]
    show (st.now - (st.log.reverse.findSome? (Logged.readTime i (st.sessions i).number)).getD st.now) :: _ = _
    rw [hread]
    rfl
  | readLocal i request =>
    exact .inl ⟨other _ rfl nofun, localMetrics_other (fun m => m.durationSumNanos) (fun _ _ _ => rfl) _ request,
      localMetrics_other (fun m => m.durationBuckets) (fun _ _ _ => rfl) _ request⟩
  | readCacheable | readOther | hit | lead | wait | store | release | proxyFlight | proxyDirect =>
    exact .inl ⟨other _ rfl nofun, rfl, rfl⟩
  | health _ _ changed => cases changed <;> exact .inl ⟨rfl, rfl, rfl⟩
  | _ => exact .inl ⟨rfl, rfl, rfl⟩

/-- 64-bit sums of whole numbers, negative ones included. -/
theorem ofNat_toNat_add (x y : Int) : UInt64.ofNat (x % 18446744073709551616).toNat +
    UInt64.ofNat (y % 18446744073709551616).toNat = UInt64.ofNat ((y + x) % 18446744073709551616).toNat := by
  rw [← UInt64.ofNat_add, ← UInt64.toNat_inj, UInt64.toNat_ofNat', UInt64.toNat_ofNat']
  omega

theorem LogRecorded.step (h : LogRecorded st.metrics st.log) (hr : RequestInv st) (hs : Step cfg st a st') :
    LogRecorded st'.metrics st'.log := by
  refine ⟨fun c => hs.counters c (h.counters c), ?_, ?_⟩
  · rcases hs.timed hr with ⟨hd, hsum, -⟩ | ⟨d, m, hd, hm, hsum, -⟩
    · rw [hd, hsum]; exact h.sum
    · rw [hd, hm]
      show m.durationSumNanos + UInt64.ofNat (d % 18446744073709551616).toNat = _
      rw [hsum, h.sum, ofNat_toNat_add]
      rfl
  · rcases hs.timed hr with ⟨hd, -, hb⟩ | ⟨d, m, hd, hm, -, hb⟩
    · rw [hd, hb]; exact h.buckets
    · rw [hd, hm]
      show m.durationBuckets.zipWith (fun n b => if d ≤ b.2 then n + 1 else n) EventEdge.buckets = _
      rw [hb, h.buckets, List.zipWith_map_left, List.zipWith_self]
      refine List.map_congr_left (fun b _ => ?_)
      rw [List.countP_cons]
      by_cases hle : d ≤ b.2
      · simp only [hle, decide_true, if_true]
        exact (UInt64.ofNat_add _ 1).symm
      · simp [hle]

theorem logRecorded_init : LogRecorded (init cfg).metrics (init cfg).log :=
  ⟨fun c => by cases c <;> rfl, rfl, rfl⟩

theorem Reachable.logRecorded (h : Reachable cfg st) : LogRecorded st.metrics st.log :=
  h.invWith (J := RequestInv) (fun _ hr => Reachable.requests hr) logRecorded_init
    (fun _ a _ hr hi _ hs => LogRecorded.step hi hr (step_sound a hs))

/-! ## What is not logged, one step -/

/-- **Every lookup that misses is counted**, and nothing else is. -/
theorem Step.cacheMisses (hs : Step cfg st a st') :
    st'.metrics.cacheMisses = st.metrics.cacheMisses + UInt64.ofNat (misses (st, a, st')) := by
  have keep : misses (st, a, st') = 0 → st'.metrics.cacheMisses = st.metrics.cacheMisses →
      st'.metrics.cacheMisses = st.metrics.cacheMisses + UInt64.ofNat (misses (st, a, st')) := by
    intro hzero hm
    rw [hzero, hm]
    exact (UInt64.add_zero _).symm
  cases hs with
  | hit i key cached hph hget => exact keep (by simp [misses, hph, hget]) rfl
  | miss i key hph hget | missAlone i key hph hget =>
    rw [show misses _ = 1 by simp [misses, hph, hget]]
    rfl
  | readLocal _ request => exact keep rfl (localMetrics_other (fun m => m.cacheMisses) (fun _ _ _ => rfl) _ request)
  | respond _ reply => exact keep rfl (recordResponseStatus_other (fun m => m.cacheMisses) (fun _ _ _ _ => rfl) _ _)
  | health _ _ changed => exact keep rfl (by cases changed <;> rfl)
  | _ => exact keep rfl rfl

theorem completions_snoc (log : List Logged) (e : Logged) :
    completions (log ++ [e]) = completions log + if e.event.isCompleted then 1 else 0 := by
  rw [completions, List.countP_append, List.countP_singleton]
  rfl

/-- What was started is in flight or completed. -/
def FlightsRecorded (st : State) : Prop :=
  st.metrics.proxyInFlight + UInt64.ofNat (completions st.log) = st.metrics.proxyRequests

theorem FlightsRecorded.step (h : FlightsRecorded st) (hs : Step cfg st a st') : FlightsRecorded st' := by
  have keep : st'.metrics.proxyInFlight = st.metrics.proxyInFlight →
      st'.metrics.proxyRequests = st.metrics.proxyRequests → completions st'.log = completions st.log →
      FlightsRecorded st' := by
    intro hf hp hl
    rw [FlightsRecorded, hl, hf, hp]
    exact h
  have other : ∀ e : Logged, e.event.isCompleted = false → completions (st.log ++ [e]) = completions st.log := by
    intro e he
    rw [completions_snoc, he]
    rfl
  unfold FlightsRecorded at h
  cases hs with
  | proxyFlight | proxyDirect =>
    show st.metrics.proxyInFlight - 1 + UInt64.ofNat (completions (st.log ++ [_])) = st.metrics.proxyRequests
    rw [completions_snoc, ← h, UInt64.ofNat_add]
    show st.metrics.proxyInFlight - 1 + (UInt64.ofNat (completions st.log) + 1) = _
    grind
  | leadFetch | leadThrow | directFetch | directThrow =>
    show st.metrics.proxyInFlight + 1 + UInt64.ofNat (completions st.log) = st.metrics.proxyRequests + 1
    rw [← h]
    grind
  | readLocal _ request =>
    exact keep (localMetrics_other (fun m => m.proxyInFlight) (fun _ _ _ => rfl) _ request)
      (localMetrics_other (fun m => m.proxyRequests) (fun _ _ _ => rfl) _ request) (other _ rfl)
  | respond _ reply =>
    exact keep (recordResponseStatus_other (fun m => m.proxyInFlight) (fun _ _ _ _ => rfl) _ _)
      (recordResponseStatus_other (fun m => m.proxyRequests) (fun _ _ _ _ => rfl) _ _) (other _ rfl)
  | readCacheable | readOther | hit | lead | wait | store | release => exact keep rfl rfl (other _ rfl)
  | health _ _ changed => exact keep (by cases changed <;> rfl) (by cases changed <;> rfl) rfl
  | _ => exact keep rfl rfl rfl

/-- The first of a label is bumped, the others are not. -/
theorem getElem?_bumpFirst (label : Str) : ∀ (us : List UpstreamMetrics) (i : Nat),
    (MetricsRegistry.bumpFirst label us)[i]? = (us[i]?).map (fun u =>
      if u.label = label ∧ label ∉ (us.map UpstreamMetrics.label).take i then { u with selections := u.selections + 1 }
      else u)
  | [], i => rfl
  | u :: us, 0 => by
    rw [MetricsRegistry.bumpFirst]
    by_cases hu : u.label = label
    · simp [hu]
    · simp [hu]
  | u :: us, i + 1 => by
    rw [MetricsRegistry.bumpFirst]
    by_cases hu : u.label = label
    · rw [if_pos hu, List.getElem?_cons_succ, List.getElem?_cons_succ, List.map_cons, List.take_succ_cons, hu]
      simp
    · rw [if_neg hu, List.getElem?_cons_succ, List.getElem?_cons_succ, getElem?_bumpFirst label us i, List.map_cons,
        List.take_succ_cons]
      simp [Ne.symm hu]

/-- **A selection is counted at the first place of its label.** -/
theorem SelectionInv.label_step (h : SelectionInv cfg st) (hs : Step cfg st a st') {i : Nat} {label : Str} {n : Nat}
    (hi : st.metrics.upstreams[i]? = some ⟨label, if label ∈ cfg.labels.take i then 0 else UInt64.ofNat n⟩) :
    st'.metrics.upstreams[i]? = some ⟨label, if label ∈ cfg.labels.take i then 0
      else UInt64.ofNat (n + selectsLabel label (st, a, st'))⟩ := by
  have keep : st'.metrics.upstreams = st.metrics.upstreams → selectsLabel label (st, a, st') = 0 →
      st'.metrics.upstreams[i]? = some ⟨label, if label ∈ cfg.labels.take i then 0
        else UInt64.ofNat (n + selectsLabel label (st, a, st'))⟩ := by
    intro hu hzero
    rw [hu, hzero, hi]
    rfl
  by_cases hsel : ∃ session, a = .select session
  · obtain ⟨session, rfl⟩ := hsel
    obtain ⟨-, ⟨hnone, hm⟩ | ⟨u, hu, hm⟩⟩ := hs.selected
    · exact keep (by rw [hm]) (by simp [selectsLabel, hnone])
    · have hbump : st'.metrics.upstreams = MetricsRegistry.bumpFirst (endpointLabel u) st.metrics.upstreams := by
        rw [hm]; rfl
      have hlabels : st.metrics.upstreams.map UpstreamMetrics.label = cfg.labels := h.labels
      rw [hbump, getElem?_bumpFirst, hi, hlabels]
      have hone : selectsLabel label (st, .select session, st') = if endpointLabel u = label then 1 else 0 := by
        simp [selectsLabel, hu]
      rw [hone, Option.map_some]
      by_cases hsame : endpointLabel u = label
      · subst hsame
        by_cases hfirst : endpointLabel u ∈ cfg.labels.take i
        · simp [hfirst]
        · simp [hfirst]
      · simp [hsame, Ne.symm hsame]
  · have ha : ∀ session, a ≠ .select session := fun session he => hsel ⟨session, he⟩
    obtain ⟨-, -, hu, -⟩ := hs.unselected ha
    refine keep hu ?_
    unfold selectsLabel
    split
    · rename_i session hi; exact absurd hi (ha session)
    · rfl

/-! ## A whole run -/

theorem labels_recorded (hrun : Lts.run (step cfg) (init cfg) as = some st) {i : Nat} {label : Str}
    (hl : cfg.labels[i]? = some label) :
    st.metrics.upstreams[i]? = some ⟨label, if label ∈ cfg.labels.take i then 0
      else UInt64.ofNat (Lts.tally (selectsLabel label) (Lts.trace (step cfg) (init cfg) as))⟩ := by
  have hinit : (init cfg).metrics.upstreams[i]? =
      some ⟨label, if label ∈ cfg.labels.take i then 0 else UInt64.ofNat 0⟩ := by
    rw [Config.labels, List.getElem?_map] at hl
    obtain ⟨b, hb, rfl⟩ := Option.map_eq_some_iff.1 hl
    simp [init, MetricsRegistry.make, hb]
  have h := Lts.run_tally (R := fun (st : State) (n : Nat) => SelectionInv cfg st ∧
    st.metrics.upstreams[i]? = some ⟨label, if label ∈ cfg.labels.take i then 0 else UInt64.ofNat n⟩)
    (fun s a s' n hs hi => ⟨hi.1.step (step_sound a hs), hi.1.label_step (step_sound a hs) hi.2⟩) as hrun
    ⟨selectionInv_init, hinit⟩
  rw [Nat.zero_add] at h
  exact h.2

/-- **The registry tells what happened**: after every run each counter is the number of its events, and the duration
histogram is that of the times from reading a request to starting its answer. -/
theorem metrics_recorded (hrun : Lts.run (step cfg) (init cfg) as = some st) : Recorded cfg as st := by
  have hr : Reachable cfg st := Lts.reach_any hrun
  have hproxy := counter_run Step.proxyRequests rfl hrun
  refine ⟨hr.logRecorded, counter_run Step.cacheMisses rfl hrun, hproxy, ?_, counter_run Step.healthTransitions rfl hrun,
    List.ext_getElem? (fun i => ?_)⟩
  · have hflights : FlightsRecorded st :=
      hr.inv (I := FlightsRecorded) rfl (fun _ a _ hi _ hs => hi.step (step_sound a hs))
    rw [← hproxy, ← hflights]
    grind
  · rw [List.getElem?_map, List.getElem?_zipIdx]
    have hlabels : st.metrics.upstreams.map UpstreamMetrics.label = cfg.labels := hr.selections.labels
    cases hl : cfg.labels[i]? with
    | some label =>
      rw [labels_recorded hrun hl]
      simp
    | none =>
      rw [← hlabels, List.getElem?_map, Option.map_eq_none_iff] at hl
      rw [hl]
      rfl

/-- A fetch that fails after three milliseconds: two requests that missed, one run, two answers of status 502, neither
within one millisecond. -/
def failedFetch : List Action :=
  coldMisses (getOf "/x".toList []) (getOf "/x".toList []) ++
    [.tick 3000000, .proxy 0 (.resolved (some .other)), .complete 0, .respond 0, .callback 0, .respond 1]

theorem metrics_recorded_failedFetch : ∃ st, Lts.run (step sampleConfig) (init sampleConfig) failedFetch = some st ∧
    st.metrics.requests = 2 ∧ st.metrics.cacheMisses = 2 ∧ st.metrics.proxyRequests = 1 ∧ st.metrics.proxyInFlight = 0 ∧
    st.metrics.upstreams = [⟨"a:80".toList, 1⟩] ∧ st.metrics.badGateway = 2 ∧
    st.metrics.durationBuckets.take 2 = [0, 2] ∧ Recorded sampleConfig failedFetch st := by
  obtain ⟨st, hrun, hf⟩ := Lts.exists_run (step sampleConfig) (init sampleConfig) failedFetch
    (fun st => decide (st.metrics.requests = 2 ∧ st.metrics.cacheMisses = 2 ∧ st.metrics.proxyRequests = 1 ∧
      st.metrics.proxyInFlight = 0 ∧ st.metrics.upstreams = [⟨"a:80".toList, 1⟩] ∧ st.metrics.badGateway = 2 ∧
      st.metrics.durationBuckets.take 2 = [0, 2])) (by decide +kernel)
  obtain ⟨h1, h2, h3, h4, h5, h6, h7⟩ := of_decide_eq_true hf
  exact ⟨st, hrun, h1, h2, h3, h4, h5, h6, h7, metrics_recorded hrun⟩

end Server
end EventEdge
