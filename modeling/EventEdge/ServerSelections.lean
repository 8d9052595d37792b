import EventEdge.Arguments
import EventEdge.ServerMetrics
/-!
# ServerSelections — a counter for each upstream

`select` chooses a position, `record_upstream_selection` looks for the first label that is the endpoint's, and `render`
prints a counter for each position.  The three agree when the endpoints are pairwise different, since a label says
which endpoint it is of (`endpointLabel_injective`); an endpoint that is configured twice is counted at its first
position and printed twice.
-/
namespace EventEdge

/-! ## What is printed -/

/-- One line of `render`. -/
structure Sample where
  name : String
  label : Option (String × Str)
  value : Str
  deriving DecidableEq

namespace Sample

def text (s : Sample) : Str :=
  s.label.elim (s.name.toList ++ ' ' :: s.value ++ ['\n']) (fun l => MetricsRegistry.labelled s.name l.1 l.2 s.value)

/-- The metric name and the label. -/
def key (s : Sample) : String × Option (String × Str) := (s.name, s.label)

end Sample

namespace MetricsRegistry

def number (value : UInt64) : Str := decimal value.toNat

/-- The line of the selections of an upstream. -/
def selectionSample (label selections : Str) : Sample :=
  ⟨"eventedge_upstream_selections_total", some ("upstream", label), selections⟩

/-- The lines of `render`, in order. -/
def samples (formatSum : UInt64 → Str) (m : MetricsRegistry) (pool : UpstreamPool) : List Sample :=
  [⟨"eventedge_requests_total", none, number m.requests⟩,
   ⟨"eventedge_local_health_requests_total", none, number m.healthRequests⟩,
   ⟨"eventedge_metrics_requests_total", none, number m.metricsRequests⟩,
   ⟨"eventedge_proxy_requests_total", none, number m.proxyRequests⟩,
   ⟨"eventedge_cache_hits_total", none, number m.cacheHits⟩,
   ⟨"eventedge_cache_misses_total", none, number m.cacheMisses⟩,
   ⟨"eventedge_coalescing_leaders_total", none, number m.coalescingLeaders⟩,
   ⟨"eventedge_coalescing_waiters_total", none, number m.coalescingWaiters⟩,
   ⟨"eventedge_bad_gateway_total", none, number m.badGateway⟩,
   ⟨"eventedge_service_unavailable_total", none, number m.serviceUnavailable⟩,
   ⟨"eventedge_gateway_timeout_total", none, number m.gatewayTimeout⟩,
   ⟨"eventedge_upstream_health_transitions_total", none, number m.healthTransitions⟩,
   ⟨"eventedge_proxy_in_flight", none, number m.proxyInFlight⟩] ++
  (buckets.zip m.durationBuckets).map (fun b =>
    ⟨"eventedge_request_duration_seconds_bucket", some ("le", b.1.1), number b.2⟩) ++
  [⟨"eventedge_request_duration_seconds_bucket", some ("le", "+Inf".toList), number m.durationCount⟩,
   ⟨"eventedge_request_duration_seconds_count", none, number m.durationCount⟩,
   ⟨"eventedge_request_duration_seconds_sum", none, formatSum m.durationSumNanos⟩] ++
  m.upstreams.zipIdx.flatMap (fun u =>
    [selectionSample u.1.label (number u.1.selections),
     ⟨"eventedge_upstream_healthy", some ("upstream", u.1.label), if pool.healthyAt u.2 then ['1'] else ['0']⟩])

theorem text_counter (name : String) (value : UInt64) :
    Sample.text ⟨name, none, number value⟩ = counter name value := by
  unfold Sample.text counter
  rfl

theorem text_labelled (name key : String) (label value : Str) :
    Sample.text ⟨name, some (key, label), value⟩ = labelled name key label value := by
  unfold Sample.text
  rfl

/-- **`render` prints the samples.** -/
theorem render_eq_samples (formatSum : UInt64 → Str) (m : MetricsRegistry) (pool : UpstreamPool) :
    m.render formatSum pool =
      "# TYPE eventedge_requests_total counter\n".toList ++ (m.samples formatSum pool).flatMap Sample.text := by
  have hsum : Sample.text ⟨"eventedge_request_duration_seconds_sum", none, formatSum m.durationSumNanos⟩ =
      "eventedge_request_duration_seconds_sum ".toList ++ (formatSum m.durationSumNanos ++ ['\n']) := by
    rw [show "eventedge_request_duration_seconds_sum ".toList =
      "eventedge_request_duration_seconds_sum".toList ++ [' '] by decide +kernel]
    simp [Sample.text]
  unfold render samples
  simp only [List.flatMap_append, List.flatMap_cons, List.flatMap_nil, List.flatMap_map, List.flatMap_assoc,
    List.append_assoc, List.append_nil, selectionSample, text_counter, text_labelled, hsum]
  simp only [number, decimal]

/-- The keys of everything but the upstreams. -/
def fixedKeys (durations : List UInt64) : List (String × Option (String × Str)) :=
  [("eventedge_requests_total", none), ("eventedge_local_health_requests_total", none),
   ("eventedge_metrics_requests_total", none), ("eventedge_proxy_requests_total", none),
   ("eventedge_cache_hits_total", none), ("eventedge_cache_misses_total", none),
   ("eventedge_coalescing_leaders_total", none), ("eventedge_coalescing_waiters_total", none),
   ("eventedge_bad_gateway_total", none), ("eventedge_service_unavailable_total", none),
   ("eventedge_gateway_timeout_total", none), ("eventedge_upstream_health_transitions_total", none),
   ("eventedge_proxy_in_flight", none)] ++
  (buckets.zip durations).map (fun b => ("eventedge_request_duration_seconds_bucket", some ("le", b.1.1))) ++
  [("eventedge_request_duration_seconds_bucket", some ("le", "+Inf".toList)),
   ("eventedge_request_duration_seconds_count", none), ("eventedge_request_duration_seconds_sum", none)]

def upstreamKeys (label : Str) : List (String × Option (String × Str)) :=
  [("eventedge_upstream_selections_total", some ("upstream", label)),
   ("eventedge_upstream_healthy", some ("upstream", label))]

theorem key_samples (formatSum : UInt64 → Str) (m : MetricsRegistry) (pool : UpstreamPool) :
    (m.samples formatSum pool).map Sample.key =
      fixedKeys m.durationBuckets ++ (m.upstreams.map UpstreamMetrics.label).flatMap upstreamKeys := by
  have hup : ∀ (us : List UpstreamMetrics) (k : Nat), ((us.zipIdx k).flatMap (fun u =>
      [selectionSample u.1.label (number u.1.selections), (⟨"eventedge_upstream_healthy", some ("upstream", u.1.label),
        if pool.healthyAt u.2 then ['1'] else ['0']⟩ : Sample)])).map Sample.key =
      (us.map UpstreamMetrics.label).flatMap upstreamKeys := by
    intro us
    induction us with
    | nil => intro k; rfl
    | cons u us ih =>
      intro k
      rw [List.zipIdx_cons, List.flatMap_cons, List.map_append, ih]
      rfl
  unfold samples
  rw [List.map_append, hup]
  simp only [List.map_append, List.map_map]
  rfl

theorem fst_zip_sublist {α β : Type} : ∀ (l : List α) (k : List β), ((l.zip k).map Prod.fst).Sublist l
  | [], _ => List.Sublist.refl _
  | _ :: _, [] => List.nil_sublist _
  | a :: l, _ :: k => (fst_zip_sublist l k).cons_cons a

/-- No key is printed twice among those, however many buckets there are. -/
theorem fixedKeys_nodup (durations : List UInt64) : (fixedKeys durations).Nodup := by
  have hall : (fixedKeys (buckets.map (fun _ => 0))).Nodup := by decide +kernel
  have hb : ((buckets.zip durations).map (fun b =>
      ("eventedge_request_duration_seconds_bucket", some ("le", b.1.1)))).Sublist (buckets.map (fun b =>
        ("eventedge_request_duration_seconds_bucket", some ("le", b.1)))) := by
    have := (fst_zip_sublist buckets durations).map (fun b =>
      ("eventedge_request_duration_seconds_bucket", some ("le", b.1)))
    rwa [List.map_map] at this
  exact hall.sublist (((List.Sublist.refl _).append hb).append (List.Sublist.refl _))

theorem label_of_mem_upstreamKeys {label : Str} {x : String × Option (String × Str)} (h : x ∈ upstreamKeys label) :
    x.2 = some ("upstream", label) := by
  simp only [upstreamKeys, List.mem_cons, List.not_mem_nil, or_false] at h
  rcases h with rfl | rfl <;> rfl

theorem label_of_mem_fixedKeys {durations : List UInt64} {x : String × Option (String × Str)}
    (h : x ∈ fixedKeys durations) (label : Str) : x.2 ≠ some ("upstream", label) := by
  have hfixed : ∀ l : List (String × Option (String × Str)),
      l.all (fun x => x.2.elim true (fun t => t.1 == "le")) = true → x ∈ l → x.2 ≠ some ("upstream", label) := by
    intro l hl hx he
    have := List.all_eq_true.1 hl x hx
    rw [he] at this
    exact absurd this (by simp)
  rw [fixedKeys, List.mem_append, List.mem_append] at h
  rcases h with (h | h) | h
  · exact hfixed _ (by decide +kernel) h
  · obtain ⟨b, -, rfl⟩ := List.mem_map.1 h
    simp
  · exact hfixed _ (by decide +kernel) h

/-- **No key is printed twice exactly if no label is.** -/
theorem samples_nodup_iff (formatSum : UInt64 → Str) (m : MetricsRegistry) (pool : UpstreamPool) :
    ((m.samples formatSum pool).map Sample.key).Nodup ↔ (m.upstreams.map UpstreamMetrics.label).Nodup := by
  rw [key_samples, List.nodup_append', List.nodup_flatMap]
  constructor
  · rintro ⟨-, ⟨-, hdisjoint⟩, -⟩
    refine hdisjoint.imp (fun {a b} hd hab => ?_)
    subst hab
    exact List.disjoint_left.1 hd List.mem_cons_self List.mem_cons_self
  · intro h
    refine ⟨fixedKeys_nodup _, ⟨fun label _ => ?_, h.imp (fun {a b} hab => ?_)⟩, ?_⟩
    · simp [upstreamKeys]
    · refine List.disjoint_left.2 (fun x ha hb => hab ?_)
      have := (label_of_mem_upstreamKeys ha).symm.trans (label_of_mem_upstreamKeys hb)
      simpa using this
    · refine List.disjoint_left.2 (fun x hx hu => ?_)
      obtain ⟨label, -, hl⟩ := List.mem_flatMap.1 hu
      exact label_of_mem_fixedKeys hx label (label_of_mem_upstreamKeys hl)

theorem selectionSample_mem {f : UInt64 → Str} {m : MetricsRegistry} {p : UpstreamPool} {i : Nat}
    {u : UpstreamMetrics} (h : m.upstreams[i]? = some u) :
    selectionSample u.label (number u.selections) ∈ m.samples f p := by
  unfold samples
  refine List.mem_append_right _ (List.mem_flatMap.2 ⟨(u, i), List.mem_zipIdx_iff_getElem?.2 h, List.mem_cons_self⟩)

end MetricsRegistry

/-! ## Labels -/

/-- **A label says which endpoint it is of**: the port follows the last colon. -/
theorem endpointLabel_injective {e e' : UpstreamEndpoint} (h : endpointLabel e = endpointLabel e') : e = e' := by
  have hport : ∀ p : UInt16, ':' ∉ portText p := by
    intro p hm
    have hd := (ofDecimal_eq_some_iff.1 (ofDecimal_decimal p.toNat)).2.1 ':' hm
    cases hd
  have hr : rfind ':' (endpointLabel e) = some e.host.length :=
    rfind_eq_some_iff.2 ⟨e.host, portText e.port, rfl, hport _, rfl⟩
  have hr' : rfind ':' (endpointLabel e') = some e'.host.length :=
    rfind_eq_some_iff.2 ⟨e'.host, portText e'.port, rfl, hport _, rfl⟩
  rw [h, hr', Option.some.injEq] at hr
  obtain ⟨hhost, hrest⟩ := List.append_inj h hr.symm
  have hnat : some e.port.toNat = some e'.port.toNat := by
    rw [← ofDecimal_decimal, ← ofDecimal_decimal]
    exact congrArg ofDecimal (List.cons.inj hrest).2
  cases e
  cases e'
  simp only [UpstreamEndpoint.mk.injEq]
  exact ⟨hhost, UInt16.toNat_inj.1 (Option.some.inj hnat)⟩

theorem MetricsRegistry.bumpFirst_eq_set : ∀ {us : List UpstreamMetrics} {i : Nat} {u : UpstreamMetrics},
    (us.map UpstreamMetrics.label).Nodup → us[i]? = some u →
    bumpFirst u.label us = us.set i { u with selections := u.selections + 1 }
  | [], i, u, _, h => by cases h
  | v :: us, 0, u, _, h => by
    cases h
    rw [bumpFirst, if_pos rfl, List.set_cons_zero]
  | v :: us, i + 1, u, hnd, h => by
    rw [List.map_cons, List.nodup_cons] at hnd
    rw [List.getElem?_cons_succ] at h
    have hne : v.label ≠ u.label := fun he => hnd.1 (he ▸ List.mem_map.2 ⟨u, List.mem_of_getElem? h, rfl⟩)
    rw [bumpFirst, if_neg hne, bumpFirst_eq_set hnd.2 h, List.set_cons_succ]

namespace Server

variable {cfg : Config} {st st' : State} {a : Action}

/-! ## Positions -/

/-- The calls of `select` in a step that choose position `i`. -/
def selectsAt (i : Nat) (x : State × Action × State) : Nat :=
  match x.2.1 with
  | .select _ => if x.1.pool.selectIndex = some i then 1 else 0
  | _ => 0

theorem SelectionInv.labels_nodup (h : SelectionInv cfg st)
    (hnd : (cfg.pool.backends.map Backend.endpoint).Nodup) : (st.metrics.upstreams.map UpstreamMetrics.label).Nodup := by
  have hlabels : cfg.pool.backends.map (fun b => endpointLabel b.endpoint) =
      (cfg.pool.backends.map Backend.endpoint).map endpointLabel := by rw [List.map_map]; rfl
  rw [h.labels, hlabels]
  exact hnd.map (fun _ _ => endpointLabel_injective)

/-- The counter at a position bears the label of the endpoint there. -/
theorem SelectionInv.upstream_at (h : SelectionInv cfg st) {i : Nat} {e : UpstreamEndpoint}
    (he : (st.pool.backends.map Backend.endpoint)[i]? = some e) :
    ∃ u, st.metrics.upstreams[i]? = some u ∧ u.label = endpointLabel e := by
  have hl : (st.metrics.upstreams.map UpstreamMetrics.label)[i]? = some (endpointLabel e) := by
    have hmap : cfg.pool.backends.map (fun b => endpointLabel b.endpoint) =
        (cfg.pool.backends.map Backend.endpoint).map endpointLabel := by rw [List.map_map]; rfl
    rw [h.labels, hmap, ← h.endpoints, List.getElem?_map, he]
    rfl
  rw [List.getElem?_map] at hl
  exact Option.map_eq_some_iff.1 hl

theorem selectsAt_select {i session : Nat} : selectsAt i (st, .select session, st') =
    if st.pool.selectIndex = some i then 1 else 0 := rfl

theorem selectsAt_other (ha : ∀ session, a ≠ .select session) (i : Nat) : selectsAt i (st, a, st') = 0 := by
  unfold selectsAt
  split
  · rename_i session hi; exact absurd hi (ha session)
  · rfl

/-- **One step**: a selection bumps the counter of the position chosen, and no other. -/
theorem SelectionInv.selections_step (h : SelectionInv cfg st) (hnd : (cfg.pool.backends.map Backend.endpoint).Nodup)
    (hs : Step cfg st a st') {i : Nat} {label : Str} {n : UInt64} (hi : st.metrics.upstreams[i]? = some ⟨label, n⟩) :
    st'.metrics.upstreams[i]? = some ⟨label, n + UInt64.ofNat (selectsAt i (st, a, st'))⟩ := by
  have keep : st'.metrics.upstreams[i]? = st.metrics.upstreams[i]? → selectsAt i (st, a, st') = 0 →
      st'.metrics.upstreams[i]? = some ⟨label, n + UInt64.ofNat (selectsAt i (st, a, st'))⟩ := by
    intro hu hz
    rw [hu, hz, hi, show UInt64.ofNat 0 = 0 from rfl, UInt64.add_zero]
  by_cases hsel : ∃ session, a = .select session
  · obtain ⟨session, rfl⟩ := hsel
    obtain ⟨-, ⟨hnone, hm⟩ | ⟨e, he, hm⟩⟩ := hs.selected
    · refine keep (by rw [hm]) ?_
      rw [selectsAt_select, if_neg]
      intro hidx
      have hlt := (st.pool.mem_tried i).1 (List.mem_of_find?_eq_some hidx)
      rw [(UpstreamPool.select_of_selectIndex hidx).1, Option.map_eq_none_iff, List.getElem?_eq_none_iff] at hnone
      exact absurd hlt (Nat.not_lt.2 hnone)
    · cases hidx : st.pool.selectIndex with
      | none => rw [UpstreamPool.select_none hidx] at he; cases he
      | some j =>
        rw [(UpstreamPool.select_of_selectIndex hidx).1, ← List.getElem?_map] at he
        obtain ⟨u, hu, hlabel⟩ := h.upstream_at he
        have hbump : st'.metrics.upstreams = st.metrics.upstreams.set j { u with selections := u.selections + 1 } := by
          rw [hm, ← MetricsRegistry.bumpFirst_eq_set (h.labels_nodup hnd) hu, hlabel]
          rfl
        by_cases hij : j = i
        · subst hij
          rw [hu] at hi
          cases hi
          rw [hbump, List.getElem?_set_self (List.getElem?_eq_some_iff.1 hu).1, selectsAt_select, if_pos hidx]
          rfl
        · refine keep (by rw [hbump, List.getElem?_set_ne hij]) ?_
          rw [selectsAt_select, hidx, if_neg (fun he => hij (Option.some.inj he))]
  · have ha : ∀ session, a ≠ .select session := fun session he => hsel ⟨session, he⟩
    obtain ⟨-, -, hu, -⟩ := hs.unselected ha
    exact keep (by rw [hu]) (selectsAt_other ha i)

/-- **A whole run**: the counter of a position has the number of selections that chose it, modulo 64 bits. -/
theorem selections_run (hnd : (cfg.pool.backends.map Backend.endpoint).Nodup) (as : List Action)
    (h : Lts.run (step cfg) (init cfg) as = some st) {i : Nat} {b : Backend} (hb : cfg.pool.backends[i]? = some b) :
    st.metrics.upstreams[i]? = some ⟨endpointLabel b.endpoint,
      UInt64.ofNat (Lts.tally (selectsAt i) (Lts.trace (step cfg) (init cfg) as))⟩ := by
  have hinit : (init cfg).metrics.upstreams[i]? = some ⟨endpointLabel b.endpoint, UInt64.ofNat 0⟩ := by
    simp [init, MetricsRegistry.make, hb]
  have hrun : SelectionInv cfg st ∧ st.metrics.upstreams[i]? = some ⟨endpointLabel b.endpoint,
      UInt64.ofNat (0 + Lts.tally (selectsAt i) (Lts.trace (step cfg) (init cfg) as))⟩ := by
    refine Lts.run_tally (R := fun (st : State) (n : Nat) => SelectionInv cfg st ∧
      st.metrics.upstreams[i]? = some ⟨endpointLabel b.endpoint, UInt64.ofNat n⟩) ?_ as h ⟨selectionInv_init, hinit⟩
    rintro s a s' n hs ⟨hinv, hn⟩
    have hs := step_sound a hs
    refine ⟨hinv.step hs, ?_⟩
    rw [hinv.selections_step hnd hs hn, UInt64.ofNat_add]
  rw [Nat.zero_add] at hrun
  exact hrun.2

/-- **Each upstream's line has the number of times `select` chose its position, and no line is printed twice**, when no
endpoint is configured twice. -/
theorem selections_printed (hnd : (cfg.pool.backends.map Backend.endpoint).Nodup) (as : List Action)
    (h : Lts.run (step cfg) (init cfg) as = some st) :
    (∀ i b, cfg.pool.backends[i]? = some b → MetricsRegistry.selectionSample (endpointLabel b.endpoint)
      (decimal (Lts.tally (selectsAt i) (Lts.trace (step cfg) (init cfg) as) % 18446744073709551616)) ∈
        st.metrics.samples cfg.formatSum st.pool) ∧
    st.metrics.render cfg.formatSum st.pool = "# TYPE eventedge_requests_total counter\n".toList ++
      (st.metrics.samples cfg.formatSum st.pool).flatMap Sample.text ∧
    ((st.metrics.samples cfg.formatSum st.pool).map Sample.key).Nodup := by
  have hr : Reachable cfg st := Lts.reach_any h
  refine ⟨fun i b hb => ?_, MetricsRegistry.render_eq_samples _ _ _, ?_⟩
  · have hmem := MetricsRegistry.selectionSample_mem (f := cfg.formatSum) (p := st.pool) (selections_run hnd as h hb)
    rwa [MetricsRegistry.number, UInt64.toNat_ofNat'] at hmem
  · exact (MetricsRegistry.samples_nodup_iff _ _ _).2 (hr.selections.labels_nodup hnd)

/-- Two requests, each with an upstream of its own choice. -/
def twoSelections : List Action :=
  [.accept 0, .read 0 (.ok ⟨.post, "/x".toList, 11, [], []⟩), .select 0,
   .accept 1, .read 1 (.ok ⟨.post, "/x".toList, 11, [], []⟩), .select 1]

/-- `main`'s arguments with one upstream given twice, or two. -/
def pairArguments (first second : String) : List Str :=
  ["eventedge".toList, "127.0.0.1".toList, "8080".toList, "1".toList, first.toList, second.toList]

def pairConfig (first second : UpstreamEndpoint) : Config :=
  { sampleConfig with pool := ⟨[⟨first, true⟩, ⟨second, true⟩], 0, Nat.zero_lt_two⟩ }

/-- What the server is started with, and its pool, for two upstreams. -/
def StartedWith (first second : String) (e e' : UpstreamEndpoint) : Prop :=
  (parseArguments some 1 (pairArguments first second)).map Arguments.upstreams = .ok [e, e'] ∧
    UpstreamPool.make [e, e'] = .ok (pairConfig e e').pool

theorem selections_printed_pair : ∃ st, StartedWith "b:80" "b:81" ⟨"b".toList, 80⟩ ⟨"b".toList, 81⟩ ∧
    Lts.run (step (pairConfig ⟨"b".toList, 80⟩ ⟨"b".toList, 81⟩)) (init (pairConfig ⟨"b".toList, 80⟩ ⟨"b".toList, 81⟩))
      twoSelections = some st ∧
    ((st.metrics.samples (fun _ => []) st.pool).map Sample.key).Nodup := by
  obtain ⟨st, hrun, -⟩ := Lts.exists_run (step (pairConfig ⟨"b".toList, 80⟩ ⟨"b".toList, 81⟩))
    (init (pairConfig ⟨"b".toList, 80⟩ ⟨"b".toList, 81⟩)) twoSelections (fun _ => true) (by decide +kernel)
  refine ⟨st, ⟨by decide +kernel, rfl⟩, hrun, ?_⟩
  exact (selections_printed (by decide) twoSelections hrun).2.2

/-- **An endpoint that is given twice**: `select` chooses each position once, the first counter has both selections, and
the two lines have one key. -/
theorem selections_twice : ∃ st, StartedWith "b:80" "b:80" ⟨"b".toList, 80⟩ ⟨"b".toList, 80⟩ ∧
    Lts.run (step (pairConfig ⟨"b".toList, 80⟩ ⟨"b".toList, 80⟩)) (init (pairConfig ⟨"b".toList, 80⟩ ⟨"b".toList, 80⟩))
      twoSelections = some st ∧
    (∀ i < 2, Lts.tally (selectsAt i) (Lts.trace (step (pairConfig ⟨"b".toList, 80⟩ ⟨"b".toList, 80⟩))
      (init (pairConfig ⟨"b".toList, 80⟩ ⟨"b".toList, 80⟩)) twoSelections) = 1) ∧
    st.metrics.upstreams = [⟨"b:80".toList, 2⟩, ⟨"b:80".toList, 0⟩] ∧
    ¬ ((st.metrics.samples (fun _ => []) st.pool).map Sample.key).Nodup := by
  obtain ⟨st, hrun, hf⟩ := Lts.exists_run (step (pairConfig ⟨"b".toList, 80⟩ ⟨"b".toList, 80⟩))
    (init (pairConfig ⟨"b".toList, 80⟩ ⟨"b".toList, 80⟩)) twoSelections
    (fun st => decide (st.metrics.upstreams = [⟨"b:80".toList, 2⟩, ⟨"b:80".toList, 0⟩])) (by decide +kernel)
  have hup := of_decide_eq_true hf
  refine ⟨st, ⟨by decide +kernel, rfl⟩, hrun, by decide +kernel, hup, ?_⟩
  rw [MetricsRegistry.samples_nodup_iff, hup]
  decide

end Server
end EventEdge
