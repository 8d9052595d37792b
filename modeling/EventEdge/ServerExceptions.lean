import EventEdge.ServerWaiters
/-!
# ServerExceptions — which requests bring the server down

The handlers catch nothing, so an exception that leaves one stops the whole `io_context`.  `stops_iff` names the two
steps that can do it: starting a run for a TRACE request with a body, and reading an upstream message that has a body
its status forbids.  The parser never produces the second; a client can send the first.
-/
namespace EventEdge
namespace Server

variable {cfg : Config} {st st' : State} {a : Action}

/-- The response parser gives a 1xx, 204 or 304 response no body. -/
def parserSound : Action → Bool
  | .proxy _ (.read (.ok raw)) => !(bodiless raw.result && !raw.body.isEmpty)
  | _ => true

/-- No run is started for a TRACE request with a body: the session that works on one finds no healthy upstream. -/
def noTraceBody (st : State) : Action → Bool
  | .select i => match (st.sessions i).phase with
    | .selecting => !(decide ((st.sessions i).request.method = .trace) && !(st.sessions i).request.body.isEmpty &&
        st.pool.anyHealthy)
    | _ => true
  | _ => true

theorem parserSound_iff (a : Action) : parserSound a = false ↔
    ∃ id event, a = .proxy id event ∧ UpstreamProxy.BadBody event := by
  unfold parserSound
  split
  · rename_i id raw
    simp only [Bool.not_eq_false', Bool.and_eq_true, Bool.not_eq_true', List.isEmpty_eq_false_iff]
    constructor
    · intro h; exact ⟨id, _, rfl, raw, rfl, h⟩
    · rintro ⟨id', event, h, raw', rfl, hb⟩; cases h; exact hb
  · rename_i hne
    refine ⟨nofun, ?_⟩
    rintro ⟨id, event, rfl, raw, rfl, -⟩
    exact absurd rfl (hne id raw)

theorem noTraceBody_iff (st : State) (a : Action) : noTraceBody st a = false ↔ ∃ i, a = .select i ∧
    (st.sessions i).phase = .selecting ∧ (st.sessions i).request.method = .trace ∧ (st.sessions i).request.body ≠ [] ∧
    st.pool.anyHealthy = true := by
  unfold noTraceBody
  split
  · rename_i i
    split
    · rename_i hph
      simp only [Bool.not_eq_false', Bool.and_eq_true, Bool.not_eq_true', List.isEmpty_eq_false_iff, decide_eq_true_eq]
      constructor
      · rintro ⟨⟨hm, hb⟩, hh⟩; exact ⟨i, rfl, hph, hm, hb, hh⟩
      · rintro ⟨j, hj, -, hm, hb, hh⟩; cases hj; exact ⟨⟨hm, hb⟩, hh⟩
    · rename_i hne
      refine ⟨nofun, ?_⟩
      rintro ⟨j, hj, hph, -⟩
      cases hj
      exact absurd hph hne
  · rename_i hne
    refine ⟨nofun, ?_⟩
    rintro ⟨i, rfl, -⟩
    exact absurd rfl (hne i)

/-- `run` of a run started directly throws exactly on a TRACE request with a body. -/
theorem directRun_error_iff (i : Nat) (u : UpstreamEndpoint) :
    (∃ e, (freshProxy cfg st i u (.direct i)).run cfg.beast = .error e) ↔
      (st.sessions i).request.method = .trace ∧ (st.sessions i).request.body ≠ [] :=
  UpstreamProxy.run_error_iff cfg.beast _

theorem anyHealthy_of_select {u : UpstreamEndpoint} (h : st.pool.select.1 = some u) : st.pool.anyHealthy = true := by
  rw [← st.pool.select_fst_isSome, h]; rfl

/-- **A step stops the server exactly when it starts a run for a TRACE request with a body, or reads a message the
parser cannot produce.** -/
theorem CoreInv.stops_iff (h : CoreInv cfg st) (ht : st.stopped = false) (hs : Step cfg st a st') :
    st'.stopped = true ↔ noTraceBody st a = false ∨ parserSound a = false := by
  rw [noTraceBody_iff, parserSound_iff]
  -- no other step sets the flag, and none of the others is one of the two
  have same : st'.stopped = st.stopped → (∀ i, a = .select i → (st.sessions i).phase = .selecting →
      (st.sessions i).request.method = .trace → (st.sessions i).request.body ≠ [] → st.pool.anyHealthy ≠ true) →
      (∀ id event, a = .proxy id event → ¬ UpstreamProxy.BadBody event) →
      (st'.stopped = true ↔ (∃ i, a = .select i ∧ (st.sessions i).phase = .selecting ∧
        (st.sessions i).request.method = .trace ∧ (st.sessions i).request.body ≠ [] ∧ st.pool.anyHealthy = true) ∨
        ∃ id event, a = .proxy id event ∧ UpstreamProxy.BadBody event) := by
    intro hst h1 h2
    rw [hst, ht]
    refine ⟨nofun, ?_⟩
    rintro (⟨i, ha, hph, hm, hb, hh⟩ | ⟨id, event, ha, hb⟩)
    · exact absurd hh (h1 i ha hph hm hb)
    · exact absurd hb (h2 id event ha)
  have handled : ∀ {id : Nat} {p q : UpstreamProxy} {event : ProxyEvent} {o}, st.proxies[id]? = some p →
      event.op ∈ p.outstanding →
      (withoutOp p event).handle cfg.beast cfg.timeouts st.now event = .ok (q, o) → ¬ UpstreamProxy.BadBody event := by
    intro id p q event o hp hop hh hbad
    obtain ⟨hc, -, hch, -⟩ := h.proxies.event hp hop
    rw [(UpstreamProxy.handle_error_iff cfg.beast cfg.timeouts st.now (withoutOp p event) _ event hc hch).2 hbad] at hh
    cases hh
  cases hs with
  | leadUnavailable i key hph _ | leadFetch i key u p hph _ _ =>
    exact same rfl (fun j hj hph' => by cases hj; rw [hph] at hph'; cases hph') nofun
  | leadThrow i key u e hph _ hrun => exact absurd ⟨e, hrun⟩ (h.leader_runs hph u)
  | directUnavailable i hph hsel =>
    refine same rfl (fun j hj _ _ _ hh => ?_) nofun
    rw [← st.pool.select_fst_isSome, hsel] at hh; cases hh
  | directFetch i u p hph hsel hrun =>
    refine same rfl (fun j hj _ hm hb => ?_) nofun
    cases hj
    obtain ⟨e, he⟩ := (directRun_error_iff i u).2 ⟨hm, hb⟩
    rw [hrun] at he; cases he
  | directThrow i u e hph hsel hrun =>
    obtain ⟨hm, hb⟩ := (directRun_error_iff i u).1 ⟨e, hrun⟩
    exact ⟨fun _ => .inl ⟨i, rfl, hph, hm, hb, anyHealthy_of_select hsel⟩, fun _ => rfl⟩
  | proxyStep id p q event _ hp hop hh | proxyFlight id p q event _ _ _ _ hp hop hh
  | proxyDirect id p q event _ _ _ hp hop hh =>
    exact same rfl nofun (fun id' event' he => by cases he; exact handled hp hop hh)
  | proxyThrow id p event e _ hp hop hh =>
    obtain ⟨hc, -, hch, -⟩ := h.proxies.event hp hop
    have hbad : UpstreamProxy.BadBody event := by
      cases e
      exact (UpstreamProxy.handle_error_iff cfg.beast cfg.timeouts st.now (withoutOp p event) _ event hc hch).1 hh
    exact ⟨fun _ => .inr ⟨id, event, rfl, hbad⟩, fun _ => rfl⟩
  | _ => exact same rfl nofun nofun

theorem never_stops (h : Lts.Reach (step cfg) (fun st a => (parserSound a && noTraceBody st a) = true) (init cfg) st) :
    st.stopped = false := by
  refine h.invWith (I := fun st => st.stopped = false) (J := CoreInv cfg) (fun _ hr => Reachable.core hr) rfl ?_
  intro st a st' hc ht hP hs
  rw [Bool.and_eq_true] at hP
  rw [← Bool.not_eq_true, hc.stops_iff ht (step_sound a hs), hP.1, hP.2]
  nofun

/-- A client's TRACE request with a body. -/
def traceRequest : HttpRequest := ⟨.trace, "/x".toList, 11, [⟨"Content-Length".toList, "1".toList⟩], "b".toList⟩

/-- With the upstream marked down, TRACE with a body is answered 503 like everything else. -/
theorem never_stops_down : ∃ st,
    Lts.Reach (step sampleConfig) (fun st a => (parserSound a && noTraceBody st a) = true) (init sampleConfig) st ∧
    writes st 0 1 = 1 ∧ (st.sessions 0).request = traceRequest ∧ st.stopped = false := by
  obtain ⟨st, hr, hf⟩ := Lts.exists_reach (step sampleConfig) (fun st a => parserSound a && noTraceBody st a)
    (init sampleConfig) [.health 0 false, .accept 0, .read 0 (.ok traceRequest), .select 0, .respond 0]
    (fun st => decide (writes st 0 1 = 1 ∧ (st.sessions 0).request = traceRequest)) (by decide +kernel)
  obtain ⟨hw, hq⟩ := of_decide_eq_true hf
  exact ⟨st, hr, hw, hq, never_stops hr⟩

/-- **One TRACE request with a body stops the server.** -/
theorem trace_stops : ∃ st, Lts.Reach (step sampleConfig) (fun _ a => parserSound a = true) (init sampleConfig) st ∧
    st.stopped = true := by
  obtain ⟨st, hr, hf⟩ := Lts.exists_reach (step sampleConfig) (fun _ a => parserSound a) (init sampleConfig)
    [.accept 0, .read 0 (.ok traceRequest), .select 0] (fun st => st.stopped) (by decide +kernel)
  exact ⟨st, hr, hf⟩

end Server
end EventEdge
