import EventEdge.Forwarding
import EventEdge.ServerOrigins
/-!
# ServerFraming — every answer ends where its client expects it

Everything a proxy run hands over is sized, so is everything in the cache and everything released to a waiter; and
`write_response_for_current_request` frames it for the request at hand.  So every message passed to `async_write` is
framed for the request it answers, and the session reads on after it exactly if that request asked for `keep_alive`
(`Reachable.wellFramed`).  The other way, every request a run writes to its upstream is its client's, forwarded
(`Reachable.forwarded`).
-/
namespace EventEdge
namespace Server

variable {cfg : Config} {st st' : State} {a : Action}

theorem forRequest_framed (reply : Reply) (h : reply.message.Sized) (request : HttpRequest) :
    (forRequest cfg request reply).message.Framed cfg.beast request :=
  h.framed cfg.beast request

theorem localResponse_framed (hB : cfg.beast.Framing) {m : MetricsRegistry} {pool : UpstreamPool} {request : HttpRequest}
    {response : HttpResponse} (h : localResponse cfg m pool request = .ok response) :
    response.Framed cfg.beast request := by
  unfold localResponse at h
  split at h
  · exact hB.handleRequest h
  · refine hB.framed_draft ?_ h
    rw [Fields.has_eq, Fields.all_set_ne _ _ _ _ (by decide)]
    rfl

/-! ## What is sent to the upstreams -/

theorem Reachable.forwarded (h : Reachable cfg st) (hB : cfg.beast.RequestFraming) {id : Nat} {p : UpstreamProxy}
    (hp : st.proxies[id]? = some p) : Forwarded p.upstream p.fetch.client p.request := by
  rw [((Reachable.origins h).fetched id p hp).1]
  exact UpstreamProxy.forwarded_sent hB p.upstream p.fetch.client

theorem Reachable.values_forwarded (h : Reachable cfg st) {id : Nat} {p : UpstreamProxy} (hp : st.proxies[id]? = some p)
    {name : Str} (hname : isRewritten name = false) : p.request.fields.values name =
      if namedByConnection p.fetch.client.fields name then [] else p.fetch.client.fields.values name := by
  rw [((Reachable.origins h).fetched id p hp).1]
  exact UpstreamProxy.values_sent _ _ name hname

/-! ## What is held -/

/-- **Every run hands over a sized response.** -/
theorem Reachable.completed_sized (h : Reachable cfg st) (hB : cfg.beast.Framing) : ∀ {id : Nat} {f : Fetch}
    {m : HttpResponse}, Completed st id f m → m.Sized := by
  refine h.invWith (I := fun st => ∀ {id : Nat} {f : Fetch} {m : HttpResponse}, Completed st id f m → m.Sized)
    (J := CoreInv cfg) (fun _ hr => Reachable.core hr) ?_ ?_
  · rintro id f m ⟨p, hp, -⟩; cases hp
  · intro st a st' hc hi _ hs id f m hcm
    rcases hc.proxies.completed_step (step_sound a hs) hcm with hcm | ⟨p, event, -, -, -, -, -, ⟨q, hh⟩, -⟩
    · exact hi hcm
    · exact UpstreamProxy.handle_sized hB hh

theorem FlightReply.sized {key : Str} {reply : Reply} (h : FlightReply cfg st key reply) (hB : cfg.beast.Framing)
    (hr : Reachable cfg st) : reply.message.Sized := by
  rcases h with ⟨-, request, hm⟩ | ⟨id, fetch, -, hc, -⟩
  · rw [hm]; exact (hB.unavailableResponse request).toSized
  · exact Reachable.completed_sized hr hB hc

/-! ## What is written -/

/-- What a session is about to write is framed for its request; once it is written, the session knows how to go on. -/
def PhaseFramed (cfg : Config) (st : State) (i : Nat) (s : Session) : Prop :=
  match s.phase with
  | .responding reply => reply.message.Framed cfg.beast s.request
  | .writing closeAfterWrite => closeAfterWrite = !s.request.keepAlive cfg.beast ∧
    ∃ b t reply, ⟨b, .received i s.number s.request⟩ ∈ st.log ∧ ⟨t, .wrote i s.number reply⟩ ∈ st.log
  | _ => True

def FramingInv (cfg : Config) (st : State) : Prop := ∀ i, PhaseFramed cfg st i (st.sessions i)

theorem Grows.phaseFramed (g : Grows st st') {i : Nat} {s : Session} (h : PhaseFramed cfg st i s) :
    PhaseFramed cfg st' i s := by
  unfold PhaseFramed at h ⊢
  split
  · rename_i hph; rw [hph] at h; exact h
  · rename_i hph
    rw [hph] at h
    obtain ⟨hc, b, t, reply, hb, ht⟩ := h
    exact ⟨hc, b, t, reply, g.mem hb, g.mem ht⟩
  · trivial

theorem FramingInv.phases_update (h : FramingInv cfg st) (g : Grows st st') {i : Nat} {s : Session}
    (hu : st'.sessions = Function.update st.sessions i s) (hi : PhaseFramed cfg st' i s) (j : Nat) :
    PhaseFramed cfg st' j (st'.sessions j) :=
  Lts.update_all (Q := PhaseFramed cfg st') hu hi (fun j => g.phaseFramed (h j)) j

theorem phaseFramed_flight (i : Nat) (s : Session) (key : Str) (reply : Reply) (c : Bool) :
    PhaseFramed cfg st i { s with phase := flightPhase key reply c } := by
  unfold flightPhase
  split <;> trivial

theorem FramingInv.step (h : FramingInv cfg st) (hB : cfg.beast.Framing) (hr : Reachable cfg st)
    (g : Grows st st') (hs : Step cfg st a st') (j : Nat) : PhaseFramed cfg st' j (st'.sessions j) := by
  have ho := Reachable.origins hr
  cases hs with
  | tick _ _ | proxyStep _ _ _ _ _ _ _ _ | proxyThrow _ _ _ _ _ _ _ _ | health _ _ _ _ _ _ =>
    exact g.phaseFramed (h j)
  | accept i | readError i | readCacheable i | readOther i | miss i | lead i | wait i | leadUnavailable i | leadFetch i
  | leadThrow i | directFetch i | directThrow i | store i | writtenNext i | writtenLast i =>
    refine h.phases_update g (i := i) rfl ?_ j
    exact trivial
  | readLocal i request response _ _ _ hresp =>
    refine h.phases_update g (i := i) rfl ?_ j
    exact localResponse_framed hB hresp
  | hit i key cached hph hget =>
    obtain ⟨e, he, -, rfl⟩ := st.cache.get_some _ _ hget
    obtain ⟨t, id, fetch, -, -, -, hc, -, -⟩ := ho.cached _ e he
    refine h.phases_update g (i := i) rfl ?_ j
    exact forRequest_framed _ (Reachable.completed_sized hr hB hc) _
  | missAlone i =>
    refine h.phases_update g (i := i) rfl ?_ j
    exact forRequest_framed (unavailable cfg st i) (hB.unavailableResponse _).toSized _
  | directUnavailable i =>
    refine h.phases_update g (i := i) rfl ?_ j
    exact hB.unavailableResponse _
  | release i key reply hph =>
    have hi := ho.phases i
    rw [PhaseOk, hph] at hi
    refine h.phases_update g (i := i) rfl ?_ j
    exact forRequest_framed _ (hi.flightReply.sized hB hr) _
  | callback pre post w reply _ hp =>
    have hm : (w, reply) ∈ st.posted := by rw [hp]; simp
    refine h.phases_update g (i := w) rfl ?_ j
    exact forRequest_framed _ ((ho.posted w reply hm).1.sized hB hr) _
  | proxyFlight id p q event i key r =>
    refine h.phases_update g (i := i) rfl ?_ j
    exact phaseFramed_flight i _ key _ true
  | proxyDirect id p q event i r _ _ _ hh =>
    refine h.phases_update g (i := i) rfl ?_ j
    exact forRequest_framed ⟨r, .proxy id⟩ (UpstreamProxy.handle_sized hB hh) _
  | respond i reply hph =>
    have hi := h i
    rw [PhaseFramed, hph] at hi
    refine h.phases_update g (i := i) rfl ?_ j
    refine ⟨hi.needEof hB, (st.sessions i).requestStarted, st.now, reply, ?_, ?_⟩
    · exact g.mem ((Reachable.requests hr).current i (by rw [hph]; rfl))
    · exact List.mem_append_right _ (List.mem_singleton.2 rfl)

theorem Reachable.framing (h : Reachable cfg st) (hB : cfg.beast.Framing) : FramingInv cfg st := by
  refine h.invWith (I := FramingInv cfg) (J := Reachable cfg) (fun _ hr => hr) (fun _ => trivial) ?_
  intro st a st' hr hi _ hs
  have hst := step_sound a hs
  exact hi.step hB hr ((Reachable.core hr).proxies.grows hst) hst

/-- Every message passed to `async_write` is framed for the request it answers. -/
theorem Reachable.wrote_framed (h : Reachable cfg st) (hB : cfg.beast.Framing) {t : Int} {i n : Nat} {reply : Reply}
    (hw : ⟨t, .wrote i n reply⟩ ∈ st.log) :
    ∃ b request, ⟨b, .received i n request⟩ ∈ st.log ∧ reply.message.Framed cfg.beast request := by
  refine written (Q := fun request reply => reply.message.Framed cfg.beast request) h (fun st i reply hr hph => ?_) hw
  have hi := Reachable.framing hr hB i
  rw [PhaseFramed, hph] at hi
  exact hi

/-- **Framed for its own request, and on to the next one exactly if that one asked for it.**  A session that is told its
write failed never reads on. -/
structure WellFramed (cfg : Config) (st : State) : Prop where
  wrote : ∀ t i n reply, ⟨t, .wrote i n reply⟩ ∈ st.log →
    ∃ b request, ⟨b, .received i n request⟩ ∈ st.log ∧ reply.message.Framed cfg.beast request
  onward : ∀ i ok st', step cfg st (.written i ok) = some st' → ∃ b t request reply,
    ⟨b, .received i (st.sessions i).number request⟩ ∈ st.log ∧ ⟨t, .wrote i (st.sessions i).number reply⟩ ∈ st.log ∧
      (st'.sessions i).phase = if ok && request.keepAlive cfg.beast then .reading else .closed

theorem Reachable.wellFramed (h : Reachable cfg st) (hB : cfg.beast.Framing) : WellFramed cfg st := by
  refine ⟨fun t i n reply hw => Reachable.wrote_framed h hB hw, fun i ok st' hs => ?_⟩
  have hi := Reachable.framing h hB i
  cases step_sound _ hs with
  | writtenNext _ _ hph =>
    rw [PhaseFramed, hph] at hi
    obtain ⟨hc, b, t, reply, hb, ht⟩ := hi
    have hk : (st.sessions i).request.keepAlive cfg.beast = true := by rw [eq_comm, Bool.not_eq_false'] at hc; exact hc
    refine ⟨b, t, _, reply, hb, ht, ?_⟩
    rw [hk]
    simp [readingAgain]
  | writtenLast _ c _ _ hph hc' =>
    rw [PhaseFramed, hph] at hi
    obtain ⟨rfl, b, t, reply, hb, ht⟩ := hi
    rw [Bool.not_not] at hc'
    refine ⟨b, t, _, reply, hb, ht, ?_⟩
    rw [hc']
    simp [atPhase]

/-- A chunked response, fetched for an HTTP/1.0 client, is framed for the HTTP/1.1 client that waited for it. -/
theorem wellFramed_coldMisses : ∃ st, Reachable sampleConfig st ∧ writes st 0 1 = 1 ∧ writes st 1 1 = 1 ∧
    (st.sessions 0).phase = .closed ∧ (st.sessions 1).phase = .reading ∧ WellFramed sampleConfig st := by
  obtain ⟨st, hr, hf⟩ := Lts.exists_reach (step sampleConfig) (fun _ _ => true) (init sampleConfig)
    (coldMisses ⟨.get, "/x".toList, 10, [], []⟩ (getOf "/x".toList []) ++
      upstreamAnswers 0 ⟨200, 11, [⟨"Transfer-Encoding".toList, "chunked".toList⟩], "hi".toList⟩ ++
      [.put 0, .complete 0, .callback 0, .respond 0, .respond 1, .written 0 true, .written 1 true])
    (fun st => decide (writes st 0 1 = 1 ∧ writes st 1 1 = 1 ∧ (st.sessions 0).phase = .closed ∧
      (st.sessions 1).phase = .reading)) (by decide +kernel)
  obtain ⟨h0, h1, h2, h3⟩ := of_decide_eq_true hf
  exact ⟨st, hr.any, h0, h1, h2, h3, Reachable.wellFramed hr.any ReferenceBeast.framing⟩

end Server
end EventEdge
