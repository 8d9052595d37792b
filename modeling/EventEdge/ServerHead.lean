import EventEdge.ServerFraming
/-!
# ServerHead — requests that expect no body

Two places would have to know that a request is a HEAD and neither looks at its method.  `async_read` into a plain
response message waits for the body the upstream's Content-Length announces, which does not come
(`Reachable.head_announced`); only an announced length of zero gets through (`Reachable.head_relayed_iff`).  And
`write_response` writes whatever body a response has: the server's own answers have one, so a HEAD request is answered
without one exactly as long as an upstream serves it (`head_bodiless`).
-/
namespace EventEdge

/-! ## Reading the upstream's answer -/

/-- `http::async_read` into a plain response message, over a connection that brings the header and `arrived` and is then
closed: as many octets as Content-Length announces, none for a status without a body. -/
def asyncRead (head : HttpResponse) (arrived : Str) : Except OpError HttpResponse :=
  if bodiless head.result then .ok { head with body := [] }
  else match ofDecimal (head.fields.value HeaderField.contentLength.text) with
    | none => .ok { head with body := arrived }
    | some n => if n ≤ arrived.length then .ok { head with body := arrived.take n } else .error .other

/-- The header of a final response to HEAD that announces `n` octets. -/
structure HeadAnswer (n : Nat) (head : HttpResponse) : Prop where
  final : 200 ≤ head.result
  length : head.fields.values HeaderField.contentLength.text = [decimal n]
  unchunked : head.fields.has HeaderField.transferEncoding.text = false
  empty : head.body = []

theorem HeadAnswer.announced {n : Nat} {head : HttpResponse} (h : HeadAnswer n head) :
    ofDecimal (head.fields.value HeaderField.contentLength.text) = some n := by
  rw [Fields.value_eq, h.length]
  exact ofDecimal_decimal n

/-- A HEAD answer that announces nothing is read, and so is one whose status has no body. -/
theorem HeadAnswer.read_passed {n : Nat} {head : HttpResponse} (h : HeadAnswer n head)
    (hn : n = 0 ∨ bodiless head.result = true) : asyncRead head [] = .ok head := by
  have hbody : { head with body := [] } = head := by rw [← h.empty]
  unfold asyncRead
  split
  · rw [hbody]
  · rename_i hb
    rw [h.announced, hn.resolve_right hb]
    exact congrArg Except.ok hbody

theorem HeadAnswer.read_announced {n : Nat} {head : HttpResponse} (h : HeadAnswer n head) (hn : 0 < n)
    (hb : bodiless head.result = false) : asyncRead head [] = .error .other := by
  unfold asyncRead
  rw [h.announced, hb]
  exact if_neg (Nat.not_le.2 hn)

/-- The body of the proxy's own 502. -/
theorem UpstreamProxy.fail_body {B : Beast} {p q : UpstreamProxy} {h : CompletionHandler} {m : HttpResponse}
    (hf : p.fail B .other = .ok (q, some (h, m))) : m.body = "Bad Gateway\n".toList := by
  unfold fail at hf
  split at hf
  · cases hf
  · simp only [makeBadGatewayResponse, makeResponse_ok] at hf
    rw [complete_some (Except.ok.inj hf)]
    rfl

theorem decimal_injective {m n : Nat} (h : decimal m = decimal n) : m = n :=
  Option.some.inj ((ofDecimal_decimal m).symm.trans (h ▸ ofDecimal_decimal n))

namespace Server

variable {cfg : Config} {st st' : State} {a : Action}

/-- The event that completes a run is handled. -/
theorem CoreInv.completes (hc : CoreInv cfg st) (ht : st.stopped = false) {id : Nat} {p q : UpstreamProxy}
    {event : ProxyEvent} {handler : CompletionHandler} {r : HttpResponse} (hp : st.proxies[id]? = some p)
    (hop : event.op ∈ p.outstanding)
    (hh : (withoutOp p event).handle cfg.beast cfg.timeouts st.now event = .ok (q, some (handler, r))) :
    ∃ st', Server.step cfg st (.proxy id event) = some st' ∧ Completed st' id p.fetch r := by
  have hs : Server.step cfg st (.proxy id event) = some (onProxy cfg st id p event) := by
    simp only [Server.step, ht, hp]
    exact if_pos hop
  obtain ⟨-, -, rfl, -, -⟩ := hc.proxies.finished hp hop hh
  have hps : (onProxy cfg st id p event).proxies = st.proxies.set id
      { withoutOp p event with completed := true, completionHandler := none, result := some r } := by
    unfold onProxy
    unfold withoutOp at hh
    simp only [hh]
    cases handler <;> rfl
  have hget : (onProxy cfg st id p event).proxies[id]? = some
      { withoutOp p event with completed := true, completionHandler := none, result := some r } := by
    rw [hps, List.getElem?_set_self (List.getElem?_eq_some_iff.1 hp).1]
  exact ⟨_, hs, _, hget, rfl, rfl, rfl⟩

/-- A message that is read completes its run with the same status and body. -/
theorem CoreInv.read_completes (hc : CoreInv cfg st) (ht : st.stopped = false) {id : Nat} {p : UpstreamProxy}
    {raw : HttpResponse} (hp : st.proxies[id]? = some p) (hop : .read ∈ p.outstanding)
    (hb : bodiless raw.result = true → raw.body = []) :
    ∃ st' r, Server.step cfg st (.proxy id (.read (.ok raw))) = some st' ∧ Completed st' id p.fetch r ∧
      r.result = raw.result ∧ r.body = raw.body ∧
      ((withoutOp p (.read (.ok raw))).relayed cfg.beast raw).preparePayload cfg.beast = .ok r := by
  replace hop : (ProxyEvent.read (.ok raw)).op ∈ p.outstanding := hop
  obtain ⟨hpc, -, hch, -⟩ := hc.proxies.event hp hop
  have hprep : ∃ r, ((withoutOp p (.read (.ok raw))).relayed cfg.beast raw).preparePayload cfg.beast = .ok r := by
    unfold HttpResponse.preparePayload
    rw [if_neg (fun h => h.2 (hb h.1))]
    exact ⟨_, rfl⟩
  obtain ⟨r, hr⟩ := hprep
  have hh := UpstreamProxy.onRead_running cfg.beast (withoutOp p (.read (.ok raw))) _ raw r hpc hch hr
  obtain ⟨st', hs, hcm⟩ := hc.completes ht hp hop hh
  refine ⟨st', r, hs, hcm, ?_, ?_, hr⟩
  · rw [HttpResponse.preparePayload_ok hr]; rfl
  · rw [HttpResponse.preparePayload_ok hr]; rfl

/-- What a run completes with in a step is one message. -/
theorem completes_with_iff {Q : HttpResponse → Prop} {id : Nat} {fetch : Fetch} {r : HttpResponse}
    (hs : step cfg st a = some st') (hcm : Completed st' id fetch r) :
    (∃ st'' r', step cfg st a = some st'' ∧ Completed st'' id fetch r' ∧ Q r') ↔ Q r := by
  constructor
  · rintro ⟨st'', r', hs', hcm', hq⟩
    cases hs.symm.trans hs'
    rw [(hcm.unique hcm').2]
    exact hq
  · exact fun hq => ⟨st', r, hs, hcm, hq⟩

/-- **A HEAD answer that announces a body is turned into 502**, unless its status is one without a body. -/
theorem Reachable.head_announced (h : Reachable cfg st) (hB : cfg.beast.Framing) (ht : st.stopped = false) {id n : Nat}
    {p : UpstreamProxy} {head : HttpResponse} (hp : st.proxies[id]? = some p) (hop : .read ∈ p.outstanding)
    (hhead : HeadAnswer n head) (hn : 0 < n) (hb : bodiless head.result = false) :
    ∃ st' r, step cfg st (.proxy id (.read (asyncRead head []))) = some st' ∧ Completed st' id p.fetch r ∧
      r.result = 502 ∧ r.fields.values HeaderField.contentLength.text = [decimal "Bad Gateway\n".toList.length] := by
  have hc := Reachable.core h
  rw [hhead.read_announced hn hb]
  replace hop : (ProxyEvent.read (.error .other)).op ∈ p.outstanding := hop
  obtain ⟨hpc, -, hch, -⟩ := hc.proxies.event hp hop
  obtain ⟨r, hr, hh⟩ := UpstreamProxy.fail_running cfg.beast (withoutOp p (.read (.error .other))) _ .other hpc hch
  obtain ⟨st', hs, hcm⟩ := hc.completes ht hp hop hh
  refine ⟨st', r, hs, hcm, hr, ?_⟩
  rw [(UpstreamProxy.fail_sized hB hh).length, UpstreamProxy.fail_body hh]

/-- A HEAD answer that announces nothing, or has a status without a body, is relayed with its status and a
Content-Length of zero. -/
theorem Reachable.head_passed (h : Reachable cfg st) (hB : cfg.beast.Framing) (ht : st.stopped = false) {id n : Nat}
    {p : UpstreamProxy} {head : HttpResponse} (hp : st.proxies[id]? = some p) (hop : .read ∈ p.outstanding)
    (hhead : HeadAnswer n head) (hn : n = 0 ∨ bodiless head.result = true) :
    ∃ st' r, step cfg st (.proxy id (.read (asyncRead head []))) = some st' ∧ Completed st' id p.fetch r ∧
      r.result = head.result ∧ r.fields.values HeaderField.contentLength.text = [decimal 0] := by
  rw [hhead.read_passed hn]
  obtain ⟨st', r, hs, hcm, hres, hbody, hr⟩ := (Reachable.core h).read_completes ht hp hop (fun _ => hhead.empty)
  refine ⟨st', r, hs, hcm, hres, ?_⟩
  have hlen := (UpstreamProxy.onRead_sized hB hr).length
  rwa [hbody, hhead.empty] at hlen

/-- **The answer to a HEAD request is relayed with its status and its Content-Length exactly if that is zero**, or the
upstream's 502 happens to announce as much as the proxy's own has.  The run does not look at the method of its
request: for any other length it completes with its own 502 or, if the status is one without a body, with a length of
zero. -/
theorem Reachable.head_relayed_iff (h : Reachable cfg st) (hB : cfg.beast.Framing) (ht : st.stopped = false) {id n : Nat}
    {p : UpstreamProxy} {head : HttpResponse} (hp : st.proxies[id]? = some p) (hop : .read ∈ p.outstanding)
    (hhead : HeadAnswer n head) :
    (∃ st' r, step cfg st (.proxy id (.read (asyncRead head []))) = some st' ∧ Completed st' id p.fetch r ∧
      r.result = head.result ∧ r.fields.values HeaderField.contentLength.text = [decimal n]) ↔
    n = 0 ∨ head.result = 502 ∧ n = "Bad Gateway\n".toList.length := by
  by_cases hpass : n = 0 ∨ bodiless head.result = true
  · obtain ⟨st₁, r₁, hs₁, hcm₁, hres₁, hlen₁⟩ := h.head_passed hB ht hp hop hhead hpass
    rw [completes_with_iff hs₁ hcm₁, hres₁, hlen₁]
    constructor
    · rintro ⟨-, hlen⟩
      exact .inl (decimal_injective (List.singleton_inj.1 hlen)).symm
    · rintro (rfl | ⟨h502, -⟩)
      · exact ⟨rfl, rfl⟩
      · rcases hpass with rfl | hb
        · exact ⟨rfl, rfl⟩
        · rw [h502] at hb; cases hb
  · rw [not_or, Bool.not_eq_true] at hpass
    obtain ⟨hn, hb⟩ := hpass
    obtain ⟨st₁, r₁, hs₁, hcm₁, hres₁, hlen₁⟩ := h.head_announced hB ht hp hop hhead (Nat.pos_of_ne_zero hn) hb
    rw [completes_with_iff hs₁ hcm₁, hres₁, hlen₁]
    constructor
    · rintro ⟨hres, hlen⟩
      exact .inr ⟨hres.symm, (decimal_injective (List.singleton_inj.1 hlen)).symm⟩
    · rintro (h0 | ⟨h502, rfl⟩)
      · exact absurd h0 hn
      · exact ⟨h502.symm, rfl⟩

/-- A client's HEAD request, and the header an upstream answers it with. -/
def headOf (target : Str) : HttpRequest := ⟨.head, target, 11, [], []⟩
def announces (n : Nat) : HttpResponse := ⟨200, 11, [⟨"Content-Length".toList, decimal n⟩], []⟩

theorem announces_headAnswer (n : Nat) : HeadAnswer n (announces n) := ⟨Nat.le_refl 200, rfl, rfl, rfl⟩

/-- A HEAD request is being fetched, and the upstream is about to answer. -/
def headFetch : List Action :=
  [.accept 0, .read 0 (.ok (headOf "/x".toList)), .select 0, .proxy 0 (.resolved none), .proxy 0 (.connected none),
    .proxy 0 (.wrote none)]

/-- Run 0 is reading the answer to a HEAD request. -/
def readingHead (st : State) : Bool :=
  decide (st.stopped = false) && (st.proxies[0]?).any (fun p => decide (.read ∈ p.outstanding ∧
    p.fetch.client = headOf "/x".toList))

theorem proxy_of_readingHead (h : readingHead st = true) : st.stopped = false ∧ ∃ p, st.proxies[0]? = some p ∧
    .read ∈ p.outstanding ∧ p.fetch.client = headOf "/x".toList := by
  rw [readingHead, Bool.and_eq_true, decide_eq_true_eq, Option.any_eq_true] at h
  obtain ⟨ht, p, hp, h⟩ := h
  exact ⟨ht, p, hp, of_decide_eq_true h⟩

theorem head_relayed_zero : ∃ st st' p r, Reachable sampleConfig st ∧ st.proxies[0]? = some p ∧
    p.fetch.client = headOf "/x".toList ∧ step sampleConfig st (.proxy 0 (.read (asyncRead (announces 0) []))) = some st' ∧
    Completed st' 0 p.fetch r ∧ r.result = 200 ∧ r.fields.values HeaderField.contentLength.text = [decimal 0] := by
  obtain ⟨st, hr, hf⟩ := Lts.exists_reach (step sampleConfig) (fun _ _ => true) (init sampleConfig) headFetch readingHead
    (by decide +kernel)
  obtain ⟨ht, p, hp, hop, hq⟩ := proxy_of_readingHead hf
  obtain ⟨st', r, hs, hcm, hres, hlen⟩ :=
    (Reachable.head_relayed_iff hr.any ReferenceBeast.framing ht hp hop (announces_headAnswer 0)).2 (.inl rfl)
  exact ⟨st, st', p, r, hr.any, hp, hq, hs, hcm, hres, hlen⟩

/-- **The answer to a HEAD request announces five octets, and the client is told 502.** -/
theorem head_bad_gateway : ∃ st st' p r, Reachable sampleConfig st ∧ st.proxies[0]? = some p ∧
    p.fetch.client = headOf "/x".toList ∧ HeadAnswer 5 (announces 5) ∧
    step sampleConfig st (.proxy 0 (.read (asyncRead (announces 5) []))) = some st' ∧
    Completed st' 0 p.fetch r ∧ (announces 5).result = 200 ∧ r.result = 502 := by
  obtain ⟨st, hr, hf⟩ := Lts.exists_reach (step sampleConfig) (fun _ _ => true) (init sampleConfig) headFetch readingHead
    (by decide +kernel)
  obtain ⟨ht, p, hp, hop, hq⟩ := proxy_of_readingHead hf
  obtain ⟨st', r, hs, hcm, hres, -⟩ :=
    Reachable.head_announced hr.any ReferenceBeast.framing ht hp hop (announces_headAnswer 5) (by decide) (by decide)
  exact ⟨st, st', p, r, hr.any, hp, hq, announces_headAnswer 5, hs, hcm, rfl, hres⟩

/-! ## Writing an answer -/

/-- Whatever is written in answer to a HEAD request, no body octet follows its header. -/
def HeadBodiless (st : State) : Prop :=
  ∀ t b i n request reply, ⟨b, .received i n request⟩ ∈ st.log → ⟨t, .wrote i n reply⟩ ∈ st.log →
    request.method = .head → reply.message.bodyOctets = []

/-- The operation succeeded, and a message it brought has no body. -/
def servesHead : ProxyEvent → Bool
  | .resolved e | .connected e | .wrote e => e.isNone
  | .read (.ok raw) => raw.body.isEmpty
  | .read (.error _) => false

/-- A HEAD request is not for a local route, finds a healthy upstream, and is served by it. -/
def headServed (st : State) : Action → Bool
  | .read _ (.ok request) => decide (request.method ≠ .head) || !isLocalRequest request
  | .select i => decide ((st.sessions i).request.method ≠ .head) || st.pool.anyHealthy
  | .proxy id event => (st.proxies[id]?).all (fun p => decide (p.fetch.client.method ≠ .head) || servesHead event)
  | _ => true

/-- What a served request is answered with has no body. -/
theorem handle_served {p q : UpstreamProxy} {event : ProxyEvent} {handler : CompletionHandler} {r : HttpResponse}
    {now : Int} (hserve : servesHead event = true)
    (hh : p.handle cfg.beast cfg.timeouts now event = .ok (q, some (handler, r))) : r.body = [] := by
  match event with
  | .resolved (some _) | .connected (some _) | .wrote (some _) | .read (.error _) => cases hserve
  | .resolved none | .connected none | .wrote none => cases hh
  | .read (.ok raw) =>
    rw [HttpResponse.preparePayload_ok (UpstreamProxy.onRead_some hh)]
    exact List.isEmpty_iff.1 hserve

/-- What a session is about to write in answer to a HEAD request has no body. -/
def HeadInv (st : State) : Prop :=
  ∀ i reply, (st.sessions i).phase = .responding reply → (st.sessions i).request.method = .head →
    reply.message.body = []

theorem HeadInv.move (h : HeadInv st) {i : Nat} {s : Session} (hs : st'.sessions = Function.update st.sessions i s)
    (hnew : ∀ reply, s.phase = .responding reply → s.request.method = .head → reply.message.body = []) :
    HeadInv st' :=
  Lts.update_all (Q := fun _ (s : Session) => ∀ reply, s.phase = .responding reply → s.request.method = .head →
    reply.message.body = []) hs hnew h

theorem HeadInv.step (h : HeadInv st) (hr : Reachable cfg st) (hP : headServed st a = true) (hs : Step cfg st a st') :
    HeadInv st' := by
  have hc := Reachable.core hr
  -- no cacheable request is a HEAD
  have cacheable : ∀ {request : HttpRequest}, cacheableRequest request = true → request.method ≠ .head := by
    intro request hq he
    rw [get_of_cacheable hq] at he; cases he
  cases hs with
  | tick _ _ | proxyStep _ _ _ _ _ _ _ _ | proxyThrow _ _ _ _ _ _ _ _ | health _ _ _ _ _ _ => exact h
  | accept i | readError i | readCacheable i | readOther i | miss i | lead i | wait i | leadUnavailable i | leadFetch i
  | leadThrow i | directFetch i | directThrow i | store i | respond i | writtenNext i | writtenLast i =>
    exact h.move (i := i) rfl (fun reply e => by cases e)
  | readLocal i request response _ _ hl _ =>
    refine h.move (i := i) rfl (fun reply _ hm => ?_)
    have hm' : request.method = .head := hm
    rw [headServed, hm', hl] at hP
    cases hP
  | hit i key cached hph _ | missAlone i key hph _ _ =>
    have hi := hc.path i
    rw [PathOk, hph] at hi
    exact h.move (i := i) rfl (fun reply _ hm => absurd hm (cacheable hi.2.1))
  | release i key reply hph =>
    have hi := hc.path i
    rw [PathOk, hph] at hi
    exact h.move (i := i) rfl (fun reply _ hm => absurd hm (cacheable hi.2.1))
  | callback pre post w reply _ hp =>
    obtain ⟨k, hk⟩ := hc.callback_waiting hp
    have hi := hc.path w
    rw [PathOk, hk] at hi
    exact h.move (i := w) rfl (fun reply _ hm => absurd hm (cacheable hi.2.1))
  | directUnavailable i hph hsel =>
    refine h.move (i := i) rfl (fun reply _ hm => ?_)
    have hm' : (st.sessions i).request.method = .head := hm
    rw [headServed, hm', ← st.pool.select_fst_isSome, hsel] at hP
    cases hP
  | proxyFlight id p q event i key r =>
    exact h.move (i := i) rfl (fun reply e => absurd e (flightPhase_ne (p := .responding reply) (fun e => by cases e) _ true))
  | proxyDirect id p q event i r _ hp hop hh =>
    have hi := (Reachable.origins hr).phases i
    rw [PhaseOk, hc.proxies.direct_phase hp hop hh] at hi
    obtain ⟨⟨p', hp', -, hq⟩, -⟩ := hi
    rw [hp] at hp'; cases hp'
    refine h.move (i := i) rfl (fun reply e hm => ?_)
    have hm' : p.fetch.client.method = .head := by rw [hq]; exact hm
    have hserve : servesHead event = true := by
      rw [headServed, hp, Option.all_some, hm'] at hP
      exact hP
    have hbody : r.body = [] := handle_served hserve hh
    rw [← Phase.responding.inj e]
    exact hbody

/-- **As long as the upstreams serve the HEAD requests, their answers have no body octets.** -/
theorem head_bodiless (h : Lts.Reach (step cfg) (fun st a => headServed st a = true) (init cfg) st)
    (hB : cfg.beast.Framing) : HeadBodiless st := by
  intro t b i n request reply hb hw hm
  have hinv : ∀ st, Lts.Reach (step cfg) (fun st a => headServed st a = true) (init cfg) st → HeadInv st := by
    intro st hr
    refine hr.invWith (I := HeadInv) (J := Reachable cfg) (fun _ hr => hr) (fun i reply e => by cases e) ?_
    intro st a st' hr hi hP hs
    exact hi.step hr hP (step_sound a hs)
  obtain ⟨b₁, request₁, hb₁, hbody⟩ := written (Q := fun request reply => request.method = .head →
    reply.message.body = []) h (fun st i reply hr hph hm => hinv st hr i reply hph hm) hw
  obtain ⟨b₂, request₂, hb₂, hframed⟩ := Reachable.wrote_framed h.any hB hw
  obtain ⟨-, rfl⟩ := (Reachable.requests h.any).unique b b₁ i n request request₁ hb hb₁
  rw [hframed.toSized.bodyOctets_eq]
  exact hbody hm

/-- A HEAD request is relayed, its answer announces nothing. -/
theorem head_bodiless_served : ∃ st, Lts.Reach (step sampleConfig) (fun st a => headServed st a = true) (init sampleConfig) st ∧
    writes st 0 1 = 1 ∧ (st.sessions 0).request = headOf "/x".toList ∧ HeadBodiless st := by
  obtain ⟨st, hr, hf⟩ := Lts.exists_reach (step sampleConfig) headServed (init sampleConfig)
    (headFetch ++ [.proxy 0 (.read (asyncRead (announces 0) [])), .respond 0])
    (fun st => decide (writes st 0 1 = 1 ∧ (st.sessions 0).request = headOf "/x".toList)) (by decide +kernel)
  obtain ⟨hw, hq⟩ := of_decide_eq_true hf
  exact ⟨st, hr, hw, hq, head_bodiless hr ReferenceBeast.framing⟩

/-- **HEAD to a local route is answered 405 with a body.** -/
theorem head_health_body : ∃ st, Reachable sampleConfig st ∧ ¬ HeadBodiless st := by
  obtain ⟨st, hr, hf⟩ := Lts.exists_reach (step sampleConfig) (fun _ _ => true) (init sampleConfig)
    [.accept 0, .read 0 (.ok (headOf "/health".toList)), .respond 0]
    (fun st => decide (∃ e ∈ st.log, e.event = .received 0 1 (headOf "/health".toList)) &&
      wroteWith st 0 1 (fun reply => decide (reply.message.bodyOctets = "Method not allowed\n".toList)))
    (by decide +kernel)
  rw [Bool.and_eq_true, wroteWith_iff] at hf
  obtain ⟨hb, t, reply, ht, he⟩ := hf
  obtain ⟨⟨b, e'⟩, hb, rfl⟩ := of_decide_eq_true hb
  refine ⟨st, hr.any, fun hall => ?_⟩
  have hnil := hall t b 0 1 _ reply hb ht rfl
  rw [of_decide_eq_true he] at hnil
  cases hnil

end Server
end EventEdge
