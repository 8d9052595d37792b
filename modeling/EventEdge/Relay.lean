import EventEdge.Forwarding
/-!
# Relay — messages through the edge, in both directions

`Relayed` is what the client's side of a proxy makes of the message an upstream sent: the status, the body and the
end-to-end fields are the upstream's, the framing is the proxy's own.  In the other direction a request may pass
several edges one after the other (`forwardAll`): what the last one sends is what it would have sent for the client's
own request, but for a field named Close, which the Connection field of the edge before it names.
-/
namespace EventEdge

variable {B : Beast}

/-! ## To the client -/

/-- **What a client may be sent for the message an upstream sent.** -/
structure Relayed (raw m : HttpResponse) : Prop where
  result : m.result = raw.result
  body : m.body = raw.body
  length : m.fields.values HeaderField.contentLength.text = [decimal raw.body.length]
  hopByHop : ∀ name : Str, isHopByHop name = true → iequals name HeaderField.connection.text = false →
    m.fields.values name = []
  endToEnd : ∀ name : Str, isHopByHop name = false → iequals name HeaderField.contentLength.text = false →
    m.fields.values name = if namedByConnection raw.fields name then [] else raw.fields.values name

/-- The version and the Connection field are the client's business. -/
theorem Relayed.sameContent {raw m m' : HttpResponse} (h : Relayed raw m) (hs : m'.SameContent m) : Relayed raw m' := by
  have hv : ∀ name, iequals name HeaderField.connection.text = false → m'.fields.values name = m.fields.values name := by
    intro name hname
    unfold Fields.values
    rw [Fields.all_of_others hs.2.2 (List.forall_mem_singleton.2 hname)]
  refine ⟨hs.1.trans h.result, hs.2.1.trans h.body, ?_, fun name hname hconn => ?_, fun name hname hlen => ?_⟩
  · rw [hv _ (by decide)]; exact h.length
  · rw [hv name hconn]; exact h.hopByHop name hname hconn
  · rw [hv name (iequals_eq_false_of_isHopByHop hname)]; exact h.endToEnd name hname hlen

namespace UpstreamProxy

/-- **What `on_read` hands over is the upstream's message, relayed.** -/
theorem relayed_prepared (hB : B.Framing) {p : UpstreamProxy} {raw m : HttpResponse}
    (h : (p.relayed B raw).preparePayload B = .ok m) : Relayed raw m := by
  have hfields : m.fields = B.responsePayload raw.result p.clientVersion raw.body.length
      (B.setKeepAlive p.clientVersion p.clientKeepAlive (removeHopByHopHeaders raw.fields)) := by
    rw [HttpResponse.preparePayload_ok h]; rfl
  have hsized := onRead_sized hB h
  refine ⟨by rw [HttpResponse.preparePayload_ok h]; rfl, by rw [HttpResponse.preparePayload_ok h]; rfl, ?_,
    fun name hname hconn => ?_, fun name hname hlen => ?_⟩
  · rw [hsized.length, HttpResponse.preparePayload_ok h]; rfl
  · by_cases hte : iequals name HeaderField.transferEncoding.text = true
    · have hnone := hsized.unchunked
      rw [Fields.has_eq, Bool.not_eq_false', List.isEmpty_iff] at hnone
      rw [Fields.values, Fields.all_congr hte, hnone]
      rfl
    · have hlen : iequals name HeaderField.contentLength.text = false := iequals_eq_false_of_isHopByHop hname
      rw [Fields.values, hfields, all_responsePayload B _ _ _ _ _ hlen (Bool.eq_false_iff.2 hte),
        all_setKeepAlive B _ _ _ _ hconn, all_removeHopByHopHeaders, hname]
      rfl
  · rw [Fields.values, all_relayed h name hname hlen]
    split <;> rfl

/-! ## Through several edges -/

variable (B) in
/-- The request `run` writes to the upstream, or its exception. -/
def forward (upstream : UpstreamEndpoint) (request : HttpRequest) : Except Thrown HttpRequest :=
  (rewritten B upstream request).preparePayload B

variable (B) in
/-- One edge after the other, each the upstream of the one before. -/
def forwardAll : List UpstreamEndpoint → HttpRequest → Except Thrown HttpRequest
  | [], request => .ok request
  | upstream :: rest, request => (forward B upstream request).bind (forwardAll rest)

theorem run_request (p : UpstreamProxy) : (p.run B).map UpstreamProxy.request = forward B p.upstream p.request := by
  unfold run forward
  cases (rewritten B p.upstream p.request).preparePayload B <;> rfl

/-- Whether an exception is thrown depends on the method and the body, which no edge changes. -/
theorem forward_eq (upstream : UpstreamEndpoint) (request : HttpRequest) : forward B upstream request =
    if request.method = .trace ∧ request.body ≠ [] then .error .invalidArgument else .ok (sent B upstream request) := rfl

/-- The edge after reads one Connection option: close. -/
theorem namedByConnection_sent (hB : B.RequestFraming) (upstream : UpstreamEndpoint) (request : HttpRequest) (name : Str) :
    namedByConnection (sent B upstream request).fields name = iequals name "close".toList := by
  have hoptions : options "close".toList = ["close".toList] := by decide +kernel
  rw [namedByConnection, (forwarded_sent hB upstream request).connection, List.any_cons, List.any_nil, Bool.or_false,
    hoptions, List.any_cons, List.any_nil, Bool.or_false]

theorem length_sent (hB : B.RequestFraming) (upstream : UpstreamEndpoint) (request : HttpRequest) :
    (sent B upstream request).fields.values HeaderField.contentLength.text =
      if 0 < request.body.length ∨ request.method = .options ∨ request.method = .put ∨ request.method = .post then
        [decimal request.body.length] else [] :=
  hB.requestPayload_length _ _ _ _

/-- **A second edge changes nothing**, but for a field named Close. -/
theorem values_sent_sent (hB : B.RequestFraming) (first last : UpstreamEndpoint) (request : HttpRequest) (name : Str)
    (hclose : iequals name "close".toList = false) :
    (sent B last (sent B first request)).fields.values name = (sent B last request).fields.values name := by
  have htwice := forwarded_sent hB last (sent B first request)
  have honce := forwarded_sent hB last request
  have congr : ∀ {a : Str} {f : Fields}, iequals name a = true → f.values name = f.values a := by
    intro a f ha
    rw [Fields.values, Fields.values, Fields.all_congr ha]
  cases hr : isRewritten name with
  | false =>
    rw [values_sent last _ name hr, namedByConnection_sent hB, hclose, values_sent first request name hr,
      values_sent last request name hr]
    rfl
  | true =>
    -- Host, Content-Length and Connection are the last edge's own; no other hop-by-hop field is there
    simp only [isRewritten, Bool.or_eq_true] at hr
    rcases hr with (hhost | hlen) | hhop
    · rw [congr hhost, congr hhost, htwice.host, honce.host]
    · rw [congr hlen, congr hlen, length_sent hB, length_sent hB]
      rfl
    · by_cases hconn : iequals name HeaderField.connection.text = true
      · rw [congr hconn, congr hconn, htwice.connection, honce.connection]
      · rw [htwice.hopByHop name hhop (Bool.eq_false_iff.2 hconn), honce.hopByHop name hhop (Bool.eq_false_iff.2 hconn)]

/-- **A request that passes several edges arrives as if it had passed the last one alone**: with its method, target,
body and version, and the same values of every field that is not named Close. -/
theorem forwardAll_last (hB : B.RequestFraming) (last : UpstreamEndpoint) {wire : HttpRequest} :
    ∀ (edges : List UpstreamEndpoint) (request : HttpRequest), forward B last request = .ok wire →
      ∃ wire', forwardAll B (edges ++ [last]) request = .ok wire' ∧ wire'.method = wire.method ∧
        wire'.target = wire.target ∧ wire'.body = wire.body ∧ wire'.version = wire.version ∧
        ∀ name, iequals name "close".toList = false → wire'.fields.values name = wire.fields.values name := by
  have same : ∀ {request : HttpRequest} {w : HttpRequest}, forward B last request = .ok w →
      ¬ (request.method = .trace ∧ request.body ≠ []) ∧ w = sent B last request := by
    intro request w h
    rw [forward_eq] at h
    split at h
    · cases h
    · rename_i hok; cases h; exact ⟨hok, rfl⟩
  intro edges
  induction edges generalizing wire with
  | nil =>
    intro request h
    refine ⟨wire, ?_, rfl, rfl, rfl, rfl, fun _ _ => rfl⟩
    rw [List.nil_append, forwardAll, h]
    rfl
  | cons first edges ih =>
    intro request h
    obtain ⟨hok, rfl⟩ := same h
    have hnext : forward B last (sent B first request) = .ok (sent B last (sent B first request)) := by
      rw [forward_eq]; exact if_neg hok
    obtain ⟨wire', hwire', hm, ht, hb, hv, hvalues⟩ := ih (sent B first request) hnext
    refine ⟨wire', ?_, hm, ht, hb, hv, fun name hname => ?_⟩
    · rw [List.cons_append, forwardAll, forward_eq, if_neg hok]
      exact hwire'
    · rw [hvalues name hname, values_sent_sent hB first last request name hname]

/-- A request through three edges. -/
theorem forwardAll_last_three : ∃ wire wire',
    forward referenceBeast ⟨"c".toList, 80⟩ selfNaming = .ok wire ∧
    forwardAll referenceBeast ([⟨"a".toList, 80⟩, ⟨"b".toList, 80⟩] ++ [⟨"c".toList, 80⟩]) selfNaming = .ok wire' ∧
    ∀ name, iequals name "close".toList = false → wire'.fields.values name = wire.fields.values name := by
  obtain ⟨wire', h, -, -, -, -, hvalues⟩ := forwardAll_last ReferenceBeast.requestFraming ⟨"c".toList, 80⟩
    [⟨"a".toList, 80⟩, ⟨"b".toList, 80⟩] selfNaming rfl
  exact ⟨_, wire', rfl, h, hvalues⟩

/-- The exception: the second edge takes a field named Close for one of the connection's. -/
example : (sent referenceBeast ⟨"b".toList, 80⟩ (sent referenceBeast ⟨"a".toList, 80⟩
      ⟨.get, "/x".toList, 11, [⟨"Close".toList, "1".toList⟩], []⟩)).fields.values "Close".toList = [] ∧
    (sent referenceBeast ⟨"b".toList, 80⟩
      ⟨.get, "/x".toList, 11, [⟨"Close".toList, "1".toList⟩], []⟩).fields.values "Close".toList = ["1".toList] := by
  decide +kernel

end UpstreamProxy
end EventEdge
