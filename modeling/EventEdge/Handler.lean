import EventEdge.Http
/-!
# Handler — the responses the server makes itself (`http_handler.cpp`)

Every one goes through `makeResponse`, whose `prepare_payload` may throw; none of the statuses it is called with is
bodiless, so none of them does (`makeResponse_ok`).
-/
namespace EventEdge

variable (B : Beast)

/-- The members of `http::status` the code names. -/
inductive Status where
  | ok | notFound | methodNotAllowed | badGateway | serviceUnavailable | gatewayTimeout
  deriving DecidableEq, Repr

/-- The status as `result_int()` shows it. -/
def Status.code : Status → Nat
  | .ok => 200
  | .notFound => 404
  | .methodNotAllowed => 405
  | .badGateway => 502
  | .serviceUnavailable => 503
  | .gatewayTimeout => 504

theorem Status.code_not_bodiless (s : Status) : bodiless s.code = false := by cases s <;> rfl

/-- The message `make_response` hands to `prepare_payload`. -/
def draftResponse (request : HttpRequest) (status : Status) (contentType body : Str) : HttpResponse :=
  let fields := Fields.set (Fields.set [] HeaderField.server.text "EventEdge".toList) HeaderField.contentType.text
    contentType
  let response : HttpResponse := ⟨status.code, request.version, fields, []⟩
  { response.setKeepAlive B (request.keepAlive B) with body := body }

/-- `make_response`. -/
def makeResponse (request : HttpRequest) (status : Status) (contentType body : Str) : Except Thrown HttpResponse :=
  (draftResponse B request status contentType body).preparePayload B

/-- The message `make_response` returns. -/
def madeResponse (request : HttpRequest) (status : Status) (contentType body : Str) : HttpResponse :=
  let draft := draftResponse B request status contentType body
  { draft with fields := B.responsePayload draft.result draft.version draft.body.length draft.fields }

/-- **No response the server makes itself throws.** -/
theorem makeResponse_ok (request : HttpRequest) (status : Status) (contentType body : Str) :
    makeResponse B request status contentType body = .ok (madeResponse B request status contentType body) := by
  unfold makeResponse HttpResponse.preparePayload
  have h : bodiless (draftResponse B request status contentType body).result = false := status.code_not_bodiless
  simp [h, madeResponse]

/-- `is_health_request`. -/
def isHealthRequest (request : HttpRequest) : Bool := decide (request.target = "/health".toList)

/-- The `/metrics` test of `HttpSession::on_read`. -/
def isMetricsRequest (request : HttpRequest) : Bool := decide (request.target = "/metrics".toList)

/-- A request `HttpSession::on_read` answers without any upstream. -/
def isLocalRequest (request : HttpRequest) : Bool := isHealthRequest request || isMetricsRequest request

/-- `handle_request`. -/
def handleRequest (request : HttpRequest) : Except Thrown HttpResponse :=
  if request.method ≠ .get then do
    let response ← makeResponse B request .methodNotAllowed "text/plain".toList "Method not allowed\n".toList
    return { response with fields := response.fields.set HeaderField.allow.text "GET".toList }
  else if isHealthRequest request then
    makeResponse B request .ok "application/json".toList "\x7b\"status\":\"ok\",\"service\":\"eventedge\"\x7d".toList
  else
    makeResponse B request .notFound "text/plain".toList "Not found\n".toList

theorem handleRequest_ok (request : HttpRequest) :
    ∃ r, handleRequest B request = .ok r ∧ (r.result = 200 ∨ r.result = 404 ∨ r.result = 405) := by
  unfold handleRequest
  split
  · refine ⟨_, by rw [makeResponse_ok]; rfl, .inr (.inr rfl)⟩
  · split
    · exact ⟨_, makeResponse_ok B _ _ _ _, .inl rfl⟩
    · exact ⟨_, makeResponse_ok B _ _ _ _, .inr (.inl rfl)⟩

/-- `make_bad_gateway_response`. -/
def makeBadGatewayResponse (request : HttpRequest) : Except Thrown HttpResponse :=
  makeResponse B request .badGateway "text/plain".toList "Bad Gateway\n".toList

/-- `make_service_unavailable_response`. -/
def makeServiceUnavailableResponse (request : HttpRequest) : Except Thrown HttpResponse :=
  makeResponse B request .serviceUnavailable "text/plain".toList "Service Unavailable\n".toList

/-- `make_gateway_timeout_response`. -/
def makeGatewayTimeoutResponse (request : HttpRequest) : Except Thrown HttpResponse :=
  makeResponse B request .gatewayTimeout "text/plain".toList "Gateway Timeout\n".toList

/-- The message `make_service_unavailable_response` returns. -/
def unavailableResponse (request : HttpRequest) : HttpResponse :=
  madeResponse B request .serviceUnavailable "text/plain".toList "Service Unavailable\n".toList

theorem makeServiceUnavailableResponse_ok (request : HttpRequest) :
    makeServiceUnavailableResponse B request = .ok (unavailableResponse B request) :=
  makeResponse_ok B _ _ _ _

end EventEdge
