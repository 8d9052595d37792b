import EventEdge.Handler
import EventEdge.Upstream
/-!
# Proxy — one upstream exchange (`upstream_proxy.cpp`)

An `UpstreamProxy` rewrites the client's request (`run`), then resolves, connects, writes and reads, one asynchronous
operation at a time; each operation's handler starts the next one, or completes with a response.  `handle` is the
handler of one operation, whatever its outcome; `handle_running` says everything it can do to a proxy that has not
completed.

`fetch` and `result` are ghost: what the run was started for, and the response it handed over.  No function reads them.
-/
namespace EventEdge

/-! ## Hop-by-hop headers -/

-- `std::string_view`: `find(c, start)`, `substr`, `find_first_not_of(" \t")`, `find_last_not_of(" \t")`
def findFrom (c : Char) (s : Str) (start : Nat) : Option Nat := ((s.drop start).findIdx? (· == c)).map (start + ·)
def substr (s : Str) (start count : Nat) : Str := (s.drop start).take count
def isBlank (c : Char) : Bool := c == ' ' || c == '\t'
def firstNotBlank (s : Str) : Option Nat := s.findIdx? (fun c => !isBlank c)
def lastNotBlank (s : Str) : Option Nat := (s.reverse.findIdx? (fun c => !isBlank c)).map (fun i => s.length - 1 - i)

/-- The tokenizer's loop over one Connection value, from `start`; every round but the last moves past a comma, so the
fuel of `connectionTokens` is never used up. -/
def tokenLoop (value : Str) : (fuel start : Nat) → List Str
  | 0, _ => []
  | fuel + 1, start =>
    if start < value.length then
      let stop := findFrom ',' value start
      let token := substr value start (stop.getD value.length - start)
      let found := match firstNotBlank token, lastNotBlank token with
        | some first, some last => [substr token first (last - first + 1)]
        | _, _ => []
      match stop with
      | none => found
      | some e => found ++ tokenLoop value fuel (e + 1)
    else []

def connectionTokens (value : Str) : List Str := tokenLoop value (value.length + 1) 0

def hopByHop : List HeaderField :=
  [.connection, .keepAlive, .proxyAuthenticate, .proxyAuthorization, .te, .trailer, .transferEncoding, .upgrade]

def removeHopByHopHeaders (headers : Fields) : Fields :=
  let tokens := (List.filter (Fields.named HeaderField.connection.text) headers).flatMap (fun x => connectionTokens x.value)
  hopByHop.foldl (fun f n => f.erase n.text) (tokens.foldl (fun f t => f.erase t) headers)

def upstreamHostHeader (upstream : UpstreamEndpoint) : Str :=
  if upstream.host.contains ':' then '[' :: upstream.host ++ "]:".toList ++ portText upstream.port
  else upstream.host ++ ':' :: portText upstream.port

/-! ## The proxy -/

structure ProxyTimeouts where
  connect : Int := 2000000000
  write : Int := 2000000000
  read : Int := 5000000000

inductive ProxyOp where
  | resolve | connect | write | read
  deriving DecidableEq, Repr

/-- How an operation failed: `beast::error::timeout`, or anything else. -/
inductive OpError where
  | timeout | other
  deriving DecidableEq, Repr

/-- The completion of an operation: the handler it runs and the outcome it brings. -/
inductive ProxyEvent where
  | resolved (error : Option OpError)
  | connected (error : Option OpError)
  | wrote (error : Option OpError)
  | read (outcome : Except OpError HttpResponse)

def ProxyEvent.op : ProxyEvent → ProxyOp
  | .resolved _ => .resolve
  | .connected _ => .connect
  | .wrote _ => .write
  | .read _ => .read

/-- What the two lambdas of `HttpSession::on_read` capture: the leader's knows its key. -/
inductive CompletionHandler where
  | flight (session : Nat) (key : Str)
  | direct (session : Nat)
  deriving DecidableEq, Repr

def CompletionHandler.session : CompletionHandler → Nat
  | .flight s _ => s
  | .direct s => s

def CompletionHandler.key : CompletionHandler → Option Str
  | .flight _ k => some k
  | .direct _ => none

/-- Ghost: the request a run was started for (the `number`-th of its session), its handler, and when. -/
structure Fetch where
  handler : CompletionHandler
  number : Nat
  client : HttpRequest
  startedAt : Int

structure UpstreamProxy where
  upstream : UpstreamEndpoint
  request : HttpRequest
  completionHandler : Option CompletionHandler
  clientVersion : Nat
  clientKeepAlive : Bool
  completed : Bool
  outstanding : List ProxyOp
  deadline : Option Int
  fetch : Fetch
  result : Option HttpResponse

variable (B : Beast)

namespace UpstreamProxy

def make (upstream : UpstreamEndpoint) (request : HttpRequest) (handler : CompletionHandler) (fetch : Fetch) :
    UpstreamProxy :=
  { upstream, request, completionHandler := some handler, clientVersion := request.version,
    clientKeepAlive := request.keepAlive B, completed := false, outstanding := [], deadline := none, fetch,
    result := none }

/-- The request `run` hands to `prepare_payload`. -/
def rewritten (upstream : UpstreamEndpoint) (request : HttpRequest) : HttpRequest :=
  let fields := (removeHopByHopHeaders request.fields).set HeaderField.host.text (upstreamHostHeader upstream)
  let fields := (B.setKeepAlive 11 false fields).set HeaderField.connection.text "close".toList
  { request with version := 11, fields }

def run (p : UpstreamProxy) : Except Thrown UpstreamProxy := do
  let request ← (rewritten B p.upstream p.request).preparePayload B
  return { p with request, outstanding := .resolve :: p.outstanding }

/-- `complete`: the proxy after, and the call of its completion handler. -/
def complete (p : UpstreamProxy) (response : HttpResponse) : UpstreamProxy × Option (CompletionHandler × HttpResponse) :=
  if p.completed then (p, none)
  else ({ p with completed := true, completionHandler := none, result := some response },
    p.completionHandler.map (fun h => (h, response)))

/-- What the completion handler is called with is the response. -/
theorem complete_some {p q : UpstreamProxy} {h : CompletionHandler} {response m : HttpResponse}
    (hc : p.complete response = (q, some (h, m))) : m = response := by
  unfold complete at hc
  split at hc
  · cases hc
  · rw [Prod.mk.injEq, Option.map_eq_some_iff] at hc
    obtain ⟨-, _, -, heq⟩ := hc
    cases heq; rfl

def fail (p : UpstreamProxy) (error : OpError) :
    Except Thrown (UpstreamProxy × Option (CompletionHandler × HttpResponse)) :=
  if p.completed then .ok (p, none)
  else do
    let response ← match error with
      | .timeout => makeGatewayTimeoutResponse B p.request
      | .other => makeBadGatewayResponse B p.request
    return p.complete response

/-- The next operation starts, under a new deadline. -/
def startOp (p : UpstreamProxy) (op : ProxyOp) (deadline : Int) : UpstreamProxy :=
  { p with outstanding := op :: p.outstanding, deadline := some deadline }

/-- The message `on_read` hands to `prepare_payload`. -/
def relayed (p : UpstreamProxy) (response : HttpResponse) : HttpResponse :=
  HttpResponse.setKeepAlive B p.clientKeepAlive
    { response with fields := removeHopByHopHeaders response.fields, version := p.clientVersion }

def onRead (p : UpstreamProxy) (response : HttpResponse) :
    Except Thrown (UpstreamProxy × Option (CompletionHandler × HttpResponse)) := do
  let response ← (p.relayed B response).preparePayload B
  return p.complete response

/-- The handlers `on_resolve`, `on_connect`, `on_write` and `on_read`. -/
def handle (timeouts : ProxyTimeouts) (now : Int) (p : UpstreamProxy) :
    ProxyEvent → Except Thrown (UpstreamProxy × Option (CompletionHandler × HttpResponse))
  | .resolved (some e) => p.fail B e
  | .resolved none => .ok (p.startOp .connect (now + timeouts.connect), none)
  | .connected (some e) => p.fail B e
  | .connected none => .ok (p.startOp .write (now + timeouts.write), none)
  | .wrote (some e) => p.fail B e
  | .wrote none => .ok (p.startOp .read (now + timeouts.read), none)
  | .read (.error e) => p.fail B e
  | .read (.ok response) => p.onRead B response

/-- What the response of a completion comes from: the server's own 502 or 504, or the message the upstream sent. -/
inductive Outcome (p : UpstreamProxy) : ProxyEvent → HttpResponse → Prop
  | failed (ev : ProxyEvent) (r : HttpResponse) : r.result = 502 ∨ r.result = 504 → Outcome p ev r
  | answered (raw r : HttpResponse) : (p.relayed B raw).preparePayload B = .ok r → Outcome p (.read (.ok raw)) r

theorem Outcome.result_eq {p : UpstreamProxy} {ev : ProxyEvent} {r : HttpResponse} (h : Outcome B p ev r) :
    r.result = 502 ∨ r.result = 504 ∨ ∃ raw, ev = .read (.ok raw) ∧ r.result = raw.result := by
  cases h with
  | failed _ _ h => rcases h with h | h <;> simp [h]
  | answered raw r h =>
    unfold HttpResponse.preparePayload at h
    split at h
    · cases h
    · cases h; exact .inr (.inr ⟨raw, rfl, rfl⟩)

/-- **The only exception of a handler**: the upstream's message is bodiless by its status and has a body. -/
def BadBody (ev : ProxyEvent) : Prop := ∃ raw, ev = .read (.ok raw) ∧ bodiless raw.result = true ∧ raw.body ≠ []

/-- The status an error is answered with. -/
def OpError.status : OpError → Status
  | .timeout => .gatewayTimeout
  | .other => .badGateway

theorem fail_running (p : UpstreamProxy) (h : CompletionHandler) (e : OpError) (hc : p.completed = false)
    (hh : p.completionHandler = some h) :
    ∃ r, r.result = (OpError.status e).code ∧ p.fail B e =
      .ok ({ p with completed := true, completionHandler := none, result := some r }, some (h, r)) := by
  unfold fail
  cases e with
  | timeout =>
    refine ⟨madeResponse B p.request .gatewayTimeout "text/plain".toList "Gateway Timeout\n".toList, rfl, ?_⟩
    simp only [hc, Bool.false_eq_true, if_false, makeGatewayTimeoutResponse, makeResponse_ok]
    simp [complete, hc, hh, bind, Except.bind, pure, Except.pure]
  | other =>
    refine ⟨madeResponse B p.request .badGateway "text/plain".toList "Bad Gateway\n".toList, rfl, ?_⟩
    simp only [hc, Bool.false_eq_true, if_false, makeBadGatewayResponse, makeResponse_ok]
    simp [complete, hc, hh, bind, Except.bind, pure, Except.pure]

/-- The upstream's message, once prepared, is what the proxy hands over. -/
theorem onRead_running (p : UpstreamProxy) (h : CompletionHandler) (raw r : HttpResponse) (hc : p.completed = false)
    (hh : p.completionHandler = some h) (hr : (p.relayed B raw).preparePayload B = .ok r) :
    p.onRead B raw = .ok ({ p with completed := true, completionHandler := none, result := some r }, some (h, r)) := by
  simp [onRead, hr, complete, hc, hh, bind, Except.bind, pure, Except.pure]

/-- **Everything a handler does to a proxy that has not completed**: it starts one operation, or completes and calls
the completion handler once, or throws. -/
theorem handle_running (timeouts : ProxyTimeouts) (now : Int) (p : UpstreamProxy) (h : CompletionHandler)
    (ev : ProxyEvent) (hc : p.completed = false) (hh : p.completionHandler = some h) :
    (∃ op d, p.handle B timeouts now ev = .ok (p.startOp op d, none)) ∨
    (∃ r, Outcome B p ev r ∧ p.handle B timeouts now ev =
      .ok ({ p with completed := true, completionHandler := none, result := some r }, some (h, r))) ∨
    (BadBody ev ∧ p.handle B timeouts now ev = .error .invalidArgument) := by
  have hfail : ∀ e, p.handle B timeouts now ev = p.fail B e → ∃ r, Outcome B p ev r ∧ p.handle B timeouts now ev =
      .ok ({ p with completed := true, completionHandler := none, result := some r }, some (h, r)) := by
    intro e he
    obtain ⟨r, hr, hf⟩ := fail_running B p h e hc hh
    refine ⟨r, .failed ev r ?_, by rw [he, hf]⟩
    rw [hr]
    cases e
    · exact .inr rfl
    · exact .inl rfl
  match ev with
  | .resolved (some e) => exact .inr (.inl (hfail e rfl))
  | .resolved none => exact .inl ⟨_, _, rfl⟩
  | .connected (some e) => exact .inr (.inl (hfail e rfl))
  | .connected none => exact .inl ⟨_, _, rfl⟩
  | .wrote (some e) => exact .inr (.inl (hfail e rfl))
  | .wrote none => exact .inl ⟨_, _, rfl⟩
  | .read (.error e) => exact .inr (.inl (hfail e rfl))
  | .read (.ok raw) =>
    cases hp : (p.relayed B raw).preparePayload B with
    | ok r => exact .inr (.inl ⟨r, .answered raw r hp, onRead_running B p h raw r hc hh hp⟩)
    | error e =>
      simp only [handle, onRead, hp]
      unfold HttpResponse.preparePayload at hp
      split at hp
      · rename_i hb; cases hp; exact .inr (.inr ⟨⟨raw, rfl, hb⟩, rfl⟩)
      · cases hp

/-- A read that brings a message the parser can produce does not throw. -/
theorem handle_error_iff (timeouts : ProxyTimeouts) (now : Int) (p : UpstreamProxy) (h : CompletionHandler)
    (ev : ProxyEvent) (hc : p.completed = false) (hh : p.completionHandler = some h) :
    p.handle B timeouts now ev = .error .invalidArgument ↔ BadBody ev := by
  constructor
  · intro he
    rcases handle_running B timeouts now p h ev hc hh with ⟨op, d, h1⟩ | ⟨r, -, h1⟩ | ⟨h1, -⟩
    · rw [he] at h1; cases h1
    · rw [he] at h1; cases h1
    · exact h1
  · rintro ⟨raw, rfl, hb⟩
    have hb' : bodiless (p.relayed B raw).result = true ∧ (p.relayed B raw).body ≠ [] := hb
    simp only [handle, onRead, HttpResponse.preparePayload, if_pos hb']
    rfl

/-! ## The request it sends -/

/-- **`run` throws exactly on a TRACE request with a body.** -/
theorem run_error_iff (p : UpstreamProxy) :
    (∃ e, p.run B = .error e) ↔ p.request.method = .trace ∧ p.request.body ≠ [] := by
  unfold run HttpRequest.preparePayload
  have hm : (rewritten B p.upstream p.request).method = p.request.method := rfl
  have hb : (rewritten B p.upstream p.request).body = p.request.body := rfl
  rw [hm, hb]
  split
  · rename_i h; exact ⟨fun _ => h, fun _ => ⟨_, rfl⟩⟩
  · rename_i h
    refine ⟨fun he => ?_, fun h' => absurd h' h⟩
    obtain ⟨e, he⟩ := he; cases he

/-- The request on the wire. -/
def sent (upstream : UpstreamEndpoint) (request : HttpRequest) : HttpRequest :=
  let r := rewritten B upstream request
  { r with fields := B.requestPayload r.method r.version r.body.length r.fields }

theorem run_ok (p q : UpstreamProxy) (h : p.run B = .ok q) :
    q = { p with request := sent B p.upstream p.request, outstanding := .resolve :: p.outstanding } := by
  unfold run HttpRequest.preparePayload at h
  split at h
  · cases h
  · cases h; rfl

end UpstreamProxy
end EventEdge
