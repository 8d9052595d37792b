import EventEdge.Cache
import EventEdge.Coalescer
import EventEdge.Lts
import EventEdge.Metrics
import EventEdge.Proxy
/-!
# Server — sessions, the shared cache, coalescer and pool, one step at a time (`http_session.cpp`)

The state holds every `HttpSession`, the objects they share, every `UpstreamProxy` ever started (its number is its
place in the list, so numbers are in starting order), and the callbacks posted to waiting sessions.  A session's
`Phase` says where in its handlers it is: each access to a shared object, each completed asynchronous operation and
each posted callback is an action of its own, so any two sessions interleave at all of these points; the clock moves
only by `tick`, between any two actions.

Ghost: `Reply.origin`, `Session.number` and `missedAt`, `UpstreamProxy.fetch` and `result`, and `log`, what happened
so far, oldest first.  No handler reads them.

An exception that leaves a handler stops the `io_context` (`main.cpp`): `stopped` is set, no handler starts any more,
and the handlers already running on other workers finish.
-/
namespace EventEdge
namespace Server

open RequestCoalescer (Role)

/-! ## State -/

/-- Who made a message: the server itself, or a proxy run. -/
inductive Origin where
  | server
  | proxy (id : Nat)
  deriving DecidableEq, Repr

structure Reply where
  message : HttpResponse
  origin : Origin
  deriving DecidableEq, Repr

/-- Where a session is.  The phases from `lookup` to `selecting` and `storing` to `responding` are in the middle of a
handler, before the named call; `waiting` and `proxying` are after `on_read` returned. -/
inductive Phase where
  | unaccepted
  | reading
  | lookup (key : Str)
  | joining (key : Str)
  | leading (key : Str)
  | selecting
  | waiting (key : Str)
  | proxying (proxy : Nat) (flight : Option Str)
  | storing (key : Str) (reply : Reply)
  | completing (key : Str) (reply : Reply)
  | responding (reply : Reply)
  | writing (closeAfterWrite : Bool)
  | closed
  | failed
  deriving DecidableEq

structure Session where
  phase : Phase
  request : HttpRequest
  requestStarted : Int
  deadline : Int
  number : Nat
  missedAt : Nat

inductive Event where
  | received (session number : Nat) (request : HttpRequest)
  | hit (session number : Nat) (origin : Origin)
  | joined (session number : Nat) (key : Str) (role : Role)
  | completed (proxy : Nat)
  | stored (key : Str) (origin : Origin)
  | released (key : Str) (origin : Origin) (waiters : List (Nat × Nat))
  | wrote (session number : Nat) (reply : Reply)
  deriving DecidableEq

/-- An event and the clock when it happened. -/
structure Logged where
  time : Int
  event : Event
  deriving DecidableEq

structure State where
  now : Int
  sessions : Nat → Session
  cache : ResponseCache Str Reply
  coalescer : RequestCoalescer Str Nat
  pool : UpstreamPool
  proxies : List UpstreamProxy
  posted : List (Nat × Reply)
  metrics : MetricsRegistry
  stopped : Bool
  log : List Logged

/-- What a server is built from.  `hasCoalescer` is whether the sessions' weak pointer locks: in `main` it always
does (the owner outlives the workers), in a server built without a coalescer it never does. -/
structure Config where
  beast : Beast
  cacheOptions : CacheOptions
  capacity_ne_zero : cacheOptions.capacity ≠ 0
  pool : UpstreamPool
  hasCoalescer : Bool
  timeouts : ProxyTimeouts
  formatSum : UInt64 → Str
  start : Int

def init (cfg : Config) : State :=
  { now := cfg.start
    sessions := fun _ => ⟨.unaccepted, .empty, cfg.start, cfg.start, 0, 0⟩
    cache := .make cfg.cacheOptions cfg.capacity_ne_zero
    coalescer := .make
    pool := cfg.pool
    proxies := []
    posted := []
    metrics := .make cfg.pool
    stopped := false
    log := [] }

inductive ReadError where
  | endOfStream | operationAborted | other
  deriving DecidableEq, Repr

inductive Action where
  | tick (now : Int)
  | accept (session : Nat)
  | read (session : Nat) (outcome : Except ReadError HttpRequest)
  | get (session : Nat)
  | join (session : Nat)
  | select (session : Nat)
  | put (session : Nat)
  | complete (session : Nat)
  | respond (session : Nat)
  | written (session : Nat) (ok : Bool)
  | callback (index : Nat)
  | proxy (id : Nat) (event : ProxyEvent)
  | health (index : Nat) (healthy : Bool)

/-! ## The tests of `HttpSession` -/

/-- `string_view::find(needle) != npos`. -/
def containsText (needle : Str) : Str → Bool
  | [] => needle.isEmpty
  | c :: s => needle.isPrefixOf (c :: s) || containsText needle s

def cacheableRequest (request : HttpRequest) : Bool :=
  decide (request.method = .get) && !request.fields.has HeaderField.authorization.text && !isHealthRequest request

def cacheableResponse (response : HttpResponse) : Bool :=
  if response.result ≠ 200 ∨ response.fields.has HeaderField.setCookie.text = true then false
  else
    let cacheControl := response.fields.value HeaderField.cacheControl.text
    !containsText "no-store".toList cacheControl && !containsText "private".toList cacheControl

/-- The label `on_read` formats for `record_upstream_selection`. -/
def selectionLabel (upstream : UpstreamEndpoint) : Str := upstream.host ++ ':' :: portText upstream.port

/-! ## Handlers -/

variable (cfg : Config)

namespace State

def setSession (st : State) (i : Nat) (s : Session) : State := { st with sessions := Function.update st.sessions i s }

def setPhase (st : State) (i : Nat) (phase : Phase) : State := st.setSession i { st.sessions i with phase := phase }

def record (st : State) (e : Event) : State := { st with log := st.log ++ [⟨st.now, e⟩] }

/-- An exception leaves the handler session `i` is in. -/
def throwFrom (st : State) (i : Nat) : State := { st.setPhase i .failed with stopped := true }

end State

/-- The message `write_response_for_current_request` hands on. -/
def forRequest (request : HttpRequest) (reply : Reply) : Reply :=
  { reply with message :=
      HttpResponse.setKeepAlive cfg.beast (request.keepAlive cfg.beast) { reply.message with version := request.version } }

def writeResponseForCurrentRequest (st : State) (i : Nat) (reply : Reply) : State :=
  st.setPhase i (.responding (forRequest cfg (st.sessions i).request reply))

/-- `write_response`, up to the start of `async_write`. -/
def writeResponse (st : State) (i : Nat) (reply : Reply) : State :=
  let s := st.sessions i
  let metrics := (st.metrics.recordResponseStatus reply.message.result).observeDuration (st.now - s.requestStarted)
  ({ st with metrics }.setPhase i (.writing (reply.message.needEof cfg.beast))).record (.wrote i s.number reply)

/-- The `/health` and `/metrics` answers of `on_read`. -/
def localResponse (metrics : MetricsRegistry) (pool : UpstreamPool) (request : HttpRequest) : Except Thrown HttpResponse :=
  if isHealthRequest request ∨ request.method ≠ .get then handleRequest cfg.beast request
  else
    let response : HttpResponse :=
      ⟨200, request.version, Fields.set [] HeaderField.contentType.text "text/plain; version=0.0.4".toList, []⟩
    let response := HttpResponse.setKeepAlive cfg.beast (request.keepAlive cfg.beast) response
    HttpResponse.preparePayload cfg.beast { response with body := metrics.render cfg.formatSum pool }

/-- The counters of a local route. -/
def localMetrics (metrics : MetricsRegistry) (request : HttpRequest) : MetricsRegistry :=
  if isHealthRequest request then metrics.recordHealthRequest else metrics.recordMetricsRequest

def doRead (st : State) (i : Nat) : State :=
  st.setSession i { st.sessions i with phase := .reading, request := .empty, deadline := st.now + 30000000000 }

/-- `on_read`, up to the first access to a shared object. -/
def onRead (st : State) (i : Nat) : Except ReadError HttpRequest → State
  | .error _ => st.setPhase i .closed
  | .ok request =>
    let s := st.sessions i
    let st := (st.setSession i { s with request := request, requestStarted := st.now, number := s.number + 1 }).record
      (.received i (s.number + 1) request)
    let st := { st with metrics := st.metrics.recordRequest }
    if isLocalRequest request then
      let metrics := localMetrics st.metrics request
      match localResponse cfg metrics st.pool request with
      | .ok response => { st with metrics }.setPhase i (.responding ⟨response, .server⟩)
      | .error _ => { st with metrics }.throwFrom i
    else if cacheableRequest request then st.setPhase i (.lookup request.target)
    else st.setPhase i .selecting

/-- `response_cache_->get`, and on to `join_or_start`. -/
def onLookup (st : State) (i : Nat) (key : Str) : State :=
  let s := st.sessions i
  let found := st.cache.get key st.now
  let st := { st with cache := found.2 }
  match found.1 with
  | some cached =>
    writeResponseForCurrentRequest cfg
      ({ st with metrics := st.metrics.recordCacheHit }.record (.hit i s.number cached.origin)) i cached
  | none =>
    let st := { st with metrics := st.metrics.recordCacheMiss }
    if cfg.hasCoalescer then st.setSession i { s with phase := .joining key, missedAt := st.log.length }
    else match makeServiceUnavailableResponse cfg.beast s.request with
      | .ok response => writeResponseForCurrentRequest cfg st i ⟨response, .server⟩
      | .error _ => st.throwFrom i

/-- `join_or_start`. -/
def onJoin (st : State) (i : Nat) (key : Str) : State :=
  let joined := st.coalescer.joinOrStart key i
  let st := { st with coalescer := joined.2 }.record (.joined i (st.sessions i).number key joined.1)
  match joined.1 with
  | .leader => { st with metrics := st.metrics.recordCoalescingLeader }.setPhase i (.leading key)
  | .waiter => { st with metrics := st.metrics.recordCoalescingWaiter }.setPhase i (.waiting key)

/-- The upstream is chosen: the counters, a new `UpstreamProxy`, and its `run`. -/
def startProxy (st : State) (i : Nat) (upstream : UpstreamEndpoint) (handler : CompletionHandler) : State :=
  let s := st.sessions i
  let metrics := (st.metrics.recordProxyRequest.recordUpstreamSelection (selectionLabel upstream)).proxyStarted
  let st := { st with metrics }
  match (UpstreamProxy.make cfg.beast upstream s.request handler ⟨handler, s.number, s.request, st.now⟩).run cfg.beast with
  | .ok p => { st with proxies := st.proxies ++ [p] }.setPhase i (.proxying st.proxies.length handler.key)
  | .error _ => st.throwFrom i

/-- The phase `complete_flight` goes to: `put` first if the response may be kept. -/
def flightPhase (key : Str) (reply : Reply) (shouldCache : Bool) : Phase :=
  if shouldCache && cacheableResponse reply.message then .storing key reply else .completing key reply

/-- `select` in the cacheable path, by the leader of `key`. -/
def onSelectLeader (st : State) (i : Nat) (key : Str) : State :=
  let selected := st.pool.select
  let st := { st with pool := selected.2 }
  match selected.1 with
  | some upstream => startProxy cfg st i upstream (.flight i key)
  | none => match makeServiceUnavailableResponse cfg.beast (st.sessions i).request with
    | .ok response => st.setPhase i (flightPhase key ⟨response, .server⟩ false)
    | .error _ => st.throwFrom i

/-- `select` in the other path. -/
def onSelectDirect (st : State) (i : Nat) : State :=
  let selected := st.pool.select
  let st := { st with pool := selected.2 }
  match selected.1 with
  | some upstream => startProxy cfg st i upstream (.direct i)
  | none => match makeServiceUnavailableResponse cfg.beast (st.sessions i).request with
    | .ok response => st.setPhase i (.responding ⟨response, .server⟩)
    | .error _ => st.throwFrom i

/-- The `put` of `complete_flight`. -/
def onPut (st : State) (i : Nat) (key : Str) (reply : Reply) : State :=
  ({ st with cache := st.cache.put key reply st.now }.setPhase i (.completing key reply)).record (.stored key reply.origin)

/-- The waiters `complete` takes out, and the coalescer after; neither without a coalescer. -/
def takeWaiters (st : State) (key : Str) : List Nat × RequestCoalescer Str Nat :=
  if cfg.hasCoalescer then st.coalescer.complete key else ([], st.coalescer)

/-- The `complete` of `complete_flight`: one callback is posted to every waiter, in order. -/
def onComplete (st : State) (i : Nat) (key : Str) (reply : Reply) : State :=
  let taken := takeWaiters cfg st key
  let waiters := taken.1.map (fun w => (w, (st.sessions w).number))
  let st := { st with coalescer := taken.2, posted := st.posted ++ taken.1.map (fun w => (w, reply)) }
  writeResponseForCurrentRequest cfg (st.record (.released key reply.origin waiters)) i reply

/-- A completion handler of a proxy is called. -/
def onProxyComplete (st : State) (id : Nat) (handler : CompletionHandler) (response : HttpResponse) : State :=
  let st := { st with metrics := st.metrics.proxyCompleted }.record (.completed id)
  match handler with
  | .flight i key => st.setPhase i (flightPhase key ⟨response, .proxy id⟩ true)
  | .direct i => writeResponseForCurrentRequest cfg st i ⟨response, .proxy id⟩

/-- An operation of proxy `id` completes. -/
def onProxy (st : State) (id : Nat) (p : UpstreamProxy) (event : ProxyEvent) : State :=
  let p := { p with outstanding := p.outstanding.erase event.op }
  match p.handle cfg.beast cfg.timeouts st.now event with
  | .ok (p, none) => { st with proxies := st.proxies.set id p }
  | .ok (p, some (handler, response)) => onProxyComplete cfg { st with proxies := st.proxies.set id p } id handler response
  | .error _ => { st with proxies := st.proxies.set id p, stopped := true }

def onWrite (st : State) (i : Nat) (closeAfterWrite ok : Bool) : State :=
  if ok && !closeAfterWrite then doRead st i else st.setPhase i .closed

/-- **One step of the server**; `none` when the action is not enabled. -/
def step (st : State) : Action → Option State
  | .tick now => if st.now ≤ now then some { st with now } else none
  | .accept i => match st.stopped, (st.sessions i).phase with
    | false, .unaccepted => some (doRead st i)
    | _, _ => none
  | .read i outcome => match st.stopped, (st.sessions i).phase with
    | false, .reading => some (onRead cfg st i outcome)
    | _, _ => none
  | .get i => match (st.sessions i).phase with
    | .lookup key => some (onLookup cfg st i key)
    | _ => none
  | .join i => match (st.sessions i).phase with
    | .joining key => some (onJoin st i key)
    | _ => none
  | .select i => match (st.sessions i).phase with
    | .leading key => some (onSelectLeader cfg st i key)
    | .selecting => some (onSelectDirect cfg st i)
    | _ => none
  | .put i => match (st.sessions i).phase with
    | .storing key reply => some (onPut st i key reply)
    | _ => none
  | .complete i => match (st.sessions i).phase with
    | .completing key reply => some (onComplete cfg st i key reply)
    | _ => none
  | .respond i => match (st.sessions i).phase with
    | .responding reply => some (writeResponse cfg st i reply)
    | _ => none
  | .written i ok => match st.stopped, (st.sessions i).phase with
    | false, .writing closeAfterWrite => some (onWrite st i closeAfterWrite ok)
    | _, _ => none
  | .callback index => match st.stopped, st.posted[index]? with
    | false, some (w, reply) =>
      some (writeResponseForCurrentRequest cfg { st with posted := st.posted.eraseIdx index } w reply)
    | _, _ => none
  | .proxy id event => match st.stopped, st.proxies[id]? with
    | false, some p => if event.op ∈ p.outstanding then some (onProxy cfg st id p event) else none
    | _, _ => none
  | .health index healthy => match st.stopped, st.pool.setHealthy index healthy with
    | false, some (changed, pool) =>
      some { st with pool, metrics := if changed then st.metrics.recordHealthTransition else st.metrics }
    | _, _ => none

/-- **A state of some run of the server.** -/
def Reachable (st : State) : Prop := Lts.Reach (step cfg) Lts.anyStep (init cfg) st

end Server
end EventEdge
