import EventEdge.Upstream
/-!
# Metrics — the counters of `MetricsRegistry` and their text

Every counter is a 64-bit atomic and wraps as one.  A duration is in nanoseconds; the histogram's bounds are compared
as `seconds <= buckets_[i]`, which on whole nanoseconds is the comparison with the bound in nanoseconds.  How a stream
prints the duration sum (a double, twelve digits) is a parameter of `render`.
-/
namespace EventEdge

structure UpstreamMetrics where
  label : Str
  selections : UInt64
  deriving DecidableEq, Repr

structure MetricsRegistry where
  upstreams : List UpstreamMetrics
  requests : UInt64
  healthRequests : UInt64
  metricsRequests : UInt64
  proxyRequests : UInt64
  cacheHits : UInt64
  cacheMisses : UInt64
  coalescingLeaders : UInt64
  coalescingWaiters : UInt64
  badGateway : UInt64
  serviceUnavailable : UInt64
  gatewayTimeout : UInt64
  healthTransitions : UInt64
  proxyInFlight : UInt64
  durationCount : UInt64
  durationSumNanos : UInt64
  durationBuckets : List UInt64
  deriving DecidableEq, Repr

/-- The `le` texts of `buckets_` and their bounds in nanoseconds. -/
def buckets : List (Str × Int) :=
  [("0.001".toList, 1000000), ("0.005".toList, 5000000), ("0.01".toList, 10000000), ("0.05".toList, 50000000),
   ("0.1".toList, 100000000), ("0.5".toList, 500000000), ("1".toList, 1000000000), ("5".toList, 5000000000)]

def endpointLabel (endpoint : UpstreamEndpoint) : Str := endpoint.host ++ ':' :: portText endpoint.port

namespace MetricsRegistry

def make (pool : UpstreamPool) : MetricsRegistry :=
  ⟨pool.backends.map (fun b => ⟨endpointLabel b.endpoint, 0⟩), 0, 0, 0, 0, 0, 0, 0, 0, 0, 0, 0, 0, 0, 0, 0,
    buckets.map (fun _ => 0)⟩

def recordRequest (m : MetricsRegistry) : MetricsRegistry := { m with requests := m.requests + 1 }
def recordHealthRequest (m : MetricsRegistry) : MetricsRegistry := { m with healthRequests := m.healthRequests + 1 }
def recordMetricsRequest (m : MetricsRegistry) : MetricsRegistry := { m with metricsRequests := m.metricsRequests + 1 }
def recordProxyRequest (m : MetricsRegistry) : MetricsRegistry := { m with proxyRequests := m.proxyRequests + 1 }
def recordCacheHit (m : MetricsRegistry) : MetricsRegistry := { m with cacheHits := m.cacheHits + 1 }
def recordCacheMiss (m : MetricsRegistry) : MetricsRegistry := { m with cacheMisses := m.cacheMisses + 1 }
def recordCoalescingLeader (m : MetricsRegistry) : MetricsRegistry :=
  { m with coalescingLeaders := m.coalescingLeaders + 1 }
def recordCoalescingWaiter (m : MetricsRegistry) : MetricsRegistry :=
  { m with coalescingWaiters := m.coalescingWaiters + 1 }
def recordHealthTransition (m : MetricsRegistry) : MetricsRegistry :=
  { m with healthTransitions := m.healthTransitions + 1 }
def proxyStarted (m : MetricsRegistry) : MetricsRegistry := { m with proxyInFlight := m.proxyInFlight + 1 }
def proxyCompleted (m : MetricsRegistry) : MetricsRegistry := { m with proxyInFlight := m.proxyInFlight - 1 }

def recordResponseStatus (m : MetricsRegistry) (status : Nat) : MetricsRegistry :=
  if status = 502 then { m with badGateway := m.badGateway + 1 }
  else if status = 503 then { m with serviceUnavailable := m.serviceUnavailable + 1 }
  else if status = 504 then { m with gatewayTimeout := m.gatewayTimeout + 1 }
  else m

/-- The first counter of that label counts one more. -/
def bumpFirst (label : Str) : List UpstreamMetrics → List UpstreamMetrics
  | [] => []
  | u :: us => if u.label = label then { u with selections := u.selections + 1 } :: us else u :: bumpFirst label us

def recordUpstreamSelection (m : MetricsRegistry) (label : Str) : MetricsRegistry :=
  { m with upstreams := bumpFirst label m.upstreams }

def observeDuration (m : MetricsRegistry) (nanos : Int) : MetricsRegistry :=
  { m with
    durationCount := m.durationCount + 1
    durationSumNanos := m.durationSumNanos + UInt64.ofNat (nanos % 18446744073709551616).toNat
    durationBuckets := m.durationBuckets.zipWith (fun n b => if nanos ≤ b.2 then n + 1 else n) buckets }

def counter (name : String) (value : UInt64) : Str := name.toList ++ ' ' :: (Nat.repr value.toNat).toList ++ ['\n']

def labelled (name key : String) (label : Str) (value : Str) : Str :=
  name.toList ++ "\x7b".toList ++ key.toList ++ "=\"".toList ++ label ++ "\"\x7d ".toList ++ value ++ ['\n']

def render (formatSum : UInt64 → Str) (m : MetricsRegistry) (pool : UpstreamPool) : Str :=
  "# TYPE eventedge_requests_total counter\n".toList ++
  counter "eventedge_requests_total" m.requests ++
  counter "eventedge_local_health_requests_total" m.healthRequests ++
  counter "eventedge_metrics_requests_total" m.metricsRequests ++
  counter "eventedge_proxy_requests_total" m.proxyRequests ++
  counter "eventedge_cache_hits_total" m.cacheHits ++
  counter "eventedge_cache_misses_total" m.cacheMisses ++
  counter "eventedge_coalescing_leaders_total" m.coalescingLeaders ++
  counter "eventedge_coalescing_waiters_total" m.coalescingWaiters ++
  counter "eventedge_bad_gateway_total" m.badGateway ++
  counter "eventedge_service_unavailable_total" m.serviceUnavailable ++
  counter "eventedge_gateway_timeout_total" m.gatewayTimeout ++
  counter "eventedge_upstream_health_transitions_total" m.healthTransitions ++
  counter "eventedge_proxy_in_flight" m.proxyInFlight ++
  (buckets.zip m.durationBuckets).flatMap (fun b =>
    labelled "eventedge_request_duration_seconds_bucket" "le" b.1.1 (Nat.repr b.2.toNat).toList) ++
  labelled "eventedge_request_duration_seconds_bucket" "le" "+Inf".toList (Nat.repr m.durationCount.toNat).toList ++
  counter "eventedge_request_duration_seconds_count" m.durationCount ++
  "eventedge_request_duration_seconds_sum ".toList ++ formatSum m.durationSumNanos ++ ['\n'] ++
  m.upstreams.zipIdx.flatMap (fun u =>
    labelled "eventedge_upstream_selections_total" "upstream" u.1.label (Nat.repr u.1.selections.toNat).toList ++
    labelled "eventedge_upstream_healthy" "upstream" u.1.label (if pool.healthyAt u.2 then ['1'] else ['0']))

end MetricsRegistry
end EventEdge
