import EventEdge.Lts
import EventEdge.SingleFlight
import EventEdge.Http
import EventEdge.Handler
import EventEdge.Upstream
import EventEdge.Metrics
import EventEdge.Proxy
import EventEdge.Cache
import EventEdge.Coalescer
import EventEdge.Server
import EventEdge.ServerSteps
import EventEdge.ServerProxies
import EventEdge.ServerFlights
import EventEdge.ServerRequests
import EventEdge.ReferenceBeast
import EventEdge.ServerWaiters
import EventEdge.ServerOrigins
import EventEdge.ServerSharing
import EventEdge.ServerAnswers
import EventEdge.ServerExceptions
import EventEdge.ServerFetches
import EventEdge.CoalescerRuns
import EventEdge.CacheRefine
import EventEdge.CacheRuns
import EventEdge.PoolRuns
import EventEdge.Monitor
import EventEdge.MonitorRuns
import EventEdge.Framing
import EventEdge.ServerFraming
import EventEdge.ServerHead
import EventEdge.ServerStoring
import EventEdge.Histogram
import EventEdge.ServerMetrics
import EventEdge.ServerDeadlines
import EventEdge.Scan
import EventEdge.Forwarding
import EventEdge.Arguments
import EventEdge.ServerSelections
import EventEdge.ServerInterim
import EventEdge.Relay
import EventEdge.Runs
import EventEdge.ServerExchanges
import EventEdge.ServerProgress
import EventEdge.ServerRecord
import EventEdge.ServerRelay
import EventEdge.ServerTurns
import EventEdge.HttpServer
import EventEdge.MonitorOutput
import EventEdge.MonitorProgress
import EventEdge.Program
import EventEdge.StartUp
import EventEdge.Exposition
import EventEdge.MonitorClock
import EventEdge.ServerScrape
import EventEdge.ServerLatency
