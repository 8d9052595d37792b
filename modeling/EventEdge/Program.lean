import EventEdge.HttpServer
import EventEdge.MonitorProgress
import EventEdge.PoolRuns
import EventEdge.ServerMetrics
/-!
# Program — the acceptor, the sessions and the monitor together (`main.cpp`)

The sessions and the monitor share one pool and one registry: a step of either is a step of its own model on the pool
and the registry as the other left them.  The monitor's `select` and the server's `health` are therefore no actions
here; they are what the one sees of the other.  The accept handler makes a session and runs it.

The signal handler posts the monitor's `stop`, closes the acceptor and stops the `io_context`.  A strand goes on with
the handlers it already took, so that any handler may still run after the signal, and the posted `stop` at any time or
never.

Each part of a run of the program is a run of its own model (`Reachable.monitor`, `Reachable.server`), and what holds
there holds here.
-/
namespace EventEdge

/-! ## The monitor does not read its counters -/

namespace Monitor

def unmetered (st : State) : State := { st with metrics := none }

theorem unmetered_scheduleNextCheck (st : State) : unmetered (scheduleNextCheck st) = scheduleNextCheck (unmetered st) := by
  unfold scheduleNextCheck unmetered
  dsimp only
  split <;> rfl

theorem unmetered_runChecks (st : State) : unmetered (runChecks st) = runChecks (unmetered st) := by
  unfold runChecks unmetered
  dsimp only
  split <;> rfl

theorem unmetered_onCheckComplete (st : State) : unmetered (onCheckComplete st) = onCheckComplete (unmetered st) := by
  unfold onCheckComplete
  by_cases hpos : 0 < st.checksRemaining
  · rw [if_pos hpos, if_pos (show 0 < (unmetered st).checksRemaining from hpos)]
    dsimp only [unmetered]
    split
    · exact unmetered_scheduleNextCheck _
    · rfl
  · rw [if_neg hpos, if_neg (show ¬0 < (unmetered st).checksRemaining from hpos)]
    dsimp only [unmetered]
    split
    · exact unmetered_scheduleNextCheck _
    · rfl

theorem unmetered_complete (st : State) (id : Nat) (c : HealthCheck) (healthy : Bool) :
    unmetered (complete st id c healthy) = complete (unmetered st) id c healthy := by
  unfold complete
  split
  · rfl
  · have hpool : (unmetered st).pool = st.pool := rfl
    rw [hpool]
    cases hset : st.pool.setHealthy c.index healthy with
    | none => rfl
    | some res =>
      obtain ⟨changed, pool⟩ := res
      dsimp only
      rw [unmetered_onCheckComplete]
      cases changed <;> rfl

/-- **Without a registry the monitor takes the same steps.** -/
theorem step_unmetered {st st' : State} (a : Action) (h : step st a = some st') :
    step (unmetered st) a = some (unmetered st') := by
  cases a with
  | start =>
    simp only [step] at h
    split at h
    · cases h
    · rename_i hs
      cases h
      rw [unmetered_scheduleNextCheck]
      exact if_neg hs
  | stop => cases h; rfl
  | expire k =>
    simp only [step] at h
    split at h
    · rename_i hk; cases h; simp only [step, unmetered, hk]
    · cases h
  | timer k =>
    simp only [step] at h
    split at h
    · rename_i hk
      cases h
      rw [unmetered_runChecks]
      simp only [step, unmetered, hk]
    · rename_i hk; cases h; simp only [step, unmetered, hk]
    · cases h
  | probeExpire id =>
    simp only [step] at h
    split at h
    · rename_i c hc
      split at h
      · rename_i hw; cases h; simp only [step, unmetered, hc, hw]
      · cases h
    · cases h
  | timeout id =>
    simp only [step] at h
    split at h
    · rename_i c hc
      have hc' : (unmetered st).checks[id]? = some c := hc
      split at h
      · rename_i hw
        cases h
        simp only [step, hc', hw, onTimeout, Bool.false_eq_true, if_false]
        rw [unmetered_complete]
      · rename_i hw
        cases h
        simp only [step, hc', hw, onTimeout, if_true]
        rfl
      · cases h
    · cases h
  | resolved id ok =>
    simp only [step] at h
    split at h
    · rename_i c hc
      have hc' : (unmetered st).checks[id]? = some c := hc
      split at h
      · rename_i hres
        cases h
        simp only [step, hc', hres, if_true, onResolve]
        split
        · rfl
        · cases ok with
          | true => rfl
          | false =>
            simp only [Bool.false_eq_true, if_false]
            rw [unmetered_complete]
      · cases h
    · cases h
  | connected id ok =>
    simp only [step] at h
    split at h
    · rename_i c hc
      have hc' : (unmetered st).checks[id]? = some c := hc
      split at h
      · rename_i hcon
        cases h
        simp only [step, hc', hcon, if_true, onConnect]
        rw [unmetered_complete]
      · cases h
    · cases h
  | select => cases h; rfl

end Monitor

/-- Only a selection and the monitor change the pool. -/
theorem Server.Step.pool_other {cfg : Server.Config} {st st' : Server.State} {a : Server.Action}
    (hs : Server.Step cfg st a st') (hsel : ∀ i, a ≠ .select i) (hhealth : ∀ i b, a ≠ .health i b) :
    st'.pool = st.pool := by
  cases hs with
  | leadUnavailable i | directUnavailable i | leadFetch i | leadThrow i | directFetch i | directThrow i =>
    exact absurd rfl (hsel i)
  | health index healthy => exact absurd rfl (hhealth index healthy)
  | _ => rfl

theorem Server.Step.running {cfg : Server.Config} {st st' : Server.State} {a : Server.Action}
    (hs : Server.Step cfg st a st') (hrun : st'.stopped = false) : st.stopped = false := by
  by_contra hstop
  have := hs.stopped_mono (Bool.not_eq_false _ ▸ hstop)
  exact absurd (this.symm.trans hrun) (by decide)

/-! ## The program -/

namespace Program

structure State where
  acceptor : HttpServer
  server : Server.State
  monitor : Monitor.State
  stopPosted : Bool
  signalled : Bool

/-- `main`, once the acceptor listens: the first accept and the monitor's `start` are posted. -/
def init (cfg : Server.Config) (acceptor : HttpServer) : State :=
  { acceptor := acceptor.run
    server := Server.init cfg
    monitor := Monitor.init cfg.pool (some (.make cfg.pool))
    stopPosted := false
    signalled := false }

inductive Action where
  | server (a : Server.Action)
  | monitor (a : Monitor.Action)
  | accepted (k : Nat) (outcome : Accepted)
  | onAccept (k : Nat)
  | signal

/-- A session took a step: the monitor sees the pool and the registry it left. -/
def State.withServer (st : State) (server : Server.State) : State :=
  { st with server, monitor := { st.monitor with pool := server.pool, metrics := some server.metrics } }

/-- The monitor took a step: the sessions see the pool and the registry it left. -/
def State.withMonitor (st : State) (monitor : Monitor.State) : State :=
  { st with
    monitor
    server := { st.server with pool := monitor.pool, metrics := monitor.metrics.getD st.server.metrics } }

/-- The steps of the sessions themselves: `accept` is the acceptor's, `health` the monitor's. -/
def ofSession : Server.Action → Bool
  | .accept _ | .health _ _ => false
  | _ => true

variable (cfg : Server.Config)

/-- The sessions after an accept handler: the next one has run `do_read`.  Where the `io_context` was stopped before,
its read never completes, and the session is as if it had not been made. -/
def State.served (st : State) (outcome : Accepted) : Server.State :=
  if outcome = .socket then (Server.step cfg st.server (.accept st.acceptor.sessions)).getD st.server else st.server

/-- **One step of the program**; `none` when the action is not enabled. -/
def step (st : State) : Action → Option State
  | .server a => if ofSession a then (Server.step cfg st.server a).map st.withServer else none
  | .monitor .select => none
  | .monitor .stop =>
    if st.stopPosted then (Monitor.step st.monitor .stop).map { st with stopPosted := false }.withMonitor else none
  | .monitor a => (Monitor.step st.monitor a).map st.withMonitor
  | .accepted k outcome => match st.acceptor.accepts[k]? with
    | some .waiting =>
      some { st with acceptor := { st.acceptor with accepts := st.acceptor.accepts.set k (.completed outcome) } }
    | _ => none
  | .onAccept k => match st.acceptor.accepts[k]? with
    | some (.completed outcome) =>
      some ({ st with acceptor := st.acceptor.onAccept k outcome }.withServer (st.served cfg outcome))
    | _ => none
  | .signal =>
    if st.signalled then none
    else some { st with acceptor := st.acceptor.stop, stopPosted := true, signalled := true }

/-- **A state of some run of the program.** -/
def Reachable (st : State) : Prop :=
  Lts.Reach (step cfg) Lts.anyStep (init cfg ⟨true, [], 0, [], 0⟩) st

/-! ## Everything one step can do -/

inductive Step (st : State) : State → Prop
  | server (a : Server.Action) (server : Server.State) : ofSession a = true → Server.step cfg st.server a = some server →
      Step st (st.withServer server)
  | monitor (a : Monitor.Action) (monitor : Monitor.State) (stopPosted : Bool) : a ≠ .select →
      Monitor.step st.monitor a = some monitor → Step st ({ st with stopPosted }.withMonitor monitor)
  | accepted (k : Nat) (outcome : Accepted) : st.acceptor.accepts[k]? = some .waiting →
      Step st { st with acceptor := { st.acceptor with accepts := st.acceptor.accepts.set k (.completed outcome) } }
  | onAccept (k : Nat) (outcome : Accepted) (server : Server.State) :
      st.acceptor.accepts[k]? = some (.completed outcome) →
      server = st.server ∨
        (outcome = .socket ∧ Server.step cfg st.server (.accept st.acceptor.sessions) = some server) →
      Step st ({ st with acceptor := st.acceptor.onAccept k outcome }.withServer server)
  | signal : st.signalled = false →
      Step st { st with acceptor := st.acceptor.stop, stopPosted := true, signalled := true }

variable {cfg} {st st' : State}

theorem State.served_cases (st : State) (outcome : Accepted) : st.served cfg outcome = st.server ∨
    (outcome = .socket ∧ Server.step cfg st.server (.accept st.acceptor.sessions) = some (st.served cfg outcome)) := by
  unfold State.served
  split
  · rename_i hsocket
    cases hs : Server.step cfg st.server (.accept st.acceptor.sessions) with
    | none => exact .inl rfl
    | some server => exact .inr ⟨hsocket, rfl⟩
  · exact .inl rfl

theorem step_sound (a : Action) (h : step cfg st a = some st') : Step cfg st st' := by
  cases a with
  | server a =>
    simp only [step] at h
    split at h
    · rename_i ha
      obtain ⟨server, hs, rfl⟩ := Option.map_eq_some_iff.1 h
      exact .server a server ha hs
    · cases h
  | monitor a =>
    by_cases hsel : a = .select
    · subst hsel; cases h
    · by_cases hstop : a = .stop
      · subst hstop
        simp only [step] at h
        split at h
        · obtain ⟨monitor, hs, rfl⟩ := Option.map_eq_some_iff.1 h
          exact .monitor .stop monitor false hsel hs
        · cases h
      · have hmap : (Monitor.step st.monitor a).map st.withMonitor = some st' := by
          cases a <;> first | exact h | exact absurd rfl hsel | exact absurd rfl hstop
        obtain ⟨monitor, hs, rfl⟩ := Option.map_eq_some_iff.1 hmap
        exact .monitor a monitor st.stopPosted hsel hs
  | accepted k outcome =>
    simp only [step] at h
    split at h
    · rename_i hk; cases h; exact .accepted k outcome hk
    · cases h
  | onAccept k =>
    simp only [step] at h
    split at h
    · rename_i outcome hk; cases h; exact .onAccept k outcome _ hk (st.served_cases outcome)
    · cases h
  | signal =>
    simp only [step] at h
    split at h
    · cases h
    · rename_i hs; cases h; exact .signal (by simpa using hs)

/-! ## The parts -/

/-- The sessions and the monitor see the same pool and registry, and the monitor is where a monitor alone can be. -/
structure Joint (cfg : Server.Config) (st : State) : Prop where
  pool : st.monitor.pool = st.server.pool
  metrics : st.monitor.metrics = some st.server.metrics
  monitor : Monitor.Reachable cfg.pool none (Monitor.unmetered st.monitor)
  server : st.server.stopped = false → Server.Reachable cfg st.server

theorem joint_init (acceptor : HttpServer) : Joint cfg (init cfg acceptor) :=
  ⟨rfl, rfl, Lts.Reach.refl _, fun _ => Lts.Reach.refl _⟩

/-- The acceptor is no part of it. -/
theorem Joint.acceptor (h : Joint cfg st) (acceptor : HttpServer) : Joint cfg { st with acceptor } :=
  ⟨h.pool, h.metrics, h.monitor, h.server⟩

theorem Joint.withServer_self (h : Joint cfg st) : st.withServer st.server = st := by
  show { st with monitor := { st.monitor with pool := st.server.pool, metrics := some st.server.metrics } } = st
  rw [← h.pool, ← h.metrics]

theorem Joint.server_step (h : Joint cfg st) {a : Server.Action} {server : Server.State}
    (ha : ∀ i b, a ≠ .health i b) (hs : Server.step cfg st.server a = some server) :
    Joint cfg (st.withServer server) := by
  have hstep := Server.step_sound a hs
  refine ⟨rfl, rfl, ?_, fun hrun => ?_⟩
  · by_cases hsel : ∃ i, a = .select i
    · obtain ⟨i, rfl⟩ := hsel
      refine h.monitor.tail (a := .select) trivial ?_
      show some { Monitor.unmetered st.monitor with pool := st.monitor.pool.select.2 } =
        some { Monitor.unmetered st.monitor with pool := server.pool }
      rw [hstep.selected.1, h.pool]
    · have hpool : server.pool = st.server.pool := hstep.pool_other (fun i e => hsel ⟨i, e⟩) ha
      have hsame : Monitor.unmetered (st.withServer server).monitor = Monitor.unmetered st.monitor := by
        show ({ Monitor.unmetered st.monitor with pool := server.pool } : Monitor.State) = _
        rw [hpool, ← h.pool]
        rfl
      rw [hsame]
      exact h.monitor
  · exact (h.server (hstep.running hrun)).tail (a := a) trivial hs

/-- **What the monitor does is a `health` step of the server**, or nothing there. -/
theorem Joint.monitor_step (h : Joint cfg st) {a : Monitor.Action} {monitor : Monitor.State} (stopPosted : Bool)
    (ha : a ≠ .select) (hs : Monitor.step st.monitor a = some monitor) :
    Joint cfg ({ st with stopPosted }.withMonitor monitor) := by
  have hmon := h.monitor.tail (a := a) trivial (Monitor.step_unmetered a hs)
  rcases (Monitor.step_sound a hs).shared with ⟨hpool, hmetrics⟩ | hsel | ⟨index, healthy, changed, hset, hmetrics⟩
  · have hsame : ({ st with stopPosted }.withMonitor monitor).server = st.server := by
      show { st.server with pool := monitor.pool, metrics := monitor.metrics.getD st.server.metrics } = st.server
      rw [hpool, hmetrics, h.pool, h.metrics]
      rfl
    refine ⟨rfl, ?_, hmon, fun hrun => ?_⟩
    · rw [hsame]; exact hmetrics.trans h.metrics
    · rw [hsame] at hrun ⊢
      exact h.server hrun
  · exact absurd hsel ha
  · rw [h.metrics] at hmetrics
    rw [h.pool] at hset
    have hsome : monitor.metrics =
        some (if changed then st.server.metrics.recordHealthTransition else st.server.metrics) := by
      rw [hmetrics]
      cases changed <;> rfl
    have hserver : ({ st with stopPosted }.withMonitor monitor).server = { st.server with
        pool := monitor.pool
        metrics := if changed then st.server.metrics.recordHealthTransition else st.server.metrics } := by
      show { st.server with pool := monitor.pool, metrics := monitor.metrics.getD st.server.metrics } = _
      rw [hsome]
      rfl
    refine ⟨rfl, ?_, hmon, fun hrun => ?_⟩
    · rw [hserver]; exact hsome
    · rw [hserver] at hrun ⊢
      refine (h.server hrun).tail (a := .health index healthy) trivial ?_
      have hrunning : st.server.stopped = false := hrun
      simp only [Server.step, hrunning, hset]

theorem Joint.step (h : Joint cfg st) (hs : Step cfg st st') : Joint cfg st' := by
  cases hs with
  | server a server ha hs => exact h.server_step (fun i b e => by subst e; cases ha) hs
  | monitor a monitor stopPosted ha hs => exact h.monitor_step stopPosted ha hs
  | accepted => exact h.acceptor _
  | onAccept k outcome server _ hserver =>
    rcases hserver with rfl | ⟨-, hs⟩
    · rw [(h.acceptor (st.acceptor.onAccept k outcome)).withServer_self]
      exact h.acceptor _
    · exact (h.acceptor _).server_step (fun _ _ e => by cases e) hs
  | signal => exact ⟨h.pool, h.metrics, h.monitor, h.server⟩

theorem Reachable.joint (h : Reachable cfg st) : Joint cfg st :=
  Lts.Reach.inv h (joint_init _) (fun _ a _ hj _ hs => hj.step (step_sound a hs))

/-! ## Where requests go -/

/-- What is known of backend `i`: its last completed probe, and as it started before the first. -/
def State.alive (cfg : Server.Config) (st : State) (i : Nat) : Bool :=
  (Monitor.lastReport st.monitor.checks i).getD (cfg.pool.healthyAt i)

theorem Joint.healthyAt (h : Joint cfg st) (i : Nat) : st.server.pool.healthyAt i = st.alive cfg i := by
  rw [← h.pool]
  exact h.monitor.flagged i

/-- A session's `select` finds no backend, or one that is alive. -/
theorem Joint.selected (h : Joint cfg st) :
    (st.server.pool.select.1 = none ∧ ∀ k < cfg.pool.size, st.alive cfg k = false) ∨
    ∃ k upstream, st.server.pool.select.1 = some upstream ∧ k < cfg.pool.size ∧ st.alive cfg k = true ∧
      (st.server.pool.backends[k]?).map Backend.endpoint = some upstream := by
  have hsize : st.server.pool.size = cfg.pool.size := by rw [← h.pool]; exact (Monitor.Reachable.inv h.monitor).size
  cases hsel : st.server.pool.selectIndex with
  | none =>
    refine .inl ⟨(UpstreamPool.select_eq_none_iff _).2 hsel, fun k hk => ?_⟩
    rw [← h.healthyAt]
    exact (UpstreamPool.selectIndex_eq_none_iff _).1 hsel k (by rw [hsize]; exact hk)
  | some k =>
    obtain ⟨-, -, -, hhealthy, -⟩ := UpstreamPool.selectIndex_some hsel
    have hk := UpstreamPool.healthyAt_lt hhealthy
    obtain ⟨hfst, -⟩ := UpstreamPool.select_of_selectIndex hsel
    have hat : st.server.pool.backends[k]? = some (st.server.pool.backends.get ⟨k, hk⟩) := List.getElem?_eq_getElem hk
    rw [hat] at hfst
    refine .inr ⟨k, _, hfst, by rw [← hsize]; exact hk, by rw [← h.healthyAt]; exact hhealthy, ?_⟩
    rw [hat]
    rfl

/-- Two backends, and a coalescer as `main` makes one. -/
def twoBackends : Server.Config :=
  { Server.sampleConfig with pool := ⟨[⟨⟨"a".toList, 80⟩, true⟩, ⟨⟨"b".toList, 80⟩, true⟩], 0, by decide⟩ }

/-- The acceptor is open until the signal, and a session that runs was made. -/
structure Accepting (st : State) : Prop where
  ready : st.acceptor.Ready
  isOpen : st.acceptor.isOpen = !st.signalled
  made : st.server.stopped = false → ∀ i, st.acceptor.sessions ≤ i → (st.server.sessions i).phase = .unaccepted

/-- No step but its own `accept` wakes a session. -/
theorem Joint.unaccepted_step (hj : Joint cfg st) {a : Server.Action} {server : Server.State} {i : Nat}
    (hs : Server.step cfg st.server a = some server) (hrun : server.stopped = false) (ha : a ≠ .accept i)
    (hi : st.server.stopped = false → (st.server.sessions i).phase = .unaccepted) :
    (server.sessions i).phase = .unaccepted := by
  have hstep := Server.step_sound a hs
  have hrunning := hstep.running hrun
  exact (Server.Reachable.core (hj.server hrunning)).unaccepted_step hstep (hi hrunning) ha

theorem Accepting.step (h : Accepting st) (hj : Joint cfg st) (hs : Step cfg st st') : Accepting st' := by
  cases hs with
  | server a server ha hs =>
    refine ⟨h.ready, h.isOpen, fun hrun i hi => hj.unaccepted_step hs hrun ?_ (fun hr => h.made hr i hi)⟩
    rintro rfl
    cases ha
  | monitor => exact ⟨h.ready, h.isOpen, h.made⟩
  | accepted k outcome hk => exact ⟨h.ready.complete hk outcome, h.isOpen, h.made⟩
  | onAccept k outcome server hk hserver =>
    obtain ⟨hopen, -, hsessions⟩ := st.acceptor.onAccept_frame k outcome
    refine ⟨h.ready.onAccept hk outcome, hopen.trans h.isOpen, fun hrun i hi => ?_⟩
    have hi : (st.acceptor.onAccept k outcome).sessions ≤ i := hi
    rw [hsessions] at hi
    have hold : st.server.stopped = false → (st.server.sessions i).phase = .unaccepted :=
      fun hr => h.made hr i (Nat.le_trans (Nat.le_add_right _ _) hi)
    rcases hserver with rfl | ⟨rfl, hs⟩
    · exact hold hrun
    · refine hj.unaccepted_step hs hrun ?_ hold
      rintro he
      rw [if_pos rfl, Server.Action.accept.inj he] at hi
      exact absurd hi (Nat.not_succ_le_self i)
  | signal => exact ⟨h.ready.stop, rfl, h.made⟩

theorem Reachable.accepting (h : Reachable cfg st) : Accepting st :=
  Lts.Reach.invWith h (J := Joint cfg) (fun _ hr => Reachable.joint hr)
    ⟨HttpServer.ready_run, rfl, fun _ _ _ => rfl⟩ (fun _ a _ hj hi _ hs => hi.step hj (step_sound a hs))

/-- The steps of the acceptor: a connection comes or an accept fails, and the accept handler runs. -/
def Action.ofAcceptor : Action → Bool
  | .accepted _ _ | .onAccept _ => true
  | _ => false

/-- A connection that was accepted becomes a session, and the session reads. -/
theorem Accepting.serve (cfg : Server.Config) (h : Accepting st) (hrun : st.server.stopped = false)
    (ha : st.acceptor.accepts = [.completed .socket]) :
    ∃ st', Program.step cfg st (.onAccept 0) = some st' ∧ st'.acceptor.sessions = st.acceptor.sessions + 1 ∧
      (st'.server.sessions st.acceptor.sessions).phase = .reading := by
  obtain ⟨-, -, hsessions⟩ := st.acceptor.onAccept_frame 0 .socket
  have hphase := h.made hrun _ (Nat.le_refl st.acceptor.sessions)
  have hserved : st.served cfg .socket = Server.doRead st.server st.acceptor.sessions := by
    simp only [State.served, if_true, Server.step, hrun, hphase, Option.getD_some]
  refine ⟨{ st with acceptor := st.acceptor.onAccept 0 .socket }.withServer (st.served cfg .socket), ?_, hsessions, ?_⟩
  · simp only [Program.step, ha, List.getElem?_cons_zero]
  · rw [hserved]
    exact congrArg Server.Session.phase (Function.update_self st.acceptor.sessions _ st.server.sessions)

/-- A connection that comes while the accept waits is served. -/
theorem Accepting.connect (cfg : Server.Config) (h : Accepting st) (hrun : st.server.stopped = false)
    (ha : st.acceptor.accepts = [.waiting]) :
    ∃ st', Lts.run (Program.step cfg) st [.accepted 0 .socket, .onAccept 0] = some st' ∧
      st'.acceptor.sessions = st.acceptor.sessions + 1 ∧
      (st'.server.sessions st.acceptor.sessions).phase = .reading := by
  have hk : st.acceptor.accepts[0]? = some .waiting := by rw [ha]; rfl
  have hfirst : Program.step cfg st (.accepted 0 .socket) = some
      { st with acceptor := { st.acceptor with accepts := st.acceptor.accepts.set 0 (.completed .socket) } } := by
    simp only [Program.step, hk]
  have hnext : Accepting
      { st with acceptor := { st.acceptor with accepts := st.acceptor.accepts.set 0 (.completed .socket) } } :=
    ⟨h.ready.complete hk .socket, h.isOpen, h.made⟩
  obtain ⟨st', hserve, hrest⟩ := hnext.serve cfg hrun (by rw [ha]; rfl)
  refine ⟨st', ?_, hrest⟩
  rw [Lts.run_cons, hfirst, Option.bind_some, Lts.run_cons, hserve]
  rfl

/-- At most three steps, all of the acceptor, give a client that connects the next session. -/
def Admits (cfg : Server.Config) (st : State) : Prop :=
  ∃ as st', (∀ a ∈ as, Action.ofAcceptor a = true) ∧ as.length ≤ 3 ∧ Lts.run (step cfg) st as = some st' ∧
    st'.acceptor.sessions = st.acceptor.sessions + 1 ∧ (st'.server.sessions st.acceptor.sessions).phase = .reading

/-- The handler of an accept that failed starts the next. -/
theorem Accepting.retry (h : Accepting st) (hj : Joint cfg st) (hopen : st.acceptor.isOpen = true)
    (hrun : st.server.stopped = false) {outcome : Accepted} (hne : outcome ≠ .socket)
    (ha : st.acceptor.accepts = [.completed outcome]) : Admits cfg st := by
  have hk : st.acceptor.accepts[0]? = some (.completed outcome) := by rw [ha]; rfl
  have hfirst : Program.step cfg st (.onAccept 0) = some { st with acceptor := st.acceptor.onAccept 0 outcome } := by
    simp only [Program.step, hk, State.served, if_neg hne]
    rw [(hj.acceptor (st.acceptor.onAccept 0 outcome)).withServer_self]
  obtain ⟨-, haccepts, hsessions⟩ := st.acceptor.onAccept_frame 0 outcome
  rw [if_neg hne, Nat.add_zero] at hsessions
  rw [ha, if_pos hopen] at haccepts
  obtain ⟨st', hconnect, hmore, hreading⟩ := (h.step hj (step_sound _ hfirst)).connect cfg hrun haccepts
  rw [show ({ st with acceptor := st.acceptor.onAccept 0 outcome } : State).acceptor.sessions =
    st.acceptor.sessions from hsessions] at hmore hreading
  refine ⟨.onAccept 0 :: [.accepted 0 .socket, .onAccept 0], st', by decide, Nat.le_refl 3, ?_, hmore, hreading⟩
  rw [Lts.run_cons, hfirst, Option.bind_some]
  exact hconnect

/-- **Until the signal there is always a next connection.**  Whatever accepts failed before, exactly one is
outstanding; and as long as no handler threw, at most three steps of the acceptor alone give a client that connects a
session of its own, a new one, that reads its request. -/
theorem Reachable.keeps_accepting (h : Reachable cfg st) (hsig : st.signalled = false) :
    st.acceptor.accepts.length = 1 ∧
    (st.server.stopped = false → (st.server.sessions st.acceptor.sessions).phase = .unaccepted ∧ Admits cfg st) := by
  have hacc := Reachable.accepting h
  have hopen : st.acceptor.isOpen = true := by rw [hacc.isOpen, hsig]; rfl
  obtain ⟨a, ha⟩ := hacc.ready.one hopen
  refine ⟨by rw [ha]; rfl, fun hrun => ⟨hacc.made hrun _ (Nat.le_refl _), ?_⟩⟩
  cases a with
  | waiting =>
    obtain ⟨st', hconnect, hrest⟩ := hacc.connect cfg hrun ha
    exact ⟨[.accepted 0 .socket, .onAccept 0], st', by decide, Nat.le_succ 2, hconnect, hrest⟩
  | completed outcome =>
    by_cases hsocket : outcome = .socket
    · subst hsocket
      obtain ⟨st', hs, hrest⟩ := hacc.serve cfg hrun ha
      refine ⟨[.onAccept 0], st', by decide, Nat.le_add_left 1 2, ?_, hrest⟩
      rw [Lts.run_cons, hs]
      rfl
    · exact hacc.retry (Reachable.joint h) hopen hrun hsocket ha

/-- The first accept failed. -/
theorem keeps_accepting_tooManyFiles : ∃ st, Reachable twoBackends st ∧
    st.acceptor.accepts = [.completed (.error "Too many open files".toList)] ∧ st.server.stopped = false ∧
    Admits twoBackends st := by
  obtain ⟨st, hr, hf⟩ := Lts.exists_reach (step twoBackends) (fun _ _ => true)
    (init twoBackends ⟨true, [], 0, [], 0⟩) [.accepted 0 (.error "Too many open files".toList)]
    (fun st : State => decide (st.acceptor.accepts = [.completed (.error "Too many open files".toList)]) &&
      !st.signalled && !st.server.stopped) (by decide +kernel)
  simp only [Bool.and_eq_true, decide_eq_true_eq, Bool.not_eq_true'] at hf
  obtain ⟨⟨hfailed, hsig⟩, hrunning⟩ := hf
  obtain ⟨-, hadmits⟩ := Reachable.keeps_accepting hr.any hsig
  exact ⟨st, hr.any, hfailed, hrunning, (hadmits hrunning).2⟩

/-! ## After the signal -/

/-- No connection is taken any more. -/
structure Closing (due : Nat) (st : State) : Prop where
  signalled : st.signalled = true
  due : st.acceptor.due = due

theorem Closing.step {due : Nat} (h : Closing due st) (hacc : Accepting st) (hs : Step cfg st st') :
    Closing due st' := by
  have hclosed : st.acceptor.isOpen = false := by rw [hacc.isOpen, h.signalled]; rfl
  have hlast : ∀ (k : Nat) (a : Accept), st.acceptor.accepts[k]? = some a → ∃ outcome, a = .completed outcome ∧
      k = 0 ∧ st.acceptor.accepts = [.completed outcome] := by
    intro k a hk
    obtain ⟨hk0, ha⟩ := hacc.ready.eq_singleton hk
    rcases hacc.ready.last hclosed with hnil | ⟨outcome, hone⟩
    · rw [ha] at hnil; cases hnil
    · rw [ha] at hone
      exact ⟨outcome, (List.cons.inj hone).1, hk0, by rw [ha]; exact hone⟩
  cases hs with
  | server | monitor => exact ⟨h.signalled, h.due⟩
  | accepted k outcome hk =>
    obtain ⟨_, hw, -⟩ := hlast k _ hk
    cases hw
  | onAccept k outcome _ hk _ =>
    obtain ⟨_, hw, rfl, ha⟩ := hlast k _ hk
    cases hw
    refine ⟨h.signalled, ?_⟩
    obtain ⟨-, haccepts, hsessions⟩ := st.acceptor.onAccept_frame 0 outcome
    rw [ha, hclosed] at haccepts
    rw [← h.due]
    show (st.acceptor.onAccept 0 outcome).due = st.acceptor.due
    rw [HttpServer.due, HttpServer.due, haccepts, hsessions, ha]
    by_cases hsocket : outcome = .socket
    · subst hsocket; rfl
    · simp [hsocket]
  | signal hf => rw [h.signalled] at hf; cases hf

theorem Reachable.closing (h : Reachable cfg st) (hsig : st.signalled = true)
    (hto : Lts.Reach (step cfg) Lts.anyStep st st') : Closing st.acceptor.due st' := by
  refine hto.invFrom (I := Closing st.acceptor.due) ⟨hsig, rfl⟩ (fun s a s' hr hi _ hs => ?_)
  exact hi.step (Reachable.accepting (h.trans hr)) (step_sound a hs)

/-- The handler of the monitor's `stop` sets its flag, and no step of the program takes that back or makes a probe. -/
theorem stop_stops (hs : step cfg st (.monitor .stop) = some st') : st'.monitor.stopped = true := by
  simp only [step] at hs
  split at hs
  · obtain ⟨monitor, hmonitor, rfl⟩ := Option.map_eq_some_iff.1 hs
    cases hmonitor
    rfl
  · cases hs

theorem Step.halted (hs : Step cfg st st') (hstop : st.monitor.stopped = true) :
    st'.monitor.stopped = true ∧ st'.monitor.checks.length = st.monitor.checks.length := by
  cases hs with
  | server | accepted | onAccept | signal => exact ⟨hstop, rfl⟩
  | monitor a monitor _ _ hs => exact (Monitor.step_sound a hs).stopped hstop

theorem run_halted {as : List Action} (hstop : st.monitor.stopped = true) (hrun : Lts.run (step cfg) st as = some st') :
    st'.monitor.stopped = true ∧ st'.monitor.checks.length = st.monitor.checks.length := by
  refine Lts.run_inv (I := fun s => s.monitor.stopped = true ∧ s.monitor.checks.length = st.monitor.checks.length)
    (fun s a s' hi hs => ?_) ⟨hstop, rfl⟩ hrun
  obtain ⟨hstop', hlen⟩ := (step_sound a hs).halted hi.1
  exact ⟨hstop', hlen.trans hi.2⟩

/-- **After the signal nothing new begins.**  However long the handlers still run, the connections that become sessions
are the one whose accept had completed, if there is one, and no other; and from the handler of the monitor's posted
`stop` on, wherever in the run it comes, the monitor is stopped and no probe is made. -/
theorem Reachable.after_signal (h : Reachable cfg st) (hsig : st.signalled = true) {as : List Action}
    (hrun : Lts.run (step cfg) st as = some st') :
    st'.acceptor.sessions ≤ st.acceptor.sessions + st.acceptor.accepts.count (.completed .socket) ∧
    st.acceptor.accepts.count (.completed .socket) ≤ 1 ∧ .waiting ∉ st'.acceptor.accepts ∧
    ∀ before after, as = before ++ .monitor .stop :: after →
      ∃ stopped, Lts.run (step cfg) st (before ++ [.monitor .stop]) = some stopped ∧ stopped.monitor.stopped = true ∧
        st'.monitor.stopped = true ∧ st'.monitor.checks.length = stopped.monitor.checks.length := by
  have hto : Lts.Reach (step cfg) Lts.anyStep st st' := Lts.reach_any hrun
  have hacc := Reachable.accepting h
  have hacc' := Reachable.accepting (h.trans hto)
  obtain ⟨hsig', hdue⟩ := Reachable.closing h hsig hto
  refine ⟨?_, Nat.le_trans List.count_le_length hacc.ready.le_one, fun hw => ?_, ?_⟩
  · unfold HttpServer.due at hdue
    omega
  · have hclosed : st'.acceptor.isOpen = false := by rw [hacc'.isOpen, hsig']; rfl
    rcases hacc'.ready.last hclosed with hnil | ⟨outcome, hone⟩
    · rw [hnil] at hw; cases hw
    · rw [hone] at hw; cases List.mem_singleton.1 hw
  · rintro before after rfl
    rw [List.append_cons, Lts.run_append] at hrun
    obtain ⟨stopped, hbefore, hafter⟩ := Option.bind_eq_some_iff.1 hrun
    have hstop : stopped.monitor.stopped = true := by
      rw [Lts.run_append] at hbefore
      obtain ⟨_, -, hlast⟩ := Option.bind_eq_some_iff.1 hbefore
      rw [Lts.run_cons] at hlast
      obtain ⟨_, hs, hlast⟩ := Option.bind_eq_some_iff.1 hlast
      cases hlast
      exact stop_stops hs
    exact ⟨stopped, hbefore, hstop, run_halted hstop hafter⟩

/-- The signal comes when a connection was just accepted and the monitor's timer has expired: the handler that would
have started the first round runs after the `stop`. -/
theorem after_signal_accepted : ∃ st st', Reachable twoBackends st ∧ st.signalled = true ∧
    st.monitor.stopped = false ∧
    Lts.run (step twoBackends) st [.onAccept 0, .monitor .stop, .monitor (.timer 0)] = some st' ∧
    st'.acceptor.sessions ≤ 1 ∧ .waiting ∉ st'.acceptor.accepts ∧
    ∃ stopped, Lts.run (step twoBackends) st [.onAccept 0, .monitor .stop] = some stopped ∧
      stopped.monitor.stopped = true ∧ st'.monitor.stopped = true ∧
      st'.monitor.checks.length = stopped.monitor.checks.length := by
  obtain ⟨st, hr, hf⟩ := Lts.exists_reach (step twoBackends) (fun _ _ => true)
    (init twoBackends ⟨true, [], 0, [], 0⟩)
    [.monitor .start, .monitor (.expire 0), .accepted 0 .socket, .signal]
    (fun st : State => st.signalled && !st.monitor.stopped &&
      decide (st.acceptor.sessions + st.acceptor.accepts.count (.completed .socket) = 1) &&
      (Lts.run (step twoBackends) st [.onAccept 0, .monitor .stop, .monitor (.timer 0)]).isSome) (by decide +kernel)
  simp only [Bool.and_eq_true, decide_eq_true_eq, Bool.not_eq_true'] at hf
  obtain ⟨⟨⟨hsig, hrunning⟩, hdue⟩, hsome⟩ := hf
  obtain ⟨st', hrun⟩ := Option.isSome_iff_exists.1 hsome
  obtain ⟨hle, -, hw, hstop⟩ := Reachable.after_signal hr.any hsig hrun
  exact ⟨st, st', hr.any, hsig, hrunning, hrun, by omega, hw, hstop [.onAccept 0] [.monitor (.timer 0)] rfl⟩

end Program
end EventEdge
