import EventEdge.Lts
import EventEdge.Metrics
/-!
# Monitor — the periodic probes of the backends (`upstream_health_monitor.cpp`)

All handlers of the monitor and of its probes run on one strand, so each handler is one action.  No handler runs inside
the call that starts its operation.  A timer's expiry and the run of the handler that waits for it are two actions:
between them `cancel` comes too late, and the handler runs without error.  The outcome of a resolve or a connect is
anything at any time; what `resolver_.cancel()` and closing the socket do to it makes no difference.

`checks` holds every probe ever started, in starting order.  Ghost: `HealthCheck.round`, `history`, `reports` and
`completions`, `State.started` and `rounds`.
-/
namespace EventEdge
namespace Monitor

/-- An `async_wait` on a timer whose handler has not run: the timer is running, or it expired and the handler is queued
without error, or it was cancelled before and the handler is queued with `operation_aborted`. -/
inductive Wait where
  | waiting | expired | aborted
  deriving DecidableEq, Repr

/-- `cancel()` and `expires_after()` on the timer. -/
def Wait.cancel : Wait → Wait
  | .waiting => .aborted
  | .expired => .expired
  | .aborted => .aborted

/-- A handler of a probe that ran, and how. -/
inductive Ran where
  | timeout (aborted : Bool)
  | resolved (ok : Bool)
  | connected (ok : Bool)
  deriving DecidableEq, Repr

/-- `HealthCheck`. -/
structure HealthCheck where
  index : Nat
  timeoutTimer : Option Wait
  resolving : Bool
  connecting : Bool
  completed : Bool
  round : Nat
  history : List Ran
  reports : List Bool
  completions : Nat
  deriving DecidableEq, Repr

/-- The monitor.  `timer` holds the waits on `timer_`; `threw` says that an exception left a handler. -/
structure State where
  pool : UpstreamPool
  metrics : Option MetricsRegistry
  checksRemaining : Nat
  stopped : Bool
  timer : List Wait
  checks : List HealthCheck
  threw : Bool
  started : Bool
  rounds : Nat

def init (pool : UpstreamPool) (metrics : Option MetricsRegistry) : State :=
  { pool, metrics, checksRemaining := 0, stopped := false, timer := [], checks := [], threw := false, started := false,
    rounds := 0 }

/-! ## Handlers -/

/-- A probe after its constructor and `run`. -/
def HealthCheck.make (round index : Nat) : HealthCheck :=
  { index, timeoutTimer := some .waiting, resolving := true, connecting := false, completed := false, round,
    history := [], reports := [], completions := 0 }

def scheduleNextCheck (st : State) : State :=
  if st.stopped then st else { st with timer := st.timer.map Wait.cancel ++ [.waiting] }

/-- `run_checks`.  The bound of its loop is `checks_remaining_`, which no handler changes meanwhile. -/
def runChecks (st : State) : State :=
  if st.stopped then st
  else
    let st := { st with checksRemaining := st.pool.size }
    { st with
      checks := st.checks ++ (List.range st.checksRemaining).map (HealthCheck.make st.rounds)
      rounds := st.rounds + 1 }

def onCheckComplete (st : State) : State :=
  let st := if 0 < st.checksRemaining then { st with checksRemaining := st.checksRemaining - 1 } else st
  if st.checksRemaining = 0 ∧ st.stopped = false then scheduleNextCheck st else st

@[simp] theorem scheduleNextCheck_checks (st : State) : (scheduleNextCheck st).checks = st.checks := by
  unfold scheduleNextCheck; split <;> rfl

@[simp] theorem scheduleNextCheck_stopped (st : State) : (scheduleNextCheck st).stopped = st.stopped := by
  unfold scheduleNextCheck; split <;> rfl

@[simp] theorem scheduleNextCheck_rounds (st : State) : (scheduleNextCheck st).rounds = st.rounds := by
  unfold scheduleNextCheck; split <;> rfl

@[simp] theorem scheduleNextCheck_pool (st : State) : (scheduleNextCheck st).pool = st.pool := by
  unfold scheduleNextCheck; split <;> rfl

@[simp] theorem scheduleNextCheck_metrics (st : State) : (scheduleNextCheck st).metrics = st.metrics := by
  unfold scheduleNextCheck; split <;> rfl

/-- `on_check_complete` touches the countdown and the timer alone. -/
theorem onCheckComplete_frame (st : State) : (onCheckComplete st).checks = st.checks ∧
    (onCheckComplete st).stopped = st.stopped ∧ (onCheckComplete st).rounds = st.rounds ∧
    (onCheckComplete st).pool = st.pool ∧ (onCheckComplete st).metrics = st.metrics := by
  unfold onCheckComplete
  by_cases h : 0 < st.checksRemaining
  · rw [if_pos h]; dsimp only; split <;> simp
  · rw [if_neg h]; dsimp only; split <;> simp

/-- Probe `c` after `complete` set its flag and called `set_healthy` and the completion handler. -/
def HealthCheck.finished (c : HealthCheck) (healthy : Bool) : HealthCheck :=
  { c with
    completed := true
    timeoutTimer := c.timeoutTimer.map Wait.cancel
    reports := c.reports ++ [healthy]
    completions := c.completions + 1 }

/-- `HealthCheck::complete` of probe `id`, which is `c` by now. -/
def complete (st : State) (id : Nat) (c : HealthCheck) (healthy : Bool) : State :=
  if c.completed then { st with checks := st.checks.set id c }
  else match st.pool.setHealthy c.index healthy with
    | none =>
      { st with
        checks := st.checks.set id { c with completed := true, timeoutTimer := c.timeoutTimer.map Wait.cancel }
        threw := true }
    | some (changed, pool) =>
      onCheckComplete { st with
        checks := st.checks.set id (c.finished healthy)
        pool := pool
        metrics := if changed then st.metrics.map MetricsRegistry.recordHealthTransition else st.metrics }

/-- The handler of the timeout timer. -/
def onTimeout (st : State) (id : Nat) (c : HealthCheck) (aborted : Bool) : State :=
  let c := { c with timeoutTimer := none, history := c.history ++ [.timeout aborted] }
  if aborted then { st with checks := st.checks.set id c } else complete st id c false

/-- The handler of `async_resolve`. -/
def onResolve (st : State) (id : Nat) (c : HealthCheck) (ok : Bool) : State :=
  let c := { c with resolving := false, history := c.history ++ [.resolved ok] }
  if c.completed then { st with checks := st.checks.set id c }
  else if ok then { st with checks := st.checks.set id { c with connecting := true } }
  else complete st id c false

/-- The handler of `async_connect`. -/
def onConnect (st : State) (id : Nat) (c : HealthCheck) (ok : Bool) : State :=
  complete st id { c with connecting := false, history := c.history ++ [.connected ok] } ok

/-! ## Steps -/

/-- `start` and `stop` are the handlers those functions dispatch; `select` is a session's call on the pool. -/
inductive Action where
  | start
  | stop
  | expire (wait : Nat)
  | timer (wait : Nat)
  | probeExpire (id : Nat)
  | timeout (id : Nat)
  | resolved (id : Nat) (ok : Bool)
  | connected (id : Nat) (ok : Bool)
  | select
  deriving DecidableEq, Repr

/-- **One step of the monitor**; `none` when the action is not enabled. -/
def step (st : State) : Action → Option State
  | .start => if st.started then none else some (scheduleNextCheck { st with started := true })
  | .stop => some { st with stopped := true, timer := st.timer.map Wait.cancel }
  | .expire k => match st.timer[k]? with
    | some .waiting => some { st with timer := st.timer.set k .expired }
    | _ => none
  | .timer k => match st.timer[k]? with
    | some .expired => some (runChecks { st with timer := st.timer.eraseIdx k })
    | some .aborted => some { st with timer := st.timer.eraseIdx k }
    | _ => none
  | .probeExpire id => match st.checks[id]? with
    | some c => match c.timeoutTimer with
      | some .waiting => some { st with checks := st.checks.set id { c with timeoutTimer := some .expired } }
      | _ => none
    | none => none
  | .timeout id => match st.checks[id]? with
    | some c => match c.timeoutTimer with
      | some .expired => some (onTimeout st id c false)
      | some .aborted => some (onTimeout st id c true)
      | _ => none
    | none => none
  | .resolved id ok => match st.checks[id]? with
    | some c => if c.resolving then some (onResolve st id c ok) else none
    | none => none
  | .connected id ok => match st.checks[id]? with
    | some c => if c.connecting then some (onConnect st id c ok) else none
    | none => none
  | .select => some { st with pool := st.pool.select.2 }

/-- **A state of some run of a monitor of the pool.** -/
def Reachable (pool : UpstreamPool) (metrics : Option MetricsRegistry) (st : State) : Prop :=
  Lts.Reach step Lts.anyStep (init pool metrics) st

/-! ## Everything one step can do -/

/-- What the run of a handler decides about a probe that has not completed. -/
def Ran.verdict : Ran → Option Bool
  | .timeout false => some false
  | .timeout true => none
  | .resolved false => some false
  | .resolved true => none
  | .connected ok => some ok

/-- A probe changes without completing: its timer expires, its connect starts, or a handler comes after the end. -/
inductive Quiet (c : HealthCheck) : HealthCheck → Prop
  | expired : c.timeoutTimer = some .waiting → Quiet c { c with timeoutTimer := some .expired }
  | connecting : c.completed = false →
      Quiet c { c with resolving := false, connecting := true, history := c.history ++ [.resolved true] }
  | aborted : c.timeoutTimer = some .aborted →
      Quiet c { c with timeoutTimer := none, history := c.history ++ [.timeout true] }
  | late (r : Ran) (timer : Option Wait) (resolving connecting : Bool) : c.completed = true →
      timer = none ∨ timer = c.timeoutTimer →
      Quiet c { c with timeoutTimer := timer, resolving, connecting, history := c.history ++ [r] }

/-- The handler `r` of probe `c` ran, before `complete`. -/
inductive Handled (c : HealthCheck) : Ran → HealthCheck → Prop
  | timeout : Handled c (.timeout false) { c with timeoutTimer := none, history := c.history ++ [.timeout false] }
  | resolved : Handled c (.resolved false) { c with resolving := false, history := c.history ++ [.resolved false] }
  | connected (ok : Bool) :
      Handled c (.connected ok) { c with connecting := false, history := c.history ++ [.connected ok] }

/-- **The branches of `step`.** -/
inductive Step (st : State) : Action → State → Prop
  | start : st.started = false → Step st .start (scheduleNextCheck { st with started := true })
  | stop : Step st .stop { st with stopped := true, timer := st.timer.map Wait.cancel }
  | expire (k : Nat) : st.timer[k]? = some .waiting → Step st (.expire k) { st with timer := st.timer.set k .expired }
  | round (k : Nat) : st.timer[k]? = some .expired → st.stopped = false →
      Step st (.timer k) { st with
        timer := st.timer.eraseIdx k
        checksRemaining := st.pool.size
        checks := st.checks ++ (List.range st.pool.size).map (HealthCheck.make st.rounds)
        rounds := st.rounds + 1 }
  | noRound (k : Nat) (w : Wait) : st.timer[k]? = some w → w = .aborted ∨ st.stopped = true →
      Step st (.timer k) { st with timer := st.timer.eraseIdx k }
  | quiet (a : Action) (id : Nat) (c c' : HealthCheck) : st.checks[id]? = some c → Quiet c c' →
      Step st a { st with checks := st.checks.set id c' }
  | finish (a : Action) (id : Nat) (c c' : HealthCheck) (r : Ran) (healthy changed : Bool) (pool : UpstreamPool) :
      st.checks[id]? = some c → c.completed = false → Handled c r c' → r.verdict = some healthy →
      st.pool.setHealthy c.index healthy = some (changed, pool) →
      Step st a (onCheckComplete { st with
        checks := st.checks.set id (c'.finished healthy)
        pool := pool
        metrics := if changed then st.metrics.map MetricsRegistry.recordHealthTransition else st.metrics })
  | throw (a : Action) (id : Nat) (c c' : HealthCheck) (r : Ran) (healthy : Bool) : st.checks[id]? = some c →
      Handled c r c' → st.pool.setHealthy c.index healthy = none →
      Step st a { st with
        checks := st.checks.set id { c' with completed := true, timeoutTimer := c'.timeoutTimer.map Wait.cancel }
        threw := true }
  | select : Step st .select { st with pool := st.pool.select.2 }

variable {st st' : State}

/-- `complete`, called by the handler `r`. -/
theorem step_complete (a : Action) {id : Nat} {c c' : HealthCheck} {r : Ran} {healthy : Bool}
    (hc : st.checks[id]? = some c) (hr : Handled c r c') (hv : r.verdict = some healthy) :
    Step st a (complete st id c' healthy) := by
  have hcompleted : c'.completed = c.completed := by cases hr <;> rfl
  have hindex : c'.index = c.index := by cases hr <;> rfl
  unfold complete
  rw [hcompleted]
  cases hdone : c.completed with
  | true =>
    rw [if_pos rfl]
    refine .quiet a id c c' hc ?_
    cases hr with
    | timeout => exact .late (.timeout false) none c.resolving c.connecting hdone (.inl rfl)
    | resolved => exact .late (.resolved false) c.timeoutTimer false c.connecting hdone (.inr rfl)
    | connected ok => exact .late (.connected ok) c.timeoutTimer c.resolving false hdone (.inr rfl)
  | false =>
    rw [if_neg Bool.false_ne_true]
    cases hset : st.pool.setHealthy c'.index healthy with
    | none => exact .throw a id c c' r healthy hc hr (by rw [← hindex]; exact hset)
    | some res =>
      obtain ⟨changed, pool⟩ := res
      exact .finish a id c c' r healthy changed pool hc hdone hr hv (by rw [← hindex]; exact hset)

/-- **Every step of the monitor is one of the branches.** -/
theorem step_sound (a : Action) (h : step st a = some st') : Step st a st' := by
  cases a with
  | start =>
    simp only [step] at h
    split at h
    · cases h
    · rename_i hs; cases h; exact .start (by simpa using hs)
  | stop => cases h; exact .stop
  | expire k =>
    simp only [step] at h
    split at h
    · rename_i hk; cases h; exact .expire k hk
    · cases h
  | timer k =>
    simp only [step] at h
    split at h
    · rename_i hk
      cases h
      unfold runChecks
      split
      · rename_i hs; exact .noRound k _ hk (.inr hs)
      · rename_i hs; exact .round k hk (by simpa using hs)
    · rename_i hk; cases h; exact .noRound k _ hk (.inl rfl)
    · cases h
  | probeExpire id =>
    simp only [step] at h
    split at h
    · rename_i c hc
      split at h
      · rename_i hw; cases h; exact .quiet _ id c _ hc (.expired hw)
      · cases h
    · cases h
  | timeout id =>
    simp only [step] at h
    split at h
    · rename_i c hc
      split at h
      · cases h; exact step_complete _ hc .timeout rfl
      · rename_i hw; cases h; exact .quiet _ id c _ hc (.aborted hw)
      · cases h
    · cases h
  | resolved id ok =>
    simp only [step] at h
    split at h
    · rename_i c hc
      split at h
      · cases h
        unfold onResolve
        dsimp only
        split
        · rename_i hdone
          exact .quiet _ id c _ hc (.late (.resolved ok) c.timeoutTimer false c.connecting hdone (.inr rfl))
        · rename_i hdone
          cases ok with
          | true => exact .quiet _ id c _ hc (.connecting (by simpa using hdone))
          | false => exact step_complete _ hc .resolved rfl
      · cases h
    · cases h
  | connected id ok =>
    simp only [step] at h
    split at h
    · rename_i c hc
      split at h
      · cases h; exact step_complete _ hc (.connected ok) rfl
      · cases h
    · cases h
  | select => cases h; exact .select

/-- **What the monitor does to the objects it shares**: nothing, or a flag is set and the transition counted if there
was one; `select` is the sessions'. -/
theorem Step.shared {a : Action} (hs : Step st a st') : (st'.pool = st.pool ∧ st'.metrics = st.metrics) ∨ a = .select ∨
    ∃ index healthy changed, st.pool.setHealthy index healthy = some (changed, st'.pool) ∧
      st'.metrics = if changed then st.metrics.map MetricsRegistry.recordHealthTransition else st.metrics := by
  cases hs with
  | start => simp
  | finish _ id c c' _ healthy changed pool _ _ _ _ hset =>
    obtain ⟨-, -, -, hp, hm⟩ := onCheckComplete_frame { st with
      checks := st.checks.set id (c'.finished healthy)
      pool := pool
      metrics := if changed then st.metrics.map MetricsRegistry.recordHealthTransition else st.metrics }
    exact .inr (.inr ⟨c.index, healthy, changed, by rw [hp]; exact hset, hm⟩)
  | select => exact .inr (.inl rfl)
  | _ => exact .inl ⟨rfl, rfl⟩

end Monitor
end EventEdge
