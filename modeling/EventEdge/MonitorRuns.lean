import Mathlib.Data.List.Nodup
import EventEdge.Monitor
/-!
# MonitorRuns — every round probes every backend once, and ends

`CheckOk` is what is known of one probe: until it completes only resolves that succeeded ran, and its timeout is still
outstanding; the handler that completed it is the first that decides, and it reported once.  `Inv` ties the probes to
the countdown and the timer: the probes are laid out round by round, the countdown counts the ones that have not
completed, all of the last round, and the timer is live only when it is zero.  `Monitored` is what follows.
-/
namespace EventEdge
namespace Monitor

/-! ## One probe -/

structure CheckOk (c : HealthCheck) : Prop where
  running : c.completed = false → c.reports = [] ∧ c.completions = 0 ∧ (∀ r ∈ c.history, r = .resolved true) ∧
    (c.timeoutTimer = some .waiting ∨ c.timeoutTimer = some .expired)
  done : c.completed = true → ∃ pre r post healthy, c.history = pre ++ r :: post ∧ (∀ x ∈ pre, x = .resolved true) ∧
    r.verdict = some healthy ∧ c.reports = [healthy] ∧ c.completions = 1

variable {c c' : HealthCheck}

theorem checkOk_make (round index : Nat) : CheckOk (HealthCheck.make round index) :=
  ⟨fun _ => ⟨rfl, rfl, List.forall_mem_nil _, .inl rfl⟩, fun h => (by cases h)⟩

theorem CheckOk.quiet (h : CheckOk c) (hq : Quiet c c') : CheckOk c' := by
  have late : ∀ (r : Ran) (d : HealthCheck), c.completed = true → d.completed = true → d.history = c.history ++ [r] →
      d.reports = c.reports → d.completions = c.completions → CheckOk d := by
    intro r d hc hd hh hr hn
    refine ⟨fun hf => absurd (hd.symm.trans hf) (by decide), fun _ => ?_⟩
    obtain ⟨pre, x, post, healthy, hhist, hpre, hv, hrep, hcomp⟩ := h.done hc
    exact ⟨pre, x, post ++ [r], healthy, by rw [hh, hhist, List.append_assoc, List.cons_append], hpre, hv,
      by rw [hr, hrep], by rw [hn, hcomp]⟩
  cases hq with
  | expired hw =>
    refine ⟨fun hc => ?_, h.done⟩
    obtain ⟨h1, h2, h3, -⟩ := h.running hc
    exact ⟨h1, h2, h3, .inr rfl⟩
  | connecting hc =>
    refine ⟨fun _ => ?_, fun hd => absurd (hc.symm.trans hd) (by decide)⟩
    obtain ⟨h1, h2, h3, h4⟩ := h.running hc
    refine ⟨h1, h2, fun r hr => ?_, h4⟩
    rcases List.mem_append.1 hr with hr | hr
    · exact h3 r hr
    · exact List.mem_singleton.1 hr
  | aborted hw =>
    by_cases hc : c.completed = true
    · exact late (.timeout true) _ hc hc rfl rfl rfl
    · -- only a probe that completed cancels its timer
      obtain ⟨-, -, -, h4⟩ := h.running (Bool.eq_false_iff.2 hc)
      rw [hw] at h4
      rcases h4 with h4 | h4 <;> cases h4
  | late r timer _ _ hc _ => exact late r _ hc hc rfl rfl rfl

theorem CheckOk.finished {r : Ran} {healthy : Bool} (h : CheckOk c) (hc : c.completed = false) (hr : Handled c r c')
    (hv : r.verdict = some healthy) : CheckOk (c'.finished healthy) := by
  obtain ⟨h1, h2, h3, -⟩ := h.running hc
  have hhist : c'.history = c.history ++ [r] := by cases hr <;> rfl
  have hrep : c'.reports = c.reports := by cases hr <;> rfl
  have hcomp : c'.completions = c.completions := by cases hr <;> rfl
  refine ⟨fun hf => (by cases hf), fun _ => ⟨c.history, r, [], healthy, hhist, h3, hv, ?_, ?_⟩⟩
  · rw [HealthCheck.finished, hrep, h1]; rfl
  · rw [HealthCheck.finished, hcomp, h2]

/-! ## The timer -/

/-- The waits whose handler will run without error, or may. -/
def live (l : List Wait) : Nat := l.countP (fun w => w != .aborted)

theorem live_cancel (l : List Wait) : live (l.map Wait.cancel) ≤ live l := by
  unfold live
  rw [List.countP_map]
  refine List.countP_mono_left (fun w _ hw => ?_)
  cases w with
  | waiting => rfl
  | expired => rfl
  | aborted => exact hw

theorem live_append (l l' : List Wait) : live (l ++ l') = live l + live l' := List.countP_append

theorem live_expire {l : List Wait} {k : Nat} (h : l[k]? = some .waiting) : live (l.set k .expired) = live l := by
  obtain ⟨pre, post, hl, hset, -⟩ := Lts.getElem?_split h
  rw [hset, hl]
  simp [live]

theorem live_erase {l : List Wait} {k : Nat} {w : Wait} (h : l[k]? = some w) :
    live l = live (l.eraseIdx k) + live [w] := by
  obtain ⟨pre, post, hl, -, herase, -⟩ := Lts.getElem?_split h
  rw [herase, hl]
  simp only [live, List.countP_append, List.countP_cons, List.countP_nil]
  omega

/-! ## The invariant -/

/-- Round after round, one probe for every backend, in order. -/
def layout (n rounds : Nat) : List (Nat × Nat) :=
  (List.range rounds).flatMap (fun round => (List.range n).map (fun index => (round, index)))

theorem layout_succ (n rounds : Nat) :
    layout n (rounds + 1) = layout n rounds ++ (List.range n).map (fun index => (rounds, index)) := by
  rw [layout, List.range_succ, List.flatMap_append, List.flatMap_singleton, ← layout]

theorem layout_nodup (n rounds : Nat) : (layout n rounds).Nodup :=
  List.Nodup.product List.nodup_range List.nodup_range

theorem mem_layout {n rounds : Nat} {x : Nat × Nat} : x ∈ layout n rounds ↔ x.1 < rounds ∧ x.2 < n := by
  obtain ⟨round, index⟩ := x
  simp only [layout, List.mem_flatMap, List.mem_range, List.mem_map, Prod.mk.injEq]
  constructor
  · rintro ⟨r, hr, i, hi, rfl, rfl⟩; exact ⟨hr, hi⟩
  · rintro ⟨hr, hi⟩; exact ⟨round, hr, index, hi, rfl, rfl⟩

def HealthCheck.place (c : HealthCheck) : Nat × Nat := (c.round, c.index)

structure Inv (n : Nat) (st : State) : Prop where
  size : st.pool.size = n
  threw : st.threw = false
  checks : ∀ c ∈ st.checks, CheckOk c
  places : st.checks.map HealthCheck.place = layout n st.rounds
  remaining : st.checksRemaining = st.checks.countP (fun c => !c.completed)
  current : ∀ c ∈ st.checks, c.completed = false → c.round + 1 = st.rounds
  flags : ∀ c ∈ st.checks, c.round + 1 = st.rounds → c.completed = true → c.reports = [st.pool.healthyAt c.index]
  live_le : live st.timer ≤ 1
  live_zero : 0 < st.checksRemaining → live st.timer = 0
  live_one : st.started = true → st.stopped = false → st.checksRemaining = 0 → live st.timer = 1
  fresh : st.started = false → st.timer = [] ∧ st.checks = []

variable {n : Nat} {st st' : State} {a : Action}

theorem inv_init (pool : UpstreamPool) (metrics : Option MetricsRegistry) : Inv pool.size (init pool metrics) where
  size := rfl
  threw := rfl
  checks := fun c hc => by cases hc
  places := rfl
  remaining := rfl
  current := fun c hc => by cases hc
  flags := fun c hc => by cases hc
  live_le := Nat.zero_le 1
  live_zero := fun h => by cases h
  live_one := fun h => by cases h
  fresh := fun _ => ⟨rfl, rfl⟩

theorem Inv.index_lt (h : Inv n st) (hc : c ∈ st.checks) : c.round < st.rounds ∧ c.index < n := by
  have hm : c.place ∈ layout n st.rounds := by rw [← h.places]; exact List.mem_map.2 ⟨c, hc, rfl⟩
  exact mem_layout.1 hm

theorem Inv.all_completed (h : Inv n st) (h0 : st.checksRemaining = 0) : ∀ c ∈ st.checks, c.completed = true := by
  have hcount := h.remaining
  rw [h0] at hcount
  intro c hc
  simpa using List.countP_eq_zero.1 hcount.symm c hc

/-- One probe changes and keeps its place. -/
theorem map_place_set {l : List HealthCheck} {id : Nat} (hc : l[id]? = some c) (hp : c'.place = c.place) :
    (l.set id c').map HealthCheck.place = l.map HealthCheck.place := by
  obtain ⟨pre, post, hl, hset, -⟩ := Lts.getElem?_split hc
  rw [hset, hl, List.map_append, List.map_append, List.map_cons, List.map_cons, hp]

/-- **A probe of a round has its index alone.** -/
theorem Inv.index_ne (h : Inv n st) {id j : Nat} {d : HealthCheck} (hc : st.checks[id]? = some c)
    (hd : st.checks[j]? = some d) (hj : j ≠ id) (hr : d.round = c.round) : d.index ≠ c.index := by
  intro hi
  have hnd : (st.checks.map HealthCheck.place).Nodup := by rw [h.places]; exact layout_nodup n _
  have hplace : d.place = c.place := by rw [HealthCheck.place, hr, hi]; rfl
  have hid : (st.checks.map HealthCheck.place)[id]? = some c.place := by rw [List.getElem?_map, hc]; rfl
  have hjd : (st.checks.map HealthCheck.place)[j]? = some c.place := by rw [List.getElem?_map, hd, ← hplace]; rfl
  obtain ⟨hid, hid'⟩ := List.getElem?_eq_some_iff.1 hid
  obtain ⟨hjd, hjd'⟩ := List.getElem?_eq_some_iff.1 hjd
  exact hj ((List.Nodup.getElem_inj_iff hnd).1 (hjd'.trans hid'.symm))

/-- Only the timer and the flags of the monitor itself change. -/
theorem Inv.timers (h : Inv n st) {timer : List Wait} {started stopped : Bool} (hle : live timer ≤ 1)
    (hzero : 0 < st.checksRemaining → live timer = 0)
    (hone : started = true → stopped = false → st.checksRemaining = 0 → live timer = 1)
    (hfresh : started = false → timer = [] ∧ st.checks = []) :
    Inv n { st with timer := timer, started := started, stopped := stopped } :=
  ⟨h.size, h.threw, h.checks, h.places, h.remaining, h.current, h.flags, hle, hzero, hone, hfresh⟩

theorem Inv.quiet (h : Inv n st) {id : Nat} (hc : st.checks[id]? = some c) (hq : Quiet c c') :
    Inv n { st with checks := st.checks.set id c' } := by
  have hmem : c ∈ st.checks := List.mem_of_getElem? hc
  have hplace : c'.place = c.place := by cases hq <;> rfl
  have hcompleted : c'.completed = c.completed := by cases hq <;> rfl
  have hreports : c'.reports = c.reports := by cases hq <;> rfl
  have hround : c'.round = c.round := congrArg Prod.fst hplace
  have hindex : c'.index = c.index := congrArg Prod.snd hplace
  refine ⟨h.size, h.threw, fun d hd => ?_, ?_, ?_, fun d hd => ?_, fun d hd => ?_, h.live_le, h.live_zero, h.live_one,
    fun hs => ?_⟩
  · rcases List.mem_or_eq_of_mem_set hd with hd | rfl
    · exact h.checks d hd
    · exact (h.checks c hmem).quiet hq
  · rw [map_place_set hc hplace]; exact h.places
  · obtain ⟨pre, post, hl, hset, -⟩ := Lts.getElem?_split hc
    rw [h.remaining, hset, hl]
    simp only [List.countP_append, List.countP_cons, hcompleted]
  · rcases List.mem_or_eq_of_mem_set hd with hd | rfl
    · exact h.current d hd
    · rw [hcompleted, hround]; exact h.current c hmem
  · rcases List.mem_or_eq_of_mem_set hd with hd | rfl
    · exact h.flags d hd
    · rw [hcompleted, hround, hreports, hindex]; exact h.flags c hmem
  · obtain ⟨ht, hnil⟩ := h.fresh hs
    rw [hnil] at hmem; cases hmem

/-- **A new round**: the timer was live, so no probe is left of the last one. -/
theorem Inv.round (h : Inv n st) {k : Nat} (hk : st.timer[k]? = some .expired) :
    st.checksRemaining = 0 ∧
    Inv n { st with
      timer := st.timer.eraseIdx k
      checksRemaining := st.pool.size
      checks := st.checks ++ (List.range st.pool.size).map (HealthCheck.make st.rounds)
      rounds := st.rounds + 1 } := by
  have hlive := live_erase hk
  have hle := h.live_le
  have hone : live [Wait.expired] = 1 := rfl
  have hnone : live (st.timer.eraseIdx k) = 0 := by omega
  have hzero : st.checksRemaining = 0 := by
    by_contra hne
    have := h.live_zero (Nat.pos_of_ne_zero hne)
    omega
  have hpos : 0 < st.pool.size := Nat.lt_of_le_of_lt (Nat.zero_le _) st.pool.nextIndex_lt
  have hdone := h.all_completed hzero
  have hold : ∀ d ∈ st.checks, d.round ≠ st.rounds := fun d hd => Nat.ne_of_lt (h.index_lt hd).1
  refine ⟨hzero, h.size, h.threw, fun d hd => ?_, ?_, ?_, fun d hd hf => ?_, fun d hd hr hc => ?_, ?_, fun _ => ?_,
    fun _ _ h0 => absurd h0 (Nat.ne_of_gt hpos), fun hs => ?_⟩
  · rcases List.mem_append.1 hd with hd | hd
    · exact h.checks d hd
    · obtain ⟨i, -, rfl⟩ := List.mem_map.1 hd
      exact checkOk_make _ i
  · rw [List.map_append, h.places, layout_succ, List.map_map, h.size]
    rfl
  · have hnew : ((List.range st.pool.size).map (HealthCheck.make st.rounds)).countP (fun c => !c.completed) =
        st.pool.size := by
      rw [List.countP_eq_length.2, List.length_map, List.length_range]
      intro d hd
      obtain ⟨i, -, rfl⟩ := List.mem_map.1 hd
      rfl
    have hold : st.checks.countP (fun c => !c.completed) = 0 := by rw [← h.remaining, hzero]
    rw [List.countP_append, hnew, hold, Nat.zero_add]
  · rcases List.mem_append.1 hd with hd | hd
    · rw [hdone d hd] at hf; cases hf
    · obtain ⟨i, -, rfl⟩ := List.mem_map.1 hd
      rfl
  · rcases List.mem_append.1 hd with hd | hd
    · exact absurd (Nat.succ.inj hr) (hold d hd)
    · obtain ⟨i, -, rfl⟩ := List.mem_map.1 hd
      cases hc
  · rw [hnone]; exact Nat.zero_le 1
  · exact hnone
  · rw [(h.fresh hs).1] at hk; cases hk

/-- **A probe completes**: one less is counted, and after the last one the timer is live again. -/
theorem Inv.finish (h : Inv n st) {id : Nat} {healthy changed : Bool} {r : Ran} {pool : UpstreamPool}
    (metrics : Option MetricsRegistry) (hc : st.checks[id]? = some c) (hrun : c.completed = false) (hr : Handled c r c')
    (hv : r.verdict = some healthy) (hset : st.pool.setHealthy c.index healthy = some (changed, pool)) :
    Inv n (onCheckComplete { st with
      checks := st.checks.set id (c'.finished healthy), pool := pool, metrics := metrics }) := by
  have hmem : c ∈ st.checks := List.mem_of_getElem? hc
  have hplace : (c'.finished healthy).place = c.place := by cases hr <;> rfl
  have hround : (c'.finished healthy).round = c.round := congrArg Prod.fst hplace
  have hindex : (c'.finished healthy).index = c.index := congrArg Prod.snd hplace
  have hreports : (c'.finished healthy).reports = [healthy] := by
    rw [HealthCheck.finished, show c'.reports = c.reports by cases hr <;> rfl, ((h.checks c hmem).running hrun).1]
    rfl
  obtain ⟨hsize, hself, hother, -⟩ := UpstreamPool.setHealthy_some hset
  have hstarted : st.started = true := by
    by_contra hs
    rw [(h.fresh (Bool.eq_false_iff.2 hs)).2] at hmem; cases hmem
  -- the probe was one of those counted
  have hcount : st.checksRemaining = (st.checks.set id (c'.finished healthy)).countP (fun c => !c.completed) + 1 := by
    obtain ⟨pre, post, hl, hset', -⟩ := Lts.getElem?_split hc
    rw [h.remaining, hset', hl]
    simp only [List.countP_append, List.countP_cons, hrun, HealthCheck.finished]
    simp only [Bool.not_true, Bool.not_false, Bool.false_eq_true, if_true, if_false]
    omega
  have hzero := h.live_zero (by omega)
  have hbase : ∀ (remaining : Nat) (timer : List Wait), remaining + 1 = st.checksRemaining → live timer ≤ 1 →
      (0 < remaining → live timer = 0) → (st.stopped = false → remaining = 0 → live timer = 1) →
      Inv n { st with
        checks := st.checks.set id (c'.finished healthy), pool := pool, metrics := metrics,
        checksRemaining := remaining, timer := timer } := by
    intro remaining timer hrem hle hz hone
    refine ⟨hsize.trans h.size, h.threw, fun d hd => ?_, ?_, ?_, fun d hd => ?_, fun d hd hdr hdc => ?_, hle, hz,
      fun _ => hone, fun hs => absurd (hstarted.symm.trans hs) (by decide)⟩
    · rcases List.mem_or_eq_of_mem_set hd with hd | rfl
      · exact h.checks d hd
      · exact (h.checks c hmem).finished hrun hr hv
    · rw [map_place_set hc hplace]; exact h.places
    · exact Nat.succ.inj (hrem.trans hcount)
    · rcases List.mem_or_eq_of_mem_set hd with hd | rfl
      · exact h.current d hd
      · exact fun hf => (by cases hf)
    · obtain ⟨j, hj⟩ := List.getElem?_of_mem hd
      rcases Lts.getElem?_set_cases hj with ⟨rfl, rfl⟩ | ⟨hne, hj⟩
      · rw [hreports, hindex, hself]
      · have hcr := h.current c hmem hrun
        have hdi := h.index_ne hc hj hne (Nat.succ.inj (hdr.trans hcr.symm))
        rw [hother d.index hdi]
        exact h.flags d (List.mem_of_getElem? hj) hdr hdc
  unfold onCheckComplete
  rw [if_pos (show 0 < st.checksRemaining by omega)]
  dsimp only
  split
  · rename_i hlast
    obtain ⟨hlast, hrunning⟩ := hlast
    unfold scheduleNextCheck
    rw [if_neg (by rw [show st.stopped = false from hrunning]; decide)]
    have hlive : live (st.timer.map Wait.cancel ++ [.waiting]) = 1 := by
      have hc := live_cancel st.timer
      have hw : live [Wait.waiting] = 1 := rfl
      rw [live_append, hw]
      omega
    exact hbase (st.checksRemaining - 1) _ (by omega) (Nat.le_of_eq hlive)
      (fun hpos => absurd hlast (Nat.ne_of_gt hpos)) (fun _ _ => hlive)
  · rename_i hmore
    refine hbase (st.checksRemaining - 1) st.timer (by omega) h.live_le (fun _ => hzero) (fun hs h0 => ?_)
    exact absurd ⟨h0, hs⟩ hmore

/-- **Every step keeps the probes, the countdown and the timer together.** -/
theorem Inv.step (h : Inv n st) (hs : Step st a st') : Inv n st' := by
  cases hs with
  | start hst =>
    unfold scheduleNextCheck
    obtain ⟨htimer, hchecks⟩ := h.fresh hst
    have hrem : st.checksRemaining = 0 := by rw [h.remaining, hchecks]; rfl
    split
    · rename_i hstop
      exact h.timers h.live_le h.live_zero (fun _ hs => absurd (hstop.symm.trans hs) (by decide)) (fun hs => (by cases hs))
    · have hlive : live (st.timer.map Wait.cancel ++ [.waiting]) = 1 := by rw [htimer]; rfl
      exact h.timers (Nat.le_of_eq hlive) (fun hpos => absurd hrem (Nat.ne_of_gt hpos)) (fun _ _ _ => hlive)
        (fun hs => (by cases hs))
  | stop =>
    have hle := live_cancel st.timer
    refine h.timers (Nat.le_trans hle h.live_le) (fun hpos => ?_) (fun _ hs => (by cases hs)) (fun hs => ?_)
    · have := h.live_zero hpos
      omega
    · obtain ⟨ht, hc⟩ := h.fresh hs
      exact ⟨by rw [ht]; rfl, hc⟩
  | expire k hk =>
    have hlive := live_expire hk
    refine h.timers (by rw [hlive]; exact h.live_le) (fun hpos => by rw [hlive]; exact h.live_zero hpos)
      (fun hs hst h0 => by rw [hlive]; exact h.live_one hs hst h0) (fun hs => ?_)
    rw [(h.fresh hs).1] at hk; cases hk
  | round k hk _ => exact (h.round hk).2
  | noRound k w hk hw =>
    have hlive := live_erase hk
    have hle := h.live_le
    refine h.timers (by omega) (fun hpos => ?_) (fun hs hst h0 => ?_) (fun hs => ?_)
    · have := h.live_zero hpos
      omega
    · rcases hw with rfl | hw
      · have habort : live [Wait.aborted] = 0 := rfl
        have := h.live_one hs hst h0
        omega
      · exact absurd (hw.symm.trans hst) (by decide)
    · rw [(h.fresh hs).1] at hk; cases hk
  | quiet _ id c c' hc hq => exact h.quiet hc hq
  | finish _ id c c' r healthy changed pool hc hrun hr hv hset => exact h.finish _ hc hrun hr hv hset
  | throw _ id c c' r healthy hc _ hset =>
    -- the index of a probe is one of the pool's
    have hlt := (h.index_lt (List.mem_of_getElem? hc)).2
    obtain ⟨changed, q, hq⟩ := UpstreamPool.setHealthy_isSome (by rw [h.size]; exact hlt) healthy
    rw [hq] at hset; cases hset
  | select =>
    refine ⟨by rw [UpstreamPool.select_size]; exact h.size, h.threw, h.checks, h.places, h.remaining, h.current,
      fun c hc hr hd => ?_, h.live_le, h.live_zero, h.live_one, h.fresh⟩
    rw [UpstreamPool.select_healthyAt]
    exact h.flags c hc hr hd

variable {pool : UpstreamPool} {metrics : Option MetricsRegistry}

theorem Reachable.inv (h : Reachable pool metrics st) : Inv pool.size st :=
  Lts.Reach.inv h (inv_init pool metrics) (fun _ a _ hi _ hs => hi.step (step_sound a hs))

/-! ## What follows -/

/-- A handler that failed, or the timeout's. -/
def Ran.adverse : Ran → Bool
  | .timeout _ => true
  | .resolved ok | .connected ok => !ok

/-- The probe of backend `i` started last. -/
def latest (st : State) (i : Nat) : Option HealthCheck := st.checks.reverse.find? (fun c => decide (c.index = i))

theorem verdict_of_not_adverse {r : Ran} {healthy : Bool} (h : r.adverse = false) (hv : r.verdict = some healthy) :
    healthy = true := by
  match r, h with
  | .resolved true, _ => cases hv
  | .connected true, _ => cases hv; rfl

theorem eq_connected_of_verdict {r : Ran} (hv : r.verdict = some true) : r = .connected true := by
  match r with
  | .timeout true | .timeout false | .resolved true | .resolved false => cases hv
  | .connected ok => cases hv; rfl

/-- **A probe reports true exactly if its connect succeeded before anything failed or timed out.** -/
theorem CheckOk.reports_iff (h : CheckOk c) (hc : c.completed = true) : c.reports = [true] ↔
    ∃ pre post, c.history = pre ++ .connected true :: post ∧ ∀ r ∈ pre, r.adverse = false := by
  obtain ⟨pre, r, post, healthy, hhist, hpre, hv, hrep, -⟩ := h.done hc
  rw [hrep]
  constructor
  · intro ht
    cases ht
    exact ⟨pre, post, by rw [hhist, eq_connected_of_verdict hv], fun x hx => by rw [hpre x hx]; rfl⟩
  · rintro ⟨pre', post', hhist', hpre'⟩
    rw [hhist] at hhist'
    -- the deciding handler is the connect, or ran before it
    rcases List.append_eq_append_iff.1 hhist' with ⟨l, hl, hr⟩ | ⟨l, hl, hr⟩
    · cases l with
      | nil =>
        rw [List.nil_append] at hr
        cases hr
        cases hv; rfl
      | cons x l =>
        rw [List.cons_append] at hr
        cases hr
        rw [verdict_of_not_adverse (hpre' r (by rw [hl]; simp)) hv]
    · cases l with
      | nil =>
        rw [List.nil_append] at hr
        cases hr
        cases hv; rfl
      | cons x l =>
        rw [List.cons_append] at hr
        cases hr
        cases hpre (.connected true) (by rw [hl]; simp)

theorem layout_filter {round rounds : Nat} (h : round < rounds) :
    (layout n rounds).filter (fun x => decide (x.1 = round)) = (List.range n).map (fun index => (round, index)) := by
  have hblock : ∀ r, ((List.range n).map (fun index => (r, index))).filter (fun x => decide (x.1 = round)) =
      if r = round then (List.range n).map (fun index => (r, index)) else [] := by
    intro r
    split
    · rename_i hr
      refine List.filter_eq_self.2 (fun x hx => ?_)
      obtain ⟨i, -, rfl⟩ := List.mem_map.1 hx
      simpa using hr
    · rename_i hr
      refine List.filter_eq_nil_iff.2 (fun x hx => ?_)
      obtain ⟨i, -, rfl⟩ := List.mem_map.1 hx
      simpa using hr
  induction rounds with
  | zero => cases h
  | succ rounds ih =>
    rw [layout_succ, List.filter_append, hblock]
    by_cases hr : rounds = round
    · subst hr
      have hnone : (layout n rounds).filter (fun x => decide (x.1 = rounds)) = [] :=
        List.filter_eq_nil_iff.2 (fun x hx => by simpa using Nat.ne_of_lt (mem_layout.1 hx).1)
      rw [hnone, if_pos rfl, List.nil_append]
    · rw [if_neg hr, List.append_nil]
      exact ih (by omega)

/-- **The probe of a backend started last is the one of the last round.** -/
theorem Inv.latest_round (h : Inv n st) {i : Nat} (hc : latest st i = some c) :
    c ∈ st.checks ∧ c.index = i ∧ c.round + 1 = st.rounds := by
  have hi : c.index = i := by simpa using List.find?_some hc
  have hmem : c ∈ st.checks := List.mem_reverse.1 (List.mem_of_find?_eq_some hc)
  obtain ⟨hround, hindex⟩ := h.index_lt hmem
  obtain ⟨rounds, hrounds⟩ : ∃ rounds, st.rounds = rounds + 1 := ⟨st.rounds - 1, by omega⟩
  have hplaces := h.places
  rw [hrounds, layout_succ] at hplaces
  obtain ⟨old, last, hl, -, hlast⟩ := List.map_eq_append_iff.1 hplaces
  unfold latest at hc
  rw [hl, List.reverse_append, List.find?_append] at hc
  -- the last round has a probe of that backend
  have hfound : (last.reverse.find? (fun c => decide (c.index = i))).isSome = true := by
    have hm : (rounds, i) ∈ last.map HealthCheck.place := by
      rw [hlast]; exact List.mem_map.2 ⟨i, List.mem_range.2 (by rw [← hi]; exact hindex), rfl⟩
    obtain ⟨d, hd, hplace⟩ := List.mem_map.1 hm
    exact List.find?_isSome.2 ⟨d, List.mem_reverse.2 hd, decide_eq_true (congrArg Prod.snd hplace)⟩
  obtain ⟨d, hd⟩ := Option.isSome_iff_exists.1 hfound
  rw [hd, Option.some_or] at hc
  cases hc
  have hm : c.place ∈ last.map HealthCheck.place :=
    List.mem_map.2 ⟨c, List.mem_reverse.1 (List.mem_of_find?_eq_some hd), rfl⟩
  rw [hlast] at hm
  obtain ⟨j, -, hj⟩ := List.mem_map.1 hm
  exact ⟨hmem, hi, by rw [hrounds, show c.round = rounds from (congrArg Prod.fst hj).symm]⟩

theorem Inv.round_step (h : Inv n st) (hs : Step st a st') (hr : st'.rounds ≠ st.rounds) :
    st'.rounds = st.rounds + 1 ∧ st.checksRemaining = 0 := by
  cases hs with
  | round k hk _ => exact ⟨rfl, (h.round hk).1⟩
  | start _ => exact absurd (scheduleNextCheck_rounds _) hr
  | finish => exact absurd (onCheckComplete_frame _).2.2.1 hr
  | stop | expire | noRound | quiet | throw | select => exact absurd rfl hr

theorem Step.stopped (hs : Step st a st') (hstop : st.stopped = true) :
    st'.stopped = true ∧ st'.checks.length = st.checks.length := by
  cases hs with
  | round k _ hrun => exact absurd (hstop.symm.trans hrun) (by decide)
  | start _ => exact ⟨by rw [scheduleNextCheck_stopped]; exact hstop, by rw [scheduleNextCheck_checks]⟩
  | finish =>
    obtain ⟨hchecks, hst, -⟩ := onCheckComplete_frame _
    exact ⟨hst.trans hstop, by rw [hchecks]; exact List.length_set⟩
  | quiet | throw => exact ⟨hstop, List.length_set⟩
  | stop => exact ⟨rfl, rfl⟩
  | expire | noRound | select => exact ⟨hstop, rfl⟩

theorem run_stopped {as : List Action} (hstop : st.stopped = true) (hrun : Lts.run step st as = some st') :
    st'.stopped = true ∧ st'.checks.length = st.checks.length := by
  refine Lts.run_inv (I := fun s => s.stopped = true ∧ s.checks.length = st.checks.length) (fun s a s' hi hs => ?_)
    ⟨hstop, rfl⟩ hrun
  obtain ⟨hstop', hlen⟩ := (step_sound a hs).stopped hi.1
  exact ⟨hstop', hlen.trans hi.2⟩

/-- The timeout of a probe that has not completed completes it. -/
theorem Inv.timeout_completes (h : Inv n st) {id : Nat} (hc : st.checks[id]? = some c) (hrun : c.completed = false)
    (hexp : c.timeoutTimer = some .expired) :
    ∃ st', Monitor.step st (.timeout id) = some st' ∧ ∃ c', st'.checks[id]? = some c' ∧ c'.completed = true := by
  have hlt := (h.index_lt (List.mem_of_getElem? hc)).2
  obtain ⟨changed, pool, hset⟩ := UpstreamPool.setHealthy_isSome (by rw [h.size]; exact hlt) false
  refine ⟨onTimeout st id c false, by simp only [Monitor.step, hc, hexp], ?_⟩
  simp only [onTimeout, complete, hrun, hset, Bool.false_eq_true, if_false]
  rw [(onCheckComplete_frame _).1]
  exact ⟨_, List.getElem?_set_self (List.getElem?_eq_some_iff.1 hc).1, rfl⟩

/-- **The monitor keeps its rounds apart.**  The countdown counts the probes of the current round that have not
completed; a round starts only when there is none left of the one before, and probes every backend once; a probe
reports once and calls its completion handler once, and as long as it has not, its timeout is outstanding; between
rounds every flag is what the latest probe reported; the handler that `stop` posts can run at any time, and in no run
after it is a probe started. -/
structure Monitored (st : State) : Prop where
  remaining : st.checksRemaining = st.checks.countP (fun c => decide (c.round + 1 = st.rounds) && !c.completed)
  one_round : ∀ c ∈ st.checks, c.completed = false → c.round + 1 = st.rounds
  next_round : ∀ a st', step st a = some st' → st'.rounds ≠ st.rounds →
    st'.rounds = st.rounds + 1 ∧ ∀ c ∈ st.checks, c.completed = true
  every_index : ∀ round < st.rounds,
    (st.checks.filter (fun c => decide (c.round = round))).map HealthCheck.index = List.range st.pool.size
  in_a_round : ∀ c ∈ st.checks, c.round < st.rounds
  once : ∀ c ∈ st.checks, c.reports.length = c.completions ∧ c.completions = if c.completed then 1 else 0
  will_complete : ∀ id c, st.checks[id]? = some c → c.completed = false →
    ∃ as st' c', (as = [.timeout id] ∨ as = [.probeExpire id, .timeout id]) ∧ Lts.run step st as = some st' ∧
      st'.checks[id]? = some c' ∧ c'.completed = true
  outcome : ∀ c ∈ st.checks, c.completed = true → (c.reports = [true] ↔
    ∃ pre post, c.history = pre ++ .connected true :: post ∧ ∀ r ∈ pre, r.adverse = false)
  between : st.checksRemaining = 0 → ∀ i c, latest st i = some c → c.reports = [st.pool.healthyAt i]
  stopped : st.stopped = true → ∀ a st', step st a = some st' →
    st'.stopped = true ∧ st'.checks.length = st.checks.length
  after_stop : ∃ st₁, step st .stop = some st₁ ∧ st₁.stopped = true ∧
    ∀ as st₂, Lts.run step st₁ as = some st₂ → st₂.stopped = true ∧ st₂.checks.length = st.checks.length
  no_throw : st.threw = false

/-- A probe that has not completed can. -/
theorem Inv.will_complete (h : Inv n st) {id : Nat} (hc : st.checks[id]? = some c) (hrun : c.completed = false) :
    ∃ as st' c', (as = [.timeout id] ∨ as = [.probeExpire id, .timeout id]) ∧ Lts.run Monitor.step st as = some st' ∧
      st'.checks[id]? = some c' ∧ c'.completed = true := by
  obtain ⟨-, -, -, hwait | hexp⟩ := (h.checks c (List.mem_of_getElem? hc)).running hrun
  · have hstep : Monitor.step st (.probeExpire id) =
        some { st with checks := st.checks.set id { c with timeoutTimer := some .expired } } := by
      simp only [Monitor.step, hc, hwait]
    obtain ⟨st', hs, c', hc', hdone⟩ := (h.step (step_sound _ hstep)).timeout_completes
      (List.getElem?_set_self (List.getElem?_eq_some_iff.1 hc).1) hrun rfl
    refine ⟨_, st', c', .inr rfl, ?_, hc', hdone⟩
    rw [Lts.run_cons, hstep, Option.bind_some, Lts.run_cons, hs]
    rfl
  · obtain ⟨st', hs, c', hc', hdone⟩ := h.timeout_completes hc hrun hexp
    refine ⟨_, st', c', .inl rfl, ?_, hc', hdone⟩
    rw [Lts.run_cons, hs]
    rfl

theorem Reachable.monitored (h : Reachable pool metrics st) : Monitored st := by
  have hi := Reachable.inv h
  constructor
  · rw [hi.remaining]
    refine List.countP_congr (fun c hc => ?_)
    constructor
    · intro hrun
      have hrun' : c.completed = false := by simpa using hrun
      simp [hi.current c hc hrun', hrun']
    · intro hboth
      exact (Bool.and_eq_true_iff.1 hboth).2
  · exact hi.current
  · intro a st' hs hr
    obtain ⟨hnext, h0⟩ := hi.round_step (step_sound a hs) hr
    exact ⟨hnext, hi.all_completed h0⟩
  · intro round hr
    have hfilter := congrArg (List.map Prod.snd) (layout_filter (n := pool.size) hr)
    rw [← hi.places, List.filter_map, List.map_map, List.map_map] at hfilter
    rw [hi.size, ← List.map_id (List.range pool.size)]
    exact hfilter
  · exact fun c hc => (hi.index_lt hc).1
  · intro c hc
    cases hd : c.completed with
    | true =>
      obtain ⟨-, -, -, healthy, -, -, -, hrep, hcomp⟩ := (hi.checks c hc).done hd
      rw [hrep, hcomp]
      exact ⟨rfl, rfl⟩
    | false =>
      obtain ⟨hrep, hcomp, -⟩ := (hi.checks c hc).running hd
      rw [hrep, hcomp]
      exact ⟨rfl, rfl⟩
  · exact fun id c hc hrun => hi.will_complete hc hrun
  · exact fun c hc hd => (hi.checks c hc).reports_iff hd
  · intro h0 i c hc
    obtain ⟨hmem, hindex, hround⟩ := hi.latest_round hc
    rw [← hindex]
    exact hi.flags c hmem hround (hi.all_completed h0 c hmem)
  · exact fun hstop a st' hs => (step_sound a hs).stopped hstop
  · exact ⟨_, rfl, rfl, fun _ _ hrun => (run_stopped rfl hrun :)⟩
  · exact hi.threw

/-- Two backends; the first probe connects, the second times out.  Then `stop` comes after the timer of the next round
has expired: its handler runs without error, and starts no round. -/
theorem monitored_oneRound : ∃ st st₁ st₂,
    Reachable ⟨[⟨⟨"a".toList, 80⟩, true⟩, ⟨⟨"b".toList, 80⟩, true⟩], 0, by decide⟩ none st ∧
    st.rounds = 1 ∧ st.checksRemaining = 0 ∧ st.checks.map HealthCheck.reports = [[true], [false]] ∧
    st.pool.healthyAt 0 = true ∧ st.pool.healthyAt 1 = false ∧ st.stopped = false ∧ st.timer = [.expired] ∧
    step st .stop = some st₁ ∧ st₁.stopped = true ∧ Lts.run step st₁ [.timer 0] = some st₂ ∧
    st₂.checks.length = 2 ∧ Monitored st := by
  obtain ⟨st, hr, hf⟩ := Lts.exists_reach step (fun _ _ => true)
    (init ⟨[⟨⟨"a".toList, 80⟩, true⟩, ⟨⟨"b".toList, 80⟩, true⟩], 0, by decide⟩ none)
    [.start, .expire 0, .timer 0, .resolved 0 true, .resolved 1 true, .connected 0 true, .probeExpire 1, .timeout 1,
      .expire 0]
    (fun st => decide (st.rounds = 1 ∧ st.checksRemaining = 0 ∧
      st.checks.map HealthCheck.reports = [[true], [false]] ∧ st.pool.healthyAt 0 = true ∧ st.pool.healthyAt 1 = false ∧
      st.stopped = false ∧ st.timer = [.expired] ∧ st.checks.length = 2 ∧
      ((step st .stop).bind (fun st₁ => Lts.run step st₁ [.timer 0])).isSome = true))
    (by decide +kernel)
  obtain ⟨h1, h2, h3, h4, h5, h6, h7, h8, h9⟩ := of_decide_eq_true hf
  have hm : Monitored st := Reachable.monitored hr.any
  obtain ⟨st₁, hstop, hflag, hafter⟩ := hm.after_stop
  rw [hstop, Option.bind_some] at h9
  obtain ⟨st₂, hrun⟩ := Option.isSome_iff_exists.1 h9
  have hlen := (hafter _ st₂ hrun).2
  exact ⟨st, st₁, st₂, hr.any, h1, h2, h3, h4, h5, h6, h7, hstop, hflag, hrun, hlen.trans h8, hm⟩

end Monitor
end EventEdge
