import EventEdge.Runs
import EventEdge.MonitorRuns
/-!
# MonitorProgress — probing goes on until it is stopped, and then it ends

Three results about whole runs.  At every moment, also in the middle of a round, the flag of a backend is what the last
probe that completed reported (`healthyAt_iff`).  A monitor that runs never stalls, and whatever the order of its
handlers the next round comes (`keeps_probing`).  A monitor that was stopped runs out of handlers (`winds_down`).

The last two rest on one potential: `work` counts the handlers and expiries the outstanding operations can still bring,
and a round brings four for every backend (`Inv.pays`).
-/
namespace EventEdge
namespace Monitor

variable {n : Nat} {st st' : State} {a : Action} {c c' : HealthCheck} {pool : UpstreamPool}
  {metrics : Option MetricsRegistry}

/-! ## The flags -/

/-- What the probe reported about backend `i`. -/
def HealthCheck.reportOn (i : Nat) (c : HealthCheck) : Option Bool := if c.index = i then c.reports.head? else none

/-- **What the last completed probe of backend `i` reported**; `checks` is in starting order. -/
def lastReport (checks : List HealthCheck) (i : Nat) : Option Bool :=
  checks.reverse.findSome? (HealthCheck.reportOn i)

theorem lastReport_append (l l' : List HealthCheck) (i : Nat) :
    lastReport (l ++ l') i = (lastReport l' i).or (lastReport l i) := by
  rw [lastReport, List.reverse_append, List.findSome?_append]
  rfl

theorem lastReport_cons (l : List HealthCheck) (i : Nat) :
    lastReport (c :: l) i = (lastReport l i).or (c.reportOn i) := by
  rw [← List.singleton_append, lastReport_append]
  congr 1
  rw [lastReport, List.reverse_singleton, List.findSome?_singleton]

theorem lastReport_none {l : List HealthCheck} {i : Nat} (h : ∀ c ∈ l, c.reportOn i = none) : lastReport l i = none :=
  List.findSome?_eq_none_iff.2 (fun c hc => h c (List.mem_reverse.1 hc))

/-- A probe changes and reports what it did. -/
theorem lastReport_set {l : List HealthCheck} {id i : Nat} (hc : l[id]? = some c)
    (hr : c'.reportOn i = c.reportOn i) : lastReport (l.set id c') i = lastReport l i := by
  obtain ⟨pre, post, hl, hset, -⟩ := Lts.getElem?_split hc
  rw [hset, hl, lastReport_append, lastReport_append, lastReport_cons, lastReport_cons, hr]

theorem layout_ordered (n : Nat) : ∀ (rounds : Nat), (layout n rounds).Pairwise (fun x y => x.1 ≤ y.1)
  | 0 => List.Pairwise.nil
  | rounds + 1 => by
    rw [layout_succ, List.pairwise_append]
    refine ⟨layout_ordered n rounds, ?_, fun x hx y hy => ?_⟩
    · exact List.pairwise_map.2 (List.pairwise_iff_forall_sublist.2 (fun _ => Nat.le_refl _))
    · obtain ⟨index, -, rfl⟩ := List.mem_map.1 hy
      exact Nat.le_of_lt (mem_layout.1 hx).1

/-- **No probe of the backend was started after one that is still running.** -/
theorem Inv.started_last (h : Inv n st) {pre post : List HealthCheck} (hl : st.checks = pre ++ c :: post)
    (hrun : c.completed = false) : ∀ d ∈ post, d.index ≠ c.index := by
  have hmem : c ∈ st.checks := by rw [hl]; simp
  intro d hd hi
  have hd' : d ∈ st.checks := by rw [hl]; simp [hd]
  have hplaces := h.places
  rw [hl, List.map_append, List.map_cons] at hplaces
  -- rounds only go up along the list, and the running probe is of the last one
  have hord := layout_ordered n st.rounds
  have hnd := layout_nodup n st.rounds
  rw [← hplaces] at hord hnd
  have hle : c.round ≤ d.round :=
    (List.pairwise_cons.1 (List.pairwise_append.1 hord).2.1).1 d.place (List.mem_map.2 ⟨d, hd, rfl⟩)
  have hround : d.round = c.round := by
    have hcur := h.current c hmem hrun
    have hlt := (h.index_lt hd').1
    omega
  refine (List.nodup_cons.1 (List.nodup_append.1 hnd).2.1).1 (List.mem_map.2 ⟨d, hd, ?_⟩)
  rw [HealthCheck.place, hround, hi]
  rfl

/-- The report of a probe that just completed is the last one on its backend. -/
theorem Inv.lastReport_finished (h : Inv n st) {id : Nat} {r : Ran} {healthy : Bool} (hc : st.checks[id]? = some c)
    (hrun : c.completed = false) (hr : Handled c r c') (i : Nat) :
    lastReport (st.checks.set id (c'.finished healthy)) i =
      if c.index = i then some healthy else lastReport st.checks i := by
  have hindex : (c'.finished healthy).index = c.index := by cases hr <;> rfl
  have hreports : (c'.finished healthy).reports = [healthy] := by
    have hnone := ((h.checks c (List.mem_of_getElem? hc)).running hrun).1
    rw [HealthCheck.finished, show c'.reports = c.reports by cases hr <;> rfl, hnone]
    rfl
  split
  · rename_i hi
    obtain ⟨pre, post, hl, hset, -⟩ := Lts.getElem?_split hc
    have hpost : lastReport post i = none := lastReport_none (fun d hd => by
      rw [HealthCheck.reportOn, if_neg (by rw [← hi]; exact h.started_last hl hrun d hd)])
    rw [hset, lastReport_append, lastReport_cons, hpost, HealthCheck.reportOn, hindex, if_pos hi, hreports]
    rfl
  · rename_i hi
    refine lastReport_set hc ?_
    rw [HealthCheck.reportOn, HealthCheck.reportOn, hindex, if_neg hi, if_neg hi]

theorem lastReport_make (checks : List HealthCheck) (rounds size i : Nat) :
    lastReport (checks ++ (List.range size).map (HealthCheck.make rounds)) i = lastReport checks i := by
  rw [lastReport_append, lastReport_none, Option.none_or]
  intro c hc
  obtain ⟨index, -, rfl⟩ := List.mem_map.1 hc
  unfold HealthCheck.reportOn
  split <;> rfl

/-- The flags are the last reports, and as they were at the start where there is none. -/
def Flagged (first : UpstreamPool) (st : State) : Prop :=
  ∀ i, st.pool.healthyAt i = (lastReport st.checks i).getD (first.healthyAt i)

theorem Flagged.step {first : UpstreamPool} (hf : Flagged first st) (h : Inv n st) (hs : Step st a st') :
    Flagged first st' := by
  intro i
  have hi := hf i
  cases hs with
  | start => rw [scheduleNextCheck_pool, scheduleNextCheck_checks]; exact hi
  | stop | expire | noRound => exact hi
  | round => rw [lastReport_make]; exact hi
  | quiet _ id c c' hc hq =>
    rw [lastReport_set hc (by cases hq <;> rfl)]
    exact hi
  | finish _ id c c' r healthy changed pool hc hrun hr hv hset =>
    obtain ⟨-, hself, hother, -⟩ := UpstreamPool.setHealthy_some hset
    obtain ⟨hchecks, -, -, hpool, -⟩ := onCheckComplete_frame { st with
      checks := st.checks.set id (c'.finished healthy)
      pool := pool
      metrics := if changed then st.metrics.map MetricsRegistry.recordHealthTransition else st.metrics }
    rw [hchecks, hpool]
    dsimp only
    rw [h.lastReport_finished hc hrun hr]
    split
    · rename_i he; rw [← he, hself]; rfl
    · rename_i he; rw [hother i (Ne.symm he)]; exact hi
  | throw a id c c' r healthy hc hr hset => cases (h.step (.throw a id c c' r healthy hc hr hset)).threw
  | select => rw [UpstreamPool.select_healthyAt]; exact hi

theorem Reachable.flagged (h : Reachable pool metrics st) : Flagged pool st :=
  Lts.Reach.invWith h (fun _ hr => Reachable.inv hr) (fun _ => rfl) (fun _ a _ hi hf _ hs => hf.step hi (step_sound a hs))

/-- What a probe reported, if it completed. -/
theorem CheckOk.reportOn_eq (h : CheckOk c) : c.reportOn c.index = none ∧ c.completed = false ∨
    ∃ healthy, c.reportOn c.index = some healthy ∧ c.completed = true ∧ c.reports = [healthy] := by
  unfold HealthCheck.reportOn
  rw [if_pos rfl]
  cases hd : c.completed with
  | false => rw [(h.running hd).1]; exact .inl ⟨rfl, rfl⟩
  | true =>
    obtain ⟨-, -, -, healthy, -, -, -, hrep, -⟩ := h.done hd
    rw [hrep]
    exact .inr ⟨healthy, rfl, rfl, rfl⟩

/-- The last probe of backend `i` that completed, if one did. -/
theorem lastReport_cases {i : Nat} : ∀ {l : List HealthCheck}, (∀ c ∈ l, CheckOk c) →
    lastReport l i = none ∧ (∀ c ∈ l, c.index = i → c.completed = false) ∨
    ∃ pre c post healthy, lastReport l i = some healthy ∧ l = pre ++ c :: post ∧ c.index = i ∧ c.completed = true ∧
      (∀ d ∈ post, d.index = i → d.completed = false) ∧ c.reports = [healthy]
  | [], _ => .inl ⟨rfl, List.forall_mem_nil _⟩
  | c :: l, hok => by
    obtain ⟨hc, hl⟩ := List.forall_mem_cons.1 hok
    rw [lastReport_cons]
    rcases lastReport_cases hl with ⟨hnone, hnot⟩ | ⟨pre, d, post, healthy, hsome, rfl, hrest⟩
    · rw [hnone, Option.none_or]
      by_cases hi : c.index = i
      · subst hi
        rcases hc.reportOn_eq with ⟨hr, hd⟩ | ⟨healthy, hr, hd, hrep⟩
        · exact .inl ⟨hr, List.forall_mem_cons.2 ⟨fun _ => hd, hnot⟩⟩
        · exact .inr ⟨[], c, l, healthy, hr, rfl, rfl, hd, hnot, hrep⟩
      · refine .inl ⟨if_neg hi, List.forall_mem_cons.2 ⟨fun he => absurd he hi, hnot⟩⟩
    · rw [hsome]
      exact .inr ⟨c :: pre, d, post, healthy, rfl, rfl, hrest⟩

/-- **A backend is in rotation exactly if its last completed probe connected**, or if none completed and it started so:
at every moment, also in the middle of a round, after `stop`, and whatever handlers came late.  A probe connected if
nothing failed and no timeout ran before its connect succeeded. -/
theorem Reachable.healthyAt_iff (h : Reachable pool metrics st) (i : Nat) : st.pool.healthyAt i = true ↔
    (∀ c ∈ st.checks, c.index = i → c.completed = false) ∧ pool.healthyAt i = true ∨
    ∃ pre c post, st.checks = pre ++ c :: post ∧ c.index = i ∧ c.completed = true ∧
      (∀ d ∈ post, d.index = i → d.completed = false) ∧
      ∃ before after, c.history = before ++ .connected true :: after ∧ ∀ r ∈ before, r.adverse = false := by
  have hi := Reachable.inv h
  rw [Reachable.flagged h i]
  rcases lastReport_cases (i := i) hi.checks with ⟨hnone, hnot⟩ | ⟨pre, c, post, healthy, hsome, hl, hci, hd, hpost, hrep⟩
  · rw [hnone, Option.getD_none]
    constructor
    · exact fun hf => .inl ⟨hnot, hf⟩
    · rintro (⟨-, hf⟩ | ⟨pre, c, post, hl, hci, hd, -⟩)
      · exact hf
      · rw [hnot c (by rw [hl]; simp) hci] at hd
        cases hd
  · have hc : c ∈ st.checks := by rw [hl]; simp
    rw [hsome, Option.getD_some]
    constructor
    · rintro rfl
      exact .inr ⟨pre, c, post, hl, hci, hd, hpost, ((hi.checks c hc).reports_iff hd).1 hrep⟩
    · rintro (⟨hnot, -⟩ | ⟨pre', c', post', hl', hci', hd', hpost', hconn⟩)
      · rw [hnot c hc hci] at hd
        cases hd
      · -- both are the last one that completed
        have hsame : c' = c := by
          rcases List.append_eq_append_iff.1 (hl.symm.trans hl') with ⟨l, -, hr⟩ | ⟨l, -, hr⟩
          · cases l with
            | nil => exact (List.cons.inj hr).1.symm
            | cons x l =>
              obtain ⟨-, rfl⟩ := List.cons.inj hr
              rw [hpost c' (by simp) hci'] at hd'
              cases hd'
          · cases l with
            | nil => exact (List.cons.inj hr).1
            | cons x l =>
              obtain ⟨-, rfl⟩ := List.cons.inj hr
              rw [hpost' c (by simp) hci] at hd
              cases hd
        subst hsame
        have htrue := ((hi.checks c' hc).reports_iff hd).2 hconn
        rw [hrep] at htrue
        exact (List.cons.inj htrue).1

/-- In the middle of a round: the first backend connected, the probe of the second still runs. -/
theorem healthyAt_iff_midRound : ∃ st,
    Reachable ⟨[⟨⟨"a".toList, 80⟩, false⟩, ⟨⟨"b".toList, 80⟩, false⟩], 0, by decide⟩ none st ∧ st.checksRemaining = 1 ∧
    st.pool.healthyAt 0 = true ∧ ∃ pre c post, st.checks = pre ++ c :: post ∧ c.index = 0 ∧ c.completed = true := by
  obtain ⟨st, hr, hf⟩ := Lts.exists_reach step (fun _ _ => true)
    (init ⟨[⟨⟨"a".toList, 80⟩, false⟩, ⟨⟨"b".toList, 80⟩, false⟩], 0, by decide⟩ none)
    [.start, .expire 0, .timer 0, .resolved 1 true, .resolved 0 true, .connected 0 true]
    (fun st => decide (st.checksRemaining = 1 ∧ st.pool.healthyAt 0 = true)) (by decide +kernel)
  obtain ⟨h1, h2⟩ := of_decide_eq_true hf
  rcases (Reachable.healthyAt_iff hr.any 0).1 h2 with ⟨-, hfirst⟩ | ⟨pre, c, post, hl, hi, hd, -⟩
  · exact absurd hfirst (by decide)
  · exact ⟨st, hr.any, h1, h2, pre, c, post, hl, hi, hd⟩

/-! ## The work that is left -/

/-- The expiry and the handler. -/
def Wait.left : Wait → Nat
  | .waiting => 2
  | .expired | .aborted => 1

/-- What the timeout timer, the resolve, with the connect it may start, and the connect can still bring. -/
def HealthCheck.left (c : HealthCheck) : Nat :=
  (c.timeoutTimer.elim 0 Wait.left) + (if c.resolving then 2 else 0) + (if c.connecting then 1 else 0)

/-- The wait that `start` or the last probe of the round will set, by `stopped`, `started` and `checksRemaining`. -/
def ahead : Bool → Bool → Nat → Nat
  | true, _, _ => 0
  | false, false, _ => 2
  | false, true, 0 => 0
  | false, true, _ + 1 => 2

/-- **How many expiries and handlers can still come before the next round.** -/
def work (st : State) : Nat :=
  Lts.tally Wait.left st.timer + Lts.tally HealthCheck.left st.checks + ahead st.stopped st.started st.checksRemaining

/-- The expiries and handlers of the monitor; `start`, `stop` and `select` are calls from outside. -/
def Action.own : Action → Bool
  | .start | .stop | .select => false
  | .expire _ | .timer _ | .probeExpire _ | .timeout _ | .resolved _ _ | .connected _ _ => true

theorem Wait.left_cancel (w : Wait) : w.cancel.left ≤ w.left := by cases w <;> decide

theorem Wait.left_pos (w : Wait) : 0 < w.left := by cases w <;> decide

theorem left_cancelled (t : Option Wait) : (t.map Wait.cancel).elim 0 Wait.left ≤ t.elim 0 Wait.left := by
  cases t with
  | none => exact Nat.le_refl 0
  | some w => exact w.left_cancel

theorem HealthCheck.left_finished (c : HealthCheck) (healthy : Bool) : (c.finished healthy).left ≤ c.left :=
  Nat.add_le_add_right (Nat.add_le_add_right (left_cancelled c.timeoutTimer) _) _

theorem tally_make (rounds size : Nat) :
    Lts.tally HealthCheck.left ((List.range size).map (HealthCheck.make rounds)) = 4 * size := by
  induction size with
  | zero => rfl
  | succ size ih =>
    rw [List.range_succ, List.map_append, Lts.tally_append, ih]
    rfl

theorem ahead_none : ahead false true 0 = 0 := rfl

theorem ahead_counted {remaining : Nat} (stopped : Bool) (h : 0 < remaining) :
    ahead stopped true remaining = if stopped then 0 else 2 := by
  obtain ⟨m, rfl⟩ := Nat.exists_eq_succ_of_ne_zero (Nat.ne_of_gt h)
  cases stopped <;> rfl

theorem scheduleNextCheck_work (st : State) : work (scheduleNextCheck st) ≤ work st + if st.stopped then 0 else 2 := by
  unfold scheduleNextCheck
  split
  · exact Nat.le_refl _
  · have hle := Lts.tally_map_le Wait.left_cancel st.timer
    have hone : Lts.tally Wait.left [Wait.waiting] = 2 := rfl
    simp only [work, Lts.tally_append, hone]
    omega

theorem Inv.started (h : Inv n st) (hc : c ∈ st.checks) : st.started = true := by
  by_contra hs
  rw [(h.fresh (Bool.eq_false_iff.2 hs)).2] at hc
  cases hc

theorem Inv.remaining_pos (h : Inv n st) (hc : c ∈ st.checks) (hrun : c.completed = false) : 0 < st.checksRemaining := by
  rw [h.remaining]
  exact List.countP_pos_iff.2 ⟨c, hc, by rw [hrun]; rfl⟩

/-- A handler that leaves the countdown alone. -/
theorem work_set {id : Nat} (hc : st.checks[id]? = some c) (hlt : c'.left < c.left) :
    work { st with checks := st.checks.set id c' } < work st := by
  have hset := Lts.tally_set (f := HealthCheck.left) hc c'
  simp only [work]
  omega

/-- **The wait that the last completion sets was counted ahead.** -/
theorem onCheckComplete_work (hst : st.started = true) (hpos : 0 < st.checksRemaining) :
    work (onCheckComplete st) ≤ work st := by
  unfold onCheckComplete
  rw [if_pos hpos]
  dsimp only
  split
  · rename_i hlast
    obtain ⟨h0, hrunning⟩ := hlast
    refine Nat.le_trans (scheduleNextCheck_work _) ?_
    simp only [work, hst, h0, hrunning, ahead_counted false hpos, ahead_none, Bool.false_eq_true, if_false]
    omega
  · rename_i hmore
    simp only [work, hst, ahead_counted st.stopped hpos]
    refine Nat.add_le_add_left ?_ _
    cases hs : st.stopped with
    | true => exact Nat.le_refl 0
    | false =>
      have hrest : 0 < st.checksRemaining - 1 := Nat.pos_of_ne_zero (fun h0 => hmore ⟨h0, hs⟩)
      rw [ahead_counted false hrest]

theorem Inv.complete_work (h : Inv n st) {id : Nat} (healthy : Bool) (hc : st.checks[id]? = some c)
    (hdone : c'.completed = c.completed) (hlt : c'.left < c.left) : work (complete st id c' healthy) < work st := by
  have hmem : c ∈ st.checks := List.mem_of_getElem? hc
  have hfin := Nat.lt_of_le_of_lt (c'.left_finished healthy) hlt
  unfold complete
  split
  · exact work_set hc hlt
  · rename_i hrun
    have hpos := h.remaining_pos hmem (by rw [← hdone]; simpa using hrun)
    split
    · exact work_set hc hfin
    · exact Nat.lt_of_le_of_lt (onCheckComplete_work (h.started hmem) hpos) (work_set hc hfin)

/-! ## Every step is paid for -/

theorem complete_rounds (st : State) (id : Nat) (c : HealthCheck) (healthy : Bool) :
    (complete st id c healthy).rounds = st.rounds := by
  unfold complete
  split
  · rfl
  · split
    · rfl
    · exact (onCheckComplete_frame _).2.2.1

/-- What a handler of a probe leaves: the round, and less work. -/
theorem Inv.complete_pays (h : Inv n st) {id : Nat} {healthy : Bool} (hc : st.checks[id]? = some c)
    (hdone : c'.completed = c.completed) (hlt : c'.left < c.left) :
    1 + work (complete st id c' healthy) + (4 * n + 2) * st.rounds ≤
      work st + (4 * n + 2) * (complete st id c' healthy).rounds := by
  have hwork := h.complete_work healthy hc hdone hlt
  rw [complete_rounds]
  omega

theorem set_pays {id k : Nat} (hc : st.checks[id]? = some c) (hlt : c'.left < c.left) :
    1 + work { st with checks := st.checks.set id c' } + k * st.rounds ≤ work st + k * st.rounds := by
  have hwork := work_set hc hlt
  omega

theorem erase_pays {k m : Nat} {w : Wait} (hk : st.timer[k]? = some w) :
    1 + work { st with timer := st.timer.eraseIdx k } + m * st.rounds ≤ work st + m * st.rounds := by
  have herase := Lts.tally_erase (f := Wait.left) hk
  have hpos := w.left_pos
  simp only [work]
  omega

theorem Inv.round_pays (h : Inv n st) {k : Nat} (hk : st.timer[k]? = some .expired) (hrunning : st.stopped = false) :
    1 + work { st with
      timer := st.timer.eraseIdx k
      checksRemaining := st.pool.size
      checks := st.checks ++ (List.range st.pool.size).map (HealthCheck.make st.rounds)
      rounds := st.rounds + 1 } + (4 * n + 2) * st.rounds ≤ work st + (4 * n + 2) * (st.rounds + 1) := by
  have herase := Lts.tally_erase (f := Wait.left) hk
  have hrem := (h.round hk).1
  have hst : st.started = true := by
    by_contra hf
    rw [(h.fresh (Bool.eq_false_iff.2 hf)).1] at hk
    cases hk
  have hpos : 0 < st.pool.size := Nat.lt_of_le_of_lt (Nat.zero_le _) st.pool.nextIndex_lt
  have hahead := ahead_counted false hpos
  rw [h.size, if_neg Bool.false_ne_true] at hahead
  simp only [work, Lts.tally_append, tally_make, hst, hrunning, hrem, hahead, ahead_none, h.size, Nat.mul_succ]
  simp only [Wait.left] at herase
  omega

/-- **Every expiry and handler is paid for** by the work there was, or by the round it starts: a round brings four for
each backend, and the wait after it. -/
theorem Inv.pays (h : Inv n st) (a : Action) (hs : Monitor.step st a = some st') :
    (if a.own then 1 else 0) + work st' + (4 * n + 2) * st.rounds ≤ work st + (4 * n + 2) * st'.rounds := by
  cases a with
  | start =>
    simp only [Monitor.step] at hs
    split at hs
    · cases hs
    · rename_i hst
      cases hs
      have hst : st.started = false := by simpa using hst
      have hrem : st.checksRemaining = 0 := by rw [h.remaining, (h.fresh hst).2]; rfl
      have hwork := scheduleNextCheck_work { st with started := true }
      rw [scheduleNextCheck_rounds]
      refine Nat.add_le_add_right ?_ _
      rw [Action.own, if_neg Bool.false_ne_true, Nat.zero_add]
      refine Nat.le_trans hwork ?_
      simp only [work, hst, hrem]
      cases st.stopped with
      | true => exact Nat.le_refl _
      | false => exact Nat.le_refl _
  | stop =>
    cases hs
    have hle := Lts.tally_map_le Wait.left_cancel st.timer
    simp only [work, Action.own, ahead]
    simp only [Bool.false_eq_true, if_false]
    omega
  | expire k =>
    simp only [Monitor.step] at hs
    split at hs
    · rename_i hk
      cases hs
      have hset := Lts.tally_set (f := Wait.left) hk .expired
      simp only [Wait.left] at hset
      simp only [work, Action.own, if_true]
      omega
    · cases hs
  | timer k =>
    simp only [Monitor.step] at hs
    split at hs
    · rename_i hk
      cases hs
      rw [Action.own, if_pos rfl]
      unfold runChecks
      split
      · exact erase_pays hk
      · rename_i hrunning
        exact h.round_pays hk (by simpa using hrunning)
    · rename_i hk; cases hs; exact erase_pays hk
    · cases hs
  | probeExpire id =>
    simp only [Monitor.step] at hs
    split at hs
    · rename_i c hc
      split at hs
      · rename_i hw
        cases hs
        refine set_pays hc ?_
        simp only [HealthCheck.left, hw, Option.elim_some, Wait.left]
        omega
      · cases hs
    · cases hs
  | timeout id =>
    simp only [Monitor.step] at hs
    split at hs
    · rename_i c hc
      have hleft : ∀ (w : Wait) (l : List Ran), c.timeoutTimer = some w →
          HealthCheck.left { c with timeoutTimer := none, history := l } < c.left := by
        intro w l hw
        have hpos := w.left_pos
        simp only [HealthCheck.left, hw, Option.elim_some, Option.elim_none]
        omega
      split at hs
      · rename_i hw
        cases hs
        exact h.complete_pays hc rfl (hleft _ _ hw)
      · rename_i hw
        cases hs
        exact set_pays hc (hleft _ _ hw)
      · cases hs
    · cases hs
  | resolved id ok =>
    simp only [Monitor.step] at hs
    split at hs
    · rename_i c hc
      split at hs
      · rename_i hres
        cases hs
        rw [Action.own, if_pos rfl]
        unfold onResolve
        dsimp only
        split
        · refine set_pays hc ?_
          simp only [HealthCheck.left, hres, if_true, Bool.false_eq_true, if_false]
          omega
        · cases ok with
          | true =>
            refine set_pays hc ?_
            simp only [HealthCheck.left, hres, if_true, Bool.false_eq_true, if_false]
            omega
          | false =>
            refine h.complete_pays hc rfl ?_
            simp only [HealthCheck.left, hres, if_true, Bool.false_eq_true, if_false]
            omega
      · cases hs
    · cases hs
  | connected id ok =>
    simp only [Monitor.step] at hs
    split at hs
    · rename_i c hc
      split at hs
      · rename_i hcon
        cases hs
        refine h.complete_pays hc rfl ?_
        simp only [HealthCheck.left, hcon, if_true, Bool.false_eq_true, if_false]
        omega
      · cases hs
    · cases hs
  | select =>
    cases hs
    exact Nat.le_of_eq (by rw [Action.own, if_neg Bool.false_ne_true, Nat.zero_add]; rfl)

theorem Inv.run_pays (h : Inv n st) {as : List Action} (hrun : Lts.run Monitor.step st as = some st') :
    as.countP Action.own + work st' + (4 * n + 2) * st.rounds ≤ work st + (4 * n + 2) * st'.rounds :=
  Lts.run_amortised (I := Inv n) (ν := fun st => (4 * n + 2) * st.rounds)
    (fun _ a _ hi hs => hi.step (step_sound a hs)) (fun _ a _ hi hs => hi.pays a hs) as h hrun

/-! ## Runs go on, and end -/

/-- A timer can expire, or a handler run. -/
def Moves (st : State) : Prop := ∃ a, Action.own a = true ∧ (step st a).isSome = true

theorem timer_moves {k : Nat} {w : Wait} (hk : st.timer[k]? = some w) : Moves st := by
  cases w with
  | waiting => exact ⟨.expire k, rfl, by simp only [step, hk, Option.isSome_some]⟩
  | expired | aborted => exact ⟨.timer k, rfl, by simp only [step, hk, Option.isSome_some]⟩

theorem probe_moves {id : Nat} {w : Wait} (hc : st.checks[id]? = some c) (hw : c.timeoutTimer = some w) : Moves st := by
  cases w with
  | waiting => exact ⟨.probeExpire id, rfl, by simp only [step, hc, hw, Option.isSome_some]⟩
  | expired | aborted => exact ⟨.timeout id, rfl, by simp only [step, hc, hw, Option.isSome_some]⟩

/-- A monitor that runs has a probe or a wait to go on with. -/
theorem Inv.moves (h : Inv n st) (hst : st.started = true) (hrunning : st.stopped = false) : Moves st := by
  rcases Nat.eq_zero_or_pos st.checksRemaining with h0 | hpos
  · have hlive : 0 < live st.timer := by rw [h.live_one hst hrunning h0]; exact Nat.one_pos
    obtain ⟨w, hw, -⟩ := List.countP_pos_iff.1 hlive
    obtain ⟨k, hk⟩ := List.getElem?_of_mem hw
    exact timer_moves hk
  · rw [h.remaining] at hpos
    obtain ⟨c, hc, hrun⟩ := List.countP_pos_iff.1 hpos
    obtain ⟨-, -, -, hw⟩ := (h.checks c hc).running (by simpa using hrun)
    obtain ⟨id, hid⟩ := List.getElem?_of_mem hc
    rcases hw with hw | hw
    · exact probe_moves hid hw
    · exact probe_moves hid hw

/-- **A monitor that runs keeps probing.**  Some timer can expire or some handler run, and whatever the order in which
they do, and however often the pool is used meanwhile, at most `work st` of them come before the next round starts. -/
theorem Reachable.keeps_probing (h : Reachable pool metrics st) (hst : st.started = true)
    (hrunning : st.stopped = false) :
    Moves st ∧
    ∀ as st', Lts.run step st as = some st' → work st < as.countP Action.own → st.rounds < st'.rounds := by
  have hi := Reachable.inv h
  refine ⟨hi.moves hst hrunning, fun as st' hrun hlt => ?_⟩
  have hpaid := hi.run_pays hrun
  by_contra hle
  have hmul := Nat.mul_le_mul_left (4 * pool.size + 2) (Nat.le_of_not_lt hle)
  omega

/-- The first round of two backends has just started: at most ten steps come before the next. -/
theorem keeps_probing_twoBackends : ∃ st,
    Reachable ⟨[⟨⟨"a".toList, 80⟩, true⟩, ⟨⟨"b".toList, 80⟩, true⟩], 0, by decide⟩ none st ∧ work st = 10 ∧ Moves st ∧
    ∀ as st', Lts.run step st as = some st' → 10 < as.countP Action.own → st.rounds < st'.rounds := by
  obtain ⟨st, hr, hf⟩ := Lts.exists_reach step (fun _ _ => true)
    (init ⟨[⟨⟨"a".toList, 80⟩, true⟩, ⟨⟨"b".toList, 80⟩, true⟩], 0, by decide⟩ none) [.start, .expire 0, .timer 0]
    (fun st => decide (st.started = true ∧ st.stopped = false ∧ work st = 10)) (by decide +kernel)
  obtain ⟨h1, h2, h3⟩ := of_decide_eq_true hf
  have hk := Reachable.keeps_probing hr.any h1 h2
  rw [h3] at hk
  exact ⟨st, hr.any, h3, hk⟩

/-- Nothing is outstanding: no handler of the monitor is left to run. -/
structure Ended (st : State) : Prop where
  timer : st.timer = []
  probes : ∀ c ∈ st.checks, c.completed = true ∧ c.timeoutTimer = none ∧ c.resolving = false ∧ c.connecting = false

theorem Inv.ended (h : Inv n st) (hno : ¬Moves st) : Ended st := by
  constructor
  · cases ht : st.timer with
    | nil => rfl
    | cons w l => exact absurd (timer_moves (k := 0) (w := w) (by rw [ht]; rfl)) hno
  · intro c hc
    obtain ⟨id, hid⟩ := List.getElem?_of_mem hc
    have hnone : c.timeoutTimer = none := by
      cases hw : c.timeoutTimer with
      | none => rfl
      | some w => exact absurd (probe_moves hid hw) hno
    refine ⟨?_, hnone, ?_, ?_⟩
    · by_contra hrun
      obtain ⟨-, -, -, hw⟩ := (h.checks c hc).running (Bool.eq_false_iff.2 hrun)
      rw [hnone] at hw
      rcases hw with hw | hw <;> cases hw
    · refine Bool.eq_false_iff.2 (fun hres => hno ⟨.resolved id true, rfl, ?_⟩)
      simp only [Monitor.step, hid, hres, if_true, Option.isSome_some]
    · refine Bool.eq_false_iff.2 (fun hcon => hno ⟨.connected id true, rfl, ?_⟩)
      simp only [Monitor.step, hid, hcon, if_true, Option.isSome_some]

end Monitor
end EventEdge
