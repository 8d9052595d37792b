import EventEdge.MonitorProgress
/-!
# MonitorClock — how old the evidence is on which a backend is used

The monitor against a clock, in milliseconds.  Underneath it is the monitor as it is; beside it stand the expiry of
every wait on `timer_` and the time every round started, so that a timer expires only when its time has come.  What is
assumed of the machine is one number: a wait that is due has its handler run at most `slack` late (`prompt`).

Then rounds start at least an interval apart and at most an interval, a timeout and twice the slack (`Paced`), and the
flag of a backend is never older than that and another timeout and slack (`evidence_fresh`).
-/
namespace EventEdge
namespace Monitor

structure HealthCheckOptions where
  interval : Nat := 2000
  timeout : Nat := 1000

/-- The monitor at a time.  `waits` are the waits on `timer_`, each with its expiry, `starts` the times the rounds
started, oldest first.  Ghost: `startedAt`. -/
structure Clocked where
  st : State
  now : Nat
  waits : List (Wait × Nat)
  starts : List Nat
  startedAt : Nat

def Clocked.init (pool : UpstreamPool) (metrics : Option MetricsRegistry) (now : Nat) : Clocked :=
  ⟨Monitor.init pool metrics, now, [], [], now⟩

inductive ClockAction where
  | tick (now : Nat)
  | run (a : Action)

def cancelWait (w : Wait × Nat) : Wait × Nat := (w.1.cancel, w.2)

variable (options : HealthCheckOptions)

/-- The timeout timer of a probe expires a timeout after its round started. -/
def Clocked.due (t : Clocked) (c : HealthCheck) : Option Nat := (t.starts[c.round]?).map (· + options.timeout)

/-- A timer does not expire early. -/
def Clocked.ready (t : Clocked) : Action → Bool
  | .expire k => (t.waits[k]?).any (fun w => decide (w.2 ≤ t.now))
  | .probeExpire id => (t.st.checks[id]?).any (fun c => (t.due options c).any (fun d => decide (d ≤ t.now)))
  | _ => true

/-- The waits after a handler: one more if it called `schedule_next_check`, which cancels the others. -/
def Clocked.scheduled (t : Clocked) (delay : Nat) (st' : State) : List (Wait × Nat) :=
  if st'.timer.length = t.st.timer.length then t.waits else t.waits.map cancelWait ++ [(.waiting, t.now + delay)]

def Clocked.after (t : Clocked) (a : Action) (st' : State) : Clocked :=
  { st := st'
    now := t.now
    waits := match a with
      | .start => t.scheduled 0 st'
      | .stop => t.waits.map cancelWait
      | .expire k => t.waits.modify k (fun w => (.expired, w.2))
      | .timer k => t.waits.eraseIdx k
      | .timeout _ | .resolved _ _ | .connected _ _ => t.scheduled options.interval st'
      | .probeExpire _ | .select => t.waits
    starts := if st'.rounds = t.st.rounds then t.starts else t.starts ++ [t.now]
    startedAt := if a = .start then t.now else t.startedAt }

/-- **One step of the monitor and its clock.** -/
def clockStep (t : Clocked) : ClockAction → Option Clocked
  | .tick now => if t.now ≤ now then some { t with now } else none
  | .run a => if t.ready options a then (step t.st a).map (t.after options a) else none

variable (slack : Nat)

/-- **What is assumed of the machine**: time does not pass a wait that is due, nor the timeout of a probe that has not
completed, by more than the slack before the handler has run. -/
def prompt (t : Clocked) : ClockAction → Bool
  | .tick now => t.waits.all (fun w => decide (w.1 = .aborted ∨ now ≤ w.2 + slack)) &&
    t.st.checks.all (fun c => c.completed || (t.due options c).all (fun d => decide (now ≤ d + slack)))
  | .run _ => true

/-- A state of some run on such a machine. -/
def Prompt (pool : UpstreamPool) (metrics : Option MetricsRegistry) (now : Nat) (t : Clocked) : Prop :=
  Lts.Reach (clockStep options) (fun t a => prompt options slack t a = true) (Clocked.init pool metrics now) t

variable {options slack} {t t' : Clocked} {n : Nat} {pool : UpstreamPool} {metrics : Option MetricsRegistry}

/-- **The clock only leaves steps out**: the monitor underneath is a monitor. -/
theorem clock_reachable {t₀ : Nat} (h : Lts.Reach (clockStep options) Lts.anyStep (Clocked.init pool metrics t₀) t) :
    Reachable pool metrics t.st := by
  refine Lts.Reach.inv (I := fun t : Clocked => Reachable pool metrics t.st) h (Lts.Reach.refl _) ?_
  rintro t a t' hr - hs
  cases a with
  | tick now =>
    simp only [clockStep] at hs
    split at hs
    · cases hs; exact hr
    · cases hs
  | run a =>
    simp only [clockStep] at hs
    split at hs
    · obtain ⟨st', hst, rfl⟩ := Option.map_eq_some_iff.1 hs
      exact Lts.Reach.tail hr (a := a) trivial hst
    · cases hs

/-! ## The pace of the rounds -/

/-- A live wait: when it is due, and that its handler is not overdue. -/
structure OnTime (options : HealthCheckOptions) (slack : Nat) (t : Clocked) (w : Wait × Nat) : Prop where
  late : t.now ≤ w.2 + slack
  early : w.1 = .expired → w.2 ≤ t.now
  first : t.st.rounds = 0 → w.2 = t.startedAt
  next : ∀ s, t.starts.getLast? = some s →
    s + options.interval ≤ w.2 ∧ w.2 ≤ s + options.timeout + slack + options.interval

/-- When the rounds start, and until when the wait for the next may last. -/
structure Paced (options : HealthCheckOptions) (slack : Nat) (t : Clocked) : Prop where
  waits : t.waits.map Prod.fst = t.st.timer
  rounds : t.starts.length = t.st.rounds
  past : ∀ s ∈ t.starts, s ≤ t.now
  first : ∀ s, t.starts[0]? = some s → t.startedAt ≤ s ∧ s ≤ t.startedAt + slack
  spaced : ∀ r a b, t.starts[r]? = some a → t.starts[r + 1]? = some b →
    a + options.interval ≤ b ∧ b ≤ a + options.timeout + options.interval + 2 * slack
  running : 0 < t.st.checksRemaining → ∀ s, t.starts.getLast? = some s → t.now ≤ s + options.timeout + slack
  pending : ∀ w ∈ t.waits, w.1 ≠ .aborted → OnTime options slack t w

theorem paced_init (pool : UpstreamPool) (metrics : Option MetricsRegistry) (now : Nat) :
    Paced options slack (Clocked.init pool metrics now) where
  waits := rfl
  rounds := rfl
  past := fun _ h => by cases h
  first := fun _ h => by cases h
  spaced := fun _ _ _ h => by cases h
  running := fun h => by cases h
  pending := fun _ h => by cases h

/-- No wait was added: the live ones are as they were, or expired meanwhile. -/
theorem Paced.keep (h : Paced options slack t) {st' : State} {waits : List (Wait × Nat)}
    (hwaits : waits.map Prod.fst = st'.timer) (hrounds : st'.rounds = t.st.rounds)
    (hrem : 0 < st'.checksRemaining → 0 < t.st.checksRemaining)
    (hsub : ∀ w ∈ waits, w.1 ≠ .aborted → ∃ v ∈ t.waits, v.1 ≠ .aborted ∧ v.2 = w.2 ∧ (w.1 = .expired → w.2 ≤ t.now)) :
    Paced options slack { t with st := st', waits } := by
  refine ⟨hwaits, h.rounds.trans hrounds.symm, h.past, h.first, h.spaced, fun hpos => h.running (hrem hpos),
    fun w hw hl => ?_⟩
  obtain ⟨v, hv, hvl, he, hearly⟩ := hsub w hw hl
  have hon := h.pending v hv hvl
  exact ⟨he ▸ hon.late, hearly, fun h0 => he ▸ hon.first (hrounds.symm.trans h0), fun s hs => he ▸ hon.next s hs⟩

/-- Only the probes changed. -/
theorem Paced.frame (h : Paced options slack t) {st' : State} (htimer : st'.timer = t.st.timer)
    (hrounds : st'.rounds = t.st.rounds) (hrem : 0 < st'.checksRemaining → 0 < t.st.checksRemaining) :
    Paced options slack { t with st := st' } :=
  h.keep (h.waits.trans htimer.symm) hrounds hrem (fun w hw hl => ⟨w, hw, hl, rfl, (h.pending w hw hl).early⟩)

theorem Paced.tick (h : Paced options slack t) (hi : Inv n t.st) {now : Nat} (hle : t.now ≤ now)
    (hp : prompt options slack t (.tick now) = true) : Paced options slack { t with now } := by
  obtain ⟨hwaits, hprobes⟩ := Bool.and_eq_true_iff.1 hp
  refine ⟨h.waits, h.rounds, fun s hs => Nat.le_trans (h.past s hs) hle, h.first, h.spaced, fun hpos s hs => ?_,
    fun w hw hl => ?_⟩
  · -- a probe that has not completed is of the last round
    rw [hi.remaining] at hpos
    obtain ⟨c, hc, hrun⟩ := List.countP_pos_iff.1 hpos
    have hrun : c.completed = false := by simpa using hrun
    have hdue : t.due options c = some (s + options.timeout) := by
      have hround := hi.current c hc hrun
      have hat : t.starts[c.round]? = some s := by
        rw [List.getLast?_eq_getElem?, h.rounds, ← hround, Nat.add_sub_cancel] at hs
        exact hs
      rw [Clocked.due, hat]
      rfl
    have hall := List.all_eq_true.1 hprobes c hc
    rw [hrun, hdue, Bool.false_or] at hall
    exact of_decide_eq_true hall
  · have hall := of_decide_eq_true (List.all_eq_true.1 hwaits w hw)
    have hon := h.pending w hw hl
    exact ⟨hall.resolve_left hl, fun he => Nat.le_trans (hon.early he) hle, hon.first, hon.next⟩

/-- No wait is live while probes run. -/
theorem Paced.none_live (h : Paced options slack t) (hlive : live t.st.timer = 0) : ∀ w ∈ t.waits, w.1 = .aborted := by
  intro w hw
  rw [← h.waits] at hlive
  have := List.countP_eq_zero.1 hlive w.1 (List.mem_map.2 ⟨w, hw, rfl⟩)
  simpa using this

/-- A handler that called `schedule_next_check`: the new wait alone is live. -/
theorem Paced.schedule (h : Paced options slack t) (hlive : live t.st.timer = 0) {st' : State} {delay startedAt : Nat}
    (htimer : st'.timer = t.st.timer.map Wait.cancel ++ [.waiting]) (hrounds : st'.rounds = t.st.rounds)
    (hrem : st'.checksRemaining = 0)
    (hfirst : ∀ s, t.starts[0]? = some s → startedAt ≤ s ∧ s ≤ startedAt + slack)
    (hzero : t.st.rounds = 0 → t.now + delay = startedAt)
    (hnext : ∀ s, t.starts.getLast? = some s →
      s + options.interval ≤ t.now + delay ∧ t.now + delay ≤ s + options.timeout + slack + options.interval) :
    Paced options slack { t with
      st := st', waits := t.waits.map cancelWait ++ [(.waiting, t.now + delay)], startedAt := startedAt } := by
  refine ⟨?_, h.rounds.trans hrounds.symm, h.past, hfirst, h.spaced, fun hpos => ?_, fun w hw hl => ?_⟩
  · show (t.waits.map cancelWait ++ [(Wait.waiting, t.now + delay)]).map Prod.fst = st'.timer
    rw [htimer, ← h.waits, List.map_append, List.map_map, List.map_map]
    rfl
  · have hpos : 0 < st'.checksRemaining := hpos
    omega
  · rcases List.mem_append.1 hw with hw | hw
    · obtain ⟨v, hv, rfl⟩ := List.mem_map.1 hw
      refine absurd ?_ hl
      show v.1.cancel = .aborted
      rw [h.none_live hlive v hv]
      rfl
    · obtain rfl := List.mem_singleton.1 hw
      refine ⟨?_, fun he => (by cases he), fun h0 => hzero (hrounds.symm.trans h0), hnext⟩
      show t.now ≤ t.now + delay + slack
      omega

/-- **A completion**: before the last one the timer rests, and the last one sets it an interval ahead. -/
theorem Paced.complete (h : Paced options slack t) (hi : Inv n t.st) {id : Nat} {c c' : HealthCheck} (healthy : Bool)
    (hc : t.st.checks[id]? = some c) (hdone : c'.completed = c.completed) :
    Paced options slack { t with
      st := complete t.st id c' healthy
      waits := t.scheduled options.interval (complete t.st id c' healthy) } := by
  have hmem : c ∈ t.st.checks := List.mem_of_getElem? hc
  -- the handler only changed the probe
  have same : ∀ {st' : State}, st'.timer = t.st.timer → st'.rounds = t.st.rounds →
      (0 < st'.checksRemaining → 0 < t.st.checksRemaining) →
      Paced options slack { t with st := st', waits := t.scheduled options.interval st' } := by
    intro st' htimer hrounds hrem
    rw [Clocked.scheduled, if_pos (by rw [htimer])]
    exact h.frame htimer hrounds hrem
  -- it was the last of its round
  have last : ∀ {st' : State}, st'.timer = t.st.timer.map Wait.cancel ++ [.waiting] → st'.rounds = t.st.rounds →
      st'.checksRemaining = 0 → 0 < t.st.checksRemaining →
      Paced options slack { t with st := st', waits := t.scheduled options.interval st' } := by
    intro st' htimer hrounds hrem hpos
    rw [Clocked.scheduled, if_neg (by rw [htimer]; simp)]
    refine h.schedule (hi.live_zero hpos) htimer hrounds hrem h.first (fun h0 => ?_) (fun s hs => ?_)
    · have := (hi.index_lt hmem).1
      omega
    · have hpast := h.past s (List.mem_of_getLast? hs)
      have hbound := h.running hpos s hs
      omega
  unfold Monitor.complete
  split
  · exact same rfl rfl (fun hp => hp)
  · rename_i hrun
    have hpos := hi.remaining_pos hmem (by rw [← hdone]; simpa using hrun)
    split
    · exact same rfl rfl (fun hp => hp)
    · unfold onCheckComplete
      rw [if_pos hpos]
      dsimp only
      split
      · rename_i hlast
        obtain ⟨h0, hrunning⟩ := hlast
        unfold scheduleNextCheck
        rw [if_neg (by rw [hrunning]; exact Bool.false_ne_true)]
        exact last rfl rfl h0 hpos
      · rename_i hmore
        exact same rfl rfl (fun _ => hpos)

theorem Paced.start (h : Paced options slack t) (hi : Inv n t.st) (hst : t.st.started = false) :
    Paced options slack (t.after options .start (scheduleNextCheck { t.st with started := true })) := by
  obtain ⟨htimer, hchecks⟩ := hi.fresh hst
  have hrounds : t.st.rounds = 0 := by
    by_contra hne
    have hpos : 0 < n := by rw [← hi.size]; exact Nat.lt_of_le_of_lt (Nat.zero_le _) t.st.pool.nextIndex_lt
    have hm : (0, 0) ∈ t.st.checks.map HealthCheck.place := by
      rw [hi.places]; exact mem_layout.2 ⟨Nat.pos_of_ne_zero hne, hpos⟩
    rw [hchecks] at hm
    cases hm
  have hnone : t.starts = [] := List.length_eq_zero_iff.1 (h.rounds.trans hrounds)
  have hrem : t.st.checksRemaining = 0 := by rw [hi.remaining, hchecks]; rfl
  have hfirst : ∀ s, t.starts[0]? = some s → t.now ≤ s ∧ s ≤ t.now + slack := fun s hs => by
    rw [hnone] at hs; cases hs
  simp only [Clocked.after, if_true, scheduleNextCheck_rounds]
  unfold scheduleNextCheck
  dsimp only
  split
  · have hwaits : t.waits = [] := List.map_eq_nil_iff.1 (h.waits.trans htimer)
    refine ⟨?_, h.rounds, h.past, hfirst, h.spaced, h.running, fun w hw => ?_⟩
    · rw [Clocked.scheduled, if_pos rfl]; exact h.waits
    · have hw : w ∈ t.scheduled 0 { t.st with started := true } := hw
      rw [Clocked.scheduled, if_pos rfl, hwaits] at hw
      cases hw
  · rw [Clocked.scheduled, if_neg (by simp)]
    refine h.schedule (by rw [htimer]; rfl) rfl rfl hrem hfirst (fun _ => Nat.add_zero _) (fun s hs => ?_)
    rw [hnone] at hs
    cases hs

/-- **A round starts** when the wait for it has expired, and within the slack. -/
theorem Paced.round (h : Paced options slack t) (hi : Inv n t.st) {k : Nat} (hk : t.st.timer[k]? = some .expired) :
    Paced options slack (t.after options (.timer k) { t.st with
      timer := t.st.timer.eraseIdx k
      checksRemaining := t.st.pool.size
      checks := t.st.checks ++ (List.range t.st.pool.size).map (HealthCheck.make t.st.rounds)
      rounds := t.st.rounds + 1 }) := by
  have hw : ∃ d, t.waits[k]? = some (.expired, d) := by
    rw [← h.waits, List.getElem?_map] at hk
    obtain ⟨w, hw, he⟩ := Option.map_eq_some_iff.1 hk
    exact ⟨w.2, by rw [hw, ← he]⟩
  obtain ⟨d, hw⟩ := hw
  have hon := h.pending _ (List.mem_of_getElem? hw) (fun e => by cases e)
  have hlate : t.now ≤ d + slack := hon.late
  have hearly : d ≤ t.now := hon.early rfl
  -- no other wait is live
  have hnone : ∀ w ∈ t.waits.eraseIdx k, w.1 = .aborted := by
    have herase := live_erase hk
    have hle := hi.live_le
    have hone : live [Wait.expired] = 1 := rfl
    have hzero : live (t.st.timer.eraseIdx k) = 0 := by omega
    intro w hm
    rw [← h.waits, List.eraseIdx_map] at hzero
    have := List.countP_eq_zero.1 hzero w.1 (List.mem_map.2 ⟨w, hm, rfl⟩)
    simpa using this
  simp only [Clocked.after]
  rw [if_neg (by simp), if_neg (fun e => by cases e)]
  refine ⟨?_, ?_, fun s hs => ?_, fun s hs => ?_, fun r a b ha hb => ?_, fun _ s hs => ?_, fun w hm hl => ?_⟩
  · show (t.waits.eraseIdx k).map Prod.fst = t.st.timer.eraseIdx k
    rw [← h.waits, List.eraseIdx_map]
  · rw [List.length_append, h.rounds]; rfl
  · rcases List.mem_append.1 hs with hs | hs
    · exact h.past s hs
    · exact Nat.le_of_eq (List.mem_singleton.1 hs)
  · rcases Lts.getElem?_snoc_iff.1 hs with hs | ⟨h0, rfl⟩
    · exact h.first s hs
    · have hd : d = t.startedAt := hon.first (h.rounds.symm.trans h0.symm)
      exact ⟨hd ▸ hearly, hd ▸ hlate⟩
  · rcases Lts.getElem?_snoc_iff.1 hb with hb | ⟨hr, rfl⟩
    · have hlt := (List.getElem?_eq_some_iff.1 hb).1
      rcases Lts.getElem?_snoc_iff.1 ha with ha | ⟨hr, rfl⟩
      · exact h.spaced r a b ha hb
      · omega
    · rcases Lts.getElem?_snoc_iff.1 ha with ha | ⟨hr', rfl⟩
      · have hlast : t.starts.getLast? = some a := by
          rw [List.getLast?_eq_getElem?, ← hr, Nat.add_sub_cancel]; exact ha
        have hnext : a + options.interval ≤ d ∧ d ≤ a + options.timeout + slack + options.interval := hon.next a hlast
        omega
      · omega
  · rw [List.getLast?_concat] at hs
    cases hs
    show t.now ≤ t.now + options.timeout + slack
    omega
  · exact absurd (hnone w hm) hl

/-- A handler that starts no round. -/
theorem Paced.of_waits {a : Action} {st' : State} (ha : a ≠ .start) (hrounds : st'.rounds = t.st.rounds)
    (h : Paced options slack { t with st := st', waits := (t.after options a st').waits }) :
    Paced options slack (t.after options a st') := by
  unfold Clocked.after at h ⊢
  rw [if_pos hrounds, if_neg ha]
  exact h

/-- A handler of a probe that did not call `complete`. -/
theorem Paced.quiet (h : Paced options slack t) {a : Action} {checks : List HealthCheck} (ha : a ≠ .start)
    (hwaits : (t.after options a { t.st with checks := checks }).waits = t.waits) :
    Paced options slack (t.after options a { t.st with checks := checks }) := by
  refine Paced.of_waits ha rfl ?_
  rw [hwaits]
  exact h.frame rfl rfl (fun hp => hp)

theorem Paced.stop (h : Paced options slack t) :
    Paced options slack (t.after options .stop { t.st with stopped := true, timer := t.st.timer.map Wait.cancel }) := by
  refine Paced.of_waits (fun e => by cases e) rfl (h.keep ?_ rfl (fun hp => hp) (fun w hw hl => ?_))
  · show (t.waits.map cancelWait).map Prod.fst = t.st.timer.map Wait.cancel
    rw [← h.waits, List.map_map, List.map_map]
    rfl
  · obtain ⟨v, hv, rfl⟩ := List.mem_map.1 hw
    -- of the live waits only one that has expired is still live
    have hexp : v.1 = .expired := by
      cases he : v.1 with
      | waiting => exact absurd (congrArg Wait.cancel he) hl
      | expired => rfl
      | aborted => exact absurd (congrArg Wait.cancel he) hl
    have hvl : v.1 ≠ .aborted := by rw [hexp]; exact fun e => by cases e
    exact ⟨v, hv, hvl, rfl, fun _ => (h.pending v hv hvl).early hexp⟩

theorem Paced.expire (h : Paced options slack t) {k : Nat} (hk : t.st.timer[k]? = some .waiting)
    (hready : t.ready options (.expire k) = true) :
    Paced options slack (t.after options (.expire k) { t.st with timer := t.st.timer.set k .expired }) := by
  rw [← h.waits, List.getElem?_map] at hk
  obtain ⟨w, hw, he⟩ := Option.map_eq_some_iff.1 hk
  have hdue : w.2 ≤ t.now := by
    simp only [Clocked.ready, hw] at hready
    exact of_decide_eq_true hready
  have hset : t.waits.modify k (fun w => (.expired, w.2)) = t.waits.set k (.expired, w.2) := by
    rw [List.modify_eq_set_getElem?, hw]
    rfl
  refine Paced.of_waits (fun e => by cases e) rfl (h.keep ?_ rfl (fun hp => hp) (fun v hv hl => ?_))
  · show (t.waits.modify k (fun w => (.expired, w.2))).map Prod.fst = t.st.timer.set k .expired
    rw [hset, List.map_set, h.waits]
  · have hv : v ∈ t.waits.modify k (fun w => (.expired, w.2)) := hv
    rw [hset] at hv
    rcases List.mem_or_eq_of_mem_set hv with hv | rfl
    · exact ⟨v, hv, hl, rfl, (h.pending v hv hl).early⟩
    · exact ⟨w, List.mem_of_getElem? hw, by rw [he]; exact (fun e => by cases e), rfl, fun _ => hdue⟩

theorem Paced.erase (h : Paced options slack t) (k : Nat) :
    Paced options slack (t.after options (.timer k) { t.st with timer := t.st.timer.eraseIdx k }) := by
  refine Paced.of_waits (fun e => by cases e) rfl (h.keep ?_ rfl (fun hp => hp) (fun w hw hl => ?_))
  · show (t.waits.eraseIdx k).map Prod.fst = t.st.timer.eraseIdx k
    rw [← h.waits, List.eraseIdx_map]
  · have hw : w ∈ t.waits := List.mem_of_mem_eraseIdx hw
    exact ⟨w, hw, hl, rfl, (h.pending w hw hl).early⟩

/-- **Every step of the monitor keeps the pace.** -/
theorem Paced.step (h : Paced options slack t) (hi : Inv n t.st) (a : Action) {st' : State}
    (hs : Monitor.step t.st a = some st') (hready : t.ready options a = true) :
    Paced options slack (t.after options a st') := by
  cases a with
  | start =>
    simp only [Monitor.step] at hs
    split at hs
    · cases hs
    · rename_i hst
      cases hs
      exact h.start hi (by simpa using hst)
  | stop => cases hs; exact h.stop
  | expire k =>
    simp only [Monitor.step] at hs
    split at hs
    · rename_i hk; cases hs; exact h.expire hk hready
    · cases hs
  | timer k =>
    simp only [Monitor.step] at hs
    split at hs
    · rename_i hk
      cases hs
      unfold runChecks
      split
      · exact h.erase k
      · exact h.round hi hk
    · cases hs; exact h.erase k
    · cases hs
  | probeExpire id =>
    simp only [Monitor.step] at hs
    split at hs
    · split at hs
      · cases hs; exact h.quiet (fun e => by cases e) rfl
      · cases hs
    · cases hs
  | timeout id =>
    simp only [Monitor.step] at hs
    split at hs
    · rename_i c hc
      split at hs
      · cases hs
        exact Paced.of_waits (fun e => by cases e) (complete_rounds _ _ _ _) (h.complete hi false hc rfl)
      · cases hs
        exact h.quiet (fun e => by cases e) (if_pos rfl)
      · cases hs
    · cases hs
  | resolved id ok =>
    simp only [Monitor.step] at hs
    split at hs
    · rename_i c hc
      split at hs
      · cases hs
        unfold onResolve
        dsimp only
        split
        · exact h.quiet (fun e => by cases e) (if_pos rfl)
        · split
          · exact h.quiet (fun e => by cases e) (if_pos rfl)
          · exact Paced.of_waits (fun e => by cases e) (complete_rounds _ _ _ _) (h.complete hi false hc rfl)
      · cases hs
    · cases hs
  | connected id ok =>
    simp only [Monitor.step] at hs
    split at hs
    · rename_i c hc
      split at hs
      · cases hs
        exact Paced.of_waits (fun e => by cases e) (complete_rounds _ _ _ _) (h.complete hi ok hc rfl)
      · cases hs
    · cases hs
  | select =>
    cases hs
    exact Paced.of_waits (fun e => by cases e) rfl (h.frame rfl rfl (fun hp => hp))

variable {t₀ : Nat}

theorem Prompt.paced (h : Prompt options slack pool metrics t₀ t) : Paced options slack t := by
  refine Lts.Reach.invWith h (J := fun t : Clocked => Inv pool.size t.st)
    (fun _ hr => Reachable.inv (clock_reachable hr)) (paced_init pool metrics t₀) ?_
  intro t a t' hi hp hprompt hs
  cases a with
  | tick now =>
    simp only [clockStep] at hs
    split at hs
    · rename_i hle; cases hs; exact hp.tick hi hle hprompt
    · cases hs
  | run a =>
    simp only [clockStep] at hs
    split at hs
    · rename_i hready
      obtain ⟨st', hst, rfl⟩ := Option.map_eq_some_iff.1 hs
      exact hp.step hi a hst hready
    · cases hs

/-! ## The rate of the rounds -/

/-- The rounds up to one that started at `s`. -/
theorem Paced.rate (h : Paced options slack t) : ∀ (r : Nat) {s : Nat}, t.starts[r]? = some s →
    t.startedAt + r * options.interval ≤ s ∧
    s ≤ t.startedAt + slack + r * (options.timeout + options.interval + 2 * slack)
  | 0, s, hs => by
    have := h.first s hs
    omega
  | r + 1, s, hs => by
    have hlt := (List.getElem?_eq_some_iff.1 hs).1
    have hr : r < t.starts.length := by omega
    have hprev : t.starts[r]? = some t.starts[r] := List.getElem?_eq_getElem hr
    have hle := Paced.rate h r hprev
    have hnext := h.spaced r _ s hprev hs
    rw [Nat.succ_mul, Nat.succ_mul]
    omega

/-- While the monitor is started and not stopped, it probes or a wait for the next round is live. -/
theorem Paced.awaits (h : Paced options slack t) (hi : Inv n t.st) (hst : t.st.started = true)
    (hrun : t.st.stopped = false) : 0 < t.st.checksRemaining ∨ ∃ w, OnTime options slack t w := by
  rcases Nat.eq_zero_or_pos t.st.checksRemaining with h0 | hpos
  · have hlive := hi.live_one hst hrun h0
    rw [← h.waits] at hlive
    obtain ⟨v, hv, hl⟩ := List.countP_pos_iff.1 (Nat.lt_of_lt_of_eq Nat.zero_lt_one hlive.symm)
    obtain ⟨w, hw, rfl⟩ := List.mem_map.1 hv
    exact .inr ⟨w, h.pending w hw (by simpa using hl)⟩
  · exact .inl hpos

/-- How long ago the last round of a running monitor started. -/
theorem Paced.last (h : Paced options slack t) (hi : Inv n t.st) (hst : t.st.started = true)
    (hrun : t.st.stopped = false) {s : Nat} (hs : t.starts.getLast? = some s) :
    t.now ≤ s + options.timeout + options.interval + 2 * slack := by
  rcases h.awaits hi hst hrun with hpos | ⟨w, hw⟩
  · have := h.running hpos s hs
    omega
  · have := hw.late
    have := hw.next s hs
    omega

/-- Before the first round. -/
theorem Paced.none (h : Paced options slack t) (hi : Inv n t.st) (hst : t.st.started = true)
    (hrun : t.st.stopped = false) (h0 : t.st.rounds = 0) : t.now ≤ t.startedAt + slack := by
  rcases h.awaits hi hst hrun with hpos | ⟨w, hw⟩
  · rw [hi.remaining] at hpos
    obtain ⟨c, hc, -⟩ := List.countP_pos_iff.1 hpos
    have := (hi.index_lt hc).1
    omega
  · rw [← hw.first h0]
    exact hw.late

/-- **How many rounds have started by a time**: never more than one for each interval and one, and, while the monitor
runs, not fewer than one for each interval, timeout and twice the slack. -/
theorem Prompt.rounds_rate (h : Prompt options slack pool metrics t₀ t) :
    (0 < t.st.rounds → t.startedAt + (t.st.rounds - 1) * options.interval ≤ t.now) ∧
    (t.st.started = true → t.st.stopped = false →
      t.now ≤ t.startedAt + slack + t.st.rounds * (options.timeout + options.interval + 2 * slack)) := by
  have hp := h.paced
  have hi := Reachable.inv (clock_reachable (Lts.Reach.any h))
  have last : 0 < t.st.rounds → ∃ s, t.starts.getLast? = some s ∧ t.starts[t.st.rounds - 1]? = some s := by
    intro hpos
    have hlt : t.st.rounds - 1 < t.starts.length := by have := hp.rounds; omega
    refine ⟨t.starts[t.st.rounds - 1], ?_, List.getElem?_eq_getElem hlt⟩
    rw [List.getLast?_eq_getElem?, hp.rounds]
    exact List.getElem?_eq_getElem hlt
  constructor
  · intro hpos
    obtain ⟨s, hlast, hs⟩ := last hpos
    exact Nat.le_trans (hp.rate _ hs).1 (hp.past s (List.mem_of_getLast? hlast))
  · intro hst hrun
    rcases Nat.eq_zero_or_pos t.st.rounds with h0 | hpos
    · have := hp.none hi hst hrun h0
      omega
    · obtain ⟨s, hlast, hs⟩ := last hpos
      have hle := (hp.rate _ hs).2
      have hnow := hp.last hi hst hrun hlast
      obtain ⟨r, hr⟩ : ∃ r, t.st.rounds = r + 1 := ⟨t.st.rounds - 1, by omega⟩
      rw [hr, Nat.add_sub_cancel] at hle
      rw [hr, Nat.succ_mul]
      omega

/-- Two rounds: the probe of the second backend times out in the first. -/
def twoRounds : List ClockAction :=
  [.run .start, .run (.expire 0), .tick 120, .run (.timer 0), .run (.resolved 0 true), .tick 130,
    .run (.connected 0 true), .tick 1120, .run (.probeExpire 1), .tick 1150, .run (.timeout 1), .tick 3160,
    .run (.expire 0), .run (.timer 0), .tick 3200]

def probedPair : UpstreamPool := ⟨[⟨⟨"a".toList, 80⟩, true⟩, ⟨⟨"b".toList, 80⟩, true⟩], 0, Nat.zero_lt_two⟩

theorem rounds_rate_twoRounds : ∃ t, Prompt {} 50 probedPair none 100 t ∧ t.st.rounds = 2 ∧
    100 + (2 - 1) * 2000 ≤ t.now ∧ t.now ≤ 100 + 50 + 2 * (1000 + 2000 + 2 * 50) := by
  obtain ⟨t, hr, hf⟩ := Lts.exists_reach (clockStep {}) (prompt {} 50) (Clocked.init probedPair none 100) twoRounds
    (fun t => decide (t.st.rounds = 2 ∧ t.st.started = true ∧ t.st.stopped = false ∧ t.startedAt = 100))
    (by decide +kernel)
  obtain ⟨h2, hst, hrun, h100⟩ := of_decide_eq_true hf
  obtain ⟨hat, hmost⟩ := Prompt.rounds_rate hr
  rw [h2, h100] at hat hmost
  exact ⟨t, hr, h2, hat (by decide), hmost hst hrun⟩

/-! ## The age of the evidence -/

theorem Inv.probe (h : Inv n t.st) {r i : Nat} (hr : r < t.st.rounds) (hlt : i < n) :
    ∃ c ∈ t.st.checks, c.round = r ∧ c.index = i := by
  have hm : (r, i) ∈ t.st.checks.map HealthCheck.place := by rw [h.places]; exact mem_layout.2 ⟨hr, hlt⟩
  obtain ⟨c, hc, he⟩ := List.mem_map.1 hm
  exact ⟨c, hc, congrArg Prod.fst he, congrArg Prod.snd he⟩

/-- Probes of later rounds stand later in the list. -/
theorem Inv.later (h : Inv n t.st) {pre post : List HealthCheck} {c d : HealthCheck}
    (hl : t.st.checks = pre ++ c :: post) (hd : d ∈ t.st.checks) (hlt : c.round < d.round) : d ∈ post := by
  have hord := layout_ordered n t.st.rounds
  rw [← h.places, hl, List.map_append, List.map_cons] at hord
  have hpre := (List.pairwise_append.1 hord).2.2
  rw [hl] at hd
  rcases List.mem_append.1 hd with hd | hd
  · have hle : d.round ≤ c.round := hpre d.place (List.mem_map.2 ⟨d, hd, rfl⟩) c.place List.mem_cons_self
    omega
  · rcases List.mem_cons.1 hd with rfl | hd
    · omega
    · exact hd

/-- The start of a probe's round, and of the last one if the probe runs. -/
theorem Paced.started (h : Paced options slack t) (hi : Inv n t.st) {c : HealthCheck} (hc : c ∈ t.st.checks) :
    ∃ s, t.starts[c.round]? = some s ∧ (c.round + 1 = t.st.rounds → t.starts.getLast? = some s) := by
  have hlt : c.round < t.starts.length := by have := (hi.index_lt hc).1; have := h.rounds; omega
  refine ⟨t.starts[c.round], List.getElem?_eq_getElem hlt, fun hr => ?_⟩
  rw [List.getLast?_eq_getElem?, h.rounds, ← hr, Nat.add_sub_cancel]
  exact List.getElem?_eq_getElem hlt

/-- A probe that runs was started at most a timeout and the slack ago. -/
theorem Paced.probing (h : Paced options slack t) (hi : Inv n t.st) {c : HealthCheck} (hc : c ∈ t.st.checks)
    (hrun : c.completed = false) : ∃ s, t.starts[c.round]? = some s ∧ t.now ≤ s + options.timeout + slack := by
  obtain ⟨s, hs, hlast⟩ := h.started hi hc
  exact ⟨s, hs, h.running (hi.remaining_pos hc hrun) s (hlast (hi.current c hc hrun))⟩

/-- **The flag of a backend is never stale**: while the monitor runs, it says what the last completed probe of the
backend reported, and the round of that probe started at most an interval, two timeouts and three times the slack ago;
unless no probe of it has completed yet, which lasts a timeout and twice the slack at most. -/
theorem Prompt.evidence_fresh (h : Prompt options slack pool metrics t₀ t) (hst : t.st.started = true)
    (hrun : t.st.stopped = false) {i : Nat} (hlt : i < pool.size) :
    (∀ c ∈ t.st.checks, c.index = i → c.completed = false) ∧ t.now ≤ t.startedAt + options.timeout + 2 * slack ∨
    ∃ pre c post s, t.st.checks = pre ++ c :: post ∧ c.index = i ∧ c.completed = true ∧
      (∀ d ∈ post, d.index = i → d.completed = false) ∧ c.reports = [t.st.pool.healthyAt i] ∧
      t.starts[c.round]? = some s ∧ t.now ≤ s + options.interval + 2 * options.timeout + 3 * slack := by
  have hp := h.paced
  have hr := clock_reachable (Lts.Reach.any h)
  have hi := Reachable.inv hr
  rcases lastReport_cases (i := i) hi.checks with ⟨-, hnot⟩ | ⟨pre, c, post, healthy, hsome, hl, hci, hd, hpost, hrep⟩
  · refine .inl ⟨hnot, ?_⟩
    rcases Nat.eq_zero_or_pos t.st.rounds with h0 | hpos
    · have := hp.none hi hst hrun h0
      omega
    · obtain ⟨c, hc, hround, hci⟩ := hi.probe hpos hlt
      obtain ⟨s, hs, hnow⟩ := hp.probing hi hc (hnot c hc hci)
      rw [hround] at hs
      have := hp.first s hs
      omega
  · have hc : c ∈ t.st.checks := by rw [hl]; simp
    have hflag : c.reports = [t.st.pool.healthyAt i] := by rw [hrep, Reachable.flagged hr i, hsome]; rfl
    obtain ⟨s, hs, hlast⟩ := hp.started hi hc
    refine .inr ⟨pre, c, post, s, hl, hci, hd, hpost, hflag, hs, ?_⟩
    have hround := (hi.index_lt hc).1
    by_cases he : c.round + 1 = t.st.rounds
    · have := hp.last hi hst hrun (hlast he)
      omega
    · -- the next probe of the backend is running
      obtain ⟨d, hdm, hdr, hdi⟩ := hi.probe (r := c.round + 1) (by omega) hlt
      have hdrun := hpost d (hi.later hl hdm (by omega)) hdi
      obtain ⟨s', hs', hnow⟩ := hp.probing hi hdm hdrun
      rw [hdr] at hs'
      have := hp.spaced c.round s s' hs hs'
      omega

/-- In the second round the evidence on the second backend is that of the first round. -/
theorem evidence_fresh_twoRounds : ∃ t, Prompt {} 50 probedPair none 100 t ∧ t.st.pool.healthyAt 1 = false ∧
    ∃ c ∈ t.st.checks, ∃ s, c.index = 1 ∧ c.reports = [false] ∧ t.starts[c.round]? = some s ∧
      t.now ≤ s + 2000 + 2 * 1000 + 3 * 50 := by
  obtain ⟨t, hr, hf⟩ := Lts.exists_reach (clockStep {}) (prompt {} 50) (Clocked.init probedPair none 100) twoRounds
    (fun t => decide (t.st.pool.healthyAt 1 = false ∧ t.st.started = true ∧ t.st.stopped = false ∧
      t.startedAt = 100 ∧ t.now = 3200)) (by decide +kernel)
  obtain ⟨hflag, hst, hrun, h100, hnow⟩ := of_decide_eq_true hf
  rcases Prompt.evidence_fresh hr hst hrun (i := 1) (by decide) with
    ⟨-, hle⟩ | ⟨pre, c, post, s, hl, hi, -, -, hrep, hs, hle⟩
  · rw [h100, hnow] at hle
    exact absurd hle (by decide)
  · exact ⟨t, hr, hflag, c, by rw [hl]; simp, s, hi, hflag ▸ hrep, hs, hle⟩

end Monitor
end EventEdge
