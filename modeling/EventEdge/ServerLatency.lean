import EventEdge.ServerDeadlines
/-!
# ServerLatency — how long a request takes

The deadline of a client's stream decides nothing: a step of the server is one whatever the deadlines are
(`Step.redate`).  So what `TimeInv` says of the deadlines holds of any other times that are set when a request is read,
and here they are the time a request is promised: the longest a run takes, from the moment it was read.  No request
takes longer, also one that waits for the flight of another (`answered_within`).
-/
namespace EventEdge
namespace Server

variable {cfg : Config} {st st' : State} {a : Action} {resolving : Int}

/-! ## Other deadlines -/

/-- The state with these deadlines. -/
def dated (deadlines : Nat → Int) (st : State) : State :=
  { st with sessions := fun i => { st.sessions i with deadline := deadlines i } }

variable {f g : Nat → Int}

theorem dated_move {i : Nat} {s : Session} (hu : st'.sessions = Function.update st.sessions i s) : dated f st' =
    { st' with sessions := Function.update (dated f st).sessions i { s with deadline := f i } } := by
  have hs : (fun j => { st'.sessions j with deadline := f j }) =
      Function.update (dated f st).sessions i { s with deadline := f i } := by
    funext j
    rcases Lts.update_cases hu j with ⟨rfl, hj⟩ | ⟨hne, hj⟩
    · rw [Function.update_self, hj]
    · rw [Function.update_of_ne hne, hj]
      rfl
  rw [dated, hs]

/-- **A step is one whatever the deadlines are**, and changes none of a session that has not answered. -/
theorem Step.redate (hs : Step cfg st a st') (f : Nat → Int) : ∃ g, Step cfg (dated f st) a (dated g st') ∧
    ∀ j, (st'.sessions j).phase.settled = false → g j = f j := by
  -- the deadlines stay
  have keep : ∀ {i : Nat} {s : Session}, st'.sessions = Function.update st.sessions i s →
      Step cfg (dated f st) a { st' with
        sessions := Function.update (dated f st).sessions i { s with deadline := f i } } →
      ∃ g, Step cfg (dated f st) a (dated g st') ∧ ∀ j, (st'.sessions j).phase.settled = false → g j = f j := by
    intro i s hu h
    exact ⟨f, by rw [dated_move hu]; exact h, fun _ _ => rfl⟩
  -- `do_read` sets one
  have again : ∀ {i : Nat}, st' = { st with sessions := readingAgain st i } →
      Step cfg (dated f st) a { dated f st with sessions := readingAgain (dated f st) i } →
      ∃ g, Step cfg (dated f st) a (dated g st') ∧ ∀ j, (st'.sessions j).phase.settled = false → g j = f j := by
    rintro i rfl h
    refine ⟨Function.update f i (st.now + 30000000000), ?_, fun j hj => ?_⟩
    · have hdated : dated (Function.update f i (st.now + 30000000000)) { st with sessions := readingAgain st i } =
          { dated f st with sessions := readingAgain (dated f st) i } := by
        simp only [dated, readingAgain, State.mk.injEq, and_true, true_and]
        funext j
        by_cases hj : j = i
        · subst hj; simp
        · simp [hj]
      rw [hdated]
      exact h
    · refine Function.update_of_ne ?_ _ _
      rintro rfl
      simp [readingAgain, Phase.settled] at hj
  cases hs with
  | tick now hle => exact ⟨f, .tick now hle, fun _ _ => rfl⟩
  | accept i hstop hph => exact again rfl (.accept i hstop hph)
  | readError i e hstop hph => exact keep rfl (.readError i e hstop hph)
  | readLocal i request response hstop hph hl hresp => exact keep rfl (.readLocal i request response hstop hph hl hresp)
  | readCacheable i request hstop hph hl hc => exact keep rfl (.readCacheable i request hstop hph hl hc)
  | readOther i request hstop hph hl hc => exact keep rfl (.readOther i request hstop hph hl hc)
  | hit i key cached hph hget => exact keep rfl (.hit i key cached hph hget)
  | miss i key hph hget hco => exact keep rfl (.miss i key hph hget hco)
  | missAlone i key hph hget hco => exact keep rfl (.missAlone i key hph hget hco)
  | lead i key hph hnone => exact keep rfl (.lead i key hph hnone)
  | wait i key ws hph hsome => exact keep rfl (.wait i key ws hph hsome)
  | leadUnavailable i key hph hsel => exact keep rfl (.leadUnavailable i key hph hsel)
  | leadFetch i key u p hph hsel hrun => exact keep rfl (.leadFetch i key u p hph hsel hrun)
  | leadThrow i key u e hph hsel hrun => exact keep rfl (.leadThrow i key u e hph hsel hrun)
  | directUnavailable i hph hsel => exact keep rfl (.directUnavailable i hph hsel)
  | directFetch i u p hph hsel hrun => exact keep rfl (.directFetch i u p hph hsel hrun)
  | directThrow i u e hph hsel hrun => exact keep rfl (.directThrow i u e hph hsel hrun)
  | store i key reply hph => exact keep rfl (.store i key reply hph)
  | release i key reply hph => exact keep rfl (.release i key reply hph)
  | respond i reply hph => exact keep rfl (.respond i reply hph)
  | writtenNext i hstop hph => exact again rfl (.writtenNext i hstop hph)
  | writtenLast i c ok hstop hph hc => exact keep rfl (.writtenLast i c ok hstop hph hc)
  | callback pre post w reply hstop hp => exact keep rfl (.callback pre post w reply hstop hp)
  | proxyStep id p q ev hstop hp hop hh => exact ⟨f, .proxyStep id p q ev hstop hp hop hh, fun _ _ => rfl⟩
  | proxyFlight id p q ev i key r hstop hp hop hh => exact keep rfl (.proxyFlight id p q ev i key r hstop hp hop hh)
  | proxyDirect id p q ev i r hstop hp hop hh => exact keep rfl (.proxyDirect id p q ev i r hstop hp hop hh)
  | proxyThrow id p ev e hstop hp hop hh => exact ⟨f, .proxyThrow id p ev e hstop hp hop hh, fun _ _ => rfl⟩
  | health k healthy changed pool hstop hset => exact ⟨f, .health k healthy changed pool hstop hset, fun _ _ => rfl⟩

theorem CoreInv.dated (h : CoreInv cfg st) (f : Nat → Int) : CoreInv cfg (dated f st) :=
  ⟨⟨h.proxies.running, h.proxies.done, h.proxies.proxying⟩, h.path, h.flights⟩

/-- **Only the deadlines of those that have not answered count.** -/
theorem TimeInv.redate (h : TimeInv cfg resolving (dated f st)) (hc : CoreInv cfg st)
    (hg : ∀ j, (st.sessions j).phase.settled = false → g j = f j) : TimeInv cfg resolving (dated g st) := by
  refine ⟨h.started, h.onTime, fun i hi => ?_, fun j d hd => ?_, fun key ws w j d hws hm hrole hd => ?_⟩
  · show st.now ≤ g i
    rw [hg i hi]
    exact h.working i hi
  · have hj : (st.sessions j).phase.settled = false := by
      rcases hd with ⟨key, hph, -⟩ | ⟨id, flight, p, hph, -⟩
      · rw [show (st.sessions j).phase = .leading key from hph]; rfl
      · rw [show (st.sessions j).phase = .proxying id flight from hph]; rfl
    show d ≤ g j
    rw [hg j hj]
    exact h.due j d hd
  · have hw : (st.sessions w).phase.settled = false := by
      rw [Phase.waiting_of_role (hc.flights.queued_waits key ws hws w hm)]; rfl
    show d ≤ g w
    rw [hg w hw]
    exact h.queued key ws w j d hws hm hrole hd

/-! ## The time a request is promised -/

/-- The request was read in this very handler: no time has passed. -/
def Phase.fresh : Phase → Bool
  | .lookup _ | .joining _ | .leading _ | .selecting => true
  | _ => false

theorem Phase.between_of_fresh {p : Phase} (h : p.fresh = true) : p.between = false := by
  cases p <;> first | rfl | cases h

def promise (cfg : Config) (resolving : Int) (st : State) (i : Nat) : Int :=
  (st.sessions i).requestStarted + cfg.timeouts.budget resolving

/-- `TimeInv` for what is promised. -/
structure LatencyInv (cfg : Config) (resolving : Int) (st : State) : Prop where
  fresh : ∀ i, (st.sessions i).phase.fresh = true → (st.sessions i).requestStarted = st.now
  time : TimeInv cfg resolving (dated (promise cfg resolving st) st)

theorem budget_nonneg (timeouts : ProxyTimeouts) (resolving : Int) : 0 ≤ timeouts.budget resolving := by
  simp only [ProxyTimeouts.budget, ProxyTimeouts.spent]
  omega

theorem latencyInv_init : LatencyInv cfg resolving (init cfg) := by
  have htime : TimeInv cfg resolving (dated (fun i => ((init cfg).sessions i).deadline) (init cfg)) := timeInv_init
  exact ⟨fun _ hi => (by cases hi), htime.redate coreInv_init (fun _ hj => by cases hj)⟩

/-- Only a read starts the time of a request. -/
theorem Step.requestStarted (hs : Step cfg st a st') (j : Nat) :
    ((st.sessions j).phase ≠ .reading → (st'.sessions j).requestStarted = (st.sessions j).requestStarted) ∧
    ∀ request, a = .read j (.ok request) →
      (st.sessions j).phase = .reading ∧ (st'.sessions j).requestStarted = st.now := by
  have move : ∀ {i : Nat} {s : Session}, st'.sessions = Function.update st.sessions i s →
      s.requestStarted = (st.sessions i).requestStarted →
      (st'.sessions j).requestStarted = (st.sessions j).requestStarted := by
    intro i s hu hi
    rcases Lts.update_cases hu j with ⟨rfl, hj⟩ | ⟨-, hj⟩
    · rw [hj]; exact hi
    · rw [hj]
  have read : ∀ {i : Nat} {s : Session}, st'.sessions = Function.update st.sessions i s →
      (st.sessions i).phase = .reading →
      (st.sessions j).phase ≠ .reading → (st'.sessions j).requestStarted = (st.sessions j).requestStarted := by
    intro i s hu hph hne
    rcases Lts.update_cases hu j with ⟨rfl, -⟩ | ⟨-, hj⟩
    · exact absurd hph hne
    · rw [hj]
  cases hs with
  | readLocal i _ _ _ hph | readCacheable i _ _ hph | readOther i _ _ hph =>
    refine ⟨read (i := i) rfl hph, ?_⟩
    rintro request he
    cases he
    exact ⟨hph, by simp [received]⟩
  | tick _ _ | proxyStep _ _ _ _ _ _ _ _ | proxyThrow _ _ _ _ _ _ _ _ | health _ _ _ _ _ _ =>
    exact ⟨fun _ => rfl, fun _ he => by cases he⟩
  | _ => exact ⟨fun _ => move rfl rfl, fun _ he => by cases he⟩

/-- A request is fresh as long as its handler runs. -/
theorem LatencyInv.fresh_step (h : LatencyInv cfg resolving st) (hs : Step cfg st a st') (hi : Instant st a) (j : Nat)
    (hj : (st'.sessions j).phase.fresh = true) : (st'.sessions j).requestStarted = st'.now := by
  -- it was fresh before, and no time passes
  have old : (st.sessions j).phase.fresh = true → (st'.sessions j).requestStarted = st'.now := by
    intro hf
    have hne : (st.sessions j).phase ≠ .reading := fun he => by rw [he] at hf; cases hf
    rw [(hs.requestStarted j).1 hne, h.fresh j hf]
    cases hs with
    | tick t _ =>
      have hb := hi t rfl j
      rw [Phase.between_of_fresh hf] at hb
      cases hb
    | _ => rfl
  have move : ∀ {i : Nat} {s : Session}, st'.sessions = Function.update st.sessions i s →
      (s.phase.fresh = true → (st.sessions i).phase.fresh = true ∨ s.requestStarted = st'.now) →
      (st'.sessions j).requestStarted = st'.now := by
    intro i s hu hs
    rcases Lts.update_cases hu j with ⟨rfl, hsame⟩ | ⟨-, hsame⟩
    · rcases hs (hsame ▸ hj) with hf | hnow
      · exact old hf
      · rw [hsame]; exact hnow
    · exact old (hsame ▸ hj)
  cases hs with
  | tick _ _ | proxyStep _ _ _ _ _ _ _ _ | proxyThrow _ _ _ _ _ _ _ _ | health _ _ _ _ _ _ => exact old hj
  | readCacheable i request | readOther i request => exact move (i := i) rfl (fun _ => .inr rfl)
  | miss i _ hph | lead i _ hph => exact move (i := i) rfl (fun _ => .inl (by rw [hph]; rfl))
  | proxyFlight id p q ev i key r =>
    refine move (i := i) rfl (fun hf => ?_)
    unfold flightPhase at hf
    split at hf <;> cases hf
  | _ => exact move rfl (fun hf => by cases hf)

/-- What is promised to those that have not answered; the others get the time of a run from now. -/
def renewed (cfg : Config) (resolving : Int) (st : State) (i : Nat) : Int :=
  if (st.sessions i).phase.settled then st.now + cfg.timeouts.budget resolving else promise cfg resolving st i

/-- Against the renewed deadlines the machine is as prompt, and whoever goes upstream has the time of a run left. -/
theorem LatencyInv.roomy_step (h : LatencyInv cfg resolving st) (hs : Step cfg st a st')
    (hp : prompt resolving st a = true) : prompt resolving (dated (renewed cfg resolving st) st) a = true ∧
      roomy cfg resolving (dated (renewed cfg resolving st) st) a = true := by
  have settled : ∀ {i : Nat} {p : Phase}, (st.sessions i).phase = p → p.settled = true →
      decide (st.now ≤ renewed cfg resolving st i) = true := by
    intro i p hph hsettled
    have hb := budget_nonneg cfg.timeouts resolving
    rw [decide_eq_true_eq, renewed, hph, if_pos hsettled]
    omega
  have going : ∀ {i : Nat} {p : Phase}, (st.sessions i).phase = p → p.fresh = true → p.settled = false →
      decide (st.now + cfg.timeouts.budget resolving ≤ renewed cfg resolving st i) = true := by
    intro i p hph hfresh hsettled
    have hnow := h.fresh i (by rw [hph]; exact hfresh)
    rw [decide_eq_true_eq, renewed, hph, hsettled, if_neg Bool.false_ne_true, promise, hnow]
  cases hs with
  | tick t _ => exact ⟨hp, rfl⟩
  | readLocal i _ _ _ hph | readCacheable i _ _ hph | readOther i _ _ hph => exact ⟨settled hph rfl, rfl⟩
  | writtenNext i _ hph => exact ⟨settled hph rfl, rfl⟩
  | writtenLast i _ ok _ hph =>
    cases ok with
    | true => exact ⟨settled hph rfl, rfl⟩
    | false => exact ⟨rfl, rfl⟩
  | lead i _ hph | wait i _ _ hph | leadUnavailable i _ hph | leadFetch i _ _ _ hph | leadThrow i _ _ _ hph
  | directUnavailable i hph | directFetch i _ _ hph | directThrow i _ _ hph => exact ⟨rfl, going hph rfl rfl⟩
  | _ => exact ⟨rfl, rfl⟩

/-- **Every step keeps what is promised.** -/
theorem LatencyInv.step (h : LatencyInv cfg resolving st) (hc : CoreInv cfg st) (hs : Step cfg st a st')
    (hi : Instant st a) (hp : prompt resolving st a = true) : LatencyInv cfg resolving st' := by
  have hrenewed : TimeInv cfg resolving (dated (renewed cfg resolving st) st) :=
    h.time.redate hc (fun j hj => by rw [renewed, hj, if_neg Bool.false_ne_true])
  obtain ⟨hprompt, hroomy⟩ := h.roomy_step hs hp
  obtain ⟨g, hstep, hg⟩ := hs.redate (renewed cfg resolving st)
  have hnext : TimeInv cfg resolving (dated g st') := hrenewed.step (hc.dated _) hstep hi hprompt hroomy
  refine ⟨h.fresh_step hs hi, hnext.redate (hc.step hs) (fun j hj => ?_)⟩
  rw [hg j hj]
  rcases (hc.working_step hs hj).2 with hold | ⟨request, rfl⟩
  · have hne : (st.sessions j).phase ≠ .reading := fun he => by rw [he] at hold; cases hold
    rw [renewed, hold, if_neg Bool.false_ne_true, promise, promise, (hs.requestStarted j).1 hne]
  · obtain ⟨hph, hnow⟩ := (hs.requestStarted j).2 request rfl
    rw [promise, hnow, renewed, hph]
    rfl

/-- A run that keeps time, and every answer in it. -/
theorem latencyInv_run {resolving : Int} (h : Lts.Reach (step cfg)
      (fun st a => Instant st a ∧ prompt resolving st a = true) (init cfg) st) : LatencyInv cfg resolving st ∧
    ∀ t i n reply, ⟨t, .wrote i n reply⟩ ∈ st.log →
      ∃ b request, ⟨b, .received i n request⟩ ∈ st.log ∧ t ≤ b + cfg.timeouts.budget resolving := by
  refine h.invWith (I := fun st => LatencyInv cfg resolving st ∧ ∀ t i n reply, ⟨t, .wrote i n reply⟩ ∈ st.log →
      ∃ b request, ⟨b, .received i n request⟩ ∈ st.log ∧ t ≤ b + cfg.timeouts.budget resolving)
    (J := fun st => CoreInv cfg st ∧ RequestInv st) (fun _ hr => ⟨Reachable.core hr, Reachable.requests hr⟩)
    ⟨latencyInv_init, fun t i n reply hm => (by cases hm)⟩ ?_
  rintro st a st' ⟨hc, hreq⟩ ⟨hl, hw⟩ ⟨hi, hp⟩ hstep
  have hs := step_sound a hstep
  have g := hc.proxies.grows hs
  refine ⟨hl.step hc hs hi hp, fun t i n reply hm => ?_⟩
  -- what is new in the log has the time of the step
  have hnow : ⟨t, .wrote i n reply⟩ ∈ st.log ∨ t = st.now := by
    rcases g.log with hlog | ⟨e, hlog⟩
    · exact .inl (hlog ▸ hm)
    · rw [hlog] at hm
      rcases List.mem_append.1 hm with hm | hm
      · exact .inl hm
      · exact .inr (congrArg Logged.time (List.mem_singleton.1 hm))
  have old : ⟨t, .wrote i n reply⟩ ∈ st.log →
      ∃ b request, ⟨b, .received i n request⟩ ∈ st'.log ∧ t ≤ b + cfg.timeouts.budget resolving := by
    intro hm
    obtain ⟨b, request, hb, hle⟩ := hw t i n reply hm
    exact ⟨b, request, g.mem hb, hle⟩
  rcases hnow with hm | rfl
  · exact old hm
  · rcases hs.wrote hm with hm | ⟨rfl, hph⟩
    · exact old hm
    · have hpending : (st.sessions i).phase.pending = true := by rw [hph]; rfl
      exact ⟨_, _, g.mem (hreq.current i hpending), hl.time.working i (Phase.settled_of_pending hpending)⟩

/-- **No request takes longer than a run can**, from the moment it was read: every answer was started by then, and so
will the answer of every request that has none, be it led, waited for or asked for alone. -/
theorem answered_within {resolving : Int} (h : Lts.Reach (step cfg)
      (fun st a => Instant st a ∧ prompt resolving st a = true) (init cfg) st) :
    (∀ t b i n request reply, ⟨t, .wrote i n reply⟩ ∈ st.log → ⟨b, .received i n request⟩ ∈ st.log →
      t ≤ b + cfg.timeouts.budget resolving) ∧
    ∀ i, (st.sessions i).phase.pending = true →
      ∃ b, ⟨b, .received i (st.sessions i).number (st.sessions i).request⟩ ∈ st.log ∧
        st.now ≤ b + cfg.timeouts.budget resolving := by
  obtain ⟨hl, hw⟩ := latencyInv_run h
  have hr := Reachable.requests h.any
  refine ⟨fun t b i n request reply hm hb => ?_, fun i hi => ?_⟩
  · obtain ⟨b', request', hb', hle⟩ := hw t i n reply hm
    obtain ⟨rfl, -⟩ := hr.unique b b' i n request request' hb hb'
    exact hle
  · exact ⟨_, hr.current i hi, hl.time.working i (Phase.settled_of_pending hi)⟩

/-- Ten seconds after it was read, a request that waited for the flight of another is answered: to the second. -/
theorem answered_within_slowAnswer : ∃ st, Lts.Reach (step sampleConfig) (fun st a => Instant st a ∧
      prompt 1000000000 st a = true) (init sampleConfig) st ∧
    (∃ t b reply, ⟨t, .wrote 1 1 reply⟩ ∈ st.log ∧ ⟨b, .received 1 1 (getOf "/x".toList [])⟩ ∈ st.log ∧
      t ≤ b + 10000000000) := by
  obtain ⟨st, hr, hf⟩ := Lts.exists_reach (step sampleConfig)
    (fun st a => instantBelow 2 st a && prompt 1000000000 st a) (init sampleConfig) (slowAnswer ++ [.respond 1])
    (fun st => decide (∃ e ∈ st.log, e.event = .received 1 1 (getOf "/x".toList [])) &&
      wroteWith st 1 1 (fun _ => true)) (by decide +kernel)
  rw [Bool.and_eq_true, wroteWith_iff] at hf
  obtain ⟨hb, t, reply, ht, -⟩ := hf
  obtain ⟨⟨b, e⟩, hb, rfl⟩ := of_decide_eq_true hb
  have hr' := instant_of_below hr
  exact ⟨st, hr', t, b, reply, ht, hb, (answered_within hr').1 t b 1 1 _ reply ht hb⟩

end Server
end EventEdge
