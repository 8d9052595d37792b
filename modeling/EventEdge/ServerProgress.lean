import EventEdge.ServerExchanges
/-!
# ServerProgress — every request is on its way to its answer

The server's own steps are all but the clock, new connections and requests, and the health flags.  `load` says how many
of them a session is away from having its answer out; every own step takes one session closer and no other farther
(`load_step`), and of the others only a new request adds to it (`loads_environment`), so the own steps come to an end,
after at most eleven for each session that is busy, unless there is one.  Where they end without a handler having
thrown, nothing is left undone (`AtRest`): a state with work left always has a step.
-/
namespace EventEdge
namespace Server

/-- The steps that are not the environment's choice to make: the handlers, and the completions they wait for. -/
def Action.own : Action → Bool
  | .tick _ | .accept _ | .read _ _ | .health _ _ => false
  | _ => true

/-- A new request is read. -/
def Action.asks : Action → Bool
  | .read _ (.ok _) => true
  | _ => false

/-- The session has a request to answer, or an answer to send. -/
def Phase.busy : Phase → Bool
  | .unaccepted | .reading | .closed | .failed => false
  | _ => true

/-! ## How far away the answer is -/

/-- The own steps from here to the end of the write, at most. -/
def Phase.load (proxies : List UpstreamProxy) : Phase → Nat
  | .lookup _ => 11
  | .joining _ => 10
  | .leading _ | .selecting => 9
  | .proxying id _ => 4 + proxies[id]?.elim 0 UpstreamProxy.left
  | .storing _ _ => 4
  | .waiting _ | .completing _ _ => 3
  | .responding _ => 2
  | .writing _ => 1
  | .unaccepted | .reading | .closed | .failed => 0

def loads (st : State) (i : Nat) : Nat := (st.sessions i).phase.load st.proxies

theorem Phase.load_le (proxies : List UpstreamProxy) (p : Phase) : p.load proxies ≤ 11 := by
  cases p with
  | proxying id f =>
    show 4 + proxies[id]?.elim 0 UpstreamProxy.left ≤ 11
    cases proxies[id]? with
    | none => decide
    | some p =>
      have hp : p.left ≤ 4 := p.left_le
      show 4 + p.left ≤ 11
      omega
  | _ => simp [load]

theorem Phase.load_pos_iff (proxies : List UpstreamProxy) (p : Phase) : 0 < p.load proxies ↔ p.busy = true := by
  cases p with
  | proxying id f => exact ⟨fun _ => rfl, fun _ => Nat.add_pos_left (by decide) _⟩
  | _ => simp [load, busy]

theorem load_flightPhase (proxies : List UpstreamProxy) (key : Str) (reply : Reply) (c : Bool) :
    (flightPhase key reply c).load proxies ≤ 4 := by
  unfold flightPhase
  split <;> simp [Phase.load]

variable {cfg : Config} {st st' : State} {a : Action}

/-- One session moves, and no other is concerned. -/
theorem loads_update {i : Nat} {s : Session} (hs : st'.sessions = Function.update st.sessions i s)
    (hother : ∀ j, j ≠ i → (st.sessions j).phase.load st'.proxies = loads st j) :
    loads st' = Function.update (loads st) i (s.phase.load st'.proxies) := by
  funext j
  unfold loads
  rcases Lts.update_cases hs j with ⟨rfl, hj⟩ | ⟨hne, hj⟩
  · rw [hj, Function.update_self]
  · rw [hj, Function.update_of_ne hne]
    exact hother j hne

/-- **Every own step takes one session closer to its answer**, and no other farther from it. -/
theorem CoreInv.load_step (h : CoreInv cfg st) (hs : Step cfg st a st') (ha : a.own = true) :
    ∃ i x, loads st' = Function.update (loads st) i x ∧ x < loads st i := by
  -- a session moves and the proxies stay
  have move : ∀ {i : Nat} {s : Session} {ph : Phase}, st'.sessions = Function.update st.sessions i s →
      st'.proxies = st.proxies → (st.sessions i).phase = ph → s.phase.load st.proxies < ph.load st.proxies →
      ∃ i x, loads st' = Function.update (loads st) i x ∧ x < loads st i := by
    intro i s ph hu hp hph hlt
    refine ⟨i, s.phase.load st.proxies, ?_, by unfold loads; rw [hph]; exact hlt⟩
    rw [loads_update hu (fun j _ => by rw [hp]; rfl), hp]
  -- a session starts a proxy: the others wait for older ones
  have start : ∀ {i : Nat} {s : Session} {f : Option Str} {p : UpstreamProxy},
      st'.sessions = Function.update st.sessions i s → st'.proxies = st.proxies ++ [p] → p.left = 4 →
      s.phase = .proxying st.proxies.length f → 9 ≤ loads st i →
      ∃ i x, loads st' = Function.update (loads st) i x ∧ x < loads st i := by
    intro i s f p hu hp hleft hs hge
    refine ⟨i, 8, ?_, by omega⟩
    rw [loads_update hu, hs]
    · simp [Phase.load, hp, hleft]
    · intro j _
      unfold loads
      cases hj : (st.sessions j).phase with
      | proxying id f =>
        obtain ⟨q, hq, -⟩ := h.proxies.proxying j id f hj
        simp only [Phase.load, hp]
        rw [List.getElem?_append_left (List.getElem?_eq_some_iff.1 hq).1]
      | _ => rfl
  -- a proxy moves, and its session with it
  have proxy : ∀ {id : Nat} {p q : UpstreamProxy} {event : ProxyEvent} {s : Session}, st.proxies[id]? = some p →
      event.op ∈ p.outstanding → st'.sessions = Function.update st.sessions p.fetch.handler.session s →
      st'.proxies = st.proxies.set id q → s.phase.load st'.proxies < 4 + event.op.left →
      ∃ i x, loads st' = Function.update (loads st) i x ∧ x < loads st i := by
    intro id p q event s hp hop hu hps hlt
    obtain ⟨-, hout, -, hph⟩ := h.proxies.event hp hop
    refine ⟨p.fetch.handler.session, s.phase.load st'.proxies, loads_update hu ?_, ?_⟩
    · intro j hne
      unfold loads
      cases hj : (st.sessions j).phase with
      | proxying id' f =>
        have hid : id ≠ id' := by
          rintro rfl
          obtain ⟨p', hp', -, hi, -⟩ := h.proxies.proxying j id f hj
          rw [hp] at hp'; cases hp'
          exact hne hi.symm
        simp only [Phase.load, hps]
        rw [List.getElem?_set_ne hid]
      | _ => rfl
    · unfold loads
      rw [hph]
      simpa [Phase.load, hp, UpstreamProxy.left, hout] using hlt
  cases hs with
  | tick | accept | readError | readLocal | readCacheable | readOther | health => cases ha
  | hit i _ _ hph | miss i _ hph | missAlone i _ hph | lead i _ hph | wait i _ _ hph | leadUnavailable i _ hph
  | leadThrow i _ _ _ hph | directUnavailable i hph | directThrow i _ _ hph | store i _ _ hph | release i _ _ hph
  | respond i _ hph | writtenNext i _ hph | writtenLast i _ _ _ hph =>
    exact move (i := i) rfl rfl hph (by simp [Phase.load])
  | callback pre post w reply _ hp =>
    obtain ⟨k, hk⟩ := h.callback_waiting hp
    exact move (i := w) rfl rfl hk (by simp [Phase.load])
  | leadFetch i key u p hph _ hrun =>
    obtain rfl := UpstreamProxy.run_ok _ _ _ hrun
    exact start (i := i) rfl rfl rfl rfl (by simp [loads, hph, Phase.load])
  | directFetch i u p hph _ hrun =>
    obtain rfl := UpstreamProxy.run_ok _ _ _ hrun
    exact start (i := i) rfl rfl rfl rfl (by simp [loads, hph, Phase.load])
  | proxyStep id p q event _ hp hop hh =>
    obtain ⟨hc, hout, hch, hph⟩ := h.proxies.event hp hop
    obtain ⟨op, d, hnext, -, rfl⟩ := UpstreamProxy.handle_starts cfg.beast (p := withoutOp p event) hc hch hh
    refine proxy hp hop (s := st.sessions p.fetch.handler.session) (Function.update_eq_self _ _).symm rfl ?_
    have hlen := (List.getElem?_eq_some_iff.1 hp).1
    have hleft := ProxyOp.left_next hnext
    rw [hph]
    simp only [Phase.load, List.getElem?_set_self hlen, Option.elim_some]
    show 4 + op.left < 4 + event.op.left
    omega
  | proxyThrow id p event e _ hp hop =>
    obtain ⟨-, hout, -, hph⟩ := h.proxies.event hp hop
    refine proxy hp hop (s := st.sessions p.fetch.handler.session) (Function.update_eq_self _ _).symm rfl ?_
    have hlen := (List.getElem?_eq_some_iff.1 hp).1
    have hpos := event.op.left_pos
    rw [hph]
    simp only [Phase.load, List.getElem?_set_self hlen, Option.elim_some, withoutOp, hout, List.erase_cons_head]
    show 4 + 0 < 4 + event.op.left
    omega
  | proxyFlight id p q event i key r _ hp hop hh =>
    obtain ⟨hfetch, -⟩ := h.proxies.finished hp hop hh
    refine proxy hp hop (by rw [hfetch]; rfl) rfl ?_
    have hle := load_flightPhase (st.proxies.set id q) key ⟨r, .proxy id⟩ true
    have hpos := event.op.left_pos
    show (flightPhase key ⟨r, .proxy id⟩ true).load (st.proxies.set id q) < _
    omega
  | proxyDirect id p q event i r _ hp hop hh =>
    obtain ⟨hfetch, -⟩ := h.proxies.finished hp hop hh
    refine proxy hp hop (by rw [hfetch]; rfl) rfl ?_
    have hpos := event.op.left_pos
    show 2 < _
    omega

/-! ## The own steps come to an end -/

/-- Only finitely many sessions were ever accepted. -/
theorem Reachable.accepted_list (h : Reachable cfg st) : ∃ l : List Nat, ∀ i, i ∉ l → (st.sessions i).phase = .unaccepted := by
  refine h.invWith (I := fun st => ∃ l : List Nat, ∀ i, i ∉ l → (st.sessions i).phase = .unaccepted) (J := CoreInv cfg)
    (fun _ hr => Reachable.core hr) ⟨[], fun _ _ => rfl⟩ ?_
  rintro s a s' hc ⟨l, hl⟩ - hs
  have hstep := step_sound a hs
  cases a with
  | accept i =>
    refine ⟨i :: l, fun j hj => ?_⟩
    rw [List.mem_cons, not_or] at hj
    exact hc.unaccepted_step hstep (hl j hj.2) (fun e => hj.1 (Action.accept.inj e).symm)
  | _ => exact ⟨l, fun j hj => hc.unaccepted_step hstep (hl j hj) nofun⟩

/-- What the sessions are away from their answers, all together. -/
theorem Reachable.weighs (h : Reachable cfg st) : ∃ n, Lts.Weighs (loads st) n := by
  obtain ⟨l, hl⟩ := Reachable.accepted_list h
  refine Lts.weighs_of_support l (fun i hi => ?_)
  unfold loads
  rw [hl i hi]
  rfl

/-- The clock, the health flags, a new connection and the end of an idle one leave every session as far away. -/
theorem loads_environment (hs : Step cfg st a st') (ha : a.own = false) (hnew : a.asks = false) :
    loads st' = loads st := by
  have idle : ∀ {i : Nat} {s : Session} {ph : Phase}, st'.sessions = Function.update st.sessions i s →
      st'.proxies = st.proxies → (st.sessions i).phase = ph → s.phase.load st.proxies = 0 → ph.load st.proxies = 0 →
      loads st' = loads st := by
    intro i s ph hu hp hph hafter hbefore
    rw [loads_update hu (fun j _ => by rw [hp]; rfl), hp, hafter, Function.update_eq_self_iff]
    unfold loads
    rw [hph, hbefore]
  cases hs with
  | tick | health => rfl
  | accept i _ hph | readError i _ _ hph => exact idle (i := i) rfl rfl hph rfl rfl
  | readLocal | readCacheable | readOther => cases hnew
  | _ => cases ha

/-- **The server's own steps come to an end**: from any state of any run, and however the handlers interleave, whatever
the upstreams answer and whatever the clock, the health flags and new connections do meanwhile, at most eleven of them
follow for each session that is busy, unless a new request is read. -/
theorem Reachable.own_steps_le (h : Reachable cfg st) :
    ∃ n, Lts.Tallied (fun s : Session => s.phase.busy) st.sessions n ∧
      ∀ as st', (∀ a ∈ as, Action.asks a = false) → Lts.run (step cfg) st as = some st' →
        as.countP Action.own ≤ 11 * n := by
  obtain ⟨w, hw⟩ := Reachable.weighs h
  obtain ⟨n, ⟨S, hS, hn⟩, hle⟩ := hw.tallied (fun i => Phase.load_le _ _)
  refine ⟨n, ⟨S, fun i => ?_, hn⟩, fun as st' ha hrun => ?_⟩
  · rw [hS, decide_eq_true_eq]
    exact Phase.load_pos_iff _ _
  · have hlen : as.countP Action.own ≤ w := Lts.run_countP_le (I := CoreInv cfg)
      (P := fun a : Action => a.asks = false) (R := fun st m => Lts.Weighs (loads st) m)
      (fun s a s' hc hs => hc.step (step_sound a hs))
      (fun s a s' m hc ha hs hm => by
        cases hown : a.own with
        | true =>
          obtain ⟨i, x, hu, hlt⟩ := hc.load_step (step_sound a hs) hown
          obtain ⟨k, hk, hsum⟩ := hm.update hu
          exact ⟨k, hk, by simp only [if_true]; omega⟩
        | false =>
          refine ⟨m, ?_, Nat.le_refl m⟩
          rw [loads_environment (step_sound a hs) hown ha]
          exact hm)
      as (Reachable.core h) ha hrun hw
    omega

/-- Two clients ask for the same target, one fetch is under way. -/
theorem own_steps_le_coldMisses : ∃ st, Reachable sampleConfig st ∧ (st.sessions 1).phase = .waiting "/x".toList ∧
    ∃ n, Lts.Tallied (fun s : Session => s.phase.busy) st.sessions n ∧
      ∀ as st', (∀ a ∈ as, Action.asks a = false) → Lts.run (step sampleConfig) st as = some st' →
        as.countP Action.own ≤ 11 * n := by
  obtain ⟨st, hr, hf⟩ := Lts.exists_reach (step sampleConfig) (fun _ _ => true) (init sampleConfig)
    (coldMisses (getOf "/x".toList []) (getOf "/x".toList []))
    (fun st => decide ((st.sessions 1).phase = .waiting "/x".toList)) (by decide +kernel)
  exact ⟨st, hr.any, of_decide_eq_true hf, Reachable.own_steps_le hr.any⟩

/-! ## Where they end -/

/-- Every connection waits for a request or is closed, and nothing is left of any request but its one answer. -/
structure AtRest (st : State) : Prop where
  sessions : ∀ i, (st.sessions i).phase = .unaccepted ∨ (st.sessions i).phase = .reading ∨ (st.sessions i).phase = .closed
  flights : st.coalescer.size = 0
  posted : st.posted = []
  proxies : ∀ p ∈ st.proxies, p.completed = true ∧ p.outstanding = []
  answered : ∀ t i n request, ⟨t, .received i n request⟩ ∈ st.log → writes st i n = 1

/-- A proxy that has not completed has a step. -/
theorem CoreInv.proxy_moves (h : CoreInv cfg st) (ht : st.stopped = false) {id : Nat} {p : UpstreamProxy}
    (hp : st.proxies[id]? = some p) (hc : p.completed = false) : ∃ a, Action.own a = true ∧ Server.step cfg st a ≠ none := by
  obtain ⟨-, -, -, hout⟩ := h.proxies.running id p hp hc
  obtain ⟨op, ho⟩ := List.length_eq_one_iff.1 (hout ht)
  refine ⟨.proxy id op.failure, rfl, ?_⟩
  have hmem : op.failure.op ∈ p.outstanding := by rw [ho, ProxyOp.op_failure]; exact List.mem_cons_self
  simp only [Server.step, ht, hp, if_pos hmem]
  exact Option.some_ne_none _

/-- A session in the middle of its work, other than waiting for a flight, has a step of its own. -/
theorem CoreInv.session_moves (h : CoreInv cfg st) (ht : st.stopped = false) {i : Nat}
    (hb : (st.sessions i).phase.busy = true) (hw : ∀ key, (st.sessions i).phase ≠ .waiting key) :
    ∃ a, Action.own a = true ∧ Server.step cfg st a ≠ none := by
  cases hph : (st.sessions i).phase with
  | unaccepted | reading | closed | failed => rw [hph] at hb; cases hb
  | waiting key => exact absurd hph (hw key)
  | lookup key => exact ⟨.get i, rfl, by simp [Server.step, hph]⟩
  | joining key => exact ⟨.join i, rfl, by simp [Server.step, hph]⟩
  | leading key => exact ⟨.select i, rfl, by simp [Server.step, hph]⟩
  | selecting => exact ⟨.select i, rfl, by simp [Server.step, hph]⟩
  | storing key reply => exact ⟨.put i, rfl, by simp [Server.step, hph]⟩
  | completing key reply => exact ⟨.complete i, rfl, by simp [Server.step, hph]⟩
  | responding reply => exact ⟨.respond i, rfl, by simp [Server.step, hph]⟩
  | writing c => exact ⟨.written i true, rfl, by simp [Server.step, ht, hph]⟩
  | proxying id f =>
    obtain ⟨p, hp, hc, -⟩ := h.proxies.proxying i id f hph
    exact h.proxy_moves ht hp hc

/-- **A session that waits for a flight is not forgotten**: its callback is posted, or the leader of its flight has a
step. -/
theorem CoreInv.waiting_moves (h : CoreInv cfg st) (ht : st.stopped = false) {i : Nat} {key : Str}
    (hw : (st.sessions i).phase = .waiting key) : ∃ a, Action.own a = true ∧ Server.step cfg st a ≠ none := by
  cases hp : st.posted with
  | cons x posted => exact ⟨.callback 0, rfl, by simp [Server.step, ht, hp]⟩
  | nil =>
    have honce := (h.flights.waits_once (show (flightView st).role i = .waits key by simp [flightView, hw, Phase.role])).1
    have hopen : (st.coalescer.waiters key).isSome = true := by
      cases hk : st.coalescer.waiters key with
      | some ws => rfl
      | none =>
        have hzero : ((flightView st).flights key).getD [] = [] := by simp [flightView, hk]
        have hnone : (flightView st).posted = [] := hp
        rw [hzero, hnone] at honce
        cases honce
    obtain ⟨ws, hws⟩ := Option.isSome_iff_exists.1 hopen
    obtain ⟨j, hj⟩ := h.flights.open_led key ws hws
    have hj : (st.sessions j).phase.role = .leads key := hj
    refine h.session_moves ht (i := j) ?_ (fun k hk => ?_)
    · cases hph : (st.sessions j).phase <;> rw [hph] at hj <;> first | rfl | cases hj
    · rw [hk] at hj; cases hj

/-- **A busy server has a step.** -/
theorem CoreInv.moves (h : CoreInv cfg st) (ht : st.stopped = false) {i : Nat} (hb : (st.sessions i).phase.busy = true) :
    ∃ a, Action.own a = true ∧ Server.step cfg st a ≠ none := by
  by_cases hw : ∃ key, (st.sessions i).phase = .waiting key
  · obtain ⟨key, hw⟩ := hw
    exact h.waiting_moves ht hw
  · exact h.session_moves ht hb (fun key hk => hw ⟨key, hk⟩)

theorem size_zero_of_waiters {c : RequestCoalescer Str Nat} (h : ∀ key, c.waiters key = none) : c.size = 0 := by
  unfold RequestCoalescer.size
  cases he : c.flights.entries with
  | nil => rfl
  | cons x rest =>
    have hmem : x.1 ∈ c.flights := AList.mem_keys.2 (by simp [AList.keys, List.keys, he])
    have hsome := AList.lookup_isSome.2 hmem
    rw [show c.flights.lookup x.1 = none from h x.1] at hsome
    cases hsome

/-- **The server is never stuck**: where no handler threw and none of its own steps is possible, every connection waits
for a request or is closed, and every request ever read was answered once. -/
theorem Reachable.at_rest_iff (h : Reachable cfg st) (ht : st.stopped = false) :
    (∀ a, Action.own a = true → step cfg st a = none) ↔ AtRest st := by
  have hc := Reachable.core h
  have hr := Reachable.requests h
  have hj := Reachable.joins h
  constructor
  · intro hstuck
    have hidle : ∀ i, (st.sessions i).phase.busy = false := by
      intro i
      by_contra hb
      obtain ⟨a, ha, hne⟩ := hc.moves ht (i := i) (by simpa using hb)
      exact hne (hstuck a ha)
    have hsess : ∀ i, (st.sessions i).phase = .unaccepted ∨ (st.sessions i).phase = .reading ∨
        (st.sessions i).phase = .closed := by
      intro i
      have hb := hidle i
      have hnf : (st.sessions i).phase ≠ .failed := fun hf => by rw [hj.failed i hf] at ht; cases ht
      cases hph : (st.sessions i).phase with
      | unaccepted => exact .inl rfl
      | reading => exact .inr (.inl rfl)
      | closed => exact .inr (.inr rfl)
      | failed => exact absurd hph hnf
      | _ => rw [hph] at hb; cases hb
    refine ⟨hsess, size_zero_of_waiters (fun key => ?_), ?_, fun p hp => ?_, fun t i n request hm => ?_⟩
    · cases hk : st.coalescer.waiters key with
      | none => rfl
      | some ws =>
        obtain ⟨i, hi⟩ := hc.flights.open_led key ws hk
        have hi : (st.sessions i).phase.role = .leads key := hi
        rcases hsess i with hph | hph | hph <;> rw [hph] at hi <;> cases hi
    · cases hp : st.posted with
      | nil => rfl
      | cons x posted => exact absurd (hstuck (.callback 0) rfl) (by simp [step, ht, hp])
    · obtain ⟨id, hget⟩ := List.mem_iff_getElem?.1 hp
      cases hd : p.completed with
      | true => exact ⟨rfl, hc.proxies.done id p hget hd⟩
      | false =>
        obtain ⟨a, ha, hne⟩ := hc.proxy_moves ht hget hd
        exact absurd (hstuck a ha) hne
    · obtain ⟨h0, hle⟩ := hr.numbered t i n request hm
      refine hr.answered i n h0 hle (fun _ => ?_)
      rcases hsess i with hph | hph | hph <;> rw [hph] <;> rfl
  · intro hrest a ha
    have hposted := hrest.posted
    cases a with
    | tick | accept | read | health => cases ha
    | callback index => simp [step, ht, hposted]
    | proxy id event =>
      cases hp : st.proxies[id]? with
      | none => simp [step, ht, hp]
      | some p => simp [step, ht, hp, (hrest.proxies p (List.mem_of_getElem? hp)).2]
    | get i | join i | select i | put i | complete i | respond i | written i ok =>
      rcases hrest.sessions i with hph | hph | hph <;> simp [step, hph, ht]

/-- One client waits for the other's fetch: the fetch has a step. -/
theorem at_rest_iff_coldMisses : ∃ st, Reachable sampleConfig st ∧ st.stopped = false ∧
    (st.sessions 1).phase = .waiting "/x".toList ∧ ¬ AtRest st := by
  obtain ⟨st, hr, hf⟩ := Lts.exists_reach (step sampleConfig) (fun _ _ => true) (init sampleConfig)
    (coldMisses (getOf "/x".toList []) (getOf "/x".toList []))
    (fun st => decide (st.stopped = false ∧ (st.sessions 1).phase = .waiting "/x".toList) &&
      (step sampleConfig st (.proxy 0 (.resolved none))).isSome) (by decide +kernel)
  obtain ⟨hstate, hstep⟩ := Bool.and_eq_true_iff.1 hf
  obtain ⟨ht, hw⟩ := of_decide_eq_true hstate
  refine ⟨st, hr.any, ht, hw, fun hrest => ?_⟩
  rw [(Reachable.at_rest_iff hr.any ht).2 hrest (.proxy 0 (.resolved none)) rfl] at hstep
  cases hstep

end Server
end EventEdge
