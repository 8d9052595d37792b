import EventEdge.ServerProxies
import EventEdge.SingleFlight
/-!
# ServerFlights — the server runs the single-flight protocol

`flightView` forgets everything of a state but who leads, who waits, the open flights and the posted callbacks.  Every
step of the server leaves the view alone or is a step of `SingleFlight` (`view_step`), so the protocol's invariant
holds of every reachable state.  It is carried together with what it needs of the rest: which proxy belongs to which
session (`ProxyInv`) and which requests take which path (`PathOk`).
-/
namespace EventEdge
namespace Server

/-! ## The view -/

/-- What a phase is to the protocol. -/
def Phase.role : Phase → SingleFlight.Role Str
  | .leading key | .storing key _ | .completing key _ | .proxying _ (some key) => .leads key
  | .waiting key => .waits key
  | _ => .idle

def flightView (st : State) : SingleFlight.State Nat Str Reply :=
  ⟨fun i => (st.sessions i).phase.role, st.coalescer.waiters, st.posted⟩

theorem roles_update (f : Nat → Session) (i : Nat) (s : Session) :
    (fun j => (Function.update f i s j).phase.role) = Function.update (fun j => (f j).phase.role) i s.phase.role := by
  funext j
  by_cases hj : j = i
  · subst hj; simp
  · simp [hj]

theorem roles_update_same (f : Nat → Session) (i : Nat) (s : Session) (h : s.phase.role = (f i).phase.role) :
    (fun j => (Function.update f i s j).phase.role) = fun j => (f j).phase.role := by
  rw [roles_update]
  exact Function.update_eq_self_iff.2 h

/-! ## The invariant -/

/-- **Which requests take which path**: the cacheable one is taken under the request's own target. -/
def PathOk (cfg : Config) (s : Session) : Prop :=
  match s.phase with
  | .lookup key => key = s.request.target ∧ cacheableRequest s.request = true ∧ isLocalRequest s.request = false
  | .joining key | .leading key | .waiting key | .storing key _ | .completing key _ | .proxying _ (some key) =>
    key = s.request.target ∧ cacheableRequest s.request = true ∧ isLocalRequest s.request = false ∧ cfg.hasCoalescer = true
  | .selecting | .proxying _ none => cacheableRequest s.request = false ∧ isLocalRequest s.request = false
  | _ => True

structure CoreInv (cfg : Config) (st : State) : Prop where
  proxies : ProxyInv st
  path : ∀ i, PathOk cfg (st.sessions i)
  flights : SingleFlight.Inv (flightView st)

variable {cfg : Config} {st st' : State}

theorem pathOk_update (h : ∀ i, PathOk cfg (st.sessions i)) {i : Nat} {s : Session} (hs : PathOk cfg s) (j : Nat) :
    PathOk cfg (Function.update st.sessions i s j) :=
  Lts.update_all (Q := fun _ s => PathOk cfg s) rfl hs h j

theorem pathOk_flightPhase {s : Session} {key : Str} (reply : Reply) (c : Bool) (h : key = s.request.target ∧
    cacheableRequest s.request = true ∧ isLocalRequest s.request = false ∧ cfg.hasCoalescer = true) :
    PathOk cfg { s with phase := flightPhase key reply c } := by
  unfold flightPhase
  split <;> exact h

/-- **Every step keeps the requests on their paths.** -/
theorem CoreInv.path_step {a : Action} (h : CoreInv cfg st) (hs : Step cfg st a st') (j : Nat) :
    PathOk cfg (st'.sessions j) := by
  cases hs with
  | tick _ _ | proxyStep _ _ _ _ _ _ _ _ | proxyThrow _ _ _ _ _ _ _ _ | health _ _ _ _ _ _ => exact h.path j
  | accept i | readError i | readLocal i | hit i | missAlone i | leadThrow i | directUnavailable i | directThrow i
  | release i | respond i | writtenNext i | writtenLast i | callback pre post i | proxyDirect id p q ev i =>
    refine pathOk_update h.path ?_ j
    exact trivial
  | readCacheable i request _ _ hl hc =>
    refine pathOk_update h.path ?_ j
    exact ⟨rfl, hc, hl⟩
  | readOther i request _ _ hl hc =>
    refine pathOk_update h.path ?_ j
    exact ⟨hc, hl⟩
  | miss i key hph _ hco =>
    have hi := h.path i
    simp only [PathOk, hph] at hi
    refine pathOk_update h.path ?_ j
    exact ⟨hi.1, hi.2.1, hi.2.2, hco⟩
  | lead i key hph | wait i key ws hph | leadUnavailable i key hph | leadFetch i key u p hph | directFetch i u p hph
  | store i key reply hph =>
    have hi := h.path i
    simp only [PathOk, hph] at hi
    refine pathOk_update h.path ?_ j
    exact hi
  | proxyFlight id p q event i key r _ hp hop hh =>
    have hi := h.path i
    rw [PathOk, h.proxies.flight_phase hp hop hh] at hi
    refine pathOk_update h.path ?_ j
    exact (pathOk_flightPhase _ true hi)

/-! ## The simulation -/

theorem view_same (hs : ∀ j, (st'.sessions j).phase.role = (st.sessions j).phase.role)
    (hc : st'.coalescer = st.coalescer) (hp : st'.posted = st.posted) : flightView st' = flightView st := by
  unfold flightView
  rw [hc, hp, funext hs]

/-- A session moves without changing its role. -/
theorem view_move {i : Nat} {s : Session} (hs : st'.sessions = Function.update st.sessions i s)
    (hr : s.phase.role = (st.sessions i).phase.role) (hc : st'.coalescer = st.coalescer)
    (hp : st'.posted = st.posted) : flightView st' = flightView st := by
  refine view_same (fun j => ?_) hc hp
  rw [hs]
  exact congrFun (roles_update_same st.sessions i s hr) j

theorem role_flightPhase (key : Str) (reply : Reply) (c : Bool) : (flightPhase key reply c).role = .leads key := by
  unfold flightPhase
  split <;> rfl

theorem flightPhase_ne {key : Str} {p : Phase} (h : p.role ≠ .leads key) (reply : Reply) (c : Bool) :
    flightPhase key reply c ≠ p :=
  fun e => h (by rw [← e]; exact role_flightPhase key reply c)

theorem get_of_cacheable {request : HttpRequest} (h : cacheableRequest request = true) : request.method = .get := by
  unfold cacheableRequest at h
  simp only [Bool.and_eq_true, decide_eq_true_eq] at h
  exact h.1.1

/-- The leader's request is a GET, which `run` does not throw on. -/
theorem CoreInv.leader_runs (h : CoreInv cfg st) {i : Nat} {key : Str} (hph : (st.sessions i).phase = .leading key)
    (u : UpstreamEndpoint) : ¬ ∃ e, (freshProxy cfg st i u (.flight i key)).run cfg.beast = .error e := by
  intro he
  have hi := h.path i
  simp only [PathOk, hph] at hi
  have hm := ((UpstreamProxy.run_error_iff cfg.beast _).1 he).1
  rw [show (freshProxy cfg st i u (.flight i key)).request = (st.sessions i).request from rfl,
    get_of_cacheable hi.2.1] at hm
  cases hm

/-- **Every step of the server is a step of the single-flight protocol, or none.** -/
theorem CoreInv.view_step {a : Action} (h : CoreInv cfg st) (hs : Step cfg st a st') :
    flightView st' = flightView st ∨ SingleFlight.Step (flightView st) (flightView st') := by
  cases hs with
  | tick _ _ | proxyStep _ _ _ _ _ _ _ _ | proxyThrow _ _ _ _ _ _ _ _ | health _ _ _ _ _ _ =>
    exact .inl (view_same (fun _ => rfl) rfl rfl)
  | accept i _ hph | readError i _ _ hph | readLocal i _ _ _ hph | readCacheable i _ _ hph | readOther i _ _ hph
  | hit i _ _ hph | miss i _ hph | missAlone i _ hph | leadUnavailable i _ hph | leadFetch i _ _ _ hph
  | directUnavailable i hph | directFetch i _ _ hph | directThrow i _ _ hph | store i _ _ hph | respond i _ hph
  | writtenNext i _ hph | writtenLast i _ _ _ hph =>
    exact .inl (view_move (i := i) rfl (by rw [hph]; rfl) rfl rfl)
  | lead i key hph hw =>
    refine .inr ?_
    have hv := SingleFlight.Step.lead (s := flightView st) i key (by simp [flightView, hph, Phase.role]) hw
    unfold flightView at hv ⊢
    rw [← (st.coalescer.joinOrStart_none key i hw).2] at hv
    simp only [atPhase, roles_update]
    exact hv
  | wait i key ws hph hw =>
    refine .inr ?_
    have hv := SingleFlight.Step.join (s := flightView st) i key ws (by simp [flightView, hph, Phase.role]) hw
    unfold flightView at hv ⊢
    rw [← (st.coalescer.joinOrStart_some key i hw).2] at hv
    simp only [atPhase, roles_update]
    exact hv
  | leadThrow i key u e hph _ hrun => exact absurd ⟨e, hrun⟩ (h.leader_runs hph u)
  | release i key reply hph =>
    refine .inr ?_
    have hi := h.path i
    simp only [PathOk, hph] at hi
    obtain ⟨ws, hws⟩ := h.flights.led_open i key (by simp [flightView, hph, Phase.role])
    have hv := SingleFlight.Step.complete (s := flightView st) i key ws reply (by simp [flightView, hph, Phase.role]) hws
    have htake : takeWaiters cfg st key = st.coalescer.complete key := by rw [takeWaiters, if_pos hi.2.2.2]
    obtain ⟨h1, h2⟩ := st.coalescer.complete_waiters key
    have hws' : st.coalescer.waiters key = some ws := hws
    rw [hws'] at h1
    unfold flightView at hv ⊢
    rw [← h2] at hv
    simp only [atPhase, roles_update, htake, h1, Option.getD_some]
    exact hv
  | callback pre post w reply _ hp =>
    refine .inr ?_
    have hv := SingleFlight.Step.deliver (s := flightView st) pre w reply post hp
    unfold flightView at hv ⊢
    simp only [atPhase, roles_update]
    exact hv
  | proxyFlight id p q event i key r _ hp hop hh =>
    refine .inl (view_move (i := i) rfl ?_ rfl rfl)
    rw [h.proxies.flight_phase hp hop hh]
    exact role_flightPhase key _ true
  | proxyDirect id p q event i r _ hp hop hh =>
    refine .inl (view_move (i := i) rfl ?_ rfl rfl)
    rw [h.proxies.direct_phase hp hop hh]
    rfl

theorem Phase.waiting_of_role {p : Phase} {k : Str} (h : p.role = .waits k) : p = .waiting k := by
  unfold Phase.role at h
  split at h
  all_goals first | cases h; rfl | cases h

/-- A key has one leader, so who leads it in two phases leads it in one. -/
theorem CoreInv.leader_phase (h : CoreInv cfg st) {i j : Nat} {key : Str} {p q : Phase}
    (hi : (st.sessions i).phase = p) (hj : (st.sessions j).phase = q) (hp : p.role = .leads key)
    (hq : q.role = .leads key) : p = q := by
  have hij := h.flights.one_leader i j key (show (st.sessions i).phase.role = _ by rw [hi]; exact hp)
    (show (st.sessions j).phase.role = _ by rw [hj]; exact hq)
  rw [← hi, ← hj, hij]

theorem CoreInv.posted_waiting (h : CoreInv cfg st) {w : Nat} {r : Reply} (hm : (w, r) ∈ st.posted) :
    ∃ k, (st.sessions w).phase = .waiting k := by
  obtain ⟨k, hk⟩ := h.flights.posted_waits w (List.mem_map.2 ⟨(w, r), hm, rfl⟩)
  exact ⟨k, Phase.waiting_of_role hk⟩

theorem CoreInv.callback_waiting (h : CoreInv cfg st) {pre post : List (Nat × Reply)} {w : Nat} {r : Reply}
    (hp : st.posted = pre ++ (w, r) :: post) : ∃ k, (st.sessions w).phase = .waiting k := by
  apply h.posted_waiting (r := r)
  rw [hp]
  simp

/-- Whoever `complete` takes out waits for that key. -/
theorem CoreInv.taken_waiting (h : CoreInv cfg st) {key : Str} {w : Nat} (hm : w ∈ (takeWaiters cfg st key).1) :
    (st.sessions w).phase = .waiting key := by
  unfold takeWaiters at hm
  split at hm
  · rw [(st.coalescer.complete_waiters key).1] at hm
    cases hw : st.coalescer.waiters key with
    | none => rw [hw] at hm; cases hm
    | some ws =>
      rw [hw] at hm
      exact Phase.waiting_of_role (h.flights.queued_waits key ws hw w hm)
  · cases hm

theorem coreInv_init : CoreInv cfg (init cfg) :=
  ⟨proxyInv_init, fun _ => trivial, SingleFlight.Inv.init⟩

theorem CoreInv.step {a : Action} (h : CoreInv cfg st) (hs : Step cfg st a st') : CoreInv cfg st' := by
  refine ⟨h.proxies.step (fun w r hm => h.posted_waiting hm) hs, h.path_step hs, ?_⟩
  rcases h.view_step hs with hv | hv
  · rw [hv]; exact h.flights
  · exact h.flights.step hv

/-- **Every reachable state runs the protocol.** -/
theorem Reachable.core (h : Reachable cfg st) : CoreInv cfg st :=
  h.inv coreInv_init (fun _ a _ hi _ hs => hi.step (step_sound a hs))

/-! ## Between the handlers -/

/-- The session is in none of its handlers. -/
def Phase.between : Phase → Bool
  | .unaccepted | .reading | .waiting _ | .proxying _ _ | .writing _ | .closed => true
  | _ => false

/-- A session is accepted before it does anything. -/
theorem CoreInv.unaccepted_step {a : Action} (h : CoreInv cfg st) (hs : Step cfg st a st') {j : Nat}
    (hj : (st.sessions j).phase = .unaccepted) (ha : a ≠ .accept j) : (st'.sessions j).phase = .unaccepted := by
  have other : ∀ {i : Nat} {s : Session}, st'.sessions = Function.update st.sessions i s →
      (st.sessions i).phase ≠ .unaccepted → (st'.sessions j).phase = .unaccepted := by
    intro i s hu hi
    rcases Lts.update_cases hu j with ⟨rfl, -⟩ | ⟨-, hsame⟩
    · exact absurd hj hi
    · rw [hsame]; exact hj
  cases hs with
  | tick _ _ | proxyStep _ _ _ _ _ _ _ _ | proxyThrow _ _ _ _ _ _ _ _ | health _ _ _ _ _ _ => exact hj
  | accept i =>
    have hne : j ≠ i := fun e => ha (by rw [e])
    show (Function.update st.sessions i _ j).phase = .unaccepted
    rw [Function.update_of_ne hne]
    exact hj
  | readError i _ _ hph | readLocal i _ _ _ hph | readCacheable i _ _ hph | readOther i _ _ hph | hit i _ _ hph
  | miss i _ hph | missAlone i _ hph | lead i _ hph | wait i _ _ hph | leadUnavailable i _ hph | leadFetch i _ _ _ hph
  | leadThrow i _ _ _ hph | directUnavailable i hph | directFetch i _ _ hph | directThrow i _ _ hph | store i _ _ hph
  | release i _ _ hph | respond i _ hph | writtenNext i _ hph | writtenLast i _ _ _ hph =>
    exact other (i := i) rfl (by rw [hph]; exact Phase.noConfusion)
  | callback pre post w reply _ hp =>
    obtain ⟨k, hk⟩ := h.callback_waiting hp
    exact other (i := w) rfl (by rw [hk]; exact Phase.noConfusion)
  | proxyFlight id p q event i key r _ hp hop hh =>
    exact other (i := i) rfl (by rw [h.proxies.flight_phase hp hop hh]; exact Phase.noConfusion)
  | proxyDirect id p q event i r _ hp hop hh =>
    exact other (i := i) rfl (by rw [h.proxies.direct_phase hp hop hh]; exact Phase.noConfusion)

theorem unaccepted {P : State → Action → Prop} (h : Lts.Reach (Server.step cfg) P (init cfg) st) {j : Nat}
    (hj : ∀ s, ¬ P s (.accept j)) : (st.sessions j).phase = .unaccepted := by
  refine h.invWith (I := fun st => (st.sessions j).phase = .unaccepted) (J := CoreInv cfg)
    (fun _ hr => Reachable.core hr) rfl (fun s a _ hc hi hP hs => hc.unaccepted_step (step_sound a hs) hi ?_)
  rintro rfl
  exact hj s hP

theorem unaccepted_of_run {as : List Action} (h : Lts.run (Server.step cfg) (init cfg) as = some st) {j : Nat}
    (hj : .accept j ∉ as) : (st.sessions j).phase = .unaccepted :=
  unaccepted (Lts.reach_of_run (P := fun _ a => a ∈ as) as (fun _ ha _ => ha) (Lts.Reach.refl _) h) (fun _ => hj)

end Server
end EventEdge
