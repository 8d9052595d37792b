import EventEdge.ServerRequests
import EventEdge.ReferenceBeast
/-!
# ServerWaiters — no flight is forgotten, no waiter is lost

What the log says about `join_or_start` and where the sessions are agree (`JoinInv`): whoever became the leader of a
flight for the request it works on still leads it or is about to answer, and whoever became a waiter still waits or
runs its callback.  With the single-flight invariant this accounts for every open flight and every waiter at any time
no handler has thrown (`Reachable.accounted`).
-/
namespace EventEdge
namespace Server

open RequestCoalescer (Role)

/-! ## Joined, by the log -/

/-- Where a session may be once `join_or_start` gave it a role, until it has answered. -/
def JoinedOk (key : Str) (role : Role) (phase : Phase) : Prop :=
  (∃ r, phase = .responding r) ∨
    match role with
    | .leader => phase.role = .leads key
    | .waiter => phase = .waiting key

structure JoinInv (st : State) : Prop where
  joined : ∀ t i n key role, ⟨t, .joined i n key role⟩ ∈ st.log → 0 < n ∧ n ≤ (st.sessions i).number ∧
    (n = (st.sessions i).number → (st.sessions i).phase.pending = true → JoinedOk key role (st.sessions i).phase)
  failed : ∀ i, (st.sessions i).phase = .failed → st.stopped = true

variable {cfg : Config} {st st' : State}

theorem JoinedOk.of_leads {key k : Str} {role : Role} {p q : Phase} (hp : p.role = .leads k) (hq : q.role = .leads k)
    (h : JoinedOk key role p) : JoinedOk key role q := by
  rcases h with ⟨r, rfl⟩ | h
  · cases hp
  · cases role with
    | leader => exact .inr (by rw [hq, ← hp]; exact h)
    | waiter => rw [show p = .waiting key from h] at hp; cases hp

theorem not_joinedOk {key : Str} {role : Role} {p : Phase} (hp : p.role = .idle) (hr : ∀ r, p ≠ .responding r) :
    ¬ JoinedOk key role p := by
  rintro (⟨r, hpr⟩ | h)
  · exact hr r hpr
  · cases role with
    | leader => rw [show p.role = .leads key from h] at hp; cases hp
    | waiter => rw [show p = .waiting key from h] at hp; cases hp

theorem joinInv_init : JoinInv (init cfg) := by
  constructor
  · intro t i n key role h; cases h
  · intro i h; cases h

/-- A session moves on without joining. -/
theorem JoinInv.move (h : JoinInv st) {i : Nat} {s : Session} {l : List Logged}
    (hs : st'.sessions = Function.update st.sessions i s) (hl : st'.log = st.log ++ l)
    (hq : ∀ e ∈ l, ∀ j n key role, e.event ≠ .joined j n key role) (hn : (st.sessions i).number ≤ s.number)
    (ht : st.stopped = true → st'.stopped = true) (hf : s.phase = .failed → st'.stopped = true)
    (hok : s.number = (st.sessions i).number → s.phase.pending = true → (st.sessions i).phase.pending = true ∧
      ∀ key role, JoinedOk key role (st.sessions i).phase → JoinedOk key role s.phase) : JoinInv st' := by
  constructor
  · intro t j n key role hm
    rw [hl, List.mem_append] at hm
    rcases hm with hm | hm
    · obtain ⟨h0, hle, hjok⟩ := h.joined t j n key role hm
      rcases Lts.update_cases hs j with ⟨rfl, hj⟩ | ⟨-, hj⟩
      · rw [hj]
        refine ⟨h0, Nat.le_trans hle hn, fun hnum hp => ?_⟩
        -- the number has not moved, or the event would be of a later request
        have hsame : s.number = (st.sessions j).number := by omega
        obtain ⟨hpold, hkeep⟩ := hok hsame hp
        exact hkeep key role (hjok (hnum.trans hsame) hpold)
      · rw [hj]; exact ⟨h0, hle, hjok⟩
    · exact absurd rfl (hq _ hm j n key role)
  · intro j hp
    rcases Lts.update_cases hs j with ⟨rfl, hj⟩ | ⟨-, hj⟩
    · rw [hj] at hp; exact hf hp
    · rw [hj] at hp; exact ht (h.failed j hp)

theorem JoinInv.same (h : JoinInv st) (hs : st'.sessions = st.sessions) (hl : st'.log = st.log)
    (ht : st.stopped = true → st'.stopped = true) : JoinInv st' :=
  h.move (i := 0) (s := st.sessions 0) (l := []) (by rw [hs, Function.update_eq_self]) (by rw [hl, List.append_nil])
    nofun (Nat.le_refl _) ht (fun hf => ht (h.failed 0 hf)) (fun _ hp => ⟨hp, fun _ _ hj => hj⟩)

/-- A session joins. -/
theorem JoinInv.join (h : JoinInv st) (hr : RequestInv st) {i : Nat} {key : Str} {role : Role} {p : Phase}
    (hold : (st.sessions i).phase = .joining key) (hnew : JoinedOk key role p) (hp : p ≠ .failed)
    (hs : st'.sessions = atPhase st i p)
    (hl : st'.log = st.log ++ [⟨st.now, .joined i (st.sessions i).number key role⟩])
    (ht : st'.stopped = st.stopped) : JoinInv st' := by
  have hpend : (st.sessions i).phase.pending = true := by rw [hold]; rfl
  have hi : st'.sessions i = { st.sessions i with phase := p } := by rw [hs, atPhase, Function.update_self]
  constructor
  · intro t j n k ro hm
    rw [hl, List.mem_append, List.mem_singleton] at hm
    rcases hm with hm | hm
    · obtain ⟨h0, hle, hjok⟩ := h.joined t j n k ro hm
      by_cases hji : j = i
      · subst hji
        rw [hi]
        -- it had not joined for this request before
        refine ⟨h0, hle, fun hnum _ => absurd (hjok hnum hpend) ?_⟩
        rw [hold]
        exact not_joinedOk rfl (fun r e => by cases e)
      · rw [hs, atPhase, Function.update_of_ne hji]; exact ⟨h0, hle, hjok⟩
    · cases hm
      rw [hi]
      exact ⟨(hr.numbered _ _ _ _ (hr.current i hpend)).1, Nat.le_refl _, fun _ _ => hnew⟩
  · intro j hfail
    rcases Lts.update_cases hs j with ⟨rfl, hj⟩ | ⟨-, hj⟩
    · rw [hj] at hfail; exact absurd hfail hp
    · rw [hj] at hfail; rw [ht]; exact h.failed j hfail

theorem mem_singleton_not_joined {e : Logged} (he : ∀ j n key role, e.event ≠ .joined j n key role) :
    ∀ x ∈ [e], ∀ j n key role, x.event ≠ .joined j n key role := by
  intro x hx
  rw [List.mem_singleton] at hx
  rw [hx]; exact he

/-- **Every step keeps log and phases in agreement.** -/
theorem JoinInv.step {a : Action} (h : JoinInv st) (hc : CoreInv cfg st) (hr : RequestInv st)
    (hs : Step cfg st a st') : JoinInv st' := by
  cases hs with
  | tick _ _ | proxyStep _ _ _ _ _ _ _ _ | health _ _ _ _ _ _ => exact h.same rfl rfl (fun ht => ht)
  | proxyThrow _ _ _ _ _ _ _ _ => exact h.same rfl rfl (fun _ => rfl)
  | lead i key hph => exact h.join (p := .leading key) hr hph (.inr rfl) nofun rfl rfl rfl
  | wait i key ws hph => exact h.join (p := .waiting key) hr hph (.inr rfl) nofun rfl rfl rfl
  | accept i | readError i | writtenNext i | writtenLast i =>
    exact h.move (l := []) rfl (List.append_nil _).symm nofun (Nat.le_refl _) (fun ht => ht) nofun nofun
  | respond i =>
    exact h.move rfl rfl (mem_singleton_not_joined nofun) (Nat.le_refl _) (fun ht => ht) nofun nofun
  | leadThrow i | directThrow i =>
    exact h.move (l := []) rfl (List.append_nil _).symm nofun (Nat.le_refl _) (fun _ => rfl) (fun _ => rfl) nofun
  | readLocal i | readCacheable i | readOther i =>
    exact h.move rfl rfl (mem_singleton_not_joined nofun) (Nat.le_succ _) (fun ht => ht) nofun
      (fun hn => absurd hn (Nat.succ_ne_self _))
  | hit i _ _ hph | release i _ _ hph =>
    exact h.move rfl rfl (mem_singleton_not_joined nofun) (Nat.le_refl _) (fun ht => ht) nofun
      (fun _ _ => ⟨by rw [hph]; rfl, fun _ _ _ => .inl ⟨_, rfl⟩⟩)
  | missAlone i _ hph | directUnavailable i hph =>
    exact h.move (l := []) rfl (List.append_nil _).symm nofun (Nat.le_refl _) (fun ht => ht) nofun
      (fun _ _ => ⟨by rw [hph]; rfl, fun _ _ _ => .inl ⟨_, rfl⟩⟩)
  | miss i _ hph | directFetch i _ _ hph =>
    refine h.move (l := []) rfl (List.append_nil _).symm nofun (Nat.le_refl _) (fun ht => ht) nofun
      (fun _ _ => ⟨by rw [hph]; rfl, fun _ _ hj => absurd hj ?_⟩)
    rw [hph]
    exact not_joinedOk rfl nofun
  | leadUnavailable i key hph | leadFetch i key _ _ hph =>
    refine h.move (l := []) rfl (List.append_nil _).symm nofun (Nat.le_refl _) (fun ht => ht) nofun
      (fun _ _ => ⟨by rw [hph]; rfl, fun _ _ hj => hj.of_leads (k := key) ?_ rfl⟩)
    rw [hph]; rfl
  | store i key _ hph =>
    refine h.move rfl rfl (mem_singleton_not_joined nofun) (Nat.le_refl _) (fun ht => ht) nofun
      (fun _ _ => ⟨by rw [hph]; rfl, fun _ _ hj => hj.of_leads (k := key) ?_ rfl⟩)
    rw [hph]; rfl
  | callback pre post w reply _ hp =>
    obtain ⟨k, hk⟩ := hc.callback_waiting hp
    exact h.move (l := []) rfl (List.append_nil _).symm nofun (Nat.le_refl _) (fun ht => ht) nofun
      (fun _ _ => ⟨by rw [hk]; rfl, fun _ _ _ => .inl ⟨_, rfl⟩⟩)
  | proxyFlight id p q event i key r _ hp hop hh =>
    have hph := hc.proxies.flight_phase hp hop hh
    refine h.move rfl rfl (mem_singleton_not_joined nofun) (Nat.le_refl _) (fun ht => ht)
      (fun hf => absurd hf (flightPhase_ne (p := .failed) nofun _ true))
      (fun _ _ => ⟨by rw [hph]; rfl, fun _ _ hj => hj.of_leads (k := key) ?_ (role_flightPhase key _ true)⟩)
    rw [hph]; rfl
  | proxyDirect id p q event i r _ hp hop hh =>
    have hph := hc.proxies.direct_phase hp hop hh
    exact h.move rfl rfl (mem_singleton_not_joined nofun) (Nat.le_refl _) (fun ht => ht) nofun
      (fun _ _ => ⟨by rw [hph]; rfl, fun _ _ _ => .inl ⟨_, rfl⟩⟩)

theorem Reachable.joins (h : Reachable cfg st) : JoinInv st :=
  h.invWith (J := fun st => CoreInv cfg st ∧ RequestInv st) (fun _ hr => ⟨Reachable.core hr, Reachable.requests hr⟩)
    joinInv_init (fun _ a _ hc hi _ hs => hi.step hc.1 hc.2 (step_sound a hs))

/-! ## Leading and waiting -/

/-- Session `i` leads an unfinished flight: `join_or_start` made it the leader and it has not called `complete`. -/
def Leads (st : State) (i : Nat) (key : Str) : Prop := (st.sessions i).phase.role = .leads key

/-- The leader is in a handler before its call of `complete`, or its proxy has one operation outstanding, has not
called its completion handler, and has it still. -/
def WillComplete (st : State) (i : Nat) (key : Str) : Prop :=
  ((st.sessions i).phase = .leading key ∨ (∃ r, (st.sessions i).phase = .storing key r) ∨
    ∃ r, (st.sessions i).phase = .completing key r) ∨
  ∃ id p, (st.sessions i).phase = .proxying id (some key) ∧ st.proxies[id]? = some p ∧ p.outstanding.length = 1 ∧
    p.completed = false ∧ p.completionHandler = some (.flight i key)

theorem CoreInv.will_complete (h : CoreInv cfg st) (ht : st.stopped = false) {i : Nat} {key : Str}
    (hl : Leads st i key) : WillComplete st i key := by
  unfold Leads Phase.role at hl
  split at hl
  · rename_i k hph; cases hl; exact .inl (.inl hph)
  · rename_i k r hph; cases hl; exact .inl (.inr (.inl ⟨r, hph⟩))
  · rename_i k r hph; cases hl; exact .inl (.inr (.inr ⟨r, hph⟩))
  · rename_i id k hph
    cases hl
    obtain ⟨p, hp, hc, hi, hk⟩ := h.proxies.proxying i id (some key) hph
    obtain ⟨-, hch, -, ho⟩ := h.proxies.running id p hp hc
    refine .inr ⟨id, p, hph, hp, ho ht, hc, ?_⟩
    rw [hch]
    cases hf : p.fetch.handler with
    | flight j k => rw [hf] at hi hk; cases hi; cases hk; rfl
    | direct j => rw [hf] at hk; cases hk
  · cases hl
  · cases hl

theorem leads_update {i j : Nat} {key : Str} {s : Session} (h : Leads st i key)
    (hs : st'.sessions = Function.update st.sessions j s) (hj : j = i → s.phase.role = .leads key) : Leads st' i key := by
  unfold Leads
  rcases Lts.update_cases hs i with ⟨rfl, hi⟩ | ⟨-, hi⟩
  · rw [hi]; exact hj rfl
  · rw [hi]; exact h

theorem Leads.eq {i : Nat} {k key : Str} {p : Phase} (h : Leads st i key) (hph : (st.sessions i).phase = p)
    (hp : p.role = .leads k) : k = key := by
  rw [Leads, hph, hp] at h; exact SingleFlight.Role.leads.inj h

/-- **Leadership ends by calling `complete`, and by nothing else.** -/
theorem Leads.step {a : Action} {i : Nat} {key : Str} (h : Leads st i key) (hc : CoreInv cfg st)
    (hs : Step cfg st a st') : Leads st' i key ∨ a = .complete i := by
  -- a session that does not lead may move
  have other : ∀ {j : Nat} {s : Session}, st'.sessions = Function.update st.sessions j s →
      (∀ k, (st.sessions j).phase.role ≠ .leads k) → Leads st' i key := fun hu hj =>
    leads_update h hu (fun e => absurd (by rw [e]; exact h) (hj key))
  cases hs with
  | tick _ _ | proxyStep _ _ _ _ _ _ _ _ | proxyThrow _ _ _ _ _ _ _ _ | health _ _ _ _ _ _ => exact .inl h
  | accept j _ hph | readError j _ _ hph | readLocal j _ _ _ hph | readCacheable j _ _ hph | readOther j _ _ hph
  | hit j _ _ hph | miss j _ hph | missAlone j _ hph | lead j _ hph | wait j _ _ hph | directUnavailable j hph
  | directFetch j _ _ hph | directThrow j _ _ hph | respond j _ hph | writtenNext j _ hph | writtenLast j _ _ _ hph =>
    exact .inl (other (j := j) rfl (by rw [hph]; nofun))
  | leadUnavailable j k hph | leadFetch j k _ _ hph | store j k _ hph =>
    refine .inl (leads_update h (j := j) rfl ?_)
    rintro rfl
    rw [h.eq hph rfl]; rfl
  | leadThrow j k u e hph _ hrun => exact absurd ⟨e, hrun⟩ (hc.leader_runs hph u)
  | release j k r hph =>
    by_cases hji : j = i
    · exact .inr (by rw [hji])
    · exact .inl (leads_update h rfl (fun e => absurd e hji))
  | callback pre post w reply _ hp =>
    obtain ⟨k, hk⟩ := hc.callback_waiting hp
    exact .inl (other (j := w) rfl (by rw [hk]; nofun))
  | proxyFlight id p q event j k r _ hp hop hh =>
    refine .inl (leads_update h (j := j) rfl ?_)
    rintro rfl
    rw [← h.eq (k := k) (hc.proxies.flight_phase hp hop hh) rfl]
    exact role_flightPhase k _ true
  | proxyDirect id p q event j r _ hp hop hh =>
    exact .inl (other (j := j) rfl (by rw [hc.proxies.direct_phase hp hop hh]; nofun))

/-- **Every flight and every waiter accounted for.**  The open flights are those of the sessions that lead one, one
leader each, under the leader's own target, and every leader is on its way to `complete`; whoever became a leader or a
waiter for a request not yet answered is one still, or is about to write; whoever waits is in the queue of its own
target's flight or has a posted callback, exactly once; no request is answered twice. -/
structure Accounted (cfg : Config) (st : State) : Prop where
  open_iff : ∀ key, (st.coalescer.flights.lookup key).isSome = true ↔ ∃ i, Leads st i key
  one_leader : ∀ i j key, Leads st i key → Leads st j key → i = j
  own_target : ∀ i key, Leads st i key → key = (st.sessions i).request.target
  will_complete : ∀ i key, Leads st i key → WillComplete st i key
  until_complete : ∀ i key a st', Leads st i key → step cfg st a = some st' → Leads st' i key ∨ a = .complete i
  became_leader : ∀ t i n key, ⟨t, .joined i n key .leader⟩ ∈ st.log →
    writes st i n = 1 ∨ n = (st.sessions i).number ∧ (Leads st i key ∨ ∃ r, (st.sessions i).phase = .responding r)
  became_waiter : ∀ t i n key, ⟨t, .joined i n key .waiter⟩ ∈ st.log →
    writes st i n = 1 ∨
      n = (st.sessions i).number ∧ ((st.sessions i).phase = .waiting key ∨ ∃ r, (st.sessions i).phase = .responding r)
  held_once : ∀ i key, (st.sessions i).phase = .waiting key → key = (st.sessions i).request.target ∧
    ((st.coalescer.flights.lookup key).getD []).count i + (st.posted.map Prod.fst).count i = 1 ∧
    ∀ k, k ≠ key → i ∉ (st.coalescer.flights.lookup k).getD []
  written_once : ∀ i n, writes st i n ≤ 1

/-- A role given is a role kept until the answer. -/
theorem JoinInv.unanswered (h : JoinInv st) (hr : RequestInv st) (ht : st.stopped = false) {t : Int} {i n : Nat}
    {key : Str} {role : Role} (hm : ⟨t, .joined i n key role⟩ ∈ st.log) :
    writes st i n = 1 ∨ n = (st.sessions i).number ∧ JoinedOk key role (st.sessions i).phase := by
  obtain ⟨h0, hle, hok⟩ := h.joined t i n key role hm
  by_cases hlt : n = (st.sessions i).number ∧ (st.sessions i).phase.pending = true
  · exact .inr ⟨hlt.1, hok hlt.1 hlt.2⟩
  · refine .inl (hr.answered i n h0 hle (fun e => ?_))
    have hnp : (st.sessions i).phase.pending ≠ true := fun hp => hlt ⟨e, hp⟩
    have hnf : (st.sessions i).phase ≠ .failed := fun hf => by rw [h.failed i hf] at ht; cases ht
    cases hph : (st.sessions i).phase <;> rw [hph] at hnp hnf <;> first | rfl | exact absurd rfl hnp | exact absurd rfl hnf

theorem Reachable.accounted (h : Reachable cfg st) (ht : st.stopped = false) : Accounted cfg st := by
  have hc := Reachable.core h
  have hr := Reachable.requests h
  have hj := Reachable.joins h
  have hpath : ∀ i key, Leads st i key → key = (st.sessions i).request.target := by
    intro i key hl
    have hi := hc.path i
    rcases hc.will_complete ht hl with (hph | ⟨r, hph⟩ | ⟨r, hph⟩) | ⟨id, p, hph, -⟩ <;>
      (rw [PathOk, hph] at hi; exact hi.1)
  constructor
  · intro key
    rw [Option.isSome_iff_exists]
    constructor
    · rintro ⟨ws, hws⟩; exact hc.flights.open_led key ws hws
    · rintro ⟨i, hi⟩; exact hc.flights.led_open i key hi
  · exact hc.flights.one_leader
  · exact hpath
  · intro i key hl; exact hc.will_complete ht hl
  · intro i key a st' hl hs; exact hl.step hc (step_sound a hs)
  · intro t i n key hm
    rcases hj.unanswered hr ht hm with hw | ⟨hn, hok⟩
    · exact .inl hw
    · exact .inr ⟨hn, hok.symm⟩
  · intro t i n key hm
    rcases hj.unanswered hr ht hm with hw | ⟨hn, hok⟩
    · exact .inl hw
    · exact .inr ⟨hn, hok.symm⟩
  · intro i key hph
    have hi := hc.path i
    rw [PathOk, hph] at hi
    exact ⟨hi.1, hc.flights.waits_once (show (flightView st).role i = .waits key by simp [flightView, hph, Phase.role])⟩
  · exact hr.once

/-! ## A run -/

/-- One upstream, two cache entries, a time to live of one millisecond. -/
def sampleConfig : Config where
  beast := referenceBeast
  cacheOptions := ⟨2, 1⟩
  capacity_ne_zero := by decide
  pool := ⟨[⟨⟨"a".toList, 80⟩, true⟩], 0, by decide⟩
  hasCoalescer := true
  timeouts := {}
  formatSum := fun _ => []
  start := 0

def getOf (target : Str) (fields : Fields) : HttpRequest := ⟨.get, target, 11, fields, []⟩

/-- Sessions 0 and 1 ask for the same target and miss; 0 leads and starts a fetch, 1 waits. -/
def coldMisses (r₀ r₁ : HttpRequest) : List Action :=
  [.accept 0, .accept 1, .read 0 (.ok r₀), .read 1 (.ok r₁), .get 0, .get 1, .join 0, .join 1, .select 0]

/-- The operations of run `id` succeed and bring the message. -/
def upstreamAnswers (id : Nat) (m : HttpResponse) : List Action :=
  [.proxy id (.resolved none), .proxy id (.connected none), .proxy id (.wrote none), .proxy id (.read (.ok m))]

theorem accounted_coldMisses : ∃ st, Reachable sampleConfig st ∧ st.stopped = false ∧
    (st.sessions 0).phase = .proxying 0 (some "/x".toList) ∧ (st.sessions 1).phase = .waiting "/x".toList ∧
    Accounted sampleConfig st := by
  obtain ⟨st, hr, hf⟩ := Lts.exists_reach (step sampleConfig) (fun _ _ => true) (init sampleConfig)
    (coldMisses (getOf "/x".toList []) (getOf "/x".toList []))
    (fun st => decide (st.stopped = false ∧ (st.sessions 0).phase = .proxying 0 (some "/x".toList) ∧
      (st.sessions 1).phase = .waiting "/x".toList))
    (by decide +kernel)
  obtain ⟨ht, h0, h1⟩ := of_decide_eq_true hf
  exact ⟨st, hr.any, ht, h0, h1, Reachable.accounted hr.any ht⟩

end Server
end EventEdge
