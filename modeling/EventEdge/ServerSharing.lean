import EventEdge.Forwarding
import EventEdge.ServerOrigins
/-!
# ServerSharing — one run's response, more than one client

A response reaches a client that did not ask for it upstream in two ways only: through the cache, which takes nothing
`cacheable_response` refuses, and through `complete`, which takes everything.  So what may be shared is decided by
what a leader calls `complete` with while somebody waits: `released_inv` carries a condition on those calls over to
every response a waiter was ever handed.  It is used twice, for private responses and for partial ones.
-/
namespace EventEdge
namespace Server

variable {cfg : Config} {st st' : State} {a : Action}

/-- Every waiter a run's response was released to meets `Q` with it. -/
def ReleasedInv (Q : State → Nat × Nat → HttpResponse → Prop) (st : State) : Prop :=
  ∀ t key id ws fetch m, ⟨t, .released key (.proxy id) ws⟩ ∈ st.log → Completed st id fetch m → ∀ w ∈ ws, Q st w m

/-- **What every call of `complete` grants its waiters, every response released to a waiter was granted.** -/
theorem released_inv {P : State → Action → Prop} {Q : State → Nat × Nat → HttpResponse → Prop}
    (hmono : ∀ st st' w m, Grows st st' → Q st w m → Q st' w m)
    (hcall : ∀ st i key reply, Reachable cfg st → P st (.complete i) → (st.sessions i).phase = .completing key reply →
      ∀ w ∈ (takeWaiters cfg st key).1, Q st (w, (st.sessions w).number) reply.message)
    (h : Lts.Reach (step cfg) P (init cfg) st) : ReleasedInv Q st := by
  refine h.invWith (J := Reachable cfg) (fun _ hr => hr) (fun t key id ws fetch m hm => by cases hm) ?_
  intro st a st' hr hinv hP hs t key id ws fetch m hm hcm w hw
  have hst := step_sound a hs
  have hc := Reachable.core hr
  have ho := Reachable.origins hr
  have g := hc.proxies.grows hst
  have old : ⟨t, .released key (.proxy id) ws⟩ ∈ st.log → Q st' w m := by
    intro hm
    obtain ⟨f₀, m₀, hc₀⟩ := ho.released t key id ws hm
    obtain ⟨-, rfl⟩ := (g.completed hc₀).unique hcm
    exact hmono st st' w m₀ g (hinv t key id ws f₀ m₀ hm hc₀ w hw)
  cases hst with
  | release i k reply hph =>
    rcases List.mem_append.1 hm with hm | hm
    · exact old hm
    · rw [List.mem_singleton] at hm
      injection hm with _ hev
      injection hev with hk horig hws
      -- the leader's reply is its own run's result
      have hi := ho.phases i
      rw [PhaseOk, hph] at hi
      rcases hi with ⟨hsrv, -⟩ | ⟨id', fetch', tj, tc, hpr, hcm', -⟩
      · rw [hsrv] at horig; cases horig
      · rw [hpr] at horig; cases horig
        obtain ⟨-, rfl⟩ := (g.completed hcm').unique hcm
        rw [hws] at hw
        obtain ⟨v, hv, rfl⟩ := List.mem_map.1 hw
        exact hmono st _ _ _ g (hcall st i k reply hr hP hph v hv)
  | _ => exact old (by simpa [receivedLog] using hm)

/-! ## Private responses -/

/-- What `cacheable_response` refuses whatever the status. -/
def isPrivate (response : HttpResponse) : Bool :=
  response.fields.has HeaderField.setCookie.text ||
    containsText "no-store".toList (response.fields.value HeaderField.cacheControl.text) ||
    containsText "private".toList (response.fields.value HeaderField.cacheControl.text)

/-- **The cache takes the 200 responses that are not private.** -/
theorem cacheableResponse_iff (response : HttpResponse) :
    cacheableResponse response = true ↔ response.result = 200 ∧ isPrivate response = false := by
  unfold cacheableResponse isPrivate
  split
  · rename_i h
    rcases h with h | h
    · simp [h]
    · simp [h]
  · rename_i h
    rw [not_or, not_not] at h
    simp [h.1, h.2]

/-- **A private response reaches the client whose request was sent upstream for it, and nobody else.** -/
def PrivateKept (st : State) : Prop :=
  ∀ i n id fetch m, delivered st i n id = true → Completed st id fetch m → isPrivate m = true →
    fetch.handler.session = i ∧ fetch.number = n

/-- A leader that calls `complete` with a private response has nobody waiting. -/
def privateAlone (st : State) : Action → Bool
  | .complete i => match (st.sessions i).phase with
    | .completing key reply => !isPrivate reply.message || decide (st.coalescer.waiterCount key = 0)
    | _ => true
  | _ => true

theorem takeWaiters_eq_nil {key : Str} (h : st.coalescer.waiterCount key = 0) : (takeWaiters cfg st key).1 = [] := by
  unfold takeWaiters
  split
  · rw [(st.coalescer.complete_waiters key).1]
    unfold RequestCoalescer.waiterCount at h
    unfold RequestCoalescer.waiters
    cases hw : st.coalescer.flights.lookup key with
    | none => rfl
    | some ws => rw [hw] at h; exact List.length_eq_zero_iff.1 h
  · rfl

theorem private_kept (h : Lts.Reach (step cfg) (fun st a => privateAlone st a = true) (init cfg) st) : PrivateKept st := by
  have hrel : ReleasedInv (fun _ _ m => isPrivate m = false) st := by
    refine released_inv (fun _ _ _ _ _ hq => hq) ?_ h
    intro st i key reply _ hP hph w hw
    simp only [privateAlone, hph, Bool.or_eq_true, Bool.not_eq_true', decide_eq_true_eq] at hP
    rcases hP with hP | hP
    · exact hP
    · rw [takeWaiters_eq_nil hP] at hw; cases hw
  intro i n id fetch m hd hcm hpriv
  obtain ⟨t, reply, hw, horig⟩ := (delivered_iff st i n id).1 hd
  obtain ⟨b, request, -, hans⟩ := (Reachable.origins h.any).wrote t i n reply hw
  -- the run behind the answer is run `id`, so its result is `m`
  have same : ∀ {id' fetch' m'}, reply.origin = .proxy id' → Completed st id' fetch' m' → fetch' = fetch ∧ m' = m := by
    intro id' fetch' m' ho hcm'
    rw [horig] at ho; cases ho
    exact hcm'.unique hcm
  cases hans with
  | localRoute _ ho => rw [horig] at ho; cases ho
  | unavailable _ _ ho => rw [horig] at ho; cases ho
  | direct id' f' m' ho hcm' hh hn => obtain ⟨rfl, -⟩ := same ho hcm'; rw [hh]; exact ⟨rfl, hn⟩
  | led id' f' m' _ _ ho hcm' hh hn => obtain ⟨rfl, -⟩ := same ho hcm'; rw [hh]; exact ⟨rfl, hn⟩
  | hit id' f' m' _ _ _ ho hcm' _ hcr =>
    obtain ⟨-, rfl⟩ := same ho hcm'
    rw [((cacheableResponse_iff m').1 hcr).2] at hpriv; cases hpriv
  | waited id' f' m' _ tr ws ho hcm' _ hl hw =>
    obtain ⟨-, rfl⟩ := same ho hcm'
    rw [hrel tr request.target id' ws f' m' (hl.subset (by simp)) hcm' _ hw] at hpriv; cases hpriv

def cookieResponse : HttpResponse := ⟨200, 11, [⟨"Set-Cookie".toList, "sid=1".toList⟩], "hi".toList⟩

/-- A run handed over a private response with status 200 for session 0's first request. -/
def privateFetch (st : State) : Bool :=
  (st.proxies[0]?).any (fun p => p.completed && decide (p.fetch.handler.session = 0 ∧ p.fetch.number = 1) &&
    p.result.any (fun m => decide (m.result = 200) && isPrivate m))

theorem completed_of_privateFetch (h : privateFetch st = true) : ∃ fetch m, Completed st 0 fetch m ∧
    fetch.handler.session = 0 ∧ fetch.number = 1 ∧ m.result = 200 ∧ isPrivate m = true := by
  obtain ⟨p, hp, hx⟩ := (Option.any_eq_true _ _).1 h
  simp only [Bool.and_eq_true, decide_eq_true_eq] at hx
  obtain ⟨⟨hc, hs, hn⟩, hm⟩ := hx
  obtain ⟨m, hm, hy⟩ := (Option.any_eq_true _ _).1 hm
  simp only [Bool.and_eq_true, decide_eq_true_eq] at hy
  exact ⟨p.fetch, m, ⟨p, hp, hc, rfl, hm⟩, hs, hn, hy⟩

/-- Nobody waits for session 0's private response. -/
theorem private_kept_alone : ∃ st,
    Lts.Reach (step sampleConfig) (fun st a => privateAlone st a = true) (init sampleConfig) st ∧
    delivered st 0 1 0 = true ∧ privateFetch st = true ∧ PrivateKept st := by
  obtain ⟨st, hr, hf⟩ := Lts.exists_reach (step sampleConfig) privateAlone (init sampleConfig)
    ([.accept 0, .read 0 (.ok (getOf "/x".toList [])), .get 0, .join 0, .select 0] ++ upstreamAnswers 0 cookieResponse ++
      [.complete 0, .respond 0])
    (fun st => delivered st 0 1 0 && privateFetch st) (by decide +kernel)
  rw [Bool.and_eq_true] at hf
  exact ⟨st, hr, hf.1, hf.2, private_kept hr⟩

/-- **Session 1, waiting, is handed session 0's cookie.** -/
theorem private_shared : ∃ st, Reachable sampleConfig st ∧ delivered st 1 1 0 = true ∧ privateFetch st = true ∧
    ¬ PrivateKept st := by
  obtain ⟨st, hr, hf⟩ := Lts.exists_reach (step sampleConfig) (fun _ _ => true) (init sampleConfig)
    (coldMisses (getOf "/x".toList []) (getOf "/x".toList []) ++ upstreamAnswers 0 cookieResponse ++
      [.complete 0, .callback 0, .respond 1])
    (fun st => delivered st 1 1 0 && privateFetch st) (by decide +kernel)
  rw [Bool.and_eq_true] at hf
  refine ⟨st, hr.any, hf.1, hf.2, fun hk => ?_⟩
  obtain ⟨fetch, m, hcm, hs, -, -, hp⟩ := completed_of_privateFetch hf.2
  have := (hk 1 1 0 fetch m hf.1 hcm hp).1
  rw [hs] at this
  cases this

/-! ## Partial and conditional responses -/

def conditionalFields : List HeaderField := [.ifMatch, .ifNoneMatch, .ifModifiedSince, .ifUnmodifiedSince, .ifRange]

def hasRange (request : HttpRequest) : Bool := request.fields.has HeaderField.range.text

def isConditional (request : HttpRequest) : Bool := conditionalFields.any (fun f => request.fields.has f.text)

/-- The upstreams answer 206 only to requests with a Range, and 304 only to conditional ones. -/
def upstreamHonest (st : State) : Action → Bool
  | .proxy id (.read (.ok raw)) => match st.proxies[id]? with
    | some p => (decide (raw.result ≠ 206) || hasRange p.request) && (decide (raw.result ≠ 304) || isConditional p.request)
    | none => true
  | _ => true

/-- A leader that calls `complete` with a 206 or 304 has no one waiting but for such an answer. -/
def selectiveAlone (st : State) : Action → Bool
  | .complete i => match (st.sessions i).phase with
    | .completing key reply => decide (reply.message.result ≠ 206 ∧ reply.message.result ≠ 304) ||
        ((st.coalescer.flights.lookup key).getD []).all (fun w =>
          hasRange (st.sessions w).request || isConditional (st.sessions w).request)
    | _ => true
  | _ => true

/-- **A client that asked for no part and set no condition is never answered 206 or 304.** -/
def WholeKept (st : State) : Prop :=
  ∀ a t i n request reply, ⟨a, .received i n request⟩ ∈ st.log → ⟨t, .wrote i n reply⟩ ∈ st.log →
    reply.message.result = 206 ∨ reply.message.result = 304 → hasRange request = true ∨ isConditional request = true

/-- What an upstream answered to the request it was sent, it answered to what the client asked. -/
def HonestInv (st : State) : Prop :=
  ∀ id fetch m, Completed st id fetch m →
    (m.result = 206 → hasRange fetch.client = true) ∧ (m.result = 304 → isConditional fetch.client = true)

theorem hasRange_of_sent (u : UpstreamEndpoint) (request : HttpRequest)
    (h : hasRange (UpstreamProxy.sent cfg.beast u request) = true) : hasRange request = true :=
  UpstreamProxy.has_of_has_sent u request _ (by decide) h

theorem conditional_not_rewritten : ∀ f ∈ conditionalFields, isRewritten f.text = false := by
  decide

theorem isConditional_of_sent (u : UpstreamEndpoint) (request : HttpRequest)
    (h : isConditional (UpstreamProxy.sent cfg.beast u request) = true) : isConditional request = true := by
  obtain ⟨f, hf, hh⟩ := List.any_eq_true.1 h
  exact List.any_eq_true.2 ⟨f, hf, UpstreamProxy.has_of_has_sent u request _ (conditional_not_rewritten f hf) hh⟩

theorem honest_inv (h : Lts.Reach (step cfg) (fun st a => upstreamHonest st a = true) (init cfg) st) : HonestInv st := by
  refine h.invWith (J := Reachable cfg) (fun _ hr => hr) ?_ ?_
  · rintro id fetch m ⟨p, hp, -⟩; cases hp
  · intro st a st' hr hinv hP hs id fetch m hcm
    rcases (Reachable.core hr).proxies.completed_step (step_sound a hs) hcm with
      hcm | ⟨p, event, rfl, hp, -, rfl, hout, -, -⟩
    · exact hinv id fetch m hcm
    · have hsent := ((Reachable.origins hr).fetched id p hp).1
      rcases hout.result_eq with h5 | h5 | ⟨raw, rfl, hraw⟩
      · exact ⟨fun e => by omega, fun e => by omega⟩
      · exact ⟨fun e => by omega, fun e => by omega⟩
      · simp only [upstreamHonest, hp, Bool.and_eq_true, Bool.or_eq_true, decide_eq_true_eq, ← hraw, hsent] at hP
        exact ⟨fun e => hasRange_of_sent _ _ (hP.1.resolve_left (not_not.2 e)),
          fun e => isConditional_of_sent _ _ (hP.2.resolve_left (not_not.2 e))⟩

theorem whole_kept
    (h : Lts.Reach (step cfg) (fun st a => (upstreamHonest st a && selectiveAlone st a) = true) (init cfg) st) :
    WholeKept st := by
  have hhon : HonestInv st := honest_inv (h.mono (fun _ _ hP => (Bool.and_eq_true_iff.1 hP).1))
  have hrel : ReleasedInv (fun st w m => m.result = 206 ∨ m.result = 304 →
      ∃ a request, ⟨a, .received w.1 w.2 request⟩ ∈ st.log ∧
        (hasRange request = true ∨ isConditional request = true)) st := by
    refine released_inv ?_ ?_ (h.mono (fun _ _ hP => (Bool.and_eq_true_iff.1 hP).2))
    · intro st st' w m g hq hm
      obtain ⟨b, request, hb, hs⟩ := hq hm
      exact ⟨b, request, g.mem hb, hs⟩
    · intro st i key reply hr hP hph w hw hm
      have hwait := (Reachable.core hr).taken_waiting hw
      refine ⟨_, _, (Reachable.requests hr).current w (by rw [hwait]; rfl), ?_⟩
      simp only [selectiveAlone, hph, Bool.or_eq_true, decide_eq_true_eq, List.all_eq_true] at hP
      refine hP.resolve_left (fun hne => hm.elim hne.1 hne.2) w ?_
      unfold takeWaiters at hw
      split at hw
      · rw [(st.coalescer.complete_waiters key).1] at hw; exact hw
      · cases hw
  intro b t i n request reply hb hw hres
  have own : ∀ {id fetch m}, Completed st id fetch m → fetch.client = request → reply.message.SameContent m →
      hasRange request = true ∨ isConditional request = true := by
    intro id fetch m hcm hq hsame
    rw [hsame.1] at hres
    rw [← hq]
    exact hres.imp (hhon id fetch m hcm).1 (hhon id fetch m hcm).2
  cases Reachable.answer h.any hb hw with
  | localRoute _ _ hr => omega
  | unavailable asked _ _ hsame =>
    rw [hsame.1, show (unavailableResponse cfg.beast asked).result = 503 from rfl] at hres; omega
  | direct id f m _ hcm _ _ hq hsame => exact own hcm hq hsame
  | led id f m _ _ _ hcm _ _ hq _ hsame => exact own hcm hq hsame
  | hit id f m _ _ _ _ hcm _ hcr _ _ _ hsame =>
    rw [hsame.1, ((cacheableResponse_iff m).1 hcr).1] at hres; omega
  | waited id f m _ tr ws _ hcm _ hl hm hsame =>
    rw [hsame.1] at hres
    obtain ⟨b', request', hb', hs⟩ := hrel tr request.target id ws f m (hl.subset (by simp)) hcm _ hm hres
    obtain ⟨-, rfl⟩ := (Reachable.requests h.any).unique b b' i n request request' hb hb'
    exact hs

def rangeFields : Fields := [⟨"Range".toList, "bytes=0-0".toList⟩]

def partResponse : HttpResponse := ⟨206, 11, [⟨"Content-Range".toList, "bytes 0-0/2".toList⟩], "h".toList⟩

/-- Session `i`'s first request is `request`, and it was answered with status `result`. -/
def answeredWith (st : State) (i : Nat) (request : HttpRequest) (result : Nat) : Bool :=
  st.log.any (fun e => decide (e.event = .received i 1 request)) &&
    wroteWith st i 1 (fun reply => decide (reply.message.result = result))

theorem events_of_answeredWith {i result : Nat} {request : HttpRequest} (h : answeredWith st i request result = true) :
    ∃ a t reply, ⟨a, .received i 1 request⟩ ∈ st.log ∧ ⟨t, .wrote i 1 reply⟩ ∈ st.log ∧ reply.message.result = result := by
  unfold answeredWith at h
  rw [Bool.and_eq_true, List.any_eq_true, wroteWith_iff] at h
  obtain ⟨⟨⟨b, e⟩, hb, he⟩, t, reply, ht, hr⟩ := h
  have he := of_decide_eq_true he
  simp only at he
  subst he
  exact ⟨b, t, reply, hb, ht, of_decide_eq_true hr⟩

/-- Two clients ask for the same part. -/
theorem whole_kept_ranges : ∃ st,
    Lts.Reach (step sampleConfig) (fun st a => (upstreamHonest st a && selectiveAlone st a) = true)
      (init sampleConfig) st ∧
    answeredWith st 1 (getOf "/x".toList rangeFields) 206 = true ∧ WholeKept st := by
  obtain ⟨st, hr, hf⟩ := Lts.exists_reach (step sampleConfig) (fun st a => upstreamHonest st a && selectiveAlone st a)
    (init sampleConfig) (coldMisses (getOf "/x".toList rangeFields) (getOf "/x".toList rangeFields) ++
      upstreamAnswers 0 partResponse ++ [.complete 0, .callback 0, .respond 1])
    (fun st => answeredWith st 1 (getOf "/x".toList rangeFields) 206) (by decide +kernel)
  exact ⟨st, hr, hf, whole_kept hr⟩

/-- **Session 1 asks for the whole and is handed the part session 0 asked for.** -/
theorem part_shared : ∃ st,
    Lts.Reach (step sampleConfig) (fun st a => upstreamHonest st a = true) (init sampleConfig) st ∧
    answeredWith st 1 (getOf "/x".toList []) 206 = true ∧ ¬ WholeKept st := by
  obtain ⟨st, hr, hf⟩ := Lts.exists_reach (step sampleConfig) upstreamHonest (init sampleConfig)
    (coldMisses (getOf "/x".toList rangeFields) (getOf "/x".toList []) ++ upstreamAnswers 0 partResponse ++
      [.complete 0, .callback 0, .respond 1])
    (fun st => answeredWith st 1 (getOf "/x".toList []) 206) (by decide +kernel)
  refine ⟨st, hr, hf, fun hk => ?_⟩
  obtain ⟨b, t, reply, hb, ht, hres⟩ := events_of_answeredWith hf
  have := hk b t 1 1 _ reply hb ht (.inl hres)
  revert this
  decide

end Server
end EventEdge
