import EventEdge.Exposition
import EventEdge.ServerOrigins
import EventEdge.ServerSelections
/-!
# ServerScrape — what a scraper reads from `/metrics`

`render` writes the text format of Prometheus and escapes nothing.  Every `/metrics` answer is the text of the registry
as it was when the request was read (`LocalInv`), and it is read back, sample by sample, exactly if no host that was
configured has a quote, a backslash or a line break in it (`Reachable.scraped_iff`).
-/
namespace EventEdge

open Exposition (Line plainChar nameChar valueChar)

/-! ## The samples as lines -/

def Sample.line (s : Sample) : Line := ⟨s.name.toList, s.label.map (fun l => (l.1.toList, l.2)), s.value⟩

theorem Sample.text_line (s : Sample) : s.text = s.line.text := by
  cases h : s.label with
  | none => simp [Sample.text, Sample.line, Line.text, h]
  | some l =>
    simp only [Sample.text, Sample.line, Line.text, h, Option.elim_some, Option.map_some, MetricsRegistry.labelled,
      Exposition.labelText]
    rw [show "\x7b".toList = ['\x7b'] by decide, show "=\"".toList = ['=', '"'] by decide,
      show "\"\x7d ".toList = ['"', '\x7d', ' '] by decide]
    simp

namespace MetricsRegistry

/-- The names of a key are names. -/
def keyOk (k : String × Option (String × Str)) : Bool :=
  k.1.toList.all nameChar && !k.1.toList.isEmpty && k.2.all (fun l => l.1.toList.all nameChar)

/-- The value of a key's label has nothing to escape. -/
def keyPlain (k : String × Option (String × Str)) : Bool := k.2.all (fun l => l.2.all plainChar)

theorem fixedKeys_all {p : String × Option (String × Str) → Bool}
    (hall : (fixedKeys (buckets.map (fun _ => 0))).all p = true) (durations : List UInt64) :
    ∀ k ∈ fixedKeys durations, p k = true := by
  intro k hk
  refine List.all_eq_true.1 hall k ?_
  have hb : ((buckets.zip durations).map (fun b =>
      ("eventedge_request_duration_seconds_bucket", some ("le", b.1.1)))).Sublist (buckets.map (fun b =>
        ("eventedge_request_duration_seconds_bucket", some ("le", b.1)))) := by
    have := (fst_zip_sublist buckets durations).map (fun b =>
      ("eventedge_request_duration_seconds_bucket", some ("le", b.1)))
    rwa [List.map_map] at this
  exact (((List.Sublist.refl _).append hb).append (List.Sublist.refl _)).subset hk

theorem isDigit_decimal (n : Nat) : ∀ c ∈ decimal n, c.isDigit = true :=
  (ofDecimal_eq_some_iff.1 (ofDecimal_decimal n)).2.1

/-- A digit is none of the characters the format cares about. -/
theorem digit_char {c : Char} (h : c.isDigit = true) : valueChar c = true ∧ plainChar c = true := by
  have hne : ∀ d : Char, d.isDigit = false → c ≠ d := fun d hd he => by rw [he, hd] at h; cases h
  simp [valueChar, plainChar, hne ' ' rfl, hne '\n' rfl, hne '"' rfl, hne '\\' rfl]

variable {formatSum : UInt64 → Str} {m : MetricsRegistry} {pool : UpstreamPool}

theorem number_all (v : UInt64) : (number v).all valueChar = true :=
  List.all_eq_true.2 (fun c hc => (digit_char (isDigit_decimal v.toNat c hc)).1)

/-- No value has a blank or a line break in it, if the sum has none. -/
theorem samples_value (hsum : ∀ n, ∀ c ∈ formatSum n, valueChar c = true) :
    ∀ s ∈ m.samples formatSum pool, s.value.all valueChar = true := by
  unfold samples
  refine List.forall_mem_append.2 ⟨List.forall_mem_append.2 ⟨List.forall_mem_append.2 ⟨?_, ?_⟩, ?_⟩, ?_⟩
  · simp only [List.forall_mem_cons, number_all, true_and]
    exact List.forall_mem_nil _
  · exact List.forall_mem_map.2 (fun b _ => number_all b.2)
  · simp only [List.forall_mem_cons, number_all, true_and]
    exact ⟨List.all_eq_true.2 (hsum _), List.forall_mem_nil _⟩
  · intro s hs
    obtain ⟨u, -, hs⟩ := List.mem_flatMap.1 hs
    rcases List.mem_cons.1 hs with rfl | hs
    · exact number_all u.1.selections
    · obtain rfl := List.mem_singleton.1 hs
      dsimp only
      split
      · rfl
      · rfl

theorem samples_ok (hsum : ∀ n, ∀ c ∈ formatSum n, valueChar c = true) :
    ∀ l ∈ (m.samples formatSum pool).map Sample.line, l.Ok := by
  have hkeys : ∀ k ∈ (m.samples formatSum pool).map Sample.key, keyOk k = true := by
    rw [key_samples]
    intro k hk
    rcases List.mem_append.1 hk with hk | hk
    · exact fixedKeys_all (by decide +kernel) _ k hk
    · obtain ⟨label, -, hk⟩ := List.mem_flatMap.1 hk
      simp only [upstreamKeys, List.mem_cons, List.not_mem_nil, or_false] at hk
      rcases hk with rfl | rfl
      · rw [show keyOk ("eventedge_upstream_selections_total", some ("upstream", label)) =
          keyOk ("eventedge_upstream_selections_total", some ("upstream", [])) from rfl]
        decide +kernel
      · rw [show keyOk ("eventedge_upstream_healthy", some ("upstream", label)) =
          keyOk ("eventedge_upstream_healthy", some ("upstream", [])) from rfl]
        decide +kernel
  intro l hl
  obtain ⟨s, hs, rfl⟩ := List.mem_map.1 hl
  have hk := hkeys s.key (List.mem_map.2 ⟨s, hs, rfl⟩)
  simp only [keyOk, Sample.key, Bool.and_eq_true, List.all_eq_true, Bool.not_eq_true', List.isEmpty_eq_false_iff] at hk
  obtain ⟨⟨hname, hne⟩, hlabel⟩ := hk
  refine ⟨hname, hne, fun k hk => ?_, List.all_eq_true.1 (samples_value hsum s hs)⟩
  obtain ⟨l, hl, rfl⟩ := Option.map_eq_some_iff.1 hk
  rw [hl, Option.all_some, List.all_eq_true] at hlabel
  exact hlabel

theorem samples_plain_iff : (∀ l ∈ (m.samples formatSum pool).map Sample.line, l.Plain) ↔
    ∀ u ∈ m.upstreams, ∀ c ∈ u.label, plainChar c = true := by
  have hline : ∀ s : Sample, s.line.Plain ↔ keyPlain s.key = true := by
    intro s
    simp only [Line.Plain, Sample.line, keyPlain, Sample.key]
    cases s.label with
    | none => simp
    | some l => simp
  have hkeys : (∀ l ∈ (m.samples formatSum pool).map Sample.line, l.Plain) ↔
      ∀ k ∈ (m.samples formatSum pool).map Sample.key, keyPlain k = true := by
    rw [List.forall_mem_map, List.forall_mem_map]
    exact forall₂_congr (fun s _ => hline s)
  rw [hkeys, key_samples, List.forall_mem_append]
  constructor
  · rintro ⟨-, h⟩ u hu
    have := h ("eventedge_upstream_healthy", some ("upstream", u.label))
      (List.mem_flatMap.2 ⟨u.label, List.mem_map.2 ⟨u, hu, rfl⟩, by simp [upstreamKeys]⟩)
    simpa [keyPlain] using this
  · intro h
    refine ⟨fixedKeys_all (by decide +kernel) _, fun k hk => ?_⟩
    obtain ⟨label, hl, hk⟩ := List.mem_flatMap.1 hk
    obtain ⟨u, hu, rfl⟩ := List.mem_map.1 hl
    rw [keyPlain, label_of_mem_upstreamKeys hk, Option.all_some, List.all_eq_true]
    exact h u hu

/-- **`render`, read back.** -/
theorem read_render_iff (hsum : ∀ n, ∀ c ∈ formatSum n, valueChar c = true) :
    Exposition.read (m.render formatSum pool) = some ((m.samples formatSum pool).map Sample.line) ↔
      ∀ u ∈ m.upstreams, ∀ c ∈ u.label, plainChar c = true := by
  have hlines : (m.samples formatSum pool).flatMap Sample.text =
      ((m.samples formatSum pool).map Sample.line).flatMap Line.text := by
    rw [List.flatMap_map]
    exact congrArg (fun f => List.flatMap f (m.samples formatSum pool)) (funext Sample.text_line)
  have htext : m.render formatSum pool = '#' :: " TYPE eventedge_requests_total counter".toList ++
      '\n' :: ((m.samples formatSum pool).map Sample.line).flatMap Line.text := by
    rw [render_eq_samples, hlines, show "# TYPE eventedge_requests_total counter\n".toList =
      '#' :: " TYPE eventedge_requests_total counter".toList ++ ['\n'] by decide +kernel, List.append_assoc]
    rfl
  rw [htext, Exposition.read_iff (by decide +kernel) (samples_ok hsum), samples_plain_iff]

end MetricsRegistry

theorem plain_endpointLabel (e : UpstreamEndpoint) :
    (∀ c ∈ endpointLabel e, plainChar c = true) ↔ ∀ c ∈ e.host, plainChar c = true := by
  rw [endpointLabel, List.forall_mem_append, List.forall_mem_cons]
  refine ⟨fun h => h.1, fun h => ⟨h, rfl, fun c hc => ?_⟩⟩
  exact (MetricsRegistry.digit_char (MetricsRegistry.isDigit_decimal _ c hc)).2

namespace Server

variable {cfg : Config} {st st' : State} {a : Action}

/-! ## The answers of the local routes -/

/-- The message was made by the step that read request `n` of session `i`, of the registry and the pool it left. -/
def MadeAt (cfg : Config) (st : State) (i n : Nat) (request : HttpRequest) (message : HttpResponse) : Prop :=
  ∃ st₁ st₀ b, Reachable cfg st₁ ∧ step cfg st₁ (.read i (.ok request)) = some st₀ ∧
    Lts.Reach (step cfg) Lts.anyStep st₀ st ∧ st₀.log.getLast? = some ⟨b, .received i n request⟩ ∧
    ⟨b, .received i n request⟩ ∈ st.log ∧ localResponse cfg st₀.metrics st₀.pool request = .ok message

theorem MadeAt.step {i n : Nat} {request : HttpRequest} {message : HttpResponse} (h : MadeAt cfg st i n request message)
    (g : Grows st st') (hs : step cfg st a = some st') : MadeAt cfg st' i n request message := by
  obtain ⟨st₁, st₀, b, hr, hread, hto, hlast, hm, hresp⟩ := h
  exact ⟨st₁, st₀, b, hr, hread, hto.tail trivial hs, hlast, g.mem hm, hresp⟩

/-- What is, or was, about to be written in answer to a local request was made when it was read. -/
structure LocalInv (cfg : Config) (st : State) : Prop where
  responding : ∀ i reply, (st.sessions i).phase = .responding reply → isLocalRequest (st.sessions i).request = true →
    MadeAt cfg st i (st.sessions i).number (st.sessions i).request reply.message
  wrote : ∀ t i n reply, ⟨t, .wrote i n reply⟩ ∈ st.log → ∃ b request, ⟨b, .received i n request⟩ ∈ st.log ∧
    (isLocalRequest request = true → MadeAt cfg st i n request reply.message)

/-- A session is put to a phase in which it answers no local request. -/
theorem LocalInv.move (h : ∀ i reply, (st.sessions i).phase = .responding reply →
      isLocalRequest (st.sessions i).request = true →
      MadeAt cfg st' i (st.sessions i).number (st.sessions i).request reply.message)
    {i : Nat} {s : Session} (hs : st'.sessions = Function.update st.sessions i s)
    (hnew : ∀ reply, s.phase = .responding reply → isLocalRequest s.request = true →
      MadeAt cfg st' i s.number s.request reply.message) (j : Nat) (reply : Reply) :
    (st'.sessions j).phase = .responding reply → isLocalRequest (st'.sessions j).request = true →
      MadeAt cfg st' j (st'.sessions j).number (st'.sessions j).request reply.message :=
  Lts.update_all (Q := fun j (s : Session) => ∀ reply, s.phase = .responding reply → isLocalRequest s.request = true →
    MadeAt cfg st' j s.number s.request reply.message) hs hnew h j reply

theorem LocalInv.responding_step (h : LocalInv cfg st) (hr : Reachable cfg st) (hst : step cfg st a = some st')
    (hs : Step cfg st a st') (j : Nat) (reply : Reply) : (st'.sessions j).phase = .responding reply →
      isLocalRequest (st'.sessions j).request = true →
      MadeAt cfg st' j (st'.sessions j).number (st'.sessions j).request reply.message := by
  have hc := Reachable.core hr
  have kept : ∀ i reply, (st.sessions i).phase = .responding reply → isLocalRequest (st.sessions i).request = true →
      MadeAt cfg st' i (st.sessions i).number (st.sessions i).request reply.message :=
    fun i reply hph hl => (h.responding i reply hph hl).step (hc.proxies.grows hs) hst
  have elsewhere : ∀ {i : Nat} {s : Session}, st'.sessions = Function.update st.sessions i s →
      isLocalRequest s.request = false → (st'.sessions j).phase = .responding reply →
      isLocalRequest (st'.sessions j).request = true →
      MadeAt cfg st' j (st'.sessions j).number (st'.sessions j).request reply.message :=
    fun hu hf => LocalInv.move kept hu (fun _ _ hl => by rw [hf] at hl; cases hl) j reply
  cases hs with
  | tick _ _ | proxyStep _ _ _ _ _ _ _ _ | proxyThrow _ _ _ _ _ _ _ _ | health _ _ _ _ _ _ => exact kept j reply
  | accept i | readError i | readCacheable i | readOther i | miss i | lead i | wait i | leadUnavailable i | leadFetch i
  | leadThrow i | directFetch i | directThrow i | store i | respond i | writtenNext i | writtenLast i =>
    exact LocalInv.move kept (i := i) rfl (fun reply e => by cases e) j reply
  | readLocal i request response _ _ hl hresp =>
    refine LocalInv.move kept (i := i) rfl (fun reply e _ => ?_) j reply
    obtain rfl := Phase.responding.inj e
    exact ⟨st, _, st.now, hr, hst, Lts.Reach.refl _, List.getLast?_concat,
      List.mem_append_right _ (List.mem_singleton.2 rfl), hresp⟩
  | hit i key cached hph _ | missAlone i key hph _ _ =>
    have hi := hc.path i
    rw [PathOk, hph] at hi
    exact elsewhere rfl hi.2.2
  | release i key _ hph =>
    have hi := hc.path i
    rw [PathOk, hph] at hi
    exact elsewhere rfl hi.2.2.1
  | callback pre post w _ _ hp =>
    obtain ⟨k, hk⟩ := hc.callback_waiting hp
    have hi := hc.path w
    rw [PathOk, hk] at hi
    exact elsewhere rfl hi.2.2.1
  | directUnavailable i hph hsel =>
    have hi := hc.path i
    rw [PathOk, hph] at hi
    exact elsewhere rfl hi.2
  | proxyFlight id p q event i key r =>
    exact LocalInv.move kept (i := i) rfl
      (fun reply e => absurd e (flightPhase_ne (p := .responding reply) (fun e => by cases e) _ true)) j reply
  | proxyDirect id p q event i r _ hp hop hh =>
    have hi := hc.path i
    rw [PathOk, hc.proxies.direct_phase hp hop hh] at hi
    exact elsewhere rfl hi.2

theorem Reachable.local_made (h : Reachable cfg st) : LocalInv cfg st := by
  refine h.invWith (I := LocalInv cfg) (J := Reachable cfg) (fun _ hr => hr)
    ⟨fun i reply e => (by cases e), fun t i n reply hm => (by cases hm)⟩ ?_
  intro st a st' hr hi _ hst
  have hs := step_sound a hst
  have g := (Reachable.core hr).proxies.grows hs
  refine ⟨hi.responding_step hr hst hs, fun t i n reply hm => ?_⟩
  rcases hs.wrote hm with hm | ⟨rfl, hph⟩
  · obtain ⟨b, request, hb, hmade⟩ := hi.wrote t i n reply hm
    exact ⟨b, request, g.mem hb, fun hl => (hmade hl).step g hst⟩
  · exact ⟨_, _, g.mem ((Reachable.requests hr).current i (by rw [hph]; rfl)),
      fun hl => (hi.responding i reply hph hl).step g hst⟩

/-- The answer to `GET /metrics` is the text of the registry. -/
theorem localResponse_metrics {m : MetricsRegistry} {pool : UpstreamPool} {request : HttpRequest} {message : HttpResponse}
    (h : localResponse cfg m pool request = .ok message) (hm : isMetricsRequest request = true)
    (hget : request.method = .get) : message.body = m.render cfg.formatSum pool := by
  have hhealth : isHealthRequest request = false := by
    have htarget := of_decide_eq_true hm
    rw [isHealthRequest, htarget]
    decide
  rw [localResponse, if_neg (by simp [hhealth, hget])] at h
  rw [HttpResponse.preparePayload_ok h]

/-- **Every answer to `GET /metrics` is read back as the samples of the registry and the flags as the step that read the
request left them**, exactly if no configured host has a quote, a backslash or a line break. -/
theorem Reachable.scraped_iff (h : Reachable cfg st) (hsum : ∀ n, ∀ c ∈ cfg.formatSum n, valueChar c = true) {t b : Int}
    {i n : Nat} {request : HttpRequest} {reply : Reply} (hw : ⟨t, .wrote i n reply⟩ ∈ st.log)
    (hb : ⟨b, .received i n request⟩ ∈ st.log) (hm : isMetricsRequest request = true) (hget : request.method = .get) :
    ∃ st₁ st₀, Reachable cfg st₁ ∧ step cfg st₁ (.read i (.ok request)) = some st₀ ∧
      Lts.Reach (step cfg) Lts.anyStep st₀ st ∧ st₀.log.getLast? = some ⟨b, .received i n request⟩ ∧
      (Exposition.read reply.message.body = some ((st₀.metrics.samples cfg.formatSum st₀.pool).map Sample.line) ↔
        ∀ x ∈ cfg.pool.backends, ∀ c ∈ x.endpoint.host, plainChar c = true) := by
  obtain ⟨b', request', hb', hmade⟩ := (Reachable.local_made h).wrote t i n reply hw
  obtain ⟨-, rfl⟩ := (Reachable.requests h).unique b b' i n request request' hb hb'
  obtain ⟨st₁, st₀, b₀, hr₁, hread, hto, hlast, hb₀, hresp⟩ := hmade (by rw [isLocalRequest, hm, Bool.or_true])
  have hr₀ : Reachable cfg st₀ := hr₁.tail trivial hread
  obtain ⟨rfl, -⟩ := (Reachable.requests h).unique b b₀ i n request request hb hb₀
  refine ⟨st₁, st₀, hr₁, hread, hto, hlast, ?_⟩
  rw [localResponse_metrics hresp hm hget, MetricsRegistry.read_render_iff hsum]
  have hlabels : (∀ u ∈ st₀.metrics.upstreams, ∀ c ∈ u.label, plainChar c = true) ↔
      ∀ l ∈ st₀.metrics.upstreams.map UpstreamMetrics.label, ∀ c ∈ l, plainChar c = true := by rw [List.forall_mem_map]
  rw [hlabels, (Reachable.selections hr₀).labels, List.forall_mem_map]
  exact forall₂_congr (fun x _ => plain_endpointLabel x.endpoint)

/-- One upstream, and a scrape. -/
def scrapeConfig (host : String) : Config :=
  { sampleConfig with pool := ⟨[⟨⟨host.toList, 80⟩, true⟩], 0, Nat.zero_lt_one⟩ }

def scrape : List Action := [.accept 0, .read 0 (.ok (getOf "/metrics".toList [])), .respond 0]

/-- A state after the scrape, and what its answer is read as. -/
def Scraped (host : String) (readBack : Bool) : Prop :=
  ∃ (st st₁ st₀ : State) (t b : Int) (reply : Reply), Reachable (scrapeConfig host) st ∧
    ⟨t, .wrote 0 1 reply⟩ ∈ st.log ∧ step (scrapeConfig host) st₁ (.read 0 (.ok (getOf "/metrics".toList []))) = some st₀ ∧
    st₀.log.getLast? = some ⟨b, .received 0 1 (getOf "/metrics".toList [])⟩ ∧
    (Exposition.read reply.message.body = some ((st₀.metrics.samples (fun _ => []) st₀.pool).map Sample.line) ↔
      readBack = true)

/-- The text with the host `a` is read back; with a quote in the host it is not. -/
theorem scraped_iff_quote : Scraped "a" true ∧ Scraped "a\"" false := by
  have made : ∀ host : String, (Lts.run (Lts.guarded (step (scrapeConfig host)) (fun _ _ => true))
      (init (scrapeConfig host)) scrape).any (fun st => decide (∃ e ∈ st.log, e.event = .received 0 1
        (getOf "/metrics".toList [])) && wroteWith st 0 1 (fun _ => true)) = true →
      Scraped host (host.toList.all plainChar) := by
    intro host hrun
    obtain ⟨st, hr, hf⟩ := Lts.exists_reach (step (scrapeConfig host)) (fun _ _ => true) (init (scrapeConfig host)) scrape
      _ hrun
    rw [Bool.and_eq_true, wroteWith_iff] at hf
    obtain ⟨hb, t, reply, ht, -⟩ := hf
    obtain ⟨⟨b, e⟩, hb, rfl⟩ := of_decide_eq_true hb
    obtain ⟨st₁, st₀, -, hread, -, hlast, hiff⟩ :=
      Reachable.scraped_iff hr.any (fun _ c hc => by cases hc) ht hb rfl rfl
    refine ⟨st, st₁, st₀, t, b, reply, hr.any, ht, hread, hlast, hiff.trans ?_⟩
    rw [List.all_eq_true]
    exact List.forall_mem_singleton
  exact ⟨made "a" (by decide +kernel), made "a\"" (by decide +kernel)⟩

end Server
end EventEdge
