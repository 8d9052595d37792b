import EventEdge.Framing
import EventEdge.ServerSharing
/-!
# ServerStoring — which responses are put into the cache

What HTTP forbids to store is said by the directives of all Cache-Control fields, whatever their case
(`forbidsStoring`).  `cacheable_response` looks for two texts in the first one, as they are spelled, and sees it only
after the fields the Connection field names are gone: what it sees is `seenForbidden`, and that alone keeps a response
out of the cache (`completeFlight_cache_iff`).  It sees all it should if there is one Cache-Control field, in lower
case, and no Connection option names it or Set-Cookie.
-/
namespace EventEdge

/-! ## Directives -/

/-- The directive names of a Cache-Control value. -/
def directives (value : Str) : List Str :=
  (value.splitOn ',').map (fun d => (d.dropWhile isBlank).takeWhile (fun c => c != '=' && !isBlank c))

/-- **What no shared cache may store.** -/
def forbidsStoring (response : HttpResponse) : Bool :=
  decide (response.result ≠ 200) || response.fields.has HeaderField.setCookie.text ||
    (response.fields.values HeaderField.cacheControl.text).any (fun v =>
      (directives v).any (fun d => iequals d "no-store".toList || iequals d "private".toList))

/-- One Cache-Control field at most, in lower case, and no Connection option takes it or Set-Cookie away. -/
def plainControl (response : HttpResponse) : Bool :=
  decide ((response.fields.values HeaderField.cacheControl.text).length ≤ 1) &&
    (response.fields.value HeaderField.cacheControl.text).all (fun c => c.toLower == c) &&
    (connectionOptions response.fields).all (fun n =>
      !iequals HeaderField.setCookie.text n && !iequals HeaderField.cacheControl.text n)

theorem mem_intersperse {l s : Str} : ∀ {L : List Str}, l ∈ L → l ∈ L.intersperse s
  | [_], h => h
  | a :: b :: L, h => by
    rw [List.intersperse_cons_cons]
    rcases List.mem_cons.1 h with rfl | h
    · exact List.mem_cons_self
    · exact List.mem_cons_of_mem _ (List.mem_cons_of_mem _ (mem_intersperse h))

theorem isInfix_of_mem_splitOn {value d : Str} (h : d ∈ value.splitOn ',') : d <:+: value := by
  have := List.infix_of_mem_flatten (mem_intersperse (s := [',']) h)
  rwa [show ((value.splitOn ',').intersperse [',']).flatten = value from List.intercalate_splitOn ','] at this

theorem isInfix_of_mem_directives {value d : Str} (h : d ∈ directives value) : d <:+: value := by
  obtain ⟨piece, hp, rfl⟩ := List.mem_map.1 h
  exact ((List.takeWhile_prefix _).isInfix.trans (List.dropWhile_suffix _).isInfix).trans (isInfix_of_mem_splitOn hp)

namespace Server

theorem containsText_iff (needle : Str) : ∀ s : Str, containsText needle s = true ↔ needle <:+: s
  | [] => by simp [containsText]
  | c :: s => by
    rw [containsText, Bool.or_eq_true, List.isPrefixOf_iff_prefix, containsText_iff needle s, List.infix_cons_iff]

/-- A directive spelled in lower case is found by its text. -/
theorem containsText_of_directive {value d name : Str} (hv : value.all (fun c => c.toLower == c) = true)
    (hn : name.map Char.toLower = name) (hd : d ∈ directives value) (he : iequals d name = true) :
    containsText name value = true := by
  have hsub := isInfix_of_mem_directives hd
  have hlower : d.map Char.toLower = d := by
    have hid : d.map Char.toLower = d.map id := List.map_congr_left (fun c hc =>
      eq_of_beq (List.all_eq_true.1 hv c (hsub.subset hc)))
    rw [hid, List.map_id]
  rw [iequals, decide_eq_true_eq, hlower, hn] at he
  rw [containsText_iff, ← he]
  exact hsub

/-! ## A flight that completes -/

variable {cfg : Config} {st : State}

/-- `complete_flight`, its calls one after the other. -/
def completeFlight (cfg : Config) (st : State) (i : Nat) (key : Str) (reply : Reply) (shouldCache : Bool) : State :=
  let st := st.setPhase i (flightPhase key reply shouldCache)
  let st := if shouldCache && cacheableResponse reply.message then onPut st i key reply else st
  onComplete cfg st i key reply

/-- **The server's steps from the completion of a run, or from a leader's 503, are `complete_flight`.** -/
theorem run_completeFlight (i : Nat) (key : Str) (reply : Reply) (shouldCache : Bool) :
    Lts.run (step cfg) (st.setPhase i (flightPhase key reply shouldCache))
        (if shouldCache && cacheableResponse reply.message then [.put i, .complete i] else [.complete i]) =
      some (completeFlight cfg st i key reply shouldCache) := by
  have hphase : ∀ p, ((st.setPhase i p).sessions i).phase = p := fun p => by simp [State.setPhase, State.setSession]
  unfold completeFlight flightPhase
  cases hc : shouldCache && cacheableResponse reply.message with
  | true =>
    have hput : ((onPut (st.setPhase i (.storing key reply)) i key reply).sessions i).phase = .completing key reply := by
      simp [onPut, State.setPhase, State.setSession, State.record]
    simp [Lts.run, step, hphase, hput]
  | false => simp [Lts.run, step, hphase]

/-- **What `cacheable_response` sees of the upstream's message.**  The fields a Connection option names are gone, of
several Cache-Control fields it reads the first, and in that it looks for two texts as they are spelled. -/
def seenForbidden (raw : HttpResponse) : Bool :=
  decide (raw.result ≠ 200) ||
    (!namedByConnection raw.fields HeaderField.setCookie.text && raw.fields.has HeaderField.setCookie.text) ||
    (!namedByConnection raw.fields HeaderField.cacheControl.text &&
      (containsText "no-store".toList (raw.fields.value HeaderField.cacheControl.text) ||
        containsText "private".toList (raw.fields.value HeaderField.cacheControl.text)))

theorem cacheableResponse_relayed {p : UpstreamProxy} {raw r : HttpResponse}
    (hr : (p.relayed cfg.beast raw).preparePayload cfg.beast = .ok r) : cacheableResponse r = !seenForbidden raw := by
  have hres : r.result = raw.result := by rw [HttpResponse.preparePayload_ok hr]; rfl
  have hcookie : r.fields.has HeaderField.setCookie.text =
      (!namedByConnection raw.fields HeaderField.setCookie.text && raw.fields.has HeaderField.setCookie.text) := by
    rw [Fields.has_eq, Fields.has_eq, UpstreamProxy.all_relayed hr _ (by decide) (by decide)]
    cases namedByConnection raw.fields HeaderField.setCookie.text <;> rfl
  have hcontrol : r.fields.value HeaderField.cacheControl.text =
      if namedByConnection raw.fields HeaderField.cacheControl.text then []
      else raw.fields.value HeaderField.cacheControl.text := by
    rw [Fields.value_eq, Fields.value_eq, Fields.values, Fields.values,
      UpstreamProxy.all_relayed hr _ (by decide) (by decide)]
    split <;> rfl
  rw [Bool.eq_iff_iff, cacheableResponse_iff, hres, isPrivate, hcookie, hcontrol, Bool.not_eq_true', seenForbidden]
  cases namedByConnection raw.fields HeaderField.cacheControl.text <;> simp [containsText, and_assoc]

theorem eq_singleton_of_mem {β : Type} : ∀ {l : List β} {x : β}, l.length ≤ 1 → x ∈ l → l = [x]
  | [_], _, _, h => by rw [List.mem_singleton.1 h]

/-- What may not be stored is seen, where the response says so plainly. -/
theorem seenForbidden_of_plain {raw : HttpResponse} (hf : forbidsStoring raw = true)
    (hplain : raw.result ≠ 200 ∨ plainControl raw = true) : seenForbidden raw = true := by
  simp only [seenForbidden, Bool.or_eq_true, decide_eq_true_eq]
  simp only [forbidsStoring, Bool.or_eq_true, decide_eq_true_eq, List.any_eq_true] at hf
  by_cases hres : raw.result ≠ 200
  · exact .inl (.inl hres)
  have hpl := hplain.resolve_left hres
  simp only [plainControl, Bool.and_eq_true, decide_eq_true_eq] at hpl
  obtain ⟨⟨hone, hlower⟩, hopt⟩ := hpl
  have named : ∀ name, (connectionOptions raw.fields).any (fun n => iequals name n) = false →
      (!namedByConnection raw.fields name) = true := by
    intro name hnot
    rw [namedByConnection_eq, hnot]
    rfl
  have hopts : ∀ n ∈ connectionOptions raw.fields,
      iequals HeaderField.setCookie.text n = false ∧ iequals HeaderField.cacheControl.text n = false := by
    intro n hn
    simpa using List.all_eq_true.1 hopt n hn
  rcases hf with (hf | hcookie) | ⟨v, hv, d, hd, he⟩
  · exact absurd hf hres
  · exact .inl (.inr (Bool.and_eq_true_iff.2
      ⟨named _ (List.any_eq_false.2 (fun n hn => Bool.eq_false_iff.1 (hopts n hn).1)), hcookie⟩))
  · -- the one Cache-Control value there is
    have hv' : raw.fields.value HeaderField.cacheControl.text = v := by
      rw [Fields.value_eq, eq_singleton_of_mem hone hv]
      rfl
    rw [hv'] at hlower ⊢
    refine .inr (Bool.and_eq_true_iff.2
      ⟨named _ (List.any_eq_false.2 (fun n hn => Bool.eq_false_iff.1 (hopts n hn).2)), Bool.or_eq_true_iff.2 ?_⟩)
    exact he.imp (containsText_of_directive hlower (by decide) hd) (containsText_of_directive hlower (by decide) hd)

theorem completeFlight_cache (st : State) (i : Nat) (key : Str) (reply : Reply) :
    (completeFlight cfg st i key reply true).cache =
      if cacheableResponse reply.message then st.cache.put key reply st.now else st.cache := by
  unfold completeFlight
  cases cacheableResponse reply.message <;> rfl

/-- **A response is kept out of the cache exactly if `cacheable_response` sees that it may not be stored**; any other is
what the cache has for the key after.  What a response says plainly is seen. -/
theorem completeFlight_cache_iff (i id : Nat) (key : Str) {p : UpstreamProxy} {raw r : HttpResponse}
    (hr : (p.relayed cfg.beast raw).preparePayload cfg.beast = .ok r) :
    ((∀ st, (completeFlight cfg st i key ⟨r, .proxy id⟩ true).cache = st.cache) ↔ seenForbidden raw = true) ∧
    (seenForbidden raw = false → ∀ st, ∃ e,
      (completeFlight cfg st i key ⟨r, .proxy id⟩ true).cache.entries.lookup key = some e ∧
      e.response = ⟨r, .proxy id⟩) ∧
    (forbidsStoring raw = true → raw.result ≠ 200 ∨ plainControl raw = true → seenForbidden raw = true) := by
  have hcache : ∀ st, (completeFlight cfg st i key ⟨r, .proxy id⟩ true).cache =
      if seenForbidden raw then st.cache else st.cache.put key ⟨r, .proxy id⟩ st.now := by
    intro st
    rw [completeFlight_cache, cacheableResponse_relayed hr]
    cases seenForbidden raw <;> rfl
  have stored : seenForbidden raw = false → ∀ st, ∃ e,
      (completeFlight cfg st i key ⟨r, .proxy id⟩ true).cache.entries.lookup key = some e ∧
      e.response = ⟨r, .proxy id⟩ := by
    intro hseen st
    rw [hcache, hseen]
    obtain ⟨e, he, hreply, -⟩ := st.cache.lookup_put_self key st.now ⟨r, .proxy id⟩
    exact ⟨e, he, hreply⟩
  refine ⟨⟨fun hall => ?_, fun hseen st => by rw [hcache, hseen]; rfl⟩, stored, seenForbidden_of_plain⟩
  -- an empty cache shows the difference
  by_contra hnot
  obtain ⟨e, he, -⟩ := stored (Bool.eq_false_iff.2 hnot) (init cfg)
  rw [hall (init cfg)] at he
  cases he

def controlled (value : Str) : HttpResponse := ⟨200, 11, [⟨"Cache-Control".toList, value⟩], "hi".toList⟩

/-- The run of a GET, before its response is read. -/
def sampleProxy : UpstreamProxy :=
  UpstreamProxy.make referenceBeast ⟨"a".toList, 80⟩ (getOf "/x".toList []) (.flight 0 "/x".toList)
    ⟨.flight 0 "/x".toList, 1, getOf "/x".toList [], 0⟩

theorem completeFlight_no_store : ∃ r,
    (sampleProxy.relayed referenceBeast (controlled "max-age=0, no-store".toList)).preparePayload referenceBeast = .ok r ∧
    forbidsStoring (controlled "max-age=0, no-store".toList) = true ∧
    ∀ st, (completeFlight sampleConfig st 0 "/x".toList ⟨r, .proxy 0⟩ true).cache = st.cache := by
  have hforbids : forbidsStoring (controlled "max-age=0, no-store".toList) = true := by decide +kernel
  have hplain : plainControl (controlled "max-age=0, no-store".toList) = true := by decide +kernel
  obtain ⟨r, hr⟩ : ∃ r, (sampleProxy.relayed sampleConfig.beast (controlled "max-age=0, no-store".toList)).preparePayload
      sampleConfig.beast = .ok r := ⟨_, rfl⟩
  obtain ⟨hiff, -, hseen⟩ := completeFlight_cache_iff 0 0 "/x".toList hr
  exact ⟨r, hr, hforbids, hiff.2 (hseen hforbids (.inr hplain))⟩

/-- Run 0 is reading for the flight of `/x`, and the message would be the first thing stored. -/
def storesNext (raw : HttpResponse) (st : State) : Bool :=
  (st.proxies[0]?).any (fun p : UpstreamProxy =>
    decide (.read ∈ p.outstanding ∧ p.fetch.handler = .flight 0 "/x".toList) &&
      ((p.relayed referenceBeast raw).preparePayload referenceBeast).toOption.any (fun r : HttpResponse =>
        !(st.cache.entries.lookup "/x".toList).isSome &&
        ((completeFlight sampleConfig st 0 "/x".toList ⟨r, .proxy 0⟩ true).cache.entries.lookup "/x".toList).isSome))

/-- **A response marked `No-Store` is stored.** -/
theorem no_store_stored : ∃ st p r, Reachable sampleConfig st ∧ st.proxies[0]? = some p ∧ .read ∈ p.outstanding ∧
    p.fetch.handler = .flight 0 "/x".toList ∧ forbidsStoring (controlled "No-Store".toList) = true ∧
    (p.relayed referenceBeast (controlled "No-Store".toList)).preparePayload referenceBeast = .ok r ∧
    (st.cache.entries.lookup "/x".toList).isSome = false ∧
    ((completeFlight sampleConfig st 0 "/x".toList ⟨r, .proxy 0⟩ true).cache.entries.lookup "/x".toList).isSome = true := by
  obtain ⟨st, hr, hf⟩ := Lts.exists_reach (step sampleConfig) (fun _ _ => true) (init sampleConfig)
    ([.accept 0, .read 0 (.ok (getOf "/x".toList [])), .get 0, .join 0, .select 0] ++
      (upstreamAnswers 0 (controlled "No-Store".toList)).take 3)
    (storesNext (controlled "No-Store".toList)) (by decide +kernel)
  obtain ⟨p, hp, hf⟩ := (Option.any_eq_true _ _).1 hf
  rw [Bool.and_eq_true, decide_eq_true_eq] at hf
  obtain ⟨⟨hop, hh⟩, hf⟩ := hf
  obtain ⟨r, hprep, hf⟩ := (Option.any_eq_true _ _).1 hf
  rw [Bool.and_eq_true, Bool.not_eq_true'] at hf
  refine ⟨st, p, r, hr.any, hp, hop, hh, by decide +kernel, ?_, hf.1, hf.2⟩
  cases he : (p.relayed referenceBeast (controlled "No-Store".toList)).preparePayload referenceBeast with
  | error e => rw [he] at hprep; cases hprep
  | ok r' => rw [he] at hprep; cases hprep; rfl

end Server
end EventEdge
