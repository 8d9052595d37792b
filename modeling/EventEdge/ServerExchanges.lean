import EventEdge.Runs
import EventEdge.ServerDeadlines
/-!
# ServerExchanges — every exchange runs its operations in order, once each

A handler whose operation succeeded starts the next one of resolve, connect, write, read; a handler whose operation
failed, or read, completes the proxy (`handle_starts`, `handle_result`).  `exchange id as` are the completed operations
of proxy `id` in a run, in order.  `Exchanged` is what they say about the proxy: as long as it is under way they are the
first ones of resolve, connect, write, read, all without error, and the next one is outstanding; a proxy that completed
did so at the last of them, which failed or is the read; and one whose handler threw did so at the read, of a message
that has a body its status forbids.
-/
namespace EventEdge

/-! ## One proxy -/

/-- The operations of an exchange, in the order in which each starts the next. -/
def ProxyOp.all : List ProxyOp := [.resolve, .connect, .write, .read]

/-- This operation and those after it. -/
def ProxyOp.rest : ProxyOp → List ProxyOp
  | .resolve => [.resolve, .connect, .write, .read]
  | .connect => [.connect, .write, .read]
  | .write => [.write, .read]
  | .read => [.read]

def ProxyOp.left (op : ProxyOp) : Nat := op.rest.length

theorem ProxyOp.rest_next {op op' : ProxyOp} (h : op.next = some op') : op.rest = op :: op'.rest := by
  cases op <;> cases h <;> rfl

theorem ProxyOp.rest_head (op : ProxyOp) : [op] <+: op.rest := by
  cases op <;> exact ⟨_, rfl⟩

theorem ProxyOp.left_le (op : ProxyOp) : op.left ≤ 4 := by
  cases op <;> decide

theorem ProxyOp.left_pos (op : ProxyOp) : 0 < op.left := by
  cases op <;> decide

theorem ProxyOp.left_next {op op' : ProxyOp} (h : op.next = some op') : op.left = op'.left + 1 := by
  unfold left
  rw [rest_next h]
  rfl

/-- The operation brought no error. -/
def ProxyEvent.ok : ProxyEvent → Bool
  | .resolved e | .connected e | .wrote e => e.isNone
  | .read (.ok _) => true
  | .read (.error _) => false

/-- An outcome for every operation. -/
def ProxyOp.failure : ProxyOp → ProxyEvent
  | .resolve => .resolved (some .other)
  | .connect => .connected (some .other)
  | .write => .wrote (some .other)
  | .read => .read (.error .other)

theorem ProxyOp.op_failure (op : ProxyOp) : op.failure.op = op := by
  cases op <;> rfl

namespace UpstreamProxy

/-- The operations that have still to complete. -/
def left (p : UpstreamProxy) : Nat :=
  match p.outstanding with
  | [] => 0
  | op :: _ => op.left

variable (B : Beast) {timeouts : ProxyTimeouts} {now : Int} {p q : UpstreamProxy} {h : CompletionHandler}
  {ev : ProxyEvent}

theorem left_le (p : UpstreamProxy) : p.left ≤ 4 := by
  unfold left
  split
  · exact Nat.zero_le 4
  · exact ProxyOp.left_le _

/-- The handler of an operation that failed calls `fail`. -/
theorem handle_failed (timeouts : ProxyTimeouts) (now : Int) (p : UpstreamProxy) {ev : ProxyEvent} (h : ev.ok = false) :
    ∃ e, p.handle B timeouts now ev = p.fail B e := by
  match ev with
  | .resolved none | .connected none | .wrote none | .read (.ok _) => cases h
  | .resolved (some e) | .connected (some e) | .wrote (some e) | .read (.error e) => exact ⟨e, rfl⟩

/-- **A handler that does not complete starts the next operation**, after one that succeeded. -/
theorem handle_starts (hc : p.completed = false) (hh : p.completionHandler = some h)
    (he : p.handle B timeouts now ev = .ok (q, none)) :
    ∃ op d, ev.op.next = some op ∧ ev.ok = true ∧ q = p.startOp op d := by
  obtain ⟨op, hnext, hq⟩ := handle_next B hc hh 0 he
  refine ⟨op, _, hnext, ?_, hq⟩
  by_contra hbad
  obtain ⟨e, hf⟩ := handle_failed B timeouts now p (by simpa using hbad)
  obtain ⟨r, -, hr⟩ := fail_running B p h e hc hh
  rw [hf, hr] at he
  cases he

/-- **A handler that completes is that of the read, or of an operation that failed.** -/
theorem handle_ends {c : CompletionHandler × HttpResponse} (he : p.handle B timeouts now ev = .ok (q, some c)) :
    ev.ok = false ∨ ev.op = .read := by
  match ev with
  | .resolved none | .connected none | .wrote none => cases he
  | .resolved (some e) | .connected (some e) | .wrote (some e) => exact .inl rfl
  | .read _ => exact .inr rfl

/-- **What a proxy completes with**: the message it read, prepared for the client, or a 502 or 504 after an error. -/
theorem handle_result {h' : CompletionHandler} {r : HttpResponse} (hc : p.completed = false)
    (hh : p.completionHandler = some h) (he : p.handle B timeouts now ev = .ok (q, some (h', r))) :
    (∃ raw, ev = .read (.ok raw) ∧ (p.relayed B raw).preparePayload B = .ok r) ∨
      (ev.ok = false ∧ (r.result = 502 ∨ r.result = 504)) := by
  cases hok : ev.ok with
  | false =>
    obtain ⟨e, hf⟩ := handle_failed B timeouts now p hok
    obtain ⟨r', hr', heq⟩ := fail_running B p h e hc hh
    rw [hf, heq] at he
    cases he
    refine .inr ⟨rfl, ?_⟩
    rw [hr']
    cases e
    · exact .inr rfl
    · exact .inl rfl
  | true =>
    match ev with
    | .resolved none | .connected none | .wrote none => cases he
    | .resolved (some e) | .connected (some e) | .wrote (some e) | .read (.error e) => cases hok
    | .read (.ok raw) =>
      refine .inl ⟨raw, rfl, ?_⟩
      simp only [handle] at he
      cases hp : (p.relayed B raw).preparePayload B with
      | error _ => simp only [onRead, hp] at he; cases he
      | ok r' => rw [onRead_running B p h raw r' hc hh hp] at he; cases he; rfl

end UpstreamProxy

namespace Server

/-! ## In a run -/

def Action.eventOf (id : Nat) : Action → Option ProxyEvent
  | .proxy id' event => if id' = id then some event else none
  | _ => none

/-- The completed operations of proxy `id`. -/
def exchange (id : Nat) (as : List Action) : List ProxyEvent := as.filterMap (Action.eventOf id)

/-- **What the completed operations say about the proxy.** -/
inductive Exchanged (stopped : Bool) (p : UpstreamProxy) (es : List ProxyEvent) : Prop
  | underWay (op : ProxyOp) : p.completed = false → p.outstanding = [op] →
      es.map ProxyEvent.op ++ op.rest = ProxyOp.all → (∀ e ∈ es, e.ok = true) → Exchanged stopped p es
  | ended (pre : List ProxyEvent) (last : ProxyEvent) : p.completed = true → p.outstanding = [] → es = pre ++ [last] →
      es.map ProxyEvent.op <+: ProxyOp.all → (∀ e ∈ pre, e.ok = true) → last.ok = false ∨ last.op = .read →
      Exchanged stopped p es
  | threw (pre : List ProxyEvent) (raw : HttpResponse) : p.completed = false → p.outstanding = [] → stopped = true →
      es = pre ++ [.read (.ok raw)] → es.map ProxyEvent.op = ProxyOp.all → (∀ e ∈ pre, e.ok = true) →
      bodiless raw.result = true → raw.body ≠ [] → Exchanged stopped p es

/-- Every proxy ever started has the operations it should, and no other number has any. -/
def ExchangeInv (st : State) (as : List Action) : Prop :=
  ∀ id, (st.proxies[id]? = none → exchange id as = []) ∧
    ∀ p, st.proxies[id]? = some p → Exchanged st.stopped p (exchange id as)

variable {cfg : Config} {st st' : State} {a : Action} {as : List Action}

theorem exchange_snoc (id : Nat) (as : List Action) (a : Action) :
    exchange id (as ++ [a]) = exchange id as ++ (a.eventOf id).toList := by
  unfold exchange
  rw [List.filterMap_append]
  cases h : a.eventOf id <;> simp [h]

theorem exchange_snoc_other {id : Nat} (h : a.eventOf id = none) : exchange id (as ++ [a]) = exchange id as := by
  rw [exchange_snoc, h]; simp

theorem Exchanged.stop {s s' : Bool} {p : UpstreamProxy} {es : List ProxyEvent} (h : Exchanged s p es)
    (hs : s = true → s' = true) : Exchanged s' p es := by
  cases h with
  | underWay op h1 h2 h3 h4 => exact .underWay op h1 h2 h3 h4
  | ended pre last h1 h2 h3 h4 h5 h6 => exact .ended pre last h1 h2 h3 h4 h5 h6
  | threw pre raw h1 h2 h3 h4 h5 h6 h7 h8 => exact .threw pre raw h1 h2 (hs h3) h4 h5 h6 h7 h8

/-- An operation completes of a proxy that is under way. -/
theorem Exchanged.running {s : Bool} {p : UpstreamProxy} {es : List ProxyEvent} {event : ProxyEvent}
    (h : Exchanged s p es) (hop : event.op ∈ p.outstanding) :
    p.outstanding = [event.op] ∧ es.map ProxyEvent.op ++ event.op.rest = ProxyOp.all ∧ ∀ e ∈ es, e.ok = true := by
  cases h with
  | underWay op h1 h2 h3 h4 =>
    rw [h2, List.mem_singleton] at hop
    rw [h2, hop]
    exact ⟨rfl, h3, h4⟩
  | ended _ _ _ h2 => rw [h2] at hop; cases hop
  | threw _ _ _ h2 => rw [h2] at hop; cases hop

/-- The step of a proxy: the others keep theirs. -/
theorem ExchangeInv.proxy (h : ExchangeInv st as) {id : Nat} {p q : UpstreamProxy} {event : ProxyEvent}
    (hp : st.proxies[id]? = some p) (hps : st'.proxies = st.proxies.set id q)
    (ht : st.stopped = true → st'.stopped = true) (hq : Exchanged st'.stopped q (exchange id as ++ [event])) :
    ExchangeInv st' (as ++ [.proxy id event]) := by
  intro j
  by_cases hj : j = id
  · subst hj
    have hself : exchange j (as ++ [.proxy j event]) = exchange j as ++ [event] := by
      rw [exchange_snoc]; simp [Action.eventOf]
    have hlt := (List.getElem?_eq_some_iff.1 hp).1
    rw [hself, hps, List.getElem?_set_self hlt]
    exact ⟨nofun, fun p' hp' => by cases hp'; exact hq⟩
  · have hne : Action.eventOf j (.proxy id event) = none := if_neg (Ne.symm hj)
    rw [exchange_snoc_other hne, hps, List.getElem?_set_ne (Ne.symm hj)]
    exact ⟨(h j).1, fun p' hp' => ((h j).2 p' hp').stop ht⟩

/-- No operation completes, and no proxy changes. -/
theorem ExchangeInv.same (h : ExchangeInv st as) (ha : ∀ id, a.eventOf id = none) (hps : st'.proxies = st.proxies)
    (ht : st.stopped = true → st'.stopped = true) : ExchangeInv st' (as ++ [a]) := by
  intro id
  rw [exchange_snoc_other (ha id), hps]
  exact ⟨(h id).1, fun p hp => ((h id).2 p hp).stop ht⟩

/-- A proxy starts: its first operation is outstanding. -/
theorem ExchangeInv.start (h : ExchangeInv st as) {p : UpstreamProxy} (ha : ∀ id, a.eventOf id = none)
    (hps : st'.proxies = st.proxies ++ [p]) (ht : st'.stopped = st.stopped) (hc : p.completed = false)
    (ho : p.outstanding = [.resolve]) : ExchangeInv st' (as ++ [a]) := by
  intro id
  rw [exchange_snoc_other (ha id), hps, ht]
  constructor
  · intro hnone
    refine (h id).1 (List.getElem?_eq_none ?_)
    have := List.getElem?_eq_none_iff.1 hnone
    rw [List.length_append] at this
    omega
  · intro q hq
    rcases Lts.getElem?_snoc_iff.1 hq with hq | ⟨rfl, rfl⟩
    · exact (h id).2 q hq
    · have hempty : exchange st.proxies.length as = [] := (h st.proxies.length).1 (List.getElem?_eq_none (Nat.le_refl _))
      rw [hempty]
      exact .underWay .resolve hc ho rfl nofun

theorem Exchanged.map_snoc {es : List ProxyEvent} {event : ProxyEvent}
    (h : es.map ProxyEvent.op ++ event.op.rest = ProxyOp.all) :
    (es ++ [event]).map ProxyEvent.op <+: ProxyOp.all := by
  rw [← h, List.map_append]
  exact List.prefix_append_right_inj _ |>.2 event.op.rest_head

theorem ExchangeInv.step (h : ExchangeInv st as) (hc : CoreInv cfg st) (hs : Step cfg st a st') :
    ExchangeInv st' (as ++ [a]) := by
  cases hs with
  | leadFetch _ _ _ _ _ _ hrun | directFetch _ _ _ _ _ hrun =>
    obtain rfl := UpstreamProxy.run_ok _ _ _ hrun
    exact h.start (fun _ => rfl) rfl rfl rfl rfl
  | leadThrow | directThrow => exact h.same (fun _ => rfl) rfl (fun _ => rfl)
  | proxyStep id p q event _ hp hop hh =>
    obtain ⟨hcomp, -, hch, -⟩ := hc.proxies.event hp hop
    obtain ⟨hout, hops, hok⟩ := ((h id).2 p hp).running hop
    obtain ⟨op, d, hnext, hevent, rfl⟩ := UpstreamProxy.handle_starts cfg.beast (p := withoutOp p event) hcomp hch hh
    refine h.proxy hp rfl (fun ht => ht) (.underWay op hcomp ?_ ?_ ?_)
    · simp [UpstreamProxy.startOp, withoutOp, hout]
    · rw [List.map_append, List.append_assoc, ← hops, ProxyOp.rest_next hnext]
      rfl
    · intro e he
      rcases List.mem_append.1 he with he | he
      · exact hok e he
      · rw [List.mem_singleton.1 he]; exact hevent
  | proxyFlight id p q event _ _ r _ hp hop hh | proxyDirect id p q event _ r _ hp hop hh =>
    obtain ⟨-, -, hq, hout, -⟩ := hc.proxies.finished hp hop hh
    obtain ⟨-, hops, hok⟩ := ((h id).2 p hp).running hop
    exact h.proxy hp rfl (fun ht => ht) (.ended _ event (by rw [hq]) hout rfl (Exchanged.map_snoc hops) hok
      (UpstreamProxy.handle_ends cfg.beast hh))
  | proxyThrow id p event e _ hp hop hh =>
    obtain ⟨hcomp, -, hch, -⟩ := hc.proxies.event hp hop
    obtain ⟨hout, hops, hok⟩ := ((h id).2 p hp).running hop
    have hbad := (UpstreamProxy.handle_error_iff cfg.beast cfg.timeouts st.now (withoutOp p event) _ event hcomp hch).1
      (by rw [hh])
    obtain ⟨raw, rfl, hbody, hne⟩ := hbad
    refine h.proxy hp rfl (fun _ => rfl) (.threw _ raw hcomp ?_ rfl rfl ?_ hok hbody hne)
    · simp [withoutOp, hout]
    · rw [List.map_append]; exact hops
  | _ => exact h.same (fun _ => rfl) rfl (fun ht => ht)

theorem exchangeInv_init : ExchangeInv (init cfg) [] :=
  fun _ => ⟨fun _ => rfl, fun _ hnone => (by cases hnone)⟩

/-- **Every exchange runs its operations in order, once each**: in every run, and whatever happens between them, the
completed operations of a proxy are the first ones of resolve, connect, write, read; all but the last succeeded; the
next one is outstanding as long as it has not completed, and it completes at the first that fails or at the read. -/
theorem exchange_ordered (hrun : Lts.run (step cfg) (init cfg) as = some st) {id : Nat} {p : UpstreamProxy}
    (hp : st.proxies[id]? = some p) : Exchanged st.stopped p (exchange id as) := by
  have h := Lts.run_history (R := fun st as => CoreInv cfg st ∧ ExchangeInv st as)
    (fun s a s' pre hi hs => ⟨hi.1.step (step_sound a hs), hi.2.step hi.1 (step_sound a hs)⟩) as
    ⟨coreInv_init, exchangeInv_init⟩ hrun
  exact (h.2 id).2 p hp

/-- The operations of a fetch, other steps between them; it completed at the read. -/
theorem exchange_ordered_fetch : ∃ st p, Lts.run (step sampleConfig) (init sampleConfig)
      (coldMisses (getOf "/x".toList []) (getOf "/x".toList []) ++ upstreamAnswers 0 ⟨200, 11, [], []⟩) = some st ∧
    st.proxies[0]? = some p ∧ p.completed = true ∧
    Exchanged st.stopped p (exchange 0
      (coldMisses (getOf "/x".toList []) (getOf "/x".toList []) ++ upstreamAnswers 0 ⟨200, 11, [], []⟩)) := by
  obtain ⟨st, hrun, hf⟩ := Lts.exists_run (step sampleConfig) (init sampleConfig)
    (coldMisses (getOf "/x".toList []) (getOf "/x".toList []) ++ upstreamAnswers 0 ⟨200, 11, [], []⟩)
    (fun st => st.proxies[0]?.any UpstreamProxy.completed) (by decide +kernel)
  obtain ⟨p, hp, hc⟩ := (Option.any_eq_true _ _).1 hf
  exact ⟨st, p, hrun, hp, hc, exchange_ordered hrun hp⟩

end Server
end EventEdge
