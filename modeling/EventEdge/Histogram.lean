import EventEdge.Lts
import EventEdge.Metrics
/-!
# Histogram — `observe_duration` and `render`, one atomic at a time

A call of `observe_duration` is the list of its `fetch_add`s still to do, a call of `render` the list of its loads still
to do and the values loaded so far; every action performs one of them, so the calls interleave in every way
(`observeDuration_eq` and `render_text` say that a call by itself is the function of `Metrics`).

`Inv` counts: a counter has the number of calls that have added to it.  What is printed while no call is half done is a
cumulative histogram (`quiet_valid`); a load between two adds of one call sees the first and not the second.
-/
namespace EventEdge
namespace Histogram

/-! ## Calls -/

/-- The atomics of the duration histogram. -/
inductive Cell where
  | count | sum
  | bucket (i : Nat)
  deriving DecidableEq, Repr

def bound (i : Nat) : Int := ((buckets[i]?).map Prod.snd).getD 0

/-- The `fetch_add`s of `observe_duration`, in order. -/
def observeAdds (nanos : Int) : List Cell :=
  .count :: .sum :: ((List.range buckets.length).filter (fun i => decide (nanos ≤ bound i))).map .bucket

def fetchAdd (nanos : Int) (m : MetricsRegistry) : Cell → MetricsRegistry
  | .count => { m with durationCount := m.durationCount + 1 }
  | .sum => { m with durationSumNanos := m.durationSumNanos + UInt64.ofNat (nanos % 18446744073709551616).toNat }
  | .bucket i => { m with durationBuckets := m.durationBuckets.modify i (· + 1) }

def load (m : MetricsRegistry) : Cell → UInt64
  | .count => m.durationCount
  | .sum => m.durationSumNanos
  | .bucket i => (m.durationBuckets[i]?).getD 0

/-- The loads of `render`, in order: the buckets, `+Inf`, `_count` and `_sum`. -/
def renderLoads : List Cell := (List.range buckets.length).map .bucket ++ [.count, .count, .sum]

structure Printed where
  buckets : List UInt64
  inf : UInt64
  count : UInt64

/-- What `render` prints of the values it loaded. -/
def printed (values : List UInt64) : Printed :=
  ⟨values.take buckets.length, values.getD buckets.length 0, values.getD (buckets.length + 1) 0⟩

open MetricsRegistry (labelled counter) in
/-- The lines of the histogram, up to `_count`. -/
def Printed.text (p : Printed) : Str :=
  (EventEdge.buckets.zip p.buckets).flatMap (fun b =>
    labelled "eventedge_request_duration_seconds_bucket" "le" b.1.1 (Nat.repr b.2.toNat).toList) ++
  labelled "eventedge_request_duration_seconds_bucket" "le" "+Inf".toList (Nat.repr p.inf.toNat).toList ++
  counter "eventedge_request_duration_seconds_count" p.count

/-- **A cumulative histogram.** -/
structure Printed.Valid (p : Printed) : Prop where
  nondecreasing : p.buckets.Pairwise (· ≤ ·)
  below_inf : ∀ b ∈ p.buckets.getLast?, b ≤ p.inf
  inf_eq : p.inf = p.count

/-! ## Interleaving -/

structure Call where
  nanos : Int
  todo : List Cell

structure Render where
  todo : List Cell
  seen : List UInt64

structure State where
  metrics : MetricsRegistry
  calls : List Call
  render : Option Render

inductive Action where
  | observe (nanos : Int)
  | add (call : Nat)
  | render
  | load

def init (pool : UpstreamPool) : State := ⟨.make pool, [], none⟩

def step (st : State) : Action → Option State
  | .observe nanos => some { st with calls := st.calls ++ [⟨nanos, observeAdds nanos⟩] }
  | .add k => match st.calls[k]? with
    | some ⟨nanos, c :: todo⟩ =>
      some { st with metrics := fetchAdd nanos st.metrics c, calls := st.calls.set k ⟨nanos, todo⟩ }
    | _ => none
  | .render => some { st with render := some ⟨renderLoads, []⟩ }
  | .load => match st.render with
    | some ⟨c :: todo, seen⟩ => some { st with render := some ⟨todo, seen ++ [Histogram.load st.metrics c]⟩ }
    | _ => none

/-- What the last `render` printed, once it has loaded everything. -/
def rendered (st : State) : Option Printed :=
  st.render.bind (fun r => if r.todo = [] then some (printed r.seen) else none)

/-! ## One cell -/

variable {m : MetricsRegistry} {st st' : State} {pool : UpstreamPool}

/-- A cell that counts calls. -/
def Counts (c : Cell) : Prop := c = .count ∨ ∃ i, i < buckets.length ∧ c = .bucket i

theorem length_fetchAdd (nanos : Int) (m : MetricsRegistry) (c : Cell) :
    (fetchAdd nanos m c).durationBuckets.length = m.durationBuckets.length := by
  cases c with
  | bucket i => exact List.length_modify _ _ _
  | _ => rfl

theorem load_fetchAdd_self {c : Cell} (hc : Counts c) (hm : m.durationBuckets.length = buckets.length) (nanos : Int) :
    load (fetchAdd nanos m c) c = load m c + 1 := by
  rcases hc with rfl | ⟨i, hi, rfl⟩
  · rfl
  · rw [← hm] at hi
    simp [load, fetchAdd, List.getElem?_eq_getElem hi]

theorem load_fetchAdd_ne {c c' : Cell} (h : c' ≠ c) (nanos : Int) : load (fetchAdd nanos m c) c' = load m c' := by
  cases c <;> cases c' <;> first | rfl | exact absurd rfl h | skip
  rename_i i j
  have hij : i ≠ j := fun e => h (by rw [e])
  simp [load, fetchAdd, hij]

theorem nodup_observeAdds (nanos : Int) : (observeAdds nanos).Nodup := by
  have hb : (((List.range buckets.length).filter (fun i => decide (nanos ≤ bound i))).map Cell.bucket).Nodup :=
    List.Pairwise.map Cell.bucket (fun _ _ hij h => hij (Cell.bucket.inj h)) (List.Pairwise.filter _ List.nodup_range)
  unfold observeAdds
  simp [hb]

theorem mem_observeAdds_bucket {nanos : Int} {i : Nat} :
    .bucket i ∈ observeAdds nanos ↔ i < buckets.length ∧ nanos ≤ bound i := by
  simp [observeAdds]

/-! ## A call by itself -/

theorem getElem?_foldl_modify (f : UInt64 → UInt64) (j : Nat) : ∀ (is : List Nat) (l : List UInt64), is.Nodup →
    (is.foldl (fun l i => l.modify i f) l)[j]? = if j ∈ is then (l[j]?).map f else l[j]?
  | [], l, _ => by simp
  | i :: is, l, h => by
    obtain ⟨hi, hnd⟩ := List.nodup_cons.1 h
    rw [List.foldl_cons, getElem?_foldl_modify f j is _ hnd, List.getElem?_modify]
    by_cases hj : j = i
    · subst hj; simp [hi]
    · simp [hj, Ne.symm hj]

theorem foldl_buckets (nanos : Int) : ∀ (is : List Nat) (m : MetricsRegistry), (is.map Cell.bucket).foldl (fetchAdd nanos) m =
    { m with durationBuckets := is.foldl (fun l i => l.modify i (· + 1)) m.durationBuckets }
  | [], m => rfl
  | i :: is, m => by rw [List.map_cons, List.foldl_cons, foldl_buckets nanos is]; rfl

/-- **All its adds, one after the other, are `observe_duration`.** -/
theorem observeDuration_eq (m : MetricsRegistry) (hm : m.durationBuckets.length = buckets.length) (nanos : Int) :
    (observeAdds nanos).foldl (fetchAdd nanos) m = m.observeDuration nanos := by
  have hb : ((List.range buckets.length).filter (fun i => decide (nanos ≤ bound i))).foldl (fun l i => l.modify i (· + 1))
      m.durationBuckets = m.durationBuckets.zipWith (fun n b => if nanos ≤ b.2 then n + 1 else n) buckets := by
    apply List.ext_getElem?
    intro j
    rw [getElem?_foldl_modify _ _ _ _ (List.Pairwise.filter _ List.nodup_range), List.getElem?_zipWith]
    by_cases hj : j < buckets.length
    · have hj' : j < m.durationBuckets.length := by rw [hm]; exact hj
      simp only [List.mem_filter, List.mem_range, hj, true_and, decide_eq_true_eq, bound,
        List.getElem?_eq_getElem hj, List.getElem?_eq_getElem hj', Option.map_some, Option.getD_some]
      split <;> rfl
    · have hnone : m.durationBuckets[j]? = none := List.getElem?_eq_none_iff.2 (by rw [hm]; exact Nat.not_lt.1 hj)
      simp [hj, hnone]
  rw [observeAdds, List.foldl_cons, List.foldl_cons, foldl_buckets]
  show ({ m with
    durationCount := m.durationCount + 1
    durationSumNanos := m.durationSumNanos + UInt64.ofNat (nanos % 18446744073709551616).toNat
    durationBuckets := _ } : MetricsRegistry) = _
  rw [MetricsRegistry.observeDuration, ← hb]
  rfl

/-- The values loaded from a registry at rest. -/
def atRest (m : MetricsRegistry) : Printed := printed (renderLoads.map (load m))

theorem atRest_eq (m : MetricsRegistry) :
    atRest m = ⟨(List.range buckets.length).map (fun i => load m (.bucket i)), m.durationCount, m.durationCount⟩ := rfl

theorem loads_buckets (hm : m.durationBuckets.length = buckets.length) :
    (List.range buckets.length).map (fun i => load m (.bucket i)) = m.durationBuckets := by
  apply List.ext_getElem?
  intro j
  rw [List.getElem?_map]
  by_cases hj : j < buckets.length
  · have hj' : j < m.durationBuckets.length := by rw [hm]; exact hj
    simp [List.getElem?_range hj, load, List.getElem?_eq_getElem hj']
  · have hnone : m.durationBuckets[j]? = none := List.getElem?_eq_none_iff.2 (by rw [hm]; exact Nat.not_lt.1 hj)
    have hnone' : (List.range buckets.length)[j]? = none :=
      List.getElem?_eq_none_iff.2 (by rw [List.length_range]; exact Nat.not_lt.1 hj)
    rw [hnone, hnone']; rfl

/-- **What `render` prints of a registry at rest.** -/
theorem render_text (hm : m.durationBuckets.length = buckets.length) (formatSum : UInt64 → Str) (pool : UpstreamPool) :
    ∃ before after, m.render formatSum pool = before ++ (atRest m).text ++ after := by
  rw [atRest_eq, loads_buckets hm]
  have assoc : ∀ a x y z s₁ s₂ s₃ s₄ : Str,
      a ++ x ++ y ++ z ++ s₁ ++ s₂ ++ s₃ ++ s₄ = a ++ (x ++ y ++ z) ++ (s₁ ++ s₂ ++ s₃ ++ s₄) := by simp
  exact ⟨_, _, assoc _ _ _ _ _ _ _ _⟩

/-! ## What the counters count -/

/-- The call has added to the cell. -/
def done (c : Cell) (call : Call) : Bool := decide (c ∈ observeAdds call.nanos ∧ c ∉ call.todo)

/-- The number of calls that have. -/
def performed (st : State) (c : Cell) : Nat := st.calls.countP (done c)

structure Inv (st : State) : Prop where
  length : st.metrics.durationBuckets.length = buckets.length
  suffix : ∀ call ∈ st.calls, call.todo <:+ observeAdds call.nanos
  counts : ∀ c, Counts c → load st.metrics c = UInt64.ofNat (performed st c)

theorem inv_init (pool : UpstreamPool) : Inv (init pool) := by
  refine ⟨rfl, fun call h => (by cases h), fun c hc => ?_⟩
  rcases hc with rfl | ⟨i, hi, rfl⟩
  · rfl
  · have hb : (buckets.map (fun _ => (0 : UInt64)))[i]? = some 0 := by
      rw [List.getElem?_map, List.getElem?_eq_getElem hi]; rfl
    show ((buckets.map (fun _ => (0 : UInt64)))[i]?).getD 0 = _
    rw [hb]; rfl

/-- One more add of one call. -/
theorem performed_add {t : State} {k : Nat} {nanos : Int} {c : Cell} {todo : List Cell} (hk : st.calls[k]? = some ⟨nanos, c :: todo⟩)
    (hsuf : (c :: todo) <:+ observeAdds nanos) (hc : t.calls = st.calls.set k ⟨nanos, todo⟩) (c' : Cell) :
    performed t c' = performed st c' + if c' = c then 1 else 0 := by
  obtain ⟨pre, post, hl, hset, -⟩ := Lts.getElem?_split hk
  have hnd : (c :: todo).Nodup := (nodup_observeAdds nanos).sublist hsuf.sublist
  have hmem : c ∈ observeAdds nanos := hsuf.subset List.mem_cons_self
  have hbefore : done c' ⟨nanos, c :: todo⟩ = decide (c' ∈ observeAdds nanos ∧ c' ≠ c ∧ c' ∉ todo) := by simp [done]
  have hafter : done c' ⟨nanos, todo⟩ = decide (c' ∈ observeAdds nanos ∧ c' ∉ todo) := rfl
  unfold performed
  rw [hc, hset, hl, List.countP_append, List.countP_append, List.countP_cons, List.countP_cons, hbefore, hafter]
  by_cases h : c' = c
  · subst h
    simp [hmem, (List.nodup_cons.1 hnd).1]
    omega
  · simp [h]

theorem Inv.step {a : Action} (h : Inv st) (hs : step st a = some st') : Inv st' := by
  cases a with
  | observe nanos =>
    cases hs
    refine ⟨h.length, fun call hm => ?_, fun c hc => ?_⟩
    · rcases List.mem_append.1 hm with hm | hm
      · exact h.suffix call hm
      · obtain rfl := List.mem_singleton.1 hm; exact List.suffix_refl _
    · rw [h.counts c hc]
      simp [performed, done, List.countP_append]
  | add k =>
    simp only [Histogram.step] at hs
    split at hs
    · rename_i nanos c todo hk
      cases hs
      have hsuf := h.suffix _ (List.mem_of_getElem? hk)
      refine ⟨(length_fetchAdd nanos st.metrics c).trans h.length, fun call hm => ?_, fun c' hc' => ?_⟩
      · rcases List.mem_or_eq_of_mem_set hm with hm | rfl
        · exact h.suffix call hm
        · exact (List.suffix_cons c todo).trans hsuf
      · rw [performed_add (t := { st with metrics := _, calls := _ }) hk hsuf rfl c']
        by_cases hcc : c' = c
        · subst hcc
          rw [load_fetchAdd_self hc' h.length, h.counts c' hc', if_pos rfl]
          exact (UInt64.ofNat_add _ _).symm
        · rw [load_fetchAdd_ne hcc, h.counts c' hc', if_neg hcc, Nat.add_zero]
    · cases hs
  | render => cases hs; exact ⟨h.length, h.suffix, h.counts⟩
  | load =>
    simp only [Histogram.step] at hs
    split at hs
    · cases hs; exact ⟨h.length, h.suffix, h.counts⟩
    · cases hs

/-! ## While no call is half done -/

/-- The call has not begun to add, or is done. -/
def idle (call : Call) : Bool := decide (call.todo = [] ∨ call.todo = observeAdds call.nanos)

theorem done_of_idle {call : Call} (h : idle call = true) {c : Cell} (hc : c ∈ observeAdds call.nanos) :
    done c call = decide (call.todo = []) := by
  unfold done
  rcases of_decide_eq_true h with h | h
  · simp [h, hc]
  · rw [h]
    have hne : observeAdds call.nanos ≠ [] := List.ne_nil_of_mem hc
    simp [hc, hne]

theorem bound_mono : ∀ j < buckets.length, ∀ i < j, bound i ≤ bound j := by decide

/-- A call in one bucket is in every later one, and counted. -/
theorem done_mono {call : Call} (h : idle call = true) {i : Nat} (hd : done (.bucket i) call = true) :
    (∀ j, i < j → j < buckets.length → done (.bucket j) call = true) ∧ done .count call = true := by
  have hi := (of_decide_eq_true hd).1
  rw [done_of_idle h hi] at hd
  obtain ⟨-, hle⟩ := mem_observeAdds_bucket.1 hi
  refine ⟨fun j hij hj => ?_, ?_⟩
  · rw [done_of_idle h (mem_observeAdds_bucket.2 ⟨hj, Int.le_trans hle (bound_mono j hj i hij)⟩)]
    exact hd
  · rw [done_of_idle h List.mem_cons_self]
    exact hd

/-- A counter is no greater than another if every call that added to the one added to the other. -/
theorem Inv.load_le (h : Inv st) (hfew : st.calls.length < 18446744073709551616) {c c' : Cell} (hc : Counts c)
    (hc' : Counts c') (hmono : ∀ call ∈ st.calls, done c call = true → done c' call = true) :
    load st.metrics c ≤ load st.metrics c' := by
  have hle : performed st c ≤ performed st c' := List.countP_mono_left hmono
  have hlt : ∀ c, performed st c < 18446744073709551616 := fun c => Nat.lt_of_le_of_lt List.countP_le_length hfew
  rw [h.counts c hc, h.counts c' hc', UInt64.le_iff_toNat_le, UInt64.toNat_ofNat_of_lt' (hlt c),
    UInt64.toNat_ofNat_of_lt' (hlt c')]
  exact hle

/-- **Between the calls the histogram is cumulative.** -/
theorem Inv.atRest_valid (h : Inv st) (hfew : st.calls.length < 18446744073709551616)
    (hidle : ∀ call ∈ st.calls, idle call = true) : (atRest st.metrics).Valid := by
  rw [atRest_eq]
  have inRange : ∀ {i}, i < buckets.length → Counts (.bucket i) := fun hi => .inr ⟨_, hi, rfl⟩
  refine ⟨?_, ?_, rfl⟩
  · rw [List.pairwise_map]
    refine List.pairwise_lt_range.imp_of_mem ?_
    intro i j hi hj hij
    rw [List.mem_range] at hi hj
    exact h.load_le hfew (inRange hi) (inRange hj) (fun call hm hd => (done_mono (hidle call hm) hd).1 j hij hj)
  · intro b hb
    obtain ⟨i, hi, rfl⟩ := List.mem_map.1 (List.mem_of_getLast? hb)
    rw [List.mem_range] at hi
    exact h.load_le hfew (inRange hi) (.inl rfl) (fun call hm hd => (done_mono (hidle call hm) hd).2)

/-- No call is half done when `render` begins, none adds while it loads, and the counters do not wrap. -/
def quiet (st : State) : Action → Bool
  | .observe _ => decide (st.calls.length + 1 < 18446744073709551616)
  | .add _ => st.render.all (fun r => r.todo.isEmpty)
  | .render => st.calls.all idle
  | .load => true

structure QuietInv (st : State) : Prop extends Inv st where
  few : st.calls.length < 18446744073709551616
  loading : ∀ r, st.render = some r → r.todo ≠ [] → (∀ call ∈ st.calls, idle call = true) ∧
    r.seen ++ r.todo.map (load st.metrics) = renderLoads.map (load st.metrics)
  loaded : ∀ r, st.render = some r → r.todo = [] → (printed r.seen).Valid

theorem QuietInv.step {a : Action} (h : QuietInv st) (hq : quiet st a = true) (hs : step st a = some st') :
    QuietInv st' := by
  have hinv := h.toInv.step hs
  cases a with
  | observe nanos =>
    cases hs
    refine ⟨hinv, ?_, fun r hr ht => ?_, h.loaded⟩
    · rw [List.length_append]; exact of_decide_eq_true hq
    · obtain ⟨hidle, hseen⟩ := h.loading r hr ht
      refine ⟨fun call hm => ?_, hseen⟩
      rcases List.mem_append.1 hm with hm | hm
      · exact hidle call hm
      · rw [List.mem_singleton.1 hm]; exact decide_eq_true (.inr rfl)
  | add k =>
    simp only [Histogram.step] at hs
    split at hs
    · cases hs
      refine ⟨hinv, ?_, fun r hr ht => ?_, h.loaded⟩
      · rw [List.length_set]; exact h.few
      · have hr' : st.render = some r := hr
        rw [quiet, hr', Option.all_some, List.isEmpty_iff] at hq
        exact absurd hq ht
    · cases hs
  | render =>
    cases hs
    refine ⟨hinv, h.few, fun r hr _ => ?_, fun r hr ht => ?_⟩
    · cases hr; exact ⟨List.all_eq_true.1 hq, rfl⟩
    · cases hr; exact absurd ht (by decide)
  | load =>
    simp only [Histogram.step] at hs
    split at hs
    · rename_i c todo seen hr
      cases hs
      obtain ⟨hidle, hseen⟩ := h.loading _ hr (List.cons_ne_nil _ _)
      have hnext : (seen ++ [load st.metrics c]) ++ todo.map (load st.metrics) = renderLoads.map (load st.metrics) := by
        rw [← hseen]; simp
      refine ⟨hinv, h.few, fun r hr ht => ?_, fun r hr ht => ?_⟩
      · cases hr; exact ⟨hidle, hnext⟩
      · -- the last load: everything was loaded from the same registry
        cases hr
        have ht' : todo = [] := ht
        rw [ht', List.map_nil, List.append_nil] at hnext
        show (printed (seen ++ [load st.metrics c])).Valid
        rw [hnext]
        exact h.toInv.atRest_valid h.few hidle
    · cases hs

/-- **What is printed while no call is half done is a cumulative histogram.** -/
theorem quiet_valid (h : Lts.Reach step (fun st a => quiet st a = true) (init pool) st) (p : Printed)
    (hp : rendered st = some p) : p.Valid := by
  have hinv : QuietInv st := by
    refine h.inv (I := QuietInv) ⟨inv_init pool, Nat.zero_lt_succ _, fun r hr => (by cases hr), fun r hr => (by cases hr)⟩ ?_
    intro st a st' hi hq hs
    exact hi.step hq hs
  obtain ⟨r, hr, hp⟩ := Option.bind_eq_some_iff.1 hp
  split at hp
  · rename_i ht; cases hp; exact hinv.loaded r hr ht
  · cases hp

def samplePool : UpstreamPool := ⟨[⟨⟨"upstream".toList, 8080⟩, true⟩], 0, by decide⟩

/-- All the steps of a call of `render`. -/
def wholeRender : List Action := .render :: List.replicate 11 .load

/-- Two calls that interleave, then `render`. -/
theorem quiet_valid_two : ∃ st p, Lts.Reach step (fun st a => quiet st a = true) (init samplePool) st ∧
    rendered st = some p ∧ p.count = 2 ∧ p.Valid := by
  obtain ⟨st, hr, hf⟩ := Lts.exists_reach step quiet (init samplePool)
    ([.observe 500000, .observe 70000000, .add 0, .add 1, .add 1, .add 1] ++ List.replicate 9 (.add 0) ++
      List.replicate 3 (.add 1) ++ wholeRender)
    (fun st => (rendered st).any (fun p : Printed => decide (p.count = 2))) (by decide +kernel)
  obtain ⟨p, hp, hc⟩ := (Option.any_eq_true _ _).1 hf
  exact ⟨st, p, hr, hp, of_decide_eq_true hc, quiet_valid hr p hp⟩

/-- **A `render` in the middle of one call prints a bucket that is smaller than the one before it**, and one that loads
between two others prints a `_count` that is not its `+Inf`. -/
theorem torn_render : ∃ st p, Lts.Reach step Lts.anyStep (init samplePool) st ∧ rendered st = some p ∧
    ¬ p.buckets.Pairwise (· ≤ ·) ∧ p.inf ≠ p.count ∧ ¬ p.Valid := by
  obtain ⟨st, hr, hf⟩ := Lts.exists_reach step (fun _ _ => true) (init samplePool)
    ([.observe 500000, .observe 500000, .add 0, .add 0, .add 0] ++ wholeRender.take 10 ++ [.add 1, .load, .load])
    (fun st => (rendered st).any (fun p : Printed => decide (¬ p.buckets.Pairwise (· ≤ ·) ∧ p.inf ≠ p.count)))
    (by decide +kernel)
  obtain ⟨p, hp, hc⟩ := (Option.any_eq_true _ _).1 hf
  obtain ⟨h1, h2⟩ := of_decide_eq_true hc
  exact ⟨st, p, hr.any, hp, h1, h2, fun hv => h1 hv.nondecreasing⟩

end Histogram
end EventEdge
