import EventEdge.CacheRefine
import EventEdge.Lts
/-!
# CacheRuns — the cache over any sequence of calls

`ResponseCache` by itself, with any `get`s and `put`s at clock readings that never go back.  The trace has the newest
call first; a `get` that returned a value and a `put` are uses of their key.  `Recorded` reads the list of slots off
the trace: values from the last `put`s, order from the uses, and whoever is missing is past its expiry or has had as
many others used after it as the cache has room for.

What the two structures of the cache have to do with each other does not depend on the clock: the last section is about
any calls at any clock readings (`refines`).
-/
namespace EventEdge
namespace CacheRuns

open Recency (since recent touch)

/-- A call; `expired` says that the `get` came upon an entry at or past its expiry. -/
inductive Event (κ ν : Type) where
  | put (key : κ) (response : ν) (now : Int)
  | got (key : κ) (now : Int) (result : Option ν) (expired : Bool)
  deriving DecidableEq

structure State (κ ν : Type) where
  cache : ResponseCache κ ν
  clock : Int
  trace : List (Event κ ν)

inductive Action (κ ν : Type) where
  | get (key : κ) (now : Int)
  | put (key : κ) (response : ν) (now : Int)

variable {κ ν : Type}

def init (options : CacheOptions) (h : options.capacity ≠ 0) (start : Int) : State κ ν := ⟨.make options h, start, []⟩

/-! ## What a trace says -/

def Event.foundExpired : Event κ ν → Bool
  | .put _ _ _ => false
  | .got _ _ _ expired => expired

/-- The keys used, newest first. -/
def touches (trace : List (Event κ ν)) : List κ :=
  trace.filterMap (fun e => match e with
    | .put key _ _ => some key
    | .got key _ (some _) _ => some key
    | .got _ _ none _ => none)

variable [DecidableEq κ]

/-- What the last `put` of the key stored, and when. -/
def lastPut (k : κ) (trace : List (Event κ ν)) : Option (ν × Int) :=
  trace.findSome? (fun e => match e with
    | .put key response now => if key = k then some (response, now) else none
    | .got _ _ _ _ => none)

/-- The keys used since the last use of `k`. -/
def othersSince (k : κ) (trace : List (Event κ ν)) : Finset κ := (since k (touches trace)).toFinset

theorem lastPut_put_self (k : κ) (r : ν) (now : Int) (trace : List (Event κ ν)) :
    lastPut k (.put k r now :: trace) = some (r, now) := by simp [lastPut]

theorem lastPut_put_ne {k key : κ} (h : k ≠ key) (r : ν) (now : Int) (trace : List (Event κ ν)) :
    lastPut k (.put key r now :: trace) = lastPut k trace := by simp [lastPut, Ne.symm h]

theorem mem_touches_of_lastPut {k : κ} {trace : List (Event κ ν)} {x : ν × Int} (h : lastPut k trace = some x) :
    k ∈ touches trace := by
  obtain ⟨e, he, hx⟩ := List.exists_of_findSome?_eq_some h
  refine List.mem_filterMap.2 ⟨e, he, ?_⟩
  split at hx
  · split at hx
    · rename_i hk; subst hk; rfl
    · cases hx
  · cases hx

/-! ## Steps -/

/-- Is there an entry for the key, at or past its expiry? -/
def hasExpired (c : ResponseCache κ ν) (key : κ) (now : Int) : Bool :=
  (c.entries.lookup key).any (fun e => decide (e.expiresAt ≤ now))

def step (st : State κ ν) : Action κ ν → Option (State κ ν)
  | .get key now =>
    if st.clock ≤ now then
      let got := st.cache.get key now
      some ⟨got.2, now, .got key now got.1 (hasExpired st.cache key now) :: st.trace⟩
    else none
  | .put key response now =>
    if st.clock ≤ now then some ⟨st.cache.put key response now, now, .put key response now :: st.trace⟩ else none

def Reachable (options : CacheOptions) (h : options.capacity ≠ 0) (start : Int) (st : State κ ν) : Prop :=
  Lts.Reach step Lts.anyStep (init options h start) st

/-! ## The slots, read off the trace -/

variable {options : CacheOptions} {st st' : State κ ν} {s : Slots κ ν} {key : κ} {now : Int}

/-- What the last `put` of the key stored is past its expiry. -/
def Over (options : CacheOptions) (st : State κ ν) (k : κ) : Prop :=
  ∀ r p, lastPut k st.trace = some (r, p) → options.expiry p ≤ st.clock

structure Recorded (options : CacheOptions) (st : State κ ν) (s : Slots κ ν) : Prop where
  options_eq : st.cache.options = options
  simulates : st.cache.Simulates s
  values : ∀ (k : κ) (slot : Slot ν), s.lookup k = some slot →
    ∃ p, lastPut k st.trace = some (slot.response, p) ∧ slot.expiresAt = options.expiry p
  follows : Recency.Follows options.capacity s.keys (touches st.trace)
  retains : Recency.Retains options.capacity (Over options st) s.keys (touches st.trace)
  exact : (∀ e ∈ st.trace, e.foundExpired = false) → s.keys = (recent (touches st.trace)).take options.capacity

theorem recorded_init (h : options.capacity ≠ 0) (start : Int) :
    Recorded options (init options h start : State κ ν) ∅ := by
  refine ⟨rfl, ResponseCache.simulates_make options h, fun k slot hs => ?_, ⟨Nat.zero_le _, List.Sublist.refl _⟩,
    fun k hk => ?_, fun _ => ?_⟩
  · cases hs
  · cases hk
  · exact List.take_nil.symm

/-- A use of the key: it comes to the front, and what does not fit any more is dropped. -/
theorem Recorded.used (h : Recorded options st s) {c : ResponseCache κ ν} {s' : Slots κ ν} {e : Event κ ν}
    (hopt : c.options = options) (hsim : c.Simulates s') (hkeys : s'.keys = (touch key s.keys).take options.capacity)
    (htouch : touches (e :: st.trace) = key :: touches st.trace)
    (hlast : ∀ k, k ≠ key → lastPut k (e :: st.trace) = lastPut k st.trace)
    (hvalues : ∀ (k : κ) (slot : Slot ν), s'.lookup k = some slot →
      ∃ p, lastPut k (e :: st.trace) = some (slot.response, p) ∧ slot.expiresAt = options.expiry p)
    (hnow : st.clock ≤ now) : Recorded options ⟨c, now, e :: st.trace⟩ s' := by
  have hcap : options.capacity ≠ 0 := h.options_eq ▸ st.cache.capacity_ne_zero
  refine ⟨hopt, hsim, hvalues, ?_, ?_, fun hno => ?_⟩
  · rw [htouch, hkeys]; exact h.follows.touch key
  · rw [htouch, hkeys]
    refine h.retains.touch h.follows hcap (fun a ha ho r p hp => ?_)
    rw [hlast a ha] at hp
    exact Int.le_trans (ho r p hp) hnow
  · rw [htouch, hkeys, h.exact (fun e' he' => hno e' (List.mem_cons_of_mem _ he')), Recency.take_touch]; rfl

theorem Recorded.get (h : Recorded options st s) (key : κ) (hnow : st.clock ≤ now) :
    Recorded options ⟨(st.cache.get key now).2, now,
      .got key now (st.cache.get key now).1 (hasExpired st.cache key now) :: st.trace⟩ (s.get key now).2 := by
  obtain ⟨hres, hsim⟩ := ResponseCache.simulates_get h.simulates key now
  have hexp : hasExpired st.cache key now = (s.lookup key).any (fun slot => decide (slot.expiresAt ≤ now)) := by
    rw [← h.simulates.values key, Option.any_map]; rfl
  have hopt : (st.cache.get key now).2.options = options := (st.cache.get_options key now).trans h.options_eq
  rw [hres, hexp]
  revert hsim
  generalize (st.cache.get key now).2 = c at hopt ⊢
  intro hsim
  have later : ∀ k, Over options st k → ∀ r p, lastPut k st.trace = some (r, p) → options.expiry p ≤ now :=
    fun k ho r p hp => Int.le_trans (ho r p hp) hnow
  unfold Slots.get at hsim ⊢
  cases hs : s.lookup key with
  | none =>
    simp only [hs] at hsim ⊢
    refine ⟨hopt, hsim, h.values, h.follows, h.retains.mono later, fun hno => ?_⟩
    exact h.exact (fun e he => hno e (List.mem_cons_of_mem _ he))
  | some slot =>
    simp only [hs, Option.any_some] at hsim ⊢
    obtain ⟨p, hp, hx⟩ := h.values key slot hs
    by_cases hle : slot.expiresAt ≤ now
    · simp only [hle, if_true, decide_true] at hsim ⊢
      refine ⟨hopt, hsim, fun k slot' hs' => h.values k slot' (ResponseCache.lookup_of_lookup_erase hs'), ?_, ?_,
        fun hno => ?_⟩
      · rw [AList.keys_erase]; exact h.follows.erase key
      · rw [AList.keys_erase]
        refine h.retains.erase (fun a ha => ?_)
        rcases ha with rfl | ha
        · intro r p' hp'
          rw [show lastPut a st.trace = some (r, p') from hp'] at hp
          cases hp
          exact hx ▸ hle
        · exact later a ha
      · exact absurd (hno _ List.mem_cons_self) (by simp [Event.foundExpired])
    · simp only [hle, if_false, decide_false] at hsim ⊢
      have hm : key ∈ s.keys := by rw [← AList.mem_keys, ← AList.lookup_isSome, hs]; rfl
      have hkeys : (s.insert key slot).keys = (touch key s.keys).take options.capacity := by
        rw [Recency.keys_insert_eq_touch, Recency.take_touch_of_mem hm h.follows.bounded]
      refine h.used hopt hsim hkeys rfl (fun k _ => rfl) (fun k slot' hs' => ?_) hnow
      by_cases hk : k = key
      · subst hk
        rw [AList.lookup_insert] at hs'; cases hs'
        exact ⟨p, hp, hx⟩
      · rw [AList.lookup_insert_ne hk] at hs'; exact h.values k slot' hs'

theorem Recorded.put (h : Recorded options st s) (key : κ) (response : ν) (hnow : st.clock ≤ now) :
    Recorded options ⟨st.cache.put key response now, now, .put key response now :: st.trace⟩
      (s.put options.capacity key ⟨response, options.expiry now⟩) := by
  have hsim := ResponseCache.simulates_put h.simulates key response now
  rw [h.options_eq] at hsim
  refine h.used ((st.cache.put_options key now response).trans h.options_eq) hsim ?_ rfl
    (fun k hk => lastPut_put_ne hk response now st.trace) (fun k slot hs => ?_) hnow
  · rw [Slots.put, Recency.keys_keep, Recency.keys_insert_eq_touch]
  · have hs' := Recency.lookup_of_lookup_keep hs
    by_cases hk : k = key
    · subst hk
      rw [AList.lookup_insert] at hs'; cases hs'
      exact ⟨now, lastPut_put_self k response now st.trace, rfl⟩
    · rw [AList.lookup_insert_ne hk] at hs'
      rw [lastPut_put_ne hk]
      exact h.values k slot hs'

theorem Recorded.step {a : Action κ ν} (h : ∃ s, Recorded options st s) (hs : step st a = some st') :
    ∃ s, Recorded options st' s := by
  obtain ⟨s, h⟩ := h
  cases a with
  | get key now =>
    simp only [CacheRuns.step] at hs
    split at hs
    · rename_i hnow; cases hs; exact ⟨_, h.get key hnow⟩
    · cases hs
  | put key response now =>
    simp only [CacheRuns.step] at hs
    split at hs
    · rename_i hnow; cases hs; exact ⟨_, h.put key response hnow⟩
    · cases hs

theorem Reachable.recorded {hcap : options.capacity ≠ 0} {start : Int} (h : Reachable options hcap start st) :
    ∃ s, Recorded options st s :=
  Lts.Reach.inv (I := fun st => ∃ s, Recorded options st s) h ⟨∅, recorded_init hcap start⟩
    (fun _ _ _ hi _ hs => Recorded.step hi hs)

/-! ## Least recently used -/

/-- What the next `get` of any key returns, if one time to live after the last `put` of the key is a time point. -/
structure LeastRecentlyUsed (options : CacheOptions) (st : State κ ν) : Prop where
  /-- The last `put`, before its expiry, or nothing. -/
  fresh : ∀ (k : κ) (t : Int) (r : ν), st.clock ≤ t → (st.cache.get k t).1 = some r →
    ∃ p, lastPut k st.trace = some (r, p) ∧ t < options.expiry p ∧
      (-9223372036854775808 ≤ p + options.lifetime → t < p + options.lifetime)
  /-- The last `put`, before its expiry, if fewer others than there is room for were used since. -/
  kept : ∀ (k : κ) (t : Int) (r : ν) (p : Int), st.clock ≤ t → lastPut k st.trace = some (r, p) →
    options.Representable p → t < p + options.lifetime → (othersSince k st.trace).card < options.capacity →
    (st.cache.get k t).1 = some r
  /-- Nothing, if at least as many were, unless an expired entry ever made room. -/
  evicted : ∀ (k : κ) (t : Int), st.clock ≤ t → (∀ e ∈ st.trace, e.foundExpired = false) →
    options.capacity ≤ (othersSince k st.trace).card → (st.cache.get k t).1 = none

/-- **The cache keeps what was used last.** -/
theorem Reachable.leastRecentlyUsed {hcap : options.capacity ≠ 0} {start : Int} (h : Reachable options hcap start st) :
    LeastRecentlyUsed options st := by
  obtain ⟨s, hr⟩ := h.recorded
  have hget : ∀ k t, (st.cache.get k t).1 = (s.get k t).1 := fun k t =>
    (ResponseCache.simulates_get hr.simulates k t).1
  constructor
  · intro k t r _ hg
    rw [hget] at hg
    obtain ⟨slot, hs, hlt, rfl⟩ := Slots.get_some hg
    obtain ⟨p, hp, hx⟩ := hr.values k slot hs
    rw [hx] at hlt
    exact ⟨p, hp, hlt, fun hfits => Int.lt_of_lt_of_le hlt (options.expiry_le hfits)⟩
  · intro k t r p ht hp hfits hlt hcard
    rw [← options.expiry_of_representable hfits] at hlt
    have hm : k ∈ s.keys := by
      by_contra hnot
      rcases hr.retains k (mem_touches_of_lastPut hp) hnot with ho | hle
      · have := ho r p hp
        omega
      · rw [Recency.length_since_recent] at hle
        exact absurd hcard (Nat.not_lt.2 hle)
    rw [← AList.mem_keys, ← AList.lookup_isSome] at hm
    obtain ⟨slot, hs⟩ := Option.isSome_iff_exists.1 hm
    obtain ⟨p', hp', hx⟩ := hr.values k slot hs
    rw [hp] at hp'; cases hp'
    rw [hget]
    exact Slots.get_of_lookup hs (hx ▸ hlt)
  · intro k t _ hno hcard
    have hnot : k ∉ s.keys := by
      rw [hr.exact hno, Recency.mem_take_iff, Recency.length_since_recent]
      exact fun hm => absurd hm.2 (Nat.not_lt.2 hcard)
    rw [hget]
    exact Slots.get_of_not_mem hnot

/-- Room for two: the hit on key 1 makes key 2 the one that key 3 pushes out. -/
theorem leastRecentlyUsed_hit : ∃ st : State Nat Nat, Reachable ⟨2, 10⟩ (by decide) 0 st ∧
    lastPut 1 st.trace = some (100, 0) ∧ CacheOptions.Representable ⟨2, 10⟩ 0 ∧ (st.cache.get 1 4).1 = some 100 ∧
    (st.cache.get 2 4).1 = none ∧ LeastRecentlyUsed ⟨2, 10⟩ st := by
  obtain ⟨st, hr, hf⟩ := Lts.exists_reach step (fun _ _ => true) (init ⟨2, 10⟩ (by decide) 0)
    [.put 1 100 0, .put 2 200 1, .get 1 2, .put 3 300 3]
    (fun st : State Nat Nat => decide (lastPut 1 st.trace = some (100, 0) ∧ (othersSince 1 st.trace).card < 2 ∧
      (st.cache.get 2 4).1 = none ∧ st.clock ≤ 4)) (by decide +kernel)
  obtain ⟨hput, hcard, hgone, hclock⟩ := of_decide_eq_true hf
  have hlru : LeastRecentlyUsed ⟨2, 10⟩ st := Reachable.leastRecentlyUsed hr.any
  have hfits : CacheOptions.Representable ⟨2, 10⟩ 0 := by decide
  exact ⟨st, hr.any, hput, hfits, hlru.kept 1 4 100 0 hclock hput hfits (by decide) hcard, hgone, hlru⟩

/-- **`milliseconds::max()` as the time to live**: the sum wraps to a time one millisecond before the `put`, and the
next `get` of the only key, at the same reading of the clock, finds an expired entry. -/
theorem ttl_max_misses : ∃ st : State Nat Nat, Reachable ⟨1, Int64.maxValue⟩ (by decide) 0 st ∧
    lastPut 1 st.trace = some (100, 5000000) ∧ st.clock = 5000000 ∧ othersSince 1 st.trace = ∅ ∧
    5000000 < 5000000 + CacheOptions.lifetime ⟨1, Int64.maxValue⟩ ∧
    ¬ CacheOptions.Representable ⟨1, Int64.maxValue⟩ 5000000 ∧
    CacheOptions.expiry ⟨1, Int64.maxValue⟩ 5000000 = 4000000 ∧ (st.cache.get 1 5000000).1 = none := by
  obtain ⟨st, hr, hf⟩ := Lts.exists_reach step (fun _ _ => true) (init ⟨1, Int64.maxValue⟩ (by decide) 0)
    [.put 1 100 5000000]
    (fun st : State Nat Nat => decide (lastPut 1 st.trace = some (100, 5000000) ∧ st.clock = 5000000 ∧
      othersSince 1 st.trace = ∅ ∧ (st.cache.get 1 5000000).1 = none)) (by decide +kernel)
  obtain ⟨hput, hclock, hothers, hnone⟩ := of_decide_eq_true hf
  exact ⟨st, hr.any, hput, hclock, hothers, by decide, by decide, by decide, hnone⟩

/-! ## Whatever the clock reads -/

def call (c : ResponseCache κ ν) : Action κ ν → ResponseCache κ ν
  | .get key now => (c.get key now).2
  | .put key response now => c.put key response now

/-- What a call returns. -/
def answer (c : ResponseCache κ ν) : Action κ ν → Option ν
  | .get key now => (c.get key now).1
  | .put _ _ _ => none

def calls (c : ResponseCache κ ν) (as : List (Action κ ν)) : ResponseCache κ ν := as.foldl call c

def answers (c : ResponseCache κ ν) : List (Action κ ν) → List (Option ν)
  | [] => []
  | a :: as => answer c a :: answers (call c a) as

/-! The same calls on the list of slots. -/

def slotCall (options : CacheOptions) (s : Slots κ ν) : Action κ ν → Slots κ ν
  | .get key now => (s.get key now).2
  | .put key response now => s.put options.capacity key ⟨response, options.expiry now⟩

def slotAnswer (s : Slots κ ν) : Action κ ν → Option ν
  | .get key now => (s.get key now).1
  | .put _ _ _ => none

def slotCalls (options : CacheOptions) (s : Slots κ ν) (as : List (Action κ ν)) : Slots κ ν := as.foldl (slotCall options) s

def slotAnswers (options : CacheOptions) (s : Slots κ ν) : List (Action κ ν) → List (Option ν)
  | [] => []
  | a :: as => slotAnswer s a :: slotAnswers options (slotCall options s a) as

/-- **The list and the map of the cache agree.** -/
structure Consistent (c : ResponseCache κ ν) : Prop where
  distinct : (c.lru.map Node.key).Nodup
  same_keys : ∀ k, k ∈ c.lru.map Node.key ↔ k ∈ c.entries
  own_node : ∀ k e, c.entries.lookup k = some e → ⟨e.lruPosition, k⟩ ∈ c.lru ∧
    ∀ n ∈ c.lru, n.id = e.lruPosition → n.key = k
  bounded : c.size ≤ c.options.capacity
  /-- A full cache gives up the entry at the back of the list with its node, and nothing else. -/
  evicts_one : c.size = c.options.capacity → ∃ back e, c.lru.getLast? = some back ∧
    c.entries.lookup back.key = some e ∧ e.lruPosition = back.id ∧ c.lru = c.evict.lru ++ [back] ∧
    (∀ k, c.evict.entries.lookup k = if k = back.key then none else c.entries.lookup k) ∧ c.evict.size + 1 = c.size

variable {c : ResponseCache κ ν}

theorem evict_full (h : c.Simulates s) (hfull : c.size = c.options.capacity) : ∃ back e, c.lru.getLast? = some back ∧
    c.entries.lookup back.key = some e ∧ e.lruPosition = back.id ∧ c.lru = c.evict.lru ++ [back] ∧
    (∀ k, c.evict.entries.lookup k = if k = back.key then none else c.entries.lookup k) ∧ c.evict.size + 1 = c.size := by
  have hlen : c.lru.length = c.size := by rw [h.size, ← h.order, List.length_map]
  have hne : c.lru ≠ [] := by
    intro hnil
    rw [hnil, List.length_nil, hfull] at hlen
    exact c.capacity_ne_zero hlen.symm
  obtain ⟨back, hback⟩ := Option.isSome_iff_exists.1 (List.getLast?_isSome.2 hne)
  obtain ⟨front, hl⟩ := List.getLast?_eq_some_iff.1 hback
  obtain ⟨e, he, hid⟩ := h.back_entry hl
  have hev : c.evict = { c with lru := c.lru.dropLast, entries := c.entries.erase back.key } := by
    rw [ResponseCache.evict, if_pos hfull, hback]
  have hdrop : c.evict.lru = front := by rw [hev, hl]; exact List.dropLast_concat
  refine ⟨back, e, hback, he, hid, ?_, fun k => ?_, ?_⟩
  · rw [hdrop]; exact hl
  · rw [hev]
    split
    · rename_i hk; rw [hk]; exact AList.lookup_erase _ _
    · rename_i hk; exact AList.lookup_erase_ne hk
  · have hsize : c.evict.size = c.evict.lru.length := by
      rw [h.evict.size, ← h.evict.order, List.length_map]
    rw [hsize, hdrop, ← hlen, hl, List.length_append]
    rfl

theorem consistent_of_simulates (h : c.Simulates s) : Consistent c := by
  have hkeys : (c.lru.map Node.key).Nodup := by rw [h.order]; exact s.keys_nodup
  refine ⟨hkeys, fun k => ?_, fun k e he => ⟨h.positions k e he, fun n hn hid => ?_⟩, ?_, evict_full h⟩
  · rw [h.order, ← AList.mem_keys, ← AList.lookup_isSome, ← h.values k, Option.isSome_map, AList.lookup_isSome]
  · rw [List.inj_on_of_nodup_map h.nodes hn (h.positions k e he) hid]
  · rw [h.size]; exact h.bounded

theorem options_calls : ∀ (as : List (Action κ ν)) (c : ResponseCache κ ν), (calls c as).options = c.options
  | [], _ => rfl
  | a :: as, c => by
    rw [calls, List.foldl_cons, ← calls, options_calls as]
    cases a
    · exact c.get_options _ _
    · exact c.put_options _ _ _

/-- One call keeps the cache tied to its slots, and returns what they return. -/
theorem simulates_call (h : c.Simulates s) (a : Action κ ν) :
    answer c a = slotAnswer s a ∧ (call c a).Simulates (slotCall c.options s a) := by
  cases a with
  | get key now => exact ResponseCache.simulates_get h key now
  | put key response now => exact ⟨rfl, ResponseCache.simulates_put h key response now⟩

theorem simulates_calls : ∀ (as : List (Action κ ν)) {c : ResponseCache κ ν} {s : Slots κ ν}, c.Simulates s →
    answers c as = slotAnswers c.options s as ∧ (calls c as).Simulates (slotCalls c.options s as)
  | [], _, _, h => ⟨rfl, h⟩
  | a :: as, c, s, h => by
    obtain ⟨hans, hsim⟩ := simulates_call h a
    have hopt : (call c a).options = c.options := options_calls [a] c
    obtain ⟨hrest, hend⟩ := simulates_calls as hsim
    rw [hopt] at hrest hend
    refine ⟨?_, hend⟩
    rw [answers, slotAnswers, hans, hrest]

/-- **After any calls at any clock readings the cache is consistent**, has returned what one list of slots in order of
last use returns, and holds what that list holds, in its order. -/
theorem refines (options : CacheOptions) (h : options.capacity ≠ 0) (as : List (Action κ ν)) :
    Consistent (calls (.make options h) as) ∧ answers (.make options h) as = slotAnswers options ∅ as ∧
      (calls (.make options h) as).Simulates (slotCalls options ∅ as) := by
  obtain ⟨hans, hsim⟩ := simulates_calls as (ResponseCache.simulates_make options h)
  exact ⟨consistent_of_simulates hsim, hans, hsim⟩

/-- A clock that goes back, room for one. -/
theorem refines_back :
    let as : List (Action Nat Nat) := [.put 1 100 5000000, .put 2 200 3000000, .get 2 3999999, .get 2 4000000, .get 2 0]
    Consistent (calls (.make ⟨1, 1⟩ (by decide)) as) ∧
      answers (.make ⟨1, 1⟩ (by decide)) as = [none, none, some 200, none, none] := by
  refine ⟨(refines ⟨1, 1⟩ (by decide) _).1, ?_⟩
  rw [(refines ⟨1, 1⟩ (by decide) _).2.1]
  decide +kernel

end CacheRuns
end EventEdge
