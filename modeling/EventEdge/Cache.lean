import Mathlib.Data.List.AList
/-!
# Cache — the response cache as it is built (`response_cache.cpp`)

Two structures side by side: `lru`, a linked list of keys, most recent first, and `entries`, a map whose entries hold
an iterator into that list.  An iterator is the identity of a list node: `splice` and `eraseNode` find their node by
it, not by its key, and a new node takes an identity no node had before.  The cache never looks into a response, so
keys and responses are type parameters; times are nanoseconds of the steady clock, which a time point holds in 64 bits.

The lemmas here are what the map says about one `get` or `put`; what the list says about it is `CacheRefine`.
-/
namespace EventEdge

/-- `std::chrono::milliseconds` counts in 64 bits. -/
structure CacheOptions where
  capacity : Nat := 1024
  ttl : Int64 := 2000

/-- A 64-bit signed result.  Overflow is undefined in C++; this is the two's complement that compilers leave. -/
def int64 (n : Int) : Int := n.bmod 18446744073709551616

namespace CacheOptions

variable (options : CacheOptions) {now : Int}

/-- The time to live in nanoseconds. -/
def lifetime : Int := options.ttl.toInt * 1000000

/-- `steady_clock::now() + options_.ttl`: the milliseconds become nanoseconds, then the two are added. -/
def expiry (now : Int) : Int := int64 (now + int64 options.lifetime)

/-- One time to live after `now` is a time point. -/
def Representable (now : Int) : Prop :=
  -9223372036854775808 ≤ now + options.lifetime ∧ now + options.lifetime ≤ 9223372036854775807

instance (now : Int) : Decidable (options.Representable now) := inferInstanceAs (Decidable (_ ∧ _))

-- the conversion may wrap without harm: only the sum counts
theorem expiry_eq_int64 (now : Int) : options.expiry now = int64 (now + options.lifetime) := Int.add_bmod_bmod ..

theorem expiry_of_representable (h : options.Representable now) : options.expiry now = now + options.lifetime := by
  obtain ⟨hlow, hhigh⟩ := h
  rw [expiry_eq_int64]
  exact Int.bmod_eq_of_le (by omega) (by omega)

/-- **A sum that overflows wraps down**: an entry never lives longer than its time to live. -/
theorem expiry_le (h : -9223372036854775808 ≤ now + options.lifetime) :
    options.expiry now ≤ now + options.lifetime := by
  rw [expiry_eq_int64, int64, Int.bmod_def]
  split <;> omega

end CacheOptions

/-- A node of `std::list<std::string>`; its identity is what an iterator to it is. -/
structure Node (κ : Type) where
  id : Nat
  key : κ

structure Entry (ν : Type) where
  response : ν
  expiresAt : Int
  lruPosition : Nat

/-- The cache; its constructor throws on a capacity of zero. -/
structure ResponseCache (κ ν : Type) where
  options : CacheOptions
  capacity_ne_zero : options.capacity ≠ 0
  lru : List (Node κ)
  entries : AList (fun _ : κ => Entry ν)
  nextNode : Nat

namespace ResponseCache

variable {κ ν : Type}

def make (options : CacheOptions) (h : options.capacity ≠ 0) : ResponseCache κ ν := ⟨options, h, [], ∅, 0⟩

-- `list::erase(position)` and `list::splice(begin(), *this, position)`
def eraseNode (position : Nat) (l : List (Node κ)) : List (Node κ) := l.eraseP (fun n => n.id == position)
def splice (position : Nat) (l : List (Node κ)) : List (Node κ) :=
  match l.find? (fun n => n.id == position) with
  | some n => n :: eraseNode position l
  | none => l

def size (c : ResponseCache κ ν) : Nat := c.entries.entries.length

variable [DecidableEq κ]

/-- `get`, at the clock reading `now`. -/
def get (c : ResponseCache κ ν) (key : κ) (now : Int) : Option ν × ResponseCache κ ν :=
  match c.entries.lookup key with
  | none => (none, c)
  | some entry =>
    if entry.expiresAt ≤ now then
      (none, { c with lru := eraseNode entry.lruPosition c.lru, entries := c.entries.erase key })
    else
      (some entry.response, { c with lru := splice entry.lruPosition c.lru })

/-- The eviction of `put`: the key at the back of the list leaves the map, its node leaves the list. -/
def evict (c : ResponseCache κ ν) : ResponseCache κ ν :=
  if c.size = c.options.capacity then
    match c.lru.getLast? with
    | some back => { c with lru := c.lru.dropLast, entries := c.entries.erase back.key }
    | none => c
  else c

/-- `put`, at the clock reading `now`. -/
def put (c : ResponseCache κ ν) (key : κ) (response : ν) (now : Int) : ResponseCache κ ν :=
  let expiresAt := c.options.expiry now
  match c.entries.lookup key with
  | some existing =>
    { c with lru := splice existing.lruPosition c.lru,
             entries := c.entries.insert key { existing with response := response, expiresAt := expiresAt } }
  | none =>
    let c := c.evict
    { c with lru := ⟨c.nextNode, key⟩ :: c.lru,
             entries := c.entries.insert key ⟨response, expiresAt, c.nextNode⟩,
             nextNode := c.nextNode + 1 }

/-! ## What the map says -/

theorem lookup_of_lookup_erase {β : Type} {m : AList (fun _ : κ => β)} {a k : κ} {e : β}
    (h : (m.erase a).lookup k = some e) : m.lookup k = some e := by
  by_cases hk : k = a
  · subst hk
    rw [AList.lookup_erase k m] at h
    cases h
  · rwa [AList.lookup_erase_ne hk] at h

variable (c : ResponseCache κ ν) (key : κ) (now : Int)

@[simp] theorem get_options : (c.get key now).2.options = c.options := by
  unfold get
  split
  · rfl
  · split <;> rfl

@[simp] theorem evict_options : c.evict.options = c.options := by
  unfold evict
  split
  · split <;> rfl
  · rfl

@[simp] theorem put_options (response : ν) : (c.put key response now).options = c.options := by
  unfold put
  split
  · rfl
  · exact evict_options c

/-- **A hit is an entry of the map, before its expiry.** -/
theorem get_some {r : ν} (h : (c.get key now).1 = some r) :
    ∃ e, c.entries.lookup key = some e ∧ now < e.expiresAt ∧ e.response = r := by
  unfold get at h
  split at h
  · cases h
  · rename_i e he
    split at h
    · cases h
    · rename_i hexp
      exact ⟨e, he, Int.not_le.1 hexp, Option.some.inj h⟩

/-- **After a miss the map holds nothing for the key.** -/
theorem lookup_of_get_none (h : (c.get key now).1 = none) : (c.get key now).2.entries.lookup key = none := by
  unfold get at h ⊢
  split
  · assumption
  · rename_i e he
    split
    · exact AList.lookup_erase key c.entries
    · rename_i hexp
      simp only [he, hexp, if_false] at h
      cases h

/-- A `get` adds nothing to the map. -/
theorem lookup_of_lookup_get {k : κ} {e : Entry ν} (h : (c.get key now).2.entries.lookup k = some e) :
    c.entries.lookup k = some e := by
  unfold get at h
  split at h
  · exact h
  · split at h
    · exact lookup_of_lookup_erase h
    · exact h

/-- A `get` takes from the map at most the key it asked for, and that only at or past its expiry. -/
theorem lookup_get_of_lookup {k : κ} {e : Entry ν} (h : c.entries.lookup k = some e)
    (hk : k ≠ key ∨ now < e.expiresAt) : (c.get key now).2.entries.lookup k = some e := by
  unfold get
  split
  · exact h
  · rename_i e' he'
    split
    · rename_i hexp
      have hne : k ≠ key := by
        rcases hk with hk | hk
        · exact hk
        · rintro rfl; rw [h] at he'; cases he'; omega
      rw [AList.lookup_erase_ne hne]; exact h
    · exact h

theorem lookup_evict {k : κ} {e : Entry ν} (h : c.evict.entries.lookup k = some e) : c.entries.lookup k = some e := by
  unfold evict at h
  split at h
  · split at h
    · exact lookup_of_lookup_erase h
    · exact h
  · exact h

/-- **After a `put` the key has its new response and expiry.** -/
theorem lookup_put_self (response : ν) : ∃ e, (c.put key response now).entries.lookup key = some e ∧
    e.response = response ∧ e.expiresAt = c.options.expiry now := by
  unfold put
  split
  · exact ⟨_, AList.lookup_insert _, rfl, rfl⟩
  · exact ⟨_, AList.lookup_insert _, rfl, rfl⟩

/-- A `put` adds nothing to the map but its own key. -/
theorem lookup_of_lookup_put {response : ν} {k : κ} {e : Entry ν} (hk : k ≠ key)
    (h : (c.put key response now).entries.lookup k = some e) : c.entries.lookup k = some e := by
  unfold put at h
  split at h
  · rwa [AList.lookup_insert_ne hk] at h
  · rw [AList.lookup_insert_ne hk] at h
    exact lookup_evict c h

/-- A `put` that has room, or replaces, takes no other key from the map. -/
theorem lookup_put_of_lookup {response : ν} {k : κ} {e : Entry ν} (hk : k ≠ key) (h : c.entries.lookup k = some e)
    (hroom : key ∈ c.entries ∨ c.size ≠ c.options.capacity) :
    (c.put key response now).entries.lookup k = some e := by
  unfold put
  split
  · rw [AList.lookup_insert_ne hk]; exact h
  · rename_i hnone
    have hsize : c.size ≠ c.options.capacity := hroom.resolve_left (AList.lookup_eq_none.1 hnone)
    rw [AList.lookup_insert_ne hk, evict, if_neg hsize]
    exact h

end ResponseCache
end EventEdge
