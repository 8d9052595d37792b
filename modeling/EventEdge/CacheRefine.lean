import EventEdge.Cache
import EventEdge.Recency
/-!
# CacheRefine — the cache is one list of slots, in order of last use

`Slots` is what the cache is for: an association list, the key used last in front.  `get` moves a slot to the front or,
past its expiry, takes it out; `put` puts one in front and cuts the list at the capacity.  `Simulates` ties the two
structures of `ResponseCache` to that list, `simulates_get` and `simulates_put` say that each call keeps them tied.
-/
namespace EventEdge

structure Slot (ν : Type) where
  response : ν
  expiresAt : Int

def Entry.slot {ν : Type} (e : Entry ν) : Slot ν := ⟨e.response, e.expiresAt⟩

abbrev Slots (κ ν : Type) := AList (fun _ : κ => Slot ν)

namespace Slots

variable {κ ν : Type} [DecidableEq κ]

def get (s : Slots κ ν) (key : κ) (now : Int) : Option ν × Slots κ ν :=
  match s.lookup key with
  | none => (none, s)
  | some slot => if slot.expiresAt ≤ now then (none, s.erase key) else (some slot.response, s.insert key slot)

def put (s : Slots κ ν) (capacity : Nat) (key : κ) (slot : Slot ν) : Slots κ ν :=
  Recency.keep capacity (s.insert key slot)

variable {s : Slots κ ν} {key : κ} {now : Int}

theorem get_some {r : ν} (h : (s.get key now).1 = some r) :
    ∃ slot, s.lookup key = some slot ∧ now < slot.expiresAt ∧ slot.response = r := by
  unfold get at h
  split at h
  · cases h
  · rename_i slot hs
    split at h
    · cases h
    · rename_i hexp
      exact ⟨slot, hs, Int.not_le.1 hexp, Option.some.inj h⟩

theorem get_of_lookup {slot : Slot ν} (h : s.lookup key = some slot) (hlt : now < slot.expiresAt) :
    (s.get key now).1 = some slot.response := by
  unfold get
  simp only [h]
  rw [if_neg (Int.not_le.2 hlt)]

theorem get_of_not_mem (h : key ∉ s.keys) : (s.get key now).1 = none := by
  rw [← AList.mem_keys, ← AList.lookup_eq_none] at h
  unfold get
  rw [h]

end Slots

namespace ResponseCache

open Recency (touch keep)

variable {κ ν : Type}

/-! ## Nodes -/

/-- **An iterator finds its own node**: the list, without it, and with it in front. -/
theorem exists_split {l : List (Node κ)} (hids : (l.map Node.id).Nodup) {n : Node κ} (hn : n ∈ l) :
    ∃ l₁ l₂, l = l₁ ++ n :: l₂ ∧ eraseNode n.id l = l₁ ++ l₂ ∧ splice n.id l = n :: (l₁ ++ l₂) := by
  -- no other node has its identity
  have own : ∀ m ∈ l, (m.id == n.id) = true → m = n := fun m hm he =>
    List.inj_on_of_nodup_map hids hm hn (eq_of_beq he)
  obtain ⟨m, l₁, l₂, -, hm, hl, herase⟩ := List.exists_of_eraseP (p := fun m => m.id == n.id) hn (beq_self_eq_true n.id)
  have hmn : m = n := own m (by rw [hl]; simp) hm
  subst hmn
  refine ⟨l₁, l₂, hl, herase, ?_⟩
  unfold splice
  cases hf : l.find? (fun a => a.id == m.id) with
  | none => exact absurd (beq_self_eq_true m.id) (List.find?_eq_none.1 hf m hn)
  | some a =>
    have ha : (a.id == m.id) = true := List.find?_some (p := fun a : Node κ => a.id == m.id) hf
    rw [own a (List.mem_of_find?_eq_some hf) ha]
    exact congrArg _ herase

theorem eraseNode_back {front : List (Node κ)} {back : Node κ} (h : ((front ++ [back]).map Node.id).Nodup) :
    eraseNode back.id (front ++ [back]) = front := by
  rw [List.map_append] at h
  have hnot : ∀ n ∈ front, ¬ (n.id == back.id) = true := fun n hn he =>
    (List.disjoint_of_nodup_append h) (List.mem_map.2 ⟨n, hn, eq_of_beq he⟩) List.mem_cons_self
  rw [eraseNode, List.eraseP_append_right _ hnot]
  simp

variable [DecidableEq κ]

structure Simulates (c : ResponseCache κ ν) (s : Slots κ ν) : Prop where
  order : c.lru.map Node.key = s.keys
  values : ∀ k, (c.entries.lookup k).map Entry.slot = s.lookup k
  positions : ∀ (k : κ) (e : Entry ν), c.entries.lookup k = some e → ⟨e.lruPosition, k⟩ ∈ c.lru
  nodes : (c.lru.map Node.id).Nodup
  fresh : ∀ n ∈ c.lru, n.id < c.nextNode
  bounded : s.keys.length ≤ c.options.capacity

variable {c : ResponseCache κ ν} {s : Slots κ ν} {key : κ}

theorem simulates_make (options : CacheOptions) (h : options.capacity ≠ 0) :
    Simulates (ResponseCache.make options h : ResponseCache κ ν) ∅ := by
  constructor
  · rfl
  · intro k; rfl
  · intro k e he; cases he
  · exact List.nodup_nil
  · intro n hn; cases hn
  · exact Nat.zero_le _

theorem Simulates.keys_erase {l₁ l₂ : List (Node κ)} {n : Node κ} (h : Simulates c s) (hl : c.lru = l₁ ++ n :: l₂) :
    (l₁ ++ l₂).map Node.key = s.keys.erase n.key := by
  have hkeys : s.keys = l₁.map Node.key ++ n.key :: l₂.map Node.key := by
    rw [← h.order, hl, List.map_append, List.map_cons]
  have hnd := s.keys_nodup
  rw [hkeys] at hnd ⊢
  have hnot : n.key ∉ l₁.map Node.key := fun hm =>
    (List.disjoint_of_nodup_append hnd) hm List.mem_cons_self
  rw [List.erase_append_right _ hnot, List.erase_cons_head, List.map_append]

theorem Simulates.size (h : Simulates c s) : c.size = s.keys.length := by
  have hperm : c.entries.keys.Perm s.keys := by
    refine (List.perm_ext_iff_of_nodup c.entries.keys_nodup s.keys_nodup).2 (fun k => ?_)
    rw [← AList.mem_keys, ← AList.mem_keys, ← AList.lookup_isSome, ← AList.lookup_isSome, ← h.values k,
      Option.isSome_map]
  rw [← hperm.length_eq]
  exact (List.length_map _).symm

/-- The entry moves to the front of the list, and may get a new value. -/
theorem Simulates.move (h : Simulates c s) {e : Entry ν} (he : c.entries.lookup key = some e)
    {entries : AList (fun _ : κ => Entry ν)} {slot : Slot ν}
    (hself : ∃ e', entries.lookup key = some e' ∧ e'.slot = slot ∧ e'.lruPosition = e.lruPosition)
    (hother : ∀ k, k ≠ key → entries.lookup k = c.entries.lookup k) :
    Simulates { c with lru := splice e.lruPosition c.lru, entries := entries } (s.insert key slot) := by
  obtain ⟨e', he', hslot, hpos⟩ := hself
  obtain ⟨l₁, l₂, hl, -, hsplice⟩ := exists_split h.nodes (h.positions key e he)
  have hperm : (splice e.lruPosition c.lru).Perm c.lru := by
    rw [hsplice, hl]; exact List.perm_middle.symm
  constructor
  · rw [Recency.keys_insert_eq_touch, Recency.touch, ← h.keys_erase hl, hsplice, List.map_cons]
  · intro k
    by_cases hk : k = key
    · subst hk; rw [he', AList.lookup_insert, ← hslot]; rfl
    · rw [hother k hk, AList.lookup_insert_ne hk]; exact h.values k
  · intro k e₁ he₁
    refine hperm.mem_iff.2 ?_
    by_cases hk : k = key
    · subst hk
      rw [he'] at he₁; cases he₁
      rw [hpos]; exact h.positions k e he
    · rw [hother k hk] at he₁; exact h.positions k e₁ he₁
  · exact (hperm.map Node.id).nodup_iff.2 h.nodes
  · exact fun n hn => h.fresh n (hperm.mem_iff.1 hn)
  · have hm : key ∈ s.keys := by
      rw [← AList.mem_keys, ← AList.lookup_isSome, ← h.values key, he]; rfl
    rw [Recency.keys_insert_eq_touch, ← Recency.take_touch_of_mem hm h.bounded]
    exact List.length_take_le _ _

/-- The entry and its node leave. -/
theorem Simulates.remove (h : Simulates c s) {e : Entry ν} (he : c.entries.lookup key = some e) :
    Simulates { c with lru := eraseNode e.lruPosition c.lru, entries := c.entries.erase key } (s.erase key) := by
  obtain ⟨l₁, l₂, hl, herase, -⟩ := exists_split h.nodes (h.positions key e he)
  have hsub : (eraseNode e.lruPosition c.lru).Sublist c.lru := List.eraseP_sublist
  constructor
  · rw [AList.keys_erase, ← h.keys_erase hl, herase]
  · intro k
    by_cases hk : k = key
    · subst hk; rw [AList.lookup_erase k c.entries, AList.lookup_erase k s]; rfl
    · rw [AList.lookup_erase_ne hk, AList.lookup_erase_ne hk]; exact h.values k
  · intro k e₁ he₁
    have hk : k ≠ key := by
      rintro rfl; rw [AList.lookup_erase k c.entries] at he₁; cases he₁
    rw [AList.lookup_erase_ne hk] at he₁
    have hm := h.positions k e₁ he₁
    simp only [herase]
    rw [hl, List.mem_append, List.mem_cons] at hm
    rcases hm with hm | hm | hm
    · exact List.mem_append_left _ hm
    · exact absurd (congrArg Node.key hm) hk
    · exact List.mem_append_right _ hm
  · exact h.nodes.sublist (hsub.map _)
  · exact fun n hn => h.fresh n (hsub.subset hn)
  · rw [AList.keys_erase]; exact List.length_erase_le.trans h.bounded

/-- **`get` answers as the list of slots does**, and stays tied to it. -/
theorem simulates_get (h : Simulates c s) (key : κ) (now : Int) :
    (c.get key now).1 = (s.get key now).1 ∧ Simulates (c.get key now).2 (s.get key now).2 := by
  unfold ResponseCache.get Slots.get
  rw [← h.values key]
  cases he : c.entries.lookup key with
  | none => exact ⟨rfl, h⟩
  | some e =>
    simp only [Option.map_some]
    by_cases hexp : e.expiresAt ≤ now
    · rw [if_pos hexp, if_pos (show e.slot.expiresAt ≤ now from hexp)]
      exact ⟨rfl, h.remove he⟩
    · rw [if_neg hexp, if_neg (show ¬ e.slot.expiresAt ≤ now from hexp)]
      exact ⟨rfl, h.move he ⟨e, he, rfl, rfl⟩ (fun _ _ => rfl)⟩

/-- The entry at the back of the list. -/
theorem Simulates.back_entry (h : Simulates c s) {front : List (Node κ)} {back : Node κ}
    (hl : c.lru = front ++ [back]) : ∃ e, c.entries.lookup back.key = some e ∧ e.lruPosition = back.id := by
  have hback : back ∈ c.lru := by rw [hl]; simp
  have hm : back.key ∈ s := by
    rw [AList.mem_keys, ← h.order]; exact List.mem_map.2 ⟨back, hback, rfl⟩
  rw [← AList.lookup_isSome, ← h.values, Option.isSome_map] at hm
  obtain ⟨e, he⟩ := Option.isSome_iff_exists.1 hm
  have hkeys : (c.lru.map Node.key).Nodup := by rw [h.order]; exact s.keys_nodup
  have hnode := List.inj_on_of_nodup_map hkeys (h.positions back.key e he) hback rfl
  exact ⟨e, he, congrArg Node.id hnode⟩

/-- **An eviction cuts the list by one**, if it is full. -/
theorem Simulates.evict (h : Simulates c s) : Simulates c.evict (keep (c.options.capacity - 1) s) := by
  have hlen : c.lru.length = s.keys.length := by rw [← h.order, List.length_map]
  unfold ResponseCache.evict
  split
  · rename_i hsize
    rw [h.size, ← hlen] at hsize
    split
    · rename_i back hback
      obtain ⟨front, hl⟩ := List.getLast?_eq_some_iff.1 hback
      obtain ⟨e, he, hid⟩ := h.back_entry hl
      have hkeys : s.keys = front.map Node.key ++ [back.key] := by rw [← h.order, hl, List.map_append]; rfl
      have hcap : c.options.capacity - 1 = (front.map Node.key).length := by
        rw [← hsize, hl, List.length_append, List.length_map]; rfl
      have hdrop : c.lru.dropLast = eraseNode e.lruPosition c.lru := by
        rw [hid, hl, List.dropLast_concat, eraseNode_back (by rw [← hl]; exact h.nodes)]
      rw [hcap, Recency.keep_eq_erase hkeys, hdrop]
      exact h.remove he
    · rename_i hnone
      rw [List.getLast?_eq_none_iff] at hnone
      rw [hnone] at hsize
      exact absurd hsize.symm c.capacity_ne_zero
  · rename_i hsize
    rw [h.size] at hsize
    have hle := h.bounded
    rw [Recency.keep_of_le (by omega)]
    exact h

/-- A new entry gets a new node, in front. -/
theorem Simulates.push (h : Simulates c s) (hnew : key ∉ s) (hroom : s.keys.length < c.options.capacity) (response : ν)
    (expiresAt : Int) :
    Simulates { c with lru := ⟨c.nextNode, key⟩ :: c.lru,
                       entries := c.entries.insert key ⟨response, expiresAt, c.nextNode⟩,
                       nextNode := c.nextNode + 1 } (s.insert key ⟨response, expiresAt⟩) := by
  have hnot : key ∉ s.keys := fun hm => hnew (AList.mem_keys.2 hm)
  have hkeys : (s.insert key ⟨response, expiresAt⟩).keys = key :: s.keys := by
    rw [AList.keys_insert, List.erase_of_not_mem hnot]
  constructor
  · rw [hkeys, ← h.order]; rfl
  · intro k
    by_cases hk : k = key
    · subst hk; rw [AList.lookup_insert, AList.lookup_insert]; rfl
    · rw [AList.lookup_insert_ne hk, AList.lookup_insert_ne hk]; exact h.values k
  · intro k e he
    by_cases hk : k = key
    · subst hk
      rw [AList.lookup_insert] at he; cases he
      exact List.mem_cons_self
    · rw [AList.lookup_insert_ne hk] at he
      exact List.mem_cons_of_mem _ (h.positions k e he)
  · refine List.nodup_cons.2 ⟨fun hm => ?_, h.nodes⟩
    obtain ⟨n, hn, hid⟩ := List.mem_map.1 hm
    exact absurd (h.fresh n hn) (Nat.not_lt.2 (Nat.le_of_eq hid.symm))
  · intro n hn
    rcases List.mem_cons.1 hn with rfl | hn
    · exact Nat.lt_succ_self _
    · exact Nat.lt_succ_of_lt (h.fresh n hn)
  · rw [hkeys]; exact hroom

/-- **`put` does to the list of slots what it should.** -/
theorem simulates_put (h : Simulates c s) (key : κ) (response : ν) (now : Int) :
    Simulates (c.put key response now) (s.put c.options.capacity key ⟨response, c.options.expiry now⟩) := by
  unfold ResponseCache.put Slots.put
  cases he : c.entries.lookup key with
  | some e =>
    have hm : Simulates _ (s.insert key ⟨response, c.options.expiry now⟩) :=
      h.move he ⟨_, AList.lookup_insert (b := { e with response := response, expiresAt := c.options.expiry now }) _,
        rfl, rfl⟩ (fun k hk => AList.lookup_insert_ne hk)
    rw [Recency.keep_of_le hm.bounded]
    exact hm
  | none =>
    have hnew : key ∉ s := by
      rw [← AList.lookup_eq_none, ← h.values key, he]; rfl
    have hpos := Nat.pos_of_ne_zero c.capacity_ne_zero
    rw [Recency.keep_insert hnew hpos]
    refine h.evict.push ?_ ?_ response (c.options.expiry now)
    · rw [AList.mem_keys, Recency.keys_keep]
      exact fun hm => hnew (AList.mem_keys.2 (List.mem_of_mem_take hm))
    · rw [evict_options, Recency.keys_keep, List.length_take]
      exact (Nat.min_le_left _ _).trans_lt (Nat.sub_lt hpos Nat.one_pos)

end ResponseCache
end EventEdge
