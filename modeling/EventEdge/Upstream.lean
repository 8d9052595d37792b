import EventEdge.Http
import EventEdge.Lts
/-!
# Upstream — the pool of backends (`upstream_config.hpp`)

A pool is never empty and its cursor always designates one of its backends: the constructor throws on an empty list,
and `select` and `set_healthy` keep both, so the two are a field of the type.
-/
namespace EventEdge

/-- `UpstreamEndpoint`. -/
structure UpstreamEndpoint where
  host : Str
  port : UInt16
  deriving DecidableEq, Repr

/-- `std::to_string` of a port. -/
def portText (port : UInt16) : Str := (Nat.repr port.toNat).toList

/-- `UpstreamPool::Backend`. -/
structure Backend where
  endpoint : UpstreamEndpoint
  healthy : Bool
  deriving DecidableEq, Repr

/-- `UpstreamPool`: the backends and `next_index_`. -/
structure UpstreamPool where
  backends : List Backend
  nextIndex : Nat
  nextIndex_lt : nextIndex < backends.length

namespace UpstreamPool

/-- The constructor: every endpoint starts healthy. -/
def make (endpoints : List UpstreamEndpoint) : Except Thrown UpstreamPool :=
  if h : endpoints = [] then .error .invalidArgument
  else .ok ⟨endpoints.map (fun e => ⟨e, true⟩), 0, by
    rw [List.length_map]; exact List.length_pos_iff.2 h⟩

def size (p : UpstreamPool) : Nat := p.backends.length

/-- `backends_[index].healthy`. -/
def healthyAt (p : UpstreamPool) (index : Nat) : Bool := ((p.backends[index]?).map Backend.healthy).getD false

/-- The positions the loop of `select` tries, in order. -/
def tried (p : UpstreamPool) : List Nat := (List.range p.size).map (fun offset => (p.nextIndex + offset) % p.size)

/-- The position `select` stops at. -/
def selectIndex (p : UpstreamPool) : Option Nat := p.tried.find? p.healthyAt

/-- `select`. -/
def select (p : UpstreamPool) : Option UpstreamEndpoint × UpstreamPool :=
  match p.selectIndex with
  | none => (none, p)
  | some index => ((p.backends[index]?).map Backend.endpoint,
      { p with nextIndex := (index + 1) % p.backends.length,
               nextIndex_lt := Nat.mod_lt _ (Nat.lt_of_le_of_lt (Nat.zero_le _) p.nextIndex_lt) })

/-- `set_healthy`: the flag changed, and the pool after; nothing at an index out of range (`at` throws). -/
def setHealthy (p : UpstreamPool) (index : Nat) (healthy : Bool) : Option (Bool × UpstreamPool) :=
  match p.backends[index]? with
  | none => none
  | some b =>
    if b.healthy = healthy then some (false, p)
    else some (true, { p with backends := p.backends.set index { b with healthy := healthy },
                              nextIndex_lt := by rw [List.length_set]; exact p.nextIndex_lt })

/-- Some backend is healthy. -/
def anyHealthy (p : UpstreamPool) : Bool := p.backends.any Backend.healthy

theorem mem_tried (p : UpstreamPool) (i : Nat) : i ∈ p.tried ↔ i < p.size := by
  have hn : p.nextIndex < p.size := p.nextIndex_lt
  unfold tried
  rw [List.mem_map]
  constructor
  · rintro ⟨o, -, rfl⟩
    exact Nat.mod_lt _ (by omega)
  · intro hi
    -- the offset at which the cursor comes round to `i`
    by_cases hle : p.nextIndex ≤ i
    · exact ⟨i - p.nextIndex, by rw [List.mem_range]; omega, by
        rw [show p.nextIndex + (i - p.nextIndex) = i by omega, Nat.mod_eq_of_lt hi]⟩
    · refine ⟨p.size + i - p.nextIndex, by rw [List.mem_range]; omega, ?_⟩
      rw [show p.nextIndex + (p.size + i - p.nextIndex) = i + p.size by omega, Nat.add_mod_right, Nat.mod_eq_of_lt hi]

/-- **`select` finds nothing exactly when no backend is healthy.** -/
theorem select_fst_isSome (p : UpstreamPool) : p.select.1.isSome = p.anyHealthy := by
  unfold select
  cases hs : p.selectIndex with
  | none =>
    simp only [Option.isSome_none]
    symm
    rw [anyHealthy, List.any_eq_false]
    intro b hb hbh
    obtain ⟨i, hi, rfl⟩ := List.mem_iff_getElem.1 hb
    have := List.find?_eq_none.1 hs i ((p.mem_tried i).2 hi)
    simp [healthyAt, hi, hbh] at this
  | some i =>
    have hi : i < p.backends.length := (p.mem_tried i).1 (List.mem_of_find?_eq_some hs)
    have hh : p.healthyAt i = true := List.find?_some hs
    simp only [healthyAt, List.getElem?_eq_getElem hi, Option.map_some, Option.getD_some] at hh
    simp only [List.getElem?_eq_getElem hi, Option.map_some, Option.isSome_some]
    exact (List.any_eq_true.2 ⟨_, List.getElem_mem hi, hh⟩).symm

/-- **Where `select` stops**: at the first healthy position at or after the cursor, going round. -/
theorem selectIndex_some {p : UpstreamPool} {index : Nat} (h : p.selectIndex = some index) :
    ∃ offset < p.size, index = (p.nextIndex + offset) % p.size ∧ p.healthyAt index = true ∧
      ∀ o < offset, p.healthyAt ((p.nextIndex + o) % p.size) = false := by
  obtain ⟨hhealthy, before, after, htried, hbefore⟩ := List.find?_eq_some_iff_append.1 h
  have hlen : before.length < p.size := by
    have := congrArg List.length htried
    simp only [tried, List.length_map, List.length_range, List.length_append, List.length_cons] at this
    omega
  have htried_at : ∀ o < p.size, p.tried[o]? = some ((p.nextIndex + o) % p.size) := by
    intro o ho
    simp [tried, ho]
  refine ⟨before.length, hlen, ?_, hhealthy, fun o ho => ?_⟩
  · have := htried_at before.length hlen
    rw [htried, List.getElem?_append_right (Nat.le_refl _), Nat.sub_self] at this
    exact Option.some.inj this
  · have := htried_at o (by omega)
    rw [htried, List.getElem?_append_left ho] at this
    simpa using hbefore _ (List.mem_of_getElem? this)

theorem healthyAt_lt {p : UpstreamPool} {index : Nat} (h : p.healthyAt index = true) : index < p.size := by
  by_contra hge
  rw [healthyAt, List.getElem?_eq_none (Nat.not_lt.1 hge)] at h
  cases h

/-- A healthy position is found. -/
theorem selectIndex_isSome {p : UpstreamPool} {index : Nat} (h : p.healthyAt index = true) :
    p.selectIndex.isSome = true := by
  exact List.find?_isSome.2 ⟨index, (p.mem_tried index).2 (healthyAt_lt h), h⟩

/-- `select` returns the endpoint of the position it stops at, and moves the cursor past it. -/
theorem select_of_selectIndex {p : UpstreamPool} {index : Nat} (h : p.selectIndex = some index) :
    p.select.1 = (p.backends[index]?).map Backend.endpoint ∧ p.select.2.backends = p.backends ∧
      p.select.2.nextIndex = (index + 1) % p.size := by
  unfold select
  rw [h]
  exact ⟨rfl, rfl, rfl⟩

theorem select_none {p : UpstreamPool} (h : p.selectIndex = none) : p.select = (none, p) := by
  unfold select
  rw [h]

/-- **What `set_healthy` does**: the flag has the value, no other flag changes, and it says whether this one did. -/
theorem setHealthy_some {p q : UpstreamPool} {index : Nat} {healthy changed : Bool}
    (h : p.setHealthy index healthy = some (changed, q)) :
    q.size = p.size ∧ q.healthyAt index = healthy ∧ (∀ j, j ≠ index → q.healthyAt j = p.healthyAt j) ∧
      (changed = true ↔ p.healthyAt index ≠ healthy) := by
  unfold setHealthy at h
  split at h
  · cases h
  · rename_i b hb
    have hat : p.healthyAt index = b.healthy := by rw [healthyAt, hb]; rfl
    split at h
    · rename_i heq
      cases h
      exact ⟨rfl, by rw [hat, heq], fun _ _ => rfl, by rw [hat, heq]; simp⟩
    · rename_i hne
      cases h
      have hlt := (List.getElem?_eq_some_iff.1 hb).1
      refine ⟨List.length_set, ?_, fun j hj => ?_, by rw [hat]; simp [hne]⟩
      · rw [healthyAt, List.getElem?_set_self hlt]; rfl
      · rw [healthyAt, List.getElem?_set_ne (Ne.symm hj)]; rfl

theorem setHealthy_isSome {p : UpstreamPool} {index : Nat} (h : index < p.size) (healthy : Bool) :
    ∃ changed q, p.setHealthy index healthy = some (changed, q) := by
  unfold setHealthy
  rw [List.getElem?_eq_getElem h]
  dsimp only
  split
  · exact ⟨_, _, rfl⟩
  · exact ⟨_, _, rfl⟩

/-- `set_healthy` changes a flag and nothing else. -/
theorem setHealthy_frame {p q : UpstreamPool} {index : Nat} {healthy changed : Bool}
    (h : p.setHealthy index healthy = some (changed, q)) :
    q.backends.map Backend.endpoint = p.backends.map Backend.endpoint ∧ q.nextIndex = p.nextIndex := by
  unfold setHealthy at h
  split at h
  · cases h
  · rename_i b hb
    split at h
    · cases h; exact ⟨rfl, rfl⟩
    · cases h
      obtain ⟨pre, post, hl, hset, -⟩ := Lts.getElem?_split hb
      refine ⟨?_, rfl⟩
      dsimp only
      rw [hset, hl]; simp

/-- The flags two pools of one size differ in. -/
def changes (p q : UpstreamPool) : Nat := (List.range p.size).countP (fun i => p.healthyAt i != q.healthyAt i)

theorem changes_zero {p q : UpstreamPool} (h : ∀ i, q.healthyAt i = p.healthyAt i) : p.changes q = 0 := by
  unfold changes
  rw [List.countP_eq_zero]
  intro i _
  simp [h i]

/-- **`set_healthy` counts what it changes.** -/
theorem setHealthy_changes {p q : UpstreamPool} {index : Nat} {healthy changed : Bool}
    (h : p.setHealthy index healthy = some (changed, q)) : p.changes q = if changed then 1 else 0 := by
  have hlt : index < p.size := by
    by_contra hge
    unfold setHealthy at h
    rw [List.getElem?_eq_none (Nat.not_lt.1 hge)] at h
    cases h
  obtain ⟨-, hat, hother, hchanged⟩ := setHealthy_some h
  cases changed with
  | false =>
    have hsame : p.healthyAt index = healthy := by
      by_contra hne
      exact Bool.false_ne_true (hchanged.2 hne)
    refine changes_zero (fun i => ?_)
    by_cases hi : i = index
    · rw [hi, hat, hsame]
    · exact hother i hi
  | true =>
    have hne : p.healthyAt index ≠ healthy := hchanged.1 rfl
    have honly : ∀ i, (p.healthyAt i != q.healthyAt i) = (i == index) := by
      intro i
      by_cases hi : i = index
      · rw [hi, hat]; simp [hne]
      · rw [hother i hi]; simp [hi]
    unfold changes
    rw [funext honly]
    exact List.count_eq_one_of_mem List.nodup_range (List.mem_range.2 hlt)

/-- `select` that finds nothing leaves the cursor. -/
theorem select_snd_of_none {p : UpstreamPool} (h : p.select.1 = none) : p.select.2 = p := by
  cases hi : p.selectIndex with
  | none => rw [select_none hi]
  | some index =>
    rw [(select_of_selectIndex hi).1, Option.map_eq_none_iff] at h
    have hlt := (p.mem_tried index).1 (List.mem_of_find?_eq_some hi)
    exact absurd hlt (Nat.not_lt.2 (List.getElem?_eq_none_iff.1 h))

/-- `select` returns the endpoint of a backend. -/
theorem select_mem {p : UpstreamPool} {u : UpstreamEndpoint} (h : p.select.1 = some u) :
    u ∈ p.backends.map Backend.endpoint := by
  unfold select at h
  split at h
  · cases h
  · obtain ⟨b, hb, rfl⟩ := Option.map_eq_some_iff.1 h
    exact List.mem_map.2 ⟨b, List.mem_of_getElem? hb, rfl⟩

/-- `select` changes no backend. -/
@[simp] theorem select_backends (p : UpstreamPool) : p.select.2.backends = p.backends := by
  unfold select
  split <;> rfl

@[simp] theorem select_healthyAt (p : UpstreamPool) (index : Nat) : p.select.2.healthyAt index = p.healthyAt index := by
  rw [healthyAt, select_backends, healthyAt]

@[simp] theorem select_size (p : UpstreamPool) : p.select.2.size = p.size := by
  rw [size, select_backends, size]

end UpstreamPool
end EventEdge
