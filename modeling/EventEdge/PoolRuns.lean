import EventEdge.RoundRobin
import EventEdge.Upstream
/-!
# PoolRuns — the rotation is fair, however the backends flap

Any sequence of `select` and `set_healthy` calls on a pool, from any state of it.  Unrolled, the cursor makes a sweep:
every `select` serves the next place whose position is healthy at that moment (`exists_sweep`), so a position that is
healthy throughout is never passed over.  `Fair` is what follows for one pool and every interval of calls.
-/
namespace EventEdge
namespace UpstreamPool

open RoundRobin (Sweep Covers)

inductive Call where
  | select
  | setHealthy (index : Nat) (healthy : Bool)
  deriving DecidableEq, Repr

def Call.isSelect : Call → Bool
  | .select => true
  | .setHealthy _ _ => false

/-- The pool after a call; `set_healthy` at an index out of range throws and changes nothing. -/
def call (p : UpstreamPool) : Call → UpstreamPool
  | .select => p.select.2
  | .setHealthy index healthy => ((p.setHealthy index healthy).map Prod.snd).getD p

def after (p : UpstreamPool) (calls : List Call) : UpstreamPool := calls.foldl call p

/-- The position a call selects, if it is a `select` that finds one. -/
def pick (p : UpstreamPool) : Call → Option Nat
  | .select => p.selectIndex
  | .setHealthy _ _ => none

/-- The positions the calls select, in order. -/
def picks (p : UpstreamPool) : List Call → List Nat
  | [] => []
  | c :: calls => (p.pick c).toList ++ picks (p.call c) calls

/-- Position `i` is healthy before, between and after the calls. -/
def healthyThroughout (p : UpstreamPool) (i : Nat) : List Call → Bool
  | [] => p.healthyAt i
  | c :: calls => p.healthyAt i && healthyThroughout (p.call c) i calls

theorem call_size (p : UpstreamPool) (c : Call) : (p.call c).size = p.size := by
  unfold size
  cases c with
  | select => exact congrArg List.length (select_backends p)
  | setHealthy index healthy =>
    simp only [call, setHealthy]
    split
    · rfl
    · split
      · rfl
      · exact List.length_set

/-- Only `select` moves the cursor. -/
theorem setHealthy_nextIndex (p : UpstreamPool) (index : Nat) (healthy : Bool) :
    (p.call (.setHealthy index healthy)).nextIndex = p.nextIndex := by
  simp only [call, setHealthy]
  split
  · rfl
  · split <;> rfl

theorem healthyAt_of_throughout {p : UpstreamPool} {i : Nat} {calls : List Call}
    (h : p.healthyThroughout i calls = true) : p.healthyAt i = true := by
  cases calls with
  | nil => exact h
  | cons c calls => exact (Bool.and_eq_true_iff.1 h).1

theorem picks_append (p : UpstreamPool) : ∀ (cs ds : List Call), p.picks (cs ++ ds) = p.picks cs ++ (p.after cs).picks ds
  | [], _ => rfl
  | c :: cs, ds => by
    rw [List.cons_append, picks, picks, picks_append (p.call c) cs ds, List.append_assoc]
    rfl

theorem healthyThroughout_append (p : UpstreamPool) (i : Nat) : ∀ (cs ds : List Call),
    p.healthyThroughout i cs = true → (p.after cs).healthyThroughout i ds = true →
      p.healthyThroughout i (cs ++ ds) = true
  | [], _, _, h => h
  | c :: cs, ds, h, h' => by
    rw [healthyThroughout, Bool.and_eq_true] at h
    rw [List.cons_append, healthyThroughout, Bool.and_eq_true]
    exact ⟨h.1, healthyThroughout_append (p.call c) i cs ds h.2 h'⟩

theorem after_healthyAt {i : Nat} : ∀ (calls : List Call) {p : UpstreamPool},
    p.healthyThroughout i calls = true → (p.after calls).healthyAt i = true
  | [], _, h => h
  | _ :: calls, _, h => after_healthyAt calls (Bool.and_eq_true_iff.1 h).2

/-- The place `select` serves, the cursor being unrolled to `u`: everything it passes over is unhealthy. -/
theorem exists_place {p : UpstreamPool} {index u : Nat} (hu : u % p.size = p.nextIndex)
    (h : p.selectIndex = some index) :
    ∃ x, u ≤ x ∧ x % p.size = index ∧ (x + 1) % p.size = p.select.2.nextIndex ∧
      ∀ y, u ≤ y → y < x → p.healthyAt (y % p.size) = false := by
  obtain ⟨offset, -, hindex, -, hskipped⟩ := selectIndex_some h
  have hplace : ∀ o, (u + o) % p.size = (p.nextIndex + o) % p.size := fun o => by rw [← hu, Nat.mod_add_mod]
  have hx : (u + offset) % p.size = index := by rw [hplace, ← hindex]
  refine ⟨u + offset, Nat.le_add_right _ _, hx, ?_, fun y hy hlt => ?_⟩
  · rw [(select_of_selectIndex h).2.2, ← hx, Nat.mod_add_mod]
  · obtain ⟨o, rfl⟩ := Nat.exists_eq_add_of_le hy
    rw [hplace]
    exact hskipped o (by omega)

/-- **The selections of any sequence of calls are a sweep**; a position healthy throughout is never passed over. -/
theorem exists_sweep : ∀ (calls : List Call) (p : UpstreamPool) (u : Nat), u % p.size = p.nextIndex →
    ∃ v l, Sweep u v l ∧ p.picks calls = l.map (· % p.size) ∧
      ∀ i, p.healthyThroughout i calls = true → Covers p.size i u v l
  | [], p, u, _ => ⟨u, [], Sweep.nil u, rfl, fun i _ x hu hv => by omega⟩
  | c :: calls, p, u, hu => by
    have hsize := call_size p c
    cases hpick : p.pick c with
    | none =>
      -- a `set_healthy`, or a `select` that finds nothing: the cursor stays
      have hcursor : (p.call c).nextIndex = p.nextIndex := by
        cases c with
        | select => rw [call, select_none hpick]
        | setHealthy index healthy => exact setHealthy_nextIndex p index healthy
      obtain ⟨v, l, hs, hpicks, hcov⟩ := exists_sweep calls (p.call c) u (by rw [hsize, hcursor]; exact hu)
      rw [hsize] at hpicks hcov
      refine ⟨v, l, hs, by rw [picks, hpick, hpicks]; rfl, fun i hi => hcov i ?_⟩
      exact (Bool.and_eq_true_iff.1 hi).2
    | some index =>
      cases c with
      | setHealthy _ _ => cases hpick
      | select =>
        obtain ⟨x, hux, hx, hnext, hskipped⟩ := exists_place hu hpick
        obtain ⟨v, l, hs, hpicks, hcov⟩ := exists_sweep calls (p.call .select) (x + 1) (by rw [hsize, hnext]; rfl)
        rw [hsize] at hpicks hcov
        refine ⟨v, x :: l, hs.cons hux, ?_, fun i hi => ?_⟩
        · rw [picks, hpick, hpicks, List.map_cons, hx]; rfl
        · obtain ⟨hnow, hlater⟩ := Bool.and_eq_true_iff.1 hi
          refine (hcov i hlater).cons (fun y hy hlt hyi => ?_)
          have := hskipped y hy hlt
          rw [hyi, hnow] at this
          cases this

/-- While some position stays healthy, every `select` selects. -/
theorem picks_length {i : Nat} : ∀ (calls : List Call) (p : UpstreamPool), p.healthyThroughout i calls = true →
    (p.picks calls).length = calls.countP Call.isSelect
  | [], _, _ => rfl
  | c :: calls, p, h => by
    obtain ⟨hnow, hlater⟩ := Bool.and_eq_true_iff.1 h
    rw [picks, List.length_append, picks_length calls (p.call c) hlater, List.countP_cons, Nat.add_comm]
    cases c with
    | setHealthy _ _ => rfl
    | select =>
      obtain ⟨index, hindex⟩ := Option.isSome_iff_exists.1 (selectIndex_isSome hnow)
      rw [pick, hindex]; rfl

/-- **The rotation of a pool is fair.**  `none` is returned exactly when no backend is healthy, and leaves the cursor;
otherwise the endpoint of the position that is selected, which is healthy.
Between two selections of a position that stays healthy no position is selected twice, and every position that stays
healthy is selected once.  The counts of two positions that stay healthy differ by at most one over any interval, and
`size()` selections serve every position that stays healthy. -/
structure Fair (p : UpstreamPool) : Prop where
  none_iff : p.select.1 = none ↔ ∀ i < p.size, p.healthyAt i = false
  none_cursor : p.select.1 = none → p.select.2.nextIndex = p.nextIndex
  returned : ∀ i, p.selectIndex = some i → p.healthyAt i = true ∧
    ∃ backend, p.backends[i]? = some backend ∧ p.select.1 = some backend.endpoint
  between : ∀ i calls, p.selectIndex = some i → (p.select.2.after calls).selectIndex = some i →
    i ∉ p.select.2.picks calls → p.select.2.healthyThroughout i calls = true → ∀ j, j ≠ i →
      (p.select.2.picks calls).count j ≤ 1 ∧
        (p.select.2.healthyThroughout j calls = true → (p.select.2.picks calls).count j = 1)
  balanced : ∀ calls i j, p.healthyThroughout i calls = true → p.healthyThroughout j calls = true →
    (p.picks calls).count i ≤ (p.picks calls).count j + 1
  served : ∀ calls i, p.healthyThroughout i calls = true → p.size ≤ calls.countP Call.isSelect → i ∈ p.picks calls

theorem select_eq_none_iff (p : UpstreamPool) : p.select.1 = none ↔ p.selectIndex = none := by
  constructor
  · intro h
    cases hs : p.selectIndex with
    | none => rfl
    | some index =>
      obtain ⟨hhealthy, -⟩ := List.find?_eq_some_iff_append.1 hs
      rw [(select_of_selectIndex hs).1, List.getElem?_eq_getElem (healthyAt_lt hhealthy)] at h
      cases h
  · intro h; rw [select_none h]

theorem selectIndex_eq_none_iff (p : UpstreamPool) : p.selectIndex = none ↔ ∀ i < p.size, p.healthyAt i = false := by
  rw [selectIndex, List.find?_eq_none]
  constructor
  · intro h i hi
    simpa using h i ((p.mem_tried i).2 hi)
  · intro h i hi
    rw [h i ((p.mem_tried i).1 hi)]
    exact Bool.false_ne_true

/-- Between two selections of `i`, which stays healthy, the cursor goes round once. -/
theorem sweep_between {p : UpstreamPool} {i : Nat} {calls : List Call} (hfirst : p.selectIndex = some i)
    (hlast : (p.select.2.after calls).selectIndex = some i) (hnot : i ∉ p.select.2.picks calls)
    (hi : p.select.2.healthyThroughout i calls = true) :
    ∃ l, Sweep (i + 1) (i + p.size + 1) l ∧ p.select.2.picks calls ++ [i] = l.map (· % p.size) ∧
      ∀ j, p.select.2.healthyThroughout j calls = true → Covers p.size j (i + 1) (i + p.size + 1) l := by
  have hsize : p.select.2.size = p.size := call_size p .select
  have hlt : i < p.size := healthyAt_lt (List.find?_eq_some_iff_append.1 hfirst).1
  obtain ⟨v, l, hs, hpicks, hcov⟩ := exists_sweep (calls ++ [.select]) p.select.2 (i + 1)
    (by rw [hsize, (select_of_selectIndex hfirst).2.2])
  have hall : p.select.2.picks (calls ++ [.select]) = p.select.2.picks calls ++ [i] := by
    rw [picks_append]
    simp only [picks, pick, hlast]
    rfl
  rw [hall, hsize] at hpicks
  rw [hsize] at hcov
  have hcov' : ∀ j, p.select.2.healthyThroughout j calls = true → Covers p.size j (i + 1) v l := fun j hj => by
    refine hcov j (healthyThroughout_append _ j calls [.select] hj ?_)
    have hj' := after_healthyAt calls hj
    simp only [healthyThroughout, call, healthyAt, select_backends, Bool.and_self] at hj' ⊢
    exact hj'
  -- the last place served is the next one on position `i`, or `i` was selected before
  obtain ⟨l', x, rfl⟩ : ∃ l' x, l = l' ++ [x] := by
    rcases List.eq_nil_or_concat l with rfl | ⟨l', x, rfl⟩
    · simp at hpicks
    · exact ⟨l', x, List.concat_eq_append⟩
  rw [List.map_append] at hpicks
  obtain ⟨hmid, hxi⟩ := List.append_inj' hpicks rfl
  have hxi' : x % p.size = i := (List.cons.inj hxi).1.symm
  have hx := hs.within x (List.mem_append_right l' List.mem_cons_self)
  have hround : i + p.size ≤ x := by
    have hmod : i ≡ x [MOD p.size] := by rw [Nat.ModEq, hxi', Nat.mod_eq_of_lt hlt]
    have := Nat.le_of_dvd (by omega) ((Nat.modEq_iff_dvd' (by omega)).1 hmod)
    omega
  have hmem := hcov' i hi (i + p.size) (by omega) (by omega) (by rw [Nat.add_mod_right, Nat.mod_eq_of_lt hlt])
  have hplace : x = i + p.size := by
    rcases List.mem_append.1 hmem with hm | hm
    · refine absurd ?_ hnot
      rw [hmid]
      exact List.mem_map.2 ⟨_, hm, by rw [Nat.add_mod_right, Nat.mod_eq_of_lt hlt]⟩
    · exact (List.mem_singleton.1 hm).symm
  subst hplace
  exact ⟨l' ++ [i + p.size], hs.cut, by rw [List.map_append, hmid, hxi], fun j hj => (hcov' j hj).mono (by omega)⟩

theorem fair (p : UpstreamPool) : Fair p := by
  have hcursor : p.nextIndex % p.size = p.nextIndex := Nat.mod_eq_of_lt p.nextIndex_lt
  constructor
  · rw [select_eq_none_iff, selectIndex_eq_none_iff]
  · intro h
    rw [select_none ((select_eq_none_iff p).1 h)]
  · intro i hi
    obtain ⟨hhealthy, -⟩ := List.find?_eq_some_iff_append.1 hi
    have hbackend := List.getElem?_eq_getElem (healthyAt_lt hhealthy)
    exact ⟨hhealthy, _, hbackend, by rw [(select_of_selectIndex hi).1, hbackend]; rfl⟩
  · intro i calls hfirst hlast hnot hi j hj
    obtain ⟨l, hs, hpicks, hcov⟩ := sweep_between hfirst hlast hnot hi
    have hcount : (p.select.2.picks calls).count j = (l.map (· % p.size)).count j := by
      rw [← hpicks, List.count_append, List.count_singleton, if_neg (by simpa using Ne.symm hj), Nat.add_zero]
    have hend : i + p.size + 1 = i + 1 + p.size := by omega
    rw [hend] at hs hcov
    have hpos : 0 < p.size := Nat.lt_of_le_of_lt (Nat.zero_le _) p.nextIndex_lt
    rw [hcount]
    refine ⟨(hs.count_le p.size j).trans (RoundRobin.card_turns_round_le hpos j (i + 1)), fun hjh => ?_⟩
    have hjlt : j < p.size := by
      rw [← call_size p .select]
      exact healthyAt_lt (healthyAt_of_throughout hjh)
    rw [hs.count_eq (hcov j hjh), RoundRobin.card_turns_round hjlt]
  · intro calls i j hi hj
    obtain ⟨v, l, hs, hpicks, hcov⟩ := exists_sweep calls p p.nextIndex hcursor
    rw [hpicks, hs.count_eq (hcov i hi), hs.count_eq (hcov j hj)]
    exact RoundRobin.card_turns_le (healthyAt_lt (healthyAt_of_throughout hi))
      (healthyAt_lt (healthyAt_of_throughout hj)) _ _
  · intro calls i hi hsize
    obtain ⟨v, l, hs, hpicks, hcov⟩ := exists_sweep calls p p.nextIndex hcursor
    -- as many places as selections, so at least one round
    have hlen : l.length = calls.countP Call.isSelect := by
      rw [← picks_length calls p hi, hpicks, List.length_map]
    have hle := hs.length_le
    have := hs.le
    rw [hpicks]
    exact RoundRobin.Sweep.mem_of_round (hcov i hi) (healthyAt_lt (healthyAt_of_throughout hi)) (by omega)

end UpstreamPool
end EventEdge
