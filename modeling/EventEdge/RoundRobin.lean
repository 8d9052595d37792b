import Mathlib.Data.Int.CardIntervalMod
/-!
# RoundRobin — a cursor that goes round a circle

The circle has `n` positions; the cursor is unrolled to a natural number that only grows, place `x` being position
`x % n`.  A `Sweep` from `u` to `v` is the list of places served on the way, in order.  Some places are passed over;
a position none of whose places is passed over is covered (`Covers`), and is served as often as the cursor came by
(`Sweep.count_eq`).  The cursor comes by any two positions equally often, up to one (`card_turns_le`).
-/
namespace RoundRobin

/-- The places from `u` to `v` (exclusive) on position `i`. -/
def turns (n i u v : Nat) : Finset Nat := (Finset.Ico u v).filter (fun x => x % n = i)

theorem mem_turns {n i u v x : Nat} : x ∈ turns n i u v ↔ (u ≤ x ∧ x < v) ∧ x % n = i := by
  rw [turns, Finset.mem_filter, Finset.mem_Ico]

theorem card_turns_zero {n i : Nat} (hi : i < n) (v : Nat) :
    (turns n i 0 v).card = v / n + if i < v % n then 1 else 0 := by
  have hcount := Nat.count_modEq_card v (Nat.lt_of_le_of_lt (Nat.zero_le i) hi) i
  rw [Nat.count_eq_card_filter_range, Nat.mod_eq_of_lt hi] at hcount
  rw [← hcount, turns, Finset.range_eq_Ico]
  congr 1
  refine Finset.filter_congr (fun x _ => ?_)
  rw [Nat.ModEq, Nat.mod_eq_of_lt hi]

theorem card_turns_add (n i : Nat) {u v w : Nat} (huv : u ≤ v) (hvw : v ≤ w) :
    (turns n i u w).card = (turns n i u v).card + (turns n i v w).card := by
  unfold turns
  rw [← Finset.Ico_union_Ico_eq_Ico huv hvw, Finset.filter_union, Finset.card_union_of_disjoint]
  exact Finset.disjoint_filter_filter (Finset.Ico_disjoint_Ico_consecutive u v w)

/-- **The cursor comes by any two positions equally often, up to one.** -/
theorem card_turns_le {n i j : Nat} (hi : i < n) (hj : j < n) (u v : Nat) :
    (turns n i u v).card ≤ (turns n j u v).card + 1 := by
  by_cases huv : u ≤ v
  · have h1 := card_turns_add n i (Nat.zero_le u) huv
    have h2 := card_turns_add n j (Nat.zero_le u) huv
    rw [card_turns_zero hi, card_turns_zero hi] at h1
    rw [card_turns_zero hj, card_turns_zero hj] at h2
    split_ifs at h1 h2 <;> omega
  · rw [turns, Finset.Ico_eq_empty (fun h => huv (Nat.le_of_lt h))]
    exact Nat.zero_le _

/-- **Once round, it comes by every position once.** -/
theorem card_turns_round {n i : Nat} (hi : i < n) (u : Nat) : (turns n i u (u + n)).card = 1 := by
  have h := card_turns_add n i (Nat.zero_le u) (Nat.le_add_right u n)
  rw [card_turns_zero hi, card_turns_zero hi, Nat.add_div_right u (Nat.lt_of_le_of_lt (Nat.zero_le i) hi),
    Nat.add_mod_right] at h
  omega

theorem card_turns_round_le {n : Nat} (hn : 0 < n) (i u : Nat) : (turns n i u (u + n)).card ≤ 1 := by
  by_cases hi : i < n
  · exact (card_turns_round hi u).le
  · have hempty : turns n i u (u + n) = ∅ := by
      refine Finset.filter_eq_empty_iff.2 (fun x _ hx => hi ?_)
      rw [← hx]
      exact Nat.mod_lt x hn
    rw [hempty]
    exact Nat.zero_le 1

/-! ## Sweeps -/

structure Sweep (u v : Nat) (l : List Nat) : Prop where
  le : u ≤ v
  sorted : l.Pairwise (· < ·)
  within : ∀ x ∈ l, u ≤ x ∧ x < v

/-- No place on position `i` is passed over. -/
def Covers (n i u v : Nat) (l : List Nat) : Prop := ∀ x, u ≤ x → x < v → x % n = i → x ∈ l

variable {n i u v : Nat} {l : List Nat}

theorem Sweep.nil (u : Nat) : Sweep u u [] :=
  ⟨Nat.le_refl u, List.Pairwise.nil, fun x hx => by cases hx⟩

/-- A sweep that starts by serving the place `x`. -/
theorem Sweep.cons {x : Nat} (hx : u ≤ x) (h : Sweep (x + 1) v l) : Sweep u v (x :: l) := by
  have hle := h.le
  refine ⟨by omega, List.pairwise_cons.2 ⟨fun y hy => (h.within y hy).1, h.sorted⟩, fun y hy => ?_⟩
  rcases List.mem_cons.1 hy with rfl | hy
  · exact ⟨hx, by omega⟩
  · have := h.within y hy
    exact ⟨by omega, this.2⟩

theorem Covers.cons {x : Nat} (hpassed : ∀ y, u ≤ y → y < x → y % n ≠ i) (h : Covers n i (x + 1) v l) :
    Covers n i u v (x :: l) := by
  intro y hu hv hy
  rcases Nat.lt_trichotomy y x with hlt | rfl | hgt
  · exact absurd hy (hpassed y hu hlt)
  · exact List.mem_cons_self
  · exact List.mem_cons_of_mem x (h y hgt hv hy)

theorem Sweep.length_le (h : Sweep u v l) : l.length ≤ v - u := by
  rw [← List.toFinset_card_of_nodup h.sorted.nodup, ← Nat.card_Ico]
  exact Finset.card_le_card (fun x hx => Finset.mem_Ico.2 (h.within x (List.mem_toFinset.1 hx)))

/-- How often position `i` was served. -/
theorem Sweep.count (h : Sweep u v l) (n i : Nat) :
    (l.map (· % n)).count i = ((turns n i u v).filter (· ∈ l)).card := by
  rw [List.count_eq_countP, List.countP_map, List.countP_eq_length_filter,
    ← List.toFinset_card_of_nodup (h.sorted.nodup.filter _)]
  congr 1
  ext x
  rw [List.mem_toFinset, List.mem_filter, Finset.mem_filter, mem_turns]
  constructor
  · rintro ⟨hx, hi⟩
    exact ⟨⟨h.within x hx, by simpa using hi⟩, hx⟩
  · rintro ⟨⟨-, hi⟩, hx⟩
    exact ⟨hx, by simpa using hi⟩

/-- A sweep ends after its last place. -/
theorem Sweep.cut {x : Nat} (h : Sweep u v (l ++ [x])) : Sweep u (x + 1) (l ++ [x]) := by
  have hx := h.within x (List.mem_append_right l List.mem_cons_self)
  refine ⟨by omega, h.sorted, fun y hy => ⟨(h.within y hy).1, ?_⟩⟩
  rcases List.mem_append.1 hy with hy | hy
  · exact Nat.lt_succ_of_lt ((List.pairwise_append.1 h.sorted).2.2 y hy x List.mem_cons_self)
  · rw [List.mem_singleton.1 hy]; exact Nat.lt_succ_self x

theorem Covers.mono {w : Nat} (h : Covers n i u v l) (hw : w ≤ v) : Covers n i u w l :=
  fun x hu hx hi => h x hu (by omega) hi

/-- A position is served at most as often as the cursor comes by, -/
theorem Sweep.count_le (h : Sweep u v l) (n i : Nat) : (l.map (· % n)).count i ≤ (turns n i u v).card := by
  rw [h.count]
  exact Finset.card_filter_le _ _

/-- and exactly so often if it is never passed over. -/
theorem Sweep.count_eq (h : Sweep u v l) (hc : Covers n i u v l) : (l.map (· % n)).count i = (turns n i u v).card := by
  rw [h.count, Finset.filter_true_of_mem]
  intro x hx
  obtain ⟨⟨hu, hv⟩, hi⟩ := mem_turns.1 hx
  exact hc x hu hv hi

/-- **A position that is never passed over is served once in every round.** -/
theorem Sweep.mem_of_round (hc : Covers n i u v l) (hi : i < n) (hround : u + n ≤ v) : i ∈ l.map (· % n) := by
  obtain ⟨x, hx⟩ := Finset.card_pos.1 (by rw [card_turns_round hi u]; exact Nat.one_pos)
  obtain ⟨⟨hu, hv⟩, hxi⟩ := mem_turns.1 hx
  exact List.mem_map.2 ⟨x, hc x hu (by omega) hxi, hxi⟩

end RoundRobin
