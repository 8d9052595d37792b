import Mathlib.Data.List.Dedup
import Mathlib.Data.List.Nodup
import EventEdge.Lts
/-!
# Runs — what a run did, and runs that must end

`run_history` is the induction rule for what relates a state to the list of all actions that led to it.  A table with
finitely many places that weigh something has a weight (`Weighs`), and changing one place changes the weight by what
that place changes (`Weighs.update`).  Where every step of a kind lowers a weight and no other raises it, a run has no
more of them than the weight it starts with (`run_countP_le`); where some steps bring new weight, the steps of the kind
are paid for by the weight and by what was brought (`run_amortised`).
-/
namespace Lts

/-! ## The history of a run -/

/-- **The induction rule for histories**: what holds of the first state and no action, and is kept as a step appends
its action, holds of the end of the run and all its actions. -/
theorem run_history {σ α : Type} {step : σ → α → Option σ} {R : σ → List α → Prop}
    (hstep : ∀ s a s' as, R s as → step s a = some s' → R s' (as ++ [a])) : ∀ (as : List α) {s s' : σ} {pre : List α},
    R s pre → run step s as = some s' → R s' (pre ++ as)
  | [], _, _, pre, h, hrun => by cases hrun; rw [List.append_nil]; exact h
  | a :: as, s, s', pre, h, hrun => by
    obtain ⟨t, hst, hrun⟩ := Option.bind_eq_some_iff.1 hrun
    have := run_history hstep as (hstep s a t pre h hst) hrun
    rwa [List.append_assoc] at this

/-! ## The weight of a table -/

section

variable {ι : Type} {f g : ι → Nat} {n : Nat}

/-- **The places of the table weigh `n` together.** -/
def Weighs (f : ι → Nat) (n : Nat) : Prop := ∃ l : List ι, l.Nodup ∧ (∀ i, i ∉ l → f i = 0) ∧ tally f l = n

theorem tally_congr : ∀ {l : List ι}, (∀ i ∈ l, g i = f i) → tally g l = tally f l
  | [], _ => rfl
  | i :: l, h => by
    rw [tally, tally, h i List.mem_cons_self, tally_congr (fun j hj => h j (List.mem_cons_of_mem i hj))]

theorem tally_le {b : Nat} (h : ∀ i, f i ≤ b) : ∀ (l : List ι), tally f l ≤ b * l.length
  | [] => Nat.zero_le _
  | i :: l => by
    have hi := h i
    have hl := tally_le h l
    rw [tally, List.length_cons, Nat.mul_succ]
    omega

variable [DecidableEq ι]

theorem weighs_of_support (l : List ι) (h : ∀ i, i ∉ l → f i = 0) : ∃ n, Weighs f n :=
  ⟨_, l.dedup, l.nodup_dedup, fun i hi => h i (fun hm => hi (List.mem_dedup.2 hm)), rfl⟩

/-- One place changes: so does what its list weighs. -/
theorem tally_update {i : ι} {x : Nat} (hg : g = Function.update f i x) : ∀ {l : List ι}, l.Nodup → i ∈ l →
    tally g l + f i = tally f l + x
  | j :: l, hnd, hi => by
    obtain ⟨hj, hnd⟩ := List.nodup_cons.1 hnd
    rw [tally, tally]
    rcases List.mem_cons.1 hi with rfl | hi
    · have hrest : tally g l = tally f l := tally_congr (fun k hk => by
        have hne : k ≠ i := fun e => hj (e ▸ hk)
        rw [hg, Function.update_of_ne hne])
      rw [hrest, hg, Function.update_self]
      omega
    · have hne : j ≠ i := fun e => hj (e ▸ hi)
      have ih := tally_update hg hnd hi
      have hgj : g j = f j := by rw [hg, Function.update_of_ne hne]
      omega

/-- **The weight changes by what the place changes.** -/
theorem Weighs.update {i : ι} {x : Nat} (h : Weighs f n) (hg : g = Function.update f i x) :
    ∃ m, Weighs g m ∧ m + f i = n + x := by
  obtain ⟨l, hnd, hout, rfl⟩ := h
  have hother : ∀ j, j ≠ i → g j = f j := fun j hj => by rw [hg, Function.update_of_ne hj]
  by_cases hi : i ∈ l
  · refine ⟨tally g l, ⟨l, hnd, fun j hj => ?_, rfl⟩, tally_update hg hnd hi⟩
    rw [hother j (fun e => hj (e ▸ hi)), hout j hj]
  · refine ⟨tally g (i :: l), ⟨i :: l, List.nodup_cons.2 ⟨hi, hnd⟩, fun j hj => ?_, rfl⟩, ?_⟩
    · rw [List.mem_cons, not_or] at hj
      rw [hother j hj.1, hout j hj.2]
    · have hsum := tally_update hg (List.nodup_cons.2 ⟨hi, hnd⟩) List.mem_cons_self
      rw [hsum, tally, hout i hi, Nat.zero_add]

/-- Where no place weighs more than `b`, the weight is at most `b` for every place that weighs anything. -/
theorem Weighs.tallied {b : Nat} (h : Weighs f n) (hb : ∀ i, f i ≤ b) :
    ∃ m, Tallied (fun x => decide (0 < x)) f m ∧ n ≤ b * m := by
  obtain ⟨l, hnd, hout, rfl⟩ := h
  have hmem : ∀ i, i ∈ l.filter (fun i => decide (0 < f i)) ↔ decide (0 < f i) = true := by
    intro i
    rw [List.mem_filter, and_iff_right_iff_imp]
    intro hpos
    by_contra hi
    rw [hout i hi] at hpos
    cases hpos
  refine ⟨(l.filter (fun i => decide (0 < f i))).toFinset.card,
    ⟨_, fun i => by rw [List.mem_toFinset, hmem], rfl⟩, ?_⟩
  rw [List.toFinset_card_of_nodup (hnd.filter _)]
  have hsame : ∀ l : List ι, tally f l = tally f (l.filter (fun i => decide (0 < f i))) := by
    intro l
    induction l with
    | nil => rfl
    | cons i l ih =>
      rw [List.filter_cons]
      split
      · rw [tally, tally, ih]
      · rename_i hi
        have h0 : f i = 0 := by simpa using hi
        rw [tally, h0, Nat.zero_add, ih]
  rw [hsame]
  exact tally_le hb _

end

/-! ## The weight of a list -/

section

variable {ι : Type} {f : ι → Nat}

theorem tally_append : ∀ (l l' : List ι), tally f (l ++ l') = tally f l + tally f l'
  | [], l' => (Nat.zero_add _).symm
  | i :: l, l' => by rw [List.cons_append, tally, tally, tally_append l l', Nat.add_assoc]

theorem tally_set {l : List ι} {k : Nat} {x : ι} (h : l[k]? = some x) (y : ι) :
    tally f (l.set k y) + f x = tally f l + f y := by
  obtain ⟨pre, post, hl, hset, -⟩ := getElem?_split h
  rw [hset, hl, tally_append, tally_append, tally, tally]
  omega

theorem tally_erase {l : List ι} {k : Nat} {x : ι} (h : l[k]? = some x) :
    tally f (l.eraseIdx k) + f x = tally f l := by
  obtain ⟨pre, post, hl, -, herase, -⟩ := getElem?_split h
  rw [herase, hl, tally_append, tally_append, tally]
  omega

theorem tally_map_le {g : ι → ι} (h : ∀ i, f (g i) ≤ f i) : ∀ (l : List ι), tally f (l.map g) ≤ tally f l
  | [] => Nat.le_refl _
  | i :: l => Nat.add_le_add (h i) (tally_map_le h l)

end

/-! ## Runs that lower it -/

variable {σ α : Type} {step : σ → α → Option σ} {I : σ → Prop} {P : α → Prop} {R : σ → Nat → Prop}

/-- **A run has no more steps that lower the weight than the weight allows**, if none of its steps raises it. -/
theorem run_countP_le {p : α → Bool} (hI : ∀ s a s', I s → step s a = some s' → I s')
    (hR : ∀ s a s' n, I s → P a → step s a = some s' → R s n → ∃ m, R s' m ∧ m + (if p a then 1 else 0) ≤ n) :
    ∀ (as : List α) {s s' : σ} {n : Nat}, I s → (∀ a ∈ as, P a) → run step s as = some s' → R s n → as.countP p ≤ n
  | [], _, _, _, _, _, _, _ => Nat.zero_le _
  | a :: as, s, s', n, hs, hP, hrun, hn => by
    obtain ⟨t, hst, hrun⟩ := Option.bind_eq_some_iff.1 hrun
    obtain ⟨ha, has⟩ := List.forall_mem_cons.1 hP
    obtain ⟨m, hm, hlt⟩ := hR s a t n hs ha hst hn
    have hle := run_countP_le hI hR as (hI s a t hs hst) has hrun hm
    rw [List.countP_cons]
    omega

/-- **The steps of a kind are paid for**: where each costs one of the weight `μ`, and no step raises `μ` by more than it
raises `ν`, there are no more of them than `μ` and the rise of `ν` allow. -/
theorem run_amortised {p : α → Bool} {μ ν : σ → Nat} (hI : ∀ s a s', I s → step s a = some s' → I s')
    (hpay : ∀ s a s', I s → step s a = some s' → (if p a then 1 else 0) + μ s' + ν s ≤ μ s + ν s') :
    ∀ (as : List α) {s s' : σ}, I s → run step s as = some s' → as.countP p + μ s' + ν s ≤ μ s + ν s'
  | [], _, _, _, hrun => by cases hrun; rw [List.countP_nil, Nat.zero_add]
  | a :: as, s, s', hs, hrun => by
    obtain ⟨t, hst, hrun⟩ := Option.bind_eq_some_iff.1 hrun
    have hfirst := hpay s a t hs hst
    have hrest := run_amortised hI hpay as (hI s a t hs hst) hrun
    rw [List.countP_cons]
    omega

end Lts
