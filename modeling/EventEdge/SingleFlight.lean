import Mathlib.Logic.Function.Basic
import Mathlib.Data.List.Nodup
/-!
# SingleFlight — one leader per key, and every waiter answered once

The protocol by itself, over any parties `ι`, keys `κ` and values `ν`.  A party that finds no open flight for a key
opens one and leads it (`lead`); one that finds a flight queues on it (`join`); the leader closes its flight and posts
its value to everyone queued (`complete`); a posted value is handed over once (`deliver`).

`Inv` is what every run keeps: the open flights are the led ones, one leader each; whoever waits is queued on exactly
its own flight or has exactly one posted value, never both.
-/
namespace SingleFlight

/-- What a party is doing. -/
inductive Role (κ : Type) where
  | idle
  | leads (k : κ)
  | waits (k : κ)

variable {ι κ ν : Type}

/-- Everybody's role, the queue of every open flight, and the values posted but not handed over. -/
@[ext] structure State (ι κ ν : Type) where
  role : ι → Role κ
  flights : κ → Option (List ι)
  posted : List (ι × ν)

/-- Nobody does anything. -/
def State.init : State ι κ ν := ⟨fun _ => .idle, fun _ => none, []⟩

/-- **The invariant of the protocol.** -/
structure Inv (s : State ι κ ν) : Prop where
  led_open : ∀ i k, s.role i = .leads k → ∃ ws, s.flights k = some ws
  one_leader : ∀ i j k, s.role i = .leads k → s.role j = .leads k → i = j
  open_led : ∀ k ws, s.flights k = some ws → ∃ i, s.role i = .leads k
  queued_waits : ∀ k ws, s.flights k = some ws → ∀ w ∈ ws, s.role w = .waits k
  queue_nodup : ∀ k ws, s.flights k = some ws → ws.Nodup
  posted_waits : ∀ w ∈ s.posted.map Prod.fst, ∃ k, s.role w = .waits k
  posted_nodup : (s.posted.map Prod.fst).Nodup
  posted_unqueued : ∀ w ∈ s.posted.map Prod.fst, ∀ k ws, s.flights k = some ws → w ∉ ws
  waits_held : ∀ w k, s.role w = .waits k →
    (∃ ws, s.flights k = some ws ∧ w ∈ ws) ∨ w ∈ s.posted.map Prod.fst

theorem Inv.init : Inv (State.init : State ι κ ν) := by
  constructor <;> simp [State.init]

/-- A party that is not idle differs from one that is. -/
theorem ne_of_idle {s : State ι κ ν} {i j : ι} (hi : s.role i = .idle) (hj : s.role j ≠ .idle) : j ≠ i := by
  rintro rfl; exact hj hi

variable [DecidableEq ι]

/-- **Whoever waits is held in exactly one place, once**: in the queue of its own flight, or by one posted value. -/
theorem Inv.waits_once {s : State ι κ ν} (h : Inv s) {w : ι} {k : κ} (hw : s.role w = .waits k) :
    ((s.flights k).getD []).count w + (s.posted.map Prod.fst).count w = 1 ∧
      ∀ k', k' ≠ k → w ∉ (s.flights k').getD [] := by
  refine ⟨?_, fun k' hk' hm => ?_⟩
  · rcases h.waits_held w k hw with ⟨ws, hws, hm⟩ | hp
    · have hn : w ∉ s.posted.map Prod.fst := fun hp => h.posted_unqueued w hp k ws hws hm
      rw [hws, Option.getD_some, List.count_eq_one_of_mem (h.queue_nodup k ws hws) hm, List.count_eq_zero_of_not_mem hn]
    · have hn : w ∉ (s.flights k).getD [] := by
        cases hf : s.flights k with
        | none => exact List.not_mem_nil
        | some ws => exact h.posted_unqueued w hp k ws hf
      rw [List.count_eq_one_of_mem h.posted_nodup hp, List.count_eq_zero_of_not_mem hn]
  · cases hf : s.flights k' with
    | none => rw [hf] at hm; cases hm
    | some ws =>
      rw [hf] at hm
      have := h.queued_waits k' ws hf w hm
      rw [hw] at this; cases this; exact hk' rfl

/-! ## The steps keep it -/

variable {s : State ι κ ν}

theorem Inv.deliver (h : Inv s) {pre post : List (ι × ν)} {i : ι} {v : ν} (hp : s.posted = pre ++ (i, v) :: post) :
    Inv { s with role := Function.update s.role i .idle, posted := pre ++ post } := by
  have hin : i ∈ s.posted.map Prod.fst := by rw [hp]; simp
  obtain ⟨k₀, hi⟩ := h.posted_waits i hin
  have hsub : ∀ w, w ∈ (pre ++ post).map Prod.fst → w ∈ s.posted.map Prod.fst := by
    intro w hw
    rw [hp]
    simp only [List.map_append, List.map_cons, List.mem_append, List.mem_cons] at hw ⊢
    tauto
  have hnd : ((pre ++ post).map Prod.fst).Nodup ∧ i ∉ (pre ++ post).map Prod.fst := by
    have hn := h.posted_nodup
    rw [hp, List.map_append, List.map_cons, List.nodup_middle, List.nodup_cons] at hn
    rw [List.map_append]
    exact ⟨hn.2, hn.1⟩
  have hlead : ∀ j k', Function.update s.role i .idle j = .leads k' → s.role j = .leads k' := by
    intro j k' hj
    by_cases hji : j = i
    · subst hji; simp at hj
    · simpa only [Function.update_of_ne hji] using hj
  constructor
  · intro j k' hj; exact h.led_open j k' (hlead j k' hj)
  · intro a b k' ha hb; exact h.one_leader a b k' (hlead a k' ha) (hlead b k' hb)
  · intro k' ws' hws'
    obtain ⟨j, hj⟩ := h.open_led k' ws' hws'
    have hji : j ≠ i := by rintro rfl; rw [hi] at hj; cases hj
    exact ⟨j, by simp only [Function.update_of_ne hji, hj]⟩
  · intro k' ws' hws' w hw
    have hwi : w ≠ i := by rintro rfl; exact h.posted_unqueued w hin k' ws' hws' hw
    simpa only [Function.update_of_ne hwi] using h.queued_waits k' ws' hws' w hw
  · exact h.queue_nodup
  · intro w hw
    have hwi : w ≠ i := by rintro rfl; exact hnd.2 hw
    simpa only [Function.update_of_ne hwi] using h.posted_waits w (hsub w hw)
  · exact hnd.1
  · intro w hw; exact h.posted_unqueued w (hsub w hw)
  · intro w k' hw
    have hwi : w ≠ i := by rintro rfl; simp at hw
    simp only [Function.update_of_ne hwi] at hw
    rcases h.waits_held w k' hw with hq | hm
    · exact .inl hq
    · refine .inr ?_
      rw [hp] at hm
      simp only [List.map_append, List.map_cons, List.mem_append, List.mem_cons] at hm ⊢
      tauto

variable [DecidableEq κ]

/-- **One step of the protocol.** -/
inductive Step : State ι κ ν → State ι κ ν → Prop
  | lead {s : State ι κ ν} (i : ι) (k : κ) : s.role i = .idle → s.flights k = none →
      Step s { s with role := Function.update s.role i (.leads k), flights := Function.update s.flights k (some []) }
  | join {s : State ι κ ν} (i : ι) (k : κ) (ws : List ι) : s.role i = .idle → s.flights k = some ws →
      Step s { s with role := Function.update s.role i (.waits k),
                      flights := Function.update s.flights k (some (ws ++ [i])) }
  | complete {s : State ι κ ν} (i : ι) (k : κ) (ws : List ι) (v : ν) : s.role i = .leads k → s.flights k = some ws →
      Step s { role := Function.update s.role i .idle, flights := Function.update s.flights k none,
               posted := s.posted ++ ws.map (fun w => (w, v)) }
  | deliver {s : State ι κ ν} (pre : List (ι × ν)) (i : ι) (v : ν) (post : List (ι × ν)) :
      s.posted = pre ++ (i, v) :: post →
      Step s { s with role := Function.update s.role i .idle, posted := pre ++ post }

theorem Inv.lead (h : Inv s) {i : ι} {k : κ} (hi : s.role i = .idle) (hk : s.flights k = none) :
    Inv { s with role := Function.update s.role i (.leads k), flights := Function.update s.flights k (some []) } := by
  -- nobody led or queued on `k` before, and `i` neither led, queued nor had a posted value
  have hno : ∀ j, s.role j ≠ .leads k := fun j hj => by
    obtain ⟨ws, hws⟩ := h.led_open j k hj
    rw [hk] at hws; cases hws
  constructor
  · intro j k' hj
    by_cases hkk : k' = k
    · subst hkk; exact ⟨[], by simp⟩
    · have hji : j ≠ i := by rintro rfl; simp only [Function.update_self, Role.leads.injEq] at hj; exact hkk hj.symm
      simp only [Function.update_of_ne hji] at hj
      simpa only [Function.update_of_ne hkk] using h.led_open j k' hj
  · intro a b k' ha hb
    by_cases hai : a = i <;> by_cases hbi : b = i
    · rw [hai, hbi]
    · subst hai
      simp only [Function.update_self, Role.leads.injEq] at ha
      simp only [Function.update_of_ne hbi] at hb
      exact absurd (ha ▸ hb) (hno b)
    · subst hbi
      simp only [Function.update_self, Role.leads.injEq] at hb
      simp only [Function.update_of_ne hai] at ha
      exact absurd (hb ▸ ha) (hno a)
    · simp only [Function.update_of_ne hai] at ha
      simp only [Function.update_of_ne hbi] at hb
      exact h.one_leader a b k' ha hb
  · intro k' ws hws
    by_cases hkk : k' = k
    · subst hkk; exact ⟨i, by simp⟩
    · simp only [Function.update_of_ne hkk] at hws
      obtain ⟨j, hj⟩ := h.open_led k' ws hws
      exact ⟨j, by simp only [Function.update_of_ne (ne_of_idle hi (by rw [hj]; nofun)), hj]⟩
  · intro k' ws hws w hw
    by_cases hkk : k' = k
    · subst hkk; simp only [Function.update_self, Option.some.injEq] at hws; subst hws; cases hw
    · simp only [Function.update_of_ne hkk] at hws
      have hr := h.queued_waits k' ws hws w hw
      simp only [Function.update_of_ne (ne_of_idle hi (by rw [hr]; nofun)), hr]
  · intro k' ws hws
    by_cases hkk : k' = k
    · subst hkk; simp only [Function.update_self, Option.some.injEq] at hws; subst hws; exact List.nodup_nil
    · simp only [Function.update_of_ne hkk] at hws; exact h.queue_nodup k' ws hws
  · intro w hw
    obtain ⟨k', hr⟩ := h.posted_waits w hw
    exact ⟨k', by simp only [Function.update_of_ne (ne_of_idle hi (by rw [hr]; nofun)), hr]⟩
  · exact h.posted_nodup
  · intro w hw k' ws hws
    by_cases hkk : k' = k
    · subst hkk; simp only [Function.update_self, Option.some.injEq] at hws; subst hws; exact List.not_mem_nil
    · simp only [Function.update_of_ne hkk] at hws; exact h.posted_unqueued w hw k' ws hws
  · intro w k' hw
    have hwi : w ≠ i := by rintro rfl; simp at hw
    simp only [Function.update_of_ne hwi] at hw
    rcases h.waits_held w k' hw with ⟨ws, hws, hm⟩ | hp
    · have hkk : k' ≠ k := by rintro rfl; rw [hk] at hws; cases hws
      exact .inl ⟨ws, by simp only [Function.update_of_ne hkk, hws], hm⟩
    · exact .inr hp

theorem Inv.join (h : Inv s) {i : ι} {k : κ} {ws : List ι} (hi : s.role i = .idle) (hk : s.flights k = some ws) :
    Inv { s with role := Function.update s.role i (.waits k),
                 flights := Function.update s.flights k (some (ws ++ [i])) } := by
  have hiq : ∀ k' ws', s.flights k' = some ws' → i ∉ ws' := fun k' ws' hws' hm => by
    have := h.queued_waits k' ws' hws' i hm
    rw [hi] at this; cases this
  have hip : i ∉ s.posted.map Prod.fst := fun hm => by
    obtain ⟨k', hr⟩ := h.posted_waits i hm
    rw [hi] at hr; cases hr
  have hlead : ∀ j k', Function.update s.role i (.waits k) j = .leads k' → s.role j = .leads k' := by
    intro j k' hj
    by_cases hji : j = i
    · subst hji; simp at hj
    · simpa only [Function.update_of_ne hji] using hj
  constructor
  · intro j k' hj
    obtain ⟨ws', hws'⟩ := h.led_open j k' (hlead j k' hj)
    by_cases hkk : k' = k
    · subst hkk; exact ⟨ws ++ [i], by simp⟩
    · exact ⟨ws', by simp only [Function.update_of_ne hkk, hws']⟩
  · intro a b k' ha hb
    exact h.one_leader a b k' (hlead a k' ha) (hlead b k' hb)
  · intro k' ws' hws'
    have hop : ∃ ws₀, s.flights k' = some ws₀ := by
      by_cases hkk : k' = k
      · subst hkk; exact ⟨ws, hk⟩
      · simp only [Function.update_of_ne hkk] at hws'; exact ⟨ws', hws'⟩
    obtain ⟨ws₀, hws₀⟩ := hop
    obtain ⟨j, hj⟩ := h.open_led k' ws₀ hws₀
    exact ⟨j, by simp only [Function.update_of_ne (ne_of_idle hi (by rw [hj]; nofun)), hj]⟩
  · intro k' ws' hws' w hw
    by_cases hkk : k' = k
    · subst hkk
      simp only [Function.update_self, Option.some.injEq] at hws'
      subst hws'
      by_cases hwi : w = i
      · subst hwi; simp
      · have hw' : w ∈ ws := by simpa [hwi] using hw
        simpa only [Function.update_of_ne hwi] using h.queued_waits k' ws hk w hw'
    · simp only [Function.update_of_ne hkk] at hws'
      have hwi : w ≠ i := by rintro rfl; exact hiq k' ws' hws' hw
      simpa only [Function.update_of_ne hwi] using h.queued_waits k' ws' hws' w hw
  · intro k' ws' hws'
    by_cases hkk : k' = k
    · subst hkk
      simp only [Function.update_self, Option.some.injEq] at hws'
      subst hws'
      exact List.nodup_append.2 ⟨h.queue_nodup k' ws hk, List.nodup_singleton i, fun a ha b hb => by
        rw [List.mem_singleton] at hb; subst hb; rintro rfl; exact hiq k' ws hk ha⟩
    · simp only [Function.update_of_ne hkk] at hws'; exact h.queue_nodup k' ws' hws'
  · intro w hw
    have hwi : w ≠ i := by rintro rfl; exact hip hw
    simpa only [Function.update_of_ne hwi] using h.posted_waits w hw
  · exact h.posted_nodup
  · intro w hw k' ws' hws'
    have hwi : w ≠ i := by rintro rfl; exact hip hw
    by_cases hkk : k' = k
    · subst hkk
      simp only [Function.update_self, Option.some.injEq] at hws'
      subst hws'
      have := h.posted_unqueued w hw k' ws hk
      simp [this, hwi]
    · simp only [Function.update_of_ne hkk] at hws'; exact h.posted_unqueued w hw k' ws' hws'
  · intro w k' hw
    by_cases hwi : w = i
    · subst hwi
      simp only [Function.update_self, Role.waits.injEq] at hw
      subst hw
      exact .inl ⟨ws ++ [w], by simp, by simp⟩
    · simp only [Function.update_of_ne hwi] at hw
      rcases h.waits_held w k' hw with ⟨ws', hws', hm⟩ | hp
      · by_cases hkk : k' = k
        · subst hkk
          rw [hk] at hws'; cases hws'
          exact .inl ⟨ws ++ [i], by simp, by simp [hm]⟩
        · exact .inl ⟨ws', by simp only [Function.update_of_ne hkk, hws'], hm⟩
      · exact .inr hp

theorem Inv.complete (h : Inv s) {i : ι} {k : κ} {ws : List ι} (v : ν) (hi : s.role i = .leads k)
    (hk : s.flights k = some ws) :
    Inv { role := Function.update s.role i .idle, flights := Function.update s.flights k none,
          posted := s.posted ++ ws.map (fun w => (w, v)) } := by
  have hfst : (s.posted ++ ws.map (fun w => (w, v))).map Prod.fst = s.posted.map Prod.fst ++ ws := by
    simp [Function.comp_def]
  have hne : ∀ w k', s.role w = .waits k' → w ≠ i := fun w k' hw => by rintro rfl; rw [hi] at hw; cases hw
  have hopen : ∀ k' ws', Function.update s.flights k none k' = some ws' → k' ≠ k ∧ s.flights k' = some ws' := by
    intro k' ws' hws'
    by_cases hkk : k' = k
    · subst hkk; simp at hws'
    · simp only [Function.update_of_ne hkk] at hws'; exact ⟨hkk, hws'⟩
  have hlead : ∀ j k', Function.update s.role i .idle j = .leads k' → j ≠ i ∧ s.role j = .leads k' := by
    intro j k' hj
    by_cases hji : j = i
    · subst hji; simp at hj
    · simp only [Function.update_of_ne hji] at hj; exact ⟨hji, hj⟩
  constructor
  · intro j k' hj
    obtain ⟨hji, hj'⟩ := hlead j k' hj
    have hkk : k' ≠ k := fun e => hji (h.one_leader j i k' hj' (e ▸ hi))
    obtain ⟨ws', hws'⟩ := h.led_open j k' hj'
    exact ⟨ws', by simp only [Function.update_of_ne hkk, hws']⟩
  · intro a b k' ha hb
    exact h.one_leader a b k' (hlead a k' ha).2 (hlead b k' hb).2
  · intro k' ws' hws'
    obtain ⟨hkk, hws'⟩ := hopen k' ws' hws'
    obtain ⟨j, hj⟩ := h.open_led k' ws' hws'
    have hji : j ≠ i := by rintro rfl; rw [hi] at hj; cases hj; exact hkk rfl
    exact ⟨j, by simp only [Function.update_of_ne hji, hj]⟩
  · intro k' ws' hws' w hw
    have hr := h.queued_waits k' ws' (hopen k' ws' hws').2 w hw
    simp only [Function.update_of_ne (hne w k' hr), hr]
  · intro k' ws' hws'
    exact h.queue_nodup k' ws' (hopen k' ws' hws').2
  · intro w hw
    rw [hfst, List.mem_append] at hw
    have hr : ∃ k', s.role w = .waits k' := by
      rcases hw with hw | hw
      · exact h.posted_waits w hw
      · exact ⟨k, h.queued_waits k ws hk w hw⟩
    obtain ⟨k', hr⟩ := hr
    exact ⟨k', by simp only [Function.update_of_ne (hne w k' hr), hr]⟩
  · rw [hfst]
    exact List.nodup_append.2 ⟨h.posted_nodup, h.queue_nodup k ws hk, fun a ha b hb => by
      rintro rfl; exact h.posted_unqueued a ha k ws hk hb⟩
  · intro w hw k' ws' hws' hm
    obtain ⟨hkk, hws'⟩ := hopen k' ws' hws'
    rw [hfst, List.mem_append] at hw
    rcases hw with hw | hw
    · exact h.posted_unqueued w hw k' ws' hws' hm
    · -- a waiter of `k` queued on `k'` too would wait for both
      have h1 := h.queued_waits k ws hk w hw
      have h2 := h.queued_waits k' ws' hws' w hm
      rw [h1] at h2; cases h2; exact hkk rfl
  · intro w k' hw
    have hwi : w ≠ i := by rintro rfl; simp at hw
    simp only [Function.update_of_ne hwi] at hw
    rw [hfst]
    rcases h.waits_held w k' hw with ⟨ws', hws', hm⟩ | hp
    · by_cases hkk : k' = k
      · subst hkk
        rw [hk] at hws'; cases hws'
        exact .inr (List.mem_append_right _ hm)
      · exact .inl ⟨ws', by simp only [Function.update_of_ne hkk, hws'], hm⟩
    · exact .inr (List.mem_append_left _ hp)

/-- **Every step keeps the invariant.** -/
theorem Inv.step {s' : State ι κ ν} (h : Inv s) (hs : Step s s') : Inv s' := by
  cases hs with
  | lead i k hi hk => exact h.lead hi hk
  | join i k ws hi hk => exact h.join hi hk
  | complete i k ws v hi hk => exact h.complete v hi hk
  | deliver pre i v post hp => exact h.deliver hp

end SingleFlight
