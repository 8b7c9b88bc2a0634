import Mathlib.Algebra.Order.BigOperators.Group.List
import Mathlib.Algebra.Order.Field.Rat
import Mathlib.Tactic.Linarith

/-!
# The first entry of each key

A list of entries may hold several of one key. Counting only the first entry of each key gives
the whole total exactly when no key repeats.
-/

namespace Pilot

section Sums

variable {α : Type*} {g : α → ℚ} {p : α → Bool} {l : List α}

/-- Leaving out positive terms never raises a sum. -/
theorem sum_filter_le (h : ∀ a ∈ l, 0 < g a) :
    ((l.filter p).map g).sum ≤ (l.map g).sum := by
  apply List.Sublist.sum_le_sum
  · exact (List.filter_sublist).map g
  · intro y hy
    obtain ⟨a, ha, rfl⟩ := List.mem_map.mp hy
    exact (h a ha).le

/-- Leaving out positive parts changes a total. -/
theorem sum_filter_eq_iff (h : ∀ a ∈ l, 0 < g a) :
    ((l.filter p).map g).sum = (l.map g).sum ↔ ∀ a ∈ l, p a := by
  constructor
  · intro heq
    induction l with
    | nil => simp
    | cons a rest ih =>
      have hrest : ∀ c ∈ rest, 0 < g c := fun c hc => h c (List.mem_cons_of_mem a hc)
      have hle : ((rest.filter p).map g).sum ≤ (rest.map g).sum := sum_filter_le hrest
      have ha : 0 < g a := h a (List.mem_cons_self ..)
      by_cases hp : p a
      · rw [List.filter_cons_of_pos hp, List.map_cons, List.map_cons, List.sum_cons,
          List.sum_cons] at heq
        intro c hc
        rcases List.mem_cons.mp hc with rfl | hc
        · exact hp
        · exact ih hrest (by linarith) c hc
      · rw [List.filter_cons_of_neg hp, List.map_cons, List.sum_cons] at heq
        linarith
  · intro hall
    rw [List.filter_eq_self.mpr hall]

end Sums

section FirstOfEach

variable {κ ν : Type*} [DecidableEq κ]

/-- The entries of a list, the first one of each key. -/
def firstOfEach : List (κ × ν) → List (κ × ν)
  | [] => []
  | e :: rest => e :: (firstOfEach rest).filter fun f => f.1 ≠ e.1

/-- The first entries of some keys are those among the first entries. -/
theorem firstOfEach_filter (p : κ → Bool) (l : List (κ × ν)) :
    firstOfEach (l.filter fun e => p e.1) = (firstOfEach l).filter fun e => p e.1 := by
  induction l with
  | nil => rfl
  | cons e rest ih =>
    by_cases hp : p e.1
    · simp only [List.filter_cons, hp, if_true, firstOfEach, ih, List.filter_filter]
      congr 2
      funext f
      exact Bool.and_comm _ _
    · rw [List.filter_cons_of_neg (by simpa using hp), ih, firstOfEach,
        List.filter_cons_of_neg (by simpa using hp), List.filter_filter]
      apply List.filter_congr
      intro f _
      by_cases hf : f.1 = e.1
      · simp [hf, hp]
      · simp [hf]

/-- A first entry is an entry. -/
theorem mem_firstOfEach {e : κ × ν} {l : List (κ × ν)} (h : e ∈ firstOfEach l) : e ∈ l := by
  induction l with
  | nil => exact h
  | cons f rest ih =>
    rcases List.mem_cons.mp h with rfl | h
    · exact List.mem_cons_self ..
    · exact List.mem_cons_of_mem f (ih (List.mem_filter.mp h).1)

/-- Every key has a first entry. -/
theorem mem_keys_firstOfEach {k : κ} {l : List (κ × ν)} :
    k ∈ (firstOfEach l).map Prod.fst ↔ k ∈ l.map Prod.fst := by
  constructor
  · intro h
    obtain ⟨e, he, rfl⟩ := List.mem_map.mp h
    exact List.mem_map_of_mem (mem_firstOfEach he)
  · intro h
    induction l with
    | nil => exact h
    | cons e rest ih =>
      by_cases hk : k = e.1
      · subst hk
        exact List.mem_cons_self ..
      · rw [List.map_cons, List.mem_cons] at h
        obtain ⟨f, hf, rfl⟩ := List.mem_map.mp (ih (h.resolve_left hk))
        exact List.mem_cons_of_mem _
          (List.mem_map_of_mem (List.mem_filter.mpr ⟨hf, by simpa using hk⟩))

/-- The first of each of positive entries sum to no more than all of them. -/
theorem sum_firstOfEach_le {l : List (κ × ℚ)} (h : ∀ e ∈ l, 0 < e.2) :
    ((firstOfEach l).map Prod.snd).sum ≤ (l.map Prod.snd).sum := by
  induction l with
  | nil => exact le_rfl
  | cons e rest ih =>
    have hrest : ∀ f ∈ rest, 0 < f.2 := fun f hf => h f (List.mem_cons_of_mem e hf)
    have hfirst : ∀ f ∈ firstOfEach rest, 0 < f.2 := fun f hf => hrest f (mem_firstOfEach hf)
    rw [firstOfEach, List.map_cons, List.map_cons, List.sum_cons, List.sum_cons]
    have hfilter := sum_filter_le (p := fun f => f.1 ≠ e.1) hfirst
    linarith [ih hrest]

/-- The first entries make up the whole exactly when no key repeats. -/
theorem sum_firstOfEach_eq_iff {l : List (κ × ℚ)} (h : ∀ e ∈ l, 0 < e.2) :
    ((firstOfEach l).map Prod.snd).sum = (l.map Prod.snd).sum ↔ (l.map Prod.fst).Nodup := by
  induction l with
  | nil => simp [firstOfEach]
  | cons e rest ih =>
    have hrest : ∀ f ∈ rest, 0 < f.2 := fun f hf => h f (List.mem_cons_of_mem e hf)
    have hfirst : ∀ f ∈ firstOfEach rest, 0 < f.2 := fun f hf => hrest f (mem_firstOfEach hf)
    have hfilter := sum_filter_le (p := fun f => f.1 ≠ e.1) hfirst
    have hle := sum_firstOfEach_le hrest
    have hfresh : e.1 ∉ rest.map Prod.fst ↔
        ∀ f ∈ firstOfEach rest, (fun f : κ × ℚ => decide (f.1 ≠ e.1)) f := by
      rw [← mem_keys_firstOfEach, List.mem_map]
      constructor
      · intro hnot f hf
        simpa using fun heq => hnot ⟨f, hf, heq⟩
      · rintro hall ⟨f, hf, heq⟩
        exact absurd heq (by simpa using hall f hf)
    rw [firstOfEach, List.map_cons, List.map_cons, List.map_cons, List.sum_cons, List.sum_cons,
      List.nodup_cons, ← ih hrest, hfresh, ← sum_filter_eq_iff hfirst]
    constructor
    · intro heq
      constructor <;> linarith
    · rintro ⟨hwhole, heq⟩
      rw [hwhole, heq]

end FirstOfEach

end Pilot
