import Mathlib.Data.List.Basic
import Mathlib.Data.List.Induction
import Mathlib.Data.List.Nodup
import Mathlib.Algebra.BigOperators.Group.List.Basic
import Mathlib.Tactic.Abel

/-!
# Insertion-ordered dictionaries

A dictionary keeps its entries in the order in which their keys were first
written: overwriting a key keeps its position, a new key goes last. The lookup,
the removal and the lists of keys and values follow that order. Distinctness of
the keys is part of the type.
-/

namespace Pilot

/-- Overwrite the entry of `k` where it stands, or append it. -/
def assocSet {κ ν : Type*} [DecidableEq κ] (k : κ) (v : ν) : List (κ × ν) → List (κ × ν)
  | [] => [(k, v)]
  | (k', v') :: rest => if k' = k then (k, v) :: rest else (k', v') :: assocSet k v rest

/-- The first value stored under `k`. -/
def assocGet {κ ν : Type*} [DecidableEq κ] (k : κ) : List (κ × ν) → Option ν
  | [] => none
  | (k', v') :: rest => if k' = k then some v' else assocGet k rest

/-- The keys after a write: the old ones and the written one. -/
theorem mem_keys_assocSet {κ ν : Type*} [DecidableEq κ] {k j : κ} {v : ν} {l : List (κ × ν)} :
    j ∈ (assocSet k v l).map Prod.fst ↔ j = k ∨ j ∈ l.map Prod.fst := by
  induction l with
  | nil => simp [assocSet]
  | cons e rest ih =>
    obtain ⟨k', v'⟩ := e
    by_cases hk : k' = k
    · subst hk
      simp [assocSet]
    · simp only [assocSet, if_neg hk, List.map_cons, List.mem_cons, ih]
      tauto

/-- A write keeps the keys distinct. -/
theorem nodup_assocSet {κ ν : Type*} [DecidableEq κ] {k : κ} {v : ν} {l : List (κ × ν)}
    (h : (l.map Prod.fst).Nodup) : ((assocSet k v l).map Prod.fst).Nodup := by
  induction l with
  | nil => simp [assocSet]
  | cons e rest ih =>
    obtain ⟨k', v'⟩ := e
    obtain ⟨hnot, hrest⟩ := List.nodup_cons.mp h
    by_cases hk : k' = k
    · subst hk
      simpa [assocSet] using h
    · simp only [assocSet, if_neg hk, List.map_cons, List.nodup_cons, ih hrest, and_true,
        mem_keys_assocSet, not_or]
      exact ⟨hk, hnot⟩

/-- A dictionary: an association list whose keys are distinct. -/
structure Dict (κ ν : Type*) where
  /-- The entries, oldest key first. -/
  entries : List (κ × ν)
  /-- No key occurs twice. -/
  nodup_keys : (entries.map Prod.fst).Nodup

namespace Dict

variable {κ ν : Type*} [DecidableEq κ]

/-- The dictionary without entries. -/
def empty : Dict κ ν := ⟨[], by simp⟩

/-- The value stored under `k`, if there is one. -/
def get? (d : Dict κ ν) (k : κ) : Option ν := assocGet k d.entries

/-- The value stored under `k`, or the default. -/
def getD (d : Dict κ ν) (k : κ) (default : ν) : ν := (d.get? k).getD default

/-- Whether `k` is a key. -/
def contains (d : Dict κ ν) (k : κ) : Bool := (d.get? k).isSome

/-- Store `v` under `k`. -/
def set (d : Dict κ ν) (k : κ) (v : ν) : Dict κ ν :=
  ⟨assocSet k v d.entries, nodup_assocSet d.nodup_keys⟩

/-- Remove the entry of `k`, if there is one. -/
def pop (d : Dict κ ν) (k : κ) : Dict κ ν :=
  ⟨d.entries.filter (fun e => e.1 ≠ k),
    d.nodup_keys.sublist (List.Sublist.map _ List.filter_sublist)⟩

/-- The keys in insertion order. -/
def keys (d : Dict κ ν) : List κ := d.entries.map Prod.fst

/-- The values in insertion order of their keys. -/
def values (d : Dict κ ν) : List ν := d.entries.map Prod.snd

/-- Build a dictionary by storing the pairs one after the other. -/
def ofList (l : List (κ × ν)) : Dict κ ν := l.foldl (fun d e => d.set e.1 e.2) empty

/-- A new key goes last. -/
theorem assocSet_of_notMem {l : List (κ × ν)} {k : κ} (h : k ∉ l.map Prod.fst) (v : ν) :
    assocSet k v l = l ++ [(k, v)] := by
  induction l with
  | nil => rfl
  | cons e rest ih =>
    obtain ⟨k', v'⟩ := e
    rw [List.map_cons, List.mem_cons, not_or] at h
    rw [assocSet, if_neg fun heq => h.1 heq.symm, ih h.2, List.cons_append]

/-- Pairs of distinct keys are stored as they are. -/
theorem entries_ofList {l : List (κ × ν)} (h : (l.map Prod.fst).Nodup) :
    (ofList l).entries = l := by
  induction l using List.reverseRecOn with
  | nil => rfl
  | append_singleton l e ih =>
    rw [List.map_append, List.nodup_append] at h
    obtain ⟨hl, -, hapart⟩ := h
    have hnew : e.1 ∉ l.map Prod.fst := by
      intro hmem
      exact hapart e.1 hmem e.1 (by simp) rfl
    have hset : (ofList (l ++ [e])).entries = assocSet e.1 e.2 (ofList l).entries := by
      unfold ofList
      rw [List.foldl_append]
      rfl
    rw [hset, ih hl, assocSet_of_notMem hnew]

/-- With distinct keys a value is found where its entry is. -/
theorem assocGet_eq_some {l : List (κ × ν)} (h : (l.map Prod.fst).Nodup) {k : κ} {v : ν} :
    assocGet k l = some v ↔ (k, v) ∈ l := by
  induction l with
  | nil => simp [assocGet]
  | cons e rest ih =>
    obtain ⟨k', v'⟩ := e
    obtain ⟨hnot, hrest⟩ := List.nodup_cons.mp h
    by_cases hk : k' = k
    · subst hk
      have hfresh : (k', v) ∉ rest := fun hmem => hnot (List.mem_map.mpr ⟨(k', v), hmem, rfl⟩)
      simp [assocGet, hfresh, eq_comm]
    · have hk' : ¬ k = k' := fun h => hk h.symm
      simp [assocGet, hk, hk', ih hrest]

/-- A lookup succeeds exactly with the stored pair. -/
theorem get?_eq_some {d : Dict κ ν} {k : κ} {v : ν} :
    d.get? k = some v ↔ (k, v) ∈ d.entries :=
  assocGet_eq_some d.nodup_keys

/-- A found value is among the values. -/
theorem mem_values_of_get? {d : Dict κ ν} {k : κ} {v : ν} (h : d.get? k = some v) :
    v ∈ d.values :=
  List.mem_map.mpr ⟨(k, v), get?_eq_some.mp h, rfl⟩

/-- A value among the values is found under some key. -/
theorem exists_get?_of_mem_values {d : Dict κ ν} {v : ν} (h : v ∈ d.values) :
    ∃ k, d.get? k = some v := by
  obtain ⟨⟨k, v'⟩, hmem, rfl⟩ := List.mem_map.mp h
  exact ⟨k, get?_eq_some.mpr hmem⟩

/-- The empty dictionary knows no key. -/
@[simp] theorem get?_empty (k : κ) : (empty : Dict κ ν).get? k = none := rfl

omit [DecidableEq κ] in
/-- The empty dictionary has no values. -/
@[simp] theorem values_empty : (empty : Dict κ ν).values = [] := rfl

/-- A write changes what is found under its own key only. -/
theorem assocGet_assocSet (l : List (κ × ν)) (k j : κ) (v : ν) :
    assocGet j (assocSet k v l) = if j = k then some v else assocGet j l := by
  induction l with
  | nil => simp [assocGet, assocSet, eq_comm]
  | cons e rest ih =>
    obtain ⟨k', v'⟩ := e
    by_cases hk : k' = k
    · subst hk
      by_cases hj : j = k'
      · subst hj
        simp [assocGet, assocSet]
      · have hj' : ¬ k' = j := fun h => hj h.symm
        simp [assocGet, assocSet, hj, hj']
    · by_cases hj : j = k
      · subst hj
        simp [assocGet, assocSet, hk, ih]
      · simp [assocGet, assocSet, hk, ih, hj]

/-- Reading after one write. -/
theorem get?_set (d : Dict κ ν) (k j : κ) (v : ν) :
    (d.set k v).get? j = if j = k then some v else d.get? j :=
  assocGet_assocSet d.entries k j v

/-- What is written is found. -/
@[simp] theorem get?_set_self (d : Dict κ ν) (k : κ) (v : ν) : (d.set k v).get? k = some v := by
  rw [get?_set, if_pos rfl]

/-- Reading after one removal. -/
theorem get?_pop (d : Dict κ ν) (k j : κ) :
    (d.pop k).get? j = if j = k then none else d.get? j := by
  ext v
  rw [get?_eq_some]
  by_cases hj : j = k
  · subst hj
    simp [pop]
  · simp [pop, hj, ← get?_eq_some]

/-- A write changes the value, or its default, of its own key only. -/
theorem getD_set (d : Dict κ ν) (k j : κ) (v dflt : ν) :
    (d.set k v).getD j dflt = if j = k then v else d.getD j dflt := by
  unfold getD
  rw [get?_set]
  split <;> rfl

/-- A removed key has the default. -/
theorem getD_pop (d : Dict κ ν) (k j : κ) (dflt : ν) :
    (d.pop k).getD j dflt = if j = k then dflt else d.getD j dflt := by
  unfold getD
  rw [get?_pop]
  split <;> rfl

/-- A key is contained in both dictionaries or in none if the same is found under it. -/
theorem contains_congr {d d' : Dict κ ν} {k : κ} (h : d'.get? k = d.get? k) :
    d'.contains k = d.contains k := by
  unfold contains
  rw [h]

/-- A key is contained when a value is found under it. -/
theorem contains_eq_true {d : Dict κ ν} {k : κ} : d.contains k = true ↔ ∃ v, d.get? k = some v := by
  unfold contains
  exact Option.isSome_iff_exists

/-! ### Sums -/

/-- A value summed at one of several different keys. -/
theorem sum_map_ite {μ : Type*} [AddCommMonoid μ] {ks : List κ} (hks : ks.Nodup) {k : κ} {v : μ} :
    (ks.map fun j => if k = j then v else 0).sum = if k ∈ ks then v else 0 := by
  induction ks with
  | nil => simp
  | cons j ks ih =>
    obtain ⟨hj, hks⟩ := List.nodup_cons.mp hks
    rw [List.map_cons, List.sum_cons, ih hks]
    by_cases he : k = j
    · subst he
      simp [hj]
    · simp [he]

/-- A sum over the entries of every key is one over the entries. -/
theorem sum_map_filter_key {α μ : Type*} [AddCommMonoid μ] (key : α → κ) (g : α → μ) {ks : List κ}
    (hks : ks.Nodup) {l : List α} (hl : ∀ x ∈ l, key x ∈ ks) :
    (ks.map fun k => ((l.filter fun x => key x = k).map g).sum).sum = (l.map g).sum := by
  induction l with
  | nil => simp
  | cons x l ih =>
    have hsplit : ∀ k, (((x :: l).filter fun y => key y = k).map g).sum =
        (if key x = k then g x else 0) + ((l.filter fun y => key y = k).map g).sum := by
      intro k
      by_cases hk : key x = k <;> simp [hk]
    have hone : (ks.map fun k => if key x = k then g x else 0).sum = g x := by
      rw [sum_map_ite hks, if_pos (hl x (by simp))]
    simp only [hsplit, List.sum_map_add, hone, List.map_cons, List.sum_cons]
    rw [ih fun y hy => hl y (by simp [hy])]

/-- Each key stored once contributes its value to the sum over a list of keys. -/
theorem sum_map_assocGet {μ : Type*} [AddCommMonoid μ] {l : List (κ × μ)}
    (hl : (l.map Prod.fst).Nodup) {ks : List κ} (hks : ks.Nodup) :
    (ks.map fun k => (assocGet k l).getD 0).sum +
        ((l.filter fun e => e.1 ∉ ks).map Prod.snd).sum = (l.map Prod.snd).sum := by
  induction l with
  | nil => simp [assocGet]
  | cons e rest ih =>
    obtain ⟨k', v'⟩ := e
    obtain ⟨hnot, hrest⟩ := List.nodup_cons.mp hl
    have hnone : assocGet k' rest = none := by
      cases hget : assocGet k' rest with
      | none => rfl
      | some v =>
        have hmem := (assocGet_eq_some hrest).mp hget
        exact absurd (List.mem_map_of_mem (f := Prod.fst) hmem) hnot
    have hsplit : ∀ k, (assocGet k ((k', v') :: rest)).getD 0 =
        (if k' = k then v' else 0) + (assocGet k rest).getD 0 := by
      intro k
      by_cases hk : k' = k
      · subst hk
        simp [assocGet, hnone]
      · simp [assocGet, hk]
    simp only [hsplit, List.sum_map_add, sum_map_ite hks, List.map_cons, List.sum_cons]
    by_cases hin : k' ∈ ks
    · rw [if_pos hin, List.filter_cons_of_neg (by simpa using hin), add_assoc, ih hrest]
    · rw [if_neg hin, zero_add, List.filter_cons_of_pos (by simpa using hin), List.map_cons,
        List.sum_cons, add_left_comm, ih hrest]

/-- The sum of the values, over the keys of a list and over the others. -/
theorem sum_values_split {μ : Type*} [AddCommMonoid μ] (d : Dict κ μ) {ks : List κ}
    (hks : ks.Nodup) :
    (ks.map fun k => d.getD k 0).sum + ((d.entries.filter fun e => e.1 ∉ ks).map Prod.snd).sum =
      d.values.sum :=
  sum_map_assocGet d.nodup_keys hks

/-- A write changes the sum of the values by what it replaces. -/
theorem sum_values_set {μ : Type*} [AddCommMonoid μ] (d : Dict κ μ) (k : κ) (v : μ) :
    (d.set k v).values.sum + d.getD k 0 = d.values.sum + v := by
  have hrest : (d.set k v).entries.filter (fun e => e.1 ∉ [k]) =
      d.entries.filter fun e => e.1 ∉ [k] := by
    show (assocSet k v d.entries).filter _ = _
    induction d.entries with
    | nil => simp [assocSet]
    | cons e rest ih =>
      obtain ⟨k', v'⟩ := e
      by_cases hk : k' = k
      · simp [assocSet, hk]
      · simp only [assocSet, if_neg hk]
        rw [List.filter_cons_of_pos (by simpa using hk), ih,
          List.filter_cons_of_pos (by simpa using hk)]
  have hnew := sum_values_split (d.set k v) (List.nodup_singleton k)
  have hold := sum_values_split d (List.nodup_singleton k)
  rw [hrest] at hnew
  simp only [List.map_cons, List.map_nil, List.sum_cons, List.sum_nil, add_zero, getD_set,
    if_pos] at hnew hold
  rw [← hnew, ← hold]
  abel

/-- A write changes the sum of a measure of the values by what it replaces. -/
theorem sum_map_values_set {μ : Type*} [AddCommMonoid μ] (g : ν → μ) (d : Dict κ ν) (k : κ)
    (v : ν) :
    ((d.set k v).values.map g).sum + ((d.get? k).map g).getD 0 = (d.values.map g).sum + g v := by
  show (((assocSet k v d.entries).map Prod.snd).map g).sum + ((assocGet k d.entries).map g).getD 0 =
    ((d.entries.map Prod.snd).map g).sum + g v
  induction d.entries with
  | nil => simp [assocSet, assocGet]
  | cons e rest ih =>
    obtain ⟨k', v'⟩ := e
    by_cases hk : k' = k
    · simp only [assocSet, assocGet, if_pos hk, List.map_cons, List.sum_cons, Option.map_some,
        Option.getD_some]
      abel
    · simp only [assocSet, assocGet, if_neg hk, List.map_cons, List.sum_cons]
      rw [add_assoc, ih]
      abel

end Dict

end Pilot
