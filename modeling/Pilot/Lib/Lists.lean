import Mathlib.Data.List.Basic
import Mathlib.Data.List.Nodup
import Mathlib.Data.List.Perm.Basic
import Mathlib.Data.List.Sort
import Mathlib.Algebra.BigOperators.Group.List.Basic
import Mathlib.Tactic.Abel

/-!
# Updating the first match of a list

Records kept in a tuple are updated by searching the first entry with a given
key and replacing it. The lemmas say what such an update does to membership, to
the list of keys and to concatenations.
-/

namespace Pilot

/-- Apply `f` to the first entry that satisfies `q`. -/
def replaceFirst {α : Type*} (q : α → Bool) (f : α → α) : List α → List α
  | [] => []
  | x :: rest => if q x then f x :: rest else x :: replaceFirst q f rest

variable {α β : Type*} {q : α → Bool} {f : α → α}

@[simp] theorem replaceFirst_nil : replaceFirst q f [] = [] := rfl

@[simp] theorem length_replaceFirst (l : List α) : (replaceFirst q f l).length = l.length := by
  induction l with
  | nil => rfl
  | cons x rest ih =>
    unfold replaceFirst
    split <;> simp [ih]

theorem replaceFirst_of_find?_none {l : List α} (h : l.find? q = none) :
    replaceFirst q f l = l := by
  induction l with
  | nil => rfl
  | cons x rest ih =>
    rw [List.find?_cons] at h
    cases hx : q x with
    | true => simp [hx] at h
    | false => simp [replaceFirst, hx, ih (by simpa [hx] using h)]

/-- The update splits the list at the entry the search finds. -/
theorem replaceFirst_split {l : List α} {x : α} (h : l.find? q = some x) :
    ∃ front back, l = front ++ x :: back ∧ replaceFirst q f l = front ++ f x :: back ∧
      ∀ y ∈ front, q y = false := by
  induction l with
  | nil => simp at h
  | cons y rest ih =>
    rw [List.find?_cons] at h
    cases hy : q y with
    | true =>
      simp only [hy, Option.some.injEq] at h
      subst h
      exact ⟨[], rest, by simp, by simp [replaceFirst, hy], by simp⟩
    | false =>
      simp only [hy] at h
      obtain ⟨front, back, heq, hrep, hfront⟩ := ih h
      refine ⟨y :: front, back, by simp [heq], ?_, ?_⟩
      · simp [replaceFirst, hy, hrep]
      · intro z hz
        rcases List.mem_cons.mp hz with rfl | hz
        · exact hy
        · exact hfront z hz

/-- Where the keys differ, an entry is found by its key. -/
theorem find?_of_nodup {κ : Type*} [BEq κ] [LawfulBEq κ] {key : α → κ} {l : List α} {x : α}
    (h : (l.map key).Nodup) (hx : x ∈ l) : (l.find? fun y => key y == key x) = some x := by
  induction l with
  | nil => simp at hx
  | cons y l ih =>
    rw [List.map_cons, List.nodup_cons] at h
    rcases List.mem_cons.mp hx with rfl | hx
    · rw [List.find?_cons_of_pos (by simp)]
    · have hne : key y ≠ key x := fun heq => h.1 (heq ▸ List.mem_map_of_mem hx)
      rw [List.find?_cons_of_neg (by simpa using hne)]
      exact ih h.2 hx

/-- An entry of the updated list is an old entry or the update of a matching one. -/
theorem mem_replaceFirst {l : List α} {y : α} (h : y ∈ replaceFirst q f l) :
    y ∈ l ∨ ∃ x ∈ l, q x = true ∧ y = f x := by
  induction l with
  | nil => simp at h
  | cons x rest ih =>
    unfold replaceFirst at h
    split at h
    · rename_i hx
      rcases List.mem_cons.mp h with rfl | h
      · exact Or.inr ⟨x, by simp, hx, rfl⟩
      · exact Or.inl (List.mem_cons_of_mem _ h)
    · rcases List.mem_cons.mp h with rfl | h
      · exact Or.inl (by simp)
      · rcases ih h with hmem | ⟨z, hz, hq, rfl⟩
        · exact Or.inl (List.mem_cons_of_mem _ hmem)
        · exact Or.inr ⟨z, List.mem_cons_of_mem _ hz, hq, rfl⟩

/-- Where the keys differ, the entries that were not found stay and the found one is replaced. -/
theorem mem_replaceFirst_of_nodup {κ : Type*} {key : α → κ} {k : κ}
    (hq : ∀ x, q x = true ↔ key x = k) {l : List α} (hkeys : (l.map key).Nodup) {y : α}
    (h : y ∈ replaceFirst q f l) : y ∈ l ∧ key y ≠ k ∨ ∃ x ∈ l, key x = k ∧ y = f x := by
  induction l with
  | nil => simp at h
  | cons x rest ih =>
    rw [List.map_cons, List.nodup_cons] at hkeys
    unfold replaceFirst at h
    split at h
    · next hx =>
      have hkey := (hq x).mp hx
      rcases List.mem_cons.mp h with rfl | h
      · exact Or.inr ⟨x, by simp, hkey, rfl⟩
      · refine Or.inl ⟨by simp [h], fun hy => hkeys.1 ?_⟩
        rw [hkey, ← hy]
        exact List.mem_map_of_mem h
    · next hx =>
      rcases List.mem_cons.mp h with rfl | h
      · exact Or.inl ⟨by simp, fun hy => hx ((hq y).mpr hy)⟩
      · rcases ih hkeys.2 h with ⟨hy, hne⟩ | ⟨z, hz, hkey, rfl⟩
        · exact Or.inl ⟨by simp [hy], hne⟩
        · exact Or.inr ⟨z, by simp [hz], hkey, rfl⟩

/-- A projection that the update does not change at its entries is not changed anywhere. -/
theorem map_replaceFirst_of_mem {g : α → β} {l : List α}
    (h : ∀ x ∈ l, q x = true → g (f x) = g x) : (replaceFirst q f l).map g = l.map g := by
  induction l with
  | nil => rfl
  | cons x rest ih =>
    unfold replaceFirst
    split_ifs with hx
    · rw [List.map_cons, List.map_cons, h x (by simp) hx]
    · rw [List.map_cons, List.map_cons, ih fun y hy => h y (by simp [hy])]

/-- A projection that the update does not change is not changed anywhere. -/
theorem map_replaceFirst_of_eq {g : α → β} (h : ∀ x, q x = true → g (f x) = g x) (l : List α) :
    (replaceFirst q f l).map g = l.map g :=
  map_replaceFirst_of_mem fun x _ hx => h x hx

/-- Renaming the found entry to a key that no entry has keeps the keys different. -/
theorem nodup_map_replaceFirst {g : α → β} {l : List α} {x : α} (hfind : l.find? q = some x)
    (hnodup : (l.map g).Nodup) (hnew : g (f x) ∉ l.map g) :
    ((replaceFirst q f l).map g).Nodup := by
  obtain ⟨front, back, rfl, hrep, -⟩ := replaceFirst_split (f := f) hfind
  rw [hrep]
  simp only [List.map_append, List.map_cons, List.mem_append, List.mem_cons, not_or]
    at hnodup hnew ⊢
  rw [List.nodup_middle, List.nodup_cons] at hnodup ⊢
  refine ⟨?_, hnodup.2⟩
  rw [List.mem_append, not_or]
  exact ⟨hnew.1, hnew.2.2⟩

/-- A search that neither finds the replaced entry nor its replacement finds the same. -/
theorem find?_replaceFirst_of_ne {r : α → Bool} (h : ∀ x, q x = true → r x = false)
    (hf : ∀ x, q x = true → r (f x) = false) (l : List α) :
    (replaceFirst q f l).find? r = l.find? r := by
  induction l with
  | nil => rfl
  | cons x rest ih =>
    unfold replaceFirst
    split_ifs with hx
    · rw [List.find?_cons, List.find?_cons, h x hx, hf x hx]
    · rw [List.find?_cons, List.find?_cons, ih]

/-- The element that was replaced is found again. -/
theorem find?_replaceFirst_self (h : ∀ x, q x = true → q (f x) = true) (l : List α) :
    (replaceFirst q f l).find? q = (l.find? q).map f := by
  cases hfind : l.find? q with
  | none =>
    rw [replaceFirst_of_find?_none hfind, hfind]
    rfl
  | some x =>
    obtain ⟨front, back, rfl, hrep, hfront⟩ := replaceFirst_split (f := f) hfind
    have hnone : front.find? q = none := List.find?_eq_none.mpr fun y hy => by simp [hfront y hy]
    have hx : q x = true := List.find?_some hfind
    rw [hrep, List.find?_append, hnone, Option.none_or, List.find?_cons_of_pos (h x hx),
      Option.map_some]

theorem find?_mem_and {l : List α} {x : α} (h : l.find? q = some x) : x ∈ l ∧ q x = true :=
  ⟨List.mem_of_find?_eq_some h, List.find?_some h⟩

/-- The first `n` pairs of a zip use up the front of both lists. -/
theorem take_zip_split (xs : List α) (ys : List β) (n : ℕ) :
    ((xs.zip ys).take n).map Prod.fst ++ xs.drop ((xs.zip ys).take n).length = xs ∧
      ((xs.zip ys).take n).map Prod.snd ++ ys.drop ((xs.zip ys).take n).length = ys := by
  induction xs generalizing ys n with
  | nil => simp
  | cons x xs ih =>
    cases ys with
    | nil => simp
    | cons y ys =>
      cases n with
      | zero => simp
      | succ n => simpa using ih ys n

/-- What pairs entry by entry with a list has its counterpart in the list. -/
theorem exists_of_forall₂ {R : α → β → Prop} {as : List α} {bs : List β}
    (h : List.Forall₂ R as bs) {b : β} (hb : b ∈ bs) : ∃ a ∈ as, R a b := by
  induction h with
  | nil => simp at hb
  | cons hab _ ih =>
    rcases List.mem_cons.mp hb with rfl | hb
    · exact ⟨_, by simp, hab⟩
    · obtain ⟨a, ha, hR⟩ := ih hb
      exact ⟨a, by simp [ha], hR⟩

/-- A projection that agrees entry by entry. -/
theorem map_eq_of_forall₂ {R : α → α → Prop} {g : α → β} (hR : ∀ a b, R a b → g b = g a)
    {as bs : List α} (h : List.Forall₂ R as bs) : bs.map g = as.map g := by
  induction h with
  | nil => rfl
  | cons hab _ ih => rw [List.map_cons, List.map_cons, hR _ _ hab, ih]

/-- Lists that pair entry by entry for every key pair when they are joined. -/
theorem forall₂_flatMap {κ : Type*} {R : α → β → Prop} {f : κ → List α} {g : κ → List β}
    {ks : List κ} (hks : ∀ k ∈ ks, List.Forall₂ R (f k) (g k)) :
    List.Forall₂ R (ks.flatMap f) (ks.flatMap g) := by
  induction ks with
  | nil => exact List.Forall₂.nil
  | cons k ks ih =>
    rw [List.flatMap_cons, List.flatMap_cons]
    exact List.rel_append (hks k (by simp)) (ih fun j hj => hks j (by simp [hj]))

/-- One entry for each key that meets a condition, and none for the others. -/
theorem forall₂_flatMap_filter {κ : Type*} {R : α → κ → Prop} {f : κ → List α} {q : κ → Bool}
    {ks : List κ} (hone : ∀ k ∈ ks, q k = true → ∃ a, f k = [a] ∧ R a k)
    (hnone : ∀ k ∈ ks, q k = false → f k = []) :
    List.Forall₂ R (ks.flatMap f) (ks.filter q) := by
  induction ks with
  | nil => exact List.Forall₂.nil
  | cons k ks ih =>
    have hrest := ih (fun j hj => hone j (by simp [hj])) fun j hj => hnone j (by simp [hj])
    rw [List.flatMap_cons, List.filter_cons]
    cases hq : q k with
    | true =>
      obtain ⟨a, ha, hR⟩ := hone k (by simp) hq
      rw [ha, if_pos rfl]
      exact List.Forall₂.cons hR hrest
    | false =>
      rw [hnone k (by simp) hq, if_neg Bool.false_ne_true]
      exact hrest

/-- A condition that implies another and fails at one entry that meets the other holds of
fewer entries. -/
theorem countP_lt_of_imp {l : List α} {P Q : α → Bool} {x : α}
    (himp : ∀ y ∈ l, P y = true → Q y = true) (hx : x ∈ l) (hP : P x = false)
    (hQ : Q x = true) : l.countP P < l.countP Q := by
  obtain ⟨front, back, rfl⟩ := List.append_of_mem hx
  have hfront : front.countP P ≤ front.countP Q :=
    List.countP_mono_left fun y hy => himp y (by simp [hy])
  have hback : back.countP P ≤ back.countP Q :=
    List.countP_mono_left fun y hy => himp y (by simp [hy])
  rw [List.countP_append, List.countP_append, List.countP_cons_of_neg (by simp [hP]),
    List.countP_cons_of_pos hQ]
  omega

/-- Lists that pair entry by entry under a transitive relation do so in a chain. -/
theorem forall₂_trans {R : α → α → Prop} (htrans : ∀ a b c, R a b → R b c → R a c)
    {as bs cs : List α} (h : List.Forall₂ R as bs) (k : List.Forall₂ R bs cs) :
    List.Forall₂ R as cs := by
  induction h generalizing cs with
  | nil => exact k
  | cons hab _ ih =>
    cases k with
    | cons hbc hrest => exact List.Forall₂.cons (htrans _ _ _ hab hbc) (ih hrest)

/-- An update of the first match is an update entry by entry. -/
theorem forall₂_replaceFirst {R : α → α → Prop} (hrefl : ∀ x, R x x)
    (h : ∀ x, q x = true → R x (f x)) (l : List α) : List.Forall₂ R l (replaceFirst q f l) := by
  induction l with
  | nil => exact List.Forall₂.nil
  | cons x l ih =>
    unfold replaceFirst
    split_ifs with hx
    · exact List.Forall₂.cons (h x hx) (List.forall₂_same.mpr fun y _ => hrefl y)
    · exact List.Forall₂.cons (hrefl x) ih

/-- Where every key but `e` names one entry, an entry with another key splits the list into
entries with other keys. -/
theorem split_of_key {κ : Type*} [DecidableEq κ] {key : α → κ} {e : κ} {l : List α} {x : α}
    (hx : x ∈ l) (hkey : key x ≠ e)
    (h : ((l.map key).filter (· ≠ e)).Nodup) :
    ∃ front back, l = front ++ x :: back ∧ (∀ y ∈ front, key y ≠ key x) ∧
      ∀ y ∈ back, key y ≠ key x := by
  obtain ⟨front, back, rfl⟩ := List.append_of_mem hx
  have hsplit : (((front ++ x :: back).map key).filter (· ≠ e)) =
      (front.map key).filter (· ≠ e) ++ key x :: (back.map key).filter (· ≠ e) := by
    rw [List.map_append, List.map_cons, List.filter_append,
      List.filter_cons_of_pos (by simpa using hkey)]
  rw [hsplit, List.nodup_middle, List.nodup_cons, List.mem_append, not_or] at h
  obtain ⟨⟨hfront, hback⟩, -⟩ := h
  refine ⟨front, back, rfl, fun y hy heq => hfront ?_, fun y hy heq => hback ?_⟩
  · rw [← heq]
    exact List.mem_filter.mpr ⟨List.mem_map_of_mem hy, by simpa [heq] using hkey⟩
  · rw [← heq]
    exact List.mem_filter.mpr ⟨List.mem_map_of_mem hy, by simpa [heq] using hkey⟩

/-- A sum after the entries of one key change: the change of the one entry it names. -/
theorem sum_map_of_key {κ μ : Type*} [DecidableEq κ] [AddCommGroup μ] {key : α → κ} {e : κ}
    {l : List α} {x : α} {g g' : α → μ} (hx : x ∈ l) (hkey : key x ≠ e)
    (h : ((l.map key).filter (· ≠ e)).Nodup) (hsame : ∀ y ∈ l, key y ≠ key x → g' y = g y) :
    (l.map g').sum = (l.map g).sum + (g' x - g x) := by
  obtain ⟨front, back, rfl, hfront, hback⟩ := split_of_key hx hkey h
  have hf : front.map g' = front.map g :=
    List.map_congr_left fun y hy => hsame y (by simp [hy]) (hfront y hy)
  have hb : back.map g' = back.map g :=
    List.map_congr_left fun y hy => hsame y (by simp [hy]) (hback y hy)
  simp only [List.map_append, List.map_cons, List.sum_append, List.sum_cons, hf, hb]
  abel

/-- Dropping entries that add nothing keeps a sum. -/
theorem sum_map_filter_of_zero {μ : Type*} [AddMonoid μ] {g : α → μ} {q : α → Bool} {l : List α}
    (h : ∀ x ∈ l, q x = false → g x = 0) : ((l.filter q).map g).sum = (l.map g).sum := by
  induction l with
  | nil => rfl
  | cons x l ih =>
    have hrest := ih fun y hy => h y (by simp [hy])
    cases hx : q x with
    | true => rw [List.filter_cons_of_pos hx, List.map_cons, List.map_cons, List.sum_cons,
        List.sum_cons, hrest]
    | false =>
      rw [List.filter_cons_of_neg (by simp [hx]), List.map_cons, List.sum_cons,
        h x (by simp) hx, zero_add, hrest]

/-- A sum over the entries of several lists is summed list by list. -/
theorem sum_map_flatMap {μ : Type*} [AddMonoid μ] (g : β → μ) (h : α → List β) (l : List α) :
    ((l.flatMap h).map g).sum = (l.map fun x => ((h x).map g).sum).sum := by
  induction l with
  | nil => rfl
  | cons x l ih =>
    rw [List.flatMap_cons, List.map_append, List.sum_append, ih, List.map_cons, List.sum_cons]

/-- Where the keys differ, an entry and the entries with another key make up the list. -/
theorem perm_cons_filter {κ : Type*} [DecidableEq κ] {key : α → κ} {l : List α} {x : α}
    (hx : x ∈ l) (h : (l.map key).Nodup) : l.Perm (x :: l.filter fun y => key y ≠ key x) := by
  obtain ⟨front, back, rfl⟩ := List.append_of_mem hx
  rw [List.map_append, List.map_cons, List.nodup_middle, List.nodup_cons] at h
  have hother : ∀ y ∈ front ++ back, key y ≠ key x := by
    intro y hy heq
    apply h.1
    rw [← List.map_append, ← heq]
    exact List.mem_map_of_mem hy
  have hkept : (front ++ x :: back).filter (fun y => key y ≠ key x) = front ++ back := by
    rw [List.filter_append, List.filter_cons_of_neg (by simp), ← List.filter_append]
    exact List.filter_eq_self.mpr fun y hy => by simpa using hother y hy
  rw [hkept]
  exact List.perm_middle

/-- Where the keys differ, the update of an entry leaves the entries with another key. -/
theorem perm_replaceFirst {κ : Type*} [DecidableEq κ] {key : α → κ} {l : List α} {x : α}
    (hx : x ∈ l) (h : (l.map key).Nodup) (f : α → α) :
    (replaceFirst (fun y => key y == key x) f l).Perm
      (f x :: l.filter fun y => key y ≠ key x) := by
  obtain ⟨front, back, heq, hrep, -⟩ := replaceFirst_split (f := f) (find?_of_nodup h hx)
  have hsplit : (x :: (front ++ back)).Perm (x :: l.filter fun y => key y ≠ key x) := by
    refine List.perm_middle.symm.trans ?_
    rw [← heq]
    exact perm_cons_filter hx h
  rw [hrep]
  exact List.perm_middle.trans (List.Perm.cons _ hsplit.cons_inv)

/-- An update at a position is an update entry by entry. -/
theorem forall₂_modify {R : α → α → Prop} (hrefl : ∀ x, R x x) (l : List α) (i : ℕ)
    (h : ∀ x, l[i]? = some x → R x (f x)) : List.Forall₂ R l (l.modify i f) := by
  induction l generalizing i with
  | nil => simp
  | cons x l ih =>
    cases i with
    | zero =>
      simp only [List.modify_zero_cons]
      exact List.Forall₂.cons (h x rfl) (List.forall₂_same.mpr fun y _ => hrefl y)
    | succ i =>
      simp only [List.modify_succ_cons]
      exact List.Forall₂.cons (hrefl x) (ih i fun y hy => h y (by simpa using hy))

end Pilot
