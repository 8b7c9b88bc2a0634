import Mathlib.Data.List.Induction
import Pilot.V33.Reconcile

/-!
# The truth of the executor's fills

The executor hears of a fill on several channels. Some report each execution, others the
cumulative figure of an order. Aggregated per key, a channel's figure never exceeds what its
order filled, so neither does the largest of them; and it is exact once a channel was complete.
-/

namespace Pilot.V33

/-! ### Channels -/

/-- The key a fill is filed under. -/
def ExecFill.key (f : ExecFill) : Option String := canonKey f.coid f.orderId

/-- What a channel's figures come to: the largest of the cumulative ones, the sum of others. -/
def channelTotal (source : String) (figures : List ℚ) : ℚ :=
  if source ∈ maxSources then figures.foldl max 0 else figures.sum

/-- The figures a channel reports under a key. -/
def figuresOf (fills : List ExecFill) (key source : String) : List ℚ :=
  (fills.filter fun f => f.key = some key ∧ f.src = source).map ExecFill.count

/-- The total of a source in the aggregate, if there is one. -/
def sourceTotal (agg : Dict String ExecAgg) (key source : String) : Option ℚ :=
  (agg.get? key).bind fun e => e.bySource.get? source

/-- One more figure raises the maximum of a channel, or its sum. -/
theorem channelTotal_append_singleton (source : String) (figures : List ℚ) (x : ℚ) :
    channelTotal source (figures ++ [x]) =
      if source ∈ maxSources then max (channelTotal source figures) x
      else channelTotal source figures + x := by
  unfold channelTotal
  split_ifs
  · rw [List.foldl_append, List.foldl_cons, List.foldl_nil]
  · rw [List.sum_append, List.sum_singleton]

/-- One more fill adds a figure under its own key and channel. -/
theorem figuresOf_append_singleton (fills : List ExecFill) (f : ExecFill) (key source : String) :
    figuresOf (fills ++ [f]) key source =
      if f.key = some key ∧ f.src = source then figuresOf fills key source ++ [f.count]
      else figuresOf fills key source := by
  unfold figuresOf
  rw [List.filter_append, List.map_append]
  split_ifs with hf
  · rw [List.filter_cons_of_pos (by simpa using hf)]
    rfl
  · rw [List.filter_cons_of_neg (by simpa using hf)]
    simp

/-- A fill is added to the total of its own source under its own key only. -/
theorem sourceTotal_addExecFill (agg : Dict String ExecAgg) (f : ExecFill) (key source : String) :
    sourceTotal (addExecFill agg f) key source =
      if f.key = some key ∧ f.src = source then
        some (if source ∈ maxSources then max ((sourceTotal agg key source).getD 0) f.count
          else (sourceTotal agg key source).getD 0 + f.count)
      else sourceTotal agg key source := by
  unfold addExecFill
  cases hkey : canonKey f.coid f.orderId with
  | none => simp [ExecFill.key, hkey]
  | some k =>
    have hold : ∀ s, (agg.getD k ExecAgg.new).bySource.get? s = sourceTotal agg k s := by
      intro s
      unfold sourceTotal Dict.getD
      cases agg.get? k <;> rfl
    have hseen : (agg.getD k ExecAgg.new).bySource.getD f.src 0 =
        (sourceTotal agg k f.src).getD 0 := by
      rw [Dict.getD, hold]
    have hkey' : f.key = some k := hkey
    by_cases hk : key = k
    · subst hk
      have hnew : sourceTotal (agg.set key ((agg.getD key ExecAgg.new).add f)) key source =
          ((agg.getD key ExecAgg.new).add f).bySource.get? source := by
        simp [sourceTotal]
      dsimp only
      rw [hnew, ExecAgg.add, Dict.get?_set, hold, hseen]
      by_cases hs : source = f.src
      · subst hs
        simp [hkey']
      · have hs' : ¬f.src = source := fun heq => hs heq.symm
        simp [hs, hs']
    · have hk' : ¬k = key := fun heq => hk heq.symm
      simp [sourceTotal, Dict.get?_set, hk, hk', hkey']

/-- The aggregate holds, under each key and source, the total of the figures reported there. -/
theorem sourceTotal_aggregate (fills : List ExecFill) (key source : String) :
    sourceTotal (aggregateExecFills fills) key source =
      if figuresOf fills key source = [] then none
      else some (channelTotal source (figuresOf fills key source)) := by
  induction fills using List.reverseRecOn with
  | nil => simp [aggregateExecFills, sourceTotal, figuresOf]
  | append_singleton fills f ih =>
    have hagg : aggregateExecFills (fills ++ [f]) = addExecFill (aggregateExecFills fills) f := by
      rw [aggregateExecFills, List.foldl_append]
      rfl
    rw [hagg, sourceTotal_addExecFill, figuresOf_append_singleton]
    by_cases hf : f.key = some key ∧ f.src = source
    · have hold : (sourceTotal (aggregateExecFills fills) key source).getD 0 =
          channelTotal source (figuresOf fills key source) := by
        rw [ih]
        by_cases hnil : figuresOf fills key source = []
        · simp [hnil, channelTotal]
        · rw [if_neg hnil, Option.getD_some]
      have hne : figuresOf fills key source ++ [f.count] ≠ [] := by simp
      rw [if_pos hf, if_pos hf, if_neg hne, channelTotal_append_singleton, hold]
    · rw [if_neg hf, if_neg hf, ih]

/-- A key of the aggregate is that of some fill. -/
theorem exists_fill_of_get? {fills : List ExecFill} {key : String} {e : ExecAgg}
    (h : (aggregateExecFills fills).get? key = some e) : ∃ f ∈ fills, f.key = some key := by
  induction fills using List.reverseRecOn generalizing e with
  | nil => simp [aggregateExecFills] at h
  | append_singleton fills f ih =>
    rw [aggregateExecFills, List.foldl_append, List.foldl_cons, List.foldl_nil] at h
    change (addExecFill (aggregateExecFills fills) f).get? key = some e at h
    by_cases hf : f.key = some key
    · exact ⟨f, by simp, hf⟩
    · have hold : (aggregateExecFills fills).get? key = some e := by
        unfold addExecFill at h
        cases hkey : canonKey f.coid f.orderId with
        | none =>
          rw [hkey] at h
          exact h
        | some k =>
          have hk : ¬key = k := by
            rintro rfl
            exact hf hkey
          rw [hkey] at h
          dsimp only at h
          rwa [Dict.get?_set, if_neg hk] at h
      obtain ⟨g, hg, hgkey⟩ := ih hold
      exact ⟨g, by simp [hg], hgkey⟩

/-! ### The truth of a key -/

section Truth

variable {fills : List ExecFill} {key : String} {e : ExecAgg} {bound : ℚ}

/-- The truth of a key is no more than a bound on each of its channels. -/
theorem truth_le (hget : (aggregateExecFills fills).get? key = some e) (hbound : 0 ≤ bound)
    (h : ∀ source, channelTotal source (figuresOf fills key source) ≤ bound) :
    e.truth ≤ bound := by
  unfold ExecAgg.truth
  cases hmax : e.bySource.values.max? with
  | none => exact hbound
  | some v =>
    obtain ⟨source, hsource⟩ := Dict.exists_get?_of_mem_values (List.max?_mem hmax)
    have htotal := sourceTotal_aggregate fills key source
    rw [sourceTotal, hget, Option.bind_some, hsource] at htotal
    split_ifs at htotal
    rw [Option.getD_some, Option.some.inj htotal]
    exact h source

/-- The truth of a key is no less than what any of its channels reported. -/
theorem le_truth (hget : (aggregateExecFills fills).get? key = some e) {source : String}
    (hsome : figuresOf fills key source ≠ []) :
    channelTotal source (figuresOf fills key source) ≤ e.truth := by
  have htotal := sourceTotal_aggregate fills key source
  rw [sourceTotal, hget, Option.bind_some, if_neg hsome] at htotal
  have hmem := Dict.mem_values_of_get? htotal
  unfold ExecAgg.truth
  cases hmax : e.bySource.values.max? with
  | none =>
    rw [List.max?_eq_none_iff.mp hmax] at hmem
    simp at hmem
  | some v => exact (List.max?_le_iff hmax).mp le_rfl _ hmem

end Truth

/-! ### Orders -/

/-- The largest of some figures is none above a bound on all of them. -/
theorem foldl_max_le {figures : List ℚ} {bound : ℚ} (h : ∀ q ∈ figures, q ≤ bound) {a : ℚ}
    (ha : a ≤ bound) : figures.foldl max a ≤ bound := by
  induction figures generalizing a with
  | nil => exact ha
  | cons q figures ih =>
    rw [List.foldl_cons]
    exact ih (fun x hx => h x (by simp [hx])) (max_le ha (h q (by simp)))

/-- The start and every figure are at most the maximum. -/
theorem le_foldl_max {figures : List ℚ} {a q : ℚ} (h : q ≤ a ∨ q ∈ figures) :
    q ≤ figures.foldl max a := by
  induction figures generalizing a with
  | nil =>
    simpa using h
  | cons x figures ih =>
    rw [List.foldl_cons]
    rcases h with h | h
    · exact ih (Or.inl (h.trans (le_max_left a x)))
    · rcases List.mem_cons.mp h with rfl | h
      · exact ih (Or.inl (le_max_right a q))
      · exact ih (Or.inr h)

/-- The orders at the venue: their executions, and the order each key names. -/
structure VenueOrders (ι : Type*) where
  executions : ι → List ℚ
  /-- An execution is of some lots. -/
  positive : ∀ o, ∀ q ∈ executions o, 0 < q
  orderOf : String → ι

namespace VenueOrders

variable {ι : Type*} (V : VenueOrders ι)

/-- What an order has truly filled. -/
def filled (o : ι) : ℚ := (V.executions o).sum

/-- The filled lots of an order are never negative. -/
theorem filled_nonneg (o : ι) : 0 ≤ V.filled o :=
  List.sum_nonneg fun q hq => (V.positive o q hq).le

/-- Some of the executions come to no more than all of them. -/
theorem sum_le_filled {o : ι} {figures : List ℚ} (h : figures.Subperm (V.executions o)) :
    0 ≤ figures.sum ∧ figures.sum ≤ V.filled o := by
  obtain ⟨l, hperm, hsub⟩ := h
  rw [← hperm.sum_eq]
  constructor
  · refine List.sum_nonneg fun q hq => ?_
    exact (V.positive o q (hsub.subset hq)).le
  · refine hsub.sum_le_sum fun q hq => ?_
    exact (V.positive o q hq).le

variable [DecidableEq ι] (fills : List ExecFill)

/-- The fills reported of an order. -/
def concerns (o : ι) (f : ExecFill) : Bool := f.key.map V.orderOf == some o

/-- The figures a channel reports of an order. -/
def figures (o : ι) (source : String) : List ℚ :=
  (fills.filter fun f => V.concerns o f && f.src == source).map ExecFill.count

/-- A channel of increments reports some of the executions, each once; no cumulative figure
exceeds what the order filled. -/
structure Faithful : Prop where
  increments : ∀ o source, source ∉ maxSources → (V.figures fills o source).Subperm (V.executions o)
  cumulative : ∀ o source, source ∈ maxSources → ∀ q ∈ V.figures fills o source, q ≤ V.filled o

/-- The figures of a channel report an order completely. -/
def Complete (o : ι) (source : String) (figures : List ℚ) : Prop :=
  if source ∈ maxSources then V.filled o ∈ figures else figures.Perm (V.executions o)

/-- What the aggregate returns for an order, over the keys it is filed under. -/
def returned (o : ι) : ℚ :=
  (((aggregateExecFills fills).entries.filter fun e => V.orderOf e.1 = o).map
    fun e => e.2.truth).sum

variable {V fills}

/-- The figures under a key are among those of the order it names. -/
theorem figuresOf_sublist (key source : String) :
    (figuresOf fills key source).Sublist (V.figures fills (V.orderOf key) source) := by
  refine List.Sublist.map _ (List.monotone_filter_right _ ?_)
  intro f hf
  obtain ⟨hkey, hsrc⟩ := of_decide_eq_true hf
  simp [concerns, hkey, hsrc]

/-- What a channel comes to under a key lies between nothing and what the order filled. -/
theorem Faithful.channelTotal (h : V.Faithful fills) (key source : String) :
    0 ≤ channelTotal source (figuresOf fills key source) ∧
      channelTotal source (figuresOf fills key source) ≤ V.filled (V.orderOf key) := by
  have hsub := @figuresOf_sublist ι V _ fills key source
  unfold V33.channelTotal
  split_ifs with hmax
  · refine ⟨le_foldl_max (Or.inl le_rfl), foldl_max_le ?_ (V.filled_nonneg _)⟩
    intro q hq
    exact h.cumulative (V.orderOf key) source hmax q (hsub.subset hq)
  · exact V.sum_le_filled (hsub.subperm.trans (h.increments (V.orderOf key) source hmax))

/-- A channel that is complete under a key comes to what the order filled. -/
theorem Faithful.complete (h : V.Faithful fills) {key source : String}
    (hcomplete : V.Complete (V.orderOf key) source (figuresOf fills key source)) :
    V33.channelTotal source (figuresOf fills key source) = V.filled (V.orderOf key) := by
  have hle := (h.channelTotal key source).2
  unfold Complete at hcomplete
  unfold V33.channelTotal at hle ⊢
  split_ifs at hcomplete hle ⊢ with hmax
  · exact le_antisymm hle (le_foldl_max (Or.inr hcomplete))
  · exact hcomplete.sum_eq

/-- Under each key the truth is at most what its order filled, and equal to it once a channel
was complete there. -/
theorem Faithful.truth (h : V.Faithful fills) {key : String} {e : ExecAgg}
    (hget : (aggregateExecFills fills).get? key = some e) :
    e.truth ≤ V.filled (V.orderOf key) ∧
      ((∃ source, V.Complete (V.orderOf key) source (figuresOf fills key source)) →
        e.truth = V.filled (V.orderOf key)) := by
  have hle := truth_le hget (V.filled_nonneg (V.orderOf key)) fun source =>
    (h.channelTotal key source).2
  refine ⟨hle, ?_⟩
  rintro ⟨source, hcomplete⟩
  have htotal := h.complete hcomplete
  refine le_antisymm hle ?_
  by_cases hnil : figuresOf fills key source = []
  · -- Only an order without executions is reported completely by silence.
    obtain ⟨f, hf, hkey⟩ := exists_fill_of_get? hget
    have hsome : figuresOf fills key f.src ≠ [] := by
      intro hempty
      have hmem : f.count ∈ figuresOf fills key f.src :=
        List.mem_map_of_mem (List.mem_filter.mpr ⟨hf, by simp [hkey]⟩)
      rw [hempty] at hmem
      simp at hmem
    have hzero : V.filled (V.orderOf key) = 0 := by
      rw [← htotal, hnil]
      simp [V33.channelTotal]
    rw [hzero]
    exact (h.channelTotal key f.src).1.trans (le_truth hget hsome)
  · rw [← htotal]
    exact le_truth hget hnil

/-- The entries of one key, where there is one. -/
theorem sum_entries_key (agg : Dict String ExecAgg) (key : String) :
    ((agg.entries.filter fun e => e.1 = key).map fun e => e.2.truth).sum =
      ((agg.get? key).map ExecAgg.truth).getD 0 := by
  obtain ⟨entries, hnodup⟩ := agg
  change _ = ((assocGet key entries).map ExecAgg.truth).getD 0
  induction entries with
  | nil => rfl
  | cons e rest ih =>
    obtain ⟨k, x⟩ := e
    obtain ⟨hnew, hrest⟩ := List.nodup_cons.mp hnodup
    by_cases hk : k = key
    · subst hk
      have hnone : rest.filter (fun e => e.1 = k) = [] := by
        rw [List.filter_eq_nil_iff]
        intro e he heq
        exact hnew (List.mem_map.mpr ⟨e, he, of_decide_eq_true heq⟩)
      simp [assocGet, hnone]
    · have ih := ih hrest
      simpa [assocGet, hk] using ih

/-- An order whose fills all carry one key is returned under that key alone. -/
theorem returned_of_key {o : ι} {key : String} (hkey : V.orderOf key = o)
    (hone : ∀ f ∈ fills, V.concerns o f = true → f.key = some key) :
    V.returned fills o = (((aggregateExecFills fills).get? key).map ExecAgg.truth).getD 0 := by
  unfold returned
  rw [← sum_entries_key]
  congr 2
  refine List.filter_congr fun e he => ?_
  rw [decide_eq_decide]
  constructor
  · intro ho
    obtain ⟨f, hf, hfkey⟩ := exists_fill_of_get? (Dict.get?_eq_some.mpr he)
    have := hone f hf (by simp [concerns, hfkey, ho])
    exact Option.some.inj (hfkey.symm.trans this)
  · rintro rfl
    exact hkey

/-- The figures of an order with one key are those under the key. -/
theorem figures_of_key {o : ι} {key : String} (hkey : V.orderOf key = o)
    (hone : ∀ f ∈ fills, V.concerns o f = true → f.key = some key) (source : String) :
    V.figures fills o source = figuresOf fills key source := by
  unfold figures figuresOf
  congr 1
  refine List.filter_congr fun f hf => ?_
  rw [Bool.eq_iff_iff, Bool.and_eq_true, beq_iff_eq, decide_eq_true_iff]
  refine and_congr_left fun _ => ⟨hone f hf, ?_⟩
  intro hfkey
  simp [concerns, hfkey, hkey]

/-- The aggregate is sound. Under each key it returns at most what the order of the key filled,
and exactly that once a channel reported completely under the key; so for an order whose fills
all carry one key, whatever its channels repeat or lose. -/
theorem aggregate_sound (h : V.Faithful fills) :
    (∀ key e, (aggregateExecFills fills).get? key = some e →
      e.truth ≤ V.filled (V.orderOf key) ∧
        ((∃ source, V.Complete (V.orderOf key) source (figuresOf fills key source)) →
          e.truth = V.filled (V.orderOf key))) ∧
    ∀ o key, V.orderOf key = o → (∀ f ∈ fills, V.concerns o f = true → f.key = some key) →
      V.returned fills o ≤ V.filled o ∧
        ((∃ source, V.Complete o source (V.figures fills o source)) →
          V.returned fills o = V.filled o) := by
  refine ⟨fun key e hget => h.truth hget, ?_⟩
  rintro o key rfl hone
  rw [returned_of_key rfl hone]
  cases hget : (aggregateExecFills fills).get? key with
  | none =>
    refine ⟨V.filled_nonneg _, ?_⟩
    rintro ⟨source, hcomplete⟩
    -- Nothing is filed under the key, so silence was the complete report.
    have hnil : figuresOf fills key source = [] := by
      have htotal := sourceTotal_aggregate fills key source
      rw [sourceTotal, hget, Option.bind_none] at htotal
      by_contra hne
      rw [if_neg hne] at htotal
      cases htotal
    rw [figures_of_key rfl hone] at hcomplete
    have := h.complete hcomplete
    rw [hnil] at this
    simpa [V33.channelTotal] using this
  | some e =>
    obtain ⟨hle, hexact⟩ := h.truth hget
    refine ⟨hle, ?_⟩
    rintro ⟨source, hcomplete⟩
    exact hexact ⟨source, figures_of_key rfl hone source ▸ hcomplete⟩

end VenueOrders

/-! ### An order under two keys -/

/-- One order with its executions, whatever the key. -/
def oneOrder (lots : ℕ) : VenueOrders Unit where
  executions := fun _ => List.replicate lots 1
  positive := by
    intro o q hq
    rw [List.eq_of_mem_replicate hq]
    norm_num
  orderOf := fun _ => ()

/-- A lot reported by the fill channel, with or without the order's venue id. -/
def reportedLot (source : String) (named : Bool) : ExecFill :=
  { count := 1, coid := some "c-1", orderId := if named then some "v1" else none,
    source := source }

/-- Two lots of one order, each reported with an id of its own. -/
def splitReports (source : String) : List ExecFill :=
  [reportedLot "ws" true, reportedLot source false]

/-- Only the sources of the fills report anything. -/
theorem VenueOrders.faithful_of_sources {ι : Type*} [DecidableEq ι] {V : VenueOrders ι}
    {fills : List ExecFill}
    (h : ∀ o, ∀ source ∈ fills.map ExecFill.src,
      (source ∉ maxSources → (V.figures fills o source).Subperm (V.executions o)) ∧
        (source ∈ maxSources → ∀ q ∈ V.figures fills o source, q ≤ V.filled o)) :
    V.Faithful fills := by
  have hsilent : ∀ o source, source ∉ fills.map ExecFill.src → V.figures fills o source = [] := by
    intro o source hsource
    rw [figures, List.map_eq_nil_iff, List.filter_eq_nil_iff]
    intro f hf hboth
    obtain ⟨-, hsrc⟩ := (Bool.and_eq_true _ _).mp hboth
    exact hsource (List.mem_map.mpr ⟨f, hf, beq_iff_eq.mp hsrc⟩)
  constructor
  · intro o source hinc
    by_cases hsource : source ∈ fills.map ExecFill.src
    · exact (h o source hsource).1 hinc
    · rw [hsilent o source hsource]
      exact List.nil_subperm
  · intro o source hmax q hq
    by_cases hsource : source ∈ fills.map ExecFill.src
    · exact (h o source hsource).2 hmax q hq
    · rw [hsilent o source hsource] at hq
      simp at hq

/-- One lot reported by the fill channel and, without the venue id, by the cancel is returned
twice; two lots of the fill channel, one without the venue id, are returned whole under no key. -/
theorem aggregate_is_not_sound :
    (¬∀ (V : VenueOrders Unit) (fills : List ExecFill), V.Faithful fills → ∀ o,
      V.returned fills o ≤ V.filled o ∧
        ((∃ source, V.Complete o source (V.figures fills o source)) →
          V.returned fills o = V.filled o)) ∧
    ¬∀ (V : VenueOrders Unit) (fills : List ExecFill), V.Faithful fills → ∀ key e,
      (aggregateExecFills fills).get? key = some e →
        (∃ source, V.Complete (V.orderOf key) source (V.figures fills (V.orderOf key) source)) →
          e.truth = V.filled (V.orderOf key) := by
  constructor
  · intro h
    have hfaithful : (oneOrder 1).Faithful (splitReports "cancel_race") :=
      VenueOrders.faithful_of_sources (by rintro ⟨⟩; decide +kernel)
    exact absurd (h _ _ hfaithful ()).1 (by decide +kernel)
  · intro h
    have hfaithful : (oneOrder 2).Faithful (splitReports "ws") :=
      VenueOrders.faithful_of_sources (by rintro ⟨⟩; decide +kernel)
    obtain ⟨e, hget⟩ : ∃ e, (aggregateExecFills (splitReports "ws")).get? "oid:v1" = some e :=
      Option.isSome_iff_exists.mp (by decide +kernel)
    have hcomplete : (oneOrder 2).Complete () "ws" ((oneOrder 2).figures (splitReports "ws") ()
        "ws") := by
      unfold VenueOrders.Complete
      decide +kernel
    have htruth := h _ _ hfaithful "oid:v1" e hget ⟨"ws", hcomplete⟩
    have hone : ((aggregateExecFills (splitReports "ws")).get? "oid:v1").map ExecAgg.truth =
        some 1 := by
      decide +kernel
    rw [hget, Option.map_some, htruth] at hone
    exact absurd hone (by decide +kernel)

/-- A lot the fill channel and the cancel both report under its venue id is returned once. -/
theorem aggregate_sound_sample :
    (oneOrder 1).returned [reportedLot "ws" true, reportedLot "cancel_race" true] () = 1 := by
  have hfaithful : (oneOrder 1).Faithful [reportedLot "ws" true, reportedLot "cancel_race" true] :=
    VenueOrders.faithful_of_sources (by rintro ⟨⟩; decide +kernel)
  have hcomplete : (oneOrder 1).Complete () "ws" ((oneOrder 1).figures
      [reportedLot "ws" true, reportedLot "cancel_race" true] () "ws") := by
    unfold VenueOrders.Complete
    decide +kernel
  have hexact := ((VenueOrders.aggregate_sound hfaithful).2 () "oid:v1" rfl
    (by decide +kernel)).2 ⟨"ws", hcomplete⟩
  rw [hexact]
  decide +kernel

end Pilot.V33
