import Pilot.V32.Driver

/-!
# Steps of the venue

What a fill, a cancel, a create and an amend do to the lots filled, to the lots that can
still fill and to the orders that rest.
-/

namespace Pilot.V32

variable {v : Venue} {oid : String} {o : VenueOrder}

/-- No order rests but the given one. -/
def OnlyRests (v : Venue) (x : Option String) : Prop :=
  ∀ oid o, v.get? oid = some o → o.resting = true → x = some oid

/-- The lots filled of one order. -/
def filledOf (v : Venue) (oid : String) : ℚ := ((v.get? oid).map VenueOrder.filled).getD 0

/-- The lots of one order that can still fill. -/
def fillableOf (v : Venue) (oid : String) : ℚ := ((v.get? oid).map VenueOrder.fillable).getD 0

/-- The lots filled and those that can still fill. -/
def exposure (v : Venue) : ℚ := filledLots v + fillableLots v

/-- The counts of the venue stay on the grid, and nothing is overfilled. -/
def SoundVenue (v : Venue) : Prop :=
  ∀ oid o, v.get? oid = some o → OnGrid 100 o.filled ∧ OnGrid 100 o.remaining ∧ 0 ≤ o.remaining

/-- The filled lots after one order was replaced. -/
theorem filledLots_set (v : Venue) (oid : String) (o : VenueOrder) :
    filledLots (v.set oid o) = filledLots v - filledOf v oid + o.filled := by
  have := v.sum_map_values_set VenueOrder.filled oid o
  unfold filledLots filledOf
  linarith

/-- The fillable lots after one order was replaced. -/
theorem fillableLots_set (v : Venue) (oid : String) (o : VenueOrder) :
    fillableLots (v.set oid o) = fillableLots v - fillableOf v oid + o.fillable := by
  have := v.sum_map_values_set VenueOrder.fillable oid o
  unfold fillableLots fillableOf
  linarith

/-- The filled lots of an order that the venue knows. -/
theorem filledOf_of_get? (h : v.get? oid = some o) : filledOf v oid = o.filled := by
  simp [filledOf, h]

/-- The fillable lots of an order that the venue knows. -/
theorem fillableOf_of_get? (h : v.get? oid = some o) : fillableOf v oid = o.fillable := by
  simp [fillableOf, h]

/-- Replacing an order changes only its own filled lots. -/
theorem filledOf_set (v : Venue) (oid j : String) (o : VenueOrder) :
    filledOf (v.set oid o) j = if j = oid then o.filled else filledOf v j := by
  unfold filledOf
  rw [Dict.get?_set]
  split_ifs <;> rfl

/-- Where nothing rests nothing can fill. -/
theorem OnlyRests.fillableLots_eq_zero (h : OnlyRests v none) : fillableLots v = 0 := by
  apply List.sum_eq_zero
  intro x hx
  obtain ⟨o, ho, rfl⟩ := List.mem_map.mp hx
  obtain ⟨oid, hoid⟩ := Dict.exists_get?_of_mem_values ho
  unfold VenueOrder.fillable
  rw [if_neg]
  intro hrest
  exact absurd (h oid o hoid hrest) (by simp)

/-- At most one order rests. -/
theorem OnlyRests.length_restingIds_le {x : Option String} (h : OnlyRests v x) :
    (restingIds v).length ≤ 1 := by
  have hnodup : (restingIds v).Nodup :=
    v.nodup_keys.sublist (List.Sublist.map _ List.filter_sublist)
  have hall : ∀ oid ∈ restingIds v, x = some oid := by
    intro oid hoid
    obtain ⟨e, he, rfl⟩ := List.mem_map.mp hoid
    obtain ⟨hmem, hrest⟩ := List.mem_filter.mp he
    exact h e.1 e.2 (Dict.get?_eq_some.mpr hmem) hrest
  match hids : restingIds v with
  | [] => simp
  | [_] => simp
  | a :: b :: rest =>
    rw [hids] at hnodup hall
    have hab : some a = some b := (hall a (by simp)).symm.trans (hall b (by simp))
    simp only [Option.some.injEq] at hab
    simp [hab] at hnodup

/-- Writing one order leaves the others as they rest. -/
theorem OnlyRests.set {x y : Option String} (h : OnlyRests v x)
    (hother : ∀ j, j ≠ oid → x = some j → y = some j) (hself : o.resting = true → y = some oid) :
    OnlyRests (v.set oid o) y := by
  intro j oj hj hrest
  rw [Dict.get?_set] at hj
  split_ifs at hj with hjo
  · rw [hjo]
    exact hself (Option.some.inj hj ▸ hrest)
  · exact hother j hjo (h j oj hj hrest)

/-- A sound order keeps the venue sound. -/
theorem SoundVenue.set (h : SoundVenue v) (hfilled : OnGrid 100 o.filled)
    (hremaining : OnGrid 100 o.remaining) (hnonneg : 0 ≤ o.remaining) :
    SoundVenue (v.set oid o) := by
  intro j oj hj
  rw [Dict.get?_set] at hj
  split_ifs at hj with hjo
  · exact Option.some.inj hj ▸ ⟨hfilled, hremaining, hnonneg⟩
  · exact h j oj hj

/-- What can still fill is never negative. -/
theorem SoundVenue.fillableOf_nonneg (h : SoundVenue v) (oid : String) : 0 ≤ fillableOf v oid := by
  unfold fillableOf
  cases hget : v.get? oid with
  | none => exact le_rfl
  | some o =>
    simp only [Option.map_some, Option.getD_some, VenueOrder.fillable]
    split_ifs
    · exact (h oid o hget).2.2
    · exact le_rfl

/-! ### An order leaves -/

/-- The ways the venue's book can lose orders: nothing else changes. -/
structure Loses (v v' : Venue) : Prop where
  get? : ∀ oid, v'.get? oid = v.get? oid ∨
    ∃ o, v.get? oid = some o ∧ v'.get? oid = some { o with resting := false }
  filledLots : filledLots v' = filledLots v
  exposure : SoundVenue v → exposure v' ≤ exposure v

/-- A book may lose nothing. -/
theorem Loses.refl (v : Venue) : Loses v v := ⟨fun _ => Or.inl rfl, rfl, fun _ => le_rfl⟩

/-- Taking an order off loses that order at most. -/
theorem takeOff_loses (v : Venue) (oid : String) : Loses v (takeOff v oid) := by
  unfold takeOff
  cases hget : v.get? oid with
  | none => exact Loses.refl v
  | some o =>
    have hfilled : V32.filledLots (v.set oid { o with resting := false }) = V32.filledLots v := by
      rw [filledLots_set, filledOf_of_get? hget]
      ring
    refine ⟨fun j => ?_, hfilled, fun hv => ?_⟩
    · rw [Dict.get?_set]
      split_ifs with hj
      · exact Or.inr ⟨o, hj ▸ hget, rfl⟩
      · exact Or.inl rfl
    · have := hv.fillableOf_nonneg oid
      simp only [V32.exposure, hfilled, fillableLots_set, VenueOrder.fillable, Bool.false_eq_true,
        if_false]
      linarith

/-- Lost orders keep their filled lots. -/
theorem Loses.filledOf {v' : Venue} (h : Loses v v') (oid : String) :
    filledOf v' oid = filledOf v oid := by
  unfold V32.filledOf
  rcases h.get? oid with heq | ⟨o, ho, ho'⟩
  · rw [heq]
  · rw [ho, ho']
    rfl

/-- A book that loses orders has no new one that rests. -/
theorem Loses.onlyRests {v' : Venue} {x : Option String} (h : Loses v v') (hx : OnlyRests v x) :
    OnlyRests v' x := by
  intro oid o ho hrest
  rcases h.get? oid with heq | ⟨o', -, ho'⟩
  · exact hx oid o (heq ▸ ho) hrest
  · rw [ho', Option.some.injEq] at ho
    rw [← ho] at hrest
    exact absurd hrest (by simp)

/-- A book that loses orders stays sound. -/
theorem Loses.sound {v' : Venue} (h : Loses v v') (hv : SoundVenue v) : SoundVenue v' := by
  intro oid o ho
  rcases h.get? oid with heq | ⟨o', ho', heq⟩
  · exact hv oid o (heq ▸ ho)
  · rw [heq, Option.some.injEq] at ho
    rw [← ho]
    exact hv oid o' ho'

/-- A lost order stays known. -/
theorem Loses.isSome {v' : Venue} (h : Loses v v') (oid : String) :
    (v'.get? oid).isSome = (v.get? oid).isSome := by
  rcases h.get? oid with heq | ⟨o', ho', heq⟩
  · rw [heq]
  · rw [heq, ho']
    rfl

/-- Once the one order that may rest is taken off nothing rests. -/
theorem OnlyRests.takeOff (h : OnlyRests v (some oid)) : OnlyRests (takeOff v oid) none := by
  intro j oj hj hrest
  have hjo := (takeOff_loses v oid).onlyRests h j oj hj hrest
  rw [Option.some.injEq] at hjo
  subst hjo
  unfold V32.takeOff at hj
  cases hget : v.get? oid with
  | none =>
    rw [hget] at hj
    exact absurd (hget.symm.trans hj) (by simp)
  | some o =>
    simp only [hget, Dict.get?_set_self, Option.some.injEq] at hj
    rw [← hj] at hrest
    exact absurd hrest (by simp)

/-! ### Fills -/

/-- The resting order of an id is the known one that rests. -/
theorem restingOrder_eq_some : restingOrder v oid = some o ↔
    v.get? oid = some o ∧ o.resting = true := by
  unfold restingOrder
  rw [Option.filter_eq_some_iff]

/-- A fill moves lots from those that can fill to those filled. -/
theorem venueFill_exposure (v : Venue) (oid : String) (lots : ℚ)
    (hle : ∀ o ∈ restingOrder v oid, lots ≤ o.remaining) :
    exposure (venueFill v oid lots) = exposure v := by
  unfold venueFill
  cases ho : restingOrder v oid with
  | none => rfl
  | some o =>
    obtain ⟨hget, hrest⟩ := restingOrder_eq_some.mp ho
    have hle' := hle o ho
    have hfillable : (VenueOrder.mk o.clientOrderId (0 < o.remaining - lots) (o.remaining - lots)
        (o.filled + lots)).fillable = o.remaining - lots := by
      unfold VenueOrder.fillable
      by_cases hpos : 0 < o.remaining - lots
      · simp [hpos]
      · have : o.remaining - lots = 0 := by linarith
        simp [this]
    have hold : o.fillable = o.remaining := by simp [VenueOrder.fillable, hrest]
    simp only [exposure, filledLots_set, fillableLots_set, filledOf_of_get? hget,
      fillableOf_of_get? hget, hfillable, hold]
    ring

/-- A fill of the one order that may rest leaves the fills of the others alone. -/
theorem venueFill_others (h : OnlyRests v (some oid)) (j : String) (lots : ℚ) :
    filledLots (venueFill v j lots) - filledOf (venueFill v j lots) oid =
      filledLots v - filledOf v oid := by
  unfold venueFill
  cases ho : restingOrder v j with
  | none => rfl
  | some o =>
    obtain ⟨hget, hrest⟩ := restingOrder_eq_some.mp ho
    have hj := Option.some.inj (h j o hget hrest)
    subst hj
    simp only [filledLots_set, filledOf_set, if_true]
    ring

/-- Where nothing rests the venue cannot fill. -/
theorem venueFill_of_onlyRests_none (h : OnlyRests v none) (j : String) (lots : ℚ) :
    venueFill v j lots = v := by
  unfold venueFill
  cases ho : restingOrder v j with
  | none => rfl
  | some o =>
    obtain ⟨hget, hrest⟩ := restingOrder_eq_some.mp ho
    exact absurd (h j o hget hrest) (by simp)

/-- A fill makes no order rest. -/
theorem venueFill_onlyRests {x : Option String} (h : OnlyRests v x) (j : String) (lots : ℚ) :
    OnlyRests (venueFill v j lots) x := by
  unfold venueFill
  cases ho : restingOrder v j with
  | none => exact h
  | some o =>
    obtain ⟨hget, hrest⟩ := restingOrder_eq_some.mp ho
    exact h.set (fun _ _ hx => hx) fun _ => h j o hget hrest

/-- A fill forgets no order. -/
theorem venueFill_isSome (v : Venue) (j : String) (lots : ℚ) (h : (v.get? oid).isSome) :
    ((venueFill v j lots).get? oid).isSome := by
  unfold venueFill
  cases restingOrder v j with
  | none => exact h
  | some o =>
    rw [Dict.get?_set]
    split_ifs
    · rfl
    · exact h

/-- A fill on the grid within what remains keeps the venue sound. -/
theorem SoundVenue.venueFill (h : SoundVenue v) (j : String) {lots : ℚ}
    (hlots : ∀ o ∈ restingOrder v j, OnGrid 100 lots ∧ lots ≤ o.remaining) :
    SoundVenue (venueFill v j lots) := by
  unfold V32.venueFill
  cases ho : restingOrder v j with
  | none => exact h
  | some o =>
    obtain ⟨hget, -⟩ := restingOrder_eq_some.mp ho
    obtain ⟨hfilled, hremaining, -⟩ := h j o hget
    obtain ⟨hgrid, hle⟩ := hlots o ho
    exact h.set (hfilled.add hgrid) (hremaining.sub hgrid) (by simpa using hle)

end Pilot.V32
