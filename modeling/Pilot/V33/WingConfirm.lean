import Mathlib.Data.List.Dedup
import Pilot.Lib.FirstOfEach
import Pilot.V33.WingBatches

/-!
# What the venue confirm attributes

After a take with lost responses the executor asks the venue for the fills it has not read, leg by
leg. The first leg of a side of a market with room claims every order listed there, however many
lots its room takes. What it cannot book no other leg finds again.
-/

namespace Pilot.V33.Takes

open V1 (Json normalizeFillToSide)

/-! ### The fills of the venue -/

/-- Every fill that counts names its order, and an order is for one side of one market. -/
structure OrdersKnown (v : VenueFills) (sinceTs : ℚ) : Prop where
  named : ∀ {ticker : String} {side : Side} {fill : Json} {lots : ℚ}, fill ∈ v.listed ticker →
    fillLots v ticker side sinceTs fill = some lots → ∃ order, fillOrder fill = some order
  oneSided : ∀ {ticker ticker' : String} {side side' : Side} {fill fill' : Json} {lots lots' : ℚ},
    fill ∈ v.listed ticker → fill' ∈ v.listed ticker' →
    fillLots v ticker side sinceTs fill = some lots →
    fillLots v ticker' side' sinceTs fill' = some lots' → fillOrder fill = fillOrder fill' →
    ticker = ticker' ∧ side = side'

/-- A fill that counts and whose order is not attributed. -/
def freshFill (v : VenueFills) (ticker : String) (side : Side) (sinceTs : ℚ) (ids : List String)
    (fill : Json) : Option (Option String × ℚ) :=
  if (fillOrder fill).any (· ∈ ids) then none
  else (fillLots v ticker side sinceTs fill).map fun lots => (fillOrder fill, lots)

/-- The fills among those listed whose orders are not attributed. -/
def freshAmong (v : VenueFills) (ticker : String) (side : Side) (sinceTs : ℚ) (ids : List String)
    (fills : List Json) : List (Option String × ℚ) :=
  fills.filterMap (freshFill v ticker side sinceTs ids)

/-- The fills of a side of a market whose orders are not attributed. -/
def freshFills (v : VenueFills) (ids : List String) (ticker : String) (side : Side)
    (sinceTs : ℚ) : List (Option String × ℚ) :=
  freshAmong v ticker side sinceTs ids (v.listed ticker)

/-- The lots of the venue fills not yet attributed. -/
def unattributed (v : VenueFills) (ids : List String) (ticker : String) (side : Side)
    (sinceTs : ℚ) : ℚ :=
  ((freshFills v ids ticker side sinceTs).map Prod.snd).sum

variable {v : VenueFills} {ticker : String} {side : Side} {sinceTs now : ℚ}

/-- A fill is fresh when its order is not yet known and it has lots for the leg. -/
theorem freshFill_eq_some {ids : List String} {fill : Json} {e : Option String × ℚ} :
    freshFill v ticker side sinceTs ids fill = some e ↔
      ¬(fillOrder fill).any (· ∈ ids) ∧ fillOrder fill = e.1 ∧
        fillLots v ticker side sinceTs fill = some e.2 := by
  unfold freshFill
  constructor
  · intro h
    split at h
    · simp at h
    · rename_i hany
      obtain ⟨lots, hlots, rfl⟩ := Option.map_eq_some_iff.mp h
      exact ⟨hany, rfl, hlots⟩
  · rintro ⟨hany, horder, hlots⟩
    rw [if_neg hany, hlots, Option.map_some, horder]

/-- The fresh fills are those of the listing. -/
theorem mem_freshFills {ids : List String} {e : Option String × ℚ} :
    e ∈ freshFills v ids ticker side sinceTs ↔
      ∃ fill ∈ v.listed ticker, freshFill v ticker side sinceTs ids fill = some e :=
  List.mem_filterMap

/-- A fill that counts has lots. -/
theorem fillLots_pos {fill : Json} {lots : ℚ}
    (h : fillLots v ticker side sinceTs fill = some lots) :
    0 < lots := by
  unfold fillLots at h
  split at h
  · simpa using (Option.filter_eq_some_iff.mp h).2
  · simp at h

/-- Fresh fills have lots. -/
theorem freshFills_pos {ids : List String} {e : Option String × ℚ}
    (h : e ∈ freshFills v ids ticker side sinceTs) : 0 < e.2 := by
  obtain ⟨fill, -, hfill⟩ := mem_freshFills.mp h
  exact fillLots_pos (freshFill_eq_some.mp hfill).2.2

/-- Attributing one more order leaves out its fills. -/
theorem freshAmong_cons (order : String) (ids : List String) (fills : List Json) :
    freshAmong v ticker side sinceTs (order :: ids) fills =
      (freshAmong v ticker side sinceTs ids fills).filter fun e => e.1 ≠ some order := by
  unfold freshAmong
  rw [List.filter_filterMap]
  congr 1
  funext fill
  apply Option.ext
  intro e
  rw [freshFill_eq_some, Option.filter_eq_some_iff, freshFill_eq_some]
  cases horder : fillOrder fill with
  | none =>
    simp only [Option.any_none, decide_eq_true_eq]
    constructor
    · rintro ⟨hany, he, hlots⟩
      exact ⟨⟨hany, he, hlots⟩, by rw [← he]; simp⟩
    · rintro ⟨h, -⟩
      exact h
  | some o =>
    simp only [Option.any_some, decide_eq_true_eq, List.mem_cons, not_or]
    constructor
    · rintro ⟨⟨hne, hnot⟩, he, hlots⟩
      exact ⟨⟨hnot, he, hlots⟩, by rw [← he]; simpa using hne⟩
    · rintro ⟨⟨hnot, he, hlots⟩, hne⟩
      exact ⟨⟨by rw [← he] at hne; simpa using hne, hnot⟩, he, hlots⟩

/-- One read counts the first fill of each order not attributed, and attributes their orders. -/
theorem foldl_countFill {fills : List Json}
    (hnamed : ∀ fill ∈ fills, ∀ lots, fillLots v ticker side sinceTs fill = some lots →
      ∃ order, fillOrder fill = some order) (acc : ℚ × List String) :
    (fills.foldl (countFill v ticker side sinceTs) acc).1 =
        acc.1 + ((firstOfEach (freshAmong v ticker side sinceTs acc.2 fills)).map Prod.snd).sum ∧
      ∀ o, o ∈ (fills.foldl (countFill v ticker side sinceTs) acc).2 ↔
        o ∈ acc.2 ∨ some o ∈ (freshAmong v ticker side sinceTs acc.2 fills).map Prod.fst := by
  induction fills generalizing acc with
  | nil => simp [freshAmong, firstOfEach]
  | cons fill rest ih =>
    have hrest := ih fun f hf => hnamed f (List.mem_cons_of_mem fill hf)
    rw [List.foldl_cons]
    by_cases hold : (fillOrder fill).any (· ∈ acc.2)
    · have hsame : countFill v ticker side sinceTs acc fill = acc := if_pos hold
      have hfresh : freshAmong v ticker side sinceTs acc.2 (fill :: rest) =
          freshAmong v ticker side sinceTs acc.2 rest := by
        unfold freshAmong
        rw [List.filterMap_cons, freshFill, if_pos hold]
      rw [hsame, hfresh]
      exact hrest acc
    · cases hlots : fillLots v ticker side sinceTs fill with
      | none =>
        have hsame : countFill v ticker side sinceTs acc fill = acc := by
          unfold countFill
          rw [if_neg hold, hlots]
        have hfresh : freshAmong v ticker side sinceTs acc.2 (fill :: rest) =
            freshAmong v ticker side sinceTs acc.2 rest := by
          unfold freshAmong
          rw [List.filterMap_cons, freshFill, if_neg hold, hlots, Option.map_none]
        rw [hsame, hfresh]
        exact hrest acc
      | some lots =>
        obtain ⟨order, horder⟩ := hnamed fill (List.mem_cons_self ..) lots hlots
        have hcount : countFill v ticker side sinceTs acc fill =
            (acc.1 + lots, order :: acc.2) := by
          unfold countFill
          rw [if_neg hold, hlots, horder]
          rfl
        have hfresh : freshAmong v ticker side sinceTs acc.2 (fill :: rest) =
            (some order, lots) :: freshAmong v ticker side sinceTs acc.2 rest := by
          unfold freshAmong
          rw [List.filterMap_cons, freshFill, if_neg hold, hlots, Option.map_some, horder]
        obtain ⟨htotal, hids⟩ := hrest (acc.1 + lots, order :: acc.2)
        rw [hcount, hfresh]
        constructor
        · rw [htotal, freshAmong_cons,
            firstOfEach_filter (fun k => decide (k ≠ some order)), firstOfEach, List.map_cons,
            List.sum_cons]
          ring
        · intro o
          rw [hids o, freshAmong_cons, List.map_cons, List.mem_cons, List.mem_cons,
            Option.some_inj]
          simp only [List.mem_map, List.mem_filter, decide_eq_true_eq]
          constructor
          · rintro ((h | h) | ⟨e, ⟨hmem, -⟩, he⟩)
            · exact Or.inr (Or.inl h)
            · exact Or.inl h
            · exact Or.inr (Or.inr ⟨e, hmem, he⟩)
          · rintro (h | h | ⟨e, hmem, he⟩)
            · exact Or.inl (Or.inr h)
            · exact Or.inl (Or.inl h)
            · by_cases ho : o = order
              · exact Or.inl (Or.inl ho)
              · exact Or.inr ⟨e, ⟨hmem, by rw [he]; simpa using ho⟩, he⟩

variable (ticker side) in
/-- What one read finds. -/
theorem venueWingFills_eq (hknown : OrdersKnown v sinceTs) (ids : List String) :
    (venueWingFills v ids ticker side sinceTs).1 =
        ((firstOfEach (freshFills v ids ticker side sinceTs)).map Prod.snd).sum ∧
      ∀ o, o ∈ (venueWingFills v ids ticker side sinceTs).2 ↔
        o ∈ ids ∨ some o ∈ (freshFills v ids ticker side sinceTs).map Prod.fst := by
  have hrun := @foldl_countFill v ticker side sinceTs (v.listed ticker)
    (fun fill hmem lots hlots => hknown.named hmem hlots) (0, ids)
  rw [zero_add] at hrun
  exact hrun

/-- The venue never reports a negative count. -/
theorem venueWingFills_nonneg (hknown : OrdersKnown v sinceTs) (ids : List String) :
    0 ≤ (venueWingFills v ids ticker side sinceTs).1 := by
  rw [(venueWingFills_eq ticker side hknown ids).1]
  apply List.sum_nonneg
  intro lots hlots
  obtain ⟨e, he, rfl⟩ := List.mem_map.mp hlots
  exact (freshFills_pos (mem_firstOfEach he)).le

variable (ticker side) in
/-- A read leaves nothing fresh on its side of its market. -/
theorem freshFills_read (hknown : OrdersKnown v sinceTs) (ids : List String) :
    freshFills v (venueWingFills v ids ticker side sinceTs).2 ticker side sinceTs = [] := by
  rw [List.eq_nil_iff_forall_not_mem]
  intro e he
  obtain ⟨fill, hmem, hfill⟩ := mem_freshFills.mp he
  obtain ⟨hany, horder, hlots⟩ := freshFill_eq_some.mp hfill
  obtain ⟨order, hsome⟩ := hknown.named hmem hlots
  have hnew : order ∉ (venueWingFills v ids ticker side sinceTs).2 := by
    intro hin
    exact hany (by rw [hsome]; simpa using hin)
  rw [(venueWingFills_eq ticker side hknown ids).2 order, not_or] at hnew
  apply hnew.2
  rw [← hsome]
  refine List.mem_map.mpr ⟨(fillOrder fill, e.2), ?_, rfl⟩
  refine mem_freshFills.mpr ⟨fill, hmem, freshFill_eq_some.mpr ⟨?_, rfl, hlots⟩⟩
  rw [hsome]
  simpa using hnew.1

/-- A read leaves the other sides and markets as they are. -/
theorem freshFills_read_other (hknown : OrdersKnown v sinceTs) (ids : List String)
    {ticker' : String} {side' : Side} (hother : ¬(ticker' = ticker ∧ side' = side)) :
    freshFills v (venueWingFills v ids ticker' side' sinceTs).2 ticker side sinceTs =
      freshFills v ids ticker side sinceTs := by
  unfold freshFills freshAmong
  apply List.filterMap_congr
  intro fill hmem
  apply Option.ext
  intro e
  rw [freshFill_eq_some, freshFill_eq_some]
  apply and_congr_left
  rintro ⟨-, hlots⟩
  obtain ⟨order, hsome⟩ := hknown.named hmem hlots
  rw [hsome, Option.any_some, Option.any_some, decide_eq_true_eq, decide_eq_true_eq,
    (venueWingFills_eq ticker' side' hknown ids).2 order, not_or, and_iff_left_iff_imp]
  rintro - hin
  obtain ⟨f, hf, hfo⟩ := List.mem_map.mp hin
  obtain ⟨fill', hmem', hfill'⟩ := mem_freshFills.mp hf
  obtain ⟨-, horder', hlots'⟩ := freshFill_eq_some.mp hfill'
  apply hother
  exact hknown.oneSided hmem' hmem hlots' hlots (by rw [horder', hfo, hsome])

/-! ### One leg after the other -/

variable {x : WingExecutor} {b : Booking}

/-- The lots the confirm books on a leg. -/
def confirmed (x : WingExecutor) (v : VenueFills) (sinceTs : ℚ) (b : Booking) (leg : WingLeg) :
    ℚ :=
  if room x b leg ≤ 0 then 0
  else min (venueWingFills v b.orderIds leg.ticker leg.side sinceTs).1 (room x b leg)

/-- What is confirmed is never negative. -/
theorem confirmed_nonneg (hknown : OrdersKnown v sinceTs) (leg : WingLeg) :
    0 ≤ confirmed x v sinceTs b leg := by
  unfold confirmed
  split
  · exact le_rfl
  · exact le_min (venueWingFills_nonneg hknown _) (by linarith)

/-- No more is confirmed than there is room for. -/
theorem confirmed_le (leg : WingLeg) :
    confirmed x v sinceTs b leg ≤ max 0 (room x b leg) := by
  unfold confirmed
  split
  · exact le_max_left ..
  · exact (min_le_right ..).trans (le_max_right ..)

/-- A confirmed leg raises its own count, and no other. -/
theorem confirmLeg_count (hknown : OrdersKnown v sinceTs) (leg : WingLeg) :
    (confirmLeg x v sinceTs now b leg).count =
      Function.update b.count (legKey leg)
        (b.count (legKey leg) + confirmed x v sinceTs b leg) := by
  have hnonneg := confirmed_nonneg hknown leg (x := x) (b := b)
  unfold confirmLeg confirmed at *
  by_cases hroom : room x b leg ≤ 0
  · rw [if_pos hroom, if_pos hroom, add_zero, Function.update_eq_self]
  · rw [if_neg hroom] at hnonneg
    rw [if_neg hroom, if_neg hroom]
    simp only []
    split
    · rfl
    · rename_i hextra
      have hzero : min (venueWingFills v b.orderIds leg.ticker leg.side sinceTs).1
          (room x b leg) = 0 := le_antisymm (not_lt.mp hextra) hnonneg
      rw [hzero, add_zero, Function.update_eq_self]

/-- A leg with room notes the orders it confirmed. -/
theorem confirmLeg_orderIds (leg : WingLeg) :
    (confirmLeg x v sinceTs now b leg).orderIds =
      if room x b leg ≤ 0 then b.orderIds
      else (venueWingFills v b.orderIds leg.ticker leg.side sinceTs).2 := by
  unfold confirmLeg
  split
  · rfl
  · simp only []
    split <;> rfl

/-- The confirm of a leg leaves the other legs as they are. -/
theorem confirmLeg_other (hknown : OrdersKnown v sinceTs) {leg : WingLeg} {key : LegKey}
    (hkey : key ≠ legKey leg) : (confirmLeg x v sinceTs now b leg).count key = b.count key := by
  rw [confirmLeg_count hknown, Function.update_of_ne hkey]

/-- The legs of other keys are left alone. -/
theorem confirmLegs_other (hknown : OrdersKnown v sinceTs) {legs : List WingLeg} {key : LegKey}
    (hkey : key ∉ legs.map legKey) : (confirmLegs x v sinceTs now legs b).count key =
      b.count key := by
  induction legs generalizing b with
  | nil => rfl
  | cons leg rest ih =>
    rw [List.map_cons, List.mem_cons, not_or] at hkey
    unfold confirmLegs at ih ⊢
    rw [List.foldl_cons, ih hkey.2, confirmLeg_other hknown hkey.1]

/-- The first leg of a run is booked once. -/
theorem confirmLegs_head (hknown : OrdersKnown v sinceTs) {leg : WingLeg} {rest : List WingLeg}
    (hkeys : ((leg :: rest).map legKey).Nodup) :
    (confirmLegs x v sinceTs now (leg :: rest) b).count (legKey leg) =
      b.count (legKey leg) + confirmed x v sinceTs b leg := by
  rw [List.map_cons, List.nodup_cons] at hkeys
  have hrest : (confirmLegs x v sinceTs now (leg :: rest) b).count (legKey leg) =
      (confirmLeg x v sinceTs now b leg).count (legKey leg) :=
    confirmLegs_other hknown hkeys.1
  rw [hrest, confirmLeg_count hknown, Function.update_self]

/-- The confirm of a leg leaves the room of the other legs as it is. -/
theorem room_confirmLeg (hknown : OrdersKnown v sinceTs) {leg other : WingLeg}
    (hkey : legKey other ≠ legKey leg) :
    room x (confirmLeg x v sinceTs now b leg) other = room x b other := by
  unfold room
  rw [confirmLeg_other hknown hkey]

/-- A leg is booked up to its room. -/
theorem confirmLegs_le (hknown : OrdersKnown v sinceTs) {legs : List WingLeg}
    (hkeys : (legs.map legKey).Nodup) {leg : WingLeg} (hleg : leg ∈ legs) :
    b.count (legKey leg) ≤ (confirmLegs x v sinceTs now legs b).count (legKey leg) ∧
      (confirmLegs x v sinceTs now legs b).count (legKey leg) ≤
        b.count (legKey leg) + max 0 (room x b leg) := by
  induction legs generalizing b with
  | nil => simp at hleg
  | cons first rest ih =>
    rcases List.mem_cons.mp hleg with rfl | hin
    · rw [confirmLegs_head hknown hkeys]
      constructor
      · have hnonneg : 0 ≤ confirmed x v sinceTs b leg := confirmed_nonneg hknown leg
        linarith
      · have hle : confirmed x v sinceTs b leg ≤ max 0 (room x b leg) := confirmed_le leg
        linarith
    · rw [List.map_cons, List.nodup_cons] at hkeys
      have hne : legKey leg ≠ legKey first := by
        intro heq
        exact hkeys.1 (heq ▸ List.mem_map_of_mem hin)
      have hrest := ih hkeys.2 hin (b := confirmLeg x v sinceTs now b first)
      rw [confirmLeg_other hknown hne, room_confirmLeg hknown hne] at hrest
      exact hrest

/-- The legs of a side of a market with room. -/
def roomy (x : WingExecutor) (b : Booking) (legs : List WingLeg) (ticker : String)
    (side : Side) : List WingLeg :=
  legs.filter fun leg => leg.ticker = ticker ∧ leg.side = side ∧ 0 < room x b leg

/-- The lots booked on the legs of a side of a market from one booking to a later one. -/
def attributed (before after : Booking) (legs : List WingLeg) (ticker : String) (side : Side) :
    ℚ :=
  ((legs.filter fun leg => leg.ticker = ticker ∧ leg.side = side).map fun leg =>
    after.count (legKey leg) - before.count (legKey leg)).sum

/-- A roomy leg has room. -/
theorem room_pos_of_mem_roomy {legs : List WingLeg} {leg : WingLeg}
    (h : leg ∈ roomy x b legs ticker side) : 0 < room x b leg := by
  have hleg := (List.mem_filter.mp h).2
  rw [decide_eq_true_eq] at hleg
  exact hleg.2.2

/-- The room of the first roomy leg is never negative. -/
theorem firstRoom_nonneg (legs : List WingLeg) :
    0 ≤ ((roomy x b legs ticker side).map (room x b)).headD 0 := by
  cases h : roomy x b legs ticker side with
  | nil => exact le_rfl
  | cons leg rest => exact (room_pos_of_mem_roomy (h ▸ List.mem_cons_self ..)).le

/-- The first leg with room is booked what a read counts, the others nothing. -/
theorem attributed_confirmLegs (hknown : OrdersKnown v sinceTs) {legs : List WingLeg}
    (hkeys : (legs.map legKey).Nodup) :
    attributed b (confirmLegs x v sinceTs now legs b) legs ticker side =
      min ((firstOfEach (freshFills v b.orderIds ticker side sinceTs)).map Prod.snd).sum
        (((roomy x b legs ticker side).map (room x b)).headD 0) := by
  induction legs generalizing b with
  | nil =>
    have hnonneg := (venueWingFills_eq ticker side hknown b.orderIds).1 ▸
      venueWingFills_nonneg hknown b.orderIds
    simp [attributed, roomy, hnonneg]
  | cons leg rest ih =>
    have hhead : (confirmLegs x v sinceTs now (leg :: rest) b).count (legKey leg) =
        b.count (legKey leg) + confirmed x v sinceTs b leg := confirmLegs_head hknown hkeys
    rw [List.map_cons, List.nodup_cons] at hkeys
    have hne : ∀ other ∈ rest, legKey other ≠ legKey leg := by
      intro other hin heq
      exact hkeys.1 (heq ▸ List.mem_map_of_mem hin)
    have hrest := ih hkeys.2 (b := confirmLeg x v sinceTs now b leg)
    have hroomy : roomy x (confirmLeg x v sinceTs now b leg) rest ticker side =
        roomy x b rest ticker side := by
      unfold roomy
      apply List.filter_congr
      intro other hin
      rw [room_confirmLeg hknown (hne other hin)]
    have hrooms : (roomy x b rest ticker side).map (room x (confirmLeg x v sinceTs now b leg)) =
        (roomy x b rest ticker side).map (room x b) := by
      apply List.map_congr_left
      intro other hin
      exact room_confirmLeg hknown (hne other (List.mem_filter.mp hin).1)
    have hsum : attributed b (confirmLegs x v sinceTs now (leg :: rest) b) rest ticker side =
        attributed (confirmLeg x v sinceTs now b leg)
          (confirmLegs x v sinceTs now rest (confirmLeg x v sinceTs now b leg)) rest ticker
          side := by
      unfold attributed
      congr 1
      apply List.map_congr_left
      intro other hin
      rw [confirmLeg_other hknown (hne other (List.mem_filter.mp hin).1)]
      rfl
    rw [hroomy, hrooms] at hrest
    by_cases hon : leg.ticker = ticker ∧ leg.side = side
    · have hcons : attributed b (confirmLegs x v sinceTs now (leg :: rest) b) (leg :: rest)
          ticker side = confirmed x v sinceTs b leg +
            attributed b (confirmLegs x v sinceTs now (leg :: rest) b) rest ticker side := by
        unfold attributed
        rw [List.filter_cons_of_pos (by simpa using hon), List.map_cons, List.sum_cons, hhead]
        ring
      rw [hcons, hsum, hrest, confirmLeg_orderIds]
      by_cases hroom : room x b leg ≤ 0
      · have hnot : roomy x b (leg :: rest) ticker side = roomy x b rest ticker side := by
          apply List.filter_cons_of_neg
          simpa [hon] using hroom
        rw [if_pos hroom, hnot, confirmed, if_pos hroom, zero_add]
      · have hfirst : roomy x b (leg :: rest) ticker side =
            leg :: roomy x b rest ticker side := by
          apply List.filter_cons_of_pos
          simpa [hon] using hroom
        have hread := freshFills_read ticker side hknown b.orderIds
        obtain ⟨rfl, rfl⟩ := hon
        rw [if_neg hroom, hread, hfirst, confirmed, if_neg hroom,
          (venueWingFills_eq _ _ hknown b.orderIds).1, List.map_cons, List.headD_cons]
        simp only [firstOfEach, List.map_nil, List.sum_nil]
        rw [min_eq_left (firstRoom_nonneg rest), add_zero]
    · have hnot : roomy x b (leg :: rest) ticker side = roomy x b rest ticker side := by
        apply List.filter_cons_of_neg
        rw [decide_eq_true_eq]
        exact fun h => hon ⟨h.1, h.2.1⟩
      have hskip : attributed b (confirmLegs x v sinceTs now (leg :: rest) b) (leg :: rest)
          ticker side =
            attributed b (confirmLegs x v sinceTs now (leg :: rest) b) rest ticker side := by
        unfold attributed
        rw [List.filter_cons_of_neg (by simpa using hon)]
      rw [hskip, hsum, hrest, hnot, confirmLeg_orderIds]
      split
      · rfl
      · rw [freshFills_read_other hknown b.orderIds hon]

/-! ### When the first leg serves them all -/

/-- The rooms of the legs of a side of a market, and the whole of the fills there, against the
part of them one read counts. -/
theorem min_first_eq_iff {rooms : List ℚ} (hrooms : ∀ r ∈ rooms, 0 < r) {once whole : ℚ}
    (honce : 0 ≤ once) (hle : once ≤ whole) :
    min once (rooms.headD 0) = min whole rooms.sum ↔
      (once = whole ∧ whole ≤ rooms.headD 0) ∨ (rooms.length ≤ 1 ∧ rooms.sum ≤ once) := by
  cases rooms with
  | nil =>
    have hwhole := honce.trans hle
    simp [honce, hwhole]
  | cons r rest =>
    have hrest : ∀ q ∈ rest, 0 < q := fun q hq => hrooms q (List.mem_cons_of_mem r hq)
    have hr : 0 < r := hrooms r (List.mem_cons_self ..)
    rw [List.headD_cons, List.sum_cons, List.length_cons]
    cases rest with
    | nil =>
      simp only [List.sum_nil, add_zero, List.length_nil, zero_add, le_refl, true_and]
      constructor
      · intro heq
        rcases le_total r once with h | h
        · exact Or.inr h
        · rw [min_eq_left h] at heq
          rcases le_total whole r with hw | hw
          · rw [min_eq_left hw] at heq
            exact Or.inl ⟨heq, hw⟩
          · rw [min_eq_right hw] at heq
            exact Or.inr heq.ge
      · rintro (⟨rfl, -⟩ | h)
        · rfl
        · rw [min_eq_right h, min_eq_right (h.trans hle)]
    | cons q more =>
      have hsum : 0 < (q :: more).sum := List.sum_pos _ hrest (List.cons_ne_nil q more)
      constructor
      · intro heq
        left
        have hwhole : whole ≤ r + (q :: more).sum := by
          by_contra hlt
          rw [min_eq_right (not_le.mp hlt).le] at heq
          linarith [min_le_right once r]
        rw [min_eq_left hwhole] at heq
        have hone : once = whole := le_antisymm hle (heq ▸ min_le_left ..)
        exact ⟨hone, heq ▸ min_le_right ..⟩
      · rintro (⟨rfl, hw⟩ | ⟨hlen, -⟩)
        · rw [min_eq_left hw, min_eq_left (by linarith)]
        · simp at hlen

/-! ### The chunks of a leg -/

/-- The chunks of a leg are owned by it. -/
theorem owner_of_mem_legChunks {seq : ℕ} {leg : WingLeg} {chunk : WingChunk}
    (h : chunk ∈ legChunks x seq leg) : chunk.owner = legKey leg := by
  unfold legChunks at h
  split at h
  · simp at h
  · split at h
    · simp at h
    · obtain ⟨i, hi, rfl⟩ := List.mem_mapIdx.mp h
      rfl

/-- The lots of a chunk that may fill: none if it was cut beyond the count. -/
def WingChunk.lots (chunk : WingChunk) : ℚ := max 0 chunk.count

/-- What is sent for a leg is no more than remains of it. -/
theorem sum_legChunks_le {seq : ℕ} {leg : WingLeg} (hleg : 0 ≤ remaining x leg) :
    ((legChunks x seq leg).map WingChunk.lots).sum ≤ remaining x leg := by
  by_cases hsent : (x.exchByTicker.get? leg.ticker).isSome ∧ 0 < remaining x leg
  · have hlots : (legChunks x seq leg).map WingChunk.lots =
        (chunkCounts x.wingCap (remaining x leg)).map (max 0) := by
      rw [← map_count_legChunks hsent.1 hsent.2 seq, List.map_map]
      rfl
    rw [hlots]
    exact (sum_max_firstChunks x.wingCap hleg _).trans_le (min_le_right _ _)
  · have hnone : legChunks x seq leg = [] := by
      unfold legChunks
      split
      · rfl
      · next exch hexch =>
        rw [if_pos]
        by_contra hpos
        exact hsent ⟨by rw [hexch]; rfl, not_le.mp hpos⟩
    simpa [hnone] using hleg

/-- What is sent for a leg of a take is no more than remains of it. -/
theorem sum_wingChunks_le {pending : List WingLeg} (hkeys : (pending.map legKey).Nodup)
    {leg : WingLeg} (hmem : leg ∈ pending) (hleg : 0 ≤ remaining x leg) (seq : ℕ) :
    (((wingChunks x seq pending).filter fun c => c.owner = legKey leg).map
      WingChunk.lots).sum ≤ remaining x leg := by
  have hnone : ∀ (legs : List WingLeg) (seq : ℕ), legKey leg ∉ legs.map legKey →
      (wingChunks x seq legs).filter (fun c => c.owner = legKey leg) = [] := by
    intro legs
    induction legs with
    | nil =>
      intro seq _
      rfl
    | cons first rest ih =>
      intro seq hnot
      rw [List.map_cons, List.mem_cons, not_or] at hnot
      rw [wingChunks, List.filter_append, ih _ hnot.2, List.append_nil, List.filter_eq_nil_iff]
      intro chunk hchunk
      rw [owner_of_mem_legChunks hchunk, decide_eq_true_eq]
      exact fun heq => hnot.1 heq.symm
  induction pending generalizing seq with
  | nil => simp at hmem
  | cons first rest ih =>
    rw [List.map_cons, List.nodup_cons] at hkeys
    rw [wingChunks, List.filter_append]
    rcases List.mem_cons.mp hmem with rfl | hin
    · have hall : (legChunks x seq leg).filter (fun c => c.owner = legKey leg) =
          legChunks x seq leg := by
        apply List.filter_eq_self.mpr
        intro chunk hchunk
        simpa using owner_of_mem_legChunks hchunk
      rw [hnone rest _ hkeys.1, List.append_nil, hall]
      exact sum_legChunks_le hleg
    · have hfirst : (legChunks x seq first).filter (fun c => c.owner = legKey leg) = [] := by
        rw [List.filter_eq_nil_iff]
        intro chunk hchunk
        rw [owner_of_mem_legChunks hchunk, decide_eq_true_eq]
        intro heq
        exact hkeys.1 (heq ▸ List.mem_map_of_mem hin)
      rw [hfirst, List.nil_append]
      exact ih hkeys.2 hin _

/-! ### The take as a whole -/

/-- The booking a take ends with. -/
def takeBooking (x : WingExecutor) (v : VenueFills) (pending : List WingLeg)
    (chunks : List WingChunk) (o : Outcomes) (sinceTs now : ℚ) : Booking :=
  confirmLegs x v sinceTs now (unknownLegs pending chunks o) (readOutcomes x pending chunks o now)

/-- A leg found under a key is pending and has that key. -/
theorem legKey_of_legByKey {pending : List WingLeg} {key : LegKey} {leg : WingLeg}
    (h : legByKey pending key = some leg) : leg ∈ pending ∧ legKey leg = key := by
  have hmem := List.mem_of_find?_eq_some h
  have hkey := List.find?_some h
  exact ⟨List.mem_reverse.mp hmem, by simpa using hkey⟩

/-- No unknown leg is listed twice. -/
theorem nodup_unknownLegs (pending : List WingLeg) (chunks : List WingChunk) (o : Outcomes) :
    ((unknownLegs pending chunks o).map legKey).Nodup := by
  unfold unknownLegs
  set keys := ((chunks.filter (outcomeUnknown o)).map WingChunk.owner).dedup.insertionSort
    (fun a b => keyLe a b) with hkeys
  have hnodup : keys.Nodup := (List.perm_insertionSort _ _).nodup_iff.mpr (List.nodup_dedup _)
  refine List.Nodup.sublist ?_ hnodup
  clear hkeys hnodup
  induction keys with
  | nil => exact List.Sublist.refl _
  | cons key rest ih =>
    rw [List.filterMap_cons]
    cases h : legByKey pending key with
    | none => exact ih.cons key
    | some leg =>
      rw [List.map_cons, (legKey_of_legByKey h).2]
      exact ih.cons_cons key

/-- An unknown leg is pending. -/
theorem mem_pending_of_unknown {pending : List WingLeg} {chunks : List WingChunk} {o : Outcomes}
    {leg : WingLeg} (h : leg ∈ unknownLegs pending chunks o) : leg ∈ pending := by
  obtain ⟨key, -, hkey⟩ := List.mem_filterMap.mp h
  exact (legKey_of_legByKey hkey).1

/-- A leg is credited with what the take booked on it. -/
theorem wingFilled_foldl_bookLeg {pending : List WingLeg} (hkeys : (pending.map legKey).Nodup)
    {leg : WingLeg} (hleg : leg ∈ pending) (acc : WingExecutor × List Event) :
    (pending.foldl (bookLeg b now) acc).1.wingFilled (legKey leg) =
      acc.1.wingFilled (legKey leg) + b.count (legKey leg) := by
  have hother : ∀ (legs : List WingLeg) (acc : WingExecutor × List Event),
      legKey leg ∉ legs.map legKey → (legs.foldl (bookLeg b now) acc).1.wingFilled (legKey leg) =
        acc.1.wingFilled (legKey leg) := by
    intro legs
    induction legs with
    | nil =>
      intro acc _
      rfl
    | cons first rest ih =>
      intro acc hnot
      rw [List.map_cons, List.mem_cons, not_or] at hnot
      rw [List.foldl_cons, ih _ hnot.2]
      exact Function.update_of_ne hnot.1 _ _
  induction pending generalizing acc with
  | nil => simp at hleg
  | cons first rest ih =>
    rw [List.map_cons, List.nodup_cons] at hkeys
    rw [List.foldl_cons]
    rcases List.mem_cons.mp hleg with rfl | hin
    · rw [hother rest _ hkeys.1]
      exact Function.update_self ..
    · have hne : legKey leg ≠ legKey first := by
        intro heq
        exact hkeys.1 (heq ▸ List.mem_map_of_mem hin)
      rw [ih hkeys.2 hin]
      congr 1
      exact Function.update_of_ne hne _ _

/-- What a settled take has filled of a leg. -/
theorem settleTake_wingFilled {pending : List WingLeg} (hkeys : (pending.map legKey).Nodup)
    {chunks : List WingChunk} {o : Outcomes} {leg : WingLeg} (hleg : leg ∈ pending) :
    (settleTake x v pending chunks o sinceTs now).1.wingFilled (legKey leg) =
      x.wingFilled (legKey leg) +
        (takeBooking x v pending chunks o sinceTs now).count (legKey leg) :=
  wingFilled_foldl_bookLeg hkeys hleg _

/-- Normalizing a price keeps the count. -/
theorem normalizeFillToSide_fillCount (r : V1.OrderResponse) (side : Side) :
    (normalizeFillToSide r side).fillCount = r.fillCount := by
  unfold normalizeFillToSide
  split <;> rfl

/-- The results that were read book no more on a leg than was sent for it. -/
theorem count_foldl_bookChunk {pending : List WingLeg} {chunks : List WingChunk} {o : Outcomes}
    (hreplies : ∀ chunk ∈ chunks, ∀ r, readFill o chunk = some r → r.fillCount ≤ chunk.count)
    (key : LegKey) (b : Booking) :
    (chunks.foldl (bookChunk pending o now) b).count key ≤
      b.count key + ((chunks.filter fun c => c.owner = key).map WingChunk.lots).sum := by
  induction chunks generalizing b with
  | nil => simp
  | cons chunk rest ih =>
    have hrest := ih (fun c hc => hreplies c (List.mem_cons_of_mem chunk hc))
      (bookChunk pending o now b chunk)
    have hchunk : 0 ≤ chunk.lots := le_max_left _ _
    have hbook : (bookChunk pending o now b chunk).count key ≤
        b.count key + if chunk.owner = key then chunk.lots else 0 := by
      unfold bookChunk
      split
      · rename_i r leg hread _
        have hfill : r.fillCount ≤ chunk.lots :=
          (hreplies chunk (List.mem_cons_self ..) r hread).trans (le_max_right _ _)
        simp only [Booking.add_count, normalizeFillToSide_fillCount]
        by_cases hkey : chunk.owner = key
        · subst hkey
          rw [Function.update_self, if_pos rfl]
          linarith
        · rw [Function.update_of_ne fun h => hkey h.symm, if_neg hkey, add_zero]
      · split <;> linarith
    rw [List.foldl_cons]
    by_cases hkey : chunk.owner = key
    · rw [if_pos hkey] at hbook
      rw [List.filter_cons_of_pos (by simpa using hkey), List.map_cons, List.sum_cons]
      linarith
    · rw [if_neg hkey, add_zero] at hbook
      rw [List.filter_cons_of_neg (by simpa using hkey)]
      linarith

/-- The results that were read leave every leg within its count. -/
theorem readOutcomes_le {pending : List WingLeg} (hkeys : (pending.map legKey).Nodup) {seq : ℕ}
    {o : Outcomes}
    (hreplies : ∀ chunk ∈ wingChunks x seq pending, ∀ r, readFill o chunk = some r →
      r.fillCount ≤ chunk.count)
    {leg : WingLeg} (hmem : leg ∈ pending) (hleg : 0 ≤ remaining x leg) :
    0 ≤ room x (readOutcomes x pending (wingChunks x seq pending) o now) leg := by
  have hread : (readOutcomes x pending (wingChunks x seq pending) o now).count (legKey leg) ≤
      0 + (((wingChunks x seq pending).filter fun c => c.owner = legKey leg).map
        WingChunk.lots).sum :=
    count_foldl_bookChunk hreplies (legKey leg) _
  have hsent := sum_wingChunks_le hkeys hmem hleg seq
  unfold room
  linarith

/-- The lots that may still be booked on the legs of a side of a market with room. -/
def roomTotal (x : WingExecutor) (b : Booking) (legs : List WingLeg) (ticker : String)
    (side : Side) : ℚ :=
  ((roomy x b legs ticker side).map (room x b)).sum

/-- Legs without room are booked nothing, so only those with room count. -/
theorem attributed_eq_roomy (hknown : OrdersKnown v sinceTs) {legs : List WingLeg}
    (hkeys : (legs.map legKey).Nodup) :
    attributed b (confirmLegs x v sinceTs now legs b) legs ticker side =
      ((roomy x b legs ticker side).map fun leg =>
        (confirmLegs x v sinceTs now legs b).count (legKey leg) - b.count (legKey leg)).sum := by
  have hzero : ∀ leg ∈ legs, ¬0 < room x b leg →
      (confirmLegs x v sinceTs now legs b).count (legKey leg) - b.count (legKey leg) = 0 := by
    intro leg hleg hroom
    obtain ⟨hge, hle⟩ := @confirmLegs_le v sinceTs now x b hknown legs hkeys leg hleg
    rw [max_eq_left (not_lt.mp hroom), add_zero] at hle
    exact sub_eq_zero.mpr (le_antisymm hle hge)
  unfold attributed roomy
  generalize (confirmLegs x v sinceTs now legs b).count = after at hzero ⊢
  clear hkeys
  induction legs with
  | nil => rfl
  | cons leg rest ih =>
    have hrest := ih fun l hl => hzero l (List.mem_cons_of_mem leg hl)
    by_cases hon : leg.ticker = ticker ∧ leg.side = side
    · by_cases hroom : 0 < room x b leg
      · rw [List.filter_cons_of_pos (by simpa using hon),
          List.filter_cons_of_pos (by simpa [hroom] using hon), List.map_cons, List.map_cons,
          List.sum_cons, List.sum_cons, hrest]
      · rw [List.filter_cons_of_pos (by simpa using hon),
          List.filter_cons_of_neg (by simp [hroom]), List.map_cons, List.sum_cons, hrest,
          hzero leg (List.mem_cons_self ..) hroom, zero_add]
    · rw [List.filter_cons_of_neg (by simpa using hon),
        List.filter_cons_of_neg (by simpa using fun h₁ h₂ => absurd ⟨h₁, h₂⟩ hon), hrest]

/-- The confirm of a take attributes on every side of every market the venue fills not yet
attributed, up to the room there. So a retry asks for no lot that was filled, and no leg is
booked beyond its count. -/
structure ConfirmsExactly (x : WingExecutor) (v : VenueFills) (pending : List WingLeg)
    (chunks : List WingChunk) (o : Outcomes) (sinceTs now : ℚ) : Prop where
  total : ∀ ticker side,
    attributed (readOutcomes x pending chunks o now)
        (takeBooking x v pending chunks o sinceTs now) (unknownLegs pending chunks o) ticker side =
      min (unattributed v (readOutcomes x pending chunks o now).orderIds ticker side sinceTs)
        (roomTotal x (readOutcomes x pending chunks o now) (unknownLegs pending chunks o) ticker
          side)
  notBoughtAgain : ∀ ticker side,
    unattributed v (readOutcomes x pending chunks o now).orderIds ticker side sinceTs ≤
        roomTotal x (readOutcomes x pending chunks o now) (unknownLegs pending chunks o) ticker
          side →
    ((roomy x (readOutcomes x pending chunks o now) (unknownLegs pending chunks o) ticker
        side).map (remaining (settleTake x v pending chunks o sinceTs now).1)).sum =
      roomTotal x (readOutcomes x pending chunks o now) (unknownLegs pending chunks o) ticker
          side -
        unattributed v (readOutcomes x pending chunks o now).orderIds ticker side sinceTs
  withinCount : ∀ leg ∈ pending,
    (settleTake x v pending chunks o sinceTs now).1.wingFilled (legKey leg) ≤ leg.count

/-- The venue fills not yet attributed are of different orders and fit on the first leg with room,
or there is no second leg with room and the first fill of each order fills it up. -/
def FirstLegServes (x : WingExecutor) (v : VenueFills) (pending : List WingLeg)
    (chunks : List WingChunk) (o : Outcomes) (sinceTs now : ℚ) (ticker : String) (side : Side) :
    Prop :=
  let read := readOutcomes x pending chunks o now
  let fresh := freshFills v read.orderIds ticker side sinceTs
  let rooms := (roomy x read (unknownLegs pending chunks o) ticker side).map (room x read)
  ((fresh.map Prod.fst).Nodup ∧ (fresh.map Prod.snd).sum ≤ rooms.headD 0) ∨
    (rooms.length ≤ 1 ∧ rooms.sum ≤ ((firstOfEach fresh).map Prod.snd).sum)

instance (x : WingExecutor) (v : VenueFills) (pending : List WingLeg) (chunks : List WingChunk)
    (o : Outcomes) (sinceTs now : ℚ) (ticker : String) (side : Side) :
    Decidable (FirstLegServes x v pending chunks o sinceTs now ticker side) :=
  inferInstanceAs (Decidable (_ ∨ _))

/-- What remains of a leg after a settled take. -/
theorem remaining_settleTake {pending : List WingLeg} (hkeys : (pending.map legKey).Nodup)
    {chunks : List WingChunk} {o : Outcomes} {leg : WingLeg} (hleg : leg ∈ pending) :
    remaining (settleTake x v pending chunks o sinceTs now).1 leg =
      room x (readOutcomes x pending chunks o now) leg -
        ((takeBooking x v pending chunks o sinceTs now).count (legKey leg) -
          (readOutcomes x pending chunks o now).count (legKey leg)) := by
  unfold room
  have hfilled := @settleTake_wingFilled v sinceTs now x pending hkeys chunks o leg hleg
  unfold remaining
  linarith

/-- No take books a leg beyond its count. -/
theorem settleTake_within (hknown : OrdersKnown v sinceTs) {pending : List WingLeg}
    (hkeys : (pending.map legKey).Nodup) {seq : ℕ} {o : Outcomes}
    (hreplies : ∀ chunk ∈ wingChunks x seq pending, ∀ r, readFill o chunk = some r →
      r.fillCount ≤ chunk.count)
    {leg : WingLeg} (hleg : leg ∈ pending) (hfilled : x.wingFilled (legKey leg) ≤ leg.count) :
    (settleTake x v pending (wingChunks x seq pending) o sinceTs now).1.wingFilled (legKey leg) ≤
      leg.count := by
  set chunks := wingChunks x seq pending with hchunks
  set read := readOutcomes x pending chunks o now with hread
  have hroom : 0 ≤ room x read leg :=
    readOutcomes_le hkeys hreplies hleg (sub_nonneg.mpr hfilled)
  have hbooked : (takeBooking x v pending chunks o sinceTs now).count (legKey leg) ≤
      read.count (legKey leg) + room x read leg := by
    by_cases hunknown : leg ∈ unknownLegs pending chunks o
    · have hle := (@confirmLegs_le v sinceTs now x read hknown _
        (nodup_unknownLegs pending chunks o) leg hunknown).2
      rw [max_eq_right hroom] at hle
      exact hle
    · have hkey : legKey leg ∉ (unknownLegs pending chunks o).map legKey := by
        intro hin
        obtain ⟨other, hother, hsame⟩ := List.mem_map.mp hin
        have heq : other = leg :=
          List.inj_on_of_nodup_map hkeys (mem_pending_of_unknown hother) hleg hsame
        exact hunknown (heq ▸ hother)
      have hsame : (takeBooking x v pending chunks o sinceTs now).count (legKey leg) =
          read.count (legKey leg) := confirmLegs_other hknown hkey
      linarith
  have hremains := @remaining_settleTake v sinceTs now x pending hkeys chunks o leg hleg
  unfold remaining at hremains
  linarith

/-- The confirm is exact when and only when on every side of every market the first leg with room
serves the unattributed fills. -/
theorem confirmsExactly_iff (x : WingExecutor) (v : VenueFills) (pending : List WingLeg)
    (seq : ℕ) (o : Outcomes) (sinceTs now : ℚ) (hknown : OrdersKnown v sinceTs)
    (hkeys : (pending.map legKey).Nodup)
    (hfilled : ∀ leg ∈ pending, x.wingFilled (legKey leg) ≤ leg.count)
    (hreplies : ∀ chunk ∈ wingChunks x seq pending, ∀ r, readFill o chunk = some r →
      r.fillCount ≤ chunk.count) :
    ConfirmsExactly x v pending (wingChunks x seq pending) o sinceTs now ↔
      ∀ ticker side,
        FirstLegServes x v pending (wingChunks x seq pending) o sinceTs now ticker side := by
  set chunks := wingChunks x seq pending with hchunks
  set read := readOutcomes x pending chunks o now with hread
  set legs := unknownLegs pending chunks o with hlegs
  have hunknown : (legs.map legKey).Nodup := nodup_unknownLegs pending chunks o
  have htotal : ∀ ticker side,
      attributed read (takeBooking x v pending chunks o sinceTs now) legs ticker side =
          min (unattributed v read.orderIds ticker side sinceTs)
            (roomTotal x read legs ticker side) ↔
        FirstLegServes x v pending chunks o sinceTs now ticker side := by
    intro ticker side
    have hattributed := @attributed_confirmLegs v ticker side sinceTs now x read hknown legs
      hunknown
    have hfresh : ∀ e ∈ freshFills v read.orderIds ticker side sinceTs, 0 < e.2 :=
      fun e he => freshFills_pos he
    have hrooms : ∀ r ∈ (roomy x read legs ticker side).map (room x read), 0 < r := by
      intro r hr
      obtain ⟨leg, hleg, rfl⟩ := List.mem_map.mp hr
      exact room_pos_of_mem_roomy hleg
    have honce := (venueWingFills_eq ticker side hknown read.orderIds).1 ▸
      venueWingFills_nonneg hknown read.orderIds
    have harith := min_first_eq_iff hrooms honce (sum_firstOfEach_le hfresh)
    rw [sum_firstOfEach_eq_iff hfresh] at harith
    unfold takeBooking unattributed roomTotal FirstLegServes
    rw [← hread, ← hlegs, hattributed]
    exact harith
  constructor
  · intro hexact ticker side
    exact (htotal ticker side).mp (hexact.total ticker side)
  · intro hserves
    have hall := fun ticker side => (htotal ticker side).mpr (hserves ticker side)
    refine ⟨hall, ?_, fun leg hleg => settleTake_within hknown hkeys hreplies hleg
      (hfilled leg hleg)⟩
    intro ticker side hfits
    have hsum := hall ticker side
    have hroomy := @attributed_eq_roomy v ticker side sinceTs now x read hknown legs hunknown
    rw [min_eq_left hfits] at hsum
    have hremains : (roomy x read legs ticker side).map (room x read) =
        (roomy x read legs ticker side).map fun leg =>
          remaining (settleTake x v pending chunks o sinceTs now).1 leg +
            ((takeBooking x v pending chunks o sinceTs now).count (legKey leg) -
              read.count (legKey leg)) := by
      apply List.map_congr_left
      intro leg hleg
      rw [remaining_settleTake hkeys (mem_pending_of_unknown (List.mem_filter.mp hleg).1),
        sub_add_cancel]
    have hrooms : roomTotal x read legs ticker side =
        ((roomy x read legs ticker side).map
          (remaining (settleTake x v pending chunks o sinceTs now).1)).sum +
          unattributed v read.orderIds ticker side sinceTs := by
      rw [← hsum, roomTotal, hremains, List.sum_map_add]
      congr 1
      exact hroomy.symm
    linarith

/-! ### A lost response for two batches -/

/-- A fill of the YES side of the market `Y`. -/
def listedFill (order : String) (count : ℚ) : Json :=
  .object [("order_id", .text order), ("ticker", .text "Y"), ("side", .text "yes"),
    ("count_fp", .number count)]

/-- A venue that lists fills of orders for the YES side of the market `Y`. -/
def listing (fills : List (String × ℚ)) : VenueFills where
  body := fun ticker =>
    if ticker = "Y" then
      some (.object [("fills", .array (fills.map fun e => listedFill e.1 e.2))])
    else none
  isoToEpoch := fun _ => none

/-- The listing lists its fills under one ticker. -/
theorem listed_listing (fills : List (String × ℚ)) (ticker : String) :
    (listing fills).listed ticker =
      if ticker = "Y" then fills.map fun e => listedFill e.1 e.2 else [] := by
  unfold VenueFills.listed listing
  by_cases h : ticker = "Y"
  · simp [h, Json.field]
  · simp [h, Json.field]

/-- The listing names the order of each fill. -/
theorem ordersKnown_listing {fills : List (String × ℚ)} (h : ∀ e ∈ fills, e.1 ≠ "")
    (sinceTs : ℚ) : OrdersKnown (listing fills) sinceTs := by
  have hlisted : ∀ {ticker : String} {side : Side} {fill : Json} {lots : ℚ},
      fill ∈ (listing fills).listed ticker →
      fillLots (listing fills) ticker side sinceTs fill = some lots →
      (∃ order, fillOrder fill = some order) ∧ ticker = "Y" ∧ side = .yes := by
    intro ticker side fill lots hmem hlots
    rw [listed_listing] at hmem
    split at hmem
    · rename_i hticker
      obtain ⟨e, he, rfl⟩ := List.mem_map.mp hmem
      refine ⟨⟨e.1, ?_⟩, hticker, ?_⟩
      · simp [fillOrder, listedFill, Json.field, Json.name?, Json.text?, h e he]
      · cases side with
        | yes => rfl
        | no => simp [fillLots, listedFill, Json.field, Json.isText, sideWord] at hlots
    · simp at hmem
  constructor
  · intro ticker side fill lots hmem hlots
    exact (hlisted hmem hlots).1
  · intro ticker ticker' side side' fill fill' lots lots' hmem hmem' hlots hlots' _
    obtain ⟨-, rfl, rfl⟩ := hlisted hmem hlots
    obtain ⟨-, rfl, rfl⟩ := hlisted hmem' hlots'
    exact ⟨rfl, rfl⟩

/-- An executor with a cap of two lots that has taken nothing. -/
def idleExecutor : WingExecutor where
  wingCap := 2
  one_le_wingCap := one_le_two
  bucketSize := 100
  exchByTicker := .ofList [("Y", 1)]
  wingCoidPrefix := "v33-wc-"
  wingCoidSeq := 0
  wingOrderIds := []
  wingFilled := fun _ => 0
  wingNotional := fun _ => 0
  fills := []

/-- The YES leg of two lots of a batch. -/
def yesLeg (batch : ℕ) : WingLeg where
  ticker := "Y"
  side := .yes
  count := 2
  limit := 1 / 2
  clientOrderId := s!"v33-wing-{batch}-yes"
  status := .pending
  fillPrice := none
  fillFee := none
  batch := batch
  lastRetryTs := none
  netted := 0

/-- The response to the sub-batch of both legs is lost. -/
def bothLost : Outcomes := ⟨[], ["v33-wc-1", "v33-wc-2"], []⟩

/-- Two lots were filled: the first leg has room for them. -/
theorem confirmsExactly_oneFilled :
    ConfirmsExactly idleExecutor (listing [("A", 2)]) [yesLeg 0, yesLeg 1]
      (wingChunks idleExecutor 0 [yesLeg 0, yesLeg 1]) bothLost 0 0 := by
  refine (confirmsExactly_iff idleExecutor (listing [("A", 2)]) [yesLeg 0, yesLeg 1] 0 bothLost 0 0
    (ordersKnown_listing (by decide) 0) (by decide) (by decide) ?_).mpr ?_
  · intro chunk hchunk r hr
    have hnone : ∀ chunk ∈ wingChunks idleExecutor 0 [yesLeg 0, yesLeg 1],
        (readFill bothLost chunk).isNone := by
      decide +kernel
    simp [Option.isNone_iff_eq_none.mp (hnone chunk hchunk)] at hr
  · intro ticker side
    by_cases hticker : ticker = "Y"
    · subst hticker
      cases side <;> decide +kernel
    · left
      have hnone : ∀ ids, freshFills (listing [("A", 2)]) ids ticker side 0 = [] := by
        intro ids
        unfold freshFills
        rw [listed_listing, if_neg hticker]
        rfl
      rw [hnone]
      exact ⟨List.nodup_nil, firstRoom_nonneg _⟩

/-- Both orders of two lots were filled: the second leg is booked nothing, and its two lots are
bought again. -/
theorem secondBatch_unconfirmed :
    ¬ConfirmsExactly idleExecutor (listing [("A", 2), ("B", 2)]) [yesLeg 0, yesLeg 1]
      (wingChunks idleExecutor 0 [yesLeg 0, yesLeg 1]) bothLost 0 0 := by
  intro hexact
  have htotal := hexact.total "Y" .yes
  revert htotal
  decide +kernel

end Pilot.V33.Takes
