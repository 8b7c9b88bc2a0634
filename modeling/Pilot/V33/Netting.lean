import Pilot.V33.ClientOrderIds

/-!
# Netting

The lots of a YES and a NO leg on one market net against each other. Every netting takes as
much from the YES legs of the market as from its NO legs, and it goes on until one of the two
sides has nothing left.
-/

namespace Pilot.V33

/-! ### The lots of a market -/

/-- The netted lots of a leg, if it is filled and on the given side of the market. -/
def nettedShare (t : String) (side : Side) (l : WingLeg) : ℚ :=
  if l.ticker = t ∧ l.side = side ∧ l.status = .filled then l.netted else 0

/-- The lots netted on the filled legs of one side of a market. -/
def nettedOn (legs : List WingLeg) (t : String) (side : Side) : ℚ :=
  (legs.map (nettedShare t side)).sum

/-- The count of a pair, if it is on the market. -/
def pairShare (t : String) (np : NettedPair) : ℚ := if np.ticker = t then np.count else 0

/-- The lots of the netted pairs of a market. -/
def pairedOn (pairs : List NettedPair) (t : String) : ℚ := (pairs.map (pairShare t)).sum

/-- A filled leg with lots left. -/
def WingLeg.isOpen (l : WingLeg) : Prop := l.status = .filled ∧ 0 < l.held

instance (l : WingLeg) : Decidable l.isOpen := inferInstanceAs (Decidable (_ ∧ _))

/-- One side of a market has a filled leg with lots left. -/
def OpenOn (legs : List WingLeg) (t : String) (side : Side) : Prop :=
  ∃ l ∈ legs, l.ticker = t ∧ l.side = side ∧ l.isOpen

/-- No market has lots left on both sides. -/
def SettledOn (legs : List WingLeg) (t : String) : Prop :=
  ¬(OpenOn legs t .yes ∧ OpenOn legs t .no)

/-- The legs of one side of a market. -/
def sideLegs (legs : List WingLeg) (t : String) (side : Side) : List WingLeg :=
  legs.filter fun l => l.ticker = t ∧ l.side = side

/-- A market has fewer than 64 legs on each side. -/
def FewLegs (legs : List WingLeg) (t : String) : Prop :=
  ∀ side, (sideLegs legs t side).length < 64

/-- Netted lots stay within the leg, and on every market the YES legs, the NO legs and the
pairs agree on them. -/
structure NettingConserved (st : V33State) : Prop where
  nonneg : ∀ l ∈ st.wingLegs, 0 ≤ l.netted
  le_count : ∀ l ∈ st.wingLegs, l.netted ≤ l.count
  balanced : ∀ t side, nettedOn st.wingLegs t side = pairedOn st.nettedPairs t

/-! ### Legs in order -/

/-- The client order ids that name a leg. -/
def legIds (legs : List WingLeg) : List String :=
  (legs.map WingLeg.clientOrderId).filter (· ≠ "")

/-- A leg in order: counts at two decimals, netted lots within its count and none before it is
filled, a price and an id once it is. -/
structure LegOk (l : WingLeg) : Prop where
  nonneg : 0 ≤ l.netted
  le_count : l.netted ≤ l.count
  countGrid : OnGrid 100 l.count
  nettedGrid : OnGrid 100 l.netted
  priced : l.status = .filled → l.fillPrice.isSome
  named : l.status = .filled → l.clientOrderId ≠ ""
  untouched : l.status ≠ .filled → l.netted = 0

/-- A weighing of the netted lots of a leg by its market, its side and whether it is open. -/
def share (weight : String → Side → Bool → ℚ) (l : WingLeg) : ℚ :=
  if l.status = .filled then weight l.ticker l.side (decide (0 < l.held)) * l.netted else 0

/-- The weights of the netted lots on one side of a market. -/
def onSide (t : String) (side : Side) (ticker : String) (s : Side) (_ : Bool) : ℚ :=
  if ticker = t ∧ s = side then 1 else 0

/-- The weights under the results of the markets: what used-up legs on the losing sides have
netted, less what open legs on the winning sides have. -/
def cover (results : String → Side) (ticker : String) (s : Side) (isOpen : Bool) : ℚ :=
  match decide (results ticker = s), isOpen with
  | true, true => -1
  | false, false => 1
  | _, _ => 0

/-- The lots of some legs, weighed. -/
def weighed (legs : List WingLeg) (weight : String → Side → Bool → ℚ) : ℚ :=
  (legs.map (share weight)).sum

/-- The lots netted on a side are a weighed sum. -/
theorem nettedOn_eq (legs : List WingLeg) (t : String) (side : Side) :
    nettedOn legs t side = weighed legs (onSide t side) := by
  rw [nettedOn, weighed]
  congr 1
  refine List.map_congr_left fun l _ => ?_
  unfold nettedShare share onSide
  by_cases hside : l.ticker = t ∧ l.side = side <;> by_cases hf : l.status = .filled <;>
    simp_all

/-- Legs in order: different ids, the same lots netted on the two sides of a market and in its
pairs, and whatever the results, no more netted on open winning legs than on used-up losing
ones. -/
structure LegsOk (legs : List WingLeg) (pairs : List NettedPair) : Prop where
  each : ∀ l ∈ legs, LegOk l
  nodup : (legIds legs).Nodup
  balanced : ∀ t side, nettedOn legs t side = pairedOn pairs t
  covered : ∀ results, 0 ≤ weighed legs (cover results)

section Legs

variable {legs legs' : List WingLeg} {pairs : List NettedPair}

/-- No legs are in order. -/
theorem LegsOk.nil : LegsOk [] [] := by
  constructor <;> simp [legIds, nettedOn, pairedOn, weighed]

/-- A leg that is not filled has no share. -/
theorem share_of_not_filled {l : WingLeg} (h : l.status ≠ .filled)
    (weight : String → Side → Bool → ℚ) : share weight l = 0 := if_neg h

/-- A leg without netted lots has no share. -/
theorem share_of_not_netted {l : WingLeg} (h : l.netted = 0)
    (weight : String → Side → Bool → ℚ) : share weight l = 0 := by
  simp [share, h]

/-- Legs whose netted lots weigh the same are balanced and covered alike. -/
theorem LegsOk.of_weighed (h : LegsOk legs pairs) (heach : ∀ l ∈ legs', LegOk l)
    (hnodup : (legIds legs').Nodup)
    (hsame : ∀ weight, weighed legs' weight = weighed legs weight) : LegsOk legs' pairs where
  each := heach
  nodup := hnodup
  balanced t side := by rw [nettedOn_eq, hsame, ← nettedOn_eq, h.balanced]
  covered results := by
    rw [hsame]
    exact h.covered results

/-- A leg that has not been filled: nothing netted, a count at two decimals. -/
structure Unfilled (l : WingLeg) : Prop where
  status : l.status ≠ .filled
  netted : l.netted = 0
  count : 0 ≤ l.count
  grid : OnGrid 100 l.count

/-- An unfilled leg is not open. -/
theorem Unfilled.not_open {l : WingLeg} (h : Unfilled l) : ¬l.isOpen := fun ho => h.status ho.1

/-- An unfilled leg is in order. -/
theorem Unfilled.legOk {l : WingLeg} (h : Unfilled l) : LegOk l where
  nonneg := le_of_eq h.netted.symm
  le_count := by
    rw [h.netted]
    exact h.count
  countGrid := h.grid
  nettedGrid := by
    rw [h.netted]
    exact onGrid_zero 100
  priced hf := absurd hf h.status
  named hf := absurd hf h.status
  untouched _ := h.netted

/-- New legs with nothing filled and new ids keep the legs in order. -/
theorem LegsOk.append (h : LegsOk legs pairs) {more : List WingLeg}
    (hmore : ∀ l ∈ more, Unfilled l) (hids : ∀ c ∈ legIds more, c ∉ legIds legs)
    (hnodup : (legIds more).Nodup) : LegsOk (legs ++ more) pairs := by
  refine h.of_weighed ?_ ?_ fun weight => ?_
  · exact List.forall_mem_append.mpr ⟨h.each, fun l hl => (hmore l hl).legOk⟩
  · rw [legIds, List.map_append, List.filter_append]
    refine List.nodup_append.mpr ⟨h.nodup, hnodup, fun a ha b hb hab => ?_⟩
    exact hids b hb (hab ▸ ha)
  · have hzero : (more.map (share weight)).sum = 0 :=
      List.sum_eq_zero fun x hx => by
        obtain ⟨l, hl, rfl⟩ := List.mem_map.mp hx
        exact share_of_not_filled (hmore l hl).status weight
    rw [weighed, List.map_append, List.sum_append, hzero, add_zero, weighed]

/-- A leg that goes on: what it is and what it has netted stay, and it only leaves the filled legs
with nothing netted. -/
structure LegStays (l l' : WingLeg) : Prop where
  ticker : l'.ticker = l.ticker
  side : l'.side = l.side
  count : l'.count = l.count
  netted : l'.netted = l.netted
  price : l'.fillPrice = l.fillPrice
  filled : l'.status = .filled → l.status = .filled
  missed : l.status = .filled → l'.status ≠ .filled → l.netted = 0
  named : l'.status = .filled → l'.clientOrderId = l.clientOrderId

/-- A leg stays as it is. -/
theorem LegStays.refl (l : WingLeg) : LegStays l l :=
  ⟨rfl, rfl, rfl, rfl, rfl, id, fun hf hn => absurd hf hn, fun _ => rfl⟩

/-- A leg that stays keeps its share. -/
theorem LegStays.share {l l' : WingLeg} (h : LegStays l l') (weight : String → Side → Bool → ℚ) :
    share weight l' = share weight l := by
  by_cases hf : l'.status = .filled
  · rw [V33.share, V33.share, if_pos hf, if_pos (h.filled hf), WingLeg.held, WingLeg.held, h.ticker,
      h.side, h.netted, h.count]
  · rw [share_of_not_filled hf]
    by_cases hf' : l.status = .filled
    · rw [share_of_not_netted (h.missed hf' hf)]
    · rw [share_of_not_filled hf']

/-- A leg that stays open was open. -/
theorem LegStays.isOpen {l l' : WingLeg} (h : LegStays l l') (ho : l'.isOpen) : l.isOpen := by
  refine ⟨h.filled ho.1, ?_⟩
  have hheld := ho.2
  rwa [WingLeg.held, h.count, h.netted] at hheld

/-- A leg that stays is in order if it was. -/
theorem LegStays.legOk {l l' : WingLeg} (h : LegStays l l') (hl : LegOk l) : LegOk l' where
  nonneg := by
    rw [h.netted]
    exact hl.nonneg
  le_count := by
    rw [h.netted, h.count]
    exact hl.le_count
  countGrid := by
    rw [h.count]
    exact hl.countGrid
  nettedGrid := by
    rw [h.netted]
    exact hl.nettedGrid
  priced hf := by
    rw [h.price]
    exact hl.priced (h.filled hf)
  named hf := by
    rw [h.named hf]
    exact hl.named (h.filled hf)
  untouched hf := by
    rw [h.netted]
    by_cases hfilled : l.status = .filled
    · exact h.missed hfilled hf
    · exact hl.untouched hfilled

/-- Legs that go on under different ids stay in order. -/
theorem LegsOk.stays (h : LegsOk legs pairs) (hlegs : List.Forall₂ LegStays legs legs')
    (hnodup : (legIds legs').Nodup) : LegsOk legs' pairs := by
  refine h.of_weighed (fun l' hl' => ?_) hnodup fun weight => ?_
  · obtain ⟨l, hl, hs⟩ := exists_of_forall₂ hlegs hl'
    exact hs.legOk (h.each l hl)
  · have hshare : ∀ l l', LegStays l l' → share weight l' = share weight l :=
      fun _ _ hs => hs.share weight
    rw [weighed, weighed, map_eq_of_forall₂ hshare hlegs]

/-- The leg is answered with a fill. -/
def answeredLeg (price : ℚ) (l : WingLeg) : WingLeg :=
  { l with status := .filled, fillPrice := some price, fillFee := some (fee price) }

/-- An answer leaves the netted lots of the filled legs as they are. -/
theorem LegOk.share_answeredLeg {l : WingLeg} (h : LegOk l) (price : ℚ)
    (weight : String → Side → Bool → ℚ) : share weight (answeredLeg price l) = share weight l := by
  by_cases hf : l.status = .filled
  · simp [share, answeredLeg, WingLeg.held, hf]
  · have hzero : (answeredLeg price l).netted = 0 := h.untouched hf
    rw [share_of_not_filled hf, share_of_not_netted hzero]

/-- An answered leg is in order. -/
theorem LegOk.answered {l : WingLeg} (h : LegOk l) (hne : l.clientOrderId ≠ "") (price : ℚ) :
    LegOk (answeredLeg price l) where
  nonneg := h.nonneg
  le_count := h.le_count
  countGrid := h.countGrid
  nettedGrid := h.nettedGrid
  priced _ := rfl
  named _ := hne
  untouched hf := absurd rfl hf

/-- The answer to a leg that has an id keeps the legs in order. -/
theorem LegsOk.answered (h : LegsOk legs pairs) {coid : String} (hne : coid ≠ "") (price : ℚ) :
    LegsOk (replaceFirst (fun l => l.clientOrderId == coid) (answeredLeg price) legs) pairs := by
  have hkept : ∀ l : WingLeg, (l.clientOrderId == coid) = true →
      (answeredLeg price l).clientOrderId = l.clientOrderId := fun _ _ => rfl
  refine h.of_weighed (fun l' hl' => ?_) ?_ fun weight => ?_
  · rcases mem_replaceFirst hl' with hl' | ⟨l, hl, hc, rfl⟩
    · exact h.each l' hl'
    · exact (h.each l hl).answered (fun he => hne (by simpa [he] using hc.symm)) price
  · rw [legIds, map_replaceFirst_of_eq hkept]
    exact h.nodup
  · rw [weighed, weighed,
      map_replaceFirst_of_mem fun l hl _ => (h.each l hl).share_answeredLeg price weight]

/-! ### One netting -/

/-- A leg after `q` lots of `l` and `m` have been netted. -/
def closeLots (l m : WingLeg) (q : ℚ) (x : WingLeg) : WingLeg :=
  if x.clientOrderId = l.clientOrderId ∨ x.clientOrderId = m.clientOrderId then
    { x with netted := qCount (x.netted + q) }
  else x

/-- Two legs that may net: filled legs on the two sides of one market with lots left. -/
structure Nettable (legs : List WingLeg) (l m : WingLeg) : Prop where
  mem : l ∈ legs
  mem' : m ∈ legs
  ticker : m.ticker = l.ticker
  side : m.side ≠ l.side
  isOpen : l.isOpen
  isOpen' : m.isOpen

/-- The lots that net. -/
def overlap (l m : WingLeg) : ℚ := qCount (min l.held m.held)

variable {l m : WingLeg}

/-- The held lots of a leg have two decimals. -/
theorem LegsOk.heldGrid (h : LegsOk legs pairs) (hl : l ∈ legs) : OnGrid 100 l.held :=
  (h.each l hl).countGrid.sub (h.each l hl).nettedGrid

/-- The overlap is exact. -/
theorem LegsOk.overlap_eq (h : LegsOk legs pairs) (hn : Nettable legs l m) :
    overlap l m = min l.held m.held :=
  qCount_of_onGrid ((h.heldGrid hn.mem).min (h.heldGrid hn.mem'))

/-- Two legs that can be netted overlap. -/
theorem LegsOk.overlap_pos (h : LegsOk legs pairs) (hn : Nettable legs l m) :
    0 < overlap l m := by
  rw [h.overlap_eq hn]
  exact lt_min hn.isOpen.2 hn.isOpen'.2

/-- Legs that may net have different ids. -/
theorem LegsOk.ids_ne (h : LegsOk legs pairs) (hn : Nettable legs l m) :
    m.clientOrderId ≠ l.clientOrderId := by
  intro heq
  obtain ⟨front, back, hsplit, hfront, hback⟩ :=
    split_of_key hn.mem ((h.each l hn.mem).named hn.isOpen.1) h.nodup
  have hm := hn.mem'
  rw [hsplit, List.mem_append, List.mem_cons] at hm
  rcases hm with hm | rfl | hm
  · exact hfront m hm heq
  · exact hn.side rfl
  · exact hback m hm heq

/-- An id names one leg. -/
theorem LegsOk.unique (h : LegsOk legs pairs) {x y : WingLeg} (hx : x ∈ legs) (hy : y ∈ legs)
    (hne : x.clientOrderId ≠ "") (heq : y.clientOrderId = x.clientOrderId) : y = x := by
  obtain ⟨front, back, hsplit, hfront, hback⟩ := split_of_key hx hne h.nodup
  rw [hsplit, List.mem_append, List.mem_cons] at hy
  rcases hy with hy | rfl | hy
  · exact absurd heq (hfront y hy)
  · rfl
  · exact absurd heq (hback y hy)

/-- Netting a pair leaves the other legs alone. -/
theorem closeLots_other {x : WingLeg} {q : ℚ} (hl : x.clientOrderId ≠ l.clientOrderId)
    (hm : x.clientOrderId ≠ m.clientOrderId) : closeLots l m q x = x := by
  rw [closeLots, if_neg (not_or.mpr ⟨hl, hm⟩)]

/-- Netting leaves all of a leg but its netted lots alone. -/
theorem closeLots_frame (l m : WingLeg) (q : ℚ) (x : WingLeg) :
    (closeLots l m q x).ticker = x.ticker ∧ (closeLots l m q x).side = x.side ∧
      (closeLots l m q x).count = x.count ∧ (closeLots l m q x).status = x.status ∧
        (closeLots l m q x).fillPrice = x.fillPrice ∧
          (closeLots l m q x).clientOrderId = x.clientOrderId := by
  unfold closeLots
  split_ifs <;> simp

/-- A leg that nets `q` of its lots. -/
theorem LegsOk.netted_closeLots (h : LegsOk legs pairs) (hn : Nettable legs l m)
    {x : WingLeg} (hx : x = l ∨ x = m) :
    (closeLots l m (overlap l m) x).netted = x.netted + overlap l m := by
  have hgrid : OnGrid 100 (x.netted + overlap l m) := by
    rcases hx with rfl | rfl
    · exact (h.each _ hn.mem).nettedGrid.add (onGrid_qCount _)
    · exact (h.each _ hn.mem').nettedGrid.add (onGrid_qCount _)
  rw [closeLots, if_pos (by rcases hx with rfl | rfl <;> simp), qCount_of_onGrid hgrid]

/-- A leg after a netting is unchanged, or one of the two with its overlap netted. -/
theorem LegsOk.closeLots_cases (h : LegsOk legs pairs) (hn : Nettable legs l m)
    {x : WingLeg} (hx : x ∈ legs) :
    closeLots l m (overlap l m) x = x ∨ ((x = l ∨ x = m) ∧
      (closeLots l m (overlap l m) x).netted = x.netted + overlap l m) := by
  by_cases hl : x.clientOrderId = l.clientOrderId
  · have heq := h.unique hn.mem hx ((h.each l hn.mem).named hn.isOpen.1) hl
    exact Or.inr ⟨Or.inl heq, h.netted_closeLots hn (Or.inl heq)⟩
  · by_cases hm : x.clientOrderId = m.clientOrderId
    · have heq := h.unique hn.mem' hx ((h.each m hn.mem').named hn.isOpen'.1) hm
      exact Or.inr ⟨Or.inr heq, h.netted_closeLots hn (Or.inr heq)⟩
    · exact Or.inl (closeLots_other hl hm)

/-- A sum over the legs changes with the two legs that net. -/
theorem LegsOk.weighed_closeLots (h : LegsOk legs pairs) (hn : Nettable legs l m)
    (weight : String → Side → Bool → ℚ) :
    weighed (legs.map (closeLots l m (overlap l m))) weight = weighed legs weight +
      ((share weight (closeLots l m (overlap l m) l) - share weight l) +
        (share weight (closeLots l m (overlap l m) m) - share weight m)) := by
  have hids := h.ids_ne hn
  -- The sum changes at the two legs, one after the other.
  let half (x : WingLeg) : ℚ :=
    if x.clientOrderId = l.clientOrderId then share weight (closeLots l m (overlap l m) x)
    else share weight x
  have hfirst : (legs.map half).sum = weighed legs weight + (half l - share weight l) :=
    sum_map_of_key hn.mem ((h.each l hn.mem).named hn.isOpen.1) h.nodup fun y _ hy => if_neg hy
  have hsecond : weighed (legs.map (closeLots l m (overlap l m))) weight =
      (legs.map half).sum + (share weight (closeLots l m (overlap l m) m) - half m) := by
    rw [weighed, List.map_map]
    refine sum_map_of_key hn.mem' ((h.each m hn.mem').named hn.isOpen'.1) h.nodup
      fun y _ hy => ?_
    by_cases hl : y.clientOrderId = l.clientOrderId
    · simp [half, hl]
    · simp [half, hl, closeLots_other hl hy]
  have hl : half l = share weight (closeLots l m (overlap l m) l) := if_pos rfl
  have hm : half m = share weight m := if_neg hids
  rw [hsecond, hfirst, hl, hm, add_assoc]

/-- The lots a leg has left after a netting. -/
theorem LegsOk.held_closeLots (h : LegsOk legs pairs) (hn : Nettable legs l m) {x : WingLeg}
    (hx : x = l ∨ x = m) :
    (closeLots l m (overlap l m) x).held = x.held - overlap l m := by
  rw [WingLeg.held, h.netted_closeLots hn hx, (closeLots_frame l m (overlap l m) x).2.2.1,
    WingLeg.held]
  ring

/-- What a leg that nets weighs before and after. -/
theorem LegsOk.share_closeLots (h : LegsOk legs pairs) (hn : Nettable legs l m) {x : WingLeg}
    (hx : x = l ∨ x = m) (weight : String → Side → Bool → ℚ) :
    share weight (closeLots l m (overlap l m) x) - share weight x =
      weight x.ticker x.side (decide (0 < x.held - overlap l m)) * (x.netted + overlap l m) -
        weight x.ticker x.side true * x.netted := by
  obtain ⟨hticker, hside, -, hstatus, -, -⟩ := closeLots_frame l m (overlap l m) x
  have hopen : x.isOpen := by
    rcases hx with rfl | rfl
    · exact hn.isOpen
    · exact hn.isOpen'
  rw [share, share, hticker, hside, hstatus, if_pos hopen.1, if_pos hopen.1,
    h.held_closeLots hn hx, h.netted_closeLots hn hx, decide_eq_true hopen.2]

/-- On its market a netting adds the overlap to either side, elsewhere nothing. -/
theorem LegsOk.nettedOn_closeLots (h : LegsOk legs pairs) (hn : Nettable legs l m)
    (t : String) (side : Side) :
    nettedOn (legs.map (closeLots l m (overlap l m))) t side =
      nettedOn legs t side + if l.ticker = t then overlap l m else 0 := by
  rw [nettedOn_eq, nettedOn_eq, h.weighed_closeLots hn, h.share_closeLots hn (Or.inl rfl),
    h.share_closeLots hn (Or.inr rfl)]
  congr 1
  simp only [onSide, hn.ticker]
  by_cases ht : l.ticker = t
  · have hside := hn.side
    cases hls : l.side <;> cases hms : m.side <;> cases side <;> simp_all
  · simp [ht]

/-- A winning leg takes the overlap from the cover, unless it is used up. -/
theorem LegsOk.cover_winning (h : LegsOk legs pairs) (hn : Nettable legs l m) {x : WingLeg}
    (hx : x = l ∨ x = m) {results : String → Side} (hwin : results x.ticker = x.side) :
    -overlap l m ≤ share (cover results) (closeLots l m (overlap l m) x) -
        share (cover results) x ∧
      (x.held = overlap l m → 0 ≤ share (cover results) (closeLots l m (overlap l m) x) -
        share (cover results) x) := by
  have hpos := h.overlap_pos hn
  have hnonneg : 0 ≤ x.netted := by
    rcases hx with rfl | rfl
    · exact (h.each _ hn.mem).nonneg
    · exact (h.each _ hn.mem').nonneg
  rw [h.share_closeLots hn hx]
  by_cases hopen : 0 < x.held - overlap l m
  · simp only [cover, hwin, decide_true, hopen]
    exact ⟨by linarith, fun heq => by linarith⟩
  · simp only [cover, hwin, decide_true, decide_eq_false hopen]
    exact ⟨by linarith, fun _ => by linarith⟩

/-- A losing leg adds its netted lots to the cover once it is used up. -/
theorem LegsOk.cover_losing (h : LegsOk legs pairs) (hn : Nettable legs l m) {x : WingLeg}
    (hx : x = l ∨ x = m) {results : String → Side} (hlose : results x.ticker ≠ x.side) :
    0 ≤ share (cover results) (closeLots l m (overlap l m) x) - share (cover results) x ∧
      (x.held = overlap l m → overlap l m ≤
        share (cover results) (closeLots l m (overlap l m) x) - share (cover results) x) := by
  have hpos := h.overlap_pos hn
  have hnonneg : 0 ≤ x.netted := by
    rcases hx with rfl | rfl
    · exact (h.each _ hn.mem).nonneg
    · exact (h.each _ hn.mem').nonneg
  rw [h.share_closeLots hn hx]
  by_cases hopen : 0 < x.held - overlap l m
  · simp only [cover, decide_eq_false hlose, hopen, decide_true]
    exact ⟨by linarith, fun heq => by linarith⟩
  · simp only [cover, decide_eq_false hlose, decide_eq_false hopen]
    exact ⟨by linarith, fun _ => by linarith⟩

/-- A netting covers what it takes: one of its two legs is used up. -/
theorem LegsOk.cover_closeLots (h : LegsOk legs pairs) (hn : Nettable legs l m)
    (results : String → Side) :
    weighed legs (cover results) ≤
      weighed (legs.map (closeLots l m (overlap l m))) (cover results) := by
  have hone : l.held = overlap l m ∨ m.held = overlap l m := by
    rw [h.overlap_eq hn]
    rcases le_total l.held m.held with hle | hle
    · exact Or.inl (min_eq_left hle).symm
    · exact Or.inr (min_eq_right hle).symm
  rw [h.weighed_closeLots hn, le_add_iff_nonneg_right]
  by_cases hwin : results l.ticker = l.side
  · have hlose : results m.ticker ≠ m.side := by
      rw [hn.ticker, hwin]
      exact hn.side.symm
    obtain ⟨hl, hl'⟩ := h.cover_winning hn (Or.inl rfl) hwin
    obtain ⟨hm, hm'⟩ := h.cover_losing hn (Or.inr rfl) hlose
    rcases hone with heq | heq
    · linarith [hl' heq]
    · linarith [hm' heq]
  · have hmwin : results m.ticker = m.side := by
      rw [hn.ticker]
      have hside := hn.side
      cases hr : results l.ticker <;> cases hls : l.side <;> cases hms : m.side <;> simp_all
    obtain ⟨hl, hl'⟩ := h.cover_losing hn (Or.inl rfl) hwin
    obtain ⟨hm, hm'⟩ := h.cover_winning hn (Or.inr rfl) hmwin
    rcases hone with heq | heq
    · linarith [hl' heq]
    · linarith [hm' heq]

/-- A leg that nets stays in order. -/
theorem LegsOk.legOk_closeLots (h : LegsOk legs pairs) (hn : Nettable legs l m) {x : WingLeg}
    (hx : x ∈ legs) : LegOk (closeLots l m (overlap l m) x) := by
  rcases h.closeLots_cases hn hx with heq | ⟨hx', heq⟩
  · rw [heq]
    exact h.each x hx
  · obtain ⟨-, -, hcount, hstatus, hprice, hid⟩ := closeLots_frame l m (overlap l m) x
    have hok := h.each x hx
    have hpos := h.overlap_pos hn
    have hle : overlap l m ≤ x.held := by
      rw [h.overlap_eq hn]
      rcases hx' with rfl | rfl
      · exact min_le_left _ _
      · exact min_le_right _ _
    have hfilled : x.status = .filled := by
      rcases hx' with rfl | rfl
      · exact hn.isOpen.1
      · exact hn.isOpen'.1
    rw [WingLeg.held] at hle
    refine ⟨?_, ?_, ?_, ?_, ?_, ?_, ?_⟩
    · rw [heq]
      linarith [hok.nonneg]
    · rw [heq, hcount]
      linarith
    · rw [hcount]
      exact hok.countGrid
    · rw [heq]
      exact hok.nettedGrid.add (onGrid_qCount _)
    · rw [hstatus, hprice]
      exact hok.priced
    · rw [hstatus, hid]
      exact hok.named
    · rw [hstatus]
      exact fun hf => absurd hfilled hf

/-- A netting of an open pair keeps the legs in order. -/
theorem LegsOk.net (h : LegsOk legs pairs) (hn : Nettable legs l m) {np : NettedPair}
    (hticker : np.ticker = l.ticker) (hcount : np.count = overlap l m) :
    LegsOk (legs.map (closeLots l m (overlap l m))) (pairs ++ [np]) where
  each := List.forall_mem_map.mpr fun _ hx => h.legOk_closeLots hn hx
  nodup := by
    have hids : legIds (legs.map (closeLots l m (overlap l m))) = legIds legs := by
      rw [legIds, legIds, List.map_map]
      congr 1
      exact List.map_congr_left fun x _ => (closeLots_frame l m (overlap l m) x).2.2.2.2.2
    rw [hids]
    exact h.nodup
  balanced t side := by
    rw [h.nettedOn_closeLots hn, h.balanced t side, pairedOn, pairedOn, List.map_append,
      List.sum_append, List.map_singleton, List.sum_singleton, pairShare, hticker, hcount]
  covered results := (h.covered results).trans (h.cover_closeLots hn results)

end Legs

/-! ### The netting loop -/

/-- A leg that may net with `l`. -/
def mayNet (l m : WingLeg) : Bool := decide (m.ticker = l.ticker ∧ m.side ≠ l.side ∧ m.isOpen)

/-- The number of legs that `l` may net with. -/
def openOpposites (legs : List WingLeg) (l : WingLeg) : ℕ := legs.countP (mayNet l)

/-- A leg after some nettings. -/
structure NetsLeg (l l' : WingLeg) : Prop where
  ticker : l'.ticker = l.ticker
  side : l'.side = l.side
  count : l'.count = l.count
  status : l'.status = l.status
  id : l'.clientOrderId = l.clientOrderId
  batch : l'.batch = l.batch
  netted : l.netted ≤ l'.netted

/-- A leg nets as it is. -/
theorem NetsLeg.refl (l : WingLeg) : NetsLeg l l := ⟨rfl, rfl, rfl, rfl, rfl, rfl, le_rfl⟩

/-- A leg is netted step by step. -/
theorem NetsLeg.trans {a b c : WingLeg} (h : NetsLeg a b) (k : NetsLeg b c) : NetsLeg a c :=
  ⟨k.ticker.trans h.ticker, k.side.trans h.side, k.count.trans h.count, k.status.trans h.status,
    k.id.trans h.id, k.batch.trans h.batch, h.netted.trans k.netted⟩

/-- Netting opens no leg. -/
theorem NetsLeg.isOpen {l l' : WingLeg} (h : NetsLeg l l') (ho : l'.isOpen) : l.isOpen := by
  obtain ⟨hfilled, hheld⟩ := ho
  rw [h.status] at hfilled
  rw [WingLeg.held, h.count] at hheld
  have hle := h.netted
  exact ⟨hfilled, by rw [WingLeg.held]; linarith⟩

/-- Netting touches the legs and the pairs alone. -/
structure Nets (st st' : V33State) : Prop where
  frame : ∃ legs pairs, st' = { st with wingLegs := legs, nettedPairs := pairs }
  legs : List.Forall₂ NetsLeg st.wingLegs st'.wingLegs

/-- Nothing is netted. -/
theorem Nets.refl (st : V33State) : Nets st st :=
  ⟨⟨st.wingLegs, st.nettedPairs, rfl⟩, List.forall₂_same.mpr fun l _ => NetsLeg.refl l⟩

/-- A state is netted step by step. -/
theorem Nets.trans {a b c : V33State} (h : Nets a b) (k : Nets b c) : Nets a c := by
  obtain ⟨legs, pairs, rfl⟩ := h.frame
  obtain ⟨legs', pairs', rfl⟩ := k.frame
  have htrans : ∀ a b c : WingLeg, NetsLeg a b → NetsLeg b c → NetsLeg a c :=
    fun _ _ _ => NetsLeg.trans
  exact ⟨⟨legs', pairs', rfl⟩, forall₂_trans htrans h.legs k.legs⟩

section Loop

variable {st : V33State} {now : ℚ} {coid : String} {l m : WingLeg}

/-- The legs of the state are in order. -/
def StLegsOk (st : V33State) : Prop :=
  LegsOk st.wingLegs st.nettedPairs

/-- What the search for an opposite leg finds may net with the leg. -/
theorem nettable_of_oppositeLeg (hl : l ∈ st.wingLegs) (ho : l.isOpen)
    (h : oppositeLeg st l = some m) : Nettable st.wingLegs l m ∧ m.fillPrice.isSome := by
  obtain ⟨hm, hcond⟩ := find?_mem_and h
  simp only [Bool.and_eq_true, beq_iff_eq, bne_iff_ne, ne_eq, decide_eq_true_eq] at hcond
  obtain ⟨⟨⟨⟨hticker, hside⟩, hstatus⟩, hprice⟩, hheld⟩ := hcond
  exact ⟨⟨hl, hm, hticker, hside, ho, hstatus, hheld⟩, hprice⟩

/-- The search misses no leg that may net. -/
theorem openOpposites_of_oppositeLeg (h : StLegsOk st) (hnone : oppositeLeg st l = none) :
    openOpposites st.wingLegs l = 0 := by
  refine List.countP_eq_zero.mpr fun m hm hmay => ?_
  obtain ⟨hticker, hside, hstatus, hheld⟩ := of_decide_eq_true hmay
  have hmiss := List.find?_eq_none.mp hnone m hm
  simp [hticker, hside, hstatus, hheld, (h.each m hm).priced hstatus] at hmiss

/-- One netting of the loop. -/
theorem netPair_spec (h : StLegsOk st) (hn : Nettable st.wingLegs l m) (lPrice mPrice : ℚ) :
    StLegsOk (netPair st l m lPrice mPrice (overlap l m) now).st ∧
      Nets st (netPair st l m lPrice mPrice (overlap l m) now).st := by
  refine ⟨h.net hn rfl rfl, ⟨_, _, rfl⟩, ?_⟩
  refine List.forall₂_map_right_iff.mpr (List.forall₂_same.mpr fun x hx => ?_)
  have hpos := h.overlap_pos hn
  rcases h.closeLots_cases hn hx with heq | ⟨-, heq⟩
  · change NetsLeg x (closeLots l m (overlap l m) x)
    rw [heq]
    exact NetsLeg.refl x
  · change NetsLeg x (closeLots l m (overlap l m) x)
    obtain ⟨hticker, hside, hcount, hstatus, -, hid⟩ := closeLots_frame l m (overlap l m) x
    refine ⟨hticker, hside, hcount, hstatus, hid, ?_, by rw [heq]; linarith⟩
    unfold closeLots
    split_ifs <;> rfl

/-- The leg the loop nets is the same one after a netting. -/
theorem legOf_netPair (h : legOf st coid = some l) (lPrice mPrice q : ℚ) :
    legOf (netPair st l m lPrice mPrice q now).st coid = some (closeLots l m q l) := by
  unfold legOf at h ⊢
  change List.find? _ (st.wingLegs.map (closeLots l m q)) = _
  rw [List.find?_map]
  have hsame : ((fun x : WingLeg => x.clientOrderId == coid) ∘ closeLots l m q) =
      fun x => x.clientOrderId == coid := by
    funext x
    exact congrArg (· == coid) (closeLots_frame l m q x).2.2.2.2.2
  rw [hsame, h]
  rfl

/-- A netting uses up one of its two legs. -/
theorem netted_one (h : StLegsOk st) (hn : Nettable st.wingLegs l m) :
    ¬(closeLots l m (overlap l m) l).isOpen ∨ ¬(closeLots l m (overlap l m) m).isOpen := by
  have hmin := h.overlap_eq hn
  have hclosed : ∀ x, (x = l ∨ x = m) → overlap l m = x.held →
      ¬(closeLots l m (overlap l m) x).isOpen := by
    intro x hx hq ho
    have hheld := ho.2
    rw [WingLeg.held, h.netted_closeLots hn hx, (closeLots_frame l m (overlap l m) x).2.2.1, hq,
      WingLeg.held] at hheld
    linarith
  rcases le_total l.held m.held with hle | hle
  · exact Or.inl (hclosed l (Or.inl rfl) (by rw [hmin, min_eq_left hle]))
  · exact Or.inr (hclosed m (Or.inr rfl) (by rw [hmin, min_eq_right hle]))

/-- A netting that leaves its leg open leaves it one leg less to net with. -/
theorem openOpposites_netPair (h : StLegsOk st) (hn : Nettable st.wingLegs l m)
    (ho : (closeLots l m (overlap l m) l).isOpen) (lPrice mPrice : ℚ) :
    openOpposites (netPair st l m lPrice mPrice (overlap l m) now).st.wingLegs
        (closeLots l m (overlap l m) l) < openOpposites st.wingLegs l := by
  have hm := (netted_one h hn).resolve_left (not_not_intro ho)
  have hframe := closeLots_frame l m (overlap l m)
  change (st.wingLegs.map (closeLots l m (overlap l m))).countP _ < _
  rw [List.countP_map]
  refine countP_lt_of_imp (x := m) (fun y hy hmay => ?_) hn.mem' ?_ ?_
  · obtain ⟨hticker, hside, hopen⟩ := of_decide_eq_true hmay
    have hnets := exists_of_forall₂ (@netPair_spec st now l m h hn lPrice mPrice).2.legs
      (List.mem_map_of_mem hy)
    have hopen' : y.isOpen := by
      rcases h.closeLots_cases hn hy with heq | ⟨rfl | rfl, -⟩
      · rwa [heq] at hopen
      · exact hn.isOpen
      · exact hn.isOpen'
    rw [(hframe y).1, (hframe l).1] at hticker
    rw [(hframe y).2.1, (hframe l).2.1] at hside
    exact decide_eq_true ⟨hticker, hside, hopen'⟩
  · exact decide_eq_false fun hmay => hm hmay.2.2
  · exact decide_eq_true ⟨hn.ticker, hn.side, hn.isOpen'⟩

/-- A leg with nothing left is not netted. -/
theorem netLoop_of_not_open (hl : legOf st coid = some l) (ho : ¬l.isOpen) (fuel : ℕ) :
    netLoop coid now fuel st = st.quiet := by
  cases fuel with
  | zero => rfl
  | succ fuel =>
    unfold netLoop
    rw [hl]
    exact if_neg ho

/-- The loop keeps the legs in order and, with enough rounds for the opposite legs, ends when
the leg is used up or no opposite leg has lots left. -/
theorem netLoop_spec (h : StLegsOk st) (fuel : ℕ) :
    StLegsOk (netLoop coid now fuel st).st ∧ Nets st (netLoop coid now fuel st).st ∧
      ∀ l, legOf st coid = some l → openOpposites st.wingLegs l ≤ fuel →
        ∀ l', legOf (netLoop coid now fuel st).st coid = some l' → l'.isOpen →
          openOpposites (netLoop coid now fuel st).st.wingLegs l' = 0 := by
  induction fuel generalizing st with
  | zero =>
    refine ⟨h, Nets.refl st, fun l hl hzero l' hl' _ => ?_⟩
    obtain rfl := Option.some.inj (hl.symm.trans hl')
    exact Nat.le_zero.mp hzero
  | succ fuel ih =>
    cases hl : legOf st coid with
    | none =>
      have hquiet : netLoop coid now (fuel + 1) st = st.quiet := by
        unfold netLoop
        rw [hl]
      rw [hquiet]
      exact ⟨h, Nets.refl st, by simp⟩
    | some l =>
      by_cases ho : l.isOpen
      · have hmem : l ∈ st.wingLegs := List.mem_of_find?_eq_some hl
        obtain ⟨lPrice, hlp⟩ := Option.isSome_iff_exists.mp ((h.each l hmem).priced ho.1)
        cases hm : oppositeLeg st l with
        | none =>
          have hquiet : netLoop coid now (fuel + 1) st = st.quiet := by
            unfold netLoop
            simp only [hl, hlp, hm]
            split_ifs <;> rfl
          rw [hquiet]
          refine ⟨h, Nets.refl st, fun l₁ hl₁ _ l' hl' _ => ?_⟩
          obtain rfl := Option.some.inj hl₁
          obtain rfl := Option.some.inj (hl.symm.trans hl')
          exact openOpposites_of_oppositeLeg h hm
        | some m =>
          obtain ⟨hn, hpriced⟩ := nettable_of_oppositeLeg hmem ho hm
          obtain ⟨mPrice, hmp⟩ := Option.isSome_iff_exists.mp hpriced
          have hpos : ¬overlap l m ≤ 0 := not_le.mpr (h.overlap_pos hn)
          have hstep : netLoop coid now (fuel + 1) st =
              (netPair st l m lPrice mPrice (overlap l m) now).andThen
                (netLoop coid now fuel) := by
            rw [overlap] at hpos ⊢
            conv_lhs => unfold netLoop
            simp only [hl, hlp, hm, hmp]
            rw [if_pos (show l.status = .filled ∧ 0 < l.held from ho), if_neg hpos]
          obtain ⟨hok, hnets⟩ := @netPair_spec st now l m h hn lPrice mPrice
          obtain ⟨hok', hnets', hend⟩ := ih hok
          rw [hstep]
          refine ⟨hok', hnets.trans hnets', fun l₁ hl₁ hfew l' hl' ho' => ?_⟩
          obtain rfl := Option.some.inj hl₁
          have hnext := @legOf_netPair st now coid l m hl lPrice mPrice (overlap l m)
          by_cases hopen : (closeLots l m (overlap l m) l).isOpen
          · have hless := @openOpposites_netPair st now l m h hn hopen lPrice mPrice
            exact hend _ hnext (by omega) l' hl' ho'
          · rw [andThen_st, netLoop_of_not_open hnext hopen] at hl' ⊢
            obtain rfl := Option.some.inj (hnext.symm.trans hl')
            exact absurd ho' hopen
      · rw [netLoop_of_not_open hl ho]
        refine ⟨h, Nets.refl st, fun l₁ hl₁ _ l' hl' ho' => ?_⟩
        obtain rfl := Option.some.inj (hl.symm.trans hl')
        exact absurd ho' ho

/-! ### The markets stay settled -/

/-- Legs that keep their market keep the number on a side. -/
theorem length_sideLegs {R : WingLeg → WingLeg → Prop} {legs legs' : List WingLeg}
    (hticker : ∀ l l', R l l' → l'.ticker = l.ticker) (hside : ∀ l l', R l l' → l'.side = l.side)
    (h : List.Forall₂ R legs legs') (t : String) (side : Side) :
    (sideLegs legs' t side).length = (sideLegs legs t side).length := by
  induction h with
  | nil => rfl
  | @cons l l' _ _ hl _ ih =>
    simp only [sideLegs, List.filter_cons, hticker l l' hl, hside l l' hl] at ih ⊢
    split_ifs
    · simpa using ih
    · exact ih

/-- Where no leg opens, a settled market stays settled. -/
theorem SettledOn.of_forall₂ {R : WingLeg → WingLeg → Prop} {legs legs' : List WingLeg}
    {t : String} (h : SettledOn legs t) (hlegs : List.Forall₂ R legs legs')
    (hR : ∀ l l', R l l' → l'.ticker = l.ticker ∧ l'.side = l.side ∧ (l'.isOpen → l.isOpen)) :
    SettledOn legs' t := by
  have hback : ∀ side, OpenOn legs' t side → OpenOn legs t side := by
    rintro side ⟨l', hl', rfl, rfl, ho⟩
    obtain ⟨l, hl, hrel⟩ := exists_of_forall₂ hlegs hl'
    obtain ⟨hticker, hside, hopen⟩ := hR l l' hrel
    exact ⟨l, hl, hticker.symm, hside.symm, hopen ho⟩
  exact fun hboth => h ⟨hback _ hboth.1, hback _ hboth.2⟩

/-- The legs a leg may net with are on the other side of its market. -/
theorem openOpposites_lt {legs : List WingLeg} {t : String} (hfew : FewLegs legs t)
    (ht : l.ticker = t) : openOpposites legs l < 64 := by
  have hside : ∃ side : Side, ∀ m : WingLeg, m.side ≠ l.side → m.side = side := by
    cases hl : l.side with
    | yes => exact ⟨.no, fun m hm => by cases hms : m.side <;> simp_all⟩
    | no => exact ⟨.yes, fun m hm => by cases hms : m.side <;> simp_all⟩
  obtain ⟨side, hside⟩ := hside
  refine lt_of_le_of_lt ?_ (hfew side)
  rw [openOpposites, sideLegs, ← List.countP_eq_length_filter]
  refine List.countP_mono_left fun m _ hmay => ?_
  obtain ⟨hticker, hother, -⟩ := of_decide_eq_true hmay
  exact decide_eq_true ⟨hticker.trans ht, hside m hother⟩

/-- What an answer does to the legs. -/
structure AnswersOne (coid : String) (l l' : WingLeg) : Prop where
  ticker : l'.ticker = l.ticker
  side : l'.side = l.side
  id : l'.clientOrderId = l.clientOrderId
  same : l'.clientOrderId ≠ coid → l' = l

/-- After the answer to a leg and its netting the markets with few legs are settled, if they
were before. -/
theorem settled_netWings (h : StLegsOk st) (hne : coid ≠ "")
    (hsettled : ∀ t, FewLegs st.wingLegs t → SettledOn st.wingLegs t) (price : ℚ) (t : String)
    {answered : V33State} (hanswered : answered = { st with
      wingLegs := replaceFirst (fun l => l.clientOrderId == coid) (answeredLeg price)
        st.wingLegs })
    (hfew : FewLegs (netWings answered coid now).st.wingLegs t) :
    SettledOn (netWings answered coid now).st.wingLegs t := by
  have hok : StLegsOk answered := by
    rw [hanswered]
    exact h.answered hne price
  obtain ⟨hok', hnets, hend⟩ := @netLoop_spec answered now coid hok 64
  have hone : List.Forall₂ (AnswersOne coid) st.wingLegs answered.wingLegs := by
    rw [hanswered]
    exact forall₂_replaceFirst (fun _ => ⟨rfl, rfl, rfl, fun _ => rfl⟩)
      (fun x hx => ⟨rfl, rfl, rfl, fun hne =>
        absurd (show x.clientOrderId = coid by simpa using hx) hne⟩) _
  have hfewAnswered : FewLegs answered.wingLegs t := fun side => by
    rw [← length_sideLegs (fun _ _ hr => hr.ticker) (fun _ _ hr => hr.side) hnets.legs]
    exact hfew side
  have hfewBefore : FewLegs st.wingLegs t := fun side => by
    rw [← length_sideLegs (fun _ _ hr => hr.ticker) (fun _ _ hr => hr.side) hone]
    exact hfewAnswered side
  -- An open leg under the answered id has nothing left to net with.
  have halone : ∀ x ∈ (netWings answered coid now).st.wingLegs, x.clientOrderId = coid →
      x.ticker = t → x.isOpen →
        openOpposites (netWings answered coid now).st.wingLegs x = 0 := by
    intro x hx hid ht ho
    have hfind : legOf (netWings answered coid now).st coid = some x := by
      cases hf : legOf (netWings answered coid now).st coid with
      | none => exact absurd (by simpa using hid) (List.find?_eq_none.mp hf x hx)
      | some y =>
        obtain ⟨hy, hyid⟩ := find?_mem_and hf
        rw [hok'.unique hx hy (hid ▸ hne) (by rw [hid]; simpa using hyid)]
    obtain ⟨y, hy, hxy⟩ := exists_of_forall₂ hnets.legs hx
    have hfind' : legOf answered coid = some y := by
      cases hf : legOf answered coid with
      | none =>
        exact absurd (by simp [← hxy.id, hid]) (List.find?_eq_none.mp hf y hy)
      | some z =>
        obtain ⟨hz, hzid⟩ := find?_mem_and hf
        have hyid : y.clientOrderId = coid := hxy.id.symm.trans hid
        rw [hok.unique hy hz (hyid ▸ hne) (by rw [hyid]; simpa using hzid)]
    exact hend y hfind' (openOpposites_lt hfewAnswered (hxy.ticker.symm.trans ht)).le x hfind ho
  -- Any other open leg was open before.
  have hbefore : ∀ x ∈ (netWings answered coid now).st.wingLegs, x.clientOrderId ≠ coid →
      x.isOpen → ∃ y ∈ st.wingLegs, y.ticker = x.ticker ∧ y.side = x.side ∧ y.isOpen := by
    intro x hx hid ho
    obtain ⟨y, hy, hxy⟩ := exists_of_forall₂ hnets.legs hx
    obtain ⟨z, hz, hyz⟩ := exists_of_forall₂ hone hy
    have hsame := hyz.same fun heq => hid (hxy.id.trans heq)
    subst hsame
    exact ⟨y, hz, hxy.ticker.symm, hxy.side.symm, hxy.isOpen ho⟩
  rintro ⟨⟨y, hy, hyt, hys, hyo⟩, n, hn, hnt, hns, hno⟩
  have hclash : ∀ a ∈ (netWings answered coid now).st.wingLegs,
      ∀ b ∈ (netWings answered coid now).st.wingLegs, a.ticker = t → b.ticker = t →
        b.side ≠ a.side → b.isOpen → a.isOpen → a.clientOrderId = coid → False := by
    intro a ha b hb hat hbt hside hbo hao hid
    have hzero := List.countP_eq_zero.mp (halone a ha hid hat hao) b hb
    exact hzero (decide_eq_true ⟨hbt.trans hat.symm, hside, hbo⟩)
  by_cases hyid : y.clientOrderId = coid
  · exact hclash y hy n hn hyt hnt (by rw [hys, hns]; decide) hno hyo hyid
  · by_cases hnid : n.clientOrderId = coid
    · exact hclash n hn y hy hnt hyt (by rw [hys, hns]; decide) hyo hno hnid
    · obtain ⟨y', hy', hyt', hys', hyo'⟩ := hbefore y hy hyid hyo
      obtain ⟨n', hn', hnt', hns', hno'⟩ := hbefore n hn hnid hno
      exact hsettled t hfewBefore ⟨⟨y', hy', hyt'.trans hyt, hys'.trans hys, hyo'⟩,
        n', hn', hnt'.trans hnt, hns'.trans hns, hno'⟩

end Loop

end Pilot.V33
