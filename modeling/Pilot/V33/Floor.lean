import Pilot.V33.Ledger
import Pilot.V33.Netting
import Pilot.V33.Runs
import Mathlib.Algebra.Order.BigOperators.Group.List

/-!
# The guaranteed floor

A bucket NO and the wings around its bucket pay two dollars a lot wherever the price settles,
and what two batches net between them is paid at once. The floor a window books counts the
legs a batch still holds, each for the lots of the whole batch.
-/

namespace Pilot.V33

/-! ### Windows of hedged batches -/

/-- Legs that have been sent or wait for their book, with nothing netted. -/
structure FreshLegs (st : V33State) : Prop where
  pairs : st.nettedPairs = []
  unfilled : ∀ l ∈ st.wingLegs, Unfilled l
  nodup : (legIds st.wingLegs).Nodup

/-- The leg of an id is filled at a price and netted. -/
def fillAndNet (st : V33State) (coid : String) (price now : ℚ) : V33State :=
  (netWings
    { st with
      wingLegs := replaceFirst (fun l => l.clientOrderId == coid) (answeredLeg price)
        st.wingLegs } coid now).st

/-- Legs of which some have been filled, one after the other, and netted as they filled. -/
inductive Netted : V33State → Prop
  | fresh {st : V33State} (h : FreshLegs st) : Netted st
  | fill {st : V33State} (h : Netted st) (coid : String) (named : coid ≠ "") (price now : ℚ) :
      Netted (fillAndNet st coid price now)

/-- Fresh legs are in order. -/
theorem FreshLegs.legsOk {st : V33State} (h : FreshLegs st) : StLegsOk st := by
  have hok := LegsOk.nil.append h.unfilled (by simp [legIds]) h.nodup
  rwa [List.nil_append, ← h.pairs] at hok

/-- However they were filled, the legs are in order. -/
theorem Netted.legsOk {st : V33State} (h : Netted st) : StLegsOk st := by
  induction h with
  | fresh hfresh => exact hfresh.legsOk
  | @fill st _ coid named price now ih =>
    have hanswered : StLegsOk { st with
        wingLegs := replaceFirst (fun l => l.clientOrderId == coid) (answeredLeg price)
          st.wingLegs } := LegsOk.answered ih named price
    exact (@netLoop_spec _ now coid hanswered 64).1

/-- The strike a wing is taken on: the YES wing at the floor of the bucket, the NO wing at its
end. -/
def wingStrike (p : V33Params) (sd : ℤ) (side : Side) : ℤ :=
  match side with
  | .yes => sd
  | .no => sd + p.bucketWidth

/-- A window of hedged batches: a batch is listed on the market of its bucket and has at most
one wing on each side, on the strikes around the bucket. -/
structure PinShape (p : V33Params) (bucketMarket strikeMarket : ℤ → String) (st : V33State) :
    Prop where
  width : 0 ≤ p.bucketWidth
  indices : (st.wingBatches.map WingBatch.index).Nodup
  owned : ∀ l ∈ st.wingLegs, l.batch ∈ st.wingBatches.map WingBatch.index
  bucket : ∀ b ∈ st.wingBatches, ∃ sd, batchBucket b = some sd ∧
    batchTicker st b = some (bucketMarket sd) ∧
      ∀ l ∈ batchLegs st b.index, l.ticker = strikeMarket (wingStrike p sd l.side)
  wings : ∀ b ∈ st.wingBatches, ∀ side,
    (batchLegs st b.index).countP (fun l => l.side = side) ≤ 1
  lots : ∀ b ∈ st.wingBatches, ∀ f ∈ b.fills, 0 ≤ f.count ∧ OnGrid 100 f.count

/-- The results of the markets of a bucket and of its wings when the price settles at `x`. -/
structure SettlesAt (p : V33Params) (bucketMarket strikeMarket : ℤ → String) (x : ℚ)
    (results : String → Side) (sd : ℤ) : Prop where
  bucket : results (bucketMarket sd) =
    if (sd : ℚ) ≤ x ∧ x < sd + p.bucketWidth then .yes else .no
  strike : ∀ side, results (strikeMarket (wingStrike p sd side)) =
    if (wingStrike p sd side : ℚ) ≤ x then .yes else .no

/-- The markets of a window settle at the price `x`. -/
def Settles (p : V33Params) (bucketMarket strikeMarket : ℤ → String) (st : V33State) (x : ℚ)
    (results : String → Side) : Prop :=
  ∀ b ∈ st.wingBatches, ∀ sd ∈ batchBucket b, SettlesAt p bucketMarket strikeMarket x results sd

/-- The fills of every batch are of its bucket. -/
def SingleBucket (st : V33State) : Prop :=
  ∀ b ∈ st.wingBatches, ∀ f ∈ b.fills, f.bucketSd = batchBucket b

/-- What a window books as its floor is paid. -/
def FloorHolds (st : V33State) (results : String → Side) : Prop :=
  ∀ drySim, ∀ floor ∈ (computeLadderMoneyMath st drySim).floorBooked,
    floor ≤ settlementPayoff (computeLadderMoneyMath st drySim).heldLegs results + nettedCredit st

/-- The netted dollars are on both sides: what counts is the floor of the batches. -/
theorem floorHolds_iff (st : V33State) (results : String → Side) :
    FloorHolds st results ↔ (st.restFills ≠ [] → (st.wingBatches.map (batchFloor st)).sum ≤
      settlementPayoff (st.wingBatches.flatMap (heldOfBatch st)) results) := by
  unfold FloorHolds computeLadderMoneyMath
  by_cases hempty : st.restFills = []
  · simp [hempty]
  · have hfalse : ¬st.restFills.isEmpty = true := fun h => hempty (List.isEmpty_iff.mp h)
    simp only [if_neg hfalse, Option.mem_def, Option.some.injEq, forall_eq', ne_eq, hempty,
      not_false_eq_true, forall_const]
    exact add_le_add_iff_right _

/-! ### The legs of the batches -/

section Batches

variable {st : V33State}

/-- A sum over the legs of every batch is one over the legs. -/
theorem sum_batchLegs (hnodup : (st.wingBatches.map WingBatch.index).Nodup)
    (howned : ∀ l ∈ st.wingLegs, l.batch ∈ st.wingBatches.map WingBatch.index)
    (g : WingLeg → ℚ) :
    (st.wingBatches.map fun b => ((batchLegs st b.index).map g).sum).sum =
      (st.wingLegs.map g).sum := by
  have hsum := Dict.sum_map_filter_key WingLeg.batch g hnodup howned
  rwa [List.map_map] at hsum

/-- The payoff of the listed legs is that of the batches. -/
theorem settlementPayoff_flatMap (held : WingBatch → List HeldLeg) (bs : List WingBatch)
    (results : String → Side) :
    settlementPayoff (bs.flatMap held) results =
      (bs.map fun b => settlementPayoff (held b) results).sum :=
  sum_map_flatMap _ held bs

end Batches

/-! ### One batch -/

section Batch

variable {p : V33Params} {bucketMarket strikeMarket : ℤ → String} {st : V33State}
  {results : String → Side} {x : ℚ}

/-- What a leg is listed for, if it is. -/
def wingPayoff (results : String → Side) (l : WingLeg) : ℚ :=
  if l.isOpen ∧ results l.ticker = l.side then l.held else 0

/-- What the floor counts for a leg of a batch of some lots. -/
def wingFloor (lots : ℚ) (l : WingLeg) : ℚ := if l.isOpen then lots else 0

/-- The held wings pay what each leg pays. -/
theorem settlementPayoff_heldWings {legs : List WingLeg} (hgrid : ∀ l ∈ legs, OnGrid 100 l.held)
    (results : String → Side) :
    settlementPayoff (legs.filterMap heldWing) results = (legs.map (wingPayoff results)).sum := by
  induction legs with
  | nil => rfl
  | cons l legs ih =>
    have hrest := ih fun x hx => hgrid x (by simp [hx])
    rw [List.map_cons, List.sum_cons, ← hrest]
    by_cases hopen : l.isOpen
    · have hlisted : heldWing l = some ⟨l.ticker, l.side, l.held⟩ := by
        rw [heldWing, if_pos (show l.status = .filled ∧ 0 < l.held from hopen),
          qCount_of_onGrid (hgrid l (by simp))]
      rw [List.filterMap_cons_some hlisted, settlementPayoff, List.map_cons, List.sum_cons,
        settlementPayoff, wingPayoff]
      simp [hopen]
    · have hnone : heldWing l = none := if_neg hopen
      rw [List.filterMap_cons_none hnone, wingPayoff, if_neg fun h => hopen h.1, zero_add]

/-- The number of held wings is the sum of what each adds to it. -/
theorem length_heldWings (lots : ℚ) (legs : List WingLeg) :
    ((legs.filterMap heldWing).length : ℚ) * lots = (legs.map (wingFloor lots)).sum := by
  induction legs with
  | nil => simp
  | cons l legs ih =>
    rw [List.map_cons, List.sum_cons, ← ih]
    by_cases hopen : l.isOpen
    · have hlisted : heldWing l = some ⟨l.ticker, l.side, qCount l.held⟩ := if_pos hopen
      rw [List.filterMap_cons_some hlisted, List.length_cons, wingFloor, if_pos hopen]
      push_cast
      ring
    · have hnone : heldWing l = none := if_neg hopen
      rw [List.filterMap_cons_none hnone, wingFloor, if_neg hopen, zero_add]

/-- A filled leg on the losing side is what a batch outside the price pays for. -/
def losing (results : String → Side) (l : WingLeg) : Bool :=
  decide (l.status = .filled ∧ results l.ticker ≠ l.side)

/-- A leg of the size of its batch or without lots: what it is paid covers its floor up to what
it has netted, unless it loses. -/
theorem wingFloor_le {l : WingLeg} (hl : LegOk l) {lots : ℚ} (hlots : 0 ≤ lots)
    (hsize : l.status = .filled → l.count = lots ∨ l.count = 0) :
    wingFloor lots l + share (cover results) l ≤
      wingPayoff results l + if losing results l then lots else 0 := by
  have hle := hl.le_count
  have hnonneg := hl.nonneg
  by_cases hf : l.status = .filled
  · by_cases hheld : 0 < l.held
    · have hopen : l.isOpen := ⟨hf, hheld⟩
      have hleft : l.held = lots - l.netted := by
        rw [WingLeg.held] at hheld ⊢
        rcases hsize hf with hcount | hcount <;> linarith
      by_cases hwin : results l.ticker = l.side
      · simp [share, cover, losing, wingPayoff, wingFloor, hopen, hf, hwin, hheld]
        linarith
      · simp [share, cover, losing, wingPayoff, wingFloor, hopen, hf, hwin, hheld]
    · have hopen : ¬l.isOpen := fun ho => hheld ho.2
      have hused : l.netted ≤ lots := by
        rcases hsize hf with hcount | hcount <;> linarith
      by_cases hwin : results l.ticker = l.side
      · simp [share, cover, losing, wingPayoff, wingFloor, hopen, hf, hwin, hheld]
      · simpa [share, cover, losing, wingPayoff, wingFloor, hopen, hf, hwin, hheld] using hused
  · have hopen : ¬l.isOpen := fun ho => hf ho.1
    simp [share, losing, wingPayoff, wingFloor, hopen, hf]

/-- A sum of one value over the items of a kind is their number times it. -/
theorem sum_map_countP {α : Type} (q : α → Bool) (v : ℚ) (l : List α) :
    (l.map fun x => if q x then v else 0).sum = l.countP q * v := by
  induction l with
  | nil => simp
  | cons x l ih =>
    rw [List.map_cons, List.sum_cons, ih]
    by_cases hq : q x = true
    · rw [List.countP_cons_of_pos hq, if_pos hq]
      push_cast
      ring
    · rw [List.countP_cons_of_neg hq, if_neg hq, zero_add]

/-- A wing is lost only with the price outside the bucket, and then on one side of it. -/
theorem side_of_lost (hwidth : 0 ≤ p.bucketWidth) {sd : ℤ}
    (hsettles : SettlesAt p bucketMarket strikeMarket x results sd) {l : WingLeg}
    (hstrike : l.ticker = strikeMarket (wingStrike p sd l.side))
    (hlost : results l.ticker ≠ l.side) :
    results (bucketMarket sd) = .no ∧ l.side = if x < sd then .yes else .no := by
  have hwidth' : (0 : ℚ) ≤ p.bucketWidth := by exact_mod_cast hwidth
  rw [hstrike, hsettles.strike] at hlost
  rw [hsettles.bucket]
  cases hs : l.side with
  | yes =>
    have hlow : ¬(sd : ℚ) ≤ x := fun hle => hlost (by simp [hs, wingStrike, hle])
    rw [if_neg fun hin => hlow hin.1, if_pos (not_le.mp hlow)]
    exact ⟨rfl, rfl⟩
  | no =>
    have hhigh : (sd : ℚ) + p.bucketWidth ≤ x := by
      by_contra hlt
      refine hlost ?_
      rw [hs, wingStrike, if_neg (by push_cast; exact hlt)]
    rw [if_neg fun hin => not_lt.mpr hhigh hin.2, if_neg (by linarith)]
    exact ⟨rfl, rfl⟩

/-- At most one wing of a batch loses, and only with the price outside the bucket. -/
theorem countP_lost_le (hshape : PinShape p bucketMarket strikeMarket st) {b : WingBatch}
    (hb : b ∈ st.wingBatches) {sd : ℤ}
    (hsettles : SettlesAt p bucketMarket strikeMarket x results sd)
    (hlegs : ∀ l ∈ batchLegs st b.index, l.ticker = strikeMarket (wingStrike p sd l.side))
    {q : WingLeg → Bool} (hlost : ∀ l, q l = true → results l.ticker ≠ l.side) :
    (batchLegs st b.index).countP q ≤ if results (bucketMarket sd) = .no then 1 else 0 := by
  have hside : ∀ l ∈ batchLegs st b.index, q l = true →
      results (bucketMarket sd) = .no ∧ l.side = if x < sd then .yes else .no :=
    fun l hl hq => side_of_lost hshape.width hsettles (hlegs l hl) (hlost l hq)
  by_cases hno : results (bucketMarket sd) = .no
  · rw [if_pos hno]
    exact (List.countP_mono_left fun l hl hq => decide_eq_true (hside l hl hq).2).trans
      (hshape.wings b hb (if x < sd then .yes else .no))
  · rw [if_neg hno, List.countP_eq_zero.mpr fun l hl hq => hno (hside l hl hq).1]

/-- What the losing wings of a batch are counted for is paid on its bucket NO. -/
theorem losingLots_le (hshape : PinShape p bucketMarket strikeMarket st)
    {b : WingBatch} (hb : b ∈ st.wingBatches) {sd : ℤ}
    (hsettles : SettlesAt p bucketMarket strikeMarket x results sd)
    (hlegs : ∀ l ∈ batchLegs st b.index, l.ticker = strikeMarket (wingStrike p sd l.side))
    {lots : ℚ} (hlots : 0 ≤ lots) :
    ((batchLegs st b.index).map fun l => if losing results l then lots else 0).sum ≤
      if results (bucketMarket sd) = .no then lots else 0 := by
  have hcount := countP_lost_le (q := losing results) hshape hb hsettles hlegs
    fun l hlose => (of_decide_eq_true hlose).2
  rw [sum_map_countP]
  by_cases hno : results (bucketMarket sd) = .no
  · rw [if_pos hno] at hcount ⊢
    exact mul_le_of_le_one_left hlots (by exact_mod_cast hcount)
  · rw [if_neg hno, Nat.le_zero] at hcount
    rw [if_neg hno, hcount, Nat.cast_zero, zero_mul]

/-- The size of a batch is never negative. -/
theorem totalCount_nonneg (hshape : PinShape p bucketMarket strikeMarket st) {b : WingBatch}
    (hb : b ∈ st.wingBatches) : 0 ≤ b.totalCount :=
  List.sum_nonneg fun c hc => by
    obtain ⟨f, hf, rfl⟩ := List.mem_map.mp hc
    exact (hshape.lots b hb f hf).1

/-- The size of a batch has two decimals. -/
theorem onGrid_totalCount (hshape : PinShape p bucketMarket strikeMarket st) {b : WingBatch}
    (hb : b ∈ st.wingBatches) : OnGrid 100 b.totalCount :=
  onGrid_sum fun c hc => by
    obtain ⟨f, hf, rfl⟩ := List.mem_map.mp hc
    exact (hshape.lots b hb f hf).2

/-- The wings of a batch are of its size once they are filled, or have no lots. -/
def Sized (st : V33State) (b : WingBatch) : Prop :=
  ∀ l ∈ batchLegs st b.index, l.status = .filled → l.count = b.totalCount ∨ l.count = 0

/-- What a batch lists is paid: its lots on NO and its open wings. -/
theorem payoff_heldOfBatch (hshape : PinShape p bucketMarket strikeMarket st) (hok : StLegsOk st)
    {b : WingBatch} (hb : b ∈ st.wingBatches) {t : String} (hmarket : batchTicker st b = some t) :
    settlementPayoff (heldOfBatch st b) results =
      (if results t = .no then b.totalCount else 0) +
        ((batchLegs st b.index).map (wingPayoff results)).sum := by
  have heach : ∀ l ∈ batchLegs st b.index, LegOk l := fun l hl =>
    hok.each l (List.mem_of_mem_filter hl)
  rw [← settlementPayoff_heldWings fun l hl =>
    (heach l hl).countGrid.sub (heach l hl).nettedGrid]
  rw [heldOfBatch, hmarket, settlementPayoff, settlementPayoff,
    qCount_of_onGrid (onGrid_totalCount hshape hb)]
  simp

/-- The open wings of a batch that the results pay. -/
def paidWings (st : V33State) (results : String → Side) (b : WingBatch) : List WingLeg :=
  (batchLegs st b.index).filter fun l => decide (l.isOpen ∧ results l.ticker = l.side)

/-- The open wings of a batch that the results do not pay. -/
def lostWings (st : V33State) (results : String → Side) (b : WingBatch) : List WingLeg :=
  (batchLegs st b.index).filter fun l => decide (l.isOpen ∧ results l.ticker ≠ l.side)

/-- The legs a batch holds: its open wings and its bucket NO. -/
def openLegs (st : V33State) (b : WingBatch) : ℕ :=
  ((batchLegs st b.index).filter fun l => decide l.isOpen).length + 1

/-- The market of a batch settles NO. -/
def BucketNoPaid (st : V33State) (results : String → Side) (b : WingBatch) : Prop :=
  (batchTicker st b).map results = some .no

instance (st : V33State) (results : String → Side) (b : WingBatch) :
    Decidable (BucketNoPaid st results b) :=
  inferInstanceAs (Decidable (_ = _))

/-- The lots that wings have left fall short of the lots each is counted for. -/
def shortOf (lots : ℚ) (wings : List WingLeg) : ℚ := (wings.map fun l => lots - l.held).sum

/-- A batch has lots to spare if its bucket NO is paid and none of its open wings is lost. -/
def spareOf (st : V33State) (results : String → Side) (lots : ℚ) (b : WingBatch) : ℚ :=
  if BucketNoPaid st results b ∧ lostWings st results b = [] then lots else 0

/-- The bucket leg of a batch is paid when its market settles no. -/
theorem bucketNoPaid_iff {b : WingBatch} {t : String} (hmarket : batchTicker st b = some t) :
    BucketNoPaid st results b ↔ results t = .no := by
  simp [BucketNoPaid, hmarket]

/-- The paid wings of a batch are paid the lots they have left. -/
theorem sum_wingPayoff (b : WingBatch) :
    ((batchLegs st b.index).map (wingPayoff results)).sum =
      ((paidWings st results b).map WingLeg.held).sum := by
  have hzero : ∀ l ∈ batchLegs st b.index,
      decide (l.isOpen ∧ results l.ticker = l.side) = false → wingPayoff results l = 0 :=
    fun l _ hnot => if_neg (of_decide_eq_false hnot)
  rw [← sum_map_filter_of_zero hzero, ← paidWings]
  congr 1
  exact List.map_congr_left fun l hl => if_pos (of_decide_eq_true (List.mem_filter.mp hl).2)

/-- The held lots and those short of the full size make up the full size. -/
theorem sum_add_shortOf (lots : ℚ) (wings : List WingLeg) :
    (wings.map WingLeg.held).sum + shortOf lots wings = wings.length * lots := by
  induction wings with
  | nil => simp [shortOf]
  | cons l wings ih =>
    rw [shortOf] at ih ⊢
    rw [List.map_cons, List.map_cons, List.sum_cons, List.sum_cons, List.length_cons]
    push_cast
    linarith

/-- The open wings of a batch are paid or lost. -/
theorem openLegs_eq (st : V33State) (results : String → Side) (b : WingBatch) :
    openLegs st b = (paidWings st results b).length + (lostWings st results b).length + 1 := by
  simp only [openLegs, paidWings, lostWings, ← List.countP_eq_length_filter]
  induction batchLegs st b.index with
  | nil => rfl
  | cons l legs ih =>
    by_cases ho : l.isOpen <;> by_cases hr : results l.ticker = l.side <;>
      simp [ho, hr] at ih ⊢ <;> omega

/-- The legs a batch lists are those it holds. -/
theorem length_heldOfBatch {b : WingBatch} {t : String} (hmarket : batchTicker st b = some t) :
    (heldOfBatch st b).length = openLegs st b := by
  have hlisted : ((batchLegs st b.index).filterMap heldWing).length =
      ((batchLegs st b.index).filter fun l => decide l.isOpen).length := by
    rw [List.length_filterMap_eq_countP, ← List.countP_eq_length_filter]
    refine List.countP_congr fun l _ => ?_
    by_cases hopen : l.status = .filled ∧ 0 < l.held
    · simp [heldWing, WingLeg.isOpen, hopen]
    · simp [heldWing, WingLeg.isOpen, hopen]
  rw [heldOfBatch, List.length_append, hlisted, hmarket, openLegs, add_comm]
  rfl

/-- At most one open wing of a batch is lost, and only if its bucket NO is paid. -/
theorem length_lostWings_le (hshape : PinShape p bucketMarket strikeMarket st)
    (hsettles : Settles p bucketMarket strikeMarket st x results) {b : WingBatch}
    (hb : b ∈ st.wingBatches) :
    (lostWings st results b).length ≤ if BucketNoPaid st results b then 1 else 0 := by
  obtain ⟨sd, hsd, hmarket, hlegs⟩ := hshape.bucket b hb
  rw [lostWings, ← List.countP_eq_length_filter]
  simp only [bucketNoPaid_iff hmarket]
  exact countP_lost_le hshape hb (hsettles b hb sd hsd) hlegs
    fun l hlost => (of_decide_eq_true hlost).2

/-- All legs of a batch but one are paid: what it is paid for some lots of each leg, with what
its wings fall short of them, is its floor for these lots and what it has to spare. -/
theorem counted_eq (hshape : PinShape p bucketMarket strikeMarket st)
    (hsettles : Settles p bucketMarket strikeMarket st x results) {b : WingBatch}
    (hb : b ∈ st.wingBatches) (lots : ℚ) :
    (if BucketNoPaid st results b then lots else 0) +
        ((paidWings st results b).map WingLeg.held).sum +
        shortOf lots (paidWings st results b) =
      v33SetFloorDollars (openLegs st b) lots + spareOf st results lots b := by
  have hlost := length_lostWings_le hshape hsettles hb
  rw [add_assoc, sum_add_shortOf, v33SetFloorDollars, openLegs_eq st results b,
    Nat.add_sub_cancel, spareOf]
  by_cases hno : BucketNoPaid st results b
  · rw [if_pos hno] at hlost ⊢
    by_cases hnone : lostWings st results b = []
    · rw [if_pos ⟨hno, hnone⟩, hnone, List.length_nil]
      push_cast
      ring
    · have hone : (lostWings st results b).length = 1 :=
        le_antisymm hlost (List.length_pos_iff.mpr hnone)
      rw [if_neg fun h => hnone h.2, hone]
      push_cast
      ring
  · rw [if_neg hno, Nat.le_zero] at hlost
    rw [if_neg hno, if_neg fun h => hno h.1, hlost]
    push_cast
    ring

/-- What a batch is paid, with what its wings fall short of its lots, is its floor and what it
has to spare. -/
theorem payoff_add_short (hshape : PinShape p bucketMarket strikeMarket st) (hok : StLegsOk st)
    (hsettles : Settles p bucketMarket strikeMarket st x results) {b : WingBatch}
    (hb : b ∈ st.wingBatches) :
    settlementPayoff (heldOfBatch st b) results +
        shortOf b.totalCount (paidWings st results b) =
      batchFloor st b + spareOf st results b.totalCount b := by
  obtain ⟨sd, hsd, hmarket, -⟩ := hshape.bucket b hb
  have hcounted := counted_eq hshape hsettles hb b.totalCount
  simp only [bucketNoPaid_iff hmarket] at hcounted
  rw [payoff_heldOfBatch hshape hok hb hmarket, sum_wingPayoff, hcounted, batchFloor,
    length_heldOfBatch hmarket]

/-- The floor of a batch is paid, but for what its wings have netted without cover. -/
theorem batchFloor_le (hshape : PinShape p bucketMarket strikeMarket st) (hok : StLegsOk st)
    (hsettles : Settles p bucketMarket strikeMarket st x results) {b : WingBatch}
    (hb : b ∈ st.wingBatches) (hsized : Sized st b) :
    batchFloor st b + ((batchLegs st b.index).map (share (cover results))).sum ≤
      settlementPayoff (heldOfBatch st b) results := by
  obtain ⟨sd, hsd, hmarket, hlegs⟩ := hshape.bucket b hb
  have hlots := totalCount_nonneg hshape hb
  have heach : ∀ l ∈ batchLegs st b.index, LegOk l := fun l hl =>
    hok.each l (List.mem_of_mem_filter hl)
  have hlosing := losingLots_le hshape hb (hsettles b hb sd hsd) hlegs hlots
  have hfloor : batchFloor st b = ((batchLegs st b.index).map (wingFloor b.totalCount)).sum := by
    rw [batchFloor, heldOfBatch, hmarket, v33SetFloorDollars, ← length_heldWings]
    simp
  have hpaid := @payoff_heldOfBatch p bucketMarket strikeMarket st results hshape hok b hb _ hmarket
  have hwings : ((batchLegs st b.index).map fun l =>
        wingFloor b.totalCount l + share (cover results) l).sum ≤
      ((batchLegs st b.index).map fun l =>
        wingPayoff results l + if losing results l then b.totalCount else 0).sum :=
    List.sum_le_sum fun l hl => wingFloor_le (heach l hl) hlots (hsized l hl)
  rw [List.sum_map_add, List.sum_map_add] at hwings
  rw [hfloor, hpaid]
  linarith

end Batch

/-! ### The window -/

section Window

variable {p : V33Params} {bucketMarket strikeMarket : ℤ → String} {st : V33State}
  {results : String → Side} {x : ℚ}

/-- The floors of batches whose wings have their size are paid. -/
theorem sum_batchFloor_le (hok : StLegsOk st) (hshape : PinShape p bucketMarket strikeMarket st)
    (hsized : ∀ b ∈ st.wingBatches, Sized st b)
    (hsettles : Settles p bucketMarket strikeMarket st x results) :
    (st.wingBatches.map (batchFloor st)).sum ≤
      (st.wingBatches.map fun b => settlementPayoff (heldOfBatch st b) results).sum := by
  have hcovered := hok.covered results
  have hbatches : (st.wingBatches.map fun b => batchFloor st b +
        ((batchLegs st b.index).map (share (cover results))).sum).sum ≤
      (st.wingBatches.map fun b => settlementPayoff (heldOfBatch st b) results).sum :=
    List.sum_le_sum fun b hb => batchFloor_le hshape hok hsettles hb (hsized b hb)
  rw [List.sum_map_add, sum_batchLegs hshape.indices hshape.owned] at hbatches
  rw [weighed] at hcovered
  linarith

/-- What the paid wings of the batches fall short of their lots is covered by the batches with
lots to spare. -/
def LeftCovers (st : V33State) (results : String → Side) : Prop :=
  (st.wingBatches.map fun b => shortOf b.totalCount (paidWings st results b)).sum ≤
    (st.wingBatches.map fun b => spareOf st results b.totalCount b).sum

instance (st : V33State) (results : String → Side) : Decidable (LeftCovers st results) :=
  inferInstanceAs (Decidable (_ ≤ _))

/-- The floors are paid exactly when the lots left cover those counted. -/
theorem sum_batchFloor_le_iff (hok : StLegsOk st)
    (hshape : PinShape p bucketMarket strikeMarket st)
    (hsettles : Settles p bucketMarket strikeMarket st x results) :
    (st.wingBatches.map (batchFloor st)).sum ≤
        (st.wingBatches.map fun b => settlementPayoff (heldOfBatch st b) results).sum ↔
      LeftCovers st results := by
  have hsum : (st.wingBatches.map fun b => settlementPayoff (heldOfBatch st b) results +
        shortOf b.totalCount (paidWings st results b)).sum =
      (st.wingBatches.map fun b => batchFloor st b + spareOf st results b.totalCount b).sum := by
    congr 1
    exact List.map_congr_left fun b hb => payoff_add_short hshape hok hsettles hb
  rw [List.sum_map_add, List.sum_map_add] at hsum
  unfold LeftCovers
  constructor <;> intro hle <;> linarith

/-- Wings with the lots of their batches leave nothing uncovered, however they were netted. -/
theorem leftCovers_of_sized (hok : StLegsOk st) (hshape : PinShape p bucketMarket strikeMarket st)
    (hsized : ∀ b ∈ st.wingBatches, Sized st b)
    (hsettles : Settles p bucketMarket strikeMarket st x results) : LeftCovers st results :=
  (sum_batchFloor_le_iff hok hshape hsettles).mp (sum_batchFloor_le hok hshape hsized hsettles)

/-- The floor of a window is paid at a settlement exactly if what the wings that are paid there
have left falls short of the lots of their batches by no more than the lots of the batches that
are paid on their bucket NO and on all their open wings. -/
theorem floor_guaranteed_iff (hnetted : Netted st)
    (hshape : PinShape p bucketMarket strikeMarket st)
    (hsettles : Settles p bucketMarket strikeMarket st x results) :
    FloorHolds st results ↔ (st.restFills ≠ [] → LeftCovers st results) := by
  rw [floorHolds_iff, settlementPayoff_flatMap]
  exact imp_congr_right fun _ => sum_batchFloor_le_iff hnetted.legsOk hshape hsettles

end Window

/-! ### A netted window -/

/-- The markets of a small window: the buckets at 100 and 200 and the strikes around them. -/
def bucketName (sd : ℤ) : String := if sd = 100 then "B100" else "B200"

/-- The market of a strike in the samples. -/
def strikeName (strike : ℤ) : String :=
  if strike = 100 then "S100" else if strike = 200 then "S200" else "S300"

/-- The results of those markets when the price settles at 150. -/
def resultsAt150 (t : String) : Side := if t = "B100" ∨ t = "S100" then .yes else .no

/-- A fill of some lots on a bucket. -/
def bucketFill (sd : ℤ) (lots : ℚ) : RungFill where
  rung := 0
  eRung := 5 / 100
  price := 1 / 2
  count := lots
  serverTs := 0
  coid := none
  orderId := none
  W := none
  nTop := none
  bucketTicker := some (bucketName sd)
  bucketSd := some sd
  bucketSu := some (sd + 100)
  taker := false
  weight := none
  orphan := false

/-- A pre-hedged batch with some lots filled so far. -/
def earlyBatch (index : ℕ) (sd : ℤ) (lots size : ℚ) : WingBatch :=
  ⟨index, 0, [bucketFill sd lots], true, false, false, true, size, false, some sd, 0⟩

/-- A window with the given batches and legs. -/
def windowOf (batches : List WingBatch) (legs : List WingLeg) (pairs : List NettedPair) :
    V33State :=
  { sampleWindow samplePolicy with
    restFills := batches.flatMap WingBatch.fills
    wingBatches := batches
    wingLegs := legs
    nettedPairs := pairs }

/-- A wing of a batch, answered at half a dollar. -/
def sampleWing (ticker : String) (side : Side) (count : ℚ) (coid : String) (batch : ℕ)
    (netted : ℚ) : WingLeg :=
  ⟨ticker, side, count, 1 / 2, coid, .filled, some (1 / 2), some (fee (1 / 2)), batch, none, netted⟩

/-- The wing before it is answered. -/
def sentWing (ticker : String) (side : Side) (count : ℚ) (coid : String) (batch : ℕ) : WingLeg :=
  sentLeg ticker side count (1 / 2) coid batch

/-- The NO wing of a batch has netted the YES wing of the batch above it. -/
def longWindow (lots size : ℚ) : V33State :=
  windowOf [earlyBatch 0 100 (2 * size) (2 * size), earlyBatch 1 200 lots size]
    [sentWing "S100" .yes (2 * size) "c-3" 0, sampleWing "S200" .no (2 * size) "c-1" 0 size,
      sampleWing "S200" .yes size "c-2" 1 size, sentWing "S300" .no size "c-4" 1]
    [⟨"S200", size, 1 / 2 + fee (1 / 2), 1 / 2 + fee (1 / 2),
      size * (1 - (1 / 2 + fee (1 / 2)) - (1 / 2 + fee (1 / 2))), 1, 0, 0⟩]

/-- A sent wing is unfilled. -/
theorem unfilled_sentWing {count : ℚ} (hcount : 0 ≤ count) (hgrid : OnGrid 100 count)
    (ticker : String) (side : Side) (coid : String) (batch : ℕ) :
    Unfilled (sentWing ticker side count coid batch) :=
  ⟨by simp [sentWing, sentLeg], rfl, hcount, hgrid⟩

/-- The long window is a netted one. -/
theorem netted_longWindow {lots size : ℚ} (hsize : 0 < size) (hgrid : OnGrid 100 size) :
    Netted (longWindow lots size) := by
  have hdouble : OnGrid 100 (2 * size) := by
    rw [two_mul]
    exact hgrid.add hgrid
  have hfresh : FreshLegs (windowOf
      [earlyBatch 0 100 (2 * size) (2 * size), earlyBatch 1 200 lots size]
      [sentWing "S100" .yes (2 * size) "c-3" 0, sentWing "S200" .no (2 * size) "c-1" 0,
        sentWing "S200" .yes size "c-2" 1, sentWing "S300" .no size "c-4" 1] []) := by
    refine ⟨rfl, ?_, by simp [windowOf, legIds, sentWing, sentLeg]⟩
    have hfirst := unfilled_sentWing (mul_nonneg two_pos.le hsize.le) hdouble
    have hsecond := unfilled_sentWing hsize.le hgrid
    simpa [windowOf] using ⟨hfirst "S100" .yes "c-3" 0, hfirst "S200" .no "c-1" 0,
      hsecond "S200" .yes "c-2" 1, hsecond "S300" .no "c-4" 1⟩
  have heq : fillAndNet (fillAndNet (windowOf
      [earlyBatch 0 100 (2 * size) (2 * size), earlyBatch 1 200 lots size]
      [sentWing "S100" .yes (2 * size) "c-3" 0, sentWing "S200" .no (2 * size) "c-1" 0,
        sentWing "S200" .yes size "c-2" 1, sentWing "S300" .no size "c-4" 1] [])
        "c-1" (1 / 2) 0) "c-2" (1 / 2) 0 = longWindow lots size := by
    simp [fillAndNet, netWings, netLoop, netPair, legOf, oppositeLeg, windowOf, sentWing, sentLeg,
      replaceFirst, answeredLeg, longWindow, sampleWing, V33State.quiet, Outcome.andThen,
      WingLeg.held, hsize, not_le.mpr hsize, qCount_of_onGrid hgrid]
  rw [← heq]
  exact ((Netted.fresh hfresh).fill "c-1" (by decide) (1 / 2) 0).fill "c-2" (by decide) (1 / 2) 0

/-- The batch is listed on the market of its bucket. -/
theorem batchTicker_earlyBatch (st : V33State) (index : ℕ) (sd : ℤ) (lots size : ℚ) :
    batchTicker st (earlyBatch index sd lots size) = some (bucketName sd) := by
  have hname : truthy (some (bucketName sd)) = some (bucketName sd) := by
    unfold bucketName
    split_ifs <;> rfl
  simp [batchTicker, bucketTickerForFill, earlyBatch, bucketFill, hname]

/-- The results at 150 settle the bucket of 100. -/
theorem settlesAt_100 : SettlesAt samplePolicy bucketName strikeName 150 resultsAt150 100 :=
  ⟨by decide +kernel, fun side => by cases side <;> decide +kernel⟩

/-- The results at 150 settle the bucket of 200. -/
theorem settlesAt_200 : SettlesAt samplePolicy bucketName strikeName 150 resultsAt150 200 :=
  ⟨by decide +kernel, fun side => by cases side <;> decide +kernel⟩

/-- The long window has the shape of a pin. -/
theorem pinShape_longWindow {lots size : ℚ} (hlots : 0 ≤ lots) (hgrid : OnGrid 100 lots)
    (hsize : 0 ≤ size) (hgrid' : OnGrid 100 size) :
    PinShape samplePolicy bucketName strikeName (longWindow lots size) where
  width := by decide
  indices := by simp [longWindow, windowOf, earlyBatch]
  owned := by simp [longWindow, windowOf, sampleWing, sentWing, sentLeg, earlyBatch]
  bucket := by
    simp only [longWindow, windowOf, List.forall_mem_cons, List.not_mem_nil, IsEmpty.forall_iff,
      implies_true, and_true]
    refine ⟨⟨100, rfl, batchTicker_earlyBatch _ _ _ _ _, ?_⟩,
      200, rfl, batchTicker_earlyBatch _ _ _ _ _, ?_⟩
    · simp [batchLegs, sampleWing, sentWing, sentLeg, earlyBatch, wingStrike, strikeName,
        samplePolicy]
    · simp [batchLegs, sampleWing, sentWing, sentLeg, earlyBatch, wingStrike, strikeName,
      samplePolicy]
  wings := by
    simp only [longWindow, windowOf, List.forall_mem_cons, List.not_mem_nil, IsEmpty.forall_iff,
      implies_true, and_true]
    constructor <;> intro side <;> cases side <;> simp
      [batchLegs, sampleWing, sentWing, sentLeg, earlyBatch]
  lots := by
    have hdouble : OnGrid 100 (2 * size) := by
      rw [two_mul]
      exact hgrid'.add hgrid'
    simpa [longWindow, windowOf, earlyBatch, bucketFill] using
      ⟨⟨hsize, hdouble⟩, hlots, hgrid⟩

/-- The long window has one bucket. -/
theorem singleBucket_longWindow (lots size : ℚ) : SingleBucket (longWindow lots size) := by
  simp [SingleBucket, longWindow, windowOf, earlyBatch, bucketFill, batchBucket, fillsBucket]

/-- The results at 150 settle the long window. -/
theorem settles_longWindow (lots size : ℚ) :
    Settles samplePolicy bucketName strikeName (longWindow lots size) 150 resultsAt150 := by
  intro b hb sd hsd
  have hb' : b = earlyBatch 0 100 (2 * size) (2 * size) ∨ b = earlyBatch 1 200 lots size := by
    simpa [longWindow, windowOf] using hb
  rcases hb' with rfl | rfl
  · obtain rfl := Option.some.inj hsd
    exact settlesAt_100
  · obtain rfl := Option.some.inj hsd
    exact settlesAt_200

/-- Two lots of the NO wing are left of the four its batch counts, and the batch above covers
them. -/
theorem floor_guaranteed_sample : FloorHolds (longWindow 2 2) resultsAt150 := by
  have htwo : OnGrid 100 (2 : ℚ) := ⟨200, by norm_num⟩
  exact (floor_guaranteed_iff (netted_longWindow two_pos htwo)
    (pinShape_longWindow zero_le_two htwo zero_le_two htwo) (settles_longWindow 2 2)).mpr
      fun _ => by decide +kernel

/-- A batch that pre-hedged two lots has filled one of them, and a larger batch has netted its
YES wing: the window books six dollars and is paid five. -/
theorem floor_is_not_guaranteed :
    ¬∀ (p : V33Params) (bucketMarket strikeMarket : ℤ → String) (st : V33State) (x : ℚ)
      (results : String → Side), Netted st → PinShape p bucketMarket strikeMarket st →
        SingleBucket st → Settles p bucketMarket strikeMarket st x results →
          FloorHolds st results := by
  intro h
  have hone : OnGrid 100 (1 : ℚ) := ⟨100, by norm_num⟩
  have htwo : OnGrid 100 (2 : ℚ) := ⟨200, by norm_num⟩
  have hholds := h _ _ _ _ 150 _ (@netted_longWindow 1 2 two_pos htwo)
    (pinShape_longWindow zero_le_one hone zero_le_two htwo) (singleBucket_longWindow 1 2)
    (settles_longWindow 1 2)
  have hpaid := hholds false 6 (by decide +kernel)
  revert hpaid
  decide +kernel

end Pilot.V33
