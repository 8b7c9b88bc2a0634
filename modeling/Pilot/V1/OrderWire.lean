import Pilot.V1.DecimalText
import Pilot.V1.Executor

/-!
# Orders on the wire

A leg is written as an order of the YES book: its side is a side of that book and its price a YES
price, both as texts. The price at which the venue reports a fill of the order, read back in the
prices of the side of the leg, is the limit of the leg.
-/

namespace Pilot.V1

/-! ### Texts of numbers -/

/-- The nearest integer, ties away from zero. -/
def roundHalfUp (x : ℚ) : ℤ := if 0 ≤ x then ⌊x + 1 / 2⌋ else ⌈x - 1 / 2⌉

/-- A number with a fixed number of decimals. -/
def formatFixed (places : ℕ) (x : ℚ) : String :=
  let digits := Nat.toDigits 10 (roundHalfEven (x * (10 ^ places : ℕ))).natAbs
  let padded := List.replicate (places + 1 - digits.length) '0' ++ digits
  String.ofList <| (if x < 0 then ['-'] else []) ++
    padded.take (padded.length - places) ++ '.' :: padded.drop (padded.length - places)

/-- A number as a decimal of four places. -/
def quantizePrice (x : ℚ) : Decimal where
  negative := x < 0
  digits := Nat.toDigits 10 (roundHalfEven (x * 10000)).natAbs
  exponent := -4
  isDigit c hc := Nat.isDigit_of_mem_toDigits (by norm_num) (by norm_num) hc
  nonempty := Nat.toDigits_ne_nil

/-! ### The V2 order -/

/-- A side of the YES book. -/
inductive BookSide where
  | bid
  | ask
  deriving DecidableEq

/-- The other side of the book. -/
def BookSide.flip : BookSide → BookSide
  | .bid => .ask
  | .ask => .bid

/-- The fields that are passed through as they are. -/
inductive PassthroughKey where
  | reduceOnly
  | cancelOrderOnPause
  | expirationTime
  | subaccount
  | orderGroupId
  | exchangeIndex
  deriving DecidableEq

/-- An order in the old shape, prices in whole cents of their side. -/
structure LegacyOrder where
  ticker : String
  side : Side
  /-- Buying where it is left out. -/
  action : Option Action
  count : ℤ
  yesPrice : Option ℤ
  noPrice : Option ℤ
  timeInForce : Option String
  selfTradePreventionType : Option String
  postOnly : Option Bool
  clientOrderId : Option String
  passthrough : PassthroughKey → Option Json

/-- An order as it is sent. -/
structure V2Order where
  ticker : String
  side : BookSide
  count : String
  price : String
  timeInForce : String
  selfTradePreventionType : String
  postOnly : Option Bool
  clientOrderId : Option String
  passthrough : PassthroughKey → Option Json

/-- The side a purchase is on and the YES price in cents; nothing when the price is missing. -/
def yesLevel (legacy : LegacyOrder) : Option (BookSide × ℤ) :=
  match legacy.side with
  | .yes => legacy.yesPrice.map fun cents => (.bid, cents)
  | .no => legacy.noPrice.map fun cents => (.ask, 100 - cents)

/-- The side of the book for an action; nothing for an unknown one. -/
def bookSide (buySide : BookSide) : Action → Option BookSide
  | .buy => some buySide
  | .sell => some buySide.flip
  | .other => none

/-- The order in the new shape; nothing when the translation raises. -/
def toV2Order (legacy : LegacyOrder) : Option V2Order := do
  let (buySide, cents) ← yesLevel legacy
  let side ← bookSide buySide (legacy.action.getD .buy)
  some {
    ticker := legacy.ticker
    side := side
    count := formatFixed 2 legacy.count
    price := formatFixed 4 (cents / 100)
    timeInForce := legacy.timeInForce.getD "good_till_canceled"
    selfTradePreventionType := legacy.selfTradePreventionType.getD "taker_at_cross"
    postOnly := legacy.postOnly
    clientOrderId := truthy legacy.clientOrderId
    passthrough := legacy.passthrough }

/-! ### The entry of a leg -/

/-- A price in whole cents. -/
def cents (price : ℚ) : ℤ := roundHalfUp (price * 100)

/-- The YES price of a limit, as it is sent. -/
def wirePrice (side : Side) (limitPrice : ℚ) : String :=
  (quantizePrice (sidePrice side limitPrice)).str

/-- A leg in the old shape. -/
def legacyOrder (leg : IntentLeg) (tif stp : String) : LegacyOrder where
  ticker := leg.ticker
  side := leg.side
  action := some leg.action
  count := leg.count
  yesPrice := if leg.side = .yes then some (cents leg.limitPrice) else none
  noPrice := if leg.side = .no then some (cents leg.limitPrice) else none
  timeInForce := some tif
  selfTradePreventionType := some stp
  postOnly := none
  clientOrderId := some leg.clientOrderId
  passthrough
    | .reduceOnly => leg.reduceOnly.map .bool
    | .exchangeIndex => leg.exchangeIndex.map fun i => .number i
    | _ => none

/-- The time in force of an order. -/
def defaultTif : String := "immediate_or_cancel"

/-- What prevents a trade with oneself. -/
def defaultStp : String := "taker_at_cross"

/-- The order of a leg, with its price in full. -/
def buildEntry (leg : IntentLeg) (tif stp : String) : Option V2Order :=
  (toV2Order (legacyOrder leg tif stp)).map fun entry =>
    { entry with price := wirePrice leg.side leg.limitPrice }

/-! ### What the texts say -/

theorem roundHalfUp_intCast (k : ℤ) : roundHalfUp k = k := by
  unfold roundHalfUp
  split_ifs
  · rw [Int.floor_eq_iff]
    constructor <;> linarith
  · rw [Int.ceil_eq_iff]
    constructor <;> linarith

theorem roundHalfEven_nonneg {x : ℚ} (h : 0 ≤ x) : 0 ≤ roundHalfEven x := by
  have hfloor : 0 ≤ ⌊x⌋ := Int.floor_nonneg.mpr h
  unfold roundHalfEven
  dsimp only
  split_ifs <;> omega

theorem roundHalfEven_nonpos {x : ℚ} (h : x < 0) : roundHalfEven x ≤ 0 := by
  have hfloor : ⌊x⌋ < 0 := Int.floor_lt_zero.mpr h
  unfold roundHalfEven
  dsimp only
  split_ifs <;> omega

/-- The decimal of a price is the price on the grid. -/
theorem value_quantizePrice (x : ℚ) : (quantizePrice x).value = quantize 10000 x := by
  have hdigits : coefficient (quantizePrice x).digits = (roundHalfEven (x * 10000)).natAbs :=
    Nat.ofDigitChars_ten_toDigits
  have hsigned : (signValue (quantizePrice x).negative * (roundHalfEven (x * 10000)).natAbs : ℤ) =
      roundHalfEven (x * 10000) := by
    show (if decide (x < 0) = true then (-1 : ℤ) else 1) * _ = _
    by_cases hx : x < 0
    · have := roundHalfEven_nonpos (x := x * 10000) (by linarith)
      rw [if_pos (by simpa using hx)]
      omega
    · have := roundHalfEven_nonneg (x := x * 10000) (by linarith)
      rw [if_neg (by simpa using hx)]
      omega
  have hcast : (signValue (quantizePrice x).negative : ℚ) * (roundHalfEven (x * 10000)).natAbs =
      roundHalfEven (x * 10000) := by
    have := congrArg (fun k : ℤ => (k : ℚ)) hsigned
    simpa only [Int.cast_mul, Int.cast_natCast] using this
  unfold Decimal.value quantize
  rw [hdigits, hcast]
  show (roundHalfEven (x * 10000) : ℚ) * 10 ^ (-4 : ℤ) =
    roundHalfEven (x * (10000 : ℕ)) / (10000 : ℕ)
  norm_num
  ring

/-- The text of a decimal of four places is the number with four decimals. -/
theorem str_quantizePrice (x : ℚ) : (quantizePrice x).str = formatFixed 4 x := by
  set digits := Nat.toDigits 10 (roundHalfEven (x * 10000)).natAbs with hdigits
  have hpos : 0 < digits.length := Nat.length_toDigits_pos
  have hleft : (quantizePrice x).leftDigits = digits.length - 4 := by
    show (-4 : ℤ) + digits.length = _
    ring
  have hdot : (quantizePrice x).dotPlace = digits.length - 4 := by
    unfold Decimal.dotPlace
    rw [if_pos, hleft]
    constructor
    · show (-4 : ℤ) ≤ 0
      norm_num
    · rw [hleft]
      omega
  have hexp : Decimal.exponentText ((quantizePrice x).leftDigits - (quantizePrice x).dotPlace) =
      [] := by
    rw [hleft, hdot, sub_self]
    rfl
  have hsign : (if (quantizePrice x).negative = true then ['-'] else []) =
      if x < 0 then ['-'] else [] := by
    show (if decide (x < 0) = true then ['-'] else []) = _
    simp
  have hmantissa : (quantizePrice x).mantissa =
      (List.replicate (5 - digits.length) '0' ++ digits).take
        ((List.replicate (5 - digits.length) '0' ++ digits).length - 4) ++
      '.' :: (List.replicate (5 - digits.length) '0' ++ digits).drop
        ((List.replicate (5 - digits.length) '0' ++ digits).length - 4) := by
    have hlist : (quantizePrice x).digits = digits := rfl
    unfold Decimal.mantissa
    rw [hdot, hlist]
    by_cases hshort : digits.length ≤ 4
    · -- The point is before the digits, behind a zero.
      obtain ⟨zeros, hzeros⟩ : ∃ zeros, 5 - digits.length = zeros + 1 :=
        ⟨4 - digits.length, by omega⟩
      have hlen : (List.replicate (5 - digits.length) '0' ++ digits).length - 4 = 1 := by
        rw [List.length_append, List.length_replicate]
        omega
      have hneg : (-((digits.length : ℤ) - 4)).toNat = zeros := by omega
      rw [if_pos (by omega), hlen, hneg, hzeros, List.replicate_succ]
      rfl
    · -- The point is among the digits.
      have hzeros : 5 - digits.length = 0 := by omega
      have hnat : ((digits.length : ℤ) - 4).toNat = digits.length - 4 := by omega
      rw [if_neg (by omega), if_neg (by omega), hnat, hzeros]
      rfl
  unfold Decimal.str formatFixed
  rw [hsign, hmantissa, hexp, List.append_nil]
  norm_num
  rfl

/-- The price of an order is read as the YES price of the limit. -/
theorem toDecimal_wirePrice (side : Side) (limitPrice : ℚ) :
    toDecimal (.text (wirePrice side limitPrice)) =
      some (quantize 10000 (sidePrice side limitPrice)) := by
  show decimalOfText (quantizePrice (sidePrice side limitPrice)).str = _
  rw [Decimal.decimalOfText_str, value_quantizePrice]

theorem onGrid_sidePrice {scale : ℕ} (hscale : scale ≠ 0) {p : ℚ} (h : OnGrid scale p)
    (side : Side) : OnGrid scale (sidePrice side p) := by
  cases side with
  | yes => exact h
  | no =>
    have hone : OnGrid scale (1 : ℚ) := by simpa using onGrid_intCast hscale 1
    exact hone.sub h

/-! ### The round trip -/

/-- Translating a price twice gives it back. -/
@[simp] theorem sidePrice_sidePrice (side : Side) (p : ℚ) :
    sidePrice side (sidePrice side p) = p := by
  cases side with
  | yes => rfl
  | no => exact sub_sub_cancel 1 p

/-- A response is normalized from the price the venue reported. -/
theorem averageFillPrice_normalize {resp : OrderResponse} {raw : ℚ}
    (h : resp.rawReportedPrice.or resp.averageFillPrice = some raw) (side : Side) :
    (normalizeFillToSide resp side).averageFillPrice = some (sidePrice side raw) := by
  unfold normalizeFillToSide
  rw [h]

/-- Normalizing again changes nothing, from whatever side. -/
theorem normalize_normalize (resp : OrderResponse) (first second : Side) :
    normalizeFillToSide (normalizeFillToSide resp first) second =
      normalizeFillToSide resp second := by
  cases hraw : resp.rawReportedPrice.or resp.averageFillPrice with
  | none =>
    have hsame : normalizeFillToSide resp first = resp := by
      unfold normalizeFillToSide
      rw [hraw]
    rw [hsame]
  | some raw =>
    unfold normalizeFillToSide
    rw [hraw]
    rfl

/-- The price of a slot is read as the venue reported it. -/
theorem reported_of_parseEntryResponse {slot : Json} {resp : OrderResponse} {text : String}
    (hslot : slot.field "average_fill_price" = .text text)
    (hresp : parseEntryResponse slot = some resp) :
    resp.rawReportedPrice.or resp.averageFillPrice = toDecimal (.text text) := by
  cases slot with
  | object fields =>
    unfold parseEntryResponse at hresp
    dsimp only at hresp
    rw [hslot] at hresp
    obtain ⟨tsMs, -, rfl⟩ := Option.map_eq_some_iff.mp hresp
    exact Option.or_self
  | null | bool | number | infinity | nan | text | array => cases hslot

/-- The order raises the YES exposure: it buys YES or sells NO. -/
def RaisesYes (leg : IntentLeg) : Prop :=
  (leg.side = .yes ∧ leg.action = .buy) ∨ (leg.side = .no ∧ leg.action = .sell)

/-- The translation of a leg: its side of the book and its YES price in whole cents. -/
theorem toV2Order_legacyOrder {leg : IntentLeg} (haction : leg.action ≠ .other) (tif stp : String) :
    ∃ v2, toV2Order (legacyOrder leg tif stp) = some v2 ∧ (v2.side = .bid ↔ RaisesYes leg) ∧
      v2.price = formatFixed 4 (sidePrice leg.side (cents leg.limitPrice / 100)) := by
  have hno : ((100 - cents leg.limitPrice : ℤ) : ℚ) / 100 = 1 - cents leg.limitPrice / 100 := by
    push_cast
    ring
  unfold toV2Order yesLevel legacyOrder RaisesYes
  cases hside : leg.side <;> cases hact : leg.action <;> simp only [hact] at haction ⊢
  · exact ⟨_, rfl, by simp, rfl⟩
  · exact ⟨_, rfl, by simp [BookSide.flip], rfl⟩
  · exact absurd rfl haction
  · exact ⟨_, rfl, by simp, by rw [hno]; rfl⟩
  · exact ⟨_, rfl, by simp [BookSide.flip], by rw [hno]; rfl⟩
  · exact absurd rfl haction

/-- The entry of a leg can be built unless its action is unknown. -/
theorem isSome_buildEntry (leg : IntentLeg) (tif stp : String) :
    (buildEntry leg tif stp).isSome ↔ leg.action ≠ .other := by
  constructor
  · intro hsome haction
    have hnone : toV2Order (legacyOrder leg tif stp) = none := by
      unfold toV2Order yesLevel legacyOrder
      cases hside : leg.side <;> simp only [haction] <;> rfl
    unfold buildEntry at hsome
    rw [hnone] at hsome
    cases hsome
  · intro haction
    obtain ⟨v2, hv2, -⟩ := toV2Order_legacyOrder haction tif stp
    unfold buildEntry
    rw [hv2]
    rfl

/-- The executor sends an order exactly when every entry of it can be built. -/
theorem buildable_iff (intent : Intent) :
    Buildable intent ↔ ∀ leg ∈ intent.legs, (buildEntry leg defaultTif defaultStp).isSome := by
  unfold Buildable
  simp only [isSome_buildEntry]

/-- Whole cents are what a price on the cent grid has. -/
theorem cents_of_onGrid {p : ℚ} (h : OnGrid 100 p) : (cents p : ℚ) / 100 = p := by
  obtain ⟨k, rfl⟩ := h
  have hk : (k : ℚ) / (100 : ℕ) * 100 = k := by
    push_cast
    ring
  unfold cents
  rw [hk, roundHalfUp_intCast]
  push_cast
  rfl

/-- The entry of a leg whose limit is on the grid of four decimals: a fill reported at its price is
read as a fill at the limit, its side is the bid exactly when the order raises the YES exposure,
normalizing a response once is enough, and on whole cents its price is that of the translation. -/
theorem buildEntry_roundTrip (leg : IntentLeg) (tif stp : String) (haction : leg.action ≠ .other)
    (hgrid : OnGrid 10000 leg.limitPrice) :
    ∃ entry v2, buildEntry leg tif stp = some entry ∧
      toV2Order (legacyOrder leg tif stp) = some v2 ∧
      (∀ resp : OrderResponse,
        resp.rawReportedPrice.or resp.averageFillPrice = toDecimal (.text entry.price) →
        (normalizeFillToSide resp leg.side).averageFillPrice = some leg.limitPrice) ∧
      (∀ slot resp, slot.field "average_fill_price" = .text entry.price →
        parseEntryResponse slot = some resp →
        (normalizeFillToSide resp leg.side).averageFillPrice = some leg.limitPrice) ∧
      (entry.side = .bid ↔ RaisesYes leg) ∧
      (∀ resp side, normalizeFillToSide (normalizeFillToSide resp side) side =
        normalizeFillToSide resp side) ∧
      (OnGrid 100 leg.limitPrice → entry.price = v2.price) := by
  obtain ⟨v2, hv2, hside, hprice⟩ := toV2Order_legacyOrder haction tif stp
  have hentry : buildEntry leg tif stp =
      some { v2 with price := wirePrice leg.side leg.limitPrice } := by
    unfold buildEntry
    rw [hv2]
    rfl
  have hread : ∀ resp : OrderResponse, resp.rawReportedPrice.or resp.averageFillPrice =
      toDecimal (.text (wirePrice leg.side leg.limitPrice)) →
      (normalizeFillToSide resp leg.side).averageFillPrice = some leg.limitPrice := by
    intro resp hresp
    rw [toDecimal_wirePrice,
      quantize_of_onGrid (by norm_num) (onGrid_sidePrice (by norm_num) hgrid leg.side)] at hresp
    rw [averageFillPrice_normalize hresp, sidePrice_sidePrice]
  refine ⟨_, v2, hentry, hv2, hread, ?_, hside, ?_, ?_⟩
  · intro slot resp hslot hresp
    exact hread resp (reported_of_parseEntryResponse hslot hresp)
  · exact fun resp side => normalize_normalize resp side side
  · intro hcents
    show (quantizePrice (sidePrice leg.side leg.limitPrice)).str = v2.price
    rw [str_quantizePrice, hprice, cents_of_onGrid hcents]

/-- Selling NO at three and a half cents bids for YES at ninety-six and a half. -/
theorem buildEntry_roundTrip_sellNo :
    let leg : IntentLeg := ⟨"KXBTCD-HI", .no, .sell, 2, 7 / 200, "cid", some true, some 0⟩
    wirePrice .no (7 / 200) = "0.9650" ∧
      ∃ entry, buildEntry leg defaultTif defaultStp = some entry ∧
      (entry.side = .bid ↔ RaisesYes leg) := by
  refine ⟨by decide +kernel, ?_⟩
  obtain ⟨entry, -, hentry, -, -, -, hside, -⟩ := buildEntry_roundTrip
    ⟨"KXBTCD-HI", .no, .sell, 2, 7 / 200, "cid", some true, some 0⟩ defaultTif defaultStp
    (by decide) ⟨350, by norm_num⟩
  exact ⟨entry, hentry, hside⟩

end Pilot.V1
