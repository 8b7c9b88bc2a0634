import Pilot.Box.FlattenLaw
import Pilot.Corridor.Window

/-!
# What a stop leaves

A stop sells each leg once at the most, for no more than what no floor protects. As long as the
replies fit their orders, the entry and the rebalance leave a ledger that owes no lots, and a stop
leaves what a floor protects. Whether the replies fit is the proposition `fits` below.
-/

namespace Pilot.Corridor

open Box (EntryMoment buildFlattenIntent flattenExemptBudget harnessExecute key_of_position
  legKey_recordIntent legKey_recordResponse)
open V1 (Deed ExecResult Executor Fill Intent IntentLeg Json Keyed LedgerState LoopSetting
  OrderResponse PostOutcome Rebalance Recordable Source Turn Which execute fillOf maybeRebalance
  net_eq_positionAt positionAt recordIntent recordResponse singleSlot)

/-! ### The law -/

/-- The order a deed posts. -/
def posted : Deed → Option Intent
  | .post intent _ => some intent
  | _ => none

/-- The orders posted. -/
def posts (deeds : List Deed) : List Intent := deeds.filterMap posted

/-- The order sells what no floor protects of a leg. -/
def Reduces (g : CorridorWindow) (t : Trip) (intent : Intent) (which : Which) : Prop :=
  intent.purpose = .flatten ∧ ∃ leg, intent.legs = [leg] ∧ leg.action = .sell ∧
    leg.reduceOnly = some true ∧ t.ledger.legKey which = some (leg.ticker, leg.side) ∧
    (leg.count : ℚ) ≤ t.ledger.net which - protectedLots t.ledger g.stopConfig which

/-- What follows a stop: the executor is frozen for good, the stop is in the guard of the day if it
could be written, and nothing is posted but one sale of each leg at the most. -/
structure StopHolds (g : CorridorWindow) (t : Trip) (w : WindowService) : Prop where
  frozen : w.executor.armed = false
  locked : w.armLocked = true
  latched : t.guarded = true → (t.kind, t.ledger.window) ∈ w.latched
  sales : ∃ legs : List Which, legs.Nodup ∧
    List.Forall₂ (Reduces g t) (posts (w.executor.deeds.drop t.deeds)) legs

/-- A ledger holds what a floor protected when the stop tripped, and no more than was held then. -/
def Keeps (g : CorridorWindow) (t : Trip) (s : LedgerState) : Prop :=
  ∀ which, protectedLots t.ledger g.stopConfig which ≤ s.net which ∧
    s.net which ≤ t.ledger.net which

/-- The reply to an order of one leg fills no more than the order, and names no other. -/
def OrderFits (leg : IntentLeg) : PostOutcome → Prop
  | .reply _ (some body) =>
    (V1.toDecimal ((singleSlot body).field "fill_count")).getD 0 ≤ leg.count ∧
      ∀ name, ((singleSlot body).field "client_order_id").name? = some name →
        name = leg.clientOrderId
  | _ => True

/-- The replies to the orders of one leg fit. -/
def RepliesFit (deeds : List Deed) : Prop :=
  ∀ intent outcome leg, .post intent outcome ∈ deeds → intent.legs = [leg] → OrderFits leg outcome

/-- Whether a reply fits is read off its body. -/
instance (leg : IntentLeg) : ∀ outcome, Decidable (OrderFits leg outcome)
  | .raised _ => .isTrue trivial
  | .reply _ none => .isTrue trivial
  | .reply _ (some body) => inferInstanceAs (Decidable
      ((V1.toDecimal ((singleSlot body).field "fill_count")).getD 0 ≤ leg.count ∧
        ∀ name ∈ ((singleSlot body).field "client_order_id").name?, name = leg.clientOrderId))

/-- The reply to a posted order of one leg fits. -/
def DeedFits : Deed → Prop
  | .post intent outcome => ∀ leg ∈ intent.legs, intent.legs = [leg] → OrderFits leg outcome
  | _ => True

/-- Whether a deed fits is asked of posts alone. -/
instance : ∀ d, Decidable (DeedFits d)
  | .post intent outcome => inferInstanceAs
      (Decidable (∀ leg ∈ intent.legs, intent.legs = [leg] → OrderFits leg outcome))
  | .intent _ => .isTrue trivial
  | .refusedNoExchangeIndex _ _ _ _ => .isTrue trivial
  | .response _ => .isTrue trivial

/-- The replies fit when every deed does. -/
theorem repliesFit_of_forall {deeds : List Deed} (h : ∀ d ∈ deeds, DeedFits d) :
    RepliesFit deeds := by
  intro intent outcome leg hpost hlegs
  have hfits : DeedFits (.post intent outcome) := h _ hpost
  apply hfits leg _ hlegs
  rw [hlegs]
  exact List.mem_singleton_self leg

/-- Replies that fit in the end fit on the way. -/
theorem RepliesFit.of_more {deeds more : List Deed} (h : RepliesFit more)
    (hmore : deeds <+: more) : RepliesFit deeds :=
  fun intent outcome leg hpost => h intent outcome leg (hmore.subset hpost)

/-! ### What is posted -/

/-- The orders posted in two parts of a run. -/
theorem posts_append (deeds more : List Deed) : posts (deeds ++ more) = posts deeds ++ posts more :=
  List.filterMap_append

/-- A response is no order. -/
theorem posts_responses (rs : List OrderResponse) : posts (rs.map .response) = [] := by
  unfold posts
  rw [List.filterMap_eq_nil_iff]
  intro d hd
  obtain ⟨r, -, rfl⟩ := List.mem_map.mp hd
  rfl

/-- An order that is refused is not posted. -/
theorem posts_refusalDeeds (intent : Intent) (reason : V1.Refusal) :
    posts (V1.refusalDeeds intent reason) = [] := by
  unfold V1.refusalDeeds
  cases reason
  all_goals exact posts_responses _

/-- A dispatch posts its order once, or not at all. -/
theorem posts_dispatch (intent : Intent) (outcome : PostOutcome) :
    posts (V1.dispatch intent outcome).1 = [] ∨
      posts (V1.dispatch intent outcome).1 = [intent] := by
  unfold V1.dispatch
  split_ifs
  · right
    cases V1.responsesOf intent outcome with
    | none => rfl
    | some rs =>
      show intent :: posts (rs.map .response) = [intent]
      rw [posts_responses]
  · exact Or.inl rfl

/-- An order is refused or posted once. -/
theorem deeds_execute (x : Executor) (intent : Intent) (tMinusS : Option ℚ)
    (stopAuthorized : Bool) (outcome : PostOutcome) :
    ∃ more, (execute x intent tMinusS stopAuthorized outcome).1.deeds = x.deeds ++ more ∧
      (posts more = [] ∨ posts more = [intent]) := by
  unfold execute
  cases V1.refusal x intent (tMinusS.or intent.tMinusS) stopAuthorized with
  | some reason => exact ⟨_, rfl, Or.inl (posts_refusalDeeds intent reason)⟩
  | none =>
    refine ⟨.intent intent :: (V1.dispatch intent outcome).1, ?_, posts_dispatch intent outcome⟩
    unfold V1.commit
    dsimp only
    cases (V1.dispatch intent outcome).2 <;> rfl

/-- The same holds of an order sent past the token budget. -/
theorem deeds_harnessExecute (x : Executor) (intent : Intent) (tMinusS : Option ℚ)
    (stopAuthorized : Bool) (outcome : PostOutcome) :
    ∃ more, (harnessExecute x intent tMinusS stopAuthorized outcome).1.deeds = x.deeds ++ more ∧
      (posts more = [] ∨ posts more = [intent]) := by
  unfold harnessExecute
  split_ifs
  · exact deeds_execute { x with
      config := { x.config with windowTokenBudget := flattenExemptBudget } } intent tMinusS true
      outcome
  · exact deeds_execute x intent tMinusS stopAuthorized outcome

/-- The deeds go on, with no entry posted. -/
def Quiet (deeds deeds' : List Deed) : Prop :=
  ∃ more, deeds' = deeds ++ more ∧ ∀ intent ∈ posts more, intent.purpose ≠ .entry

/-- Nothing done is quiet. -/
theorem Quiet.refl (deeds : List Deed) : Quiet deeds deeds :=
  ⟨[], (List.append_nil deeds).symm, fun _ hmem => by cases hmem⟩

/-- Two quiet parts are quiet together. -/
theorem Quiet.trans {deeds deeds' deeds'' : List Deed} (h : Quiet deeds deeds')
    (h' : Quiet deeds' deeds'') : Quiet deeds deeds'' := by
  obtain ⟨more, rfl, hmore⟩ := h
  obtain ⟨more', rfl, hmore'⟩ := h'
  refine ⟨more ++ more', List.append_assoc _ _ _, fun intent hmem => ?_⟩
  rw [posts_append] at hmem
  exact (List.mem_append.mp hmem).elim (hmore intent) (hmore' intent)

/-- A quiet part only adds deeds. -/
theorem Quiet.goesOn {deeds deeds' : List Deed} (h : Quiet deeds deeds') : deeds <+: deeds' := by
  obtain ⟨more, rfl, -⟩ := h
  exact List.prefix_append _ _

/-- Replies that fit after a quiet part fit before it. -/
theorem RepliesFit.of_quiet {deeds deeds' : List Deed} (h : RepliesFit deeds')
    (hquiet : Quiet deeds deeds') : RepliesFit deeds :=
  h.of_more hquiet.goesOn

/-- An order other than an entry is quiet. -/
theorem quiet_of_posted {deeds deeds' : List Deed} {intent : Intent}
    (h : ∃ more, deeds' = deeds ++ more ∧ (posts more = [] ∨ posts more = [intent]))
    (hpurpose : intent.purpose ≠ .entry) : Quiet deeds deeds' := by
  obtain ⟨more, heq, hposts⟩ := h
  refine ⟨more, heq, fun intent' hmem => ?_⟩
  rcases hposts with hnone | hone
  · rw [hnone] at hmem
    cases hmem
  · rw [hone, List.mem_singleton] at hmem
    rw [hmem]
    exact hpurpose

/-! ### One order -/

section Orders

variable {fits : Prop} {x : Executor} {intent : Intent} {leg : IntentLeg} {outcome : PostOutcome}
  {tMinusS : Option ℚ} {stopAuthorized : Bool} {s : LedgerState} {r : OrderResponse}

/-- What an order of one leg does to the executor, and the response it gives. -/
structure Sent (x : Executor) (intent : Intent) (leg : IntentLeg) (outcome : PostOutcome)
    (done : Executor × Option ExecResult) : Prop where
  armed : done.1.armed = x.armed
  deeds : ∃ more, done.1.deeds = x.deeds ++ more ∧ (posts more = [] ∨ posts more = [intent])
  response : ∀ result, done.2 = some result → ∃ r, result.responses = [r] ∧
    (r.fillCount = 0 ∨ .post intent outcome ∈ done.1.deeds ∧ ∃ status body,
      outcome = .reply status (some body) ∧ V1.parseSingleResponse body leg.side = some r)

/-- An order of one leg without a fill has one response, which names the leg. -/
theorem noFills_single (hlegs : intent.legs = [leg]) (error : V1.OrderError) :
    V1.noFills intent error = [V1.noFillResponse (.text leg.clientOrderId) error] := by
  unfold V1.noFills
  rw [hlegs]
  rfl

/-- The response to a post of one leg: one without fill, or the one of the reply. -/
theorem responsesOf_one (hlegs : intent.legs = [leg]) {rs : List OrderResponse}
    (h : V1.responsesOf intent outcome = some rs) :
    ∃ r, rs = [r] ∧ (r.fillCount = 0 ∨ ∃ status body, outcome = .reply status (some body) ∧
      V1.parseSingleResponse body leg.side = some r) := by
  have hnone (error : V1.OrderError) (h : some (V1.noFills intent error) = some rs) :
      ∃ r, rs = [r] ∧ (r.fillCount = 0 ∨ ∃ status body, outcome = .reply status (some body) ∧
        V1.parseSingleResponse body leg.side = some r) := by
    rw [noFills_single hlegs] at h
    cases h
    exact ⟨_, rfl, Or.inl rfl⟩
  have hbody (status : Option ℤ) (body : Option Json) (hout : outcome = .reply status body)
      (h : body.bind (V1.readBody intent) = some rs) :
      ∃ r, rs = [r] ∧ (r.fillCount = 0 ∨ ∃ status body, outcome = .reply status (some body) ∧
        V1.parseSingleResponse body leg.side = some r) := by
    obtain ⟨b, rfl, hread⟩ := Option.bind_eq_some_iff.mp h
    unfold V1.readBody at hread
    rw [hlegs] at hread
    obtain ⟨r, hr, rfl⟩ := Option.map_eq_some_iff.mp hread
    exact ⟨r, rfl, Or.inr ⟨status, b, hout, hr⟩⟩
  cases outcome with
  | raised name => exact hnone _ h
  | reply status body =>
    unfold V1.responsesOf V1.readReply at h
    cases status with
    | none => exact hbody none body rfl h
    | some code =>
      dsimp only at h
      split_ifs at h
      · exact hnone _ h
      · exact hnone _ h
      · exact hbody (some code) body rfl h

/-- An order of one leg, refused or sent. -/
theorem execute_sent (x : Executor) (tMinusS : Option ℚ) (stopAuthorized : Bool)
    (outcome : PostOutcome) (hlegs : intent.legs = [leg]) :
    Sent x intent leg outcome (execute x intent tMinusS stopAuthorized outcome) := by
  refine ⟨?_, deeds_execute x intent tMinusS stopAuthorized outcome, ?_⟩
  · unfold execute
    cases V1.refusal x intent (tMinusS.or intent.tMinusS) stopAuthorized with
    | some reason => rfl
    | none =>
      unfold V1.commit
      dsimp only
      cases (V1.dispatch intent outcome).2 <;> rfl
  unfold execute
  cases V1.refusal x intent (tMinusS.or intent.tMinusS) stopAuthorized with
  | some reason =>
    intro result h
    cases h
    exact ⟨_, noFills_single hlegs _, Or.inl rfl⟩
  | none =>
    have hdeeds : (V1.commit x intent outcome).1.deeds =
        x.deeds ++ .intent intent :: (V1.dispatch intent outcome).1 := by
      unfold V1.commit
      dsimp only
      cases (V1.dispatch intent outcome).2 <;> rfl
    intro result h
    dsimp only at h ⊢
    rw [hdeeds]
    unfold V1.commit V1.dispatch at h
    unfold V1.dispatch
    by_cases hbuild : V1.Buildable intent
    · rw [if_pos hbuild] at h ⊢
      cases hresponses : V1.responsesOf intent outcome with
      | none =>
        rw [hresponses] at h
        cases h
      | some rs =>
        rw [hresponses] at h
        cases h
        obtain ⟨r, rfl, hr⟩ := responsesOf_one hlegs hresponses
        refine ⟨r, rfl, hr.imp_right fun hreply => ⟨?_, hreply⟩⟩
        simp
    · rw [if_neg hbuild] at h
      cases h

/-- A sale on a stop is an order like any other, with a budget of its own. -/
theorem harnessExecute_sent (x : Executor) (tMinusS : Option ℚ) (stopAuthorized : Bool)
    (outcome : PostOutcome) (hlegs : intent.legs = [leg]) :
    Sent x intent leg outcome (harnessExecute x intent tMinusS stopAuthorized outcome) := by
  unfold harnessExecute
  split_ifs with hflatten
  · have h := execute_sent { x with
        config := { x.config with windowTokenBudget := flattenExemptBudget } } tMinusS true
      outcome hlegs
    exact ⟨h.armed, h.deeds, h.response⟩
  · exact execute_sent x tMinusS stopAuthorized outcome hlegs

/-! ### What a response changes -/

/-- A leg that is not known holds nothing. -/
theorem net_of_legKey_none {which : Which} (h : s.legKey which = none) : s.net which = 0 := by
  unfold LedgerState.net LedgerState.position
  rw [h]
  rfl

/-- A response moves the lots of its fill on the leg of the fill alone. -/
theorem net_recordResponse (s : LedgerState) (r : OrderResponse) (which : Which) :
    (recordResponse s r).net which = s.net which +
      (fillOf s r).elim 0 fun f => if s.legKey which = some f.key then f.lots else 0 := by
  have hlegKey := legKey_recordResponse s r which
  cases hkey : s.legKey which with
  | none =>
    rw [net_of_legKey_none hkey, net_of_legKey_none (hlegKey.trans hkey)]
    cases fillOf s r with
    | none => simp
    | some f => simp
  | some key =>
    rw [net_eq_positionAt hkey, net_eq_positionAt (hlegKey.trans hkey)]
    have hrecord := V1.positionAt_record s (.response r) key
    change positionAt (recordResponse s r) key = _ at hrecord
    have hfill : V1.fillAt s (.response r) = fillOf s r := rfl
    rw [hrecord, hfill]
    cases fillOf s r with
    | none => simp
    | some f =>
      by_cases heq : f.key = key
      · simp [Option.filter_some, heq, V1.LegPosition.net_add]
      · simp [Option.filter_some, heq, Ne.symm heq]

/-- An order other than an entry changes no lots. -/
theorem net_recordIntent (s : LedgerState) (h : intent.purpose ≠ .entry) (which : Which) :
    (recordIntent s intent).net which = s.net which := by
  unfold LedgerState.net LedgerState.position
  rw [legKey_recordIntent s h which]
  rfl

/-- A response that names the one leg of an order records a fill of that leg, or none. -/
theorem fillOf_named (hlegs : intent.legs = [leg])
    (hname : ∀ name, r.clientOrderId.name? = some name → name = leg.clientOrderId) {f : Fill}
    (h : fillOf (recordIntent s intent) r = some f) :
    f.key = (leg.ticker, leg.side) ∧ f.action = leg.action ∧ f.count = r.fillCount ∧
      0 < r.fillCount := by
  obtain ⟨leg', hleg, hcond⟩ := Option.bind_eq_some_iff.mp h
  split_ifs at hcond with hzero
  obtain ⟨price, -, rfl⟩ := Option.map_eq_some_iff.mp hcond
  obtain ⟨name, hcid, hget⟩ := Option.bind_eq_some_iff.mp hleg
  have hset : (recordIntent s intent).cidToLeg = s.cidToLeg.set leg.clientOrderId leg := by
    unfold recordIntent
    dsimp only
    rw [hlegs]
    rfl
  rw [hset, Dict.get?_set, if_pos (hname name hcid)] at hget
  cases hget
  rw [not_or, not_le] at hzero
  exact ⟨rfl, rfl, rfl, hzero.1⟩

/-- A ledger of two markets, that owes no lots if the replies fit. -/
structure LedgerOk (fits : Prop) (s : LedgerState) : Prop where
  keyed : Keyed s
  distinct : s.highTicker ≠ s.lowTicker
  nonneg : fits → ∀ which, 0 ≤ s.net which

/-- The two legs of a ledger are of two markets. -/
theorem LedgerOk.legKey_inj (h : LedgerOk fits s) {a b : Which} {key : String × Side}
    (ha : s.legKey a = some key) (hb : s.legKey b = some key) : a = b := by
  obtain ⟨sidea, -, hkeya⟩ := Option.map_eq_some_iff.mp ha
  obtain ⟨sideb, -, hkeyb⟩ := Option.map_eq_some_iff.mp hb
  have hticker : s.ticker a = s.ticker b :=
    (congrArg Prod.fst hkeya).trans (congrArg Prod.fst hkeyb).symm
  have hdistinct := h.distinct
  cases a <;> cases b
  · rfl
  · exact absurd hticker hdistinct
  · exact absurd hticker.symm hdistinct
  · rfl

/-- The response to an order of one leg that fits. -/
structure Answered (leg : IntentLeg) (r : OrderResponse) : Prop where
  count : r.fillCount = 0 ∨ r.fillCount ≤ leg.count
  name : r.fillCount ≠ 0 → ∀ name, r.clientOrderId.name? = some name → name = leg.clientOrderId

/-- An order of one leg gets one response, which fits if the replies do. -/
theorem Sent.answered {done : Executor × Option ExecResult} (h : Sent x intent leg outcome done)
    (hlegs : intent.legs = [leg]) (hfit : fits → RepliesFit done.1.deeds) {result : ExecResult}
    (hresult : done.2 = some result) :
    ∃ r, result.responses = [r] ∧ (fits → Answered leg r) := by
  obtain ⟨r, hr, hcases⟩ := h.response result hresult
  refine ⟨r, hr, fun hfits => ?_⟩
  rcases hcases with hzero | ⟨hpost, status, body, rfl, hparse⟩
  · exact ⟨Or.inl hzero, fun hne => absurd hzero hne⟩
  · obtain ⟨hle, hname⟩ := hfit hfits intent _ leg hpost hlegs
    obtain ⟨q, hq, rfl⟩ := Option.map_eq_some_iff.mp hparse
    have hcount : (V1.normalizeFillToSide q leg.side).fillCount ≤ leg.count := by
      rw [V1.fillCount_normalizeFillToSide, Box.fillCount_of_parse hq]
      exact hle
    refine ⟨Or.inr hcount, fun _ => ?_⟩
    rw [V1.clientOrderId_normalizeFillToSide, V1.clientOrderId_of_parse hq]
    exact hname

/-- What the lots of a fill add to a leg. -/
def added (action : V1.Action) (lots : ℚ) : ℚ :=
  match action with
  | .buy => lots
  | .sell => -lots
  | .other => 0

/-- The response to an order that fits moves lots of its leg alone, no more than the order's. -/
theorem Answered.moves {d : Which} (hr : Answered leg r) (hlegs : intent.legs = [leg])
    (hpurpose : intent.purpose ≠ .entry) (hkey : s.legKey d = some (leg.ticker, leg.side))
    (h : LedgerOk fits s) :
    ∃ y : ℚ, 0 ≤ y ∧ (y = 0 ∨ y ≤ leg.count) ∧ ∀ which,
      (recordResponse (recordIntent s intent) r).net which = s.net which +
        if which = d then added leg.action y else 0 := by
  have hnet (which : Which) := net_recordResponse (recordIntent s intent) r which
  cases hfill : fillOf (recordIntent s intent) r with
  | none =>
    refine ⟨0, le_rfl, Or.inl rfl, fun which => ?_⟩
    rw [hnet, hfill, net_recordIntent s hpurpose]
    cases leg.action <;> simp [added]
  | some f =>
    have hpos : 0 < r.fillCount := by
      obtain ⟨leg', -, hcond⟩ := Option.bind_eq_some_iff.mp hfill
      split_ifs at hcond with hzero
      exact not_le.mp (not_or.mp hzero).1
    obtain ⟨hfkey, haction, hcount, -⟩ := fillOf_named hlegs (hr.name hpos.ne') hfill
    refine ⟨r.fillCount, hpos.le, hr.count, fun which => ?_⟩
    rw [hnet, hfill, net_recordIntent s hpurpose, Option.elim_some,
      legKey_recordIntent s hpurpose, hfkey]
    have hiff : s.legKey which = some (leg.ticker, leg.side) ↔ which = d := by
      constructor
      · exact fun hwhich => h.legKey_inj hwhich hkey
      · rintro rfl
        exact hkey
    have hlots : f.lots = added leg.action r.fillCount := by
      cases hact : leg.action <;> simp [V1.Fill.lots, added, haction, hcount, hact]
    by_cases heq : which = d
    · rw [if_pos (hiff.mpr heq), if_pos heq, hlots]
    · rw [if_neg (mt hiff.mp heq), if_neg heq]

/-- A recorded order and its response keep every position under its own key. -/
theorem keyed_recorded (h : Keyed s) (intent : Intent) (r : OrderResponse) :
    Keyed (recordResponse (recordIntent s intent) r) :=
  (h.record (.intent intent)).record (.response r)

/-- A recorded order and its response leave the markets as they were. -/
theorem tickers_recorded (s : LedgerState) (hpurpose : intent.purpose ≠ .entry)
    (r : OrderResponse) :
    (recordResponse (recordIntent s intent) r).highTicker = s.highTicker ∧
      (recordResponse (recordIntent s intent) r).lowTicker = s.lowTicker := by
  obtain ⟨hr, -, -⟩ := V1.recordResponse_frame (recordIntent s intent) r
  obtain ⟨hi, -⟩ := V1.recordIntent_frame s intent hpurpose
  exact ⟨(hr .high).trans (hi .high), (hr .low).trans (hi .low)⟩

/-- A ledger that owes nothing still owes nothing after an order that takes no more than there
is. -/
theorem LedgerOk.recorded {d : Which} (h : LedgerOk fits s) (hr : fits → Answered leg r)
    (hlegs : intent.legs = [leg]) (hpurpose : intent.purpose ≠ .entry)
    (hkey : s.legKey d = some (leg.ticker, leg.side))
    (hcovered : fits → leg.action = .sell → (leg.count : ℚ) ≤ s.net d) :
    LedgerOk fits (recordResponse (recordIntent s intent) r) where
  keyed := keyed_recorded h.keyed intent r
  distinct := by
    obtain ⟨hhigh, hlow⟩ := tickers_recorded s hpurpose r
    rw [hhigh, hlow]
    exact h.distinct
  nonneg := by
    intro hfits which
    obtain ⟨y, hy, hcount, hnet⟩ := (hr hfits).moves hlegs hpurpose hkey h
    have hheld := h.nonneg hfits which
    rw [hnet which]
    by_cases heq : which = d
    · rw [if_pos heq]
      cases haction : leg.action with
      | buy => exact add_nonneg hheld hy
      | sell =>
        have hle := hcovered hfits haction
        rw [← heq] at hle
        show 0 ≤ s.net which + -y
        rcases hcount with hzero | hcount
        · linarith
        · linarith
      | other => exact add_nonneg hheld le_rfl
    · rw [if_neg heq]
      simpa using hheld

/-- An order other than an entry leaves a ledger that owes nothing. -/
theorem LedgerOk.ordered (h : LedgerOk fits s) (hpurpose : intent.purpose ≠ .entry) :
    LedgerOk fits (recordIntent s intent) where
  keyed := h.keyed.record (.intent intent)
  distinct := h.distinct
  nonneg := fun hfits which => by
    rw [net_recordIntent s hpurpose]
    exact h.nonneg hfits which

end Orders

/-! ### The rebalance -/

section Rebalancing

variable {fits : Prop} {g : LoopSetting} {w : Rebalance} {turn : Turn}

/-- An order of the rebalance is no entry. -/
theorem quiet_sendOrder (g : LoopSetting) (w : Rebalance) (turn : Turn) (action : V1.Action)
    (order : V1.RebalanceOrder) :
    Quiet w.executor.deeds (V1.sendOrder g w turn action order).executor.deeds := by
  unfold V1.sendOrder
  dsimp only
  cases order.side with
  | none => exact .refl _
  | some side =>
    have hquiet : Quiet w.executor.deeds (execute w.executor (V1.rebalanceIntent g w.ledger turn
        action order side) (some g.tMinusS) false turn.outcome).1.deeds :=
      quiet_of_posted (deeds_execute _ _ _ _ _) (V1.rebalancePurpose_ne_entry action)
    dsimp only
    split
    · exact hquiet
    · split_ifs
      · exact hquiet
      · exact hquiet

/-- A turn of the rebalance posts no entry. -/
theorem quiet_rebalanceTurn (g : LoopSetting) (w : Rebalance) (turn : Turn) :
    Quiet w.executor.deeds (V1.rebalanceTurn g w turn).executor.deeds := by
  unfold V1.rebalanceTurn
  cases w.ended with
  | some e => exact .refl _
  | none =>
    unfold V1.carryOut
    cases V1.decision g w.ledger turn with
    | retryBuy order => exact quiet_sendOrder g w turn .buy order
    | sellDown order => exact quiet_sendOrder g w turn .sell order
    | _ => exact .refl _

/-- The rebalance posts no entry. -/
theorem quiet_turns (g : LoopSetting) (w : Rebalance) (turns : List Turn) :
    Quiet w.executor.deeds (turns.foldl (V1.rebalanceTurn g) w).executor.deeds := by
  induction turns generalizing w with
  | nil => exact .refl _
  | cons turn turns ih => exact (quiet_rebalanceTurn g w turn).trans (ih _)

/-- An order of the rebalance that takes no more than there is leaves nothing owed. -/
theorem ledgerOk_sendOrder {action : V1.Action} {order : V1.RebalanceOrder}
    (h : LedgerOk fits w.ledger) (hticker : order.ticker = w.ledger.ticker order.which)
    (hside : order.side = w.ledger.side order.which)
    (hcovered : fits → action = .sell → (order.count : ℚ) ≤ w.ledger.net order.which)
    (hfit : fits → RepliesFit (V1.sendOrder g w turn action order).executor.deeds) :
    LedgerOk fits (V1.sendOrder g w turn action order).ledger := by
  unfold V1.sendOrder at hfit ⊢
  dsimp only at hfit ⊢
  cases hsome : order.side with
  | none => exact h
  | some side =>
    rw [hsome] at hfit
    dsimp only at hfit ⊢
    have hpurpose : (V1.rebalanceIntent g w.ledger turn action order side).purpose ≠ .entry :=
      V1.rebalancePurpose_ne_entry action
    have hkey : w.ledger.legKey order.which = some (order.ticker, side) := by
      unfold LedgerState.legKey
      rw [← hside, hsome, hticker]
      rfl
    have hlegs : (V1.rebalanceIntent g w.ledger turn action order side).legs =
        [V1.rebalanceLeg g turn action order side] := rfl
    have hsent := execute_sent w.executor (some g.tMinusS) false turn.outcome hlegs
    generalize execute w.executor (V1.rebalanceIntent g w.ledger turn action order side)
      (some g.tMinusS) false turn.outcome = done at hfit hsent ⊢
    obtain ⟨x', result⟩ := done
    cases result with
    | none => exact h.ordered hpurpose
    | some result =>
      dsimp only at hfit ⊢
      have hfit' : fits → RepliesFit x'.deeds := by
        split_ifs at hfit
        · exact hfit
        · exact hfit
      obtain ⟨r, hr, hanswered⟩ := hsent.answered rfl hfit' rfl
      split_ifs
      · rw [hr]
        exact h.recorded hanswered rfl hpurpose hkey hcovered
      · exact h.ordered hpurpose

/-- A turn of the rebalance leaves nothing owed: it sells only what has no pair. -/
theorem ledgerOk_rebalanceTurn (h : LedgerOk fits w.ledger)
    (hfit : fits → RepliesFit (V1.rebalanceTurn g w turn).executor.deeds) :
    LedgerOk fits (V1.rebalanceTurn g w turn).ledger := by
  unfold V1.rebalanceTurn at hfit ⊢
  cases hended : w.ended with
  | some e => exact h
  | none =>
    rw [hended] at hfit
    dsimp only at hfit ⊢
    rcases V1.proposeRebalance_cases w.ledger g.bounds g.tMinusS turn.quotes
      (V1.ceilingPerPair g.bounds w.ledger.source turn.fairStrangleQ) with
      hend | ⟨imb, order, hdetect, ⟨hretry, hdecision⟩ | ⟨hsell, hdecision⟩⟩
    · change V1.decision g w.ledger turn ∈ _ at hend
      simp only [List.mem_cons, List.not_mem_nil, or_false] at hend
      rcases hend with hend | hend | hend
      all_goals
        rw [hend]
        exact h
    · change V1.decision g w.ledger turn = _ at hdecision
      rw [hdecision] at hfit ⊢
      obtain ⟨-, hticker, hside, -⟩ := V1.retryBuyOf_spec hdetect hretry
      exact ledgerOk_sendOrder h hticker hside (fun _ hne => by cases hne) hfit
    · change V1.decision g w.ledger turn = _ at hdecision
      rw [hdecision] at hfit ⊢
      obtain ⟨-, hticker, hside, hcount, -⟩ := V1.sellDownOf_spec hdetect hsell
      refine ledgerOk_sendOrder h hticker hside (fun hfits _ => ?_) hfit
      have hheld := h.nonneg hfits
      have hmatched : 0 ≤ w.ledger.matchedPairs := le_min (hheld .high) (hheld .low)
      have hfloor : (0 : ℚ) ≤ truncInt w.ledger.matchedPairs := by
        unfold truncInt
        rw [if_pos hmatched]
        exact_mod_cast Int.floor_nonneg.mpr hmatched
      have hle := truncInt_le (hheld order.which)
      rw [hcount]
      push_cast
      linarith

/-- The rebalance leaves nothing owed. -/
theorem ledgerOk_turns (turns : List Turn) (h : LedgerOk fits w.ledger)
    (hfit : fits → RepliesFit (turns.foldl (V1.rebalanceTurn g) w).executor.deeds) :
    LedgerOk fits (turns.foldl (V1.rebalanceTurn g) w).ledger := by
  induction turns generalizing w with
  | nil => exact h
  | cons turn turns ih =>
    exact ih (ledgerOk_rebalanceTurn h fun hfits =>
      (hfit hfits).of_quiet (quiet_turns g _ turns)) hfit

end Rebalancing

/-! ### The entry -/

section Entry

variable {fits : Prop} {s : LedgerState} {intent : Intent}

/-- A ledger whose orders are purchases. -/
structure EntryOk (fits : Prop) (s : LedgerState) : Prop extends LedgerOk fits s where
  buys : ∀ cid leg, s.cidToLeg.get? cid = some leg → leg.action = .buy

/-- A fill of a purchase adds lots. -/
theorem EntryOk.recordResponse (h : EntryOk fits s) (r : OrderResponse) :
    EntryOk fits (recordResponse s r) where
  keyed := h.keyed.record (.response r)
  distinct := by
    obtain ⟨hticker, -⟩ := V1.recordResponse_frame s r
    have hhigh : (V1.recordResponse s r).highTicker = s.highTicker := hticker .high
    have hlow : (V1.recordResponse s r).lowTicker = s.lowTicker := hticker .low
    rw [hhigh, hlow]
    exact h.distinct
  nonneg := by
    intro hfits which
    rw [net_recordResponse]
    have hheld := h.nonneg hfits which
    cases hfill : fillOf s r with
    | none => simpa using hheld
    | some f =>
      obtain ⟨leg, hleg, hcond⟩ := Option.bind_eq_some_iff.mp hfill
      split_ifs at hcond with hzero
      obtain ⟨price, -, rfl⟩ := Option.map_eq_some_iff.mp hcond
      obtain ⟨cid, -, hget⟩ := Option.bind_eq_some_iff.mp hleg
      have hlots : 0 ≤ Fill.lots ⟨leg.ticker, leg.side, leg.action, r.fillCount, price,
          V1.feeOf r⟩ := by
        unfold Fill.lots
        rw [h.buys cid leg hget]
        exact (not_le.mp (not_or.mp hzero).1).le
      rw [Option.elim_some]
      split_ifs
      · exact add_nonneg hheld hlots
      · simpa using hheld
  buys := by
    have hcids : (V1.recordResponse s r).cidToLeg = s.cidToLeg := by
      unfold V1.recordResponse
      dsimp only
      cases fillOf s r <;> rfl
    rw [hcids]
    exact h.buys

/-- The responses to an entry leave nothing owed. -/
theorem EntryOk.recordResponses (h : EntryOk fits s) (rs : List OrderResponse) :
    EntryOk fits (recordResponses s rs).1 := by
  induction rs generalizing s with
  | nil => exact h
  | cons r rs ih =>
    unfold Corridor.recordResponses
    split_ifs
    · exact ih (h.recordResponse r)
    · exact h

/-- What holds of the legs of an order holds of the legs found by their ids. -/
theorem get?_foldl_set (legs : List IntentLeg) (d : Dict String IntentLeg) (P : IntentLeg → Prop)
    (hd : ∀ cid leg, d.get? cid = some leg → P leg) (hlegs : ∀ leg ∈ legs, P leg) :
    ∀ cid leg, (legs.foldl (fun d leg => d.set leg.clientOrderId leg) d).get? cid = some leg →
      P leg := by
  induction legs generalizing d with
  | nil => exact hd
  | cons l legs ih =>
    apply ih
    · intro cid leg hget
      rw [Dict.get?_set] at hget
      split_ifs at hget with heq
      · cases hget
        exact hlegs l (by simp)
      · exact hd cid leg hget
    · exact fun leg hleg => hlegs leg (by simp [hleg])

/-- A ledger with nothing but an order to buy. -/
theorem entryOk_new (window : String) (source : Source) {high low : String} (hne : high ≠ low)
    (hbuys : ∀ leg ∈ intent.legs, leg.action = .buy) :
    EntryOk fits (recordIntent (V1.newLedger window source high low) intent) where
  keyed := by
    intro key pos hpos
    cases hpos
  distinct := hne
  nonneg := by
    intro _ which
    unfold LedgerState.net LedgerState.position
    cases (recordIntent (V1.newLedger window source high low) intent).legKey which with
    | none => exact le_rfl
    | some key => exact le_rfl
  buys := get?_foldl_set intent.legs .empty _ (fun cid leg h => by cases h) hbuys

end Entry

/-! ### The position policy -/

section Policy

variable {s : LedgerState} {config : StopConfig} {act : PositionAction} {which : Which}

/-- A floor protects no more of a leg than is held. -/
theorem protectedLots_bounds (h : ∀ which, 0 ≤ s.net which) (config : StopConfig)
    (which : Which) :
    0 ≤ protectedLots s config which ∧ protectedLots s config which ≤ s.net which := by
  have hnet := h which
  have hmatched : 0 ≤ s.matchedPairs := le_min (h .high) (h .low)
  unfold protectedLots
  split_ifs
  · exact ⟨le_min hnet hmatched, min_le_left _ _⟩
  · exact ⟨le_rfl, hnet⟩

/-- A sale of a leg of the ledger, of no more than what no floor protects. -/
structure Sells (s : LedgerState) (config : StopConfig) (act : PositionAction) : Prop where
  key : s.legKey act.which = some (act.ticker, act.side)
  count : (act.count : ℚ) ≤ s.net act.which - protectedLots s config act.which

/-- The legs that are sold. -/
def soldLegs (acts : List PositionAction) : List Which :=
  (acts.filter fun act => act.kind = .flatten).map PositionAction.which

/-- The actions on a leg: some lots are held, and the rest, if there is any, is one action more. -/
theorem legActions_cases (s : LedgerState) (config : StopConfig) (which : Which) :
    ∃ holds rest, legActions s config which = holds ++ rest ∧ (∀ act ∈ holds, act.kind = .hold) ∧
      (rest = [] ∨ ∃ pos, s.position which = some pos ∧
        0 < pos.net - protectedLots s config which ∧ rest =
          [unprotectedAction s config which pos (pos.net - protectedLots s config which)]) := by
  unfold legActions
  cases s.position which with
  | none => exact ⟨[], [], rfl, by simp, Or.inl rfl⟩
  | some pos =>
    dsimp only
    split_ifs with hnone hguard hrest hrest
    · exact ⟨[], [], rfl, by simp, Or.inl rfl⟩
    · exact ⟨_, _, rfl, by simp, Or.inr ⟨pos, rfl, hrest, rfl⟩⟩
    · exact ⟨_, _, rfl, by simp, Or.inl rfl⟩
    · exact ⟨[], _, rfl, by simp, Or.inr ⟨pos, rfl, hrest, rfl⟩⟩
    · exact ⟨[], [], rfl, by simp, Or.inl rfl⟩

/-- The action on the rest of a leg is on that leg. -/
theorem unprotectedAction_which (s : LedgerState) (config : StopConfig) (which : Which)
    (pos : V1.LegPosition) (x : ℚ) : (unprotectedAction s config which pos x).which = which := by
  unfold unprotectedAction
  split_ifs <;> rfl

/-- A leg is sold once at the most. -/
theorem soldLegs_legActions (s : LedgerState) (config : StopConfig) (which : Which) :
    (soldLegs (legActions s config which)).Sublist [which] := by
  obtain ⟨holds, rest, heq, hholds, hrest⟩ := legActions_cases s config which
  have hnone : holds.filter (fun act => act.kind = .flatten) = [] := by
    rw [List.filter_eq_nil_iff]
    intro act hact
    rw [hholds act hact]
    simp
  unfold soldLegs
  rw [heq, List.filter_append, hnone, List.nil_append]
  rcases hrest with rfl | ⟨pos, -, -, rfl⟩
  · exact List.nil_sublist _
  · have hone := (List.filter_sublist (p := fun act : PositionAction => act.kind = .flatten)
      (l := [unprotectedAction s config which pos (pos.net - protectedLots s config which)])).map
        PositionAction.which
    rw [List.map_singleton, unprotectedAction_which] at hone
    exact hone

/-- The legs sold by two lists of actions. -/
theorem soldLegs_append (acts more : List PositionAction) :
    soldLegs (acts ++ more) = soldLegs acts ++ soldLegs more := by
  unfold soldLegs
  rw [List.filter_append, List.map_append]

/-- The policy sells no leg twice. -/
theorem soldLegs_positionPolicy (s : LedgerState) (config : StopConfig) :
    (soldLegs (positionPolicy s config)).Nodup := by
  have heq : positionPolicy s config =
      legActions s config .high ++ legActions s config .low := by
    unfold positionPolicy
    simp
  rw [heq, soldLegs_append]
  have hsub := (soldLegs_legActions s config .high).append (soldLegs_legActions s config .low)
  exact hsub.nodup (by decide)

/-- A sale of the policy is of no more than what no floor protects. -/
theorem sells_of_mem (h : Keyed s) (hact : act ∈ positionPolicy s config)
    (hkind : act.kind = .flatten) : Sells s config act := by
  obtain ⟨which, -, hact⟩ := List.mem_flatMap.mp hact
  obtain ⟨holds, rest, heq, hholds, hrest⟩ := legActions_cases s config which
  rw [heq] at hact
  rcases List.mem_append.mp hact with hact | hact
  · rw [hholds act hact] at hkind
    cases hkind
  · rcases hrest with rfl | ⟨pos, hpos, hmore, rfl⟩
    · cases hact
    · rw [List.mem_singleton] at hact
      obtain ⟨hkey, hnet⟩ := key_of_position h hpos
      have hle : ((truncInt (pos.net - protectedLots s config which) : ℤ) : ℚ) ≤
          s.net which - protectedLots s config which := by
        rw [hnet]
        exact truncInt_le hmore.le
      unfold unprotectedAction at hact
      by_cases hflatten : config.flattenUnprotectedExposure = true
      · rw [if_pos hflatten] at hact
        subst hact
        exact ⟨hkey, hle⟩
      · rw [if_neg hflatten] at hact
        subst hact
        cases hkind

end Policy

/-! ### The stop -/

section Stopping

variable {fits : Prop} {g : CorridorWindow} {s : LedgerState} {m : StopMoment}
  {w : WindowService} {act : PositionAction} {acts : List PositionAction} {t : Trip}

/-- An action of a stop posts no entry. -/
theorem quiet_dispatchAction (g : CorridorWindow) (s : LedgerState) (m : StopMoment)
    (w : WindowService) (act : PositionAction) :
    Quiet w.executor.deeds (dispatchAction g s m w act).1.executor.deeds := by
  unfold dispatchAction
  cases act.kind with
  | hold => exact .refl _
  | flatten =>
    dsimp only
    cases (bids s m).get? act.ticker with
    | none => exact .refl _
    | some bid =>
      have hpurpose : (flattenOrder g s m act bid).purpose ≠ .entry := fun h => by cases h
      have hquiet := quiet_of_posted (deeds_harnessExecute w.executor (flattenOrder g s m act bid)
        none true (m.outcome act.which)) hpurpose
      dsimp only
      split
      · exact hquiet
      · unfold foldFlattenResponse
        split <;> exact hquiet

/-- The actions of a stop post no entry. -/
theorem quiet_dispatchActions (g : CorridorWindow) (s : LedgerState) (m : StopMoment)
    (w : WindowService) (acts : List PositionAction) :
    Quiet w.executor.deeds (dispatchActions g s m w acts).executor.deeds := by
  induction acts generalizing w with
  | nil => exact .refl _
  | cons act acts ih =>
    unfold dispatchActions
    have hfirst := quiet_dispatchAction g s m w act
    dsimp only
    split_ifs
    · exact hfirst.trans (ih _)
    · exact hfirst

/-- What an action leaves as it was. -/
structure SameStop (w w' : WindowService) : Prop where
  signal : w'.signal = w.signal
  tripped : w'.stops.tripped = w.stops.tripped
  armed : w'.executor.armed = w.executor.armed
  armLocked : w'.armLocked = w.armLocked
  polling : w'.polling = w.polling
  latched : w'.latched = w.latched
  trips : w'.trips = w.trips
  revision : w.revision ≤ w'.revision

/-- No action leaves a stop as it was. -/
theorem SameStop.refl (w : WindowService) : SameStop w w :=
  ⟨rfl, rfl, rfl, rfl, rfl, rfl, rfl, le_rfl⟩

/-- Two actions leave a stop as it was. -/
theorem SameStop.trans {w' w'' : WindowService} (h : SameStop w w') (h' : SameStop w' w'') :
    SameStop w w'' where
  signal := h'.signal.trans h.signal
  tripped := h'.tripped.trans h.tripped
  armed := h'.armed.trans h.armed
  armLocked := h'.armLocked.trans h.armLocked
  polling := h'.polling.trans h.polling
  latched := h'.latched.trans h.latched
  trips := h'.trips.trans h.trips
  revision := h.revision.trans h'.revision

/-- A ledger that has lost no more than what no floor protects, if the replies fit; the legs still
to be sold are as they were. -/
structure SoldDown (fits : Prop) (g : CorridorWindow) (t : Trip) (s : LedgerState)
    (acts : List PositionAction) : Prop where
  ok : LedgerOk fits s
  legKey : ∀ which, s.legKey which = t.ledger.legKey which
  keeps : fits → Keeps g t s
  untouched : fits → ∀ which ∈ soldLegs acts, s.net which = t.ledger.net which

/-- The legs still to be sold are among those of one action more. -/
theorem soldLegs_cons_sublist (act : PositionAction) (acts : List PositionAction) :
    (soldLegs acts).Sublist (soldLegs (act :: acts)) := by
  unfold soldLegs
  exact ((List.sublist_cons_self act acts).filter _).map _

/-- A sale comes before the legs still to be sold. -/
theorem soldLegs_cons_flatten (acts : List PositionAction) (hkind : act.kind = .flatten) :
    soldLegs (act :: acts) = act.which :: soldLegs acts := by
  unfold soldLegs
  rw [List.filter_cons, if_pos (by simp [hkind]), List.map_cons]

/-- An action that sells nothing leaves the ledger as it should be. -/
theorem SoldDown.skip (h : SoldDown fits g t s (act :: acts)) : SoldDown fits g t s acts where
  ok := h.ok
  legKey := h.legKey
  keeps := h.keeps
  untouched := fun hfits which hmem =>
    h.untouched hfits which ((soldLegs_cons_sublist act acts).subset hmem)

/-- So does an order without a response. -/
theorem SoldDown.ordered {intent : Intent} (h : SoldDown fits g t s acts)
    (hpurpose : intent.purpose ≠ .entry) : SoldDown fits g t (recordIntent s intent) acts where
  ok := h.ok.ordered hpurpose
  legKey := fun which => (legKey_recordIntent s hpurpose which).trans (h.legKey which)
  keeps := fun hfits which => by
    rw [net_recordIntent s hpurpose]
    exact h.keeps hfits which
  untouched := fun hfits which hmem => by
    rw [net_recordIntent s hpurpose]
    exact h.untouched hfits which hmem

/-- The response to a sale that fits takes lots of its leg that no floor protects. -/
theorem SoldDown.sale {intent : Intent} {leg : IntentLeg} {r : OrderResponse}
    (ht : LedgerOk fits t.ledger) (h : SoldDown fits g t s (act :: acts))
    (hsells : Sells t.ledger g.stopConfig act)
    (hkind : act.kind = .flatten) (hnodup : (soldLegs (act :: acts)).Nodup)
    (hlegs : intent.legs = [leg]) (hpurpose : intent.purpose = .flatten)
    (haction : leg.action = .sell) (hkey : (leg.ticker, leg.side) = (act.ticker, act.side))
    (hcount : leg.count = act.count) (hr : fits → Answered leg r) :
    SoldDown fits g t (recordResponse (recordIntent s intent) r) acts := by
  have hentry : intent.purpose ≠ .entry := by
    rw [hpurpose]
    decide
  rw [soldLegs_cons_flatten acts hkind, List.nodup_cons] at hnodup
  have hheld (hfits : fits) : s.net act.which = t.ledger.net act.which := by
    apply h.untouched hfits
    rw [soldLegs_cons_flatten acts hkind]
    exact List.mem_cons_self
  have hleg : s.legKey act.which = some (leg.ticker, leg.side) := by
    rw [h.legKey, hsells.key, hkey]
  have hle : (leg.count : ℚ) ≤ t.ledger.net act.which -
      protectedLots t.ledger g.stopConfig act.which := by
    rw [hcount]
    exact hsells.count
  have hmoves (hfits : fits) := (hr hfits).moves hlegs hentry hleg h.ok
  refine ⟨?_, fun which => ?_, fun hfits which => ?_, fun hfits which hmem => ?_⟩
  · apply h.ok.recorded hr hlegs hentry hleg
    intro hfits _
    have hfloor := (protectedLots_bounds (ht.nonneg hfits) g.stopConfig act.which).1
    linarith [hheld hfits]
  · rw [legKey_recordResponse, legKey_recordIntent s hentry, h.legKey]
  · obtain ⟨y, hy, hmost, hnet⟩ := hmoves hfits
    rw [haction] at hnet
    rw [hnet which]
    by_cases heq : which = act.which
    · have hguard := (h.keeps hfits act.which).1
      rw [hheld hfits] at hguard
      rw [if_pos heq, heq]
      show _ ≤ s.net act.which + -y ∧ s.net act.which + -y ≤ _
      rw [hheld hfits]
      rcases hmost with hzero | hmost
      · rw [hzero]
        constructor <;> linarith
      · constructor <;> linarith
    · rw [if_neg heq, add_zero]
      exact h.keeps hfits which
  · obtain ⟨y, -, -, hnet⟩ := hmoves hfits
    have hne : which ≠ act.which := by
      rintro rfl
      exact hnodup.1 hmem
    rw [hnet which, if_neg hne, add_zero]
    apply h.untouched hfits
    rw [soldLegs_cons_flatten acts hkind]
    exact List.mem_cons_of_mem _ hmem

/-- The actions of a stop under way: the sales so far are of legs that are not sold again. -/
structure Selling (fits : Prop) (g : CorridorWindow) (t : Trip) (w : WindowService)
    (acts : List PositionAction) : Prop where
  sales : ∃ legs : List Which, (legs ++ soldLegs acts).Nodup ∧
    List.Forall₂ (Reduces g t) (posts (w.executor.deeds.drop t.deeds)) legs
  begun : t.deeds ≤ w.executor.deeds.length
  ledger : ∃ s, w.ledger = some s ∧ SoldDown fits g t s acts

/-- An action that posts nothing leaves a stop under way. -/
theorem Selling.skip (h : Selling fits g t w (act :: acts)) {w' : WindowService}
    (hdeeds : w'.executor.deeds = w.executor.deeds) (hledger : w'.ledger = w.ledger) :
    Selling fits g t w' acts := by
  obtain ⟨legs, hnodup, hsales⟩ := h.sales
  obtain ⟨s, hs, hdown⟩ := h.ledger
  have hsub := (List.Sublist.refl legs).append (soldLegs_cons_sublist act acts)
  constructor
  · rw [hdeeds]
    exact ⟨legs, hsub.nodup hnodup, hsales⟩
  · rw [hdeeds]
    exact h.begun
  · rw [hledger]
    exact ⟨s, hs, hdown.skip⟩

/-- The order of a sale, if it is posted, is for a leg that was not sold before. -/
theorem Selling.posted (h : Selling fits g t w (act :: acts)) (hkind : act.kind = .flatten)
    (hreduces : Reduces g t intent act.which) {more : List V1.Deed}
    (hposts : posts more = [] ∨ posts more = [intent]) :
    ∃ legs : List Which, (legs ++ soldLegs acts).Nodup ∧
      List.Forall₂ (Reduces g t) (posts ((w.executor.deeds ++ more).drop t.deeds)) legs := by
  obtain ⟨legs, hnodup, hsales⟩ := h.sales
  rw [List.drop_append_of_le_length h.begun, posts_append]
  rcases hposts with hnone | hone
  · rw [hnone, List.append_nil]
    exact ⟨legs, ((List.Sublist.refl legs).append
      (soldLegs_cons_sublist act acts)).nodup hnodup, hsales⟩
  · rw [hone]
    refine ⟨legs ++ [act.which], ?_, List.rel_append hsales (.cons ?_ .nil)⟩
    · rw [soldLegs_cons_flatten acts hkind] at hnodup
      rw [List.append_assoc]
      exact hnodup
    · exact hreduces

/-- What an action keeps. -/
theorem Selling.dispatch (ht : LedgerOk fits t.ledger) (h : Selling fits g t w (act :: acts))
    (hsells : act.kind = .flatten → Sells t.ledger g.stopConfig act)
    (hfit : fits → RepliesFit (dispatchAction g t.ledger m w act).1.executor.deeds) :
    SameStop w (dispatchAction g t.ledger m w act).1 ∧
      Selling fits g t (dispatchAction g t.ledger m w act).1 acts := by
  unfold dispatchAction at hfit ⊢
  cases hkind : act.kind with
  | hold => exact ⟨.refl w, h.skip rfl rfl⟩
  | flatten =>
    rw [hkind] at hfit
    dsimp only at hfit ⊢
    cases hbid : (bids t.ledger m).get? act.ticker with
    | none => exact ⟨⟨rfl, rfl, rfl, rfl, rfl, rfl, rfl, le_rfl⟩, h.skip rfl rfl⟩
    | some bid =>
      rw [hbid] at hfit
      dsimp only at hfit ⊢
      obtain ⟨leg, hlegs, haction, hreduce, hkey, hcount⟩ : ∃ leg : IntentLeg,
          (flattenOrder g t.ledger m act bid).legs = [leg] ∧ leg.action = .sell ∧
            leg.reduceOnly = some true ∧ (leg.ticker, leg.side) = (act.ticker, act.side) ∧
            leg.count = act.count := ⟨_, rfl, rfl, rfl, rfl, rfl⟩
      have hpurpose : (flattenOrder g t.ledger m act bid).purpose = .flatten := rfl
      have hentry : (flattenOrder g t.ledger m act bid).purpose ≠ .entry := by
        rw [hpurpose]
        decide
      have hsent := harnessExecute_sent w.executor none true (m.outcome act.which) hlegs
      generalize harnessExecute w.executor (flattenOrder g t.ledger m act bid) none true
        (m.outcome act.which) = done at hfit hsent ⊢
      obtain ⟨x', result⟩ := done
      obtain ⟨more, hmore, hposts⟩ := hsent.deeds
      obtain ⟨s, hs, hdown⟩ := h.ledger
      have hnodup : (soldLegs (act :: acts)).Nodup := by
        obtain ⟨legs, hnodup, -⟩ := h.sales
        exact List.Nodup.of_append_right hnodup
      have hreduces : Reduces g t (flattenOrder g t.ledger m act bid) act.which := by
        refine ⟨hpurpose, leg, hlegs, haction, hreduce, ?_, ?_⟩
        · rw [(hsells hkind).key, hkey]
        · rw [hcount]
          exact (hsells hkind).count
      have hsales := h.posted hkind hreduces hposts
      rw [← hmore] at hsales
      have hbegun : t.deeds ≤ x'.deeds.length := by
        rw [hmore, List.length_append]
        exact h.begun.trans (Nat.le_add_right _ _)
      cases result with
      | none =>
        exact ⟨⟨rfl, rfl, hsent.armed, rfl, rfl, rfl, rfl, le_rfl⟩,
          hsales, hbegun, s, hs, hdown.skip⟩
      | some result =>
        dsimp only at hfit ⊢
        unfold foldFlattenResponse at hfit ⊢
        rw [hs] at hfit ⊢
        refine ⟨⟨rfl, rfl, hsent.armed, rfl, rfl, rfl, rfl, Nat.le_succ _⟩, hsales, hbegun, _, rfl,
          ?_⟩
        obtain ⟨r, hr, hanswered⟩ := hsent.answered hlegs hfit rfl
        rw [hr]
        unfold recordResponses
        split_ifs
        · exact hdown.sale ht (hsells hkind) hkind hnodup hlegs hpurpose haction hkey hcount
            hanswered
        · exact hdown.skip.ordered hentry

/-- What the actions of a stop keep. -/
theorem Selling.dispatchActions (ht : LedgerOk fits t.ledger) (h : Selling fits g t w acts)
    (hsells : ∀ act ∈ acts, act.kind = .flatten → Sells t.ledger g.stopConfig act)
    (hfit : fits → RepliesFit (dispatchActions g t.ledger m w acts).executor.deeds) :
    SameStop w (dispatchActions g t.ledger m w acts) ∧
      ∃ rest, Selling fits g t (dispatchActions g t.ledger m w acts) rest := by
  induction acts generalizing w with
  | nil => exact ⟨.refl w, [], h⟩
  | cons act acts ih =>
    unfold Corridor.dispatchActions at hfit ⊢
    dsimp only at hfit ⊢
    have hfirst (hfits : fits) :
        RepliesFit (dispatchAction g t.ledger m w act).1.executor.deeds := by
      apply (hfit hfits).of_quiet
      split_ifs
      · exact quiet_dispatchActions g t.ledger m _ acts
      · exact .refl _
    obtain ⟨hsame, hnext⟩ := h.dispatch ht (hsells act List.mem_cons_self) hfirst
    split_ifs at hfit ⊢
    · obtain ⟨hsame', hrest⟩ := ih hnext
        (fun act' hact' => hsells act' (List.mem_cons_of_mem _ hact')) hfit
      exact ⟨hsame.trans hsame', hrest⟩
    · exact ⟨hsame, acts, hnext⟩

/-- A window that is not stopped, with a ledger. -/
structure Unstopped (fits : Prop) (w : WindowService) (s : LedgerState) : Prop where
  tripped : w.stops.tripped = []
  trips : w.trips = []
  ledger : w.ledger = some s
  ok : LedgerOk fits s

/-- A window stopped once, whose ledger keeps what it has to if the replies fit. -/
structure Stopped (fits : Prop) (g : CorridorWindow) (w : WindowService) (t : Trip) : Prop where
  tripped : w.stops.tripped ≠ []
  trips : w.trips = [t]
  holds : StopHolds g t w
  ledger : ∃ s, w.ledger = some s ∧ (fits → Keeps g t s)

/-- A window that is not stopped, or was stopped once. -/
def StoppedOnce (fits : Prop) (g : CorridorWindow) (w : WindowService) : Prop :=
  w.stops.tripped = [] ∧ w.trips = [] ∨ ∃ t, Stopped fits g w t

/-- What the checks of a window leave. -/
structure Checked (fits : Prop) (g : CorridorWindow) (w w' : WindowService) : Prop where
  signal : w'.signal = w.signal
  polling : w'.polling = w.polling
  revision : w.revision ≤ w'.revision
  ledger : ∃ s, w'.ledger = some s ∧ LedgerOk fits s
  stop : StoppedOnce fits g w'

/-- Checks that do nothing leave a window as it is. -/
theorem Unstopped.checked (h : Unstopped fits w s) (g : CorridorWindow) : Checked fits g w w :=
  ⟨rfl, rfl, le_rfl, ⟨s, h.ledger, h.ok⟩, Or.inl ⟨h.tripped, h.trips⟩⟩

/-- A stop posts no entry. -/
theorem quiet_trip (g : CorridorWindow) (w : WindowService) (stop : StopKind) (reason : StopReason)
    (s : LedgerState) (m : StopMoment) :
    Quiet w.executor.deeds (trip g w stop reason s m).executor.deeds :=
  quiet_dispatchActions g s m (freeze w stop reason s m.guardWritten)
    (positionPolicy s g.stopConfig)

/-- A window that is frozen, with its stop latched. -/
structure Frozen (w : WindowService) (stop : StopKind) (s : LedgerState) (written : Bool)
    (w' : WindowService) : Prop where
  armed : w'.executor.armed = false
  armLocked : w'.armLocked = true
  signal : w'.signal = w.signal
  polling : w'.polling = w.polling
  revision : w'.revision = w.revision
  ledger : w'.ledger = w.ledger
  deeds : w'.executor.deeds = w.executor.deeds
  tripped : w'.stops.tripped ≠ []
  latched : written = true → (stop, s.window) ∈ w'.latched
  trips : w'.trips = w.trips ++ [⟨stop, s, w.executor.deeds.length, written⟩]

/-- A stop is latched and freezes the executor, whatever becomes of the guard of the day. -/
theorem frozen_freeze (w : WindowService) (stop : StopKind) (reason : StopReason)
    (s : LedgerState) (written : Bool) :
    Frozen w stop s written (freeze w stop reason s written) := by
  have htripped : (applyStop w.stops stop reason).tripped ≠ [] := by
    unfold applyStop
    dsimp only
    split_ifs with hmem
    · exact List.ne_nil_of_mem hmem
    · simp
  unfold freeze setArmed persistLatch
  rw [if_neg (by simp)]
  refine ⟨rfl, by simp, rfl, rfl, rfl, rfl, rfl, htripped, fun hwritten => ?_, rfl⟩
  simp [hwritten]

/-- A stop that trips holds. -/
theorem Unstopped.trip (h : Unstopped fits w s) (stop : StopKind) (reason : StopReason)
    (hfit : fits → RepliesFit (trip g w stop reason s m).executor.deeds) :
    Checked fits g w (trip g w stop reason s m) := by
  unfold Corridor.trip at hfit ⊢
  have hfrozen := frozen_freeze w stop reason s m.guardWritten
  have hstart : Selling fits g ⟨stop, s, w.executor.deeds.length, m.guardWritten⟩
      (freeze w stop reason s m.guardWritten) (positionPolicy s g.stopConfig) := by
    refine ⟨⟨[], soldLegs_positionPolicy s g.stopConfig, ?_⟩, hfrozen.deeds.symm ▸ le_rfl, s,
      hfrozen.ledger.trans h.ledger, h.ok, fun _ => rfl, fun hfits which => ?_, fun _ _ _ => rfl⟩
    · rw [hfrozen.deeds, List.drop_length]
      exact List.Forall₂.nil
    · exact ⟨(protectedLots_bounds (h.ok.nonneg hfits) g.stopConfig which).2, le_rfl⟩
  obtain ⟨hsame, rest, hsold⟩ := hstart.dispatchActions h.ok
    (fun act hact hkind => sells_of_mem h.ok.keyed hact hkind) hfit
  obtain ⟨legs, hnodup, hsales⟩ := hsold.sales
  obtain ⟨s', hs', hdown⟩ := hsold.ledger
  have hholds : StopHolds g ⟨stop, s, w.executor.deeds.length, m.guardWritten⟩
      (dispatchActions g s m (freeze w stop reason s m.guardWritten)
        (positionPolicy s g.stopConfig)) := by
    refine ⟨hsame.armed.trans hfrozen.armed, hsame.armLocked.trans hfrozen.armLocked, ?_,
      legs, hnodup.of_append_left, hsales⟩
    rw [hsame.latched]
    exact hfrozen.latched
  have hstopped : Stopped fits g (dispatchActions g s m (freeze w stop reason s m.guardWritten)
      (positionPolicy s g.stopConfig)) ⟨stop, s, w.executor.deeds.length, m.guardWritten⟩ := by
    refine ⟨?_, ?_, hholds, s', hs', hdown.keeps⟩
    · rw [hsame.tripped]
      exact hfrozen.tripped
    · rw [hsame.trips, hfrozen.trips, h.trips, List.nil_append]
  exact ⟨hsame.signal.trans hfrozen.signal, hsame.polling.trans hfrozen.polling,
    hfrozen.revision.symm.le.trans hsame.revision, ⟨s', hs', hdown.ok⟩, Or.inr ⟨_, hstopped⟩⟩

/-- What a question about the positions leaves. -/
theorem Unstopped.reconcile (h : Unstopped fits w s) (body : Json)
    (hfit : fits → RepliesFit (reconcile g w s body m).executor.deeds) :
    Checked fits g w (reconcile g w s body m) := by
  unfold Corridor.reconcile at hfit ⊢
  dsimp only at hfit ⊢
  split_ifs at hfit ⊢
  · exact h.checked g
  · exact h.trip _ _ hfit

/-- A ledger that can be asked about is that of a window that is not stopped. -/
theorem pollable_eq_some (h : pollable w = some s) : w.stops.tripped = [] ∧ w.ledger = some s := by
  unfold pollable at h
  split_ifs at h with htripped
  exact ⟨htripped, Option.eq_some_of_filter_eq_some h⟩

/-- What a question asked and answered at once leaves. -/
theorem Unstopped.s3PollOnce (h : Unstopped fits w s) (positions : Option Json)
    (hfit : fits → RepliesFit (s3PollOnce g w positions m).executor.deeds) :
    Checked fits g w (s3PollOnce g w positions m) := by
  unfold Corridor.s3PollOnce at hfit ⊢
  cases hpoll : pollable w with
  | none => exact h.checked g
  | some s' =>
    rw [hpoll] at hfit
    have hs := (pollable_eq_some hpoll).2
    rw [h.ledger] at hs
    cases hs
    cases positions with
    | none => exact h.checked g
    | some body => exact h.reconcile body hfit

end Stopping

end Pilot.Corridor
