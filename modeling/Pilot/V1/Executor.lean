import Mathlib.Data.Finset.SDiff
import Pilot.V1.Ledger

/-!
# The executor

The one path to the order endpoints. An order is checked, its intent is journaled, it is
posted once, and its responses are journaled. The journal and the posts are kept in the order
in which they happen.
-/

namespace Pilot.V1

structure ExecutorConfig where
  maxContracts : ℤ := 2
  tickerPrefixes : List String := ["KXBTC15M", "KXBTCD"]
  noOrdersAfterSToSettle : ℚ := 1
  windowTokenBudget : ℕ := 200
  tokensPerEntry : ℕ := 10

/-- What comes of a post. -/
inductive PostOutcome where
  /-- The post raised, with the name of the exception. -/
  | raised (name : String)
  /-- A reply with its status, if it has one, and its body, if it can be read. -/
  | reply (status : Option ℤ) (body : Option Json)

/-- What the executor does, in order: journal records and posts. -/
inductive Deed where
  | intent (intent : Intent)
  | refusedNoExchangeIndex (window : String) (purpose : Purpose) (source : Source)
      (tickers : List String)
  | post (intent : Intent) (outcome : PostOutcome)
  | response (resp : OrderResponse)

/-- The key of an order in flight. -/
abbrev FlightKey := String × Side × Purpose

structure Executor where
  config : ExecutorConfig
  armed : Bool
  inflight : Finset FlightKey
  enteredWindows : Finset String
  tokensUsed : Dict String ℕ
  deeds : List Deed
  dispatchCount : ℕ
  refusalCount : ℕ

/-- A new executor. -/
def Executor.new (config : ExecutorConfig) (armed : Bool) : Executor :=
  ⟨config, armed, ∅, ∅, .empty, [], 0, 0⟩

structure ExecResult where
  responses : List OrderResponse
  refused : Option Refusal
  httpStatus : Option ℤ

/-! ### The checks -/

/-- The keys of an order. -/
def flightKeys (intent : Intent) : Finset FlightKey :=
  (intent.legs.map fun leg => (intent.window, leg.side, intent.purpose)).toFinset

/-- The cap a leg breaks. -/
def legCapViolation (config : ExecutorConfig) (leg : IntentLeg) : Option Refusal :=
  if leg.count ≤ 0 then some (.nonPositiveCount leg.ticker leg.count)
  else if config.maxContracts < leg.count then some (.countOver leg.ticker leg.count)
  else if config.tickerPrefixes.any fun p => leg.ticker.startsWith p then none
  else some (.tickerPrefix leg.ticker)

/-- The first cap the legs break. -/
def capViolation (config : ExecutorConfig) (intent : Intent) : Option Refusal :=
  intent.legs.findSome? (legCapViolation config)

/-- The legs without a shard. -/
def missingIndex (intent : Intent) : List String :=
  (intent.legs.filter fun leg => leg.exchangeIndex = none).map IntentLeg.ticker

/-- The tokens of an order. -/
def tokensOf (config : ExecutorConfig) (intent : Intent) : ℕ :=
  config.tokensPerEntry * intent.legs.length

/-- Whether an order may be sent at all. -/
def unauthorized (x : Executor) (intent : Intent) (stopAuthorized : Bool) : Option Refusal :=
  if stopAuthorized then
    if intent.purpose = .flatten then none else some .stopAuthorizedNonFlatten
  else if x.armed then none else some .notArmed

/-- An order too close to the settlement. -/
def tooLate (config : ExecutorConfig) (tMinusS : Option ℚ) : Option Refusal :=
  tMinusS.bind fun t =>
    if t < config.noOrdersAfterSToSettle then some (.noOrdersAfterSToSettle t) else none

/-- A leg without a shard. -/
def unrouted (intent : Intent) : Option Refusal :=
  if missingIndex intent = [] then none else some (.noExchangeIndex (missingIndex intent))

/-- A second entry in a window. -/
def alreadyEntered (x : Executor) (intent : Intent) : Option Refusal :=
  if intent.purpose = .entry ∧ intent.window ∈ x.enteredWindows then some .windowAlreadyEntered
  else none

/-- An order like one in flight. -/
def inFlight (x : Executor) (intent : Intent) : Option Refusal :=
  if flightKeys intent ∩ x.inflight = ∅ then none else some .singleFlight

/-- An order beyond the tokens of its window. -/
def overBudget (x : Executor) (intent : Intent) : Option Refusal :=
  if x.config.windowTokenBudget < x.tokensUsed.getD intent.window 0 + tokensOf x.config intent then
    some .rateBudgetExhausted
  else none

/-- The first check an order fails. -/
def refusal (x : Executor) (intent : Intent) (tMinusS : Option ℚ) (stopAuthorized : Bool) :
    Option Refusal :=
  (unauthorized x intent stopAuthorized).or <|
  (capViolation x.config intent).or <|
  (unrouted intent).or <|
  (tooLate x.config tMinusS).or <|
  (alreadyEntered x intent).or <|
  (inFlight x intent).or (overBudget x intent)

/-! ### The dispatch -/

/-- A response without fill for every leg. -/
def noFills (intent : Intent) (error : OrderError) : List OrderResponse :=
  intent.legs.map fun leg => noFillResponse (.text leg.clientOrderId) error

/-- The response with the client order id of a leg. -/
def withCid (resp : OrderResponse) (cid : String) : OrderResponse :=
  { resp with clientOrderId := .text cid }

/-- The responses that name an order, the last of each name. -/
def byCid (parsed : List OrderResponse) : Dict String OrderResponse :=
  .ofList (parsed.filterMap fun r => r.clientOrderId.name?.map fun cid => (cid, r))

/-- The responses that name no order. -/
def leftover (parsed : List OrderResponse) : List OrderResponse :=
  parsed.filter fun r => !r.clientOrderId.truthy

/-- The response of every leg: the one that names it, else the next that names none. -/
def alignLegs : List IntentLeg → Dict String OrderResponse → List OrderResponse → List OrderResponse
  | [], _, _ => []
  | leg :: legs, named, rest =>
    match named.get? leg.clientOrderId with
    | some matched =>
      normalizeFillToSide matched leg.side :: alignLegs legs (named.pop leg.clientOrderId) rest
    | none =>
      match rest with
      | r :: rest =>
        normalizeFillToSide (withCid r leg.clientOrderId) leg.side :: alignLegs legs named rest
      | [] =>
        noFillResponse (.text leg.clientOrderId) .noMatchingBatchSlot :: alignLegs legs named []

/-- The responses matched to the legs; a client order id that is no key raises. -/
def alignBatch (legs : List IntentLeg) (parsed : List OrderResponse) :
    Option (List OrderResponse) :=
  if parsed.all fun r => !r.clientOrderId.truthy || r.clientOrderId.hashable then
    some (alignLegs legs (byCid parsed) (leftover parsed))
  else none

/-- The responses in the body of a reply. -/
def readBody (intent : Intent) (body : Json) : Option (List OrderResponse) :=
  match intent.legs with
  | [leg] => (parseSingleResponse body leg.side).map fun resp => [resp]
  | legs => (parseBatchResponse body).bind (alignBatch legs)

/-- The status is one of a reply that carries no orders. -/
def Failed (status : Option ℤ) : Prop :=
  ∃ code, status = some code ∧ ((code = 429 ∨ 500 ≤ code) ∨ code < 200 ∨ 300 ≤ code)

/-- The responses of a reply; nothing when reading it raises. -/
def readReply (intent : Intent) (status : Option ℤ) (body : Option Json) :
    Option (List OrderResponse) :=
  match status with
  | some code =>
    if code = 429 ∨ 500 ≤ code then some (noFills intent (.http code))
    else if code < 200 ∨ 300 ≤ code then some (noFills intent (.http code))
    else body.bind (readBody intent)
  | none => body.bind (readBody intent)

/-- The responses of a post. -/
def responsesOf (intent : Intent) : PostOutcome → Option (List OrderResponse)
  | .raised name => some (noFills intent (.postException name))
  | .reply status body => readReply intent status body

/-- The status of a post. -/
def PostOutcome.status : PostOutcome → Option ℤ
  | .raised _ => none
  | .reply status _ => status

/-- The wire entries of the legs can be built. -/
def Buildable (intent : Intent) : Prop := ∀ leg ∈ intent.legs, leg.action ≠ .other

instance (intent : Intent) : Decidable (Buildable intent) :=
  inferInstanceAs (Decidable (∀ leg ∈ intent.legs, leg.action ≠ .other))

/-- Post an order and journal its responses. -/
def dispatch (intent : Intent) (outcome : PostOutcome) : List Deed × Option ExecResult :=
  if Buildable intent then
    match responsesOf intent outcome with
    | some rs => (.post intent outcome :: rs.map .response, some ⟨rs, none, outcome.status⟩)
    | none => ([.post intent outcome], none)
  else ([], none)

/-- The journal of a refusal. -/
def refusalDeeds (intent : Intent) (reason : Refusal) : List Deed :=
  (match reason with
    | .noExchangeIndex tickers =>
      [.refusedNoExchangeIndex intent.window intent.purpose intent.source tickers]
    | _ => []) ++
  .intent intent :: (noFills intent (.refused reason)).map .response

/-- The executor after a refusal. -/
def refuse (x : Executor) (intent : Intent) (reason : Refusal) : Executor × Option ExecResult :=
  ({ x with
      refusalCount := x.refusalCount + 1
      deeds := x.deeds ++ refusalDeeds intent reason },
    some ⟨noFills intent (.refused reason), some reason, none⟩)

/-- The executor after an order that passes the checks. A dispatch that raises leaves the window
open to another entry. -/
def commit (x : Executor) (intent : Intent) (outcome : PostOutcome) :
    Executor × Option ExecResult :=
  let used := x.tokensUsed.getD intent.window 0
  let keys := flightKeys intent
  let sent := dispatch intent outcome
  let x' := { x with
    tokensUsed := x.tokensUsed.set intent.window (used + tokensOf x.config intent)
    inflight := (x.inflight ∪ keys) \ keys
    deeds := x.deeds ++ .intent intent :: sent.1 }
  match sent.2 with
  | none => (x', none)
  | some result =>
    ({ x' with
        enteredWindows :=
          if intent.purpose = .entry then insert intent.window x.enteredWindows
          else x.enteredWindows
        dispatchCount := x.dispatchCount + 1 },
      some result)

/-- Dispatch an order. -/
def execute (x : Executor) (intent : Intent) (tMinusS : Option ℚ) (stopAuthorized : Bool)
    (outcome : PostOutcome) : Executor × Option ExecResult :=
  match refusal x intent (tMinusS.or intent.tMinusS) stopAuthorized with
  | some reason => refuse x intent reason
  | none => commit x intent outcome

/-- A call on the executor, with what comes of its post. -/
inductive Call where
  | execute (intent : Intent) (tMinusS : Option ℚ) (stopAuthorized : Bool) (outcome : PostOutcome)
  | setArmed (armed : Bool)

/-- The executor after a call. -/
def call (x : Executor) : Call → Executor
  | .execute intent tMinusS stopAuthorized outcome =>
    (execute x intent tMinusS stopAuthorized outcome).1
  | .setArmed armed => { x with armed }

/-- The executor after a list of calls. -/
def calls (config : ExecutorConfig) (armed : Bool) (cs : List Call) : Executor :=
  cs.foldl call (.new config armed)

end Pilot.V1
