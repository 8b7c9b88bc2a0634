import Mathlib.Algebra.BigOperators.Group.List.Basic
import Mathlib.Algebra.Order.Field.Rat
import Mathlib.Tactic.Linarith
import Mathlib.Tactic.NormNum
import Mathlib.Tactic.Ring
import Pilot.Lib.Transitions

/-!
# The write tokens

Every write to the venue costs tokens. The pacer keeps a counter of its own, takes the cost of a
write off it at once, and lets the write sleep until the counter would have held enough. The venue
charges a write when it is released. Between the two other writes come and go: those that are
paced never take what a sleeping write counts on, those that are served at once may.
-/

namespace Pilot.V33

/-- The parameters of the pacer, as the loader admits them. -/
structure TokenParams where
  rate : ℚ
  size : ℚ
  reserve : ℚ
  one_le_rate : 1 ≤ rate
  reserve_nonneg : 0 ≤ reserve
  reserve_add_le_size : reserve + 10 ≤ size

/-- A token bucket: what it held, and when. -/
structure TokenBucket where
  tokens : ℚ
  last : ℚ
  deriving DecidableEq

/-- What a write costs, and how it is served. -/
structure Write where
  cost : ℕ
  priority : Bool
  fit : Bool
  deriving DecidableEq

/-- The write waits for the bucket to hold its cost. -/
def Write.paced (w : Write) : Bool :=
  !w.priority || w.fit

/-- What the write leaves in the bucket for the others. -/
def Write.floor (p : TokenParams) (w : Write) : ℚ :=
  if w.priority then 0 else p.reserve

/-- The bucket at a later time. -/
def TokenBucket.refill (p : TokenParams) (b : TokenBucket) (now : ℚ) : TokenBucket :=
  { tokens := min p.size (b.tokens + (now - b.last) * p.rate), last := now }

/-- The cost is taken off the bucket. -/
def TokenBucket.debit (b : TokenBucket) (cost : ℕ) : TokenBucket :=
  { b with tokens := b.tokens - cost }

/-- The critical section of `acquire_async`: the bucket after it, and how long the write sleeps
once the lock is free again. -/
def acquireAsync (p : TokenParams) (b : TokenBucket) (now : ℚ) (w : Write) : TokenBucket × ℚ :=
  let b := b.refill p now
  let wait :=
    if w.paced = true ∧ b.tokens < w.cost + w.floor p then
      if 0 < p.rate then (w.cost + w.floor p - b.tokens) / p.rate else 0
    else 0
  (b.debit w.cost, wait)

/-! ### The pacer beside the venue -/

/-- A write that sleeps, and when it wakes. -/
structure Sleeper where
  write : Write
  releaseAt : ℚ
  deriving DecidableEq

/-- The pacer's bucket, the writes asleep in the order they came, and the bucket of the venue. -/
structure Pacer where
  bucket : TokenBucket
  sleepers : List Sleeper
  venue : TokenBucket
  now : ℚ
  deriving DecidableEq

/-- Both buckets are full at the start. -/
def Pacer.opening (p : TokenParams) (now : ℚ) : Pacer where
  bucket := ⟨p.size, now⟩
  sleepers := []
  venue := ⟨p.size, now⟩
  now := now

/-- A write enters the critical section, or wakes from its sleep. -/
inductive PacerEvent
  | acquire (now : ℚ) (w : Write)
  | wake (q : Sleeper)
  deriving DecidableEq

/-- Time does not run back, and does not pass a write that is due. Writes due at the same time
wake in any order. -/
def Timely (s : Pacer) : PacerEvent → Prop
  | .acquire now _ => s.now ≤ now ∧ ∀ q ∈ s.sleepers, now ≤ q.releaseAt
  | .wake q => q ∈ s.sleepers ∧ ∀ r ∈ s.sleepers, q.releaseAt ≤ r.releaseAt

/-- The write an event releases, and when. -/
def released (p : TokenParams) (s : Pacer) : PacerEvent → Option (Write × ℚ)
  | .acquire now w => if 0 < (acquireAsync p s.bucket now w).2 then none else some (w, now)
  | .wake q => some (q.write, q.releaseAt)

/-- The venue charges a write when it is released. -/
def charged (p : TokenParams) (venue : TokenBucket) : Option (Write × ℚ) → TokenBucket
  | none => venue
  | some (w, now) => (venue.refill p now).debit w.cost

/-- The pacer and the venue after an event. -/
def pacerNext (p : TokenParams) (s : Pacer) (e : PacerEvent) : Pacer :=
  let venue := charged p s.venue (released p s e)
  match e with
  | .acquire now w =>
    let (bucket, wait) := acquireAsync p s.bucket now w
    let sleepers := if 0 < wait then s.sleepers ++ [⟨w, now + wait⟩] else s.sleepers
    { bucket, sleepers, venue, now }
  | .wake q => { s with sleepers := s.sleepers.erase q, venue, now := q.releaseAt }

/-- A paced write is released when the venue holds its cost. -/
def VenueHolds (p : TokenParams) (s : Pacer) (e : PacerEvent) : Prop :=
  ∀ r ∈ released p s e, r.1.paced = true → r.1.cost ≤ (s.venue.refill p r.2).tokens

/-- What the writes asleep that meet the condition cost together. -/
def asleep (sleepers : List Sleeper) (c : Sleeper → Prop) [DecidablePred c] : ℚ :=
  (sleepers.map fun q => if c q then (q.write.cost : ℚ) else 0).sum

/-- What a step must not do. A paced write must not ask for more than the bucket can ever hold,
the reserve it leaves included. A write served at once must leave every write asleep its tokens:
those in the bucket, those that come in until it wakes, and those set aside for the writes that
wake after it. -/
def LeavesTokens (p : TokenParams) (s : Pacer) : PacerEvent → Prop
  | .acquire now w =>
    if w.paced = true then w.cost + w.floor p ≤ p.size
    else ∀ q ∈ s.sleepers, w.cost ≤ (s.bucket.refill p now).tokens +
      (q.releaseAt - now) * p.rate + asleep s.sleepers fun r => q.releaseAt < r.releaseAt
  | .wake _ => True

/-! ### What the writes asleep cost -/

variable {p : TokenParams} {l : List Sleeper} {c c' : Sleeper → Prop} [DecidablePred c]
  [DecidablePred c'] {q : Sleeper}

/-- Nobody sleeps. -/
@[simp] theorem asleep_nil : asleep [] c = 0 := rfl

/-- The tokens slept on: those of the first sleeper and those of the others. -/
@[simp] theorem asleep_cons :
    asleep (q :: l) c = (if c q then (q.write.cost : ℚ) else 0) + asleep l c := by
  simp [asleep]

/-- The tokens slept on when one more sleeps. -/
@[simp] theorem asleep_append_singleton :
    asleep (l ++ [q]) c = asleep l c + if c q then (q.write.cost : ℚ) else 0 := by
  simp [asleep]

/-- The tokens slept on when one wakes. -/
theorem asleep_erase (h : q ∈ l) :
    (if c q then (q.write.cost : ℚ) else 0) + asleep (l.erase q) c = asleep l c :=
  List.sum_map_erase (fun r : Sleeper => if c r then (r.write.cost : ℚ) else 0) h

/-- The tokens slept on are never negative. -/
theorem asleep_nonneg : 0 ≤ asleep l c := by
  induction l with
  | nil => simp
  | cons q l ih =>
    rw [asleep_cons]
    split
    · positivity
    · simpa using ih

/-- More writes cost more. -/
theorem asleep_mono (h : ∀ q ∈ l, c q → c' q) : asleep l c ≤ asleep l c' := by
  induction l with
  | nil => simp
  | cons q l ih =>
    have hl := ih fun r hr => h r (by simp [hr])
    have hq := h q (by simp)
    have hcost : (0 : ℚ) ≤ q.write.cost := by positivity
    rw [asleep_cons, asleep_cons]
    by_cases hc : c q
    · rw [if_pos hc, if_pos (hq hc)]
      linarith
    · rw [if_neg hc]
      split <;> linarith

/-- The writes that wake by a time and those that wake later are all of them. -/
theorem asleep_split (t : ℚ) :
    asleep l (fun r => r.releaseAt ≤ t) + asleep l (fun r => t < r.releaseAt) =
      asleep l fun _ => True := by
  induction l with
  | nil => simp
  | cons q l ih =>
    simp only [asleep_cons, if_true]
    rcases le_or_gt q.releaseAt t with h | h
    · rw [if_pos h, if_neg (not_lt.mpr h)]
      linarith
    · rw [if_neg (not_le.mpr h), if_pos h]
      linarith

/-! ### The counter and the venue -/

/-- Each write asleep, if all before it were released, would leave the venue below its size. -/
def BelowSize (p : TokenParams) (now : ℚ) : ℚ → List Sleeper → Prop
  | _, [] => True
  | venue, q :: l =>
    venue + (q.releaseAt - now) * p.rate ≤ p.size ∧ BelowSize p now (venue - q.write.cost) l

/-- The pacer's counter lags the venue by the writes asleep, and the venue will hold what all
writes due by then cost when one of them wakes. -/
structure CountsVenue (p : TokenParams) (bucket venue now : ℚ) (l : List Sleeper) : Prop where
  eq_add : venue = bucket + asleep l fun _ => True
  le_size : venue ≤ p.size
  ahead : ∀ q ∈ l, now ≤ q.releaseAt
  below : BelowSize p now venue l
  covers : ∀ q ∈ l, asleep l (fun r => r.releaseAt ≤ q.releaseAt) ≤
    venue + (q.releaseAt - now) * p.rate

variable {bucket venue now t : ℚ}

/-- A bound on the venue holds of any lower level. -/
theorem BelowSize.mono {venue' : ℚ} (h : BelowSize p now venue l) (hle : venue' ≤ venue) :
    BelowSize p now venue' l := by
  induction l generalizing venue venue' with
  | nil => trivial
  | cons q l ih =>
    obtain ⟨hq, hl⟩ := h
    exact ⟨by linarith, ih hl (by linarith)⟩

/-- The bound holds when a sleeper has paid. -/
theorem BelowSize.erase (h : BelowSize p now venue l) (hq : q ∈ l) :
    BelowSize p now (venue - q.write.cost) (l.erase q) := by
  induction l generalizing venue with
  | nil => cases hq
  | cons r l ih =>
    obtain ⟨hr, hl⟩ := h
    by_cases heq : r = q
    · subst heq
      rwa [List.erase_cons_head]
    · have hmem : q ∈ l := (List.mem_cons.mp hq).resolve_left fun h => heq h.symm
      have hcost : (0 : ℚ) ≤ q.write.cost := by positivity
      rw [List.erase_cons_tail (by simpa using heq)]
      refine ⟨by linarith, ?_⟩
      have hrest := ih hl hmem
      rwa [sub_right_comm] at hrest

/-- The bound holds when a sleeper that fits is added. -/
theorem BelowSize.append (h : BelowSize p now venue l)
    (hq : venue - asleep l (fun _ => True) + (q.releaseAt - now) * p.rate ≤ p.size) :
    BelowSize p now venue (l ++ [q]) := by
  induction l generalizing venue with
  | nil => exact ⟨by simpa using hq, trivial⟩
  | cons r l ih =>
    obtain ⟨hr, hl⟩ := h
    rw [asleep_cons, if_true] at hq
    exact ⟨hr, ih hl (by linarith)⟩

/-- The bound holds as time passes. -/
theorem BelowSize.elapse (h : BelowSize p now venue l) :
    BelowSize p t (venue + (t - now) * p.rate) l := by
  induction l generalizing venue with
  | nil => trivial
  | cons q l ih =>
    obtain ⟨hq, hl⟩ := h
    refine ⟨by linarith, ?_⟩
    have hrest := ih hl
    rwa [sub_add_eq_add_sub] at hrest

/-- The rate is positive. -/
theorem TokenParams.rate_pos (p : TokenParams) : 0 < p.rate := by
  linarith [p.one_le_rate]

/-- While writes sleep, neither bucket runs full: time adds the same to both. -/
theorem CountsVenue.elapse (h : CountsVenue p bucket venue now l)
    (hdue : ∀ q ∈ l, t ≤ q.releaseAt) :
    CountsVenue p (min p.size (bucket + (t - now) * p.rate))
      (min p.size (venue + (t - now) * p.rate)) t l := by
  have hrate := p.rate_pos
  cases l with
  | nil =>
    have heq : venue = bucket := by simpa using h.eq_add
    subst heq
    exact ⟨by simp, min_le_left _ _, by simp, trivial, by simp⟩
  | cons q l =>
    have hq := hdue q (by simp)
    have hle : (t - now) * p.rate ≤ (q.releaseAt - now) * p.rate :=
      mul_le_mul_of_nonneg_right (by linarith) hrate.le
    have hroom := h.below.1
    have hcosts : 0 ≤ asleep (q :: l) fun _ => True := asleep_nonneg
    have heq := h.eq_add
    rw [min_eq_right (by linarith), min_eq_right (by linarith)]
    refine ⟨by linarith, by linarith, hdue, h.below.elapse, ?_⟩
    intro r hr
    have hcov := h.covers r hr
    linarith

/-- A write that goes to sleep finds its cost, and takes nothing from those that wake later. -/
theorem CountsVenue.sleep (h : CountsVenue p bucket venue now l) {w : Write} {floor : ℚ}
    (hfloor : 0 ≤ floor) (hsize : w.cost + floor ≤ p.size) (hwait : bucket < w.cost + floor) :
    CountsVenue p (bucket - w.cost) venue now
      (l ++ [⟨w, now + (w.cost + floor - bucket) / p.rate⟩]) := by
  have hrate := p.rate_pos
  have hslept : (w.cost + floor - bucket) / p.rate * p.rate = w.cost + floor - bucket :=
    div_mul_cancel₀ _ hrate.ne'
  have hpos : 0 < (w.cost + floor - bucket) / p.rate := div_pos (by linarith) hrate
  have heq := h.eq_add
  have hcost : (0 : ℚ) ≤ w.cost := by positivity
  refine ⟨?_, h.le_size, ?_, ?_, ?_⟩
  · simp only [asleep_append_singleton, if_true]
    linarith
  · intro q hq
    rcases List.mem_append.mp hq with hq | hq
    · exact h.ahead q hq
    · rw [List.mem_singleton.mp hq]
      linarith
  · apply h.below.append
    simp only [add_sub_cancel_left, hslept]
    linarith
  · intro q hq
    rw [asleep_append_singleton]
    have hall : asleep l (fun r => r.releaseAt ≤ q.releaseAt) ≤ asleep l fun _ => True :=
      asleep_mono fun _ _ _ => trivial
    by_cases hlater : now + (w.cost + floor - bucket) / p.rate ≤ q.releaseAt
    · have hmore : (w.cost + floor - bucket) / p.rate * p.rate ≤ (q.releaseAt - now) * p.rate :=
        mul_le_mul_of_nonneg_right (by linarith) hrate.le
      rw [if_pos hlater]
      linarith
    · rcases List.mem_append.mp hq with hq | hq
      · rw [if_neg hlater, add_zero]
        exact h.covers q hq
      · rw [List.mem_singleton.mp hq] at hlater
        exact absurd le_rfl hlater

/-- A write that is served at once and leaves the others their tokens. -/
theorem CountsVenue.serve (h : CountsVenue p bucket venue now l) {cost : ℕ}
    (hleft : ∀ q ∈ l, asleep l (fun r => r.releaseAt ≤ q.releaseAt) ≤
      venue - cost + (q.releaseAt - now) * p.rate) :
    CountsVenue p (bucket - cost) (venue - cost) now l := by
  have heq := h.eq_add
  have hsize := h.le_size
  have hcost : (0 : ℚ) ≤ cost := by positivity
  exact ⟨by linarith, by linarith, h.ahead, h.below.mono (by linarith), hleft⟩

/-- A write that wakes: the venue charges what the counter had taken off before. -/
theorem CountsVenue.wake (h : CountsVenue p bucket venue now l) (hq : q ∈ l)
    (hdue : q.releaseAt = now) :
    q.write.cost ≤ venue ∧ CountsVenue p bucket (venue - q.write.cost) now (l.erase q) := by
  have heq := h.eq_add
  have hsize := h.le_size
  have hcost : (0 : ℚ) ≤ q.write.cost := by positivity
  have hall := asleep_erase (c := fun _ => True) hq
  rw [if_pos trivial] at hall
  have hmem (r : Sleeper) (hr : r ∈ l.erase q) : r ∈ l := List.mem_of_mem_erase hr
  refine ⟨?_, by linarith, by linarith, fun r hr => h.ahead r (hmem r hr), h.below.erase hq, ?_⟩
  · have hcov := h.covers q hq
    have hself := asleep_erase (c := fun r => r.releaseAt ≤ q.releaseAt) hq
    have hrest : 0 ≤ asleep (l.erase q) fun r => r.releaseAt ≤ q.releaseAt := asleep_nonneg
    rw [if_pos le_rfl] at hself
    rw [hdue, sub_self, zero_mul, add_zero, ← hdue] at hcov
    linarith
  · intro r hr
    have hcov := h.covers r (hmem r hr)
    have hsplit := asleep_erase (c := fun x => x.releaseAt ≤ r.releaseAt) hq
    rw [if_pos (by rw [hdue]; exact h.ahead r (hmem r hr))] at hsplit
    linarith

/-! ### Runs of the pacer -/

/-- The buckets, both brought forward to the present, in step with each other. -/
structure PacerInvariant (p : TokenParams) (s : Pacer) : Prop where
  bucket_last : s.bucket.last ≤ s.now
  venue_last : s.venue.last ≤ s.now
  counts : CountsVenue p (s.bucket.refill p s.now).tokens (s.venue.refill p s.now).tokens s.now
    s.sleepers

/-- Time that passes in two pieces refills a bucket like time that passes at once. -/
theorem TokenBucket.refill_refill {b : TokenBucket} (ht : now ≤ t) :
    (b.refill p t).tokens = min p.size ((b.refill p now).tokens + (t - now) * p.rate) := by
  have hmore : p.size ≤ p.size + (t - now) * p.rate :=
    le_add_of_nonneg_right (mul_nonneg (by linarith) p.rate_pos.le)
  simp only [TokenBucket.refill]
  rw [← min_add_add_right, ← min_assoc, min_eq_left hmore]
  congr 1
  ring

/-- No time refills nothing. -/
theorem TokenBucket.refill_self {b : TokenBucket} (hb : b.tokens ≤ p.size) :
    (b.refill p b.last).tokens = b.tokens := by
  simpa [TokenBucket.refill] using hb

/-- A refill never exceeds the size. -/
theorem TokenBucket.refill_le {b : TokenBucket} : (b.refill p t).tokens ≤ p.size :=
  min_le_left _ _

/-- What was charged just now is what is missing now. -/
theorem TokenBucket.refill_debit {b : TokenBucket} {cost : ℕ} :
    (((b.refill p t).debit cost).refill p t).tokens = (b.refill p t).tokens - cost := by
  have hcost : (0 : ℚ) ≤ cost := by positivity
  have hle : (b.refill p t).tokens ≤ p.size := TokenBucket.refill_le
  apply TokenBucket.refill_self
  simp only [TokenBucket.debit]
  linarith

/-- A new pacer meets the invariant. -/
theorem pacerInvariant_opening : PacerInvariant p (Pacer.opening p t) := by
  have hfull : ((⟨p.size, t⟩ : TokenBucket).refill p t).tokens = p.size :=
    TokenBucket.refill_self (b := ⟨p.size, t⟩) le_rfl
  refine ⟨le_rfl, le_rfl, ?_⟩
  simp only [Pacer.opening, hfull]
  exact ⟨by simp, le_rfl, by simp, trivial, by simp⟩

variable {s : Pacer} {e : PacerEvent}

/-- Until the next write is due, time changes nothing. -/
theorem PacerInvariant.elapse (h : PacerInvariant p s) (ht : s.now ≤ t)
    (hdue : ∀ q ∈ s.sleepers, t ≤ q.releaseAt) :
    CountsVenue p (s.bucket.refill p t).tokens (s.venue.refill p t).tokens t s.sleepers := by
  rw [TokenBucket.refill_refill ht, TokenBucket.refill_refill ht]
  exact h.counts.elapse hdue

/-- The floor of a write is never negative. -/
theorem Write.floor_nonneg (w : Write) : 0 ≤ w.floor p := by
  unfold Write.floor
  split
  · exact le_rfl
  · exact p.reserve_nonneg

/-- A write enters the critical section: it goes to sleep, being paced and finding too little, or
it is released at once, and if it is paced there was enough. -/
theorem acquire_cases (s : Pacer) (now : ℚ) (w : Write) :
    (w.paced = true ∧ (s.bucket.refill p now).tokens < w.cost + w.floor p ∧
      released p s (.acquire now w) = none ∧
      pacerNext p s (.acquire now w) = ⟨(s.bucket.refill p now).debit w.cost, s.sleepers ++
        [⟨w, now + (w.cost + w.floor p - (s.bucket.refill p now).tokens) / p.rate⟩],
        s.venue, now⟩) ∨
    ((w.paced = true → w.cost + w.floor p ≤ (s.bucket.refill p now).tokens) ∧
      released p s (.acquire now w) = some (w, now) ∧
      pacerNext p s (.acquire now w) = ⟨(s.bucket.refill p now).debit w.cost, s.sleepers,
        (s.venue.refill p now).debit w.cost, now⟩) := by
  by_cases hwait : w.paced = true ∧ (s.bucket.refill p now).tokens < w.cost + w.floor p
  · left
    have hpos : 0 < (w.cost + w.floor p - (s.bucket.refill p now).tokens) / p.rate :=
      div_pos (by linarith [hwait.2]) p.rate_pos
    have hnone : released p s (.acquire now w) = none := by
      simp only [released, acquireAsync, if_pos hwait, if_pos p.rate_pos, if_pos hpos]
    refine ⟨hwait.1, hwait.2, hnone, ?_⟩
    simp only [pacerNext, hnone, charged, acquireAsync, if_pos hwait, if_pos p.rate_pos,
      if_pos hpos]
  · right
    have hsome : released p s (.acquire now w) = some (w, now) := by
      simp only [released, acquireAsync, if_neg hwait, lt_irrefl, if_false]
    refine ⟨fun hpaced => not_lt.mp fun hless => hwait ⟨hpaced, hless⟩, hsome, ?_⟩
    simp only [pacerNext, hsome, charged, acquireAsync, if_neg hwait, lt_irrefl, if_false]

/-- A write that takes its cost from what no sleeping write needs leaves them their tokens. -/
theorem CountsVenue.left_of_floor (h : CountsVenue p bucket venue now l) {cost : ℕ}
    (hcost : cost ≤ bucket) (hq : q ∈ l) :
    asleep l (fun r => r.releaseAt ≤ q.releaseAt) ≤
      venue - cost + (q.releaseAt - now) * p.rate := by
  have hall : asleep l (fun r => r.releaseAt ≤ q.releaseAt) ≤ asleep l fun _ => True :=
    asleep_mono fun _ _ _ => trivial
  have hmore : 0 ≤ (q.releaseAt - now) * p.rate :=
    mul_nonneg (by linarith [h.ahead q hq]) p.rate_pos.le
  have heq := h.eq_add
  linarith

/-- A step that leaves the sleeping writes their tokens releases no paced write too early, and
keeps the buckets in step. -/
theorem PacerInvariant.next (h : PacerInvariant p s) (htime : Timely s e)
    (hroom : LeavesTokens p s e) : VenueHolds p s e ∧ PacerInvariant p (pacerNext p s e) := by
  cases e with
  | wake q =>
    obtain ⟨hq, hfirst⟩ := htime
    have hnow := h.counts.ahead q hq
    obtain ⟨hholds, hcounts⟩ := (h.elapse hnow hfirst).wake hq rfl
    refine ⟨?_, h.bucket_last.trans hnow, le_rfl, ?_⟩
    · rintro r hr -
      obtain rfl := Option.some.inj hr
      exact hholds
    · simpa only [pacerNext, released, charged, TokenBucket.refill_debit] using hcounts
  | acquire now w =>
    obtain ⟨hnow, hdue⟩ := htime
    have hcounts := h.elapse hnow hdue
    rcases acquire_cases s now w with ⟨hpaced, hless, hnone, hnext⟩ | ⟨henough, hsome, hnext⟩
    · have hsize : w.cost + w.floor p ≤ p.size := by
        simpa only [LeavesTokens, if_pos hpaced] using hroom
      have hslept := hcounts.sleep w.floor_nonneg hsize hless
      refine ⟨by simp [VenueHolds, hnone], ?_⟩
      rw [hnext]
      refine ⟨le_rfl, h.venue_last.trans hnow, ?_⟩
      simpa only [TokenBucket.refill_debit] using hslept
    · have hagree := hcounts.eq_add
      have hcosts : 0 ≤ asleep s.sleepers fun _ => True := asleep_nonneg
      have hfloor : 0 ≤ w.floor p := w.floor_nonneg
      constructor
      · rintro r hr hpaced
        obtain rfl := Option.some.inj (hsome.symm.trans hr)
        have hcost := henough hpaced
        linarith
      · rw [hnext]
        refine ⟨le_rfl, le_rfl, ?_⟩
        simp only [TokenBucket.refill_debit]
        apply hcounts.serve
        intro q hq
        by_cases hpaced : w.paced = true
        · exact hcounts.left_of_floor (by linarith [henough hpaced]) hq
        · -- what the venue holds beyond the counter is set aside for the writes asleep
          simp only [LeavesTokens, if_neg hpaced] at hroom
          have hleft := hroom q hq
          have hsplit := asleep_split (l := s.sleepers) q.releaseAt
          linarith

/-- Every paced write is released when the venue holds its cost, in every run in which no paced
write asks for more than the bucket can hold and every write served at once leaves the writes
asleep their tokens. -/
theorem venueHolds_of_leavesTokens {events : List PacerEvent}
    (hrun : AllAlong (pacerNext p) Timely (Pacer.opening p t) events)
    (hroom : AllAlong (pacerNext p) (LeavesTokens p) (Pacer.opening p t) events) :
    AllAlong (pacerNext p) (VenueHolds p) (Pacer.opening p t) events := by
  have hinv : PacerInvariant p (Pacer.opening p t) := pacerInvariant_opening
  generalize Pacer.opening p t = s at hrun hroom hinv
  induction events generalizing s with
  | nil => trivial
  | cons e events ih =>
    obtain ⟨hholds, hnext⟩ := hinv.next hrun.1 hroom.1
    exact ⟨hholds, ih (pacerNext p s e) hrun.2 hroom.2 hnext⟩

/-! ### Runs that fill the bucket -/

instance : DecidablePred (Timely s) := fun e =>
  match e with
  | .acquire now _ =>
    inferInstanceAs (Decidable (s.now ≤ now ∧ ∀ q ∈ s.sleepers, now ≤ q.releaseAt))
  | .wake q =>
    inferInstanceAs (Decidable (q ∈ s.sleepers ∧ ∀ r ∈ s.sleepers, q.releaseAt ≤ r.releaseAt))

instance : DecidablePred (LeavesTokens p s) := fun e =>
  match e with
  | .acquire now w => inferInstanceAs (Decidable (if w.paced = true then
      (w.cost : ℚ) + w.floor p ≤ p.size else ∀ q ∈ s.sleepers, (w.cost : ℚ) ≤
        (s.bucket.refill p now).tokens + (q.releaseAt - now) * p.rate +
          asleep s.sleepers fun r => q.releaseAt < r.releaseAt))
  | .wake _ => inferInstanceAs (Decidable True)

instance : DecidablePred (VenueHolds p s) := fun e =>
  match h : released p s e with
  | none => .isTrue fun r hr => by simp [h] at hr
  | some r =>
    decidable_of_iff (r.1.paced = true → (r.1.cost : ℚ) ≤ (s.venue.refill p r.2).tokens) <| by
      simp [VenueHolds, h]

/-- The tier of the venue, with the reserve of the policy. -/
def sampleTokens : TokenParams :=
  ⟨100, 100, 20, by norm_num, by norm_num, by norm_num⟩

/-- A batch of eight wing orders. -/
def wingBatch (fit : Bool) : Write :=
  ⟨80, true, fit⟩

/-- A create keeps the reserve free, and a cancel that comes while it sleeps spends from it. -/
def reserveRun : List PacerEvent :=
  [.acquire 0 (wingBatch false), .acquire 0 ⟨10, false, false⟩, .acquire (1 / 20) ⟨2, true, false⟩,
    .wake ⟨⟨10, false, false⟩, 1 / 10⟩]

/-- The second batch of a wing take sleeps, with no reserve, when a cancel is served. -/
def crowdedRun : List PacerEvent :=
  [.acquire 0 (wingBatch false), .acquire 0 (wingBatch true), .acquire (3 / 10) ⟨2, true, false⟩,
    .wake ⟨wingBatch true, 3 / 5⟩]

/-- The venue's bucket holds every write of the sample run. -/
theorem venueHolds_reserveRun :
    AllAlong (pacerNext sampleTokens) (VenueHolds sampleTokens) (Pacer.opening sampleTokens 0)
      reserveRun :=
  venueHolds_of_leavesTokens (by decide +kernel) (by decide +kernel)

/-- The batch wakes when the venue holds two tokens less than it costs. -/
theorem crowdedRun_overdraws :
    AllAlong (pacerNext sampleTokens) Timely (Pacer.opening sampleTokens 0) crowdedRun ∧
      ¬ AllAlong (pacerNext sampleTokens) (VenueHolds sampleTokens)
        (Pacer.opening sampleTokens 0) crowdedRun := by
  decide +kernel

end Pilot.V33
