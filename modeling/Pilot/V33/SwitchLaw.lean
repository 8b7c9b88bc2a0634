import Pilot.V33.FreshPlacement

/-!
# The debounce of a bucket switch

Every book and every tick evaluates the effective bucket. The timer of a switch stands for
the past: it started at the first of the latest evaluations that all resolved the candidate,
and its latch says whether the hysteresis held at one of them.
-/

namespace Pilot.V33

/-- One evaluation of the effective bucket: the state it reads and its time. -/
structure Evaluation where
  st : V33State
  now : ℚ

/-- The bucket the books select. -/
def Evaluation.spot (e : Evaluation) : Option ℤ := selectSpot e.st

/-- The bucket the ladder rests in. -/
def Evaluation.rest (e : Evaluation) : Option ℤ := e.st.restBucketSd

/-- The outcome: the effective bucket and the switch being timed. -/
def Evaluation.switch (p : V33Params) (e : Evaluation) : EffectiveBucket :=
  effectiveBucket p e.st e.now

/-- The evaluation an event makes. -/
def evaluationAt (st : V33State) (ev : Event) : Option Evaluation :=
  match ev with
  | .bookUpdate e => some ⟨withBook st ev, e.serverTs⟩
  | .clockTick now => some ⟨st, now⟩
  | _ => none

/-- The state after an event, and the evaluations so far, the latest first. -/
def nextEvaluated (p : V33Params) (w : V33State × List Evaluation) (ev : Event) :
    V33State × List Evaluation :=
  (next p w.1 ev, (evaluationAt w.1 ev).toList ++ w.2)

/-- The evaluation is not earlier than the one before it. -/
def OnTime (w : V33State × List Evaluation) (ev : Event) : Prop :=
  ∀ e ∈ evaluationAt w.1 ev, ∀ e' ∈ w.2.head?, e'.now ≤ e.now

instance (w : V33State × List Evaluation) (ev : Event) : Decidable (OnTime w ev) :=
  inferInstanceAs (Decidable (∀ e ∈ evaluationAt w.1 ev, ∀ e' ∈ w.2.head?, e'.now ≤ e.now))

/-- A run from the start of a window whose evaluations are on time. -/
def EvaluatedRun (p : V33Params) (evs : List Event) (w : V33State × List Evaluation) : Prop :=
  ∃ start, IsNew p start ∧ Fed (nextEvaluated p) OnTime (start, []) evs w

/-- The candidate was the spot at every evaluation of the block, whose first lies the debounce
before `now`; the hysteresis held at one of them, or the first lies the cap before `now`. -/
structure Waited (p : V33Params) (sd : ℤ) (now : ℚ) (block : List Evaluation)
    (first : Evaluation) : Prop where
  steady : ∀ e ∈ block, e.spot = some sd
  debounce : (p.bucketSwitchDebMs : ℚ) ≤ (now - first.now) * 1000
  settled : (∃ e ∈ block, hysteresisOk p e.st sd = true) ∨
    (p.bucketSwitchMaxPendingMs : ℚ) ≤ (now - first.now) * 1000

/-- A switch to the bucket is due at an evaluation: the wait began at it or before it. -/
def Due (p : V33Params) (sd : ℤ) (e : Evaluation) (past : List Evaluation) : Prop :=
  ∃ mid first post, e :: past = mid ++ first :: post ∧ Waited p sd e.now (mid ++ [first]) first

/-- A switch to the bucket is due since an earlier evaluation. -/
def DueEarlier (p : V33Params) (sd : ℤ) (e : Evaluation) (past : List Evaluation) : Prop :=
  ∃ mid first post, past = mid ++ first :: post ∧
    Waited p sd e.now (e :: mid ++ [first]) first

/-- Nothing was due at the evaluation before. -/
def FirstAt (due : Evaluation → List Evaluation → Prop) (past : List Evaluation) : Prop :=
  ∀ e' past', past = e' :: past' → ¬due e' past'

/-! ### The timer -/

section Law

variable {p : V33Params} {st st' : V33State} {a b : ℤ} {e e' : Evaluation}
  {past : List Evaluation}

/-- When the wait for the candidate began, and whether the hysteresis held since. -/
def switchTimer (p : V33Params) (e : Evaluation) (candidate : ℤ) : ℚ × Bool :=
  match e.st.pendingSwitchSince with
  | some t =>
    if e.st.pendingSwitchSd = some candidate then
      (t, e.st.pendingSwitchHystMet || hysteresisOk p e.st candidate)
    else (e.now, hysteresisOk p e.st candidate)
  | none => (e.now, hysteresisOk p e.st candidate)

/-- The wait is over. -/
def Commits (p : V33Params) (e : Evaluation) (candidate : ℤ) : Prop :=
  (p.bucketSwitchDebMs : ℚ) ≤ (e.now - (switchTimer p e candidate).1) * 1000 ∧
    ((switchTimer p e candidate).2 = true ∨
      (p.bucketSwitchMaxPendingMs : ℚ) ≤ (e.now - (switchTimer p e candidate).1) * 1000)

instance (p : V33Params) (e : Evaluation) (candidate : ℤ) : Decidable (Commits p e candidate) :=
  inferInstanceAs (Decidable (_ ∧ _))

/-- Away from the ladder's bucket the switch commits, or its timer runs on. -/
theorem switch_of_candidate (hspot : e.spot = some b) (hrest : e.rest = some a) (hne : b ≠ a) :
    e.switch p = if Commits p e b then ⟨some b, none, none, false⟩
      else ⟨some a, some b, some (switchTimer p e b).1, (switchTimer p e b).2⟩ := by
  have hspot' : selectSpot e.st = some b := hspot
  have hrest' : e.st.restBucketSd = some a := hrest
  cases hsince : e.st.pendingSwitchSince with
  | none =>
    simp [Evaluation.switch, effectiveBucket, resolveEffectiveBucket, hspot', hrest', hne, Commits,
      switchTimer, hsince]
  | some t =>
    by_cases hsd : e.st.pendingSwitchSd = some b
    · simp [Evaluation.switch, effectiveBucket, resolveEffectiveBucket, hspot', hrest', hne,
        Commits, switchTimer, hsince, hsd]
    · simp [Evaluation.switch, effectiveBucket, resolveEffectiveBucket, hspot', hrest', hne,
        Commits, switchTimer, hsince, hsd]

/-- A switch is timed only away from the ladder's bucket, while it has not committed. -/
theorem timed_of_pending (h : (e.switch p).pendingSd = some b) :
    e.spot = some b ∧ ∃ a, e.rest = some a ∧ b ≠ a ∧ ¬Commits p e b ∧
      (e.switch p).pendingSince = some (switchTimer p e b).1 ∧
      (e.switch p).pendingHyst = (switchTimer p e b).2 := by
  cases hspot : e.spot with
  | none =>
    have hspot' : selectSpot e.st = none := hspot
    simp [Evaluation.switch, effectiveBucket, resolveEffectiveBucket, hspot'] at h
  | some raw =>
    have hspot' : selectSpot e.st = some raw := hspot
    cases hrest : e.rest with
    | none =>
      have hrest' : e.st.restBucketSd = none := hrest
      simp [Evaluation.switch, effectiveBucket, resolveEffectiveBucket, hspot', hrest'] at h
    | some a =>
      have hrest' : e.st.restBucketSd = some a := hrest
      by_cases hne : raw = a
      · simp [Evaluation.switch, effectiveBucket, resolveEffectiveBucket, hspot', hrest', hne] at h
      · rw [switch_of_candidate hspot hrest hne] at h ⊢
        by_cases hcommits : Commits p e raw
        · rw [if_pos hcommits] at h
          cases h
        · rw [if_neg hcommits] at h ⊢
          have hraw : raw = b := Option.some.inj h
          subst hraw
          exact ⟨rfl, a, rfl, hne, hcommits, rfl, rfl⟩

/-! ### The history -/

/-- The state continues from an evaluation: its spot and its timer are the outcome's, and the
ladder stayed in its bucket, left it or went to the effective one. -/
structure Follows (p : V33Params) (e : Evaluation) (st : V33State) : Prop where
  spot : st.spotSd = (e.switch p).sd
  candidate : st.pendingSwitchSd = (e.switch p).pendingSd
  since : st.pendingSwitchSince = (e.switch p).pendingSince
  hyst : st.pendingSwitchHystMet = (e.switch p).pendingHyst
  rest : st.restBucketSd = e.rest ∨ st.restBucketSd = none ∨ st.restBucketSd = (e.switch p).sd

/-- The state continues from the latest evaluation, or is that of a new window. -/
def Tracks (p : V33Params) (st : V33State) : List Evaluation → Prop
  | [] => st.spotSd = none ∧ st.pendingSwitchSince = none ∧ st.restBucketSd = none
  | e :: _ => Follows p e st

/-- Each evaluation reads a state that continues from the one before it. -/
def Recorded (p : V33Params) : List Evaluation → Prop
  | [] => True
  | e :: past => Recorded p past ∧ Tracks p e.st past ∧ ∀ e' ∈ past.head?, e'.now ≤ e.now

/-- What is due stays due while the candidate stays the spot. -/
theorem Due.later (h : Due p b e' past) (hspot : e.spot = some b) (hle : e'.now ≤ e.now) :
    Due p b e (e' :: past) := by
  obtain ⟨mid, first, post, heq, hwaited⟩ := h
  refine ⟨e :: mid, first, post, by rw [heq]; rfl, ?_⟩
  constructor
  · intro x hx
    rcases List.mem_cons.mp hx with rfl | hx
    · exact hspot
    · exact hwaited.steady x hx
  · have := hwaited.debounce
    linarith
  · rcases hwaited.settled with ⟨x, hx, hok⟩ | hcap
    · exact Or.inl ⟨x, List.mem_cons_of_mem _ hx, hok⟩
    · right
      linarith

/-- The timer of a candidate stands for the latest evaluations that resolved it; they are all
of them, unless the switch was due before. -/
theorem Recorded.block (h : Recorded p (e :: past)) (hspot : e.spot = some b)
    (hrest : e.rest = some a) (hne : b ≠ a) :
    ∃ mid first post, e :: past = mid ++ first :: post ∧
      (∀ x ∈ mid ++ [first], x.spot = some b) ∧ (switchTimer p e b).1 = first.now ∧
      ((switchTimer p e b).2 = true ↔ ∃ x ∈ mid ++ [first], hysteresisOk p x.st b = true) ∧
      (FirstAt (Due p b) past → ∀ x ∈ post.head?, x.spot ≠ some b) := by
  induction past generalizing e a with
  | nil =>
    have hsince : e.st.pendingSwitchSince = none := h.2.1.2.1
    refine ⟨[], e, [], rfl, by simpa using hspot, ?_, ?_, by simp⟩
    · simp [switchTimer, hsince]
    · simp [switchTimer, hsince]
  | cons e' past ih =>
    obtain ⟨hpast, hfollows, htime⟩ := h
    have hle : e'.now ≤ e.now := htime e' rfl
    by_cases hcandidate : (e'.switch p).pendingSd = some b
    · -- the timer runs on
      obtain ⟨hspot', a', hrest', hne', -, hsince, hhyst⟩ := timed_of_pending hcandidate
      obtain ⟨mid, first, post, heq, hsteady, hstart, hlatch, hall⟩ := ih hpast hspot' hrest' hne'
      have htimer : switchTimer p e b =
          ((switchTimer p e' b).1, (switchTimer p e' b).2 || hysteresisOk p e.st b) := by
        unfold switchTimer
        rw [hfollows.since, hsince, hfollows.candidate, hcandidate, hfollows.hyst, hhyst]
        simp only [if_true]
        rfl
      refine ⟨e :: mid, first, post, by rw [heq]; rfl, ?_, ?_, ?_, fun hfirst => hall ?_⟩
      · intro x hx
        rcases List.mem_cons.mp hx with rfl | hx
        · exact hspot
        · exact hsteady x hx
      · rw [htimer]
        exact hstart
      · rw [htimer, Bool.or_eq_true, hlatch]
        simp only [List.cons_append, List.mem_cons, exists_eq_or_imp]
        exact or_comm
      · rintro e'' past' rfl hdue
        exact hfirst e' (e'' :: past') rfl (hdue.later hspot' (hpast.2.2 e'' rfl))
    · -- the timer starts here
      have htimer : switchTimer p e b = (e.now, hysteresisOk p e.st b) := by
        unfold switchTimer
        split
        · rw [if_neg]
          rw [hfollows.candidate]
          exact hcandidate
        · rfl
      refine ⟨[], e, e' :: past, rfl, by simpa using hspot, ?_, ?_, fun hfirst x hx hx' => ?_⟩
      · rw [htimer]
      · rw [htimer]
        simp
      · obtain rfl : e' = x := by simpa using hx
        -- the ladder rested in the same bucket, so the switch committed there
        have hrest' : e'.rest = some a := by
          have hst : e.st.restBucketSd = some a := hrest
          rcases hfollows.rest with hr | hr | hr
          · exact hr.symm.trans hst
          · rw [hst] at hr
            cases hr
          · rcases effectiveBucket_cases (hr.symm.trans hst) with hraw | hr'
            · have hab : a = b := Option.some.inj (hraw.symm.trans hx')
              exact absurd hab.symm hne
            · exact hr'
        have hswitch := switch_of_candidate (p := p) hx' hrest' hne
        by_cases hcommits : Commits p e' b
        · obtain ⟨mid, first, post, heq, hsteady, hstart, hlatch, -⟩ := ih hpast hx' hrest' hne
          apply hfirst e' past rfl
          refine ⟨mid, first, post, heq, hsteady, ?_, ?_⟩
          · rw [← hstart]
            exact hcommits.1
          · rw [← hlatch, ← hstart]
            exact hcommits.2
        · rw [hswitch, if_neg hcommits] at hcandidate
          exact hcandidate rfl

/-- The evaluations are recorded in the order of their times. -/
theorem Recorded.sorted {hist : List Evaluation} (h : Recorded p hist) :
    hist.Pairwise fun e e' => e'.now ≤ e.now := by
  induction hist with
  | nil => exact List.Pairwise.nil
  | cons e past ih =>
    obtain ⟨hpast, -, htime⟩ := h
    have hsorted := ih hpast
    refine List.pairwise_cons.mpr ⟨fun x hx => ?_, hsorted⟩
    cases past with
    | nil => cases hx
    | cons e' past =>
      have hle : e'.now ≤ e.now := htime e' rfl
      rcases List.mem_cons.mp hx with rfl | hx
      · exact hle
      · exact ((List.pairwise_cons.mp hsorted).1 x hx).trans hle

/-- Of two blocks that end now the longer one started no later. -/
theorem Recorded.start_le {hist mid mid' : List Evaluation} {first first' : Evaluation}
    (h : Recorded p hist) (hlong : mid' ++ [first'] <+: hist)
    (hwithin : mid ++ [first] <+: mid' ++ [first']) : first'.now ≤ first.now := by
  have hsorted := h.sorted.sublist hlong.sublist
  have hmem : first ∈ mid' ++ [first'] := hwithin.subset (by simp)
  rcases List.mem_append.mp hmem with hmid | hlast
  · exact (List.pairwise_append.mp hsorted).2.2 first hmid first' (by simp)
  · rw [List.mem_singleton.mp hlast]

/-- At an evaluation away from the ladder's bucket a switch commits only if it is due, and
commits when it is first due. -/
theorem Recorded.law (h : Recorded p (e :: past)) (hrest : e.rest = some a) (hne : b ≠ a) :
    ((e.switch p).sd = some b → Due p b e past) ∧
      (Due p b e past → FirstAt (Due p b) past → (e.switch p).sd = some b) := by
  constructor
  · intro hsd
    have hspot : e.spot = some b := by
      rcases effectiveBucket_cases hsd with hraw | hr
      · exact hraw
      · exact absurd (Option.some.inj (hr.symm.trans hrest)) hne
    obtain ⟨mid, first, post, heq, hsteady, hstart, hlatch, -⟩ := h.block hspot hrest hne
    rw [switch_of_candidate hspot hrest hne] at hsd
    by_cases hcommits : Commits p e b
    · refine ⟨mid, first, post, heq, hsteady, ?_, ?_⟩
      · rw [← hstart]
        exact hcommits.1
      · rw [← hlatch, ← hstart]
        exact hcommits.2
    · rw [if_neg hcommits] at hsd
      exact absurd (Option.some.inj hsd).symm hne
  · rintro ⟨mid, first, post, heq, hwaited⟩ hfirst
    have hspot : e.spot = some b := by
      apply hwaited.steady
      cases mid with
      | nil =>
        rw [List.nil_append, List.cons.injEq] at heq
        simp [heq.1]
      | cons x mid =>
        rw [List.cons_append, List.cons.injEq] at heq
        simp [heq.1]
    obtain ⟨mid', first', post', heq', hsteady', hstart, hlatch, hall⟩ := h.block hspot hrest hne
    have hprefix : mid ++ [first] <+: e :: past := ⟨post, by simp [heq]⟩
    have hprefix' : mid' ++ [first'] <+: e :: past := ⟨post', by simp [heq']⟩
    -- the block of the wait is no longer than the block of the timer
    have hwithin : mid ++ [first] <+: mid' ++ [first'] := by
      rcases List.prefix_or_prefix_of_prefix hprefix hprefix' with hle | hle
      · exact hle
      · obtain ⟨tail, htail⟩ := hle
        cases tail with
        | nil => exact ⟨[], by simpa using htail.symm⟩
        | cons x tail =>
          exfalso
          have hlong : e :: past = mid' ++ first' :: (x :: (tail ++ post)) :=
            calc e :: past = (mid ++ [first]) ++ post := by simp [heq]
              _ = mid' ++ first' :: (x :: (tail ++ post)) := by simp [← htail]
          have hpost : post' = x :: (tail ++ post) := by
            have hcons := List.append_cancel_left (heq'.symm.trans hlong)
            exact (List.cons.inj hcons).2
          refine hall hfirst x (by rw [hpost]; rfl) (hwaited.steady x ?_)
          rw [← htail]
          simp
    have hstarted : first'.now ≤ first.now := h.start_le hprefix' hwithin
    have hcommits : Commits p e b := by
      constructor
      · have := hwaited.debounce
        rw [hstart]
        linarith
      · rcases hwaited.settled with ⟨x, hx, hok⟩ | hcap
        · exact Or.inl (hlatch.mpr ⟨x, hwithin.subset hx, hok⟩)
        · right
          rw [hstart]
          linarith
    rw [switch_of_candidate hspot hrest hne, if_pos hcommits]

/-- A due switch with a positive debounce began to wait before the evaluation. -/
theorem Due.earlier (h : Due p b e past) (hdeb : 0 < p.bucketSwitchDebMs) :
    DueEarlier p b e past := by
  obtain ⟨mid, first, post, heq, hwaited⟩ := h
  have hdeb' : (0 : ℚ) < p.bucketSwitchDebMs := by exact_mod_cast hdeb
  cases mid with
  | nil =>
    rw [List.nil_append, List.cons.injEq] at heq
    have hself := hwaited.debounce
    rw [← heq.1, sub_self, zero_mul] at hself
    exact absurd hself (not_le.mpr hdeb')
  | cons x mid =>
    rw [List.cons_append, List.cons.injEq] at heq
    obtain ⟨rfl, hpast⟩ := heq
    exact ⟨mid, first, post, hpast, hwaited⟩

/-! ### Runs -/

/-- A recompute sets the spot and the timer to the outcome of its evaluation. -/
theorem recomputeContext_follows (p : V33Params) (st : V33State) (now : ℚ) :
    Follows p ⟨st, now⟩ (recomputeContext p st now) := by
  unfold recomputeContext
  dsimp only
  split <;> split_ifs <;> exact ⟨rfl, rfl, rfl, rfl, Or.inl rfl⟩

/-- A state in the same context follows the same evaluation. -/
theorem Follows.sameContext (h : Follows p e st) (k : SameContext st st') : Follows p e st' := by
  constructor
  · rw [congrArg Quote.spotSd k.quote]
    exact h.spot
  · rw [congrArg Quote.pendingSwitchSd k.quote]
    exact h.candidate
  · rw [congrArg Quote.pendingSwitchSince k.quote]
    exact h.since
  · rw [congrArg Quote.pendingSwitchHystMet k.quote]
    exact h.hyst
  · rcases k.rest with hr | hr | hr
    · rw [hr]
      exact h.rest
    · exact Or.inr (Or.inl hr)
    · exact Or.inr (Or.inr (hr.trans h.spot))

/-- A state in the same context tracks the same evaluations. -/
theorem Tracks.sameContext {hist : List Evaluation} (h : Tracks p st hist)
    (k : SameContext st st') : Tracks p st' hist := by
  cases hist with
  | cons e past => exact Follows.sameContext h k
  | nil =>
    obtain ⟨hspot, hsince, hrest⟩ := h
    refine ⟨(congrArg Quote.spotSd k.quote).trans hspot,
      (congrArg Quote.pendingSwitchSince k.quote).trans hsince, ?_⟩
    rcases k.rest with hr | hr | hr
    · exact hr.trans hrest
    · exact hr
    · exact hr.trans hspot

/-- Folding a book leaves the spot, the timer and the ladder alone. -/
theorem Tracks.withBook {hist : List Evaluation} (h : Tracks p st hist) (ev : Event) :
    Tracks p (withBook st ev) hist := by
  cases ev with
  | bookUpdate e =>
    obtain ⟨books, hbooks⟩ := foldBook_eq st e
    show Tracks p (stampStrikeFeed (foldBook st e) e) hist
    rw [hbooks]
    cases hist with
    | nil => exact h
    | cons e past => exact ⟨h.spot, h.candidate, h.since, h.hyst, h.rest⟩
  | _ => exact h

/-- What holds of every state and its evaluations. -/
structure Evaluated (p : V33Params) (w : V33State × List Evaluation) : Prop where
  coids : CoidsOk w.1
  recorded : Recorded p w.2
  tracks : Tracks p w.1 w.2

/-- An event on time keeps the evaluations linked. -/
theorem Evaluated.next {w : V33State × List Evaluation} {ev : Event} (h : Evaluated p w)
    (htime : OnTime w ev) : Evaluated p (nextEvaluated p w ev) := by
  have hsame : SameContext (contextAt p w.1 ev) (decideV33 p w.1 ev).st := h.coids.sameContext ev
  refine ⟨h.coids.decide ev, ?_, ?_⟩
  · have hbook := h.tracks.withBook ev
    cases ev with
    | bookUpdate e => exact ⟨h.recorded, hbook, htime _ rfl⟩
    | clockTick now => exact ⟨h.recorded, hbook, htime _ rfl⟩
    | _ => exact h.recorded
  · cases ev with
    | bookUpdate e => exact (recomputeContext_follows p _ _).sameContext hsame
    | clockTick now => exact (recomputeContext_follows p _ _).sameContext hsame
    | _ => exact h.tracks.sameContext hsame

/-- The evaluations of a run are linked. -/
theorem EvaluatedRun.evaluated {evs : List Event} {w : V33State × List Evaluation}
    (h : EvaluatedRun p evs w) : Evaluated p w := by
  obtain ⟨start, hstart, hrun⟩ := h
  refine hrun.preserves (fun w ev hw htime => hw.next htime) ⟨CoidsOk.new hstart, trivial, ?_⟩
  obtain ⟨_, _, _, _, _, _, rfl⟩ := hstart
  exact ⟨rfl, rfl, rfl⟩

end Law

/-- In every run, while the ladder rests in one bucket: the effective bucket becomes another one
only if the switch is due, since an earlier evaluation unless the debounce is zero; and it does
when the switch is first due. -/
theorem bucket_switch_law (p : V33Params) (evs : List Event) (w : V33State × List Evaluation)
    (h : EvaluatedRun p evs w) (e : Evaluation) (past : List Evaluation) (hlast : w.2 = e :: past)
    (a b : ℤ) (hrest : e.rest = some a) (hne : b ≠ a) :
    ((e.switch p).sd = some b →
      Due p b e past ∧ (0 < p.bucketSwitchDebMs → DueEarlier p b e past)) ∧
      (Due p b e past → FirstAt (Due p b) past → (e.switch p).sd = some b) := by
  have hrecorded := h.evaluated.recorded
  rw [hlast] at hrecorded
  obtain ⟨honly, hfirst⟩ := hrecorded.law hrest hne
  exact ⟨fun hsd => ⟨honly hsd, fun hdeb => (honly hsd).earlier hdeb⟩, hfirst⟩

/-- The spot moves to the second bucket, and five seconds later a tick sees it there still. -/
def steadySwitch : List Event := sampleOpening ++ [centBook "B200" 60 62 1002, .clockTick 1007]

/-- The evaluations of a run in the sample window. -/
def evaluationsOf (p : V33Params) (evs : List Event) : List Evaluation :=
  (evs.foldl (nextEvaluated p) (sampleWindow p, [])).2

/-- The latest evaluation of a run in the sample window. -/
def lastEvaluation (p : V33Params) (evs : List Event) : Evaluation :=
  (evaluationsOf p evs).headD ⟨sampleWindow p, 0⟩

/-- Events on time all along make a run from the sample window. -/
theorem evaluatedRun_sample {p : V33Params} {evs : List Event}
    (h : AllAlong (nextEvaluated p) OnTime (sampleWindow p, []) evs) :
    EvaluatedRun p evs (evs.foldl (nextEvaluated p) (sampleWindow p, [])) :=
  ⟨sampleWindow p, isNew_sampleWindow p, fed_of_allAlong h⟩

/-- The evaluations begin with the last one. -/
theorem evaluationsOf_eq {p : V33Params} {evs : List Event}
    (h : (evaluationsOf p evs).isEmpty = false) :
    (evs.foldl (nextEvaluated p) (sampleWindow p, [])).2 =
      lastEvaluation p evs :: (evaluationsOf p evs).tail := by
  unfold lastEvaluation
  show evaluationsOf p evs = _
  cases hev : evaluationsOf p evs with
  | nil => simp [hev] at h
  | cons e past => rfl

/-- Under a debounce of five seconds the tick commits the switch, which was due since the book. -/
theorem bucket_switch_sample :
    DueEarlier slowSwitch 200 (lastEvaluation slowSwitch steadySwitch)
      (evaluationsOf slowSwitch steadySwitch).tail :=
  ((bucket_switch_law slowSwitch steadySwitch _ (evaluatedRun_sample (by decide +kernel))
    (lastEvaluation slowSwitch steadySwitch) (evaluationsOf slowSwitch steadySwitch).tail
    (evaluationsOf_eq (by decide +kernel)) 100 200 (by decide +kernel) (by decide)).1
      (by decide +kernel)).2 (by decide)

/-- The spot moves to the second bucket. -/
def switchAtOnce : List Event := sampleOpening ++ [centBook "B200" 60 62 1002]

/-- With a debounce of zero the switch commits at the first evaluation of its bucket: it is due
since no earlier one. -/
theorem switch_not_earlier :
    ¬∀ p evs w, EvaluatedRun p evs w → ∀ e past, w.2 = e :: past → ∀ a b, e.rest = some a →
      b ≠ a → ((e.switch p).sd = some b → DueEarlier p b e past) ∧
        (DueEarlier p b e past → FirstAt (DueEarlier p b) past → (e.switch p).sd = some b) := by
  intro h
  have hdue : DueEarlier samplePolicy 200 (lastEvaluation samplePolicy switchAtOnce)
      (evaluationsOf samplePolicy switchAtOnce).tail :=
    (h samplePolicy switchAtOnce _ (evaluatedRun_sample (by decide +kernel)) _ _
      (evaluationsOf_eq (by decide +kernel)) 100 200 (by decide +kernel) (by decide)).1
        (by decide +kernel)
  obtain ⟨mid, first, post, heq, hwaited⟩ := hdue
  have hfirst : first.spot = some 200 := hwaited.steady first (by simp)
  have hnone : ∀ x ∈ (evaluationsOf samplePolicy switchAtOnce).tail, x.spot ≠ some 200 := by
    decide +kernel
  exact hnone first (by rw [heq]; simp) hfirst

end Pilot.V33
