import Pilot.V33.DeferredLegs

/-!
# The wing gates

Quoting, the full take, the take of one leg and the diagnostic label each check the two strike
books of a bucket. They check the same things: the take of both legs succeeds exactly where each
leg does, and the label names the first check at which the resting gate stops.
-/

namespace Pilot.V33

/-- The checks of the resting gate in its order, each under the label of its failure. -/
def gateChecks (p : V33Params) (st : V33State) (sd su : ℤ) (now : ℚ) : List (WingCause × Bool) :=
  let sdTop := st.strikeTops.get? sd
  let suTop := st.strikeTops.get? su
  let ya := sdTop.bind TopOfBook.yesAsk
  let na := suTop.bind TopOfBook.noAsk
  [(.feedDead, strikeFeedAlive p st now),
    (.wingMissingSd, sdTop.isSome),
    (.wingMissingSu, suTop.isSome),
    (.wingSuspectSd, sdTop.all fun top => !top.suspect),
    (.wingSuspectSu, suTop.all fun top => !top.suspect),
    (.wingTooOldSd, fresh now (st.strikeTs.get? sd) p.wingBookMaxAgeS),
    (.wingTooOldSu, fresh now (st.strikeTs.get? su) p.wingBookMaxAgeS),
    (.wingNoAskSd, ya.isSome),
    (.wingNoAskSu, na.isSome),
    (.wingPriceInvalidSd, ya.any fun ask => 0 < ask ∧ ask < 1),
    (.wingPriceInvalidSu, na.any fun ask => 0 < ask ∧ ask < 1)]

/-- The first check that fails. -/
def firstFailure (checks : List (WingCause × Bool)) : Option (WingCause × Bool) :=
  checks.find? fun check => !check.2

/-- The checks before the first failure hold, and it is one of the list. -/
theorem firstFailure_eq_some {checks : List (WingCause × Bool)} {check : WingCause × Bool}
    (h : firstFailure checks = some check) :
    check.2 = false ∧ ∃ before after, checks = before ++ check :: after ∧
      ∀ c ∈ before, c.2 = true := by
  obtain ⟨hfail, before, after, heq, hbefore⟩ := List.find?_eq_some_iff_append.mp h
  refine ⟨by simpa using hfail, before, after, heq, ?_⟩
  intro c hc
  simpa using hbefore c hc

variable {p : V33Params} {st : V33State} {now : ℚ} {sd su : ℤ}

/-- The checks are those of the gate: it prices the wings exactly if all of them hold. -/
theorem v33ComputeW_isSome_iff :
    (v33ComputeW p st sd su now).isSome ↔ ∀ check ∈ gateChecks p st sd su now, check.2 = true := by
  unfold v33ComputeW computeW gateChecks
  cases halive : strikeFeedAlive p st now with
  | false => simp
  | true =>
    cases hsd : st.strikeTops.get? sd with
    | none => simp
    | some sdTop =>
      cases hsu : st.strikeTops.get? su with
      | none => simp
      | some suTop =>
        cases hs : sdTop.suspect <;> cases hs' : suTop.suspect <;> simp [hs, hs']
        cases hya : sdTop.yesAsk <;> cases hna : suTop.noAsk <;> simp
        grind

/-- The label is that of the first check to fail. -/
theorem wingUnavailableCause_eq (hsd : st.spotSd = some sd) (hsu : st.spotSu = some su) :
    wingUnavailableCause p st now =
      ((firstFailure (gateChecks p st sd su now)).map Prod.fst).getD .unknown := by
  unfold wingUnavailableCause
  rw [hsd, hsu]
  dsimp only [gateChecks, firstFailure]
  cases halive : strikeFeedAlive p st now with
  | false => simp
  | true =>
    cases htop : st.strikeTops.get? sd with
    | none => simp
    | some sdTop =>
      cases htop' : st.strikeTops.get? su with
      | none => simp
      | some suTop =>
        cases hs : sdTop.suspect with
        | true => simp [hs]
        | false =>
          cases hs' : suTop.suspect with
          | true => simp [hs, hs']
          | false =>
            cases hf : fresh now (st.strikeTs.get? sd) p.wingBookMaxAgeS with
            | false => simp [hs, hs']
            | true =>
              cases hf' : fresh now (st.strikeTs.get? su) p.wingBookMaxAgeS with
              | false => simp [hs, hs']
              | true =>
                cases hya : sdTop.yesAsk with
                | none => simp [hs, hs', hya]
                | some ya =>
                  cases hna : suTop.noAsk with
                  | none => simp [hs, hs', hya, hna]
                  | some na =>
                    by_cases hy : 0 < ya ∧ ya < 1 <;> by_cases hn : 0 < na ∧ na < 1 <;>
                      simp [hs, hs', hya, hna, hy, hn, -Bool.decide_and, -not_and]

/-- The wing gates agree. On a live feed both legs of any bucket price exactly where the pair
does, at the same asks; and with a spot pair and no `W`, the label of the stand-down is that of
the first failing check, whose predecessors all hold, and never the unknown one. -/
theorem wingGates_agree (p : V33Params) (st : V33State) (now : ℚ) :
    (∀ sd su ya na,
      (strikeFeedAlive p st now = true ∧ wingLegAsk p st sd .yes now = some ya ∧
        wingLegAsk p st su .no now = some na) ↔
      wingPricesForBucket p st sd su now = some (ya, na)) ∧
    ∀ sd su, st.spotSd = some sd → st.spotSu = some su → v33ComputeW p st sd su now = none →
      wingUnavailableCause p st now ≠ .unknown ∧
      ∃ before after, gateChecks p st sd su now =
          before ++ (wingUnavailableCause p st now, false) :: after ∧
        ∀ check ∈ before, check.2 = true := by
  constructor
  · intro sd su ya na
    by_cases halive : strikeFeedAlive p st now = true
    · rw [wingPricesForBucket_eq_some halive]
      simp only [halive, true_and]
    · simp [wingPricesForBucket, halive]
  · intro sd su hsd hsu hnone
    have hfails : ∃ check ∈ gateChecks p st sd su now, check.2 = false := by
      have hgate := (@v33ComputeW_isSome_iff p st now sd su).not
      rw [hnone] at hgate
      simpa using hgate
    obtain ⟨check, hcheck⟩ : ∃ check, firstFailure (gateChecks p st sd su now) = some check := by
      apply Option.isSome_iff_exists.mp
      rw [firstFailure, List.find?_isSome]
      obtain ⟨check, hmem, hfail⟩ := hfails
      exact ⟨check, hmem, by simp [hfail]⟩
    obtain ⟨hfail, before, after, heq, hbefore⟩ := firstFailure_eq_some hcheck
    have hcause : wingUnavailableCause p st now = check.1 := by
      rw [wingUnavailableCause_eq hsd hsu, hcheck]
      rfl
    have hmem : check ∈ gateChecks p st sd su now := by simp [heq]
    refine ⟨?_, before, after, ?_, hbefore⟩
    · rw [hcause]
      intro hunknown
      simp only [gateChecks, List.mem_cons, List.not_mem_nil, or_false] at hmem
      rcases hmem with rfl | rfl | rfl | rfl | rfl | rfl | rfl | rfl | rfl | rfl | rfl <;>
        cases hunknown
    · rw [heq, hcause, ← hfail]

end Pilot.V33
