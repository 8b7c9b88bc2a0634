import Mathlib.Data.List.Induction
import Pilot.V33.Ledger

/-!
# Backfills

A ledger is only appended to: a window writes its row, and a sweep writes a backfill row for
every unsettled window whose markets have settled by then. Along every history a window is
backfilled once, and its credit is owed exactly until it is.
-/

namespace Pilot.V33

/-! ### Histories -/

/-- What is appended to a ledger: the row of a window, or the backfill rows of a sweep under the
results that are known by then. -/
inductive LedgerEvent where
  | window (row : LedgerRow)
  | sweep (fetchResult : String → Option Side)

/-- The ledger after one event. -/
def appendEvent (rows : List LedgerRow) : LedgerEvent → List LedgerRow
  | .window row => rows ++ [row]
  | .sweep fetchResult => rows ++ v33SettlementBackfillSweep rows fetchResult

/-- The ledger after a history. -/
def ledgerAfter (evs : List LedgerEvent) : List LedgerRow := evs.foldl appendEvent []

/-- The row an event writes for a window. -/
def LedgerEvent.row? : LedgerEvent → Option LedgerRow
  | .window row => some row
  | .sweep _ => none

/-- The rows written for windows. -/
def windowRows (evs : List LedgerEvent) : List LedgerRow := evs.filterMap LedgerEvent.row?

/-- An armed window that has not settled. -/
def LedgerRow.awaits (r : LedgerRow) : Bool := !r.drySim && r.realizedUnsettled

/-- A row as a window writes it: it is no backfill, it has a close time, and it lists what
awaits settlement. -/
structure WindowRow (r : LedgerRow) : Prop where
  written : r.backfillOf = none
  closes : r.closeTime ≠ ""
  held : r.awaits = true → r.legs ≠ []

/-- Every window's row is built so, whatever the window did. -/
theorem windowRow_build {closeTime : String} (hclose : closeTime ≠ "") (st : V33State)
    (drySim : Bool) :
    WindowRow (buildV33LedgerRow closeTime (computeLadderMoneyMath st drySim)) := by
  refine ⟨rfl, hclose, ?_⟩
  intro hawaits
  unfold computeLadderMoneyMath at hawaits ⊢
  by_cases hfills : st.restFills.isEmpty = true
  · rw [if_pos hfills] at hawaits
    simp [LedgerRow.awaits, buildV33LedgerRow] at hawaits
  · rw [if_neg hfills] at hawaits ⊢
    simp [LedgerRow.awaits, buildV33LedgerRow] at hawaits
    simp [LedgerRow.legs, buildV33LedgerRow, hawaits]

/-- A history of a ledger: no two unsettled armed rows share a close time. -/
structure History (evs : List LedgerEvent) : Prop where
  rows : ∀ r ∈ windowRows evs, WindowRow r
  single : (((windowRows evs).filter LedgerRow.awaits).map LedgerRow.closeTime).Nodup

/-- The backfill rows of a close. -/
def backfillsOf (rows : List LedgerRow) (closeTime : String) : List LedgerRow :=
  rows.filter fun b => b.backfillOf = some closeTime

/-- The results of all the legs of a row are known. -/
def settles (fetchResult : String → Option Side) (r : LedgerRow) : Bool :=
  r.legs.all fun l => (fetchResult l.ticker).isSome

section Run

variable {evs : List LedgerEvent} {e : LedgerEvent}

/-- The ledger after one more event. -/
@[simp] theorem ledgerAfter_append_singleton :
    ledgerAfter (evs ++ [e]) = appendEvent (ledgerAfter evs) e := by
  rw [ledgerAfter, List.foldl_append]
  rfl

/-- The window rows of two histories are those of each. -/
@[simp] theorem windowRows_append (evs evs' : List LedgerEvent) :
    windowRows (evs ++ evs') = windowRows evs ++ windowRows evs' :=
  List.filterMap_append

/-- A history without its last event is one. -/
theorem History.init (h : History (evs ++ [e])) : History evs := by
  constructor
  · intro r hr
    exact h.rows r (by simp [hr])
  · have hsingle := h.single
    rw [windowRows_append, List.filter_append, List.map_append] at hsingle
    exact hsingle.of_append_left

/-! ### Backfill rows -/

/-- A backfill row names the close of its window and awaits nothing itself. -/
theorem backfillOf_spec {fetchResult : String → Option Side} {r b : LedgerRow}
    (h : backfillOf fetchResult r = some b) :
    settles fetchResult r = true ∧ b.backfillOf = some r.closeTime ∧ b.awaits = false := by
  unfold backfillOf at h
  split_ifs at h with hsettles
  obtain rfl := Option.some.inj h
  exact ⟨hsettles, rfl, by simp [LedgerRow.awaits, buildV33BackfillRow]⟩

/-- A settled row has a backfill. -/
theorem exists_backfillOf {fetchResult : String → Option Side} {r : LedgerRow}
    (h : settles fetchResult r = true) : ∃ b, backfillOf fetchResult r = some b := by
  unfold settles at h
  simp only [backfillOf, h, if_true]
  exact ⟨_, rfl⟩

/-- A sweep goes through the unsettled armed rows, if their close times are distinct. -/
theorem sweep_eq {rows entries : List LedgerRow} (hentries : rows.filter LedgerRow.awaits = entries)
    (hheld : ∀ r ∈ entries, r.legs ≠ []) (hsingle : (entries.map LedgerRow.closeTime).Nodup)
    (fetchResult : String → Option Side) :
    v33SettlementBackfillSweep rows fetchResult =
      (entries.filter fun r => r.closeTime ∉ backfilled rows).filterMap
        (backfillOf fetchResult) := by
  have hpending : (rows.filter fun r => !r.drySim && r.realizedUnsettled && !r.legs.isEmpty) =
      entries := by
    have hall : entries.filter (fun r => !r.legs.isEmpty) = entries := by
      rw [List.filter_eq_self]
      intro r hr
      simpa using hheld r hr
    rw [← hall, ← hentries, List.filter_filter]
    refine List.filter_congr fun r _ => ?_
    simp only [LedgerRow.awaits, Bool.and_comm]
  have hkeys : ((entries.map fun r => (r.closeTime, r)).map Prod.fst).Nodup := by
    rw [List.map_map]
    exact hsingle
  unfold v33SettlementBackfillSweep pendingRows
  rw [hpending, Dict.entries_ofList hkeys, List.filter_map, List.filterMap_map]
  rfl

/-- A ledger awaits exactly what its windows await: its other rows are backfills of those. -/
structure Kept (evs : List LedgerEvent) : Prop where
  awaiting : (ledgerAfter evs).filter LedgerRow.awaits = (windowRows evs).filter LedgerRow.awaits
  source : ∀ b ∈ ledgerAfter evs, b ∈ windowRows evs ∨
    ∃ r ∈ windowRows evs, r.awaits = true ∧ ∃ fetchResult, .sweep fetchResult ∈ evs ∧
      backfillOf fetchResult r = some b

/-- What a sweep writes, while the backfills are kept. -/
theorem Kept.sweep (hkept : Kept evs) (h : History evs) (fetchResult : String → Option Side) :
    v33SettlementBackfillSweep (ledgerAfter evs) fetchResult =
      (((windowRows evs).filter LedgerRow.awaits).filter fun r =>
        r.closeTime ∉ backfilled (ledgerAfter evs)).filterMap (backfillOf fetchResult) := by
  refine sweep_eq hkept.awaiting ?_ h.single fetchResult
  intro r hr
  obtain ⟨hr, hawaits⟩ := List.mem_filter.mp hr
  exact (h.rows r hr).held hawaits

/-- The backfills are kept over every history. -/
theorem History.kept (h : History evs) : Kept evs := by
  induction evs using List.reverseRecOn with
  | nil => exact ⟨rfl, by simp [ledgerAfter]⟩
  | append_singleton evs e ih =>
    have hkept := ih h.init
    cases e with
    | window row =>
      constructor
      · simp [appendEvent, windowRows, LedgerEvent.row?, hkept.awaiting]
      · intro b hb
        rw [ledgerAfter_append_singleton, appendEvent, List.mem_append, List.mem_singleton] at hb
        rcases hb with hb | rfl
        · rcases hkept.source b hb with hrow | ⟨r, hr, hawaits, f, hf, hback⟩
          · exact Or.inl (by simp [hrow])
          · exact Or.inr ⟨r, by simp [hr], hawaits, f, by simp [hf], hback⟩
        · exact Or.inl (by simp [windowRows, LedgerEvent.row?])
    | sweep fetchResult =>
      have hnew : ∀ b ∈ v33SettlementBackfillSweep (ledgerAfter evs) fetchResult,
          ∃ r ∈ windowRows evs, r.awaits = true ∧ backfillOf fetchResult r = some b := by
        intro b hb
        rw [hkept.sweep h.init] at hb
        obtain ⟨r, hr, hback⟩ := List.mem_filterMap.mp hb
        obtain ⟨hr, hawaits⟩ := List.mem_filter.mp (List.mem_of_mem_filter hr)
        exact ⟨r, hr, hawaits, hback⟩
      constructor
      · have hquiet : (v33SettlementBackfillSweep (ledgerAfter evs) fetchResult).filter
            LedgerRow.awaits = [] := by
          rw [List.filter_eq_nil_iff]
          intro b hb
          obtain ⟨r, -, -, hback⟩ := hnew b hb
          simp [(backfillOf_spec hback).2.2]
        simp [appendEvent, windowRows, LedgerEvent.row?, hkept.awaiting, hquiet]
      · intro b hb
        rw [ledgerAfter_append_singleton, appendEvent, List.mem_append] at hb
        rcases hb with hb | hb
        · rcases hkept.source b hb with hrow | ⟨r, hr, hawaits, f, hf, hback⟩
          · exact Or.inl (by simp [hrow])
          · exact Or.inr ⟨r, by simp [hr], hawaits, f, by simp [hf], hback⟩
        · obtain ⟨r, hr, hawaits, hback⟩ := hnew b hb
          exact Or.inr ⟨r, by simp [hr], hawaits, fetchResult, by simp, hback⟩

/-- What a sweep writes after a history. -/
theorem History.sweep (h : History evs) (fetchResult : String → Option Side) :
    v33SettlementBackfillSweep (ledgerAfter evs) fetchResult =
      (((windowRows evs).filter LedgerRow.awaits).filter fun r =>
        r.closeTime ∉ backfilled (ledgerAfter evs)).filterMap (backfillOf fetchResult) :=
  h.kept.sweep h fetchResult

/-! ### One backfill for each window -/

/-- A close counts as backfilled exactly if it has a backfill row. -/
theorem mem_backfilled {rows : List LedgerRow} {t : String} (ht : t ≠ "") :
    t ∈ backfilled rows ↔ backfillsOf rows t ≠ [] := by
  rw [backfilled, List.mem_filterMap, backfillsOf, Ne, List.filter_eq_nil_iff]
  push Not
  refine exists_congr fun b => and_congr_right fun _ => ?_
  rw [decide_eq_true_iff, truthy, Option.filter_eq_some_iff]
  simp [ht]

/-- The backfills in two lists of rows are those in each. -/
theorem backfillsOf_append (rows rows' : List LedgerRow) (t : String) :
    backfillsOf (rows ++ rows') t = backfillsOf rows t ++ backfillsOf rows' t :=
  List.filter_append rows rows'

/-- The awaiting rows of a close are the one row of its window. -/
theorem History.filter_closeTime (h : History evs) {r : LedgerRow} (hr : r ∈ windowRows evs)
    (hawaits : r.awaits = true) :
    ((windowRows evs).filter LedgerRow.awaits).filter (fun x => x.closeTime = r.closeTime) =
      [r] := by
  have hmem : r ∈ (windowRows evs).filter LedgerRow.awaits := List.mem_filter.mpr ⟨hr, hawaits⟩
  obtain ⟨front, back, heq⟩ := List.append_of_mem hmem
  have hsingle := h.single
  rw [heq, List.map_append, List.map_cons, List.nodup_middle, List.nodup_cons, List.mem_append,
    not_or] at hsingle
  obtain ⟨⟨hfront, hback⟩, -⟩ := hsingle
  have hnone : ∀ l : List LedgerRow, r.closeTime ∉ l.map LedgerRow.closeTime →
      l.filter (fun x => x.closeTime = r.closeTime) = [] := by
    intro l hl
    rw [List.filter_eq_nil_iff]
    intro x hx hclose
    exact hl (List.mem_map.mpr ⟨x, hx, of_decide_eq_true hclose⟩)
  rw [heq, List.filter_append, hnone front hfront, List.filter_cons_of_pos (by simp),
    hnone back hback, List.nil_append]

/-- What a sweep adds for a window: nothing once it is backfilled, else its backfill row if its
markets have settled. -/
theorem History.swept (h : History evs) {r : LedgerRow} (hr : r ∈ windowRows evs)
    (hawaits : r.awaits = true) (fetchResult : String → Option Side) :
    backfillsOf (v33SettlementBackfillSweep (ledgerAfter evs) fetchResult) r.closeTime =
      if backfillsOf (ledgerAfter evs) r.closeTime = [] then (backfillOf fetchResult r).toList
      else [] := by
  have hclose := (h.rows r hr).closes
  have hone := h.filter_closeTime hr hawaits
  have hcommute : ∀ l : List LedgerRow,
      backfillsOf (l.filterMap (backfillOf fetchResult)) r.closeTime =
        (l.filter fun x => x.closeTime = r.closeTime).filterMap (backfillOf fetchResult) := by
    intro l
    induction l with
    | nil => rfl
    | cons x l ih =>
      unfold backfillsOf at ih ⊢
      cases hx : backfillOf fetchResult x with
      | none =>
        rw [List.filterMap_cons_none hx, ih, List.filter_cons]
        split_ifs with hxr
        · rw [List.filterMap_cons_none hx]
        · rfl
      | some b =>
        have hb := (backfillOf_spec hx).2.1
        rw [List.filterMap_cons_some hx, List.filter_cons, List.filter_cons, hb, ih]
        by_cases hxr : x.closeTime = r.closeTime
        · simp [hxr, hx]
        · simp [hxr]
  rw [h.sweep, hcommute, List.filter_comm, hone]
  have hdone := @mem_backfilled (ledgerAfter evs) r.closeTime hclose
  by_cases hnone : backfillsOf (ledgerAfter evs) r.closeTime = []
  · have hfresh : r.closeTime ∉ backfilled (ledgerAfter evs) := by
      rw [hdone, hnone]
      simp
    rw [if_pos hnone, List.filter_cons_of_pos (by simpa using hfresh), List.filter_nil]
    cases hback : backfillOf fetchResult r with
    | none => rw [List.filterMap_cons_none hback]; rfl
    | some b => rw [List.filterMap_cons_some hback]; rfl
  · have hold : r.closeTime ∈ backfilled (ledgerAfter evs) := hdone.mpr hnone
    rw [if_neg hnone, List.filter_cons_of_neg (by simpa using hold)]
    rfl

/-- Before a window has written its row nothing is backfilled for its close. -/
theorem History.unswept {pre : List LedgerEvent} {r : LedgerRow}
    (h : History (pre ++ [.window r])) (hawaits : r.awaits = true) :
    backfillsOf (ledgerAfter (pre ++ [.window r])) r.closeTime = [] := by
  have hrows : windowRows (pre ++ [.window r]) = windowRows pre ++ [r] := windowRows_append _ _
  have hwritten := (h.rows r (by simp [hrows])).written
  rw [ledgerAfter_append_singleton, appendEvent, backfillsOf, List.filter_eq_nil_iff]
  intro b hb
  rw [decide_eq_true_iff]
  intro hback
  rcases List.mem_append.mp hb with hb | hb
  · rcases h.init.kept.source b hb with hrow | ⟨x, hx, hx', f, -, hxback⟩
    · have hnone := (h.init.rows b hrow).written
      rw [hnone] at hback
      cases hback
    · -- An earlier window of the same close would be a second one.
      have hclose : x.closeTime = r.closeTime :=
        Option.some.inj ((backfillOf_spec hxback).2.1.symm.trans hback)
      have hsingle := h.single
      rw [hrows, List.filter_append, List.map_append, List.nodup_append] at hsingle
      refine hsingle.2.2 x.closeTime ?_ r.closeTime ?_ hclose
      · exact List.mem_map_of_mem (List.mem_filter.mpr ⟨hx, hx'⟩)
      · simp [hawaits]
  · rw [List.mem_singleton.mp hb, hwritten] at hback
    cases hback

/-- A window is backfilled once, by the first sweep that knows all its results. -/
theorem History.backfilled_once {pre : List LedgerEvent} {r : LedgerRow} (post : List LedgerEvent)
    (h : History (pre ++ .window r :: post)) (hawaits : r.awaits = true) :
    ((∀ f, .sweep f ∈ post → settles f r = false) ∧
        backfillsOf (ledgerAfter (pre ++ .window r :: post)) r.closeTime = []) ∨
      ∃ f, .sweep f ∈ post ∧ ∃ b, backfillOf f r = some b ∧
        backfillsOf (ledgerAfter (pre ++ .window r :: post)) r.closeTime = [b] := by
  induction post using List.reverseRecOn with
  | nil =>
    left
    exact ⟨by simp, h.unswept hawaits⟩
  | append_singleton post e ih =>
    have hassoc : pre ++ .window r :: (post ++ [e]) = (pre ++ .window r :: post) ++ [e] := by simp
    rw [hassoc] at h ⊢
    have hprev := ih h.init
    have hr : r ∈ windowRows (pre ++ .window r :: post) := by simp [windowRows, LedgerEvent.row?]
    cases e with
    | window row =>
      have hrow : row ∈ windowRows ((pre ++ .window r :: post) ++ [.window row]) := by
        simp [windowRows, LedgerEvent.row?]
      have hsame : backfillsOf (ledgerAfter ((pre ++ .window r :: post) ++ [.window row]))
          r.closeTime = backfillsOf (ledgerAfter (pre ++ .window r :: post)) r.closeTime := by
        rw [ledgerAfter_append_singleton, appendEvent, backfillsOf_append]
        simp [backfillsOf, (h.rows row hrow).written]
      rw [hsame]
      simpa using hprev
    | sweep fetchResult =>
      rw [ledgerAfter_append_singleton, appendEvent, backfillsOf_append, h.init.swept hr hawaits]
      rcases hprev with ⟨hunknown, hnone⟩ | ⟨f, hf, b, hback, hone⟩
      · rw [hnone, if_pos rfl, List.nil_append]
        cases hsettles : settles fetchResult r with
        | true =>
          obtain ⟨b, hback⟩ := exists_backfillOf hsettles
          exact Or.inr ⟨fetchResult, by simp, b, hback, by rw [hback]; rfl⟩
        | false =>
          left
          constructor
          · intro f hf
            rcases List.mem_append.mp hf with hf | hf
            · exact hunknown f hf
            · obtain rfl : f = fetchResult := by simpa using hf
              exact hsettles
          · cases hback : backfillOf fetchResult r with
            | none => rfl
            | some b =>
              have := (backfillOf_spec hback).1
              rw [hsettles] at this
              cases this
      · right
        refine ⟨f, by simp [hf], b, hback, ?_⟩
        rw [hone, if_neg (by simp), List.append_nil]

/-- A sweep that is made again, at once or after others, finds nothing more. -/
theorem History.sweep_again (h : History evs) (fetchResult : String → Option Side)
    (later : List (String → Option Side)) :
    v33SettlementBackfillSweep
      (ledgerAfter (evs ++ .sweep fetchResult :: later.map .sweep)) fetchResult = [] := by
  have hrows : windowRows (evs ++ .sweep fetchResult :: later.map .sweep) = windowRows evs := by
    have hlater : windowRows (later.map LedgerEvent.sweep) = [] := by
      rw [windowRows, List.filterMap_map]
      exact List.filterMap_eq_nil_iff.mpr fun _ _ => rfl
    have hsweeps : windowRows (.sweep fetchResult :: later.map LedgerEvent.sweep) = [] := hlater
    rw [windowRows_append, hsweeps, List.append_nil]
  have hfull : History (evs ++ .sweep fetchResult :: later.map .sweep) :=
    ⟨hrows ▸ h.rows, hrows ▸ h.single⟩
  rw [hfull.sweep, hrows, List.filterMap_eq_nil_iff]
  intro r hr
  obtain ⟨hr, hfresh⟩ := List.mem_filter.mp hr
  obtain ⟨hr, hawaits⟩ := List.mem_filter.mp hr
  by_contra hsome
  obtain ⟨b, hback⟩ := Option.ne_none_iff_exists'.mp hsome
  have hsettles := (backfillOf_spec hback).1
  -- The window wrote its row before the first of these sweeps.
  obtain ⟨e, he, hrow⟩ := List.mem_filterMap.mp hr
  obtain rfl : e = .window r := by
    cases e with
    | window row => rw [Option.some.inj hrow]
    | sweep f => cases hrow
  obtain ⟨pre, post, rfl⟩ := List.append_of_mem he
  have hassoc : (pre ++ .window r :: post) ++ .sweep fetchResult :: later.map .sweep =
      pre ++ .window r :: (post ++ .sweep fetchResult :: later.map .sweep) := by simp
  rw [hassoc] at hfull hfresh
  have hopen : backfillsOf (ledgerAfter (pre ++ .window r ::
      (post ++ .sweep fetchResult :: later.map .sweep))) r.closeTime = [] := by
    have := (mem_backfilled (hfull.rows r (by simp [windowRows, LedgerEvent.row?])).closes).not.mp
      (of_decide_eq_true hfresh)
    exact not_not.mp this
  rcases hfull.backfilled_once _ hawaits with ⟨hunknown, -⟩ | ⟨f, -, b, -, hone⟩
  · have := hunknown fetchResult (by simp)
    rw [hsettles] at this
    cases this
  · rw [hopen] at hone
    cases hone

/-- The credit owed on a day is that of the day's unsettled armed windows without a backfill. -/
theorem History.pendingCredit (h : History evs) (utcDay : String) :
    v33PendingCredit (ledgerAfter evs) utcDay =
      (((windowRows evs).filter fun r => r.awaits && (utcDayOf r.closeTime == utcDay &&
        (backfillsOf (ledgerAfter evs) r.closeTime).isEmpty)).map rowCredit).sum := by
  have hfilter : (ledgerAfter evs).filter (fun r => unsettledOn utcDay r &&
        !(backfilled (ledgerAfter evs)).contains r.closeTime) =
      ((ledgerAfter evs).filter LedgerRow.awaits).filter fun r => utcDayOf r.closeTime == utcDay &&
        !(backfilled (ledgerAfter evs)).contains r.closeTime := by
    rw [List.filter_filter]
    refine List.filter_congr fun r _ => ?_
    simp only [unsettledOn, LedgerRow.awaits]
    cases r.drySim <;> cases r.realizedUnsettled <;> simp
  rw [v33PendingCredit, hfilter, h.kept.awaiting, List.filter_filter]
  congr 2
  refine List.filter_congr fun r hr => ?_
  have hdone := @mem_backfilled (ledgerAfter evs) r.closeTime (h.rows r hr).closes
  have hempty : (!(backfilled (ledgerAfter evs)).contains r.closeTime) =
      (backfillsOf (ledgerAfter evs) r.closeTime).isEmpty := by
    rw [Bool.eq_iff_iff]
    simp [hdone]
  rw [hempty, Bool.and_comm]

/-- Backfills and pending credit agree along every history, whatever results become known when.
An unsettled armed window has one backfill row from the first sweep on that knows its results and
none before; a backfill is always that of such a window, so a dry row never gets one; a repeated
sweep adds nothing; and the credit owed is that of the windows without a backfill row. -/
theorem backfills_agree_with_credit (h : History evs) :
    (∀ pre r post, evs = pre ++ .window r :: post → r.awaits = true →
      ((∃ f, .sweep f ∈ post ∧ settles f r = true) →
        ∃ b, backfillsOf (ledgerAfter evs) r.closeTime = [b]) ∧
      ((∀ f, .sweep f ∈ post → settles f r = false) →
        backfillsOf (ledgerAfter evs) r.closeTime = [])) ∧
    (∀ b ∈ ledgerAfter evs, b.backfillOf ≠ none → ∃ r ∈ windowRows evs, r.awaits = true ∧
      ∃ f, .sweep f ∈ evs ∧ backfillOf f r = some b) ∧
    (∀ f (later : List (String → Option Side)), v33SettlementBackfillSweep
      (ledgerAfter (evs ++ .sweep f :: later.map .sweep)) f = []) ∧
    ∀ utcDay, v33PendingCredit (ledgerAfter evs) utcDay =
      (((windowRows evs).filter fun r => r.awaits && (utcDayOf r.closeTime == utcDay &&
        (backfillsOf (ledgerAfter evs) r.closeTime).isEmpty)).map rowCredit).sum := by
  refine ⟨?_, ?_, h.sweep_again, h.pendingCredit⟩
  · rintro pre r post rfl hawaits
    rcases h.backfilled_once post hawaits with ⟨hunknown, hnone⟩ | ⟨f, hf, b, hback, hone⟩
    · refine ⟨?_, fun _ => hnone⟩
      rintro ⟨f, hf, hsettles⟩
      rw [hunknown f hf] at hsettles
      cases hsettles
    · refine ⟨fun _ => ⟨b, hone⟩, ?_⟩
      intro hunknown
      have hsettles := (backfillOf_spec hback).1
      rw [hunknown f hf] at hsettles
      cases hsettles
  · intro b hb hback
    rcases h.kept.source b hb with hrow | hsource
    · exact absurd (h.rows b hrow).written hback
    · exact hsource

end Run

/-- A window that holds a lot of NO on one market. -/
def lotRow (drySim : Bool) : LedgerRow where
  closeTime := "2026-10-09T20:00:00Z"
  drySim := drySim
  realizedUnsettled := true
  heldLegs := [⟨"B100", .no, 1⟩]
  unsettledLegs := [⟨"B100", .no, 1⟩]

/-- A dry and an armed window of one close, swept before and after its market settles. -/
def sweptHistory : List LedgerEvent :=
  [.window (lotRow true), .window (lotRow false), .sweep fun _ => none, .sweep fun _ => some .no]

/-- A swept row of the sample has one backfill and is pending no more. -/
theorem backfills_agree_sample :
    (∃ b, backfillsOf (ledgerAfter sweptHistory) (lotRow false).closeTime = [b]) ∧
      v33PendingCredit (ledgerAfter sweptHistory) "2026-10-09" = 0 := by
  have hhistory : History sweptHistory := by
    constructor
    · intro r hr
      have hr : r = lotRow true ∨ r = lotRow false := by
        simpa [windowRows, sweptHistory, LedgerEvent.row?] using hr
      rcases hr with rfl | rfl <;> exact ⟨rfl, by decide, by decide⟩
    · decide
  obtain ⟨hone, -, -, hcredit⟩ := backfills_agree_with_credit hhistory
  constructor
  · exact (hone [.window (lotRow true)] (lotRow false) _ rfl rfl).1
      ⟨fun _ => some .no, by simp, by decide⟩
  · rw [hcredit]
    decide +kernel

end Pilot.V33
