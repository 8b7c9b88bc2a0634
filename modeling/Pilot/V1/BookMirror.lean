import Mathlib.Data.List.Induction
import Pilot.V1.Wire

/-!
# The book mirror

The order book of one market, rebuilt by snapshots and moved by deltas. After any messages
the size of a level is that of the last snapshot with the deltas since, the top of the book
is the true one, and the book is trusted exactly while every delta since the last snapshot
could be read.
-/

namespace Pilot.V1

/-- A price level. -/
structure Level where
  price : ℚ
  size : ℚ
  deriving DecidableEq

/-- The best quotes of a book. -/
structure TopOfBook where
  yesBid : Option ℚ
  yesBidSize : Option ℚ
  yesAsk : Option ℚ
  yesAskSize : Option ℚ
  noBid : Option ℚ
  noBidSize : Option ℚ
  noAsk : Option ℚ
  noAskSize : Option ℚ
  suspect : Bool
  deriving DecidableEq

/-- The book of one market. -/
structure BookMirror where
  /-- The bids of the YES side: the size at each price. -/
  yesBids : Dict ℚ ℚ
  noBids : Dict ℚ ℚ
  suspect : Bool
  malformedDeltaCount : ℕ

/-- A mirror that has seen no snapshot. -/
def BookMirror.new : BookMirror := ⟨Dict.empty, Dict.empty, true, 0⟩

/-! ### Messages -/

/-- The fields of a snapshot message, null where absent. -/
structure SnapshotMsg where
  yesDollarsFp : Json
  noDollarsFp : Json

/-- The fields of a delta message, null where absent. -/
structure DeltaMsg where
  side : Json
  priceDollars : Json
  deltaFp : Json

/-- The price and the size of a pair. -/
def parsePair (pair : Json) : Option (ℚ × ℚ) :=
  match pair.iterate with
  | some [priceRaw, sizeRaw] =>
    (toDecimal priceRaw).bind fun price => (toDecimal sizeRaw).map fun size => (price, size)
  | _ => none

/-- The levels of a snapshot: pairs that cannot be read and levels without size are left out. -/
def parseLevels (raw : Json) : Dict ℚ ℚ :=
  Dict.ofList (((raw.iterate.getD []).filterMap parsePair).filter fun l => 0 < l.2)

/-- A snapshot rebuilds the book and clears the suspicion. -/
def applySnapshot (b : BookMirror) (msg : SnapshotMsg) : BookMirror :=
  { b with
    yesBids := parseLevels msg.yesDollarsFp
    noBids := parseLevels msg.noDollarsFp
    suspect := false }

/-- The side a message names. -/
def parseSide (v : Json) : Option Side :=
  if v.isText "yes" then some .yes else if v.isText "no" then some .no else none

/-- The change a delta message describes. -/
def parseDelta (msg : DeltaMsg) : Option (Side × ℚ × ℚ) :=
  (parseSide msg.side).bind fun side =>
    (toDecimal msg.priceDollars).bind fun price =>
      (toDecimal msg.deltaFp).map fun delta => (side, price, delta)

/-- The bids of a side. -/
def BookMirror.book (b : BookMirror) (side : Side) : Dict ℚ ℚ :=
  match side with
  | .yes => b.yesBids
  | .no => b.noBids

/-- Replace the bids of a side. -/
def BookMirror.setBook (b : BookMirror) (side : Side) (book : Dict ℚ ℚ) : BookMirror :=
  match side with
  | .yes => { b with yesBids := book }
  | .no => { b with noBids := book }

/-- The bids of a side after the change of one level; a level without size is dropped. -/
def changeLevel (book : Dict ℚ ℚ) (price delta : ℚ) : Dict ℚ ℚ :=
  let newSize := book.getD price 0 + delta
  if newSize ≤ 0 then book.pop price else book.set price newSize

/-- A delta changes one level; one that cannot be read is counted and marks the book. -/
def applyDelta (b : BookMirror) (msg : DeltaMsg) : BookMirror :=
  match parseDelta msg with
  | none => { b with malformedDeltaCount := b.malformedDeltaCount + 1, suspect := true }
  | some (side, price, delta) => b.setBook side (changeLevel (b.book side) price delta)

/-- A gap or a reconnect: the levels stay, but are not trusted. -/
def markSuspect (b : BookMirror) : BookMirror := { b with suspect := true }

/-- What can happen to a mirror. -/
inductive Message where
  | snapshot (msg : SnapshotMsg)
  | delta (msg : DeltaMsg)
  | suspect

/-- The mirror after a message. -/
def feed (b : BookMirror) : Message → BookMirror
  | .snapshot msg => applySnapshot b msg
  | .delta msg => applyDelta b msg
  | .suspect => markSuspect b

/-- The mirror after a list of messages. -/
def mirror (msgs : List Message) : BookMirror := msgs.foldl feed .new

/-! ### Reads -/

/-- The later of two levels by price; the first of two at one price stays. -/
def better (best : Option Level) (l : ℚ × ℚ) : Option Level :=
  match best with
  | none => some ⟨l.1, l.2⟩
  | some b => if b.price < l.1 then some ⟨l.1, l.2⟩ else some b

/-- The highest bid of a side among the levels of positive size. -/
def bestBid (b : BookMirror) (side : Side) : Option Level :=
  ((b.book side).entries.filter fun l => 0 < l.2).foldl better none

/-- The ask a bid of the other side implies. -/
def derivedAsk (b : BookMirror) (opposite : Side) : Option Level :=
  (bestBid b opposite).map fun l => ⟨1 - l.price, l.size⟩

/-- The YES ask. -/
def bestYesAsk (b : BookMirror) : Option Level := derivedAsk b .no

/-- The NO ask. -/
def bestNoAsk (b : BookMirror) : Option Level := derivedAsk b .yes

/-- The best quotes and the mark of the book. -/
def topOfBook (b : BookMirror) : TopOfBook :=
  ⟨(bestBid b .yes).map Level.price, (bestBid b .yes).map Level.size,
    (bestYesAsk b).map Level.price, (bestYesAsk b).map Level.size,
    (bestBid b .no).map Level.price, (bestBid b .no).map Level.size,
    (bestNoAsk b).map Level.price, (bestNoAsk b).map Level.size, b.suspect⟩

/-! ### What the messages say -/

/-- The levels a snapshot carries for a side. -/
def SnapshotMsg.levels (msg : SnapshotMsg) (side : Side) : Json :=
  match side with
  | .yes => msg.yesDollarsFp
  | .no => msg.noDollarsFp

/-- The size the pairs give a price: that of its last level of positive size. -/
def sizeIn (raw : Json) (price : ℚ) : Option ℚ :=
  (((raw.iterate.getD []).filterMap parsePair).filter fun l => 0 < l.2 ∧ l.1 = price).getLast?.map
    Prod.snd

/-- The change of one message at a price of a side. -/
def deltaAt (side : Side) (price : ℚ) : Message → Option ℚ
  | .delta msg =>
    ((parseDelta msg).filter fun d => d.1 = side ∧ d.2.1 = price).map fun d => d.2.2
  | _ => none

/-- The changes at a price of a side, in order. -/
def deltasAt (msgs : List Message) (side : Side) (price : ℚ) : List ℚ :=
  msgs.filterMap (deltaAt side price)

/-- The size of a level after a change; the level goes when nothing is left. -/
def moved (size : Option ℚ) (delta : ℚ) : Option ℚ :=
  if size.getD 0 + delta ≤ 0 then none else some (size.getD 0 + delta)

/-- The message is a delta that could be read. -/
def Readable : Message → Prop
  | .delta msg => (parseDelta msg).isSome
  | _ => False

/-- The message is a snapshot. -/
def Message.isSnapshot : Message → Bool
  | .snapshot _ => true
  | _ => false

/-- The level is the highest of a book. -/
def IsBest (book : Dict ℚ ℚ) : Option Level → Prop
  | none => ∀ price, book.get? price = none
  | some l => book.get? l.price = some l.size ∧
      ∀ price size, book.get? price = some size → price ≤ l.price

/-- The top shows the best bids, and as asks one minus the best bids of the other side. -/
def TopIsTrue (b : BookMirror) : Prop :=
  ∃ yes no, IsBest b.yesBids yes ∧ IsBest b.noBids no ∧
    topOfBook b = ⟨yes.map Level.price, yes.map Level.size,
      no.map fun l => 1 - l.price, no.map Level.size, no.map Level.price, no.map Level.size,
      yes.map fun l => 1 - l.price, yes.map Level.size, b.suspect⟩

/-- Every stored size is positive. -/
def PositiveSizes (b : BookMirror) : Prop :=
  ∀ side price size, (b.book side).get? price = some size → 0 < size

/-- A trusted mirror holds the last snapshot with the deltas since, all of which were read. -/
def HoldsSnapshot (msgs : List Message) (b : BookMirror) : Prop :=
  ∃ pre msg post, msgs = pre ++ .snapshot msg :: post ∧ (∀ m ∈ post, Readable m) ∧
    ∀ side price, (b.book side).get? price =
      (deltasAt post side price).foldl moved (sizeIn (msg.levels side) price)

/-! ### The levels -/

section Mirror

variable {b : BookMirror} {msgs : List Message} {m : Message}

/-- The mirror after one more message. -/
theorem mirror_snoc (msgs : List Message) (m : Message) :
    mirror (msgs ++ [m]) = feed (mirror msgs) m := by
  simp [mirror]

/-- The last level of a price is the one kept. -/
theorem get?_foldl_set (levels : List (ℚ × ℚ)) (book : Dict ℚ ℚ) (price : ℚ) :
    (levels.foldl (fun d e => d.set e.1 e.2) book).get? price =
      ((levels.filter fun l => l.1 = price).getLast?.map Prod.snd).or (book.get? price) := by
  induction levels generalizing book with
  | nil => simp
  | cons l levels ih =>
    rw [List.foldl_cons, ih, Dict.get?_set]
    by_cases hl : l.1 = price
    · rw [if_pos hl.symm, List.filter_cons_of_pos (by simpa using hl), List.getLast?_cons]
      cases (levels.filter fun l => l.1 = price).getLast? with
      | none => rfl
      | some l' => rfl
    · rw [if_neg (Ne.symm hl), List.filter_cons_of_neg (by simpa using hl)]

/-- A parsed book has the size the pairs give each price. -/
theorem get?_parseLevels (raw : Json) (price : ℚ) :
    (parseLevels raw).get? price = sizeIn raw price := by
  unfold parseLevels Dict.ofList
  rw [get?_foldl_set, Dict.get?_empty, Option.or_none, List.filter_filter]
  unfold sizeIn
  congr 3
  funext l
  simp [and_comm]

/-- A level of a snapshot has a positive size. -/
theorem sizeIn_pos {raw : Json} {price size : ℚ} (h : sizeIn raw price = some size) : 0 < size := by
  obtain ⟨l, hl, rfl⟩ := Option.map_eq_some_iff.mp h
  have hmem := List.mem_of_getLast? hl
  have hcond := (List.mem_filter.mp hmem).2
  simp only [decide_eq_true_eq] at hcond
  exact hcond.1

/-- A change moves its own level only. -/
theorem get?_changeLevel (book : Dict ℚ ℚ) (price delta j : ℚ) :
    (changeLevel book price delta).get? j =
      if j = price then moved (book.get? j) delta else book.get? j := by
  unfold changeLevel moved
  dsimp only
  by_cases hj : j = price
  · subst hj
    rw [if_pos rfl]
    unfold Dict.getD
    split_ifs
    · rw [Dict.get?_pop, if_pos rfl]
    · rw [Dict.get?_set_self]
  · rw [if_neg hj]
    split_ifs
    · rw [Dict.get?_pop, if_neg hj]
    · rw [Dict.get?_set, if_neg hj]

/-- Setting one side's book leaves the other. -/
theorem book_setBook (b : BookMirror) (side j : Side) (book : Dict ℚ ℚ) :
    (b.setBook side book).book j = if j = side then book else b.book j := by
  cases side <;> cases j <;> rfl

/-- Setting a book makes it no more suspect. -/
theorem suspect_setBook (b : BookMirror) (side : Side) (book : Dict ℚ ℚ) :
    (b.setBook side book).suspect = b.suspect := by
  cases side <;> rfl

/-- A delta that is read changes its own level alone. -/
theorem get?_applyDelta {msg : DeltaMsg} {d : Side × ℚ × ℚ} (h : parseDelta msg = some d)
    (side : Side) (price : ℚ) :
    ((applyDelta b msg).book side).get? price =
      (deltasAt [.delta msg] side price).foldl moved ((b.book side).get? price) := by
  obtain ⟨side', price', delta⟩ := d
  unfold applyDelta
  rw [h]
  dsimp only
  rw [book_setBook]
  by_cases hside : side = side'
  · subst hside
    rw [if_pos rfl, get?_changeLevel]
    by_cases hprice : price = price'
    · subst hprice
      simp [deltasAt, deltaAt, h, Option.filter_some]
    · rw [if_neg hprice]
      simp [deltasAt, deltaAt, h, Option.filter_some, Ne.symm hprice]
  · rw [if_neg hside]
    simp [deltasAt, deltaAt, h, Option.filter_some, Ne.symm hside]

/-- A moved level that stays has a positive size. -/
theorem moved_pos {size : Option ℚ} {delta x : ℚ} (h : moved size delta = some x) : 0 < x := by
  unfold moved at h
  split_ifs at h with hle
  rw [← Option.some.inj h]
  exact not_le.mp hle

/-- Every message keeps the sizes positive. -/
theorem PositiveSizes.feed (h : PositiveSizes b) (m : Message) : PositiveSizes (feed b m) := by
  cases m with
  | snapshot msg =>
    intro side price size hsize
    have hparsed : ((applySnapshot b msg).book side) = parseLevels (msg.levels side) := by
      cases side <;> rfl
    rw [show V1.feed b (.snapshot msg) = applySnapshot b msg from rfl, hparsed,
      get?_parseLevels] at hsize
    exact sizeIn_pos hsize
  | suspect => exact h
  | delta msg =>
    intro side price size hsize
    have hfeed : V1.feed b (.delta msg) = applyDelta b msg := rfl
    rw [hfeed] at hsize
    cases hd : parseDelta msg with
    | none =>
      simp only [applyDelta, hd] at hsize
      exact h side price size hsize
    | some d =>
      rw [get?_applyDelta hd] at hsize
      cases hdelta : deltasAt [.delta msg] side price with
      | nil =>
        rw [hdelta] at hsize
        exact h side price size hsize
      | cons x xs =>
        have hnil : xs = [] := by
          have hlength := List.length_filterMap_le (deltaAt side price) [Message.delta msg]
          have heq : (deltasAt [.delta msg] side price).length = xs.length + 1 := by
              rw [hdelta]; rfl
          unfold deltasAt at heq
          simp only [List.length_singleton] at hlength
          apply List.eq_nil_of_length_eq_zero
          omega
        rw [hdelta, hnil] at hsize
        exact moved_pos hsize

/-- Every level of the mirror has a positive size. -/
theorem mirror_positive (msgs : List Message) : PositiveSizes (mirror msgs) := by
  induction msgs using List.reverseRecOn with
  | nil =>
    intro side price size hsize
    cases side <;> simp [mirror, BookMirror.new, BookMirror.book] at hsize
  | append_singleton msgs m ih =>
    rw [mirror_snoc]
    exact ih.feed m

/-! ### The trust -/

/-- A trusted mirror holds its last snapshot with the deltas since. -/
theorem mirror_holdsSnapshot (h : (mirror msgs).suspect = false) :
    HoldsSnapshot msgs (mirror msgs) := by
  induction msgs using List.reverseRecOn with
  | nil => simp [mirror, BookMirror.new] at h
  | append_singleton msgs m ih =>
    rw [mirror_snoc] at h ⊢
    cases m with
    | snapshot msg =>
      refine ⟨msgs, msg, [], rfl, by simp, fun side price => ?_⟩
      have hparsed : ((applySnapshot (mirror msgs) msg).book side) =
          parseLevels (msg.levels side) := by
        cases side <;> rfl
      show ((applySnapshot (mirror msgs) msg).book side).get? price = _
      rw [hparsed, get?_parseLevels]
      rfl
    | suspect => simp [feed, markSuspect] at h
    | delta msg =>
      have hfeed : feed (mirror msgs) (.delta msg) = applyDelta (mirror msgs) msg := rfl
      rw [hfeed] at h ⊢
      cases hd : parseDelta msg with
      | none => simp [applyDelta, hd] at h
      | some d =>
        have hold : (mirror msgs).suspect = false := by
          rw [← h]
          unfold applyDelta
          rw [hd]
          exact (suspect_setBook _ _ _).symm
        obtain ⟨pre, snap, post, heq, hread, hlevels⟩ := ih hold
        refine ⟨pre, snap, post ++ [.delta msg], by rw [heq]; simp, ?_, fun side price => ?_⟩
        · intro m hm
          rcases List.mem_append.mp hm with hm | hm
          · exact hread m hm
          · rw [List.mem_singleton.mp hm]
            simp [Readable, hd]
        · rw [get?_applyDelta hd, hlevels]
          simp only [deltasAt, List.filterMap_append, List.foldl_append]

/-- Only a snapshot clears the suspicion. -/
theorem suspect_foldl {post : List Message} (hpost : ∀ m ∈ post, m.isSnapshot = false)
    (h : b.suspect = true) : (post.foldl feed b).suspect = true := by
  induction post generalizing b with
  | nil => exact h
  | cons m post ih =>
    rw [List.foldl_cons]
    apply ih fun m' hm' => hpost m' (by simp [hm'])
    cases m with
    | snapshot msg => exact absurd (hpost (.snapshot msg) (by simp)) (by simp [Message.isSnapshot])
    | suspect => rfl
    | delta msg =>
      show (applyDelta b msg).suspect = true
      unfold applyDelta
      split
      · rfl
      · rw [suspect_setBook]
        exact h

/-- A delta that cannot be read leaves the mirror suspect until the next snapshot. -/
theorem suspect_of_unreadable {pre post : List Message} {msg : DeltaMsg}
    (hmsg : parseDelta msg = none) (hpost : ∀ m ∈ post, m.isSnapshot = false) :
    (mirror (pre ++ .delta msg :: post)).suspect = true := by
  rw [mirror, List.foldl_append, List.foldl_cons]
  apply suspect_foldl hpost
  show (applyDelta _ msg).suspect = true
  unfold applyDelta
  rw [hmsg]

/-! ### The top of the book -/

/-- The fold over levels of one book ends in the first of them or in a level no lower than any. -/
theorem better_spec (levels : List (ℚ × ℚ)) (best : Option Level) :
    (∀ l ∈ levels.foldl better best, (l.price, l.size) ∈ levels ∨ best = some l) ∧
      (∀ l ∈ levels, ∃ l' ∈ levels.foldl better best, l.1 ≤ l'.price) ∧
        ∀ l ∈ best, ∃ l' ∈ levels.foldl better best, l.price ≤ l'.price := by
  induction levels generalizing best with
  | nil => exact ⟨fun l hl => Or.inr hl, by simp, fun l hl => ⟨l, hl, le_rfl⟩⟩
  | cons l levels ih =>
    obtain ⟨hfrom, hover, hkeep⟩ := ih (better best l)
    have hstep : ∃ l' ∈ better best l, l.1 ≤ l'.price ∧ (l' = ⟨l.1, l.2⟩ ∨ best = some l') ∧
        ∀ x ∈ best, x.price ≤ l'.price := by
      cases best with
      | none => exact ⟨⟨l.1, l.2⟩, rfl, le_rfl, Or.inl rfl, by simp⟩
      | some x =>
        unfold better
        dsimp only
        split_ifs with hlt
        · refine ⟨⟨l.1, l.2⟩, rfl, le_rfl, Or.inl rfl, fun y hy => ?_⟩
          rw [← Option.some.inj hy]
          exact hlt.le
        · refine ⟨x, rfl, not_lt.mp hlt, Or.inr rfl, fun y hy => ?_⟩
          rw [← Option.some.inj hy]
    obtain ⟨l', hl', hle, hor, hbest⟩ := hstep
    obtain ⟨l'', hl'', hle''⟩ := hkeep l' hl'
    refine ⟨fun y hy => ?_, fun y hy => ?_, fun y hy => ⟨l'', hl'', (hbest y hy).trans hle''⟩⟩
    · rcases hfrom y hy with hmem | heq
      · exact Or.inl (List.mem_cons_of_mem _ hmem)
      · rw [heq, Option.mem_some_iff] at hl'
        subst hl'
        rcases hor with rfl | hor
        · exact Or.inl (by simp)
        · exact Or.inr hor
    · rcases List.mem_cons.mp hy with rfl | hy
      · exact ⟨l'', hl'', hle.trans hle''⟩
      · exact hover y hy

/-- The best bid of a book without empty levels is its highest level. -/
theorem bestBid_isBest (h : PositiveSizes b) (side : Side) :
    IsBest (b.book side) (bestBid b side) := by
  have hall : ((b.book side).entries.filter fun l => 0 < l.2) = (b.book side).entries := by
    apply List.filter_eq_self.mpr
    rintro ⟨price, size⟩ hl
    exact decide_eq_true (h side price size (Dict.get?_eq_some.mpr hl))
  obtain ⟨hfrom, hover, -⟩ := better_spec (b.book side).entries none
  unfold bestBid
  rw [hall]
  cases hbest : (b.book side).entries.foldl better none with
  | none =>
    intro price
    cases hget : (b.book side).get? price with
    | none => rfl
    | some size =>
      obtain ⟨l', hl', -⟩ := hover _ (Dict.get?_eq_some.mp hget)
      rw [hbest] at hl'
      cases hl'
  | some l =>
    rw [hbest] at hfrom hover
    constructor
    · rcases hfrom l rfl with hmem | hnone
      · exact Dict.get?_eq_some.mpr hmem
      · cases hnone
    · intro price size hget
      obtain ⟨l', hl', hle⟩ := hover _ (Dict.get?_eq_some.mp hget)
      rw [Option.some.inj hl']
      exact hle

/-- The top of a book with positive sizes is its true top. -/
theorem topOfBook_true (h : PositiveSizes b) : TopIsTrue b := by
  refine ⟨bestBid b .yes, bestBid b .no, bestBid_isBest h .yes, bestBid_isBest h .no, ?_⟩
  simp only [topOfBook, bestYesAsk, bestNoAsk, derivedAsk, Option.map_map]
  rfl

end Mirror

/-- After any messages: a trusted book holds the last snapshot with the deltas since, the sizes
are positive, the top is the true one, a delta that cannot be read leaves the book suspect until
the next snapshot, and every snapshot clears it. -/
theorem mirror_invariant (msgs : List Message) :
    ((mirror msgs).suspect = false → HoldsSnapshot msgs (mirror msgs)) ∧
      PositiveSizes (mirror msgs) ∧ TopIsTrue (mirror msgs) ∧
      (∀ pre msg post, msgs = pre ++ .delta msg :: post → parseDelta msg = none →
        (∀ m ∈ post, m.isSnapshot = false) → (mirror msgs).suspect = true) ∧
      ∀ pre msg, msgs = pre ++ [.snapshot msg] → (mirror msgs).suspect = false := by
  refine ⟨mirror_holdsSnapshot, mirror_positive msgs, topOfBook_true (mirror_positive msgs), ?_, ?_⟩
  · rintro pre msg post rfl hmsg hpost
    exact suspect_of_unreadable hmsg hpost
  · rintro pre msg rfl
    rw [mirror_snoc]
    rfl

/-- A snapshot whose every level can be read. -/
def SnapshotMsg.Complete (msg : SnapshotMsg) : Prop :=
  ∀ side, ∀ pair ∈ ((msg.levels side).iterate).getD [], (parsePair pair).isSome

/-- The message has a part that cannot be read. -/
def Unreadable : Message → Prop
  | .snapshot msg => ¬msg.Complete
  | .delta msg => parseDelta msg = none
  | .suspect => False

/-- The message is a snapshot whose every level can be read. -/
def CompleteSnapshot : Message → Prop
  | .snapshot msg => msg.Complete
  | _ => False

/-- A snapshot with one level and one pair that is no level. -/
def partlyRead : SnapshotMsg :=
  ⟨.array [.array [.text "0.44", .text "100"], .array [.text "bad"]], .array []⟩

/-- The partly read snapshot is trusted. -/
theorem snapshot_with_unreadable_level :
    ¬∀ msgs, ((mirror msgs).suspect = false → HoldsSnapshot msgs (mirror msgs)) ∧
      PositiveSizes (mirror msgs) ∧ TopIsTrue (mirror msgs) ∧
      ∀ pre m post, msgs = pre ++ m :: post → Unreadable m →
        (∀ m' ∈ post, ¬CompleteSnapshot m') → (mirror msgs).suspect = true := by
  intro h
  have hincomplete : Unreadable (.snapshot partlyRead) := by
    intro hcomplete
    have hpair := hcomplete .yes (.array [.text "bad"]) (by
      simp [partlyRead, SnapshotMsg.levels, Json.iterate])
    simp [parsePair, Json.iterate] at hpair
  have hsuspect := (h [.snapshot partlyRead]).2.2.2 [] _ [] rfl hincomplete (by simp)
  exact absurd hsuspect (by decide)

end Pilot.V1
