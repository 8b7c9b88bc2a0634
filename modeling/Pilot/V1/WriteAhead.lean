import Mathlib.Data.List.Perm.Subperm
import Pilot.V1.Executor

/-!
# Write-ahead orders

Along every list of calls whose replies can be read, a window gets one entry, every post
follows the record of its intent and is followed by one response for each leg, no response of
the venue goes to two legs, and the tokens of the posts stay within the budget.
-/

namespace Pilot.V1

/-! ### The law -/

/-- The deed posts an entry of a window. -/
def Deed.enters (window : String) : Deed → Bool
  | .post order _ => order.purpose = .entry ∧ order.window = window
  | _ => false

/-- The deed is the record of a response. -/
def Deed.isResponse : Deed → Bool
  | .response _ => true
  | _ => false

/-- The tokens a deed spends in a window. -/
def Deed.tokens (config : ExecutorConfig) (window : String) : Deed → ℕ
  | .post order _ => if order.window = window then tokensOf config order else 0
  | _ => 0

/-- The tokens the posts of a window spend. -/
def spent (config : ExecutorConfig) (window : String) (deeds : List Deed) : ℕ :=
  (deeds.map (Deed.tokens config window)).sum

/-- The responses in the body of a reply. -/
def bodyResponses (intent : Intent) (body : Json) : List OrderResponse :=
  match intent.legs with
  | [_] => (parseEntryResponse (singleSlot body)).toList
  | _ => (parseBatchResponse body).getD []

/-- The responses the venue sent to a post. -/
def venueResponses (intent : Intent) : PostOutcome → List OrderResponse
  | .reply _ (some body) => bodyResponses intent body
  | _ => []

/-- Responses of legs, each made without a slot or taken from a slot of its own. -/
inductive Assigned : List IntentLeg → List OrderResponse → List OrderResponse → Prop
  | nil : Assigned [] [] []
  | made {legs used rs} (leg : IntentLeg) (error : OrderError) : Assigned legs used rs →
      Assigned (leg :: legs) used (noFillResponse (.text leg.clientOrderId) error :: rs)
  | taken {legs used rs} (leg : IntentLeg) (slot : OrderResponse) (cid : Json) :
      Assigned legs used rs → Assigned (leg :: legs) (slot :: used)
        (normalizeFillToSide { slot with clientOrderId := cid } leg.side :: rs)

/-- One response for each leg, and no response of the venue for two of them. -/
def Answered (intent : Intent) (outcome : PostOutcome) (rs : List OrderResponse) : Prop :=
  ∃ used, Assigned intent.legs used rs ∧ used.Subperm (venueResponses intent outcome)

/-- Every post comes right after the record of its intent and right before its responses. -/
def WriteAhead (deeds : List Deed) : Prop :=
  ∀ pre intent outcome post, deeds = pre ++ .post intent outcome :: post →
    pre.getLast? = some (.intent intent) ∧
      ∃ rs rest, post = rs.map .response ++ rest ∧ Answered intent outcome rs ∧
        ∀ d ∈ rest.head?, d.isResponse = false

/-- What is asked of the deeds of an executor. -/
structure Lawful (x : Executor) : Prop where
  entryOnce : ∀ window, x.deeds.countP (Deed.enters window) ≤ 1
  writeAhead : WriteAhead x.deeds
  withinBudget : ∀ window, spent x.config window x.deeds ≤ x.config.windowTokenBudget

/-! ### Replies that can be read -/

/-- The time of a slot is finite. -/
def TimeReadable (slot : Json) : Prop := slot.field "ts_ms" ≠ .infinity

/-- The client order id of a slot can be a key. -/
def NameReadable (slot : Json) : Prop :=
  (slot.field "client_order_id").truthy = false ∨ (slot.field "client_order_id").hashable = true

/-- The body of a reply can be read for the legs of an order. -/
def BodyReadable (intent : Intent) (body : Json) : Prop :=
  match intent.legs with
  | [_] => TimeReadable (singleSlot body)
  | _ =>
    match batchSlots body with
    | .inl slots => ∀ slot ∈ slots, TimeReadable slot ∧ NameReadable slot
    | .inr _ => True

/-- The outcome of a post is no reply, a reply that failed, or one whose body can be read. -/
def OutcomeReadable (intent : Intent) : PostOutcome → Prop
  | .raised _ => True
  | .reply status body => Failed status ∨ ∃ b, body = some b ∧ BodyReadable intent b

/-- The reply of a call can be read. -/
def Call.Readable : Call → Prop
  | .execute intent _ _ outcome => OutcomeReadable intent outcome
  | .setArmed _ => True

/-! ### Reading -/

/-- Every value but the infinite one has an integer. -/
theorem toInt_isSome {v : Json} (h : v ≠ .infinity) : (toInt v).isSome := by
  cases v with
  | infinity => exact absurd rfl h
  | _ => rfl

/-- A slot with a readable time is parsed. -/
theorem parseEntryResponse_isSome {slot : Json} (h : TimeReadable slot) :
    ∃ r, parseEntryResponse slot = some r := by
  cases slot with
  | object fields =>
    obtain ⟨tsMs, hts⟩ := Option.isSome_iff_exists.mp (toInt_isSome h)
    unfold parseEntryResponse
    dsimp only
    rw [hts]
    exact ⟨_, rfl⟩
  | _ => exact ⟨_, rfl⟩

/-- A response carries the client order id of its slot. -/
theorem clientOrderId_of_parse {slot : Json} {r : OrderResponse}
    (h : parseEntryResponse slot = some r) : r.clientOrderId = slot.field "client_order_id" := by
  cases slot with
  | object fields =>
    obtain ⟨tsMs, -, rfl⟩ := Option.map_eq_some_iff.mp h
    rfl
  | _ =>
    cases h
    rfl

/-- A partial map that is defined on every item is defined on the list. -/
theorem exists_mapM {α β : Type*} {f : α → Option β} {l : List α}
    (h : ∀ a ∈ l, ∃ b, f a = some b) : ∃ bs, l.mapM f = some bs := by
  induction l with
  | nil => exact ⟨[], rfl⟩
  | cons a l ih =>
    obtain ⟨b, hb⟩ := h a (by simp)
    obtain ⟨bs, hbs⟩ := ih fun a' ha' => h a' (by simp [ha'])
    exact ⟨b :: bs, by simp [hb, hbs]⟩

/-- The values of a partial map are those of items. -/
theorem mem_of_mapM {α β : Type*} {f : α → Option β} {l : List α} {bs : List β}
    (h : l.mapM f = some bs) {b : β} (hb : b ∈ bs) : ∃ a ∈ l, f a = some b := by
  induction l generalizing bs with
  | nil =>
    cases h
    cases hb
  | cons a l ih =>
    simp only [List.mapM_cons, Option.bind_eq_bind, Option.pure_def, Option.bind_eq_some_iff,
      Option.some.injEq] at h
    obtain ⟨b', hb', bs', hbs', rfl⟩ := h
    rcases List.mem_cons.mp hb with rfl | hb
    · exact ⟨a, by simp, hb'⟩
    · obtain ⟨a', ha', hfa'⟩ := ih hbs' hb
      exact ⟨a', by simp [ha'], hfa'⟩

/-! ### Matching responses to legs -/

section Matching

/-- Removing a key removes its value. -/
theorem perm_values_pop {κ ν : Type*} [DecidableEq κ] {d : Dict κ ν} {k : κ} {v : ν}
    (h : d.get? k = some v) : d.values.Perm (v :: (d.pop k).values) := by
  have hperm := (List.filter_append_perm (fun e : κ × ν => e.1 = k) d.entries).symm
  have hone : d.entries.filter (fun e => e.1 = k) = [(k, v)] := by
    have hmem := Dict.get?_eq_some.mp h
    have hnodup := d.nodup_keys
    generalize d.entries = l at hmem hnodup
    induction l with
    | nil => cases hmem
    | cons e l ih =>
      obtain ⟨hnot, hrest⟩ := List.nodup_cons.mp hnodup
      rcases List.mem_cons.mp hmem with rfl | hmem
      · rw [List.filter_cons_of_pos (by simp)]
        congr 1
        apply List.filter_eq_nil_iff.mpr
        intro e' he' heq
        exact hnot (List.mem_map.mpr ⟨e', he', of_decide_eq_true heq⟩)
      · have hne : e.1 ≠ k := fun heq => hnot (List.mem_map.mpr ⟨(k, v), hmem, heq.symm⟩)
        rw [List.filter_cons_of_neg (by simpa using hne)]
        exact ih hmem hrest
  rw [hone] at hperm
  have hvalues := hperm.map Prod.snd
  simpa [Dict.values, Dict.pop] using hvalues

/-- A write adds one value at most. -/
theorem subperm_values_set {κ ν : Type*} [DecidableEq κ] (d : Dict κ ν) (k : κ) (v : ν) :
    (d.set k v).values.Subperm (v :: d.values) := by
  unfold Dict.values Dict.set
  dsimp only
  induction d.entries with
  | nil => exact List.Subperm.refl _
  | cons e l ih =>
    obtain ⟨k', v'⟩ := e
    unfold assocSet
    split_ifs
    · simp only [List.map_cons]
      exact (List.subperm_cons v).mpr (List.sublist_cons_self v' _).subperm
    · simp only [List.map_cons]
      exact ((List.subperm_cons v').mpr ih).trans (List.Perm.swap v v' _).subperm

/-- A dictionary holds values of its list. -/
theorem subperm_values_ofList {κ ν : Type*} [DecidableEq κ] (l : List (κ × ν)) :
    (Dict.ofList l).values.Subperm (l.map Prod.snd) := by
  have hgen (d : Dict κ ν) :
      (l.foldl (fun d e => d.set e.1 e.2) d).values.Subperm (d.values ++ l.map Prod.snd) := by
    induction l generalizing d with
    | nil => simpa using List.Subperm.refl d.values
    | cons e l ih =>
      rw [List.foldl_cons]
      refine (ih (d.set e.1 e.2)).trans ?_
      have hset := (subperm_values_set d e.1 e.2).append (List.Subperm.refl (l.map Prod.snd))
      exact hset.trans (List.perm_middle.symm.subperm)
  have hempty := hgen Dict.empty
  rw [Dict.values_empty, List.nil_append] at hempty
  exact hempty

/-- Two disjoint parts of a list are within it. -/
theorem subperm_filter_append {α : Type*} (p q : α → Bool) (l : List α)
    (hpq : ∀ a, p a = true → q a = false) : (l.filter p ++ l.filter q).Subperm l := by
  have hsub : (l.filter q).Sublist (l.filter fun a => !p a) := by
    apply List.monotone_filter_right
    intro a ha
    cases hp : p a with
    | false => rfl
    | true => rw [hpq a hp] at ha; cases ha
  exact ((List.Subperm.refl _).append hsub.subperm).trans
    (List.filter_append_perm p l).subperm

/-- The responses under an id and those left over are within the parsed ones. -/
theorem byCid_append_leftover (parsed : List OrderResponse) :
    ((byCid parsed).values ++ leftover parsed).Subperm parsed := by
  have hnamed : ((parsed.filterMap fun r => r.clientOrderId.name?.map fun cid => (cid, r)).map
      Prod.snd) = parsed.filter fun r => r.clientOrderId.name?.isSome := by
    induction parsed with
    | nil => rfl
    | cons r parsed ih =>
      cases hr : r.clientOrderId.name? with
      | none => simp [hr, ih]
      | some cid => simp [hr, ih]
  have hvalues := subperm_values_ofList
    (parsed.filterMap fun r => r.clientOrderId.name?.map fun cid => (cid, r))
  rw [hnamed] at hvalues
  refine (hvalues.append (List.Subperm.refl (leftover parsed))).trans ?_
  apply subperm_filter_append
  intro r hr
  cases hcid : r.clientOrderId with
  | text s =>
    rw [hcid] at hr
    simp only [Json.name?, Json.text?, Option.filter_some] at hr
    split_ifs at hr with hs
    · simpa [Json.truthy] using hs
    · cases hr
  | _ =>
    rw [hcid] at hr
    cases hr

/-- Every leg gets a response, from a slot of its own or from none. -/
theorem assigned_alignLegs (legs : List IntentLeg) (named : Dict String OrderResponse)
    (rest : List OrderResponse) :
    ∃ used, Assigned legs used (alignLegs legs named rest) ∧
        used.Subperm (named.values ++ rest) := by
  induction legs generalizing named rest with
  | nil => exact ⟨[], .nil, List.nil_subperm⟩
  | cons leg legs ih =>
    unfold alignLegs
    cases hget : named.get? leg.clientOrderId with
    | some matched =>
      obtain ⟨used, hassigned, hsub⟩ := ih (named.pop leg.clientOrderId) rest
      refine ⟨matched :: used, .taken leg matched matched.clientOrderId hassigned, ?_⟩
      exact ((List.subperm_cons matched).mpr hsub).trans
        ((perm_values_pop hget).symm.append_right rest).subperm
    | none =>
      cases rest with
      | cons r rest =>
        obtain ⟨used, hassigned, hsub⟩ := ih named rest
        refine ⟨r :: used, .taken leg r (.text leg.clientOrderId) hassigned, ?_⟩
        exact ((List.subperm_cons r).mpr hsub).trans List.perm_middle.symm.subperm
      | nil =>
        obtain ⟨used, hassigned, hsub⟩ := ih named []
        exact ⟨used, .made leg _ hassigned, hsub⟩

/-- Answers of no fill are assigned to their legs. -/
theorem assigned_noFills (legs : List IntentLeg) (error : OrderError) :
    Assigned legs [] (legs.map fun leg => noFillResponse (.text leg.clientOrderId) error) := by
  induction legs with
  | nil => exact .nil
  | cons leg legs ih => exact .made leg error ih

end Matching

/-! ### Answers -/

section Answers

variable {intent : Intent} {outcome : PostOutcome}

/-- Answers of no fill answer every leg. -/
theorem answered_noFills (intent : Intent) (outcome : PostOutcome) (error : OrderError) :
    Answered intent outcome (noFills intent error) :=
  ⟨[], assigned_noFills intent.legs error, List.nil_subperm⟩

/-- A body that is not for one leg is read as a batch. -/
theorem readBody_of_batch {body : Json} (h : ∀ leg, intent.legs ≠ [leg]) :
    readBody intent body = (parseBatchResponse body).bind (alignBatch intent.legs) := by
  unfold readBody
  split
  · next leg hone => exact absurd hone (h leg)
  · rfl

/-- A body that can be read gives one response for each leg, from its own slots. -/
theorem readBody_answered {body : Json} (h : BodyReadable intent body) (status : Option ℤ) :
    ∃ rs, readBody intent body = some rs ∧ Answered intent (.reply status (some body)) rs := by
  unfold BodyReadable at h
  unfold Answered venueResponses bodyResponses
  split at h
  next leg hlegs =>
    -- one leg: the reply is that of the order
    obtain ⟨r, hr⟩ := parseEntryResponse_isSome h
    unfold readBody
    rw [hlegs]
    dsimp only
    unfold parseSingleResponse
    rw [hr]
    exact ⟨[normalizeFillToSide r leg.side], rfl, [r], .taken leg r r.clientOrderId .nil,
      List.Subperm.refl _⟩
  next hlegs =>
    obtain ⟨parsed, hparsed, hnames⟩ : ∃ parsed, parseBatchResponse body = some parsed ∧
        ∀ r ∈ parsed, r.clientOrderId.truthy = false ∨ r.clientOrderId.hashable = true := by
      unfold parseBatchResponse
      cases hslots : batchSlots body with
      | inl slots =>
        rw [hslots] at h
        obtain ⟨parsed, hparsed⟩ := exists_mapM fun slot hslot =>
          parseEntryResponse_isSome (h slot hslot).1
        refine ⟨parsed, hparsed, fun r hr => ?_⟩
        obtain ⟨slot, hslot, hparse⟩ := mem_of_mapM hparsed hr
        rw [clientOrderId_of_parse hparse]
        exact (h slot hslot).2
      | inr error =>
        refine ⟨_, rfl, fun r hr => ?_⟩
        rw [List.mem_singleton.mp hr]
        exact Or.inl rfl
    obtain ⟨used, hassigned, hsub⟩ :=
      assigned_alignLegs intent.legs (byCid parsed) (leftover parsed)
    have halign : alignBatch intent.legs parsed =
        some (alignLegs intent.legs (byCid parsed) (leftover parsed)) := by
      unfold alignBatch
      rw [if_pos]
      rw [List.all_eq_true]
      intro r hr
      rcases hnames r hr with hfalse | hkey
      · rw [hfalse]
        rfl
      · rw [hkey, Bool.or_true]
    refine ⟨_, ?_, used, hassigned, ?_⟩
    · rw [readBody_of_batch hlegs, hparsed, Option.bind_some, halign]
    · dsimp only
      rw [hparsed]
      exact hsub.trans (byCid_append_leftover parsed)

/-- An outcome that can be read answers every leg. -/
theorem responsesOf_answered (h : OutcomeReadable intent outcome) :
    ∃ rs, responsesOf intent outcome = some rs ∧ Answered intent outcome rs := by
  cases outcome with
  | raised name => exact ⟨_, rfl, answered_noFills intent _ _⟩
  | reply status body =>
    unfold responsesOf readReply
    rcases h with ⟨code, rfl, hcode⟩ | ⟨b, rfl, hbody⟩
    · dsimp only
      rcases hcode with hcode | hcode
      · rw [if_pos hcode]
        exact ⟨_, rfl, answered_noFills intent _ _⟩
      · rw [if_pos hcode]
        split_ifs
        · exact ⟨_, rfl, answered_noFills intent _ _⟩
        · exact ⟨_, rfl, answered_noFills intent _ _⟩
    · obtain ⟨rs, hrs, hanswered⟩ := readBody_answered hbody status
      cases status with
      | none => exact ⟨rs, hrs, hanswered⟩
      | some code =>
        dsimp only
        rw [Option.bind_some]
        split_ifs
        · exact ⟨_, rfl, answered_noFills intent _ _⟩
        · exact ⟨_, rfl, answered_noFills intent _ _⟩
        · exact ⟨rs, hrs, hanswered⟩

/-- What a dispatch of a readable outcome does: nothing, or a post with its responses. -/
theorem dispatch_cases (h : OutcomeReadable intent outcome) :
    dispatch intent outcome = ([], none) ∨
      ∃ rs, Answered intent outcome rs ∧ dispatch intent outcome =
        (.post intent outcome :: rs.map .response, some ⟨rs, none, outcome.status⟩) := by
  unfold dispatch
  split_ifs
  · obtain ⟨rs, hrs, hanswered⟩ := responsesOf_answered h
    rw [hrs]
    exact Or.inr ⟨rs, hanswered, rfl⟩
  · exact Or.inl rfl

end Answers

/-! ### The deeds of a call -/

section Deeds

variable {deeds more : List Deed}

/-- Deeds that keep the order go on keeping it when deeds that keep it follow. -/
theorem WriteAhead.append (h : WriteAhead deeds) (hmore : WriteAhead more)
    (hfirst : ∀ d ∈ more.head?, d.isResponse = false) : WriteAhead (deeds ++ more) := by
  intro pre intent outcome post heq
  rcases List.append_eq_append_iff.mp heq with ⟨mid, hpre, hmid⟩ | ⟨mid, hpre, hmid⟩
  · -- the post is one of the later deeds
    obtain ⟨hlast, hpost⟩ := hmore mid intent outcome post hmid
    refine ⟨?_, hpost⟩
    rw [hpre, List.getLast?_append, hlast]
    rfl
  · cases mid with
    | nil =>
      rw [List.nil_append] at hmid
      obtain ⟨hlast, -⟩ := hmore [] intent outcome post hmid.symm
      cases hlast
    | cons d mid =>
      obtain ⟨rfl, rfl⟩ := List.cons.inj hmid
      obtain ⟨hlast, rs, rest, hrs, hanswered, hrest⟩ := h pre intent outcome mid hpre
      have hpost : mid ++ more = rs.map .response ++ (rest ++ more) := by
        rw [hrs, List.append_assoc]
      refine ⟨hlast, rs, rest ++ more, hpost, hanswered, ?_⟩
      intro d hd
      rw [List.head?_append] at hd
      cases hhead : rest.head? with
      | none =>
        rw [hhead] at hd
        exact hfirst d hd
      | some d' =>
        rw [hhead] at hd
        exact hrest d (by rw [hhead]; exact hd)

/-- Where nothing is posted nothing has to be written ahead. -/
theorem writeAhead_of_no_post (h : ∀ intent outcome, .post intent outcome ∉ deeds) :
    WriteAhead deeds := by
  rintro pre intent outcome post rfl
  exact absurd (by simp) (h intent outcome)

/-- An intent is written, then posted, then answered. -/
theorem writeAhead_posted {intent : Intent} {outcome : PostOutcome} {rs : List OrderResponse}
    (h : Answered intent outcome rs) :
    WriteAhead (.intent intent :: .post intent outcome :: rs.map .response) := by
  intro pre intent' outcome' post heq
  cases pre with
  | nil => cases heq
  | cons d pre =>
    obtain ⟨rfl, htail⟩ := List.cons.inj heq
    cases pre with
    | nil =>
      obtain ⟨hpost, rfl⟩ := List.cons.inj htail
      cases hpost
      exact ⟨rfl, rs, [], by simp, h, by simp⟩
    | cons d pre =>
      have hmem : Deed.post intent' outcome' ∈ rs.map Deed.response := by
        rw [(List.cons.inj htail).2]
        simp
      obtain ⟨r, -, hr⟩ := List.mem_map.mp hmem
      cases hr

/-- A refusal posts nothing. -/
theorem no_post_refusalDeeds (intent : Intent) (reason : Refusal) :
    ∀ d ∈ refusalDeeds intent reason, ∀ order outcome, d ≠ .post order outcome := by
  intro d hd order outcome
  unfold refusalDeeds at hd
  rcases List.mem_append.mp hd with hd | hd
  · split at hd
    · rw [List.mem_singleton.mp hd]
      exact Deed.noConfusion
    · cases hd
  · rcases List.mem_cons.mp hd with rfl | hd
    · exact Deed.noConfusion
    · obtain ⟨r, -, rfl⟩ := List.mem_map.mp hd
      exact Deed.noConfusion

/-- A refusal does not begin with a response. -/
theorem head_refusalDeeds (intent : Intent) (reason : Refusal) :
    ∀ d ∈ (refusalDeeds intent reason).head?, d.isResponse = false := by
  intro d hd
  unfold refusalDeeds at hd
  split at hd
  · cases hd
    rfl
  · cases hd
    rfl

/-- Deeds without posts enter nothing and spend nothing. -/
theorem no_post_counts (h : ∀ d ∈ more, ∀ order outcome, d ≠ .post order outcome)
    (config : ExecutorConfig) (window : String) :
    more.countP (Deed.enters window) = 0 ∧ spent config window more = 0 := by
  constructor
  · apply List.countP_eq_zero.mpr
    intro d hd henters
    cases d with
    | post order outcome => exact h _ hd order outcome rfl
    | _ => cases henters
  · apply List.sum_eq_zero
    intro n hn
    obtain ⟨d, hd, rfl⟩ := List.mem_map.mp hn
    cases d with
    | post order outcome => exact absurd rfl (h _ hd order outcome)
    | _ => rfl

/-- A post enters its window once, if it is an entry, and spends its tokens there. -/
theorem posted_counts (intent : Intent) (outcome : PostOutcome) (rs : List OrderResponse)
    (config : ExecutorConfig) (window : String) :
    (Deed.intent intent :: .post intent outcome :: rs.map .response).countP (Deed.enters window) =
        (if intent.purpose = .entry ∧ intent.window = window then 1 else 0) ∧
      spent config window (Deed.intent intent :: .post intent outcome :: rs.map .response) =
        if intent.window = window then tokensOf config intent else 0 := by
  have hquiet : ∀ d ∈ rs.map Deed.response, ∀ order outcome, d ≠ .post order outcome := by
    intro d hd order outcome
    obtain ⟨r, -, rfl⟩ := List.mem_map.mp hd
    exact Deed.noConfusion
  obtain ⟨hcount, hspent⟩ := no_post_counts hquiet config window
  constructor
  · rw [List.countP_cons, List.countP_cons, hcount]
    by_cases henters : intent.purpose = .entry ∧ intent.window = window
    · simp [Deed.enters, henters]
    · simp [Deed.enters, henters]
  · unfold spent at hspent ⊢
    rw [List.map_cons, List.map_cons, List.sum_cons, List.sum_cons, hspent]
    simp [Deed.tokens]

/-- The notional spent in two parts is that of each. -/
theorem spent_append (config : ExecutorConfig) (window : String) (deeds more : List Deed) :
    spent config window (deeds ++ more) = spent config window deeds + spent config window more := by
  unfold spent
  rw [List.map_append, List.sum_append]

end Deeds

/-! ### Runs -/

/-- What the executor keeps: a window with an entry is marked, and the tokens are counted. -/
structure Orderly (x : Executor) : Prop where
  entries : ∀ window,
    x.deeds.countP (Deed.enters window) ≤ if window ∈ x.enteredWindows then 1 else 0
  writeAhead : WriteAhead x.deeds
  spent_le : ∀ window, spent x.config window x.deeds ≤ x.tokensUsed.getD window 0
  used_le : ∀ window, x.tokensUsed.getD window 0 ≤ x.config.windowTokenBudget

/-- A new executor is orderly. -/
theorem orderly_new (config : ExecutorConfig) (armed : Bool) : Orderly (.new config armed) where
  entries := by simp [Executor.new]
  writeAhead := writeAhead_of_no_post (by simp [Executor.new])
  spent_le := by simp [Executor.new, spent]
  used_le := by simp [Executor.new, Dict.getD]

section Steps

variable {x : Executor} {intent : Intent} {outcome : PostOutcome}

/-- A refusal keeps the executor orderly. -/
theorem Orderly.refuse (h : Orderly x) (intent : Intent) (reason : Refusal) :
    Orderly (refuse x intent reason).1 := by
  have hnone := no_post_refusalDeeds intent reason
  have hcounts := no_post_counts hnone x.config
  constructor
  · intro window
    show (x.deeds ++ refusalDeeds intent reason).countP _ ≤ _
    rw [List.countP_append, (hcounts window).1]
    exact h.entries window
  · apply h.writeAhead.append
    · exact writeAhead_of_no_post fun order outcome hmem => hnone _ hmem order outcome rfl
    · exact head_refusalDeeds intent reason
  · intro window
    show spent x.config window (x.deeds ++ refusalDeeds intent reason) ≤ _
    rw [spent_append, (hcounts window).2]
    exact h.spent_le window
  · exact h.used_le

/-- An order that passes the checks fits the budget, and an entry is the first of its window. -/
theorem refusal_none {tMinusS : Option ℚ} {stopAuthorized : Bool}
    (h : refusal x intent tMinusS stopAuthorized = none) :
    x.tokensUsed.getD intent.window 0 + tokensOf x.config intent ≤ x.config.windowTokenBudget ∧
      ¬(intent.purpose = .entry ∧ intent.window ∈ x.enteredWindows) := by
  unfold refusal at h
  simp only [Option.or_eq_none_iff] at h
  obtain ⟨-, -, -, -, hentry, -, hbudget⟩ := h
  constructor
  · by_contra hover
    unfold overBudget at hbudget
    rw [if_pos (not_le.mp hover)] at hbudget
    cases hbudget
  · intro hentered
    unfold alreadyEntered at hentry
    rw [if_pos hentered] at hentry
    cases hentry

/-- An order that passes the checks and whose outcome can be read keeps the order. -/
theorem Orderly.commit (h : Orderly x)
    (hfits : x.tokensUsed.getD intent.window 0 + tokensOf x.config intent ≤
      x.config.windowTokenBudget)
    (hfirst : ¬(intent.purpose = .entry ∧ intent.window ∈ x.enteredWindows))
    (hread : OutcomeReadable intent outcome) : Orderly (commit x intent outcome).1 := by
  have hused (window : String) :
      (x.tokensUsed.set intent.window (x.tokensUsed.getD intent.window 0 +
        tokensOf x.config intent)).getD window 0 =
      x.tokensUsed.getD window 0 +
        if intent.window = window then tokensOf x.config intent else 0 := by
    rw [Dict.getD_set]
    by_cases hwindow : window = intent.window
    · rw [if_pos hwindow, if_pos hwindow.symm, hwindow]
    · rw [if_neg hwindow, if_neg (Ne.symm hwindow), add_zero]
  have hbudget (window : String) :
      x.tokensUsed.getD window 0 +
        (if intent.window = window then tokensOf x.config intent else 0) ≤
        x.config.windowTokenBudget := by
    by_cases hwindow : intent.window = window
    · rw [if_pos hwindow, ← hwindow]
      exact hfits
    · rw [if_neg hwindow, add_zero]
      exact h.used_le window
  unfold V1.commit
  rcases dispatch_cases hread with hnone | ⟨rs, hanswered, hsent⟩
  · -- nothing is posted
    rw [hnone]
    have hquiet : ∀ d ∈ [Deed.intent intent], ∀ order outcome, d ≠ .post order outcome := by
      intro d hd order outcome
      rw [List.mem_singleton.mp hd]
      exact Deed.noConfusion
    have hcounts := no_post_counts hquiet x.config
    constructor
    · intro window
      dsimp only
      rw [List.countP_append, (hcounts window).1]
      exact h.entries window
    · apply h.writeAhead.append
      · exact writeAhead_of_no_post fun order outcome hmem => hquiet _ hmem order outcome rfl
      · simp [Deed.isResponse]
    · intro window
      dsimp only
      rw [spent_append, (hcounts window).2, hused]
      exact (h.spent_le window).trans (Nat.le_add_right _ _)
    · intro window
      dsimp only
      rw [hused]
      exact hbudget window
  · rw [hsent]
    have hcounts := posted_counts intent outcome rs x.config
    constructor
    · intro window
      dsimp only
      rw [List.countP_append, (hcounts window).1]
      have hold := h.entries window
      by_cases henters : intent.purpose = .entry ∧ intent.window = window
      · -- the first entry of the window marks it
        obtain ⟨hpurpose, rfl⟩ := henters
        have hfresh : intent.window ∉ x.enteredWindows := fun hmem => hfirst ⟨hpurpose, hmem⟩
        rw [if_neg hfresh] at hold
        rw [if_pos ⟨hpurpose, rfl⟩, if_pos hpurpose, if_pos (Finset.mem_insert_self _ _)]
        omega
      · rw [if_neg henters, add_zero]
        refine hold.trans ?_
        by_cases hin : window ∈ x.enteredWindows
        · rw [if_pos hin]
          by_cases hpurpose : intent.purpose = .entry
          · rw [if_pos hpurpose, if_pos (Finset.mem_insert_of_mem hin)]
          · rw [if_neg hpurpose, if_pos hin]
        · rw [if_neg hin]
          exact Nat.zero_le _
    · exact h.writeAhead.append (writeAhead_posted hanswered) (by simp [Deed.isResponse])
    · intro window
      dsimp only
      rw [spent_append, hused]
      rw [(hcounts window).2]
      exact Nat.add_le_add_right (h.spent_le window) _
    · intro window
      dsimp only
      rw [hused]
      exact hbudget window

end Steps

/-- Every call whose reply can be read keeps the order. -/
theorem Orderly.call {x : Executor} (h : Orderly x) {c : Call} (hread : c.Readable) :
    Orderly (call x c) := by
  cases c with
  | setArmed armed => exact ⟨h.entries, h.writeAhead, h.spent_le, h.used_le⟩
  | execute intent tMinusS stopAuthorized outcome =>
    unfold V1.call execute
    dsimp only
    cases hcheck : refusal x intent (tMinusS.or intent.tMinusS) stopAuthorized with
    | some reason => exact h.refuse intent reason
    | none =>
      obtain ⟨hfits, hfirst⟩ := refusal_none hcheck
      exact h.commit hfits hfirst hread

/-- An orderly executor is lawful. -/
theorem Orderly.lawful {x : Executor} (h : Orderly x) : Lawful x where
  entryOnce := by
    intro window
    refine (h.entries window).trans ?_
    split_ifs <;> omega
  writeAhead := h.writeAhead
  withinBudget := fun window => (h.spent_le window).trans (h.used_le window)

/-- Along every list of calls whose replies can be read: one entry for a window, every post
between its intent and its responses, no response of the venue for two legs, and the tokens
within the budget. -/
theorem calls_lawful (config : ExecutorConfig) (armed : Bool) (cs : List Call)
    (h : ∀ c ∈ cs, c.Readable) : Lawful (calls config armed cs) := by
  have hkeep (x : Executor) (hx : Orderly x) : Orderly (cs.foldl call x) := by
    induction cs generalizing x with
    | nil => exact hx
    | cons c cs ih => exact ih (fun c' hc' => h c' (by simp [hc'])) _ (hx.call (h c (by simp)))
  exact (hkeep _ (orderly_new config armed)).lawful


/-- An entry on two legs. -/
def entryOrder : Intent where
  window := "2026-08-24T05:00:00Z"
  source := .subDollarFlip
  purpose := .entry
  legs := [⟨"KXBTCD-HI", .no, .buy, 1, 2 / 5, "cid-hi", none, some 0⟩,
    ⟨"KXBTC15M-LO", .yes, .buy, 1, 2 / 5, "cid-lo", none, some 0⟩]

/-- The entry, answered by a body. -/
def entryCall (body : Option Json) : Call :=
  .execute entryOrder (some 300) false (.reply (some 200) body)

/-- An entry answered with one slot, tried again. -/
theorem calls_lawful_sample :
    Lawful (calls {} true [entryCall (some (.object [("orders", .array [.object []])])),
      entryCall (some (.object []))]) := by
  apply calls_lawful
  have hslot : TimeReadable (.object []) ∧ NameReadable (.object []) :=
    ⟨by simp [TimeReadable, Json.field], Or.inl rfl⟩
  intro c hc
  rcases List.mem_pair.mp hc with rfl | rfl
  · refine Or.inr ⟨_, rfl, ?_⟩
    intro slot hslot'
    rw [List.mem_singleton.mp hslot']
    exact hslot
  · exact Or.inr ⟨_, rfl, trivial⟩

/-- An entry whose reply does not parse is posted again. -/
theorem unread_reply_enters_twice :
    ¬∀ config armed cs, Lawful (calls config armed cs) := by
  intro h
  have hlawful := (h {} true [entryCall none, entryCall none]).entryOnce "2026-08-24T05:00:00Z"
  exact absurd hlawful (by decide +kernel)

end Pilot.V1
