import Mathlib.Data.List.Basic

/-!
# Runs

Runs of a step relation whose steps emit outputs, with an observer that reads the
outputs one after the other, and runs of a machine that is fed inputs.
-/

namespace Pilot

section Observer

variable {α γ : Type*} (f : γ → α → γ) (P : γ → α → Prop)

/-- Every output meets `P` at the observer's state before it. -/
def AllAlong : γ → List α → Prop
  | _, [] => True
  | g, a :: as => P g a ∧ AllAlong (f g a) as

variable {f P}

@[simp] theorem allAlong_nil (g : γ) : AllAlong f P g [] := trivial

@[simp] theorem allAlong_cons {g : γ} {a : α} {as : List α} :
    AllAlong f P g (a :: as) ↔ P g a ∧ AllAlong f P (f g a) as := Iff.rfl

@[simp] theorem allAlong_append {g : γ} {as bs : List α} :
    AllAlong f P g (as ++ bs) ↔ AllAlong f P g as ∧ AllAlong f P (as.foldl f g) bs := by
  induction as generalizing g with
  | nil => simp
  | cons a as ih => simp [ih, and_assoc]

/-- A property of the outputs alone holds along every observation. -/
theorem allAlong_of_forall {g : γ} {as : List α} (h : ∀ a ∈ as, ∀ g, P g a) :
    AllAlong f P g as := by
  induction as generalizing g with
  | nil => trivial
  | cons a as ih => exact ⟨h a (by simp) g, ih fun b hb => h b (by simp [hb])⟩

/-- Where an invariant gives a condition and is kept, the condition holds all along. -/
theorem allAlong_of_invariant {I : γ → Prop} (hstep : ∀ g a, I g → P g a ∧ I (f g a)) {g : γ}
    {as : List α} (h : I g) : AllAlong f P g as := by
  induction as generalizing g with
  | nil => trivial
  | cons a as ih =>
    obtain ⟨hP, hI⟩ := hstep g a h
    exact ⟨hP, ih hI⟩

theorem AllAlong.imp {Q : γ → α → Prop} {g : γ} {as : List α} (h : AllAlong f P g as)
    (hPQ : ∀ g, ∀ a ∈ as, P g a → Q g a) : AllAlong f Q g as := by
  induction as generalizing g with
  | nil => trivial
  | cons a as ih => exact ⟨hPQ g a (by simp) h.1, ih h.2 fun g b hb => hPQ g b (by simp [hb])⟩

/-- A property that does not look at the observer holds of every output. -/
theorem forall_of_allAlong {Q : α → Prop} {g : γ} {as : List α}
    (h : AllAlong f (fun _ a => Q a) g as) : ∀ a ∈ as, Q a := by
  induction as generalizing g with
  | nil => simp
  | cons a as ih =>
    intro b hb
    rcases List.mem_cons.mp hb with rfl | hb
    · exact h.1
    · exact ih h.2 b hb

/-- Outputs the observer ignores leave its state alone. -/
theorem foldl_ignored {g : γ} {as : List α} (h : ∀ a ∈ as, ∀ g, f g a = g) :
    as.foldl f g = g := by
  induction as generalizing g with
  | nil => rfl
  | cons a as ih =>
    rw [List.foldl_cons, h a (by simp)]
    exact ih fun b hb => h b (by simp [hb])

/-- Under what the observer keeps, two properties that agree hold along the same outputs. -/
theorem allAlong_congr {I : γ → Prop} {Q : γ → α → Prop} (hstep : ∀ g a, I g → I (f g a))
    (hPQ : ∀ g a, I g → (P g a ↔ Q g a)) {g : γ} {as : List α} (hI : I g) :
    AllAlong f P g as ↔ AllAlong f Q g as := by
  induction as generalizing g with
  | nil => exact Iff.rfl
  | cons a as ih => exact and_congr (hPQ g a hI) (ih (hstep g a hI))

/-- What no output takes away, once it holds, holds after every later output. -/
theorem allAlong_persists {I : γ → Prop} {g : γ} {as : List α} :
    AllAlong f (fun g a => I g → I (f g a)) g as ↔
      ∀ pre mid post, as = pre ++ mid ++ post → I (pre.foldl f g) →
        I (mid.foldl f (pre.foldl f g)) := by
  constructor
  · intro h pre mid post has
    rw [has, allAlong_append, allAlong_append] at h
    have hmid := h.1.2
    generalize pre.foldl f g = g at hmid
    clear has h
    induction mid generalizing g with
    | nil => exact id
    | cons a mid ih => exact fun hI => ih (f g a) hmid.2 (hmid.1 hI)
  · intro h
    induction as generalizing g with
    | nil => trivial
    | cons a as ih =>
      refine ⟨h [] [a] as rfl, ih fun pre mid post has => ?_⟩
      exact h (a :: pre) mid post (by rw [has]; rfl)

instance AllAlong.decidable [∀ g a, Decidable (P g a)] :
    ∀ (g : γ) (as : List α), Decidable (AllAlong f P g as)
  | _, [] => .isTrue trivial
  | g, a :: as =>
    have := AllAlong.decidable (f g a) as
    inferInstanceAs (Decidable (P g a ∧ AllAlong f P (f g a) as))

end Observer

section Steps

variable {σ α γ : Type*}

/-- A run of the step relation `R`, with the outputs of its steps in order. -/
inductive Run (R : σ → List α → σ → Prop) : σ → List α → σ → Prop
  | refl (s : σ) : Run R s [] s
  | step {s t u : σ} {a b : List α} : R s a t → Run R t b u → Run R s (a ++ b) u

variable {R R' : σ → List α → σ → Prop} {s t u : σ} {a b : List α}

/-- One step is a run. -/
theorem Run.single (h : R s a t) : Run R s a t := by
  simpa using Run.step h (Run.refl t)

/-- Runs compose. -/
theorem Run.trans (h : Run R s a t) (k : Run R t b u) : Run R s (a ++ b) u := by
  induction h with
  | refl => exact k
  | step hs _ ih => rw [List.append_assoc]; exact Run.step hs (ih k)

/-- A run of fewer steps is a run of more. -/
theorem Run.mono (hR : ∀ s a t, R s a t → R' s a t) (h : Run R s a t) : Run R' s a t := by
  induction h with
  | refl s => exact Run.refl s
  | step hs _ ih => exact Run.step (hR _ _ _ hs) ih

/-- What every step preserves, every run preserves. -/
theorem Run.preserves {I : σ → Prop} (hstep : ∀ s a t, R s a t → I s → I t)
    (h : Run R s a t) (hI : I s) : I t := by
  induction h with
  | refl => exact hI
  | step hs _ ih => exact ih (hstep _ _ _ hs hI)

/-- What holds of the outputs of every step holds of the outputs of a run. -/
theorem Run.outputs {I : σ → Prop} {P : α → Prop}
    (hstep : ∀ s a t, R s a t → I s → I t ∧ ∀ x ∈ a, P x) (h : Run R s a t) (hI : I s) :
    I t ∧ ∀ x ∈ a, P x := by
  induction h with
  | refl => exact ⟨hI, by simp⟩
  | step hs _ ih =>
    obtain ⟨hI', hP⟩ := hstep _ _ _ hs hI
    obtain ⟨hI'', hP'⟩ := ih hI'
    exact ⟨hI'', fun x hx => (List.mem_append.mp hx).elim (hP x) (hP' x)⟩

/-- Every output of a run is an output of one of its steps. -/
theorem Run.exists_step (h : Run R s a t) {x : α} (hx : x ∈ a) :
    ∃ pre u b v post, Run R s pre u ∧ R u b v ∧ Run R v post t ∧ x ∈ b ∧
      a = pre ++ b ++ post := by
  induction h with
  | refl => simp at hx
  | step hs hrun ih =>
    rcases List.mem_append.mp hx with hx | hx
    · exact ⟨[], _, _, _, _, Run.refl _, hs, hrun, hx, by simp⟩
    · obtain ⟨pre, u, b, v, post, hpre, hu, hpost, hxb, rfl⟩ := ih hx
      exact ⟨_, u, b, v, post, Run.step hs hpre, hu, hpost, hxb, by simp⟩

/-- A relation between the state and an observer of the outputs, preserved by every step, is
preserved by every run, and so is what it says of each output. -/
theorem Run.observe {I : σ → γ → Prop} {f : γ → α → γ} {P : γ → α → Prop}
    (hstep : ∀ s a t g, R s a t → I s g → AllAlong f P g a ∧ I t (a.foldl f g))
    {g : γ} (h : Run R s a t) (hI : I s g) : AllAlong f P g a ∧ I t (a.foldl f g) := by
  induction h generalizing g with
  | refl => exact ⟨trivial, hI⟩
  | step hs _ ih =>
    obtain ⟨hP, hI'⟩ := hstep _ _ _ _ hs hI
    obtain ⟨hP', hI''⟩ := ih hI'
    exact ⟨allAlong_append.mpr ⟨hP, hP'⟩, by rw [List.foldl_append]; exact hI''⟩

end Steps

section Inputs

variable {σ ι : Type*}

/-- A machine that steps by `next` is fed inputs, each admissible in the state it meets. -/
inductive Fed (next : σ → ι → σ) (ok : σ → ι → Prop) : σ → List ι → σ → Prop
  | nil (s : σ) : Fed next ok s [] s
  | cons {s t : σ} {i : ι} {is : List ι} :
    ok s i → Fed next ok (next s i) is t → Fed next ok s (i :: is) t

variable {next : σ → ι → σ} {ok ok' : σ → ι → Prop} {s t : σ} {is : List ι}

/-- What every admissible input preserves, every run preserves. -/
theorem Fed.preserves {I : σ → Prop} (hstep : ∀ s i, I s → ok s i → I (next s i))
    (h : Fed next ok s is t) (hI : I s) : I t := by
  induction h with
  | nil => exact hI
  | cons hok _ ih => exact ih (hstep _ _ hI hok)

/-- A list of inputs, each admissible in the state it meets, is a run. -/
theorem fed_of_allAlong (h : AllAlong next ok s is) : Fed next ok s is (is.foldl next s) := by
  induction is generalizing s with
  | nil => exact Fed.nil s
  | cons i is ih => exact Fed.cons h.1 (ih h.2)

/-- A machine whose every step ends it or decreases a measure ends within more inputs than the
measure counts. -/
theorem foldl_ends {I Done : σ → Prop} {m : σ → ℕ}
    (hstep : ∀ s i, I s → ok s i → Done (next s i) ∨ I (next s i) ∧ m (next s i) < m s)
    (hdone : ∀ s i, Done s → Done (next s i)) (hI : I s) (hm : m s < is.length)
    (h : AllAlong next ok s is) : Done (is.foldl next s) := by
  have hkeep (is : List ι) (s : σ) (hs : Done s) : Done (is.foldl next s) := by
    induction is generalizing s with
    | nil => exact hs
    | cons i is ih => exact ih (next s i) (hdone s i hs)
  induction is generalizing s with
  | nil => cases hm
  | cons i is ih =>
    rcases hstep s i hI h.1 with hend | ⟨hI', hless⟩
    · exact hkeep is _ hend
    · apply ih hI' _ h.2
      rw [List.length_cons] at hm
      omega

end Inputs

end Pilot
