import Mathlib.Data.List.Nodup
import Mathlib.Data.List.Perm.Basic
import Mathlib.Tactic.Linarith
import Pilot.Host.JournalFiles

/-!
# No journal is lost

Readers of a directory see exactly the journals that were written, each with what was last written
to it, whatever sweeps ran in between and wherever they failed or died. An undisturbed sweep works
off its share of the backlog and touches nothing it must keep.
-/

namespace Pilot.Host

variable {β : Type}

/-! ### Files of a directory -/

/-- A key of a directory has a file. -/
theorem mem_keys_iff {κ ν : Type*} [DecidableEq κ] {d : Dict κ ν} {k : κ} :
    k ∈ d.keys ↔ (d.get? k).isSome := by
  unfold Dict.keys
  rw [List.mem_map, Option.isSome_iff_exists]
  constructor
  · rintro ⟨⟨k', v⟩, hmem, rfl⟩
    exact ⟨v, Dict.get?_eq_some.mpr hmem⟩
  · rintro ⟨v, hv⟩
    exact ⟨(k, v), Dict.get?_eq_some.mp hv, rfl⟩

/-- A pattern finds the stems that have a file of its kind and show. -/
theorem mem_stemsOf {dir : Directory β} {kind : FileKind} {stem : String} :
    stem ∈ stemsOf dir kind ↔ (dir.get? (stem, kind)).isSome ∧ shown stem = true := by
  unfold stemsOf
  rw [List.mem_insertionSort, List.mem_map, ← mem_keys_iff]
  constructor
  · rintro ⟨⟨s, k⟩, hmem, rfl⟩
    rw [List.mem_filter, decide_eq_true_iff] at hmem
    obtain ⟨hkey, rfl, hshown⟩ := hmem
    exact ⟨hkey, hshown⟩
  · rintro ⟨hkey, hshown⟩
    exact ⟨(stem, kind), List.mem_filter.mpr ⟨hkey, by simp [hshown]⟩, rfl⟩

/-- A directory lists a name once. -/
theorem nodup_stemsOf (dir : Directory β) (kind : FileKind) : (stemsOf dir kind).Nodup := by
  unfold stemsOf
  rw [(List.perm_insertionSort _ _).nodup_iff]
  apply List.Nodup.map_on
  · rintro ⟨s, k⟩ hs ⟨t, j⟩ ht rfl
    rw [List.mem_filter, decide_eq_true_iff] at hs ht
    rw [Prod.mk.injEq]
    exact ⟨rfl, hs.2.1.trans ht.2.1.symm⟩
  · exact dir.nodup_keys.filter _

/-! ### What a sweep leaves -/

/-- What a sweep may do to the files of a stem: compress its raw file, and remove it once the
compressed one exists. -/
structure Touched (z : Gzip β) (stem : String) (dir dir' : Directory β) : Prop where
  other : ∀ t kind, t ≠ stem → dir'.get? (t, kind) = dir.get? (t, kind)
  raw : dir'.get? (stem, .raw) = dir.get? (stem, .raw) ∨
    dir'.get? (stem, .raw) = none ∧ (dir'.get? (stem, .gz)).isSome
  gz : dir'.get? (stem, .gz) = dir.get? (stem, .gz) ∨
    ∃ file zipped, dir.get? (stem, .raw) = some file ∧ dir'.get? (stem, .gz) = some zipped ∧
      zipped.bytes = z.compress file.bytes

section Sweep

variable {z : Gzip β} {cfg : RotationConfig} {now : ℚ} {fate : String → FileFate β} {s : Sweep β}
  {stem : String} {dir dir' : Directory β}

/-- A file that is left alone is touched safely. -/
theorem Touched.refl (z : Gzip β) (stem : String) (dir : Directory β) : Touched z stem dir dir :=
  ⟨fun _ _ _ => rfl, Or.inl rfl, Or.inl rfl⟩

/-- The temporary file is no reader's. -/
theorem touched_of_tmp
    (h : ∀ path : FilePath, path ≠ (stem, .tmp) → dir'.get? path = dir.get? path) :
    Touched z stem dir dir' := by
  constructor
  · intro t kind ht
    apply h
    rw [ne_eq, Prod.mk.injEq]
    exact fun heq => ht heq.1
  · left
    apply h
    simp
  · left
    apply h
    simp

/-- The temporary file may go or stay. -/
theorem touched_cleanUp (tmp : Option β) : Touched z stem dir (cleanUp dir stem now tmp) := by
  apply touched_of_tmp
  intro path hpath
  unfold cleanUp
  cases tmp with
  | none => rw [Dict.get?_pop, if_neg hpath]
  | some half => rw [Dict.get?_set, if_neg hpath]

/-- The files after a rename. -/
theorem get?_renamed (file : JournalFile β) (path : FilePath) :
    (renamed z dir stem now file).get? path =
      if path = (stem, .gz) then some ⟨z.compress file.bytes, now⟩
      else if path = (stem, .tmp) then none else dir.get? path := by
  unfold renamed
  rw [Dict.get?_set, Dict.get?_pop]

/-- A rename adds the compressed file beside the raw one. -/
theorem touched_renamed {file : JournalFile β} (hraw : dir.get? (stem, .raw) = some file) :
    Touched z stem dir (renamed z dir stem now file) := by
  constructor
  · intro t kind ht
    rw [get?_renamed, if_neg (by simp [ht]), if_neg (by simp [ht])]
  · left
    rw [get?_renamed, if_neg (by simp), if_neg (by simp)]
  · right
    exact ⟨file, _, hraw, by rw [get?_renamed, if_pos rfl], rfl⟩

/-- The raw file goes once the compressed one is there. -/
theorem touched_pop {file : JournalFile β} (hraw : dir.get? (stem, .raw) = some file) :
    Touched z stem dir ((renamed z dir stem now file).pop (stem, .raw)) := by
  constructor
  · intro t kind ht
    rw [Dict.get?_pop, if_neg (by simp [ht]), (touched_renamed hraw).other t kind ht]
  · right
    constructor
    · rw [Dict.get?_pop, if_pos rfl]
    · rw [Dict.get?_pop, if_neg (by simp), get?_renamed, if_pos rfl]
      rfl
  · right
    refine ⟨file, ⟨z.compress file.bytes, now⟩, hraw, ?_, rfl⟩
    rw [Dict.get?_pop, if_neg (by simp), get?_renamed, if_pos rfl]

/-- However a compression goes, it touches its own stem. -/
theorem touched_gzip {file : JournalFile β} (hraw : s.dir.get? (stem, .raw) = some file)
    (outcome : GzipOutcome β) :
    Touched z stem s.dir (gzipOneCrashSafe z now s stem file outcome).dir := by
  cases outcome with
  | unread => exact Touched.refl _ _ _
  | failed tmp => exact touched_cleanUp tmp
  | interrupted tmp => exact touched_cleanUp tmp
  | killedCopying half => exact touched_cleanUp (some half)
  | killedCopied => exact touched_cleanUp (some _)
  | unmeasured => exact touched_renamed hraw
  | killedRenamed => exact touched_renamed hraw
  | done rawRemoved =>
    cases rawRemoved with
    | true => exact touched_pop hraw
    | false => exact touched_renamed hraw

/-- The compression of a file touches that file alone, and safely. -/
theorem touched_rotateRaw (fate : FileFate β) :
    Touched z stem s.dir (rotateRaw z cfg now fate s stem).dir := by
  unfold rotateRaw
  dsimp only
  cases hraw : s.dir.get? (stem, .raw) with
  | none => exact Touched.refl _ _ _
  | some file =>
    dsimp only
    split_ifs
    · exact Touched.refl _ _ _
    · exact Touched.refl _ _ _
    · exact Touched.refl _ _ _
    · exact touched_gzip hraw _

/-- So does the turn of a file in a sweep. -/
theorem touched_rotateOne : Touched z stem s.dir (rotateOne z cfg now fate s stem).dir := by
  unfold rotateOne
  dsimp only
  split_ifs with hskip hheld hzipped hremoved
  · exact Touched.refl _ _ _
  · exact Touched.refl _ _ _
  · -- the removal that an earlier sweep could not do
    obtain ⟨zipped, hgz⟩ := Dict.contains_eq_true.mp hzipped
    constructor
    · intro t kind ht
      rw [Dict.get?_pop, if_neg (by simp [ht])]
    · right
      constructor
      · rw [Dict.get?_pop, if_pos rfl]
      · rw [Dict.get?_pop, if_neg (by simp), hgz]
        rfl
    · left
      rw [Dict.get?_pop, if_neg (by simp)]
  · exact Touched.refl _ _ _
  · exact @touched_rotateRaw β z cfg now { s with scanned := s.scanned + 1 } stem (fate stem)

end Sweep

/-! ### What readers see -/

/-- The directory holds the journals of `log`: a raw file is the journal itself, a compressed one
a copy of it, and every journal has one of them. -/
structure Holds (z : Gzip β) (dir : Directory β) (log : Dict String β) : Prop where
  raw : ∀ s file, dir.get? (s, .raw) = some file → log.get? s = some file.bytes
  gz : ∀ s zipped, dir.get? (s, .gz) = some zipped → ∃ b, z.decompress zipped.bytes = some b ∧
    log.get? s = some b
  stored : ∀ s, (log.get? s).isSome → (dir.get? (s, .raw)).isSome ∨ (dir.get? (s, .gz)).isSome

section Readers

variable {z : Gzip β} {dir dir' : Directory β} {log : Dict String β} {stem : String}

/-- A journal touched safely still holds its bytes. -/
theorem Holds.touched (h : Holds z dir log) (ht : Touched z stem dir dir') : Holds z dir' log := by
  constructor
  · intro s file hfile
    by_cases hs : s = stem
    · subst hs
      rcases ht.raw with heq | ⟨hnone, -⟩
      · rw [heq] at hfile
        exact h.raw s file hfile
      · rw [hnone] at hfile
        cases hfile
    · rw [ht.other s .raw hs] at hfile
      exact h.raw s file hfile
  · intro s zipped hzipped
    by_cases hs : s = stem
    · subst hs
      rcases ht.gz with heq | ⟨file, zipped', hraw, hgz, hbytes⟩
      · rw [heq] at hzipped
        exact h.gz s zipped hzipped
      · rw [hgz] at hzipped
        obtain rfl := Option.some.inj hzipped
        exact ⟨file.bytes, by rw [hbytes, z.lossless], h.raw s file hraw⟩
    · rw [ht.other s .gz hs] at hzipped
      exact h.gz s zipped hzipped
  · intro s hs
    by_cases heq : s = stem
    · subst heq
      rcases ht.raw with hraw | ⟨-, hgz⟩
      · rcases h.stored s hs with hstored | hstored
        · exact Or.inl (hraw ▸ hstored)
        · right
          rcases ht.gz with hgz | ⟨file, zipped, -, hgz, -⟩
          · exact hgz ▸ hstored
          · rw [hgz]
            rfl
      · exact Or.inr hgz
    · rw [ht.other s .raw heq, ht.other s .gz heq]
      exact h.stored s hs

/-- Writing a journal that was never compressed. -/
theorem Holds.write (h : Holds z dir log) (hfresh : dir.get? (stem, .gz) = none) (bytes : β)
    (mtime : ℚ) : Holds z (dir.set (stem, .raw) ⟨bytes, mtime⟩) (log.set stem bytes) := by
  constructor
  · intro s file hfile
    rw [Dict.get?_set] at hfile ⊢
    by_cases hs : s = stem
    · rw [if_pos (by rw [hs])] at hfile
      obtain rfl := Option.some.inj hfile
      rw [if_pos hs]
    · rw [if_neg (by simp [hs])] at hfile
      rw [if_neg hs]
      exact h.raw s file hfile
  · intro s zipped hzipped
    rw [Dict.get?_set, if_neg (by simp)] at hzipped
    have hs : s ≠ stem := by
      rintro rfl
      rw [hfresh] at hzipped
      cases hzipped
    rw [Dict.get?_set, if_neg hs]
    exact h.gz s zipped hzipped
  · intro s hs
    rw [Dict.get?_set] at hs
    by_cases heq : s = stem
    · left
      rw [heq, Dict.get?_set_self]
      rfl
    · rw [if_neg heq] at hs
      rw [Dict.get?_set, Dict.get?_set, if_neg (by simp [heq]), if_neg (by simp)]
      exact h.stored s hs

/-- A fold that takes each stem but the summary. -/
theorem get?_foldl_chosen (kind : FileKind) (l : List String) (d : Dict String FileKind)
    (s : String) :
    (l.foldl (fun d t => if t = summaryStem then d else d.set t kind) d).get? s =
      if s ∈ l ∧ s ≠ summaryStem then some kind else d.get? s := by
  induction l generalizing d with
  | nil => simp
  | cons t l ih =>
    rw [List.foldl_cons, ih]
    by_cases ht : t = summaryStem
    · rw [if_pos ht]
      by_cases hs : s = t
      · simp [hs, ht]
      · simp [hs]
    · rw [if_neg ht, Dict.get?_set]
      by_cases hs : s = t
      · subst hs
        simp [ht]
      · simp [hs]

/-- The compressed journals are chosen where no raw one is. -/
theorem get?_foldl_zipped (l : List String) (d : Dict String FileKind)
    (hd : ∀ t k, d.get? t = some k → k = .gz) (s : String) :
    (l.foldl (fun d t => if t = summaryStem ∨ d.contains t then d else d.set t .gz) d).get? s =
      if s ∈ l ∧ s ≠ summaryStem then some .gz else d.get? s := by
  induction l generalizing d with
  | nil => simp
  | cons t l ih =>
    rw [List.foldl_cons]
    by_cases ht : t = summaryStem ∨ d.contains t = true
    · rw [if_pos ht, ih d hd]
      by_cases hs : s = t
      · subst hs
        by_cases hsum : s = summaryStem
        · simp [hsum]
        · obtain ⟨k, hk⟩ := Dict.contains_eq_true.mp (ht.resolve_left hsum)
          rw [hk, hd s k hk]
          simp [hsum]
      · simp [hs]
    · rw [not_or] at ht
      rw [if_neg (not_or.mpr ht), ih]
      · rw [Dict.get?_set]
        by_cases hs : s = t
        · subst hs
          simp [ht.1]
        · simp [hs]
      · intro u k hk
        rw [Dict.get?_set] at hk
        split_ifs at hk
        · exact (Option.some.inj hk).symm
        · exact hd u k hk

/-- The stems of journals: their names show, and the summary is none. -/
def isJournal (stem : String) : Bool := shown stem && decide (stem ≠ summaryStem)

/-- The file a reader opens: the raw one, else the compressed one. -/
theorem get?_chosen (dir : Directory β) (s : String) :
    (chosen dir).get? s =
      if isJournal s = false then none
      else if (dir.get? (s, .raw)).isSome then some .raw
      else if (dir.get? (s, .gz)).isSome then some .gz
      else none := by
  unfold chosen
  dsimp only
  rw [get?_foldl_chosen, get?_foldl_zipped _ _ (by simp)]
  simp only [mem_stemsOf]
  by_cases hs : s = summaryStem
  · simp [isJournal, hs]
  · cases hshown : shown s <;> simp [isJournal, hs, hshown]

/-- The file a reader takes holds the journal. -/
theorem Holds.openChosen (h : Holds z dir log) {s : String} (hs : isJournal s = true)
    (text : Option β) :
    (∃ kind, (chosen dir).get? s = some kind ∧ text = openJournal z dir (s, kind)) ↔
      ∃ b, log.get? s = some b ∧ text = some b := by
  rw [get?_chosen, if_neg (by simp [hs])]
  cases hraw : dir.get? (s, .raw) with
  | some file =>
    have hopen : openJournal z dir (s, .raw) = some file.bytes := by
      simp [openJournal, hraw]
    rw [h.raw s file hraw]
    simp [hopen]
  | none =>
    cases hgz : dir.get? (s, .gz) with
    | some zipped =>
      obtain ⟨b, hzip, hlog⟩ := h.gz s zipped hgz
      have hopen : openJournal z dir (s, .gz) = some b := by
        simp [openJournal, hgz, hzip]
      rw [hlog]
      simp [hopen]
    | none =>
      have hlog : log.get? s = none := by
        by_contra hne
        have hstored := h.stored s (Option.isSome_iff_ne_none.mpr hne)
        rw [hraw, hgz] at hstored
        simp at hstored
      rw [hlog]
      simp

/-- A reader of the directory gets every journal once, with its contents. -/
theorem Holds.readAll (h : Holds z dir log) :
    (readAll z dir).Perm
      ((log.entries.filter fun e => isJournal e.1).map fun e => (e.1, some e.2)) := by
  have hpaths : (journalPaths dir).Perm (chosen dir).entries := List.perm_insertionSort _ _
  have hread : (Host.readAll z dir).Nodup := by
    apply List.Nodup.of_map Prod.fst
    unfold Host.readAll
    rw [List.map_map]
    exact (hpaths.map Prod.fst).nodup_iff.mpr (chosen dir).nodup_keys
  have hlog : ((log.entries.filter fun e => isJournal e.1).map
      fun e => (e.1, some e.2)).Nodup := by
    apply List.Nodup.of_map Prod.fst
    rw [List.map_map]
    exact log.nodup_keys.sublist (List.filter_sublist.map _)
  rw [List.perm_ext_iff_of_nodup hread hlog]
  rintro ⟨s, text⟩
  have hin : (s, text) ∈ Host.readAll z dir ↔
      ∃ kind, (chosen dir).get? s = some kind ∧ text = openJournal z dir (s, kind) := by
    unfold Host.readAll
    rw [List.mem_map]
    constructor
    · rintro ⟨⟨s', kind⟩, hpath, heq⟩
      rw [Prod.mk.injEq] at heq
      obtain ⟨rfl, rfl⟩ := heq
      exact ⟨kind, Dict.get?_eq_some.mpr (hpaths.mem_iff.mp hpath), rfl⟩
    · rintro ⟨kind, hkind, rfl⟩
      exact ⟨(s, kind), hpaths.mem_iff.mpr (Dict.get?_eq_some.mp hkind), rfl⟩
  have hout : (s, text) ∈ ((log.entries.filter fun e => isJournal e.1).map
      fun e => (e.1, some e.2)) ↔
        isJournal s = true ∧ ∃ b, log.get? s = some b ∧ text = some b := by
    rw [List.mem_map]
    constructor
    · rintro ⟨⟨s', b⟩, hmem, heq⟩
      rw [Prod.mk.injEq] at heq
      obtain ⟨rfl, rfl⟩ := heq
      rw [List.mem_filter] at hmem
      exact ⟨hmem.2, b, Dict.get?_eq_some.mpr hmem.1, rfl⟩
    · rintro ⟨hs, b, hb, rfl⟩
      exact ⟨(s, b), List.mem_filter.mpr ⟨Dict.get?_eq_some.mp hb, hs⟩, rfl⟩
  rw [hin, hout]
  cases hs : isJournal s with
  | false =>
    rw [get?_chosen, if_pos hs]
    simp
  | true =>
    rw [h.openChosen hs text]
    simp

end Readers

/-! ### Runs -/

/-- What happens to the directory: a window writes its journal, or a supervisor sweeps. -/
inductive HostStep (β : Type) where
  | write (stem : String) (bytes : β) (mtime : ℚ)
  | rotate (cfg : RotationConfig) (now : ℚ) (fate : String → FileFate β)

/-- The directory after a write or a sweep. -/
def HostStep.apply (z : Gzip β) (dir : Directory β) : HostStep β → Directory β
  | .write stem bytes mtime => dir.set (stem, .raw) ⟨bytes, mtime⟩
  | .rotate cfg now fate => (rotateClosedJournals z cfg now fate dir).dir

/-- A window writes only a journal that was never compressed. -/
def HostStep.Fresh (dir : Directory β) : HostStep β → Prop
  | .write stem _ _ => dir.get? (stem, .gz) = none
  | .rotate .. => True

/-- A write is recorded, a sweep is not. -/
def HostStep.record (log : Dict String β) : HostStep β → Dict String β
  | .write stem bytes _ => log.set stem bytes
  | .rotate .. => log

/-- The journals that were written, each with its last contents. -/
def written (steps : List (HostStep β)) : Dict String β := steps.foldl HostStep.record .empty

section Runs

variable {z : Gzip β} {cfg : RotationConfig} {now : ℚ} {fate : String → FileFate β}
  {dir : Directory β} {log : Dict String β}

/-- A sweep keeps every journal, however its compressions go. -/
theorem Holds.rotate (h : Holds z dir log) :
    Holds z (rotateClosedJournals z cfg now fate dir).dir log := by
  have hsteps : ∀ (l : List String) (s : Sweep β), Holds z s.dir log →
      Holds z (l.foldl (rotateOne z cfg now fate) s).dir log := by
    intro l
    induction l with
    | nil => exact fun _ hs => hs
    | cons stem l ih => exact fun s hs => ih _ (hs.touched touched_rotateOne)
  exact hsteps _ _ h

/-- Whatever sweeps ran between the writes, and wherever they failed or the process died, a reader
of the directory gets every journal that was written, once and with its last contents. -/
theorem journals_survive {steps : List (HostStep β)}
    (h : AllAlong (HostStep.apply z) HostStep.Fresh .empty steps) :
    (readAll z (steps.foldl (HostStep.apply z) .empty)).Perm
      (((written steps).entries.filter fun e => isJournal e.1).map
        fun e => (e.1, some e.2)) := by
  apply Holds.readAll
  have hsteps : ∀ (steps : List (HostStep β)) (dir : Directory β) (log : Dict String β),
      Holds z dir log → AllAlong (HostStep.apply z) HostStep.Fresh dir steps →
        Holds z (steps.foldl (HostStep.apply z) dir) (steps.foldl HostStep.record log) := by
    intro steps
    induction steps with
    | nil => exact fun _ _ hdir _ => hdir
    | cons step steps ih =>
      rintro dir log hdir ⟨hfresh, hrest⟩
      rw [List.foldl_cons, List.foldl_cons]
      refine ih _ _ ?_ hrest
      cases step with
      | write stem bytes mtime => exact hdir.write hfresh bytes mtime
      | rotate cfg now fate => exact hdir.rotate
  refine hsteps steps _ _ ?_ h
  constructor <;> simp

end Runs

/-! ### The backlog -/

/-- A raw journal that a sweep may compress: old enough, not held back and not compressed yet. -/
def eligible (cfg : RotationConfig) (now : ℚ) (dir : Directory β) (stem : String) : Bool :=
  decide (stem ≠ summaryStem) &&
    !decide (FilePath.name (stem, .raw) ∈ cfg.excludeBasenames ∨
      FilePath.name (stem, .raw) ∈ cfg.keep) &&
    !dir.contains (stem, .gz) &&
    (dir.get? (stem, .raw)).any fun file => decide (cfg.minAgeS ≤ now - file.mtime)

/-- The raw journals that wait for a sweep. -/
def backlog (cfg : RotationConfig) (now : ℚ) (dir : Directory β) : List String :=
  (stemsOf dir .raw).filter (eligible cfg now dir)

/-- A file whose compression goes well, in time. -/
structure Undisturbed (cfg : RotationConfig) (fate : FileFate β) : Prop where
  stat : fate.statFails = false
  elapsed : fate.elapsed < cfg.maxSeconds
  leftover : fate.leftoverRemoved = true
  gzip : fate.gzip = .done true

section Backlog

variable {z : Gzip β} {cfg : RotationConfig} {now : ℚ} {fate : String → FileFate β} {s : Sweep β}
  {stem : String} {dir dir' : Directory β}

/-- Whether a journal is to be compressed rests on its own two files. -/
theorem eligible_congr (hraw : dir'.get? (stem, .raw) = dir.get? (stem, .raw))
    (hgz : dir'.get? (stem, .gz) = dir.get? (stem, .gz)) :
    eligible cfg now dir' stem = eligible cfg now dir stem := by
  unfold eligible Dict.contains
  rw [hraw, hgz]

/-- A sweep leaves the files of the stems it does not visit. -/
theorem get?_sweep_other {l : List String} {t : String} (ht : t ∉ l) (kind : FileKind) :
    (l.foldl (rotateOne z cfg now fate) s).dir.get? (t, kind) = s.dir.get? (t, kind) := by
  induction l generalizing s with
  | nil => rfl
  | cons stem l ih =>
    rw [List.mem_cons, not_or] at ht
    rw [List.foldl_cons, ih ht.2, touched_rotateOne.other t kind ht.1]

/-- A sweep brings no raw file. -/
theorem raw_of_sweep {l : List String} {t : String}
    (h : ((l.foldl (rotateOne z cfg now fate) s).dir.get? (t, .raw)).isSome) :
    (s.dir.get? (t, .raw)).isSome := by
  induction l generalizing s with
  | nil => exact h
  | cons stem l ih =>
    have hstep := ih h
    have htouched := @touched_rotateOne β z cfg now fate s stem
    by_cases ht : t = stem
    · subst ht
      rcases htouched.raw with heq | ⟨hnone, -⟩
      · rwa [heq] at hstep
      · rw [hnone] at hstep
        cases hstep
    · rwa [htouched.other t .raw ht] at hstep

/-- What a step of a sweep does to a stem that is not eligible and has no compressed file. -/
theorem rotateOne_protected (hne : eligible cfg now s.dir stem = false)
    (hgz : s.dir.get? (stem, .gz) = none) :
    (rotateOne z cfg now fate s stem).dir = s.dir := by
  have hcontains : s.dir.contains (stem, .gz) = false := by
    unfold Dict.contains
    rw [hgz]
    rfl
  unfold eligible at hne
  unfold rotateOne
  dsimp only
  by_cases hskip : (!s.alive) = true ∨ stem = summaryStem
  · rw [if_pos hskip]
  rw [if_neg hskip]
  by_cases hheld : FilePath.name (stem, .raw) ∈ cfg.excludeBasenames ∨
      FilePath.name (stem, .raw) ∈ cfg.keep
  · rw [if_pos hheld]
  rw [if_neg hheld, if_neg (by simp [hcontains])]
  rw [not_or] at hskip
  unfold rotateRaw
  dsimp only
  cases hraw : s.dir.get? (stem, .raw) with
  | none => rfl
  | some file =>
    rw [hraw, hcontains] at hne
    have hyoung : now - file.mtime < cfg.minAgeS := by
      simpa [hskip.2, hheld] using hne
    dsimp only
    rw [if_pos hyoung]
    split_ifs <;> rfl

/-- A sweep leaves every stem alone that is not eligible and has no compressed file. -/
theorem sweep_protected {l : List String} (hne : eligible cfg now s.dir stem = false)
    (hgz : s.dir.get? (stem, .gz) = none) (kind : FileKind) :
    (l.foldl (rotateOne z cfg now fate) s).dir.get? (stem, kind) = s.dir.get? (stem, kind) := by
  induction l generalizing s with
  | nil => rfl
  | cons t l ih =>
    rw [List.foldl_cons]
    by_cases ht : stem = t
    · subst ht
      have hdir := @rotateOne_protected β z cfg now fate s stem hne hgz
      rw [ih (by rw [hdir]; exact hne) (by rw [hdir]; exact hgz), hdir]
    · have hother := fun kind => (@touched_rotateOne β z cfg now fate s t).other stem kind ht
      rw [ih (by rw [eligible_congr (hother .raw) (hother .gz)]; exact hne)
        (by rw [hother]; exact hgz), hother]

/-! ### The bound of a sweep -/

/-- The journals of a directory that are compressed in another one and were not before. -/
def compressed (dir dir' : Directory β) : List String :=
  (stemsOf dir .raw).filter fun stem =>
    !dir.contains (stem, .gz) && dir'.contains (stem, .gz)

/-- The compressions of a sweep that count against its bound: those that ended, and the one in
which the process died. -/
def Sweep.spent (s : Sweep β) : ℕ := s.rotated.length + if s.alive then 0 else 1

/-- What a step of a sweep does: it starts no compression, or one that the bound admits and that
ends, fails or dies. -/
inductive Attempts (cfg : RotationConfig) (stem : String) (s t : Sweep β) : Prop
  | passes (same : t.dir.contains (stem, .gz) = s.dir.contains (stem, .gz))
      (spent : t.spent = s.spent) (errors : s.errors.length ≤ t.errors.length)
  | starts (left : s.spent < cfg.maxFiles) (spent : t.spent ≤ s.spent + 1)
      (counted : t.spent + t.errors.length = s.spent + s.errors.length + 1)

/-- However a compression goes, it is counted as ended, as failed or as the last. -/
theorem spent_gzip (halive : s.alive = true) (file : JournalFile β) (outcome : GzipOutcome β) :
    (gzipOneCrashSafe z now s stem file outcome).spent ≤ s.spent + 1 ∧
      (gzipOneCrashSafe z now s stem file outcome).spent +
        (gzipOneCrashSafe z now s stem file outcome).errors.length =
          s.spent + s.errors.length + 1 := by
  unfold Sweep.spent gzipOneCrashSafe
  cases outcome <;> simp [halive] <;> omega

/-- A compression that is begun counts as compressed, or ends as an error or in a kill. -/
theorem attempts_rotateRaw (halive : s.alive = true) (fate : FileFate β) :
    Attempts cfg stem s (rotateRaw z cfg now fate s stem) := by
  unfold rotateRaw
  dsimp only
  cases hraw : s.dir.get? (stem, .raw) with
  | none => exact Attempts.passes rfl rfl (by simp)
  | some file =>
    dsimp only
    split_ifs with hstat hyoung hspent
    · exact Attempts.passes rfl rfl (by simp)
    · exact Attempts.passes rfl rfl le_rfl
    · exact Attempts.passes rfl rfl le_rfl
    · obtain ⟨hspent', hcounted⟩ := @spent_gzip β z now s stem halive file fate.gzip
      refine Attempts.starts ?_ hspent' hcounted
      rw [not_or, not_le] at hspent
      simpa [Sweep.spent, halive] using hspent.1

/-- So does the turn of a file. -/
theorem attempts_rotateOne : Attempts cfg stem s (rotateOne z cfg now fate s stem) := by
  unfold rotateOne
  dsimp only
  split_ifs with hskip hheld hzipped hremoved
  · exact Attempts.passes rfl rfl le_rfl
  · exact Attempts.passes rfl rfl le_rfl
  · refine Attempts.passes (Dict.contains_congr ?_) rfl le_rfl
    rw [Dict.get?_pop, if_neg (by simp)]
  · exact Attempts.passes rfl rfl le_rfl
  · rw [not_or, Bool.not_eq_true, Bool.not_eq_false'] at hskip
    cases @attempts_rotateRaw β z cfg now { s with scanned := s.scanned + 1 } stem hskip.1
      (fate stem) with
    | passes same spent errors => exact Attempts.passes same spent errors
    | starts left spent counted => exact Attempts.starts left spent counted

/-- A sweep starts no compression past its bound. -/
theorem spent_sweep {l : List String} (h : s.spent ≤ cfg.maxFiles) :
    (l.foldl (rotateOne z cfg now fate) s).spent ≤ cfg.maxFiles := by
  induction l generalizing s with
  | nil => exact h
  | cons stem l ih =>
    apply ih
    cases @attempts_rotateOne β z cfg now fate s stem with
    | passes same spent errors => omega
    | starts left spent counted => omega

/-- Every file a sweep compresses is counted. -/
theorem length_compressed_sweep {l : List String} (hl : l.Nodup) :
    (l.filter fun t => !s.dir.contains (t, .gz) &&
        (l.foldl (rotateOne z cfg now fate) s).dir.contains (t, .gz)).length +
      (s.spent + s.errors.length) ≤
        (l.foldl (rotateOne z cfg now fate) s).spent +
          (l.foldl (rotateOne z cfg now fate) s).errors.length := by
  induction l generalizing s with
  | nil => simp
  | cons stem l ih =>
    rw [List.nodup_cons] at hl
    have hrest := @ih (rotateOne z cfg now fate s stem) hl.2
    rw [List.foldl_cons]
    have hlater : (l.foldl (rotateOne z cfg now fate)
        (rotateOne z cfg now fate s stem)).dir.contains (stem, .gz) =
          (rotateOne z cfg now fate s stem).dir.contains (stem, .gz) :=
      Dict.contains_congr (get?_sweep_other hl.1 .gz)
    have hsame : (l.filter fun t => !(rotateOne z cfg now fate s stem).dir.contains (t, .gz) &&
        (l.foldl (rotateOne z cfg now fate)
          (rotateOne z cfg now fate s stem)).dir.contains (t, .gz)) =
        l.filter fun t => !s.dir.contains (t, .gz) && (l.foldl (rotateOne z cfg now fate)
          (rotateOne z cfg now fate s stem)).dir.contains (t, .gz) := by
      apply List.filter_congr
      intro t ht
      have hne : t ≠ stem := by
        rintro rfl
        exact hl.1 ht
      rw [Dict.contains_congr ((@touched_rotateOne β z cfg now fate s stem).other t .gz hne)]
    rw [hsame] at hrest
    rw [List.filter_cons, hlater]
    cases @attempts_rotateOne β z cfg now fate s stem with
    | passes same spent errors =>
      rw [same, if_neg (by simp)]
      omega
    | starts left spent counted =>
      split_ifs
      · rw [List.length_cons]
        omega
      · omega

/-! ### The work of a sweep -/

/-- What an undisturbed step does: it leaves what it finds, puts an eligible file off once the
sweep is spent, or compresses it. -/
inductive Works (cfg : RotationConfig) (now : ℚ) (stem : String) (s t : Sweep β) : Prop
  | passes (ineligible : eligible cfg now s.dir stem = false)
      (after : ∀ c n, eligible c n t.dir stem = eligible c n s.dir stem)
      (same : t.rotated = s.rotated)
  | defers (waits : eligible cfg now s.dir stem = true) (after : t.dir = s.dir)
      (spent : cfg.maxFiles ≤ s.rotated.length) (same : t.rotated = s.rotated)
  | zips (waits : eligible cfg now s.dir stem = true)
      (after : ∀ c n, eligible c n t.dir stem = false) (left : s.rotated.length < cfg.maxFiles)
      (one : t.rotated.length = s.rotated.length + 1)

/-- A journal that is compressed is not compressed again. -/
theorem eligible_of_gz {zipped : JournalFile β} (h : dir.get? (stem, .gz) = some zipped) :
    eligible cfg now dir stem = false := by
  unfold eligible Dict.contains
  rw [h]
  simp

/-- A compression that is not disturbed compresses its file while the bound lasts. -/
theorem works_rotateRaw {fate : FileFate β} (hfate : Undisturbed cfg fate)
    (hne : stem ≠ summaryStem)
    (hheld : ¬(FilePath.name (stem, .raw) ∈ cfg.excludeBasenames ∨
      FilePath.name (stem, .raw) ∈ cfg.keep))
    (hgz : s.dir.contains (stem, .gz) = false) :
    Works cfg now stem s (rotateRaw z cfg now fate s stem) ∧
      (rotateRaw z cfg now fate s stem).alive = s.alive := by
  have heligible : ∀ file, s.dir.get? (stem, .raw) = some file →
      eligible cfg now s.dir stem = decide (cfg.minAgeS ≤ now - file.mtime) := by
    intro file hraw
    unfold eligible
    rw [hraw, hgz]
    simp [hne, hheld]
  unfold rotateRaw
  dsimp only
  cases hraw : s.dir.get? (stem, .raw) with
  | none =>
    have hnone : eligible cfg now s.dir stem = false := by
      unfold eligible
      rw [hraw]
      simp
    exact ⟨Works.passes hnone (fun _ _ => rfl) rfl, rfl⟩
  | some file =>
    have hcan := heligible file hraw
    dsimp only
    rw [if_neg (by simp [hfate.stat])]
    by_cases hyoung : now - file.mtime < cfg.minAgeS
    · rw [if_pos hyoung]
      have hnone : eligible cfg now s.dir stem = false := by
        rw [hcan]
        simpa using hyoung
      exact ⟨Works.passes hnone (fun _ _ => rfl) rfl, rfl⟩
    rw [if_neg hyoung]
    have hwaits : eligible cfg now s.dir stem = true := by
      rw [hcan]
      simpa using hyoung
    by_cases hspent : cfg.maxFiles ≤ s.rotated.length
    · rw [if_pos (Or.inl hspent)]
      exact ⟨Works.defers hwaits rfl hspent rfl, rfl⟩
    · rw [if_neg (not_or.mpr ⟨hspent, not_le.mpr hfate.elapsed⟩), hfate.gzip]
      unfold gzipOneCrashSafe
      refine ⟨Works.zips hwaits (fun c n => ?_) (not_le.mp hspent) (by simp), rfl⟩
      simp only [if_true]
      exact eligible_of_gz (by rw [Dict.get?_pop, if_neg (by simp), get?_renamed, if_pos rfl])

/-- So does the turn of a file. -/
theorem works_rotateOne (hfate : Undisturbed cfg (fate stem)) (halive : s.alive = true) :
    Works cfg now stem s (rotateOne z cfg now fate s stem) ∧
      (rotateOne z cfg now fate s stem).alive = true := by
  unfold rotateOne
  dsimp only
  by_cases hsum : stem = summaryStem
  · have hnone : eligible cfg now s.dir stem = false := by
      unfold eligible
      simp [hsum]
    rw [if_pos (Or.inr hsum)]
    exact ⟨Works.passes hnone (fun _ _ => rfl) rfl, halive⟩
  rw [if_neg (by simp [halive, hsum])]
  by_cases hheld : FilePath.name (stem, .raw) ∈ cfg.excludeBasenames ∨
      FilePath.name (stem, .raw) ∈ cfg.keep
  · have hnone : eligible cfg now s.dir stem = false := by
      unfold eligible
      simp [hheld]
    rw [if_pos hheld]
    exact ⟨Works.passes hnone (fun _ _ => rfl) rfl, halive⟩
  rw [if_neg hheld]
  cases hgz : s.dir.contains (stem, .gz) with
  | true =>
    obtain ⟨zipped, hzipped⟩ := Dict.contains_eq_true.mp hgz
    rw [if_pos rfl, if_pos hfate.leftover]
    refine ⟨Works.passes (eligible_of_gz hzipped) (fun c n => ?_) rfl, halive⟩
    rw [eligible_of_gz hzipped]
    exact eligible_of_gz (by rw [Dict.get?_pop, if_neg (by simp), hzipped])
  | false =>
    rw [if_neg (by simp)]
    have hworks := @works_rotateRaw β z cfg now { s with scanned := s.scanned + 1 } stem
      (fate stem) hfate hsum hheld hgz
    refine ⟨?_, hworks.2.trans halive⟩
    cases hworks.1 with
    | passes ineligible after same => exact Works.passes ineligible after same
    | defers waits after spent same => exact Works.defers waits after spent same
    | zips waits after left one => exact Works.zips waits after left one

/-- Over an undisturbed sweep the files of age at a later time become fewer by those that it finds
of age and may compress. -/
theorem eligible_sweep {c : RotationConfig} {n : ℚ} {l : List String} (hl : l.Nodup)
    (hfate : ∀ stem, Undisturbed cfg (fate stem)) (halive : s.alive = true)
    (hlater : ∀ dir : Directory β, ∀ t, eligible cfg now dir t = true → eligible c n dir t = true) :
    (l.filter (eligible c n (l.foldl (rotateOne z cfg now fate) s).dir)).length +
      min (cfg.maxFiles - s.rotated.length) (l.filter (eligible cfg now s.dir)).length =
        (l.filter (eligible c n s.dir)).length := by
  induction l generalizing s with
  | nil => simp
  | cons stem l ih =>
    rw [List.nodup_cons] at hl
    obtain ⟨hworks, halive'⟩ := @works_rotateOne β z cfg now fate s stem (hfate stem) halive
    have hrest := ih hl.2 halive'
    rw [List.foldl_cons]
    -- the later steps leave this stem alone, and this step the later stems
    have hafter : eligible c n
        (l.foldl (rotateOne z cfg now fate) (rotateOne z cfg now fate s stem)).dir stem =
          eligible c n (rotateOne z cfg now fate s stem).dir stem :=
      eligible_congr (get?_sweep_other hl.1 .raw) (get?_sweep_other hl.1 .gz)
    have hsame (c : RotationConfig) (n : ℚ) :
        l.filter (eligible c n (rotateOne z cfg now fate s stem).dir) =
          l.filter (eligible c n s.dir) := by
      apply List.filter_congr
      intro t ht
      have hne : t ≠ stem := by
        rintro rfl
        exact hl.1 ht
      have htouched := @touched_rotateOne β z cfg now fate s stem
      exact eligible_congr (htouched.other t .raw hne) (htouched.other t .gz hne)
    rw [hsame, hsame] at hrest
    rw [List.filter_cons, List.filter_cons, List.filter_cons, hafter]
    cases hworks with
    | passes ineligible after same =>
      rw [after, ineligible, if_neg Bool.false_ne_true]
      rw [same] at hrest
      split_ifs
      · rw [List.length_cons, List.length_cons]
        omega
      · exact hrest
    | defers waits after spent same =>
      rw [after, waits, hlater _ _ waits]
      simp only [if_true, List.length_cons]
      rw [same] at hrest
      omega
    | zips waits after left one =>
      rw [after, waits, hlater _ _ waits]
      simp only [if_true, Bool.false_eq_true, if_false, List.length_cons]
      rw [one] at hrest
      omega

/-- A sweep that is not disturbed shortens the backlog by its bound, or empties it. -/
theorem length_backlog_rotate {c : RotationConfig} {n : ℚ}
    (hfate : ∀ stem, Undisturbed cfg (fate stem))
    (hlater : ∀ dir : Directory β, ∀ t, eligible cfg now dir t = true → eligible c n dir t = true) :
    (backlog c n (rotateClosedJournals z cfg now fate dir).dir).length +
      min cfg.maxFiles (backlog cfg now dir).length = (backlog c n dir).length := by
  have hsweep := @eligible_sweep β z cfg now fate ⟨dir, true, [], [], 0, [], 0, 0⟩ c n _
    (nodup_stemsOf dir .raw) hfate rfl hlater
  have hperm : (backlog c n (rotateClosedJournals z cfg now fate dir).dir).Perm
      ((stemsOf dir .raw).filter
        (eligible c n (rotateClosedJournals z cfg now fate dir).dir)) := by
    unfold backlog
    rw [List.perm_ext_iff_of_nodup ((nodup_stemsOf _ _).filter _) ((nodup_stemsOf _ _).filter _)]
    intro t
    simp only [List.mem_filter, mem_stemsOf]
    constructor
    · rintro ⟨⟨hraw, hshown⟩, hcan⟩
      exact ⟨⟨raw_of_sweep hraw, hshown⟩, hcan⟩
    · rintro ⟨⟨-, hshown⟩, hcan⟩
      refine ⟨⟨?_, hshown⟩, hcan⟩
      by_contra hnone
      rw [Option.not_isSome_iff_eq_none] at hnone
      unfold eligible at hcan
      rw [hnone] at hcan
      simp at hcan
  rw [hperm.length_eq]
  simpa [rotateClosedJournals, backlog] using hsweep

end Backlog

/-! ### Sweep after sweep -/

/-- What one sweep is given. -/
structure SweepInputs (β : Type) where
  cfg : RotationConfig
  now : ℚ
  fate : String → FileFate β

/-- The sweep of some inputs over a directory. -/
def SweepInputs.sweep (z : Gzip β) (x : SweepInputs β) (dir : Directory β) : Sweep β :=
  rotateClosedJournals z x.cfg x.now x.fate dir

/-- The directory after sweeps. -/
def sweptBy (z : Gzip β) (dir : Directory β) (sweeps : List (SweepInputs β)) : Directory β :=
  sweeps.foldl (fun dir x => (x.sweep z dir).dir) dir

/-- The files that sweeps may compress: each as many as its bound admits of those it finds of
age. -/
def workOf (z : Gzip β) : Directory β → List (SweepInputs β) → ℕ
  | _, [] => 0
  | dir, x :: sweeps =>
    min x.cfg.maxFiles (backlog x.cfg x.now dir).length + workOf z (x.sweep z dir).dir sweeps

/-- The sweep is not after `now`, and it holds back or finds too young what `cfg` does. -/
structure SweepInputs.Within (cfg : RotationConfig) (now : ℚ) (x : SweepInputs β) : Prop where
  time : x.now ≤ now
  age : cfg.minAgeS ≤ x.cfg.minAgeS
  held : ∀ name, name ∈ cfg.excludeBasenames ∨ name ∈ cfg.keep →
    name ∈ x.cfg.excludeBasenames ∨ name ∈ x.cfg.keep

section Sweeps

variable {z : Gzip β} {cfg : RotationConfig} {now : ℚ} {dir : Directory β} {x : SweepInputs β}

/-- What is of age for a sweep is of age later. -/
theorem SweepInputs.Within.eligible (h : x.Within cfg now) (dir : Directory β) (stem : String)
    (hx : Host.eligible x.cfg x.now dir stem = true) : Host.eligible cfg now dir stem = true := by
  unfold Host.eligible at hx ⊢
  simp only [Bool.and_eq_true, Bool.not_eq_true', decide_eq_false_iff_not, decide_eq_true_eq,
    Option.any_eq_true] at hx ⊢
  obtain ⟨⟨⟨hsum, hheld⟩, hgz⟩, file, hraw, hage⟩ := hx
  refine ⟨⟨⟨hsum, fun hname => hheld (h.held _ hname)⟩, hgz⟩, file, hraw, ?_⟩
  linarith [h.time, h.age]

/-- Undisturbed sweeps work off the backlog, each as many files as it may compress of those it
finds of age. Whatever happens in a sweep, it lists no more files than its bound as rotated, and
those it compresses beyond are listed as errors. A journal that every sweep holds back or finds
too young, and the summary, keep all their files. -/
theorem backlog_drains (sweeps : List (SweepInputs β)) :
    (∀ cfg now, (∀ x ∈ sweeps, x.Within cfg now ∧ ∀ stem, Undisturbed x.cfg (x.fate stem)) →
      (backlog cfg now (sweptBy z dir sweeps)).length + workOf z dir sweeps =
        (backlog cfg now dir).length) ∧
    (∀ x : SweepInputs β, (x.sweep z dir).rotated.length ≤ x.cfg.maxFiles ∧
      (compressed dir (x.sweep z dir).dir).length ≤
        x.cfg.maxFiles + (x.sweep z dir).errors.length) ∧
    ∀ stem, (∀ x ∈ sweeps, Host.eligible x.cfg x.now dir stem = false) →
      dir.get? (stem, .gz) = none → ∀ kind,
        (sweptBy z dir sweeps).get? (stem, kind) = dir.get? (stem, kind) := by
  refine ⟨fun cfg now hsweeps => ?_, fun x => ?_, fun stem hne hgz kind => ?_⟩
  · induction sweeps generalizing dir with
    | nil => rfl
    | cons x sweeps ih =>
      obtain ⟨hwithin, hcalm⟩ := hsweeps x (by simp)
      have hfirst := @length_backlog_rotate β z x.cfg x.now x.fate dir cfg now hcalm
        hwithin.eligible
      have hrest := @ih (x.sweep z dir).dir fun y hy => hsweeps y (by simp [hy])
      unfold workOf
      show (backlog cfg now (sweptBy z (x.sweep z dir).dir sweeps)).length + _ = _
      unfold SweepInputs.sweep at hrest ⊢
      omega
  · have hspent := @spent_sweep β z x.cfg x.now x.fate ⟨dir, true, [], [], 0, [], 0, 0⟩
      (stemsOf dir .raw) (Nat.zero_le _)
    have hcounted := @length_compressed_sweep β z x.cfg x.now x.fate
      ⟨dir, true, [], [], 0, [], 0, 0⟩ (stemsOf dir .raw) (nodup_stemsOf dir .raw)
    unfold SweepInputs.sweep rotateClosedJournals compressed
    refine ⟨(Nat.le_add_right _ _).trans hspent, ?_⟩
    dsimp only at hcounted
    omega
  · induction sweeps generalizing dir with
    | nil => rfl
    | cons x sweeps ih =>
      have hkept : ∀ kind, (x.sweep z dir).dir.get? (stem, kind) = dir.get? (stem, kind) :=
        fun kind => @sweep_protected β z x.cfg x.now x.fate ⟨dir, true, [], [], 0, [], 0, 0⟩ stem _
          (hne x (by simp)) hgz kind
      show (sweptBy z (x.sweep z dir).dir sweeps).get? (stem, kind) = _
      rw [ih, hkept]
      · intro y hy
        rw [eligible_congr (hkept .raw) (hkept .gz)]
        exact hne y (by simp [hy])
      · rw [hkept]
        exact hgz

end Sweeps

/-! ### A sample -/

/-- A compression that only marks its output with the two bytes every gzip file begins with. -/
def markingGzip : Gzip (List ℕ) where
  compress b := 31 :: 139 :: b
  decompress b := if b.take 2 = [31, 139] then some (b.drop 2) else none
  size := List.length
  lossless b := by simp

/-- The files of a sweep in which nothing goes wrong. -/
def calmFate : FileFate (List ℕ) := ⟨false, 0, true, .done true⟩

/-- Two journals of consecutive hours; the sweep dies after it renamed the first one. -/
def killedSweep : List (HostStep (List ℕ)) :=
  [.write "20260902T210000Z" [1, 2, 3] 1000, .write "20260902T220000Z" [4, 5] 4600,
    .rotate ⟨[], [], 1800, 3, 60⟩ 8000 fun _ => ⟨false, 0, true, .killedRenamed⟩,
    .rotate ⟨[], [], 1800, 3, 60⟩ 11600 fun _ => calmFate]

instance (dir : Directory β) (step : HostStep β) : Decidable (step.Fresh dir) :=
  match step with
  | .write stem _ _ =>
    decidable_of_iff ((dir.get? (stem, .gz)).isNone = true) Option.isNone_iff_eq_none
  | .rotate .. => .isTrue trivial

/-- A sweep that dies after it renamed a file loses no journal. -/
theorem journals_survive_sample :
    (readAll markingGzip (killedSweep.foldl (HostStep.apply markingGzip) .empty)).Perm
      [("20260902T210000Z", some [1, 2, 3]), ("20260902T220000Z", some [4, 5])] :=
  @journals_survive _ markingGzip killedSweep (by decide +kernel)

/-- Two sweeps an hour apart, of one file each. -/
def twoSweeps : List (SweepInputs (List ℕ)) :=
  [⟨⟨["20260902T230000Z.jsonl"], [], 1800, 1, 60⟩, 11600, fun _ => calmFate⟩,
    ⟨⟨["20260903T000000Z.jsonl"], [], 1800, 1, 60⟩, 15200, fun _ => calmFate⟩]

/-- Three journals in a directory; the last is held back from the first sweep. -/
def threeJournals : Directory (List ℕ) :=
  [("20260902T210000Z", 1000), ("20260902T220000Z", 4600), ("20260902T230000Z", 8200)].foldl
    (fun dir (stem, mtime) => dir.set (stem, .raw) ⟨[1], mtime⟩) .empty

/-- Two sweeps of one file each leave one journal of three. -/
theorem backlog_drains_sample :
    (backlog ⟨[], [], 1800, 1, 60⟩ 15200
      (sweptBy markingGzip threeJournals twoSweeps)).length = 1 := by
  have hsweeps : ∀ x ∈ twoSweeps, x.Within ⟨[], [], 1800, 1, 60⟩ 15200 ∧
      ∀ stem, Undisturbed x.cfg (x.fate stem) := by
    intro x hx
    rcases List.mem_pair.mp hx with rfl | rfl
    · exact ⟨⟨by norm_num, le_rfl, by simp⟩, fun _ => ⟨rfl, by norm_num [calmFate], rfl, rfl⟩⟩
    · exact ⟨⟨le_rfl, le_rfl, by simp⟩, fun _ => ⟨rfl, by norm_num [calmFate], rfl, rfl⟩⟩
  have hdrained := (@backlog_drains _ markingGzip threeJournals twoSweeps).1
    ⟨[], [], 1800, 1, 60⟩ 15200 hsweeps
  have hwork : workOf markingGzip threeJournals twoSweeps = 2 := by decide +kernel
  have hstart : (backlog ⟨[], [], 1800, 1, 60⟩ 15200 threeJournals).length = 3 := by
    decide +kernel
  omega

end Pilot.Host
