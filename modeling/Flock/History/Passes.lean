/-
# Flock.History.Passes — one compaction after another.

What a compaction keeps of a well-formed epoch is a well-formed epoch: the baseline, where there is one,
takes the place of the first sample.  So the kept history can be compacted again, and a later pass with a
later cutoff finds the baseline it would have found in the whole history: the last sample before its own
cutoff lies between the two cutoffs, or else it is the baseline of the earlier pass.

The condition is that the live boot and its usability are the same in both passes, as they are while one process runs;
a restart in between is in the last example.
-/
import Flock.History.Compaction

namespace Flock.History

variable {ν : Type}

/-! ## The kept epoch

An epoch is its boot and its body.  A cutoff splits the body in two, as its times do not go down. -/

namespace WellFormedEpoch

variable (e : WellFormedEpoch ν) (c : U64)

/-- The records of the epoch, after its boot, from before the cutoff. -/
def expired : List (Record ν) := e.body.takeWhile fun r => r.timestamp < c

/-- The records of the epoch, after its boot, from the cutoff on. -/
def current : List (Record ν) := e.body.dropWhile fun r => r.timestamp < c

theorem body_eq : e.body = e.expired c ++ e.current c := List.takeWhile_append_dropWhile.symm

theorem expired_lt : ∀ r ∈ e.expired c, r.timestamp < c := by
  intro r hr
  simpa using List.mem_takeWhile_imp hr

theorem lastBaseline_eq_some {r : Record ν} (h : lastBaseline c (e.expired c) = some r) :
    ∃ s, r = .sample s := by
  have hbase : isBaseline c r = true := List.of_mem_filter (List.mem_of_getLast? h)
  cases r with
  | boot b => cases hbase
  | sample s => exact ⟨s, rfl⟩
  | checkpoint k => cases hbase

/-- Without a baseline nothing is expired: the first record after the boot is a sample. -/
theorem expired_eq_nil (h : lastBaseline c (e.expired c) = none) : e.expired c = [] := by
  have hnone : (e.expired c).filter (isBaseline c) = [] := List.getLast?_eq_none_iff.mp h
  rw [List.filter_eq_nil_iff] at hnone
  by_cases hlt : e.sample.timestamp < c
  · have hmem : .sample e.sample ∈ e.expired c := by simp [expired, body, hlt]
    exact absurd (decide_eq_true hlt) (hnone _ hmem)
  · simp [expired, body, hlt]

/-- The baseline and what follows it are part of the body. -/
theorem baseline_sublist {s : SampleRecord ν} (h : lastBaseline c (e.expired c) = some (.sample s)) :
    (.sample s :: e.current c : List (Record ν)).Sublist e.body := by
  rw [e.body_eq c]
  exact (List.singleton_sublist.mpr (lastBaseline_mem h)).append (List.Sublist.refl (e.current c))

/-- What is kept of the epoch: the baseline and what is not expired, or all of it if nothing is. -/
def kept : WellFormedEpoch ν :=
  match h : lastBaseline c (e.expired c) with
  | some (.sample s) =>
      { boot := e.boot
        sample := s
        rest := e.current c
        bootId_sample := e.bootId_body (.sample s) ((e.baseline_sublist c h).mem List.mem_cons_self)
        bootId_rest := fun r hr =>
          e.bootId_body r ((e.baseline_sublist c h).mem (List.mem_cons_of_mem _ hr))
        isBoot_rest := fun r hr =>
          e.isBoot_body r ((e.baseline_sublist c h).mem (List.mem_cons_of_mem _ hr))
        sorted := e.sorted.sublist ((e.baseline_sublist c h).cons_cons _) }
  | _ => e

theorem boot_kept : (e.kept c).boot = e.boot := by
  rw [kept]
  split <;> rfl

theorem body_kept : (e.kept c).body = (lastBaseline c (e.expired c)).toList ++ e.current c := by
  rw [kept]
  split
  · rename_i s h
    show (.sample s :: e.current c : List (Record ν)) = _
    rw [h]
    rfl
  · rename_i hother
    cases hlast : lastBaseline c (e.expired c) with
    | none =>
        have hbody := e.body_eq c
        rw [e.expired_eq_nil c hlast, List.nil_append] at hbody
        exact hbody
    | some r =>
        obtain ⟨s, rfl⟩ := e.lastBaseline_eq_some c hlast
        exact absurd hlast (hother s)

theorem body_kept_sublist : (e.kept c).body.Sublist e.body := by
  rw [body_kept]
  cases hlast : lastBaseline c (e.expired c) with
  | none => exact List.dropWhile_sublist _
  | some r =>
      obtain ⟨s, rfl⟩ := e.lastBaseline_eq_some c hlast
      exact e.baseline_sublist c hlast

theorem records_kept_sublist : (e.kept c).records.Sublist e.records := by
  rw [records, records, boot_kept]
  exact (e.body_kept_sublist c).cons_cons _

/-- The epoch survives the compaction: it is live, or has a record from the cutoff on. -/
def survives (live : String) (usable : Bool) : Bool :=
  isLiveEpoch live usable e.records || e.records.any fun r => c ≤ r.timestamp

/-- **One epoch under a compaction.** -/
theorem retainedEpoch_eq (live : String) (usable : Bool) :
    retainedEpoch c live usable e.records = if e.survives c live usable then (e.kept c).records else [] := by
  rw [retainedEpoch, survives]
  split
  · rw [records, records, boot_kept, body_kept, e.body_eq c]
    exact keptFrom_epoch rfl (e.expired_lt c) (e.timestamp_le_of_dropWhile c)
  · rfl

/-! ## A second pass

A later cutoff splits what is left of the body at a later place.  Its baseline is a sample between the two cutoffs, if
there is one, and otherwise the one that is there already, at the front. -/

variable {c} {c' : U64}

theorem isBaseline_of_lt {r : Record ν} (hle : c ≤ c') (hr : r.timestamp < c) :
    isBaseline c' r = isBaseline c r := by
  cases r with
  | boot b => rfl
  | sample s =>
      have hr' : s.timestamp < c := hr
      simp [isBaseline, hr', hr'.trans_le hle]
  | checkpoint k => rfl

/-- The last baseline of two lists. -/
theorem lastBaseline_append (c : U64) (xs ys : List (Record ν)) :
    lastBaseline c (xs ++ ys) = (lastBaseline c ys).or (lastBaseline c xs) := by
  simp only [lastBaseline, List.filter_append, List.getLast?_append]

/-- The split of a body at a cutoff is determined by the times. -/
theorem expired_eq_of_split {pre post : List (Record ν)} (hbody : e.body = pre ++ post)
    (hpre : ∀ r ∈ pre, r.timestamp < c) (hpost : ∀ r ∈ post, c ≤ r.timestamp) :
    e.expired c = pre ∧ e.current c = post := by
  have hstop : post.takeWhile (fun r => decide (r.timestamp < c)) = [] ∧
      post.dropWhile (fun r => decide (r.timestamp < c)) = post := by
    cases post with
    | nil => exact ⟨rfl, rfl⟩
    | cons r rest =>
        have hr : ¬r.timestamp < c := not_lt.mpr (hpost r List.mem_cons_self)
        simp [hr]
  have hpass : ∀ r ∈ pre, decide (r.timestamp < c) = true := fun r hr => decide_eq_true (hpre r hr)
  rw [expired, current, hbody, List.takeWhile_append_of_pos hpass, List.dropWhile_append_of_pos hpass,
    hstop.1, hstop.2, List.append_nil]
  exact ⟨rfl, rfl⟩

/-- **The later cutoff decides.** The baseline of the earlier pass is the later one's, or is superseded. -/
theorem body_kept_kept (hle : c ≤ c') : ((e.kept c).kept c').body = (e.kept c').body := by
  -- what expires between the two cutoffs
  let mid := (e.current c).takeWhile fun r => r.timestamp < c'
  let post := (e.current c).dropWhile fun r => r.timestamp < c'
  have hcurrent : e.current c = mid ++ post := List.takeWhile_append_dropWhile.symm
  have hmid : ∀ r ∈ mid, r.timestamp < c' := fun r hr => by simpa using List.mem_takeWhile_imp hr
  have hwhole : e.body = (e.expired c ++ mid) ++ post := by
    rw [e.body_eq c, hcurrent, List.append_assoc]
  have hpost : ∀ r ∈ post, c' ≤ r.timestamp := by
    have hdrop : e.current c' = post := by
      rw [current, e.body_eq c, List.dropWhile_append_of_pos]
      intro r hr
      exact decide_eq_true ((e.expired_lt c r hr).trans_le hle)
    rw [← hdrop]
    exact e.timestamp_le_of_dropWhile c'
  have hexpired : ∀ r ∈ e.expired c ++ mid, r.timestamp < c' := by
    intro r hr
    rcases List.mem_append.mp hr with h | h
    · exact (e.expired_lt c r h).trans_le hle
    · exact hmid r h
  have hkept : (e.kept c).body = ((lastBaseline c (e.expired c)).toList ++ mid) ++ post := by
    rw [body_kept, hcurrent, List.append_assoc]
  have hkeptExpired : ∀ r ∈ (lastBaseline c (e.expired c)).toList ++ mid, r.timestamp < c' := by
    intro r hr
    rcases List.mem_append.mp hr with h | h
    · exact hexpired r (List.mem_append_left _ (lastBaseline_mem (Option.mem_toList.mp h)))
    · exact hmid r h
  obtain ⟨hpre₁, hpost₁⟩ := e.expired_eq_of_split hwhole hexpired hpost
  obtain ⟨hpre₂, hpost₂⟩ := (e.kept c).expired_eq_of_split hkept hkeptExpired hpost
  rw [body_kept, body_kept, hpre₁, hpost₁, hpre₂, hpost₂]
  -- the last sample before the later cutoff, on either side
  have hfilter : lastBaseline c' (e.expired c) = lastBaseline c (e.expired c) :=
    congrArg List.getLast? (List.filter_congr fun r hr => isBaseline_of_lt hle (e.expired_lt c r hr))
  have hbaseline : lastBaseline c' (lastBaseline c (e.expired c)).toList =
      lastBaseline c (e.expired c) := by
    have hself : (lastBaseline c (e.expired c)).toList.filter (isBaseline c') =
        (lastBaseline c (e.expired c)).toList := by
      refine List.filter_eq_self.mpr fun r hr => ?_
      have hmem := Option.mem_toList.mp hr
      rw [isBaseline_of_lt hle (e.expired_lt c r (lastBaseline_mem hmem))]
      exact List.of_mem_filter (List.mem_of_getLast? hmem)
    rw [lastBaseline, hself]
    cases lastBaseline c (e.expired c) <;> rfl
  rw [lastBaseline_append, lastBaseline_append, hfilter, hbaseline]

/-- Twice is once, with the later cutoff. -/
theorem records_kept_kept (hle : c ≤ c') : ((e.kept c).kept c').records = (e.kept c').records := by
  rw [records, records, boot_kept, boot_kept, boot_kept, e.body_kept_kept hle]

/-- A record from the cutoff on is kept. -/
theorem filter_records_sublist (c : U64) :
    (e.records.filter fun r => c ≤ r.timestamp).Sublist (e.kept c).records := by
  have hexpired : (e.expired c).filter (fun r => c ≤ r.timestamp) = [] := by
    rw [List.filter_eq_nil_iff]
    intro r hr
    simpa using e.expired_lt c r hr
  have hbody : (e.body.filter fun r => c ≤ r.timestamp).Sublist (e.kept c).body := by
    rw [body_kept]
    nth_rewrite 1 [e.body_eq c]
    rw [List.filter_append, hexpired, List.nil_append]
    exact List.filter_sublist.trans (List.sublist_append_right _ _)
  rw [records, records, boot_kept]
  rw [List.filter_cons]
  split
  · exact hbody.cons_cons _
  · exact hbody.cons _

/-- The first pass does not decide whether the epoch survives the second. -/
theorem survives_kept (hle : c ≤ c') (live : String) (usable : Bool) :
    (e.kept c).survives c' live usable = e.survives c' live usable := by
  have hlive : isLiveEpoch live usable (e.kept c).records = isLiveEpoch live usable e.records := by
    simp only [isLiveEpoch, records, boot_kept]
    rfl
  rw [survives, survives, hlive]
  congr 1
  rw [Bool.eq_iff_iff, List.any_eq_true, List.any_eq_true]
  constructor
  · rintro ⟨r, hr, hts⟩
    exact ⟨r, (e.records_kept_sublist c).mem hr, hts⟩
  · rintro ⟨r, hr, hts⟩
    have hcurrent : c ≤ r.timestamp := hle.trans (of_decide_eq_true hts)
    exact ⟨r, (e.filter_records_sublist c).mem (List.mem_filter.mpr ⟨hr, decide_eq_true hcurrent⟩), hts⟩

/-- What does not survive does not survive later. -/
theorem survives_of_le (hle : c ≤ c') {live : String} {usable : Bool}
    (h : e.survives c live usable = false) : e.survives c' live usable = false := by
  simp only [survives, Bool.or_eq_false_iff] at h ⊢
  refine ⟨h.1, ?_⟩
  rw [List.any_eq_false] at h ⊢
  intro r hr hts
  exact h.2 r hr (decide_eq_true (hle.trans (of_decide_eq_true hts)))

end WellFormedEpoch

/-! ## Whole histories

Epoch by epoch, and then over the whole list: what a compaction keeps of well-formed epochs are well-formed epochs
again. -/

/-- What a compaction keeps of a list of epochs, as epochs. -/
def keptEpochs (c : U64) (live : String) (usable : Bool) (epochs : List (WellFormedEpoch ν)) :
    List (WellFormedEpoch ν) :=
  epochs.filterMap fun e => if e.survives c live usable then some (e.kept c) else none

theorem keptEpochs_cons (c : U64) (live : String) (usable : Bool) (e : WellFormedEpoch ν)
    (rest : List (WellFormedEpoch ν)) :
    keptEpochs c live usable (e :: rest) =
      (if e.survives c live usable then [e.kept c] else []) ++ keptEpochs c live usable rest := by
  rw [keptEpochs, keptEpochs, List.filterMap_cons]
  cases e.survives c live usable <;> rfl

theorem joined_append (epochs epochs' : List (WellFormedEpoch ν)) :
    joined (epochs ++ epochs') = joined epochs ++ joined epochs' := List.flatMap_append

/-- `retained_compaction_records`, on the records of such a list. -/
theorem retained_eq_joined (c : U64) (live : String) (usable : Bool) (epochs : List (WellFormedEpoch ν)) :
    retainedCompactionRecords c live usable (joined epochs) = joined (keptEpochs c live usable epochs) := by
  rw [retainedCompactionRecords_joined]
  induction epochs with
  | nil => rfl
  | cons e rest ih =>
      rw [List.flatMap_cons, ih, e.retainedEpoch_eq, keptEpochs_cons, joined_append]
      split <;> simp [joined]

/-- **Two passes.** -/
theorem retained_retained {c c' : U64} (hle : c ≤ c') (live : String) (usable : Bool)
    (epochs : List (WellFormedEpoch ν)) :
    joined (keptEpochs c' live usable (keptEpochs c live usable epochs)) =
      joined (keptEpochs c' live usable epochs) := by
  induction epochs with
  | nil => rfl
  | cons e rest ih =>
      rw [keptEpochs_cons, keptEpochs_cons, joined_append]
      cases hfirst : e.survives c live usable with
      | false => simpa [e.survives_of_le hle hfirst, joined] using ih
      | true =>
          have hsecond : keptEpochs c' live usable ([e.kept c] ++ keptEpochs c live usable rest) =
              (if e.survives c' live usable then [(e.kept c).kept c'] else []) ++
                keptEpochs c' live usable (keptEpochs c live usable rest) := by
            rw [List.singleton_append, keptEpochs_cons, e.survives_kept hle]
          rw [if_pos rfl, hsecond, joined_append, ih]
          congr 1
          split
          · simp [joined, e.records_kept_kept hle]
          · rfl

/-- Nothing is added and nothing moves. -/
theorem keptEpochs_sublist (c : U64) (live : String) (usable : Bool) (epochs : List (WellFormedEpoch ν)) :
    (joined (keptEpochs c live usable epochs)).Sublist (joined epochs) := by
  induction epochs with
  | nil => exact List.Sublist.refl _
  | cons e rest ih =>
      rw [keptEpochs_cons, joined_append]
      refine List.Sublist.append ?_ ih
      split
      · simpa [joined] using e.records_kept_sublist c
      · exact List.nil_sublist _

/-- No record from the cutoff on is lost. -/
theorem filter_sublist_keptEpochs (c : U64) (live : String) (usable : Bool)
    (epochs : List (WellFormedEpoch ν)) :
    ((joined epochs).filter fun r => c ≤ r.timestamp).Sublist (joined (keptEpochs c live usable epochs)) := by
  induction epochs with
  | nil => exact List.Sublist.refl _
  | cons e rest ih =>
      have hhead : joined (e :: rest) = e.records ++ joined rest := rfl
      rw [hhead, List.filter_append, keptEpochs_cons, joined_append]
      refine List.Sublist.append ?_ ih
      split
      · simpa [joined] using e.filter_records_sublist c
      · rename_i hsurvives
        simp only [WellFormedEpoch.survives, Bool.or_eq_true, not_or, List.any_eq_true, not_exists,
          not_and] at hsurvives
        rw [List.filter_eq_nil_iff.mpr hsurvives.2]
        exact List.nil_sublist _

/-- **The algebra of compaction.** What a compaction keeps is a subsequence made of well-formed epochs,
with every record from the cutoff on; and after any passes with earlier cutoffs, a pass keeps what it
would have kept without them. -/
theorem retainedCompactionRecords_passes (epochs : List (WellFormedEpoch ν)) (cutoff : U64)
    (liveBootId : String) (liveEpochUsable : Bool) :
    let pass (rs : List (Record ν)) (c : U64) := retainedCompactionRecords c liveBootId liveEpochUsable rs
    (pass (joined epochs) cutoff).Sublist (joined epochs) ∧
      (∃ kept : List (WellFormedEpoch ν), pass (joined epochs) cutoff = joined kept) ∧
      ((joined epochs).filter fun r => cutoff ≤ r.timestamp).Sublist (pass (joined epochs) cutoff) ∧
      ∀ earlier : List U64, (∀ c ∈ earlier, c ≤ cutoff) →
        pass (earlier.foldl pass (joined epochs)) cutoff = pass (joined epochs) cutoff := by
  intro pass
  have hpass : ∀ epochs c, pass (joined epochs) c = joined (keptEpochs c liveBootId liveEpochUsable epochs) :=
    fun epochs c => retained_eq_joined c liveBootId liveEpochUsable epochs
  refine ⟨?_, ⟨_, hpass _ _⟩, ?_, ?_⟩
  · rw [hpass]
    exact keptEpochs_sublist cutoff liveBootId liveEpochUsable epochs
  · rw [hpass]
    exact filter_sublist_keptEpochs cutoff liveBootId liveEpochUsable epochs
  · intro earlier
    induction earlier generalizing epochs with
    | nil => intro _; rfl
    | cons c rest ih =>
        intro hle
        rw [List.foldl_cons, hpass, ih _ fun c' hc' => hle c' (List.mem_cons_of_mem _ hc'), hpass, hpass]
        exact retained_retained (hle c List.mem_cons_self) liveBootId liveEpochUsable epochs

/-- Passes at 25 and 35, and then one at 55: the first epoch goes in the last, and the second is whole. -/
theorem retainedCompactionRecords_passes_restarted :
    let pass (rs : List (Record ℚ)) (c : U64) := retainedCompactionRecords c "b" false rs
    (pass (joined restarted) 25).length = 7 ∧ (pass (joined restarted) 35).length = 6 ∧
      pass ([25, 35].foldl pass (joined restarted)) 55 = pass (joined restarted) 55 ∧
      (pass (joined restarted) 55).map Record.timestamp = [50, 60, 70] := by
  intro pass
  have hearlier : ∀ c ∈ ([25, 35] : List U64), c ≤ 55 := by
    rintro c (_ | ⟨_, _ | ⟨_, ⟨⟩⟩⟩)
    · decide
    · decide
  exact ⟨by decide +kernel, by decide +kernel,
    (retainedCompactionRecords_passes restarted 55 "b" false).2.2.2 [25, 35] hearlier,
    by decide +kernel⟩

end Flock.History
