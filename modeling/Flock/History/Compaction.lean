/-
# Flock.History.Compaction — what a compaction keeps, and that no answer changes.

A compaction keeps, of every epoch with a record at or after the cutoff, its boot record, the last sample
before the cutoff and everything from the cutoff on.  The sample before the cutoff is the BASELINE: the
first kept point is measured against it, and a kept checkpoint repeats its state.  An epoch whose records
are all older is dropped whole (the live one is not), which is harmless because the first observation of
an epoch is measured against nothing.

The argument is per epoch.  Of one epoch, the expired records fold down to their last sample, and the baseline alone
folds to the same; the records from the cutoff on are kept, so they are seen with the same predecessor.  Across epochs
nothing is carried, because an observation of another boot is no basis for a difference.
-/
import Mathlib.Data.List.Induction
import Mathlib.Data.List.TakeWhile
import Flock.History.Index

namespace Flock.History

variable {ν : Type}

/-! ## `retained_compaction_records`

A first pass over an epoch finds its baseline, by its index, and a second one keeps records by their position or by
their time.  The model goes by positions too: a list can hold one record twice. -/

/-- A sample from before the cutoff. -/
def isBaseline (cutoff : U64) : Record ν → Bool
  | .sample s => s.timestamp < cutoff
  | .boot _ => false
  | .checkpoint _ => false

/-- The epoch of the running process. -/
def isLiveEpoch (liveBootId : String) (liveEpochUsable : Bool) (epoch : List (Record ν)) : Bool :=
  liveEpochUsable &&
    match epoch.head? with
    | some (.boot boot) => boot.bootId == liveBootId
    | _ => false

/-- The index of the last sample before the cutoff. -/
def baselineIndex (cutoff : U64) (epoch : List (Record ν)) : Option ℕ :=
  ((epoch.zipIdx.filter fun e => isBaseline cutoff e.1).map Prod.snd).getLast?

/-- The records that are kept, the first of the list standing at index `k` of its epoch. -/
def keptFrom (cutoff : U64) (baseline : Option ℕ) (k : ℕ) (rs : List (Record ν)) : List (Record ν) :=
  ((rs.zipIdx k).filter fun e => e.2 == 0 || some e.2 == baseline || cutoff ≤ e.1.timestamp).map
    Prod.fst

/-- What is kept of one epoch: its first record, the last sample before the cutoff, and everything from
the cutoff on. -/
def retainedEpoch (cutoff : U64) (liveBootId : String) (liveEpochUsable : Bool)
    (epoch : List (Record ν)) : List (Record ν) :=
  let hasRetainedObservation := epoch.any fun r => cutoff ≤ r.timestamp
  if isLiveEpoch liveBootId liveEpochUsable epoch || hasRetainedObservation then
    keptFrom cutoff (baselineIndex cutoff epoch) 0 epoch
  else []

/-- `retained_compaction_records`: an epoch runs up to the next boot record. -/
def retainedCompactionRecords (cutoff : U64) (liveBootId : String) (liveEpochUsable : Bool) :
    List (Record ν) → List (Record ν)
  | [] => []
  | first :: rest =>
      retainedEpoch cutoff liveBootId liveEpochUsable (first :: rest.takeWhile fun r => !r.isBoot) ++
        retainedCompactionRecords cutoff liveBootId liveEpochUsable
          (rest.dropWhile fun r => !r.isBoot)
termination_by records => records.length
decreasing_by
  have := (List.dropWhile_sublist (fun r : Record ν => !r.isBoot) (l := rest)).length_le
  simp only [List.length_cons]
  omega

/-! ## Well-formed epochs

The first append of a process writes its boot record and a sample.  What follows is of the same boot, and its time
does not go back. -/

/-- An epoch as a process writes it: its boot, a sample, then samples and checkpoints of the same boot,
in the order of their times. -/
structure WellFormedEpoch (ν : Type) where
  boot : BootRecord
  sample : SampleRecord ν
  rest : List (Record ν)
  bootId_sample : sample.bootId = boot.bootId
  bootId_rest : ∀ r ∈ rest, r.bootId = boot.bootId
  isBoot_rest : ∀ r ∈ rest, r.isBoot = false
  sorted : (Record.boot boot :: Record.sample sample :: rest).Pairwise
    fun r r' => r.timestamp ≤ r'.timestamp

namespace WellFormedEpoch

/-- The records after the boot record. -/
def body (e : WellFormedEpoch ν) : List (Record ν) := .sample e.sample :: e.rest

/-- The records of the epoch. -/
def records (e : WellFormedEpoch ν) : List (Record ν) := .boot e.boot :: e.body

/-- All records of an epoch are of its boot. -/
theorem bootId_body (e : WellFormedEpoch ν) : ∀ r ∈ e.body, r.bootId = e.boot.bootId := by
  rintro r (_ | ⟨_, hr⟩)
  · exact e.bootId_sample
  · exact e.bootId_rest r hr

/-- An epoch has one boot record, its first. -/
theorem isBoot_body (e : WellFormedEpoch ν) : ∀ r ∈ e.body, r.isBoot = false := by
  rintro r (_ | ⟨_, hr⟩)
  · rfl
  · exact e.isBoot_rest r hr

/-- From the first record at the cutoff on, no record is older. -/
theorem timestamp_le_of_dropWhile (e : WellFormedEpoch ν) (c : U64) :
    ∀ r ∈ e.body.dropWhile (fun r => r.timestamp < c), c ≤ r.timestamp := by
  have hsorted : (e.body.dropWhile fun r => r.timestamp < c).Pairwise
      fun r r' => r.timestamp ≤ r'.timestamp :=
    (List.pairwise_cons.mp e.sorted).2.sublist (List.dropWhile_sublist _)
  cases hrest : e.body.dropWhile fun r => r.timestamp < c with
  | nil => intro r hr; cases hr
  | cons first rest =>
      have hhead : c ≤ first.timestamp := by
        have hne : e.body.dropWhile (fun r => decide (r.timestamp < c)) ≠ [] := by simp [hrest]
        simpa [hrest] using List.head_dropWhile_not _ hne
      rw [hrest] at hsorted
      rintro r (_ | ⟨_, hr⟩)
      · exact hhead
      · exact hhead.trans ((List.pairwise_cons.mp hsorted).1 r hr)

end WellFormedEpoch

/-- The records of a list of epochs. -/
def joined (epochs : List (WellFormedEpoch ν)) : List (Record ν) :=
  epochs.flatMap WellFormedEpoch.records

/-! ## What is kept of an epoch

An epoch falls into five parts: the boot record, expired records, the baseline, expired checkpoints behind it, and the
records from the cutoff on.  Each part has its own fate. -/

/-- A list has no element with `p`, or a last one. -/
theorem exists_last {α : Type} (p : α → Bool) (xs : List α) :
    (∀ x ∈ xs, p x = false) ∨
      ∃ as x bs, xs = as ++ x :: bs ∧ p x = true ∧ ∀ b ∈ bs, p b = false := by
  induction xs with
  | nil => exact .inl (by simp)
  | cons x rest ih =>
      rcases ih with hnone | ⟨as, y, bs, rfl, hy, hbs⟩
      · cases hx : p x with
        | true => exact .inr ⟨[], x, rest, rfl, hx, hnone⟩
        | false =>
            refine .inl ?_
            rintro z (_ | ⟨_, hz⟩)
            · exact hx
            · exact hnone z hz
      · exact .inr ⟨x :: as, y, bs, rfl, hy, hbs⟩

/-- A record from the cutoff on is no baseline. -/
theorem isBaseline_eq_false {c : U64} {r : Record ν} (h : c ≤ r.timestamp) :
    isBaseline c r = false := by
  cases r with
  | boot b => rfl
  | sample s => exact decide_eq_false (not_lt.mpr h)
  | checkpoint k => rfl

section Kept

variable {c : U64} {baseline : Option ℕ} {k : ℕ}

/-- What is kept of a list in two parts; in the second part the positions go on. -/
theorem keptFrom_append (xs ys : List (Record ν)) :
    keptFrom c baseline k (xs ++ ys) =
      keptFrom c baseline k xs ++ keptFrom c baseline (k + xs.length) ys := by
  simp only [keptFrom, List.zipIdx_append, List.filter_append, List.map_append]

/-- Expired records other than the first of the epoch and the baseline go. -/
theorem keptFrom_expired {rs : List (Record ν)} (hk : 0 < k) (hrs : ∀ r ∈ rs, r.timestamp < c)
    (hbaseline : ∀ i ∈ baseline, i < k ∨ k + rs.length ≤ i) : keptFrom c baseline k rs = [] := by
  rw [keptFrom, List.map_eq_nil_iff, List.filter_eq_nil_iff]
  intro e he
  have hlow := List.le_snd_of_mem_zipIdx he
  have hhigh := List.snd_lt_add_of_mem_zipIdx he
  have hts : ¬c ≤ e.1.timestamp := not_le.mpr (hrs _ (List.fst_mem_of_mem_zipIdx he))
  have hne : some e.2 ≠ baseline := by
    rintro rfl
    have := hbaseline e.2 rfl
    omega
  have hzero : e.2 ≠ 0 := by omega
  simp [hts, hne, hzero]

/-- Records from the cutoff on stay. -/
theorem keptFrom_current {rs : List (Record ν)} (hrs : ∀ r ∈ rs, c ≤ r.timestamp) :
    keptFrom c baseline k rs = rs := by
  rw [keptFrom, List.filter_eq_self.mpr]
  · simp
  · intro e he
    have hts := hrs _ (List.fst_mem_of_mem_zipIdx he)
    simp [hts]

end Kept

/-- The last sample before the cutoff. -/
def lastBaseline (c : U64) (rs : List (Record ν)) : Option (Record ν) :=
  (rs.filter (isBaseline c)).getLast?

/-- Without an expired sample there is no baseline. -/
theorem baselineIndex_eq_none {c : U64} {rs : List (Record ν)} (h : ∀ r ∈ rs, isBaseline c r = false) :
    baselineIndex c rs = none := by
  have hnil : rs.zipIdx.filter (fun e => isBaseline c e.1) = [] := by
    rw [List.filter_eq_nil_iff]
    intro e he
    simp [h _ (List.fst_mem_of_mem_zipIdx he)]
  simp [baselineIndex, hnil]

/-- The baseline is the last expired sample, whatever checkpoints come after it. -/
theorem baselineIndex_eq_some {c : U64} {xs ys : List (Record ν)} {r : Record ν}
    (hr : isBaseline c r = true) (hys : ∀ y ∈ ys, isBaseline c y = false) :
    baselineIndex c (xs ++ r :: ys) = some xs.length := by
  have hnil : (ys.zipIdx (xs.length + 1)).filter (fun e => isBaseline c e.1) = [] := by
    rw [List.filter_eq_nil_iff]
    intro e he
    simp [hys _ (List.fst_mem_of_mem_zipIdx he)]
  rw [baselineIndex, List.zipIdx_append, List.zipIdx_cons, List.filter_append]
  simp [hr, hnil]

/-- **What a compaction keeps of an epoch** it does not drop: the boot record, the baseline, and what is
not expired. -/
theorem keptFrom_epoch {c : U64} {first : Record ν} {pre post : List (Record ν)}
    (hfirst : isBaseline c first = false) (hpre : ∀ r ∈ pre, r.timestamp < c)
    (hpost : ∀ r ∈ post, c ≤ r.timestamp) :
    keptFrom c (baselineIndex c (first :: (pre ++ post))) 0 (first :: (pre ++ post)) =
      first :: ((lastBaseline c pre).toList ++ post) := by
  have hpostBase : ∀ r ∈ post, isBaseline c r = false := fun r hr => isBaseline_eq_false (hpost r hr)
  have hhead : ∀ b, keptFrom c b 0 [first] = [first] := fun b => by simp [keptFrom]
  rcases exists_last (isBaseline c) pre with hnone | ⟨as, s, bs, rfl, hs, hbs⟩
  · have hindex : baselineIndex c (first :: (pre ++ post)) = none := by
      apply baselineIndex_eq_none
      rintro r (_ | ⟨_, hr⟩)
      · exact hfirst
      · rcases List.mem_append.mp hr with hr | hr
        · exact hnone r hr
        · exact hpostBase r hr
    have hlast : lastBaseline c pre = none := by
      rw [lastBaseline, List.filter_eq_nil_iff.mpr]
      · rfl
      · intro r hr
        simp [hnone r hr]
    rw [hindex, hlast, ← List.singleton_append, keptFrom_append, hhead, keptFrom_append,
      keptFrom_expired (by simp) hpre (by simp), keptFrom_current hpost]
    rfl
  · have hindex : baselineIndex c (first :: (as ++ s :: bs ++ post)) = some (as.length + 1) := by
      have hrest : ∀ r ∈ bs ++ post, isBaseline c r = false := by
        intro r hr
        rcases List.mem_append.mp hr with hr | hr
        · exact hbs r hr
        · exact hpostBase r hr
      have hassoc : first :: (as ++ s :: bs ++ post) = (first :: as) ++ s :: (bs ++ post) := by simp
      rw [hassoc]
      exact baselineIndex_eq_some hs hrest
    have hlast : lastBaseline c (as ++ s :: bs) = some s := by
      have hnil : bs.filter (isBaseline c) = [] := by
        rw [List.filter_eq_nil_iff]
        intro r hr
        simp [hbs r hr]
      rw [lastBaseline, List.filter_append, List.filter_cons_of_pos hs, hnil]
      simp
    have has : ∀ r ∈ as, r.timestamp < c := fun r hr => hpre r (by simp [hr])
    have hbs' : ∀ r ∈ bs, r.timestamp < c := fun r hr => hpre r (by simp [hr])
    -- the five parts of the epoch: boot, expired, baseline, expired, current
    have hparts : first :: (as ++ s :: bs ++ post) = [first] ++ (as ++ ([s] ++ (bs ++ post))) := by
      simp
    have hbefore : keptFrom c (some (as.length + 1)) 1 as = [] :=
      keptFrom_expired (by omega) has (by rintro i ⟨⟩; omega)
    have hkept : keptFrom c (some (as.length + 1)) (1 + as.length) [s] = [s] := by
      simp [keptFrom, Nat.add_comm]
    have hafter : keptFrom c (some (as.length + 1)) (1 + as.length + 1) bs = [] :=
      keptFrom_expired (by omega) hbs' (by rintro i ⟨⟩; omega)
    rw [hindex, hlast, hparts]
    simp only [keptFrom_append, hhead, List.length_singleton, Nat.zero_add, hbefore, hkept, hafter,
      keptFrom_current hpost]
    rfl

/-! ## The observations of one epoch

The observations are what the answers are computed from.  So it is enough that those after the cutoff are the same,
together with the one each of them is compared with. -/

/-- Every observation is the one a record stands for. -/
theorem exists_record_of_mem_observations {rs : List (Record ν)} :
    ∀ {f : Fill ν} {o : Observation ν}, o ∈ observations f rs →
      ∃ r ∈ rs, o.timestamp = r.timestamp ∧ o.bootId = r.bootId := by
  induction rs with
  | nil => intro f o h; cases h
  | cons r rest ih =>
      intro f o h
      rcases List.mem_append.mp h with h | h
      · refine ⟨r, List.mem_cons_self, ?_⟩
        cases r with
        | boot b => cases h
        | sample s =>
            obtain rfl := by simpa [Fill.observe] using h
            exact ⟨rfl, rfl⟩
        | checkpoint k =>
            rw [Fill.observe] at h
            split at h
            · obtain ⟨state, -, rfl⟩ := by simpa using h
              exact ⟨rfl, rfl⟩
            · cases h
      · obtain ⟨r', hr', hor⟩ := ih h
        exact ⟨r', List.mem_cons_of_mem _ hr', hor⟩

/-- Within the epoch of `id`: the state a checkpoint would repeat is the state the next observation is
measured against. -/
structure Tracks (id : String) (f : Fill ν) (previous : Option (Observation ν)) : Prop where
  boot : f.boot = some id
  basis : basis id previous = f.state.map fun state => (parsedCanonicalState state).counters

/-- A record of the epoch that is not its boot keeps the two in step. -/
theorem Tracks.next {id : String} {f : Fill ν} {previous : Option (Observation ν)}
    (h : Tracks id f previous) {r : Record ν} (hid : r.bootId = id) (hboot : r.isBoot = false) :
    Tracks id (f.next r) ((f.observe r).or previous) := by
  cases r with
  | boot b => cases hboot
  | sample s =>
      refine ⟨congrArg some hid, ?_⟩
      exact basis_of_eq hid
  | checkpoint k =>
      refine ⟨h.boot, ?_⟩
      have hmatch : f.boot = some k.bootId := h.boot.trans (congrArg some hid.symm)
      simp only [Fill.observe, hmatch, if_true, Fill.next]
      cases hstate : f.state with
      | none =>
          have := h.basis
          rwa [hstate] at this
      | some state => exact basis_of_eq hid

/-- And so do all of them, one after the other. -/
theorem Tracks.foldl {id : String} {rs : List (Record ν)} :
    ∀ {f : Fill ν} {previous : Option (Observation ν)}, Tracks id f previous →
      (∀ r ∈ rs, r.bootId = id) → (∀ r ∈ rs, r.isBoot = false) →
      Tracks id (rs.foldl Fill.next f) ((observations f rs).getLast?.or previous) := by
  induction rs with
  | nil => intro f previous h _ _; exact h
  | cons r rest ih =>
      intro f previous h hid hboot
      have hnext := h.next (hid r List.mem_cons_self) (hboot r List.mem_cons_self)
      have hrest := ih hnext (fun r' hr' => hid r' (List.mem_cons_of_mem _ hr'))
        (fun r' hr' => hboot r' (List.mem_cons_of_mem _ hr'))
      rw [List.foldl_cons, observations, List.getLast?_append]
      cases hobs : f.observe r with
      | none => simpa [hobs] using hrest
      | some o =>
          rw [hobs] at hrest
          cases hlast : (observations (f.next r) rest).getLast? <;> simpa [hlast] using hrest

/-- Of expired records, only the last sample is carried on. -/
theorem foldl_next_expired {c : U64} (f : Fill ν) (rs : List (Record ν))
    (hexp : ∀ r ∈ rs, r.timestamp < c) (hboot : ∀ r ∈ rs, r.isBoot = false) :
    rs.foldl Fill.next f = (lastBaseline c rs).toList.foldl Fill.next f := by
  induction rs using List.reverseRecOn with
  | nil => rfl
  | append_singleton xs r ih =>
      have hxs := ih (fun r' hr' => hexp r' (by simp [hr'])) (fun r' hr' => hboot r' (by simp [hr']))
      rw [List.foldl_append, lastBaseline, List.filter_append]
      cases r with
      | boot b => exact absurd (hboot (.boot b) (by simp)) (by simp)
      | sample s =>
          have hs : isBaseline c (.sample s : Record ν) = true :=
            decide_eq_true (hexp (.sample s) (by simp))
          simp [hs, Fill.next]
      | checkpoint k => simpa [isBaseline, lastBaseline, Fill.next] using hxs

/-- The baseline is one of the records. -/
theorem lastBaseline_mem {c : U64} {rs : List (Record ν)} {r : Record ν} (h : r ∈ lastBaseline c rs) :
    r ∈ rs :=
  List.mem_of_mem_filter (List.mem_of_getLast? h)

section Points

variable [F64 ν]

/-- **The baseline stands for all that is expired.** The points of an epoch do not change when its expired
records are replaced by the last sample among them, nor with what came before the epoch. -/
theorem pointsAfter_lastBaseline {c : U64} {id : String} {pre post : List (Record ν)}
    (hid : ∀ r ∈ pre ++ post, r.bootId = id) (hboot : ∀ r ∈ pre ++ post, r.isBoot = false)
    (hexp : ∀ r ∈ pre, r.timestamp < c) {previous previous' : Option (Observation ν)}
    (hprev : basis id previous = none) (hprev' : basis id previous' = none) :
    pointsAfter (some c) previous (observations ⟨some id, none⟩ (pre ++ post)) =
      pointsAfter (some c) previous'
        (observations ⟨some id, none⟩ ((lastBaseline c pre).toList ++ post)) := by
  have hbase : ∀ r ∈ (lastBaseline c pre).toList, r ∈ pre := fun r hr =>
    lastBaseline_mem (Option.mem_toList.mp hr)
  have hexpired : ∀ (f : Fill ν) (rs : List (Record ν)), (∀ r ∈ rs, r ∈ pre) →
      ∀ o ∈ observations f rs, o.timestamp < c := by
    intro f rs hsub o ho
    obtain ⟨r, hr, hot, -⟩ := exists_record_of_mem_observations ho
    exact hot ▸ hexp r (hsub r hr)
  have hpre : Tracks id (pre.foldl Fill.next ⟨some id, none⟩)
      ((observations ⟨some id, none⟩ pre).getLast?.or previous) :=
    Tracks.foldl ⟨rfl, hprev⟩ (fun r hr => hid r (List.mem_append_left _ hr))
      (fun r hr => hboot r (List.mem_append_left _ hr))
  have hkept : Tracks id ((lastBaseline c pre).toList.foldl Fill.next ⟨some id, none⟩)
      ((observations ⟨some id, none⟩ (lastBaseline c pre).toList).getLast?.or previous') :=
    Tracks.foldl ⟨rfl, hprev'⟩ (fun r hr => hid r (List.mem_append_left _ (hbase r hr)))
      (fun r hr => hboot r (List.mem_append_left _ (hbase r hr)))
  rw [observations_append, observations_append, pointsAfter_append, pointsAfter_append,
    pointsAfter_expired (hexpired _ pre fun _ h => h), pointsAfter_expired (hexpired _ _ hbase),
    ← foldl_next_expired _ _ hexp fun r hr => hboot r (List.mem_append_left _ hr)]
  rw [← foldl_next_expired _ _ hexp fun r hr => hboot r (List.mem_append_left _ hr)] at hkept
  congr 1
  apply pointsAfter_congr
  intro o ho
  obtain ⟨r, hr, -, hor⟩ := exists_record_of_mem_observations (List.mem_of_head? ho)
  rw [hor, hid r (List.mem_append_right _ hr)]
  exact hpre.basis.trans hkept.basis.symm

/-! ## Whole record lists -/

/-- **One epoch.** Its points are those of what a compaction keeps of it, whatever other epochs came
before on either side. -/
theorem pointsAfter_retainedEpoch (e : WellFormedEpoch ν) (c : U64) (live : String) (usable : Bool)
    {previous previous' : Option (Observation ν)} (hprev : basis e.boot.bootId previous = none)
    (hprev' : basis e.boot.bootId previous' = none) :
    pointsAfter (some c) previous (observations {} e.records) =
      pointsAfter (some c) previous' (observations {} (retainedEpoch c live usable e.records)) := by
  let pre := e.body.takeWhile fun r => r.timestamp < c
  let post := e.body.dropWhile fun r => r.timestamp < c
  have hbody : e.body = pre ++ post := (List.takeWhile_append_dropWhile).symm
  have hexp : ∀ r ∈ pre, r.timestamp < c := fun r hr => by simpa using List.mem_takeWhile_imp hr
  rw [retainedEpoch]
  split
  · rw [WellFormedEpoch.records, hbody, keptFrom_epoch rfl hexp (e.timestamp_le_of_dropWhile c)]
    exact pointsAfter_lastBaseline (hbody ▸ e.bootId_body) (hbody ▸ e.isBoot_body) hexp hprev hprev'
  · -- a dropped epoch is all expired
    rename_i hdropped
    refine pointsAfter_expired ?_ previous
    intro o ho
    obtain ⟨r, hr, hot, -⟩ := exists_record_of_mem_observations ho
    have hall : ∀ r ∈ e.records, r.timestamp < c := by
      simp only [Bool.or_eq_true, not_or, List.any_eq_true, not_exists, not_and, decide_eq_true_eq,
        not_le] at hdropped
      exact hdropped.2
    exact hot ▸ hall r hr

end Points

/-- The records start an epoch, if there are any. -/
def StartsEpoch (rs : List (Record ν)) : Prop := ∀ r ∈ rs.head?, r.isBoot = true

/-- A list of whole epochs starts with a boot record. -/
theorem startsEpoch_joined (epochs : List (WellFormedEpoch ν)) : StartsEpoch (joined epochs) := by
  cases epochs with
  | nil => intro r hr; cases hr
  | cons e rest => rintro r ⟨⟩; rfl

/-- What comes before an epoch does not change its observations. -/
theorem observations_of_startsEpoch {rs : List (Record ν)} (h : StartsEpoch rs) (f f' : Fill ν) :
    observations f rs = observations f' rs := by
  cases rs with
  | nil => rfl
  | cons r rest =>
      cases r with
      | boot b => rfl
      | sample s => exact absurd (h (.sample s) rfl) (by simp)
      | checkpoint k => exact absurd (h (.checkpoint k) rfl) (by simp)

/-- A compaction drops an epoch whole, or what it keeps starts with the boot record. -/
theorem retainedEpoch_eq_nil_or (c : U64) (live : String) (usable : Bool) (e : WellFormedEpoch ν) :
    retainedEpoch c live usable e.records = [] ∨
      ∃ rest, retainedEpoch c live usable e.records = .boot e.boot :: rest := by
  rw [retainedEpoch]
  split
  · exact .inr ⟨_, rfl⟩
  · exact .inl rfl

/-- A compaction treats each epoch for itself. -/
theorem retainedCompactionRecords_joined (c : U64) (live : String) (usable : Bool)
    (epochs : List (WellFormedEpoch ν)) :
    retainedCompactionRecords c live usable (joined epochs) =
      epochs.flatMap fun e => retainedEpoch c live usable e.records := by
  induction epochs with
  | nil => simp [joined, retainedCompactionRecords]
  | cons e rest ih =>
      have hin : ∀ r ∈ e.body, (!r.isBoot) = true := fun r hr => by simp [e.isBoot_body r hr]
      have hnext : (joined rest).takeWhile (fun r => !r.isBoot) = [] ∧
          (joined rest).dropWhile (fun r => !r.isBoot) = joined rest := by
        cases rest <;> simp [joined, WellFormedEpoch.records]
      have htake : (e.body ++ joined rest).takeWhile (fun r => !r.isBoot) = e.body := by
        rw [List.takeWhile_append_of_pos hin, hnext.1, List.append_nil]
      have hdrop : (e.body ++ joined rest).dropWhile (fun r => !r.isBoot) = joined rest := by
        rw [List.dropWhile_append_of_pos hin, hnext.2]
      have hsplit : joined (e :: rest) = .boot e.boot :: (e.body ++ joined rest) := rfl
      rw [hsplit, retainedCompactionRecords, htake, hdrop, ih]
      rfl

/-- Every record that is kept was there before. -/
theorem mem_of_mem_retainedEpoch {c : U64} {live : String} {usable : Bool} {epoch : List (Record ν)}
    {r : Record ν} (h : r ∈ retainedEpoch c live usable epoch) : r ∈ epoch := by
  rw [retainedEpoch] at h
  split at h
  · obtain ⟨e, he, rfl⟩ := List.mem_map.mp h
    exact List.fst_mem_of_mem_zipIdx (List.mem_of_mem_filter he)
  · cases h

/-- What a compaction leaves of whole epochs starts an epoch again. -/
theorem startsEpoch_retained (c : U64) (live : String) (usable : Bool)
    (epochs : List (WellFormedEpoch ν)) :
    StartsEpoch (epochs.flatMap fun e => retainedEpoch c live usable e.records) := by
  induction epochs with
  | nil => intro r hr; cases hr
  | cons e rest ih =>
      rw [List.flatMap_cons]
      rcases retainedEpoch_eq_nil_or c live usable e with h | ⟨tail, h⟩
      · rwa [h]
      · rw [h]
        rintro r ⟨⟩
        rfl

/-- Past observations of another boot are no basis. -/
theorem basis_getLast_or {id id' : String} (hne : id' ≠ id) {os : List (Observation ν)}
    (hos : ∀ o ∈ os, o.bootId = id) {previous : Option (Observation ν)}
    (hprev : basis id' previous = none) : basis id' (os.getLast?.or previous) = none := by
  cases hlast : os.getLast? with
  | none => simpa using hprev
  | some o =>
      have ho : o.bootId = id := hos o (List.mem_of_getLast? hlast)
      exact basis_of_ne fun h => hne (h.symm.trans ho)

section Answers

variable [F64 ν]

/-- The observations of a list of epochs, and those of what a compaction keeps, give the same points. -/
theorem pointsAfter_retained (c : U64) (live : String) (usable : Bool) :
    ∀ (epochs : List (WellFormedEpoch ν)) (previous previous' : Option (Observation ν)),
      (epochs.map fun e => e.boot.bootId).Nodup →
      (∀ e ∈ epochs, basis e.boot.bootId previous = none ∧ basis e.boot.bootId previous' = none) →
      pointsAfter (some c) previous (observations {} (joined epochs)) =
        pointsAfter (some c) previous'
          (observations {} (epochs.flatMap fun e => retainedEpoch c live usable e.records)) := by
  intro epochs
  induction epochs with
  | nil => intro previous previous' _ _; rfl
  | cons e rest ih =>
      intro previous previous' hnodup hbasis
      obtain ⟨hnew, hnodup⟩ := List.nodup_cons.mp hnodup
      obtain ⟨hprev, hprev'⟩ := hbasis e List.mem_cons_self
      -- the observations of an epoch are of its boot, so they are no basis for those of the next
      have hids : ∀ rs : List (Record ν), (∀ r ∈ rs, r ∈ e.records) →
          ∀ o ∈ observations {} rs, o.bootId = e.boot.bootId := by
        intro rs hsub o ho
        obtain ⟨r, hr, -, hor⟩ := exists_record_of_mem_observations ho
        rw [hor]
        rcases List.mem_cons.mp (hsub r hr) with rfl | hbody
        · rfl
        · exact e.bootId_body r hbody
      rw [joined, List.flatMap_cons, ← joined, List.flatMap_cons, observations_append,
        observations_append, observations_of_startsEpoch (startsEpoch_joined rest) _ {},
        observations_of_startsEpoch (startsEpoch_retained c live usable rest) _ {},
        pointsAfter_append, pointsAfter_append,
        pointsAfter_retainedEpoch e c live usable hprev hprev']
      congr 1
      refine ih _ _ hnodup ?_
      intro e' he'
      have hne : e'.boot.bootId ≠ e.boot.bootId := fun h =>
        hnew (List.mem_map.mpr ⟨e', he', h⟩)
      obtain ⟨h, h'⟩ := hbasis e' (List.mem_cons_of_mem _ he')
      exact ⟨basis_getLast_or hne (hids _ fun _ hr => hr) h,
        basis_getLast_or hne (hids _ fun _ hr => mem_of_mem_retainedEpoch hr) h'⟩

/-- **Compaction preserves every answer.** Replaying what a compaction keeps of a history gives the
points, and the span, that replaying the history gives, at the compaction's cutoff. -/
theorem enrichCanonicalReplay_retainedCompactionRecords (epochs : List (WellFormedEpoch ν))
    (hboots : (epochs.map fun e => e.boot.bootId).Nodup) (cutoff : U64) (liveBootId : String)
    (liveEpochUsable : Bool) (replay replay' : Replay ν) :
    let whole := (enrichCanonicalReplay replay {} (joined epochs) (some cutoff)).2
    let kept := (enrichCanonicalReplay replay' {}
      (retainedCompactionRecords cutoff liveBootId liveEpochUsable (joined epochs)) (some cutoff)).2
    kept.points = whole.points ∧ kept.availableFrom = whole.availableFrom ∧
      kept.availableTo = whole.availableTo := by
  intro whole kept
  have hpoints : kept.points = whole.points := by
    simp only [whole, kept, (enrichCanonicalReplay_after _ _ _).2, retainedCompactionRecords_joined]
    exact (pointsAfter_retained cutoff liveBootId liveEpochUsable epochs none none hboots
      fun e _ => ⟨rfl, rfl⟩).symm
  refine ⟨hpoints, ?_, ?_⟩
  · show kept.points.head?.map IndexedPoint.t = whole.points.head?.map IndexedPoint.t
    rw [hpoints]
  · show kept.points.getLast?.map IndexedPoint.t = whole.points.getLast?.map IndexedPoint.t
    rw [hpoints]

end Answers

/-- Two processes: the first scrapes a counter at 5, idles, and scrapes it at 9; the second restarts it
at 2 and idles. -/
def restarted : List (WellFormedEpoch ℚ) :=
  [{ boot := ⟨10, "a", ⟨40, 1, [40]⟩⟩
     sample := ⟨20, "a", ⟨40, 1, [40]⟩, [⟨.counter, "hits_total", ∅, 5⟩]⟩
     rest := [.checkpoint ⟨30, "a", ⟨40, 1, [40]⟩⟩,
       .sample ⟨40, "a", ⟨40, 1, [40]⟩, [⟨.counter, "hits_total", ∅, 9⟩]⟩]
     bootId_sample := rfl
     bootId_rest := by decide
     isBoot_rest := by decide
     sorted := by decide },
   { boot := ⟨50, "b", ⟨80, 2, [40, 40]⟩⟩
     sample := ⟨60, "b", ⟨80, 2, [40, 40]⟩, [⟨.counter, "hits_total", ∅, 2⟩]⟩
     rest := [.checkpoint ⟨70, "b", ⟨80, 2, [40, 40]⟩⟩]
     bootId_sample := rfl
     bootId_rest := by decide
     isBoot_rest := by decide
     sorted := by decide }]

/-- At cutoff 35 the checkpoint at 30 goes, the sample at 20 stays as the baseline, and three points are
left on both sides. -/
theorem enrichCanonicalReplay_retained_restarted :
    (retainedCompactionRecords 35 "b" true (joined restarted)).length + 1 = (joined restarted).length ∧
      (enrichCanonicalReplay {} {} (joined restarted) (some 35)).2.points.map (·.deltas.values) =
        [[4], [2], [0]] ∧
      (enrichCanonicalReplay {} {} (retainedCompactionRecords 35 "b" true (joined restarted))
          (some 35)).2.points =
        (enrichCanonicalReplay {} {} (joined restarted) (some 35)).2.points :=
  ⟨by decide +kernel, by decide +kernel,
    (enrichCanonicalReplay_retainedCompactionRecords restarted (by decide) 35 "b" true {} {}).1⟩

end Flock.History
