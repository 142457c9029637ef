/-
# Flock.History.FirstBoot — the publication of the first canonical file.

An opener that finds no canonical file writes its boot record to a temporary of its own, syncs it, links it under the
canonical name, removes the temporary and syncs the directory.  The link fails where the name exists, and then the
opener joins: it validates the file and appends its boot record.  Any number of openers run at once; an operation may
fail, a process may be killed and the machine may crash between any two of them.

A file is linked only after its boot line has been synced, so whatever a crash leaves under the canonical name begins
with a whole boot line (`first_boot_whole`).  Once one opener has published, all that ever open the store share its
file, and nothing that was synced to it is lost (`first_boot_settled`).  An opener that nothing disturbs writes what
`HistoryStore.open` returns (`first_boot_solo`).  The rename of a compaction is not part of this.

The invariant has two halves.  Of the volume: whatever can be the file under the canonical name, now or after a crash,
has a synced boot line in front.  Of each opener: what it will rely on in its next operation is there.  An operation
of one opener is then checked against all the others through `Keeps`, so that no pair of operations has to be looked
at.
-/
import Flock.History.Json
import Flock.History.Store
import Flock.Lib.Volume
import Flock.Lib.Transition

namespace Flock.History

open Lib (System Volume)

/-! ## The openers

An opener stands at one of the operations of `open`, and each event performs one of them, whole, in part or with an
error.  The validation of a file reads it at once: nobody removes from a canonical file. -/

/-- The names of the data directory. -/
inductive HistoryName where
  | canonical
  /-- `TEMP_PREFIX` and this. -/
  | temporary (suffix : String)
  deriving DecidableEq

/-- Where `HistoryStore::open` stands. -/
inductive Opener where
  | probing (boot : BootRecord)
  /-- There is no canonical file. -/
  | missing (boot : BootRecord)
  | created (boot : BootRecord) (suffix : String) (file : ℕ)
  | written (boot : BootRecord) (suffix : String) (file : ℕ)
  | synced (boot : BootRecord) (suffix : String) (file : ℕ)
  | linked (boot : BootRecord) (suffix : String) (file : ℕ)
  | removed (boot : BootRecord)
  | published (boot : BootRecord)
  /-- There is a canonical file. -/
  | joining (boot : BootRecord)
  /-- It is valid; and whether it needs a separator. -/
  | validated (boot : BootRecord) (needsSeparator : Bool)
  | separated (boot : BootRecord) (file : ℕ)
  /-- The store is open; and whether this opener published the file. -/
  | opened (file : ℕ) (publisher : Bool)
  | failed

/-- What an opener does next, or what befalls it. A write goes to the end of a file whole, or is torn after so many
bytes by an error. -/
inductive OpenerEvent where
  | start (id : ℕ) (boot : BootRecord)
  | probe (id : ℕ)
  /-- `create_temporary` finds a free name -/
  | create (id : ℕ) (suffix : String)
  /-- thirty-two names were taken: an `AlreadyExists` of its own -/
  | clash (id : ℕ)
  | write (id : ℕ) (torn : Option ℕ)
  | sync (id : ℕ)
  | link (id : ℕ)
  | remove (id : ℕ)
  | syncDirectory (id : ℕ)
  | reopen (id : ℕ)
  | validate (id : ℕ)
  | separate (id : ℕ) (torn : Option ℕ)
  | join (id : ℕ) (torn : Option ℕ)
  /-- a runtime append of an open store, whole or torn -/
  | append (id : ℕ) (bytes : Bytes)
  | flush (id : ℕ)
  /-- an I/O error at any of these, or the end of the process -/
  | fail (id : ℕ)
  | kill (id : ℕ)
  | crash (pick : HistoryName → Option ℕ) (keep : ℕ → ℕ)

/-- The data directory, the openers, and the boot records they came with. -/
structure DataDirectory where
  volume : Volume HistoryName := {}
  openers : ℕ → Option Opener := fun _ => none
  boots : List BootRecord := []

namespace DataDirectory

variable {ν : Type} [F64 ν] (S : Serde ν)

/-- The boot line of an opener. -/
def bootLine (boot : BootRecord) : Except WriteError Bytes := appendRecord S [] (.boot boot : Record ν)

/-- The openers, one of them replaced. -/
def setOpener (s : DataDirectory) (id : ℕ) (o : Option Opener) : DataDirectory :=
  { s with openers := Function.update s.openers id o }

/-- An opener goes on, and has done this to the directory. -/
def act (s : DataDirectory) (id : ℕ) (o : Opener) (v : Volume HistoryName) : DataDirectory :=
  { s.setOpener id (some o) with volume := v }

/-- Of two things an opener does in one go, the second is where it stands. -/
theorem act_act (s : DataDirectory) (id : ℕ) (o o' : Opener) (v v' : Volume HistoryName) :
    (s.act id o v).act id o' v' = s.act id o' v' := by
  unfold act setOpener
  simp

/-- An opener writes to a file, and goes on if all is written. -/
def write (s : DataDirectory) (id file : ℕ) (bytes : Bytes) (torn : Option ℕ) (o : Opener) : DataDirectory :=
  match torn with
  | none => s.act id o (s.volume.append file bytes)
  | some k => s.act id .failed (s.volume.append file (bytes.take k))

/-- The same, and then syncs the file. -/
def writeSync (s : DataDirectory) (id file : ℕ) (bytes : Bytes) (torn : Option ℕ) (o : Opener) : DataDirectory :=
  match torn with
  | none => s.act id o ((s.volume.append file bytes).sync file)
  | some k => s.act id .failed (s.volume.append file (bytes.take k))

/-- `validate_canonical` and `ensure_open_timestamp`: whether the opener may join, and needs a separator. -/
def joins (file : Bytes) (boot : BootRecord) : Option Bool :=
  match validateCanonical S file with
  | .ok replay => if notOlder replay.orderingBound (.boot boot : Record ν) then some replay.needsSeparator else none
  | .error _ => none

/-- One operation of one opener, by where it stands. -/
def advance (s : DataDirectory) (id : ℕ) : Opener → OpenerEvent → Option DataDirectory
  | .probing boot, .probe _ =>
      if (s.volume.entry .canonical).isSome then some (s.act id (.joining boot) s.volume)
      else some (s.act id (.missing boot) s.volume)
  | .missing boot, .create _ suffix =>
      if (s.volume.entry (.temporary suffix)).isSome then none
      else
        some (s.act id (.created boot suffix s.volume.next) (s.volume.create (.temporary suffix)))
  | .missing boot, .clash _ => some (s.act id (.joining boot) s.volume)
  | .created boot suffix file, .write _ torn =>
      match bootLine S boot with
      | .ok line => some (s.write id file line torn (.written boot suffix file))
      | .error _ => some (s.act id .failed s.volume)
  | .written boot suffix file, .sync _ => some (s.act id (.synced boot suffix file) (s.volume.sync file))
  | .synced boot suffix _, .link _ =>
      match s.volume.entry (.temporary suffix), s.volume.entry .canonical with
      | some file, none => some (s.act id (.linked boot suffix file) (s.volume.bind .canonical (some file)))
      | some _, some _ => some (s.act id (.joining boot) s.volume)
      | none, _ => some (s.act id .failed s.volume)
  | .linked boot suffix _, .remove _ =>
      some (s.act id (.removed boot) (s.volume.bind (.temporary suffix) none))
  | .removed boot, .syncDirectory _ => some (s.act id (.published boot) s.volume.syncDirectory)
  | .published _, .reopen _ =>
      match s.volume.entry .canonical with
      | some file => some (s.act id (.opened file true) s.volume)
      | none => some (s.act id .failed s.volume)
  | .joining boot, .validate _ =>
      match s.volume.entry .canonical with
      | some file =>
          match joins S (s.volume.data file) boot with
          | some needsSeparator => some (s.act id (.validated boot needsSeparator) s.volume)
          | none => some (s.act id .failed s.volume)
      | none => some (s.act id .failed s.volume)
  | .validated boot needsSeparator, .separate _ torn =>
      match s.volume.entry .canonical with
      | some file =>
          if needsSeparator then some (s.writeSync id file [newline] torn (.separated boot file))
          else some (s.act id (.separated boot file) s.volume)
      | none => some (s.act id .failed s.volume)
  | .separated boot file, .join _ torn =>
      match bootLine S boot with
      | .ok line => some (s.writeSync id file line torn (.opened file false))
      | .error _ => some (s.act id .failed s.volume)
  | .opened file publisher, .append _ bytes =>
      some (s.act id (.opened file publisher) (s.volume.append file bytes))
  | .opened file publisher, .flush _ => some (s.act id (.opened file publisher) (s.volume.sync file))
  | _, .fail _ => some (s.act id .failed s.volume)
  | _, _ => none

/-- Whose operation it is. -/
def actor : OpenerEvent → Option ℕ
  | .start .. | .kill _ | .crash .. => none
  | .probe id | .create id _ | .clash id | .write id _ | .sync id | .link id | .remove id | .syncDirectory id
  | .reopen id | .validate id | .separate id _ | .join id _ | .append id _ | .flush id | .fail id => some id

/-- One event; a crash that cannot happen is no event. -/
def Step (s : DataDirectory) (e : OpenerEvent) (s' : DataDirectory) : Prop :=
  match e with
  | .start id boot =>
      s.openers id = none ∧ s' = { s.setOpener id (some (.probing boot)) with boots := boot :: s.boots }
  | .kill id => s' = s.setOpener id none
  | .crash pick keep =>
      s.volume.Crashes pick keep ∧ s' = { s with volume := s.volume.crash pick keep, openers := fun _ => none }
  | e => ∃ id o, actor e = some id ∧ s.openers id = some o ∧ advance S s id o e = some s'

end DataDirectory

/-- The runs from a data directory that has no canonical file. -/
def firstBootSystem {ν : Type} [F64 ν] (S : Serde ν) : System DataDirectory OpenerEvent where
  init s := s.volume.Sane ∧ s.volume.left .canonical = [none] ∧ (∀ id, s.openers id = none) ∧ s.boots = []
  step := DataDirectory.Step S

/-! ## An opener that nothing disturbs

The two ways through `open` that nobody disturbs, as runs of single operations.  Their result is what the sequential
model of `open` returns on the same data directory. -/

section Solo

variable {ν : Type} [F64 ν] {S : Serde ν} {v w : Volume HistoryName} {s : DataDirectory} {e : OpenerEvent} {o : Opener}

/-- The canonical file, as `HistoryStore.open` has it. -/
def DataDirectory.disk (s : DataDirectory) : Option Bytes := (s.volume.entry .canonical).map s.volume.data

/-- An opener goes on. -/
theorem run_advance {s₀ : DataDirectory} {es : List OpenerEvent} {id : ℕ} {next : Opener}
    (hrun : (firstBootSystem S).Run s₀ es (s.act id o v)) (hactor : DataDirectory.actor e = some id)
    (h : DataDirectory.advance S (s.act id o v) id o e = some ((s.act id o v).act id next w)) :
    (firstBootSystem S).Run s₀ (es ++ [e]) (s.act id next w) := by
  rw [DataDirectory.act_act] at h
  have hid : (s.act id o v).openers id = some o := Function.update_self ..
  cases e with
  | start | kill | crash => cases hactor
  | _ => exact .snoc hrun ⟨id, o, hactor, hid, h⟩

/-- An opener starts by looking for the canonical name. -/
theorem run_start {id : ℕ} (hid : s.openers id = none) (boot : BootRecord) :
    (firstBootSystem S).Run s [.start id boot]
      (DataDirectory.act { s with boots := boot :: s.boots } id (.probing boot) s.volume) :=
  .single ⟨hid, rfl⟩

/-- A publisher that nothing disturbs. -/
theorem run_publish {id : ℕ} {boot : BootRecord} {suffix : String} {line : Bytes} (hid : s.openers id = none)
    (hsuffix : s.volume.entry (.temporary suffix) = none) (hfree : s.volume.entry .canonical = none)
    (hline : DataDirectory.bootLine S boot = .ok line) :
    ∃ es s', (firstBootSystem S).Run s es s' ∧ s'.openers id = some (.opened s.volume.next true) ∧
      s'.volume.entry .canonical = some s.volume.next ∧ s'.volume.data s.volume.next = line ∧
      s'.volume.synced s.volume.next = line.length := by
  -- the volume after each of the operations
  let n := s.volume.next
  let v₁ := s.volume.create (.temporary suffix)
  let v₂ := (v₁.append n line).sync n
  let v₃ := v₂.bind .canonical (some n)
  let v₄ := (v₃.bind (.temporary suffix) none).syncDirectory
  have hdata : (v₁.append n line).data n = line := by
    rw [Volume.data_append_self, Volume.data_create_self, List.nil_append]
  have hname : HistoryName.canonical ≠ .temporary suffix := by simp
  have hfree₂ : v₂.entry .canonical = none := (Volume.entry_create_of_ne hname s.volume).trans hfree
  have htemp₂ : v₂.entry (.temporary suffix) = some n := Volume.entry_create_self ..
  have hentry₄ : v₄.entry .canonical = some n :=
    (Volume.entry_bind_of_ne hname v₃ none).trans (Volume.entry_bind_self ..)
  -- the operations, one after the other
  have hprobed := run_advance (w := s.volume) (e := .probe id) (run_start (S := S) hid boot) rfl
    (show _ = some (DataDirectory.act _ id (.missing boot) _) by simp [DataDirectory.advance, DataDirectory.act, hfree])
  have hcreated := run_advance (w := v₁) (e := .create id suffix) hprobed rfl
    (show _ = some (DataDirectory.act _ id (.created boot suffix n) _) by
      simp [DataDirectory.advance, DataDirectory.act, hsuffix, v₁, n])
  have hwritten := run_advance (w := v₁.append n line) (e := .write id none) hcreated rfl
    (show _ = some (DataDirectory.act _ id (.written boot suffix n) _) by
      simp [DataDirectory.advance, DataDirectory.write, hline, DataDirectory.act])
  have hsynced := run_advance (w := v₂) (e := .sync id) hwritten rfl
    (show _ = some (DataDirectory.act _ id (.synced boot suffix n) _) from rfl)
  have hlinked := run_advance (w := v₃) (e := .link id) hsynced rfl
    (show _ = some (DataDirectory.act _ id (.linked boot suffix n) _) by
      simp [DataDirectory.advance, DataDirectory.act, hfree₂, htemp₂, v₃])
  have hremoved := run_advance (w := v₃.bind (.temporary suffix) none) (e := .remove id) hlinked rfl
    (show _ = some (DataDirectory.act _ id (.removed boot) _) from rfl)
  have hpublished := run_advance (w := v₄) (e := .syncDirectory id) hremoved rfl
    (show _ = some (DataDirectory.act _ id (.published boot) _) from rfl)
  have hopened := run_advance (w := v₄) (e := .reopen id) hpublished rfl
    (show _ = some (DataDirectory.act _ id (.opened n true) _) by
      simp [DataDirectory.advance, DataDirectory.act, hentry₄])
  refine ⟨_, _, hopened, Function.update_self .., hentry₄, hdata, ?_⟩
  show Function.update v₁.synced n ((v₁.append n line).data n).length n = line.length
  rw [Function.update_self, hdata]

/-- One that joins, and that nothing disturbs. -/
theorem run_join {id file : ℕ} {boot : BootRecord} {needsSeparator : Bool} {line : Bytes} (hid : s.openers id = none)
    (hentry : s.volume.entry .canonical = some file)
    (hjoins : DataDirectory.joins S (s.volume.data file) boot = some needsSeparator)
    (hline : DataDirectory.bootLine S boot = .ok line) :
    ∃ es s', (firstBootSystem S).Run s es s' ∧ s'.openers id = some (.opened file false) ∧
      s'.volume.entry .canonical = some file ∧
      s'.volume.data file = (if needsSeparator then s.volume.data file ++ [newline] else s.volume.data file) ++ line ∧
      s'.volume.synced file = (s'.volume.data file).length := by
  let v₁ := if needsSeparator then (s.volume.append file [newline]).sync file else s.volume
  have hdata₁ : v₁.data file = if needsSeparator then s.volume.data file ++ [newline] else s.volume.data file := by
    cases needsSeparator with
    | false => rfl
    | true => exact Volume.data_append_self ..
  have hentry₁ : v₁.entry .canonical = some file := by cases needsSeparator <;> exact hentry
  have hprobed := run_advance (w := s.volume) (e := .probe id) (run_start (S := S) hid boot) rfl
    (show _ = some (DataDirectory.act _ id (.joining boot) _) by
      simp [DataDirectory.advance, DataDirectory.act, hentry])
  have hvalidated := run_advance (w := s.volume) (e := .validate id) hprobed rfl
    (show _ = some (DataDirectory.act _ id (.validated boot needsSeparator) _) by
      simp [DataDirectory.advance, DataDirectory.act, hentry, hjoins])
  have hseparated := run_advance (w := v₁) (e := .separate id none) hvalidated rfl
    (show _ = some (DataDirectory.act _ id (.separated boot file) _) by
      cases needsSeparator <;>
        simp [DataDirectory.advance, DataDirectory.act, DataDirectory.writeSync, hentry, v₁])
  have hjoined := run_advance (w := (v₁.append file line).sync file) (e := .join id none) hseparated rfl
    (show _ = some (DataDirectory.act _ id (.opened file false) _) by
      simp [DataDirectory.advance, DataDirectory.act, DataDirectory.writeSync, hline])
  refine ⟨_, _, hjoined, Function.update_self .., hentry₁, ?_, Function.update_self ..⟩
  show (v₁.append file line).data file = _
  rw [Volume.data_append_self, hdata₁]

/-- What is appended does not depend on the file. -/
theorem appendRecord_eq_ok {file bytes : Bytes} {r : Record ν} (h : appendRecord S file r = .ok bytes) :
    ∃ line, appendRecord S [] r = .ok line ∧ bytes = file ++ line := by
  unfold appendRecord at h ⊢
  cases hencode : encodeRecord S r with
  | error => simp [hencode] at h
  | ok body =>
      simp only [hencode, Except.ok.injEq] at h
      exact ⟨[] ++ body ++ [newline], rfl, by simp [← h]⟩

/-- **Undisturbed, an opener does what `HistoryStore.open` says.**  Where `HistoryStore.open` accepts the canonical
file, or its absence, and returns the file it leaves, an opener that takes its steps one after another opens the store
and leaves that file, all of it synced; and it is the publisher exactly if there was no file. -/
theorem first_boot_solo [DecidableEq ν] {id : ℕ} {boot : BootRecord} {suffix : String} {store : HistoryStore ν}
    {bytes : Bytes} (hid : s.openers id = none) (hsuffix : s.volume.entry (.temporary suffix) = none)
    (hopen : HistoryStore.open S s.disk boot.timestamp boot.capacity boot.bootId = .ok (store, bytes)) :
    ∃ es s' file, (firstBootSystem S).Run s es s' ∧ s'.openers id = some (.opened file s.disk.isNone) ∧
      s'.volume.entry .canonical = some file ∧ s'.volume.data file = bytes ∧
      s'.volume.synced file = bytes.length := by
  -- a publisher where the name is free, and one that joins where it is not
  cases hentry : s.volume.entry .canonical with
  | none =>
      have hdisk : s.disk = none := by simp [DataDirectory.disk, hentry]
      rw [hdisk] at hopen ⊢
      simp only [HistoryStore.open] at hopen
      cases hline : appendRecord S [] (.boot boot : Record ν) with
      | error => simp [hline] at hopen
      | ok line =>
          simp only [hline, Except.ok.injEq, Prod.mk.injEq] at hopen
          obtain ⟨-, rfl⟩ := hopen
          obtain ⟨es, s', hrun, hend⟩ := run_publish hid hsuffix hentry hline
          exact ⟨es, s', _, hrun, hend⟩
  | some file =>
      have hdisk : s.disk = some (s.volume.data file) := by simp [DataDirectory.disk, hentry]
      rw [hdisk] at hopen ⊢
      simp only [HistoryStore.open] at hopen
      cases hvalid : validateCanonical S (s.volume.data file) with
      | error => simp [hvalid] at hopen
      | ok replay =>
          simp only [hvalid] at hopen
          split at hopen
          · next holder =>
              have hjoins : DataDirectory.joins S (s.volume.data file) boot = some replay.needsSeparator := by
                simp [DataDirectory.joins, hvalid, holder]
              split at hopen
              · cases hopen
              · next after happend =>
                  obtain ⟨line, hline, hafter⟩ := appendRecord_eq_ok happend
                  simp only [Except.ok.injEq, Prod.mk.injEq] at hopen
                  obtain ⟨-, rfl⟩ := hopen
                  obtain ⟨es, s', hrun, hopened, hentry', hdata, hsynced⟩ := run_join hid hentry hjoins hline
                  rw [← hafter] at hdata
                  exact ⟨es, s', file, hrun, hopened, hentry', hdata, hdata ▸ hsynced⟩
          · cases hopen

end Solo

/-- A boot record. -/
def firstBoot : BootRecord := ⟨40, "a", ⟨40, 1, [40]⟩⟩

theorem bootLine_firstBoot : ∃ line, DataDirectory.bootLine json firstBoot = .ok line := by
  have hencode : ∃ body, encodeRecord json (.boot firstBoot) = .ok body := ⟨_, rfl⟩
  obtain ⟨body, hbody⟩ := hencode
  exact ⟨[] ++ body ++ [newline], by simp [DataDirectory.bootLine, appendRecord, hbody]⟩

/-- It is the first to open an empty data directory. -/
theorem first_boot_solo_empty :
    ∃ store bytes, HistoryStore.open json none firstBoot.timestamp firstBoot.capacity firstBoot.bootId =
        .ok (store, bytes) ∧
      ∃ es s' file, (firstBootSystem json).Run {} es s' ∧ s'.openers 0 = some (.opened file true) ∧
        s'.volume.entry .canonical = some file ∧ s'.volume.data file = bytes ∧
        s'.volume.synced file = bytes.length := by
  obtain ⟨line, hline⟩ := bootLine_firstBoot
  have hline : appendRecord json [] (.boot ⟨firstBoot.timestamp, firstBoot.bootId, firstBoot.capacity⟩) = .ok line :=
    hline
  have hopen : ∃ store, HistoryStore.open json none firstBoot.timestamp firstBoot.capacity firstBoot.bootId =
      .ok (store, line) := by
    simp only [HistoryStore.open, hline]
    exact ⟨_, rfl⟩
  obtain ⟨store, hopen⟩ := hopen
  refine ⟨store, line, hopen, ?_⟩
  exact @first_boot_solo _ _ json {} _ 0 firstBoot "f" store line rfl rfl hopen

/-- One opener has published. -/
theorem exists_published : ∃ s, (firstBootSystem json).Reachable s ∧ s.openers 0 = some (.opened 0 true) ∧
    s.volume.entry .canonical = some 0 := by
  obtain ⟨line, hline⟩ := bootLine_firstBoot
  obtain ⟨es, s, hrun, hopened, hentry, -⟩ :=
    @run_publish _ _ json {} 0 firstBoot "f" line rfl rfl rfl hline
  exact ⟨s, ⟨{}, es, ⟨.boot, rfl, fun _ => rfl, rfl⟩, hrun⟩, hopened, hentry⟩

/-! ## What holds of an opener

The record it came with is remembered by the data directory, so that a file can be said to begin with the line of some
opener that was really there. -/

section Invariant

variable {ν : Type} [F64 ν] {S : Serde ν} {v v' : Volume HistoryName} {boots boots' : List BootRecord}
  {s s' : DataDirectory} {e : OpenerEvent} {o : Opener}

namespace Opener

/-- The temporary of an opener, until it removes it. -/
def temp : Opener → Option (String × ℕ)
  | .created _ suffix file | .written _ suffix file | .synced _ suffix file | .linked _ suffix file =>
      some (suffix, file)
  | _ => none

/-- The record an opener came with, while it is needed. -/
def boot : Opener → Option BootRecord
  | .probing b | .missing b | .created b .. | .written b .. | .synced b .. | .linked b .. | .removed b | .published b
  | .joining b | .validated b _ | .separated b _ => some b
  | .opened .. | .failed => none

/-- How far an opener has come. -/
def Progress (S : Serde ν) (v : Volume HistoryName) : Opener → Prop
  | .created _ _ file => v.data file = [] ∧ some file ∉ v.left .canonical
  | .written b _ file => ∃ line, DataDirectory.bootLine S b = .ok line ∧ line <+: v.data file
  | .synced b _ file => ∃ line, DataDirectory.bootLine S b = .ok line ∧ v.Begins file line
  | .linked .. | .removed _ => ∃ file, v.entry .canonical = some file
  | .published _ => ∃ file, v.Settled .canonical file
  | .separated _ file => v.entry .canonical = some file
  | .opened file publisher => v.entry .canonical = some file ∧ (publisher = true → v.Settled .canonical file)
  | _ => True

/-- What holds of an opener: its record is known, its temporary is there, and it has come so far. -/
structure Sound (S : Serde ν) (v : Volume HistoryName) (boots : List BootRecord) (o : Opener) : Prop where
  known : ∀ b, o.boot = some b → b ∈ boots
  temp : ∀ suffix file, o.temp = some (suffix, file) → v.entry (.temporary suffix) = some file ∧ file < v.next
  progress : o.Progress S v

/-- What the operations of others leave to an opener. -/
structure Keeps (v v' : Volume HistoryName) (o : Opener) : Prop where
  canonical : ∀ file, v.entry .canonical = some file → v'.entry .canonical = some file
  settled : ∀ file, v.Settled .canonical file → v'.Settled .canonical file
  next : v.next ≤ v'.next
  temp : ∀ suffix file, o.temp = some (suffix, file) → file < v.next → v.entry (.temporary suffix) = some file →
    v'.entry (.temporary suffix) = some file ∧ v.data file <+: v'.data file ∧
      (∀ line, v.Begins file line → v'.Begins file line) ∧
      (some file ∉ v.left .canonical → v.data file = [] → v'.data file = [] ∧ some file ∉ v'.left .canonical)

/-- What holds of an opener outlasts what others do to the volume. -/
theorem Sound.keeps (h : o.Sound S v boots) (hk : Keeps v v' o) (hboots : boots ⊆ boots') : o.Sound S v' boots' := by
  have htemp : ∀ suffix file, o.temp = some (suffix, file) →
      v'.entry (.temporary suffix) = some file ∧ file < v'.next := by
    intro suffix file ho
    obtain ⟨hentry, hlt⟩ := h.temp suffix file ho
    exact ⟨(hk.temp suffix file ho hlt hentry).1, hlt.trans_le hk.next⟩
  refine ⟨fun b hb => hboots (h.known b hb), htemp, ?_⟩
  have hprogress := h.progress
  cases o with
  | created b suffix file =>
      obtain ⟨hentry, hlt⟩ := h.temp suffix file rfl
      exact (hk.temp suffix file rfl hlt hentry).2.2.2 hprogress.2 hprogress.1
  | written b suffix file =>
      obtain ⟨hentry, hlt⟩ := h.temp suffix file rfl
      obtain ⟨line, hline, hprefix⟩ := hprogress
      exact ⟨line, hline, hprefix.trans (hk.temp suffix file rfl hlt hentry).2.1⟩
  | synced b suffix file =>
      obtain ⟨hentry, hlt⟩ := h.temp suffix file rfl
      obtain ⟨line, hline, hbegins⟩ := hprogress
      exact ⟨line, hline, (hk.temp suffix file rfl hlt hentry).2.2.1 line hbegins⟩
  | linked | removed =>
      obtain ⟨file, hfile⟩ := hprogress
      exact ⟨file, hk.canonical file hfile⟩
  | published b =>
      obtain ⟨file, hfile⟩ := hprogress
      exact ⟨file, hk.settled file hfile⟩
  | separated b file => exact hk.canonical file hprogress
  | opened file publisher =>
      exact ⟨hk.canonical file hprogress.1, fun hp => hk.settled file (hprogress.2 hp)⟩
  | probing | missing | joining | validated | failed => trivial

/-! The operations of others, one by one. -/

/-- Nothing done is nothing disturbed. -/
theorem Keeps.refl (v : Volume HistoryName) (o : Opener) : Keeps v v o :=
  ⟨fun _ h => h, fun _ h => h, le_rfl, fun _ _ _ _ h => ⟨h, List.prefix_rfl, fun _ h => h, fun hl hd => ⟨hd, hl⟩⟩⟩

/-- Someone creates a temporary of its own. -/
theorem Keeps.create {suffix : String} (hfree : v.entry (.temporary suffix) = none) :
    Keeps v (v.create (.temporary suffix)) o := by
  have hname : ∀ {n : HistoryName} {file : ℕ}, v.entry n = some file → n ≠ .temporary suffix := by
    rintro n file hentry rfl
    rw [hfree] at hentry
    cases hentry
  refine ⟨fun file h => (Volume.entry_create_of_ne (hname h) v).trans h, fun file h => h.create (hname h.1),
    Nat.le_succ _, fun suffix' file _ hlt hentry => ⟨(Volume.entry_create_of_ne (hname hentry) v).trans hentry, ?_,
      fun line h => h.create hlt _, fun hl hd => ⟨?_, ?_⟩⟩⟩
  · have hsame : (v.create (.temporary suffix)).data file = v.data file :=
      Volume.data_create_of_ne (Nat.ne_of_lt hlt) _
    exact hsame ▸ List.prefix_rfl
  · rw [Volume.data_create_of_ne (by omega), hd]
  · rw [Volume.left_create_of_ne (by simp)]
    exact hl

/-- Someone writes to a file that is not the opener's temporary, or that has been linked. -/
theorem Keeps.append {file : ℕ} (bytes : Bytes)
    (hother : ∀ suffix file', o.temp = some (suffix, file') → file' = file → some file ∈ v.left .canonical) :
    Keeps v (v.append file bytes) o := by
  refine ⟨fun _ h => h, fun _ h => h, le_rfl, fun suffix file' ho _ hentry =>
    ⟨hentry, v.prefix_append _ _ _, fun line h => h.append _ _, fun hl hd => ⟨?_, hl⟩⟩⟩
  have hne : file' ≠ file := by
    rintro rfl
    exact hl (hother suffix file' ho rfl)
  rw [Volume.data_append_of_ne hne, hd]

theorem Keeps.sync (file : ℕ) : Keeps v (v.sync file) o :=
  ⟨fun _ h => h, fun _ h => ⟨h.1, h.2⟩, le_rfl, fun _ _ _ _ h =>
    ⟨h, List.prefix_rfl, fun _ h => h.sync _, fun hl hd => ⟨hd, hl⟩⟩⟩

/-- Someone links another file under the canonical name, which was free. -/
theorem Keeps.link {file : ℕ} (hfree : v.entry .canonical = none)
    (hother : ∀ suffix file', o.temp = some (suffix, file') → file' ≠ file) :
    Keeps v (v.bind .canonical (some file)) o := by
  refine ⟨fun file' h => ?_, fun file' h => ?_, le_rfl, fun suffix file' ho _ hentry =>
    ⟨(Volume.entry_bind_of_ne (by simp) v _).trans hentry, List.prefix_rfl, fun _ h => h, fun hl hd => ⟨hd, ?_⟩⟩⟩
  · rw [hfree] at h
    cases h
  · rw [h.1] at hfree
    cases hfree
  · rw [Volume.left_bind_self]
    simp [hother suffix file' ho, hl]

/-- Someone removes a temporary that is not the opener's. -/
theorem Keeps.remove {suffix : String} (hother : ∀ suffix' file, o.temp = some (suffix', file) → suffix' ≠ suffix) :
    Keeps v (v.bind (.temporary suffix) none) o := by
  refine ⟨fun file h => (Volume.entry_bind_of_ne (by simp) v _).trans h, fun file h => h.bind (by simp) _, le_rfl,
    fun suffix' file ho _ hentry =>
      ⟨(Volume.entry_bind_of_ne (by simpa using hother suffix' file ho) v _).trans hentry, List.prefix_rfl,
        fun _ h => h, fun hl hd => ⟨hd, ?_⟩⟩⟩
  rw [Volume.left_bind_of_ne (by simp)]
  exact hl

/-- Syncing the directory settles names and takes none away. -/
theorem Keeps.syncDirectory (hsane : v.Sane) : Keeps v v.syncDirectory o := by
  refine ⟨fun _ h => h, fun _ h => h.syncDirectory, le_rfl, fun _ file _ _ h =>
    ⟨h, List.prefix_rfl, fun _ h => h, fun hl hd => ⟨hd, fun hmem => hl ?_⟩⟩⟩
  rw [List.mem_singleton.mp hmem]
  exact hsane.current _

end Opener

/-! ## The invariant

First what one opener may do in general, then the lemma of each operation. -/

/-- What holds of every reachable state: whatever file may be under the canonical name begins with a whole boot line
that has been synced, every opener has come as far as it thinks, and no two have one temporary. -/
structure DataDirectory.Sound (S : Serde ν) (s : DataDirectory) : Prop where
  sane : s.volume.Sane
  whole : ∀ file, some file ∈ s.volume.left .canonical →
    ∃ boot ∈ s.boots, ∃ line, DataDirectory.bootLine S boot = .ok line ∧ s.volume.Begins file line
  openers : ∀ id o, s.openers id = some o → o.Sound S s.volume s.boots
  apart : ∀ id id' o o' suffix suffix' file file', s.openers id = some o → s.openers id' = some o' →
    o.temp = some (suffix, file) → o'.temp = some (suffix', file') → id ≠ id' → suffix ≠ suffix' ∧ file ≠ file'

/-- One opener goes on: what it did keeps what others rely on, and it relies on what holds. -/
theorem DataDirectory.Sound.act {id : ℕ} {next : Opener} (hs : s.Sound S) (hid : s.openers id = some o)
    (hsane : v'.Sane)
    (hwhole : ∀ file, some file ∈ v'.left .canonical → some file ∉ s.volume.left .canonical →
      ∃ boot ∈ s.boots, ∃ line, DataDirectory.bootLine S boot = .ok line ∧ v'.Begins file line)
    (hbegins : ∀ file line, some file ∈ s.volume.left .canonical → s.volume.Begins file line → v'.Begins file line)
    (hkeeps : ∀ id' o', s.openers id' = some o' → id' ≠ id → Opener.Keeps s.volume v' o')
    (hnext : next.Sound S v' s.boots)
    (htemp : ∀ suffix file, next.temp = some (suffix, file) → o.temp = some (suffix, file) ∨
      ∀ id' o' suffix' file', s.openers id' = some o' → o'.temp = some (suffix', file') →
        suffix ≠ suffix' ∧ file ≠ file') :
    (s.act id next v').Sound S := by
  -- the openers after the operation: the one that went on, and the others
  have hopeners : ∀ id' o', (s.act id next v').openers id' = some o' →
      (id' = id ∧ o' = next) ∨ (id' ≠ id ∧ s.openers id' = some o') := by
    intro id' o' h
    have h : Function.update s.openers id (some next) id' = some o' := h
    by_cases heq : id' = id
    · rw [heq, Function.update_self] at h
      exact .inl ⟨heq, (Option.some.inj h).symm⟩
    · rw [Function.update_of_ne heq] at h
      exact .inr ⟨heq, h⟩
  refine ⟨hsane, fun file hmem => ?_, fun id' o' h => ?_, ?_⟩
  -- a file that can be found under the canonical name begins with a whole line, be it an old one or the new one
  · by_cases hold : some file ∈ s.volume.left .canonical
    · obtain ⟨boot, hboot, line, hline, hwhole⟩ := hs.whole file hold
      exact ⟨boot, hboot, line, hline, hbegins file line hold hwhole⟩
    · exact hwhole file hmem hold
  · rcases hopeners id' o' h with ⟨-, rfl⟩ | ⟨hne, h⟩
    · exact hnext
    · exact (hs.openers id' o' h).keeps (hkeeps id' o' h hne) (List.Subset.refl _)
  -- two openers have two temporaries; the one that went on kept its own or took a fresh one
  · intro id₁ id₂ o₁ o₂ suffix₁ suffix₂ file₁ file₂ h₁ h₂ ht₁ ht₂ hne
    rcases hopeners id₁ o₁ h₁ with ⟨rfl, rfl⟩ | ⟨hne₁, hold₁⟩ <;>
      rcases hopeners id₂ o₂ h₂ with ⟨rfl, rfl⟩ | ⟨hne₂, hold₂⟩
    · exact absurd rfl hne
    · rcases htemp suffix₁ file₁ ht₁ with hsame | hnew
      · exact hs.apart _ _ _ _ _ _ _ _ hid hold₂ hsame ht₂ hne
      · exact hnew _ _ _ _ hold₂ ht₂
    · rcases htemp suffix₂ file₂ ht₂ with hsame | hnew
      · exact hs.apart _ _ _ _ _ _ _ _ hold₁ hid ht₁ hsame hne
      · exact ⟨(hnew _ _ _ _ hold₁ ht₁).1.symm, (hnew _ _ _ _ hold₁ ht₁).2.symm⟩
    · exact hs.apart _ _ _ _ _ _ _ _ hold₁ hold₂ ht₁ ht₂ hne

/-- It only looked. -/
theorem DataDirectory.Sound.look {id : ℕ} {next : Opener} (hs : s.Sound S) (hid : s.openers id = some o)
    (hnext : next.Sound S s.volume s.boots) (htemp : next.temp = none) : (s.act id next s.volume).Sound S :=
  hs.act hid hs.sane (fun _ h h' => absurd h h') (fun _ _ _ h => h) (fun _ _ _ _ => .refl _ _) hnext fun _ _ h => by
    rw [htemp] at h
    cases h

/-- An opener that has no temporary, and knows no more than its record. -/
theorem Opener.sound_plain {b : BootRecord} (hb : b ∈ boots) (hboot : ∀ b', o.boot = some b' → b' = b)
    (htemp : o.temp = none) (hprogress : o.Progress S v) : o.Sound S v boots :=
  ⟨fun b' hb' => hboot b' hb' ▸ hb, fun _ _ h => (nomatch htemp.symm.trans h), hprogress⟩

/-- Of an opener that has failed nothing is asked. -/
theorem Opener.sound_failed : Opener.Sound S v boots .failed :=
  ⟨fun _ h => (nomatch h), fun _ _ h => (nomatch h), trivial⟩

/-- Bytes go to a file that only this opener has, or that has been linked. -/
theorem DataDirectory.Sound.append {id file : ℕ} {next : Opener} (hs : s.Sound S) (hid : s.openers id = some o)
    (bytes : Bytes) (hmine : some file ∈ s.volume.left .canonical ∨ ∃ suffix, o.temp = some (suffix, file))
    (hnext : next.Sound S (s.volume.append file bytes) s.boots)
    (htemp : ∀ suffix file, next.temp = some (suffix, file) → o.temp = some (suffix, file)) :
    (s.act id next (s.volume.append file bytes)).Sound S := by
  refine hs.act hid (hs.sane.append _ _) (fun _ h h' => absurd h h') (fun _ _ _ h => h.append _ _) ?_ hnext
    fun suffix file h => .inl (htemp suffix file h)
  intro id' o' hid' hne
  refine .append bytes fun suffix' file' ho' heq => ?_
  -- another opener's temporary is another file, unless this one is linked
  rcases hmine with hlinked | ⟨suffix, ho⟩
  · exact hlinked
  · exact absurd heq (hs.apart _ _ _ _ _ _ _ _ hid' hid ho' ho hne).2

/-- A sync. -/
theorem DataDirectory.Sound.synced {id file : ℕ} {next : Opener} (hs : s.Sound S) (hid : s.openers id = some o)
    (hnext : next.Sound S (s.volume.sync file) s.boots)
    (htemp : ∀ suffix file, next.temp = some (suffix, file) → o.temp = some (suffix, file)) :
    (s.act id next (s.volume.sync file)).Sound S :=
  hs.act hid (hs.sane.sync _) (fun _ h h' => absurd h h') (fun _ _ _ h => h.sync _) (fun _ _ _ _ => .sync _) hnext
    fun suffix file h => .inl (htemp suffix file h)

/-- The link. -/
theorem DataDirectory.Sound.link {id file : ℕ} {boot : BootRecord} {suffix : String} (hs : s.Sound S)
    (hid : s.openers id = some (.synced boot suffix file)) (hfree : s.volume.entry .canonical = none) :
    (s.act id (.linked boot suffix file) (s.volume.bind .canonical (some file))).Sound S := by
  have hopener := hs.openers id _ hid
  obtain ⟨hentry, hlt⟩ := hopener.temp suffix file rfl
  refine hs.act hid (hs.sane.bind _ fun i hi => Option.some.inj hi ▸ hlt) (fun file' hmem hnew => ?_)
    (fun _ _ _ h => h) (fun id' o' hid' hne => ?_) ?_ fun _ _ h => .inl h
  · rw [Volume.left_bind_self] at hmem
    rcases List.mem_cons.mp hmem with heq | hold
    · obtain rfl := Option.some.inj heq
      exact ⟨boot, hopener.known boot rfl, hopener.progress⟩
    · exact absurd hold hnew
  · -- the others' temporaries are not the file that is linked
    exact .link hfree fun suffix' file' ho' => (hs.apart _ _ _ _ _ _ _ _ hid' hid ho' rfl hne).2
  · refine ⟨hopener.known, fun suffix' file' h => ?_, file, Volume.entry_bind_self ..⟩
    obtain ⟨rfl, rfl⟩ := Prod.mk.inj (Option.some.inj h)
    exact ⟨(Volume.entry_bind_of_ne (by simp) _ _).trans hentry, hlt⟩

/-- A temporary of its own. -/
theorem DataDirectory.Sound.create {id : ℕ} {boot : BootRecord} {suffix : String} (hs : s.Sound S)
    (hid : s.openers id = some (.missing boot)) (hfree : s.volume.entry (.temporary suffix) = none) :
    (s.act id (.created boot suffix s.volume.next) (s.volume.create (.temporary suffix))).Sound S := by
  have hleft : (s.volume.create (.temporary suffix)).left .canonical = s.volume.left .canonical :=
    Volume.left_create_of_ne (by simp) _
  refine hs.act hid (hs.sane.create _) (fun file hmem hnew => ?_) (fun file line hmem h => ?_)
    (fun _ _ _ _ => .create hfree) ?_ fun suffix' file' h => .inr fun id' o' suffix₂ file₂ hid' ho' => ?_
  · rw [hleft] at hmem
    exact absurd hmem hnew
  · exact h.create (hs.sane.used _ _ hmem) _
  · refine ⟨fun b hb => (hs.openers id _ hid).known b hb, fun suffix' file' h => ?_, ?_, fun hmem => ?_⟩
    · obtain ⟨rfl, rfl⟩ := Prod.mk.inj (Option.some.inj h)
      exact ⟨Volume.entry_create_self .., Nat.lt_succ_self _⟩
    · exact Volume.data_create_self ..
    · rw [hleft] at hmem
      exact absurd (hs.sane.used _ _ hmem) (lt_irrefl _)
  · -- `create_new` found the name free, and the file is one that nobody has had
    obtain ⟨rfl, rfl⟩ := Prod.mk.inj (Option.some.inj h)
    obtain ⟨hentry, hlt⟩ := (hs.openers id' o' hid').temp suffix₂ file₂ ho'
    refine ⟨?_, fun heq => by omega⟩
    rintro rfl
    rw [hfree] at hentry
    cases hentry

/-- The temporary is removed. -/
theorem DataDirectory.Sound.remove {id file : ℕ} {boot : BootRecord} {suffix : String} (hs : s.Sound S)
    (hid : s.openers id = some (.linked boot suffix file)) :
    (s.act id (.removed boot) (s.volume.bind (.temporary suffix) none)).Sound S := by
  have hopener := hs.openers id _ hid
  obtain ⟨file', hfile'⟩ := hopener.progress
  have hleft : (s.volume.bind (.temporary suffix) none).left .canonical = s.volume.left .canonical :=
    Volume.left_bind_of_ne (by simp) _ _
  refine hs.act hid (hs.sane.bind _ fun i hi => by cases hi) (fun file hmem hnew => ?_) (fun _ _ _ h => h)
    (fun id' o' hid' hne => ?_) ?_ fun _ _ h => by cases h
  · rw [hleft] at hmem
    exact absurd hmem hnew
  · exact .remove fun suffix' file₂ ho' => (hs.apart _ _ _ _ _ _ _ _ hid' hid ho' rfl hne).1
  · exact Opener.sound_plain (hopener.known boot rfl) (fun b hb => (Option.some.inj hb).symm) rfl
      ⟨file', (Volume.entry_bind_of_ne (by simp) _ _).trans hfile'⟩

/-- The directory is synced. -/
theorem DataDirectory.Sound.settle {id : ℕ} {boot : BootRecord} (hs : s.Sound S)
    (hid : s.openers id = some (.removed boot)) :
    (s.act id (.published boot) s.volume.syncDirectory).Sound S := by
  have hopener := hs.openers id _ hid
  obtain ⟨file, hfile⟩ := hopener.progress
  refine hs.act hid hs.sane.syncDirectory (fun file' hmem hnew => ?_) (fun _ _ _ h => h)
    (fun _ _ _ _ => .syncDirectory hs.sane) ?_ fun _ _ h => by cases h
  · have hcurrent := hs.sane.current .canonical
    rw [← List.mem_singleton.mp hmem] at hcurrent
    exact absurd hcurrent hnew
  · exact Opener.sound_plain (hopener.known boot rfl) (fun b hb => (Option.some.inj hb).symm) rfl
      ⟨file, Lib.Volume.settled_syncDirectory hfile⟩

/-- The boot line is written, or a part of it. -/
theorem DataDirectory.Sound.writeBoot {id file : ℕ} {boot : BootRecord} {suffix : String} {line : Bytes}
    (hs : s.Sound S) (hid : s.openers id = some (.created boot suffix file))
    (hline : DataDirectory.bootLine S boot = .ok line) (torn : Option ℕ) :
    (s.write id file line torn (.written boot suffix file)).Sound S := by
  have hopener := hs.openers id _ hid
  cases torn with
  | none =>
      refine hs.append hid _ (.inr ⟨suffix, rfl⟩) ⟨hopener.known, hopener.temp, line, hline, ?_⟩ fun _ _ h => h
      show line <+: (s.volume.append file line).data file
      rw [Volume.data_append_self, hopener.progress.1]
      exact List.prefix_rfl
  | some k => exact hs.append hid _ (.inr ⟨suffix, rfl⟩) Opener.sound_failed fun _ _ h => by cases h

/-- The temporary is synced. -/
theorem DataDirectory.Sound.syncBoot {id file : ℕ} {boot : BootRecord} {suffix : String} (hs : s.Sound S)
    (hid : s.openers id = some (.written boot suffix file)) :
    (s.act id (.synced boot suffix file) (s.volume.sync file)).Sound S := by
  have hopener := hs.openers id _ hid
  obtain ⟨line, hline, hprefix⟩ := hopener.progress
  exact hs.synced hid ⟨hopener.known, hopener.temp, line, hline, Lib.Volume.begins_sync hprefix⟩ fun _ _ h => h

/-- The file that is linked is the opener's own. -/
theorem DataDirectory.Sound.linkEntry {id file file' : ℕ} {boot : BootRecord} {suffix : String} (hs : s.Sound S)
    (hid : s.openers id = some (.synced boot suffix file)) (hentry : s.volume.entry (.temporary suffix) = some file')
    (hfree : s.volume.entry .canonical = none) :
    (s.act id (.linked boot suffix file') (s.volume.bind .canonical (some file'))).Sound S := by
  have hmine := ((hs.openers id _ hid).temp suffix file rfl).1
  obtain rfl := Option.some.inj (hmine.symm.trans hentry)
  exact hs.link hid hfree

/-- A publisher goes on without another operation. -/
theorem DataDirectory.Sound.reopen {id file : ℕ} {boot : BootRecord} (hs : s.Sound S)
    (hid : s.openers id = some (.published boot)) (hentry : s.volume.entry .canonical = some file) :
    (s.act id (.opened file true) s.volume).Sound S := by
  obtain ⟨file', hsettled⟩ := (hs.openers id _ hid).progress
  obtain rfl := Option.some.inj (hsettled.1.symm.trans hentry)
  exact hs.look hid ⟨fun _ h => (nomatch h), fun _ _ h => (nomatch h), hentry, fun _ => hsettled⟩ rfl

/-- The file under the canonical name may be appended to, by whoever has it. -/
theorem DataDirectory.Sound.appendCanonical {id file : ℕ} {next : Opener} (hs : s.Sound S)
    (hid : s.openers id = some o) (hentry : s.volume.entry .canonical = some file) (bytes : Bytes)
    (hnext : next.Sound S (s.volume.append file bytes) s.boots) (htemp : next.temp = none) :
    (s.act id next (s.volume.append file bytes)).Sound S :=
  hs.append hid bytes (.inl (hentry ▸ hs.sane.current _)) hnext fun _ _ h => by rw [htemp] at h; cases h

/-- And synced. -/
theorem DataDirectory.Sound.writeCanonical {id file : ℕ} {next : Opener} (hs : s.Sound S)
    (hid : s.openers id = some o) (hentry : s.volume.entry .canonical = some file) (bytes : Bytes) (torn : Option ℕ)
    (hnext : ∀ v : Volume HistoryName, v.entry .canonical = some file → next.Sound S v s.boots)
    (htemp : next.temp = none) : (s.writeSync id file bytes torn next).Sound S := by
  cases torn with
  | none =>
      have hwritten := hs.appendCanonical hid hentry bytes (hnext _ hentry) htemp
      have hnow : (s.act id next (s.volume.append file bytes)).openers id = some next := Function.update_self ..
      have hafter : next.Sound S ((s.volume.append file bytes).sync file) s.boots := hnext _ hentry
      have hdone := hwritten.synced hnow hafter fun _ _ h => h
      rwa [DataDirectory.act_act] at hdone
  | some k => exact hs.appendCanonical hid hentry _ Opener.sound_failed rfl

/-- What is asked of an opener that is through. -/
theorem Opener.sound_opened {file : ℕ} {publisher : Bool} (hentry : v.entry .canonical = some file)
    (hsettled : publisher = true → v.Settled .canonical file) : Opener.Sound S v boots (.opened file publisher) :=
  ⟨fun _ h => (nomatch h), fun _ _ h => (nomatch h), hentry, hsettled⟩

/-- The recovery separator. -/
theorem DataDirectory.Sound.separate {id file : ℕ} {boot : BootRecord} {needsSeparator : Bool} (hs : s.Sound S)
    (hid : s.openers id = some (.validated boot needsSeparator)) (hentry : s.volume.entry .canonical = some file)
    (torn : Option ℕ) : (s.writeSync id file [newline] torn (.separated boot file)).Sound S := by
  have hknown := (hs.openers id _ hid).known boot rfl
  exact hs.writeCanonical hid hentry _ torn
    (fun _ h => Opener.sound_plain hknown (fun _ hb => (Option.some.inj hb).symm) rfl h) rfl

/-- The boot record of one that joins. -/
theorem DataDirectory.Sound.join {id file : ℕ} {boot : BootRecord} (hs : s.Sound S)
    (hid : s.openers id = some (.separated boot file)) (line : Bytes) (torn : Option ℕ) :
    (s.writeSync id file line torn (.opened file false)).Sound S :=
  hs.writeCanonical hid (hs.openers id _ hid).progress line torn
    (fun _ h => Opener.sound_opened h fun hp => by cases hp) rfl

/-! ## Every step -/

/-- **Every operation of an opener keeps it.** -/
theorem DataDirectory.Sound.advance {id : ℕ} (hs : s.Sound S) (hid : s.openers id = some o)
    (h : DataDirectory.advance S s id o e = some s') : s'.Sound S := by
  have hopener := hs.openers id o hid
  unfold DataDirectory.advance at h
  split at h <;> (try split at h) <;> (try split at h) <;> cases h
  all_goals first
    | exact hs.look hid Opener.sound_failed rfl
    | exact hs.look hid
        (Opener.sound_plain (hopener.known _ rfl) (fun _ hb => (Option.some.inj hb).symm) rfl trivial) rfl
    | exact hs.look hid
        (Opener.sound_plain (hopener.known _ rfl) (fun _ hb => (Option.some.inj hb).symm) rfl ‹_›) rfl
    | exact hs.create hid (Option.not_isSome_iff_eq_none.mp ‹_›)
    | exact hs.writeBoot hid ‹_› _
    | exact hs.syncBoot hid
    | exact hs.linkEntry hid ‹_› ‹_›
    | exact hs.remove hid
    | exact hs.settle hid
    | exact hs.reopen hid ‹_›
    | exact hs.separate hid ‹_› _
    | exact hs.join hid _ _
    | exact hs.appendCanonical hid hopener.progress.1 _ (Opener.sound_opened hopener.progress.1 hopener.progress.2) rfl
    | exact hs.synced hid (Opener.sound_opened hopener.progress.1 hopener.progress.2) fun _ _ h => h

/-- A new opener, a process that is gone, a crash: no one comes any further. -/
theorem DataDirectory.Sound.step (hs : s.Sound S) (h : DataDirectory.Step S s e s') : s'.Sound S := by
  cases e with
  | start id boot =>
      obtain ⟨-, rfl⟩ := h
      have hopeners : ∀ id' o', (s.setOpener id (some (.probing boot))).openers id' = some o' →
          o' = .probing boot ∨ s.openers id' = some o' := by
        intro id' o' h
        have h : Function.update s.openers id (some (.probing boot)) id' = some o' := h
        by_cases heq : id' = id
        · rw [heq, Function.update_self] at h
          exact .inl (Option.some.inj h).symm
        · rw [Function.update_of_ne heq] at h
          exact .inr h
      refine ⟨hs.sane, fun file hmem => ?_, fun id' o' h => ?_, ?_⟩
      · obtain ⟨b, hb, hwhole⟩ := hs.whole file hmem
        exact ⟨b, List.mem_cons_of_mem _ hb, hwhole⟩
      · rcases hopeners id' o' h with rfl | hold
        · exact Opener.sound_plain List.mem_cons_self (fun b hb => (Option.some.inj hb).symm) rfl trivial
        · exact (hs.openers id' o' hold).keeps (.refl _ _) (List.subset_cons_self _ _)
      · intro id₁ id₂ o₁ o₂ suffix₁ suffix₂ file₁ file₂ h₁ h₂ ht₁ ht₂ hne
        rcases hopeners id₁ o₁ h₁ with rfl | hold₁
        · cases ht₁
        · rcases hopeners id₂ o₂ h₂ with rfl | hold₂
          · cases ht₂
          · exact hs.apart _ _ _ _ _ _ _ _ hold₁ hold₂ ht₁ ht₂ hne
  | kill id =>
      obtain rfl := h
      have hopeners : ∀ id' o', (s.setOpener id none).openers id' = some o' → s.openers id' = some o' := by
        intro id' o' h
        have h : Function.update s.openers id none id' = some o' := h
        by_cases heq : id' = id
        · rw [heq, Function.update_self] at h
          cases h
        · rwa [Function.update_of_ne heq] at h
      exact ⟨hs.sane, hs.whole, fun id' o' h => hs.openers id' o' (hopeners id' o' h),
        fun _ _ _ _ _ _ _ _ h₁ h₂ => hs.apart _ _ _ _ _ _ _ _ (hopeners _ _ h₁) (hopeners _ _ h₂)⟩
  | crash pick keep =>
      -- what is left under the canonical name is one of the entries that could be left, and those are whole
      obtain ⟨hcrash, rfl⟩ := h
      refine ⟨hs.sane.crash hcrash, fun file hmem => ?_, fun _ _ h => (nomatch h), fun _ _ _ _ _ _ _ _ h => (nomatch h)⟩
      have hpick := hcrash.1 .canonical
      rw [← List.mem_singleton.mp hmem] at hpick
      obtain ⟨b, hb, line, hline, hwhole⟩ := hs.whole file hpick
      exact ⟨b, hb, line, hline, hwhole.crash hcrash⟩
  | _ =>
      obtain ⟨id, o, -, hid, hadvance⟩ := h
      exact hs.advance hid hadvance

/-- A data directory without a canonical file. -/
theorem DataDirectory.Sound.init (h : (firstBootSystem S).init s) : s.Sound S := by
  obtain ⟨hsane, hleft, hopeners, -⟩ := h
  refine ⟨hsane, fun file hmem => ?_, fun id o h => ?_, fun id _ _ _ _ _ _ _ h => ?_⟩
  · rw [hleft] at hmem
    cases List.mem_singleton.mp hmem
  · rw [hopeners id] at h
    cases h
  · rw [hopeners id] at h
    cases h

theorem first_boot_sound (h : (firstBootSystem S).Reachable s) : s.Sound S :=
  h.invariant DataDirectory.Sound.init fun hs hstep => hs.step hstep

/-- **The file appears whole.**  From a data directory without a canonical file, for any number of openers in any
interleaving, with failures, kills and crashes between any two operations: at every moment, whatever a crash would leave
under the canonical name is no file at all, or a file that begins with the whole boot line of an opener.  So does the
file that processes see. -/
theorem first_boot_whole (h : (firstBootSystem S).Reachable s) {pick : HistoryName → Option ℕ} {keep : ℕ → ℕ}
    (hcrash : s.volume.Crashes pick keep) {file : ℕ} (hfile : pick .canonical = some file ∨
      s.volume.entry .canonical = some file) :
    ∃ boot ∈ s.boots, ∃ line, DataDirectory.bootLine S boot = .ok line ∧ line <+: s.volume.data file ∧
      line <+: (s.volume.crash pick keep).data file := by
  have hs := first_boot_sound h
  have hmem : some file ∈ s.volume.left .canonical := by
    rcases hfile with hpick | hentry
    · rw [← hpick]
      exact hcrash.1 _
    · rw [← hentry]
      exact hs.sane.current _
  obtain ⟨boot, hboot, line, hline, hwhole⟩ := hs.whole file hmem
  exact ⟨boot, hboot, line, hline, hwhole.1, (hwhole.crash hcrash).1⟩

/-- The machine crashes, and leaves no more than it has to. -/
theorem DataDirectory.Sound.crashes (hs : s.Sound S) : s.volume.Crashes s.volume.entry s.volume.synced :=
  ⟨hs.sane.current, fun _ => le_rfl⟩

/-- A published file, after a crash as well. -/
theorem first_boot_whole_published :
    ∃ s file, (firstBootSystem json).Reachable s ∧ s.volume.entry .canonical = some file ∧
      ∃ boot ∈ s.boots, ∃ line, DataDirectory.bootLine json boot = .ok line ∧ line <+: s.volume.data file ∧
        line <+: (s.volume.crash s.volume.entry s.volume.synced).data file := by
  obtain ⟨s, hreach, -, hentry⟩ := exists_published
  exact ⟨s, 0, hreach, hentry, first_boot_whole hreach (first_boot_sound hreach).crashes (.inr hentry)⟩

/-! ## What lasts

An operation adds to a file, syncs, gives a file a name that is free, or removes a temporary.  So an entry that is
settled stays, with all that was synced to its file, and a crash keeps this too. -/

/-- What an operation does to the data directory. -/
inductive Touch (v : Volume HistoryName) : Volume HistoryName → Prop
  | look : Touch v v
  | create (suffix : String) : Touch v (v.create (.temporary suffix))
  | append (file : ℕ) (bytes : Bytes) : Touch v (v.append file bytes)
  | appendSync (file : ℕ) (bytes : Bytes) : Touch v ((v.append file bytes).sync file)
  | sync (file : ℕ) : Touch v (v.sync file)
  | link (file : ℕ) : v.entry .canonical = none → Touch v (v.bind .canonical (some file))
  | remove (suffix : String) : Touch v (v.bind (.temporary suffix) none)
  | syncDirectory : Touch v v.syncDirectory

/-- An opener that has linked its file, or more. -/
def Opener.Publisher : Opener → Prop
  | .linked .. | .removed _ | .published _ => True
  | .opened _ publisher => publisher = true
  | _ => False

/-- A write, seen from the data directory. -/
theorem DataDirectory.touch_write (s : DataDirectory) (id file : ℕ) (bytes : Bytes) (torn : Option ℕ)
    (hnext : ¬ o.Publisher) :
    ∃ next v', s.write id file bytes torn o = s.act id next v' ∧ Touch s.volume v' ∧ ¬ next.Publisher := by
  cases torn with
  | none => exact ⟨_, _, rfl, .append .., hnext⟩
  | some k => exact ⟨_, _, rfl, .append .., fun h => h⟩

theorem DataDirectory.touch_writeSync (s : DataDirectory) (id file : ℕ) (bytes : Bytes) (torn : Option ℕ)
    (hnext : ¬ o.Publisher) :
    ∃ next v', s.writeSync id file bytes torn o = s.act id next v' ∧ Touch s.volume v' ∧ ¬ next.Publisher := by
  cases torn with
  | none => exact ⟨_, _, rfl, .appendSync .., hnext⟩
  | some k => exact ⟨_, _, rfl, .append .., fun h => h⟩

/-- All that an operation can do: it touches the directory, moves its opener on, and makes it a publisher only where
the canonical name was free. -/
theorem DataDirectory.advance_cases {id : ℕ} (h : DataDirectory.advance S s id o e = some s') :
    ∃ next v', s' = s.act id next v' ∧ Touch s.volume v' ∧
      (next.Publisher → o.Publisher ∨ s.volume.entry .canonical = none) := by
  have hwrote : ∀ {t : DataDirectory}, (∃ next v', t = s.act id next v' ∧ Touch s.volume v' ∧ ¬ next.Publisher) →
      ∃ next v', t = s.act id next v' ∧ Touch s.volume v' ∧
        (next.Publisher → o.Publisher ∨ s.volume.entry .canonical = none) := by
    rintro t ⟨next, v', ht, htouch, hnext⟩
    exact ⟨next, v', ht, htouch, fun h => absurd h hnext⟩
  unfold DataDirectory.advance at h
  split at h <;> (try split at h) <;> (try split at h) <;> cases h
  all_goals first
    | exact hwrote (s.touch_write _ _ _ _ fun h => h)
    | exact hwrote (s.touch_writeSync _ _ _ _ fun h => h)
    | exact hwrote (s.touch_writeSync _ _ _ _ fun h => by cases h)
    | exact ⟨_, _, rfl, .look, fun h => .inl h⟩
    | exact ⟨_, _, rfl, .look, fun _ => .inl trivial⟩
    | exact ⟨_, _, rfl, .look, fun h => by cases h⟩
    | exact ⟨_, _, rfl, .create _, fun h => by cases h⟩
    | exact ⟨_, _, rfl, .sync _, fun h => .inl h⟩
    | exact ⟨_, _, rfl, .link _ ‹_›, fun _ => .inr ‹_›⟩
    | exact ⟨_, _, rfl, .remove _, fun _ => .inl trivial⟩
    | exact ⟨_, _, rfl, .syncDirectory, fun _ => .inl trivial⟩
    | exact ⟨_, _, rfl, .append .., fun h => .inl h⟩

/-- What one operation leaves for good: a settled entry, and what was synced. -/
structure Lasts (v v' : Volume HistoryName) : Prop where
  settled : ∀ file, v.Settled .canonical file → v'.Settled .canonical file
  begins : ∀ file line, file < v.next → v.Begins file line → v'.Begins file line
  next : v.next ≤ v'.next

theorem Lasts.trans {v'' : Volume HistoryName} (h : Lasts v v') (h' : Lasts v' v'') : Lasts v v'' :=
  ⟨fun file hfile => h'.settled file (h.settled file hfile),
    fun file line hlt hline => h'.begins file line (hlt.trans_le h.next) (h.begins file line hlt hline),
    h.next.trans h'.next⟩

/-- Nothing an opener does takes away what is settled or synced. -/
theorem Touch.lasts (h : Touch v v') : Lasts v v' := by
  cases h with
  | look => exact ⟨fun _ h => h, fun _ _ _ h => h, le_rfl⟩
  | create suffix => exact ⟨fun _ h => h.create (by simp), fun _ _ hlt h => h.create hlt _, Nat.le_succ _⟩
  | append file bytes => exact ⟨fun _ h => h, fun _ _ _ h => h.append _ _, le_rfl⟩
  | appendSync file bytes => exact ⟨fun _ h => h, fun _ _ _ h => (h.append _ _).sync _, le_rfl⟩
  | sync file => exact ⟨fun _ h => h, fun _ _ _ h => h.sync _, le_rfl⟩
  | link file hfree =>
      -- a settled entry is an entry, and there was none
      refine ⟨fun file' h => ?_, fun _ _ _ h => h.bind _ _, le_rfl⟩
      rw [h.1] at hfree
      cases hfree
  | remove suffix => exact ⟨fun _ h => h.bind (by simp) _, fun _ _ _ h => h.bind _ _, le_rfl⟩
  | syncDirectory => exact ⟨fun _ h => h.syncDirectory, fun _ _ _ h => h.syncDirectory, le_rfl⟩

/-- A crash included. -/
theorem DataDirectory.Step.lasts (h : DataDirectory.Step S s e s') : Lasts s.volume s'.volume := by
  cases e with
  | start id boot =>
      obtain ⟨-, rfl⟩ := h
      exact ⟨fun _ h => h, fun _ _ _ h => h, le_rfl⟩
  | kill id =>
      obtain rfl := h
      exact ⟨fun _ h => h, fun _ _ _ h => h, le_rfl⟩
  | crash pick keep =>
      obtain ⟨hcrash, rfl⟩ := h
      exact ⟨fun _ h => h.crash hcrash, fun _ _ _ h => h.crash hcrash, le_rfl⟩
  | _ =>
      obtain ⟨id, o, -, -, hadvance⟩ := h
      obtain ⟨next, v', rfl, htouch, -⟩ := DataDirectory.advance_cases hadvance
      exact htouch.lasts

/-- No two openers publish. -/
def DataDirectory.OnePublisher (s : DataDirectory) : Prop :=
  ∀ id id' o o', s.openers id = some o → s.openers id' = some o' → o.Publisher → o'.Publisher → id = id'

/-- A publisher's file is there. -/
theorem Opener.Sound.exists_entry (h : o.Sound S v boots) (ho : o.Publisher) : ∃ file, v.entry .canonical = some file := by
  cases o with
  | linked | removed => exact h.progress
  | published b =>
      obtain ⟨file, hsettled⟩ := h.progress
      exact ⟨file, hsettled.1⟩
  | opened file publisher => exact ⟨file, h.progress.1⟩
  | _ => cases ho

/-- Every step leaves at most one publisher: the link of the second one fails. -/
theorem DataDirectory.OnePublisher.step (hs : s.Sound S) (hone : s.OnePublisher) (h : DataDirectory.Step S s e s') :
    s'.OnePublisher := by
  -- who publishes after the step published before it, or there was no file and nobody did
  have hkeep : ∀ id, (∀ id' o', s'.openers id' = some o' → o'.Publisher →
      (∃ o₀, s.openers id' = some o₀ ∧ o₀.Publisher) ∨ (id' = id ∧ s.volume.entry .canonical = none)) →
      s'.OnePublisher := by
    intro id hback id₁ id₂ o₁ o₂ h₁ h₂ hp₁ hp₂
    rcases hback id₁ o₁ h₁ hp₁ with ⟨o₁', h₁', hp₁'⟩ | ⟨rfl, hfree⟩ <;>
      rcases hback id₂ o₂ h₂ hp₂ with ⟨o₂', h₂', hp₂'⟩ | ⟨rfl, hfree'⟩
    · exact hone _ _ _ _ h₁' h₂' hp₁' hp₂'
    · obtain ⟨file, hfile⟩ := (hs.openers _ _ h₁').exists_entry hp₁'
      rw [hfile] at hfree'
      cases hfree'
    · obtain ⟨file, hfile⟩ := (hs.openers _ _ h₂').exists_entry hp₂'
      rw [hfile] at hfree
      cases hfree
    · rfl
  cases e with
  | start id boot =>
      obtain ⟨-, rfl⟩ := h
      refine hkeep id fun id' o' h hp => .inl ⟨o', ?_, hp⟩
      have h : Function.update s.openers id (some (.probing boot)) id' = some o' := h
      by_cases heq : id' = id
      · rw [heq, Function.update_self] at h
        obtain rfl := Option.some.inj h
        cases hp
      · rwa [Function.update_of_ne heq] at h
  | kill id =>
      obtain rfl := h
      refine hkeep id fun id' o' h hp => .inl ⟨o', ?_, hp⟩
      have h : Function.update s.openers id none id' = some o' := h
      by_cases heq : id' = id
      · rw [heq, Function.update_self] at h
        cases h
      · rwa [Function.update_of_ne heq] at h
  | crash pick keep =>
      obtain ⟨-, rfl⟩ := h
      exact fun _ _ _ _ h => (nomatch h)
  | _ =>
      obtain ⟨id, o, -, hid, hadvance⟩ := h
      obtain ⟨next, v', rfl, -, hnext⟩ := DataDirectory.advance_cases hadvance
      refine hkeep id fun id' o' h hp => ?_
      have h : Function.update s.openers id (some next) id' = some o' := h
      by_cases heq : id' = id
      · rw [heq, Function.update_self] at h
        obtain rfl := Option.some.inj h
        rcases hnext hp with hbefore | hfree
        · exact .inl ⟨o, heq ▸ hid, hbefore⟩
        · exact .inr ⟨heq, hfree⟩
      · rw [Function.update_of_ne heq] at h
        exact .inl ⟨o', h, hp⟩

theorem first_boot_one (h : (firstBootSystem S).Reachable s) : s.OnePublisher := by
  have hboth : s.Sound S ∧ s.OnePublisher := by
    refine h.invariant (I := fun s => s.Sound S ∧ s.OnePublisher) (fun hinit => ⟨.init hinit, ?_⟩)
      fun hs hstep => ⟨hs.1.step hstep, hs.2.step hs.1 hstep⟩
    intro id _ _ _ hid
    rw [hinit.2.2.1 id] at hid
    cases hid
  exact hboth.2

/-- **A published file lasts.**  Once an opener has returned as the one that made the file: in every later state of
every run, whoever opens, fails, is killed or crashes, the canonical name is bound to that file, on the disk too;
whatever had been synced to the file is still its beginning; every store that is open has that file; and no other
opener comes to have published. -/
theorem first_boot_settled (h : (firstBootSystem S).Reachable s) {id file : ℕ}
    (hid : s.openers id = some (.opened file true)) {es : List OpenerEvent} (hrun : (firstBootSystem S).Run s es s') :
    s'.volume.Settled .canonical file ∧
      (s.volume.data file).take (s.volume.synced file) <+: s'.volume.data file ∧
      (∀ id' file' publisher, s'.openers id' = some (.opened file' publisher) → file' = file) ∧ s'.OnePublisher := by
  have hs := first_boot_sound h
  have hsettled : s.volume.Settled .canonical file := (hs.openers id _ hid).progress.2 rfl
  have hused : file < s.volume.next := hs.sane.used .canonical file (hsettled.2 ▸ List.mem_singleton_self _)
  have hbegins : s.volume.Begins file ((s.volume.data file).take (s.volume.synced file)) :=
    ⟨List.take_prefix _ _, by rw [List.length_take]; exact Nat.min_le_left _ _⟩
  have hlasts : Lasts s.volume s'.volume := by
    refine hrun.preserves (I := fun s' => Lasts s.volume s'.volume)
      (fun hbefore hstep => hbefore.trans (DataDirectory.Step.lasts hstep)) ?_
    exact ⟨fun _ h => h, fun _ _ _ h => h, le_rfl⟩
  have hreach := h.run hrun
  refine ⟨hlasts.settled file hsettled, (hlasts.begins file _ hused hbegins).1, ?_, first_boot_one hreach⟩
  intro id' file' publisher hopened
  have hentry := ((first_boot_sound hreach).openers id' _ hopened).progress.1
  exact Option.some.inj (hentry.symm.trans (hlasts.settled file hsettled).1)

/-- It has published, and the machine crashes. -/
theorem first_boot_settled_crash :
    ∃ s s' pick keep, (firstBootSystem json).Reachable s ∧ s.openers 0 = some (.opened 0 true) ∧
      (firstBootSystem json).Run s [.crash pick keep] s' ∧ s'.volume.Settled .canonical 0 ∧
      (s.volume.data 0).take (s.volume.synced 0) <+: s'.volume.data 0 ∧
      (∀ id' file' publisher, s'.openers id' = some (.opened file' publisher) → file' = 0) ∧ s'.OnePublisher := by
  obtain ⟨s, hreach, hopened, -⟩ := exists_published
  have hcrashes := (first_boot_sound hreach).crashes
  have hrun : (firstBootSystem json).Run s [.crash s.volume.entry s.volume.synced]
      { s with volume := s.volume.crash s.volume.entry s.volume.synced, openers := fun _ => none } :=
    .single ⟨hcrashes, rfl⟩
  exact ⟨s, _, _, _, hreach, hopened, hrun, first_boot_settled hreach hopened hrun⟩

end Invariant

end Flock.History
