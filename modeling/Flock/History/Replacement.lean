/-
# Flock.History.Replacement — compaction as it meets the file system.

`compact_inner_if_authorized` reads the canonical file, writes what is retained to a temporary file, reads
that back, asks for its authorisation, and renames the temporary file over the canonical path.  Files are
numbered here, the canonical path names one of them and the store holds a handle on one, so that a rename
and a write through an old handle are different things.

What the file system answers, and whether the authorisation is given, is the environment's choice
(`Answers`): every operation may fail, a write after any number of bytes.  Until the rename nothing that
the store or the canonical path shows changes; after it everything is set from the replacement.
-/
import Flock.History.Stability

namespace Flock.History

variable {ν : Type}

/-! ## Files -/

/-- Files by number, and the one the canonical path names. -/
structure Disk where
  files : List Bytes
  canonical : ℕ
  canonical_lt : canonical < files.length

namespace Disk

/-- A directory with the canonical file alone. -/
def single (file : Bytes) : Disk := ⟨[file], 0, Nat.zero_lt_one⟩

/-- The bytes of a file. -/
def read (disk : Disk) (file : ℕ) : Bytes := (disk.files[file]?).getD []

/-- A write at the end of a file. -/
def append (disk : Disk) (file : ℕ) (bytes : Bytes) : Disk :=
  { files := disk.files.modify file (· ++ bytes)
    canonical := disk.canonical
    canonical_lt := by simpa using disk.canonical_lt }

/-- A file that holds these bytes, under a name of its own. -/
def create (disk : Disk) (bytes : Bytes) : Disk where
  files := disk.files ++ [bytes]
  canonical := disk.canonical
  canonical_lt := by simpa using Nat.lt_succ_of_lt disk.canonical_lt

/-- A file that holds these bytes, and the canonical path names it from now on. -/
def replace (disk : Disk) (bytes : Bytes) : Disk where
  files := disk.files ++ [bytes]
  canonical := disk.files.length
  canonical_lt := by simp

theorem read_replace (disk : Disk) (bytes : Bytes) :
    (disk.replace bytes).read (disk.replace bytes).canonical = bytes := by
  simp [read, replace]

theorem read_create (disk : Disk) (bytes : Bytes) :
    (disk.create bytes).read disk.canonical = disk.read disk.canonical := by
  simp only [read, create, List.getElem?_append_left disk.canonical_lt]

theorem read_append_self {disk : Disk} {file : ℕ} (h : file < disk.files.length) (bytes : Bytes) :
    (disk.append file bytes).read file = disk.read file ++ bytes := by
  simp [read, append, List.getElem?_eq_getElem h]

end Disk

/-- `HistoryStore` with its file handle. -/
structure OpenStore (ν : Type) extends HistoryStore ν where
  file : ℕ

/-! ## `compact_inner_if_authorized` -/

/-- `CompactionOutcome`. -/
inductive CompactionOutcome where
  | durable
  | committedSyncPending
  | deferred
  | superseded
  deriving DecidableEq, Repr

/-- The replacement is in place. -/
def CompactionOutcome.committed : CompactionOutcome → Bool
  | .durable => true
  | .committedSyncPending => true
  | .deferred => false
  | .superseded => false

/-- The `io::Error` of a compaction that fails. -/
inductive CompactionError where
  /-- A file operation failed. -/
  | io
  /-- `open_error_to_io`. -/
  | invalid (error : OpenError)
  /-- `canonical history encode failure`. -/
  | encode
  /-- `compaction replacement does not exactly validate as retained canonical history`. -/
  | mismatch
  deriving DecidableEq, Repr

/-- What the file system and the authorisation answer. -/
structure Answers where
  readCanonical : Bool := true
  createTemporary : Bool := true
  /-- A write that fails, and how many bytes of the replacement were written before. -/
  writeTemporary : Option ℕ := none
  syncTemporary : Bool := true
  readTemporary : Bool := true
  authorize : Bool := true
  rename : Bool := true
  syncDirectory : Bool := true
  /-- Whether `remove_file` succeeds on a temporary file that is not needed. -/
  removeTemporary : Bool := true
  deriving DecidableEq, Repr

section Compaction

variable [F64 ν] [DecidableEq ν]

/-- The loop over `write_record`: what is in the file when it ends, and how it ends. -/
def writeRecords (S : Serde ν) (room : Option ℕ) : List (Record ν) → Bytes × Except CompactionError Unit
  | [] => ([], .ok ())
  | r :: rest =>
      match encodeRecord S r with
      | .error _ => ([], .error .encode)
      | .ok line =>
          let bytes := line ++ [newline]
          if room.any (· < bytes.length) then (bytes.take (room.getD 0), .error .io)
          else
            let (more, result) := writeRecords S (room.map (· - bytes.length)) rest
            (bytes ++ more, result)

/-- The state of the last sample of the live boot, newest first. -/
def lastLiveState (bootId : String) (rs : List (Record ν)) : Option (List (StateEntry ν)) :=
  rs.reverse.findSome? fun r =>
    match r with
    | .sample s => if s.bootId = bootId then some s.state else none
    | .boot _ => none
    | .checkpoint _ => none

/-- The closure `prepared`, up to the rename: the bytes of the temporary file, and the replay of the
replacement if it may take the place of the canonical file. -/
def prepareReplacement (S : Serde ν) (retained : List (Record ν)) (answers : Answers) :
    Bytes × Except CompactionError (Option (Replay ν)) :=
  match writeRecords S answers.writeTemporary retained with
  | (bytes, .error error) => (bytes, .error error)
  | (bytes, .ok ()) =>
      if !answers.syncTemporary || !answers.readTemporary then (bytes, .error .io)
      else
        match validateCanonical S bytes with
        | .error error => (bytes, .error (.invalid error))
        | .ok replacement =>
            if replacement.records ≠ retained || !replacement.gaps.isEmpty ||
                replacement.needsSeparator || replacement.diagnostics.excludedEpochs != 0 ||
                replacement.diagnostics.excludedRecords != 0 then
              (bytes, .error .mismatch)
            else if !answers.authorize then (bytes, .ok none)
            else if !answers.rename then (bytes, .error .io)
            else (bytes, .ok (some replacement))

/-- `compact_inner_if_authorized`. -/
def OpenStore.compactInnerIfAuthorized (S : Serde ν) (disk : Disk) (store : OpenStore ν) (cutoff : U64)
    (answers : Answers) : Disk × OpenStore ν × Except CompactionError CompactionOutcome :=
  if !answers.readCanonical then (disk, store, .error .io)
  else
    match validateCanonical S (disk.read disk.canonical) with
    | .error error => (disk, store, .error (.invalid error))
    | .ok replay =>
        if replay.gaps.any (cutoff < ·.stop) || store.lastState.isNone then (disk, store, .ok .deferred)
        else
          let retained := retainedCompactionRecords cutoff store.bootId store.lastState.isSome replay.records
          if !answers.createTemporary then (disk, store, .error .io)
          else
            -- a temporary file that is not needed is removed, if that succeeds
            let discarded (bytes : Bytes) : Disk :=
              if answers.removeTemporary then disk else disk.create bytes
            match prepareReplacement S retained answers with
            | (bytes, .error error) => (discarded bytes, store, .error error)
            | (bytes, .ok none) => (discarded bytes, store, .ok .superseded)
            | (bytes, .ok (some replacement)) =>
                -- the rename, and the handle on the file that was renamed
                (disk.replace bytes,
                  { store with
                    file := disk.files.length
                    lastTimestamp := replacement.records.getLast?.map Record.timestamp
                    lastState := lastLiveState store.bootId replacement.records
                    replay := replacement },
                  .ok (if answers.syncDirectory then .durable else .committedSyncPending))

/-! ## All or nothing -/

omit [DecidableEq ν] in
theorem writeRecords_ok {S : Serde ν} {rs : List (Record ν)} {room : Option ℕ} {bytes : Bytes}
    (h : writeRecords S room rs = (bytes, .ok ())) : bytes = fileOf S rs ∧ ∀ r ∈ rs, r.Encodable := by
  induction rs generalizing room bytes with
  | nil =>
      obtain ⟨rfl, -⟩ := Prod.mk.inj h
      exact ⟨rfl, by simp⟩
  | cons r rest ih =>
      rw [writeRecords] at h
      cases hencode : encodeRecord S r with
      | error error => simp [hencode] at h
      | ok line =>
          simp only [hencode] at h
          split at h
          · simp at h
          · obtain ⟨hbytes, hresult⟩ := Prod.mk.inj h
            obtain ⟨hmore, hrest⟩ := ih (Prod.ext rfl hresult)
            refine ⟨?_, ?_⟩
            · refine hbytes.symm.trans ((congrArg (line ++ [newline] ++ ·) hmore).trans ?_)
              simp [fileOf, recordLine, hencode]
            · rintro r' (_ | ⟨_, hr'⟩)
              · exact encodable_of_encodeRecord hencode
              · exact hrest r' hr'

/-- **A replacement that may be renamed** is the file of what is retained, and reads back as that. -/
theorem prepareReplacement_ok {S : Serde ν} {retained : List (Record ν)} {answers : Answers}
    {bytes : Bytes} {replacement : Replay ν}
    (h : prepareReplacement S retained answers = (bytes, .ok (some replacement))) :
    bytes = fileOf S retained ∧ (∀ r ∈ retained, r.Encodable) ∧
      validateCanonical S bytes = .ok replacement ∧ replacement.records = retained := by
  rw [prepareReplacement] at h
  split at h
  · simp at h
  · rename_i written hwrite
    obtain ⟨hfile, hencodable⟩ := writeRecords_ok hwrite
    split at h
    · simp at h
    · cases hvalid : validateCanonical S written with
      | error error => simp [hvalid] at h
      | ok replay =>
          simp only [hvalid] at h
          split at h
          · simp at h
          · rename_i hsame
            split at h
            · simp at h
            · split at h
              · simp at h
              · obtain ⟨rfl, hreplay⟩ := Prod.mk.inj h
                obtain rfl : replay = replacement := by simpa using hreplay
                refine ⟨hfile, hencodable, hvalid, ?_⟩
                simp only [Bool.or_eq_true, decide_eq_true_eq, not_or, not_not] at hsame
                exact hsame.1.1.1.1

omit [DecidableEq ν] in
/-- The lines of a file of records are those that were encoded, one for each. -/
theorem readLines_fileOf {S : Serde ν} (hS : S.Plain) {rs : List (Record ν)} (hrs : ∀ r ∈ rs, r.Encodable) :
    (readLines (fileOf S rs)).2 = [] ∧
      List.Forall₂ (fun r line => encodeRecord S r = .ok line) rs (readLines (fileOf S rs)).1 := by
  induction rs with
  | nil => exact ⟨rfl, .nil⟩
  | cons r rest ih =>
      obtain ⟨htail, hlines⟩ := ih fun r' hr' => hrs r' (List.mem_cons_of_mem _ hr')
      obtain ⟨line, hencode, hnl, -⟩ := line_of_encodable hS (hrs r List.mem_cons_self)
      have hfile : fileOf S (r :: rest) = line ++ newline :: fileOf S rest := by
        simp [fileOf, recordLine, hencode]
      rw [hfile, readLines_cons hnl]
      exact ⟨htail, .cons hencode hlines⟩

omit [DecidableEq ν] in
/-- As many records as lines: each line decodes, and to its record. -/
theorem decodeRecord_of_decoded {S : Serde ν} {rs : List (Record ν)} {lines : List Bytes}
    (hlines : List.Forall₂ (fun r line => encodeRecord S r = .ok line) rs lines)
    (hdecoded : decoded S lines = rs) :
    ∀ r ∈ rs, ∃ line, encodeRecord S r = .ok line ∧ decodeRecord S line = .ok r := by
  induction hlines with
  | nil => simp
  | @cons r line rest lines hline hrest ih =>
      have hsplit : decoded S (line :: lines) = (decodeRecord S line).toOption.toList ++ decoded S lines := by
        rw [decoded, List.filterMap_cons]
        cases (decodeRecord S line).toOption <;> rfl
      rw [hsplit] at hdecoded
      cases hdecode : decodeRecord S line with
      | error error =>
          -- then the other lines would hold one record more than there are
          have hlength : (decoded S lines).length ≤ lines.length := List.length_filterMap_le _ _
          have hmore := congrArg List.length hdecoded
          have hsame := hrest.length_eq
          simp only [hdecode, Except.toOption, Option.toList_none, List.nil_append, List.length_cons] at hmore
          omega
      | ok r' =>
          simp only [hdecode, Except.toOption, Option.toList_some, List.singleton_append, List.cons.injEq]
            at hdecoded
          obtain ⟨rfl, hmore⟩ := hdecoded
          rintro r (_ | ⟨_, hr⟩)
          · exact ⟨line, hline, hdecode⟩
          · exact ih hmore r hr

omit [DecidableEq ν] in
/-- **What the check of the replacement shows**: every record that is retained is read back. -/
theorem restores_of_validate {S : Serde ν} (hS : S.Plain) {rs : List (Record ν)} (hrs : ∀ r ∈ rs, r.Encodable)
    {replay : Replay ν} (hvalid : validateCanonical S (fileOf S rs) = .ok replay)
    (hrecords : replay.records = rs) : ∀ r ∈ rs, S.Restores r := by
  obtain ⟨-, hlines⟩ := readLines_fileOf hS hrs
  obtain ⟨-, -, hsub⟩ := validateCanonical_epochs hvalid
  rw [hrecords] at hsub
  have hlength : (decoded S (readLines (fileOf S rs)).1).length ≤ rs.length := by
    rw [hlines.length_eq]
    exact List.length_filterMap_le _ _
  have hdecoded := (hsub.eq_of_length_le hlength).symm
  intro r hr
  exact (hS.restores_iff (hrs r hr)).mpr (decodeRecord_of_decoded hlines hdecoded r hr)

/-- The store once the replacement is in place, with its handle on file `temporary`. -/
def OpenStore.replaced (store : OpenStore ν) (temporary : ℕ) (replacement : Replay ν) : OpenStore ν :=
  { store with
    file := temporary
    lastTimestamp := replacement.records.getLast?.map Record.timestamp
    lastState := lastLiveState store.bootId replacement.records
    replay := replacement }

/-- **What a compaction can do**: leave everything as it is but for a temporary file that was not removed,
or put the file of what is retained in the place of the canonical file. -/
theorem compactInnerIfAuthorized_cases (S : Serde ν) (disk : Disk) (store : OpenStore ν) (cutoff : U64)
    (answers : Answers) :
    (∃ disk' result, store.compactInnerIfAuthorized S disk cutoff answers = (disk', store, result) ∧
      (disk' = disk ∨ ∃ bytes, disk' = disk.create bytes) ∧
      ∀ outcome, result = .ok outcome → outcome.committed = false) ∨
    (∃ replay retained replacement outcome,
      validateCanonical S (disk.read disk.canonical) = .ok replay ∧
      replay.gaps.any (cutoff < ·.stop) = false ∧ store.lastState.isSome = true ∧
      retained = retainedCompactionRecords cutoff store.bootId true replay.records ∧
      (∀ r ∈ retained, r.Encodable) ∧ validateCanonical S (fileOf S retained) = .ok replacement ∧
      replacement.records = retained ∧ outcome.committed = true ∧
      store.compactInnerIfAuthorized S disk cutoff answers =
        (disk.replace (fileOf S retained), store.replaced disk.files.length replacement,
          .ok outcome)) := by
  -- an operation that fails leaves the temporary, unless it can still be removed
  have hdiscard : ∀ bytes, (if answers.removeTemporary then disk else disk.create bytes) = disk ∨
      ∃ bytes', (if answers.removeTemporary then disk else disk.create bytes) = disk.create bytes' := by
    intro bytes
    split
    · exact .inl rfl
    · exact .inr ⟨bytes, rfl⟩
  -- in the order of the source: the file, its gaps and the store's own state, then the replacement
  rw [OpenStore.compactInnerIfAuthorized]
  split
  · exact .inl ⟨_, _, rfl, .inl rfl, by simp⟩
  cases hvalid : validateCanonical S (disk.read disk.canonical) with
  | error error => exact .inl ⟨_, _, rfl, .inl rfl, by simp⟩
  | ok replay =>
      dsimp only
      split
      · exact .inl ⟨_, _, rfl, .inl rfl, by rintro _ ⟨⟩; rfl⟩
      rename_i hready
      simp only [Bool.or_eq_true, not_or, Bool.not_eq_true] at hready
      have hsome : store.lastState.isSome = true := by
        cases hlast : store.lastState with
        | none => simp [hlast] at hready
        | some state => rfl
      split
      · exact .inl ⟨_, _, rfl, .inl rfl, by simp⟩
      rw [hsome]
      cases hprepared : prepareReplacement S
          (retainedCompactionRecords cutoff store.bootId true replay.records) answers with
      | mk bytes result =>
          cases result with
          | error error => exact .inl ⟨_, _, rfl, hdiscard bytes, by simp⟩
          | ok replacement =>
              cases replacement with
              | none => exact .inl ⟨_, _, rfl, hdiscard bytes, by rintro _ ⟨⟩; rfl⟩
              | some replacement =>
                  -- all checks have passed, and the replacement is renamed into place
                  obtain ⟨rfl, hencodable, hreplay, hrecords⟩ := prepareReplacement_ok hprepared
                  refine .inr ⟨replay, _, replacement, _, rfl, hready.1, rfl, rfl, hencodable, hreplay,
                    hrecords, ?_, rfl⟩
                  split <;> rfl

end Compaction

end Flock.History
