/-
# Flock.Front.Request — what the entry point of `/v1/*` reads of a request.

Its header map, the deadline header, the client its bearer token stands for, and its JSON body.  The deadline is a
decimal number of milliseconds after the request was accepted; `deadline_iff` says which header maps carry one.
The SHA-256 digest and `serde_json` are parameters.
-/
import Mathlib.Data.Nat.Digits.Defs
import Flock.App.Basic
import Flock.Config.File
import Flock.Config.TimeRange
import Flock.Coalescer.Merge
import Flock.Governor.Gate
import Flock.Lib.FormText

namespace Flock

/-! ## Headers -/

/-- A header map: its entries in the order they came in, the names in lower case. -/
abbrev Headers := List (String × List UInt8)

namespace Headers

/-- `HeaderMap::get_all`. -/
def getAll (headers : Headers) (name : String) : List (List UInt8) :=
  (headers.filter fun entry => entry.1 == name).map Prod.snd

/-- `HeaderMap::get`. -/
def get (headers : Headers) (name : String) : Option (List UInt8) := (headers.getAll name).head?

end Headers

/-- The bytes that `HeaderValue::to_str` lets through. -/
def visibleAscii (b : UInt8) : Bool := (32 ≤ b.toNat && b.toNat < 127) || b.toNat == 9

/-- `HeaderValue::to_str`. -/
def headerText (value : List UInt8) : Option String :=
  if value.all visibleAscii then some (String.ofList (value.map fun b => Char.ofNat b.toNat)) else none

/-! ## The deadline -/

namespace Instant

/-- `now.checked_add(Duration::from_millis(millis))`. -/
def checkedAddMillis (now : Instant) (millis : ℕ) : Option Instant :=
  -- both parts are below a second, so one second is carried at most
  if hcarry : 10 ^ 9 ≤ now.nanos + millis % 1000 * 10 ^ 6 then
    if h : now.secs + (millis / 1000 : ℕ) + 1 < 2 ^ 63 then
      some
        { secs := now.secs + (millis / 1000 : ℕ) + 1, nanos := now.nanos + millis % 1000 * 10 ^ 6 - 10 ^ 9
          lower := by have := now.lower; omega
          upper := h
          subsecond := by have := now.subsecond; omega }
    else none
  else if h : now.secs + (millis / 1000 : ℕ) < 2 ^ 63 then
    some
      { secs := now.secs + (millis / 1000 : ℕ), nanos := now.nanos + millis % 1000 * 10 ^ 6
        lower := by have := now.lower; omega
        upper := h
        subsecond := by omega }
  else none

/-- An instant in nanoseconds. -/
def toNanos (t : Instant) : ℤ := t.secs * 10 ^ 9 + t.nanos

theorem toNanos_injective {t t' : Instant} (h : t.toNanos = t'.toNanos) : t = t' := by
  obtain ⟨secs, nanos, lower, upper, hsub⟩ := t
  obtain ⟨secs', nanos', lower', upper', hsub'⟩ := t'
  simp only [toNanos] at h
  obtain rfl : secs = secs' := by omega
  obtain rfl : nanos = nanos' := by omega
  rfl

/-- The sum is an instant wherever there is one. -/
theorem checkedAddMillis_eq_some {now t : Instant} {millis : ℕ} :
    now.checkedAddMillis millis = some t ↔ t.toNanos = now.toNanos + millis * 10 ^ 6 := by
  have hnow := now.subsecond
  have ht := t.subsecond
  have hupper := t.upper
  constructor
  -- the two branches: with and without a carry of the nanoseconds
  · intro h
    unfold checkedAddMillis at h
    split at h
    · split at h
      · obtain rfl := Option.some.inj h
        simp only [toNanos]
        omega
      · cases h
    · split at h
      · obtain rfl := Option.some.inj h
        simp only [toNanos]
        omega
      · cases h
  -- the sum is in range, since it is an instant
  · intro h
    have heq := h
    simp only [toNanos] at heq
    unfold checkedAddMillis
    split
    · rw [dif_pos (by omega)]
      apply congrArg some
      apply toNanos_injective
      rw [h]
      simp only [toNanos]
      omega
    · rw [dif_pos (by omega)]
      apply congrArg some
      apply toNanos_injective
      rw [h]
      simp only [toNanos]
      omega

end Instant

/-- `DEADLINE_HEADER`. -/
def deadlineHeader : String := "x-flock-deadline-ms"

/-- `parse_request_deadline`. -/
def parseRequestDeadline (headers : Headers) (accepted : Instant) : Except Unit (Option Instant) :=
  match headers.getAll deadlineHeader with
  | [] => .ok none
  | [value] =>
      match headerText value with
      | none => .error ()
      | some raw =>
          if Text.isEmpty raw || !raw.toList.all Text.isAsciiDigit then .error ()
          else
            match (Text.parseUnsigned 64 raw).bind accepted.checkedAddMillis with
            | none => .error ()
            | some deadline => .ok (some deadline)
  | _ :: _ :: _ => .error ()

/-- The numeral of these digits, most significant first. -/
def numeral (digits : List ℕ) : List UInt8 := digits.map fun d => UInt8.ofNat (48 + d)

section Numeral

variable {digits : List ℕ}

theorem byte_toNat : ∀ d < 10, (UInt8.ofNat (48 + d)).toNat = 48 + d := by decide

theorem char_toNat : ∀ d < 10, (Char.ofNat (48 + d)).toNat = 48 + d := by decide

/-- A byte of an ASCII digit is one of ten. -/
theorem exists_digit : ∀ b : UInt8, Text.isAsciiDigit (Char.ofNat b.toNat) = true →
    ∃ d < 10, b = UInt8.ofNat (48 + d) :=
  Lib.FormText.forall_byte (by decide +kernel)

theorem headerText_numeral (h : ∀ d ∈ digits, d < 10) :
    headerText (numeral digits) = some (String.ofList (digits.map fun d => Char.ofNat (48 + d))) := by
  have hall : (numeral digits).all visibleAscii = true := by
    simp only [numeral, List.all_map, List.all_eq_true]
    intro d hd
    have hlt := h d hd
    simp only [Function.comp, visibleAscii, byte_toNat d hlt, Bool.or_eq_true, Bool.and_eq_true, decide_eq_true_eq]
    left
    omega
  rw [headerText, if_pos hall, numeral, List.map_map]
  refine congrArg (some ∘ String.ofList) (List.map_congr_left fun d hd => ?_)
  simp only [Function.comp, byte_toNat d (h d hd)]

theorem all_digitChar (h : ∀ d ∈ digits, d < 10) :
    (digits.map fun d => Char.ofNat (48 + d)).all Text.isAsciiDigit = true := by
  simp only [List.all_map, List.all_eq_true]
  intro d hd
  simp only [Function.comp, Text.isAsciiDigit, char_toNat d (h d hd), Bool.and_eq_true, decide_eq_true_eq]
  have := h d hd
  omega

/-- What a fold over the characters of a numeral makes of it. -/
theorem foldl_digitChar (h : ∀ d ∈ digits, d < 10) (n : ℕ) :
    (digits.map fun d => Char.ofNat (48 + d)).foldl (fun n c => 10 * n + (c.toNat - 0x30)) n =
      Nat.ofDigits 10 (digits.reverse ++ [n]) := by
  induction digits generalizing n with
  | nil => simp
  | cons d digits ih =>
      have hd := h d List.mem_cons_self
      rw [List.map_cons, List.foldl_cons, ih fun x hx => h x (List.mem_cons_of_mem _ hx), char_toNat d hd,
        List.reverse_cons, List.append_assoc, Nat.ofDigits_append, Nat.ofDigits_append]
      have hlast : Nat.ofDigits 10 ([d] ++ [n]) = 10 * n + d := by
        rw [List.singleton_append, Nat.ofDigits_cons, Nat.ofDigits_singleton]
        omega
      rw [hlast, Nat.ofDigits_singleton]
      congr 2
      omega

theorem parseUnsigned_numeral (hne : digits ≠ []) (h : ∀ d ∈ digits, d < 10) :
    Text.parseUnsigned 64 (String.ofList (digits.map fun d => Char.ofNat (48 + d))) =
      (some (Nat.ofDigits 10 digits.reverse)).filter (· < 2 ^ 64) := by
  have hplus : ∀ rest, digits.map (fun d => Char.ofNat (48 + d)) ≠ '+' :: rest := by
    intro rest heq
    have hhead := all_digitChar h
    rw [heq] at hhead
    cases hhead
  have hnonempty : (digits.map fun d => Char.ofNat (48 + d)).isEmpty = false := by simpa using hne
  have hvalue := foldl_digitChar h 0
  rw [Nat.ofDigits_append_zero] at hvalue
  unfold Text.parseUnsigned
  rw [String.toList_ofList]
  split
  · rename_i rest heq
    exact absurd heq (hplus rest)
  · unfold Text.digitsValue
    dsimp only
    rw [hnonempty, all_digitChar h, hvalue]
    rfl

/-- A header of ASCII digits is a numeral. -/
theorem exists_numeral {value : List UInt8} {raw : String} (hraw : headerText value = some raw)
    (hdigits : raw.toList.all Text.isAsciiDigit = true) :
    ∃ digits : List ℕ, (∀ d ∈ digits, d < 10) ∧ value = numeral digits := by
  unfold headerText at hraw
  split at hraw
  · obtain rfl := Option.some.inj hraw
    rw [String.toList_ofList, List.all_map, List.all_eq_true] at hdigits
    clear * - hdigits
    induction value with
    | nil => exact ⟨[], by simp, rfl⟩
    | cons b value ih =>
        obtain ⟨digits, hlt, rfl⟩ := ih fun x hx => hdigits x (List.mem_cons_of_mem _ hx)
        obtain ⟨d, hd, rfl⟩ := exists_digit b (hdigits b List.mem_cons_self)
        exact ⟨d :: digits, List.forall_mem_cons.mpr ⟨hd, hlt⟩, rfl⟩
  · cases hraw

/-- One header that is a numeral. -/
theorem parseRequestDeadline_numeral {headers : Headers} {accepted : Instant} (hne : digits ≠ [])
    (h : ∀ d ∈ digits, d < 10) (hget : headers.getAll deadlineHeader = [numeral digits]) (d : Option Instant) :
    parseRequestDeadline headers accepted = .ok d ↔
      Nat.ofDigits 10 digits.reverse < 2 ^ 64 ∧
        ∃ t, d = some t ∧ t.toNanos = accepted.toNanos + (Nat.ofDigits 10 digits.reverse : ℕ) * 10 ^ 6 := by
  have hnonempty : Text.isEmpty (String.ofList (digits.map fun d => Char.ofNat (48 + d))) = false := by
    simp [Text.isEmpty, hne]
  have hall := all_digitChar h
  unfold parseRequestDeadline
  rw [hget]
  dsimp only
  rw [headerText_numeral h]
  dsimp only
  rw [hnonempty, String.toList_ofList, hall, if_neg (by decide), parseUnsigned_numeral hne h]
  by_cases hlt : Nat.ofDigits 10 digits.reverse < 2 ^ 64
  · rw [Option.filter_some, if_pos (by simpa using hlt), Option.bind_some]
    cases hadd : accepted.checkedAddMillis (Nat.ofDigits 10 digits.reverse) with
    | none =>
        refine iff_of_false (by rintro ⟨⟩) ?_
        rintro ⟨-, t, -, ht⟩
        rw [Instant.checkedAddMillis_eq_some.mpr ht] at hadd
        cases hadd
    | some t =>
        have ht := Instant.checkedAddMillis_eq_some.mp hadd
        constructor
        · rintro ⟨⟩
          exact ⟨hlt, t, rfl, ht⟩
        · rintro ⟨-, t', rfl, ht'⟩
          rw [Instant.toNanos_injective (ht'.trans ht.symm)]
  · rw [Option.filter_some, if_neg (by simpa using hlt)]
    exact iff_of_false (by rintro ⟨⟩) fun hd => hlt hd.1

end Numeral

/-- **Which requests carry a deadline, and which one.**  Without the header there is none; with it there has to be
one value, a nonempty decimal numeral of 64 bits, whose milliseconds after the acceptance are still an instant, and
the deadline is that instant.  Every other header map is refused. -/
theorem deadline_iff (headers : Headers) (accepted : Instant) (deadline : Option Instant) :
    parseRequestDeadline headers accepted = .ok deadline ↔
      (headers.getAll deadlineHeader = [] ∧ deadline = none) ∨
        ∃ (digits : List ℕ) (t : Instant), headers.getAll deadlineHeader = [numeral digits] ∧ digits ≠ [] ∧
          (∀ d ∈ digits, d < 10) ∧ Nat.ofDigits 10 digits.reverse < 2 ^ 64 ∧ deadline = some t ∧
          t.toNanos = accepted.toNanos + (Nat.ofDigits 10 digits.reverse : ℕ) * 10 ^ 6 := by
  constructor
  · intro h
    have hparse := h
    unfold parseRequestDeadline at h
    -- by the number of deadline headers: none, one, or more than one
    split at h
    · rename_i hget
      cases h
      exact .inl ⟨hget, rfl⟩
    · rename_i value hget
      split at h
      · cases h
      -- the value is text, and its characters are digits
      · rename_i raw hraw
        split at h
        · cases h
        · rename_i hdigits
          simp only [Bool.or_eq_true, Bool.not_eq_true', not_or, Bool.not_eq_true, Bool.not_eq_false] at hdigits
          obtain ⟨digits, hlt, rfl⟩ := exists_numeral hraw hdigits.2
          have hne : digits ≠ [] := by
            rintro rfl
            obtain rfl : raw = "" := by simpa [numeral, headerText, eq_comm] using hraw
            exact absurd hdigits.1 (by decide)
          obtain ⟨hsmall, t, rfl, ht⟩ := (parseRequestDeadline_numeral hne hlt hget _).mp hparse
          exact .inr ⟨digits, t, hget, hne, hlt, hsmall, rfl, ht⟩
    · cases h
  · rintro (⟨hget, rfl⟩ | ⟨digits, t, hget, hne, hlt, hsmall, rfl, ht⟩)
    · unfold parseRequestDeadline
      rw [hget]
    · exact (parseRequestDeadline_numeral hne hlt hget _).mpr ⟨hsmall, t, rfl, ht⟩

/-! ## The client -/

/-- The token behind `Bearer `. -/
def bearerToken (headers : Headers) : String :=
  (((headers.get "authorization").bind headerText).bind (Text.stripStart "Bearer ")).getD ""

/-- The client authentication of `handle`: open mode, or the last entry whose digest the token has. -/
def clientOf (sha256Hex : String → String) (clients : Option (Std.ExtTreeMap String String)) (headers : Headers) :
    Option String :=
  match clients with
  | none => some "local"
  | some clients =>
      let digest := sha256Hex (bearerToken headers)
      clients.toList.foldl (fun matched entry => if entry.1 = digest then some entry.2 else matched) none

theorem foldl_last_eq {entries : List (String × String)} {digest : String} {matched : Option String} :
    entries.foldl (fun matched entry => if entry.1 = digest then some entry.2 else matched) matched =
      ((entries.filter fun entry => entry.1 = digest).getLast?.map Prod.snd).or matched := by
  induction entries using List.reverseRecOn generalizing matched with
  | nil => rfl
  | append_singleton entries entry ih =>
      rw [List.foldl_append, ih, List.filter_append, List.foldl_cons, List.foldl_nil]
      by_cases h : entry.1 = digest
      · rw [if_pos h, List.filter_cons_of_pos (by simpa using h), List.filter_nil, List.getLast?_append]
        rfl
      · rw [if_neg h, List.filter_cons_of_neg (by simpa using h), List.filter_nil, List.append_nil]

/-- A map has one entry of a digest, so which of them is the last does not matter. -/
theorem clientOf_some (sha256Hex : String → String) (clients : Std.ExtTreeMap String String) (headers : Headers) :
    clientOf sha256Hex (some clients) headers = clients[sha256Hex (bearerToken headers)]? := by
  have hentry : ∀ name, ((clients.toList.filter fun entry => entry.1 = sha256Hex (bearerToken headers)).getLast?.map
      Prod.snd) = some name → clients[sha256Hex (bearerToken headers)]? = some name := by
    intro name hname
    obtain ⟨entry, hlast, rfl⟩ := Option.map_eq_some_iff.mp hname
    obtain ⟨hmem, hdigest⟩ := List.mem_filter.mp (List.mem_of_getLast? hlast)
    have hkey : entry.1 = sha256Hex (bearerToken headers) := by simpa using hdigest
    rw [← hkey]
    exact Std.ExtTreeMap.mem_toList_iff_getElem?_eq_some.mp hmem
  unfold clientOf
  dsimp only
  rw [foldl_last_eq, Option.or_none]
  cases hfound : (clients.toList.filter fun entry => entry.1 = sha256Hex (bearerToken headers)).getLast? with
  | some entry => exact (hentry entry.2 (by rw [hfound]; rfl)).symm
  | none =>
      cases hclient : clients[sha256Hex (bearerToken headers)]? with
      | none => rfl
      | some name =>
          have hmem := Std.ExtTreeMap.mem_toList_iff_getElem?_eq_some.mpr hclient
          have hkept : (sha256Hex (bearerToken headers), name) ∈
              clients.toList.filter fun entry => entry.1 = sha256Hex (bearerToken headers) :=
            List.mem_filter.mpr ⟨hmem, by simp⟩
          rw [List.getLast?_eq_none_iff.mp hfound] at hkept
          cases hkept

/-! ## The body -/

namespace Json

/-- `Value::as_bool`. -/
def asBool {ν : Type} : Json ν → Option Bool
  | .bool b => some b
  | _ => none

end Json

/-- A request as the router hands it over. -/
structure Request where
  method : String
  /-- `uri.path()` -/
  path : String
  /-- What is behind the question mark. -/
  query : Option String
  headers : Headers
  body : List UInt8

namespace Request

variable {ν : Type} (json : BodyCodec ν)

/-- `path_query`. -/
def pathQuery (r : Request) : String :=
  match r.query with
  | none => r.path
  | some query => r.path ++ "?" ++ query

/-- `raw_model`. -/
def rawModel (r : Request) : String :=
  (((json.fromSlice r.body).bind fun v => v.get "model").bind Json.asStr).getD "none"

/-- `wants_stream`. -/
def wantsStream (r : Request) : Bool :=
  (((json.fromSlice r.body).bind fun v => v.get "stream").bind Json.asBool).getD false

/-- The model-catalog probe. -/
def isCatalogProbe (r : Request) : Bool := r.method == "GET" && r.path == "/v1/models"

/-- What `stream_options` is set to. -/
def includeUsage : Json ν := .obj [("include_usage", .bool true)]

/-- The fields of an object that has no `stream_options`. -/
def bareFields (r : Request) : Option (List (String × Json ν)) :=
  match json.fromSlice r.body with
  | some (.obj fields) => if (fields.lookup "stream_options").isNone then some fields else none
  | _ => none

/-- The usage injection of `handle`: the body to send, and the untouched one where it is kept for a retry; `none`: the
serialisation fails, and the handler panics. -/
def inject (r : Request) (strictPassthrough : Bool) (noInject : Finset String) (model : String) :
    Option (List UInt8 × Option (List UInt8)) :=
  if r.wantsStream json && !strictPassthrough && r.path == "/v1/chat/completions" then
    match r.bareFields json with
    | some fields =>
        if model ∈ noInject then some (r.body, none)
        else
          (json.toVec (.obj (insertField "stream_options" includeUsage fields))).map fun body =>
            (body, some r.body)
    | none => some (r.body, none)
  else some (r.body, none)

end Request

end Flock
