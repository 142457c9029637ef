/-
# Flock.Auth.Cookie — the session cookie, there and back.

    Set-Cookie: flock_session={token}; HttpOnly; SameSite=Strict; Path=/; Max-Age=43200

A browser keeps what is in front of the first semicolon, and sends it among its other cookies, with a semicolon and a
blank between two.  `cookie_token` takes the first cookie of the name; but it reads the header as text, and a header
with one byte that is not visible ASCII is none, so that a cookie of another page can hide the session.
-/
import Flock.Auth.Credentials
import Flock.Auth.Session
import Flock.Config.Json
import Flock.Front.Request
import Flock.Text.Slices

namespace Flock

/-! ## The header

Whether the header can be read is asked before anything else, and of the whole of it.  There may be several header
lines; the source reads the first. -/

/-- `COOKIE`. -/
def sessionCookie : String := "flock_session"

/-- `SESSION_TTL_SECS`. -/
def sessionTtlSecs : UInt64 := 12 * 3600

/-- The condition of `Admin::cookie`. -/
def secureCookie (trustProxy : Bool) (headers : Headers) : Bool :=
  trustProxy && ((headers.get "x-forwarded-proto").bind headerText).any fun p => Text.toAsciiLowercase p == "https"

/-- `Admin::cookie`. -/
def adminCookie (trustProxy : Bool) (headers : Headers) (token : String) (maxAge : ℕ) : String :=
  sessionCookie ++ "=" ++ token ++ "; HttpOnly; SameSite=Strict; Path=/; Max-Age=" ++ toString maxAge ++
    if secureCookie trustProxy headers then "; Secure" else ""

/-- The loop of `cookie_token`, over the header as text. -/
def tokenIn (raw : String) : Option String :=
  (Text.split ';' raw).findSome? fun part => Text.stripStart (sessionCookie ++ "=") (Text.trim part)

/-- `cookie_token`. -/
def cookieToken (headers : Headers) : Option String := ((headers.get "cookie").bind headerText).bind tokenIn

namespace SigningKey

variable (K : SigningKey)

/-- `mint_session_cookie`, at the time `now`. -/
def mintSessionCookie (trustProxy : Bool) (headers : Headers) (now : UInt64) (username passwordHash : String) :
    String :=
  adminCookie trustProxy headers (K.signSession (now + sessionTtlSecs) username passwordHash) sessionTtlSecs.toNat

/-- The first half of `identify`, at the time `now`. -/
def identifyCookie (now : UInt64) (headers : Headers) (sc : StoredConfig) : Option String :=
  (cookieToken headers).bind fun token => K.verifySession now token sc

end SigningKey

/-! ## The browser

What a browser does with a cookie is not in the source.  This much of it is fixed: it keeps the pair, and sends its
pairs with a separator between two. -/

/-- What a browser keeps of a `Set-Cookie` header: the bytes in front of the first semicolon. -/
def keptCookie (header : String) : List UInt8 := (utf8 header).takeWhile (· != 0x3B)

/-- The header a browser sends its cookies in. -/
def cookieHeader (jar : List (List UInt8)) : List UInt8 := [0x3B, 0x20].intercalate jar

/-- The bytes of a header, taken for characters. -/
def headerChars (value : List UInt8) : List Char := value.map fun b => Char.ofNat b.toNat

/-- Another cookie, of whatever bytes. -/
def OtherCookie (c : List UInt8) : Prop :=
  ';' ∉ headerChars c ∧ Text.stripStart (sessionCookie ++ "=") (Text.trim (String.ofList (headerChars c))) = none

/-- The text of a header, if it is one. -/
theorem headerText_eq (value : List UInt8) :
    headerText value = if value.all visibleAscii then some (String.ofList (headerChars value)) else none := rfl

/-- The characters of the header are those of the pairs. -/
theorem headerChars_cookieHeader (jar : List (List UInt8)) :
    headerChars (cookieHeader jar) = "; ".toList.intercalate (jar.map headerChars) := by
  unfold cookieHeader
  induction jar with
  | nil => rfl
  | cons c rest ih =>
      cases rest with
      | nil => simp [List.intercalate_singleton]
      | cons next rest =>
          rw [List.intercalate_cons_cons, List.map_cons, List.map_cons, List.intercalate_cons_cons, ← List.map_cons, ← ih]
          simp [headerChars]

/-- A header is text exactly if every cookie in it is. -/
theorem all_cookieHeader (jar : List (List UInt8)) :
    (cookieHeader jar).all visibleAscii = jar.all (·.all visibleAscii) := by
  unfold cookieHeader
  induction jar with
  | nil => rfl
  | cons c rest ih =>
      cases rest with
      | nil => simp [List.intercalate_singleton]
      | cons next rest =>
          have hsep : [0x3B, 0x20].all visibleAscii = true := rfl
          rw [List.intercalate_cons_cons, List.all_append, List.all_append, ih, hsep, Bool.and_true]
          rfl

/-! ## What is read of a header

A token consists of characters that are no white space and no separator, and can be seen. -/

/-- A character of a cookie that login sets: visible ASCII, and no separator. -/
def IsTokenChar (c : Char) : Prop := Text.isWhitespace c = false ∧ c ≠ ';' ∧ 32 ≤ c.toNat ∧ c.toNat < 127

theorem isTokenChar_hexDigit : ∀ n < 16, Text.isWhitespace (hexDigit n) = false ∧ hexDigit n ≠ ';' ∧
    32 ≤ (hexDigit n).toNat ∧ (hexDigit n).toNat < 127 := by decide

theorem isTokenChar_map {ds : List ℕ} (h : ∀ d ∈ ds, d < 16) : ∀ c ∈ ds.map hexDigit, IsTokenChar c := by
  intro c hc
  obtain ⟨d, hd, rfl⟩ := List.mem_map.mp hc
  exact isTokenChar_hexDigit d (h d hd)

theorem isTokenChar_hex (bytes : List UInt8) : ∀ c ∈ (hex bytes).toList, IsTokenChar c := by
  rw [hex_toList]
  exact isTokenChar_map (hexDigits_lt bytes)

theorem isTokenChar_lowerHex (n : ℕ) : ∀ c ∈ (lowerHex n).toList, IsTokenChar c := by
  obtain ⟨ds, htext, -, hlt, -⟩ := exists_digits_lowerHex n
  rw [htext]
  exact isTokenChar_map hlt

/-- A signed token has such characters only. -/
theorem isTokenChar_signSession (K : SigningKey) (expiry : UInt64) (username passwordHash : String) :
    ∀ c ∈ (K.signSession expiry username passwordHash).toList, IsTokenChar c := by
  have hdot : ∀ c ∈ ".".toList, IsTokenChar c := by
    intro c hc
    rw [List.mem_singleton.mp hc]
    exact ⟨by decide, by decide, by decide, by decide⟩
  have hfrag : ∀ c ∈ (K.pwFragment passwordHash).toList, IsTokenChar c := by
    unfold SigningKey.pwFragment
    rw [String.toList_ofList]
    exact fun c hc => isTokenChar_hex _ c (List.mem_of_mem_take hc)
  unfold SigningKey.signSession
  simp only [String.toList_append, List.forall_mem_append]
  exact ⟨⟨⟨⟨⟨⟨isTokenChar_lowerHex _, hdot⟩, isTokenChar_hex _⟩, hdot⟩, hfrag⟩, hdot⟩, isTokenChar_hex _⟩

section Mint

variable (K : SigningKey) (trustProxy : Bool) (headers : Headers) (now : UInt64) (username passwordHash : String)

/-- The cookie, without its attributes. -/
def mintedPair : List Char :=
  (sessionCookie ++ "=").toList ++ (K.signSession (now + sessionTtlSecs) username passwordHash).toList

theorem isTokenChar_mintedPair : ∀ c ∈ mintedPair K now username passwordHash, IsTokenChar c := by
  have hname : (sessionCookie ++ "=").toList.all (fun c =>
      !Text.isWhitespace c && c != ';' && decide (32 ≤ c.toNat) && decide (c.toNat < 127)) = true := rfl
  unfold mintedPair
  rw [List.forall_mem_append]
  refine ⟨fun c hc => ?_, isTokenChar_signSession K _ username passwordHash⟩
  simpa [IsTokenChar, and_assoc] using List.all_eq_true.mp hname c hc

/-- **What a browser keeps** of what login sets. -/
theorem keptCookie_mint : keptCookie (K.mintSessionCookie trustProxy headers now username passwordHash) =
    asciiBytes (mintedPair K now username passwordHash) := by
  have htext : ∃ attributes, (K.mintSessionCookie trustProxy headers now username passwordHash).toList =
      mintedPair K now username passwordHash ++ ';' :: attributes := by
    unfold SigningKey.mintSessionCookie adminCookie mintedPair
    simp only [String.toList_append, List.append_assoc]
    exact ⟨_, rfl⟩
  obtain ⟨attributes, htext⟩ := htext
  have htoken := isTokenChar_mintedPair K now username passwordHash
  have hascii := utf8_of_ascii fun c hc => (htoken c hc).2.2.2.trans (by decide)
  rw [utf8_eq_flatMap, String.toList_ofList] at hascii
  have hbytes : ∀ b ∈ asciiBytes (mintedPair K now username passwordHash), (b != 0x3B) = true := by
    intro b hb
    obtain ⟨c, hc, rfl⟩ := List.mem_map.mp hb
    obtain ⟨-, hsemicolon, -, hlt⟩ := htoken c hc
    rw [bne_iff_ne]
    intro heq
    have hnat := congrArg UInt8.toNat heq
    rw [UInt8.toNat_ofNat', Nat.mod_eq_of_lt (hlt.trans (by decide))] at hnat
    exact hsemicolon (Char.toNat_inj.mp hnat)
  unfold keptCookie
  rw [utf8_eq_flatMap, htext, List.flatMap_append, hascii, List.flatMap_cons, List.takeWhile_append_of_pos hbytes]
  exact List.append_nil _

/-- Its bytes are text, and read as they were written. -/
theorem headerChars_mint : headerChars (asciiBytes (mintedPair K now username passwordHash)) =
    mintedPair K now username passwordHash := by
  unfold headerChars asciiBytes
  rw [List.map_map]
  refine (List.map_congr_left fun c hc => ?_).trans (List.map_id _)
  obtain ⟨-, -, -, hlt⟩ := isTokenChar_mintedPair K now username passwordHash c hc
  show Char.ofNat (UInt8.ofNat c.toNat).toNat = c
  rw [UInt8.toNat_ofNat', Nat.mod_eq_of_lt (hlt.trans (by decide)), Char.ofNat_toNat]

/-- The cookie can be read as text. -/
theorem visible_mint : (asciiBytes (mintedPair K now username passwordHash)).all visibleAscii = true := by
  rw [List.all_eq_true]
  intro b hb
  obtain ⟨c, hc, rfl⟩ := List.mem_map.mp hb
  obtain ⟨-, -, hle, hlt⟩ := isTokenChar_mintedPair K now username passwordHash c hc
  unfold visibleAscii
  rw [UInt8.toNat_ofNat', Nat.mod_eq_of_lt (hlt.trans (by decide))]
  simp [hle, hlt]

end Mint

theorem trim_of_solid {cs : List Char} (h : ∀ c ∈ cs, Text.isWhitespace c = false) :
    Text.trim (String.ofList cs) = String.ofList cs := by
  have hkeep : ∀ cs : List Char, (∀ c ∈ cs, Text.isWhitespace c = false) → cs.dropWhile Text.isWhitespace = cs := by
    intro cs h
    cases cs with
    | nil => rfl
    | cons c cs => exact List.dropWhile_cons_of_neg (by simpa using h c List.mem_cons_self)
  unfold Text.trim
  rw [String.toList_ofList, hkeep cs h, hkeep _ fun c hc => h c (List.mem_reverse.mp hc), List.reverse_reverse]

theorem trim_blank (cs : List Char) : Text.trim (String.ofList (' ' :: cs)) = Text.trim (String.ofList cs) := by
  unfold Text.trim
  rw [String.toList_ofList, String.toList_ofList, List.dropWhile_cons_of_pos (by decide)]

/-- One piece of the header. -/
def pieceToken (piece : List Char) : Option String :=
  Text.stripStart (sessionCookie ++ "=") (Text.trim (String.ofList piece))

theorem tokenIn_single {piece : List Char} (h : ';' ∉ piece) :
    tokenIn (String.ofList piece) = pieceToken piece := by
  unfold tokenIn Text.split
  rw [String.toList_ofList, List.splitOn_eq_singleton h]
  cases hpiece : pieceToken piece with
  | none => simpa [pieceToken] using hpiece
  | some token => simpa [pieceToken] using hpiece

/-- A header of one pair and more. -/
theorem tokenIn_cons {piece : List Char} (h : ';' ∉ piece) (rest : List Char) :
    tokenIn (String.ofList (piece ++ ';' :: rest)) = (pieceToken piece).or (tokenIn (String.ofList rest)) := by
  unfold tokenIn Text.split
  rw [String.toList_ofList, String.toList_ofList,
    List.splitOn_append_cons_self_of_not_mem h, List.map_cons, List.findSome?_cons]
  cases hpiece : pieceToken piece with
  | none =>
      rw [pieceToken] at hpiece
      rw [hpiece]
      rfl
  | some token =>
      rw [pieceToken] at hpiece
      rw [hpiece]
      rfl

section Jar

variable {blank : List Char}

/-- The blank in front of a pair does not matter. -/
theorem pieceToken_blank (hblank : blank = [] ∨ blank = [' ']) (cs : List Char) :
    pieceToken (blank ++ cs) = pieceToken cs := by
  rcases hblank with rfl | rfl
  · rfl
  · unfold pieceToken
    rw [List.singleton_append, trim_blank]

theorem notMem_blank (hblank : blank = [] ∨ blank = [' ']) {cs : List Char} (h : ';' ∉ cs) : ';' ∉ blank ++ cs := by
  rcases hblank with rfl | rfl
  · exact h
  · simpa using h

/-- A piece of a header that is another cookie. -/
def OtherPiece (piece : List Char) : Prop := ';' ∉ piece ∧ pieceToken piece = none

/-- **The first cookie of the name** is read, behind other cookies and in front of anything. -/
theorem tokenIn_jar (hblank : blank = [] ∨ blank = [' ']) {token : List Char}
    (htoken : ∀ c ∈ (sessionCookie ++ "=").toList ++ token, IsTokenChar c) {before : List (List Char)}
    (hbefore : ∀ c ∈ before, OtherPiece c) (after : List (List Char)) :
    tokenIn (String.ofList (blank ++
      "; ".toList.intercalate (before ++ ((sessionCookie ++ "=").toList ++ token) :: after))) =
        some (String.ofList token) := by
  have hpair : ';' ∉ (sessionCookie ++ "=").toList ++ token := fun hmem => (htoken _ hmem).2.1 rfl
  have hread : pieceToken ((sessionCookie ++ "=").toList ++ token) = some (String.ofList token) := by
    unfold pieceToken
    rw [trim_of_solid fun c hc => (htoken c hc).1]
    unfold Text.stripStart
    rw [if_pos (by simp), String.toList_ofList, List.drop_left]
  -- from pair to pair; behind the first one there is a blank in front
  induction before generalizing blank with
  | nil =>
      cases after with
      | nil =>
          rw [List.nil_append, List.intercalate_singleton, tokenIn_single (notMem_blank hblank hpair),
            pieceToken_blank hblank, hread]
      -- the loop ends at the first session cookie, whatever comes behind it
      | cons next after =>
          have hsplit : blank ++ "; ".toList.intercalate (((sessionCookie ++ "=").toList ++ token) :: next :: after) =
              (blank ++ ((sessionCookie ++ "=").toList ++ token)) ++
                ';' :: (' ' :: "; ".toList.intercalate (next :: after)) := by
            rw [List.intercalate_cons_cons]
            simp
          rw [List.nil_append, hsplit, tokenIn_cons (notMem_blank hblank hpair), pieceToken_blank hblank, hread]
          rfl
  -- a pair of another name is passed over
  | cons c before ih =>
      obtain ⟨hsemicolon, hother⟩ := hbefore c List.mem_cons_self
      set rest := before ++ ((sessionCookie ++ "=").toList ++ token) :: after
      have hsplit : blank ++ "; ".toList.intercalate (c :: rest) =
          (blank ++ c) ++ ';' :: ([' '] ++ "; ".toList.intercalate rest) := by
        rw [List.intercalate_cons_of_ne_nil (by simp [rest])]
        simp
      have hnone : pieceToken (blank ++ c) = none := (pieceToken_blank hblank c).trans hother
      rw [List.cons_append, hsplit, tokenIn_cons (notMem_blank hblank hsemicolon), hnone]
      exact ih (.inr rfl) fun c' hc' => hbefore c' (List.mem_cons_of_mem c hc')

end Jar

/-- **The token of a header**: that of the first cookie of the name, where every cookie of the header is visible
ASCII, and none where one is not. -/
theorem cookieToken_mint (K : SigningKey) (trustProxy : Bool) (login : UInt64) (loginHeaders headers : Headers)
    (username passwordHash : String) {before after : List (List UInt8)} (hbefore : ∀ c ∈ before, OtherCookie c)
    (hcookie : headers.get "cookie" = some (cookieHeader
      (before ++ keptCookie (K.mintSessionCookie trustProxy loginHeaders login username passwordHash) :: after))) :
    cookieToken headers = if ∀ c ∈ before ++ after, c.all visibleAscii = true then
      some (K.signSession (login + sessionTtlSecs) username passwordHash) else none := by
  rw [keptCookie_mint] at hcookie
  have hothers : ∀ c ∈ before.map headerChars, OtherPiece c := by
    intro c hc
    obtain ⟨bytes, hbytes, rfl⟩ := List.mem_map.mp hc
    exact hbefore bytes hbytes
  have hread := tokenIn_jar (.inl rfl) (isTokenChar_mintedPair K login username passwordHash) hothers
    (after.map headerChars)
  rw [List.nil_append, String.ofList_toList] at hread
  have hchars := headerChars_mint K login username passwordHash
  have hvisible := visible_mint K login username passwordHash
  unfold cookieToken
  rw [hcookie, Option.bind_some, headerText_eq, all_cookieHeader, headerChars_cookieHeader, List.map_append,
    List.map_cons, hchars, List.all_append, List.all_cons, hvisible, Bool.true_and, ← List.all_append]
  by_cases hall : ∀ c ∈ before ++ after, c.all visibleAscii = true
  · rw [if_pos hall, if_pos (List.all_eq_true.mpr hall)]
    exact hread
  · rw [if_neg hall, if_neg fun h => hall (List.all_eq_true.mp h)]
    rfl

/-- **The cookie is read back.**  Wherever it stands among other cookies, and whatever comes behind it, the cookie that
login sets names its user until twelve hours after the login, as long as the user exists and the digest of its stored
hash has the same first eight digits; and nobody else at any time.  Every other cookie of the header has to be visible
ASCII: beside one that is not, the session names nobody. -/
theorem session_cookie_round_trip (K : SigningKey) (trustProxy : Bool) (login now : UInt64)
    (loginHeaders headers : Headers) (username passwordHash : String) (sc : StoredConfig)
    {before after : List (List UInt8)} (hbefore : ∀ c ∈ before, OtherCookie c)
    (hcookie : headers.get "cookie" = some (cookieHeader
      (before ++ keptCookie (K.mintSessionCookie trustProxy loginHeaders login username passwordHash) :: after)))
    (user : String) :
    K.identifyCookie now headers sc = some user ↔
      (∀ c ∈ before ++ after, c.all visibleAscii = true) ∧ user = username ∧ now ≤ login + sessionTtlSecs ∧
        ∃ current, sc.hashOf username = some current ∧ K.pwFragment current = K.pwFragment passwordHash := by
  have hcarries := K.carries_signSession (login + sessionTtlSecs) username passwordHash
  unfold SigningKey.identifyCookie
  rw [cookieToken_mint K trustProxy login loginHeaders headers username passwordHash hbefore hcookie]
  by_cases hall : ∀ c ∈ before ++ after, c.all visibleAscii = true
  · rw [if_pos hall, Option.bind_some]
    constructor
    · intro h
      -- the token carries one user only
      obtain ⟨expiry, frag, hother, -⟩ := SigningKey.verifySession_eq_some.mp h
      obtain ⟨-, rfl, -⟩ := hcarries.unique hother
      exact ⟨hall, rfl, SigningKey.verifySession_signSession.mp h⟩
    · rintro ⟨-, rfl, h⟩
      exact SigningKey.verifySession_signSession.mpr h
  · rw [if_neg hall]
    exact ⟨fun h => (by cases h), fun h => absurd h.1 hall⟩

/-- Behind a cookie that the page has set, five seconds after the login. -/
theorem session_cookie_round_trip_themed : (⟨id, id⟩ : SigningKey).identifyCookie 5
    [("host", utf8 "flock.local"), ("cookie", cookieHeader ([utf8 "theme=dark"] ++
      keptCookie ((⟨id, id⟩ : SigningKey).mintSessionCookie true [("x-forwarded-proto", utf8 "HTTPS")] 0 "ops"
        "pbkdf2-sha256$600000$01$01") :: []))] StoredConfig.small = some "ops" := by
  have hbefore : ∀ c ∈ [utf8 "theme=dark"], OtherCookie c := by
    intro c hc
    rw [List.mem_singleton.mp hc]
    exact ⟨by decide +kernel, by decide +kernel⟩
  have hvisible : ∀ c ∈ [utf8 "theme=dark"] ++ [], c.all visibleAscii = true := by decide +kernel
  exact (session_cookie_round_trip ⟨id, id⟩ true 0 5 [("x-forwarded-proto", utf8 "HTTPS")]
    [("host", utf8 "flock.local"), ("cookie", cookieHeader ([utf8 "theme=dark"] ++
      keptCookie ((⟨id, id⟩ : SigningKey).mintSessionCookie true [("x-forwarded-proto", utf8 "HTTPS")] 0 "ops"
        "pbkdf2-sha256$600000$01$01") :: []))]
    "ops" "pbkdf2-sha256$600000$01$01" .small hbefore rfl "ops").mpr ⟨hvisible, rfl, by decide, _, rfl, rfl⟩

end Flock
