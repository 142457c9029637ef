/-
# Flock.Auth.Session — session tokens.

    {expiry:x} . hex(username) . fragment . hex(tag)

The fragment is the first eight digits of a digest of the user's stored hash; the tag is the keyed digest of
the three parts before it, each after its length.  The same key digests a header credential for the memo, as a
frame of one part.  HMAC under the boot's key and SHA-256 are parameters.

`verify_session` reads back exactly what `sign_session` wrote (`verifySession_signSession`).  The converse is as
good as the digest: where HMAC is injective, a tag stands for one triple and for no credential.
-/
import Flock.Auth.Revocation
import Flock.Lib.Framing
import Mathlib.Data.Nat.Digits.Defs

namespace Flock

open Lib (System)

/-! ## Text

Numbers are written in digits, names in the digits of their bytes; neither has a dot, so a token is cut where it was
joined. -/

/-- `format!("{n:x}")`. -/
def lowerHex (n : ℕ) : String :=
  String.ofList (if n = 0 then ['0'] else (Nat.digits 16 n).reverse.map hexDigit)

/-- `u64::from_str_radix(s, 16)`: a plus sign and upper case are allowed, overflow is an error. -/
def fromStrRadix16 (s : String) : Option UInt64 :=
  let digits := match s.toList with
    | '+' :: rest => rest
    | cs => cs
  if digits = [] then none
  else
    (digits.mapM hexVal).bind fun ds =>
      let n := Nat.ofDigits 16 ds.reverse
      if n < 2 ^ 64 then some (UInt64.ofNat n) else none

/-- `String::from_utf8`. -/
def fromUtf8 (bytes : List UInt8) : Option String := String.fromUTF8? ⟨bytes.toArray⟩

/-- Reading a text gives back the text that has these bytes. -/
theorem fromUtf8_eq_some {bytes : List UInt8} {s : String} : fromUtf8 bytes = some s ↔ bytes = utf8 s := by
  unfold fromUtf8 String.fromUTF8?
  constructor
  · intro h
    split at h
    · cases h
      rfl
    · cases h
  · rintro rfl
    exact dif_pos s.isValidUTF8

theorem mapM_hexVal {ds : List ℕ} (h : ∀ d ∈ ds, d < 16) : (ds.map hexDigit).mapM hexVal = some ds := by
  induction ds with
  | nil => rfl
  | cons d ds ih =>
      rw [List.map_cons, List.mapM_cons, hexVal_hexDigit d (h d List.mem_cons_self),
        ih fun x hx => h x (List.mem_cons_of_mem _ hx)]
      rfl

/-- The digits `{:x}` writes. -/
theorem exists_digits_lowerHex (n : ℕ) : ∃ ds : List ℕ, (lowerHex n).toList = ds.map hexDigit ∧ ds ≠ [] ∧
    (∀ d ∈ ds, d < 16) ∧ Nat.ofDigits 16 ds.reverse = n := by
  unfold lowerHex
  rw [String.toList_ofList]
  by_cases hn : n = 0
  · subst hn
    exact ⟨[0], rfl, List.cons_ne_nil _ _, by decide, rfl⟩
  · refine ⟨(Nat.digits 16 n).reverse, if_neg hn, ?_, ?_, ?_⟩
    · rw [Ne, List.reverse_eq_nil_iff]
      exact Nat.digits_ne_nil_iff_ne_zero.mpr hn
    · intro d hd
      exact Nat.digits_lt_base (by decide) (List.mem_reverse.mp hd)
    · rw [List.reverse_reverse, Nat.ofDigits_digits]

/-- A digit is no separator, and no sign. -/
theorem hexDigit_ne : ∀ n < 16, hexDigit n ≠ '.' ∧ hexDigit n ≠ '+' := by decide

/-- What `{:x}` writes, `from_str_radix` reads. -/
theorem fromStrRadix16_lowerHex (n : UInt64) : fromStrRadix16 (lowerHex n.toNat) = some n := by
  obtain ⟨ds, htext, hne, hlt, hvalue⟩ := exists_digits_lowerHex n.toNat
  unfold fromStrRadix16
  rw [htext]
  cases ds with
  | nil => exact absurd rfl hne
  | cons d ds =>
      have hd := (hexDigit_ne d (hlt d List.mem_cons_self)).2
      dsimp only
      -- no digit is a plus sign
      split
      · rename_i heq
        exact absurd (List.cons.inj heq).1 hd
      · rw [if_neg (by simp), mapM_hexVal hlt, Option.bind_some, hvalue, if_pos n.toNat_lt,
          UInt64.ofNat_toNat]

/-- No separator among hexadecimal digits. -/
theorem dot_notMem_hexDigits {ds : List ℕ} (h : ∀ d ∈ ds, d < 16) : '.' ∉ ds.map hexDigit := by
  intro hmem
  obtain ⟨d, hd, heq⟩ := List.mem_map.mp hmem
  exact (hexDigit_ne d (h d hd)).1 heq

theorem hex_toList (bytes : List UInt8) :
    (hex bytes).toList = (bytes.flatMap fun b => [b.toNat / 16, b.toNat % 16]).map hexDigit := by
  unfold hex
  rw [String.toList_ofList, List.map_flatMap]
  rfl

theorem hexDigits_lt (bytes : List UInt8) : ∀ d ∈ bytes.flatMap (fun b => [b.toNat / 16, b.toNat % 16]), d < 16 := by
  intro d hd
  obtain ⟨b, -, hb⟩ := List.mem_flatMap.mp hd
  have := b.toNat_lt
  simp only [List.mem_cons, List.not_mem_nil, or_false] at hb
  omega

/-- No dot in the digits of bytes. -/
theorem dot_notMem_hex (bytes : List UInt8) : '.' ∉ (hex bytes).toList := by
  rw [hex_toList]
  exact dot_notMem_hexDigits (hexDigits_lt bytes)

/-- And none in those of a number. -/
theorem dot_notMem_lowerHex (n : ℕ) : '.' ∉ (lowerHex n).toList := by
  obtain ⟨ds, htext, -, hlt, -⟩ := exists_digits_lowerHex n
  rw [htext]
  exact dot_notMem_hexDigits hlt

/-- Four fields without a separator are read back. -/
theorem split_four {a b c d : String} (ha : '.' ∉ a.toList) (hb : '.' ∉ b.toList) (hc : '.' ∉ c.toList)
    (hd : '.' ∉ d.toList) : Text.split '.' (a ++ "." ++ b ++ "." ++ c ++ "." ++ d) = [a, b, c, d] := by
  have htext : (a ++ "." ++ b ++ "." ++ c ++ "." ++ d).toList =
      a.toList ++ '.' :: (b.toList ++ '.' :: (c.toList ++ '.' :: d.toList)) := by
    simp only [String.toList_append, List.append_assoc]
    rfl
  unfold Text.split
  rw [htext, List.splitOn_append_cons_self_of_not_mem ha, List.splitOn_append_cons_self_of_not_mem hb,
    List.splitOn_append_cons_self_of_not_mem hc, List.splitOn_eq_singleton hd]
  simp only [List.map_cons, List.map_nil, String.ofList_toList]

/-! ## Tokens

Four parts are joined by dots.  Whoever verifies splits at the dots, and digests the first three again. -/

/-- What the process takes from elsewhere: HMAC-SHA-256 under this boot's key, and SHA-256. -/
structure SigningKey where
  hmac : List UInt8 → List UInt8
  sha256 : List UInt8 → List UInt8

namespace SigningKey

variable (K : SigningKey)

/-- `Admin::mac`. -/
def mac (parts : List (List UInt8)) : List UInt8 := K.hmac (Lib.frame 8 parts)

/-- `pw_fragment`. -/
def pwFragment (passwordHash : String) : String :=
  String.ofList ((hex (K.sha256 (utf8 passwordHash))).toList.take 8)

/-- The tag of a session. -/
def sessionTag (expiry : UInt64) (username frag : String) : List UInt8 :=
  K.mac [Lib.bigEndian 8 expiry.toNat, utf8 username, utf8 frag]

/-- The tag `memoize` keeps of a credential. -/
def memoTag (cred : String) : List UInt8 := K.mac [utf8 cred]

/-- `sign_session`. -/
def signSession (expiry : UInt64) (username passwordHash : String) : String :=
  let frag := K.pwFragment passwordHash
  let tag := K.sessionTag expiry username frag
  lowerHex expiry.toNat ++ "." ++ hex (utf8 username) ++ "." ++ frag ++ "." ++ hex tag

/-- `verify_session`, at the time `now`. -/
def verifySession (now : UInt64) (token : String) (sc : StoredConfig) : Option String :=
  match Text.split '.' token with
  | [expHex, userHex, frag, tagHex] =>
      (fromStrRadix16 expHex).bind fun expiry =>
        if expiry < now then none
        else
          ((unhex userHex).bind fromUtf8).bind fun username =>
            let expected := K.sessionTag expiry username frag
            if tagHex ≠ hex expected then none
            else
              (sc.user username).bind fun user =>
                if frag = K.pwFragment user.passwordHash then some username else none
  | _ => none

end SigningKey

/-- **`Carries`** — the four fields of a token, read. -/
def Carries (token : String) (expiry : UInt64) (username frag : String) (tag : List UInt8) : Prop :=
  ∃ expHex userHex, Text.split '.' token = [expHex, userHex, frag, hex tag] ∧
    fromStrRadix16 expHex = some expiry ∧ (unhex userHex).bind fromUtf8 = some username

/-- A token carries one expiry, one username, one fragment and one tag. -/
theorem Carries.unique {token : String} {e e' : UInt64} {u u' f f' : String} {t t' : List UInt8}
    (h : Carries token e u f t) (h' : Carries token e' u' f' t') : e' = e ∧ u' = u ∧ f' = f ∧ t' = t := by
  obtain ⟨expHex, userHex, hfields, hexpiry, huser⟩ := h
  obtain ⟨expHex', userHex', hfields', hexpiry', huser'⟩ := h'
  rw [hfields] at hfields'
  simp only [List.cons.injEq, and_true] at hfields'
  obtain ⟨rfl, rfl, rfl, htag⟩ := hfields'
  exact ⟨Option.some.inj (hexpiry'.symm.trans hexpiry), Option.some.inj (huser'.symm.trans huser), rfl,
    (hex_injective htag).symm⟩

namespace SigningKey

variable (K : SigningKey)

/-- The fragment is made of digits. -/
theorem dot_notMem_pwFragment (passwordHash : String) : '.' ∉ (K.pwFragment passwordHash).toList := by
  unfold pwFragment
  rw [String.toList_ofList]
  exact fun hmem => dot_notMem_hex _ (List.mem_of_mem_take hmem)

/-- A signed token has the parts it was signed with. -/
theorem carries_signSession (expiry : UInt64) (username passwordHash : String) :
    Carries (K.signSession expiry username passwordHash) expiry username (K.pwFragment passwordHash)
      (K.sessionTag expiry username (K.pwFragment passwordHash)) := by
  refine ⟨_, _, split_four (dot_notMem_lowerHex _) (dot_notMem_hex _) (K.dot_notMem_pwFragment _) (dot_notMem_hex _),
    fromStrRadix16_lowerHex expiry, ?_⟩
  rw [unhex_hex]
  exact fromUtf8_eq_some.mpr rfl

variable {K}

/-- **What `verify_session` accepts**: a token with its own tag, in time, of a user whose hash has the fragment. -/
theorem verifySession_eq_some {now : UInt64} {token username : String} {sc : StoredConfig} :
    K.verifySession now token sc = some username ↔
      ∃ expiry frag, Carries token expiry username frag (K.sessionTag expiry username frag) ∧ now ≤ expiry ∧
        ∃ passwordHash, sc.hashOf username = some passwordHash ∧ K.pwFragment passwordHash = frag := by
  unfold verifySession
  constructor
  -- a token that verifies has passed every test on the way
  · intro h
    split at h
    · rename_i expHex userHex frag tagHex hfields
      obtain ⟨expiry, hexpiry, h⟩ := Option.bind_eq_some_iff.mp h
      split at h
      · cases h
      · rename_i htime
        obtain ⟨name, hname, h⟩ := Option.bind_eq_some_iff.mp h
        dsimp only at h
        split at h
        · cases h
        · rename_i htag
          obtain ⟨user, huser, h⟩ := Option.bind_eq_some_iff.mp h
          split at h
          · rename_i hfrag
            cases h
            rw [not_not] at htag
            refine ⟨expiry, frag, ⟨expHex, userHex, htag ▸ hfields, hexpiry, hname⟩,
              UInt64.not_lt.mp htime, user.passwordHash, ?_, hfrag.symm⟩
            unfold StoredConfig.hashOf
            rw [huser]
            rfl
          · cases h
    · cases h
  -- and one with these parts passes them
  · rintro ⟨expiry, frag, ⟨expHex, userHex, hfields, hexpiry, hname⟩, htime, passwordHash, hhash, hfrag⟩
    obtain ⟨user, huser, rfl⟩ := Option.map_eq_some_iff.mp hhash
    rw [hfields]
    dsimp only
    rw [hexpiry, Option.bind_some, if_neg (UInt64.not_lt.mpr htime), hname, Option.bind_some,
      if_neg (not_not.mpr rfl), huser, Option.bind_some, if_pos hfrag.symm]

/-- **A signed token verifies** until it expires, its user goes or the fragment of the user's hash changes. -/
theorem verifySession_signSession {now expiry : UInt64} {username passwordHash : String} {sc : StoredConfig} :
    K.verifySession now (K.signSession expiry username passwordHash) sc = some username ↔
      now ≤ expiry ∧ ∃ current, sc.hashOf username = some current ∧ K.pwFragment current = K.pwFragment passwordHash := by
  have hcarries := K.carries_signSession expiry username passwordHash
  rw [verifySession_eq_some]
  constructor
  · rintro ⟨e, f, hother, htime, hcurrent⟩
    obtain ⟨rfl, -, rfl, -⟩ := hcarries.unique hother
    exact ⟨htime, hcurrent⟩
  · rintro ⟨htime, hcurrent⟩
    exact ⟨expiry, _, hcarries, htime, hcurrent⟩

/-! ## Whose tag

A frame says how long each of its parts is.  So the text that is digested can be taken apart again, and two frames of
different parts are different texts. -/

/-- The length of a text is that of its bytes. -/
theorem length_utf8 (s : String) : (utf8 s).length = Text.len s := by
  unfold utf8
  rw [Array.length_toList]
  exact String.size_toByteArray

/-- A length is a number of eight bytes. -/
theorem length_bigEndian_lt (n : ℕ) : (Lib.bigEndian 8 n).length < 256 ^ 8 := by
  rw [Lib.length_bigEndian]
  decide

theorem length_utf8_lt {s : String} (h : Text.len s < 2 ^ 64) : (utf8 s).length < 256 ^ 8 := by
  rw [length_utf8]
  omega

/-- A character has four bytes at most. -/
theorem len_ofList_le (cs : List Char) : Text.len (String.ofList cs) ≤ 4 * cs.length := by
  induction cs with
  | nil => exact Nat.le_refl 0
  | cons c cs ih =>
      have hsize : Text.len (String.ofList (c :: cs)) = c.utf8Size + Text.len (String.ofList cs) := by
        unfold Text.len
        rw [← String.size_toByteArray, ← String.size_toByteArray, String.toByteArray_ofList,
          String.toByteArray_ofList, List.utf8Encode_cons, List.utf8Encode_singleton, ByteArray.size_append,
          List.size_toByteArray, String.length_utf8EncodeChar]
      have hchar := c.utf8Size_le_four
      rw [hsize, List.length_cons]
      omega

/-- A fragment is eight characters at most. -/
theorem len_pwFragment_lt (K : SigningKey) (passwordHash : String) : Text.len (K.pwFragment passwordHash) < 2 ^ 64 := by
  have hle := len_ofList_le ((hex (K.sha256 (utf8 passwordHash))).toList.take 8)
  rw [List.length_take] at hle
  unfold pwFragment
  omega

/-- **A tag stands for one triple.** -/
theorem sessionTag_inj (hinj : Function.Injective K.hmac) {e e' : UInt64} {u u' h h' : String}
    (hu : Text.len u < 2 ^ 64) (hu' : Text.len u' < 2 ^ 64)
    (htag : K.sessionTag e u (K.pwFragment h) = K.sessionTag e' u' (K.pwFragment h')) :
    e = e' ∧ u = u' ∧ K.pwFragment h = K.pwFragment h' := by
  have hparts := Lib.frame_inj (by decide) ?_ ?_ (hinj htag)
  · simp only [List.cons.injEq, and_true] at hparts
    obtain ⟨hexpiry, huser, hfrag⟩ := hparts
    exact ⟨UInt64.toNat_inj.mp (Lib.bigEndian_inj e.toNat_lt e'.toNat_lt hexpiry), utf8_injective huser,
      utf8_injective hfrag⟩
  · simp only [List.forall_mem_cons]
    exact ⟨length_bigEndian_lt _, length_utf8_lt hu, length_utf8_lt (K.len_pwFragment_lt h), by simp⟩
  · simp only [List.forall_mem_cons]
    exact ⟨length_bigEndian_lt _, length_utf8_lt hu', length_utf8_lt (K.len_pwFragment_lt h'), by simp⟩

/-- **No credential has a session's tag**: its frame ends after one part. -/
theorem memoTag_ne_sessionTag (hinj : Function.Injective K.hmac) {cred : String} (hcred : Text.len cred < 2 ^ 64)
    (e : UInt64) (u f : String) : K.memoTag cred ≠ K.sessionTag e u f := by
  intro htag
  obtain ⟨-, hrest⟩ := Lib.frame_cons_inj (length_utf8_lt hcred) (length_bigEndian_lt _) (hinj htag)
  exact Lib.frame_cons_ne_nil (by decide) _ _ hrest.symm

end SigningKey

/-! ## The memo over a run

What the memo has been asked for is what some call presented; so the credentials of a run are fixed by the calls that
began in it. -/

namespace AuthState

variable {τ : Type} [DecidableEq τ] {P : Primitives τ} {C : String → Prop} {s s' : AuthState τ}

/-- Every credential ever presented is in `C`, and the memo's too. -/
structure Memoized (P : Primitives τ) (C : String → Prop) (s : AuthState τ) : Prop where
  presented : ∀ id call, s.calls id = some call → C call.cred
  memo : ∀ tag user, s.memo = some (tag, user) → ∃ c, C c ∧ P.mac c = tag

omit [DecidableEq τ] in
theorem memoized_boot (stored : StoredConfig) : Memoized P C (boot stored : AuthState τ) where
  presented := by simp [boot]
  memo := by simp [boot]

theorem Memoized.step (h : Memoized P C s) {e : AuthEvent} (hstep : s.step P e = some s')
    (hcreds : ∀ id c, e = .begin id c → C c) : Memoized P C s' := by
  have hpresented := presented_step h.presented hstep hcreds
  rcases step_cases hstep with ⟨id, c, -, -, rfl⟩ | ⟨id, cred, username, rfl, hcall, rfl⟩ |
    ⟨id, c, -, -, rfl⟩ | ⟨id, target, lock, stored, -, -, rfl⟩ | ⟨id, lock, -, rfl⟩
  · exact ⟨hpresented, h.memo⟩
  · refine ⟨hpresented, fun tag user hmemo => ?_⟩
    cases hmemo
    exact ⟨cred, h.presented id _ hcall, rfl⟩
  · exact ⟨hpresented, h.memo⟩
  · exact ⟨hpresented, h.memo⟩
  · -- a clear
    refine ⟨hpresented, fun tag user hmemo => ?_⟩
    cases hmemo

/-- The memo holds the tag of a credential that was presented. -/
theorem Memoized.run {es : List AuthEvent} (h : Memoized P C s) (hrun : (authSystem P).Run s es s')
    (hcreds : ∀ id c, AuthEvent.begin id c ∈ es → C c) : Memoized P C s' := by
  induction hrun with
  | nil => exact h
  | snoc _ hstep ih =>
      have hbefore := ih fun id c hmem => hcreds id c (List.mem_append_left _ hmem)
      exact hbefore.step hstep fun id c he => hcreds id c (by simp [he])

end AuthState

/-- The primitives of a process whose memo is keyed with `K`. -/
def SigningKey.primitives (K : SigningKey) (kdf : String → List UInt8 → ℕ → List UInt8) (quote : String → String) :
    Primitives (List UInt8) where
  kdf := kdf
  mac := K.memoTag
  quote := quote

/-! ## Session tokens

Both ways: what was signed verifies, and what verifies under an injective digest was signed. -/

/-- **`session_tokens`** — a signed token verifies exactly as long as it should.  Where HMAC is injective, an
accepted token carries the tag of a signed session, that session's triple is the only one with this tag, and no
run ever memoizes it for a credential.  A string in memory is shorter than `2 ^ 64` bytes. -/
theorem session_tokens (K : SigningKey) :
    (∀ (now expiry : UInt64) (username passwordHash : String) (sc : StoredConfig),
      K.verifySession now (K.signSession expiry username passwordHash) sc = some username ↔
        now ≤ expiry ∧ ∃ current, sc.hashOf username = some current ∧
          K.pwFragment current = K.pwFragment passwordHash) ∧
    (Function.Injective K.hmac →
      (∀ (now : UInt64) (token username : String) (sc : StoredConfig),
        K.verifySession now token sc = some username → Text.len username < 2 ^ 64 →
          ∃ expiry frag tag, Carries token expiry username frag tag ∧
            (∃ passwordHash, K.pwFragment passwordHash = frag ∧
              Carries (K.signSession expiry username passwordHash) expiry username frag tag) ∧
            ∀ (expiry' : UInt64) (username' passwordHash' frag' : String), Text.len username' < 2 ^ 64 →
              Carries (K.signSession expiry' username' passwordHash') expiry' username' frag' tag →
                expiry' = expiry ∧ username' = username ∧ frag' = frag) ∧
      ∀ kdf quote s es s', (authSystem (K.primitives kdf quote)).init s →
        (authSystem (K.primitives kdf quote)).Run s es s' →
        (∀ id cred, AuthEvent.begin id cred ∈ es → Text.len cred < 2 ^ 64) →
        ∀ tag user, s'.memo = some (tag, user) → ∀ (expiry : UInt64) (username passwordHash frag : String),
          ¬ Carries (K.signSession expiry username passwordHash) expiry username frag tag) := by
  refine ⟨fun now expiry username passwordHash sc => SigningKey.verifySession_signSession, fun hinj => ⟨?_, ?_⟩⟩
  -- a token that is accepted has the tag of its own fields
  · intro now token username sc haccept hlen
    obtain ⟨expiry, frag, hcarries, -, passwordHash, -, rfl⟩ := SigningKey.verifySession_eq_some.mp haccept
    refine ⟨expiry, _, _, hcarries, ⟨passwordHash, rfl, K.carries_signSession _ _ _⟩, ?_⟩
    intro expiry' username' passwordHash' frag' hlen' hother
    obtain ⟨-, -, rfl, htag⟩ := (K.carries_signSession expiry' username' passwordHash').unique hother
    obtain ⟨rfl, rfl, hfrag⟩ := SigningKey.sessionTag_inj hinj hlen hlen' htag
    exact ⟨rfl, rfl, hfrag.symm⟩
  -- what the memo has is the tag of a credential
  · intro kdf quote s es s' hinit hrun hcreds tag user hmemo expiry username passwordHash frag hother
    obtain ⟨stored, -, rfl⟩ := hinit
    have hmemoized : AuthState.Memoized (K.primitives kdf quote) (fun c => Text.len c < 2 ^ 64) s' :=
      (AuthState.memoized_boot stored).run hrun hcreds
    obtain ⟨cred, hlen, hmac⟩ := hmemoized.memo tag user hmemo
    obtain ⟨-, -, rfl, htag⟩ := (K.carries_signSession expiry username passwordHash).unique hother
    exact SigningKey.memoTag_ne_sessionTag hinj hlen _ _ _ (hmac.trans htag)

/-- Stand-ins that tell all byte strings apart. -/
def plainKey : SigningKey := ⟨id, id⟩

/-- The hash of the user of `AuthState.rootStore`. -/
def rootHash : String := AuthState.plainPrimitives.hashPassword "old-password" [1]

/-- A session until 100, read at 50, and a run that memoizes a credential of the same user. -/
theorem session_tokens_plain :
    plainKey.verifySession 50 (plainKey.signSession 100 "root" rootHash) AuthState.rootStore = some "root" ∧
    (∃ expiry frag tag, Carries (plainKey.signSession 100 "root" rootHash) expiry "root" frag tag ∧
      ∀ (expiry' : UInt64) (passwordHash' frag' : String),
        Carries (plainKey.signSession expiry' "root" passwordHash') expiry' "root" frag' tag →
          expiry' = expiry ∧ frag' = frag) ∧
    ∃ s : AuthState (List UInt8), ∃ tag, s.memo = some (tag, "root") ∧
      ¬ Carries (plainKey.signSession 100 "root" rootHash) 100 "root" (plainKey.pwFragment rootHash) tag := by
  obtain ⟨hverify, hrest⟩ := session_tokens plainKey
  obtain ⟨hconverse, hmemo⟩ := hrest Function.injective_id
  have haccept := (hverify 50 100 "root" rootHash AuthState.rootStore).mpr ⟨by decide, rootHash, rfl, rfl⟩
  refine ⟨haccept, ?_, ?_⟩
  · obtain ⟨expiry, frag, tag, hcarries, -, hunique⟩ := hconverse _ _ _ _ haccept (by decide)
    refine ⟨expiry, frag, tag, hcarries, fun expiry' passwordHash' frag' hother => ?_⟩
    obtain ⟨hexpiry, -, hfrag⟩ := hunique expiry' "root" passwordHash' frag' (by decide) hother
    exact ⟨hexpiry, hfrag⟩
  · have hexec : (System.exec
        (AuthState.step (plainKey.primitives AuthState.plainPrimitives.kdf AuthState.plainPrimitives.quote))
        (AuthState.boot AuthState.rootStore)
        [.begin 0 "root:old-password", .lookup 0, .readHash 0, .verify 0, .memoize 0]).any (fun s =>
          s.memo == some (plainKey.memoTag "root:old-password", "root")) = true := by
      decide +kernel
    obtain ⟨s, hrun, hs⟩ := System.run_of_exec_any hexec
    refine ⟨s, _, eq_of_beq hs, ?_⟩
    refine hmemo _ _ _ _ s ⟨_, by decide +kernel, rfl⟩ hrun ?_ _ _ (eq_of_beq hs) 100 "root" rootHash _
    intro id cred hmem
    simp only [List.mem_cons, AuthEvent.begin.injEq, List.not_mem_nil, reduceCtorEq, or_false] at hmem
    obtain ⟨-, rfl⟩ := hmem
    decide

end Flock
