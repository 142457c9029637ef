/-
# Flock.Config.LinkLocal — which upstream URLs `check_base_url` refuses.

The check cuts the host out of the text by hand and compares its first characters with `169.254.` and `fe80:`; it
is there to refuse 169.254.0.0/16 and fe80::/10.  Here a URL is put together from its parts, so its host is known:

    http(s):// [userinfo @] host [: port] [/path | ?query | #fragment]

Without user information the check sees the host's own first characters.  With user information it sees those of
the user information.

The literals of an address are those that an HTTP client takes: an IPv4 address may be one number, or have octal and
hexadecimal parts, and an IPv6 address may end in a dotted quad.  So the same address has many spellings, and a check
on the text sees one of them.
-/
import Flock.Auth.Basic
import Mathlib.Data.List.TakeWhile

namespace Flock

/-! ## Addresses

Literals are modelled by what they denote (`groups`, a number below 2^32) and by their text, so that both sides of the
comparison are at hand. -/

/-- The number written by digits of a radix; nothing is zero. -/
def radixValue (radix : ℕ) (cs : List Char) : Option ℕ :=
  (cs.mapM fun c => (hexVal c).filter (· < radix)).map fun ds => ds.foldl (fun n d => radix * n + d) 0

/-- One number of an IPv4 literal, as an HTTP client reads it: decimal, octal after `0`, hexadecimal after `0x`. -/
def ipv4Number : List Char → Option ℕ
  | [] => none
  | '0' :: x :: rest => if x = 'x' ∨ x = 'X' then radixValue 16 rest else radixValue 8 (x :: rest)
  | cs => radixValue 10 cs

/-- One to four numbers, the last one filling what is left of the 32 bits. -/
def ipv4Address : List ℕ → Option ℕ
  | [a] => if a < 2 ^ 32 then some a else none
  | [a, b] => if a < 256 ∧ b < 2 ^ 24 then some (2 ^ 24 * a + b) else none
  | [a, b, c] => if a < 256 ∧ b < 256 ∧ c < 2 ^ 16 then some (2 ^ 24 * a + 2 ^ 16 * b + c) else none
  | [a, b, c, d] =>
      if a < 256 ∧ b < 256 ∧ c < 256 ∧ d < 256 then some (2 ^ 24 * a + 2 ^ 16 * b + 2 ^ 8 * c + d) else none
  | _ => none

/-- The parts between the dots; a dot at the end is allowed. -/
def ipv4Parts (text : List Char) : List (List Char) :=
  let pieces := text.splitOn '.'
  if 1 < pieces.length ∧ pieces.getLast? = some [] then pieces.dropLast else pieces

/-- The address of an IPv4 literal; `none` for any other text. -/
def parseIpv4 (text : List Char) : Option ℕ := ((ipv4Parts text).mapM ipv4Number).bind ipv4Address

/-- One group of an IPv6 literal. -/
structure HexGroup where
  digits : List Char
  hex : ∀ c ∈ digits, (hexVal c).isSome = true
  length : 1 ≤ digits.length ∧ digits.length ≤ 4

def HexGroup.value (g : HexGroup) : ℕ := g.digits.foldl (fun n c => 16 * n + (hexVal c).getD 0) 0

/-- The last two groups of an IPv6 literal in decimal notation. -/
structure Quad where
  a : Fin 256
  b : Fin 256
  c : Fin 256
  d : Fin 256

namespace Quad

def text (q : Quad) : List Char :=
  Nat.toDigits 10 q.a ++ '.' :: (Nat.toDigits 10 q.b ++ '.' :: (Nat.toDigits 10 q.c ++ '.' :: Nat.toDigits 10 q.d))

def groups (q : Quad) : List ℕ := [256 * q.a + q.b, 256 * q.c + q.d]

end Quad

/-- An IPv6 literal: the groups before `::`, or all of them; the groups after it; a quad at the end. -/
structure Ipv6Literal where
  head : List HexGroup
  rest : Option (List HexGroup)
  quad : Option Quad
  full : rest = none → head.length + 2 * quad.toList.length = 8
  room : ∀ r, rest = some r → head.length + r.length + 2 * quad.toList.length ≤ 7

namespace Ipv6Literal

variable (lit : Ipv6Literal)

def colons (pieces : List (List Char)) : List Char := [':'].intercalate pieces

/-- The literal between its brackets. -/
def text : List Char :=
  match lit.rest with
  | none => colons (lit.head.map (·.digits) ++ lit.quad.toList.map Quad.text)
  | some r =>
      colons (lit.head.map (·.digits)) ++ ':' :: ':' :: colons (r.map (·.digits) ++ lit.quad.toList.map Quad.text)

/-- The groups that stand after the zeros. -/
def low : List ℕ := (lit.rest.getD []).map HexGroup.value ++ lit.quad.toList.flatMap Quad.groups

/-- The eight groups of the address. -/
def groups : List ℕ :=
  lit.head.map HexGroup.value ++ (List.replicate (8 - lit.head.length - lit.low.length) 0 ++ lit.low)

end Ipv6Literal

/-! ## URLs

A URL by its parts, as they are put together.  Each part is free of the characters that would end it, so a text has
one way to be taken apart. -/

/-- The characters that end a part of a URL. -/
def genDelims : List Char := [':', '/', '?', '#', '[', ']', '@']

/-- A host.  A registered name and an IPv4 literal are told apart by their text. -/
inductive UrlHost where
  | plain (text : List Char) (clean : ∀ c ∈ text, c ∉ genDelims)
  | ipv6 (lit : Ipv6Literal)

/-- 169.254.0.0/16 and fe80::/10. -/
def UrlHost.LinkLocal : UrlHost → Prop
  | plain text _ => ∃ a, parseIpv4 text = some a ∧ a / 2 ^ 16 = 0xA9FE
  | ipv6 lit => ∃ g, lit.groups.head? = some g ∧ g / 2 ^ 6 = 0x3FA

def UrlHost.text : UrlHost → List Char
  | plain text _ => text
  | ipv6 lit => '[' :: (lit.text ++ [']'])

structure Url where
  secure : Bool
  userinfo : Option (List Char)
  host : UrlHost
  port : Option (List Char)
  /-- The path, the query or the fragment, and what follows it. -/
  tail : List Char
  userinfoClean : ∀ info, userinfo = some info → ∀ c ∈ info, c = ':' ∨ c ∉ genDelims
  portDigits : ∀ digits, port = some digits → ∀ c ∈ digits, Text.isAsciiDigit c = true
  tailStarts : ∀ c, tail.head? = some c → c = '/' ∨ c = '?' ∨ c = '#'

namespace Url

variable (u : Url)

/-- What follows the host. -/
def afterHost : List Char := (u.port.map (':' :: ·)).getD [] ++ u.tail

/-- What follows the scheme. -/
def afterScheme : List Char := (u.userinfo.map (· ++ ['@'])).getD [] ++ (u.host.text ++ u.afterHost)

def scheme : String := if u.secure then "https://" else "http://"

def text : String := u.scheme ++ String.ofList u.afterScheme

end Url

/-! ## What the check sees

`check_base_url` strips the scheme, cuts at the first slash and then at the first colon, and lowers what is left. Each
of these is a prefix of the text, so what the check sees is said by prefixes. -/

section Prefixes

variable {p cs info x : List Char} {sep : Char}

/-- A prefix without the separator is a prefix of what stands in front of it. -/
theorem prefix_append_sep (hsep : sep ∉ p) : p <+: info ++ sep :: x ↔ p <+: info := by
  induction info generalizing p with
  | nil =>
      cases p with
      | nil => simp
      | cons c p =>
          have hne : c ≠ sep := fun h => hsep (h ▸ List.mem_cons_self)
          simp [hne]
  | cons d info ih =>
      cases p with
      | nil => simp
      | cons c p =>
          rw [List.cons_append, List.cons_prefix_cons, List.cons_prefix_cons,
            ih fun h => hsep (List.mem_cons_of_mem _ h)]

/-- Cutting at a separator keeps such a prefix. -/
theorem prefix_takeWhile (hsep : sep ∉ p) : p <+: cs.takeWhile (· != sep) ↔ p <+: cs := by
  induction cs generalizing p with
  | nil => rfl
  | cons d cs ih =>
      cases p with
      | nil => simp
      | cons c p =>
          by_cases hd : d = sep
          · have hne : c ≠ d := fun h => hsep (h.trans hd ▸ List.mem_cons_self)
            rw [List.takeWhile_cons_of_neg (by simp [hd]), List.cons_prefix_cons]
            simp [hne]
          · rw [List.takeWhile_cons_of_pos (by simp [hd]), List.cons_prefix_cons, List.cons_prefix_cons,
              ih fun h => hsep (List.mem_cons_of_mem _ h)]

/-- Lowering makes no character below the small letters. -/
theorem toNat_lowered : ∀ n < 0x5B, 0x41 ≤ n → 0x61 ≤ (Char.ofNat (n + 0x20)).toNat := by decide

/-- Only letters come from lowering another character. -/
theorem eq_of_lowerChar {c d : Char} (h : Text.lowerChar d = c) (hc : c.toNat < 0x61) : d = c := by
  unfold Text.lowerChar at h
  split at h
  · rename_i hupper
    have hle := toNat_lowered d.toNat (by omega) hupper.1
    rw [h] at hle
    omega
  · exact h

/-- A prefix without letters is not made by lowering. -/
theorem prefix_map_lowerChar (hp : ∀ c ∈ p, c.toNat < 0x41) : p <+: cs.map Text.lowerChar ↔ p <+: cs := by
  induction cs generalizing p with
  | nil => rfl
  | cons d cs ih =>
      cases p with
      | nil => simp
      | cons c p =>
          have hc := hp c List.mem_cons_self
          have hlower : c = Text.lowerChar d ↔ c = d := by
            constructor
            · intro h
              exact (eq_of_lowerChar h.symm (by omega)).symm
            · rintro rfl
              unfold Text.lowerChar
              rw [if_neg (by omega)]
          rw [List.map_cons, List.cons_prefix_cons, List.cons_prefix_cons, hlower,
            ih fun c hc => hp c (List.mem_cons_of_mem _ hc)]

end Prefixes

/-- The first piece of a split is what stands in front of the first separator. -/
theorem splitOn_headD (cs : List Char) (sep : Char) : (cs.splitOn sep).headD [] = cs.takeWhile (· != sep) := by
  induction cs with
  | nil => rfl
  | cons c cs ih =>
      rw [List.splitOn_cons_eq_if_modifyHead]
      by_cases hc : c = sep
      · rw [if_pos (by simp [hc]), List.takeWhile_cons_of_neg (by simp [hc])]
        rfl
      · rw [if_neg (by simp [hc]), List.takeWhile_cons_of_pos (by simp [hc]), ← ih]
        obtain ⟨piece, more, hsplit⟩ := List.exists_cons_of_ne_nil (List.splitOn_ne_nil sep cs)
        rw [hsplit]
        rfl

theorem split_headD (s : String) (sep : Char) :
    (Text.split sep s).headD "" = String.ofList (s.toList.takeWhile (· != sep)) := by
  unfold Text.split
  rw [← splitOn_headD]
  obtain ⟨piece, more, hsplit⟩ := List.exists_cons_of_ne_nil (List.splitOn_ne_nil sep s.toList)
  rw [hsplit]
  rfl

/-- The host as the check cuts it out. -/
def hostChars : List Char → List Char
  | '[' :: inner => inner.takeWhile (· != ']')
  | cs => cs.takeWhile (· != ':')

theorem stripStart_append (p : String) (cs : List Char) :
    Text.stripStart p (p ++ String.ofList cs) = some (String.ofList cs) := by
  unfold Text.stripStart
  rw [String.toList_append, String.toList_ofList, if_pos (by simp), List.drop_left]

theorem hostOf_ofList (cs : List Char) : hostOf (String.ofList cs) = String.ofList (hostChars cs) := by
  unfold hostOf
  rcases cs with _ | ⟨c, cs⟩
  · rfl
  · by_cases hc : c = '['
    · subst hc
      have hstrip : Text.stripStart "[" (String.ofList ('[' :: cs)) = some (String.ofList cs) := by
        have h := stripStart_append "[" cs
        rwa [show "[" ++ String.ofList cs = String.ofList ('[' :: cs) from by simp [String.ofList_cons]] at h
      rw [hstrip]
      dsimp only
      rw [split_headD, String.toList_ofList]
      rfl
    · have hstrip : Text.stripStart "[" (String.ofList (c :: cs)) = none := by
        unfold Text.stripStart
        rw [String.toList_ofList]
        exact if_neg (by simpa using fun h : '[' = c => hc h.symm)
      rw [hstrip]
      dsimp only
      rw [split_headD, String.toList_ofList]
      unfold hostChars
      split
      · rename_i heq
        exact absurd (List.cons.inj heq).1 hc
      · rfl

/-- The text after the scheme is found again. -/
theorem strip_scheme (secure : Bool) (rest : List Char) :
    ((Text.stripStart "http://" ((if secure then "https://" else "http://") ++ String.ofList rest)).orElse fun _ =>
      Text.stripStart "https://" ((if secure then "https://" else "http://") ++ String.ofList rest)) =
        some (String.ofList rest) := by
  cases secure with
  | false =>
      rw [if_neg (by decide), stripStart_append]
      rfl
  | true =>
      have hplain : Text.stripStart "http://" ("https://" ++ String.ofList rest) = none := by
        unfold Text.stripStart
        rw [String.toList_append]
        exact if_neg (by simp)
      rw [if_pos rfl, hplain, stripStart_append]
      rfl

/-- What a test on the lowered host looks at. -/
theorem startsWith_lowercase (p : String) (cs : List Char) :
    Text.startsWith p (Text.toAsciiLowercase (String.ofList cs)) = true ↔ p.toList <+: cs.map Text.lowerChar := by
  unfold Text.startsWith Text.toAsciiLowercase
  rw [String.toList_ofList, String.toList_ofList, List.isPrefixOf_iff_prefix]

/-- **What `check_base_url` refuses**, on the text after the scheme. -/
theorem checkBaseUrl_scheme (secure : Bool) (rest : List Char) :
    (checkBaseUrl ((if secure then "https://" else "http://") ++ String.ofList rest)).isOk = false ↔
      "169.254.".toList <+: (hostChars (rest.takeWhile (· != '/'))).map Text.lowerChar ∨
      "fe80:".toList <+: (hostChars (rest.takeWhile (· != '/'))).map Text.lowerChar := by
  unfold checkBaseUrl
  rw [strip_scheme]
  dsimp only
  rw [split_headD, String.toList_ofList, hostOf_ofList, ← startsWith_lowercase, ← startsWith_lowercase,
    ← Bool.or_eq_true]
  split
  · rename_i hrefused
    exact iff_of_true rfl hrefused
  · rename_i hpassed
    exact iff_of_false (by decide) hpassed

/-- Without a bracket in front, the check compares the first characters. -/
theorem checkBaseUrl_unbracketed (secure : Bool) {rest : List Char} (h : rest.head? ≠ some '[') :
    (checkBaseUrl ((if secure then "https://" else "http://") ++ String.ofList rest)).isOk = false ↔
      "169.254.".toList <+: rest := by
  have hhost : hostChars (rest.takeWhile (· != '/')) = (rest.takeWhile (· != '/')).takeWhile (· != ':') := by
    unfold hostChars
    split
    · rename_i inner heq
      cases rest with
      | nil => cases heq
      | cons c rest =>
          by_cases hc : c = '/'
          · rw [List.takeWhile_cons_of_neg (by simp [hc])] at heq
            cases heq
          · rw [List.takeWhile_cons_of_pos (by simp [hc])] at heq
            exact absurd (congrArg some (List.cons.inj heq).1) h
    · rfl
  rw [checkBaseUrl_scheme, hhost, prefix_map_lowerChar (by simp), prefix_takeWhile (by decide),
    prefix_takeWhile (by decide)]
  refine or_iff_left fun hv6 => ?_
  -- a host that ends at its first colon has none
  have hcolon : ':' ∈ ((rest.takeWhile (· != '/')).takeWhile (· != ':')).map Text.lowerChar :=
    hv6.subset (by decide)
  obtain ⟨d, hd, hlower⟩ := List.mem_map.mp hcolon
  have hd' := List.mem_takeWhile_imp hd
  rw [eq_of_lowerChar hlower (by decide)] at hd'
  exact absurd hd' (by decide)

namespace Url

variable {u : Url}

/-- What follows the host starts with one of the four. -/
theorem head_afterHost (u : Url) {c : Char} (h : u.afterHost.head? = some c) :
    c = ':' ∨ c = '/' ∨ c = '?' ∨ c = '#' := by
  unfold afterHost at h
  cases hport : u.port with
  | none =>
      rw [hport] at h
      exact .inr (u.tailStarts c h)
  | some digits =>
      rw [hport] at h
      exact .inl (Option.some.inj h).symm

/-- With user information in front, the check looks at that. -/
theorem refused_of_userinfo {info : List Char} (hinfo : u.userinfo = some info) :
    (checkBaseUrl u.text).isOk = false ↔ "169.254.".toList <+: info := by
  have hrest : u.afterScheme = info ++ '@' :: (u.host.text ++ u.afterHost) := by
    unfold afterScheme
    rw [hinfo]
    simp
  unfold text scheme
  rw [hrest, checkBaseUrl_unbracketed, prefix_append_sep (by decide)]
  intro hhead
  cases info with
  | nil => cases hhead
  | cons c info =>
      rcases u.userinfoClean _ hinfo c List.mem_cons_self with rfl | hclean
      · cases hhead
      · exact hclean (Option.some.inj hhead ▸ by decide)

/-- Without it, at the host itself. -/
theorem refused_of_plain {name : List Char} {clean : ∀ c ∈ name, c ∉ genDelims} (hinfo : u.userinfo = none)
    (hhost : u.host = .plain name clean) :
    (checkBaseUrl u.text).isOk = false ↔ "169.254.".toList <+: name := by
  have hrest : u.afterScheme = name ++ u.afterHost := by
    unfold afterScheme
    rw [hinfo, hhost]
    rfl
  unfold text scheme
  rw [hrest]
  cases hafter : u.afterHost with
  | nil =>
      rw [List.append_nil, checkBaseUrl_unbracketed]
      intro hhead
      exact clean _ (List.mem_of_mem_head? hhead) (by decide)
  | cons c more =>
      have hc := u.head_afterHost (congrArg List.head? hafter)
      rw [checkBaseUrl_unbracketed, prefix_append_sep]
      · rcases hc with rfl | rfl | rfl | rfl <;> decide
      · intro hhead
        cases name with
        | nil =>
            obtain rfl := Option.some.inj hhead
            rcases hc with h | h | h | h <;> cases h
        | cons d name => exact clean _ (List.mem_of_mem_head? hhead) (by decide)

end Url

/-! ## IPv4

Two octets in decimal, with a dot behind them, fix the first half of the address if two more parts follow; with fewer
parts the last one fills what is left, and the address is another one. -/

/-- From three numbers on, the first two are octets. -/
theorem ipv4Address_octets {a b c n : ℕ} {vs : List ℕ} (h : ipv4Address (a :: b :: c :: vs) = some n) :
    n / 2 ^ 16 = 256 * a + b := by
  rcases vs with _ | ⟨d, _ | ⟨e, vs⟩⟩
  · have h' : (if a < 256 ∧ b < 256 ∧ c < 2 ^ 16 then some (2 ^ 24 * a + 2 ^ 16 * b + c) else none) = some n := h
    obtain ⟨hlt, heq⟩ := Option.ite_none_right_eq_some.mp h'
    have hn : 2 ^ 24 * a + 2 ^ 16 * b + c = n := Option.some.inj heq
    omega
  · have h' : (if a < 256 ∧ b < 256 ∧ c < 256 ∧ d < 256 then
        some (2 ^ 24 * a + 2 ^ 16 * b + 2 ^ 8 * c + d) else none) = some n := h
    obtain ⟨hlt, heq⟩ := Option.ite_none_right_eq_some.mp h'
    have hn : 2 ^ 24 * a + 2 ^ 16 * b + 2 ^ 8 * c + d = n := Option.some.inj heq
    omega
  · cases h

/-- A list is read if its head is and its tail is. -/
theorem mapM_cons_eq_some {α β : Type} {f : α → Option β} {a : α} {as : List α} {bs : List β} :
    (a :: as).mapM f = some bs ↔ ∃ b rest, f a = some b ∧ as.mapM f = some rest ∧ bs = b :: rest := by
  rw [List.mapM_cons]
  constructor
  · intro h
    obtain ⟨b, hb, h⟩ := Option.bind_eq_some_iff.mp h
    obtain ⟨rest, hrest, h⟩ := Option.bind_eq_some_iff.mp h
    exact ⟨b, rest, hb, hrest, (Option.some.inj h).symm⟩
  · rintro ⟨b, rest, hb, hrest, rfl⟩
    rw [hb, hrest]
    rfl

/-- The parts of a text that starts with two octets; where there are no more, the text ends there. -/
theorem ipv4Parts_octets (rest : List Char) :
    ∃ more, ipv4Parts ("169.254.".toList ++ rest) = ['1', '6', '9'] :: ['2', '5', '4'] :: more ∧
      (more = [] → rest = []) := by
  have hsplit : ("169.254.".toList ++ rest).splitOn '.' = ['1', '6', '9'] :: ['2', '5', '4'] :: rest.splitOn '.' := by
    show (['1', '6', '9'] ++ '.' :: (['2', '5', '4'] ++ '.' :: rest)).splitOn '.' = _
    rw [List.splitOn_append_cons_self_of_not_mem (by decide), List.splitOn_append_cons_self_of_not_mem (by decide)]
  unfold ipv4Parts
  rw [hsplit]
  dsimp only
  obtain ⟨piece, pieces, hrest⟩ := List.exists_cons_of_ne_nil (List.splitOn_ne_nil '.' rest)
  rw [hrest]
  split
  · rename_i hlast
    refine ⟨(piece :: pieces).dropLast, rfl, fun hnil => ?_⟩
    -- one empty piece is what is left of nothing
    obtain rfl : pieces = [] := by
      cases pieces with
      | nil => rfl
      | cons next pieces => cases hnil
    have hempty : piece = [] := Option.some.inj hlast.2
    have hjoined : ['.'].intercalate (rest.splitOn '.') = rest := List.intercalate_splitOn '.'
    rw [hrest, hempty] at hjoined
    exact hjoined.symm
  · exact ⟨_, rfl, fun hnil => absurd hnil (List.cons_ne_nil _ _)⟩

/-- **The first two octets in decimal** make a link-local address, unless nothing follows them. -/
theorem linkLocal_of_octets {text : List Char} {a : ℕ} (hparse : parseIpv4 text = some a)
    (hstart : "169.254.".toList <+: text) : a / 2 ^ 16 = 0xA9FE ∨ text = "169.254.".toList := by
  obtain ⟨rest, rfl⟩ := hstart
  obtain ⟨more, hmore, hnil⟩ := ipv4Parts_octets rest
  unfold parseIpv4 at hparse
  rw [hmore] at hparse
  obtain ⟨values, hvalues, haddress⟩ := Option.bind_eq_some_iff.mp hparse
  obtain ⟨first, later, hfirst, hlater, rfl⟩ := mapM_cons_eq_some.mp hvalues
  obtain ⟨second, vs, hsecond, hvs, rfl⟩ := mapM_cons_eq_some.mp hlater
  have h169 : ipv4Number ['1', '6', '9'] = some 169 := by decide
  have h254 : ipv4Number ['2', '5', '4'] = some 254 := by decide
  obtain rfl := Option.some.inj (h169.symm.trans hfirst)
  obtain rfl := Option.some.inj (h254.symm.trans hsecond)
  cases more with
  | nil =>
      rw [hnil rfl]
      exact .inr rfl
  | cons part more =>
      obtain ⟨c, vs, -, -, rfl⟩ := mapM_cons_eq_some.mp hvs
      exact .inl (ipv4Address_octets haddress)

/-! ## IPv6

A first group of `fe80` is one of 64 that make the prefix fe80::/10.  In text it is four digits in front of a colon,
as leading zeros do not fit. -/

namespace HexGroup

variable (g : HexGroup)

theorem hexVal_lt {c : Char} {v : ℕ} (h : hexVal c = some v) : v < 16 := by
  unfold hexVal at h
  dsimp only at h
  split at h
  · cases h
    omega
  · split at h
    · cases h
      omega
    · split at h
      · cases h
        omega
      · cases h

theorem lowerChar_of_hexVal_ascii : ∀ n < 0x80, ∀ v ∈ [(15, 'f'), (14, 'e'), (8, '8'), (0, '0')],
    hexVal (Char.ofNat n) = some v.1 ↔ Text.lowerChar (Char.ofNat n) = v.2 := by decide

/-- The digits of `fe80`, in either case. -/
theorem lowerChar_of_hexVal (c : Char) : ∀ v ∈ [(15, 'f'), (14, 'e'), (8, '8'), (0, '0')],
    hexVal c = some v.1 ↔ Text.lowerChar c = v.2 := by
  intro v hv
  by_cases hc : c.toNat < 0x80
  · have h := lowerChar_of_hexVal_ascii c.toNat hc v hv
    rwa [Char.ofNat_toNat] at h
  · -- no other character is a digit or becomes one
    refine iff_of_false ?_ ?_
    · unfold hexVal
      dsimp only
      rw [if_neg (by omega), if_neg (by omega), if_neg (by omega)]
      exact fun h => by cases h
    · unfold Text.lowerChar
      rw [if_neg (by omega)]
      intro heq
      have hsmall : ∀ v ∈ [(15, 'f'), (14, 'e'), (8, '8'), (0, '0')], v.2.toNat < 0x80 := by decide
      exact hc (heq ▸ hsmall v hv)

/-- Some digits more, and the number is below that power. -/
theorem foldl_hex_lt {cs : List Char} (h : ∀ c ∈ cs, (hexVal c).isSome = true) (n : ℕ) :
    cs.foldl (fun n c => 16 * n + (hexVal c).getD 0) n < (n + 1) * 16 ^ cs.length := by
  induction cs generalizing n with
  | nil => simp
  | cons c cs ih =>
      obtain ⟨v, hv⟩ := Option.isSome_iff_exists.mp (h c List.mem_cons_self)
      have hlt := hexVal_lt hv
      have hrest := ih (fun x hx => h x (List.mem_cons_of_mem _ hx)) (16 * n + v)
      rw [List.foldl_cons, hv, Option.getD_some, List.length_cons]
      calc cs.foldl (fun n c => 16 * n + (hexVal c).getD 0) (16 * n + v)
          < (16 * n + v + 1) * 16 ^ cs.length := hrest
        _ ≤ ((n + 1) * 16) * 16 ^ cs.length := Nat.mul_le_mul_right _ (by omega)
        _ = (n + 1) * 16 ^ (cs.length + 1) := by rw [Nat.mul_assoc, Nat.pow_succ']

/-- A group is `0xFE80` exactly if it is written so. -/
theorem value_eq_iff : g.value = 0xFE80 ↔ g.digits.map Text.lowerChar = ['f', 'e', '8', '0'] := by
  obtain ⟨digits, hex, hlength⟩ := g
  have hlt := foldl_hex_lt hex 0
  unfold value
  rcases digits with _ | ⟨a, _ | ⟨b, _ | ⟨c, _ | ⟨d, _ | ⟨e, digits⟩⟩⟩⟩⟩
  -- fewer than four digits stay below `0x1000`
  · exact iff_of_false (Nat.ne_of_lt (hlt.trans (show 1 * 16 ^ 0 < 0xFE80 by decide))) (by simp)
  · exact iff_of_false (Nat.ne_of_lt (hlt.trans (show 1 * 16 ^ 1 < 0xFE80 by decide))) (by simp)
  · exact iff_of_false (Nat.ne_of_lt (hlt.trans (show 1 * 16 ^ 2 < 0xFE80 by decide))) (by simp)
  · exact iff_of_false (Nat.ne_of_lt (hlt.trans (show 1 * 16 ^ 3 < 0xFE80 by decide))) (by simp)
  · have hdigit : ∀ x ∈ [a, b, c, d], ∃ v, hexVal x = some v ∧ v < 16 := by
      intro x hx
      obtain ⟨v, hv⟩ := Option.isSome_iff_exists.mp (hex x hx)
      exact ⟨v, hv, hexVal_lt hv⟩
    obtain ⟨va, ha, hla⟩ := hdigit a (by simp)
    obtain ⟨vb, hb, hlb⟩ := hdigit b (by simp)
    obtain ⟨vc, hc, hlc⟩ := hdigit c (by simp)
    obtain ⟨vd, hd, hld⟩ := hdigit d (by simp)
    have h15 := lowerChar_of_hexVal a (15, 'f') (by simp)
    have h14 := lowerChar_of_hexVal b (14, 'e') (by simp)
    have h8 := lowerChar_of_hexVal c (8, '8') (by simp)
    have h0 := lowerChar_of_hexVal d (0, '0') (by simp)
    rw [ha, Option.some.injEq] at h15
    rw [hb, Option.some.injEq] at h14
    rw [hc, Option.some.injEq] at h8
    rw [hd, Option.some.injEq] at h0
    simp only [List.foldl_cons, List.foldl_nil, ha, hb, hc, hd, Option.getD_some, List.map_cons, List.map_nil,
      List.cons.injEq, and_true, ← h15, ← h14, ← h8, ← h0]
    omega
  · simp only [List.length_cons] at hlength
    omega

end HexGroup

namespace Ipv6Literal

variable (lit : Ipv6Literal)

theorem colons_cons (piece : List Char) {pieces : List (List Char)} (h : pieces ≠ []) :
    colons (piece :: pieces) = piece ++ ':' :: colons pieces := by
  unfold colons
  rw [List.intercalate_cons_of_ne_nil h, List.append_assoc]
  rfl

/-- The first group ends at a colon. -/
theorem text_of_head {g : HexGroup} {gs : List HexGroup} (h : lit.head = g :: gs) :
    ∃ more, lit.text = g.digits ++ ':' :: more := by
  unfold text
  cases hrest : lit.rest with
  | none =>
      dsimp only
      rw [h, List.map_cons, List.cons_append, colons_cons]
      · exact ⟨_, rfl⟩
      · -- eight groups, two of them in a quad at most
        intro hnil
        obtain ⟨hgs, hquad⟩ := List.append_eq_nil_iff.mp hnil
        rw [List.map_eq_nil_iff] at hgs hquad
        have hfull := lit.full hrest
        rw [h, hgs, hquad] at hfull
        cases hfull
  | some r =>
      dsimp only
      rw [h, List.map_cons]
      cases gs with
      | nil => exact ⟨_, congrArg (· ++ _) List.intercalate_singleton⟩
      | cons next gs =>
          rw [colons_cons _ (by simp), List.append_assoc, List.cons_append]
          exact ⟨_, rfl⟩

/-- A literal that starts with zeros has its other groups behind the two colons. -/
theorem rest_of_nil (h : lit.head = []) : ∃ r, lit.rest = some r ∧ r.length + 2 * lit.quad.toList.length ≤ 7 := by
  cases hrest : lit.rest with
  | none =>
      have hfull := lit.full hrest
      have hquad : lit.quad.toList.length ≤ 1 := Option.length_toList_le
      rw [h, List.length_nil] at hfull
      omega
  | some r =>
      have hroom := lit.room r hrest
      rw [h, List.length_nil] at hroom
      exact ⟨r, rfl, by omega⟩

theorem text_of_nil (h : lit.head = []) : ∃ more, lit.text = ':' :: more := by
  obtain ⟨r, hrest, -⟩ := lit.rest_of_nil h
  unfold text
  rw [hrest, h]
  exact ⟨_, rfl⟩

theorem mem_colons {pieces : List (List Char)} {c : Char} (h : c ∈ colons pieces) :
    c = ':' ∨ ∃ piece ∈ pieces, c ∈ piece := by
  induction pieces with
  | nil => cases h
  | cons piece pieces ih =>
      by_cases hnil : pieces = []
      · subst hnil
        exact .inr ⟨piece, List.mem_cons_self, by simpa [colons] using h⟩
      · rw [colons_cons piece hnil, List.mem_append, List.mem_cons] at h
        rcases h with hpiece | rfl | hmore
        · exact .inr ⟨piece, List.mem_cons_self, hpiece⟩
        · exact .inl rfl
        · rcases ih hmore with rfl | ⟨next, hnext, hc⟩
          · exact .inl rfl
          · exact .inr ⟨next, List.mem_cons_of_mem _ hnext, hc⟩

/-- A literal is made of digits, colons and dots. -/
theorem text_digits {c : Char} (h : c ∈ lit.text) : c = ':' ∨ c = '.' ∨ (hexVal c).isSome = true ∨ c.isDigit = true := by
  -- a group has hexadecimal digits, and a quad decimal ones between its dots
  have hpieces : ∀ gs : List HexGroup, c ∈ colons (gs.map (·.digits) ++ lit.quad.toList.map Quad.text) →
      c = ':' ∨ c = '.' ∨ (hexVal c).isSome = true ∨ c.isDigit = true := by
    intro gs hc
    rcases mem_colons hc with rfl | ⟨piece, hpiece, hc⟩
    · exact .inl rfl
    · rcases List.mem_append.mp hpiece with hgroup | hquad
      · obtain ⟨g, -, rfl⟩ := List.mem_map.mp hgroup
        exact .inr (.inr (.inl (g.hex c hc)))
      · obtain ⟨q, -, rfl⟩ := List.mem_map.mp hquad
        have hdigit : ∀ n, c ∈ Nat.toDigits 10 n → c.isDigit = true := fun n hn =>
          Nat.isDigit_of_mem_toDigits (by decide) (by decide) hn
        simp only [Quad.text, List.mem_append, List.mem_cons] at hc
        rcases hc with h | h | h | h | h | h | h
        · exact .inr (.inr (.inr (hdigit _ h)))
        · exact .inr (.inl h)
        · exact .inr (.inr (.inr (hdigit _ h)))
        · exact .inr (.inl h)
        · exact .inr (.inr (.inr (hdigit _ h)))
        · exact .inr (.inl h)
        · exact .inr (.inr (.inr (hdigit _ h)))
  -- with `::` there are groups on both sides of it, and without it all are in front
  unfold text at h
  cases hrest : lit.rest with
  | none =>
      rw [hrest] at h
      exact hpieces _ h
  | some r =>
      rw [hrest] at h
      rcases List.mem_append.mp h with hhead | hmore
      · rcases mem_colons hhead with rfl | ⟨piece, hpiece, hc⟩
        · exact .inl rfl
        · obtain ⟨g, -, rfl⟩ := List.mem_map.mp hpiece
          exact .inr (.inr (.inl (g.hex c hc)))
      · rcases List.mem_cons.mp hmore with rfl | hmore
        · exact .inl rfl
        · rcases List.mem_cons.mp hmore with rfl | hmore
          · exact .inl rfl
          · exact hpieces _ hmore

/-- So it ends neither at a bracket nor at a slash. -/
theorem text_clean {c : Char} (h : c ∈ lit.text) : c ≠ ']' ∧ c ≠ '/' := by
  have hc := lit.text_digits h
  constructor
  · rintro rfl
    revert hc
    decide
  · rintro rfl
    revert hc
    decide

/-- The first group of the address is the first one written. -/
theorem head_groups_of_head {g : HexGroup} {gs : List HexGroup} (h : lit.head = g :: gs) :
    lit.groups.head? = some g.value := by
  unfold groups
  rw [h]
  rfl

/-- Or zero, if the literal starts with the two colons. -/
theorem head_groups_of_nil (h : lit.head = []) : lit.groups.head? = some 0 := by
  obtain ⟨r, hrest, hroom⟩ := lit.rest_of_nil h
  have hlow : lit.low.length ≤ 7 := by
    unfold low
    have hquad : (lit.quad.toList.flatMap Quad.groups).length = 2 * lit.quad.toList.length := by
      cases lit.quad <;> rfl
    rw [hrest, Option.getD_some, List.length_append, List.length_map, hquad]
    exact hroom
  unfold groups
  rw [h, List.map_nil, List.nil_append]
  obtain ⟨k, hk⟩ : ∃ k, 8 - [].length - lit.low.length = k + 1 := ⟨7 - lit.low.length, by simp; omega⟩
  rw [hk, List.replicate_succ]
  rfl

end Ipv6Literal

namespace Url

variable {u : Url}

/-- The check of an IPv6 host: the bracket is taken off, and the text in front of the first colon is compared. -/
theorem refused_of_ipv6 {lit : Ipv6Literal} (hinfo : u.userinfo = none) (hhost : u.host = .ipv6 lit) :
    (checkBaseUrl u.text).isOk = false ↔ lit.groups.head? = some 0xFE80 := by
  have hrest : u.afterScheme = '[' :: (lit.text ++ ']' :: u.afterHost) := by
    unfold afterScheme
    rw [hinfo, hhost]
    simp [UrlHost.text]
  have hinner : hostChars (u.afterScheme.takeWhile (· != '/')) = lit.text := by
    rw [hrest, List.takeWhile_cons_of_pos (by decide),
      List.takeWhile_append_of_pos fun c hc => by simpa using (lit.text_clean hc).2,
      List.takeWhile_cons_of_pos (by decide)]
    show (lit.text ++ ']' :: _).takeWhile (· != ']') = _
    rw [List.takeWhile_append_of_pos fun c hc => by simpa using (lit.text_clean hc).1,
      List.takeWhile_cons_of_neg (by decide), List.append_nil]
  unfold text scheme
  rw [checkBaseUrl_scheme, hinner, prefix_map_lowerChar (by simp)]
  cases hhead : lit.head with
  | nil =>
      obtain ⟨more, hmore⟩ := lit.text_of_nil hhead
      rw [lit.head_groups_of_nil hhead, hmore]
      exact iff_of_false (by simp [Text.lowerChar]) (by decide)
  | cons g gs =>
      obtain ⟨more, hmore⟩ := lit.text_of_head hhead
      have hquad : ¬ "169.254.".toList <+: g.digits := fun h =>
        absurd (g.hex '.' (h.subset (by decide))) (by decide)
      have hcolon : ':' ∉ g.digits.map Text.lowerChar := by
        intro hmem
        obtain ⟨c, hc, hlower⟩ := List.mem_map.mp hmem
        have hhex := g.hex c hc
        rw [eq_of_lowerChar hlower (by decide)] at hhex
        exact absurd hhex (by decide)
      rw [lit.head_groups_of_head hhead, hmore, Option.some.injEq, g.value_eq_iff, prefix_append_sep (by decide),
        or_iff_right hquad, List.map_append, List.map_cons]
      constructor
      · rintro ⟨t, ht⟩
        -- both texts stop at the first colon
        have hparts : (['f', 'e', '8', '0'] ++ ':' :: t).splitOn ':' =
            (g.digits.map Text.lowerChar ++ ':' :: more.map Text.lowerChar).splitOn ':' := congrArg _ ht
        rw [List.splitOn_append_cons_self_of_not_mem (by decide),
          List.splitOn_append_cons_self_of_not_mem hcolon] at hparts
        exact (List.cons.inj hparts).1.symm
      · intro hdigits
        rw [hdigits]
        exact ⟨more.map Text.lowerChar, rfl⟩

end Url

/-! ## The condition

Both sides are in terms of the host now: what the check looks at, and whether the host is link-local.  Where the two
differ is what `Legible` leaves out. -/

/-- The text of a plain host tells its range: a name does not begin as an address of the range would, an address
does, and goes on. -/
def PlainlySpelled (text : List Char) : Option ℕ → Prop
  | none => ¬ "169.254.".toList <+: text
  | some a => (a / 2 ^ 16 = 0xA9FE → "169.254.".toList <+: text) ∧ text ≠ "169.254.".toList

/-- **`Legible`** — the characters the check looks at tell the host's range. -/
def Url.Legible (u : Url) : Prop :=
  match u.userinfo, u.host with
  | some info, host => "169.254.".toList <+: info ↔ host.LinkLocal
  | none, .plain text _ => PlainlySpelled text (parseIpv4 text)
  | none, .ipv6 lit => ∀ g, lit.groups.head? = some g → g / 2 ^ 6 = 0x3FA → g = 0xFE80

/-- A plain host is refused exactly if it is link-local, if its spelling is plain. -/
theorem plainlySpelled_iff {text : List Char} {clean : ∀ c ∈ text, c ∉ genDelims} :
    ("169.254.".toList <+: text ↔ (UrlHost.plain text clean).LinkLocal) ↔ PlainlySpelled text (parseIpv4 text) := by
  show (_ ↔ ∃ a, parseIpv4 text = some a ∧ a / 2 ^ 16 = 0xA9FE) ↔ _
  cases hparse : parseIpv4 text with
  | none =>
      have hrange : ¬ ∃ b, none = some b ∧ b / 2 ^ 16 = 0xA9FE := fun ⟨b, h, _⟩ => by cases h
      exact iff_false_right hrange
  | some a =>
      have hrange : (∃ b, some a = some b ∧ b / 2 ^ 16 = 0xA9FE) ↔ a / 2 ^ 16 = 0xA9FE := by
        constructor
        · rintro ⟨b, hb, h⟩
          exact Option.some.inj hb ▸ h
        · exact fun h => ⟨a, rfl, h⟩
      rw [hrange]
      constructor
      · intro h
        refine ⟨h.mpr, ?_⟩
        rintro rfl
        -- the two-part literal is 169.0.0.254
        have haddress : parseIpv4 "169.254.".toList = some (2 ^ 24 * 169 + 254) := by decide
        rw [haddress] at hparse
        obtain rfl := Option.some.inj hparse
        exact absurd (h.mp List.prefix_rfl) (by decide)
      · rintro ⟨hspelled, hmore⟩
        exact ⟨fun hstart => (linkLocal_of_octets hparse hstart).resolve_right hmore, hspelled⟩

/-- An IPv6 host is, if its first group is `fe80` or none of the prefix. -/
theorem firstGroup_iff {lit : Ipv6Literal} : (lit.groups.head? = some 0xFE80 ↔ (UrlHost.ipv6 lit).LinkLocal) ↔
    ∀ g, lit.groups.head? = some g → g / 2 ^ 6 = 0x3FA → g = 0xFE80 := by
  show (_ ↔ ∃ g, lit.groups.head? = some g ∧ g / 2 ^ 6 = 0x3FA) ↔ _
  constructor
  · intro h g hg hrange
    exact Option.some.inj (hg.symm.trans (h.mpr ⟨g, hg, hrange⟩))
  · intro h
    constructor
    · exact fun hhead => ⟨_, hhead, by decide⟩
    · rintro ⟨g, hg, hrange⟩
      rw [hg, h g hg hrange]

/-- `http://user@169.254.169.254/` -/
def userUrl : Url where
  secure := false
  userinfo := some "user".toList
  host := .plain "169.254.169.254".toList (by simp [genDelims])
  port := none
  tail := ['/']
  userinfoClean := by simp [genDelims]
  portDigits := by simp [Text.isAsciiDigit]
  tailStarts := by simp

/-- `https://[fe90::1]:8000` -/
def fe90Url : Url where
  secure := true
  userinfo := none
  host := .ipv6 ⟨[⟨"fe90".toList, by simp [hexVal], by decide⟩], some [⟨['1'], by simp [hexVal], by decide⟩], none, by decide,
    by simp⟩
  port := some "8000".toList
  tail := []
  userinfoClean := by simp [genDelims]
  portDigits := by simp [Text.isAsciiDigit]
  tailStarts := by simp

/-- `http://2852039166` -/
def decimalUrl : Url where
  secure := false
  userinfo := none
  host := .plain "2852039166".toList (by simp [genDelims])
  port := none
  tail := []
  userinfoClean := by simp [genDelims]
  portDigits := by simp [Text.isAsciiDigit]
  tailStarts := by simp

/-- `http://169.254.example.com` -/
def nameUrl : Url where
  secure := false
  userinfo := none
  host := .plain "169.254.example.com".toList (by simp [genDelims])
  port := none
  tail := []
  userinfoClean := by simp [genDelims]
  portDigits := by simp [Text.isAsciiDigit]
  tailStarts := by simp

end Flock
