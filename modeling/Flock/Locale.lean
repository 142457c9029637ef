/-
# Flock.Locale — the locale-v1 grammar of `presentation.rs`.
-/
import Flock.Text

namespace Flock

/-- `LocaleError`. -/
inductive LocaleError where
  | invalid
  | notInstalled (canonical : String)
  deriving DecidableEq, Repr

/-- `INSTALLED_LOCALES`, by id. -/
def installedLocales : List String := ["en-US"]

/-- First letter up, the rest down. -/
def titleCase (s : String) : String :=
  match (Text.toAsciiLowercase s).toList with
  | [] => ""
  | c :: cs => String.ofList (Text.upperChar c :: cs)

/-- The optional script subtag: what it adds to the spelling, and the subtags left. -/
def canonicalScript (canonical : String) : List String → String × List String
  | script :: rest =>
      if Text.len script == 4 && script.toList.all Text.isAsciiAlphabetic then
        (canonical ++ "-" ++ titleCase script, rest)
      else (canonical, script :: rest)
  | [] => (canonical, [])

/-- The optional region subtag, which must be the last one. -/
def canonicalRegion (canonical : String) : List String → Except LocaleError String
  | [] => .ok canonical
  | region :: rest =>
      let alpha := Text.len region == 2 && region.toList.all Text.isAsciiAlphabetic
      let numeric := Text.len region == 3 && region.toList.all Text.isAsciiDigit
      if !alpha && !numeric then .error .invalid
      else if !rest.isEmpty then .error .invalid
      else .ok (canonical ++ "-" ++ if alpha then Text.toAsciiUppercase region else region)

/-- `canonical_locale`. -/
def canonicalLocale (locale : String) : Except LocaleError String :=
  if Text.isEmpty locale || Text.trim locale != locale || !Text.isAscii locale then .error .invalid
  else
    match Text.split '-' locale with
    | [] => .error .invalid
    | language :: rest =>
        if (Text.len language == 2 || Text.len language == 3) &&
            language.toList.all Text.isAsciiAlphabetic then
          let (canonical, rest) := canonicalScript (Text.toAsciiLowercase language) rest
          canonicalRegion canonical rest
        else .error .invalid

/-- `installed_locale`. -/
def installedLocale (locale : String) : Except LocaleError String := do
  let canonical ← canonicalLocale locale
  if installedLocales.contains canonical then .ok canonical else .error (.notInstalled canonical)

end Flock
