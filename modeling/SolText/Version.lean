import SolText.Text.Numeral
import SolText.Text.Split

/-!
# Semantic versions

A version is three numbers, a pre-release and build metadata. The last two are lists of identifiers;
an empty list means that there is none.

* `Version.text` and `Version.parse`: the text form, `1.2.3-rc.1+build.7`.
* `Version.reaches`: whether a version is at or past a release.
-/

namespace SolText

open Text

namespace Version

/-- The characters of identifiers: ASCII letters, digits and hyphens. -/
def isIdentifierChar (c : Char) : Bool := c.isAlphanum || c == '-'

/-- An identifier of build metadata has at least one character. -/
def isIdentifier (text : String) : Bool :=
  !text.toList.isEmpty && text.toList.all isIdentifierChar

/-- Digits without a zero in front of another digit. -/
def isPlainNumeral (digits : List Char) : Bool := digits == ['0'] || digits.head? != some '0'

/-- An identifier of a pre-release is not a number with zeros in front. -/
def isPreIdentifier (text : String) : Bool :=
  isIdentifier text && (!text.toList.all Char.isDigit || isPlainNumeral text.toList)

end Version

/-- A semantic version. -/
structure Version where
  major : UInt64
  minor : UInt64
  patch : UInt64
  pre : List String := []
  build : List String := []
  pre_valid : pre.all Version.isPreIdentifier := by decide
  build_valid : build.all Version.isIdentifier := by decide
  deriving DecidableEq

namespace Version

/-- The text form of a version. -/
def text (version : Version) : String :=
  Nat.repr version.major.toNat ++ "." ++ Nat.repr version.minor.toNat ++ "." ++
    Nat.repr version.patch.toNat ++
    (if version.pre.isEmpty then "" else "-" ++ ".".intercalate version.pre) ++
    (if version.build.isEmpty then "" else "+" ++ ".".intercalate version.build)

/-- One of the three numbers. -/
def parseNumber (digits : List Char) : Option UInt64 :=
  if isPlainNumeral digits then (readDigits digits).map UInt64.ofNat else none

/-- The identifiers of a part that may be missing. -/
def parseIdentifiers : Option (List Char) → List String
  | some part => (splitAll '.' part).map String.ofList
  | none => []

/-- The version with the given text form. -/
def parse (text : String) : Option Version :=
  let (main, build) := splitFirst '+' text.toList
  let (core, pre) := splitFirst '-' main
  match splitAll '.' core with
  | [major, minor, patch] => do
    let major ← parseNumber major
    let minor ← parseNumber minor
    let patch ← parseNumber patch
    let pre := parseIdentifiers pre
    let build := parseIdentifiers build
    if hp : pre.all isPreIdentifier then
      if hb : build.all isIdentifier then some ⟨major, minor, patch, pre, build, hp, hb⟩ else none
    else none
  | _ => none

/-- Whether a version is at or past the release with the given numbers. A pre-release comes before
its release, and build metadata does not hold a version back. -/
def reaches (version : Version) (major minor patch : UInt64) : Bool :=
  if version.major ≠ major then major < version.major
  else if version.minor ≠ minor then minor < version.minor
  else if version.patch ≠ patch then patch < version.patch
  else version.pre.isEmpty

end Version

end SolText
