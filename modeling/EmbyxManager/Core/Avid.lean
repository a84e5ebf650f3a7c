import EmbyxManager.Monitor.PartOrder
/-!
# Video IDs

`core/avid.py`: the one place where an AVID is read from a title or a file name.
-/

namespace EmbyxManager.Core

open Atom Atom.Regex Parts

/-! ## Numbers -/

/-- `[A-Z0-9]`. -/
def capital (c : Char) : Bool := c.isUpper || c.isDigit

/-- `_NUMBER_FORM_RE`: the brand is group 1, the number group 2. -/
def numberFormRe : Regex :=
  .all [.start, .group 1 (.all [.star true (.one capital), .one Char.isUpper, .star true (.one capital)]), .one (· = '-'),
    .group 2 (plus (.one isDecimal)), .finish]

/-- `_NON_CID_BRANDS`. -/
def nonCidBrands : List String :=
  ["FC2", "HEYZO", "HEYDOUGA", "GETCHU", "GYUTTO", "MKBD", "MKD", "S2M", "S2MBD", "MK3D2DBD", "CW3D2BD", "CW3D2DBD"]

/-- `f'{n:03d}'`. -/
def padded (n : Nat) : List Char := List.replicate (3 - (Nat.toDigits 10 n).length) '0' ++ Nat.toDigits 10 n

/-- Spell the number the way the catalogs do; none where `int` has more digits than it takes. -/
def normalizeNumber? (avid : List Char) : Option (List Char) :=
  match numberFormRe.matchStart avid with
  | none => some avid
  | some found =>
    let brand := (found.group 1).getD []
    if String.ofList brand ∈ nonCidBrands then some avid
    else (readInt ((found.group 2).getD [])).map fun number => brand ++ '-' :: padded number

/-- The same for numbers of any length. -/
def normalizeNumber (avid : List Char) : List Char :=
  match numberFormRe.matchStart avid with
  | none => avid
  | some found =>
    let brand := (found.group 1).getD []
    if String.ofList brand ∈ nonCidBrands then avid else brand ++ '-' :: padded (intOf ((found.group 2).getD []))

example : normalizeNumber "HTTM-0066".toList = "HTTM-066".toList := by decide

/-! ## Patterns -/

/-- `[a-z]` under `IGNORECASE`. -/
def letter (c : Char) : Bool := (ignoreCase c).isLower

/-- `[-_]`. -/
def dash (c : Char) : Bool := c = '-' || c = '_'

/-- `[-_]*`. -/
def dashes : Regex := .star true (.one dash)

/-- `_QUALITY_PREFIX_RE`. -/
def qualityPrefixRe : Regex := .all [.start, .alt (.seq (opt (word "f")) (word "hd")) (word "sd"), .one dash]

/-- `_SUFFIX_RE`. -/
def suffixRe : Regex :=
  .all [.any [.seq (.one dash) (.any [word "c", word "uc", word "ch", .seq (word "cd") (between 1 2 (.one isDecimal))]),
      .seq (word "hhb") digits, word "ch"], .star true (.one isSpace), .finish]

/-- `_STUDIO_RE`: what is kept is group 1. -/
def studioRe : Regex :=
  .all [.alt .start (.behind fun c => !alphanumeric c),
    .any [.all [word "carib", opt (.all [opt (word "b"), word "ean"]), opt (word "com"), opt (word "pr")],
      .all [opt (word "1"), word "pon", opt (word "d"), opt (word "o")], .seq (word "10mu") (opt (word "sume")),
      .all [word "paco", opt (word "paco"), opt (word "mama")], .seq (word "mura") (opt (word "mura")),
      .all [word "tokyo", opt (.one fun c => dash c || isSpace c), word "hot"]],
    .alt
      (.seq (plus (.one fun c => dash c || isSpace c))
        (.group 1 (.alt
          (.all [times 4 (.one isDecimal), digits, .one dash, times 2 (.one isDecimal), digits])
          (.seq (between 1 4 (.one letter)) (between 2 4 (.one isDecimal))))))
      .finish]

/-- `_DOMAIN_RE`; `wordChar` is `\w`. -/
def domainRe (wordChar : Char → Bool) : Regex :=
  .all [between 3 10 (.one wordChar), .one (· = '.'), .any [word "com", word "net", word "app", word "xyz"]]

/-- `[^A-Z\d]{0,5}` under `IGNORECASE`. -/
def gap : Regex := upTo (.one fun c => !alphanumeric c) 5

def fc2Re : Regex := .all [word "fc2", gap, opt (.group 1 (.seq (word "ppv") gap)), .group 2 (between 5 7 (.one isDecimal))]

/-- The last two numbers of a heydouga ID. -/
def heydougaNumbers (m : Nat) : Regex :=
  .all [dashes, .group m (times 4 (.one isDecimal)), .one dash, opt (.one (· = '0')), .group (m + 1) (between 3 5 (.one isDecimal))]

def heydougaRe : Regex := .seq (.group 1 (word "heydouga")) (heydougaNumbers 2)

def getchuRe : Regex := .all [word "getchu", dashes, .group 1 (plus (.one isDecimal))]

def gyuttoRe : Regex := .all [word "gyutto", .one (· = '-'), .group 1 (plus (.one isDecimal))]

def luxuRe : Regex := .all [word "259luxu", .one (· = '-'), .group 1 (plus (.one isDecimal))]

def heyRe : Regex := .seq (word "hey") (heydougaNumbers 1)

/-- MUGEN's IDs: groups 1 and 2, or 3 and 4. -/
def mugenRe : Regex :=
  .alt (.all [.group 1 (.all [word "mk", opt (word "b"), word "d"]), dashes, .group 2 (.seq (word "s") (between 2 3 (.one isDecimal)))])
    (.all [.group 3 (.alt (word "s2m") (word "s2mbd")), dashes, .group 4 (between 2 3 (.one isDecimal))])

/-- A brand, a separator, a number. -/
def brandNumber (brand separator number : Regex) : Regex := .all [.group 1 brand, separator, .group 2 number]

def bluRayRe : Regex :=
  brandNumber (.all [between 2 4 (.one letter), word "3d2", opt (word "d"), word "bd"]) dashes (between 2 3 (.one isDecimal))

def ibwRe : Regex := brandNumber (word "ibw") (.one dash) (.seq (between 2 5 (.one isDecimal)) (word "z"))

def idSeriesRe : Regex :=
  brandNumber (.seq (between 2 3 (.one isDecimal)) (word "id")) (.one dash) (between 2 5 (.one isDecimal))

def ordinaryRe : Regex := brandNumber (between 2 10 (.one letter)) (.one dash) (between 2 5 (.one isDecimal))

/-- The three series of Tokyo Hot without a separator. -/
def redSkyExRe : Regex :=
  .group 1 (.any [.all [word "red", oneOf "01", .one isDecimal, .one isDecimal], .all [word "sky", oneOf "0123", .one isDecimal, .one isDecimal],
    .all [word "ex00", oneOf "01", .one isDecimal]])

def unseparatedRe : Regex := brandNumber (.seq (.one letter) (plus (.one letter))) .empty (between 2 5 (.one isDecimal))

/-- T-28621 in group 1, T28-557 in group 2; capitals only. -/
def tSeriesRe : Regex :=
  .alt (.all [.alt .start (.behind fun c => !(c.isUpper || isDecimal c)),
      .group 1 (.all [.one (· = 'T'), .one dash, times 5 (.one isDecimal)]), .aheadNot (.one isDecimal)])
    (.group 2 (.all [.one (· = 'T'), .one (fun c => c = '2' || c = '3'), .one (· = '8'), .one dash, times 3 (.one isDecimal)]))

def nkSeriesRe : Regex := brandNumber (oneOf "nk") (opt (.one dash)) (times 4 (.one isDecimal))

def longNumberRe : Regex := .group 1 (.all [times 6 (.one isDecimal), .one dash, between 2 3 (.one isDecimal)])

def letteredNumberRe : Regex :=
  brandNumber (between 2 10 (.one Char.isUpper)) (.one dash) (.seq (.one Char.isUpper) (between 2 5 (.one isDecimal)))

def shortNumberRe : Regex := .group 1 (.all [times 4 (.one isDecimal), .one dash, times 3 (.one isDecimal)])

/-! ## Paths -/

/-- The parts of a `Path`; blank parts and single dots are dropped. -/
def pathParts (path : List Char) : List (List Char) := (path.splitOn '/').filter fun part => part ≠ [] ∧ part ≠ ['.']

/-- `Path.name`. -/
def pathName (path : List Char) : List Char := (pathParts path).getLast?.getD []

/-- `Path.parent.name`. -/
def parentName (path : List Char) : List Char := (pathParts path).dropLast.getLast?.getD []

/-! ## The parser -/

/-- `AvidParser`, with what it leaves to the language and to the operator's patterns. -/
structure AvidParser where
  idExceptions : List String
  /-- `_ignore_re.sub('', ...)`. -/
  ignore : List Char → List Char
  /-- `str.upper`. -/
  upper : List Char → List Char
  /-- `str.isalnum` of a character. -/
  isAlnum : Char → Bool

/-- `needle in text`. -/
def inText (needle text : List Char) : Bool := text.tails.any needle.isPrefixOf

/-- `text.replace(')(', '-')`. -/
def bracketsToDash : List Char → List Char
  | ')' :: '(' :: rest => '-' :: bracketsToDash rest
  | c :: rest => c :: bracketsToDash rest
  | [] => []

/-- `re.sub` with a group in the place of a match. -/
def keepGroup (r : Regex) (n : Nat) (s : List Char) : List Char :=
  (r.pieces s).flatMap fun
    | .char c => [c]
    | .found _ groups => (groups.lookup n).getD []

/-- The trailing markers are stripped until none is left; each round shortens the text. -/
def stripSuffixes : Nat → List Char → List Char
  | 0, stem => stem
  | fuel + 1, stem =>
    let trimmed := suffixRe.sub [] stem
    if trimmed = stem then stem else stripSuffixes fuel trimmed

def strip (text : List Char) : List Char := ((text.dropWhile isSpace).reverse.dropWhile isSpace).reverse

/-- `_strip_release_noise`. -/
def stripReleaseNoise (stem : List Char) : List Char :=
  let stem := tagRe.sub [] (qualityPrefixRe.sub [] stem)
  let stem := keepGroup studioRe 1 stem
  strip (separatorRunRe.sub ['-'] (stripSuffixes stem.length stem))

/-- What a search finds in a group. -/
def groupText (found : At) (n : Nat) : List Char := (found.group n).getD []

/-- `match.group(m) + '-' + match.group(n)`. -/
def joined (found : At) (m n : Nat) : List Char := groupText found m ++ '-' :: groupText found n

/-- `_match_odd_numbering`. -/
def matchOddNumbering (norm : List Char) : List Char :=
  match tSeriesRe.search norm with
  | some found =>
    match found.group 1 with
    | some t => t.map fun c => if c = '_' then '-' else c
    | none => groupText found 2
  | none =>
    match nkSeriesRe.search norm with
    | some found => groupText found 1 ++ groupText found 2
    | none =>
      match longNumberRe.search norm with
      | some found => groupText found 1
      | none =>
        match letteredNumberRe.search norm with
        | some found => joined found 1 2
        | none =>
          match shortNumberRe.search norm with
          | some found => groupText found 1
          | none => []

/-- The branches of `get_id` for a text without a marker of its own, in order. -/
def matchRegular (norm : List Char) : Option (List Char) :=
  (heyRe.search norm).map (fun found => "heydouga-".toList ++ joined found 1 2) <|>
  (mugenRe.search norm).map (fun found =>
    match found.group 1 with
    | some _ => joined found 1 2
    | none => joined found 3 4) <|>
  (bluRayRe.search norm).map (joined · 1 2) <|>
  (ibwRe.search norm).map (joined · 1 2) <|>
  (idSeriesRe.search norm).map (joined · 1 2) <|>
  (ordinaryRe.search norm).map (joined · 1 2) <|>
  (redSkyExRe.search norm).map (groupText · 1) <|>
  (unseparatedRe.search norm).map (joined · 1 2)

/-- The studios with a marker of their own: what the first marker found leads to, or none of them. -/
def matchMarked (norm : List Char) : Option (Option (List Char)) :=
  if inText "FC2".toList norm then some ((fc2Re.search norm).map fun found => "FC2-".toList ++ groupText found 2)
  else if inText "HEYDOUGA".toList norm then
    some ((heydougaRe.search norm).map fun found => groupText found 1 ++ '-' :: joined found 2 3)
  else if inText "GETCHU".toList norm then some ((getchuRe.search norm).map fun found => "GETCHU-".toList ++ groupText found 1)
  else if inText "GYUTTO".toList norm then some ((gyuttoRe.search norm).map fun found => "GYUTTO-".toList ++ groupText found 1)
  else if inText "259LUXU".toList norm then some ((luxuRe.search norm).map fun found => "259LUXU-".toList ++ groupText found 1)
  else none

namespace AvidParser
variable (p : AvidParser)

def wordChar (c : Char) : Bool := p.isAlnum c || c = '_'

/-- `_domain_variants`. -/
def domainVariants (norm : List Char) : List Char × List Char :=
  match (domainRe p.wordChar).search norm with
  | none => (norm, norm)
  | some domain =>
    let noDomain := (domainRe p.wordChar).sub [] norm
    (noDomain, if domain.rest.any p.isAlnum then noDomain else norm)

/-- What is left of a file name when the noise is gone. -/
def stemOf (path : List Char) : List Char := p.ignore (stripReleaseNoise (stripExtension (String.ofList (pathName path))))

/-- The end of `get_id`: odd numbers, then a number behind brackets, then the folder's name. -/
def fallback (enter : List Char → Option (List Char)) (path norm : List Char) : Option (List Char) :=
  match matchOddNumbering norm with
  | [] => do
    let avid ← (if inText ")(".toList norm then enter (bracketsToDash norm) else some [])
    if avid ≠ [] then some avid
    else if parentName path ≠ [] then enter (parentName path)
    else some []
  | id => some id

/-- The part of `get_id` for a text without a marker of its own. -/
def regular (enter : List Char → Option (List Char)) (path norm : List Char) : Option (List Char) :=
  match matchRegular norm with
  | some id => some id
  | none => fallback enter path norm

/-- `get_id`, which goes back to `get_avid` through `enter`. -/
def idOf (enter : List Char → Option (List Char)) (path : List Char) : Option (List Char) :=
  let norm := p.upper (p.stemOf path)
  match matchMarked norm with
  | some (some id) => some id
  | some none => fallback enter path norm
  | none =>
    let (noDomain, fallbackNorm) := p.domainVariants norm
    if noDomain = norm then regular enter path norm
    else do
      let avid ← enter noDomain
      if avid ≠ [] then some avid else regular enter path fallbackNorm

/-- `get_avid`; none is the recursion that does not end within `depth` calls of it. A number is taken whatever its length:
that `int` raises past 4300 digits is left to `normalizeNumber?`. -/
def getAvid : Nat → List Char → Option (List Char)
  | 0, _ => none
  | depth + 1, title =>
    let title := title.filter (· ≠ '/')
    match p.idExceptions.find? fun e => inText e.toList (p.upper title) with
    | some e => some e.toList
    | none => (p.idOf (getAvid depth) title).map fun id => normalizeNumber (p.upper id)

/-- `get_id`. -/
def getId (depth : Nat) (path : List Char) : Option (List Char) := p.idOf (p.getAvid depth) path

end AvidParser

end EmbyxManager.Core
