import LuaTT.Socket.Http

/-! `url.lua`: URLs and their parts, paths and their segments, and URLs relative to others. A pattern of the
source that ends a part at a character is a cut at that character. -/
namespace LuaTT.Url
open Lua Http
set_option autoImplicit false

/-! ## Escaped characters -/

def hexDigit (n : ℕ) : UInt8 := (if n < 10 then 48 + n else 87 + n).toUInt8

/-- `string.format("%%%02x", string.byte(c))`. -/
def escaped (c : UInt8) : Bytes := [37, hexDigit (c.toNat / 16), hexDigit (c.toNat % 16)]

/-- A substitution that keeps some characters and escapes the others. -/
def escapeUnless (keep : UInt8 → Bool) (s : Bytes) : Bytes := s.flatMap fun c => if keep c then [c] else escaped c

/-- The set `[A-Za-z0-9_]`. -/
def isWord (c : UInt8) : Bool :=
  (65 ≤ c && c ≤ 90) || (97 ≤ c && c ≤ 122) || ljCharIsdigit c || c == 95

def escape (s : Bytes) : Bytes := escapeUnless isWord s

/-- These are allowed within a path segment, along with the set above. -/
def segmentSet : Bytes := [45, 95, 46, 33, 126, 42, 39, 40, 41, 58, 64, 38, 61, 43, 36, 44]

def protectSegment (s : Bytes) : Bytes := escapeUnless (fun c => isWord c || segmentSet.contains c) s

/-- Every `%(%x%x)` becomes the character of that number. -/
def unescape : Bytes → Bytes
  | 37 :: a :: b :: s =>
    if ljCharIsxdigit a && ljCharIsxdigit b then ((tonumber16 [a, b]).getD 0).toUInt8 :: unescape s
    else 37 :: unescape (a :: b :: s)
  | c :: s => c :: unescape s
  | [] => []

/-! ## Paths -/

/-- The text between the slashes, where the first and the last piece may be empty. -/
def pieces : Bytes → List Bytes
  | [] => [[]]
  | c :: s => if c = 47 then [] :: pieces s else (pieces s).modifyHead (c :: ·)

structure Path where
  segments : List Bytes
  isAbsolute : Bool
  isDirectory : Bool
deriving DecidableEq

/-- The segments are the matches of `([^/]+)`. -/
def parsePath (path : Bytes) : Path where
  segments := ((pieces path).filter (· ≠ [])).map unescape
  isAbsolute := path.head? = some 47
  isDirectory := path.getLast? = some 47

def joined (slash : Bool) : List Bytes → Bytes
  | [] => []
  | [s] => s ++ if slash then [47] else []
  | s :: t :: rest => s ++ 47 :: joined slash (t :: rest)

/-- The second argument says whether the segments are put in as they are. -/
def buildPath (parsed : Path) (raw : Bool) : Bytes :=
  (if parsed.isAbsolute then [47] else []) ++
    joined parsed.isDirectory (if raw then parsed.segments else parsed.segments.map protectSegment)

/-! ## Parts of a URL -/

/-- A text up to the first such character, and what follows it. -/
def cut (c : UInt8) (s : Bytes) : Bytes × Option Bytes :=
  (s.takeWhile (· ≠ c), (s.dropWhile (· ≠ c)).tail?)

/-- A text up to the last such character, and what follows it. -/
def cutLast (c : UInt8) (s : Bytes) : Bytes × Option Bytes :=
  match cut c s.reverse with
  | (after, some before) => (before.reverse, some after.reverse)
  | (_, none) => (s, none)

def isalnum (c : UInt8) : Bool := (65 ≤ c && c ≤ 90) || (97 ≤ c && c ≤ 122) || ljCharIsdigit c

/-- The set `[%w%+%-%.]`. -/
def isSchemeByte (c : UInt8) : Bool := isalnum c || c == 43 || c == 45 || c == 46

/-- The pattern `^([%w][%w%+%-%.]*)%:`. -/
def getScheme (url : Bytes) : Bytes × Option Bytes :=
  match url.dropWhile isSchemeByte with
  | 58 :: rest => if url.head?.any isalnum then (rest, some (url.takeWhile isSchemeByte)) else (url, none)
  | _ => (url, none)

/-- The pattern `^//([^/]*)`. -/
def getAuthority (url : Bytes) : Bytes × Option Bytes :=
  match url with
  | 47 :: 47 :: rest => (rest.dropWhile (· ≠ 47), some (rest.takeWhile (· ≠ 47)))
  | _ => (url, none)

structure Parsed where
  scheme : Option Bytes := none
  authority : Option Bytes := none
  userinfo : Option Bytes := none
  user : Option Bytes := none
  password : Option Bytes := none
  host : Option Bytes := none
  port : Option Bytes := none
  path : Option Bytes := none
  params : Option Bytes := none
  query : Option Bytes := none
  fragment : Option Bytes := none
deriving DecidableEq

def parseUserinfo (parsed : Parsed) (userinfo : Bytes) : Parsed :=
  let (user, password) := cutLast 58 userinfo
  { parsed with user := some user, password := password.or parsed.password }

def parseAuthority (parsed : Parsed) (authority : Bytes) : Parsed :=
  let (authority, userinfo) := match cut 64 authority with
    | (userinfo, some authority) => (authority, some userinfo)
    | (authority, none) => (authority, parsed.userinfo)
  let (authority, port) := cutLast 58 authority
  let host := if authority = [] then parsed.host else some authority
  let parsed := { parsed with userinfo := userinfo, port := port.or parsed.port, host := host }
  match userinfo with
  | none => parsed
  | some userinfo => parseUserinfo parsed userinfo

def parse (url : Bytes) (default : Parsed) : Option Parsed :=
  if url = [] then none
  else
    let (url, fragment) := cut 35 url
    let (url, scheme) := getScheme url
    let (url, authority) := getAuthority url
    let (url, query) := cut 63 url
    let (url, params) := cut 59 url
    let path := if url = [] then none else some url
    let parsed := { default with
      fragment := fragment.or default.fragment
      scheme := scheme.or default.scheme
      authority := authority.or default.authority
      query := query.or default.query
      params := params.or default.params
      path := path.or default.path }
    some (match parsed.authority with
      | none => parsed
      | some authority => parseAuthority parsed authority)

/-- A part behind its separator, if there is one. -/
def behind (c : UInt8) : Option Bytes → Bytes
  | some s => c :: s
  | none => []

def buildAuthority (parsed : Parsed) : Option Bytes :=
  match parsed.host with
  | none => parsed.authority
  | some host =>
    let authority := host ++ behind 58 parsed.port
    let userinfo := match parsed.user with
      | some user => some (user ++ behind 58 parsed.password)
      | none => parsed.userinfo
    match userinfo with
    | some userinfo => some (userinfo ++ 64 :: authority)
    | none => some authority

def build (parsed : Parsed) : Bytes :=
  let url := buildPath (parsePath (parsed.path.getD [])) false
  let url := url ++ behind 59 parsed.params ++ behind 63 parsed.query
  let url := match buildAuthority parsed with
    | some authority => 47 :: 47 :: authority ++ url
    | none => url
  let url := match parsed.scheme with
    | some scheme => scheme ++ 58 :: url
    | none => url
  url ++ behind 35 parsed.fragment

/-! ## Relative URLs -/

/-- The pieces of a path that a slash follows. -/
def directories (path : Bytes) : List Bytes := (pieces path).dropLast

/-- What follows the last slash. -/
def lastPiece (path : Bytes) : Bytes := (pieces path).getLastD []

/-- The substitutions of `([^/]*%./)` and `/%.$`. -/
def dropDots (dirs : List Bytes) (last : Bytes) : List Bytes × Bytes :=
  let dirs := dirs.filter (· ≠ [46])
  (dirs, if last = [46] ∧ dirs ≠ [] then [] else last)

/-- One substitution of `([^/]*/%.%./)`: a pair stays where both are `..`, and is passed over as a whole. -/
def reducePass : List Bytes → List Bytes
  | s :: t :: rest =>
    if t = [46, 46] then if s = [46, 46] then s :: t :: reducePass rest else reducePass rest
    else s :: reducePass (t :: rest)
  | dirs => dirs

/-- The substitution is made until it changes nothing. -/
def reduceLoop : ℕ → List Bytes → Option (List Bytes)
  | 0, _ => none
  | fuel + 1, dirs => if reducePass dirs = dirs then some dirs else reduceLoop fuel (reducePass dirs)

/-- The substitution of `([^/]*/%.%.)$`, and the path again as text. -/
def finishPath (dirs : List Bytes) (last : Bytes) : Bytes :=
  let (dirs, last) :=
    if last = [46, 46] ∧ dirs.getLast?.any (· ≠ [46, 46]) then (dirs.dropLast, []) else (dirs, last)
  dirs.flatMap (· ++ [47]) ++ last

def absolutePath (fuel : ℕ) (basePath relativePath : Bytes) : Option Bytes :=
  if relativePath.head? = some 47 then some relativePath
  else
    let path := dropDots (directories basePath ++ directories relativePath) (lastPiece relativePath)
    (reduceLoop fuel path.1).map fun dirs => finishPath dirs path.2

/-- The base URL is a text or a table. -/
inductive Base
  | text (url : Bytes)
  | table (parsed : Parsed)

def Base.parsed : Base → Option Parsed
  | .text url => parse url {}
  | .table parsed => some parsed

def Base.url : Base → Bytes
  | .text url => url
  | .table parsed => build parsed

/-- What the relative URL leaves open is taken from the base. -/
def inherit (fuel : ℕ) (base relative : Parsed) : Option Parsed :=
  let relative := { relative with scheme := base.scheme }
  if relative.authority.isSome then some relative
  else
    let relative := { relative with authority := base.authority }
    match relative.path with
    | some path => (absolutePath fuel (base.path.getD []) path).map fun path => { relative with path := some path }
    | none =>
      let relative := { relative with path := base.path }
      if relative.params.isSome then some relative
      else
        let relative := { relative with params := base.params }
        if relative.query.isSome then some relative else some { relative with query := base.query }

def absolute (fuel : ℕ) (base : Base) (relativeUrl : Bytes) : Option Bytes :=
  match base.parsed, parse relativeUrl {} with
  | none, _ => some relativeUrl
  | some _, none => some base.url
  | some baseParsed, some relative =>
    if relative.scheme.isSome then some relativeUrl else (inherit fuel baseParsed relative).map build

end LuaTT.Url
