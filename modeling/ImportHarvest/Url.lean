import ImportHarvest.Text.Pieces
import ImportHarvest.Text.Utf8
/-!
Web addresses: the server, the target and the user that a text names, read on its own or from where another address leads.

Blanks and control characters at the two ends do not count, and tabs and line breaks count nowhere. A backslash is a slash
up to the query, `.` and `..` are resolved in a path, and what follows a hash is not sent. A host is taken as it is written,
in lower case: one that is no plain ASCII, or has escapes in it, is not read, and neither is an address of another scheme
than those of the web.
-/

namespace ImportHarvest

open Text

/-- where a request goes, and the user that it is made for when one is named -/
structure Address where
  scheme : String
  /-- the host, and the port where it is not that of the scheme -/
  server : String
  /-- path and query -/
  target : String
  user : String := ""
  password : String := ""
  deriving DecidableEq, Repr

namespace Address

def origin (a : Address) : String := a.scheme ++ "://" ++ a.server

/-- whether a user is named -/
def namesUser (a : Address) : Bool := a.user ≠ "" || a.password ≠ ""

end Address

namespace Url

/-! ## Escaping -/

def upperHex (n : Nat) : Char := "0123456789ABCDEF".toList.getD n '0'

/-- an octet as a percent sign and two digits -/
def percent (b : UInt8) : List Char := ['%', upperHex (b.toNat / 16), upperHex (b.toNat % 16)]

/-- the text with the octets of each character that does not stay escaped -/
def escape (stays : Char → Bool) (cs : List Char) : List Char :=
  cs.flatMap fun c => if stays c then [c] else (utf8Of c.toString).flatMap percent

/-- a character of ASCII that can be seen -/
def isVisible (c : Char) : Bool := 0x20 < c.toNat && c.toNat < 0x7F

/-- the characters that a path may hold -/
def staysInPath (c : Char) : Bool := isVisible c && !"\"#<>?`\x7b\x7d".toList.contains c

/-- the characters that a query may hold -/
def staysInQuery (c : Char) : Bool := isVisible c && !"\"#<>'".toList.contains c

/-- the characters that a user's name or password may hold -/
def staysInUser (c : Char) : Bool := staysInPath c && !"/:;=@[\\]^|".toList.contains c

/-! ## Paths -/

/-- a dot, which may be escaped -/
def dots : List String := [".", "%2e"]

/-- a segment that stays in its directory -/
def isHere (segment : List Char) : Bool := dots.contains (String.ofList (segment.map Char.toLower))

/-- a segment that goes up -/
def isUp (segment : List Char) : Bool :=
  (dots.flatMap fun a => dots.map fun b => a ++ b).contains (String.ofList (segment.map Char.toLower))

/-- the segments of a path resolved one by one; `above` are those that were kept so far, the last in front. A path that
ends by staying or going up ends with a slash -/
def resolve (above : List (List Char)) : List (List Char) → List (List Char)
  | [] => above.reverse
  | s :: rest =>
    let last := if rest = [] then [[]] else []
    if isUp s then resolve (last ++ above.tail) rest
    else if isHere s then resolve (last ++ above) rest
    else resolve (s :: above) rest

/-- backslashes made slashes -/
def slashed (cs : List Char) : List Char := cs.map fun c => if c = '\\' then '/' else c

/-- a path that may start with a slash, resolved and escaped -/
def path (cs : List Char) : List Char :=
  let segments := match slashed cs with
    | '/' :: rest => rest
    | rest => rest
  '/' :: glue ['/'] (resolve [] ((pieces '/' segments).map (escape staysInPath)))

/-- what is sent of a query with the mark in front of it -/
def query : List Char → List Char
  | [] => []
  | _ :: cs => '?' :: escape staysInQuery cs

/-- the part of a text before a query -/
def beforeQuery (cs : List Char) : List Char := cs.takeWhile (· ≠ '?')

/-- the target that a path and a query make -/
def targetOf (cs : List Char) : String :=
  String.ofList (path (beforeQuery cs) ++ query (cs.drop (beforeQuery cs).length))

/-! ## Servers -/

/-- the schemes of the web, with their ports -/
def webPorts : List (String × Nat) := [("http", 80), ("https", 443)]

/-- whether a host may hold the character -/
def isHostChar (c : Char) : Bool := isVisible c && !"#/:<>?@[\\]^|%".toList.contains c

/-- the host at the start of a text: a name, or a number in brackets -/
def hostOf (cs : List Char) : List Char :=
  match cs with
  | '[' :: _ => cs.takeWhile (· ≠ ']') ++ (cs.dropWhile (· ≠ ']')).take 1
  | _ => cs.takeWhile (· ≠ ':')

/-- whether a host can be read -/
def isHost : List Char → Bool
  | '[' :: cs => cs.getLast? = some ']' && cs.dropLast.all fun c => c.isDigit || "abcdef:.".toList.contains c
  | cs => cs ≠ [] && cs.all isHostChar

/-- the port behind a host, if one is given -/
def port? : List Char → Option (Option Nat)
  | [] | [':'] => some none
  | ':' :: digits =>
    let n := digits.foldl (fun n d => n * 10 + (d.toNat - 48)) 0
    if digits.all Char.isDigit && n < 65536 then some (some n) else none
  | _ => none

/-- the server that a host and a port name -/
def server? (scheme : String) (cs : List Char) : Option String := do
  let host := (hostOf cs).map Char.toLower
  let port ← port? (cs.drop host.length)
  if !isHost host then none
  return String.ofList host ++ match port with
    | some n => if webPorts.lookup scheme = some n then "" else ":" ++ toString n
    | none => ""

/-- the user in front of the last at sign, and what is behind it -/
def splitUser (cs : List Char) : List Char × List Char :=
  let parts := pieces '@' cs
  (glue ['@'] parts.dropLast, parts.getLastD [])

/-- the address that what follows the slashes behind a scheme names -/
def authority? (scheme : String) (cs : List Char) : Option Address := do
  let here := cs.takeWhile fun c => !"/\\?".toList.contains c
  let (named, behind) := splitUser here
  let user := named.takeWhile (· ≠ ':')
  let server ← server? scheme behind
  return {
    scheme := scheme
    server := server
    target := targetOf (cs.drop here.length)
    user := String.ofList (escape staysInUser user)
    password := String.ofList (escape staysInUser (named.drop (user.length + 1))) }

/-! ## Addresses -/

/-- what counts in a text: not the blanks around it, no line breaks, and nothing behind a hash -/
def clean (s : String) : List Char :=
  let isOuter (c : Char) : Bool := c.toNat ≤ 0x20
  (((s.toList.dropWhile isOuter).reverse.dropWhile isOuter).reverse.filter fun c =>
    c ≠ '\t' && c ≠ '\n' && c ≠ '\r').takeWhile (· ≠ '#')

/-- the scheme that a text starts with, and what follows its colon -/
def splitScheme? (cs : List Char) : Option (String × List Char) :=
  let scheme := cs.takeWhile fun c => c.isAlphanum || "+-.".toList.contains c
  match cs.drop scheme.length with
  | ':' :: rest =>
    if scheme.head?.any Char.isAlpha then some (String.ofList (scheme.map Char.toLower), rest) else none
  | _ => none

def isSlash (c : Char) : Bool := c = '/' || c = '\\'

/-- the address behind a scheme, with any slashes in front of it -/
def behind? (scheme : String) (cs : List Char) : Option Address :=
  if (webPorts.lookup scheme).isSome then authority? scheme (cs.dropWhile isSlash) else none

/-- the address that a text names -/
def read? (s : String) : Option Address := do
  let (scheme, rest) ← splitScheme? (clean s)
  behind? scheme rest

/-- the address that a text without a scheme names, seen from another -/
def relative? (a : Address) (cs : List Char) : Option Address :=
  let here := a.target.toList
  match cs with
  | [] => some a
  | '?' :: _ => some { a with target := String.ofList (beforeQuery here ++ query cs) }
  | c :: rest =>
    if isSlash c then
      if rest.head?.any isSlash then behind? a.scheme cs else some { a with target := targetOf cs }
    else
      let directory := glue ['/'] ((pieces '/' (beforeQuery here)).dropLast ++ [[]])
      some { a with target := targetOf (directory ++ cs) }

/-- the address that a text names, seen from another -/
def readFrom? (a : Address) (s : String) : Option Address :=
  match splitScheme? (clean s) with
  | none => relative? a (clean s)
  | some (scheme, rest) =>
    if scheme = a.scheme && !((rest.take 2).all isSlash && 2 ≤ rest.length) then relative? a rest
    else behind? scheme rest

end Url

end ImportHarvest
