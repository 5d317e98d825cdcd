import ImportHarvest.RemoteTree
import ImportHarvest.Text.Blank
import ImportHarvest.Url
/-!
The listing service over HTTP: what a client asks of the web, and what it makes of the answers.

A call requests an address, and follows an answer that sends it on elsewhere, a few times; its last answer counts. A token
goes with the first request of a call when it is more than blanks, and with no later one; a request without it names the
user of its address, if there is one. A token that cannot stand in a header field lets every call fail before anything is
sent. An error status ends a call whatever the body is; otherwise the body has to be complete. Of a call that fails without
an error status, the detail that is given here stands for the words of whoever made the connection.
-/

namespace ImportHarvest

open Text

/-- a request for a resource -/
structure HttpRequest where
  origin : String
  target : String
  accept : String
  userAgent : String
  authorization : Option String
  deriving DecidableEq, Repr

/-- an answer; the body is missing when the connection ended before all of it came -/
structure HttpResponse where
  status : Nat
  reason : String
  body : Option Octets
  /-- where the resource is said to be -/
  location : Option String := none
  deriving DecidableEq, Repr

/-- the web as a client finds it: how the text of an address is read, also as it is seen from another address, and what is
answered to a request for an address, whatever its header fields are. Where there is no address or no answer, it is said
why not -/
structure Web where
  read : String → Except String Address
  readFrom : Address → String → Except String Address
  answer : Address → Except String HttpResponse

/-- the web whose addresses are read as they are written, and in which these answers are given -/
def Web.answering (answer : Address → Except String HttpResponse) : Web where
  read s := (Url.read? s).elim (.error "no address") .ok
  readFrom a s := (Url.readFrom? a s).elim (.error "no address") .ok
  answer := answer

/-! ## Requests -/

def base64Digit (n : Nat) : Char :=
  "ABCDEFGHIJKLMNOPQRSTUVWXYZabcdefghijklmnopqrstuvwxyz0123456789+/".toList.getD (n % 64) '='

/-- octets in base 64, three by three -/
def base64 : Octets → List Char
  | [] => []
  | [a] => [base64Digit (a.toNat / 4), base64Digit (a.toNat * 16), '=', '=']
  | [a, b] =>
    [base64Digit (a.toNat / 4), base64Digit (a.toNat * 16 + b.toNat / 16), base64Digit (b.toNat * 4), '=']
  | a :: b :: c :: rest =>
    base64Digit (a.toNat / 4) :: base64Digit (a.toNat * 16 + b.toNat / 16) ::
      base64Digit (b.toNat * 4 + c.toNat / 64) :: base64Digit c.toNat :: base64 rest

namespace Address

/-- the authorization that an address has in itself: that of the user it names -/
def authorization (a : Address) : Option String :=
  if a.namesUser then some ("Basic " ++ String.ofList (base64 (utf8Of (a.user ++ ":" ++ a.password)))) else none

/-- the request for an address, with this authorization or else its own; a field goes without the blanks around it -/
def request (authorization : Option String) (a : Address) : HttpRequest where
  origin := a.origin
  target := a.target
  accept := "application/vnd.github+json"
  userAgent := "pipmyride/0.1.0"
  authorization := (authorization <|> a.authorization).map trimmed

end Address

/-! ## Calls of the web -/

namespace HttpResponse

/-- the answers that may say that the resource is elsewhere -/
def isRedirect (a : HttpResponse) : Bool := 300 ≤ a.status && a.status < 399

/-- the statuses with which a call goes on to where the resource is -/
def redirects : List Nat := [301, 302, 303, 307, 308]

/-- the statuses whose answers have no body -/
def hasNoBody (a : HttpResponse) : Bool := a.status = 204 || a.status = 304

end HttpResponse

/-- what comes of a call: the requests that were sent for it, and the last answer, or why there is none -/
structure Exchange where
  sent : List HttpRequest
  answer : Except String HttpResponse
  deriving Repr

namespace Web

/-- how many answers may send a call on -/
def maxRedirects : Nat := 4

/-- requests an address with this authorization; so many answers may send the call on, and later requests are made
without it -/
def exchange (web : Web) (left : Nat) (authorization : Option String) (address : Address) : Exchange :=
  if (Url.webPorts.lookup address.scheme).isNone then ⟨[], .error "unknown scheme"⟩
  else
    let request := address.request authorization
    match web.answer address with
    | .error detail => ⟨[request], .error detail⟩
    | .ok a =>
      if !a.isRedirect then ⟨[request], .ok a⟩
      else match left, a.location with
        | 0, _ => ⟨[request], .error "too many redirects"⟩
        | _ + 1, none => ⟨[request], .ok a⟩
        | left + 1, some location =>
          match web.readFrom address location with
          | .error detail => ⟨[request], .error detail⟩
          | .ok next =>
            if HttpResponse.redirects.contains a.status then
              let later := exchange web left none next
              ⟨request :: later.sent, later.answer⟩
            else ⟨[request], .ok a⟩

/-- calls the address that a text names -/
def call (web : Web) (authorization : Option String) (url : String) : Exchange :=
  match web.read url with
  | .error detail => ⟨[], .error detail⟩
  | .ok address => web.exchange maxRedirects authorization address

end Web

/-! ## The client -/

/-- a client, with the token it has -/
structure HttpClient where
  web : Web
  token : Option String

namespace HttpClient

/-- a character that a header field may hold -/
def isFieldChar (c : Char) : Bool := c = '\t' || (0x20 ≤ c.toNat && c.toNat < 0x7F)

/-- what authorizes the calls: none without a token -/
def authorization (c : HttpClient) : Option String :=
  (c.token.filter fun t => !isAllBlank t).map fun t => "token " ++ t

/-- a call of the client; it sends nothing when its token cannot be sent -/
def call (c : HttpClient) (url : String) : Exchange :=
  if c.authorization.any fun a => !a.toList.all isFieldChar then ⟨[], .error "no header field"⟩
  else c.web.call c.authorization url

/-- the last answer to a call, when it is no error -/
def get (c : HttpClient) (url : String) : Except Failure HttpResponse :=
  match (c.call url).answer with
  | .error detail => .error (.transfer url detail)
  | .ok a =>
    if 400 ≤ a.status then .error (.transfer url ("HTTP " ++ decimal a.status ++ " " ++ a.reason)) else .ok a

/-- the body that a call is answered with -/
def download (c : HttpClient) (url : String) : Except Failure Octets := do
  let a ← c.get url
  if a.hasNoBody then return []
  match a.body with
  | none => throw (.transfer url "response ended early")
  | some body => return body

/-- the entries that a call is answered with -/
def list (c : HttpClient) (url : String) : Except Failure (List Entry) := do
  match Entry.listOfBody? (← c.download url) with
  | some entries => return entries
  | none => throw (.transfer url "no listing")

/-- the client as a listing service -/
def api (c : HttpClient) : ContentsApi := ⟨c.list, c.download⟩

/-- the requests that are sent for these calls -/
def sent (c : HttpClient) (calls : List Request) : List HttpRequest := calls.flatMap fun r => (c.call r.url).sent

end HttpClient

end ImportHarvest
