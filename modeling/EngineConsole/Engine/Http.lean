import EngineConsole.Engine.Address
import EngineConsole.Engine.Request
import EngineConsole.Text.Blank

/-!
# The engine's web interface

How a request is sent to a server and what becomes of its response. The status decides before the
body is looked at: outside the two hundreds a request is refused, with the body as the reason.
-/

set_option autoImplicit false

namespace EngineConsole.Http

/-- The address requests are sent to: without slashes at its end, so that paths can follow. -/
def baseUrl (url : String) : String :=
  String.ofList (url.toList.reverse.dropWhile (· == '/')).reverse

structure Sent where
  method : String
  path : String
  contentType : Option String
  body : String
  deriving Repr, DecidableEq

/-- What is sent for a request to an address that goes on after the server's name with a text; none
if no server can be at that address. -/
def sent (text : String) (r : Request) : Option Sent :=
  (Address.target? (baseUrl text ++ r.endpoint.path)).map fun path =>
    match r with
    | .loadConfig => ⟨"GET", path, none, ""⟩
    | .saveConfig submitted => ⟨"POST", path, some "application/json", submitted.compact⟩
    | .fetchStats => ⟨"GET", path, none, ""⟩
    | .clearStats => ⟨"POST", path, none, ""⟩
    | .start => ⟨"POST", path, none, ""⟩
    | .stop => ⟨"POST", path, none, ""⟩
    | .askStatus => ⟨"GET", path, none, ""⟩

/-- A response that arrived in full. -/
structure Response where
  status : Nat
  body : List UInt8
  deriving Repr, DecidableEq

/-- What arrives when a server sends one status and one body, in full or not. An interim status only
announces a response, and a status has three digits; switching protocols, no content and not
modified have no body. -/
def arrived (status : Nat) (body : List UInt8) (isFull : Bool) : Except String Response :=
  if (status < 200 ∧ status ≠ 101) ∨ 999 < status then .error "the response is missing"
  else if status = 101 ∨ status = 204 ∨ status = 304 then .ok ⟨status, []⟩
  else if isFull then .ok ⟨status, body⟩
  else .error "the body is cut off"

def isSuccess (status : Nat) : Bool :=
  200 ≤ status && status ≤ 299

def outcome (r : Request) (response : Except String Response) : Completion :=
  match response with
  | .error reason => r.failed (.unreachable r.endpoint.path reason)
  | .ok response =>
    if isSuccess response.status then r.answered (Text.decode response.body)
    else
      let reason := Text.trimmed (Text.decodeLossy response.body)
      r.failed (.refused r.endpoint.path response.status reason)

end EngineConsole.Http
