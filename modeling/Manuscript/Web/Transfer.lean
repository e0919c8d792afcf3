import Manuscript.Error
import Manuscript.Web.Url

/-!
# Transfers

What comes of a request for an address of the web. Only an answer of success with a whole body gives
anything.
-/

namespace Manuscript.Web

inductive Transfer
  | unanswered
  | timedOut
  /-- An answer with its status, and its body unless that breaks off. -/
  | answered (status : Nat) (body : Option (List UInt8))
deriving DecidableEq, Repr

/-- What answers requests, by address. -/
abbrev Network := Url → Transfer

/-- The phrases for the statuses that are no success. -/
def phrases : List (Nat × String) := [
  (100, "Continue"),
  (101, "Switching Protocols"),
  (102, "Processing"),
  (300, "Multiple Choices"),
  (301, "Moved Permanently"),
  (302, "Found"),
  (303, "See Other"),
  (304, "Not Modified"),
  (305, "Use Proxy"),
  (307, "Temporary Redirect"),
  (308, "Permanent Redirect"),
  (400, "Bad Request"),
  (401, "Unauthorized"),
  (402, "Payment Required"),
  (403, "Forbidden"),
  (404, "Not Found"),
  (405, "Method Not Allowed"),
  (406, "Not Acceptable"),
  (407, "Proxy Authentication Required"),
  (408, "Request Timeout"),
  (409, "Conflict"),
  (410, "Gone"),
  (411, "Length Required"),
  (412, "Precondition Failed"),
  (413, "Payload Too Large"),
  (414, "URI Too Long"),
  (415, "Unsupported Media Type"),
  (416, "Range Not Satisfiable"),
  (417, "Expectation Failed"),
  (418, "I'm a teapot"),
  (421, "Misdirected Request"),
  (422, "Unprocessable Entity"),
  (423, "Locked"),
  (424, "Failed Dependency"),
  (426, "Upgrade Required"),
  (428, "Precondition Required"),
  (429, "Too Many Requests"),
  (431, "Request Header Fields Too Large"),
  (451, "Unavailable For Legal Reasons"),
  (500, "Internal Server Error"),
  (501, "Not Implemented"),
  (502, "Bad Gateway"),
  (503, "Service Unavailable"),
  (504, "Gateway Timeout"),
  (505, "HTTP Version Not Supported"),
  (506, "Variant Also Negotiates"),
  (507, "Insufficient Storage"),
  (508, "Loop Detected"),
  (510, "Not Extended"),
  (511, "Network Authentication Required")]

def phrase (status : Nat) : String :=
  (phrases.lookup status).getD "<unknown status code>"

def isWebAddress (url : String) : Bool :=
  url.startsWith "http://" || url.startsWith "https://"

/-- Fetch what is at an address, in the seconds allowed. -/
def fetch (network : Network) (secs : Nat) (url : String) : Except Error (List UInt8) :=
  let failed (reason : String) : Except Error (List UInt8) :=
    .error (.imageResolveFailed url reason)
  match Url.ofText? url with
  | none => failed "builder error"
  | some address =>
    match network address with
    | .unanswered => failed s!"error sending request for url ({address.text})"
    | .timedOut => .error (.imageTimeout url secs)
    | .answered status body =>
      if 200 ≤ status ∧ status < 300 then
        match body with
        | some bytes => .ok bytes
        | none => failed "error decoding response body"
      else failed s!"HTTP {status} {phrase status}"

end Manuscript.Web
