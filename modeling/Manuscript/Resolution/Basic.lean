import Manuscript.Document.Basic
import Manuscript.Error

/-!
# Resolvers

A resolver answers for an address with an image or an error, some time after it was called, or
never. A call that is not answered in the time allowed ends with a timeout.
-/

namespace Manuscript.Resolution

structure Reply where
  /-- The time until the answer in milliseconds, zero if it comes without waiting. -/
  latency : Nat
  /-- The answer, unless it never comes. -/
  answer : Option (Except Error ImageData)

structure Resolver where
  reply : String → Reply
  logs : Bool := false

structure Ending where
  /-- The time from the start of the call in milliseconds. -/
  after : Nat
  outcome : Except Error ImageData

/-- How a call ends that is allowed some seconds: an answer at the last moment counts. -/
def Reply.ending (reply : Reply) (url : String) (secs : Nat) : Ending :=
  match reply.answer with
  | some answer =>
    if reply.latency ≤ 1000 * secs then ⟨reply.latency, answer⟩
    else ⟨1000 * secs, .error (.imageTimeout url secs)⟩
  | none => ⟨1000 * secs, .error (.imageTimeout url secs)⟩

/-- What is told about the resolution of the images of a document. -/
inductive Event
  /-- The resolution begins, for that many addresses. -/
  | began (addresses : Nat)
  | started (url : String)
  | resolved (url : String) (image : ImageData)
  | failed (url : String) (error : Error)
  /-- All images are there. -/
  | completed (addresses : Nat)
deriving BEq, Repr

/-- The addresses for which the resolver was called, in the order of the calls. -/
def Event.calls (events : List Event) : List String :=
  events.filterMap fun
    | .started url => some url
    | _ => none

end Manuscript.Resolution
