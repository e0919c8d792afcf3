import Manuscript.Resolution.Basic
import Manuscript.Tree.Basic

/-!
# The resolution of images

Every address of an image is resolved once, in the order of first occurrence. At most as many calls
as the limit allows are in flight: ready to run, or waiting for their end. Ready calls run one after
the other, first come first served; when none is ready, time moves on to the next moment at which a
waiting call ends, and all calls that end at that moment are ready again. A call that ends makes room
for a new one, and the first failure ends everything.
-/

namespace Manuscript.Resolution

structure Plan where
  resolver : Resolver
  limit : Nat
  /-- How many seconds a call may take. -/
  secs : Nat

def Plan.ending (plan : Plan) (url : String) : Ending :=
  (plan.resolver.reply url).ending url plan.secs

inductive Ready
  | fresh (url : String)
  /-- The call ends now. -/
  | due (url : String)
deriving DecidableEq, Repr

structure Waiting where
  url : String
  moment : Nat
deriving DecidableEq, Repr

/-- Put a call behind those that end no later. -/
def enqueue (call : Waiting) : List Waiting → List Waiting
  | [] => [call]
  | other :: rest =>
    if call.moment < other.moment then call :: other :: rest
    else other :: enqueue call rest

theorem length_enqueue (call : Waiting) (calls : List Waiting) :
    (enqueue call calls).length = calls.length + 1 := by
  induction calls with
  | nil => rfl
  | cons other rest ih =>
    simp only [enqueue]
    split <;> simp [ih]

structure Pass where
  /-- The addresses that wait for room. -/
  pending : List String
  ready : List Ready := []
  /-- The calls that wait, in the order of their ends. -/
  waiting : List Waiting := []
  clock : Nat := 0
  images : ImageTable := .empty
  /-- What has been told about single images. -/
  events : List Event := []

structure Report where
  events : List Event
  result : Except Error ImageTable

inductive Next
  | running (pass : Pass)
  | ended (report : Report)

namespace Pass

def inFlight (pass : Pass) : Nat :=
  pass.ready.length + pass.waiting.length

/-- Make new calls ready as long as there is room for them. -/
def fill (limit : Nat) (pass : Pass) : Pass :=
  let room := limit - pass.inFlight
  { pass with
    pending := pass.pending.drop room
    ready := pass.ready ++ (pass.pending.take room).map .fresh }

def finish (plan : Plan) (url : String) (pass : Pass) : Next :=
  match (plan.ending url).outcome with
  | .ok image =>
    .running
      { pass with
        images := pass.images.insert url image
        events := pass.events ++ [.resolved url image] }
  | .error e => .ended ⟨pass.events ++ [.failed url e], .error e⟩

def start (plan : Plan) (url : String) (pass : Pass) : Next :=
  let pass := { pass with events := pass.events ++ [.started url] }
  let after := (plan.ending url).after
  if after = 0 then finish plan url pass
  else .running { pass with waiting := enqueue ⟨url, pass.clock + after⟩ pass.waiting }

def runCall (plan : Plan) (pass : Pass) : Ready → Next
  | .fresh url => start plan url pass
  | .due url => finish plan url pass

/-- Move on to a moment. All calls that end by then are ready. -/
def wake (now : Nat) (pass : Pass) : Pass :=
  { pass with
    ready := pass.ready ++ (pass.waiting.takeWhile (·.moment ≤ now)).map (.due ·.url)
    waiting := pass.waiting.dropWhile (·.moment ≤ now)
    clock := now }

/-- Run the first ready call, or move on to the next moment. -/
def advance (plan : Plan) (pass : Pass) : Next :=
  match pass.ready with
  | call :: rest => runCall plan { pass with ready := rest } call
  | [] =>
    match pass.waiting with
    | call :: _ => .running (wake call.moment pass)
    | [] => .ended ⟨pass.events, .ok pass.images⟩

def step (plan : Plan) (pass : Pass) : Next :=
  advance plan (fill plan.limit pass)

/-- How much the calls that are ready still have to do. -/
def readyWork : List Ready → Nat
  | [] => 0
  | .fresh _ :: rest => 3 + readyWork rest
  | .due _ :: rest => 1 + readyWork rest

/-- How much a resolution still has to do. -/
def work (pass : Pass) : Nat :=
  4 * pass.pending.length + readyWork pass.ready + 2 * pass.waiting.length

theorem readyWork_append (calls more : List Ready) :
    readyWork (calls ++ more) = readyWork calls + readyWork more := by
  induction calls with
  | nil => exact (Nat.zero_add _).symm
  | cons call rest ih =>
    cases call <;> simp only [List.cons_append, readyWork, ih] <;> omega

theorem readyWork_fresh (urls : List String) : readyWork (urls.map .fresh) = 3 * urls.length := by
  induction urls with
  | nil => rfl
  | cons url rest ih =>
    simp only [List.map_cons, List.length_cons, readyWork, ih]
    omega

theorem readyWork_due (calls : List Waiting) :
    readyWork (calls.map (.due ·.url)) = calls.length := by
  induction calls with
  | nil => rfl
  | cons call rest ih =>
    simp only [List.map_cons, List.length_cons, readyWork, ih]
    omega

theorem work_fill (limit : Nat) (pass : Pass) : (fill limit pass).work ≤ pass.work := by
  simp only [work, fill, readyWork_append, readyWork_fresh, List.length_drop, List.length_take]
  omega

theorem length_wake (now : Nat) (calls : List Waiting) :
    (calls.takeWhile (·.moment ≤ now)).length + (calls.dropWhile (·.moment ≤ now)).length =
      calls.length := by
  rw [← List.length_append, List.takeWhile_append_dropWhile]

/-- A call that becomes ready has less to do than one that waits. -/
theorem work_wake (now : Nat) (pass : Pass) :
    (wake now pass).work + (pass.waiting.takeWhile (·.moment ≤ now)).length = pass.work := by
  have hWaiting := length_wake now pass.waiting
  simp only [work, wake, readyWork_append, readyWork_due]
  omega

theorem work_finish {plan : Plan} {url : String} {pass next : Pass}
    (h : finish plan url pass = .running next) : next.work = pass.work := by
  unfold finish at h
  split at h
  · cases h
    rfl
  · cases h

theorem work_start {plan : Plan} {url : String} {pass next : Pass}
    (h : start plan url pass = .running next) : next.work ≤ pass.work + 2 := by
  simp only [start] at h
  split at h
  · have := work_finish h
    simp only [work] at this ⊢
    omega
  · cases h
    simp only [work, length_enqueue]
    omega

theorem work_advance {plan : Plan} {pass next : Pass} (h : advance plan pass = .running next) :
    next.work < pass.work := by
  unfold advance at h
  split at h
  · rename_i call rest hready
    cases call with
    | fresh url =>
      have := work_start h
      simp only [work, hready, readyWork] at this ⊢
      omega
    | due url =>
      have := work_finish h
      simp only [work, hready, readyWork] at this ⊢
      omega
  · split at h
    · rename_i call rest hwaiting
      cases h
      have := work_wake call.moment pass
      simp only [hwaiting, List.takeWhile_cons, Nat.le_refl, decide_true, if_true,
        List.length_cons] at this
      omega
    · cases h

theorem work_step {plan : Plan} {pass next : Pass} (h : step plan pass = .running next) :
    next.work < pass.work :=
  Nat.lt_of_lt_of_le (work_advance h) (work_fill plan.limit pass)

def run (plan : Plan) (pass : Pass) : Report :=
  match _h : step plan pass with
  | .running next => run plan next
  | .ended report => report
termination_by pass.work
decreasing_by exact work_step ‹_›

end Pass

/-- The limit of calls in flight: all of them unless a number is set, and at least one. -/
def limitOf (concurrency : Option Nat) (addresses : Nat) : Nat :=
  max 1 (concurrency.getD addresses)

def resolveAll (resolver : Resolver) (concurrency : Option Nat) (secs : Nat)
    (urls : List String) : Report :=
  let report := Pass.run ⟨resolver, limitOf concurrency urls.length, secs⟩ { pending := urls }
  match report.result with
  | .ok images =>
    ⟨.began urls.length :: report.events ++ [.completed urls.length], .ok images⟩
  | .error e => ⟨.began urls.length :: report.events, .error e⟩

/-- Resolve the images of some nodes. A resolver is needed only if there are any. -/
def resolveImages (resolver : Option Resolver) (concurrency : Option Nat) (secs : Nat)
    (nodes : List Node) : Report :=
  match Node.imageUrls nodes with
  | [] => ⟨[], .ok .empty⟩
  | url :: rest =>
    match resolver with
    | none => ⟨[], .error (.missingImageResolver (url :: rest).length)⟩
    | some resolver => resolveAll resolver concurrency secs (url :: rest).eraseDups

end Manuscript.Resolution
