import Manuscript.Conversion.Run

/-!
# Reports of the command line

What is told on the standard error output: how many images were resolved, a summary of a success,
and for a failure what was tried and the causes one below the other.
-/

namespace Manuscript.Cli

def green (s : String) : String :=
  s!"\x1b[32m{s}\x1b[0m"

def bold (s : String) : String :=
  s!"\x1b[1m{s}\x1b[0m"

/-- A failure: what was tried, and why it failed. -/
structure Failure where
  attempt : String
  causes : List String
deriving DecidableEq, Repr

namespace Failure

def causesOf (e : Error) : List String :=
  match e with
  | .outputWriteFailed _ cause => [e.message, cause]
  | e => [e.message]

def ofError (attempt : String) (e : Error) : Failure :=
  ⟨attempt, causesOf e⟩

/-- A text behind a mark, with its further lines as far in as the first one. -/
def hung (mark : String) (s : String) : String :=
  let margin := String.ofList ('\n' :: List.replicate mark.length ' ')
  mark ++ String.intercalate margin (s.splitOn "\n")

/-- The causes, with numbers if there are several. -/
def listed : List String → List String
  | [cause] => [hung "    " cause]
  | causes => causes.zipIdx.map fun (cause, i) => hung s!"    {i}: " cause

def text (failure : Failure) : String :=
  if failure.causes.isEmpty then s!"Error: {failure.attempt}\n"
  else
    s!"Error: {failure.attempt}\n\nCaused by:\n" ++
      String.intercalate "\n" (listed failure.causes) ++ "\n"

end Failure

inductive Line
  | imagesResolved (count : Nat)
  | summary (stats : Stats) (path : Option String)
  | failure (report : Failure)
deriving BEq, Repr

/-- The text of a line that is written some milliseconds after the beginning. -/
def Line.text (ms : Nat) : Line → String
  | .imagesResolved count => green "✔" ++ s!" {bold (toString count)} images resolved\n"
  | .summary stats path =>
    green "✔" ++
      s!"  {stats.blocks} blocks  {stats.footnotes} footnotes  {stats.images} images  {ms}ms" ++
      (match path with
        | some path => s!"  →  {bold path}"
        | none => "") ++ "\n"
  | .failure report => report.text

end Manuscript.Cli
