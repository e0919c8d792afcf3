import Manuscript.Error

/-!
# Computations with notes

A conversion may fail, and notes what it does on the way. The notes of a failed conversion are those
up to its failure.
-/

namespace Manuscript

inductive Note
  /-- The parser of equations was given a source. -/
  | equation (source : String)
  /-- A footnote took the place of one with the same identifier. -/
  | redefined (identifier : String)
deriving DecidableEq, Repr

/-- A result or an error, and the notes on the way to it. -/
structure Noted (α : Type) where
  notes : List Note
  result : Except Error α

namespace Noted

variable {α β : Type}

protected def pure (x : α) : Noted α :=
  ⟨[], .ok x⟩

protected def bind (m : Noted α) (f : α → Noted β) : Noted β :=
  match m.result with
  | .ok x =>
    let next := f x
    ⟨m.notes ++ next.notes, next.result⟩
  | .error e => ⟨m.notes, .error e⟩

instance : Monad Noted where
  pure := Noted.pure
  bind := Noted.bind

def note (n : Note) : Noted Unit :=
  ⟨[n], .ok ()⟩

def fail (e : Error) : Noted α :=
  ⟨[], .error e⟩

def equations (notes : List Note) : List String :=
  notes.filterMap fun
    | .equation source => some source
    | .redefined _ => none

/-- The identifiers of footnotes that were replaced, once for each time. -/
def redefinitions (notes : List Note) : List String :=
  notes.filterMap fun
    | .equation _ => none
    | .redefined identifier => some identifier

@[simp]
theorem pure_eq (x : α) : (pure x : Noted α) = ⟨[], .ok x⟩ := rfl

@[simp]
theorem bind_ok (notes : List Note) (x : α) (f : α → Noted β) :
    ((⟨notes, .ok x⟩ : Noted α) >>= f) = ⟨notes ++ (f x).notes, (f x).result⟩ := rfl

@[simp]
theorem bind_error (notes : List Note) (e : Error) (f : α → Noted β) :
    ((⟨notes, .error e⟩ : Noted α) >>= f) = ⟨notes, .error e⟩ := rfl

end Noted

end Manuscript
