/-!
# Shortest decimals

A finite double is `m · 2 ^ q`. The reals that round to it form an interval whose ends belong to
it when `m` is even. Its shortest decimal is the point of the coarsest grid of powers of ten that
lies in the interval, and of two such points the nearer one.
-/

namespace Manuscript.Text

/-- A positive double as `mantissa · 2 ^ exponent`. `atBinade` marks the least mantissa of its
binade, below which the next double is half as far away. -/
structure Binary where
  mantissa : Nat
  exponent : Int
  atBinade : Bool

namespace Binary

def signBit : Nat := 0x8000000000000000

/-- The least mantissa of a double that is not subnormal. -/
def leastMantissa : Nat := 0x10000000000000

def ofFloat (x : Float) : Binary :=
  let bits := x.toBits.toNat % signBit
  let field := bits / leastMantissa
  let fraction := bits % leastMantissa
  if field = 0 then ⟨fraction, -1074, false⟩
  else ⟨leastMantissa + fraction, Int.ofNat field - 1075, fraction = 0 && field != 1⟩

/-- The multiple of `10 ^ p` next to the value that rounds to it, if there is one. -/
def onGrid? (b : Binary) (p : Int) : Option Nat :=
  let q := b.exponent - 2
  let scale := Nat.pow 2 q.toNat * Nat.pow 10 (-p).toNat
  let unit := Nat.pow 2 (-q).toNat * Nat.pow 10 p.toNat
  let value := 4 * b.mantissa * scale
  let above := (4 * b.mantissa + 2) * scale
  let below := (4 * b.mantissa - (if b.atBinade then 1 else 2)) * scale
  let rounds (c : Nat) : Bool :=
    if b.mantissa % 2 = 0 then below ≤ c * unit && c * unit ≤ above
    else below < c * unit && c * unit < above
  let floor := value / unit
  match 0 < floor && rounds floor, rounds (floor + 1) with
  | true, true => some (if value - floor * unit ≤ (floor + 1) * unit - value then floor else floor + 1)
  | true, false => some floor
  | false, true => some (floor + 1)
  | false, false => none

/-- The shortest decimal, as an integer and a power of ten. -/
def shortest (b : Binary) : Nat × Int :=
  let grids := (List.range 650).map fun i : Nat => 309 - Int.ofNat i
  (grids.findSome? fun p => (b.onGrid? p).map (·, p)).getD (0, 0)

end Binary

/-- The digits of a decimal `n · 10 ^ p` with a point: positional where the point falls within
the first sixteen places or at most four zeros follow it, otherwise one digit before the point and
an exponent. -/
def pointed (n : Nat) (p : Int) : List Char :=
  let digits := Nat.toDigits 10 n
  let point := Int.ofNat digits.length + p
  if 0 ≤ p && point ≤ 16 then digits ++ List.replicate p.toNat '0' ++ ['.', '0']
  else if 0 < point && point ≤ 16 then
    digits.take point.toNat ++ '.' :: digits.drop point.toNat
  else if -5 < point && point ≤ 0 then
    '0' :: '.' :: List.replicate (-point).toNat '0' ++ digits
  else
    let exponent := (toString (point - 1)).toList
    match digits with
    | [d] => d :: 'e' :: exponent
    | d :: ds => d :: '.' :: ds ++ 'e' :: exponent
    | [] => []

/-- The text of a finite double, always with a point or an exponent. -/
def floatText (x : Float) : String :=
  let sign := if Binary.signBit ≤ x.toBits.toNat then ['-'] else []
  let magnitude := Binary.ofFloat x
  String.ofList (sign ++
    if magnitude.mantissa = 0 then ['0', '.', '0']
    else
      let (n, p) := magnitude.shortest
      pointed n p)

end Manuscript.Text
