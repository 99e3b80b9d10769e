/-! Decimal numbers in binary: a number that is written with a dot or an exponent stands for the
nearest one of 53 binary digits, of two equally near ones for that with an even last digit. Here
only whole numbers that fit into 64 bits matter. -/

namespace BuilderMigration.Decimal

/-- The whole number nearest to a quotient, of two the even one. -/
def roundDiv (n d : Nat) : Nat :=
  let q := n / d
  let twice := 2 * (n % d)
  if twice < d then q else if d < twice then q + 1 else q + q % 2

/-- The power of two that the last of 53 binary digits of a quotient stands for; none is below
`2 ^ (-1074)`. -/
def lastPlace (n d : Nat) : Int :=
  let guess : Int := (n.log2 : Int) - d.log2
  let tooHigh : Bool := n * Nat.pow 2 (-guess).toNat < d * Nat.pow 2 guess.toNat
  max ((if tooHigh then guess - 1 else guess) - 52) (-1074)

/-- The binary number nearest to a quotient, if it is whole. -/
def nearestWhole? (n d : Nat) : Option Nat :=
  let place := lastPlace n d
  let below := Nat.pow 2 (-place).toNat
  let above := Nat.pow 2 place.toNat
  let mantissa := roundDiv (n * below) (d * above)
  if mantissa % below = 0 then some (mantissa / below * above) else none

/-- What a whole number of 64 bits with a sign stays below in magnitude. -/
def wordLimit : Nat := Nat.pow 2 63

/-- The binary number that decimal digits times a power of ten stand for, if it is whole and below
`2 ^ 63` in magnitude. Powers that decide the matter by themselves are not worked out. -/
def whole? (negative : Bool) (digits : List Char) (power : Int) : Option Int :=
  let digits := digits.dropWhile (· = '0')
  let magnitude : Int := digits.length + power
  let n := digits.foldl (fun n d => n * 10 + (d.toNat - 48)) 0
  let nearest : Option Nat :=
    if digits.isEmpty || magnitude < -400 then some 0
    else if 400 < magnitude then none
    else nearestWhole? (n * Nat.pow 10 power.toNat) (Nat.pow 10 (-power).toNat)
  nearest.bind fun m =>
    if m < wordLimit then some (if negative then -(m : Int) else m) else none

end BuilderMigration.Decimal
