import FilterForest.Number.Decimal

/-!
# The shortest decimal of a magnitude

For one digit, two digits and so on, the two decimals of that many digits on either side of a
magnitude are rounded back. The first number of digits for which one of them returns to the
magnitude is the least with which any decimal does, because the decimals that return to it form
an interval around it. Of two that return, the nearer is taken. Seventeen digits are always
enough; the exact decimal stands behind them so that the answer rounds back in any case.
-/

namespace FilterForest
namespace Decimal

/-- Which of two equally near decimals is taken. -/
inductive Tie
  | upper
  | even
deriving DecidableEq

def Tie.takesLower (tie : Tie) (lower : Nat) : Bool :=
  match tie with
  | upper => false
  | even => lower % 2 = 0

def roundsTo (d : Decimal) (m : Magnitude) : Bool := d.magnitude? = some m

/-- Every magnitude but zero has more than seventeen digits before the point once it is multiplied
by `10 ^ shift`. -/
def shift : Nat := 400

/-- The whole part of a magnitude times `10 ^ shift`. -/
def shifted (m : Magnitude) : Nat := m.units * tenTo shift / Magnitude.unit

/-- The better of the two decimals `lower` and `lower + 1` times `10 ^ (cut - shift)` on either side
of a magnitude, if one of them rounds back to it. -/
def nearer? (tie : Tie) (m : Magnitude) (cut lower : Nat) : Option Decimal :=
  let exponent := (cut : Int) - shift
  let below := (⟨lower, exponent⟩ : Decimal).normal
  let above := (⟨lower + 1, exponent⟩ : Decimal).normal
  match below.roundsTo m, above.roundsTo m with
  | true, true =>
    let value := 2 * m.units * tenTo shift
    let middle := (2 * lower + 1) * tenTo cut * Magnitude.unit
    if value < middle ∨ (value = middle ∧ tie.takesLower lower) then some below else some above
  | true, false => some below
  | false, true => some above
  | false, false => none

theorem roundsTo_of_nearer? {tie : Tie} {m : Magnitude} {cut lower : Nat} {d : Decimal}
    (h : nearer? tie m cut lower = some d) : d.roundsTo m = true := by
  simp only [nearer?] at h
  split at h
  · next hbelow habove =>
    split at h
    · exact Option.some.inj h ▸ hbelow
    · exact Option.some.inj h ▸ habove
  · next hbelow _ => exact Option.some.inj h ▸ hbelow
  · next _ habove => exact Option.some.inj h ▸ habove
  · nomatch h

/-- The first decimal with at most seventeen digits that rounds back to a magnitude, of those next
to it. -/
def search? (tie : Tie) (m : Magnitude) : Option Decimal :=
  let whole := shifted m
  let size := (digits whole).length
  (List.range' 1 17).findSome? fun count =>
    nearer? tie m (size - count) (whole / tenTo (size - count))

theorem roundsTo_of_search? {tie : Tie} {m : Magnitude} {d : Decimal}
    (h : search? tie m = some d) : d.roundsTo m = true := by
  obtain ⟨_, _, hnear⟩ := List.exists_of_findSome?_eq_some h
  exact roundsTo_of_nearer? hnear

/-- A magnitude as a decimal without any rounding. -/
def exact (m : Magnitude) : Decimal := ⟨m.units * Nat.pow 5 1074, -1074⟩

/-- The decimal with the fewest digits that rounds to a magnitude. -/
def shortest (tie : Tie) (m : Magnitude) : Decimal :=
  if m = .zero then ⟨0, 0⟩ else (search? tie m).getD (exact m)

end Decimal
end FilterForest
