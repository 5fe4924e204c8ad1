import FilterForest.Number.Power

/-!
# Binary64 numbers

A finite number is a sign and a magnitude, and a magnitude is a whole multiple of
`2 ^ (-1074)`, the least positive number of the format. Sums, products and quotients are taken
exactly on the multiples and rounded once, to the nearest representable multiple and to the even
one of two equally near. The multiples are natural numbers of any size, so nothing is lost before
the rounding.
-/

namespace FilterForest

namespace Magnitude

/-- Multiples of the least positive number in one. -/
def unit : Nat := twoTo 1074

/-- Multiples of the least positive number in `2 ^ 1024`, where the format ends. -/
def ceiling : Nat := twoTo 2098

theorem unit_pos : 0 < unit := twoTo_pos _

theorem ceiling_pos : 0 < ceiling := twoTo_pos _

end Magnitude

/-- The multiples of `2 ^ (-1074)` that lie below `2 ^ 1024` and have at most 53 significant
bits. -/
def Representable (units : Nat) : Prop :=
  units < Magnitude.ceiling ∧ twoTo (units.log2 - 52) ∣ units

instance (units : Nat) : Decidable (Representable units) :=
  inferInstanceAs (Decidable (_ ∧ _))

theorem representable_mul_twoTo {r s : Nat} (hr : r ≤ twoTo 53)
    (h : r * twoTo s < Magnitude.ceiling) : Representable (r * twoTo s) := by
  refine ⟨h, ?_⟩
  rcases Nat.lt_or_eq_of_le hr with hlt | rfl
  · rcases Nat.eq_zero_or_pos r with rfl | hpos
    · rw [Nat.zero_mul]
      exact Nat.dvd_zero _
    · have hne : r * twoTo s ≠ 0 := Nat.ne_of_gt (Nat.mul_pos hpos (twoTo_pos s))
      have hbits : (r * twoTo s).log2 < 53 + s := by
        rw [log2_lt_iff hne, twoTo_add]
        exact Nat.mul_lt_mul_of_pos_right hlt (twoTo_pos s)
      exact Nat.dvd_trans (twoTo_dvd_twoTo (by omega)) (Nat.dvd_mul_left _ _)
  · rw [← twoTo_add, log2_twoTo]
    exact twoTo_dvd_twoTo (by omega)

/-- The size of a finite number, in multiples of `2 ^ (-1074)`. -/
structure Magnitude where
  units : Nat
  representable : Representable units
deriving DecidableEq

namespace Magnitude

def zero : Magnitude := ⟨0, ceiling_pos, Nat.dvd_zero _⟩

/-- The whole number nearest to a quotient, the even one of two. -/
def roundQuotient (num den : Nat) : Nat :=
  let whole := num / den
  let rest := 2 * (num % den)
  if rest < den ∨ (rest = den ∧ whole % 2 = 0) then whole else whole + 1

theorem roundQuotient_le_succ (num den : Nat) : roundQuotient num den ≤ num / den + 1 := by
  unfold roundQuotient
  simp only
  split <;> omega

theorem roundQuotient_le {num den s : Nat} (h : (num / den).log2 ≤ s + 52) :
    roundQuotient num (den * twoTo s) ≤ twoTo 53 := by
  have hsmall : num / (den * twoTo s) < twoTo 53 := by
    rw [← Nat.div_div_eq_div_mul]
    refine Nat.div_lt_of_lt_mul ?_
    rw [← twoTo_add]
    exact Nat.lt_of_lt_of_le (lt_twoTo_log2_succ _) (twoTo_le_twoTo (by omega))
  exact Nat.le_trans (roundQuotient_le_succ _ _) hsmall

/-- The magnitude nearest to `num / den` multiples, the even one of two. None when the nearest
number with 53 significant bits is `2 ^ 1024` or more. -/
def nearest? (num den : Nat) : Option Magnitude :=
  let spare := (num / den).log2 - 52
  let kept := roundQuotient num (den * twoTo spare)
  if h : kept * twoTo spare < ceiling then
    some ⟨kept * twoTo spare, representable_mul_twoTo (roundQuotient_le (by omega)) h⟩
  else
    none

end Magnitude

inductive Binary64
  | finite (negative : Bool) (magnitude : Magnitude)
  | infinite (negative : Bool)
  | nan
deriving DecidableEq

namespace Binary64

def zero : Binary64 := .finite false .zero

def isFinite : Binary64 → Bool
  | finite _ _ => true
  | infinite _ | nan => false

/-- The number nearest to `num / den` multiples of the least positive number. -/
def ofQuotient (negative : Bool) (num den : Nat) : Binary64 :=
  match Magnitude.nearest? num den with
  | some m => finite negative m
  | none => infinite negative

def ofInt (n : Int) : Binary64 := ofQuotient (n < 0) (n.natAbs * Magnitude.unit) 1

/-- Equality of values: the two zeros are equal, and NaN equals nothing. -/
def same : Binary64 → Binary64 → Bool
  | finite n m, finite n' m' => m = m' && (n = n' || m = .zero)
  | infinite n, infinite n' => n = n'
  | _, _ => false

def neg : Binary64 → Binary64
  | finite negative m => finite (!negative) m
  | infinite negative => infinite (!negative)
  | nan => nan

instance : Neg Binary64 := ⟨neg⟩

/-- A finite number in multiples of the least positive number, with its sign. -/
def signedUnits (negative : Bool) (m : Magnitude) : Int :=
  if negative then -(m.units : Int) else m.units

/-- A sum of zero has a negative sign only when both summands have. -/
def add : Binary64 → Binary64 → Binary64
  | finite n m, finite n' m' =>
    let sum := signedUnits n m + signedUnits n' m'
    if sum = 0 then finite (n && n') .zero else ofQuotient (sum < 0) sum.natAbs 1
  | infinite n, infinite n' => if n = n' then infinite n else nan
  | infinite n, finite _ _ | finite _ _, infinite n => infinite n
  | nan, _ | _, nan => nan

instance : Add Binary64 := ⟨add⟩

def mul : Binary64 → Binary64 → Binary64
  | finite n m, finite n' m' => ofQuotient (n != n') (m.units * m'.units) Magnitude.unit
  | infinite n, infinite n' => infinite (n != n')
  | infinite n, finite n' m | finite n m, infinite n' =>
    if m = .zero then nan else infinite (n != n')
  | nan, _ | _, nan => nan

instance : Mul Binary64 := ⟨mul⟩

def div : Binary64 → Binary64 → Binary64
  | finite n m, finite n' m' =>
    if m' = .zero then (if m = .zero then nan else infinite (n != n'))
    else ofQuotient (n != n') (m.units * Magnitude.unit) m'.units
  | infinite n, finite n' _ => infinite (n != n')
  | finite n _, infinite n' => finite (n != n') .zero
  | infinite _, infinite _ => nan
  | nan, _ | _, nan => nan

instance : Div Binary64 := ⟨div⟩

/-- The greatest whole number up to which the format holds every whole number and its
successor. -/
def greatestSafe : Nat := twoTo 53 - 1

/-- The value as an integer, when it is whole and at most `greatestSafe` in size. -/
def safeInt? : Binary64 → Option Int
  | finite negative m =>
    let whole := m.units / Magnitude.unit
    if m.units % Magnitude.unit = 0 ∧ whole ≤ greatestSafe then
      some (if negative then -(whole : Int) else whole)
    else
      none
  | infinite _ | nan => none

end Binary64
end FilterForest
