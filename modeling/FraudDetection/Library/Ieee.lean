import Mathlib.Order.Lattice

/-!
# Values of a floating-point type

A floating-point value is an exact number, an infinity or not a number. Every comparison with a
value that is not a number is false.
-/

namespace FraudDetection.Library

inductive Ieee (K : Type) where
  | finite (value : K)
  | posInf
  | negInf
  | nan
  deriving DecidableEq, Repr

namespace Ieee

variable {K : Type} [LinearOrder K]

def isNaN : Ieee K → Bool
  | nan => true
  | _ => false

def isInf : Ieee K → Bool
  | posInf | negInf => true
  | _ => false

def lt : Ieee K → Ieee K → Bool
  | nan, _ | _, nan => false
  | finite a, finite b => decide (a < b)
  | negInf, negInf | posInf, _ | _, negInf => false
  | negInf, _ | _, posInf => true

def le : Ieee K → Ieee K → Bool
  | nan, _ | _, nan => false
  | finite a, finite b => decide (a ≤ b)
  | negInf, _ | _, posInf => true
  | posInf, _ | _, negInf => false

def eq : Ieee K → Ieee K → Bool
  | nan, _ | _, nan => false
  | finite a, finite b => decide (a = b)
  | posInf, posInf | negInf, negInf => true
  | _, _ => false

/-- The larger of two numbers, and positive infinity next to a value that is not a number. -/
def max : Ieee K → Ieee K → Ieee K
  | posInf, _ | _, posInf => posInf
  | nan, _ | _, nan => nan
  | negInf, b => b
  | a, negInf => a
  | finite a, finite b => if b < a then finite a else finite b

/-- The smaller of two numbers, and negative infinity next to a value that is not a number. -/
def min : Ieee K → Ieee K → Ieee K
  | negInf, _ | _, negInf => negInf
  | nan, _ | _, nan => nan
  | posInf, b => b
  | a, posInf => a
  | finite a, finite b => if a < b then finite a else finite b

def abs [Neg K] : Ieee K → Ieee K
  | finite a => finite (a ⊔ -a)
  | posInf | negInf => posInf
  | nan => nan

lemma lt_of_not_le {a b : Ieee K} (ha : a.isNaN = false) (hb : b.isNaN = false) (h : le b a = false) :
    lt a b = true := by
  cases a <;> cases b <;> simp_all [isNaN, le, lt]

lemma not_le_of_lt {a b : Ieee K} (h : lt a b = true) : le b a = false := by
  cases a <;> cases b <;> simp_all [le, lt]

end Ieee

end FraudDetection.Library
