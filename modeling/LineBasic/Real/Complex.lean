-- COMPLEX numbers as pairs of REALs.
import LineBasic.Real.Hypotenuse

namespace LineBasic

structure Complex where
  re : Float
  im : Float
deriving Inhabited

namespace Complex

def ofReal (x : Float) : Complex := ⟨x, 0⟩

/-- Equal parts; a part that is no number equals nothing. -/
def same (z w : Complex) : Bool := z.re == w.re && z.im == w.im

def isZero (z : Complex) : Bool := z.re == 0 && z.im == 0

def neg (z : Complex) : Complex := ⟨-z.re, -z.im⟩

def conjugate (z : Complex) : Complex := ⟨z.re, -z.im⟩

def add (z w : Complex) : Complex := ⟨z.re + w.re, z.im + w.im⟩

def sub (z w : Complex) : Complex := ⟨z.re - w.re, z.im - w.im⟩

def mul (z w : Complex) : Complex :=
  ⟨z.re * w.re - z.im * w.im, z.re * w.im + z.im * w.re⟩

def div (z w : Complex) : Complex :=
  let d := w.re * w.re + w.im * w.im
  ⟨(z.re * w.re + z.im * w.im) / d, (z.im * w.re - z.re * w.im) / d⟩

def modulus (z : Complex) : Float := Real.hypotenuse z.re z.im

def argument (z : Complex) : Float := Float.atan2 z.im z.re

def exp (z : Complex) : Complex :=
  let m := z.re.exp
  ⟨m * z.im.cos, m * z.im.sin⟩

def log (z : Complex) : Complex := ⟨z.modulus.log, z.argument⟩

/-- Zero to the power zero is one, and zero to any other power is zero. -/
def pow (z w : Complex) : Complex :=
  if z.isZero then if w.isZero then ⟨1, 0⟩ else ⟨0, 0⟩
  else (w.mul z.log).exp

def sqrt (z : Complex) : Complex :=
  let l := z.log
  exp ⟨l.re / 2, l.im / 2⟩

def sin (z : Complex) : Complex :=
  ⟨z.re.sin * z.im.cosh, z.re.cos * z.im.sinh⟩

def cos (z : Complex) : Complex :=
  ⟨z.re.cos * z.im.cosh, -(z.re.sin * z.im.sinh)⟩

end Complex

end LineBasic
