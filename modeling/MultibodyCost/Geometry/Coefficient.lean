import MultibodyCost.Scalar

/-!
# Trigonometric coefficients of the rotation Jacobians

Each coefficient is a function of the rotation angle with a removable singularity at zero. It has
a closed form (`…Closed`) and, for angles below a threshold where the closed form cancels, the
first terms of its series (`…Series`, a function of the squared angle). The choice between the two
is made here and nowhere else.
-/

namespace MultibodyCost.Coefficient

variable {α : Type} [Elementary α]

open Elementary

/-- Below this angle the coefficients of the rotation Jacobians are taken from their series. -/
def smallAngle : α := 1e-4

/-- Below this angle the coupling coefficients are taken from their series; their closed forms
cancel up to fourth order in the angle. -/
def smallAngleCoupling : α := 1e-2

/-- The pair `(1 - cos θ) / θ²` and `(θ - sin θ) / θ³`. -/
def expClosed (θ : α) : α × α :=
  let t2 := θ * θ
  ((1 - cos θ) / t2, (θ - sin θ) / (t2 * θ))

def expSeries (t2 : α) : α × α := (0.5 - t2 / 24.0, 1.0 / 6.0 - t2 / 120.0)

/-- The coefficients of the skew matrix and of its square in the Jacobians of the exponential. -/
def exp (θ : α) : α × α := if θ < smallAngle then expSeries (θ * θ) else expClosed θ

def logClosed (θ : α) : α × α :=
  let ratio := sin θ / (1 - cos θ)
  (θ * ratio / 2.0, 1 / (θ * θ) - ratio / (2.0 * θ))

def logSeries (t2 : α) : α × α :=
  (1 - t2 / 12.0 - t2 * t2 / 720.0, 1.0 / 12.0 + t2 / 720.0)

/-- The coefficients of the identity and of the dyad in the Jacobian of the logarithm. -/
def log (θ : α) : α × α := if θ < smallAngle then logSeries (θ * θ) else logClosed θ

def inverseLeftClosed (θ : α) : α := (1 - θ * sin θ / (2.0 * (1 - cos θ))) / (θ * θ)

def inverseLeftSeries (t2 : α) : α := 1.0 / 12.0 + t2 / 720.0

def inverseLeft (θ : α) : α :=
  if θ < smallAngle then inverseLeftSeries (θ * θ) else inverseLeftClosed θ

def couplingClosed (θ : α) : α × α × α :=
  let t2 := θ * θ
  let t4 := t2 * t2
  ((θ - sin θ) / (t2 * θ),
   (t2 + 2.0 * cos θ - 2.0) / (2.0 * t4),
   (2.0 * θ - 3.0 * sin θ + θ * cos θ) / (2.0 * t4 * θ))

def couplingSeries (t2 : α) : α × α × α :=
  (1.0 / 6.0 - t2 / 120.0, 1.0 / 24.0 - t2 / 720.0, 1.0 / 120.0 - t2 / 2520.0)

/-- The three coefficients of the block that couples translation and rotation. -/
def coupling (θ : α) : α × α × α :=
  if θ < smallAngleCoupling then couplingSeries (θ * θ) else couplingClosed θ

end MultibodyCost.Coefficient
