import MultibodyCost.Error
import MultibodyCost.Sampling.Geometry
import MultibodyCost.State.Jacobians

/-!
# Euclidean states

The states of a system without joints are vectors of one length; differences and increments are
those of vectors. All coordinates count as configuration, none as velocity.
-/

namespace MultibodyCost

structure Euclidean where
  nx : Nat

namespace Euclidean

variable {α : Type}

def ndx (s : Euclidean) : Nat := s.nx

def nq (s : Euclidean) : Nat := s.nx

def nv (_ : Euclidean) : Nat := 0

def check (s : Euclidean) (a b : Vec α) : Except (ModelError α) Unit :=
  ModelError.check [⟨.state, s.nx, a.size⟩, ⟨.state, s.nx, b.size⟩]

section Scalar

variable [Scalar α]

def zero (s : Euclidean) : Vec α := Vec.zeros s.nx

def diff (s : Euclidean) (x0 x1 : Vec α) : Except (ModelError α) (Vec α) := do
  s.check x0 x1
  return x1.sub x0

def integrate (s : Euclidean) (x dx : Vec α) : Except (ModelError α) (Vec α) := do
  s.check x dx
  return x.add dx

def jdiff (s : Euclidean) (x0 x1 : Vec α) (wanted : Wanted) :
    Except (ModelError α) (Jacobians α) := do
  s.check x0 x1
  return .select wanted ((Mat.identity s.nx).scale (-1)) (Mat.identity s.nx)

def jintegrate (s : Euclidean) (x dx : Vec α) (wanted : Wanted) :
    Except (ModelError α) (Jacobians α) := do
  s.check x dx
  return .select wanted ((Mat.identity s.nx).scale 1) (Mat.identity s.nx)

end Scalar

def random [Sampled α] (s : Euclidean) : Sampler (Vec α) := do
  let xs ← Sampler.replicate s.nx (Sampler.closed (-1) 1)
  return xs.toArray

end Euclidean

end MultibodyCost
