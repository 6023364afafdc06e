import MultibodyCost.Model.Basic
import MultibodyCost.Sampling.Geometry

/-!
# Kinematic snapshots

Costs do not run kinematics. They read a snapshot: for each frame its placement in the world, its
Jacobian and velocity in the frame itself, and the derivatives of that velocity; and the centre of
mass with its Jacobian in the world. A snapshot is sized for a number of velocities and frames, and
its setters refuse matrices of any other shape.
-/

namespace MultibodyCost

/-- What a snapshot holds of one frame; the first three rows of every matrix are linear. -/
structure FrameKinematics (α : Type) where
  placement : Placement α
  jacobian : Mat α
  velocity : Motion α
  velocityByConfiguration : Mat α
  velocityByVelocity : Mat α

structure Snapshot (α : Type) where
  nv : Nat
  frames : Array (FrameKinematics α)
  com : Vec3 α
  comJacobian : Mat α

variable {α : Type}

namespace FrameKinematics

/-- The dimensions that a frame must have in a snapshot of `nv` velocities. -/
def dimensions (f : FrameKinematics α) (nv : Nat) : List Dimension :=
  [⟨.frameJacobian, 6, f.jacobian.rows⟩, ⟨.frameJacobian, nv, f.jacobian.cols⟩,
    ⟨.frameVelocityByConfiguration, 6, f.velocityByConfiguration.rows⟩,
    ⟨.frameVelocityByConfiguration, nv, f.velocityByConfiguration.cols⟩,
    ⟨.frameVelocityByVelocity, 6, f.velocityByVelocity.rows⟩,
    ⟨.frameVelocityByVelocity, nv, f.velocityByVelocity.cols⟩]

variable [Scalar α]

def zeros (nv : Nat) : FrameKinematics α where
  placement := .one
  jacobian := .zeros 6 nv
  velocity := .zero
  velocityByConfiguration := .zeros 6 nv
  velocityByVelocity := .zeros 6 nv

end FrameKinematics

namespace Snapshot

def frame (s : Snapshot α) (id : Nat) : Except (ModelError α) (FrameKinematics α) :=
  match s.frames[id]? with
  | some f => .ok f
  | none => .error (.unknownFrame id)

def setFrame (s : Snapshot α) (id : Nat) (f : FrameKinematics α) :
    Except (ModelError α) (Snapshot α) := do
  ModelError.check (f.dimensions s.nv)
  if h : id < s.frames.size then return { s with frames := s.frames.set id f h }
  else .error (.unknownFrame id)

def setCom (s : Snapshot α) (com : Vec3 α) (jacobian : Mat α) :
    Except (ModelError α) (Snapshot α) := do
  ModelError.check [⟨.comJacobianRows, 3, jacobian.rows⟩, ⟨.comJacobianCols, s.nv, jacobian.cols⟩]
  return { s with com := com, comJacobian := jacobian }

def zeros [Scalar α] (m : Model α) : Snapshot α where
  nv := m.nv
  frames := Array.replicate m.frames.length (.zeros m.nv)
  com := .zero
  comJacobian := .zeros 3 m.nv

section Sampled

variable [Sampled α]

def randomMatrices (nv : Nat) : Sampler (FrameKinematics α) := do
  let jacobian ← Sampler.mat 6 nv
  let byConfiguration ← Sampler.mat 6 nv
  let byVelocity ← Sampler.mat 6 nv
  return ⟨.one, jacobian, .zero, byConfiguration, byVelocity⟩

def randomPoses : List (FrameKinematics α) → Sampler (List (FrameKinematics α))
  | [] => return []
  | f :: fs => do
    let placement ← Sampler.placement
    let velocity ← Sampler.motion
    let fs ← randomPoses fs
    return { f with placement := placement, velocity := velocity } :: fs

/-- A snapshot of random values in the right shapes; they are the kinematics of no state. -/
def random (m : Model α) : Sampler (Snapshot α) := do
  let comJacobian ← Sampler.mat 3 m.nv
  let frames ← Sampler.replicate m.frames.length (randomMatrices m.nv)
  let frames ← randomPoses frames
  let com ← Sampler.vec3
  return ⟨m.nv, frames.toArray, com, comJacobian⟩

end Sampled

end Snapshot

/-- Kinematics supplied from outside: the snapshot renewed for a configuration and a velocity. It
may fail, and it may change the snapshot in any way. -/
abbrev KinematicsUpdate (α : Type) : Type :=
  Model α → Snapshot α → (q v : Vec α) → Except (ModelError α) (Snapshot α)

end MultibodyCost
