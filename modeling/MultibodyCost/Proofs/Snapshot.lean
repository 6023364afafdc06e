import MultibodyCost.Proofs.Sampling.Runs
import MultibodyCost.Snapshot

/-! # Every snapshot has the shapes it is sized for

A snapshot is made for a model, empty or at random, and changed by setters that refuse other shapes.
So its matrices are as wide as its number of velocities, whatever model it was made for.
-/

namespace MultibodyCost

variable {α : Type}

structure FrameKinematics.Shaped (f : FrameKinematics α) (nv : Nat) : Prop where
  jacobian : f.jacobian.rows = 6 ∧ f.jacobian.cols = nv
  byConfiguration : f.velocityByConfiguration.rows = 6 ∧ f.velocityByConfiguration.cols = nv
  byVelocity : f.velocityByVelocity.rows = 6 ∧ f.velocityByVelocity.cols = nv

theorem FrameKinematics.dimensions_iff {f : FrameKinematics α} {nv : Nat} :
    (∀ d ∈ f.dimensions nv, d.expected = d.got) ↔ f.Shaped nv := by
  simp only [dimensions, List.forall_mem_cons, List.not_mem_nil, false_imp_iff, implies_true,
    and_true]
  constructor
  · rintro ⟨hJ, hJ', hQ, hQ', hV, hV'⟩
    exact ⟨⟨hJ.symm, hJ'.symm⟩, ⟨hQ.symm, hQ'.symm⟩, ⟨hV.symm, hV'.symm⟩⟩
  · rintro ⟨⟨hJ, hJ'⟩, ⟨hQ, hQ'⟩, ⟨hV, hV'⟩⟩
    exact ⟨hJ.symm, hJ'.symm, hQ.symm, hQ'.symm, hV.symm, hV'.symm⟩

theorem ModelError.check_eq_ok_iff {ds : List Dimension} {passed : Unit} :
    (ModelError.check ds : Except (ModelError α) Unit) = .ok passed ↔
      ∀ d ∈ ds, d.expected = d.got := by
  rw [← Dimension.mismatch?_eq_none_iff, check]
  cases Dimension.mismatch? ds with
  | none => simp
  | some d => simp

namespace Snapshot

structure Shaped (s : Snapshot α) : Prop where
  frames : ∀ f ∈ s.frames, f.Shaped s.nv
  com : s.comJacobian.rows = 3 ∧ s.comJacobian.cols = s.nv

structure SizedFor (s : Snapshot α) (m : Model α) : Prop where
  nv : s.nv = m.nv
  frames : s.frames.size = m.frames.length
  shaped : s.Shaped

/-- The snapshots that can be had: for any model, empty or drawn at random, and changed by setters. -/
inductive Built [Sampled α] : Snapshot α → Prop
  | zeros (m : Model α) : Built (.zeros m)
  | random {m : Model α} {words rest : List UInt64} {s : Snapshot α}
      (h : Snapshot.random m words = .ok (s, rest)) : Built s
  | setFrame {s s' : Snapshot α} (h : Built s) {id : Nat} {f : FrameKinematics α}
      (hSet : s.setFrame id f = .ok s') : Built s'
  | setCom {s s' : Snapshot α} (h : Built s) {com : Vec3 α} {jacobian : Mat α}
      (hSet : s.setCom com jacobian = .ok s') : Built s'

theorem shaped_zeros [Scalar α] (m : Model α) : (Snapshot.zeros m).Shaped where
  frames f hf := by
    obtain ⟨-, rfl⟩ := Array.mem_replicate.mp hf
    exact ⟨⟨rfl, rfl⟩, ⟨rfl, rfl⟩, ⟨rfl, rfl⟩⟩
  com := ⟨rfl, rfl⟩

theorem setFrame_eq_ok_iff {s t : Snapshot α} {id : Nat} {f : FrameKinematics α} :
    s.setFrame id f = .ok t ↔
      f.Shaped s.nv ∧ ∃ h : id < s.frames.size, t = { s with frames := s.frames.set id f h } := by
  refine bind_eq_ok.trans ?_
  rw [← FrameKinematics.dimensions_iff]
  constructor
  · rintro ⟨_, hCheck, hSet⟩
    refine ⟨ModelError.check_eq_ok_iff.mp hCheck, ?_⟩
    split at hSet
    · rename_i hId
      cases hSet
      exact ⟨hId, rfl⟩
    · cases hSet
  · rintro ⟨hFits, hId, rfl⟩
    refine ⟨(), ModelError.check_eq_ok_iff.mpr hFits, ?_⟩
    rw [dif_pos hId]
    rfl

theorem setCom_eq_ok_iff {s t : Snapshot α} {com : Vec3 α} {jacobian : Mat α} :
    s.setCom com jacobian = .ok t ↔ (jacobian.rows = 3 ∧ jacobian.cols = s.nv) ∧
      t = { s with com := com, comJacobian := jacobian } := by
  refine bind_eq_ok.trans ?_
  constructor
  · rintro ⟨_, hCheck, hSet⟩
    have hAll := ModelError.check_eq_ok_iff.mp hCheck
    simp only [List.forall_mem_cons] at hAll
    obtain ⟨hRows, hCols, -⟩ := hAll
    cases hSet
    exact ⟨⟨hRows.symm, hCols.symm⟩, rfl⟩
  · rintro ⟨⟨hRows, hCols⟩, rfl⟩
    refine ⟨(), ModelError.check_eq_ok_iff.mpr ?_, rfl⟩
    simp only [List.forall_mem_cons, List.not_mem_nil, false_imp_iff, implies_true, and_true]
    exact ⟨hRows.symm, hCols.symm⟩

theorem shaped_setFrame {s s' : Snapshot α} (h : s.Shaped) {id : Nat} {f : FrameKinematics α}
    (hSet : s.setFrame id f = .ok s') : s'.Shaped := by
  obtain ⟨hFrame, hId, rfl⟩ := setFrame_eq_ok_iff.mp hSet
  refine ⟨?_, h.com⟩
  intro g hg
  rcases Array.mem_or_eq_of_mem_set (w := hId) hg with hOld | rfl
  · exact h.frames g hOld
  · exact hFrame

theorem shaped_setCom {s s' : Snapshot α} (h : s.Shaped) {com : Vec3 α} {jacobian : Mat α}
    (hSet : s.setCom com jacobian = .ok s') : s'.Shaped := by
  obtain ⟨hShape, rfl⟩ := setCom_eq_ok_iff.mp hSet
  exact ⟨h.frames, hShape⟩

section Sampled

variable [Sampled α]

open Sampler in
theorem runs_randomPoses {nv : Nat} {fs : List (FrameKinematics α)}
    (h : ∀ f ∈ fs, f.Shaped nv) :
    (randomPoses fs).Runs anyWords anyWords
      (fun gs => gs.length = fs.length ∧ ∀ g ∈ gs, g.Shaped nv) fun _ => True := by
  induction fs with
  | nil => exact runs_pure ⟨rfl, fun x hx => (nomatch hx)⟩
  | cons f fs ih =>
    obtain ⟨hHead, hTail⟩ := List.forall_mem_cons.mp h
    refine (runs_any _).bind fun placement _ => (runs_any _).bind fun velocity _ =>
      (ih hTail).bind fun gs hgs => runs_pure ⟨congrArg Nat.succ hgs.1, ?_⟩
    exact List.forall_mem_cons.mpr
      ⟨⟨hHead.jacobian, hHead.byConfiguration, hHead.byVelocity⟩, hgs.2⟩

open Sampler in
theorem runs_random (m : Model α) :
    (Snapshot.random m).Runs anyWords anyWords (SizedFor · m) fun _ => True := by
  have hMatrices : (randomMatrices m.nv : Sampler (FrameKinematics α)).Runs anyWords anyWords
      (fun f => f.Shaped m.nv) fun _ => True :=
    (runs_mat 6 m.nv).bind fun jacobian hJ => (runs_mat 6 m.nv).bind fun byQ hQ =>
      (runs_mat 6 m.nv).bind fun byV hV => runs_pure ⟨hJ, hQ, hV⟩
  refine (runs_mat 3 m.nv).bind fun comJacobian hCom => ?_
  have hFrames := runs_replicate (A := fun _ => anyWords) (fun _ => hMatrices) m.frames.length
  refine hFrames.bind fun frames ⟨hCount, hShaped⟩ => ?_
  refine (runs_randomPoses hShaped).bind fun posed ⟨hLength, hPosed⟩ => (runs_any _).bind
    fun com _ => runs_pure ?_
  exact ⟨rfl, hLength.trans hCount, fun f hf => hPosed f (List.mem_toArray.mp hf), hCom⟩

theorem Built.shaped {s : Snapshot α} (h : s.Built) : s.Shaped := by
  induction h with
  | zeros m => exact shaped_zeros m
  | random h => exact ((runs_random _).of_eq_ok trivial h).1.shaped
  | setFrame _ hSet ih => exact shaped_setFrame ih hSet
  | setCom _ hSet ih => exact shaped_setCom ih hSet

end Sampled

end Snapshot

end MultibodyCost
