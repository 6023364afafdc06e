import MultibodyCost.Config.Basic
import MultibodyCost.Proofs.Model.WellFormed
import MultibodyCost.Proofs.Result

/-! # Residuals that are described

References have the length that the model or the control asks for, frames are in the model, and a
rotation is not too near zero. A configuration checks some of this and leaves the rest to the cost;
where all of it holds, the residual is the one that is described.
-/

namespace MultibodyCost

variable {α : Type}

def ResidualConfig.dimension (s : Multibody α) (nu : Nat) : ResidualConfig α → Nat
  | state _ => 2 * s.nv
  | control _ => nu
  | com _ => 3
  | placement _ _ _ => 6
  | translation _ _ => 3
  | velocity _ _ _ => 6

def ResidualConfig.frame? : ResidualConfig α → Option String
  | placement frame _ _ => some frame
  | translation frame _ => some frame
  | velocity frame _ _ => some frame
  | _ => none

variable [Elementary α]

/-- References of the right length, frames of the model, a rotation that can be normalized. -/
def ResidualConfig.Valid (s : Multibody α) (nu : Nat) : ResidualConfig α → Prop
  | state reference => ∀ ref, reference = some ref → ref.length = s.nx
  | control reference => ∀ ref, reference = some ref → ref.length = nu
  | com _ => True
  | placement frame _ rotation => frame ∈ s.model.frameNames ∧ 1e-9 < rotation.norm
  | translation frame _ => frame ∈ s.model.frameNames
  | velocity frame _ _ => frame ∈ s.model.frameNames

inductive ResidualConfig.Describes (s : Multibody α) (nu : Nat) :
    ResidualConfig α → Residual α → Prop
  | rest : Describes s nu (.state none) (.state s.zero)
  | state (ref : List α) : Describes s nu (.state (some ref)) (.state ref.toArray)
  | idle : Describes s nu (.control none) (.control (Vec.zeros nu))
  | control (ref : List α) : Describes s nu (.control (some ref)) (.control ref.toArray)
  | com (ref : Vec3 α) : Describes s nu (.com ref) (.com ref)
  | placement {frame : String} {id : Nat} (h : s.model.frameId? frame = some id) (t : Vec3 α)
    (q : Quaternion α) : Describes s nu (.placement frame t q) (.placement id ⟨t, q.normalized⟩)
  | translation {frame : String} {id : Nat} (h : s.model.frameId? frame = some id) (ref : Vec3 α) :
    Describes s nu (.translation frame ref) (.translation id ref)
  | velocity {frame : String} {id : Nat} (h : s.model.frameId? frame = some id)
    (linear angular : Vec3 α) :
    Describes s nu (.velocity frame linear angular) (.velocity id ⟨linear, angular⟩)

inductive ResidualConfig.Refused (s : Multibody α) (nu : Nat) :
    ResidualConfig α → CostError α → Prop
  | state {ref : List α} (h : ref.length ≠ s.nx) :
    Refused s nu (.state (some ref)) (.dimension ⟨.stateReference, s.nx, ref.length⟩)
  | control {ref : List α} (h : ref.length ≠ nu) :
    Refused s nu (.control (some ref)) (.dimension ⟨.controlReference, nu, ref.length⟩)
  | frame {r : ResidualConfig α} {name : String} (h : r.frame? = some name)
    (hName : name ∉ s.model.frameNames) : Refused s nu r (.unknownFrame name)
  | rotation {frame : String} {t : Vec3 α} {q : Quaternion α} (h : ¬1e-9 < q.norm) :
    Refused s nu (.placement frame t q) (.invalidRotation q)

namespace ResidualConfig

omit [Elementary α] in
theorem frameNamed_eq_ok_iff {s : Multibody α} {name : String} {id : Nat} :
    frameNamed s name = .ok id ↔ s.model.frameId? name = some id := by
  rw [frameNamed]
  cases s.model.frameId? name with
  | none => simp
  | some found => simp

theorem unitRotation_eq_ok_iff {q unit : Quaternion α} :
    unitRotation q = .ok unit ↔ 1e-9 < q.norm ∧ q.normalized = unit := by
  rw [unitRotation]
  split
  · rename_i hNorm
    simp [hNorm]
  · rename_i hNorm
    simp [hNorm]

omit [Elementary α] in
theorem frameNamed_eq_error_iff {s : Multibody α} {name : String} {err : CostError α} :
    frameNamed s name = .error err ↔ name ∉ s.model.frameNames ∧ err = .unknownFrame name := by
  rw [← Model.frameId?_eq_none_iff, frameNamed]
  cases s.model.frameId? name with
  | none => simp [eq_comm]
  | some found => simp

theorem unitRotation_eq_error_iff {q : Quaternion α} {err : CostError α} :
    unitRotation q = .error err ↔ ¬1e-9 < q.norm ∧ err = .invalidRotation q := by
  rw [unitRotation]
  split
  · rename_i hNorm
    simp [hNorm]
  · rename_i hNorm
    simp [hNorm, eq_comm]

variable {r : ResidualConfig α} {s : Multibody α} {nu : Nat} {built : Residual α}

omit [Elementary α] in
theorem frame_mem_iff {name : String} :
    name ∈ s.model.frameNames ↔ ∃ id, s.model.frameId? name = some id := by
  rw [← Option.ne_none_iff_exists', ne_eq, Model.frameId?_eq_none_iff, not_not]

theorem describes_of_build (h : r.build s nu = .ok built) : r.Describes s nu built := by
  cases r with
  | state reference =>
    cases reference with
    | none =>
      cases h
      exact .rest
    | some ref =>
      cases h
      exact .state ref
  | control reference =>
    cases reference with
    | none =>
      cases h
      exact .idle
    | some ref =>
      obtain ⟨-, -, ⟨⟩⟩ := bind_eq_ok.mp h
      exact .control ref
  | com ref =>
    cases h
    exact .com ref
  | placement frame t q =>
    obtain ⟨id, hFrame, h⟩ := bind_eq_ok.mp h
    obtain ⟨unit, hUnit, ⟨⟩⟩ := bind_eq_ok.mp h
    obtain ⟨-, rfl⟩ := unitRotation_eq_ok_iff.mp hUnit
    exact .placement (frameNamed_eq_ok_iff.mp hFrame) t q
  | translation frame ref =>
    obtain ⟨id, hFrame, ⟨⟩⟩ := bind_eq_ok.mp h
    exact .translation (frameNamed_eq_ok_iff.mp hFrame) ref
  | velocity frame linear angular =>
    obtain ⟨id, hFrame, ⟨⟩⟩ := bind_eq_ok.mp h
    exact .velocity (frameNamed_eq_ok_iff.mp hFrame) linear angular

theorem exists_build (h : r.Valid s nu) : ∃ built, r.build s nu = .ok built := by
  cases r with
  | state reference => cases reference <;> exact ⟨_, rfl⟩
  | control reference =>
    cases reference with
    | none => exact ⟨_, rfl⟩
    | some ref =>
      have hLength : ref.length = nu := h ref rfl
      refine ⟨.control ref.toArray, bind_eq_ok.mpr ⟨(), ?_, rfl⟩⟩
      rw [Dimension.check, Dimension.mismatch?, if_pos hLength.symm]
      rfl
  | com ref => exact ⟨_, rfl⟩
  | placement frame t q =>
    obtain ⟨hFrame, hNorm⟩ := h
    obtain ⟨id, hId⟩ := frame_mem_iff.mp hFrame
    exact ⟨_, bind_eq_ok.mpr ⟨id, frameNamed_eq_ok_iff.mpr hId,
      bind_eq_ok.mpr ⟨_, unitRotation_eq_ok_iff.mpr ⟨hNorm, rfl⟩, rfl⟩⟩⟩
  | translation frame ref =>
    obtain ⟨id, hId⟩ := frame_mem_iff.mp h
    exact ⟨_, bind_eq_ok.mpr ⟨id, frameNamed_eq_ok_iff.mpr hId, rfl⟩⟩
  | velocity frame linear angular =>
    obtain ⟨id, hId⟩ := frame_mem_iff.mp h
    exact ⟨_, bind_eq_ok.mpr ⟨id, frameNamed_eq_ok_iff.mpr hId, rfl⟩⟩

theorem refused_of_build {err : CostError α} (h : r.build s nu = .error err) : r.Refused s nu err := by
  cases r with
  | state reference => cases reference <;> cases h
  | control reference =>
    cases reference with
    | none => cases h
    | some ref =>
      rcases bind_eq_error.mp h with hCheck | ⟨_, -, ⟨⟩⟩
      unfold Dimension.check Dimension.mismatch? at hCheck
      split at hCheck
      · rename_i hMismatch
        split at hMismatch
        · cases hMismatch
        · rename_i hLength
          cases hMismatch
          cases hCheck
          exact .control (Ne.symm hLength)
      · cases hCheck
  | com ref => cases h
  | placement frame t q =>
    rcases bind_eq_error.mp h with hFrame | ⟨id, -, h⟩
    · obtain ⟨hName, rfl⟩ := frameNamed_eq_error_iff.mp hFrame
      exact .frame rfl hName
    · rcases bind_eq_error.mp h with hUnit | ⟨_, -, ⟨⟩⟩
      obtain ⟨hNorm, rfl⟩ := unitRotation_eq_error_iff.mp hUnit
      exact .rotation hNorm
  | translation frame ref =>
    rcases bind_eq_error.mp h with hFrame | ⟨_, -, ⟨⟩⟩
    obtain ⟨hName, rfl⟩ := frameNamed_eq_error_iff.mp hFrame
    exact .frame rfl hName
  | velocity frame linear angular =>
    rcases bind_eq_error.mp h with hFrame | ⟨_, -, ⟨⟩⟩
    obtain ⟨hName, rfl⟩ := frameNamed_eq_error_iff.mp hFrame
    exact .frame rfl hName

/-- No error about a residual is about the control of a sum or about an activation. -/
theorem Refused.unrelated {err : CostError α} (h : r.Refused s nu err) :
    (∀ name n m, err ≠ .controlDimension name n m) ∧ ∀ n m, err ≠ .activationDimension n m := by
  constructor
  · rintro name n m rfl
    cases h
  · rintro n m rfl
    cases h

theorem valid_of_build (h : r.build s nu = .ok built) (hReference : built.referenceFault? s = none) :
    r.Valid s nu := by
  cases r with
  | state reference =>
    rintro ref rfl
    cases h
    rw [Residual.referenceFault?, Option.map_eq_none_iff, Dimension.mismatch?_eq_none_iff] at hReference
    exact (hReference _ List.mem_cons_self).symm
  | control reference =>
    rintro ref rfl
    obtain ⟨_, hCheck, -⟩ := bind_eq_ok.mp h
    unfold Dimension.check at hCheck
    split at hCheck
    · cases hCheck
    · rename_i hNone
      exact (Dimension.mismatch?_eq_none_iff.mp hNone _ List.mem_cons_self).symm
  | com ref => trivial
  | placement frame t q =>
    obtain ⟨id, hFrame, h⟩ := bind_eq_ok.mp h
    obtain ⟨unit, hUnit, -⟩ := bind_eq_ok.mp h
    exact ⟨frame_mem_iff.mpr ⟨id, frameNamed_eq_ok_iff.mp hFrame⟩, (unitRotation_eq_ok_iff.mp hUnit).1⟩
  | translation frame ref =>
    obtain ⟨id, hFrame, -⟩ := bind_eq_ok.mp h
    exact frame_mem_iff.mpr ⟨id, frameNamed_eq_ok_iff.mp hFrame⟩
  | velocity frame linear angular =>
    obtain ⟨id, hFrame, -⟩ := bind_eq_ok.mp h
    exact frame_mem_iff.mpr ⟨id, frameNamed_eq_ok_iff.mp hFrame⟩

theorem nr_eq_dimension (h : r.Valid s nu) : r.nr s nu = r.dimension s nu := by
  cases r with
  | control reference =>
    cases reference with
    | none => rfl
    | some ref => exact h ref rfl
  | _ => rfl

omit [Elementary α] in
theorem frameFault?_eq_none {frame : String} {id : Nat} (h : s.model.frameId? frame = some id) :
    Residual.referenceFault?.frameFault? s id = none := by
  obtain ⟨hId, -⟩ := List.findIdx?_eq_some_iff_getElem.mp h
  exact if_pos hId

theorem Describes.facts (h : r.Describes s nu built) (hValid : r.Valid s nu) :
    built.referenceFault? s = none ∧ built.nr s = r.dimension s nu ∧
      ∀ ref, built = .control ref → ref.size = nu := by
  cases h with
  | rest =>
    have hSize : s.zero.size = s.nx := by
      rw [Multibody.zero, Vec.size_place, Vec.size_zeros]
    refine ⟨?_, rfl, by rintro _ ⟨⟩⟩
    rw [Residual.referenceFault?, Dimension.mismatch?, if_pos hSize.symm]
    rfl
  | state ref =>
    have hSize : s.nx = ref.toArray.size := (hValid ref rfl).symm
    refine ⟨?_, rfl, by rintro _ ⟨⟩⟩
    rw [Residual.referenceFault?, Dimension.mismatch?, if_pos hSize]
    rfl
  | idle =>
    refine ⟨rfl, Vec.size_zeros nu, ?_⟩
    rintro _ ⟨⟩
    exact Vec.size_zeros nu
  | control ref =>
    refine ⟨rfl, hValid ref rfl, ?_⟩
    rintro _ ⟨⟩
    exact hValid ref rfl
  | com ref => exact ⟨rfl, rfl, by rintro _ ⟨⟩⟩
  | placement hFrame t q => exact ⟨frameFault?_eq_none hFrame, rfl, by rintro _ ⟨⟩⟩
  | translation hFrame ref => exact ⟨frameFault?_eq_none hFrame, rfl, by rintro _ ⟨⟩⟩
  | velocity hFrame linear angular => exact ⟨frameFault?_eq_none hFrame, rfl, by rintro _ ⟨⟩⟩

theorem Describes.refused {err : CostError α} (h : r.Describes s nu built)
    (hFault : built.referenceFault? s = some err) : r.Refused s nu err := by
  cases h with
  | rest =>
    have hSize : s.nx = s.zero.size := by
      rw [Multibody.zero, Vec.size_place, Vec.size_zeros]
    rw [Residual.referenceFault?, Dimension.mismatch?, if_pos hSize] at hFault
    cases hFault
  | state ref =>
    rw [Residual.referenceFault?, Dimension.mismatch?] at hFault
    split at hFault
    · cases hFault
    · rename_i hLength
      cases hFault
      exact .state (Ne.symm hLength)
  | idle => cases hFault
  | control ref => cases hFault
  | com ref => cases hFault
  | placement hFrame t q => cases (frameFault?_eq_none hFrame).symm.trans hFault
  | translation hFrame ref => cases (frameFault?_eq_none hFrame).symm.trans hFault
  | velocity hFrame linear angular => cases (frameFault?_eq_none hFrame).symm.trans hFault

theorem Describes.unique {other : Residual α} (h : r.Describes s nu built)
    (h' : r.Describes s nu other) : built = other := by
  cases h with
  | rest => cases h'; rfl
  | state ref => cases h'; rfl
  | idle => cases h'; rfl
  | control ref => cases h'; rfl
  | com ref => cases h'; rfl
  | placement hFrame t q =>
    cases h' with
    | placement hFrame' => rw [Option.some.inj (hFrame.symm.trans hFrame')]
  | translation hFrame ref =>
    cases h' with
    | translation hFrame' => rw [Option.some.inj (hFrame.symm.trans hFrame')]
  | velocity hFrame linear angular =>
    cases h' with
    | velocity hFrame' => rw [Option.some.inj (hFrame.symm.trans hFrame')]

end ResidualConfig

end MultibodyCost
