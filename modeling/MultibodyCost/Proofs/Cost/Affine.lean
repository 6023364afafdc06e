import MultibodyCost.Proofs.Cost.Differences

/-! # Differences are exact where the residual is affine

The residual of the control is affine, and so is that of the state where all joints have a single
coordinate. The residuals read from a snapshot are affine where the kinematics supplied from outside
are: there the update has to move the centre of mass, the velocity or the origin of the frame along
the columns of the matrix that the analytic derivatives take from the snapshot.
-/

namespace MultibodyCost

section Cartesian

/-- All joints turn about an axis or slide along one. -/
def Multibody.Cartesian {α : Type} (s : Multibody α) : Prop :=
  ∀ j ∈ s.model.joints, j.kind = .revolute ∨ j.kind = .prismatic

theorem JointKind.diff_integrate_cartesian {k : JointKind} (h : k = .revolute ∨ k = .prismatic)
    (a b d : Vec ℝ) (hd : d.size = k.nv) : k.diff a (k.integrate b d) = (k.diff a b).add d := by
  have hSum : #[b.entry 0 + d.entry 0 - a.entry 0] = Vec.add #[b.entry 0 - a.entry 0] d := by
    have hSize : Array.size (Vec.add #[b.entry 0 - a.entry 0] d) = 1 := Vec.size_add ..
    apply Vec.ext_entry
    · exact hSize.symm
    · intro i hi
      obtain rfl : i = 0 := Nat.lt_one_iff.mp hi
      rw [Vec.entry_add (Nat.zero_lt_one : 0 < Array.size #[b.entry 0 - a.entry 0])]
      exact add_sub_right_comm (b.entry 0) (d.entry 0) (a.entry 0)
  rcases h with rfl | rfl
  · exact hSum
  · exact hSum

namespace Multibody

variable {s : Multibody ℝ}

theorem blockJacobian_cartesian (h : s.Cartesian) (sign : ℝ) (blocks : JointKind.Blocks ℝ)
    (d : Vec ℝ) : s.blockJacobian sign blocks d = (Mat.identity s.ndx).scale sign := by
  unfold blockJacobian Cartesian at *
  generalize (Mat.identity s.ndx).scale sign = m
  generalize s.model.joints = js at h ⊢
  induction js generalizing m with
  | nil => rfl
  | cons j js ih =>
    obtain ⟨hj, hRest⟩ := List.forall_mem_cons.mp h
    rw [List.foldl_cons]
    rcases hj with hKind | hKind
    · rw [hKind]
      exact ih m hRest
    · rw [hKind]
      exact ih m hRest

theorem IsDiff.along_increment (hModel : s.model.WellFormed) (h : s.Cartesian)
    {ref x dx y r r' : Vec ℝ} (hr : s.IsDiff ref x r) (hy : s.IsIncrement x dx y)
    (hr' : s.IsDiff ref y r') : r' = r.add dx := by
  have hTwice : s.ndx = s.nv + s.nv := Nat.two_mul s.nv
  apply ext_tangent hModel hr'.size ((Vec.size_add ..).trans hr.size)
  · intro j hj
    have hFits : j.idxV + j.kind.nv ≤ s.nv :=
      (hModel.tilesV.bounds_of_mem (List.mem_map_of_mem hj)).2
    have hInside : j.idxV + j.kind.nv ≤ r.size := by
      rw [hr.size]
      omega
    rw [hr'.joint j hj, hy.joint j hj, Vec.slice_add hInside, hr.joint j hj]
    exact JointKind.diff_integrate_cartesian (h j hj) _ _ _ (Vec.size_slice ..)
  · intro k hk
    have hInside : s.nv + k < r.size := by
      rw [hr.size]
      omega
    rw [hr'.velocity k hk, hy.velocity k hk, Vec.entry_add hInside, hr.velocity k hk]
    ring

end Multibody

end Cartesian

namespace ResidualCost

section Scalar

variable {α : Type} [Elementary α]

/-- At every state that is perturbed by `h` in coordinate `i` of the tangent, the update gives a
snapshot for as many velocities, on which the perturbation `Shows`. -/
def Renews (c : ResidualCost α) (update? : Option (KinematicsUpdate α)) (h : α) (args : Arguments α)
    (Shows : Nat → Snapshot α → Prop) : Prop :=
  ∀ i, i < c.state.ndx → ∀ y q v,
    c.state.integrate args.x ((Vec.zeros c.state.ndx).put i h) = .ok y →
    c.state.split y = .ok (q, v) →
    match update? with
    | none => Shows i args.snapshot
    | some update => ∃ snapshot, update c.state.model args.snapshot q v = .ok snapshot ∧
        snapshot.nv = args.snapshot.nv ∧ Shows i snapshot

/-- The residual is affine in the coordinates that are perturbed, with the matrices that the
analytic derivatives take. -/
inductive Affine (c : ResidualCost α) (update? : Option (KinematicsUpdate α)) (h : α)
    (args : Arguments α) : Prop
  | control {ref : Vec α} (hKind : c.residual = .control ref)
      (hRenews : c.Renews update? h args fun _ _ => True)
  | state {ref : Vec α} (hKind : c.residual = .state ref) (hJoints : c.state.Cartesian)
      (hRenews : c.Renews update? h args fun _ _ => True)
  | com {ref : Vec3 α} (hKind : c.residual = .com ref)
      (hRenews : c.Renews update? h args fun i snapshot => snapshot.com.toVec =
        args.snapshot.com.toVec.along h (args.snapshot.comJacobian.beside (.zeros 3 c.state.nv)) i)
  | velocity {id : Nat} {ref : Motion α} {f : FrameKinematics α}
      (hKind : c.residual = .velocity id ref) (hFrame : args.snapshot.frame id = .ok f)
      (hRenews : c.Renews update? h args fun i snapshot => ∃ f', snapshot.frame id = .ok f' ∧
        f'.velocity.toVec =
          f.velocity.toVec.along h (f.velocityByConfiguration.beside f.velocityByVelocity) i)
  | translation {id : Nat} {ref : Vec3 α} {f : FrameKinematics α}
      (hKind : c.residual = .translation id ref) (hFrame : args.snapshot.frame id = .ok f)
      (hRenews : c.Renews update? h args fun i snapshot => ∃ f', snapshot.frame id = .ok f' ∧
        f'.placement.translation.toVec = f.placement.translation.toVec.along h
          ((f.placement.rotation.toMat3.toMat.mul (f.jacobian.topRows 3)).beside
            (.zeros 3 c.state.nv)) i)

end Scalar

variable {c : ResidualCost ℝ} {update? : Option (KinematicsUpdate ℝ)} {h : ℝ} {args : Arguments ℝ}

section Moves

variable {Shows : Nat → Snapshot ℝ → Prop} {r : Vec ℝ} {rx ru : Mat ℝ}

theorem Renews.moves (hModel : c.state.model.WellFormed)
    (hAccepted : c.Accepts args c.nr c.state.ndx c.nu) (hRenews : c.Renews update? h args Shows)
    (hState : ∀ i y snapshot, i < c.state.ndx →
      c.state.IsIncrement args.x ((Vec.zeros c.state.ndx).put i h) y → Shows i snapshot →
      c.residual.value c.state { args with snapshot := snapshot, x := y } = .ok (r.along h rx i))
    (hControl : ∀ j, j < c.nu →
      c.residual.value c.state { args with u := args.u.put j (args.u.entry j + h) } =
        .ok (r.along h ru j)) :
    c.Moves update? h args r rx ru where
  control := hControl
  state i hi := by
    have hTangent : ((Vec.zeros c.state.ndx).put i h).size = c.state.ndx :=
      (Vec.size_put ..).trans (Vec.size_zeros _)
    obtain ⟨y, hIntegrate, hy⟩ := Multibody.exists_increment hModel hAccepted.state hTangent
    have hSplit := Multibody.split_eq_ok hy.size
    have hSnapshot := hRenews i hi y _ _ hIntegrate hSplit
    cases update? with
    | none =>
      refine ⟨y, { args with x := y }, hIntegrate, rfl, { hAccepted with state := hy.size }, ?_⟩
      exact hState i y args.snapshot hi hy hSnapshot
    | some update =>
      obtain ⟨snapshot, hUpdate, hNv, hShows⟩ := hSnapshot
      refine ⟨y, { args with snapshot := snapshot, x := y }, hIntegrate, ?_, ?_,
        hState i y snapshot hi hy hShows⟩
      · change ((Fault.ofModel (c.state.split y)).bind fun qv =>
          (Fault.ofModel (update c.state.model args.snapshot qv.1 qv.2)).bind fun snapshot =>
            .ok { args with snapshot := snapshot, x := y }) = _
        rw [hSplit, Fault.ofModel, Except.bind, hUpdate]
        rfl
      · exact { hAccepted with state := hy.size, snapshot := hNv.trans hAccepted.snapshot }

end Moves

structure Exact (c : ResidualCost ℝ) (update? : Option (KinematicsUpdate ℝ)) (h : ℝ)
    (args : Arguments ℝ) (r : Vec ℝ) (rx ru : Mat ℝ) : Prop where
  moves : c.Moves update? h args r rx ru
  value : c.residual.value c.state args = .ok r
  linear : c.residual.linearize c.state c.nu args (c.createData.activate c.activation r) =
    .done { c.createData.activate c.activation r with rx := rx, ru := ru }

theorem Renews.exact {Shows : Nat → Snapshot ℝ → Prop} {r : Vec ℝ} {rx : Mat ℝ}
    (hModel : c.state.model.WellFormed) (hAccepted : c.Accepts args c.nr c.state.ndx c.nu)
    (hKind : ∀ ref, c.residual ≠ .control ref) (hRenews : c.Renews update? h args Shows)
    (hValue : c.residual.value c.state args = .ok r)
    (hLinear : c.residual.linearize c.state c.nu args (c.createData.activate c.activation r) =
      .done { c.createData.activate c.activation r with rx := rx })
    (hState : ∀ i y snapshot, i < c.state.ndx →
      c.state.IsIncrement args.x ((Vec.zeros c.state.ndx).put i h) y → Shows i snapshot →
      c.residual.value c.state { args with snapshot := snapshot, x := y } = .ok (r.along h rx i)) :
    c.Exact update? h args r rx (.zeros c.nr c.nu) := by
  refine ⟨hRenews.moves hModel hAccepted hState fun j _ => ?_, hValue, hLinear⟩
  rw [Vec.along_zeros, ← hValue]
  cases hResidual : c.residual with
  | control ref => exact absurd hResidual (hKind ref)
  | _ => rfl

section Kinds

theorem exact_control (hModel : c.state.model.WellFormed)
    (hAccepted : c.Accepts args c.nr c.state.ndx c.nu) {ref : Vec ℝ}
    (hKind : c.residual = .control ref) (hRenews : c.Renews update? h args fun _ _ => True) :
    c.Exact update? h args (args.u.sub ref) (.zeros c.nr c.state.ndx) (.identity c.nu) where
  value := by
    rw [hKind]
    rfl
  linear := by
    rw [hKind]
    rfl
  moves := by
    refine hRenews.moves hModel hAccepted ?_ ?_
    · intro i y snapshot _ _ _
      rw [hKind, Vec.along_zeros]
      rfl
    · intro j hj
      have hWidth : c.nu = args.u.size := hAccepted.control.symm
      rw [hKind, Residual.value, Vec.put_add (hWidth ▸ hj), Vec.along_sub, hWidth]

theorem exact_state (hModel : c.state.model.WellFormed)
    (hAccepted : c.Accepts args c.nr c.state.ndx c.nu) {ref : Vec ℝ}
    (hKind : c.residual = .state ref) (hJoints : c.state.Cartesian) (hRenews : c.Renews update? h args fun _ _ => True) :
    ∃ r, c.Exact update? h args r (.identity c.state.ndx) (.zeros c.nr c.nu) := by
  have hRef : ref.size = c.state.nx := c.size_reference hKind
  obtain ⟨r, hDiff, hr⟩ := Multibody.exists_diff hModel hRef hAccepted.state
  refine ⟨r, hRenews.exact hModel hAccepted (by rw [hKind]; exact fun _ => nofun) ?_ ?_ ?_⟩
  · rw [hKind, Residual.value, hDiff]
    rfl
  · have hSecond := Multibody.blockJacobian_cartesian hJoints 1 Multibody.diffSecond r
    rw [Mat.scale_one] at hSecond
    have hJacobian : c.state.jdiff ref args.x .second =
        .ok ⟨.zeros 0 0, Mat.identity c.state.ndx⟩ := by
      rw [Multibody.jdiff, hDiff]
      exact congrArg (fun m => Except.ok (Jacobians.mk (.zeros 0 0) m)) hSecond
    rw [hKind, Residual.linearize, hJacobian]
    rfl
  · intro i y snapshot hi hy _
    obtain ⟨r', hDiff', hr'⟩ := Multibody.exists_diff hModel hRef hy.size
    obtain rfl := hr.along_increment hModel hJoints hy hr'
    rw [hKind, Residual.value, hDiff', ← hr.size]
    rw [← hr.size] at hi
    exact congrArg Except.ok (Vec.add_unit hi)

theorem writeColumns_of_placed {d : CostData ℝ} {k n : Nat} {block rx : Mat ℝ}
    (h : d.rx.placeColumns? k n block = some rx) :
    d.writeColumns k n block = .done { d with rx := rx } := by
  rw [CostData.writeColumns, h]
  rfl

theorem placed_point (hRows : c.nr = 3) {block : Mat ℝ} (hBlock : block.rows = 3)
    (hWidth : block.cols = c.state.nv) :
    (Mat.zeros c.nr c.state.ndx).placeColumns? 0 c.state.nv block =
      some (block.beside (.zeros 3 c.state.nv)) := by
  rw [hRows, Multibody.ndx, Nat.two_mul]
  exact Mat.placeColumns?_zeros hBlock hWidth

theorem exact_com (hModel : c.state.model.WellFormed) (hSnapshot : args.snapshot.Shaped)
    (hAccepted : c.Accepts args c.nr c.state.ndx c.nu) {ref : Vec3 ℝ} (hKind : c.residual = .com ref)
    (hRenews : c.Renews update? h args fun i snapshot => snapshot.com.toVec =
      args.snapshot.com.toVec.along h (args.snapshot.comJacobian.beside (.zeros 3 c.state.nv)) i) :
    c.Exact update? h args (args.snapshot.com - ref).toVec
      (args.snapshot.comJacobian.beside (.zeros 3 c.state.nv)) (.zeros c.nr c.nu) := by
  have hRows : c.nr = 3 := by
    rw [c.nr_eq, hKind]
    rfl
  refine hRenews.exact hModel hAccepted (by rw [hKind]; exact fun _ => nofun) ?_ ?_ ?_
  · rw [hKind]
    rfl
  · have hPlaced := placed_point hRows hSnapshot.com.1 (hSnapshot.com.2.trans hAccepted.snapshot)
    rw [hKind]
    exact writeColumns_of_placed hPlaced
  · intro i y snapshot _ _ hShift
    rw [hKind, Residual.value, Vec3.toVec_sub, hShift, Vec.along_sub, ← Vec3.toVec_sub]

theorem exact_translation (hModel : c.state.model.WellFormed)
    (hAccepted : c.Accepts args c.nr c.state.ndx c.nu) {id : Nat} {ref : Vec3 ℝ}
    {f : FrameKinematics ℝ} (hKind : c.residual = .translation id ref)
    (hFrame : args.snapshot.frame id = .ok f) (hShaped : f.Shaped c.state.nv)
    (hRenews : c.Renews update? h args fun i snapshot => ∃ f', snapshot.frame id = .ok f' ∧
      f'.placement.translation.toVec = f.placement.translation.toVec.along h
        ((f.placement.rotation.toMat3.toMat.mul (f.jacobian.topRows 3)).beside
          (.zeros 3 c.state.nv)) i) :
    c.Exact update? h args (f.placement.translation - ref).toVec
      ((f.placement.rotation.toMat3.toMat.mul (f.jacobian.topRows 3)).beside (.zeros 3 c.state.nv))
      (.zeros c.nr c.nu) := by
  have hRows : c.nr = 3 := by
    rw [c.nr_eq, hKind]
    rfl
  refine hRenews.exact hModel hAccepted (by rw [hKind]; exact fun _ => nofun) ?_ ?_ ?_
  · rw [hKind, Residual.value, hFrame]
    rfl
  · have hTurned : (f.placement.rotation.toMat3.toMat.mul (f.jacobian.topRows 3)).rows = 3 := rfl
    have hPlaced := placed_point hRows hTurned hShaped.jacobian.2
    rw [hKind, Residual.linearize, hFrame]
    exact writeColumns_of_placed hPlaced
  · rintro i y snapshot _ _ ⟨f', hFrame', hShift⟩
    rw [hKind, Residual.value, hFrame', Vec3.toVec_sub f.placement.translation, ← Vec.along_sub,
      ← hShift, ← Vec3.toVec_sub]
    rfl

theorem exact_velocity (hModel : c.state.model.WellFormed)
    (hAccepted : c.Accepts args c.nr c.state.ndx c.nu) {id : Nat} {ref : Motion ℝ}
    {f : FrameKinematics ℝ} (hKind : c.residual = .velocity id ref)
    (hFrame : args.snapshot.frame id = .ok f) (hShaped : f.Shaped c.state.nv)
    (hRenews : c.Renews update? h args fun i snapshot => ∃ f', snapshot.frame id = .ok f' ∧
      f'.velocity.toVec =
        f.velocity.toVec.along h (f.velocityByConfiguration.beside f.velocityByVelocity) i) :
    c.Exact update? h args (f.velocity - ref).toVec
      (f.velocityByConfiguration.beside f.velocityByVelocity) (.zeros c.nr c.nu) := by
  have hRows : c.nr = 6 := by
    rw [c.nr_eq, hKind]
    rfl
  refine hRenews.exact hModel hAccepted (by rw [hKind]; exact fun _ => nofun) ?_ ?_ ?_
  · rw [hKind, Residual.value, hFrame]
    rfl
  · have hPlaced := Mat.placeColumns?_twice (m := .zeros c.nr c.state.ndx) hRows
      (Nat.two_mul c.state.nv) hShaped.byConfiguration hShaped.byVelocity
    obtain ⟨byQ, hByQ, hByV⟩ := Option.bind_eq_some_iff.mp hPlaced
    rw [hKind, Residual.linearize, hFrame]
    change (Outcome.andThen (CostData.writeColumns _ 0 c.state.nv f.velocityByConfiguration) _) = _
    rw [writeColumns_of_placed hByQ, Outcome.andThen_done]
    exact writeColumns_of_placed hByV
  · rintro i y snapshot _ _ ⟨f', hFrame', hShift⟩
    rw [hKind, Residual.value, hFrame', Motion.toVec_sub f.velocity, ← Vec.along_sub, ← hShift,
      ← Motion.toVec_sub]
    rfl

end Kinds

/-- Where the residual is affine, differentiating by differences is done and leaves in fresh data
exactly what differentiating leaves. -/
theorem differences_exact (hModel : c.state.model.Built) (hStep : h ≠ 0)
    (hAccepted : c.Accepts args c.nr c.state.ndx c.nu) (hSnapshot : args.snapshot.Shaped)
    (hAffine : c.Affine update? h args) :
    ∃ d, (Cost.residual c).differentiate args true (Cost.residual c).createData = .done d ∧
      (Cost.differences (.residual c) update? h).differentiate args true
        (Cost.differences (.residual c) update? h).createData = .done d := by
  obtain ⟨es, hEdited⟩ := hModel
  have hModel : c.state.model.WellFormed := hEdited ▸ Model.WellFormed.empty.edited es
  have hFrames : ∀ id f, args.snapshot.frame id = .ok f → f.Shaped c.state.nv := by
    intro id f hFrame
    rw [← hAccepted.snapshot]
    exact Residual.shaped_of_frame hSnapshot (by rw [hFrame]; rfl)
  have hExact : ∃ r rx ru, c.Exact update? h args r rx ru := by
    cases hAffine with
    | control hKind hRenews => exact ⟨_, _, _, exact_control hModel hAccepted hKind hRenews⟩
    | state hKind hJoints hRenews =>
      obtain ⟨r, hr⟩ := exact_state hModel hAccepted hKind hJoints hRenews
      exact ⟨r, _, _, hr⟩
    | com hKind hRenews => exact ⟨_, _, _, exact_com hModel hSnapshot hAccepted hKind hRenews⟩
    | velocity hKind hFrame hRenews =>
      exact ⟨_, _, _, exact_velocity hModel hAccepted hKind hFrame (hFrames _ _ hFrame) hRenews⟩
    | translation hKind hFrame hRenews =>
      exact ⟨_, _, _, exact_translation hModel hAccepted hKind hFrame (hFrames _ _ hFrame) hRenews⟩
  obtain ⟨r, rx, ru, hMoves, hValue, hLinear⟩ := hExact
  exact hMoves.differentiate hStep hAccepted hValue hLinear

def slideRun : List (Model.Edit ℝ) := [.jointWithLimits "slide" .prismatic none (-1) 1]

noncomputable def slide : Multibody ℝ := ⟨(Model.empty : Model ℝ).edited slideRun⟩

theorem model_slide :
    slide.model = ⟨[⟨"slide", .prismatic, none, 0, 0, -1, 1⟩], [⟨"slide", 0⟩], 1, 1⟩ := by
  have hLimits : (-1 : ℝ) ≤ 1 := by norm_num
  simp [slide, slideRun, Model.edited, Model.edit, Model.attempt, Model.addJointWithLimits,
    Model.empty, Model.jointId?, Model.frameId?, Model.checkParent, Model.pushJoint, hLimits,
    JointKind.nq, JointKind.nv]

noncomputable def slideBalance : ResidualCost ℝ where
  state := slide
  activation := .quadratic 3
  nu := 1
  residual := .com .zero
  accepted := rfl
  nu_eq := by
    rintro _ ⟨⟩

noncomputable def slideArgs : Arguments ℝ where
  snapshot := { Snapshot.zeros slide.model with
    com := ⟨1, 0, 0⟩
    comJacobian := .ofFn 3 1 fun i _ => if i = 0 then 1 else 0 }
  x := #[0.5, 0]
  u := #[0]

noncomputable def slideUpdate : KinematicsUpdate ℝ := fun _ snapshot q _ =>
  .ok { snapshot with com := ⟨1 + (q.entry 0 - 0.5), 0, 0⟩ }

theorem size_slideArgs : slideArgs.x.size = slide.nx := by
  rw [Multibody.nx, Multibody.nq, Multibody.nv, model_slide]
  rfl

theorem nv_slide : slide.nv = 1 := by
  rw [Multibody.nv, model_slide]

theorem ndx_slide : slide.ndx = 2 := by
  rw [Multibody.ndx, nv_slide]

theorem configuration_slide {i : Nat} {h : ℝ} {y q v : Vec ℝ}
    (hIntegrate : slide.integrate slideArgs.x ((Vec.zeros slide.ndx).put i h) = .ok y)
    (hSplit : slide.split y = .ok (q, v)) : q.entry 0 = 0.5 + if 0 = i then h else 0 := by
  have hModel : slide.model.WellFormed := Model.WellFormed.empty.edited slideRun
  have hTangent : ((Vec.zeros slide.ndx).put i h).size = slide.ndx :=
    (Vec.size_put ..).trans (Vec.size_zeros _)
  obtain ⟨y', hIntegrate', hy⟩ := Multibody.exists_increment hModel size_slideArgs hTangent
  obtain rfl : y' = y := Except.ok.inj (hIntegrate'.symm.trans hIntegrate)
  obtain ⟨rfl, -⟩ := Prod.mk.inj (Except.ok.inj ((Multibody.split_eq_ok hy.size).symm.trans hSplit))
  have hJoint : (⟨"slide", .prismatic, none, 0, 0, -1, 1⟩ : Joint ℝ) ∈ slide.model.joints := by
    rw [model_slide]
    exact List.mem_singleton_self _
  have hNq : slide.nq = 1 := by
    rw [Multibody.nq, model_slide]
  have hMoved : (y'.slice 0 1).entry 0 =
      (slideArgs.x.slice 0 1).entry 0 + (((Vec.zeros slide.ndx).put i h).slice 0 1).entry 0 :=
    congrArg (fun q : Vec ℝ => q.entry 0) (hy.joint _ hJoint)
  rw [Vec.entry_slice _ Nat.zero_lt_one, Vec.entry_slice _ Nat.zero_lt_one,
    Vec.entry_slice _ Nat.zero_lt_one, Vec.entry_put (by rw [Vec.size_zeros, ndx_slide]; decide),
    Vec.entry_zeros] at hMoved
  rw [Multibody.configuration, Vec.entry_slice _ (by rw [hNq]; decide)]
  exact hMoved

theorem column_slide {k i : Nat} (hk : k < 3) (hi : i < slide.ndx) :
    (slideArgs.snapshot.comJacobian.beside (.zeros 3 slide.nv)).entry k i =
      if k = 0 ∧ i = 0 then 1 else 0 := by
  have hi' : i < 1 + slide.nv := by
    rwa [nv_slide, show 1 + 1 = 2 from rfl, ← ndx_slide]
  have hRows : k < slideArgs.snapshot.comJacobian.rows := hk
  rw [Mat.entry_beside hRows hi']
  by_cases hFirst : i < slideArgs.snapshot.comJacobian.cols
  · obtain rfl : i = 0 := Nat.lt_one_iff.mp hFirst
    rw [if_pos hFirst]
    simp [slideArgs, Mat.entry_ofFn_of_lt hk Nat.zero_lt_one]
  · have hOther : ¬(k = 0 ∧ i = 0) := fun hBoth => hFirst (hBoth.2.symm ▸ Nat.zero_lt_one)
    rw [if_neg hFirst, if_neg hOther, Mat.entry_zeros]

theorem renews_slide : slideBalance.Renews (some slideUpdate) 1e-3 slideArgs fun i snapshot =>
    snapshot.com.toVec = slideArgs.snapshot.com.toVec.along 1e-3
      (slideArgs.snapshot.comJacobian.beside (.zeros 3 slide.nv)) i := by
  intro i hi y q v hIntegrate hSplit
  have hQ : q.entry 0 = 0.5 + if 0 = i then 1e-3 else 0 := configuration_slide hIntegrate hSplit
  refine ⟨_, rfl, rfl, ?_⟩
  apply Vec.ext_entry
  · exact (Vec.size_along ..).symm
  · intro k hk
    have hThree : k < 3 := hk
    rw [Vec.entry_along hThree, column_slide hThree hi]
    interval_cases k
    · change 1 + (q.entry 0 - 0.5) = 1 + 1e-3 * if 0 = 0 ∧ i = 0 then 1 else 0
      rw [hQ]
      by_cases hFirst : i = 0
      · simp [hFirst]
      · simp [hFirst, Ne.symm hFirst]
    · change (0 : ℝ) = 0 + 1e-3 * if 1 = 0 ∧ i = 0 then 1 else 0
      simp
    · change (0 : ℝ) = 0 + 1e-3 * if 2 = 0 ∧ i = 0 then 1 else 0
      simp

theorem differences_exact_slide :
    (slide.model.Built ∧ slideArgs.snapshot.Shaped ∧
      slideBalance.Affine (some slideUpdate) 1e-3 slideArgs) ∧
    ∃ d, (Cost.residual slideBalance).differentiate slideArgs true
        (Cost.residual slideBalance).createData = .done d ∧
      (Cost.differences (.residual slideBalance) (some slideUpdate) 1e-3).differentiate slideArgs true
        (Cost.differences (.residual slideBalance) (some slideUpdate) 1e-3).createData = .done d := by
  have hModel : slide.model.Built := ⟨slideRun, rfl⟩
  have hSnapshot : slideArgs.snapshot.Shaped :=
    ⟨(Snapshot.shaped_zeros slide.model).frames, rfl, nv_slide.symm⟩
  have hAffine : slideBalance.Affine (some slideUpdate) 1e-3 slideArgs := .com rfl renews_slide
  have hAccepted : slideBalance.Accepts slideArgs slideBalance.nr slideBalance.state.ndx
      slideBalance.nu :=
    ⟨size_slideArgs, rfl, rfl, rfl, rfl, rfl⟩
  refine ⟨⟨hModel, hSnapshot, hAffine⟩, ?_⟩
  exact differences_exact hModel (by norm_num) hAccepted hSnapshot hAffine

end ResidualCost

end MultibodyCost
