import MultibodyCost.Proofs.State.Offsets
import MultibodyCost.State.Euclidean

/-! # States of joints with one coordinate

Joints that turn about an axis or slide along one have no orientation to keep. The states of a model
with such joints only are plain vectors, a configuration and a velocity of the same length, and every
operation on them is the one of vectors, down to which pairs of vectors are refused and with which
sizes. The offsets of the joints drop out by way of the product of their manifolds.
-/

namespace MultibodyCost

variable {α : Type}

def JointKind.Single (k : JointKind) : Prop := k = .revolute ∨ k = .prismatic

namespace JointKind.Single

variable {k : JointKind}

theorem nq_eq (h : k.Single) : k.nq = 1 := by
  rcases h with rfl | rfl
  · rfl
  · rfl

theorem nv_eq (h : k.Single) : k.nv = 1 := by
  rcases h with rfl | rfl
  · rfl
  · rfl

theorem neutral_eq [Scalar α] (h : k.Single) : (k.neutral : Vec α).toList = [0] := by
  rcases h with rfl | rfl
  · rfl
  · rfl

variable [Elementary α]

theorem diff_eq (h : k.Single) (a b : α) : (k.diff #[a] #[b]).toList = [b - a] := by
  rcases h with rfl | rfl
  · rfl
  · rfl

theorem integrate_eq (h : k.Single) (a d : α) : (k.integrate #[a] #[d]).toList = [a + d] := by
  rcases h with rfl | rfl
  · rfl
  · rfl

theorem block?_eq_none (h : k.Single) (blocks : Blocks α) (d : Vec α) :
    k.block? blocks d = none := by
  rcases h with rfl | rfl
  · rfl
  · rfl

end JointKind.Single

namespace Product

variable {ks : List JointKind}

theorem sum_nq_of_single (h : ∀ k ∈ ks, k.Single) : (ks.map JointKind.nq).sum = ks.length := by
  rw [List.map_congr_left fun k hk => (h k hk).nq_eq, List.map_const', List.sum_replicate,
    smul_eq_mul, mul_one]

theorem sum_nv_of_single (h : ∀ k ∈ ks, k.Single) : (ks.map JointKind.nv).sum = ks.length := by
  rw [List.map_congr_left fun k hk => (h k hk).nv_eq, List.map_const', List.sum_replicate,
    smul_eq_mul, mul_one]

variable [Elementary α]

theorem zero_of_single (h : ∀ k ∈ ks, k.Single) :
    zero ks = List.replicate (2 * ks.length) (0 : α) := by
  have hNeutral : (ks.flatMap fun k => (k.neutral : Vec α).toList) =
      List.replicate ks.length 0 := by
    rw [List.flatMap_congr fun k hk => (h k hk).neutral_eq, ← List.map_eq_flatMap, List.map_const']
  rw [zero, hNeutral, sum_nv_of_single h, List.replicate_append_replicate, Nat.two_mul]

theorem diff_of_single (h : ∀ k ∈ ks, k.Single) {x0 x1 : List α} (h0 : ks.length ≤ x0.length)
    (h1 : ks.length ≤ x1.length) : diff ks x0 x1 = List.zipWith (fun b a => b - a) x1 x0 := by
  induction ks generalizing x0 x1 with
  | nil => rfl
  | cons k ks ih =>
    obtain ⟨hk, hks⟩ := List.forall_mem_cons.mp h
    obtain ⟨a, x0, rfl⟩ := List.exists_cons_of_length_pos (Nat.zero_lt_of_lt h0)
    obtain ⟨b, x1, rfl⟩ := List.exists_cons_of_length_pos (Nat.zero_lt_of_lt h1)
    rw [diff_cons, hk.nq_eq]
    change (k.diff #[a] #[b]).toList ++ diff ks x0 x1 = _
    rw [hk.diff_eq, ih hks (Nat.le_of_succ_le_succ h0) (Nat.le_of_succ_le_succ h1)]
    rfl

theorem integrate_of_single (h : ∀ k ∈ ks, k.Single) {x dx : List α} (hx : ks.length ≤ x.length)
    (hdx : ks.length ≤ dx.length) : integrate ks x dx = List.zipWith (fun a b => a + b) x dx := by
  induction ks generalizing x dx with
  | nil => rfl
  | cons k ks ih =>
    obtain ⟨hk, hks⟩ := List.forall_mem_cons.mp h
    obtain ⟨a, x, rfl⟩ := List.exists_cons_of_length_pos (Nat.zero_lt_of_lt hx)
    obtain ⟨d, dx, rfl⟩ := List.exists_cons_of_length_pos (Nat.zero_lt_of_lt hdx)
    rw [integrate_cons, hk.nq_eq, hk.nv_eq]
    change (k.integrate #[a] #[d]).toList ++ integrate ks x dx = _
    rw [hk.integrate_eq, ih hks (Nat.le_of_succ_le_succ hx) (Nat.le_of_succ_le_succ hdx)]
    rfl

end Product

theorem Vec.toArray_zipWith [Scalar α] (f : α → α → α) {v w : Vec α} (h : v.size = w.size) :
    (List.zipWith f v.toList w.toList).toArray =
      Vec.ofFn v.size fun i => f (v.entry i) (w.entry i) := by
  have hSize : (List.zipWith f v.toList w.toList).length = v.size := by
    rw [List.length_zipWith, Array.length_toList, Array.length_toList, h, Nat.min_self]
  apply Vec.ext_entry (by rw [List.size_toArray, hSize, Vec.size_ofFn])
  intro i hi
  rw [List.size_toArray, hSize] at hi
  rw [Vec.entry_ofFn_of_lt hi, Vec.entry_eq_getElem _ (by rw [List.size_toArray, hSize]; exact hi),
    Vec.entry_eq_getElem v hi, Vec.entry_eq_getElem w (h ▸ hi), List.getElem_toArray,
    List.getElem_zipWith, Array.getElem_toList, Array.getElem_toList]

/-- Two operations on pairs of vectors of length `n`: of such pairs they make the same, and every
other pair both refuse for the same size, whatever they call the vector that has it. -/
structure SameOn {β : Type} (n : Nat) (f g : Vec α → Vec α → Except (ModelError α) β) : Prop where
  answer : ∀ x y, x.size = n → y.size = n → ∃ b, f x y = .ok b ∧ g x y = .ok b
  refusal : ∀ x y, ¬(x.size = n ∧ y.size = n) → ∃ ofF ofG got,
    f x y = .error (.dimension ⟨ofF, n, got⟩) ∧ g x y = .error (.dimension ⟨ofG, n, got⟩) ∧
      got ≠ n ∧ (got = x.size ∨ got = y.size)

structure Multibody.IsEuclidean [Elementary α] (s : Multibody α) (e : Euclidean) : Prop where
  nx : s.nx = e.nx
  ndx : s.ndx = e.ndx
  zero : s.zero = e.zero
  diff : SameOn e.nx s.diff e.diff
  integrate : SameOn e.nx s.integrate e.integrate
  jdiff : ∀ wanted,
    SameOn e.nx (fun x0 x1 => s.jdiff x0 x1 wanted) fun x0 x1 => e.jdiff x0 x1 wanted
  jintegrate : ∀ wanted,
    SameOn e.nx (fun x dx => s.jintegrate x dx wanted) fun x dx => e.jintegrate x dx wanted

namespace Euclidean

variable {e : Euclidean} {x y : Vec α}

theorem check_eq_ok (hx : x.size = e.nx) (hy : y.size = e.nx) : e.check x y = .ok () := by
  simp [check, ModelError.check, Dimension.mismatch?, hx, hy]

theorem exists_check_eq_error (h : ¬(x.size = e.nx ∧ y.size = e.nx)) :
    ∃ got, e.check x y = .error (.dimension ⟨.state, e.nx, got⟩) ∧ got ≠ e.nx ∧
      (got = x.size ∧ x.size ≠ e.nx ∨ got = y.size ∧ x.size = e.nx) := by
  by_cases hx : x.size = e.nx
  · have hy : y.size ≠ e.nx := fun hy => h ⟨hx, hy⟩
    refine ⟨y.size, ?_, hy, .inr ⟨rfl, hx⟩⟩
    exact ModelError.check_eq_error_iff.mpr (.inr ⟨hx, ModelError.check_eq_error_iff.mpr
      (.inl ⟨hy, rfl⟩)⟩)
  · exact ⟨x.size, ModelError.check_eq_error_iff.mpr (.inl ⟨hx, rfl⟩), hx, .inl ⟨rfl, hx⟩⟩

end Euclidean

namespace Multibody

theorem sameOn_of_checks {β : Type} {s : Multibody α} {e : Euclidean} (hNx : s.nx = e.nx)
    {quantity : Quantity} {f g : Vec α → Vec α → Except (ModelError α) β}
    (hAnswer : ∀ x y, x.size = e.nx → y.size = e.nx → ∃ b, f x y = .ok b ∧ g x y = .ok b)
    (hf : ∀ x y err, f x y = .error err ↔ s.RefusedLengths x y quantity e.nx err)
    (hg : ∀ x y err, e.check x y = .error err → g x y = .error err) : SameOn e.nx f g where
  answer := hAnswer
  refusal x y h := by
    obtain ⟨got, hCheck, hGot, hWrong⟩ := Euclidean.exists_check_eq_error h
    refine ⟨if x.size = e.nx then quantity else .state, .state, got, (hf x y _).mpr ?_,
      hg x y _ hCheck, hGot, hWrong.imp And.left And.left⟩
    unfold RefusedLengths
    rw [hNx]
    rcases hWrong with ⟨rfl, hx⟩ | ⟨rfl, hx⟩
    · rw [if_neg hx]
      exact .inl ⟨hx, rfl⟩
    · rw [if_pos hx]
      exact .inr ⟨hx, hGot, rfl⟩

section Single

variable [Elementary α] {s : Multibody α}

omit [Elementary α] in
theorem forall_kinds_single (h : ∀ j ∈ s.model.joints, j.kind.Single) :
    ∀ k ∈ s.kinds, k.Single := by
  intro k hk
  obtain ⟨j, hj, rfl⟩ := List.mem_map.mp hk
  exact h j hj

theorem blockJacobian_of_single (h : ∀ j ∈ s.model.joints, j.kind.Single) (sign : α)
    (blocks : JointKind.Blocks α) (d : Vec α) :
    s.blockJacobian sign blocks d = (Mat.identity s.ndx).scale sign := by
  unfold blockJacobian
  generalize (Mat.identity s.ndx).scale sign = start
  -- No joint writes a block, so the fold hands on what it starts from.
  generalize s.model.joints = js at h
  induction js with
  | nil => rfl
  | cons j js ih =>
    obtain ⟨hj, hjs⟩ := List.forall_mem_cons.mp h
    rw [List.foldl_cons, hj.block?_eq_none]
    exact ih hjs

variable (hModel : s.model.WellFormed) (h : ∀ j ∈ s.model.joints, j.kind.Single)

include hModel h

theorem nx_of_single : s.nx = s.kinds.length + s.kinds.length ∧ s.ndx = s.nx := by
  have hKinds := forall_kinds_single h
  have hQ : s.nq = s.kinds.length := (nq_eq_sum hModel).trans (Product.sum_nq_of_single hKinds)
  have hV : s.nv = s.kinds.length := (nv_eq_sum hModel).trans (Product.sum_nv_of_single hKinds)
  rw [nx, ndx, hQ, hV, Nat.two_mul]
  exact ⟨rfl, rfl⟩

theorem zero_of_single : s.zero = Vec.zeros s.nx := by
  have hSize := (nx_of_single hModel h).1
  rw [(isProduct hModel).zero, Product.zero_of_single (forall_kinds_single h)]
  apply Vec.ext_entry
  · rw [List.size_toArray, List.length_replicate, Vec.size_zeros, hSize, Nat.two_mul]
  · intro i hi
    rw [Vec.entry_eq_getElem _ hi, Vec.entry_zeros, List.getElem_toArray, List.getElem_replicate]

theorem diff_of_single {x0 x1 : Vec α} (h0 : x0.size = s.nx) (h1 : x1.size = s.nx) :
    s.diff x0 x1 = .ok (x1.sub x0) := by
  have hFits : s.kinds.length ≤ s.nx := by
    rw [(nx_of_single hModel h).1]
    exact Nat.le_add_right _ _
  rw [(isProduct hModel).diff x0 x1 h0 h1, Product.diff_of_single (forall_kinds_single h)
    (hFits.trans h0.ge) (hFits.trans h1.ge), Vec.toArray_zipWith _ (h1.trans h0.symm)]
  rfl

theorem integrate_of_single {x dx : Vec α} (hx : x.size = s.nx) (hdx : dx.size = s.nx) :
    s.integrate x dx = .ok (x.add dx) := by
  obtain ⟨hSize, hTangent⟩ := nx_of_single hModel h
  have hFits : s.kinds.length ≤ s.nx := by
    rw [hSize]
    exact Nat.le_add_right _ _
  rw [(isProduct hModel).integrate x dx hx (hdx.trans hTangent.symm),
    Product.integrate_of_single (forall_kinds_single h) (hFits.trans hx.ge) (hFits.trans hdx.ge),
    Vec.toArray_zipWith _ (hx.trans hdx.symm)]
  rfl

end Single

theorem isEuclidean {s : Multibody ℝ} (hModel : s.model.WellFormed)
    (h : ∀ j ∈ s.model.joints, j.kind.Single) {e : Euclidean} (hNx : s.nx = e.nx) :
    s.IsEuclidean e := by
  have hNdx : s.ndx = e.nx := (nx_of_single hModel h).2.trans hNx
  have hLengths := s.checksLengths
  constructor
  case nx => exact hNx
  case ndx => exact hNdx
  case zero => rw [zero_of_single hModel h, hNx, Euclidean.zero]
  case diff =>
    refine sameOn_of_checks hNx ?_ (hNx ▸ hLengths.diff)
      fun x y err hErr => bind_eq_error.mpr (.inl hErr)
    intro x0 x1 h0 h1
    refine ⟨_, diff_of_single hModel h (h0.trans hNx.symm) (h1.trans hNx.symm), ?_⟩
    rw [Euclidean.diff, Euclidean.check_eq_ok h0 h1]
    rfl
  case integrate =>
    refine sameOn_of_checks hNx ?_ (hNdx ▸ hLengths.integrate)
      fun x y err hErr => bind_eq_error.mpr (.inl hErr)
    intro x dx hx hdx
    refine ⟨_, integrate_of_single hModel h (hx.trans hNx.symm) (hdx.trans hNx.symm), ?_⟩
    rw [Euclidean.integrate, Euclidean.check_eq_ok hx hdx]
    rfl
  case jdiff =>
    intro wanted
    refine sameOn_of_checks hNx ?_ (hNx ▸ hLengths.jdiff wanted)
      fun x y err hErr => bind_eq_error.mpr (.inl hErr)
    intro x0 x1 h0 h1
    refine ⟨_, ?_, by rw [Euclidean.jdiff, Euclidean.check_eq_ok h0 h1]; rfl⟩
    rw [jdiff, diff_of_single hModel h (h0.trans hNx.symm) (h1.trans hNx.symm)]
    simp only [blockJacobian_of_single h, Mat.scale_one, hNdx]
    rfl
  case jintegrate =>
    intro wanted
    refine sameOn_of_checks hNx ?_ (hNdx ▸ hLengths.jintegrate wanted)
      fun x y err hErr => bind_eq_error.mpr (.inl hErr)
    intro x dx hx hdx
    refine ⟨_, ?_, by rw [Euclidean.jintegrate, Euclidean.check_eq_ok hx hdx]; rfl⟩
    rw [jintegrate, checkStep_eq_ok (hx.trans hNx.symm) (hdx.trans hNdx.symm)]
    simp only [blockJacobian_of_single h, Mat.scale_one, hNdx]
    rfl

/-- The states of every built model whose joints all have one coordinate are the vectors of twice its
number of velocities, with the operations of vectors. -/
theorem single_joints_euclidean (es : List (Model.Edit ℝ)) :
    let s : Multibody ℝ := ⟨(Model.empty : Model ℝ).edited es⟩
    (∀ j ∈ s.model.joints, j.kind = .revolute ∨ j.kind = .prismatic) →
      s.IsEuclidean ⟨2 * s.nv⟩ := by
  intro s h
  have hModel : s.model.WellFormed := Model.WellFormed.empty.edited es
  exact isEuclidean hModel h (nx_of_single hModel h).2.symm

def craneRun : List (Model.Edit ℝ) :=
  [.jointWithLimits "rail" .prismatic none (-5) 5, .jointWithLimits "boom" .revolute (some 0) (-1) 1,
    .jointWithLimits "trolley" .prismatic (some 1) 0 3]

noncomputable def crane : Multibody ℝ := ⟨(Model.empty : Model ℝ).edited craneRun⟩

theorem model_crane : crane.model =
    ⟨[⟨"rail", .prismatic, none, 0, 0, -5, 5⟩, ⟨"boom", .revolute, some 0, 1, 1, -1, 1⟩,
      ⟨"trolley", .prismatic, some 1, 2, 2, 0, 3⟩],
     [⟨"rail", 0⟩, ⟨"boom", 1⟩, ⟨"trolley", 2⟩], 3, 3⟩ := by
  have hRail : (-5 : ℝ) ≤ 5 := by norm_num
  have hBoom : (-1 : ℝ) ≤ 1 := by norm_num
  simp [crane, craneRun, Model.edited, Model.edit, Model.attempt, Model.addJointWithLimits,
    Model.empty, Model.jointId?, Model.frameId?, Model.checkParent, Model.pushJoint, hRail, hBoom,
    JointKind.nq, JointKind.nv]

theorem single_joints_euclidean_crane :
    (∀ j ∈ crane.model.joints, j.kind = .revolute ∨ j.kind = .prismatic) ∧
      crane.IsEuclidean ⟨6⟩ ∧
      ∃ d, crane.diff #[0, 1, 2, 0, 0, 0] #[1, 1, 1, 4, 5, 6] = .ok d ∧
        (Euclidean.mk 6).diff #[0, 1, 2, 0, 0, 0] #[1, 1, 1, 4, 5, 6] = .ok d := by
  have hKinds : ∀ j ∈ crane.model.joints, j.kind = .revolute ∨ j.kind = .prismatic := by
    rw [model_crane]
    simp
  have hNv : crane.nv = 3 := by
    rw [nv, model_crane]
  have hEuclidean : crane.IsEuclidean ⟨2 * crane.nv⟩ := single_joints_euclidean craneRun hKinds
  rw [hNv] at hEuclidean
  exact ⟨hKinds, hEuclidean, hEuclidean.diff.answer _ _ rfl rfl⟩

end Multibody

end MultibodyCost
