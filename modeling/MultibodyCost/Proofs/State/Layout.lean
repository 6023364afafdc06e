import MultibodyCost.Proofs.Cost.Preserved
import MultibodyCost.Proofs.Linear.Slices
import MultibodyCost.Proofs.Model.WellFormed

/-! # Slices of a state

The slices of the joints of a built model follow one another without gaps. Writing one block for
each joint therefore leaves every block readable at its slice, and a vector is determined by its
slices. From this the difference and the increment of states are described without any offset
arithmetic: joint by joint on the slices, and entry by entry on the velocities.
-/

namespace MultibodyCost

namespace Tiles

variable {start stop : Nat} {slices : List (Nat × Nat)}

theorem start_le_stop (h : Tiles start stop slices) : start ≤ stop := by
  induction slices generalizing start with
  | nil => exact Nat.le_of_eq h
  | cons slice rest ih => exact Nat.le_of_add_right_le (ih h.2)

theorem bounds_of_mem (h : Tiles start stop slices) {slice : Nat × Nat} (hMem : slice ∈ slices) :
    start ≤ slice.1 ∧ slice.1 + slice.2 ≤ stop := by
  induction slices generalizing start with
  | nil => cases hMem
  | cons first rest ih =>
    obtain ⟨hFirst, hRest⟩ := h
    rcases List.mem_cons.mp hMem with rfl | hMem
    · have := hRest.start_le_stop
      omega
    · have := ih hRest hMem
      omega

theorem exists_slice (h : Tiles start stop slices) {k : Nat} (hStart : start ≤ k) (hStop : k < stop) :
    ∃ slice ∈ slices, slice.1 ≤ k ∧ k < slice.1 + slice.2 := by
  induction slices generalizing start with
  | nil =>
    obtain rfl : start = stop := h
    omega
  | cons first rest ih =>
    obtain ⟨hFirst, hRest⟩ := h
    by_cases hk : k < first.1 + first.2
    · exact ⟨first, List.mem_cons_self, by omega, hk⟩
    · obtain ⟨slice, hMem, hSlice⟩ := ih hRest (by omega)
      exact ⟨slice, List.mem_cons_of_mem first hMem, hSlice⟩

end Tiles

variable {α : Type}

namespace Vec

variable [Scalar α] {ι : Type} {offset width : ι → Nat} {block : ι → Vec α}

theorem slice_foldl_place_of_disjoint {xs : List ι} {i n : Nat}
    (h : ∀ x ∈ xs, i + n ≤ offset x) {v : Vec α} (hv : i + n ≤ v.size) :
    (xs.foldl (fun v x => v.place (offset x) (block x)) v).slice i n = v.slice i n := by
  induction xs generalizing v with
  | nil => rfl
  | cons x xs ih =>
    rw [List.foldl_cons, ih (fun y hy => h y (List.mem_cons_of_mem x hy)) (by rwa [size_place])]
    exact slice_place_of_disjoint v (block x) hv (.inl (h x List.mem_cons_self))

theorem slice_foldl_place {xs : List ι} (hWidth : ∀ x, (block x).size = width x) {start stop : Nat}
    (hTiles : Tiles start stop (xs.map fun x => (offset x, width x))) {out : Vec α}
    (hOut : stop ≤ out.size) {x : ι} (hx : x ∈ xs) :
    (xs.foldl (fun v x => v.place (offset x) (block x)) out).slice (offset x) (width x) =
      block x := by
  induction xs generalizing start out with
  | nil => cases hx
  | cons y ys ih =>
    obtain ⟨hFirst, hRest⟩ := hTiles
    replace hFirst : offset y = start := hFirst
    rw [List.foldl_cons]
    -- The block written first survives the others, which all lie behind it.
    rcases List.mem_cons.mp hx with rfl | hx
    · have hFits : offset x + width x ≤ out.size := by
        have hLe : start + width x ≤ stop := hRest.start_le_stop
        omega
      have hBehind : ∀ z ∈ ys, offset x + width x ≤ offset z := by
        intro z hz
        have hBounds : start + width x ≤ offset z :=
          (hRest.bounds_of_mem (List.mem_map_of_mem hz)).1
        omega
      rw [slice_foldl_place_of_disjoint hBehind (by rwa [size_place])]
      rw [← hWidth x] at hFits ⊢
      exact slice_place out (block x) hFits
    · exact ih hRest (by rwa [size_place]) hx

end Vec

namespace Multibody

variable [Elementary α]

structure IsDiff (s : Multibody α) (x0 x1 dx : Vec α) : Prop where
  size : dx.size = s.ndx
  joint : ∀ j ∈ s.model.joints, dx.slice j.idxV j.kind.nv =
    j.kind.diff (x0.slice j.idxQ j.kind.nq) (x1.slice j.idxQ j.kind.nq)
  velocity : ∀ k, k < s.nv →
    dx.entry (s.nv + k) = x1.entry (s.nq + k) - x0.entry (s.nq + k)

structure IsIncrement (s : Multibody α) (x dx y : Vec α) : Prop where
  size : y.size = s.nx
  joint : ∀ j ∈ s.model.joints, y.slice j.idxQ j.kind.nq =
    j.kind.integrate (x.slice j.idxQ j.kind.nq) (dx.slice j.idxV j.kind.nv)
  velocity : ∀ k, k < s.nv →
    y.entry (s.nq + k) = x.entry (s.nq + k) + dx.entry (s.nv + k)

omit [Elementary α] in
theorem checkState_eq_ok {s : Multibody α} {x : Vec α} (hx : x.size = s.nx) :
    s.checkState x = .ok () := by
  simp [checkState, ModelError.check, Dimension.mismatch?, hx]

theorem split_eq_ok {s : Multibody α} {x : Vec α} (hx : x.size = s.nx) :
    s.split x = .ok (s.configuration x, s.velocity x) := by
  rw [split, checkState_eq_ok hx]
  rfl

theorem exists_diff {s : Multibody α} (h : s.model.WellFormed) {x0 x1 : Vec α}
    (h0 : x0.size = s.nx) (h1 : x1.size = s.nx) :
    ∃ dx, s.diff x0 x1 = .ok dx ∧ s.IsDiff x0 x1 dx := by
  refine ⟨_, by rw [diff, checkState_eq_ok h0, checkState_eq_ok h1]; rfl, ?_⟩
  have hSize : (s.placeDiffs x0 x1 (Vec.zeros s.ndx)).size = s.ndx := by
    rw [placeDiffs, size_foldl_place, Vec.size_zeros]
  have hBlock : ((s.velocity x1).sub (s.velocity x0)).size = s.nv :=
    (Vec.size_sub _ _).trans (Vec.size_slice _ _ _)
  have hTwice : s.ndx = s.nv + s.nv := Nat.two_mul s.nv
  constructor
  · rw [Vec.size_place, hSize]
  · intro j hj
    have hBounds : j.idxV + j.kind.nv ≤ s.nv := (h.tilesV.bounds_of_mem (List.mem_map_of_mem hj)).2
    rw [Vec.slice_place_of_disjoint _ _ (by omega) (.inl hBounds)]
    exact Vec.slice_foldl_place (fun j => JointKind.size_diff _ _ _) h.tilesV
      (by rw [Vec.size_zeros]; change s.nv ≤ s.ndx; omega) hj
  · intro k hk
    rw [Vec.entry_place_of_mem _ _ (by omega) (by omega), Vec.sub,
      Vec.entry_ofFn_of_lt (by rwa [velocity, Vec.size_slice]), velocity, velocity,
      Vec.entry_slice _ hk, Vec.entry_slice _ hk]

omit [Elementary α] in
theorem checkStep_eq_ok {s : Multibody α} {x dx : Vec α} (hx : x.size = s.nx)
    (hdx : dx.size = s.ndx) : s.checkStep x dx = .ok () := by
  simp [checkStep, ModelError.check, Dimension.mismatch?, hx, hdx]

theorem exists_increment {s : Multibody α} (h : s.model.WellFormed) {x dx : Vec α}
    (hx : x.size = s.nx) (hdx : dx.size = s.ndx) :
    ∃ y, s.integrate x dx = .ok y ∧ s.IsIncrement x dx y := by
  refine ⟨_, by rw [integrate, checkStep_eq_ok hx hdx]; rfl, ?_⟩
  have hSize : (s.placeIncrements x dx (Vec.zeros s.nx)).size = s.nx := by
    rw [placeIncrements, size_foldl_place, Vec.size_zeros]
  have hBlock : ((s.velocity x).add (dx.slice s.nv s.nv)).size = s.nv :=
    (Vec.size_add _ _).trans (Vec.size_slice _ _ _)
  have hSum : s.nx = s.nq + s.nv := rfl
  constructor
  · rw [Vec.size_place, hSize]
  · intro j hj
    have hBounds : j.idxQ + j.kind.nq ≤ s.nq := (h.tilesQ.bounds_of_mem (List.mem_map_of_mem hj)).2
    rw [Vec.slice_place_of_disjoint _ _ (by omega) (.inl hBounds)]
    exact Vec.slice_foldl_place (fun j => JointKind.size_integrate _ _ _) h.tilesQ
      (by rw [Vec.size_zeros]; change s.nq ≤ s.nx; omega) hj
  · intro k hk
    rw [Vec.entry_place_of_mem _ _ (by omega) (by omega), Vec.add,
      Vec.entry_ofFn_of_lt (by rwa [velocity, Vec.size_slice]), velocity,
      Vec.entry_slice _ hk, Vec.entry_slice _ hk]

theorem ext_tangent {s : Multibody α} (h : s.model.WellFormed) {a b : Vec α}
    (ha : a.size = s.ndx) (hb : b.size = s.ndx)
    (hJoint : ∀ j ∈ s.model.joints, a.slice j.idxV j.kind.nv = b.slice j.idxV j.kind.nv)
    (hVelocity : ∀ k, k < s.nv → a.entry (s.nv + k) = b.entry (s.nv + k)) : a = b := by
  apply Vec.ext_entry (ha.trans hb.symm)
  intro k hk
  by_cases hFront : k < s.nv
  · obtain ⟨slice, hMem, hStart, hStop⟩ := h.tilesV.exists_slice (Nat.zero_le k) hFront
    obtain ⟨j, hj, rfl⟩ := List.mem_map.mp hMem
    exact Vec.entry_of_slice_eq (hJoint j hj) hStart hStop
  · have hTwice : s.ndx = s.nv + s.nv := Nat.two_mul s.nv
    have hEntry := hVelocity (k - s.nv) (by omega)
    rwa [Nat.add_sub_cancel' (Nat.le_of_not_lt hFront)] at hEntry

theorem ext_state {s : Multibody α} (h : s.model.WellFormed) {a b : Vec α}
    (ha : a.size = s.nx) (hb : b.size = s.nx)
    (hJoint : ∀ j ∈ s.model.joints, a.slice j.idxQ j.kind.nq = b.slice j.idxQ j.kind.nq)
    (hVelocity : ∀ k, k < s.nv → a.entry (s.nq + k) = b.entry (s.nq + k)) : a = b := by
  apply Vec.ext_entry (ha.trans hb.symm)
  intro k hk
  by_cases hFront : k < s.nq
  · obtain ⟨slice, hMem, hStart, hStop⟩ := h.tilesQ.exists_slice (Nat.zero_le k) hFront
    obtain ⟨j, hj, rfl⟩ := List.mem_map.mp hMem
    exact Vec.entry_of_slice_eq (hJoint j hj) hStart hStop
  · have hSum : s.nx = s.nq + s.nv := rfl
    have hEntry := hVelocity (k - s.nq) (by omega)
    rwa [Nat.add_sub_cancel' (Nat.le_of_not_lt hFront)] at hEntry

end Multibody

end MultibodyCost
