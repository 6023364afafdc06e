import MultibodyCost.Proofs.State.Product

/-! # Jacobians on the diagonal

The Jacobian of an operation is written over a multiple of the identity, block by block at the
offsets of the joints. Every entry of it is an entry of the block of one joint or one that stood
there before, so it is the matrix that has the blocks along its diagonal in the order of the joints.
-/

namespace MultibodyCost

variable {α : Type}

namespace Mat

section Places

variable [Scalar α] {ι : Type} {offset width : ι → Nat} {block? : ι → Option (Mat α)}

/-- Writes a block, if there is one, on the diagonal. -/
def placeDiagonal (m : Mat α) (o : Nat) (block? : Option (Mat α)) : Mat α :=
  match block? with
  | some b => m.place o o b
  | none => m

def placeBlocks (offset : ι → Nat) (block? : ι → Option (Mat α)) (xs : List ι) (m : Mat α) : Mat α :=
  xs.foldl (fun m x => m.placeDiagonal (offset x) (block? x)) m

theorem shape_placeDiagonal (m : Mat α) (o : Nat) (block? : Option (Mat α)) :
    (m.placeDiagonal o block?).rows = m.rows ∧ (m.placeDiagonal o block?).cols = m.cols := by
  cases block? with
  | none => exact ⟨rfl, rfl⟩
  | some b => exact ⟨rfl, rfl⟩

variable (hWidth : ∀ x b, block? x = some b → b.rows = width x ∧ b.cols = width x)
include hWidth

theorem entry_placeDiagonal_of_not_mem (m : Mat α) (x : ι) {i j : Nat}
    (h : ¬(offset x ≤ i ∧ i < offset x + width x ∧ offset x ≤ j ∧ j < offset x + width x)) :
    (m.placeDiagonal (offset x) (block? x)).entry i j = m.entry i j := by
  cases hBlock : block? x with
  | none => rfl
  | some b =>
    obtain ⟨hRows, hCols⟩ := hWidth x b hBlock
    apply entry_place_of_not_mem
    rwa [hRows, hCols]

theorem entry_placeBlocks_of_not_mem {xs : List ι} {m : Mat α} {i j : Nat}
    (h : ∀ x ∈ xs, ¬(offset x ≤ i ∧ i < offset x + width x ∧ offset x ≤ j ∧ j < offset x + width x)) :
    (placeBlocks offset block? xs m).entry i j = m.entry i j := by
  induction xs generalizing m with
  | nil => rfl
  | cons x xs ih =>
    rw [placeBlocks, List.foldl_cons]
    refine (ih fun y hy => h y (List.mem_cons_of_mem x hy)).trans ?_
    exact entry_placeDiagonal_of_not_mem hWidth m x (h x List.mem_cons_self)

theorem entry_placeBlocks {xs : List ι} {start stop : Nat}
    (hTiles : Tiles start stop (xs.map fun x => (offset x, width x))) {m : Mat α}
    (hRows : stop ≤ m.rows) (hCols : stop ≤ m.cols) {x : ι} (hx : x ∈ xs) {i j : Nat}
    (hi : i < width x) (hj : j < width x) :
    (placeBlocks offset block? xs m).entry (offset x + i) (offset x + j) =
      (m.placeDiagonal (offset x) (block? x)).entry (offset x + i) (offset x + j) := by
  induction xs generalizing start m with
  | nil => cases hx
  | cons y ys ih =>
    obtain ⟨hFirst, hRest⟩ := hTiles
    replace hFirst : offset y = start := hFirst
    have hBehind : ∀ z ∈ ys, start + width y ≤ offset z := fun z hz =>
      (hRest.bounds_of_mem (List.mem_map_of_mem hz)).1
    rw [placeBlocks, List.foldl_cons]
    rcases List.mem_cons.mp hx with rfl | hx
    · apply entry_placeBlocks_of_not_mem hWidth
      intro z hz
      have := hBehind z hz
      omega
    · have hAfter := hBehind x hx
      obtain ⟨hRows', hCols'⟩ := m.shape_placeDiagonal (offset y) (block? y)
      refine (ih hRest (hRows.trans hRows'.ge) (hCols.trans hCols'.ge) hx).trans ?_
      -- The block in front does not reach the entry, whether it is written over or not.
      cases hBlock : block? x with
      | none =>
        apply entry_placeDiagonal_of_not_mem hWidth
        omega
      | some b =>
        obtain ⟨hHigh, hWide⟩ := hWidth x b hBlock
        have hEnd : offset x + width x ≤ stop :=
          (hRest.bounds_of_mem (List.mem_map_of_mem hx)).2
        change ((m.placeDiagonal _ _).place _ _ b).entry _ _ = (m.place _ _ b).entry _ _
        rw [entry_place_of_mem _ b (by omega) (by omega) (by omega) (by omega),
          entry_place_of_mem _ b (by omega) (by omega) (by omega) (by omega)]

end Places

def corner [Scalar α] (m : Mat α) (o : Nat) : Mat α :=
  ofFn (m.rows - o) (m.cols - o) fun i j => m.entry (o + i) (o + j)

theorem entry_corner [Scalar α] {m : Mat α} {o i j : Nat} (hi : o + i < m.rows) (hj : o + j < m.cols) :
    (m.corner o).entry i j = m.entry (o + i) (o + j) :=
  entry_ofFn_of_lt (by omega) (by omega)

theorem corner_zero [Scalar α] (m : Mat α) : m.corner 0 = m := by
  refine ext_entry (a := m.corner 0) (Nat.sub_zero m.rows) (Nat.sub_zero m.cols) ?_
  intro i j hi hj
  replace hi : i < m.rows - 0 := hi
  replace hj : j < m.cols - 0 := hj
  rw [entry_corner (by omega) (by omega), Nat.zero_add, Nat.zero_add]

theorem entry_scale_identity [Scalar α] (sign : α) {n i j : Nat} (hi : i < n) (hj : j < n) :
    ((identity n).scale sign).entry i j = (if i = j then 1 else 0) * sign := by
  rw [← entry_identity hi hj]
  exact entry_ofFn_of_lt (f := fun i j => (identity n : Mat α).entry i j * sign) hi hj

end Mat

def Joint.InBlock (j : Joint α) (i k : Nat) : Prop :=
  j.idxV ≤ i ∧ i < j.idxV + j.kind.nv ∧ j.idxV ≤ k ∧ k < j.idxV + j.kind.nv

section Blocks

variable [Elementary α]

theorem JointKind.shape_block? {k : JointKind} {blocks : Blocks α} {d : Vec α} {b : Mat α}
    (h : k.block? blocks d = some b) : b.rows = k.nv ∧ b.cols = k.nv := by
  cases k <;> cases h <;> exact ⟨rfl, rfl⟩

theorem JointKind.shape_block (k : JointKind) (sign : α) (blocks : Blocks α) (d : Vec α) :
    (k.block sign blocks d).rows = k.nv ∧ (k.block sign blocks d).cols = k.nv := by
  cases k <;> exact ⟨rfl, rfl⟩

namespace Multibody

variable {s : Multibody α} {sign : α} {blocks : JointKind.Blocks α} {d : Vec α}

structure IsBlocks (s : Multibody α) (sign : α) (blocks : JointKind.Blocks α) (d : Vec α)
    (m : Mat α) : Prop where
  rows : m.rows = s.ndx
  cols : m.cols = s.ndx
  joint : ∀ j ∈ s.model.joints, ∀ i k, i < j.kind.nv → k < j.kind.nv →
    m.entry (j.idxV + i) (j.idxV + k) =
      (j.kind.block sign blocks (d.slice j.idxV j.kind.nv)).entry i k
  outside : ∀ i k, i < s.ndx → k < s.ndx → (∀ j ∈ s.model.joints, ¬j.InBlock i k) →
    m.entry i k = (if i = k then 1 else 0) * sign

theorem isBlocks_blockJacobian (h : s.model.WellFormed) (sign : α) (blocks : JointKind.Blocks α)
    (d : Vec α) : s.IsBlocks sign blocks d (s.blockJacobian sign blocks d) := by
  have hPlaced : s.blockJacobian sign blocks d = Mat.placeBlocks Joint.idxV
      (fun j => j.kind.block? blocks (d.slice j.idxV j.kind.nv)) s.model.joints
      ((Mat.identity s.ndx).scale sign) := rfl
  have hFits : s.nv ≤ s.ndx := Nat.le_mul_of_pos_left _ Nat.zero_lt_two
  have hHigh : s.nv ≤ ((Mat.identity s.ndx).scale sign).rows := hFits
  have hWide : s.nv ≤ ((Mat.identity s.ndx).scale sign).cols := hFits
  obtain ⟨hRows, hCols⟩ := s.blockJacobian_shape sign blocks d
  refine ⟨hRows, hCols, ?_, ?_⟩
  · intro j hj i k hi hk
    have hBounds : j.idxV + j.kind.nv ≤ s.nv := (h.tilesV.bounds_of_mem (List.mem_map_of_mem hj)).2
    rw [hPlaced, Mat.entry_placeBlocks (fun j b hb => JointKind.shape_block? hb) h.tilesV hHigh hWide
      hj hi hk, JointKind.block]
    cases hBlock : j.kind.block? blocks (d.slice j.idxV j.kind.nv) with
    | none =>
      change ((Mat.identity s.ndx).scale sign).entry _ _ = ((Mat.identity j.kind.nv).scale sign).entry _ _
      rw [Mat.entry_scale_identity sign (by omega) (by omega), Mat.entry_scale_identity sign hi hk]
      simp only [Nat.add_left_cancel_iff]
    | some b =>
      obtain ⟨hHigh, hWide⟩ := JointKind.shape_block? hBlock
      change (((Mat.identity s.ndx).scale sign).place _ _ b).entry _ _ = b.entry i k
      exact Mat.entry_place_of_mem _ b (show j.idxV + i < s.ndx by omega)
        (show j.idxV + k < s.ndx by omega) (by omega) (by omega)
  · intro i k hi hk hOutside
    rw [hPlaced, Mat.entry_placeBlocks_of_not_mem (fun j b hb => JointKind.shape_block? hb) hOutside,
      Mat.entry_scale_identity sign hi hk]

end Multibody

theorem Product.corner_eq {js : List (Joint α)} {start stop : Nat} {sign : α}
    {blocks : JointKind.Blocks α} {d : Vec α} {m : Mat α} (hRows : m.rows = d.size)
    (hCols : m.cols = d.size) (hStop : stop ≤ d.size)
    (hTiles : Tiles start stop (js.map fun j => (j.idxV, j.kind.nv)))
    (hJoint : ∀ j ∈ js, ∀ i k, i < j.kind.nv → k < j.kind.nv →
      m.entry (j.idxV + i) (j.idxV + k) =
        (j.kind.block sign blocks (d.slice j.idxV j.kind.nv)).entry i k)
    (hOutside : ∀ i k, start ≤ i → i < d.size → start ≤ k → k < d.size →
      (∀ j ∈ js, ¬j.InBlock i k) → m.entry i k = (if i = k then 1 else 0) * sign) :
    m.corner start = jacobian sign blocks (js.map Joint.kind) (d.toList.drop start) := by
  induction js generalizing start with
  | nil =>
    obtain rfl : start = stop := hTiles
    have hLength : (d.toList.drop start).length = d.size - start := by
      rw [List.length_drop, Array.length_toList]
    change m.corner start = (Mat.identity (d.toList.drop start).length).scale sign
    rw [hLength]
    apply Mat.ext_entry
    · exact congrArg (· - start) hRows
    · exact congrArg (· - start) hCols
    · intro i k hi hk
      replace hi : i < m.rows - start := hi
      replace hk : k < m.cols - start := hk
      rw [Mat.entry_corner (by omega) (by omega), Mat.entry_scale_identity sign (by omega) (by omega),
        hOutside _ _ (by omega) (by omega) (by omega) (by omega) (fun j hj => by cases hj)]
      simp only [Nat.add_left_cancel_iff]
  | cons j js ih =>
    obtain ⟨hFirst, hRest⟩ := hTiles
    replace hFirst : j.idxV = start := hFirst
    have hFits : start + j.kind.nv ≤ stop := hRest.start_le_stop
    have hBehind : ∀ j' ∈ js, start + j.kind.nv ≤ j'.idxV := fun j' hj' =>
      (hRest.bounds_of_mem (List.mem_map_of_mem hj')).1
    have hCorner := ih hRest (fun j' hj' => hJoint j' (List.mem_cons_of_mem j hj')) (by
      intro i k hi hi' hk hk' hNone
      apply hOutside i k (by omega) hi' (by omega) hk'
      intro j' hj'
      rcases List.mem_cons.mp hj' with rfl | hj'
      · rintro ⟨-, hBefore, -⟩
        omega
      · exact hNone j' hj')
    have hOff : ∀ i k, start ≤ i → i < d.size → start ≤ k → k < d.size →
        (i < start + j.kind.nv ↔ start + j.kind.nv ≤ k) → m.entry i k = 0 * sign := by
      intro i k hi hi' hk hk' hSides
      rw [hOutside i k hi hi' hk hk', if_neg (by omega)]
      intro j' hj'
      rcases List.mem_cons.mp hj' with rfl | hj'
      · rintro ⟨-, hRow, -, hCol⟩
        omega
      · rintro ⟨hRow, -, hCol, -⟩
        have := hBehind j' hj'
        omega
    obtain ⟨hHigh, hWide⟩ := j.kind.shape_block sign blocks (d.slice start j.kind.nv)
    rw [List.map_cons, jacobian, Vec.toArray_take_drop (hFits.trans hStop), List.drop_drop, ← hCorner]
    have hRowsCorner : (m.corner (start + j.kind.nv)).rows = m.rows - (start + j.kind.nv) := rfl
    have hColsCorner : (m.corner (start + j.kind.nv)).cols = m.cols - (start + j.kind.nv) := rfl
    apply Mat.eq_directSum
    · change m.rows - start = _
      omega
    · change m.cols - start = _
      omega
    · intro i k hi hk
      rw [Mat.entry_corner (by omega) (by omega), ← hFirst]
      exact hJoint j List.mem_cons_self i k (by omega) (by omega)
    · intro i k hi hk
      rw [hHigh, hWide, Mat.entry_corner (by omega) (by omega), Mat.entry_corner (by omega) (by omega),
        Nat.add_assoc, Nat.add_assoc]
    · intro i k hi hk
      rw [hWide, Mat.entry_corner (by omega) (by omega)]
      exact hOff _ _ (by omega) (by omega) (by omega) (by omega) (by omega)
    · intro i k hi hk
      rw [hHigh, Mat.entry_corner (by omega) (by omega)]
      exact hOff _ _ (by omega) (by omega) (by omega) (by omega) (by omega)

theorem Multibody.blockJacobian_eq {s : Multibody α} (h : s.model.WellFormed) (sign : α)
    (blocks : JointKind.Blocks α) {d : Vec α} (hd : d.size = s.ndx) :
    s.blockJacobian sign blocks d = Product.jacobian sign blocks s.kinds d.toList := by
  have hBlocks := isBlocks_blockJacobian h sign blocks d
  have hFits : s.nv ≤ d.size := (Nat.le_mul_of_pos_left _ Nat.zero_lt_two).trans hd.ge
  have hCorner := Product.corner_eq (hBlocks.rows.trans hd.symm) (hBlocks.cols.trans hd.symm) hFits
    h.tilesV hBlocks.joint
    (fun i k _ hi _ hk => hBlocks.outside i k (hi.trans_eq hd) (hk.trans_eq hd))
  rwa [Mat.corner_zero, List.drop_zero] at hCorner

end Blocks

end MultibodyCost
