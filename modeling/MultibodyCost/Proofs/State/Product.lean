import MultibodyCost.Proofs.Linear.Blocks
import MultibodyCost.Proofs.State.Layout

/-! # The product of the joints' manifolds

The operations on the states of a model, without its layout: a recursion over the joints in which
each takes its own coordinates from the front of the vectors and passes on the rest. What is left
behind the last joint is the velocity. On every built model the operations at the stored offsets are
these, so every coordinate belongs to one joint and to no other.
-/

namespace MultibodyCost

variable {α : Type}

/-- The block of a joint in a Jacobian; joints with a single coordinate have the sign itself. -/
def JointKind.block [Elementary α] (k : JointKind) (sign : α) (blocks : Blocks α) (d : Vec α) :
    Mat α :=
  (k.block? blocks d).getD ((Mat.identity k.nv).scale sign)

theorem JointKind.size_neutral [Scalar α] (k : JointKind) : (k.neutral : Vec α).size = k.nq := by
  cases k <;> exact Vec.size_ofFn _ _

theorem Tiles.stop_eq {start stop : Nat} {slices : List (Nat × Nat)} (h : Tiles start stop slices) :
    stop = start + (slices.map Prod.snd).sum := by
  induction slices generalizing start with
  | nil => exact h.symm
  | cons slice rest ih =>
    rw [ih h.2, List.map_cons, List.sum_cons, Nat.add_assoc]

namespace Product

variable [Elementary α]

def diff : List JointKind → List α → List α → List α
  | [], v0, v1 => List.zipWith (fun b a => b - a) v1 v0
  | k :: ks, x0, x1 =>
    (k.diff (x0.take k.nq).toArray (x1.take k.nq).toArray).toList ++
      diff ks (x0.drop k.nq) (x1.drop k.nq)

def integrate : List JointKind → List α → List α → List α
  | [], v, dv => List.zipWith (fun a b => a + b) v dv
  | k :: ks, x, dx =>
    (k.integrate (x.take k.nq).toArray (dx.take k.nv).toArray).toList ++
      integrate ks (x.drop k.nq) (dx.drop k.nv)

/-- The blocks of the joints along the diagonal, then the identity times `sign`. Outside of them
stands zero times `sign`, a negative zero where the scalars have one. -/
def jacobian (sign : α) (blocks : JointKind.Blocks α) : List JointKind → List α → Mat α
  | [], dv => (Mat.identity dv.length).scale sign
  | k :: ks, d =>
    Mat.directSum (0 * sign) (k.block sign blocks (d.take k.nv).toArray)
      (jacobian sign blocks ks (d.drop k.nv))

def zero (ks : List JointKind) : List α :=
  ks.flatMap (fun k => k.neutral.toList) ++ List.replicate (ks.map JointKind.nv).sum 0

theorem diff_cons (k : JointKind) (ks : List JointKind) (x0 x1 : List α) :
    diff (k :: ks) x0 x1 = (k.diff (x0.take k.nq).toArray (x1.take k.nq).toArray).toList ++
      diff ks (x0.drop k.nq) (x1.drop k.nq) := rfl

theorem integrate_cons (k : JointKind) (ks : List JointKind) (x dx : List α) :
    integrate (k :: ks) x dx = (k.integrate (x.take k.nq).toArray (dx.take k.nv).toArray).toList ++
      integrate ks (x.drop k.nq) (dx.drop k.nv) := rfl

end Product

namespace Vec

variable [Scalar α] {v : Vec α}

theorem toArray_take_drop {i n : Nat} (h : i + n ≤ v.size) :
    ((v.toList.drop i).take n).toArray = v.slice i n := by
  have hLength : ((v.toList.drop i).take n).length = n := by
    rw [List.length_take, List.length_drop, Array.length_toList]
    omega
  apply ext_entry
  · rw [size_slice, List.size_toArray, hLength]
  · intro k hk
    rw [List.size_toArray, hLength] at hk
    rw [entry_slice v hk, entry_eq_getElem _ (by rw [List.size_toArray, hLength]; exact hk),
      entry_eq_getElem v (by omega)]
    simp

theorem toList_drop_eq {ι : Type} {offset width : ι → Nat} {block : ι → Vec α} {xs : List ι}
    {start stop : Nat} (hTiles : Tiles start stop (xs.map fun x => (offset x, width x)))
    (hSize : stop ≤ v.size) (hSlice : ∀ x ∈ xs, v.slice (offset x) (width x) = block x) :
    v.toList.drop start = xs.flatMap (fun x => (block x).toList) ++ v.toList.drop stop := by
  induction xs generalizing start with
  | nil =>
    obtain rfl : start = stop := hTiles
    rfl
  | cons x xs ih =>
    obtain ⟨hFirst, hRest⟩ := hTiles
    replace hFirst : offset x = start := hFirst
    have hFits : start + width x ≤ v.size := hRest.start_le_stop.trans hSize
    have hBlock : (v.toList.drop start).take (width x) = (block x).toList := by
      rw [← hSlice x List.mem_cons_self, hFirst, ← toArray_take_drop hFits]
    rw [List.flatMap_cons, List.append_assoc,
      ← ih hRest fun y hy => hSlice y (List.mem_cons_of_mem x hy), ← hBlock, ← List.drop_drop]
    exact (List.take_append_drop _ _).symm

theorem toList_drop_zipWith {f : α → α → α} {a b : Vec α} {i p q n : Nat} (hv : v.size = i + n)
    (ha : a.size = p + n) (hb : b.size = q + n)
    (h : ∀ k, k < n → v.entry (i + k) = f (a.entry (p + k)) (b.entry (q + k))) :
    v.toList.drop i = List.zipWith f (a.toList.drop p) (b.toList.drop q) := by
  apply List.ext_getElem
  · simp only [List.length_zipWith, List.length_drop, Array.length_toList, hv, ha, hb]
    omega
  · intro k hk _
    rw [List.length_drop, Array.length_toList] at hk
    have hEntry := h k (by omega)
    rw [entry_eq_getElem v (by omega), entry_eq_getElem a (by omega),
      entry_eq_getElem b (by omega)] at hEntry
    simpa using hEntry

end Vec

section Sequence

variable [Elementary α] {js : List (Joint α)} {startQ stopQ startV stopV : Nat}

theorem Product.diff_eq {x0 x1 : Vec α}
    (hTiles : Tiles startQ stopQ (js.map fun j => (j.idxQ, j.kind.nq)))
    (h0 : stopQ ≤ x0.size) (h1 : stopQ ≤ x1.size) :
    Product.diff (js.map Joint.kind) (x0.toList.drop startQ) (x1.toList.drop startQ) =
      (js.flatMap fun j => (j.kind.diff (x0.slice j.idxQ j.kind.nq)
        (x1.slice j.idxQ j.kind.nq)).toList) ++
      Product.diff [] (x0.toList.drop stopQ) (x1.toList.drop stopQ) := by
  induction js generalizing startQ with
  | nil =>
    obtain rfl : startQ = stopQ := hTiles
    rfl
  | cons j js ih =>
    obtain ⟨hFirst, hRest⟩ := hTiles
    replace hFirst : j.idxQ = startQ := hFirst
    have hFits : startQ + j.kind.nq ≤ stopQ := hRest.start_le_stop
    rw [List.map_cons, Product.diff_cons, Vec.toArray_take_drop (hFits.trans h0),
      Vec.toArray_take_drop (hFits.trans h1), List.drop_drop, List.drop_drop, ih hRest,
      List.flatMap_cons, hFirst, List.append_assoc]

theorem Product.integrate_eq {x dx : Vec α}
    (hTilesQ : Tiles startQ stopQ (js.map fun j => (j.idxQ, j.kind.nq)))
    (hTilesV : Tiles startV stopV (js.map fun j => (j.idxV, j.kind.nv)))
    (hx : stopQ ≤ x.size) (hdx : stopV ≤ dx.size) :
    Product.integrate (js.map Joint.kind) (x.toList.drop startQ) (dx.toList.drop startV) =
      (js.flatMap fun j => (j.kind.integrate (x.slice j.idxQ j.kind.nq)
        (dx.slice j.idxV j.kind.nv)).toList) ++
      Product.integrate [] (x.toList.drop stopQ) (dx.toList.drop stopV) := by
  induction js generalizing startQ startV with
  | nil =>
    obtain rfl : startQ = stopQ := hTilesQ
    obtain rfl : startV = stopV := hTilesV
    rfl
  | cons j js ih =>
    obtain ⟨hFirstQ, hRestQ⟩ := hTilesQ
    obtain ⟨hFirstV, hRestV⟩ := hTilesV
    replace hFirstQ : j.idxQ = startQ := hFirstQ
    replace hFirstV : j.idxV = startV := hFirstV
    have hFitsQ : startQ + j.kind.nq ≤ stopQ := hRestQ.start_le_stop
    have hFitsV : startV + j.kind.nv ≤ stopV := hRestV.start_le_stop
    rw [List.map_cons, Product.integrate_cons, Vec.toArray_take_drop (hFitsQ.trans hx),
      Vec.toArray_take_drop (hFitsV.trans hdx), List.drop_drop, List.drop_drop, ih hRestQ hRestV,
      List.flatMap_cons, hFirstQ, hFirstV, List.append_assoc]

end Sequence

namespace Multibody

variable [Elementary α] {s : Multibody α}

def kinds (s : Multibody α) : List JointKind := s.model.joints.map Joint.kind

theorem IsDiff.toList_eq (h : s.model.WellFormed) {x0 x1 dx : Vec α} (h0 : x0.size = s.nx)
    (h1 : x1.size = s.nx) (hdx : s.IsDiff x0 x1 dx) :
    dx.toList = Product.diff s.kinds x0.toList x1.toList := by
  have hTwice : s.ndx = s.nv + s.nv := Nat.two_mul s.nv
  have hSum : s.nx = s.nq + s.nv := rfl
  have hSlices := Vec.toList_drop_eq h.tilesV (v := dx)
    (by rw [hdx.size]; exact (Nat.le_add_right _ _).trans hTwice.ge) hdx.joint
  have hVelocity : dx.toList.drop s.nv =
      List.zipWith (fun b a => b - a) (x1.toList.drop s.nq) (x0.toList.drop s.nq) :=
    Vec.toList_drop_zipWith (hdx.size.trans hTwice) (h1.trans hSum) (h0.trans hSum) hdx.velocity
  have hFits : s.nq ≤ s.nx := Nat.le_add_right _ _
  have hProduct := Product.diff_eq h.tilesQ (hFits.trans h0.ge) (hFits.trans h1.ge)
  rw [List.drop_zero] at hSlices
  rw [List.drop_zero, List.drop_zero] at hProduct
  rw [kinds, hProduct, hSlices]
  exact congrArg (_ ++ ·) hVelocity

theorem IsIncrement.toList_eq (h : s.model.WellFormed) {x dx y : Vec α} (hx : x.size = s.nx)
    (hdx : dx.size = s.ndx) (hy : s.IsIncrement x dx y) :
    y.toList = Product.integrate s.kinds x.toList dx.toList := by
  have hTwice : s.ndx = s.nv + s.nv := Nat.two_mul s.nv
  have hSum : s.nx = s.nq + s.nv := rfl
  have hFitsQ : s.nq ≤ s.nx := Nat.le_add_right _ _
  have hFitsV : s.nv ≤ s.ndx := (Nat.le_add_right _ _).trans hTwice.ge
  have hSlices := Vec.toList_drop_eq h.tilesQ (v := y) (hFitsQ.trans hy.size.ge) hy.joint
  have hVelocity : y.toList.drop s.nq =
      List.zipWith (fun a b => a + b) (x.toList.drop s.nq) (dx.toList.drop s.nv) :=
    Vec.toList_drop_zipWith (hy.size.trans hSum) (hx.trans hSum) (hdx.trans hTwice) hy.velocity
  have hProduct := Product.integrate_eq h.tilesQ h.tilesV (hFitsQ.trans hx.ge) (hFitsV.trans hdx.ge)
  rw [List.drop_zero] at hSlices
  rw [List.drop_zero, List.drop_zero] at hProduct
  rw [kinds, hProduct, hSlices]
  exact congrArg (_ ++ ·) hVelocity

theorem nq_eq_sum (h : s.model.WellFormed) : s.nq = (s.kinds.map JointKind.nq).sum := by
  have hEnd : s.nq = 0 + (s.model.slicesQ.map Prod.snd).sum := h.tilesQ.stop_eq
  rw [hEnd, Nat.zero_add, Model.slicesQ, kinds, List.map_map, List.map_map]
  rfl

theorem nv_eq_sum (h : s.model.WellFormed) : s.nv = (s.kinds.map JointKind.nv).sum := by
  have hEnd : s.nv = 0 + (s.model.slicesV.map Prod.snd).sum := h.tilesV.stop_eq
  rw [hEnd, Nat.zero_add, Model.slicesV, kinds, List.map_map, List.map_map]
  rfl

theorem toList_zero (h : s.model.WellFormed) : s.zero.toList = Product.zero s.kinds := by
  have hSize : s.zero.size = s.nq + s.nv := by
    rw [zero, Vec.size_place, Vec.size_zeros, nx]
  have hNeutral : (neutral s.model).size = s.nq := by
    rw [neutral, size_foldl_place, Vec.size_zeros]
    rfl
  have hSlice : ∀ j ∈ s.model.joints, s.zero.slice j.idxQ j.kind.nq = j.kind.neutral := by
    intro j hj
    have hEnd : j.idxQ + j.kind.nq ≤ s.nq := (h.tilesQ.bounds_of_mem (List.mem_map_of_mem hj)).2
    have hPlaced : (neutral s.model).slice j.idxQ j.kind.nq = j.kind.neutral :=
      Vec.slice_foldl_place (fun j => j.kind.size_neutral) h.tilesQ (by rw [Vec.size_zeros]) hj
    rw [← hPlaced]
    apply Vec.slice_congr
    intro k _ hk
    have hEntry := Vec.entry_place_of_mem (Vec.zeros s.nx) (neutral s.model) (i := 0) (k := k)
      (by rw [Vec.size_zeros, nx]; omega) (by omega)
    rwa [Nat.zero_add] at hEntry
  have hVelocity : s.zero.toList.drop s.nq = List.replicate s.nv 0 := by
    apply List.ext_getElem
    · rw [List.length_drop, Array.length_toList, hSize, List.length_replicate, Nat.add_sub_cancel_left]
    · intro k hk _
      rw [List.length_drop, Array.length_toList] at hk
      rw [List.getElem_drop, Array.getElem_toList, List.getElem_replicate,
        ← Vec.entry_eq_getElem s.zero (by omega), zero,
        Vec.entry_place_of_not_mem _ _ (by rw [Vec.size_zeros, nx]; omega) (by omega),
        Vec.entry_zeros]
  have hAll := Vec.toList_drop_eq h.tilesQ (by rw [hSize]; exact Nat.le_add_right _ _) hSlice
  rw [List.drop_zero] at hAll
  rw [hAll, Product.zero, ← nv_eq_sum h, kinds, List.flatMap_map]
  exact congrArg (_ ++ ·) hVelocity

end Multibody

end MultibodyCost
