import MultibodyCost.Config.Text
import MultibodyCost.Proofs.Json.Decoding

/-! # Configuration texts read back

A configuration is written with all its fields, so that reading never falls back on a default. What
is left to ask is of its numbers: a number that is not finite is written as null, and one that is
finite is read in two steps that each round, which need not give the number again.
-/

namespace MultibodyCost

open JsonDecoder

variable {α : Type}

def Vec3.numbers (v : Vec3 α) : List α := [v.x, v.y, v.z]

def Quaternion.numbers (q : Quaternion α) : List α := [q.x, q.y, q.z, q.w]

def ActivationConfig.numbers : ActivationConfig α → List α
  | quadratic => []
  | weighted ws => ws
  | barrier lower upper beta => lower ++ upper ++ [beta]

def ResidualConfig.numbers : ResidualConfig α → List α
  | state ref => ref.getD []
  | control ref => ref.getD []
  | com ref => ref.numbers
  | placement _ t q => t.numbers ++ q.numbers
  | translation _ ref => ref.numbers
  | velocity _ linear angular => linear.numbers ++ angular.numbers

def ConfigEntry.numbers (e : ConfigEntry α) : List α :=
  e.weight :: (e.activation.numbers ++ e.residual.numbers)

/-- Every number in the entries of a configuration; the control dimension is none of them. -/
def Config.numbers (c : Config α) : List α := c.entries.flatMap ConfigEntry.numbers

section Lists

variable [NumberText α]

theorem Json.plain_scalars {xs : List α} (h : ∀ x ∈ xs, ReadsBack x) : Json.Plain (.scalars xs) := by
  apply Json.plain_list
  intro v hv
  obtain ⟨x, hx, rfl⟩ := List.mem_map.mp hv
  exact Json.plain_scalar (h x hx)

theorem decodeScalars_scalars [Scalar α] (room : Nat) {xs : List α} (h : ∀ x ∈ xs, ReadsBack x) :
    decodeScalars (room + 2) (.scalars xs) = .ok xs := by
  have hElements : elements scalar (room + 2) (.list (xs.map .scalar)) = .ok (xs.map id) :=
    elements_map fun x hx => scalar_scalar (room + 1) (h x hx)
  rwa [List.map_id] at hElements

theorem optional_scalars [Scalar α] (room : Nat) {ref : Option (List α)}
    (h : ∀ x ∈ ref.getD [], ReadsBack x) :
    optional decodeScalars (room + 2) (Json.optional .scalars ref) = .ok ref := by
  cases ref with
  | none => rfl
  | some xs =>
    have hScalars := decodeScalars_scalars room h
    rw [Json.scalars, Json.list] at hScalars
    rw [Json.optional, Json.scalars, Json.list, JsonDecoder.optional]
    · exact map_ok hScalars some
    · intro hNull
      cases hNull

theorem decodeVec3_toJson [Scalar α] (room : Nat) {v : Vec3 α} (h : ∀ x ∈ v.numbers, ReadsBack x) :
    decodeVec3 (room + 2) v.toJson = .ok v := by
  have hThree : exactly 3 scalar (room + 2) v.toJson = .ok v.numbers :=
    exactly_map fun x hx => scalar_scalar (room + 1) (h x hx)
  simp only [decodeVec3, hThree, bind, Except.bind, Vec3.numbers]
  rfl

theorem decodeQuaternion_toJson [Scalar α] (room : Nat) {q : Quaternion α}
    (h : ∀ x ∈ q.numbers, ReadsBack x) : decodeQuaternion (room + 2) q.toJson = .ok q := by
  have hFour : exactly 4 scalar (room + 2) q.toJson = .ok q.numbers :=
    exactly_map fun x hx => scalar_scalar (room + 1) (h x hx)
  simp only [decodeQuaternion, hFour, bind, Except.bind, Quaternion.numbers]
  rfl

end Lists

theorem readWhole_scalar (room : Nat) {x : Float} (h : ReadsBack x) :
    Json.readWhole room (.scalar x) = .ok () := by
  obtain ⟨l, hLiteral, -, hValue⟩ := h
  have hRange : l.inRange = true := by
    rw [Literal.inRange, show l.toFloat? = some x from hValue, Option.isSome_some]
  simp only [Json.scalar, hLiteral, Json.readWhole, hRange, if_true]

theorem readWhole_scalars (room : Nat) {xs : List Float} (h : ∀ x ∈ xs, ReadsBack x) :
    Json.readWhole (room + 2) (.scalars xs) = .ok () := by
  apply Json.readWhole_list
  intro v hv
  obtain ⟨x, hx, rfl⟩ := List.mem_map.mp hv
  exact readWhole_scalar (room + 1) (h x hx)

theorem readWhole_optional_scalars (room : Nat) {ref : Option (List Float)}
    (h : ∀ x ∈ ref.getD [], ReadsBack x) :
    Json.readWhole (room + 2) (Json.optional .scalars ref) = .ok () := by
  cases ref with
  | none => rfl
  | some xs => exact readWhole_scalars room h

namespace ActivationConfig

theorem decode_toJson (room : Nat) {a : ActivationConfig Float} (h : ∀ x ∈ a.numbers, ReadsBack x) :
    decode (room + 3) a.toJson = .ok a := by
  cases a with
  | quadratic => exact tagged_record rfl (fun m hm => by cases hm) rfl
  | weighted ws =>
    apply tagged_record rfl
    · rw [List.forall_mem_singleton]
      exact ⟨(by decide : "weights" ≠ "type"), readWhole_scalars room h⟩
    · have hMembers : readMembers [weightsField] (room + 2) [(some (.whole "weights"), .scalars ws)]
          emptyDraft = .ok ⟨some ws, none, none, none⟩ := by
        rw [readMembers_known rfl rfl (map_ok (decodeScalars_scalars room h) _)]
        rfl
      exact record_bind hMembers _
  | barrier lower upper beta =>
    simp only [numbers, List.forall_mem_append, List.forall_mem_singleton] at h
    obtain ⟨⟨hLower, hUpper⟩, hBeta⟩ := h
    apply tagged_record rfl
    · simp only [List.forall_mem_cons]
      exact ⟨⟨(by decide : "lower" ≠ "type"), readWhole_scalars room hLower⟩,
        ⟨(by decide : "upper" ≠ "type"), readWhole_scalars room hUpper⟩,
        ⟨(by decide : "beta" ≠ "type"), readWhole_scalar (room + 2) hBeta⟩, fun m hm => by cases hm⟩
    · have hMembers : readMembers [lowerField, upperField, betaField] (room + 2)
          [(some (.whole "lower"), .scalars lower), (some (.whole "upper"), .scalars upper),
            (some (.whole "beta"), .scalar beta)] emptyDraft =
          .ok ⟨none, some lower, some upper, some beta⟩ := by
        rw [readMembers_known rfl rfl (map_ok (decodeScalars_scalars room hLower) _),
          readMembers_known rfl rfl (map_ok (decodeScalars_scalars room hUpper) _),
          readMembers_known rfl rfl (map_ok (scalar_scalar (room + 2) hBeta) _)]
        rfl
      exact record_bind hMembers _

theorem plain_toJson {a : ActivationConfig Float} (h : ∀ x ∈ a.numbers, ReadsBack x) :
    Json.Plain a.toJson := by
  cases a with
  | quadratic => exact ⟨trivial, trivial⟩
  | weighted ws => exact ⟨trivial, Json.plain_scalars h, trivial⟩
  | barrier lower upper beta =>
    simp only [numbers, List.forall_mem_append, List.forall_mem_singleton] at h
    exact ⟨trivial, Json.plain_scalars h.1.1, Json.plain_scalars h.1.2, Json.plain_scalar h.2, trivial⟩

end ActivationConfig

theorem readWhole_vec3 (room : Nat) {v : Vec3 Float} (h : ∀ x ∈ v.numbers, ReadsBack x) :
    Json.readWhole (room + 2) v.toJson = .ok () := readWhole_scalars room h

namespace ResidualConfig

theorem readMembers_vector (room : Nat) {ref : Option (List Float)}
    (h : ∀ x ∈ ref.getD [], ReadsBack x) :
    readMembers [vectorField] (room + 2) [(some (.whole "reference"), .optional .scalars ref)]
      emptyDraft = .ok ⟨none, some ref, none, none, none, none, none⟩ := by
  rw [readMembers_known rfl rfl (map_ok (optional_scalars room h) _)]
  rfl

theorem decode_toJson (room : Nat) {r : ResidualConfig Float} (h : ∀ x ∈ r.numbers, ReadsBack x) :
    decode (room + 3) r.toJson = .ok r := by
  cases r with
  | state ref =>
    apply tagged_record rfl
    · rw [List.forall_mem_singleton]
      exact ⟨(by decide : "reference" ≠ "type"), readWhole_optional_scalars room h⟩
    · exact record_bind (readMembers_vector room h) _
  | control ref =>
    apply tagged_record rfl
    · rw [List.forall_mem_singleton]
      exact ⟨(by decide : "reference" ≠ "type"), readWhole_optional_scalars room h⟩
    · exact record_bind (readMembers_vector room h) _
  | com ref =>
    apply tagged_record rfl
    · rw [List.forall_mem_singleton]
      exact ⟨(by decide : "reference" ≠ "type"), readWhole_vec3 room h⟩
    · have hMembers : readMembers [pointField] (room + 2) [(some (.whole "reference"), ref.toJson)]
          emptyDraft = .ok ⟨none, none, some ref, none, none, none, none⟩ := by
        rw [readMembers_known rfl rfl (map_ok (decodeVec3_toJson room h) _)]
        rfl
      exact record_bind hMembers _
  | placement frame t q =>
    obtain ⟨hPoint, hRotation⟩ := List.forall_mem_append.mp h
    apply tagged_record rfl
    · simp only [List.forall_mem_cons]
      exact ⟨⟨(by decide : "frame" ≠ "type"), rfl⟩,
        ⟨(by decide : "translation" ≠ "type"), readWhole_vec3 room hPoint⟩,
        ⟨(by decide : "rotation" ≠ "type"), readWhole_scalars room hRotation⟩,
        fun m hm => by cases hm⟩
    · have hMembers : readMembers [frameField, translationField, rotationField] (room + 2)
          [(some (.whole "frame"), .text frame), (some (.whole "translation"), t.toJson),
            (some (.whole "rotation"), q.toJson)] emptyDraft =
          .ok ⟨some frame, none, none, some t, some q, none, none⟩ := by
        rw [readMembers_known rfl rfl rfl,
          readMembers_known rfl rfl (map_ok (decodeVec3_toJson room hPoint) _),
          readMembers_known rfl rfl (map_ok (decodeQuaternion_toJson room hRotation) _)]
        rfl
      exact record_bind hMembers _
  | translation frame ref =>
    apply tagged_record rfl
    · simp only [List.forall_mem_cons]
      exact ⟨⟨(by decide : "frame" ≠ "type"), rfl⟩,
        ⟨(by decide : "reference" ≠ "type"), readWhole_vec3 room h⟩, fun m hm => by cases hm⟩
    · have hMembers : readMembers [frameField, pointField] (room + 2)
          [(some (.whole "frame"), .text frame), (some (.whole "reference"), ref.toJson)]
          emptyDraft = .ok ⟨some frame, none, some ref, none, none, none, none⟩ := by
        rw [readMembers_known rfl rfl rfl,
          readMembers_known rfl rfl (map_ok (decodeVec3_toJson room h) _)]
        rfl
      exact record_bind hMembers _
  | velocity frame linear angular =>
    obtain ⟨hLinear, hAngular⟩ := List.forall_mem_append.mp h
    apply tagged_record rfl
    · simp only [List.forall_mem_cons]
      exact ⟨⟨(by decide : "frame" ≠ "type"), rfl⟩,
        ⟨(by decide : "linear" ≠ "type"), readWhole_vec3 room hLinear⟩,
        ⟨(by decide : "angular" ≠ "type"), readWhole_vec3 room hAngular⟩, fun m hm => by cases hm⟩
    · have hMembers : readMembers [frameField, linearField, angularField] (room + 2)
          [(some (.whole "frame"), .text frame), (some (.whole "linear"), linear.toJson),
            (some (.whole "angular"), angular.toJson)] emptyDraft =
          .ok ⟨some frame, none, none, none, none, some linear, some angular⟩ := by
        rw [readMembers_known rfl rfl rfl,
          readMembers_known rfl rfl (map_ok (decodeVec3_toJson room hLinear) _),
          readMembers_known rfl rfl (map_ok (decodeVec3_toJson room hAngular) _)]
        rfl
      exact record_bind hMembers _

theorem plain_toJson {r : ResidualConfig Float} (h : ∀ x ∈ r.numbers, ReadsBack x) :
    Json.Plain r.toJson := by
  have hOptional : ∀ ref : Option (List Float), (∀ x ∈ ref.getD [], ReadsBack x) →
      Json.Plain (Json.optional .scalars ref) := by
    intro ref hRef
    cases ref with
    | none => trivial
    | some xs => exact Json.plain_scalars hRef
  cases r with
  | state ref => exact ⟨trivial, hOptional ref h, trivial⟩
  | control ref => exact ⟨trivial, hOptional ref h, trivial⟩
  | com ref => exact ⟨trivial, Json.plain_scalars h, trivial⟩
  | placement frame t q =>
    obtain ⟨hPoint, hRotation⟩ := List.forall_mem_append.mp h
    exact ⟨trivial, trivial, Json.plain_scalars hPoint, Json.plain_scalars hRotation, trivial⟩
  | translation frame ref => exact ⟨trivial, trivial, Json.plain_scalars h, trivial⟩
  | velocity frame linear angular =>
    obtain ⟨hLinear, hAngular⟩ := List.forall_mem_append.mp h
    exact ⟨trivial, trivial, Json.plain_scalars hLinear, Json.plain_scalars hAngular, trivial⟩

end ResidualConfig

namespace ConfigEntry

variable {e : ConfigEntry Float}

theorem decode_toJson (room : Nat) (h : ∀ x ∈ e.numbers, ReadsBack x) :
    decode (room + 4) e.toJson = .ok e := by
  obtain ⟨hWeight, hParts⟩ := List.forall_mem_cons.mp h
  obtain ⟨hActivation, hResidual⟩ := List.forall_mem_append.mp hParts
  have hMembers : readMembers fields (room + 3)
      [(some (.whole "name"), .text e.name), (some (.whole "weight"), .scalar e.weight),
        (some (.whole "activation"), e.activation.toJson),
        (some (.whole "residual"), e.residual.toJson)] (⟨none, none, none, none⟩ : Draft Float) =
      .ok ⟨some e.name, some e.weight, some e.activation, some e.residual⟩ := by
    rw [readMembers_known rfl rfl rfl,
      readMembers_known rfl rfl (map_ok (scalar_scalar (room + 3) hWeight) _),
      readMembers_known rfl rfl (map_ok (e.activation.decode_toJson room hActivation) _),
      readMembers_known rfl rfl (map_ok (e.residual.decode_toJson room hResidual) _)]
    rfl
  exact record_bind hMembers _

theorem plain_toJson (h : ∀ x ∈ e.numbers, ReadsBack x) : Json.Plain e.toJson := by
  obtain ⟨hWeight, hParts⟩ := List.forall_mem_cons.mp h
  obtain ⟨hActivation, hResidual⟩ := List.forall_mem_append.mp hParts
  exact ⟨trivial, Json.plain_scalar hWeight, ActivationConfig.plain_toJson hActivation,
    ResidualConfig.plain_toJson hResidual, trivial⟩

end ConfigEntry

namespace Config

variable {c : Config Float}

theorem decode_toJson (hNu : ∀ n, c.nu = some n → n < wordBound)
    (h : ∀ x ∈ c.numbers, ReadsBack x) : decode Json.fullRoom c.toJson = .ok c := by
  have hEntries : elements ConfigEntry.decode 127 (.list (c.entries.map ConfigEntry.toJson)) =
      .ok (c.entries.map id) :=
    elements_map fun e he => ConfigEntry.decode_toJson 122 fun x hx =>
      h x (List.mem_flatMap.mpr ⟨e, he, hx⟩)
  rw [List.map_id] at hEntries
  have hMembers : readMembers fields 127
      [(some (.whole "nu"), .optional .natural c.nu),
        (some (.whole "costs"), .list (c.entries.map ConfigEntry.toJson))]
      (⟨none, none⟩ : Draft Float) = .ok ⟨some c.nu, some c.entries⟩ := by
    rw [readMembers_known rfl rfl (map_ok (optional_index 127 hNu) _),
      readMembers_known rfl rfl (map_ok hEntries _)]
    rfl
  exact record_bind hMembers _

theorem plain_toJson (h : ∀ x ∈ c.numbers, ReadsBack x) : Json.Plain c.toJson := by
  have hEntries : Json.Plain (.list (c.entries.map ConfigEntry.toJson)) := by
    apply Json.plain_list
    intro v hv
    obtain ⟨e, he, rfl⟩ := List.mem_map.mp hv
    exact ConfigEntry.plain_toJson fun x hx => h x (List.mem_flatMap.mpr ⟨e, he, hx⟩)
  exact ⟨Json.plain_optional Json.plain_natural c.nu, hEntries, trivial⟩

/-- A configuration of finite numbers is read from its own text, field for field, and so builds the
same sum or is refused with the same error on the states of every model. That a finite number is
read back is asked of the numbers of the configuration alone. -/
theorem read_as_written (hNu : ∀ n, c.nu = some n → n < wordBound)
    (hFinite : ∀ x ∈ c.numbers, Scalar.isFinite x = true)
    (hNumbers : ∀ x ∈ c.numbers, Scalar.isFinite x = true → ReadsBack x) :
    ∃ read, ofText c.text = .ok read ∧ read = c ∧
      ∀ s : Multibody Float, read.build s = c.build s := by
  have hBack : ∀ x ∈ c.numbers, ReadsBack x := fun x hx => hNumbers x hx (hFinite x hx)
  have hParse : Json.parse c.text.toList = ⟨c.toJson, false⟩ := Json.parse_pretty (plain_toJson hBack)
  refine ⟨c, ?_, rfl, fun s => rfl⟩
  simp only [ofText, readText, hParse, decode_toJson hNu hBack, bind, Except.bind,
    Bool.false_eq_true, if_false]

/-- A posture at rest, and a tool with a quote in its name; the control dimension is given. -/
def bench : Config Float where
  nu := some 2
  entries := [⟨"posture", 0.5, .weighted [1, 0], .state none⟩,
    ⟨"tool \"a\"", 1, .barrier [0] [0.5] 1, .translation "tool" ⟨0, 1, 0.5⟩⟩]

theorem finite_bench : ∀ x ∈ bench.numbers, Scalar.isFinite x = true := by
  decide +kernel

theorem readsBack_bench : ∀ x ∈ bench.numbers, ReadsBack x := by
  have hZero : ReadsBack (0 : Float) :=
    ⟨⟨false, [0], [0], none⟩, by decide +kernel, ⟨0, [], rfl, fun _ => rfl⟩, by decide +kernel⟩
  have hHalf : ReadsBack (0.5 : Float) :=
    ⟨⟨false, [0], [5], none⟩, by decide +kernel, ⟨0, [], rfl, fun _ => rfl⟩, by decide +kernel⟩
  have hOne : ReadsBack (1 : Float) :=
    ⟨⟨false, [1], [0], none⟩, by decide +kernel, ⟨1, [], rfl, fun _ => rfl⟩, by decide +kernel⟩
  have hNumbers : bench.numbers = [0.5, 1, 0, 1, 0, 0.5, 1, 0, 1, 0.5] := rfl
  rw [hNumbers]
  simp only [List.forall_mem_cons, hZero, hHalf, hOne, true_and]
  exact fun x hx => by cases hx

theorem read_as_written_bench :
    (∀ n, bench.nu = some n → n < wordBound) ∧
    (∀ x ∈ bench.numbers, Scalar.isFinite x = true) ∧
    (∀ x ∈ bench.numbers, Scalar.isFinite x = true → ReadsBack x) ∧
    ∃ read, ofText bench.text = .ok read ∧ read = bench ∧
      ∀ s : Multibody Float, read.build s = bench.build s := by
  have hNu : ∀ n, bench.nu = some n → n < wordBound := by
    intro n hn
    cases hn
    decide
  have hBack : ∀ x ∈ bench.numbers, Scalar.isFinite x = true → ReadsBack x := fun x hx _ =>
    readsBack_bench x hx
  exact ⟨hNu, finite_bench, hBack, read_as_written hNu finite_bench hBack⟩

end Config

end MultibodyCost
