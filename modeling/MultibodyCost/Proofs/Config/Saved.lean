import MultibodyCost.Proofs.Config.Build
import MultibodyCost.Proofs.Config.Text
import MultibodyCost.Proofs.Double

/-! # Activations that are lost on saving

A barrier may be built with infinite bounds, but JSON has no infinite numbers: such a bound is written
as null, and a list of numbers with a null in it is refused. Everything else that an activation may be
built from is finite. So the configurations of activations that can be built are read from their own
texts, unless there is an infinite bound in them; then the text is refused for a value of a wrong type.
-/

namespace MultibodyCost

open JsonDecoder

/-- What is asked of the numbers of a configuration: those that are finite are read as they were
written. -/
abbrev FaithfulText (xs : List Float) : Prop := ∀ x ∈ xs, Scalar.isFinite x = true → ReadsBack x

theorem Binary.ofFloat_of_not_finite {x : Float} (h : Scalar.isFinite x = false) :
    ofFloat x = .undefined ∨ ∃ negative, ofFloat x = .infinite negative := by
  have hField : x.toBits.toNat / unitBits % 2048 = 2047 := Double.exponentField_of_not_finite h
  rw [ofFloat, if_pos hField]
  split
  · exact .inr ⟨_, rfl⟩
  · exact .inl rfl

theorem literal?_eq_none {x : Float} (h : Scalar.isFinite x = false) : NumberText.literal? x = none := by
  change Spelling.json.literal? x = none
  rcases Binary.ofFloat_of_not_finite h with hBinary | ⟨negative, hBinary⟩
  · rw [Spelling.literal?, hBinary]
  · rw [Spelling.literal?, hBinary]

theorem Json.scalar_eq_null {x : Float} (h : Scalar.isFinite x = false) : Json.scalar x = .null := by
  rw [scalar, literal?_eq_none h]

section Scalars

variable {x : Float} (h : Scalar.isFinite x = true → ReadsBack x)
include h

theorem Json.plain_scalar_or_null : Plain (scalar x) := by
  cases hFinite : Scalar.isFinite x with
  | true => exact plain_scalar (h hFinite)
  | false =>
    rw [scalar_eq_null hFinite]
    trivial

theorem readWhole_scalar_or_null (room : Nat) : Json.readWhole room (.scalar x) = .ok () := by
  cases hFinite : Scalar.isFinite x with
  | true => exact readWhole_scalar room (h hFinite)
  | false =>
    rw [Json.scalar_eq_null hFinite]
    rfl

theorem scalar_scalar_or_null (room : Nat) : scalar room (Json.scalar x) =
    if Scalar.isFinite x then .ok x else .error .mismatched := by
  cases hFinite : Scalar.isFinite x with
  | true => exact scalar_scalar room (h hFinite)
  | false =>
    rw [Json.scalar_eq_null hFinite]
    rfl

end Scalars

namespace JsonDecoder

variable {β γ σ : Type}

theorem each_map_error {d : JsonDecoder β} {room : Nat} {toJson : γ → Json} {fault : JsonFault}
    {xs : List γ} (h : ∀ x ∈ xs, (∃ b, d room (toJson x) = .ok b) ∨ d room (toJson x) = .error fault)
    (hFault : ∃ x ∈ xs, d room (toJson x) = .error fault) :
    each d room (xs.map toJson) = .error fault := by
  induction xs with
  | nil =>
    obtain ⟨x, hx, -⟩ := hFault
    cases hx
  | cons x xs ih =>
    obtain ⟨hHead, hTail⟩ := List.forall_mem_cons.mp h
    rw [List.map_cons, each]
    rcases hHead with ⟨b, hOk⟩ | hError
    · have hRest : ∃ y ∈ xs, d room (toJson y) = .error fault := by
        obtain ⟨y, hy, hyFault⟩ := hFault
        rcases List.mem_cons.mp hy with rfl | hy
        · rw [hOk] at hyFault
          cases hyFault
        · exact ⟨y, hy, hyFault⟩
      rw [hOk, ih hTail hRest]
      rfl
    · rw [hError]
      rfl

theorem elements_map_error {d : JsonDecoder β} {room : Nat} {toJson : γ → Json} {fault : JsonFault}
    {xs : List γ}
    (h : ∀ x ∈ xs, (∃ b, d (room + 1) (toJson x) = .ok b) ∨ d (room + 1) (toJson x) = .error fault)
    (hFault : ∃ x ∈ xs, d (room + 1) (toJson x) = .error fault) :
    elements d (room + 2) (.list (xs.map toJson)) = .error fault := by
  have hEach := each_map_error h hFault
  simp only [Json.list, elements, Json.enter_eq_ok, bind, Except.bind, hEach]

theorem readMembers_fault {fields : List (RecordField σ)} {room : Nat} {key : String} {j : Json}
    {f : RecordField σ} (hField : fields.find? (fun f => f.name = key) = some f) {s : σ}
    (hFree : f.filled s = false) {fault : JsonFault} (hRead : f.read room j = .error fault)
    (ms : List (Option JsonText × Json)) :
    readMembers fields room ((some (.whole key), j) :: ms) s = .error fault := by
  rw [readMembers]
  simp only [Json.keyOf, JsonText.read, bind, Except.bind, hField, hFree, Bool.false_eq_true,
    if_false, hRead]

theorem record_fault {fields : List (RecordField σ)} {start : σ} {room : Nat} {fault : JsonFault}
    {ms : List (Option JsonText × Json)} (h : readMembers fields (room + 1) ms start = .error fault)
    (next : σ → Except JsonFault β) :
    (record fields start (room + 2) (.object ms none) >>= next) = .error fault := by
  simp only [record, Json.enter_eq_ok, bind, Except.bind, h]

theorem map_error {x : Except JsonFault β} {fault : JsonFault} (h : x = .error fault) (g : β → γ) :
    x.map g = .error fault := by
  rw [h]
  rfl

end JsonDecoder

theorem decodeScalars_fault (room : Nat) {xs : List Float} (h : FaithfulText xs)
    (hLost : ∃ x ∈ xs, Scalar.isFinite x = false) :
    (decodeScalars : JsonDecoder (List Float)) (room + 2) (.scalars xs) = .error .mismatched := by
  apply elements_map_error
  · intro x hx
    have hRead := scalar_scalar_or_null (h x hx) (room + 1)
    cases hFinite : Scalar.isFinite x with
    | true => exact .inl ⟨x, by rw [hRead, hFinite, if_pos rfl]⟩
    | false => exact .inr (by rw [hRead, hFinite, if_neg Bool.false_ne_true])
  · obtain ⟨x, hx, hFinite⟩ := hLost
    exact ⟨x, hx, by rw [scalar_scalar_or_null (h x hx), hFinite, if_neg Bool.false_ne_true]⟩

theorem readWhole_scalars_or_null (room : Nat) {xs : List Float} (h : FaithfulText xs) :
    Json.readWhole (room + 2) (.scalars xs) = .ok () := by
  apply Json.readWhole_list
  intro v hv
  obtain ⟨x, hx, rfl⟩ := List.mem_map.mp hv
  exact readWhole_scalar_or_null (h x hx) (room + 1)

theorem Json.plain_scalars_or_null {xs : List Float} (h : FaithfulText xs) : Plain (.scalars xs) := by
  apply plain_list
  intro v hv
  obtain ⟨x, hx, rfl⟩ := List.mem_map.mp hv
  exact plain_scalar_or_null (h x hx)

namespace ActivationConfig

def bounds {α : Type} : ActivationConfig α → List α
  | barrier lower upper _ => lower ++ upper
  | _ => []

theorem mem_numbers_of_bound {α : Type} {a : ActivationConfig α} {x : α} (h : x ∈ a.bounds) :
    x ∈ a.numbers := by
  cases a with
  | quadratic => cases h
  | weighted ws => cases h
  | barrier lower upper beta => exact List.mem_append_left _ h

theorem isNumber_of_ordered {lower upper : List Float} (h : List.Forall₂ (· ≤ ·) lower upper) :
    ∀ x ∈ lower ++ upper, x.toModel.unpack ≠ .notANumber := by
  rw [List.forall_mem_append]
  induction h with
  | nil => exact ⟨nofun, nofun⟩
  | cons hHead _ ih =>
    obtain ⟨hl, hu⟩ := Double.isNumber_of_le hHead
    exact ⟨List.forall_mem_cons.mpr ⟨hl, ih.1⟩, List.forall_mem_cons.mpr ⟨hu, ih.2⟩⟩

theorem finite_or_bound {a : ActivationConfig Float} (h : a.Valid) :
    ∀ x ∈ a.numbers, Scalar.isFinite x = true ∨ x ∈ a.bounds ∧ x.isInf = true := by
  intro x hx
  cases a with
  | quadratic => cases hx
  | weighted ws => exact .inl (h x hx).1
  | barrier lower upper beta =>
    obtain ⟨hOrdered, hPos, hLe⟩ := h
    rcases List.mem_append.mp hx with hBound | hBeta
    · cases hFinite : Scalar.isFinite x with
      | true => exact .inl rfl
      | false =>
        exact .inr ⟨hBound, Double.isInf_of_not_finite (isNumber_of_ordered hOrdered x hBound) hFinite⟩
    · obtain rfl := List.mem_singleton.mp hBeta
      exact .inl (Double.isFinite_of_unit hPos hLe)

theorem plain_or_null {a : ActivationConfig Float} (h : FaithfulText a.numbers) :
    Json.Plain a.toJson := by
  cases a with
  | quadratic => exact ⟨trivial, trivial⟩
  | weighted ws => exact ⟨trivial, Json.plain_scalars_or_null h, trivial⟩
  | barrier lower upper beta =>
    obtain ⟨hBounds, hBeta⟩ := List.forall_mem_append.mp h
    obtain ⟨hLower, hUpper⟩ := List.forall_mem_append.mp hBounds
    exact ⟨trivial, Json.plain_scalars_or_null hLower, Json.plain_scalars_or_null hUpper,
      Json.plain_scalar_or_null (hBeta beta (List.mem_singleton_self beta)), trivial⟩

theorem decode_fault (room : Nat) {a : ActivationConfig Float} (h : FaithfulText a.numbers)
    (hLost : ∃ x ∈ a.bounds, Scalar.isFinite x = false) :
    (decode : JsonDecoder (ActivationConfig Float)) (room + 3) a.toJson = .error .mismatched := by
  obtain ⟨x, hx, hInfinite⟩ := hLost
  cases a with
  | quadratic => cases hx
  | weighted ws => cases hx
  | barrier lower upper beta =>
    obtain ⟨hBounds, hBeta⟩ := List.forall_mem_append.mp h
    obtain ⟨hLower, hUpper⟩ := List.forall_mem_append.mp hBounds
    have hWhole : ∀ m ∈ [("lower", Json.scalars lower), ("upper", .scalars upper),
        ("beta", .scalar beta)], m.1 ≠ "type" ∧ Json.readWhole (room + 2) m.2 = .ok () := by
      simp only [List.forall_mem_cons]
      exact ⟨⟨(by decide : "lower" ≠ "type"), readWhole_scalars_or_null room hLower⟩,
        ⟨(by decide : "upper" ≠ "type"), readWhole_scalars_or_null room hUpper⟩,
        ⟨(by decide : "beta" ≠ "type"),
          readWhole_scalar_or_null (hBeta beta (List.mem_singleton_self beta)) (room + 2)⟩,
        fun m hm => by cases hm⟩
    have hMembers : readMembers ([lowerField, upperField, betaField] : List (RecordField (Draft Float)))
        (room + 2) [(some (.whole "lower"), .scalars lower), (some (.whole "upper"), .scalars upper),
          (some (.whole "beta"), .scalar beta)] emptyDraft = .error .mismatched := by
      by_cases hFirst : ∃ x ∈ lower, Scalar.isFinite x = false
      · exact readMembers_fault rfl rfl (map_error (decodeScalars_fault room hLower hFirst) _) _
      · have hRead : ∀ y ∈ lower, ReadsBack y := by
          intro y hy
          refine hLower y hy (by_contra fun hNot => hFirst ⟨y, hy, ?_⟩)
          exact Bool.not_eq_true _ ▸ hNot
        have hSecond : ∃ x ∈ upper, Scalar.isFinite x = false := by
          rcases List.mem_append.mp hx with hx | hx
          · exact absurd ⟨x, hx, hInfinite⟩ hFirst
          · exact ⟨x, hx, hInfinite⟩
        rw [readMembers_known rfl rfl (map_ok (decodeScalars_scalars room hRead) _)]
        exact readMembers_fault rfl rfl (map_error (decodeScalars_fault room hUpper hSecond) _) _
    have hBody : (decodeBody .barrier : JsonDecoder (ActivationConfig Float)) (room + 3)
        (.record [("lower", .scalars lower), ("upper", .scalars upper), ("beta", .scalar beta)]) =
        .error .mismatched := record_fault hMembers _
    refine (tagged_eq _ rfl hWhole).trans ?_
    rw [tagged.decodeBody, hBody]

end ActivationConfig

namespace ConfigEntry

variable {e : ConfigEntry Float}

def otherNumbers {α : Type} (e : ConfigEntry α) : List α := e.weight :: e.residual.numbers

structure FiniteButBounds (e : ConfigEntry Float) : Prop where
  others : ∀ x ∈ e.otherNumbers, Scalar.isFinite x = true
  activation : ∀ x ∈ e.activation.numbers, Scalar.isFinite x = true ∨ x ∈ e.activation.bounds

theorem FiniteButBounds.finite (h : e.FiniteButBounds)
    (hBounds : ¬∃ x ∈ e.activation.bounds, Scalar.isFinite x = false) :
    ∀ x ∈ e.numbers, Scalar.isFinite x = true := by
  obtain ⟨hWeight, hResidual⟩ := List.forall_mem_cons.mp h.others
  refine List.forall_mem_cons.mpr ⟨hWeight, List.forall_mem_append.mpr ⟨fun x hx => ?_, hResidual⟩⟩
  refine (h.activation x hx).elim id fun hBound => ?_
  by_contra hNot
  exact hBounds ⟨x, hBound, Bool.eq_false_of_not_eq_true hNot⟩

theorem readsBack_others (h : FaithfulText e.numbers) (hFinite : e.FiniteButBounds) :
    ∀ x ∈ e.otherNumbers, ReadsBack x := by
  intro x hx
  refine h x ?_ (hFinite.others x hx)
  rcases List.mem_cons.mp hx with rfl | hx
  · exact List.mem_cons_self
  · exact List.mem_cons_of_mem _ (List.mem_append_right _ hx)

theorem faithful_activation (h : FaithfulText e.numbers) : FaithfulText e.activation.numbers :=
  fun x hx => h x (List.mem_cons_of_mem _ (List.mem_append_left _ hx))

theorem plain_or_null (h : FaithfulText e.numbers) (hFinite : e.FiniteButBounds) :
    Json.Plain e.toJson := by
  obtain ⟨hWeight, hResidual⟩ := List.forall_mem_cons.mp (readsBack_others h hFinite)
  exact ⟨trivial, Json.plain_scalar hWeight,
    ActivationConfig.plain_or_null (faithful_activation h), ResidualConfig.plain_toJson hResidual, trivial⟩

theorem decode_fault (room : Nat) (h : FaithfulText e.numbers) (hFinite : e.FiniteButBounds)
    (hLost : ∃ x ∈ e.activation.bounds, Scalar.isFinite x = false) :
    (decode : JsonDecoder (ConfigEntry Float)) (room + 4) e.toJson = .error .mismatched := by
  obtain ⟨hWeight, -⟩ := List.forall_mem_cons.mp (readsBack_others h hFinite)
  have hActivation := ActivationConfig.decode_fault room (faithful_activation h) hLost
  have hMembers : readMembers (fields : List (RecordField (Draft Float))) (room + 3)
      [(some (.whole "name"), .text e.name), (some (.whole "weight"), .scalar e.weight),
        (some (.whole "activation"), e.activation.toJson),
        (some (.whole "residual"), e.residual.toJson)] ⟨none, none, none, none⟩ =
      .error .mismatched := by
    rw [readMembers_known rfl rfl rfl,
      readMembers_known rfl rfl (map_ok (scalar_scalar (room + 3) hWeight) _)]
    exact readMembers_fault rfl rfl (map_error hActivation _) _
  exact record_fault hMembers _

end ConfigEntry

namespace Config

variable {c : Config Float}

theorem ofText_of_finite (hNu : ∀ n, c.nu = some n → n < wordBound) (h : FaithfulText c.numbers)
    (hFinite : ∀ x ∈ c.numbers, Scalar.isFinite x = true) : ofText c.text = .ok c := by
  have hBack : ∀ x ∈ c.numbers, ReadsBack x := fun x hx => h x hx (hFinite x hx)
  simp only [ofText, readText, Config.text, Json.parse_pretty (plain_toJson hBack),
    decode_toJson hNu hBack, bind, Except.bind, Bool.false_eq_true, if_false]

theorem ofText_of_lost (hNu : ∀ n, c.nu = some n → n < wordBound) (h : FaithfulText c.numbers)
    (hFinite : ∀ e ∈ c.entries, e.FiniteButBounds)
    (hLost : ∃ e ∈ c.entries, ∃ x ∈ e.activation.bounds, Scalar.isFinite x = false) :
    (ofText c.text : Except JsonFault (Config Float)) = .error .mismatched := by
  have hFaithful : ∀ e ∈ c.entries, FaithfulText e.numbers :=
    fun e he x hx => h x (List.mem_flatMap.mpr ⟨e, he, hx⟩)
  have hPlain : Json.Plain c.toJson := by
    have hEntries : Json.Plain (.list (c.entries.map ConfigEntry.toJson)) := by
      apply Json.plain_list
      intro v hv
      obtain ⟨e, he, rfl⟩ := List.mem_map.mp hv
      exact ConfigEntry.plain_or_null (hFaithful e he) (hFinite e he)
    exact ⟨Json.plain_optional Json.plain_natural c.nu, hEntries, trivial⟩
  have hEntries : elements (ConfigEntry.decode : JsonDecoder (ConfigEntry Float)) 127
      (.list (c.entries.map ConfigEntry.toJson)) = .error .mismatched := by
    apply elements_map_error
    · intro e he
      by_cases hBounds : ∃ x ∈ e.activation.bounds, Scalar.isFinite x = false
      · exact .inr (ConfigEntry.decode_fault 122 (hFaithful e he) (hFinite e he) hBounds)
      · have hBack : ∀ x ∈ e.numbers, ReadsBack x :=
          fun x hx => hFaithful e he x hx ((hFinite e he).finite hBounds x hx)
        exact .inl ⟨e, ConfigEntry.decode_toJson 122 hBack⟩
    · obtain ⟨e, he, hInfinite⟩ := hLost
      exact ⟨e, he, ConfigEntry.decode_fault 122 (hFaithful e he) (hFinite e he) hInfinite⟩
  have hMembers : readMembers (fields : List (RecordField (Draft Float))) 127
      [(some (.whole "nu"), .optional .natural c.nu),
        (some (.whole "costs"), .list (c.entries.map ConfigEntry.toJson))] ⟨none, none⟩ =
      .error .mismatched := by
    rw [readMembers_known rfl rfl (map_ok (optional_index 127 hNu) _)]
    exact readMembers_fault rfl rfl (map_error hEntries _) _
  have hDecode : (decode : JsonDecoder (Config Float)) Json.fullRoom c.toJson = .error .mismatched :=
    record_fault hMembers _
  simp only [ofText, readText, Config.text, Json.parse_pretty hPlain, hDecode, bind, Except.bind]

/-- Configurations of activations that can be built are read from their own texts exactly where no
bound is infinite; else the text is refused for a value of the wrong type. Of the other numbers, those
of an activation that can be built are finite anyway. -/
theorem read_unless_infinite (hNu : ∀ n, c.nu = some n → n < wordBound)
    (hBuilt : ∀ e ∈ c.entries, ∃ n built, e.activation.build n = .ok built)
    (hOthers : ∀ e ∈ c.entries, ∀ x ∈ e.otherNumbers, Scalar.isFinite x = true)
    (hNumbers : FaithfulText c.numbers) :
    (ofText c.text = .ok c ↔ ∀ e ∈ c.entries, ∀ x ∈ e.activation.bounds, x.isInf = false) ∧
      ∀ e ∈ c.entries, ∀ x ∈ e.activation.bounds, x.isInf = true →
        (ofText c.text : Except JsonFault (Config Float)) = .error .mismatched := by
  have hValid : ∀ e ∈ c.entries, e.activation.Valid := by
    intro e he
    obtain ⟨n, built, hBuild⟩ := hBuilt e he
    exact ActivationConfig.exists_describes_iff.mp ⟨built, ActivationConfig.build_eq_ok_iff.mp hBuild⟩
  have hFinite : ∀ e ∈ c.entries, e.FiniteButBounds := fun e he =>
    ⟨hOthers e he, fun x hx => (ActivationConfig.finite_or_bound (hValid e he) x hx).imp_right And.left⟩
  have hRefused : ∀ e ∈ c.entries, ∀ x ∈ e.activation.bounds, x.isInf = true →
      (ofText c.text : Except JsonFault (Config Float)) = .error .mismatched := fun e he x hx hInf =>
    ofText_of_lost hNu hNumbers hFinite ⟨e, he, x, hx, Double.not_finite_of_isInf hInf⟩
  refine ⟨⟨fun hRead e he x hx => ?_, fun hNone => ?_⟩, hRefused⟩
  · refine Bool.eq_false_of_not_eq_true fun hInf => ?_
    rw [hRefused e he x hx hInf] at hRead
    cases hRead
  · refine ofText_of_finite hNu hNumbers fun x hx => ?_
    obtain ⟨e, he, hx⟩ := List.mem_flatMap.mp hx
    refine (hFinite e he).finite ?_ x hx
    rintro ⟨y, hy, hNot⟩
    have hInf := ((ActivationConfig.finite_or_bound (hValid e he) y
      (ActivationConfig.mem_numbers_of_bound hy)).resolve_left (by rw [hNot]; exact Bool.false_ne_true)).2
    rw [hNone e he y hy] at hInf
    cases hInf

def drive (lower : Float) : Config Float where
  nu := some 1
  entries := [⟨"drive", 1, .barrier [lower] [1] 1, .control none⟩]

section Drive

variable {lower : Float}

theorem drive_nu : ∀ n, (drive lower).nu = some n → n < wordBound := by
  rintro n ⟨⟩
  decide

theorem drive_others : ∀ e ∈ (drive lower).entries, ∀ x ∈ e.otherNumbers, Scalar.isFinite x = true := by
  rintro e hEntry x hx
  obtain rfl := List.mem_singleton.mp hEntry
  obtain rfl := List.mem_singleton.mp hx
  exact (by decide +kernel : Scalar.isFinite (1 : Float) = true)

theorem faithful_drive (h : Scalar.isFinite lower = true → ReadsBack lower) :
    FaithfulText (drive lower).numbers := by
  have hOne : ReadsBack (1 : Float) :=
    ⟨⟨false, [1], [0], none⟩, by decide +kernel, ⟨1, [], rfl, fun _ => rfl⟩, by decide +kernel⟩
  have hNumbers : (drive lower).numbers = [1, lower, 1, 1] := rfl
  rw [FaithfulText, hNumbers]
  simp only [List.forall_mem_cons]
  exact ⟨fun _ => hOne, h, fun _ => hOne, fun _ => hOne, fun x hx => by cases hx⟩

theorem valid_drive (h : lower ≤ 1) : ActivationConfig.Valid (.barrier [lower] [1] 1) :=
  ⟨.cons h .nil, by decide +kernel, by decide +kernel⟩

theorem build_drive (h : lower ≤ 1) : ∀ e ∈ (drive lower).entries,
    ∃ n built, e.activation.build n = .ok built := by
  intro e hEntry
  obtain rfl := List.mem_singleton.mp hEntry
  obtain ⟨built, hDescribes⟩ := ActivationConfig.exists_describes_iff (n := 1).mpr (valid_drive h)
  exact ⟨1, built, ActivationConfig.build_eq_ok_iff.mpr hDescribes⟩

end Drive

/-- A drive that may run backwards without limit makes a sum, and is lost on saving. -/
theorem unlimited_drive_lost :
    (∃ built, (ActivationConfig.barrier [-1 / 0] [1] (1 : Float)).build 1 = .ok built) ∧
    (∃ sum, ((drive (-1 / 0)).build ⟨Model.empty.pushJoint "hinge" .revolute none (-1) 1⟩).1 = .ok sum) ∧
    (ofText (drive (-1 / 0)).text : Except JsonFault (Config Float)) = .error .mismatched := by
  have hInfinite : Scalar.isFinite (-1 / 0 : Float) = false := by decide +kernel
  have hValid := valid_drive (by decide +kernel : (-1 / 0 : Float) ≤ 1)
  refine ⟨?_, exists_build_iff.mpr ⟨List.nodup_singleton _, ?_⟩, ofText_of_lost drive_nu ?_ ?_ ?_⟩
  · obtain ⟨built, hDescribes⟩ := ActivationConfig.exists_describes_iff (n := 1).mpr hValid
    exact ⟨built, ActivationConfig.build_eq_ok_iff.mpr hDescribes⟩
  · intro e hEntry
    obtain rfl := List.mem_singleton.mp hEntry
    refine ⟨⟨hValid, ?_, ?_⟩, by decide +kernel⟩
    · rintro n ⟨⟩
      rfl
    · rintro ref ⟨⟩
  · exact faithful_drive fun h => absurd (hInfinite.symm.trans h) Bool.false_ne_true
  · intro e hEntry
    refine ⟨drive_others e hEntry, fun x hx => ?_⟩
    obtain rfl := List.mem_singleton.mp hEntry
    exact (ActivationConfig.finite_or_bound hValid x hx).imp_right And.left
  · exact ⟨_, List.mem_singleton_self _, _, List.mem_cons_self, hInfinite⟩

theorem read_unless_infinite_drive :
    ofText (drive (-1)).text = .ok (drive (-1)) ∧
    (ofText (drive (-1 / 0)).text : Except JsonFault (Config Float)) = .error .mismatched := by
  have hInfinite : Scalar.isFinite (-1 / 0 : Float) = false := by decide +kernel
  have hBack : ReadsBack (-1 : Float) :=
    ⟨⟨true, [1], [0], none⟩, by decide +kernel, ⟨1, [], rfl, fun _ => rfl⟩, by decide +kernel⟩
  have hLimited := (read_unless_infinite drive_nu (build_drive (by decide +kernel : (-1 : Float) ≤ 1))
    drive_others (faithful_drive fun _ => hBack)).1
  have hUnlimited := (read_unless_infinite drive_nu
    (build_drive (by decide +kernel : (-1 / 0 : Float) ≤ 1)) drive_others
    (faithful_drive fun h => absurd (hInfinite.symm.trans h) Bool.false_ne_true)).2
  refine ⟨hLimited.mpr ?_,
    hUnlimited _ (List.mem_singleton_self _) (-1 / 0) List.mem_cons_self (by decide +kernel)⟩
  intro e hEntry
  obtain rfl := List.mem_singleton.mp hEntry
  change ∀ x ∈ ([-1, 1] : List Float), x.isInf = false
  decide +kernel

end Config

end MultibodyCost
