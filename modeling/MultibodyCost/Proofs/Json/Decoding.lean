import MultibodyCost.Json.Decode
import MultibodyCost.Json.Encode
import MultibodyCost.Proofs.Json.Layout

/-! # Decoders on written values

What a decoder gives for a value that the library wrote itself. Each lemma is about one decoder and
asks of its parts what they give in turn, so that a record is read by one rewrite for each member.
Two levels of room are what a decoder needs to look into a list or an object of its own.
-/

namespace MultibodyCost

variable {α : Type}

/-- The scalar is written as a number that is read as the scalar again. -/
def ReadsBack [NumberText α] (x : α) : Prop :=
  ∃ l, NumberText.literal? x = some l ∧ l.WellFormed ∧ NumberText.value? l = some x

namespace Json

theorem enter_eq_ok (room : Nat) : enter (room + 2) = .ok (room + 1) := by
  simp [enter]

theorem plain_scalar [NumberText α] {x : α} (h : ReadsBack x) : Plain (scalar x) := by
  obtain ⟨l, hLiteral, hForm, -⟩ := h
  rw [scalar, hLiteral]
  exact hForm

theorem readItemsWhole_eq_ok {room : Nat} {js : List Json} (h : ∀ j ∈ js, readWhole room j = .ok ()) :
    readItemsWhole room js = .ok () := by
  induction js with
  | nil => rfl
  | cons j js ih =>
    simp only [readItemsWhole, bind, Except.bind, h j List.mem_cons_self]
    exact ih fun v hv => h v (List.mem_cons_of_mem _ hv)

theorem readWhole_list {room : Nat} {js : List Json}
    (h : ∀ j ∈ js, readWhole (room + 1) j = .ok ()) : readWhole (room + 2) (list js) = .ok () := by
  simp only [list, readWhole, enter_eq_ok, bind, Except.bind, readItemsWhole_eq_ok h, closed]

end Json

namespace JsonDecoder

variable {β γ : Type}

theorem scalar_scalar [NumberText α] (room : Nat) {x : α} (h : ReadsBack x) :
    scalar room (Json.scalar x) = .ok x := by
  obtain ⟨l, hLiteral, -, hValue⟩ := h
  simp only [Json.scalar, hLiteral, scalar, hValue]

theorem optional_scalar [NumberText α] (room : Nat) {x : α} (h : ReadsBack x) :
    optional scalar room (Json.scalar x) = .ok (some x) := by
  obtain ⟨l, hLiteral, -, hValue⟩ := h
  simp only [Json.scalar, hLiteral, optional, scalar, hValue]
  rfl

theorem index_natural (room : Nat) {n : Nat} (h : n < wordBound) : index room (.natural n) = .ok n := by
  simp only [Json.natural, index, Literal.natural?_ofNat h]

theorem optional_index (room : Nat) {p : Option Nat} (h : ∀ n, p = some n → n < wordBound) :
    optional index room (Json.optional .natural p) = .ok p := by
  cases p with
  | none => rfl
  | some n =>
    have hIndex := index_natural room (h n rfl)
    simp only [Json.optional]
    rw [Json.natural] at hIndex ⊢
    rw [optional, hIndex]
    · rfl
    · intro hNull
      cases hNull

theorem each_map {d : JsonDecoder β} {room : Nat} {toJson : γ → Json} {view : γ → β} {xs : List γ}
    (h : ∀ x ∈ xs, d room (toJson x) = .ok (view x)) :
    each d room (xs.map toJson) = .ok (xs.map view) := by
  induction xs with
  | nil => rfl
  | cons x xs ih =>
    rw [List.map_cons, each, h x List.mem_cons_self,
      ih fun y hy => h y (List.mem_cons_of_mem _ hy)]
    rfl

theorem elements_map {d : JsonDecoder β} {room : Nat} {toJson : γ → Json} {view : γ → β}
    {xs : List γ} (h : ∀ x ∈ xs, d (room + 1) (toJson x) = .ok (view x)) :
    elements d (room + 2) (.list (xs.map toJson)) = .ok (xs.map view) := by
  have hEach := each_map h
  simp only [Json.list, elements, Json.enter_eq_ok, bind, Except.bind, hEach, Json.closed]
  rfl

theorem eachOf_map {d : JsonDecoder β} {room : Nat} {toJson : β → Json} {xs : List β}
    (h : ∀ x ∈ xs, d room (toJson x) = .ok x) :
    eachOf d room none xs.length (xs.map toJson) = .ok xs := by
  induction xs with
  | nil => rfl
  | cons x xs ih =>
    rw [List.length_cons, List.map_cons, eachOf, h x List.mem_cons_self,
      ih fun y hy => h y (List.mem_cons_of_mem _ hy)]
    rfl

theorem exactly_map {d : JsonDecoder β} {room : Nat} {toJson : β → Json} {xs : List β}
    (h : ∀ x ∈ xs, d (room + 1) (toJson x) = .ok x) :
    exactly xs.length d (room + 2) (.list (xs.map toJson)) = .ok xs := by
  simp only [Json.list, exactly, Json.enter_eq_ok, bind, Except.bind, eachOf_map h]

section Records

variable {σ : Type}

theorem readMembers_known {fields : List (RecordField σ)} {room : Nat} {key : String} {j : Json}
    {f : RecordField σ} (hField : fields.find? (fun f => f.name = key) = some f) {s : σ}
    (hFree : f.filled s = false) {fill : σ → σ} (hRead : f.read room j = .ok fill)
    (ms : List (Option JsonText × Json)) :
    readMembers fields room ((some (.whole key), j) :: ms) s = readMembers fields room ms (fill s) := by
  rw [readMembers]
  simp only [Json.keyOf, JsonText.read, bind, Except.bind, hField, hFree, Bool.false_eq_true,
    if_false, hRead]

theorem readMembers_unknown {fields : List (RecordField σ)} {room : Nat} {key : String} {j : Json}
    (hField : fields.find? (fun f => f.name = key) = none) (hSkip : Json.skip j = .ok ())
    (ms : List (Option JsonText × Json)) (s : σ) :
    readMembers fields room ((some (.whole key), j) :: ms) s = readMembers fields room ms s := by
  rw [readMembers]
  simp only [Json.keyOf, JsonText.read, bind, Except.bind, hField, hSkip]

theorem map_ok {x : Except JsonFault β} {b : β} (h : x = .ok b) (g : β → γ) :
    x.map g = .ok (g b) := by
  rw [h]
  rfl

theorem record_bind {fields : List (RecordField σ)} {start s : σ} {room : Nat}
    {ms : List (Option JsonText × Json)} (h : readMembers fields (room + 1) ms start = .ok s)
    (next : σ → Except JsonFault β) :
    (record fields start (room + 2) (.object ms none) >>= next) = next s := by
  simp only [record, Json.enter_eq_ok, bind, Except.bind, h, Json.closed]
  rfl

end Records

section Tagged

variable {τ : Type}

theorem tagMembers_others (tags : List (String × τ)) {room : Nat} {ms : List (String × Json)}
    (h : ∀ m ∈ ms, m.1 ≠ "type" ∧ Json.readWhole room m.2 = .ok ()) (tag? : Option τ) :
    tagMembers tags room (ms.map fun m => (some (.whole m.1), m.2)) tag? =
      .ok (tag?, ms.map fun m => (some (.whole m.1), m.2)) := by
  induction ms with
  | nil => rfl
  | cons m ms ih =>
    obtain ⟨hKey, hWhole⟩ := h m List.mem_cons_self
    have hRest := ih fun v hv => h v (List.mem_cons_of_mem _ hv)
    simp only [List.map_cons, tagMembers, Json.keyOf, JsonText.read, bind, Except.bind, hKey,
      if_false, hWhole, hRest]
    rfl

theorem tagged_eq {tags : List (String × τ)} (body : τ → JsonDecoder β) {room : Nat} {word : String}
    {tag : τ} {ms : List (String × Json)} (hTag : tags.lookup word = some tag)
    (hWhole : ∀ m ∈ ms, m.1 ≠ "type" ∧ Json.readWhole (room + 1) m.2 = .ok ()) :
    tagged tags body (room + 2) (.record (("type", .text word) :: ms)) =
      tagged.decodeBody body tag (room + 2) (.record ms) := by
  have hOthers := tagMembers_others tags hWhole (some tag)
  simp only [Json.record, List.map_cons, tagged, Json.enter_eq_ok, bind, Except.bind, tagMembers,
    Json.keyOf, JsonText.read, if_true, Option.isSome_none, Bool.false_eq_true, if_false, string,
    Json.text, hTag, required, hOthers, Json.closed]

theorem tagged_record {tags : List (String × τ)} {body : τ → JsonDecoder β} {room : Nat}
    {word : String} {tag : τ} {ms : List (String × Json)} {x : β} (hTag : tags.lookup word = some tag)
    (hWhole : ∀ m ∈ ms, m.1 ≠ "type" ∧ Json.readWhole (room + 1) m.2 = .ok ())
    (hBody : body tag (room + 2) (.record ms) = .ok x) :
    tagged tags body (room + 2) (.record (("type", .text word) :: ms)) = .ok x := by
  rw [tagged_eq body hTag hWhole, tagged.decodeBody, hBody]

end Tagged

end JsonDecoder

end MultibodyCost
