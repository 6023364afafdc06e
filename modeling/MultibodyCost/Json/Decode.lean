import MultibodyCost.Decimal.Reading
import MultibodyCost.Json.Parser

/-!
# Typed reading of JSON values

A decoder takes a value and gives a typed result or the first fault in the order of the text. A
decoder that wants another kind of value still reads a number, word or string that stands in the
place, so that a break in it is reported before the mismatch; of a list or an object it reads only
the bracket.

Values are either looked into, with at most 127 lists and objects inside one another (`room` counts
down what is left), or skipped without limit (`skip`).

Records (`record`) are read from objects, where unknown members are skipped, and from lists of
their fields in order. Values told apart by a `type` member (`tagged`) are first read whole,
whatever their members, and then decoded; from there on every fault is a mismatch.
-/

namespace MultibodyCost

/-- Reading of a value at a place with `room` levels left below it. -/
abbrev JsonDecoder (β : Type) := (room : Nat) → Json → Except JsonFault β

def JsonText.read : JsonText → Except JsonFault String
  | .whole s => .ok s
  | .unpaired => .error .malformed
  | .cut fault _ => .error fault

namespace Json

def fullRoom : Nat := 128

def enter (room : Nat) : Except JsonFault Nat :=
  if room ≤ 1 then .error .malformed else .ok (room - 1)

def closed : Option JsonFault → Except JsonFault Unit
  | none => .ok ()
  | some fault => .error fault

def mismatch : Json → JsonFault
  | .number l => if l.inRange then .mismatched else .malformed
  | .string .unpaired => .malformed
  | .string (.cut fault _) => fault
  | .cutNumber fault => fault
  | .cutWord fault => fault
  | .missing fault => fault
  | _ => .mismatched

def keyOf : Option JsonText × Json → Except JsonFault String
  | (some t, _) => t.read
  | (none, .missing fault) => .error fault
  | (none, _) => .error .malformed

mutual

def skip : Json → Except JsonFault Unit
  | .string (.cut _ fault) => .error fault
  | .cutNumber _ => .error .malformed
  | .cutWord fault => .error fault
  | .missing fault => .error fault
  | .array items stop => do skipItems items; closed stop
  | .object members stop => do skipMembers members; closed stop
  | _ => .ok ()

def skipItems : List Json → Except JsonFault Unit
  | [] => .ok ()
  | j :: js => do skip j; skipItems js

def skipMembers : List (Option JsonText × Json) → Except JsonFault Unit
  | [] => .ok ()
  | (some (.cut _ fault), _) :: _ => .error fault
  | (none, .missing fault) :: _ => .error fault
  | (none, _) :: _ => .error .malformed
  | (some _, j) :: ms => do skip j; skipMembers ms

end

mutual

def readWhole (room : Nat) : Json → Except JsonFault Unit
  | .null => .ok ()
  | .bool _ => .ok ()
  | .number l => if l.inRange then .ok () else .error .malformed
  | .string t => do let _ ← t.read
  | .array items stop => do readItemsWhole (← enter room) items; closed stop
  | .object members stop => do readMembersWhole (← enter room) members; closed stop
  | .cutNumber fault => .error fault
  | .cutWord fault => .error fault
  | .missing fault => .error fault

def readItemsWhole (room : Nat) : List Json → Except JsonFault Unit
  | [] => .ok ()
  | j :: js => do readWhole room j; readItemsWhole room js

def readMembersWhole (room : Nat) : List (Option JsonText × Json) → Except JsonFault Unit
  | [] => .ok ()
  | (key, j) :: ms => do
    let _ ← keyOf (key, j)
    readWhole room j
    readMembersWhole room ms

end

end Json

namespace JsonDecoder

open Json (fullRoom enter closed mismatch keyOf skip readWhole readItemsWhole parse)

def string : JsonDecoder String
  | _, .string t => t.read
  | _, j => .error j.mismatch

def scalar {α : Type} [NumberText α] : JsonDecoder α
  | _, .number l =>
    match NumberText.value? l with
    | some x => .ok x
    | none => .error .malformed
  | _, j => .error j.mismatch

/-- A natural number; a point or an exponent makes it a number of another kind. -/
def index : JsonDecoder Nat
  | _, .number l =>
    match l.natural? with
    | some n => .ok n
    | none => .error (Json.number l).mismatch
  | _, j => .error j.mismatch

variable {β : Type}

def optional (d : JsonDecoder β) : JsonDecoder (Option β)
  | _, .null => .ok none
  | room, j => (d room j).map some

def each (d : JsonDecoder β) (room : Nat) : List Json → Except JsonFault (List β)
  | [] => .ok []
  | j :: js => do
    let x ← d room j
    let xs ← each d room js
    return x :: xs

def elements (d : JsonDecoder β) : JsonDecoder (List β)
  | room, .array items stop => do
    let xs ← each d (← enter room) items
    closed stop
    return xs
  | _, j => .error j.mismatch

/-- As `each`, but for exactly `n` elements; one too many is read before it is refused. -/
def eachOf (d : JsonDecoder β) (room : Nat) (stop : Option JsonFault) :
    Nat → List Json → Except JsonFault (List β)
  | 0, [] => do
    closed stop
    return []
  | 0, j :: _ => do
    let _ ← d room j
    .error .mismatched
  | _ + 1, [] => do
    closed stop
    .error .mismatched
  | n + 1, j :: js => do
    let x ← d room j
    let xs ← eachOf d room stop n js
    return x :: xs

def exactly (n : Nat) (d : JsonDecoder β) : JsonDecoder (List β)
  | room, .array items stop => do eachOf d (← enter room) stop n items
  | _, j => .error j.mismatch

/-- One of several names, as a string or as the only key of an object with the value null. -/
def oneOf (values : List (String × β)) : JsonDecoder β
  | _, .string t => do choose (← t.read)
  | room, .object members stop => do
    let _ ← enter room
    match members with
    | [] => do
      closed stop
      .error .malformed
    | m :: ms => do
      let x ← choose (← keyOf m)
      match m.2 with
      | .null => do
        if ms.isEmpty then closed stop else .error .malformed
        return x
      | j => .error j.mismatch
  | _, .missing fault => .error fault
  | _, _ => .error .malformed
where
  choose (s : String) : Except JsonFault β :=
    match values.lookup s with
    | some x => .ok x
    | none => .error .mismatched

structure RecordField (σ : Type) where
  name : String
  filled : σ → Bool
  /-- In a list of fields this one may be left out, with all after it. -/
  omittable : Bool
  read : JsonDecoder (σ → σ)

variable {σ : Type}

def readMembers (fields : List (RecordField σ)) (room : Nat) :
    List (Option JsonText × Json) → σ → Except JsonFault σ
  | [], s => .ok s
  | m :: ms, s => do
    let key ← keyOf m
    match fields.find? fun f => f.name = key with
    | none =>
      skip m.2
      readMembers fields room ms s
    | some f =>
      if f.filled s then .error .mismatched
      else
        let fill ← f.read room m.2
        readMembers fields room ms (fill s)

def readItems (room : Nat) (stop : Option JsonFault) :
    List (RecordField σ) → List Json → σ → Except JsonFault σ
  | [], [], s => do
    closed stop
    return s
  | [], _ :: _, _ => .error .malformed
  | f :: fs, [], s => do
    closed stop
    if f.omittable then readItems room stop fs [] s else .error .mismatched
  | f :: fs, j :: js, s => do
    let fill ← f.read room j
    readItems room stop fs js (fill s)

/-- A record, from an object in any order of its members or from a list in the order of `fields`.
Members that were not there are left unfilled in the result. -/
def record (fields : List (RecordField σ)) (start : σ) : JsonDecoder σ
  | room, .object members stop => do
    let s ← readMembers fields (← enter room) members start
    closed stop
    return s
  | room, .array items stop => do readItems (← enter room) stop fields items start
  | _, j => .error j.mismatch

def required (x? : Option β) : Except JsonFault β :=
  match x? with
  | some x => .ok x
  | none => .error .mismatched

/-- The members of a tagged value: its tag, and the others in order. -/
def tagMembers {τ : Type} (tags : List (String × τ)) (room : Nat) :
    List (Option JsonText × Json) → Option τ →
      Except JsonFault (Option τ × List (Option JsonText × Json))
  | [], tag? => .ok (tag?, [])
  | m :: ms, tag? => do
    let key ← keyOf m
    if key = "type" then
      if tag?.isSome then .error .mismatched
      else
        let tag ← required (tags.lookup (← string room m.2))
        tagMembers tags room ms (some tag)
    else
      readWhole room m.2
      let (tag?, others) ← tagMembers tags room ms tag?
      return (tag?, m :: others)

/-- A value told apart by a tag: the member `type` of an object, or the first element of a list.
`body` decodes the rest of the object or list. -/
def tagged {τ : Type} (tags : List (String × τ)) (body : τ → JsonDecoder β) : JsonDecoder β
  | room, .object members stop => do
    let inner ← enter room
    let (tag?, others) ← tagMembers tags inner members none
    closed stop
    let tag ← required tag?
    decodeBody tag room (.object others none)
  | room, .array items stop => do
    let inner ← enter room
    match items with
    | [] => do
      closed stop
      .error .mismatched
    | j :: js => do
      let tag ← required (tags.lookup (← string inner j))
      readItemsWhole inner js
      closed stop
      decodeBody tag room (.array js none)
  | _, j => .error j.mismatch
where
  /-- The value has been read: only mismatches are left. -/
  decodeBody (tag : τ) (room : Nat) (j : Json) : Except JsonFault β :=
    match body tag room j with
    | .ok x => .ok x
    | .error _ => .error .mismatched

/-- Reads a text that holds one value. What follows the value is looked at last. -/
def readText (d : JsonDecoder β) (s : String) : Except JsonFault β := do
  let doc := parse s.toList
  let x ← d fullRoom doc.value
  if doc.trailing then .error .malformed else .ok x

end JsonDecoder

end MultibodyCost
