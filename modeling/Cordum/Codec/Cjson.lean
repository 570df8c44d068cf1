import Mathlib.Data.Int.Log
import Mathlib.Data.Rat.Floor

/-!
# JSON documents and Lua's `cjson`

A document that a script decodes and encodes again passes through Lua tables: an empty array and an
empty object are the same table, which is encoded as an object, and a number is a double. `decode`
gives up on documents that are nested too deep.
-/

/-- A JSON document. -/
inductive Json
  | null
  | bool (b : Bool)
  | num (q : ℚ)
  | str (s : String)
  | arr (items : List Json)
  | obj (members : List (String × Json))

namespace Json

/-- `decode_max_depth`. -/
def maxDepth : ℕ := 1000

mutual

/-- How deep arrays and objects are nested. -/
def depth : Json → ℕ
  | .null | .bool _ | .num _ | .str _ => 0
  | .arr items => depthItems items + 1
  | .obj members => depthMembers members + 1

def depthItems : List Json → ℕ
  | [] => 0
  | v :: items => max v.depth (depthItems items)

def depthMembers : List (String × Json) → ℕ
  | [] => 0
  | (_, v) :: members => max v.depth (depthMembers members)

end

/-! ## Doubles -/

/-- The nearest integer, the even one in the middle between two. -/
def roundEven (q : ℚ) : ℤ :=
  let below := ⌊q⌋
  if q - below < 1 / 2 then below
  else if 1 / 2 < q - below then below + 1
  else if below % 2 = 0 then below
  else below + 1

/-- The exponent of a double's last bit: 53 bits of precision, and no bits below `2 ^ -1074`. -/
def doubleExp (q : ℚ) : ℤ := max (Int.log 2 |q| - 52) (-1074)

/-- The double nearest to a number. -/
def toDouble (q : ℚ) : ℚ := roundEven (q / 2 ^ doubleExp q) * 2 ^ doubleExp q

/-! ## Through a Lua table -/

mutual

/-- Decoded and encoded again. -/
def recode : Json → Json
  | .null => .null
  | .bool b => .bool b
  | .num q => .num (toDouble q)
  | .str s => .str s
  | .arr [] => .obj []
  | .arr (v :: items) => .arr (recode v :: recodeItems items)
  | .obj members => .obj (recodeMembers members)

def recodeItems : List Json → List Json
  | [] => []
  | v :: items => recode v :: recodeItems items

def recodeMembers : List (String × Json) → List (String × Json)
  | [] => []
  | (k, v) :: members => (k, recode v) :: recodeMembers members

end

mutual

/-- No empty array, and no number that is not a double. -/
def Plain : Json → Prop
  | .null | .bool _ | .str _ => True
  | .num q => toDouble q = q
  | .arr [] => False
  | .arr (v :: items) => Plain v ∧ PlainItems items
  | .obj members => PlainMembers members

def PlainItems : List Json → Prop
  | [] => True
  | v :: items => Plain v ∧ PlainItems items

def PlainMembers : List (String × Json) → Prop
  | [] => True
  | (_, v) :: members => Plain v ∧ PlainMembers members

end

mutual

/-- **A document comes back as it was exactly when it is plain.** -/
theorem recode_eq_self_iff : (j : Json) → (recode j = j ↔ Plain j)
  | .null => by simp [recode, Plain]
  | .bool b => by simp [recode, Plain]
  | .str s => by simp [recode, Plain]
  | .num q => by simp [recode, Plain]
  | .arr [] => by simp [recode, Plain]
  | .arr (v :: items) => by
    have hv := recode_eq_self_iff v
    have hits := recodeItems_eq_self_iff items
    simp [recode, Plain, hv, hits]
  | .obj members => by
    have hmem := recodeMembers_eq_self_iff members
    simp [recode, Plain, hmem]

theorem recodeItems_eq_self_iff : (items : List Json) → (recodeItems items = items ↔ PlainItems items)
  | [] => by simp [recodeItems, PlainItems]
  | v :: items => by
    have hv := recode_eq_self_iff v
    have hits := recodeItems_eq_self_iff items
    simp [recodeItems, PlainItems, hv, hits]

theorem recodeMembers_eq_self_iff : (members : List (String × Json)) →
    (recodeMembers members = members ↔ PlainMembers members)
  | [] => by simp [recodeMembers, PlainMembers]
  | (k, v) :: members => by
    have hv := recode_eq_self_iff v
    have hmem := recodeMembers_eq_self_iff members
    simp [recodeMembers, PlainMembers, hv, hmem]

end

end Json
