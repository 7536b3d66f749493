import HeyNilo.KotlinText

namespace HeyNilo

/-- A value of `org.json`; a number is kept as the text it prints as. -/
inductive OrgJson where
  | null
  | bool (b : Bool)
  | num (literal : Text)
  | str (s : Text)
  | arr (elems : List OrgJson)
  | obj (fields : List (Text × OrgJson))

/-- The members of a `JSONObject`, each name once. -/
abbrev JSONObject := List (Text × OrgJson)

namespace OrgJson

def hexDigit (n : Nat) : Char := Nat.digitChar (n % 16)

/-- `JSONStringer.string` -/
def escapeChar (c : Char) : Text :=
  if c = '"' || c = '\\' || c = '/' then ['\\', c]
  else if c = '\t' then ['\\', 't']
  else if c.toNat = 8 then ['\\', 'b']
  else if c = '\n' then ['\\', 'n']
  else if c = '\r' then ['\\', 'r']
  else if c.toNat = 12 then ['\\', 'f']
  else if c.toNat ≤ 0x1F then ['\\', 'u', '0', '0', hexDigit (c.toNat / 16), hexDigit c.toNat]
  else [c]

def quote (s : Text) : Text := '"' :: s.flatMap escapeChar ++ ['"']

mutual

/-- `toString()` of a value inside an object or an array. -/
def print : OrgJson → Text
  | .null => "null".toList
  | .bool b => if b then "true".toList else "false".toList
  | .num literal => literal
  | .str s => quote s
  | .arr elems => '[' :: printElems elems ++ [']']
  | .obj fields => '{' :: printFields fields ++ ['}']

def printElems : List OrgJson → Text
  | [] => []
  | [x] => print x
  | x :: y :: xs => print x ++ ',' :: printElems (y :: xs)

def printFields : List (Text × OrgJson) → Text
  | [] => []
  | [(name, x)] => quote name ++ ':' :: print x
  | (name, x) :: y :: xs => quote name ++ ':' :: print x ++ ',' :: printFields (y :: xs)

end

/-- `JSON.toString`: a string is itself, and a JSON null the text `null`. -/
def asText : OrgJson → Text
  | .str s => s
  | x => x.print

end OrgJson

namespace JSONObject

variable (json : JSONObject) (name : Text)

def opt : Option OrgJson := json.lookup name

def has : Bool := (opt json name).isSome

def optString (fallback : Option Text) : Option Text :=
  match opt json name with
  | some x => some x.asText
  | none => fallback

/-- A missing value is an exception here; so is a value of the wrong kind below. -/
def getString : Option Text := (opt json name).map OrgJson.asText

def optJSONObject : Option JSONObject :=
  match opt json name with
  | some (.obj fields) => some fields
  | _ => none

def getJSONObject : Option JSONObject := optJSONObject json name

def getJSONArray : Option (List OrgJson) :=
  match opt json name with
  | some (.arr elems) => some elems
  | _ => none

variable {json name}

theorem optString_str {s : Text} (h : opt json name = some (.str s)) (fallback : Option Text) :
    optString json name fallback = some s := by
  rw [optString, h]
  rfl

theorem getString_str {s : Text} (h : opt json name = some (.str s)) :
    getString json name = some s := by
  rw [getString, h]
  rfl

theorem getJSONObject_obj {fields : JSONObject} (h : opt json name = some (.obj fields)) :
    getJSONObject json name = some fields := by
  rw [getJSONObject, optJSONObject, h]

theorem getJSONArray_arr {elems : List OrgJson} (h : opt json name = some (.arr elems)) :
    getJSONArray json name = some elems := by
  rw [getJSONArray, h]

end JSONObject

/-- `JSONArray.getJSONObject` -/
def elementObject (elems : List OrgJson) (i : Nat) : Option JSONObject :=
  match elems[i]? with
  | some (.obj fields) => some fields
  | _ => none

end HeyNilo
