import EditorLint.Number.Binary64
import EditorLint.Table

/-!
JSON values. Whole numbers are unbounded and apart from floating-point ones, and an object keeps
its entries in order, each key once.
-/

namespace EditorLint

inductive Json where
  | null
  | bool (value : Bool)
  | int (value : Int)
  | float (value : Binary64)
  | str (value : String)
  | arr (items : List Json)
  | obj (entries : List (String × Json))
  deriving Repr, Inhabited

namespace Json

mutual

/-- Equality of values is decided constructor by constructor. -/
def decideEq : (a b : Json) → Decidable (a = b)
  | .null, b => match b with
    | .null => isTrue rfl
    | .bool _ | .int _ | .float _ | .str _ | .arr _ | .obj _ => isFalse nofun
  | .bool x, b => match b with
    | .bool y => if h : x = y then isTrue (h ▸ rfl) else isFalse fun e => h (by cases e; rfl)
    | .null | .int _ | .float _ | .str _ | .arr _ | .obj _ => isFalse nofun
  | .int x, b => match b with
    | .int y => if h : x = y then isTrue (h ▸ rfl) else isFalse fun e => h (by cases e; rfl)
    | .null | .bool _ | .float _ | .str _ | .arr _ | .obj _ => isFalse nofun
  | .float x, b => match b with
    | .float y => if h : x = y then isTrue (h ▸ rfl) else isFalse fun e => h (by cases e; rfl)
    | .null | .bool _ | .int _ | .str _ | .arr _ | .obj _ => isFalse nofun
  | .str x, b => match b with
    | .str y => if h : x = y then isTrue (h ▸ rfl) else isFalse fun e => h (by cases e; rfl)
    | .null | .bool _ | .int _ | .float _ | .arr _ | .obj _ => isFalse nofun
  | .arr x, b => match b with
    | .arr y => match decideItems x y with
      | isTrue h => isTrue (h ▸ rfl)
      | isFalse h => isFalse fun e => h (by cases e; rfl)
    | .null | .bool _ | .int _ | .float _ | .str _ | .obj _ => isFalse nofun
  | .obj x, b => match b with
    | .obj y => match decideEntries x y with
      | isTrue h => isTrue (h ▸ rfl)
      | isFalse h => isFalse fun e => h (by cases e; rfl)
    | .null | .bool _ | .int _ | .float _ | .str _ | .arr _ => isFalse nofun

def decideItems : (a b : List Json) → Decidable (a = b)
  | [], [] => isTrue rfl
  | [], _ :: _ => isFalse nofun
  | _ :: _, [] => isFalse nofun
  | x :: xs, y :: ys =>
    match decideEq x y with
    | isTrue h => match decideItems xs ys with
      | isTrue hs => isTrue (h ▸ hs ▸ rfl)
      | isFalse hs => isFalse fun e => hs (List.cons.inj e).2
    | isFalse h => isFalse fun e => h (List.cons.inj e).1

def decideEntries : (a b : List (String × Json)) → Decidable (a = b)
  | [], [] => isTrue rfl
  | [], _ :: _ => isFalse nofun
  | _ :: _, [] => isFalse nofun
  | (k, x) :: xs, (l, y) :: ys =>
    if hk : k = l then
      match decideEq x y with
      | isTrue h => match decideEntries xs ys with
        | isTrue hs => isTrue (hk ▸ h ▸ hs ▸ rfl)
        | isFalse hs => isFalse fun e => hs (List.cons.inj e).2
      | isFalse h => isFalse fun e => h (congrArg Prod.snd (List.cons.inj e).1)
    else isFalse fun e => hk (congrArg Prod.fst (List.cons.inj e).1)

end

instance : DecidableEq Json :=
  decideEq

/-- The entries of an object. -/
def entries? : Json → Option (Table Json)
  | .obj entries => some entries
  | _ => none

/-- A text. -/
def text? : Json → Option String
  | .str text => some text
  | _ => none

/-- The entry of `key` in an object; absent elsewhere. -/
def get? (key : String) (value : Json) : Option Json :=
  value.entries?.bind (·.get? key)

end Json

end EditorLint
