import QjsFfi.Layout
import Mathlib.Tactic.Ring

namespace QjsFfi
open BinaryFloat Activation Numerals

-- argv as the engine passes it: padded with undefined up to the declared length.
def padded (length : Nat) (given : List JSValueConst) : CArray JSValueConst :=
  ⟨(given++List.replicate (length-given.length) undefinedArgument).map some⟩

-- ToString; an object, a buffer and a double are spelled by the engine.
def JSValueConst.toText (v : JSValueConst) : Option String :=
  match v.value with
  | .undefined => some "undefined"
  | .null => some "null"
  | .bool b => some (if b then "true" else "false")
  | .int i => some (toString i.toInt)
  | .bigInt n => some (toString n)
  | .string text => some text
  | .symbol | .exception => none
  | .float64 _ | .arrayBuffer _ | .object => v.text

-- A C string ends at its first NUL.
def cText (text : String) : String := String.ofList (text.toList.takeWhile (fun c => c ≠ '\x00'))

def JS_ToCString (v : JSValueConst) : C (Option CString) :=
  match v.toText,v.copy with
  | some text,some address => do
    let id ← handle
    Exec.emit (.acquire id address)
    pure (some ⟨id,address,cText text⟩)
  | _,_ => do
    Exec.update (fun s => {s with pending := true})
    pure none

def JS_FreeCString (s : CString) : C Unit := .emit (.release s.id)

-- JS_FreeCString(ctx, NULL) does nothing.
def freeCString : Option CString → C Unit
  | none => pure ()
  | some s => JS_FreeCString s

-- The hexadecimal form of a numeric literal; other texts are left to the engine.
def hexLiteral : List Char → Option ℕ
  | '0' :: x :: digits => if x = 'x' ∨ x = 'X' then readHex digits else none
  | _ => none

def stringToNumber (text : String) (other : Option Double) : Option Double :=
  match hexLiteral text.toList with
  | some n => some (.ofInt binary64 n)
  | none => other

-- The 64-bit integer of a double: truncated, modulo 2^64; 0 for NaN and infinities.
def int64OfDatum (d : Datum) : Word :=
  match d.truncate with
  | some n => BitVec.ofInt 64 n
  | none => 0

def JSValueConst.toInt64 (v : JSValueConst) : Option Word :=
  match v.value with
  | .int i => some (i.signExtend 64)
  | .bool b => some (if b then 1 else 0)
  | .null | .undefined => some 0
  | .float64 d => some (int64OfDatum d.datum)
  | .string text => (stringToNumber text v.number).map (fun d => int64OfDatum d.datum)
  | .arrayBuffer _ | .object => v.number.map (fun d => int64OfDatum d.datum)
  | .bigInt _ | .symbol | .exception => none

def JS_ToInt64 (v : JSValueConst) : C (Option Word) :=
  match v.toInt64 with
  | some n => pure (some n)
  | none => do
    Exec.update (fun s => {s with pending := true})
    pure none

-- ToInt32 is ToInt64 modulo 2^32 and fails where it does.
def JS_ToUint32 (v : JSValueConst) : C (Option (BitVec 32)) := do
  let n ← JS_ToInt64 v
  pure (n.map (fun n => n.setWidth 32))

def JSValueConst.toFloat64 (v : JSValueConst) : Option Double :=
  match v.value with
  | .int i => some (.ofInt binary64 i.toInt)
  | .float64 d => some d
  | .bool b => some (.ofInt binary64 (if b then 1 else 0))
  | .null => some (.ofInt binary64 0)
  | .undefined => some ⟨.nan,trivial⟩
  | .string text => stringToNumber text v.number
  | .arrayBuffer _ | .object => v.number
  | .bigInt _ | .symbol | .exception => none

def JS_ToFloat64 (v : JSValueConst) : C (Option Double) :=
  match v.toFloat64 with
  | some d => pure (some d)
  | none => do
    Exec.update (fun s => {s with pending := true})
    pure none

-- ToBoolean is needed of booleans only.
def JS_ToBool (v : JSValueConst) : Int :=
  match v.value with
  | .bool b => if b then 1 else 0
  | .exception => -1
  | _ => 0

-- The data pointer and length; NULL with a pending exception for anything but
-- a live ArrayBuffer.
def JS_GetArrayBuffer (v : JSValueConst) : C (Word × Nat) :=
  match v.value with
  | .arrayBuffer ⟨some data,bytes⟩ => pure (data,bytes.length)
  | _ => do
    Exec.update (fun s => {s with pending := true})
    pure (0,0)

def JS_IsNull (v : JSValueConst) : Bool := v.value = .null
def JS_IsBool (v : JSValueConst) : Bool := match v.value with | .bool _ => true | _ => false
def JS_IsInteger (v : JSValueConst) : Bool := match v.value with | .int _ | .bigInt _ => true | _ => false
def JS_IsNumber (v : JSValueConst) : Bool := match v.value with | .int _ | .float64 _ => true | _ => false
def JS_IsString (v : JSValueConst) : Bool := match v.value with | .string _ => true | _ => false

def Datum.toRat : Datum → Option ℚ
  | .finite negative q => some (if negative then -q else q)
  | _ => none

def JSValue.numeric : JSValue → Option ℚ
  | .int i => some i.toInt
  | .float64 d => Datum.toRat d.datum
  | _ => none

-- A double that is an int32, and not the negative zero, gets the int tag.
def JS_NewFloat64 (d : Double) : JSValue :=
  match d.datum.truncate with
  | some n =>
    if d.datum = .ofInt n ∧ (BitVec.ofInt 32 n).toInt = n then .int (BitVec.ofInt 32 n) else .float64 d
  | none => .float64 d

def JS_NewInt64 (n : Word) : JSValue :=
  if (n.setWidth 32).toInt = n.toInt then .int (n.setWidth 32) else .float64 (.ofInt binary64 n.toInt)

theorem toRat_ofInt (n : ℤ) : Datum.toRat (.ofInt n) = some (n : ℚ) := by
  by_cases negative : n < 0
  · have magnitude : (n.natAbs : ℤ) = -n := by omega
    simp only [Datum.ofInt,Datum.toRat,negative,decide_true,if_true]
    rw [← Int.cast_natCast,magnitude]
    push_cast
    rw [neg_neg]
  · have magnitude : (n.natAbs : ℤ) = n := by omega
    simp only [Datum.ofInt,Datum.toRat,negative,decide_false,Bool.false_eq_true,if_false]
    rw [← Int.cast_natCast,magnitude]

theorem JS_NewFloat64_numeric (d : Double) : (JS_NewFloat64 d).numeric = Datum.toRat d.datum := by
  unfold JS_NewFloat64
  split
  · split
    · rename_i n _ exact
      rw [exact.1,JSValue.numeric,exact.2,toRat_ofInt]
    · rfl
  · rfl

end QjsFfi
