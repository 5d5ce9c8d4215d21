import QjsFfi.Engine

namespace QjsFfi
open Activation

def JSValueConst.cstring (v : JSValueConst) : Option String :=
  match v.toText,v.copy with
  | some text,some _ => some (cText text)
  | _,_ => none

def JSValueConst.asCString (v : JSValueConst) (id : Nat) : Option CString :=
  match v.toText,v.copy with
  | some text,some address => some ⟨id,address,cText text⟩
  | _,_ => none

def acquired (s : Option CString) : List Event := s.toList.map (fun c => .acquire c.id c.address)

@[simp] theorem acquired_none : acquired none = [] := rfl

theorem asCString_text (v : JSValueConst) (id : Nat) : (v.asCString id).map CString.text = v.cstring := by
  unfold JSValueConst.asCString JSValueConst.cstring
  cases v.toText <;> cases v.copy <;> rfl

theorem asCString_isSome (v : JSValueConst) (id : Nat) : (v.asCString id).isSome = v.cstring.isSome := by
  rw [← asCString_text v id,Option.isSome_map]

theorem asCString_none {v : JSValueConst} (failed : v.cstring = none) (id : Nat) : v.asCString id = none := by
  have := asCString_isSome v id
  rw [failed] at this
  simpa using this

theorem asCString_some {v : JSValueConst} (made : v.cstring = some text) (id : Nat) :
    ∃ c, v.asCString id = some c ∧ c.text = text := by
  have := asCString_text v id
  rw [made] at this
  simpa [Option.map_eq_some_iff] using this

theorem asCString_id {v : JSValueConst} (made : v.asCString n = some c) : c.id = n := by
  unfold JSValueConst.asCString at made
  cases text : v.toText <;> cases copy : v.copy <;> simp only [text,copy] at made <;> cases made
  rfl

def JSValueConst.handles (v : JSValueConst) : Nat := if v.cstring.isSome then 1 else 0

theorem handles_one {v : JSValueConst} (made : v.cstring = some text) : v.handles = 1 := by
  rw [JSValueConst.handles,made]
  rfl

theorem JS_ToCString_gives (v : JSValueConst) (s : Ctx) :
    Gives (JS_ToCString v) s (v.asCString s.fresh) (s.bump v.handles v.cstring.isNone)
      (acquired (v.asCString s.fresh)) := by
  unfold JS_ToCString JSValueConst.asCString JSValueConst.handles JSValueConst.cstring
  cases v.toText with
  | none => simp [acquired,Gives,Ctx.bump]; rfl
  | some text =>
    cases v.copy with
    | none => simp [acquired,Gives,Ctx.bump]; rfl
    | some address => simp [acquired,Gives,Ctx.bump]; rfl

theorem JS_ToCString_some {v : JSValueConst} {s : Ctx} (made : v.asCString s.fresh = some c) :
    Gives (JS_ToCString v) s (some c) (s.bump 1 false) [.acquire c.id c.address] := by
  have ran := JS_ToCString_gives v s
  have spelled : v.cstring.isSome = true := by
    rw [← asCString_isSome v s.fresh,made]
    rfl
  have lost : v.cstring.isNone = false := by rw [Option.isNone_eq_false_iff,spelled]
  rw [made,JSValueConst.handles,if_pos spelled,lost] at ran
  exact ran

theorem JS_ToCString_none {v : JSValueConst} (failed : v.cstring = none) (s : Ctx) :
    Gives (JS_ToCString v) s none (s.bump 0 true) [] := by
  have ran := JS_ToCString_gives v s
  rw [asCString_none failed,JSValueConst.handles,failed] at ran
  exact ran

theorem JS_ToInt64_gives (v : JSValueConst) (s : Ctx) :
    Gives (JS_ToInt64 v) s v.toInt64 (s.bump 0 v.toInt64.isNone) [] := by
  unfold JS_ToInt64
  cases v.toInt64 with
  | none => simp [Gives,Ctx.bump]; rfl
  | some n => simp [Gives,Ctx.bump]; rfl

theorem JS_ToInt64_some {v : JSValueConst} (number : v.toInt64 = some n) (s : Ctx) :
    Gives (JS_ToInt64 v) s (some n) s [] := by
  have ran := JS_ToInt64_gives v s
  rw [number] at ran
  exact ran.congr (Ctx.bump_zero s) rfl

theorem JS_ToInt64_none {v : JSValueConst} (failed : v.toInt64 = none) (s : Ctx) :
    Gives (JS_ToInt64 v) s none (s.bump 0 true) [] := by
  have ran := JS_ToInt64_gives v s
  rw [failed] at ran
  exact ran

def JSValueConst.buffer (v : JSValueConst) : Option (Word × Nat) :=
  match v.value with
  | .arrayBuffer ⟨some data,bytes⟩ => some (data,bytes.length)
  | _ => none

theorem JS_GetArrayBuffer_gives (v : JSValueConst) (s : Ctx) :
    Gives (JS_GetArrayBuffer v) s (v.buffer.getD (0,0)) (s.bump 0 v.buffer.isNone) [] := by
  have raised : s.bump 0 true = {s with pending := true} := by simp [Ctx.bump]
  unfold JS_GetArrayBuffer JSValueConst.buffer
  cases v.value with
  | arrayBuffer buffer =>
    obtain ⟨data,bytes⟩ := buffer
    cases data with
    | some data =>
      simp only [Option.getD_some,Option.isNone_some,Ctx.bump_zero]
      exact Gives.pure
    | none =>
      simp only [Option.getD_none,Option.isNone_none,raised]
      exact Gives.update.silent Gives.pure
  | _ =>
    simp only [Option.getD_none,Option.isNone_none,raised]
    exact Gives.update.silent Gives.pure

def leading : List (Option α) → List α
  | some a :: rest => a :: leading rest
  | _ => []

theorem leading_get (cells : List (Option α)) (inside : i < (leading cells).length) :
    cells[i]? = some (some (leading cells)[i]) := by
  induction cells generalizing i with
  | nil => simp [leading] at inside
  | cons cell rest ih =>
    cases cell with
    | none => simp [leading] at inside
    | some a =>
      cases i with
      | zero => rfl
      | succ i =>
        have tail := ih (by simpa [leading] using inside)
        simpa [leading] using tail

theorem leading_le (cells : List (Option α)) : (leading cells).length ≤ cells.length := by
  induction cells with
  | nil => simp [leading]
  | cons cell rest ih =>
    cases cell with
    | none => simp [leading]
    | some a => simpa [leading] using ih

theorem leading_map (cells : List (Option α)) (f : α → β) :
    leading (cells.map (Option.map f)) = (leading cells).map f := by
  induction cells with
  | nil => rfl
  | cons cell rest ih => cases cell <;> simp [leading,ih]

def convertAll (id : Nat) : List JSValueConst → List (Option CString)
  | [] => []
  | v :: rest => v.asCString id :: convertAll (id+v.handles) rest

def handlesOf : List JSValueConst → Nat
  | [] => 0
  | v :: rest => v.handles+handlesOf rest

def raises (vs : List JSValueConst) : Bool := vs.any (fun v => v.cstring.isNone)

def released (s : Option CString) : List Event := s.toList.map (fun c => .release c.id)

@[simp] theorem released_none : released none = [] := rfl

@[simp] theorem convertAll_length (id : Nat) (vs : List JSValueConst) :
    (convertAll id vs).length = vs.length := by
  induction vs generalizing id with
  | nil => rfl
  | cons v rest ih => simp [convertAll,ih]

theorem convertAll_texts (id : Nat) (vs : List JSValueConst) :
    (convertAll id vs).map (Option.map CString.text) = vs.map JSValueConst.cstring := by
  induction vs generalizing id with
  | nil => rfl
  | cons v rest ih => simp [convertAll,ih,asCString_text]

theorem handlesOf_append (vs ws : List JSValueConst) : handlesOf (vs++ws) = handlesOf vs+handlesOf ws := by
  induction vs with
  | nil => simp [handlesOf]
  | cons v rest ih => simp [handlesOf,ih,Nat.add_assoc]

theorem convertAll_append (id : Nat) (vs ws : List JSValueConst) :
    convertAll id (vs++ws) = convertAll id vs++convertAll (id+handlesOf vs) ws := by
  induction vs generalizing id with
  | nil => simp [convertAll,handlesOf]
  | cons v rest ih => simp [convertAll,handlesOf,ih,Nat.add_assoc]

theorem taken_acquired (id : Nat) (vs : List JSValueConst) :
    strings.taken ((convertAll id vs).flatMap acquired) = List.range' id (handlesOf vs) := by
  induction vs generalizing id with
  | nil => rfl
  | cons v rest ih =>
    have first : strings.taken (acquired (v.asCString id)) = List.range' id v.handles := by
      unfold JSValueConst.handles
      rw [← asCString_isSome v id]
      cases made : v.asCString id with
      | none => rfl
      | some c => simp [acquired,strings,Custody.taken,asCString_id made]
    rw [convertAll,List.flatMap_cons,Custody.taken_append,ih,first,handlesOf,List.range'_append_1]

theorem returned_released (cs : List (Option CString)) :
    strings.returned (cs.flatMap released) = strings.taken (cs.flatMap acquired) := by
  induction cs with
  | nil => rfl
  | cons c rest ih =>
    rw [List.flatMap_cons,List.flatMap_cons,Custody.returned_append,Custody.taken_append,ih]
    cases c <;> rfl

theorem freeCString_gives (c : Option CString) (s : Ctx) : Gives (freeCString c) s () s (released c) := by
  cases c <;> rfl

def argAt (given : List JSValueConst) (i : Nat) : JSValueConst := given[i]?.getD undefinedArgument

theorem padded_get (inside : i < length) (given : List JSValueConst) :
    (padded length given).cells[i]? = some (some (argAt given i)) := by
  unfold padded argAt
  rw [List.getElem?_map,List.getElem?_append]
  split
  · rename_i present; simp [present]
  · rename_i absent
    rw [List.getElem?_replicate,if_pos (by omega),List.getElem?_eq_none (by omega)]
    rfl

theorem declared_argument (inside : i < length) (given : List JSValueConst) (s : Ctx) :
    Gives ((padded length given).get i : C JSValueConst) s (argAt given i) s [] :=
  CArray.get_gives (padded_get inside given)

theorem passed_argument (inside : i < given.length) (length : Nat) (s : Ctx) :
    Gives ((padded length given).get i : C JSValueConst) s (argAt given i) s [] := by
  apply CArray.get_gives
  simp only [padded,argAt,List.map_append]
  rw [List.getElem?_append_left (by simpa using inside)]
  simp [inside]

@[simp] theorem strings_returned_acquired (cs : List (Option CString)) :
    strings.returned (cs.flatMap acquired) = [] := by
  induction cs with
  | nil => rfl
  | cons c rest ih => rw [List.flatMap_cons,Custody.returned_append,ih]; cases c <;> rfl

@[simp] theorem strings_taken_released (cs : List (Option CString)) :
    strings.taken (cs.flatMap released) = [] := by
  induction cs with
  | nil => rfl
  | cons c rest ih => rw [List.flatMap_cons,Custody.taken_append,ih]; cases c <;> rfl

@[simp] theorem blocks_acquired (cs : List (Option CString)) :
    blocks.taken (cs.flatMap acquired) = [] ∧ blocks.returned (cs.flatMap acquired) = [] := by
  induction cs with
  | nil => exact ⟨rfl,rfl⟩
  | cons c rest ih =>
    rw [List.flatMap_cons,Custody.taken_append,Custody.returned_append,ih.1,ih.2]
    cases c <;> exact ⟨rfl,rfl⟩

@[simp] theorem blocks_released (cs : List (Option CString)) :
    blocks.taken (cs.flatMap released) = [] ∧ blocks.returned (cs.flatMap released) = [] := by
  induction cs with
  | nil => exact ⟨rfl,rfl⟩
  | cons c rest ih =>
    rw [List.flatMap_cons,Custody.taken_append,Custody.returned_append,ih.1,ih.2]
    cases c <;> exact ⟨rfl,rfl⟩

theorem strings_balanced (id : Nat) (attempted : List JSValueConst) (middle : List Event)
    {held : List (Option CString)} (calm : strings.taken middle = [] ∧ strings.returned middle = [])
    (same : (held.flatMap acquired).Perm ((convertAll id attempted).flatMap acquired)) :
    strings.Balanced ((convertAll id attempted).flatMap acquired++middle++held.flatMap released) := by
  have back : (strings.returned (held.flatMap released)).Perm (List.range' id (handlesOf attempted)) := by
    rw [returned_released,← taken_acquired]
    exact same.filterMap _
  refine Custody.Balanced.around ?_ (strings_returned_acquired _) calm (strings_taken_released _) ?_
  · rw [taken_acquired]; exact List.nodup_range'
  · rw [taken_acquired]; exact back

end QjsFfi
