import QjsFfi.DefinitionOutcomes
import QjsFfi.Invocation

namespace QjsFfi
open BinaryFloat Activation Histories Numerals

inductive Carried where
  | integral (v : Word)
  | floating (v : LongDouble)
  deriving DecidableEq

def Carried.typed : Carried → typed_argument
  | .integral v => ⟨.ll v,TYPE_INTEGRAL⟩
  | .floating v => ⟨.ld v,TYPE_FLOAT⟩

def Carried.missing : Carried := .integral 0

-- What js_call makes of one argument; none is a failed conversion.
def carrier (v : JSValueConst) : Option Carried :=
  match v.value with
  | .null => some (.integral 0)
  | .bool b => some (.integral (if b then 1 else 0))
  | .int i => some (.integral (i.signExtend 64))
  | .float64 d => some (.floating (d.convert extended80))
  | .string _ => v.copy.map (fun address => .integral address.word)
  | .arrayBuffer ⟨some data,_⟩ => if data = 0 then none else some (.integral data)
  | _ => none

-- A failed conversion raises, but for a live buffer without memory.
def carrierRaises (v : JSValueConst) : Bool :=
  match v.value with
  | .arrayBuffer ⟨some _,_⟩ => false
  | _ => true

structure Scan where
  carried : List Carried
  held : List CString
  converted : Bool
  raised : Bool

def heldBy (v : JSValueConst) (id : Nat) : List CString :=
  if JS_IsString v then (v.asCString id).toList else []

def scan (id : Nat) : List JSValueConst → Scan
  | [] => ⟨[],[],true,false⟩
  | v :: rest =>
    match carrier v with
    | none => ⟨[],[],false,carrierRaises v⟩
    | some c =>
      let later := scan (id+(heldBy v id).length) rest
      ⟨c :: later.carried,heldBy v id++later.held,later.converted,later.raised⟩

def argCells (done : List Carried) : List (Option typed_argument) :=
  done.map (fun c => some c.typed)++List.replicate (MAX_PARAMETERS-done.length) (some Carried.missing.typed)

def stringCells (held : List CString) : List (Option CString) :=
  held.map some++List.replicate (MAX_PARAMETERS-held.length) none

def argVars (done : List Carried) (held : List CString) : ArgVars := ⟨⟨argCells done⟩,⟨stringCells held⟩,held.length⟩

theorem argCells_missing (room : done.length < MAX_PARAMETERS) :
    argCells (done++[Carried.missing]) = argCells done := by
  have more : MAX_PARAMETERS-done.length = (MAX_PARAMETERS-(done.length+1))+1 := by omega
  simp [argCells,more,List.replicate_succ]

theorem argCells_size (room : done.length ≤ MAX_PARAMETERS) : (argCells done).length = MAX_PARAMETERS := by
  simp [argCells]; omega

theorem argCells_get (room : done.length < MAX_PARAMETERS) :
    (argCells done)[done.length]? = some (some Carried.missing.typed) := by
  rw [argCells,List.getElem?_append_right (by simp)]
  simp [List.getElem?_replicate]; omega

theorem argCells_set (room : done.length < MAX_PARAMETERS) (c : Carried) :
    (argCells done).set done.length (some c.typed) = argCells (done++[c]) := by
  have more : MAX_PARAMETERS-done.length = (MAX_PARAMETERS-(done.length+1))+1 := by omega
  simp [argCells,more,List.replicate_succ]

theorem stringCells_set (room : held.length < MAX_PARAMETERS) (c : CString) :
    (stringCells held).set held.length (some c) = stringCells (held++[c]) := by
  have more : MAX_PARAMETERS-held.length = (MAX_PARAMETERS-(held.length+1))+1 := by omega
  simp [stringCells,more,List.replicate_succ]

theorem setArg_gives (room : done.length < MAX_PARAMETERS) (held : List CString) (c : Carried)
    (f : typed_argument → typed_argument) (made : f Carried.missing.typed = c.typed) (s : Ctx) :
    Gives ((argVars done held).setArg done.length f) s (true,argVars (done++[c]) held) s [] := by
  have inside : done.length < (argVars done held).args.size := by
    have := argCells_size (Nat.le_of_lt room)
    simp only [argVars,CArray.size]; omega
  have cells : (argVars done held).args.cells.set done.length (some (f Carried.missing.typed)) = argCells (done++[c]) := by
    rw [made]; exact argCells_set room c
  have stored : Gives ((argVars done held).args.set done.length (f Carried.missing.typed) : C _) s
      ⟨argCells (done++[c])⟩ s [] := by
    rw [← cells]
    exact CArray.set_gives inside
  exact (CArray.get_gives (argCells_get room)).silent (stored.silent Gives.pure)

theorem js_call_arg_stores (v : JSValueConst) (room : done.length < MAX_PARAMETERS) (s : Ctx)
    (made : carrier v = some c) (other : JS_IsString v = false) (held : List CString) :
    Gives (js_call_arg (done.length+1) v (argVars done held)) s (true,argVars (done++[c]) held) s [] := by
  have index : done.length+1-1 = done.length := rfl
  unfold js_call_arg
  rw [index]
  cases value : v.value with
  | null =>
    simp only [carrier,value,Option.some.injEq] at made
    have same : argVars (done++[c]) held = argVars done held := by
      rw [← made,show Carried.integral 0 = Carried.missing from rfl]
      simp only [argVars,argCells_missing room]
    rw [if_pos (by simp [JS_IsNull,value]),same]
    exact Gives.pure
  | bool b =>
    simp only [carrier,value,Option.some.injEq] at made
    have known : decide (0 ≤ JS_ToBool v) = true := by cases b <;> simp [JS_ToBool,value]
    rw [if_neg (by simp [JS_IsNull,value]),if_pos (by simp [JS_IsBool,value]),known]
    refine Gives.silent (setArg_gives room held c _ ?_ s) Gives.pure
    rw [← made]
    cases b <;> simp [JS_ToBool,value,Carried.missing,Carried.typed]
  | int i =>
    simp only [carrier,value,Option.some.injEq] at made
    have word : v.toInt64 = some (i.signExtend 64) := by simp [JSValueConst.toInt64,value]
    have number := JS_ToInt64_some word s
    rw [if_neg (by simp [JS_IsNull,value]),if_neg (by simp [JS_IsBool,value]),if_pos (by simp [JS_IsInteger,value])]
    exact number.silent (setArg_gives room held c _ (by rw [← made]; rfl) s)
  | float64 d =>
    simp only [carrier,value,Option.some.injEq] at made
    have number : Gives (JS_ToFloat64 v) s (some d) s [] := by
      unfold JS_ToFloat64
      rw [show v.toFloat64 = some d by simp [JSValueConst.toFloat64,value]]
      exact Gives.pure
    rw [if_neg (by simp [JS_IsNull,value]),if_neg (by simp [JS_IsBool,value]),
      if_neg (by simp [JS_IsInteger,value]),if_pos (by simp [JS_IsNumber,value])]
    exact number.silent (setArg_gives room held c _ (by rw [← made]; rfl) s)
  | arrayBuffer buffer =>
    obtain ⟨data,bytes⟩ := buffer
    cases data with
    | none => simp [carrier,value] at made
    | some data =>
      simp only [carrier,value] at made
      split at made
      · cases made
      · rename_i present
        simp only [Option.some.injEq] at made
        have buffer : v.buffer = some (data,bytes.length) := by simp [JSValueConst.buffer,value]
        have found := JS_GetArrayBuffer_gives v s
        rw [buffer,Option.isNone_some,Ctx.bump_zero] at found
        rw [if_neg (by simp [JS_IsNull,value]),if_neg (by simp [JS_IsBool,value]),
          if_neg (by simp [JS_IsInteger,value]),if_neg (by simp [JS_IsNumber,value]),if_neg (by simp [other])]
        apply found.silent
        simp only [Option.getD_some,present,if_false]
        exact setArg_gives room held c _ (by rw [← made]; rfl) s
  | string text => simp [JS_IsString,value] at other
  | undefined | bigInt | symbol | object | exception => simp [carrier,value] at made

theorem js_call_arg_holds (v : JSValueConst) (room : done.length < MAX_PARAMETERS)
    (fits : held.length ≤ done.length) (s : Ctx) (made : carrier v = some c) (string : JS_IsString v = true) :
    ∃ t, heldBy v s.fresh = [t] ∧ c = .integral t.address.word ∧
      Gives (js_call_arg (done.length+1) v (argVars done held)) s (true,argVars (done++[c]) (held++[t]))
        (s.bump 1 false) [.acquire t.id t.address] := by
  cases value : v.value with
  | string text =>
    cases copy : v.copy with
    | none => simp [carrier,value,copy] at made
    | some address =>
      let t : CString := ⟨s.fresh,address,cText text⟩
      have converted : v.asCString s.fresh = some t := by
        simp [JSValueConst.asCString,JSValueConst.toText,value,copy,t]
      have gives := JS_ToCString_some converted
      have same : c = .integral t.address.word := by
        simp only [carrier,value,copy,Option.map_some,Option.some.injEq] at made
        exact made.symm
      refine ⟨t,by simp [heldBy,string,converted],same,?_⟩
      have inside : held.length < (argVars done held).strings.size := by
        simp [argVars,CArray.size,stringCells]; omega
      have kept : Gives ((argVars done held).strings.set held.length t : C _) (s.bump 1 false)
          ⟨stringCells (held++[t])⟩ (s.bump 1 false) [] := by
        rw [← stringCells_set (Nat.lt_of_le_of_lt fits room) t]
        exact CArray.set_gives inside
      have vars : ({argVars done held with strings := ⟨stringCells (held++[t])⟩, fl := held.length+1} : ArgVars) =
          argVars done (held++[t]) := by simp [argVars]
      have stored := setArg_gives room (held++[t]) c (fun a => {a with arg := .ll t.address.word})
        (by rw [same]; rfl) (s.bump 1 false)
      rw [← vars] at stored
      unfold js_call_arg
      rw [if_neg (by simp [JS_IsNull,value]),if_neg (by simp [JS_IsBool,value]),
        if_neg (by simp [JS_IsInteger,value]),if_neg (by simp [JS_IsNumber,value]),if_pos string]
      exact gives.bind (kept.silent stored)
  | _ => simp [JS_IsString,value] at string

theorem js_call_arg_fails (v : JSValueConst) (s : Ctx) (i : Nat) (x : ArgVars) (failed : carrier v = none) :
    Gives (js_call_arg i v x) s (false,x) (s.bump 0 (carrierRaises v)) [] := by
  -- What has none of the other tags is taken for a buffer.
  have buffer : (JS_IsNull v || JS_IsBool v || JS_IsInteger v || JS_IsNumber v || JS_IsString v) = false →
      (v.buffer.getD (0,0)).1 = 0 → v.buffer.isNone = carrierRaises v →
      Gives (js_call_arg i v x) s (false,x) (s.bump 0 (carrierRaises v)) [] := by
    intro other missing raises
    simp only [Bool.or_eq_false_iff] at other
    obtain ⟨⟨⟨⟨notNull,notBool⟩,notInteger⟩,notNumber⟩,notString⟩ := other
    unfold js_call_arg
    rw [if_neg (by simp [notNull]),if_neg (by simp [notBool]),if_neg (by simp [notInteger]),
      if_neg (by simp [notNumber]),if_neg (by simp [notString]),← raises]
    apply (JS_GetArrayBuffer_gives v s).silent
    simp only [missing,if_true]
    exact Gives.pure
  cases value : v.value with
  | null | bool | int | float64 => simp [carrier,value] at failed
  | undefined | symbol | object | exception =>
    apply buffer
    · simp [JS_IsNull,JS_IsBool,JS_IsInteger,JS_IsNumber,JS_IsString,value]
    · simp [JSValueConst.buffer,value]
    · simp [JSValueConst.buffer,carrierRaises,value]
  | bigInt n =>
    have raises : carrierRaises v = true := by simp [carrierRaises,value]
    have number : v.toInt64 = none := by simp [JSValueConst.toInt64,value]
    unfold js_call_arg
    rw [if_neg (by simp [JS_IsNull,value]),if_neg (by simp [JS_IsBool,value]),if_pos (by simp [JS_IsInteger,value]),raises]
    exact (JS_ToInt64_none number s).silent Gives.pure
  | string text =>
    have raises : carrierRaises v = true := by simp [carrierRaises,value]
    have copy : v.copy = none := by simpa [carrier,value] using failed
    have lost : v.cstring = none := by simp [JSValueConst.cstring,copy]
    unfold js_call_arg
    rw [if_neg (by simp [JS_IsNull,value]),if_neg (by simp [JS_IsBool,value]),if_neg (by simp [JS_IsInteger,value]),
      if_neg (by simp [JS_IsNumber,value]),if_pos (by simp [JS_IsString,value]),raises]
    exact (JS_ToCString_none lost s).silent Gives.pure
  | arrayBuffer b =>
    obtain ⟨data,bytes⟩ := b
    apply buffer
    · simp [JS_IsNull,JS_IsBool,JS_IsInteger,JS_IsNumber,JS_IsString,value]
    · cases data with
      | none => simp [JSValueConst.buffer,value]
      | some data => simpa [carrier,JSValueConst.buffer,value] using failed
    · cases data <;> simp [JSValueConst.buffer,carrierRaises,value]

def acquisitions (held : List CString) : List Event := held.map (fun c => .acquire c.id c.address)

theorem js_call_arg_converts (v : JSValueConst) (room : done.length < MAX_PARAMETERS)
    (fits : held.length ≤ done.length) (s : Ctx) (made : carrier v = some c) :
    Gives (js_call_arg (done.length+1) v (argVars done held)) s
      (true,argVars (done++[c]) (held++heldBy v s.fresh)) (s.bump (heldBy v s.fresh).length false)
      (acquisitions (heldBy v s.fresh)) := by
  cases string : JS_IsString v with
  | false =>
    have unheld : heldBy v s.fresh = [] := by simp [heldBy,string]
    rw [unheld]
    simpa [acquisitions] using js_call_arg_stores v room s made string held
  | true =>
    obtain ⟨t,one,_,ran⟩ := js_call_arg_holds v room fits s made string
    rw [one]
    exact ran

theorem js_call_args_gives (vs : List JSValueConst) (done : List Carried) (held : List CString) (s : Ctx)
    (bound : done.length ≤ MAX_PARAMETERS) (fits : held.length ≤ done.length) :
    let r := scan s.fresh (vs.take (MAX_PARAMETERS-done.length))
    Gives (js_call_args (done.length+1) vs (argVars done held)) s
      (r.converted,argVars (done++r.carried) (held++r.held)) (s.bump r.held.length r.raised) (acquisitions r.held) := by
  induction vs generalizing done held s with
  | nil => simpa [scan,acquisitions,js_call_args] using Gives.pure
  | cons v rest ih =>
    intro r
    by_cases room : done.length < MAX_PARAMETERS
    · have step : (v :: rest).take (MAX_PARAMETERS-done.length) =
          v :: rest.take (MAX_PARAMETERS-(done.length+1)) := by
        have : MAX_PARAMETERS-done.length = (MAX_PARAMETERS-(done.length+1))+1 := by omega
        rw [this,List.take_succ_cons]
      rw [js_call_args,if_pos (by omega)]
      cases made : carrier v with
      | none =>
        have same : r = ⟨[],[],false,carrierRaises v⟩ := by simp [r,step,scan,made]
        rw [same,List.append_nil,List.append_nil]
        exact (js_call_arg_fails v s (done.length+1) (argVars done held) made).silent Gives.pure
      | some c =>
        let later := scan (s.fresh+(heldBy v s.fresh).length) (rest.take (MAX_PARAMETERS-(done.length+1)))
        have same : r = ⟨c :: later.carried,heldBy v s.fresh++later.held,later.converted,later.raised⟩ := by
          simp [r,step,scan,made,later]
        have ran := js_call_arg_converts v room fits s made
        have one : (heldBy v s.fresh).length ≤ 1 := by
          unfold heldBy
          split
          · cases v.asCString s.fresh <;> simp
          · simp
        have more := ih (done++[c]) (held++heldBy v s.fresh) (s.bump (heldBy v s.fresh).length false)
          (by simp; omega) (by simp; omega)
        rw [List.length_append,List.length_singleton] at more
        simp only [List.append_assoc,List.singleton_append] at more
        rw [same]
        refine (ran.bind more).congr ?_ ?_
        · simp [later]
        · simp [later,acquisitions]
    · have idle : r = ⟨[],[],true,false⟩ := by
        have zero : MAX_PARAMETERS-done.length = 0 := by omega
        simp [r,zero,scan]
      rw [js_call_args,if_neg (by omega),idle,List.append_nil,List.append_nil]
      simpa [acquisitions] using Gives.pure

end QjsFfi
