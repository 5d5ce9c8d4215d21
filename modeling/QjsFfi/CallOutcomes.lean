import QjsFfi.CallPlacement

namespace QjsFfi
open BinaryFloat Activation Histories

def argOf (carried : List Carried) (i : Nat) : Carried := carried[i]?.getD Carried.missing

theorem argCells_argOf (bound : carried.length ≤ MAX_PARAMETERS) (inside : i < MAX_PARAMETERS) :
    (argCells carried)[i]? = some (some (argOf carried i).typed) := by
  unfold argCells argOf
  rw [List.getElem?_append]
  split
  · rename_i present
    have here : i < carried.length := by simpa using present
    simp [here]
  · rename_i absent
    have gone : carried.length ≤ i := by simpa using absent
    rw [List.getElem?_replicate,if_pos (by simp; omega),List.getElem?_eq_none gone]
    rfl

def valuesOf (types : List ffi_type) (arg : Nat → Carried) : List FfiValue :=
  types.mapIdx (fun i t => delivered t (arg i))

theorem valuesOf_range (types : List ffi_type) (arg : Nat → Carried) :
    (List.range' 0 types.length).map (fun i => delivered (types[i]?.getD .void) (arg i)) = valuesOf types arg := by
  apply List.ext_getElem?
  intro i
  by_cases inside : i < types.length
  · simp [valuesOf,inside]
  · simp [valuesOf,inside]

def requestOf (self : Nat) (p : Prototype) (carried : List Carried) : Request :=
  ⟨self,p.fp,p.rtype,valuesOf p.params (argOf carried)⟩

def scratchCount (p : Prototype) : Nat := if p.params = [] then 0 else 3

def scratchLog (first : Nat) (p : Prototype) : List Event := (List.range' first (scratchCount p)).map .malloc

def innerFrame (first self : Nat) (p : Prototype) (carried : List Carried) : CallFrame :=
  if p.params = [] then ⟨self,none,none,none,requestOf self p carried⟩
  else ⟨self,some first,some (first+1),some (first+2),requestOf self p carried⟩

@[simp] theorem innerFrame_f : (innerFrame first self p carried).f = self := by
  unfold innerFrame; split <;> rfl

@[simp] theorem innerFrame_request : (innerFrame first self p carried).request = requestOf self p carried := by
  unfold innerFrame; split <;> rfl

theorem nodeOf_types (self : Nat) (p : Prototype) : (nodeOf self p).types = ⟨p.params.map some⟩ := by
  unfold nodeOf function_s.types
  cases params : p.params <;> simp

theorem call_function_error_gives (ptrs pointer_list arguments : Option Nat) (s : Ctx) :
    Gives (call_function_error ptrs pointer_list arguments) s () s
      ((ptrs.toList++pointer_list.toList++arguments.toList).map .free) := by
  refine ((freeBlock_gives ptrs s).bind ((freeBlock_gives pointer_list s).bind
    (freeBlock_gives arguments s))).congr rfl ?_
  simp

theorem call_function_unknown (name : CString) (args : Option (CArray typed_argument)) (s : Ctx)
    (unknown : find (fun f => f.name.contents) s.function_list name.text = none) :
    Gives (call_function_prepare (some name) args) s none s [.warn "call_function: no such function"] := by
  unfold call_function_prepare
  refine Gives.silent (f := _) Gives.read ?_
  simp only [unknown]
  exact Gives.emit.bind ((call_function_error_gives none none none s).silent Gives.pure)

theorem call_function_alloc_gives (s : Ctx) (self : Nat) (p : Prototype) (carried : List Carried) :
    ∃ ptrs pointer_list arguments,
      Gives (call_function_alloc p.params.length) s (ptrs,pointer_list,arguments)
        (s.bump (scratchCount p) false) (scratchLog s.fresh p) ∧
      innerFrame s.fresh self p carried = ⟨self,ptrs,pointer_list,arguments,requestOf self p carried⟩ := by
  unfold call_function_alloc scratchLog scratchCount innerFrame
  by_cases empty : p.params = []
  · refine ⟨none,none,none,?_,by simp [empty]⟩
    simp only [empty,List.length_nil,if_true,Ctx.bump_zero]
    exact Gives.pure
  · refine ⟨some s.fresh,some (s.fresh+1),some (s.fresh+2),?_,by simp [empty]⟩
    have present : p.params.length ≠ 0 := by simpa using empty
    have two := malloc_gives (s.bump 1 false)
    have three := malloc_gives (s.bump 2 false)
    rw [Ctx.bump_bump,Ctx.bump_fresh] at two three
    simp only [empty,present,if_false]
    exact (malloc_gives s).bind (two.bind (three.bind Gives.pure))

theorem call_function_dispatches (name : CString) (carried : List Carried) (s : Ctx) (p : Prototype)
    (found : find (fun f => f.name.contents) s.function_list name.text = some (nodeOf self p))
    (few : p.params.length ≤ MAX_PARAMETERS) (bound : carried.length ≤ MAX_PARAMETERS) :
    Gives (call_function_prepare (some name) (some ⟨argCells carried⟩)) s
      (some (innerFrame s.fresh self p carried)) (s.bump (scratchCount p) false)
      (scratchLog s.fresh p++[.ffi_call (requestOf self p carried)]) := by
  let t := s.bump (scratchCount p) false
  obtain ⟨x,initialised,ready⟩ := init_loop p.params.length t
  obtain ⟨y,looped,done⟩ := place_loop p.params (argOf carried) ⟨argCells carried⟩
    (fun i inside => argCells_argOf bound (by omega)) (placing_start ready (argOf carried)) t p.params.length (Nat.le_refl _)
  have values := libffi_values_gives p.params (argOf carried) done t p.params.length 0 (by omega)
  rw [valuesOf_range] at values
  obtain ⟨ptrs,pointer_list,arguments,allocated,frame⟩ := call_function_alloc_gives s self p carried
  unfold call_function_prepare
  refine Gives.silent (f := _) Gives.read ?_
  simp only [found]
  refine allocated.bind ?_
  rw [if_neg (by simp),nodeOf_types,frame]
  exact initialised.silent (looped.silent (values.silent (Gives.emit.bind Gives.pure)))

def resultOf (rtype : ffi_type) (native : NativeResult) : LongDouble :=
  match rtype with
  | .void => .ofInt extended80 0
  | .float => native.single.convert extended80
  | .double => native.double.convert extended80
  | .longdouble => native.extended
  | .pointer => (Number.ofInt binary64 native.integer.toInt).convert extended80
  | .sint8 => .ofInt extended80 (native.integer.setWidth 8).toInt
  | .sint16 => .ofInt extended80 (native.integer.setWidth 16).toInt
  | .sint32 => .ofInt extended80 (native.integer.setWidth 32).toInt
  | .sint64 | .uint64 => .ofInt extended80 native.integer.toInt
  | .uint8 => .ofInt extended80 (native.integer.setWidth 8).toNat
  | .uint16 => .ofInt extended80 (native.integer.setWidth 16).toNat
  | .uint32 => .ofInt extended80 (native.integer.setWidth 32).toNat

theorem widened_signed (v : Word) (narrow : w ≤ 64) : ((v.setWidth w).signExtend 64).toInt = (v.setWidth w).toInt :=
  BitVec.toInt_signExtend_of_le narrow

theorem widened_unsigned (v : Word) (narrow : w < 64) :
    ((v.setWidth w).setWidth 64).toInt = ((v.setWidth w).toNat : Int) := by
  have small : (v.setWidth w).toNat < 2^w := BitVec.isLt _
  have room : 2^w ≤ 2^63 := Nat.pow_le_pow_right (by decide) (by omega)
  have same : ((v.setWidth w).setWidth 64).toNat = (v.setWidth w).toNat := by
    rw [BitVec.toNat_setWidth,Nat.mod_eq_of_lt (by omega)]
  rw [BitVec.toInt_eq_toNat_of_lt (by omega),same]

theorem call_function_result_gives (t : ffi_type) (native : NativeResult) (s : Ctx) :
    Gives (call_function_result t (libffi_store t native)) s (resultOf t native) s [] := by
  cases t with
  | void => exact Gives.pure
  | float => exact Gives.silent Gives.pure Gives.pure
  | double => exact Gives.silent Gives.pure Gives.pure
  | longdouble => exact Gives.pure
  | pointer => exact Gives.silent Gives.pure Gives.pure
  | sint8 | sint16 | sint32 =>
    simp only [resultOf,← widened_signed native.integer (by decide : (8 : Nat) ≤ 64),
      ← widened_signed native.integer (by decide : (16 : Nat) ≤ 64),
      ← widened_signed native.integer (by decide : (32 : Nat) ≤ 64)]
    exact Gives.silent Gives.pure Gives.pure
  | uint8 | uint16 | uint32 =>
    simp only [resultOf,← widened_unsigned native.integer (by decide : (8 : Nat) < 64),
      ← widened_unsigned native.integer (by decide : (16 : Nat) < 64),
      ← widened_unsigned native.integer (by decide : (32 : Nat) < 64)]
    exact Gives.silent Gives.pure Gives.pure
  | sint64 =>
    have signed : ((native.integer.setWidth 64).signExtend 64).toInt = native.integer.toInt := by simp
    simp only [resultOf]
    rw [← signed]
    exact Gives.silent Gives.pure Gives.pure
  | uint64 =>
    have whole : ((native.integer.setWidth 64).setWidth 64).toInt = native.integer.toInt := by simp
    simp only [resultOf]
    rw [← whole]
    exact Gives.silent Gives.pure Gives.pure

def CallFrame.scratch (frame : CallFrame) : List Nat :=
  frame.ptrs.toList++frame.pointer_list.toList++frame.arguments.toList

@[simp] theorem innerFrame_scratch :
    (innerFrame first self p carried).scratch = List.range' first (scratchCount p) := by
  unfold innerFrame scratchCount CallFrame.scratch
  split <;> simp [List.range']

-- The node is still there when the native function returns.
theorem call_function_finish_gives (frame : CallFrame) (native : NativeResult) (s : Ctx) (f : function_s)
    (kept : find function_s.addr s.function_list frame.f = some f) (same : f.rtype = frame.request.rtype) :
    Gives (call_function_finish frame native) s (resultOf frame.request.rtype native) s (frame.scratch.map .free) := by
  have followed : Gives (deref frame.f) s f s [] := by
    unfold deref
    refine Gives.silent (f := _) Gives.read ?_
    simp only [kept]
    exact Gives.pure
  have result : Gives (call_function_result f.rtype (libffi_store frame.request.rtype native)) s
      (resultOf frame.request.rtype native) s [] := by
    rw [same]
    exact call_function_result_gives frame.request.rtype native s
  have freed := call_function_error_gives frame.ptrs frame.pointer_list frame.arguments s
  have last := freed.bind (f := fun _ => pure (resultOf frame.request.rtype native)) Gives.pure
  exact (followed.silent (result.silent last)).congr rfl (List.append_nil _)

theorem scan_converted (n : Nat) (vs : List JSValueConst) :
    (scan n vs).converted = true ↔ ∀ v ∈ vs, (carrier v).isSome := by
  induction vs generalizing n with
  | nil => simp [scan]
  | cons v rest ih =>
    unfold scan
    cases made : carrier v with
    | none => simp [made]
    | some c => simp [made,ih]

theorem scan_calm (done : (scan n vs).converted = true) : (scan n vs).raised = false := by
  induction vs generalizing n with
  | nil => rfl
  | cons v rest ih =>
    unfold scan at done ⊢
    cases made : carrier v with
    | none => simp [made] at done
    | some c =>
      simp only [made] at done ⊢
      exact ih done

theorem scan_carried (done : (scan n vs).converted = true) :
    vs.map carrier = (scan n vs).carried.map some := by
  induction vs generalizing n with
  | nil => rfl
  | cons v rest ih =>
    unfold scan at done ⊢
    cases made : carrier v with
    | none => simp [made] at done
    | some c =>
      simp only [made] at done
      simp [made,ih done]

theorem scan_carried_le (n : Nat) (vs : List JSValueConst) : (scan n vs).carried.length ≤ vs.length := by
  induction vs generalizing n with
  | nil => simp [scan]
  | cons v rest ih =>
    unfold scan
    cases carrier v with
    | none => simp
    | some c => simpa using ih _

theorem scan_argOf (done : (scan n vs).converted = true) (present : vs[i]? = some v) :
    carrier v = some (argOf (scan n vs).carried i) := by
  have all := congrArg (fun cs => cs[i]?) (scan_carried done)
  simp only [List.getElem?_map,present,Option.map_some] at all
  obtain ⟨c,held,same⟩ := Option.map_eq_some_iff.mp all.symm
  rw [argOf,held,← same]
  rfl

theorem scan_argOf_missing (done : (scan n vs).converted = true) (absent : vs[i]? = none) :
    argOf (scan n vs).carried i = .missing := by
  have all := congrArg (fun cs => cs[i]?) (scan_carried done)
  simp only [List.getElem?_map,absent,Option.map_none] at all
  rw [argOf,Option.map_eq_none_iff.mp all.symm]
  rfl

theorem scan_ids (n : Nat) (vs : List JSValueConst) :
    (scan n vs).held.map CString.id = List.range' n (scan n vs).held.length := by
  induction vs generalizing n with
  | nil => rfl
  | cons v rest ih =>
    unfold scan
    cases carrier v with
    | none => rfl
    | some c =>
      have one : (heldBy v n).map CString.id = List.range' n (heldBy v n).length := by
        unfold heldBy
        split
        · cases made : v.asCString n with
          | none => rfl
          | some t => simp [asCString_id made]
        · rfl
      simp only [List.map_append,ih,one,List.length_append]
      exact List.range'_append_1

theorem scan_holds (done : (scan n vs).converted = true) (string : JS_IsString v = true) (given : v ∈ vs) :
    ∃ t ∈ (scan n vs).held, carrier v = some (.integral t.address.word) := by
  induction vs generalizing n with
  | nil => cases given
  | cons w rest ih =>
    unfold scan at done ⊢
    cases made : carrier w with
    | none => simp [made] at done
    | some c =>
      simp only [made] at done ⊢
      rcases List.mem_cons.mp given with rfl | later
      · cases value : v.value with
        | string text =>
          cases copy : v.copy with
          | none => simp [carrier,value,copy] at made
          | some address =>
            refine ⟨⟨n,address,cText text⟩,List.mem_append_left _ ?_,by simp [carrier,value,copy]⟩
            simp [heldBy,string,JSValueConst.asCString,JSValueConst.toText,value,copy]
        | _ => simp [JS_IsString,value] at string
      · obtain ⟨t,held,address⟩ := ih done later
        exact ⟨t,List.mem_append_right _ held,address⟩

def releases (held : List CString) : List Event := held.map (fun c => .release c.id)

theorem releaseStrings_gives (held : List CString) (tail : List (Option CString)) (s : Ctx) :
    Gives (releaseStrings ⟨held.map some++tail⟩ held.length) s () s (releases held.reverse) := by
  induction held using List.reverseRecOn generalizing tail with
  | nil => exact Gives.pure
  | append_singleton rest c ih =>
    have last : ((rest++[c]).map some++tail)[rest.length]? = some (some c) := by simp
    have earlier := ih (some c :: tail)
    rw [show rest.map some++some c :: tail = (rest++[c]).map some++tail by simp] at earlier
    have length : (rest++[c]).length = rest.length+1 := by simp
    rw [length]
    refine ((CArray.get_gives last).silent (Gives.emit.bind earlier)).congr rfl ?_
    simp [releases]

theorem js_call_error_gives (name : Option CString) (held : List CString) (r : JSValue) (s : Ctx) :
    Gives (js_call_error name ⟨stringCells held⟩ held.length r) s r s (released name++releases held.reverse) := by
  have strings := releaseStrings_gives held (List.replicate (MAX_PARAMETERS-held.length) none) s
  have last := strings.bind (f := fun _ => pure r) Gives.pure
  exact ((freeCString_gives name s).bind last).congr rfl (by simp)

def callArguments (given : List JSValueConst) : List JSValueConst := (given.drop 1).take MAX_PARAMETERS

def Registered (s : Ctx) : Prop :=
  ∀ f ∈ s.function_list, ∃ self p, f = nodeOf self p ∧ p.params.length ≤ MAX_PARAMETERS

def callScan (s : Ctx) (given : List JSValueConst) : Scan := scan (s.fresh+1) (callArguments given)

def opened (name : CString) (held : List CString) : List Event := .acquire name.id name.address :: acquisitions held
def closed (name : CString) (held : List CString) : List Event := .release name.id :: releases held.reverse

def frameOf (s : Ctx) (self : Nat) (p : Prototype) (name : CString) (r : Scan) : JsFrame :=
  ⟨name,⟨stringCells r.held⟩,r.held.length,innerFrame (s.fresh+1+r.held.length) self p r.carried⟩

inductive CallOutcome (s : Ctx) (given : List JSValueConst) : JSValue ⊕ JsFrame → Ctx → List Event → Prop where
  | unnamed (failed : (argAt given 0).cstring = none) :
    CallOutcome s given (.inl .exception) (s.bump 0 true) []
  | unconverted (name : CString) (named : (argAt given 0).asCString s.fresh = some name)
    (failed : (callScan s given).converted = false) :
    CallOutcome s given (.inl .exception) (s.bump (1+(callScan s given).held.length) (callScan s given).raised)
      (opened name (callScan s given).held++closed name (callScan s given).held)
  | unknown (name : CString) (named : (argAt given 0).asCString s.fresh = some name)
    (converted : (callScan s given).converted = true)
    (missing : find (fun f => f.name.contents) s.function_list name.text = none) :
    CallOutcome s given (.inl .exception) (s.bump (1+(callScan s given).held.length) false)
      (opened name (callScan s given).held++[.warn "call_function: no such function"]++
        closed name (callScan s given).held)
  | dispatched (name : CString) (named : (argAt given 0).asCString s.fresh = some name)
    (converted : (callScan s given).converted = true) (self : Nat) (p : Prototype)
    (found : find (fun f => f.name.contents) s.function_list name.text = some (nodeOf self p))
    (few : p.params.length ≤ MAX_PARAMETERS) :
    CallOutcome s given (.inr (frameOf s self p name (callScan s given)))
      (s.bump (1+(callScan s given).held.length+scratchCount p) false)
      (opened name (callScan s given).held++scratchLog (s.fresh+1+(callScan s given).held.length) p++
        [.ffi_call (requestOf self p (callScan s given).carried)])

theorem callArguments_le (given : List JSValueConst) : (callArguments given).length ≤ MAX_PARAMETERS :=
  List.length_take_le _ _

theorem js_call_prepare_gives (given : List JSValueConst) (s : Ctx) (registered : Registered s) :
    ∃ out t log, Gives (js_call_prepare given) s out t log ∧ CallOutcome s given out t log := by
  have argument := declared_argument Nat.one_pos given s
  cases text : (argAt given 0).cstring with
  | none =>
    have first := JS_ToCString_none text s
    have last := js_call_error_gives none [] .exception (s.bump 0 true)
    exact ⟨_,_,_,argument.silent (first.silent (last.silent Gives.pure)),.unnamed text⟩
  | some name =>
  obtain ⟨c,made,_⟩ := asCString_some text s.fresh
  have first := JS_ToCString_some made
  let r := callScan s given
  let u := s.bump (1+r.held.length) r.raised
  have args := js_call_args_gives (given.drop 1) [] [] (s.bump 1 false) (Nat.zero_le _) (Nat.le_refl _)
  have scanned : Gives (js_call_args 1 (given.drop 1) ⟨⟨argCells []⟩,⟨stringCells []⟩,0⟩) (s.bump 1 false)
      (r.converted,argVars r.carried r.held) u (acquisitions r.held) := by
    simpa [u,r,callScan,callArguments,argVars] using args
  have close := js_call_error_gives (some c) r.held .exception
  have few : r.carried.length ≤ MAX_PARAMETERS :=
    Nat.le_trans (scan_carried_le _ _) (callArguments_le given)
  cases converted : r.converted with
  | false =>
    rw [converted] at scanned
    refine ⟨_,_,_,?_,.unconverted c made converted⟩
    have last := (close u).bind (f := fun v => pure (Sum.inl v : JSValue ⊕ JsFrame)) Gives.pure
    exact (argument.silent (first.bind (scanned.bind last))).congr rfl (by simp [opened,closed,released,r])
  | true =>
    rw [converted] at scanned
    have calm : r.raised = false := scan_calm converted
    have state : u = s.bump (1+r.held.length) false := by simp only [u,calm]
    rw [state] at scanned
    cases found : find (fun f => f.name.contents) s.function_list c.text with
    | none =>
      refine ⟨_,_,_,?_,.unknown c made converted found⟩
      have last := (close (s.bump (1+r.held.length) false)).bind (f := fun v => pure (Sum.inl v : JSValue ⊕ JsFrame)) Gives.pure
      have nowhere := call_function_unknown c (some ⟨argCells r.carried⟩) (s.bump (1+r.held.length) false) found
      exact (argument.silent (first.bind (scanned.bind (nowhere.bind last)))).congr rfl
        (by simp [opened,closed,released,r])
    | some f =>
      obtain ⟨self,p,rfl,short⟩ := registered f (find_mem found)
      refine ⟨_,_,_,?_,.dispatched c made converted self p found short⟩
      have dispatched := call_function_dispatches c r.carried (s.bump (1+r.held.length) false) p found short few
      rw [Ctx.bump_bump,Ctx.bump_fresh,← Nat.add_assoc] at dispatched
      refine Gives.congr (argument.silent (first.bind (scanned.bind (dispatched.bind Gives.pure)))) rfl ?_
      simp [opened,r]

theorem js_call_finish_gives (frame : JsFrame) (held : List CString) (native : NativeResult) (s : Ctx) (f : function_s)
    (strings : frame.strings = ⟨stringCells held⟩) (count : frame.fl = held.length)
    (kept : find function_s.addr s.function_list frame.inner.f = some f)
    (same : f.rtype = frame.inner.request.rtype) :
    Gives (js_call_finish frame native) s
      (JS_NewFloat64 ((resultOf frame.inner.request.rtype native).convert binary64)) s
      (frame.inner.scratch.map .free++closed frame.name held) := by
  have result := call_function_finish_gives frame.inner native s f kept same
  refine result.bind ?_
  rw [strings,count]
  exact (js_call_error_gives (some frame.name) held _ s).congr rfl (by simp [closed,released])

end QjsFfi
