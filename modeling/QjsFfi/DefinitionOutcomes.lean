import QjsFfi.Registration

namespace QjsFfi
open Activation Histories

theorem namesOf_convertAll (id : Nat) (vs : List JSValueConst) :
    namesOf (convertAll id vs) = leading (vs.map JSValueConst.cstring) := by
  rw [namesOf,← leading_map,convertAll_texts]

theorem js_define_params_gives (vs : List JSValueConst) (nparams : Nat)
    (params : CArray (Option CString)) (s : Ctx) (room : params.size = MAX_PARAMETERS+1)
    (bound : nparams ≤ MAX_PARAMETERS) :
    let taken := vs.take (MAX_PARAMETERS-nparams)
    Gives (js_define_params nparams params vs) s
      (nparams+taken.length,⟨params.cells.take nparams++(convertAll s.fresh taken).map some++
        params.cells.drop (nparams+taken.length)⟩)
      (s.bump (handlesOf taken) (raises taken)) ((convertAll s.fresh taken).flatMap acquired) := by
  intro taken
  induction vs generalizing nparams params s with
  | nil => simpa [taken,js_define_params,convertAll,handlesOf,raises] using Gives.pure
  | cons v rest ih =>
    by_cases more : nparams < MAX_PARAMETERS
    · have step : taken = v :: rest.take (MAX_PARAMETERS-(nparams+1)) := by
        have : MAX_PARAMETERS-nparams = (MAX_PARAMETERS-(nparams+1))+1 := by omega
        simp only [taken,this,List.take_succ_cons]
      have inside : nparams < params.cells.length := by
        have := room; unfold CArray.size at this; omega
      have stored := ih (nparams+1) ⟨params.cells.set nparams (some (v.asCString s.fresh))⟩
        (s.bump v.handles v.cstring.isNone) (by simpa [CArray.size] using room) (by omega)
      have ran : Gives (do
          let s ← JS_ToCString v
          let params ← params.set nparams s
          js_define_params (nparams+1) params rest) s _ _ _ :=
        (JS_ToCString_gives v s).bind (Gives.silent (CArray.set_gives inside) stored)
      rw [js_define_params,if_pos more,step]
      have cells : (params.cells.set nparams (some (v.asCString s.fresh))).take (nparams+1) =
          params.cells.take nparams++[some (v.asCString s.fresh)] := by
        rw [List.take_add_one]
        simp [inside,List.take_set_of_le]
      have tail : (params.cells.set nparams (some (v.asCString s.fresh))).drop
          (nparams+1+(rest.take (MAX_PARAMETERS-(nparams+1))).length) =
          params.cells.drop (nparams+1+(rest.take (MAX_PARAMETERS-(nparams+1))).length) :=
        List.drop_set_of_lt (by omega)
      simp only [cells,tail,Ctx.bump_bump,Ctx.bump_fresh] at ran
      simpa [convertAll,handlesOf,raises,Nat.add_assoc,Nat.add_comm 1] using ran
    · have full : nparams = MAX_PARAMETERS := by omega
      have nothing : taken = [] := by simp [taken,full]
      rw [js_define_params,if_neg more,nothing]
      simpa [convertAll,handlesOf,raises] using Gives.pure

theorem releaseParams_gives (before convs : List (Option CString)) (tail : List (Option (Option CString)))
    (s : Ctx) :
    Gives (releaseParams ⟨before.map some++convs.map some++tail⟩ convs.length before.length) s () s
      (convs.flatMap released) := by
  induction convs generalizing before with
  | nil => exact Gives.pure
  | cons c rest ih =>
    have held : (before.map some++(c :: rest).map some++tail)[before.length]? = some (some c) := by simp
    have later := ih (before++[c])
    rw [show (before++[c]).map some++rest.map some++tail = before.map some++(c :: rest).map some++tail by simp,
      List.length_append,List.length_singleton] at later
    rw [List.flatMap_cons]
    exact (CArray.get_gives held).silent ((freeCString_gives c s).bind later)

theorem js_define_error_gives (name rtype abi : Option CString) (convs : List (Option CString))
    (tail : List (Option (Option CString))) (r : JSValue) (s : Ctx) :
    Gives (js_define_error name rtype abi ⟨convs.map some++tail⟩ convs.length r) s r s
      ([name,rtype,abi].flatMap released++convs.flatMap released) := by
  have params : Gives (releaseParams ⟨convs.map some++tail⟩ convs.length 0) s () s (convs.flatMap released) :=
    releaseParams_gives [] convs tail s
  have all : Gives (js_define_error name rtype abi ⟨convs.map some++tail⟩ convs.length r) s r s _ :=
    (freeCString_gives name s).bind ((freeCString_gives rtype s).bind
      ((freeCString_gives abi s).bind (params.bind Gives.pure)))
  simpa only [List.flatMap_cons,List.flatMap_nil,List.append_assoc,List.append_nil,List.nil_append] using all

structure DefineHeader where
  name : String
  fp : Word
  abi : String
  rtype : String
  deriving DecidableEq

def abiArguments (given : List JSValueConst) : List JSValueConst :=
  if JS_IsNull (argAt given 2) then [] else [argAt given 2]

def abiName (given : List JSValueConst) : Option String :=
  if JS_IsNull (argAt given 2) then some "default" else (argAt given 2).cstring

def defineHeader (given : List JSValueConst) : Option DefineHeader := do
  let name ← (argAt given 0).cstring
  let fp ← (argAt given 1).toInt64
  let abi ← abiName given
  let rtype ← (argAt given 3).cstring
  some ⟨name,fp,abi,rtype⟩

theorem defineHeader_parts (header : defineHeader given = some h) :
    (argAt given 0).cstring = some h.name ∧ (argAt given 1).toInt64 = some h.fp ∧ abiName given = some h.abi ∧
      (argAt given 3).cstring = some h.rtype := by
  simp only [defineHeader,Option.bind_eq_bind,Option.bind_eq_some_iff] at header
  obtain ⟨_,name,_,fp,_,abi,_,rtype,built⟩ := header
  cases built
  exact ⟨name,fp,abi,rtype⟩

def typeArguments (given : List JSValueConst) : List JSValueConst := (given.drop 4).take MAX_PARAMETERS

def recorded (given : List JSValueConst) : List String := leading ((typeArguments given).map JSValueConst.cstring)

def defineOutcome (ffi : Libffi) (s : Ctx) (given : List JSValueConst) : Bool × Option Prototype :=
  match defineHeader given with
  | none => (false,none)
  | some h => functionOutcome ffi s h.name h.fp h.abi h.rtype (recorded given)

def defineRaises (given : List JSValueConst) : Bool :=
  (defineHeader given).isNone || raises (typeArguments given)

structure DefineTrace (s : Ctx) (handles base : Nat) (made : Option Prototype) (log : List Event) : Prop where
  first : s.fresh ≤ base
  last : ∀ p, made = some p → base+blockCount p.params ≤ s.fresh+handles
  texts : ∀ id ∈ strings.taken log, s.fresh ≤ id ∧ id < s.fresh+handles
  within : ∀ id ∈ blocks.taken log, s.fresh ≤ id ∧ id < s.fresh+handles
  strings : strings.Balanced log
  kept : ∀ p, made = some p → blocks.taken log = List.range' base (blockCount p.params) ∧ blocks.returned log = []
  dropped : made = none → blocks.Balanced log
  prepared : ∀ p, made = some p → .ffi_prep_cif p.cif true ∈ log
  silent : ∀ request, .ffi_call request ∉ log

theorem define_exit_trace (attempted : List JSValueConst) (held : List (Option CString)) (s : Ctx)
    (same : (held.flatMap acquired).Perm ((convertAll s.fresh attempted).flatMap acquired)) :
    DefineTrace s (handlesOf attempted) s.fresh none
      ((convertAll s.fresh attempted).flatMap acquired++held.flatMap released) := by
  have balanced := strings_balanced s.fresh attempted [] ⟨rfl,rfl⟩ same
  simp only [List.append_nil] at balanced
  refine ⟨Nat.le_refl _,by simp,?_,by simp,balanced,by simp,?_,by simp,?_⟩
  · intro id member
    simpa [taken_acquired] using member
  · intro _
    simp [Custody.Balanced]
  · intro request member
    rcases List.mem_append.mp member with early | late
    · obtain ⟨c,_,inside⟩ := List.mem_flatMap.mp early
      cases c <;> simp [acquired] at inside
    · obtain ⟨c,_,inside⟩ := List.mem_flatMap.mp late
      cases c <;> simp [released] at inside

theorem js_define_abi_none (failed : abiName given = none) (s : Ctx) :
    Gives (js_define_abi (argAt given 2)) s none (s.bump 0 true) [] := by
  unfold abiName at failed
  unfold js_define_abi
  split at failed
  · cases failed
  · rename_i present
    rw [if_neg present]
    exact (JS_ToCString_none failed s).silent Gives.pure

theorem js_define_abi_some (made : abiName given = some text) (s : Ctx) :
    ∃ abi, abiText abi = text ∧ acquired abi = (convertAll s.fresh (abiArguments given)).flatMap acquired ∧
      Gives (js_define_abi (argAt given 2)) s (some abi) (s.bump (handlesOf (abiArguments given)) false) (acquired abi) := by
  unfold abiName at made
  unfold js_define_abi abiArguments
  split at made
  · rename_i null
    cases made
    rw [if_pos null,if_pos null]
    refine ⟨none,rfl,rfl,?_⟩
    rw [handlesOf,Ctx.bump_zero]
    exact Gives.pure
  · rename_i present
    obtain ⟨c,converted,text⟩ := asCString_some made s.fresh
    rw [if_neg present,if_neg present]
    refine ⟨some c,text,by simp [convertAll,converted],?_⟩
    rw [handlesOf,handles_one made]
    exact (JS_ToCString_some converted).bind Gives.pure

theorem define_argument (given : List JSValueConst) (s : Ctx) (i : Fin 4) :
    Gives ((padded 4 given).get i : C JSValueConst) s (argAt given i) s [] := declared_argument i.isLt given s

theorem js_define_rejects (ffi : Libffi) (given : List JSValueConst) (s : Ctx)
    (rejected : defineHeader given = none) :
    ∃ n log, Gives (js_define ffi given) s (.bool false) (s.bump n true) log ∧
      DefineTrace s n s.fresh none log := by
  have exit : ∀ (name abi : Option CString) (t : Ctx),
      Gives (js_define_error name none abi (CArray.alloc (MAX_PARAMETERS+1)) 0 (.bool false)) t (.bool false) t
        ([name,abi].flatMap released) := by
    intro name abi t
    exact (js_define_error_gives name none abi [] (List.replicate (MAX_PARAMETERS+1) none) (.bool false) t).congr
      rfl (by simp)
  cases nameText : (argAt given 0).cstring with
  | none =>
    have first := JS_ToCString_none nameText s
    refine ⟨0,[],?_,define_exit_trace [] [] s (List.Perm.refl _)⟩
    exact (define_argument given s 0).silent (first.silent (exit none none _))
  | some name =>
  obtain ⟨c0,made0,_⟩ := asCString_some nameText s.fresh
  have one : (argAt given 0).handles = 1 := handles_one nameText
  have first := JS_ToCString_some made0
  -- The name is all that is held when the next two conversions fail.
  have held : DefineTrace s 1 s.fresh none ([.acquire c0.id c0.address]++[some c0,none].flatMap released) := by
    have trace := define_exit_trace [argAt given 0] [some c0,none] s (by simp [convertAll,made0])
    rw [handlesOf,handlesOf,one] at trace
    simpa [convertAll,made0,acquired] using trace
  cases fpWord : (argAt given 1).toInt64 with
  | none =>
    have second := JS_ToInt64_none fpWord (s.bump 1 false)
    refine ⟨1,_,?_,held⟩
    exact ((define_argument given s 0).silent (first.bind ((define_argument given _ 1).silent
      (second.silent (exit (some c0) none _))))).congr (by simp) rfl
  | some fp =>
  have second := JS_ToInt64_some fpWord (s.bump 1 false)
  cases abiNamed : abiName given with
  | none =>
    have third := js_define_abi_none abiNamed (s.bump 1 false)
    refine ⟨1,_,?_,held⟩
    exact ((define_argument given s 0).silent (first.bind ((define_argument given _ 1).silent (second.silent
      ((define_argument given _ 2).silent (third.silent (exit (some c0) none _))))))).congr (by simp) rfl
  | some abiText =>
  obtain ⟨abi,_,conversion,third⟩ := js_define_abi_some abiNamed (s.bump 1 false)
  have rtypeText : (argAt given 3).cstring = none := by
    by_contra present
    obtain ⟨rtype,made⟩ := Option.ne_none_iff_exists'.mp present
    simp [defineHeader,nameText,fpWord,abiNamed,made] at rejected
  have fourth := JS_ToCString_none rtypeText ((s.bump 1 false).bump (handlesOf (abiArguments given)) false)
  refine ⟨_,_,?_,define_exit_trace ([argAt given 0]++abiArguments given) [some c0,abi] s ?_⟩
  · refine Gives.congr ((define_argument given s 0).silent (first.bind ((define_argument given _ 1).silent (second.silent
      ((define_argument given _ 2).silent (third.bind ((define_argument given _ 3).silent
      (fourth.silent (exit (some c0) abi _))))))))) ?_ ?_
    · simp [handlesOf,one]
    · rw [conversion]
      simp [convertAll,made0,one,acquired]
  · simp only [List.flatMap_cons,conversion]
    simp [convertAll,made0,one]

theorem define_trace (attempted : List JSValueConst) (held : List (Option CString)) (s : Ctx)
    (same : (held.flatMap acquired).Perm ((convertAll s.fresh attempted).flatMap acquired))
    (node : NodeTrace (s.fresh+handlesOf attempted) handles made middle) :
    DefineTrace s (handlesOf attempted+handles) (s.fresh+handlesOf attempted) made
      ((convertAll s.fresh attempted).flatMap acquired++middle++held.flatMap released) := by
  refine ⟨by omega,?_,?_,?_,strings_balanced s.fresh attempted middle node.calm same,?_,?_,?_,?_⟩
  · intro p equal
    have := node.last p equal
    omega
  · intro id member
    have taken : id ∈ List.range' s.fresh (handlesOf attempted) := by
      simpa [taken_acquired,node.calm] using member
    have := List.mem_range'_1.mp taken
    omega
  · intro id member
    have inside := node.within id (by simpa using member)
    omega
  · intro p equal
    obtain ⟨taken,returned⟩ := node.kept p equal
    simp [taken,returned]
  · intro refused
    simpa [Custody.Balanced] using node.dropped refused
  · intro p equal
    simp [node.prepared p equal]
  · intro request member
    rcases List.mem_append.mp member with early | late
    · rcases List.mem_append.mp early with conversion | work
      · obtain ⟨c,_,inside⟩ := List.mem_flatMap.mp conversion
        cases c <;> simp [acquired] at inside
      · exact node.silent _ work
    · obtain ⟨c,_,inside⟩ := List.mem_flatMap.mp late
      cases c <;> simp [released] at inside

def js_define_onward (ffi : Libffi) (given : List JSValueConst) (name : CString) (fp : Word) (abi : Option CString)
    (rtype : CString) : C JSValue := do
  let (nparams,params) ← js_define_params 0 (CArray.alloc (MAX_PARAMETERS+1)) (given.drop 4)
  let params ← params.set nparams none
  let ok ← define_function ffi (some name) fp abi (some rtype) (some params)
  js_define_error (some name) (some rtype) abi params nparams (.bool ok)

def leadingArguments (given : List JSValueConst) : List JSValueConst :=
  [argAt given 0]++abiArguments given++[argAt given 3]

theorem js_define_converts (header : defineHeader given = some h) (s : Ctx) :
    ∃ name abi rtype, name.text = h.name ∧ abiText abi = h.abi ∧ rtype.text = h.rtype ∧
      (convertAll s.fresh (leadingArguments given)).flatMap acquired = [some name,abi,some rtype].flatMap acquired ∧
      ∀ ffi r t log, Gives (js_define_onward ffi given name h.fp abi rtype)
        (s.bump (handlesOf (leadingArguments given)) false) r t log →
        Gives (js_define ffi given) s r t ([some name,abi,some rtype].flatMap acquired++log) := by
  obtain ⟨nameText,fpWord,abiNamed,rtypeText⟩ := defineHeader_parts header
  obtain ⟨c0,made0,text0⟩ := asCString_some nameText s.fresh
  have first := JS_ToCString_some made0
  have second := JS_ToInt64_some fpWord (s.bump 1 false)
  obtain ⟨abi,abiText,conversion,third⟩ := js_define_abi_some abiNamed (s.bump 1 false)
  obtain ⟨c3,made3,text3⟩ := asCString_some rtypeText ((s.bump 1 false).bump (handlesOf (abiArguments given)) false).fresh
  have fourth := JS_ToCString_some made3
  have handles0 : (argAt given 0).handles = 1 := handles_one nameText
  have handles3 : (argAt given 3).handles = 1 := handles_one rtypeText
  refine ⟨c0,abi,c3,text0,abiText,text3,?_,?_⟩
  · have fresh : ((s.bump 1 false).bump (handlesOf (abiArguments given)) false).fresh =
        s.fresh+(1+handlesOf (abiArguments given)) := Nat.add_assoc _ _ _
    rw [fresh] at made3
    simp only [leadingArguments,convertAll_append,List.flatMap_append,handlesOf_append,handlesOf,handles0]
    simp [convertAll,made0,made3,conversion]
  · intro ffi r t log onward
    have state : s.bump (handlesOf (leadingArguments given)) false =
        ((s.bump 1 false).bump (handlesOf (abiArguments given)) false).bump 1 false := by
      simp [leadingArguments,handlesOf_append,handlesOf,handles0,handles3,Nat.add_assoc]
    rw [state] at onward
    refine Gives.congr ((define_argument given s 0).silent (first.bind ((define_argument given _ 1).silent (second.silent
      ((define_argument given _ 2).silent (third.bind ((define_argument given _ 3).silent (fourth.bind onward)))))))) rfl ?_
    simp [acquired]

theorem js_define_params_ends (given : List JSValueConst) (s : Ctx) :
    let convs := convertAll s.fresh (typeArguments given)
    ∃ x tail, Gives (js_define_params 0 (CArray.alloc (MAX_PARAMETERS+1)) (given.drop 4)) s (convs.length,x)
        (s.bump (handlesOf (typeArguments given)) (raises (typeArguments given))) (convs.flatMap acquired) ∧
      ∀ t : Ctx, Gives (x.set convs.length none : C (CArray (Option CString))) t ⟨convs.map some++some none :: tail⟩ t [] := by
  intro convs
  have filled := js_define_params_gives (given.drop 4) 0 (CArray.alloc (MAX_PARAMETERS+1)) s
    CArray.alloc_size (Nat.zero_le _)
  have count : convs.length = (typeArguments given).length := convertAll_length _ _
  have few : convs.length ≤ MAX_PARAMETERS := by
    rw [count]
    exact List.length_take_le MAX_PARAMETERS (given.drop 4)
  let room := MAX_PARAMETERS-convs.length
  have size : MAX_PARAMETERS+1-convs.length = room+1 := by omega
  have cells : (CArray.alloc (MAX_PARAMETERS+1)).cells.take 0++convs.map some++
      (CArray.alloc (MAX_PARAMETERS+1)).cells.drop (0+(typeArguments given).length) =
      convs.map some++List.replicate (room+1) (none : Option (Option CString)) := by
    simp [CArray.alloc,← count,size]
  refine ⟨⟨convs.map some++List.replicate (room+1) none⟩,List.replicate room none,?_,?_⟩
  · have zero : 0+(typeArguments given).length = convs.length := by rw [count,Nat.zero_add]
    rw [← cells,← zero]
    exact filled
  · intro t
    have stored : (convs.map some++List.replicate (room+1) (none : Option (Option CString))).set convs.length (some none) =
        convs.map some++some none :: List.replicate room none := by
      rw [List.replicate_succ]
      simp
    rw [← stored]
    exact CArray.set_gives (by simp [CArray.size])

theorem js_define_onward_gives (ffi : Libffi) (given : List JSValueConst) (name : CString) (fp : Word)
    (abi : Option CString) (rtype : CString) (s : Ctx) :
    let outcome := functionOutcome ffi s name.text fp (abiText abi) rtype.text (recorded given)
    let convs := convertAll s.fresh (typeArguments given)
    let first := s.fresh+handlesOf (typeArguments given)
    ∃ handles middle, Gives (js_define_onward ffi given name fp abi rtype) s (.bool outcome.1)
        (defined s (handlesOf (typeArguments given)+handles) (raises (typeArguments given)) first outcome.2)
        (convs.flatMap acquired++(middle++([some name,some rtype,abi]++convs).flatMap released)) ∧
      NodeTrace first handles outcome.2 middle := by
  intro outcome convs first
  obtain ⟨x,tail,filled,stored⟩ := js_define_params_ends given s
  let u := s.bump (handlesOf (typeArguments given)) (raises (typeArguments given))
  obtain ⟨handles,middle,registers,node⟩ := define_function_gives ffi name fp abi (some rtype) convs tail u
  have names : namesOf convs = recorded given := namesOf_convertAll _ _
  have same : functionOutcome ffi u name.text fp (abiText abi) (rtypeText (some rtype)) (namesOf convs) = outcome := by
    rw [names]
    rfl
  rw [same] at registers node
  have closes := js_define_error_gives (some name) (some rtype) abi convs (some none :: tail) (.bool outcome.1)
    (defined u handles false u.fresh outcome.2)
  refine ⟨handles,middle,?_,node⟩
  refine Gives.congr (filled.bind ((stored u).silent (registers.bind closes))) ?_ ?_
  · simp [defined,u,Ctx.bump,first,Nat.add_assoc]
  · simp [convs]

theorem js_define_runs (ffi : Libffi) (given : List JSValueConst) (s : Ctx) (h : DefineHeader)
    (header : defineHeader given = some h) :
    ∃ n self log, Gives (js_define ffi given) s (.bool (defineOutcome ffi s given).1)
        (defined s n (raises (typeArguments given)) self (defineOutcome ffi s given).2) log ∧
      DefineTrace s n self (defineOutcome ffi s given).2 log := by
  obtain ⟨name,abi,rtype,nameText,abiIs,rtypeText,conversions,reach⟩ := js_define_converts header s
  let u := s.bump (handlesOf (leadingArguments given)) false
  obtain ⟨handles,middle,onward,node⟩ := js_define_onward_gives ffi given name h.fp abi rtype u
  let attempted := leadingArguments given++typeArguments given
  have total : u.fresh+handlesOf (typeArguments given) = s.fresh+handlesOf attempted := by
    simp [u,attempted,handlesOf_append,Nat.add_assoc]
  have outcome : functionOutcome ffi u name.text h.fp (abiText abi) rtype.text (recorded given) = defineOutcome ffi s given := by
    simp only [defineOutcome,header,nameText,abiIs,rtypeText]
    rfl
  rw [outcome,total] at onward node
  have all : (convertAll s.fresh attempted).flatMap acquired =
      [some name,abi,some rtype].flatMap acquired++(convertAll u.fresh (typeArguments given)).flatMap acquired := by
    rw [← conversions]
    simp [attempted,convertAll_append,u]
  have same : (([some name,some rtype,abi]++convertAll u.fresh (typeArguments given)).flatMap acquired).Perm
      ((convertAll s.fresh attempted).flatMap acquired) := by
    rw [all,List.flatMap_append]
    have swapped : [some name,some rtype,abi].Perm [some name,abi,some rtype] :=
      (List.Perm.swap abi (some rtype) []).cons (some name)
    exact (swapped.flatMap_right acquired).append_right _
  refine ⟨_,_,_,?_,define_trace attempted _ s same node⟩
  refine (reach ffi _ _ _ onward).congr ?_ ?_
  · simp [defined,u,attempted,handlesOf_append,Ctx.bump,Nat.add_assoc]
  · rw [all]
    simp [List.append_assoc]

-- Everything a define can do: it answers, it may put one node at the head of
-- the list, and it leaves the rest of the module's state alone.
theorem js_define_gives (ffi : Libffi) (given : List JSValueConst) (s : Ctx) :
    ∃ n self log, Gives (js_define ffi given) s (.bool (defineOutcome ffi s given).1)
        (defined s n (defineRaises given) self (defineOutcome ffi s given).2) log ∧
      DefineTrace s n self (defineOutcome ffi s given).2 log := by
  cases header : defineHeader given with
  | none =>
    have outcome : defineOutcome ffi s given = (false,none) := by simp [defineOutcome,header]
    obtain ⟨n,log,ran,trace⟩ := js_define_rejects ffi given s header
    have raised : defineRaises given = true := by simp [defineRaises,header]
    rw [outcome,raised]
    exact ⟨n,s.fresh,log,ran,trace⟩
  | some h =>
    have raised : defineRaises given = raises (typeArguments given) := by simp [defineRaises,header]
    rw [raised]
    exact js_define_runs ffi given s h header

end QjsFfi
