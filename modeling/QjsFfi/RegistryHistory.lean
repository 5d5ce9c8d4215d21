import QjsFfi.ModuleMachine

namespace QjsFfi
open BinaryFloat Activation Histories

structure Entry (history : List Record) (s : Ctx) (f : function_s) : Prop where
  sized : f.nargs = f.types.cells.length
  few : f.nargs ≤ MAX_PARAMETERS
  params : ∀ cell ∈ f.types.cells, ∃ t name, cell = some t ∧ find_ffi_type s.ffi_type_head (some name) = some t
  result : ∃ name, find_ffi_type s.ffi_type_head (some name) = some f.rtype
  code : f.fp ≠ .code 0
  prepared : ∃ cif, f.cif = some cif ∧ cif.nargs = f.nargs ∧ cif.rtype = f.rtype ∧ cif.arg_types = f.types ∧
    ∃ r ∈ history, .ffi_prep_cif cif true ∈ r.events

theorem knownTypes_iff {head : List ffi_type_s} :
    knownTypes head names = some types ↔ names.map (fun name => find_ffi_type head (some name)) = types.map some := by
  induction names generalizing types with
  | nil => cases types <;> simp [knownTypes]
  | cons name rest ih =>
    simp only [knownTypes,List.mapM_cons,Option.bind_eq_bind,Option.bind_eq_some_iff,List.map_cons] at ih ⊢
    constructor
    · rintro ⟨t,found,ts,tail,built⟩
      cases built
      rw [found,ih.mp tail,List.map_cons]
    · intro all
      cases types with
      | nil => cases all
      | cons t ts =>
        obtain ⟨found,tail⟩ := List.cons.inj all
        exact ⟨t,found,ts,ih.mpr tail,rfl⟩

theorem knownTypes_found (known : knownTypes head names = some types) (member : t ∈ types) :
    ∃ name, find_ffi_type head (some name) = some t := by
  have listed : some t ∈ types.map some := List.mem_map_of_mem member
  rw [← knownTypes_iff.mp known] at listed
  obtain ⟨name,_,found⟩ := List.mem_map.mp listed
  exact ⟨name,found⟩

theorem codeOf_present (fp : Word) : codeOf fp ≠ .code 0 := by
  unfold codeOf
  split
  · intro equal; cases equal
  · rename_i present
    intro equal
    exact present (CodePointer.code.inj equal)

theorem Origin.entry (origin : Origin history s f p r) (types : s.ffi_type_head = define_types []) :
    Entry history s f := by
  have made := origin.prototype
  have few := prototype_few made
  unfold Record.prototype at made
  split at made
  · obtain ⟨h,_,_,fp,_,known,found,_⟩ := spelled_parts made
    rw [← types] at known found
    rw [origin.node]
    refine ⟨?_,few,?_,⟨_,found⟩,?_,p.cif,rfl,rfl,rfl,?_,r,origin.past,origin.prepared⟩
    · rw [nodeOf_types]
      simp [nodeOf]
    · intro cell member
      rw [nodeOf_types] at member
      obtain ⟨t,listed,rfl⟩ := List.mem_map.mp member
      obtain ⟨name,named⟩ := knownTypes_found known listed
      exact ⟨t,name,rfl,named⟩
    · change p.fp ≠ .code 0
      rw [fp]
      exact codeOf_present _
    · rw [nodeOf_types]
      rfl
  · cases made

theorem Sound.entry (sound : Sound history m) (member : f ∈ m.ctx.function_list) : Entry history m.ctx f := by
  obtain ⟨p,r,origin⟩ := sound.entries f member
  have types := sound.types
  rw [if_pos origin.initialised] at types
  exact origin.entry types

theorem Sound.type_names (sound : Sound history m) : (m.ctx.ffi_type_head.map ffi_type_s.name).Nodup := by
  rw [sound.types]
  split
  · exact define_types_nodup List.nodup_nil
  · exact List.nodup_nil

theorem lookups_kept (reached : Reached history m) (initialised : history.any Record.initialises = true)
    (onward : Runs Step m later next) : next.ctx.ffi_type_head = m.ctx.ffi_type_head := by
  have before := (sound_reached reached).types
  have after := (sound_reached (reached.append onward)).types
  rw [if_pos initialised] at before
  rw [if_pos (by rw [List.any_append,initialised,Bool.true_or])] at after
  rw [before,after]

theorem registry_invariant (reached : Reached history m) :
    (m.ctx.ffi_type_head.map ffi_type_s.name).Nodup ∧
    (history.any Record.initialises = true → ∀ later next, Runs Step m later next →
      ∀ name, find_ffi_type next.ctx.ffi_type_head name = find_ffi_type m.ctx.ffi_type_head name) ∧
    (m.ctx.function_list.map (fun f => f.name.contents)).Nodup ∧
    ∀ f ∈ m.ctx.function_list, Entry history m.ctx f := by
  have sound := sound_reached reached
  refine ⟨sound.type_names,?_,sound.names,fun f member => sound.entry member⟩
  intro initialised later next onward name
  rw [lookups_kept reached initialised onward]

theorem registry_invariant_abs :
    (absMachine.ctx.ffi_type_head.map ffi_type_s.name).Nodup ∧
    (absHistory.any Record.initialises = true → ∀ later next, Runs Step absMachine later next →
      ∀ name, find_ffi_type next.ctx.ffi_type_head name = find_ffi_type absMachine.ctx.ffi_type_head name) ∧
    (absMachine.ctx.function_list.map (fun f => f.name.contents)).Nodup ∧
    ∀ f ∈ absMachine.ctx.function_list, Entry absHistory absMachine.ctx f :=
  registry_invariant abs_reached

def Acceptable (ffi : Libffi) (s : Ctx) (h : DefineHeader) (names : List String) : Prop :=
  ∃ params rtype, knownTypes s.ffi_type_head names = some params ∧
    find_ffi_type s.ffi_type_head (some h.rtype) = some rtype ∧
    ffi.ffi_prep_cif ⟨find_abi ffi.compiled h.abi,params.length,rtype,⟨params.map some⟩⟩ = true

theorem declared_iff (ffi : Libffi) (s : Ctx) (h : DefineHeader) (names : List String) :
    (declared ffi s.ffi_type_head h.name h.fp h.abi h.rtype names).isSome = true ↔ Acceptable ffi s h names := by
  constructor
  · intro made
    obtain ⟨p,declares⟩ := Option.isSome_iff_exists.mp made
    obtain ⟨_,_,abi,known,found,prepared⟩ := declared_some declares
    refine ⟨p.params,p.rtype,known,found,?_⟩
    rw [← abi]
    exact prepared
  · intro ⟨params,rtype,known,found,prepared⟩
    by_contra refused
    have undeclared : declared ffi s.ffi_type_head h.name h.fp h.abi h.rtype names = none :=
      Option.not_isSome_iff_eq_none.mp refused
    have failed := declared_none undeclared known found
    have accepted : ffi.ffi_prep_cif (Prototype.cif ⟨h.name,codeOf h.fp,find_abi ffi.compiled h.abi,rtype,params⟩) = true :=
      prepared
    rw [accepted] at failed
    cases failed

theorem define_answer (header : defineHeader given = some h) (step : Step m ⟨.define ffi given,log,some r⟩ next) :
    (r = .bool true ↔ (m.ctx.function h.name).isSome = true ∨ Acceptable ffi m.ctx h (recorded given)) ∧
    (next.ctx.function_list = m.ctx.function_list ∨
      ∃ f, next.ctx.function_list = f :: m.ctx.function_list ∧ f.name.contents = h.name ∧
        m.ctx.function h.name = none ∧ r = .bool true) := by
  cases step with
  | define ran =>
    obtain ⟨rfl,n,base,rfl,_⟩ := define_parts ran
    constructor
    · rw [← declared_iff]
      unfold defineOutcome functionOutcome
      rw [header]
      cases found : m.ctx.function h.name <;> simp [found]
    · cases made : (defineOutcome ffi m.ctx given).2 with
      | none => exact .inl rfl
      | some p =>
        obtain ⟨g,same,free,answer,declares⟩ := defineOutcome_made made
        have equal : g = h := Option.some.inj (same.symm.trans header)
        subst equal
        exact .inr ⟨nodeOf base p,rfl,(declared_some declares).1,free,by rw [answer]⟩

theorem define_registers (sound : Sound history m) (header : defineHeader given = some h)
    (free : m.ctx.function h.name = none) (step : Step m ⟨.define ffi given,log,some (.bool true)⟩ next) :
    ∃ addr p, spelled ffi given = some p ∧ next.ctx.function h.name = some (nodeOf addr p) := by
  cases step with
  | define ran =>
    obtain ⟨answer,n,base,rfl,_⟩ := define_parts ran
    have yes : (defineOutcome ffi m.ctx given).1 = true := (JSValue.bool.inj answer).symm
    cases made : (defineOutcome ffi m.ctx given).2 with
    | none =>
      obtain ⟨g,same,present⟩ := defineOutcome_known yes made
      have equal : g = h := Option.some.inj (same.symm.trans header)
      rw [equal,free] at present
      cases present
    | some p =>
      have made' := sound.spelled made
      obtain ⟨g,same,name,_⟩ := spelled_parts made'
      have equal : g = h := Option.some.inj (same.symm.trans header)
      refine ⟨base,p,made',?_⟩
      rw [defined_function,name,equal,if_pos rfl]

theorem nodeOf_injective (same : nodeOf addr p = nodeOf other q) : p = q := by
  obtain ⟨name,fp,abi,rtype,params⟩ := p
  obtain ⟨name',fp',abi',rtype',params'⟩ := q
  simp only [nodeOf,Prototype.cif,function_s.mk.injEq,Block.mk.injEq,Option.some.injEq,ffi_cif.mk.injEq,
    CArray.mk.injEq] at same
  obtain ⟨_,⟨_,rfl⟩,rfl,_,⟨rfl,_,_,types⟩,_,rfl⟩ := same
  rw [List.map_injective_iff.mpr (Option.some_injective _) types]

theorem call_dispatch (sound : Sound history m) (step : Step m ⟨.call given,log,none⟩ next) :
    ∃ name r p frame addr carried, (argAt given 0).cstring = some name ∧ firstDefine history name = some r ∧
      r.prototype = some p ∧ next.stack = frame :: m.stack ∧ frame.inner.request = requestOf addr p carried ∧
      .ffi_call (requestOf addr p carried) ∈ log := by
  cases step with
  | entered ran =>
    cases call_parts sound.registered ran with
    | dispatched name named converted addr p found few =>
      have text : (argAt given 0).cstring = some name.text := by
        rw [← asCString_text _ m.ctx.fresh,named]
        rfl
      cases first : firstDefine history name.text with
      | none =>
        have absent := sound.unknown name.text first
        rw [Ctx.function,found] at absent
        cases absent
      | some r =>
        obtain ⟨addr',q,prototype,known⟩ := sound.known name.text r first
        have same : nodeOf addr p = nodeOf addr' q := Option.some.inj (found.symm.trans known)
        have equal : p = q := nodeOf_injective same
        subst equal
        refine ⟨name.text,r,p,_,addr,(callScan m.ctx given).carried,text,first,prototype,rfl,?_,?_⟩
        · exact innerFrame_request
        · simp

theorem return_value (sound : Sound history m) (step : Step m ⟨.returned native,log,some r⟩ next) :
    ∃ frame, m.stack = frame :: next.stack ∧
      r = JS_NewFloat64 ((resultOf frame.inner.request.rtype native).convert binary64) := by
  cases step with
  | returned innermost ran =>
    rename_i frame _ _
    obtain ⟨held,addr,p,waiting⟩ := sound.frames frame (innermost ▸ List.mem_cons_self)
    obtain ⟨rfl,_,_⟩ := ran.unique (finish_gives sound.addresses waiting native)
    obtain ⟨first,carried,inner⟩ := waiting.inner
    refine ⟨frame,innermost,?_⟩
    rw [inner,innerFrame_request]
    rfl

theorem first_definition_wins (reached : Reached history m) :
    (∀ ffi given h log r next, defineHeader given = some h → Step m ⟨.define ffi given,log,some r⟩ next →
      (r = .bool true ↔ (m.ctx.function h.name).isSome = true ∨ Acceptable ffi m.ctx h (recorded given)) ∧
      (next.ctx.function_list = m.ctx.function_list ∨
        ∃ f, next.ctx.function_list = f :: m.ctx.function_list ∧ f.name.contents = h.name ∧
          m.ctx.function h.name = none ∧ r = .bool true)) ∧
    ∀ given opening entered, Step m ⟨.call given,opening,none⟩ entered →
      ∃ name r p addr carried, (argAt given 0).cstring = some name ∧ firstDefine history name = some r ∧
        r.prototype = some p ∧ .ffi_call (requestOf addr p carried) ∈ opening ∧
        ∀ inside suspended native closing value after, Runs Step entered inside suspended →
          suspended.stack = entered.stack → Step suspended ⟨.returned native,closing,some value⟩ after →
          value = JS_NewFloat64 ((resultOf p.rtype native).convert binary64) := by
  have sound := sound_reached reached
  refine ⟨fun _ _ _ _ _ _ header step => define_answer header step,?_⟩
  intro given opening entered step
  obtain ⟨name,r,p,frame,addr,carried,text,first,prototype,stack,request,called⟩ := call_dispatch sound step
  refine ⟨name,r,p,addr,carried,text,first,prototype,called,?_⟩
  intro inside suspended native closing value after nested level back
  have later : Reached _ suspended := Runs.append (.snoc reached step) nested
  obtain ⟨top,innermost,result⟩ := return_value (sound_reached later) back
  have same : top = frame := by
    rw [level,stack] at innermost
    exact (List.cons.inj innermost).1.symm
  rw [result,same,request]
  rfl

theorem first_definition_wins_abs :
    ∃ name r p addr carried, (argAt absCall 0).cstring = some name ∧ firstDefine absHistory name = some r ∧
      r.prototype = some p ∧ .ffi_call (requestOf addr p carried) ∈ absOpening ∧
      ∀ inside suspended native closing value after, Runs Step absCalled inside suspended →
        suspended.stack = absCalled.stack → Step suspended ⟨.returned native,closing,some value⟩ after →
        value = JS_NewFloat64 ((resultOf p.rtype native).convert binary64) :=
  (first_definition_wins abs_reached).2 _ _ _ abs_entered

end QjsFfi
