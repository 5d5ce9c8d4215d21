import QjsFfi.RegistryHistory

namespace QjsFfi
open Activation Histories

def namedType (s : Ctx) (v : JSValueConst) : Option ffi_type :=
  v.cstring.bind (fun name => find_ffi_type s.ffi_type_head (some name))

-- What a define owes for its type arguments: all of them recorded in order, or nothing.
def Faithful (s : Ctx) (given : List JSValueConst) (r : JSValue) (t : Ctx) : Prop :=
  (r = .bool true ∧ ∃ (f : function_s) (params : List ffi_type), t.function_list = f :: s.function_list ∧ f.types = ⟨params.map some⟩ ∧
    (given.drop 4).map (namedType s) = params.map some) ∨
  (r ≠ .bool true ∧ t.function_list = s.function_list)

def Complete (given : List JSValueConst) : Prop :=
  (given.drop 4).length ≤ MAX_PARAMETERS ∧ ∀ v ∈ given.drop 4, v.cstring.isSome = true

def Refused (ffi : Libffi) (s : Ctx) (given : List JSValueConst) : Prop :=
  ∀ h, defineHeader given = some h → ¬ Acceptable ffi s h (recorded given)

theorem leading_complete {cells : List (Option α)} (full : ∀ cell ∈ cells, cell.isSome = true) :
    (leading cells).map some = cells := by
  induction cells with
  | nil => rfl
  | cons cell rest ih =>
    cases cell with
    | none => cases full none List.mem_cons_self
    | some a => rw [leading,List.map_cons,ih (fun cell later => full cell (List.mem_cons_of_mem _ later))]

theorem recorded_all (complete : Complete given) :
    (recorded given).map some = (given.drop 4).map JSValueConst.cstring := by
  have all : typeArguments given = given.drop 4 := List.take_of_length_le complete.1
  unfold recorded
  rw [all]
  refine leading_complete ?_
  intro cell member
  obtain ⟨v,listed,rfl⟩ := List.mem_map.mp member
  exact complete.2 v listed

theorem recorded_complete (known : knownTypes s.ffi_type_head (recorded given) = some params) :
    (given.drop 4).map (namedType s) = params.map some ↔ Complete given := by
  have types := knownTypes_iff.mp known
  constructor
  · intro same
    have count : (given.drop 4).length = (recorded given).length := by
      rw [← knownTypes_length known,← List.length_map (namedType s),same,List.length_map]
    refine ⟨count ▸ recorded_le given,?_⟩
    intro v member
    have named : namedType s v ∈ params.map some := same ▸ List.mem_map_of_mem member
    obtain ⟨t,_,found⟩ := List.mem_map.mp named
    cases text : v.cstring with
    | some name => rfl
    | none => simp [namedType,text] at found
  · intro complete
    have names := recorded_all complete
    calc (given.drop 4).map (namedType s)
        = ((given.drop 4).map JSValueConst.cstring).map
            (fun text => text.bind (fun name => find_ffi_type s.ffi_type_head (some name))) := by
          rw [List.map_map]; rfl
      _ = (recorded given).map (fun name => find_ffi_type s.ffi_type_head (some name)) := by
          rw [← names,List.map_map]; rfl
      _ = params.map some := types

theorem define_unmade (named : (argAt given 0).cstring = some name) (free : s.function name = none)
    (made : (defineOutcome ffi s given).2 = none) : (defineOutcome ffi s given).1 = false ∧ Refused ffi s given := by
  constructor
  · by_contra yes
    obtain ⟨h,header,present⟩ := defineOutcome_known (Bool.eq_true_of_not_eq_false yes) made
    have own : h.name = name := Option.some.inj ((defineHeader_name header).symm.trans named)
    rw [own,free] at present
    cases present
  · intro h header acceptable
    have own : h.name = name := Option.some.inj ((defineHeader_name header).symm.trans named)
    have declares := (declared_iff ffi s h _).mpr acceptable
    rw [← own] at free
    simp only [defineOutcome,header,functionOutcome,free,Option.isSome_none,Bool.false_eq_true,if_false] at made
    rw [made] at declares
    cases declares

theorem faithful_made {p : Prototype} :
    Faithful s given (.bool true) (defined s n raised base (some p)) ↔ (given.drop 4).map (namedType s) = p.params.map some := by
  constructor
  · intro faithful
    rcases faithful with ⟨_,f,params,list,types,same⟩ | ⟨other,_⟩
    · have node : nodeOf base p = f := (List.cons.inj list).1
      rw [← node,nodeOf_types] at types
      have equal : p.params.map some = params.map some := CArray.mk.inj types
      exact equal ▸ same
    · exact absurd rfl other
  · intro same
    exact .inl ⟨rfl,nodeOf base p,p.params,rfl,nodeOf_types base p,same⟩

-- A define under a free name keeps all its type arguments exactly when each of
-- them converts and they fit, or when it adds nothing.
theorem define_faithful_iff (step : Step m ⟨.define ffi given,log,some r⟩ next)
    (named : (argAt given 0).cstring = some name) (free : m.ctx.function name = none) :
    Faithful m.ctx given r next.ctx ↔ Complete given ∨ Refused ffi m.ctx given := by
  cases step with
  | define ran =>
    obtain ⟨rfl,n,base,rfl,_⟩ := define_parts ran
    cases made : (defineOutcome ffi m.ctx given).2 with
    | none =>
      obtain ⟨answer,refused⟩ := define_unmade named free made
      rw [answer]
      exact iff_of_true (.inr ⟨by simp,rfl⟩) (.inr refused)
    | some p =>
      obtain ⟨h,header,_,answer,declares⟩ := defineOutcome_made made
      obtain ⟨_,_,_,known,_,_⟩ := declared_some declares
      have accepted : ¬ Refused ffi m.ctx given := by
        intro refused
        exact refused h header ((declared_iff ffi m.ctx h _).mp (by rw [declares]; rfl))
      rw [answer,← recorded_complete known,faithful_made]
      exact (or_iff_left accepted).symm

theorem define_faithful_iff_abs :
    Faithful freshMachine.ctx absDefine (.bool true) absMachine.ctx ↔
      Complete absDefine ∨ Refused plainLibffi freshMachine.ctx absDefine := by
  have named : (argAt absDefine 0).cstring = some "abs" := by decide +kernel
  exact define_faithful_iff abs_defined named rfl

-- define("abs", 0x2000, null, "int", Symbol()) answers true with no parameter recorded.
def symbolDefine : List JSValueConst :=
  [stringArgument "abs" nameCopy,intArgument 0x2000,nullArgument,stringArgument "int" resultCopy,⟨.symbol,none,none,none⟩]

def symbolPrototype : Prototype := ⟨"abs",.code 0x2000,.FFI_DEFAULT_ABI,.sint32,[]⟩

theorem define_drops_symbol :
    ¬ ∀ m next ffi given log r name, Step m ⟨.define ffi given,log,some r⟩ next →
      (argAt given 0).cstring = some name → m.ctx.function name = none → Faithful m.ctx given r next.ctx := by
  intro faithful
  have step : Step freshMachine ⟨.define plainLibffi symbolDefine,
      [.acquire 66 nameCopy,.acquire 67 resultCopy,.malloc 68,.malloc 69,.ffi_prep_cif symbolPrototype.cif true,
       .release 66,.release 67],some (.bool true)⟩ ⟨⟨define_types [],[nodeOf 68 symbolPrototype],true,70⟩,[]⟩ :=
    .define (by decide +kernel)
  have named : (argAt symbolDefine 0).cstring = some "abs" := by decide +kernel
  have owed := faithful _ _ _ _ _ _ _ step named rfl
  rcases owed with ⟨_,_,params,_,_,same⟩ | ⟨other,_⟩
  · have unnamed : (symbolDefine.drop 4).map (namedType freshMachine.ctx) = [none] := by decide +kernel
    rw [unnamed] at same
    cases params <;> simp at same
  · exact other rfl

end QjsFfi
