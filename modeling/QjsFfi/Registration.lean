import QjsFfi.Conversions
import QjsFfi.Definition

namespace QjsFfi
open Activation Histories

theorem countArgs_gives (cells : List (Option CString)) (tail : List (Option (Option CString))) (s : Ctx) :
    Gives (countArgs (cells.map some++some none :: tail)) s (leading cells).length s [] := by
  induction cells with
  | nil => exact Gives.pure
  | cons cell rest ih =>
    cases cell with
    | none => exact Gives.pure
    | some c => exact ih.silent Gives.pure

-- What a successful define records, without the identities of its blocks.
structure Prototype where
  name : String
  fp : CodePointer
  abi : ffi_abi
  rtype : ffi_type
  params : List ffi_type
  deriving DecidableEq, Repr

def codeOf (fp : Word) : CodePointer := if fp = 0 then .dummy_ else .code fp

def Prototype.cif (p : Prototype) : ffi_cif := ⟨p.abi,p.params.length,p.rtype,⟨p.params.map some⟩⟩

def knownTypes (head : List ffi_type_s) (names : List String) : Option (List ffi_type) :=
  names.mapM (fun name => find_ffi_type head (some name))

def declared (ffi : Libffi) (head : List ffi_type_s) (name : String) (fp : Word) (abi rtype : String)
    (names : List String) : Option Prototype := do
  let params ← knownTypes head names
  let t ← find_ffi_type head (some rtype)
  let p : Prototype := ⟨name,codeOf fp,find_abi ffi.compiled abi,t,params⟩
  if ffi.ffi_prep_cif p.cif then some p else none

def nodeOf (self : Nat) (p : Prototype) : function_s :=
  ⟨self,⟨self+1,p.name⟩,p.fp,p.params.length,some p.cif,
   if p.params = [] then none else some ⟨self+2,⟨p.params.map some⟩⟩,p.rtype⟩

theorem knownTypes_length (known : knownTypes head names = some types) : types.length = names.length := by
  induction names generalizing types with
  | nil => simp [knownTypes] at known; subst known; rfl
  | cons name rest ih =>
    simp only [knownTypes,List.mapM_cons,Option.bind_eq_bind,Option.bind_eq_some_iff] at known
    obtain ⟨t,_,ts,tail,equal⟩ := known
    cases equal
    simp [ih tail]

theorem define_arg_known {args : CArray (Option CString)} {types : CArray ffi_type} {s : Ctx}
    (held : args.cells[i]? = some (some (some c))) (found : find_ffi_type s.ffi_type_head (some c.text) = some t)
    (inside : i < types.size) : Gives (define_arg args i types) s (true,⟨types.cells.set i (some t)⟩) s [] := by
  apply (CArray.get_gives held).silent
  apply Gives.read.silent
  simp only [Option.map_some,found]
  exact (CArray.set_gives inside).silent Gives.pure

theorem define_arg_unknown {args : CArray (Option CString)} {s : Ctx} (types : CArray ffi_type)
    (held : args.cells[i]? = some (some (some c))) (missing : find_ffi_type s.ffi_type_head (some c.text) = none) :
    Gives (define_arg args i types) s (false,types) s [.warn "define_function: no such type"] := by
  apply (CArray.get_gives held).silent
  apply Gives.read.silent
  simp only [Option.map_some,missing]
  exact Gives.emit.bind Gives.pure

theorem define_args_gives (args : CArray (Option CString)) (s : Ctx) (before after : List CString)
    (done : List ffi_type) (aligned : done.length = before.length)
    (cells : ∀ i (inside : i < (before++after).length), args.cells[i]? = some (some (some (before++after)[i]))) :
    match knownTypes s.ffi_type_head (after.map CString.text) with
    | some types => Gives (loop (define_arg args) after.length before.length
        ⟨done.map some++List.replicate after.length none⟩) s (true,⟨(done++types).map some⟩) s []
    | none => ∃ x, Gives (loop (define_arg args) after.length before.length
        ⟨done.map some++List.replicate after.length none⟩) s (false,x) s
        [.warn "define_function: no such type"] := by
  induction after generalizing before done with
  | nil => simp only [knownTypes]; simpa [loop] using Gives.pure
  | cons c rest ih =>
    have held : args.cells[before.length]? = some (some (some c)) := by
      have := cells before.length (by simp)
      simpa using this
    let types : CArray ffi_type := ⟨done.map some++List.replicate (c :: rest).length none⟩
    cases found : find_ffi_type s.ffi_type_head (some c.text) with
    | none =>
      have unknown : knownTypes s.ffi_type_head ((c :: rest).map CString.text) = none := by
        simp [knownTypes,found]
      rw [unknown]
      exact ⟨_,(define_arg_unknown types held found).bind Gives.pure⟩
    | some t =>
      have stored : types.cells.set before.length (some t) = (done++[t]).map some++List.replicate rest.length none := by
        rw [← aligned]
        simp [types,List.replicate_succ]
      have inside : before.length < types.size := by
        simp [types,CArray.size]
        omega
      have body := define_arg_known held found inside
      rw [stored] at body
      have later := ih (before++[c]) (done++[t]) (by simp [aligned]) (by simpa using cells)
      have unfolded : knownTypes s.ffi_type_head ((c :: rest).map CString.text) =
          (knownTypes s.ffi_type_head (rest.map CString.text)).map (t :: ·) := by
        simp only [knownTypes,List.map_cons,List.mapM_cons,found]
        cases List.mapM (fun name => find_ffi_type s.ffi_type_head (some name)) (rest.map CString.text) <;> rfl
      rw [unfolded]
      rw [List.length_append,List.length_singleton] at later
      cases tail : knownTypes s.ffi_type_head (rest.map CString.text) with
      | none =>
        rw [tail] at later
        obtain ⟨x,ran⟩ := later
        exact ⟨x,body.silent ran⟩
      | some types =>
        rw [tail] at later
        simp only [Option.map_some,show done++t :: types = done++[t]++types by simp]
        exact body.silent later

def Event.quiet : Event → Bool
  | .warn _ | .ffi_prep_cif _ _ => true
  | _ => false

def blockCount (names : List α) : Nat := if names = [] then 2 else 3

def allocated (self : Nat) (names : List α) : List Event :=
  (List.range' self (blockCount names)).map .malloc

@[simp] theorem allocated_nil (self : Nat) :
    allocated self ([] : List α) = [.malloc self,.malloc (self+1)] := by simp [allocated,blockCount,List.range']

@[simp] theorem allocated_cons (self : Nat) (name : α) (names : List α) :
    allocated self (name :: names) = [.malloc self,.malloc (self+1),.malloc (self+2)] := by
  simp [allocated,blockCount,List.range']

def freed (self : Nat) (names : List α) : List Event :=
  (if names = [] then [] else [.free (self+2)])++[.free (self+1),.free self]

def unprepared (self : Nat) (name : String) (fp : CodePointer) (params : List ffi_type) : function_s :=
  ⟨self,⟨self+1,name⟩,fp,params.length,none,
   if params = [] then none else some ⟨self+2,⟨params.map some⟩⟩,.void⟩

theorem unprepared_types (self : Nat) (name : String) (fp : CodePointer) (params : List ffi_type) :
    (unprepared self name fp params).types = ⟨params.map some⟩ := by
  cases params <;> rfl

theorem define_error_gives (self : Nat) (name : String) (fp : CodePointer) (params : List ffi_type) (s : Ctx) :
    Gives (define_error ((unprepared self name fp params).args.map Block.id) (self+1) self) s false s
      (freed self params) := by
  cases params with
  | nil => exact (freeBlock_gives none s).silent (Gives.emit.bind (Gives.emit.bind Gives.pure))
  | cons t rest =>
    exact (freeBlock_gives (some (self+2)) s).bind (Gives.emit.bind (Gives.emit.bind Gives.pure))

theorem define_prepared_accepts {ffi : Libffi} (s : Ctx) (self : Nat) {p : Prototype} {abi rtype : String}
    (found : find_ffi_type s.ffi_type_head (some rtype) = some p.rtype)
    (chosen : p.abi = find_abi ffi.compiled abi) (prepared : ffi.ffi_prep_cif p.cif = true) :
    Gives (define_prepared ffi (unprepared self p.name p.fp p.params) abi rtype) s true
      {s with function_list := nodeOf self p :: s.function_list} [.ffi_prep_cif p.cif true] := by
  have looked : Gives (Exec.read Ctx.ffi_type_head) s s.ffi_type_head s ([] : List Event) := Gives.read
  have cif : (⟨find_abi ffi.compiled abi,(unprepared self p.name p.fp p.params).nargs,p.rtype,
      (unprepared self p.name p.fp p.params).types⟩ : ffi_cif) = p.cif := by
    rw [unprepared_types,← chosen]; rfl
  unfold define_prepared
  refine looked.silent ?_
  simp only [found,cif,prepared]
  exact Gives.emit.bind (Gives.update.silent Gives.pure)

theorem define_prepared_refuses (ffi : Libffi) (s : Ctx) (self : Nat) (abi rtype name : String)
    (fp : CodePointer) (params : List ffi_type)
    (refused : ∀ t, find_ffi_type s.ffi_type_head (some rtype) = some t →
      ffi.ffi_prep_cif (Prototype.cif ⟨name,fp,find_abi ffi.compiled abi,t,params⟩) = false) :
    ∃ reason, (∀ e ∈ reason, e.quiet = true) ∧
      Gives (define_prepared ffi (unprepared self name fp params) abi rtype) s false s
        (reason++freed self params) := by
  have looked : Gives (Exec.read Ctx.ffi_type_head) s s.ffi_type_head s ([] : List Event) := Gives.read
  have gone := define_error_gives self name fp params s
  unfold define_prepared
  cases found : find_ffi_type s.ffi_type_head (some rtype) with
  | none =>
    refine ⟨[.warn "define_function: no such return type"],by simp [Event.quiet],looked.silent ?_⟩
    simp only [found]
    exact Gives.emit.bind gone
  | some t =>
    have failed := refused t found
    refine ⟨[.ffi_prep_cif (Prototype.cif ⟨name,fp,find_abi ffi.compiled abi,t,params⟩) false,
      .warn "define_function: ffi_prep_cif failed"],by simp [Event.quiet],looked.silent ?_⟩
    have cif : (⟨find_abi ffi.compiled abi,(unprepared self name fp params).nargs,t,
        (unprepared self name fp params).types⟩ : ffi_cif) =
        Prototype.cif ⟨name,fp,find_abi ffi.compiled abi,t,params⟩ := by
      rw [unprepared_types]; rfl
    simp only [found,cif,failed]
    exact Gives.emit.bind (Gives.emit.bind gone)

theorem declared_some {ffi : Libffi} (made : declared ffi head name fp abi rtype names = some p) :
    p.name = name ∧ p.fp = codeOf fp ∧ p.abi = find_abi ffi.compiled abi ∧
      knownTypes head names = some p.params ∧ find_ffi_type head (some rtype) = some p.rtype ∧
      ffi.ffi_prep_cif p.cif = true := by
  simp only [declared,Option.bind_eq_bind,Option.bind_eq_some_iff] at made
  obtain ⟨params,known,t,found,chosen⟩ := made
  split at chosen
  · rename_i prepared
    cases chosen
    exact ⟨rfl,rfl,rfl,known,found,prepared⟩
  · cases chosen

theorem declared_none {ffi : Libffi} (refused : declared ffi head name fp abi rtype names = none)
    (known : knownTypes head names = some params) (found : find_ffi_type head (some rtype) = some t) :
    ffi.ffi_prep_cif (Prototype.cif ⟨name,codeOf fp,find_abi ffi.compiled abi,t,params⟩) = false := by
  simp only [declared,known,found,Option.bind_eq_bind,Option.bind_some] at refused
  split at refused
  · cases refused
  · rename_i failed; simpa using failed

section Fresh
variable (ffi : Libffi) (name : String) (fp : Word) (abi rtype : Option CString)
  (convs : List (Option CString)) (tail : List (Option (Option CString))) (s : Ctx)

def abiText (abi : Option CString) : String := (abi.map CString.text).getD "default"
def rtypeText (rtype : Option CString) : String := (rtype.map CString.text).getD "void"
def namesOf (convs : List (Option CString)) : List String := (leading convs).map CString.text

theorem cells_leading : let args : CArray (Option CString) := ⟨convs.map some++some none :: tail⟩
    ∀ i (inside : i < (([] : List CString)++leading convs).length),
      args.cells[i]? = some (some (some (([] : List CString)++leading convs)[i])) := by
  intro args i inside
  have short : i < convs.length := Nat.lt_of_lt_of_le inside (leading_le convs)
  have held := leading_get convs inside
  simp only [List.nil_append]
  rw [List.getElem?_append_left (by simpa using short),List.getElem?_map,held]
  rfl

theorem second_malloc : Gives malloc (s.bump 1 false) (s.fresh+1) (s.bump 2 false) [.malloc (s.fresh+1)] := by
  simpa using malloc_gives (s.bump 1 false)

theorem third_malloc : Gives malloc (s.bump 2 false) (s.fresh+2) (s.bump 3 false) [.malloc (s.fresh+2)] := by
  simpa using malloc_gives (s.bump 2 false)

theorem define_fresh_reaches {params : List ffi_type} (known : knownTypes s.ffi_type_head (namesOf convs) = some params)
    (last : Gives (define_prepared ffi (unprepared s.fresh name (codeOf fp) params) (abiText abi) (rtypeText rtype))
      (s.bump (blockCount (namesOf convs)) false) b t log) :
    Gives (define_fresh ffi name fp abi rtype (some ⟨convs.map some++some none :: tail⟩)) s b t
      (allocated s.fresh (namesOf convs)++log) := by
  have counted := countArgs_gives convs tail (s.bump 2 false)
  cases shape : leading convs with
  | nil =>
    have names : namesOf convs = [] := by simp [namesOf,shape]
    have empty : params = [] := by simpa [names,knownTypes] using known.symm
    rw [shape] at counted
    rw [empty,names] at last
    rw [names,allocated_nil]
    exact (malloc_gives s).bind ((second_malloc s).bind (counted.silent last))
  | cons c rest =>
    have names : namesOf convs = c.text :: rest.map CString.text := by simp [namesOf,shape]
    have types := define_args_gives ⟨convs.map some++some none :: tail⟩ (s.bump 3 false) [] (leading convs) [] rfl
      (cells_leading convs tail)
    have length : params.length = rest.length+1 := by
      rw [knownTypes_length known,names]
      simp
    have present : params ≠ [] := by
      intro empty
      rw [empty] at length
      cases length
    have node : unprepared s.fresh name (codeOf fp) params =
        ⟨s.fresh,⟨s.fresh+1,name⟩,codeOf fp,rest.length+1,none,some ⟨s.fresh+2,⟨params.map some⟩⟩,.void⟩ := by
      simp [unprepared,present,length]
    rw [shape] at counted types
    simp only [Ctx.bump_types,List.map_cons,← names,known,List.nil_append] at types
    rw [node,names] at last
    rw [names,allocated_cons]
    exact (malloc_gives s).bind ((second_malloc s).bind (counted.silent ((third_malloc s).bind (types.silent last))))

theorem define_fresh_unknown (unknown : knownTypes s.ffi_type_head (namesOf convs) = none) :
    Gives (define_fresh ffi name fp abi rtype (some ⟨convs.map some++some none :: tail⟩)) s false
      (s.bump (blockCount (namesOf convs)) false)
      (allocated s.fresh (namesOf convs)++([.warn "define_function: no such type"]++freed s.fresh (namesOf convs))) := by
  have counted := countArgs_gives convs tail (s.bump 2 false)
  cases shape : leading convs with
  | nil =>
    have names : namesOf convs = [] := by simp [namesOf,shape]
    rw [names] at unknown
    cases unknown
  | cons c rest =>
    have names : namesOf convs = c.text :: rest.map CString.text := by simp [namesOf,shape]
    have types := define_args_gives ⟨convs.map some++some none :: tail⟩ (s.bump 3 false) [] (leading convs) [] rfl
      (cells_leading convs tail)
    rw [shape] at counted types
    simp only [Ctx.bump_types,List.map_cons,← names,unknown] at types
    obtain ⟨x,ran⟩ := types
    rw [names,allocated_cons]
    refine (malloc_gives s).bind ((second_malloc s).bind (counted.silent ((third_malloc s).bind (ran.bind ?_))))
    exact Gives.emit.bind (Gives.emit.bind (Gives.emit.bind Gives.pure))

theorem define_fresh_gives :
    let args : CArray (Option CString) := ⟨convs.map some++some none :: tail⟩
    match declared ffi s.ffi_type_head name fp (abiText abi) (rtypeText rtype) (namesOf convs) with
    | some p => Gives (define_fresh ffi name fp abi rtype (some args)) s true
        {s.bump (blockCount (namesOf convs)) false with function_list := nodeOf s.fresh p :: s.function_list}
        (allocated s.fresh (namesOf convs)++[.ffi_prep_cif p.cif true])
    | none => ∃ reason, (∀ e ∈ reason, e.quiet = true) ∧
        Gives (define_fresh ffi name fp abi rtype (some args)) s false
          (s.bump (blockCount (namesOf convs)) false)
          (allocated s.fresh (namesOf convs)++(reason++freed s.fresh (namesOf convs))) := by
  intro args
  let u := s.bump (blockCount (namesOf convs)) false
  cases known : knownTypes s.ffi_type_head (namesOf convs) with
  | none =>
    have refused : declared ffi s.ffi_type_head name fp (abiText abi) (rtypeText rtype) (namesOf convs) = none := by
      simp [declared,known]
    rw [refused]
    exact ⟨_,by simp [Event.quiet],define_fresh_unknown ffi name fp abi rtype convs tail s known⟩
  | some params =>
    cases made : declared ffi s.ffi_type_head name fp (abiText abi) (rtypeText rtype) (namesOf convs) with
    | some p =>
      obtain ⟨sameName,sameFp,chosen,recorded,found,prepared⟩ := declared_some made
      have same : p.params = params := Option.some.inj (recorded.symm.trans known)
      have last := define_prepared_accepts u s.fresh found chosen prepared
      rw [sameName,sameFp,same] at last
      exact define_fresh_reaches ffi name fp abi rtype convs tail s known last
    | none =>
      obtain ⟨reason,quiet,last⟩ := define_prepared_refuses ffi u s.fresh
        (abiText abi) (rtypeText rtype) name (codeOf fp) params (fun t found => declared_none made known found)
      have length := knownTypes_length known
      have same : freed s.fresh params = freed s.fresh (namesOf convs) := by
        cases params <;> cases names : namesOf convs <;> simp [names,freed] at length ⊢
      rw [same] at last
      exact ⟨reason,quiet,define_fresh_reaches ffi name fp abi rtype convs tail s known last⟩
end Fresh

def functionOutcome (ffi : Libffi) (s : Ctx) (name : String) (fp : Word) (abi rtype : String)
    (names : List String) : Bool × Option Prototype :=
  if (find (fun f => f.name.contents) s.function_list name).isSome then (true,none)
  else
    let made := declared ffi s.ffi_type_head name fp abi rtype names
    (made.isSome,made)

def defined (s : Ctx) (handles : Nat) (raised : Bool) (self : Nat) (made : Option Prototype) : Ctx :=
  {s.bump handles raised with function_list := (made.map (nodeOf self)).toList++s.function_list}

theorem defined_none (s : Ctx) (n : Nat) (raised : Bool) (self : Nat) : defined s n raised self none = s.bump n raised := rfl

theorem quiet_custody {log : List Event} (quiet : ∀ e ∈ log, e.quiet = true) :
    (strings.taken log = [] ∧ strings.returned log = []) ∧ blocks.taken log = [] ∧ blocks.returned log = [] := by
  induction log with
  | nil => exact ⟨⟨rfl,rfl⟩,rfl,rfl⟩
  | cons e rest ih =>
    obtain ⟨⟨one,two⟩,three,four⟩ := ih (fun x member => quiet x (List.mem_cons_of_mem _ member))
    have first := quiet e List.mem_cons_self
    cases e <;> simp only [Event.quiet,Bool.false_eq_true] at first <;> exact ⟨⟨one,two⟩,three,four⟩

theorem allocated_custody (self : Nat) (names : List α) :
    (strings.taken (allocated self names) = [] ∧ strings.returned (allocated self names) = []) ∧
      blocks.taken (allocated self names) = List.range' self (blockCount names) ∧
      blocks.returned (allocated self names) = [] := by
  cases names with
  | nil => simp [strings,blocks,Custody.taken,Custody.returned,blockCount,List.range']
  | cons name rest => simp [strings,blocks,Custody.taken,Custody.returned,blockCount,List.range']

theorem freed_custody (self : Nat) (names : List α) :
    (strings.taken (freed self names) = [] ∧ strings.returned (freed self names) = []) ∧
      blocks.taken (freed self names) = [] ∧
      (blocks.returned (freed self names)).Perm (List.range' self (blockCount names)) := by
  cases names with
  | nil =>
    refine ⟨⟨rfl,rfl⟩,rfl,?_⟩
    simpa [freed,blocks,Custody.returned,blockCount,List.range'] using List.Perm.swap self (self+1) []
  | cons name rest =>
    refine ⟨⟨rfl,rfl⟩,rfl,?_⟩
    have back : ([self+2,self+1,self] : List Nat).Perm [self,self+1,self+2] := by
      simpa using List.reverse_perm [self,self+1,self+2]
    simpa [freed,blocks,Custody.returned,blockCount,List.range'] using back

structure NodeTrace (base handles : Nat) (made : Option Prototype) (log : List Event) : Prop where
  calm : strings.taken log = [] ∧ strings.returned log = []
  last : ∀ p, made = some p → blockCount p.params ≤ handles
  within : ∀ id ∈ blocks.taken log, base ≤ id ∧ id < base+handles
  kept : ∀ p, made = some p → blocks.taken log = List.range' base (blockCount p.params) ∧ blocks.returned log = []
  dropped : made = none → blocks.Balanced log
  prepared : ∀ p, made = some p → .ffi_prep_cif p.cif true ∈ log
  silent : ∀ request, .ffi_call request ∉ log

theorem known_blockCount (known : knownTypes head names = some params) : blockCount params = blockCount names := by
  have length := knownTypes_length known
  cases params <;> cases names <;> simp [blockCount] at length ⊢

theorem quiet_silent {log : List Event} (quiet : ∀ e ∈ log, e.quiet = true) (request : Request) :
    .ffi_call request ∉ log := by
  intro member
  have := quiet _ member
  simp [Event.quiet] at this

theorem allocated_silent (self : Nat) (names : List α) (request : Request) :
    .ffi_call request ∉ allocated self names := by cases names <;> simp

theorem freed_silent (self : Nat) (names : List α) (request : Request) :
    .ffi_call request ∉ freed self names := by cases names <;> simp [freed]

theorem accepted_trace (self : Nat) (names : List String) (p : Prototype)
    (same : blockCount p.params = blockCount names) :
    NodeTrace self (blockCount names) (some p) (allocated self names++[.ffi_prep_cif p.cif true]) := by
  obtain ⟨calm,taken,returned⟩ := allocated_custody self names
  have rest : ∀ e ∈ ([.ffi_prep_cif p.cif true] : List Event), e.quiet = true := by simp [Event.quiet]
  obtain ⟨calmRest,takenRest,returnedRest⟩ := quiet_custody rest
  refine ⟨?_,?_,?_,?_,by simp,?_,?_⟩
  · simp [calm,calmRest]
  · intro q equal; cases equal; exact Nat.le_of_eq same
  · intro id member
    simpa [taken,takenRest] using member
  · intro q equal; cases equal
    simp [taken,returned,takenRest,returnedRest,same]
  · intro q equal; cases equal; simp
  · intro request member
    rcases List.mem_append.mp member with early | late
    · exact allocated_silent _ _ _ early
    · exact quiet_silent rest _ late

theorem refused_trace (self : Nat) (names : List String) (reason : List Event)
    (quiet : ∀ e ∈ reason, e.quiet = true) :
    NodeTrace self (blockCount names) none (allocated self names++(reason++freed self names)) := by
  obtain ⟨calm,taken,returned⟩ := allocated_custody self names
  obtain ⟨calmReason,takenReason,returnedReason⟩ := quiet_custody quiet
  obtain ⟨calmFreed,takenFreed,returnedFreed⟩ := freed_custody self names
  refine ⟨?_,by simp,?_,by simp,?_,by simp,?_⟩
  · simp [calm,calmReason,calmFreed]
  · intro id member
    simpa [taken,takenReason,takenFreed] using member
  · intro _
    constructor
    · simpa [taken,takenReason,takenFreed] using List.nodup_range'
    · simpa [taken,takenReason,takenFreed,returned,returnedReason] using returnedFreed
  · intro request member
    rcases List.mem_append.mp member with early | late
    · exact allocated_silent _ _ _ early
    · rcases List.mem_append.mp late with middle | last
      · exact quiet_silent quiet _ middle
      · exact freed_silent _ _ _ last

theorem define_function_gives (ffi : Libffi) (name : CString) (fp : Word) (abi rtype : Option CString)
    (convs : List (Option CString)) (tail : List (Option (Option CString))) (s : Ctx) :
    let outcome := functionOutcome ffi s name.text fp (abiText abi) (rtypeText rtype) (namesOf convs)
    ∃ handles log, Gives (define_function ffi (some name) fp abi rtype (some ⟨convs.map some++some none :: tail⟩)) s
        outcome.1 (defined s handles false s.fresh outcome.2) log ∧
      NodeTrace s.fresh handles outcome.2 log := by
  have looked : Gives (Exec.read Ctx.function_list) s s.function_list s ([] : List Event) := Gives.read
  have fresh := define_fresh_gives ffi name.text fp abi rtype convs tail s
  unfold functionOutcome define_function
  by_cases known : (find (fun f => f.name.contents) s.function_list name.text).isSome = true
  · simp only [known,if_true]
    refine ⟨0,[],looked.silent ?_,by simp [strings,Custody.taken,Custody.returned],by simp,
      by simp [blocks,Custody.taken],by simp,?_,by simp,by simp⟩
    · simp only [known,if_true,defined_none,Ctx.bump_zero]
      exact Gives.pure
    · intro _; simp [Custody.Balanced,blocks,Custody.taken,Custody.returned]
  · simp only [known]
    cases made : declared ffi s.ffi_type_head name.text fp (abiText abi) (rtypeText rtype) (namesOf convs) with
    | some p =>
      rw [made] at fresh
      refine ⟨_,_,looked.silent ?_,accepted_trace s.fresh (namesOf convs) p ?_⟩
      · simp only [known]
        exact fresh
      · exact known_blockCount (declared_some made).2.2.2.1
    | none =>
      rw [made] at fresh
      obtain ⟨reason,quiet,ran⟩ := fresh
      refine ⟨_,_,looked.silent ?_,refused_trace s.fresh (namesOf convs) reason quiet⟩
      simp only [known]
      exact ran

end QjsFfi
