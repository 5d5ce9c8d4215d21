import QjsFfi.Syscalls
import QjsFfi.DescriptorSets

namespace QjsFfi
open BinaryFloat Activation Histories

structure SetObject where
  set : fd_set
  data : Word
  present : data ≠ 0

def SetObject.argument (s : SetObject) : JSValueConst := (JSValue.arrayBuffer ⟨some s.data,s.set.bytes⟩).argument
def SetObject.buffer (s : SetObject) : LiveBuffer := ⟨s.data,s.set.bytes,s.present⟩

-- Math.max of what maxfd answers: undefined turns into NaN, and of no arguments it is -Infinity.
def MathMax (l : List (Option ℕ)) : Datum :=
  if none ∈ l then .nan
  else match (l.filterMap id).max? with
  | some m => .ofInt m
  | none => .infinite true

-- maxfd + 1
def increment : Datum → Datum
  | .finite negative q => let sum := (if negative then -q else q)+1; .finite (decide (sum < 0)) |sum|
  | other => other

-- [readfds, writefds, exceptfds].filter(s => s instanceof fd_set); each is null or an fd_set.
def givenSets (readfds writefds exceptfds : Option SetObject) : List SetObject := [readfds,writefds,exceptfds].filterMap id

def nfdsOf (sets : List SetObject) : Datum := increment (MathMax (sets.map (fun s => s.set.maxfd)))

def setArgument : Option SetObject → Passed
  | none => .null
  | some s => .buffer s.buffer

-- What select passes on; nfds is none when it is not a number.
def select (nfds : Option Datum) (readfds writefds exceptfds : Option SetObject) (timeout : Option LiveBuffer) : List Passed :=
  [.number (nfds.getD (nfdsOf (givenSets readfds writefds exceptfds))),setArgument readfds,setArgument writefds,
   setArgument exceptfds,(timeout.map Passed.buffer).getD .null]

-- The descriptors of the given sets, and the nfds they need: one more than the
-- greatest of them, or 0 when there is none.
def Requested (sets : List SetObject) (fd : ℕ) : Prop := ∃ s ∈ sets, Bitmaps.member s.set.bytes fd = true

inductive Needed (requested : ℕ → Prop) : ℕ → Prop where
  | none (empty : ∀ fd, ¬ requested fd) : Needed requested 0
  | greatest (own : requested fd) (top : ∀ other, requested other → other ≤ fd) : Needed requested (fd+1)

def SetObject.Inhabited (s : SetObject) : Prop := ∃ fd, Bitmaps.member s.set.bytes fd = true

theorem Needed.unique {requested : ℕ → Prop} (one : Needed requested n) (two : Needed requested k) : n = k := by
  cases one with
  | none empty =>
    cases two with
    | none => rfl
    | greatest own => exact absurd own (empty _)
  | greatest own top =>
    cases two with
    | none empty => exact absurd own (empty _)
    | greatest own' top' =>
      have below := top _ own'
      have above := top' _ own
      omega

theorem maxfd_some (s : fd_set) (fd : ℕ) :
    s.maxfd = some fd ↔ Bitmaps.member s.bytes fd = true ∧ ∀ other, Bitmaps.member s.bytes other = true → other ≤ fd := by
  rw [fd_set.maxfd,← List.getLast?_eq_getElem?,array_members,Bitmaps.sorted_last (Bitmaps.members_sorted s.bytes)]
  simp only [Bitmaps.mem_members]

theorem maxfd_none (s : SetObject) : s.set.maxfd = none ↔ ¬ s.Inhabited := by
  rw [fd_set.maxfd,← List.getLast?_eq_getElem?,List.getLast?_eq_none_iff,List.eq_nil_iff_forall_not_mem,array_members]
  simp only [Bitmaps.mem_members,SetObject.Inhabited,not_exists]

theorem requested_small {sets : List SetObject} (requested : Requested sets fd) : fd < FD_SETSIZE := by
  obtain ⟨s,_,member⟩ := requested
  have inside := Bitmaps.member_inside member
  have whole := s.set.whole
  unfold FD_SETSIZE at whole ⊢
  omega

theorem needed_small {sets : List SetObject} (needed : Needed (Requested sets) n) : n ≤ FD_SETSIZE := by
  cases needed with
  | none => exact Nat.zero_le _
  | greatest own => exact requested_small own

theorem needed_exists (sets : List SetObject) : ∃ n, Needed (Requested sets) n := by
  have listed : ∀ fd, fd ∈ sets.flatMap (fun s => s.set.array) ↔ Requested sets fd := by
    intro fd
    simp only [List.mem_flatMap,array_members,Bitmaps.mem_members,Requested]
  cases top : (sets.flatMap (fun s => s.set.array)).max? with
  | none =>
    rw [List.max?_eq_none_iff] at top
    refine ⟨0,.none ?_⟩
    intro fd requested
    have member := (listed fd).mpr requested
    rw [top] at member
    cases member
  | some m =>
    obtain ⟨member,greatest⟩ := List.max?_eq_some_iff.mp top
    exact ⟨m+1,.greatest ((listed m).mp member) (fun other requested => greatest other ((listed other).mpr requested))⟩

theorem MathMax_numbers {l : List (Option ℕ)} (numbers : none ∉ l) (given : l ≠ []) :
    ∃ m, some m ∈ l ∧ (∀ n, some n ∈ l → n ≤ m) ∧ MathMax l = .ofInt m := by
  have listed : ∀ n, n ∈ l.filterMap id ↔ some n ∈ l := by simp
  unfold MathMax
  rw [if_neg numbers]
  cases top : (l.filterMap id).max? with
  | none =>
    rw [List.max?_eq_none_iff] at top
    obtain ⟨x,member⟩ := List.exists_mem_of_ne_nil l given
    cases x with
    | none => exact absurd member numbers
    | some n =>
      have inside := (listed n).mpr member
      rw [top] at inside
      cases inside
  | some m =>
    obtain ⟨member,greatest⟩ := List.max?_eq_some_iff.mp top
    exact ⟨m,(listed m).mp member,fun n inside => greatest n ((listed n).mpr inside),rfl⟩

theorem increment_natural (m : ℕ) : increment (.ofInt m) = .ofInt ((m+1 : ℕ) : ℤ) := by
  have sign : ¬ (m : ℤ) < 0 := by omega
  have after : ¬ ((m+1 : ℕ) : ℤ) < 0 := by omega
  have positive : (0 : ℚ) ≤ (m : ℚ)+1 := by positivity
  simp only [increment,Datum.ofInt,sign,after,decide_false,Bool.false_eq_true,if_false,Int.natAbs_natCast]
  rw [abs_of_nonneg positive,decide_eq_false (not_lt.mpr positive)]
  push_cast
  rfl

theorem nfds_numbers {sets : List SetObject} (given : sets ≠ []) (inhabited : ∀ s ∈ sets, s.Inhabited)
    (needed : Needed (Requested sets) n) : nfdsOf sets = .ofInt n := by
  have numbers : none ∉ sets.map (fun s => s.set.maxfd) := by
    intro member
    obtain ⟨s,listed,missing⟩ := List.mem_map.mp member
    exact (maxfd_none s).mp missing (inhabited s listed)
  obtain ⟨m,listed,greatest,value⟩ := MathMax_numbers numbers (by simpa using given)
  have own : Needed (Requested sets) (m+1) := by
    obtain ⟨s,member,last⟩ := List.mem_map.mp listed
    refine .greatest ⟨s,member,((maxfd_some _ _).mp last).1⟩ ?_
    rintro other ⟨s',member',present⟩
    -- What another set holds is at most its own maxfd.
    cases last' : s'.set.maxfd with
    | none => exact absurd ⟨other,present⟩ ((maxfd_none s').mp last')
    | some k =>
      have below := ((maxfd_some _ _).mp last').2 other present
      have above := greatest k (last' ▸ List.mem_map_of_mem member')
      omega
  rw [nfdsOf,value,increment_natural,own.unique needed]

theorem nfds_nan {sets : List SetObject} (member : s ∈ sets) (empty : ¬ s.Inhabited) : nfdsOf sets = .nan := by
  have missing : none ∈ sets.map (fun s => s.set.maxfd) := List.mem_map.mpr ⟨s,member,(maxfd_none s).mpr empty⟩
  rw [nfdsOf,MathMax,if_pos missing]
  rfl

theorem nfds_nothing : nfdsOf [] = .infinite true := rfl

theorem nfds_shape (sets : List SetObject) : (∃ n, nfdsOf sets = .ofInt n) ∨ (nfdsOf sets).truncate = none := by
  by_cases nothing : sets.map (fun s => s.set.maxfd) = []
  · rw [List.map_eq_nil_iff.mp nothing,nfds_nothing]
    exact .inr rfl
  · by_cases open_ended : none ∈ sets.map (fun s => s.set.maxfd)
    · rw [nfdsOf,MathMax,if_pos open_ended]
      exact .inr rfl
    · obtain ⟨m,_,_,greatest⟩ := MathMax_numbers open_ended nothing
      exact .inl ⟨_,by rw [nfdsOf,greatest,increment_natural]⟩

theorem nfds_iff {sets : List SetObject} (needed : Needed (Requested sets) n) :
    nfdsOf sets = .ofInt n ↔ sets ≠ [] ∧ ∀ s ∈ sets, s.Inhabited := by
  constructor
  · intro right
    refine ⟨?_,?_⟩
    · rintro rfl
      rw [nfds_nothing] at right
      cases right
    · intro s member
      by_contra empty
      rw [nfds_nan member empty] at right
      cases right
  · intro ⟨given,inhabited⟩
    exact nfds_numbers given inhabited needed

section Read
variable {sets : List SetObject} {v : JSValueConst} (passed : Passed.Stands v (.number (nfdsOf sets)))
  (stands : Stands c (v.quantity.getD (.integer 0)))
include passed stands

theorem inhabited_read (needed : Needed (Requested sets) n) (inhabited : ∀ s ∈ sets, s.Inhabited) :
    ffi_type.sint32.reads (delivered .sint32 c) = some (n : ℤ) := by
  by_cases given : sets = []
  · subst given
    have zero : Needed (Requested []) 0 := .none (fun _ requested => by simp [Requested] at requested)
    rw [needed.unique zero]
    exact indefinite_read passed rfl stands
  · rw [nfds_numbers given inhabited needed] at passed
    have small := needed_small needed
    unfold FD_SETSIZE at small
    exact int_read passed (by omega) (by omega) stands

theorem empty_read (member : s ∈ sets) (empty : ¬ s.Inhabited) : ffi_type.sint32.reads (delivered .sint32 c) = some 0 := by
  rw [nfds_nan member empty] at passed
  exact indefinite_read passed rfl stands

-- The int made of the Number is right as well when no set has a member: NaN and -Infinity come to 0.
theorem nfds_read (needed : Needed (Requested sets) n) :
    ffi_type.sint32.reads (delivered .sint32 c) = some (n : ℤ) ↔ (∀ s ∈ sets, s.Inhabited) ∨ ∀ s ∈ sets, ¬ s.Inhabited := by
  constructor
  · intro right
    by_cases inhabited : ∀ s ∈ sets, s.Inhabited
    · exact .inl inhabited
    · obtain ⟨s,member,empty⟩ : ∃ s ∈ sets, ¬ s.Inhabited := by simpa using inhabited
      have zero := empty_read passed stands member empty
      rw [right] at zero
      have nothing : n = 0 := by exact_mod_cast Option.some.inj zero
      subst nothing
      cases needed with
      | none unrequested => exact .inr (fun s member ⟨fd,present⟩ => unrequested fd ⟨s,member,present⟩)
  · rintro (inhabited | nobody)
    · exact inhabited_read passed stands needed inhabited
    · cases sets with
      | nil => exact inhabited_read passed stands needed (by simp)
      | cons s rest =>
        have zero : Needed (Requested (s :: rest)) 0 := .none (fun fd ⟨s,member,present⟩ => nobody s member ⟨fd,present⟩)
        rw [needed.unique zero]
        exact empty_read passed stands List.mem_cons_self (nobody s List.mem_cons_self)

end Read

theorem select_types : Syscall.select ∈ syscall ∧
    knownTypes (define_types []) Syscall.select.args = some [.sint32,.pointer,.pointer,.pointer,.pointer] :=
  ⟨by decide,by decide +kernel⟩

theorem select_request {readfds writefds exceptfds : Option SetObject} {timeout : Option LiveBuffer} {vs : List JSValueConst}
    (reached : Reached history m) (loaded : Loaded history l .select)
    (passed : List.Forall₂ (fun p v => p.Stands v) (select none readfds writefds exceptfds timeout) vs)
    (needed : Needed (Requested (givenSets readfds writefds exceptfds)) n)
    (step : Step m ⟨.call ((l.closure .select).arguments vs),opening,r⟩ entered) :
    r = none ∧ ∃ request value, invocations opening = [request] ∧ request.values[0]? = some value ∧
      (l.symbol .select ≠ 0 → (l.symbol .select).toNat ≤ 2^53 → request.fp = .code (l.symbol .select)) ∧
      (ffi_type.sint32.reads value = some (n : ℤ) ↔ (∀ s ∈ givenSets readfds writefds exceptfds, s.Inhabited) ∨
        ∀ s ∈ givenSets readfds writefds exceptfds, ¬ s.Inhabited) := by
  obtain ⟨listed,types⟩ := select_types
  have few : vs.length ≤ MAX_PARAMETERS := by
    rw [← passed.length_eq]
    exact Nat.le_of_ble_eq_true rfl
  obtain ⟨returns,request,arg,one,values,carries,symbol⟩ :=
    loaded.calls reached listed types few (passed_convertible passed) step
  refine ⟨returns,request,delivered .sint32 (arg 0),one,?_,symbol,?_⟩
  · rw [values]
    rfl
  · rcases passed with _ | ⟨first,_⟩
    exact nfds_read first (carries 0 _ rfl) needed

theorem select_number {readfds writefds exceptfds : Option SetObject} {timeout : Option LiveBuffer} {vs : List JSValueConst}
    (passed : List.Forall₂ (fun p v => p.Stands v) (select none readfds writefds exceptfds timeout) vs)
    (needed : Needed (Requested (givenSets readfds writefds exceptfds)) n) (own : vs[0]? = some v) :
    v.value.datum = some (.ofInt n) ↔
      givenSets readfds writefds exceptfds ≠ [] ∧ ∀ s ∈ givenSets readfds writefds exceptfds, s.Inhabited := by
  rcases passed with _ | ⟨first,_⟩
  cases Option.some.inj own
  have number : v.value.datum = some (nfdsOf (givenSets readfds writefds exceptfds)) := first
  rw [number,Option.some.injEq]
  exact nfds_iff needed

-- The Number select passes is the one needed when every given set has a member and
-- there is a set; the int the native function gets is also right when none has one.
theorem select_covers {readfds writefds exceptfds : Option SetObject} {timeout : Option LiveBuffer} {vs : List JSValueConst}
    (reached : Reached history m) (loaded : Loaded history l .select)
    (passed : List.Forall₂ (fun p v => p.Stands v) (select none readfds writefds exceptfds timeout) vs) :
    ∃ n, Needed (Requested (givenSets readfds writefds exceptfds)) n ∧
      (∀ v, vs[0]? = some v → (v.value.datum = some (.ofInt n) ↔
        givenSets readfds writefds exceptfds ≠ [] ∧ ∀ s ∈ givenSets readfds writefds exceptfds, s.Inhabited)) ∧
      (∃ opening r entered, Step m ⟨.call ((l.closure .select).arguments vs),opening,r⟩ entered) ∧
      ∀ opening r entered, Step m ⟨.call ((l.closure .select).arguments vs),opening,r⟩ entered → r = none ∧
        ∃ request value, invocations opening = [request] ∧ request.values[0]? = some value ∧
          (l.symbol .select ≠ 0 → (l.symbol .select).toNat ≤ 2^53 → request.fp = .code (l.symbol .select)) ∧
          (ffi_type.sint32.reads value = some (n : ℤ) ↔ (∀ s ∈ givenSets readfds writefds exceptfds, s.Inhabited) ∨
            ∀ s ∈ givenSets readfds writefds exceptfds, ¬ s.Inhabited) := by
  obtain ⟨n,needed⟩ := needed_exists (givenSets readfds writefds exceptfds)
  refine ⟨n,needed,fun v own => select_number passed needed own,call_possible (sound_reached reached) _,?_⟩
  intro opening r entered step
  exact select_request reached loaded passed needed step

def selectPrototype : Prototype :=
  ⟨"select",.code 0x2000,.FFI_DEFAULT_ABI,.sint32,[.sint32,.pointer,.pointer,.pointer,.pointer]⟩
def selectMachine : Machine := ⟨⟨define_types [],[nodeOf 74 selectPrototype],false,77⟩,[]⟩

theorem select_foreign :
    ∃ log, Gives (foreign plainLoading .select) freshMachine.ctx (some (plainLoading.closure .select)) selectMachine.ctx log :=
  ⟨[.acquire 66 nameCopy,.release 66,.acquire 67 nameCopy,.acquire 68 nameCopy,.acquire 69 nameCopy,.acquire 70 nameCopy,
    .acquire 71 nameCopy,.acquire 72 nameCopy,.acquire 73 nameCopy,.malloc 74,.malloc 75,.malloc 76,
    .ffi_prep_cif selectPrototype.cif true,.release 67,.release 68,.release 69,.release 70,.release 71,.release 72,.release 73],
    by decide +kernel⟩

theorem select_loaded : ∃ history, Reached history selectMachine ∧ Loaded history plainLoading .select := by
  obtain ⟨log,ran⟩ := select_foreign
  obtain ⟨_,loading,reached,loaded⟩ := foreign_loads fresh_reached (by decide) rfl ran (by decide +kernel)
  exact ⟨_,reached,loaded⟩

def emptyObject : SetObject := ⟨fd_set.new,0x9000,by decide⟩
def fiveObject : SetObject := ⟨fd_set.new.assign 0 (setBit (some 5)),0x6000,by decide⟩
def nanArgument : JSValueConst := (JSValue.float64 ⟨.nan,trivial⟩).argument

theorem empty_uninhabited : ¬ emptyObject.Inhabited := by
  rintro ⟨fd,member⟩
  have unset : Bitmaps.member fd_set.new.bytes fd = false := Bitmaps.member_zero _ _
  exact absurd (member.symm.trans unset) (by decide)

theorem nan_passed {first second : SetObject} (empty : ¬ first.Inhabited) :
    List.Forall₂ (fun p v => p.Stands v) (select none (some first) (some second) none none)
      [nanArgument,first.argument,second.argument,nullArgument,nullArgument] := by
  have nan : nfdsOf (givenSets (some first) (some second) none) = .nan := nfds_nan (by simp [givenSets]) empty
  refine .cons ?_ (.cons rfl (.cons rfl (.cons rfl (.cons rfl .nil))))
  exact congrArg some nan.symm

def mixedArguments : List JSValueConst := [nanArgument,emptyObject.argument,fiveObject.argument,nullArgument,nullArgument]

theorem mixed_passed :
    List.Forall₂ (fun p v => p.Stands v) (select none (some emptyObject) (some fiveObject) none none) mixedArguments :=
  nan_passed empty_uninhabited

theorem five_needed : Needed (Requested (givenSets (some emptyObject) (some fiveObject) none)) 6 := by
  have written := Bitmaps.member_update (setBit_writes 5) (bit_within (show 5 < FD_SETSIZE by decide) fd_set.new)
  have fives : ∀ k, Bitmaps.member fiveObject.set.bytes k = true ↔ k = 5 := by
    intro k
    have same : Bitmaps.member fiveObject.set.bytes k = if k = 5 then true else Bitmaps.member fd_set.new.bytes k := written k
    rw [same,fd_set.new,Bitmaps.member_zero]
    split <;> simp_all
  refine .greatest ⟨fiveObject,by simp [givenSets],(fives 5).mpr rfl⟩ ?_
  rintro other ⟨s,member,present⟩
  have either : s = emptyObject ∨ s = fiveObject := by simpa [givenSets] using member
  rcases either with rfl | rfl
  · exact absurd ⟨other,present⟩ empty_uninhabited
  · exact Nat.le_of_eq ((fives other).mp present)

theorem six_missed : ¬ ((∀ s ∈ givenSets (some emptyObject) (some fiveObject) none, s.Inhabited) ∨
    ∀ s ∈ givenSets (some emptyObject) (some fiveObject) none, ¬ s.Inhabited) := by
  rintro (inhabited | nobody)
  · exact empty_uninhabited (inhabited emptyObject (by simp [givenSets]))
  · cases five_needed with
    | greatest own =>
      obtain ⟨s,member,present⟩ := own
      exact nobody s member ⟨_,present⟩

theorem select_covers_mixed : ∃ opening entered request value,
    Step selectMachine ⟨.call ((plainLoading.closure .select).arguments mixedArguments),opening,none⟩ entered ∧
      invocations opening = [request] ∧ request.values[0]? = some value ∧ ffi_type.sint32.reads value ≠ some 6 := by
  obtain ⟨history,reached,loaded⟩ := select_loaded
  obtain ⟨n,needed,_,⟨opening,r,entered,step⟩,calls⟩ := select_covers reached loaded mixed_passed
  obtain rfl : n = 6 := needed.unique five_needed
  obtain ⟨rfl,request,value,one,own,_,exactly⟩ := calls opening r entered step
  exact ⟨opening,entered,request,value,step,one,own,fun six => six_missed (exactly.mp six)⟩

-- Neither the Number nor the int is 6 for an empty set beside {5}.
theorem descriptor_uncovered : ¬ ∀ history m l readfds writefds exceptfds timeout vs n opening r entered,
    Reached history m → Loaded history l .select →
    List.Forall₂ (fun p v => Passed.Stands v p) (select none readfds writefds exceptfds timeout) vs →
    Needed (Requested (givenSets readfds writefds exceptfds)) n →
    Step m ⟨.call ((l.closure .select).arguments vs),opening,r⟩ entered →
    ∃ v request value, vs[0]? = some v ∧ invocations opening = [request] ∧ request.values[0]? = some value ∧
      (v.value.datum = some (.ofInt n) ∨ ffi_type.sint32.reads value = some (n : ℤ)) := by
  intro claimed
  obtain ⟨history,reached,loaded⟩ := select_loaded
  obtain ⟨opening,r,entered,step⟩ := call_possible (sound_reached reached) ((plainLoading.closure .select).arguments mixedArguments)
  obtain ⟨v,request,value,first,one,own,covered⟩ :=
    claimed _ _ _ _ _ _ _ _ _ _ _ _ reached loaded mixed_passed five_needed step
  obtain ⟨_,request',value',one',own',_,exactly⟩ := select_request reached loaded mixed_passed five_needed step
  obtain rfl : request = request' := by simpa [one] using one'
  obtain rfl : value = value' := Option.some.inj (own.symm.trans own')
  rcases covered with number | int
  · exact six_missed (.inl ((select_number mixed_passed five_needed first).mp number).2)
  · exact six_missed (exactly.mp int)

end QjsFfi
