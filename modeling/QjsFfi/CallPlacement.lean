import QjsFfi.CallConversions

namespace QjsFfi
open BinaryFloat Activation Histories Numerals

def wordOf : Carried → Word
  | .integral v => v
  | .floating v => longLongOf v.datum

-- What call_function leaves for libffi to read at ptrs[i].
def placed : ffi_type → Carried → argument
  | .float,.integral v => .f (.ofInt binary32 v.toInt)
  | .float,.floating v => .f (v.convert binary32)
  | .double,.integral v => .d (.ofInt binary64 v.toInt)
  | .double,.floating v => .d (v.convert binary64)
  | .longdouble,.integral v => .ld (.ofInt extended80 v.toInt)
  | .longdouble,.floating v => .ld v
  | .pointer,c => .p (wordOf c)
  | _,c => .ll (wordOf c)

def delivered : ffi_type → Carried → FfiValue
  | .void,_ => .void
  | .float,.integral v => .float (.ofInt binary32 v.toInt)
  | .float,.floating v => .float (v.convert binary32)
  | .double,.integral v => .double (.ofInt binary64 v.toInt)
  | .double,.floating v => .double (v.convert binary64)
  | .longdouble,.integral v => .longdouble (.ofInt extended80 v.toInt)
  | .longdouble,.floating v => .longdouble v
  | .pointer,c => .pointer (wordOf c)
  | .sint8,c | .uint8,c => .integral 8 ((wordOf c).setWidth 8)
  | .sint16,c | .uint16,c => .integral 16 ((wordOf c).setWidth 16)
  | .sint32,c | .uint32,c => .integral 32 ((wordOf c).setWidth 32)
  | .sint64,c | .uint64,c => .integral 64 ((wordOf c).setWidth 64)

theorem narrow_read (v : Word) (inside : k ≤ 8) (width : 256^k = 2^w) :
    BitVec.ofNat w (value ((bytes 8 v.toNat).take k)) = v.setWidth w := by
  apply BitVec.eq_of_toNat_eq
  rw [value_take inside,width]
  simp

theorem libffi_load_gives (t : ffi_type) (c : Carried) (s : Ctx) :
    Gives (libffi_load t (placed t c)) s (delivered t c) s [] := by
  cases t with
  | void => exact Gives.pure
  | float => cases c <;> exact Gives.silent Gives.pure Gives.pure
  | double => cases c <;> exact Gives.silent Gives.pure Gives.pure
  | longdouble => cases c <;> exact Gives.silent Gives.pure Gives.pure
  | pointer => exact Gives.silent Gives.pure Gives.pure
  | sint8 | uint8 =>
    simp only [delivered,← narrow_read (wordOf c) (k := 1) (w := 8) (by decide) (by decide)]
    exact Gives.silent Gives.pure Gives.pure
  | sint16 | uint16 =>
    simp only [delivered,← narrow_read (wordOf c) (k := 2) (w := 16) (by decide) (by decide)]
    exact Gives.silent Gives.pure Gives.pure
  | sint32 | uint32 =>
    simp only [delivered,← narrow_read (wordOf c) (k := 4) (w := 32) (by decide) (by decide)]
    exact Gives.silent Gives.pure Gives.pure
  | sint64 | uint64 =>
    simp only [delivered,← narrow_read (wordOf c) (k := 8) (w := 64) (by decide) (by decide)]
    exact Gives.silent Gives.pure Gives.pure

structure Initialised (n i : Nat) (x : CallVars) : Prop where
  ptrs : x.ptrs.size = n
  pointer_list : x.pointer_list.size = n
  arguments : x.arguments.size = n
  pl : x.pl = 0
  cells : ∀ j, j < i → x.ptrs.cells[j]? = some (some (.arguments j))

theorem init_argument_gives (inside : i < n) (x : CallVars) (done : Initialised n i x) (s : Ctx) :
    ∃ y, Gives (init_argument i x) s (true,y) s [] ∧ Initialised n (i+1) y := by
  obtain ⟨ptrs,pointer_list,arguments,pl,cells⟩ := done
  refine ⟨_,(CArray.set_gives (arguments ▸ inside)).silent ((CArray.set_gives (pointer_list ▸ inside)).silent
    ((CArray.set_gives (ptrs ▸ inside)).silent Gives.pure)),⟨?_,?_,?_,pl,?_⟩⟩
  · simpa [CArray.size] using ptrs
  · simpa [CArray.size] using pointer_list
  · simpa [CArray.size] using arguments
  · intro j below
    by_cases same : j = i
    · subst same
      have : j < x.ptrs.cells.length := by unfold CArray.size at ptrs; omega
      simp [this]
    · rw [List.getElem?_set_ne (Ne.symm same)]
      exact cells j (by omega)

theorem init_loop (n : Nat) (s : Ctx) :
    ∃ x, Gives (loop init_argument n 0 (CallVars.alloc n)) s (true,x) s [] ∧ Initialised n n x := by
  have start : Initialised n 0 (CallVars.alloc n) := ⟨by simp [CallVars.alloc],by simp [CallVars.alloc],
    by simp [CallVars.alloc],rfl,by simp⟩
  obtain ⟨x,ran,done⟩ := loop_silent (Initialised n) n 0
    (fun i x _ below held => init_argument_gives (by omega) x held s) start
  exact ⟨x,ran,by simpa using done⟩

def Reaches (x : CallVars) (cell : Cell) (j : Nat) (a : argument) : Prop :=
  match cell with
  | .arguments k => k = j ∧ x.arguments.cells[j]? = some (some a)
  | .pointer_list k => k < x.pl ∧ ∃ p, x.pointer_list.cells[k]? = some (some p) ∧ a = .p p

-- The loop invariant of the argument loop: the earlier parameters are in place,
-- the packed pointers are counted by pl, and the later ones still point at
-- their own cell.
structure Placing (types : List ffi_type) (arg : Nat → Carried) (i : Nat) (x : CallVars) : Prop where
  ptrs : x.ptrs.size = types.length
  pointer_list : x.pointer_list.size = types.length
  arguments : x.arguments.size = types.length
  packed : x.pl ≤ i
  earlier : ∀ j t, j < i → types[j]? = some t →
    ∃ cell, x.ptrs.cells[j]? = some (some cell) ∧ Reaches x cell j (placed t (arg j))
  later : ∀ j, i ≤ j → j < types.length → x.ptrs.cells[j]? = some (some (.arguments j))

theorem placing_start (done : Initialised types.length types.length x) (arg : Nat → Carried) :
    Placing types arg 0 x :=
  ⟨done.ptrs,done.pointer_list,done.arguments,Nat.le_of_eq done.pl,by simp,fun j _ below => done.cells j below⟩

theorem placing_store (inv : Placing types arg i x) (named : types[i]? = some t)
    (own : placed t (arg i) = a) (s : Ctx) :
    ∃ y, Gives (x.store i a) s (true,y) s [] ∧ Placing types arg (i+1) y := by
  have inside : i < types.length := (List.getElem?_eq_some_iff.mp named).1
  have room : i < x.arguments.cells.length := by have := inv.arguments; unfold CArray.size at this; omega
  refine ⟨_,(CArray.set_gives (inv.arguments ▸ inside)).silent Gives.pure,⟨inv.ptrs,inv.pointer_list,?_,?_,?_,?_⟩⟩
  · simpa [CArray.size] using inv.arguments
  · exact Nat.le_succ_of_le inv.packed
  · intro j u below known
    by_cases same : j = i
    · subst same
      have equal : u = t := Option.some.inj (known.symm.trans named)
      subst equal
      exact ⟨.arguments j,inv.later j (Nat.le_refl _) inside,rfl,by simp [room,own]⟩
    · obtain ⟨cell,held,reaches⟩ := inv.earlier j u (by omega) known
      refine ⟨cell,held,?_⟩
      cases cell with
      | arguments k =>
        refine ⟨reaches.1,?_⟩
        rw [List.getElem?_set_ne (Ne.symm same)]
        exact reaches.2
      | pointer_list k => exact reaches
  · intro j above below
    exact inv.later j (by omega) below

theorem placing_storePointer (inv : Placing types arg i x) (named : types[i]? = some t)
    (own : placed t (arg i) = .p p) (s : Ctx) :
    ∃ y, Gives (x.storePointer i p) s (true,y) s [] ∧ Placing types arg (i+1) y := by
  have inside : i < types.length := (List.getElem?_eq_some_iff.mp named).1
  have packed := inv.packed
  have slot : x.pl < x.pointer_list.cells.length := by
    have := inv.pointer_list; unfold CArray.size at this; omega
  have room : i < x.ptrs.cells.length := by have := inv.ptrs; unfold CArray.size at this; omega
  refine ⟨_,(CArray.set_gives slot).silent ((CArray.set_gives room).silent Gives.pure),⟨?_,?_,inv.arguments,?_,?_,?_⟩⟩
  · simpa [CArray.size] using inv.ptrs
  · simpa [CArray.size] using inv.pointer_list
  · exact Nat.succ_le_succ packed
  · intro j u below known
    by_cases same : j = i
    · subst same
      have equal : u = t := Option.some.inj (known.symm.trans named)
      subst equal
      refine ⟨.pointer_list x.pl,by simp [room],Nat.lt_succ_self _,p,by simp [slot],own⟩
    · obtain ⟨cell,held,reaches⟩ := inv.earlier j u (by omega) known
      refine ⟨cell,by rw [List.getElem?_set_ne (Ne.symm same)]; exact held,?_⟩
      cases cell with
      | arguments k => exact reaches
      | pointer_list k =>
        -- An older slot lies below pl, so the new pointer does not overwrite it.
        obtain ⟨older,q,stored,value⟩ := reaches
        refine ⟨Nat.lt_succ_of_lt older,q,?_,value⟩
        rw [List.getElem?_set_ne (by omega)]
        exact stored
  · intro j above below
    rw [List.getElem?_set_ne (by omega)]
    exact inv.later j (by omega) below

theorem place_argument_gives (inv : Placing types arg i x) (named : types[i]? = some t)
    (args : CArray typed_argument) (given : args.cells[i]? = some (some (arg i).typed)) (s : Ctx) :
    ∃ y, Gives (place_argument ⟨types.map some⟩ args i x) s (true,y) s [] ∧ Placing types arg (i+1) y := by
  have declared : (⟨types.map some⟩ : CArray ffi_type).cells[i]? = some (some t) := by simp [named]
  have store : ∀ a, placed t (arg i) = a →
      ∃ y, Gives (x.store i a) s (true,y) s [] ∧ Placing types arg (i+1) y :=
    fun a own => placing_store inv named own s
  have storePointer : ∀ p, placed t (arg i) = .p p →
      ∃ y, Gives (x.storePointer i p) s (true,y) s [] ∧ Placing types arg (i+1) y :=
    fun p own => placing_storePointer inv named own s
  unfold place_argument
  cases carried : arg i with
  | integral v =>
    rw [carried] at given store storePointer
    have chosen : ∃ y, Gives (if t = .float then x.store i (.f (.ofInt binary32 v.toInt))
        else if t = .double then x.store i (.d (.ofInt binary64 v.toInt))
        else if t = .longdouble then x.store i (.ld (.ofInt extended80 v.toInt))
        else if t = .pointer then x.storePointer i v
        else x.store i (.ll v)) s (true,y) s [] ∧ Placing types arg (i+1) y := by
      cases t <;> first | exact store _ rfl | exact storePointer _ rfl
    obtain ⟨y,ran,next⟩ := chosen
    exact ⟨y,(CArray.get_gives given).silent ((CArray.get_gives declared).silent (Gives.pure.silent ran)),next⟩
  | floating v =>
    rw [carried] at given store storePointer
    have chosen : ∃ y, Gives (if t = .float then x.store i (.f (v.convert binary32))
        else if t = .double then x.store i (.d (v.convert binary64))
        else if t = .longdouble then x.store i (.ld v)
        else if t = .pointer then x.storePointer i (longLongOf v.datum)
        else x.store i (.ll (longLongOf v.datum))) s (true,y) s [] ∧ Placing types arg (i+1) y := by
      cases t <;> first | exact store _ rfl | exact storePointer _ rfl
    obtain ⟨y,ran,next⟩ := chosen
    exact ⟨y,(CArray.get_gives given).silent ((CArray.get_gives declared).silent (Gives.pure.silent ran)),next⟩

theorem place_loop (types : List ffi_type) (arg : Nat → Carried) (args : CArray typed_argument)
    (given : ∀ i, i < types.length → args.cells[i]? = some (some (arg i).typed))
    (start : Placing types arg 0 x) (s : Ctx) (k : Nat) (turns : k ≤ types.length) :
    ∃ y, Gives (loop (place_argument ⟨types.map some⟩ args) k 0 x) s (true,y) s [] ∧ Placing types arg k y := by
  obtain ⟨y,ran,done⟩ := loop_silent (Placing types arg) k 0
    (fun i x _ below held => place_argument_gives held (List.getElem?_eq_getElem (by omega)) args
      (given i (by omega)) s) start
  exact ⟨y,ran,by simpa using done⟩

theorem at_gives (x : CallVars) (reaches : Reaches x cell j a) (s : Ctx) : Gives (x.at cell) s a s [] := by
  cases cell with
  | arguments k =>
    obtain ⟨rfl,held⟩ := reaches
    exact CArray.get_gives held
  | pointer_list k =>
    obtain ⟨_,p,held,rfl⟩ := reaches
    exact (CArray.get_gives held).silent Gives.pure

theorem libffi_values_gives (types : List ffi_type) (arg : Nat → Carried)
    (done : Placing types arg types.length x) (s : Ctx) (count start : Nat)
    (rest : start+count = types.length) :
    Gives (libffi_values ⟨types.map some⟩ x count start) s
      ((List.range' start count).map (fun i => delivered (types[i]?.getD .void) (arg i))) s [] := by
  induction count generalizing start with
  | zero => exact Gives.pure
  | succ count ih =>
    have inside : start < types.length := by omega
    have named : types[start]? = some types[start] := List.getElem?_eq_getElem inside
    have declared : (⟨types.map some⟩ : CArray ffi_type).cells[start]? = some (some types[start]) := by simp [inside]
    obtain ⟨cell,held,reaches⟩ := done.earlier start types[start] inside named
    have value := libffi_load_gives types[start] (arg start) s
    have more := ih (start+1) (by omega)
    rw [List.range'_succ,List.map_cons,named,Option.getD_some]
    exact (CArray.get_gives declared).silent ((CArray.get_gives held).silent
      ((at_gives x reaches s).silent (value.silent (more.silent Gives.pure))))

end QjsFfi
