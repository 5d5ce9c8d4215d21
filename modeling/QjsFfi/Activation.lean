import Mathlib.Data.List.Perm.Basic
import Mathlib.Data.List.Nodup

namespace Activation

-- What ends an activation whose next access the language gives no meaning.
inductive Fault where
  | outOfBounds
  | uninitialised
  | wrongMember
  | dangling
  deriving DecidableEq, Repr

-- One activation changes the shared state and leaves the ordered list of the
-- events it performed itself; a fault keeps neither.
def Exec (σ ε α : Type) := σ → Except Fault (α × σ × List ε)

namespace Exec

def bind (x : Exec σ ε α) (f : α → Exec σ ε β) : Exec σ ε β := fun s =>
  match x s with
  | .error fault => .error fault
  | .ok (a,t,log) => match f a t with
    | .error fault => .error fault
    | .ok (b,u,more) => .ok (b,u,log++more)

instance : Monad (Exec σ ε) where
  pure a := fun s => .ok (a,s,[])
  bind := bind

def fail (fault : Fault) : Exec σ ε α := fun _ => .error fault
def emit (event : ε) : Exec σ ε Unit := fun s => .ok ((),s,[event])
def read (f : σ → α) : Exec σ ε α := fun s => .ok (f s,s,[])
def update (f : σ → σ) : Exec σ ε Unit := fun s => .ok ((),f s,[])

end Exec

def Gives (x : Exec σ ε α) (s : σ) (a : α) (t : σ) (log : List ε) : Prop := x s = .ok (a,t,log)

instance [DecidableEq α] [DecidableEq σ] [DecidableEq ε] (x : Exec σ ε α) (s : σ) (a : α) (t : σ) (log : List ε) :
    Decidable (Gives x s a t log) :=
  match ran : x s with
  | .error _ => isFalse (by unfold Gives; rw [ran]; intro equal; cases equal)
  | .ok out => decidable_of_iff (out = (a,t,log)) (by unfold Gives; rw [ran,Except.ok.injEq])

namespace Gives

theorem pure : Gives (Pure.pure a : Exec σ ε α) s a s [] := rfl

theorem emit : Gives (Exec.emit event) s () s [event] := rfl

theorem read : Gives (Exec.read f : Exec σ ε α) s (f s) s [] := rfl

theorem update : Gives (Exec.update f : Exec σ ε Unit) s () (f s) [] := rfl

theorem bind {x : Exec σ ε α} {f : α → Exec σ ε β} (first : Gives x s a t log)
    (rest : Gives (f a) t b u more) : Gives (x >>= f) s b u (log++more) := by
  change Exec.bind x f s = _
  unfold Gives at first rest
  simp only [Exec.bind,first,rest]

theorem silent {x : Exec σ ε α} {f : α → Exec σ ε β} (first : Gives x s a t [])
    (rest : Gives (f a) t b u log) : Gives (x >>= f) s b u log := first.bind rest

theorem choice [Decidable c] : Gives (if c then Pure.pure a else Pure.pure b : Exec σ ε α) s (if c then a else b) s [] := by
  split <;> exact pure

theorem congr {x : Exec σ ε α} (ran : Gives x s a t log) (state : t = u) (events : log = more) :
    Gives x s a u more := by rwa [← state,← events]

theorem unbind {x : Exec σ ε α} {f : α → Exec σ ε β} (ran : Gives (x >>= f) s b u log) :
    ∃ a t first rest, Gives x s a t first ∧ Gives (f a) t b u rest ∧ log = first++rest := by
  change Exec.bind x f s = _ at ran
  unfold Exec.bind at ran
  cases first : x s with
  | error fault => simp [first] at ran
  | ok out =>
    obtain ⟨a,t,log⟩ := out
    simp only [first] at ran
    cases rest : f a t with
    | error fault => simp [rest] at ran
    | ok out =>
      obtain ⟨b,u,more⟩ := out
      simp only [rest,Except.ok.injEq,Prod.mk.injEq] at ran
      obtain ⟨rfl,rfl,rfl⟩ := ran
      exact ⟨a,t,log,more,first,rest,rfl⟩

theorem unique {x : Exec σ ε α} (one : Gives x s a t log) (two : Gives x s b u more) :
    a = b ∧ t = u ∧ log = more := by
  have same := one.symm.trans two
  simpa using same

end Gives

-- A C array of fixed size: every access is checked, and an element holds
-- nothing until it has been stored.
structure CArray (α : Type) where
  cells : List (Option α)
  deriving DecidableEq, Repr

namespace CArray

def alloc (size : Nat) : CArray α := ⟨List.replicate size none⟩
def size (x : CArray α) : Nat := x.cells.length

def get (x : CArray α) (i : Nat) : Exec σ ε α :=
  match x.cells[i]? with
  | none => .fail .outOfBounds
  | some none => .fail .uninitialised
  | some (some a) => pure a

def set (x : CArray α) (i : Nat) (a : α) : Exec σ ε (CArray α) :=
  if i < x.size then pure ⟨x.cells.set i (some a)⟩ else .fail .outOfBounds

@[simp] theorem alloc_size : (alloc n : CArray α).size = n := by simp [alloc,size]

theorem get_gives {x : CArray α} (held : x.cells[i]? = some (some a)) :
    Gives (x.get i : Exec σ ε α) s a s [] := by
  unfold get
  rw [held]
  exact Gives.pure

theorem set_gives {x : CArray α} (inside : i < x.size) :
    Gives (x.set i a : Exec σ ε (CArray α)) s ⟨x.cells.set i (some a)⟩ s [] := by
  unfold set
  rw [if_pos inside]
  exact Gives.pure

end CArray

-- for (i = start; i < start+count; ++i) with an exit by goto: the body says
-- whether it goes on.
def loop (body : Nat → β → Exec σ ε (Bool × β)) : Nat → Nat → β → Exec σ ε (Bool × β)
  | 0,_,x => pure (true,x)
  | count+1,i,x => do
    let (onward,y) ← body i x
    if onward then loop body count (i+1) y else pure (false,y)

theorem loop_silent {body : Nat → β → Exec σ ε (Bool × β)} (invariant : Nat → β → Prop)
    (count start : Nat)
    (kept : ∀ i x, start ≤ i → i < start+count → invariant i x →
      ∃ y, Gives (body i x) s (true,y) s [] ∧ invariant (i+1) y)
    (entered : invariant start x) :
    ∃ y, Gives (loop body count start x) s (true,y) s [] ∧ invariant (start+count) y := by
  induction count generalizing start x with
  | zero => exact ⟨x,Gives.pure,entered⟩
  | succ count ih =>
    obtain ⟨y,first,held⟩ := kept start x (Nat.le_refl _) (by omega) entered
    obtain ⟨z,rest,final⟩ := ih (start+1) (fun i x lower upper => kept i x (by omega) (by omega)) held
    refine ⟨z,first.silent rest,?_⟩
    rwa [show start+(count+1) = start+1+count by omega]

structure Custody (ε ι : Type) where
  takes : ε → Option ι
  returns : ε → Option ι

namespace Custody

def taken (c : Custody ε ι) (log : List ε) : List ι := log.filterMap c.takes
def returned (c : Custody ε ι) (log : List ε) : List ι := log.filterMap c.returns

-- No handle is handed out twice, and the handles given back are those, each once.
def Balanced (c : Custody ε ι) (log : List ε) : Prop :=
  (c.taken log).Nodup ∧ (c.returned log).Perm (c.taken log)

def Live (c : Custody ε ι) (log : List ε) (handle : ι) : Prop :=
  handle ∈ c.taken log ∧ handle ∉ c.returned log

@[simp] theorem taken_append (c : Custody ε ι) : c.taken (x++y) = c.taken x++c.taken y :=
  List.filterMap_append

@[simp] theorem returned_append (c : Custody ε ι) : c.returned (x++y) = c.returned x++c.returned y :=
  List.filterMap_append

theorem Balanced.around {c : Custody ε ι} (distinct : (c.taken first).Nodup) (opening : c.returned first = [])
    (calm : c.taken middle = [] ∧ c.returned middle = []) (closing : c.taken last = [])
    (back : (c.returned last).Perm (c.taken first)) : c.Balanced (first++middle++last) := by
  constructor
  · simpa [calm.1,closing] using distinct
  · simpa [opening,calm.1,calm.2,closing] using back

structure Accounts (c : Custody ε Nat) (next : Nat) (log : List ε) (owned : List Nat) : Prop where
  issued : ∀ handle ∈ c.taken log, handle < next
  distinct : (c.taken log).Nodup
  settled : (c.returned log++owned).Perm (c.taken log)

namespace Accounts

theorem start (c : Custody ε Nat) (next : Nat) : c.Accounts next [] [] := ⟨by simp [taken],by simp [taken],by simp [taken,returned]⟩

theorem extend {c : Custody ε Nat} (before : c.Accounts next log owned) (grown : next ≤ limit)
    (fresh : ∀ handle ∈ c.taken more, next ≤ handle ∧ handle < limit) (distinct : (c.taken more).Nodup)
    (settled : (c.returned more++left).Perm (owned++c.taken more)) : c.Accounts limit (log++more) left := by
  refine ⟨?_,?_,?_⟩
  · intro handle member
    rw [taken_append] at member
    rcases List.mem_append.mp member with old | new
    · exact Nat.lt_of_lt_of_le (before.issued handle old) grown
    · exact (fresh handle new).2
  · rw [taken_append,List.nodup_append]
    refine ⟨before.distinct,distinct,?_⟩
    intro old early new late same
    have below := before.issued old early
    have above := (fresh new late).1
    omega
  · rw [taken_append,returned_append,List.append_assoc]
    have moved := settled.append_left (c.returned log)
    have paid := before.settled.append_right (c.taken more)
    rw [List.append_assoc] at paid
    exact moved.trans paid

theorem within {c : Custody ε Nat} (before : c.Accounts next log owned) (grown : next ≤ limit)
    (fresh : ∀ handle ∈ c.taken more, next ≤ handle ∧ handle < limit) (balanced : c.Balanced more) :
    c.Accounts limit (log++more) owned :=
  before.extend grown fresh balanced.1 ((balanced.2.append_right owned).trans List.perm_append_comm)

theorem opens {c : Custody ε Nat} (before : c.Accounts next log owned) (grown : next ≤ limit)
    (fresh : ∀ handle ∈ c.taken more, next ≤ handle ∧ handle < limit) (distinct : (c.taken more).Nodup)
    (kept : c.returned more = []) (left : now.Perm (owned++c.taken more)) : c.Accounts limit (log++more) now :=
  before.extend grown fresh distinct (by rw [kept]; exact left)

theorem closes {c : Custody ε Nat} (before : c.Accounts next log owned) (calm : c.taken more = [])
    (paid : (c.returned more++left).Perm owned) : c.Accounts next (log++more) left :=
  before.extend (Nat.le_refl _) (by simp [calm]) (by simp [calm]) (by rw [calm,List.append_nil]; exact paid)

theorem live {c : Custody ε Nat} (accounts : c.Accounts next log owned) (member : handle ∈ owned) :
    c.Live log handle := by
  have all : (c.returned log++owned).Nodup := (accounts.settled.nodup_iff).mpr accounts.distinct
  refine ⟨accounts.settled.mem_iff.mp (List.mem_append_right _ member),?_⟩
  intro back
  exact (List.nodup_append.mp all).2.2 handle back handle member rfl

end Accounts

end Custody

end Activation
