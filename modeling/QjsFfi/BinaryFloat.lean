import Mathlib.Data.Int.Log
import Mathlib.Data.Rat.Floor
import Mathlib.Algebra.Order.Floor.Semiring
import Mathlib.Tactic.Linarith
import Mathlib.Tactic.Positivity
import Mathlib.Tactic.NormNum

namespace BinaryFloat

-- Significand bits, the exponent of the least unit and the exponent at which
-- finite magnitudes end. The side conditions make every small integer exact.
structure Format where
  precision : Nat
  least : Int
  overflow : Int
  positive : 0 < precision
  integral : least ≤ 0
  room : (precision : Int) < overflow

def binary32 : Format := ⟨24,-149,128,by decide,by decide,by decide⟩
def binary64 : Format := ⟨53,-1074,1024,by decide,by decide,by decide⟩
def extended80 : Format := ⟨64,-16445,16384,by decide,by decide,by decide⟩

-- Sign and magnitude are kept apart, so that a zero keeps its sign.
inductive Datum where
  | nan
  | infinite (negative : Bool)
  | finite (negative : Bool) (magnitude : ℚ)
  deriving DecidableEq, Repr

def Holds (f : Format) (q : ℚ) : Prop :=
  ∃ m : ℕ, ∃ e : ℤ, q = m*2^e ∧ m < 2^f.precision ∧ f.least ≤ e ∧ q < 2^f.overflow

def Fits (f : Format) : Datum → Prop
  | .nan | .infinite _ => True
  | .finite _ magnitude => Holds f magnitude

structure Number (f : Format) where
  datum : Datum
  fits : Fits f datum

theorem Number.ext_datum {x y : Number f} (equal : x.datum = y.datum) : x = y := by
  cases x; cases y; cases equal; rfl

instance : DecidableEq (Number f) := fun x y =>
  decidable_of_iff (x.datum = y.datum) ⟨Number.ext_datum,fun equal => by rw [equal]⟩

def roundEven (q : ℚ) : ℕ :=
  let down := ⌊q⌋₊
  let rest := q-down
  if rest < 1/2 then down
  else if 1/2 < rest then down+1
  else if down % 2 = 0 then down else down+1

def unit (f : Format) (q : ℚ) : ℤ := max f.least (Int.log 2 q+1-f.precision)

def roundMagnitude (f : Format) (q : ℚ) : ℚ := roundEven (q/2^unit f q)*2^unit f q

-- Round to nearest, ties to even; past the largest finite value to infinity.
def round (f : Format) : Datum → Datum
  | .finite negative q =>
    if roundMagnitude f q < 2^f.overflow then .finite negative (roundMagnitude f q)
    else .infinite negative
  | other => other

theorem roundEven_natCast (n : ℕ) : roundEven n = n := by simp [roundEven]

theorem roundEven_le {q : ℚ} {bound : ℕ} (below : q < bound) : roundEven q ≤ bound := by
  by_cases nonneg : 0 ≤ q
  · have down : ⌊q⌋₊ < bound := (Nat.floor_lt nonneg).mpr below
    unfold roundEven
    dsimp only
    split_ifs <;> omega
  · have zero : ⌊q⌋₊ = 0 := Nat.floor_of_nonpos (by linarith)
    have small : q-((0 : ℕ) : ℚ) < 1/2 := by push_cast; linarith
    unfold roundEven
    dsimp only
    rw [zero,if_pos small]
    exact Nat.zero_le _

theorem scaled_below (f : Format) (q : ℚ) : q/2^unit f q < ((2^f.precision : ℕ) : ℚ) := by
  have scale : (0 : ℚ) < 2^unit f q := zpow_pos two_pos _
  rw [div_lt_iff₀ scale]
  have log : q < 2^(Int.log 2 q+1) := Int.lt_zpow_succ_log_self (by decide : 1 < 2) q
  have exponent : Int.log 2 q+1 ≤ f.precision+unit f q := by
    have := le_max_right f.least (Int.log 2 q+1-f.precision)
    unfold unit
    omega
  calc q < 2^(Int.log 2 q+1) := log
    _ ≤ (2 : ℚ)^((f.precision : ℤ)+unit f q) := zpow_le_zpow_right₀ (by norm_num) exponent
    _ = ((2^f.precision : ℕ) : ℚ)*2^unit f q := by
      rw [zpow_add₀ (by norm_num),zpow_natCast]; push_cast; rfl

theorem roundMagnitude_holds (f : Format) (q : ℚ) (finite : roundMagnitude f q < 2^f.overflow) :
    Holds f (roundMagnitude f q) := by
  have above : f.least ≤ unit f q := le_max_left _ _
  have bound : roundEven (q/2^unit f q) ≤ 2^f.precision := roundEven_le (scaled_below f q)
  rcases Nat.lt_or_eq_of_le bound with inside | carried
  · exact ⟨_,_,rfl,inside,above,finite⟩
  · -- A carry into a new binade halves the significand and doubles the unit.
    refine ⟨2^(f.precision-1),unit f q+1,?_,?_,by omega,finite⟩
    · unfold roundMagnitude
      rw [carried,zpow_add_one₀ (by norm_num)]
      obtain ⟨p,positive⟩ := Nat.exists_eq_succ_of_ne_zero (Nat.ne_of_gt f.positive)
      rw [positive]
      push_cast
      simp only [Nat.succ_eq_add_one,pow_succ]
      ring
    · exact Nat.pow_lt_pow_right (by decide) (Nat.sub_lt f.positive (by decide))

theorem round_fits (f : Format) (d : Datum) : Fits f (round f d) := by
  cases d with
  | nan => trivial
  | infinite negative => trivial
  | finite negative q =>
    by_cases finite : roundMagnitude f q < 2^f.overflow
    · simpa [round,finite,Fits] using roundMagnitude_holds f q finite
    · simp [round,finite,Fits]

theorem roundMagnitude_exact {f : Format} {q : ℚ} (held : Holds f q) : roundMagnitude f q = q := by
  obtain ⟨m,e,value,small,least,_⟩ := held
  rcases Nat.eq_zero_or_pos m with zero | pos
  · have empty : q = 0 := by rw [value,zero]; simp
    subst empty
    have still := roundEven_natCast 0
    simp only [Nat.cast_zero] at still
    simp [roundMagnitude,still]
  have scale : (0 : ℚ) < 2^unit f q := zpow_pos two_pos _
  have fine : unit f q ≤ e := by
    refine max_le least ?_
    have step : (0 : ℚ) < 2^e := zpow_pos two_pos _
    have qpos : 0 < q := by rw [value]; exact mul_pos (by exact_mod_cast pos) step
    have upper : q < 2^((f.precision : ℤ)+e) := by
      rw [value,zpow_add₀ (by norm_num : (2 : ℚ) ≠ 0),zpow_natCast]
      exact mul_lt_mul_of_pos_right (by exact_mod_cast small) step
    have log := (Int.lt_zpow_iff_log_lt (by decide : 1 < 2) qpos).mp upper
    omega
  have whole : q/2^unit f q = ((m*2^(e-unit f q).toNat : ℕ) : ℚ) := by
    have split : (2 : ℚ)^e = 2^(e-unit f q).toNat*2^unit f q := by
      rw [← zpow_natCast (2 : ℚ),Int.toNat_of_nonneg (by omega),← zpow_add₀ (by norm_num : (2 : ℚ) ≠ 0)]
      congr 1
      omega
    rw [div_eq_iff (ne_of_gt scale)]
    push_cast
    rw [mul_assoc,← split,← value]
  unfold roundMagnitude
  rw [whole,roundEven_natCast,← whole,div_mul_cancel₀ _ (ne_of_gt scale)]

theorem round_exact {f : Format} {d : Datum} (held : Fits f d) : round f d = d := by
  cases d with
  | nan => rfl
  | infinite negative => rfl
  | finite negative q =>
    have below : q < 2^f.overflow := by obtain ⟨_,_,_,_,_,bound⟩ := held; exact bound
    simp [round,roundMagnitude_exact held,below]

def Number.convert (g : Format) (x : Number f) : Number g := ⟨round g x.datum,round_fits g x.datum⟩

def Datum.ofInt (n : ℤ) : Datum := .finite (decide (n < 0)) n.natAbs

def Number.ofInt (f : Format) (n : ℤ) : Number f := ⟨round f (.ofInt n),round_fits f _⟩

-- Truncation towards zero; an infinity or a NaN has none.
def Datum.truncate : Datum → Option ℤ
  | .finite negative q => some (if negative then -(⌊q⌋₊ : ℤ) else ⌊q⌋₊)
  | _ => none

theorem Number.convert_exact {x : Number f} (held : Fits g x.datum) : (x.convert g).datum = x.datum :=
  round_exact held

def Wider (f g : Format) : Prop :=
  f.precision ≤ g.precision ∧ g.least ≤ f.least ∧ f.overflow ≤ g.overflow

instance : Decidable (Wider f g) := inferInstanceAs (Decidable (_ ∧ _ ∧ _))

theorem Fits.widen {d : Datum} (wider : Wider f g) (held : Fits f d) : Fits g d := by
  cases d with
  | nan => trivial
  | infinite negative => trivial
  | finite negative q =>
    obtain ⟨m,e,value,small,least,below⟩ := held
    obtain ⟨precision,exponent,range⟩ := wider
    refine ⟨m,e,value,?_,Int.le_trans exponent least,?_⟩
    · exact Nat.lt_of_lt_of_le small (Nat.pow_le_pow_right (by decide) precision)
    · exact lt_of_lt_of_le below (zpow_le_zpow_right₀ (by norm_num) range)

theorem Number.convert_through {x : Number f} (wider : Wider f g) :
    (x.convert g).convert h = x.convert h := by
  apply Number.ext_datum
  change round h (x.convert g).datum = round h x.datum
  rw [Number.convert_exact (x.fits.widen wider)]

theorem Number.convert_self (x : Number f) : x.convert f = x :=
  Number.ext_datum (round_exact x.fits)

theorem ofInt_fits {f : Format} {n : ℤ} (small : n.natAbs ≤ 2^f.precision) : Fits f (.ofInt n) := by
  have below : (n.natAbs : ℚ) < 2^f.overflow := by
    calc (n.natAbs : ℚ) ≤ ((2^f.precision : ℕ) : ℚ) := by exact_mod_cast small
      _ = (2 : ℚ)^(f.precision : ℤ) := by rw [zpow_natCast]; push_cast; rfl
      _ < 2^f.overflow := zpow_lt_zpow_right₀ (by norm_num) f.room
  rcases Nat.lt_or_eq_of_le small with inside | edge
  · exact ⟨n.natAbs,0,by simp,inside,f.integral,below⟩
  · -- 2^precision itself is one unit of the next exponent.
    refine ⟨2^(f.precision-1),1,?_,Nat.pow_lt_pow_right (by decide) (Nat.sub_lt f.positive (by decide)),?_,below⟩
    · obtain ⟨p,positive⟩ := Nat.exists_eq_succ_of_ne_zero (Nat.ne_of_gt f.positive)
      rw [edge,positive]
      push_cast
      simp [pow_succ]
    · have := f.integral; omega

theorem ofInt_datum {f : Format} {n : ℤ} (small : n.natAbs ≤ 2^f.precision) :
    (Number.ofInt f n).datum = .ofInt n := round_exact (ofInt_fits small)

theorem truncate_ofInt (n : ℤ) : (Datum.ofInt n).truncate = some n := by
  have whole : ⌊(n.natAbs : ℚ)⌋₊ = n.natAbs := Nat.floor_natCast _
  by_cases negative : n < 0
  · simp only [Datum.ofInt,Datum.truncate,negative,decide_true,if_true,whole]
    congr 1; omega
  · simp only [Datum.ofInt,Datum.truncate,negative,decide_false,whole]
    congr 1; simp only [Bool.false_eq_true,if_false]; omega

end BinaryFloat
