import QjsFfi.PointerTransport

namespace QjsFfi
open BinaryFloat Activation Histories

theorem pointerText_injective {a b : Word} (same : pointerText a = pointerText b) : a = b := by
  have read : hexLiteral (pointerText a).toList = hexLiteral (pointerText b).toList := by rw [same]
  have nil : hexLiteral (pointerText 0).toList = none := by decide
  by_cases left : a = 0
  · by_cases right : b = 0
    · rw [left,right]
    · rw [left,nil,hexLiteral_pointerText right] at read
      cases read
  · by_cases right : b = 0
    · rw [right,nil,hexLiteral_pointerText left] at read
      cases read
    · rw [hexLiteral_pointerText left,hexLiteral_pointerText right] at read
      exact BitVec.eq_of_toNat_eq (Option.some.inj read)

theorem address_within {base off : Word} {size : ℕ} (last : base.toNat+size < 2^64) (inside : off.toNat ≤ size) :
    (base+off).toNat = base.toNat+off.toNat := by
  rw [BitVec.toNat_add,Nat.mod_eq_of_lt (by omega)]

theorem pointerAt_accepts {base off : Word} {size : ℕ} (bound : size < 2^63) (last : base.toNat+size < 2^64)
    (start : 0 ≤ offsetIn size off.toInt) (inside : offsetIn size off.toInt ≤ size) :
    ∃ a : Word, (a.toNat : ℤ) = base.toNat+offsetIn size off.toInt ∧ pointerAt base size off = .string (pointerText a) := by
  refine ⟨base+movedOffset size off,?_,pointerAt_moved bound start inside⟩
  rw [← movedOffset_toInt bound] at start inside ⊢
  have plain := signed_nonnegative start
  rw [address_within last (by omega)]
  omega

theorem pointerAt_refuses {base off : Word} {size : ℕ} (bound : size < 2^63)
    (outside : offsetIn size off.toInt < 0 ∨ (size : ℤ) < offsetIn size off.toInt) : pointerAt base size off = .exception := by
  rw [← movedOffset_toInt bound] at outside
  refine if_pos (show (movedOffset size off).toNat > size ∨ (movedOffset size off).toInt < 0 from ?_)
  rcases outside with negative | past
  · exact .inr negative
  · have plain := signed_nonnegative (show 0 ≤ (movedOffset size off).toInt by omega)
    exact .inl (by omega)

structure PointsInto (base size : ℕ) (off : ℤ) (r : JSValue) : Prop where
  fromStart : 0 ≤ off → off ≤ size → ∃ a : Word, (a.toNat : ℤ) = base+off ∧ r = .string (pointerText a)
  fromEnd : -size ≤ off → off < 0 → ∃ a : Word, (a.toNat : ℤ) = base+size+off ∧ r = .string (pointerText a)
  refused : off < -size ∨ size < off → r = .exception
  within : ∀ a : Word, r = .string (pointerText a) → base ≤ a.toNat ∧ a.toNat ≤ base+size

theorem pointerAt_into {base off : Word} {size : ℕ} (bound : size < 2^63) (last : base.toNat+size < 2^64) :
    PointsInto base.toNat size off.toInt (pointerAt base size off) := by
  refine ⟨?_,?_,?_,?_⟩
  · intro start inside
    have plain : offsetIn size off.toInt = off.toInt := if_neg (by omega)
    rw [← plain] at start inside ⊢
    exact pointerAt_accepts bound last start inside
  · intro start negative
    have moved : offsetIn size off.toInt = off.toInt+size := if_pos negative
    have first : 0 ≤ offsetIn size off.toInt := by omega
    have within : offsetIn size off.toInt ≤ size := by omega
    obtain ⟨a,place,text⟩ := pointerAt_accepts bound last first within
    exact ⟨a,by omega,text⟩
  · intro outside
    refine pointerAt_refuses bound ?_
    unfold offsetIn
    split <;> omega
  · intro a text
    by_cases inside : 0 ≤ offsetIn size off.toInt ∧ offsetIn size off.toInt ≤ size
    · obtain ⟨b,place,made⟩ := pointerAt_accepts bound last inside.1 inside.2
      rw [made] at text
      rw [← pointerText_injective (JSValue.string.inj text)]
      omega
    · rw [pointerAt_refuses bound (by omega)] at text
      cases text

theorem toPointer_offset {given : List JSValueConst} {bytes : List UInt8} {data off : Word}
    (buffer : (argAt given 0).value = .arrayBuffer ⟨some data,bytes⟩) (more : given.length > 1)
    (number : (argAt given 1).toInt64 = some off) (bound : bytes.length < 2^63) (last : data.toNat+bytes.length < 2^64) (s : Ctx) :
    (∃ r, Gives (js_topointer given) s r s []) ∧
      ∀ r t log, Gives (js_topointer given) s r t log → PointsInto data.toNat bytes.length off.toInt r := by
  have held : (argAt given 0).buffer = some (data,bytes.length) := by simp [JSValueConst.buffer,buffer]
  have answers := js_topointer_gives given s
  simp only [topointerValue,topointerRaises,held,number,if_pos more,Option.getD_some,Option.isNone_some,Bool.and_false,Bool.or_false,
    Ctx.bump_zero] at answers
  refine ⟨⟨_,answers⟩,?_⟩
  intro r t log ran
  obtain ⟨rfl,_,_⟩ := ran.unique answers
  exact pointerAt_into bound last

def lastByte : List JSValueConst := [(JSValue.arrayBuffer ⟨some 0x1000,[1,2,3,4]⟩).argument,(JSValue.int (-1)).argument]

theorem toPointer_offset_last :
    (∃ r, Gives (js_topointer lastByte) .start r .start []) ∧
      ∀ r t log, Gives (js_topointer lastByte) .start r t log → PointsInto 0x1000 4 (-1) r :=
  toPointer_offset (show (argAt lastByte 0).value = .arrayBuffer ⟨some 0x1000,[1,2,3,4]⟩ from rfl) (by decide)
    (show (argAt lastByte 1).toInt64 = some (-1) from rfl) (by decide) (by decide) .start

end QjsFfi
