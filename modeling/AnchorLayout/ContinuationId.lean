/-!
# Continuation identifiers

  A suspended handler is known to the client by a text that means nothing to it.

  Program        `Issuer.ofText`, identifiers made of a text and a serial number.
  Specification  `Issuer`: identifiers of any make, as long as no two of them are the same.
  Crux           nothing else is known of an identifier, so what is proved of sessions holds for
                 random ones too, as long as they do not collide.
-/

namespace AnchorLayout

/-- What a client sends to continue a suspended handler. -/
structure ContinuationId where
  text : String
deriving DecidableEq, Inhabited

namespace ContinuationId

/-- The identifier with a serial number, of those with a common beginning. -/
def ofSerial (beginning : String) (serial : Nat) : ContinuationId :=
  ⟨beginning ++ String.ofList (Nat.toDigits 10 serial)⟩

/-- Serial numbers tell identifiers apart: the digits after the beginning read back. -/
theorem ofSerial_injective (beginning : String) {m n : Nat}
    (h : ofSerial beginning m = ofSerial beginning n) : m = n := by
  have texts : beginning.toList ++ Nat.toDigits 10 m = beginning.toList ++ Nat.toDigits 10 n := by
    simpa [ofSerial] using congrArg (fun id : ContinuationId => id.text.toList) h
  rw [← Nat.ofDigitChars_toDigits (b := 10) (n := m) (by decide) (by decide),
    List.append_cancel_left texts, Nat.ofDigitChars_toDigits (by decide) (by decide)]

end ContinuationId

/-- **A source of identifiers**: it never gives the same one twice. -/
structure Issuer where
  /-- The identifier that is given next after so many. -/
  id : Nat → ContinuationId
  injective : ∀ {m n : Nat}, id m = id n → m = n

/-- The identifiers that begin with a text and go on with a serial number. -/
def Issuer.ofText (beginning : String) : Issuer :=
  ⟨ContinuationId.ofSerial beginning, ContinuationId.ofSerial_injective beginning⟩

instance : Coe String Issuer := ⟨Issuer.ofText⟩

end AnchorLayout
