import WebToken.Claims

/-!
# Checks on claims

Claims that come from a token are checked against a clock, with some leeway, and against the
issuer and the audience that are expected. Times at the ends of their range stay there when the
leeway is applied.
-/

namespace WebToken

/-- What claims must satisfy. -/
structure Validation where
  /-- Seconds by which clocks may differ. -/
  leeway : Nat
  checkExp : Bool
  checkNbf : Bool
  issuer : Option String
  audience : Option String
  deriving Repr, DecidableEq

namespace Validation

/-- The usual checks: both times with a leeway of a minute. -/
def standard : Validation := ⟨60, true, true, none, none⟩

def withLeeway (v : Validation) (seconds : Nat) : Validation := { v with leeway := seconds }
def withIssuer (v : Validation) (issuer : String) : Validation := { v with issuer := some issuer }
def withAudience (v : Validation) (audience : String) : Validation :=
  { v with audience := some audience }

/-- The checks without those against a clock. -/
def withoutTimeChecks (v : Validation) : Validation :=
  { v with checkExp := false, checkNbf := false }

/-- The leeway as far as times reach. -/
def reach (v : Validation) : Int := min (v.leeway : Int) 0x7FFFFFFFFFFFFFFF

/-- The earliest time that it may be, seen from `now`. -/
def earliest (v : Validation) (now : Int64) : Int64 := Int64.ofIntClamp (now.toInt - v.reach)

/-- The latest time that it may be, seen from `now`. -/
def latest (v : Validation) (now : Int64) : Int64 := Int64.ofIntClamp (now.toInt + v.reach)

/-- The first check that claims fail, if they fail any. -/
def failure? (v : Validation) (c : Claims) (now : Int64) : Option ClaimsFault :=
  if v.checkExp ∧ c.isExpiredAt (v.earliest now) then some .expired
  else if v.checkNbf ∧ c.nbf.any (v.latest now < ·) then some .notYetValid
  else if v.issuer.any (c.iss ≠ some ·) then some .issuer
  else if v.audience.any fun a => !c.aud.any (·.contains a) then some .audience
  else none

/-- Refuse claims that fail a check at a time. -/
def validateAt (v : Validation) (c : Claims) (now : Int64) : Except Error Unit :=
  match v.failure? c now with
  | some fault => .error (.invalidClaims fault)
  | none => .ok ()

end Validation

end WebToken
