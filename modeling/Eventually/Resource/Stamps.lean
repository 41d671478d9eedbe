namespace Eventually

-- Identifiers and instants that objects are stamped with. How their texts look is not fixed here,
-- only that they are written as texts and read from texts.
class Stamps where
  Uid : Type
  Instant : Type
  uidText : Uid → String
  uid? : String → Option Uid
  instantText : Instant → String
  instant? : String → Option Instant
  decEqUid : DecidableEq Uid
  decEqInstant : DecidableEq Instant

namespace Stamps

variable [Stamps]

instance : DecidableEq Uid := decEqUid

instance : DecidableEq Instant := decEqInstant

-- Different stamps have different texts.
structure TextsDiffer : Prop where
  uid : ∀ {first second : Uid}, uidText first = uidText second → first = second
  instant : ∀ {first second : Instant}, instantText first = instantText second → first = second

-- A stamp is read back from the text that is written for it.
structure TextsReadBack : Prop where
  uid : ∀ value : Uid, uid? (uidText value) = some value
  instant : ∀ value : Instant, instant? (instantText value) = some value

end Stamps

end Eventually
