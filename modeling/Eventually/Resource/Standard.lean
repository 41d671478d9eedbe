import Eventually.Resource.Identifier
import Eventually.Resource.Stamps
import Eventually.Resource.Timestamp

namespace Eventually

-- One way of stamping, in the spellings that are in common use. Programs run with it, while what is
-- proved of objects holds for any other, too.
instance : Stamps where
  Uid := Identifier
  Instant := Timestamp
  uidText := Identifier.text
  uid? := Identifier.ofText?
  instantText := Timestamp.text
  instant? := Timestamp.ofText?
  decEqUid := inferInstance
  decEqInstant := inferInstance

end Eventually
