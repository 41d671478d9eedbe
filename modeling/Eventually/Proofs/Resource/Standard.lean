import Eventually.Proofs.Resource.Identifier
import Eventually.Proofs.Resource.Timestamp
import Eventually.Resource.Standard

namespace Eventually.Stamps

theorem textsReadBack_of_standard : TextsReadBack where
  uid := Identifier.ofText?_text
  instant := Timestamp.ofText?_text

theorem textsDiffer_of_standard : TextsDiffer where
  uid hsame := Identifier.text_injective hsame
  instant hsame := Timestamp.text_injective hsame

end Eventually.Stamps
