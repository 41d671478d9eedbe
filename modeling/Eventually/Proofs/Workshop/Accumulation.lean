import Eventually.Proofs.Workshop.Kin
import Eventually.Requirement.Space
import Eventually.Resource.Standard

namespace Eventually

namespace Workshop

section

variable {shop : Workshop α} {chain : Nat}

end

-- For each chain of a run the fresh builder that it comes from by cloning, itself if it is one.
def origins (steps : List (BuildStep α)) : List Nat := originsFrom empty [] steps

-- Two clones called in turn, one of them through a mixin that is still mounted when a snapshot is
-- taken of the other, and a mixin that is wired to a list of no builder.
example :
    let call (tier : String) : Assertion Space := .leaf (SpaceRequirement.tier tier).leaf
    let shop := run empty <|
      [.start, .clone 0, .satisfies 0 (call "a"), .embed 1, .satisfies 0 (call "b"), .snapshot 0,
        .add 1 (call "c"), .handBack 1, .separate] ++
      BuildStep.wired 1 1 [call "d"] ++ [.satisfies 1 (call "e")]
    shop.views.map Checklist.descriptions =
        [["tier is a", "tier is b", "tier is c", "tier is e"],
          ["tier is a", "tier is b", "tier is c", "tier is e"]] ∧
      shop.lists.map Checklist.descriptions =
        [["tier is a", "tier is b", "tier is c", "tier is e"], ["tier is d"]] ∧
      shop.snapshots.map Checklist.descriptions = [["tier is a", "tier is b"]] := by
  decide

end Workshop

end Eventually
