import Eventually.Assertion.Basic

namespace Eventually

mutual

-- Every member of a checklist is tested, also after a failure. A lift tests the part, and reports
-- nothing but a view error when the whole does not have it.
def Assertion.test [Sink σ] : Assertion α → α → σ → σ
  | .leaf l, obj, sink => (l.check obj).foldl Sink.accept sink
  | .all members, obj, sink => members.testMembers obj (Sink.helper sink)
  | .shared inner, obj, sink => inner.test obj sink
  | .lift lens inner, obj, sink =>
      match lens.get? obj with
      | some part => inner.test part sink
      | none => Sink.viewError sink ⟨inner.describe, lens.whole, lens.part⟩

def Checklist.testMembers [Sink σ] : Checklist α → α → σ → σ
  | .nil, _, sink => sink
  | .cons head rest, obj, sink => rest.testMembers obj (head.test obj sink)

end

namespace Checklist

def test [Sink σ] (list : Checklist α) (obj : α) (sink : σ) : σ :=
  (Assertion.all list).test obj sink

def findings (list : Checklist α) (obj : α) : Findings := list.test obj {}

def failures (list : Checklist α) (obj : α) : List String := (list.findings obj).failures

def passes (list : Checklist α) (obj : α) : Bool := !Sink.failed (list.findings obj)

-- The failures, unless the object cannot be viewed as some assertion needs it.
def evaluate (list : Checklist α) (obj : α) : Except ViewError (List String) :=
  let found := list.findings obj
  match found.viewError with
  | some e => .error e
  | none => .ok found.failures

end Checklist

namespace Lens

-- The whole as a part of itself, where it may be read or replaced only if it passes a test.
def guarded (kind : String) (readable : α → Bool) (writable : Option (α → Bool)) : Lens α α where
  whole := kind
  part := kind
  get? obj := if readable obj then some obj else none
  access? := writable.map fun test obj =>
    if test obj then .found ⟨obj, fun part => part⟩ else .missed obj

end Lens

end Eventually
