import Wireops.Lib.Split
import Wireops.Policy.Devices
import Wireops.Policy.Mounts

namespace Wireops.Policy.Sockets

open Option List Lib.Strings Lib.Paths Lib.Split Policy.Compose
open Policy.Coverage Policy.Extract Policy.Mounts
open Policy.Devices (ReachesSocket exposesSocket_iff)

variable {p : WorkerPolicy} {config : List (Text × Value)} {entry : Value} {path src vol : Text}

section Paths

end Paths

section Reading

theorem trimSpace_eq_self {s : Text} (hhead : ∀ c ∈ s.head?, isSpace c = false)
    (hlast : ∀ c ∈ s.getLast?, isSpace c = false) : trimSpace s = s := by
  have hleft : s.dropWhile isSpace = s := by
    cases s with
    | nil => rfl
    | cons c s => exact dropWhile_cons_of_neg (by simp [hhead c rfl])
  have hright : s.reverse.dropWhile isSpace = s.reverse := by
    cases hs : s.reverse with
    | nil => rfl
    | cons c t =>
      have hc : c ∈ s.getLast? := by
        rw [List.getLast?_eq_head?_reverse, hs]
        rfl
      exact dropWhile_cons_of_neg (by simp [hlast c hc])
  rw [trimSpace, trim, hleft, hright, reverse_reverse]

end Reading

section Mounts

end Mounts

end Wireops.Policy.Sockets
