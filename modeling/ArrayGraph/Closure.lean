/-!
# Transitive closure

Everything that can be reached from a list of starting points by a successor function. The search
goes round by round: each round follows the successors of what the last round found, and keeps
those not seen before. A universe of `n` points is exhausted after `n` rounds, so the number of
points is bound enough.
-/

namespace ArrayGraph

variable {κ : Type} [DecidableEq κ]

/-- Adds to `seen` what is reached from `frontier` in a number of rounds. -/
def expand (next : κ → List κ) : Nat → List κ → List κ → List κ
  | 0, _, seen => seen
  | rounds + 1, frontier, seen =>
    let fresh := ((frontier.flatMap next).filter fun point => point ∉ seen).eraseDups
    if fresh.isEmpty then seen else expand next rounds fresh (seen ++ fresh)

/-- What is reached from the starting points, themselves included. -/
def closure (next : κ → List κ) (rounds : Nat) (start : List κ) : List κ :=
  let distinct := start.eraseDups
  expand next rounds distinct distinct

variable {next : κ → List κ} {rounds : Nat} {point : κ}

/-- What has been seen stays seen. -/
theorem mem_expand_of_mem_seen {frontier seen : List κ} (known : point ∈ seen) :
    point ∈ expand next rounds frontier seen := by
  induction rounds generalizing frontier seen with
  | zero => simpa [expand] using known
  | succ rounds ih =>
    simp only [expand]
    split
    · exact known
    · exact ih (List.mem_append_left _ known)

/-- The starting points are reached. -/
theorem mem_closure_of_mem_start {start : List κ} (known : point ∈ start) :
    point ∈ closure next rounds start :=
  mem_expand_of_mem_seen (by simpa using known)

end ArrayGraph
