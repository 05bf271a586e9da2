/-!
# Profiles

A profile counts calls of a function and of its nodes, and adds up the time they take. Times are
whole nanoseconds; whoever has a clock supplies them.
-/

namespace ArrayGraph

/-- What has been counted for one node. -/
structure NodeProfile where
  op : String
  calls : Nat
  nanoseconds : Nat
deriving DecidableEq, Repr, Inhabited

/-- What has been counted for one function. Nodes are listed by rising identifier. -/
structure Profile where
  compileNanoseconds : Nat
  optimizeNanoseconds : Nat
  linkNanoseconds : Nat
  calls : Nat
  callNanoseconds : Nat
  nodes : List (Nat × NodeProfile)
deriving DecidableEq, Repr, Inhabited

namespace Profile

/-- Nothing counted. -/
def empty : Profile := ⟨0, 0, 0, 0, 0, []⟩

/-- Counts a run of a node in a list of nodes. A node keeps the name it was first counted under. -/
def countNode (node : Nat) (op : String) (nanoseconds : Nat) :
    List (Nat × NodeProfile) → List (Nat × NodeProfile)
  | [] => [(node, ⟨op, 1, nanoseconds⟩)]
  | (head, counted) :: rest =>
    if node = head then
      (head, ⟨counted.op, counted.calls + 1, counted.nanoseconds + nanoseconds⟩) :: rest
    else if node < head then (node, ⟨op, 1, nanoseconds⟩) :: (head, counted) :: rest
    else (head, counted) :: countNode node op nanoseconds rest

/-- Counts a run of a node. -/
def recordNode (profile : Profile) (node : Nat) (op : String) (nanoseconds : Nat) : Profile :=
  { profile with nodes := countNode node op nanoseconds profile.nodes }

/-- Counts a run of each node in a list, for which no time is known. -/
def recordNodes (profile : Profile) (executed : List (Nat × String)) : Profile :=
  executed.foldl (fun counted (node, op) => counted.recordNode node op 0) profile

/-- Counts a call. -/
def recordCall (profile : Profile) (nanoseconds : Nat) : Profile :=
  { profile with
    calls := profile.calls + 1
    callNanoseconds := profile.callNanoseconds + nanoseconds }

/-- The time spent in nodes. -/
def nodeNanoseconds (profile : Profile) : Nat :=
  profile.nodes.foldl (fun total (_, counted) => total + counted.nanoseconds) 0

end Profile

end ArrayGraph
