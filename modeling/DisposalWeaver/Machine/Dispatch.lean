/-
Virtual dispatch: which method answers a virtual call, given the type of the receiver.

The walk goes from the receiver's type towards the root and stops at the first type that declares an answer, or at the
type that declares the called method itself. A method of an interface is also answered by an explicit implementation,
which is named after the interface.
-/
import DisposalWeaver.TypeGraph.Subtyping

namespace DisposalWeaver.TypeGraph

/-- name of an explicit implementation of an interface's method -/
def explicitName? (g : TypeGraph) (m : MethodDecl) : Option String :=
  if g.isInterface m.declaring then some s!"{(g.type m.declaring).name.text}.{m.name.text}" else none

/-- can `candidate` answer a virtual call of `m`, either by the name of `m` or by its explicit name? -/
def answers (m : MethodDecl) (explicit : Option String) (candidate : MethodDecl) : Bool :=
  !candidate.isStatic && candidate.isVirtual && candidate.argumentCount == m.argumentCount &&
    (candidate.name == m.name || explicit == some candidate.name.text)

/-- the first method of a type that can answer a virtual call of `m` -/
def answerOn? (g : TypeGraph) (m : MethodDecl) (explicit : Option String) (t : TypeId) : Option MethodId :=
  (g.type t).methods.find? fun candidate => answers m explicit (g.method candidate)

/-- the answer along a chain of types -/
def answerAlong (g : TypeGraph) (method : MethodId) (explicit : Option String) : List TypeId → MethodId
  | [] => method
  | t :: rest =>
    if t = (g.method method).declaring then method
    else match g.answerOn? (g.method method) explicit t with
      | some found => found
      | none => answerAlong g method explicit rest

/-- the method that answers a call on a receiver of the given type; a method that is not virtual answers itself -/
def implementation (g : TypeGraph) (receiver : TypeId) (method : MethodId) : MethodId :=
  if (g.method method).isVirtual then
    g.answerAlong method (g.explicitName? (g.method method)) (g.baseChain receiver)
  else method

end DisposalWeaver.TypeGraph
