import HtnPlanning.Network

namespace HtnPlanning

inductive Rejection where
  | unknownTask (id : TaskId)
  | duplicate
  | cycle (first second : TaskId)
deriving DecidableEq

instance : ToString Rejection where
  toString
    | .unknownTask id => "task " ++ toString id ++ " is not a member of the network"
    | .duplicate => "an equal constraint was already accepted"
    | .cycle first second =>
      "ordering " ++ toString first ++ " before " ++ toString second ++ " closes a cycle"

structure InvalidConstraint where
  kind : ConstraintKind
  reason : Rejection
deriving DecidableEq

instance : ToString InvalidConstraint where
  toString error := "invalid " ++ toString error.kind ++ " constraint: " ++ toString error.reason

inductive ReplacementError where
  | unknownTask (id : TaskId)
  | invalidConstraint (error : InvalidConstraint)
deriving DecidableEq

instance : ToString ReplacementError where
  toString
    | .unknownTask id => "task " ++ toString id ++ " is not a member of the network"
    | .invalidConstraint error => toString error

structure Validator where
  members : TaskSet
  precedences : ConstraintSet
  befores : ConstraintSet
  afters : ConstraintSet
  betweens : ConstraintSet
  outgoing : Std.ExtTreeMap TaskId ConstraintSet
deriving DecidableEq

namespace Validator

instance : EmptyCollection Validator := ⟨⟨∅, ∅, ∅, ∅, ∅, ∅⟩⟩

def addTask (v : Validator) (id : TaskId) : Validator :=
  { v with members := v.members.insert id }

def ofKind (v : Validator) : ConstraintKind → ConstraintSet
  | .precedence => v.precedences
  | .before => v.befores
  | .after => v.afters
  | .between => v.betweens

def constraints (v : Validator) : List Constraint :=
  v.precedences.toList ++ v.befores.toList ++ v.afters.toList ++ v.betweens.toList

def contains (v : Validator) (c : Constraint) : Bool :=
  (v.ofKind c.kind).contains c

def laterTasks (precedences : ConstraintSet) : List TaskId :=
  precedences.toList.flatMap fun
    | .precedence _ later => later.toList
    | _ => []

def successors (v : Validator) (id : TaskId) : List TaskId :=
  laterTasks (v.outgoing[id]?.getD ∅)

structure Visit where
  marked : TaskSet
  stack : List TaskId

def visitNext (v : Validator) (target : TaskId) (visit : Visit) : Bool ⊕ Visit :=
  match visit.stack with
  | [] => .inl false
  | id :: rest =>
    if id = target then
      .inl true
    else if id ∈ visit.marked then
      .inr { visit with stack := rest }
    else
      let marked := visit.marked.insert id
      .inr { marked, stack := ((v.successors id).filter (· ∉ marked)).reverse ++ rest }

def visit (v : Validator) (target : TaskId) : Nat → Visit → Option Bool
  | 0, _ => none
  | steps + 1, visit =>
    match v.visitNext target visit with
    | .inl answer => some answer
    | .inr next => v.visit target steps next

/-- The tasks that may still be taken from the stack: those on it, and those that unmarked tasks can
put there. -/
def Visit.pending (visit : Visit) (v : Validator) : Nat :=
  visit.stack.length + ((v.outgoing.keys.filter (· ∉ visit.marked)).flatMap v.successors).length

def reachable (v : Validator) (source target : TaskId) : Bool :=
  let start : Visit := ⟨∅, [source]⟩
  v.visit target (start.pending v + 1) start == some true

def closingEdge? (v : Validator) (c : Constraint) : Option (TaskId × TaskId) :=
  c.edges.find? fun (p, q) => p = q || v.reachable q p

/-- Looks for a reason to reject a constraint: an unknown task, then an equal constraint, then a
cycle. -/
def check (v : Validator) (c : Constraint) : Except Rejection Unit :=
  match c.references.find? fun id => !v.members.contains id with
  | some id => .error (.unknownTask id)
  | none =>
    if v.contains c then
      .error .duplicate
    else
      match v.closingEdge? c with
      | some (p, q) => .error (.cycle p q)
      | none => .ok ()

def indexed (outgoing : Std.ExtTreeMap TaskId ConstraintSet) (c : Constraint) (earlier : TaskSet) :
    Std.ExtTreeMap TaskId ConstraintSet :=
  earlier.toList.foldl (fun index id => index.insert id ((index[id]?.getD ∅).insert c)) outgoing

def record (v : Validator) (c : Constraint) : Validator :=
  match c with
  | .precedence earlier _ =>
    { v with
      precedences := v.precedences.insert c
      outgoing := indexed v.outgoing c earlier }
  | .before .. => { v with befores := v.befores.insert c }
  | .after .. => { v with afters := v.afters.insert c }
  | .between .. => { v with betweens := v.betweens.insert c }

def addConstraint (v : Validator) (c : Constraint) : Validator × Option InvalidConstraint :=
  match v.check c with
  | .ok () => (v.record c, none)
  | .error reason => (v, some ⟨c.kind, reason⟩)

def merge (v : Validator) (c : Constraint) : Except InvalidConstraint Validator :=
  match v.check c with
  | .ok () => .ok (v.record c)
  | .error .duplicate => .ok v
  | .error reason => .error ⟨c.kind, reason⟩

def apply (s : Substitution) (v : Validator) : Validator :=
  (v.constraints.map (·.apply s)).foldl record { (∅ : Validator) with members := v.members }

def rewritten (v : Validator) (old : TaskId) (new : TaskSet) : List Constraint :=
  v.constraints.filterMap fun c => if c.mentions old then c.replaceTask old new else some c

/-- Replaces a member by the tasks of a network. Constraints on the member become constraints on
all the new tasks, and the constraints of the network are added. -/
def replace (v : Validator) (old : TaskId) (n : Network) : Validator × Option ReplacementError :=
  if v.members.contains old then
    let start := { (∅ : Validator) with members := v.members.erase old ∪ n.ids }
    match (v.rewritten old n.ids ++ n.constraints.toList).foldlM merge start with
    | .ok next => (next, none)
    | .error error => (v, some (.invalidConstraint error))
  else
    (v, some (.unknownTask old))

end Validator

end HtnPlanning
