import Klite.Store.Calls

/-!
# The RPC gate (internal/server/auth.go) and the status codes handlers answer with

A connection is what the gate reads of it: the common name of the verified client
certificate, when there is one, and the `authorization` metadata values.
-/

namespace Klite

inductive GrpcCode where
  | canceled
  | invalidArgument
  | notFound
  | alreadyExists
  | permissionDenied
  | failedPrecondition
  | aborted
  | unimplemented
  | unavailable
  | unauthenticated
  deriving DecidableEq

structure Status where
  code : GrpcCode
  message : String
  deriving DecidableEq

-- server.go:399
def storeStatus (e : StoreErr) : Status :=
  match e.cls with
  | .notFound => ⟨.notFound, e.text⟩
  | .alreadyExists => ⟨.alreadyExists, e.text⟩
  | .conflict => ⟨.aborted, e.text⟩
  | .canceled => ⟨.canceled, e.text⟩
  | .other => ⟨.unavailable, e.text⟩

def raced : Status := ⟨.aborted, "kept losing revision races, try again"⟩

structure Conn where
  certCN : Option String := none
  authorization : List String := []

inductive Principal where
  | none
  | admin
  | node (name : String)
  deriving DecidableEq

def nodeCNPrefix : String := "klite:node:"

-- ca.go:333
def nodeFromCert (cn : String) : Option String :=
  match cutPrefix cn nodeCNPrefix with
  | some node => if node = "" then none else some node
  | none => none

def peerNode (c : Conn) : Option String := c.certCN.bind nodeFromCert

def bearerToken (c : Conn) : String :=
  (c.authorization.findSome? fun v => cutPrefix v "Bearer ").getD ""

def principalOf (adminToken : String) (c : Conn) : Principal :=
  match peerNode c with
  | some node => .node node
  | none => if adminToken ≠ "" ∧ bearerToken c = adminToken then .admin else .none

def registerMethod : String := "/klite.v1.AgentService/Register"
def xdsMethodPrefix : String := "/envoy.service."

def denied (p : Principal) (want : String) : Status :=
  match p with
  | .none => ⟨.unauthenticated, "authentication required: present the " ++ want⟩
  | _ => ⟨.permissionDenied, "this method requires the " ++ want⟩

def authorize (adminToken : String) (c : Conn) (fullMethod : String) : Except Status Principal :=
  let p := principalOf adminToken c
  if fullMethod = registerMethod then .ok p
  else if hasPrefix fullMethod "/klite.v1.AgentService/" || hasPrefix fullMethod xdsMethodPrefix then
    match p with
    | .node _ => .ok p
    | _ => .error (denied p "node certificate")
  else if hasPrefix fullMethod "/klite.v1.ClusterService/" then
    match p with
    | .admin => .ok p
    | _ => .error (denied p "admin token")
  else .error ⟨.permissionDenied, "method " ++ fullMethod ++ " is not open to any caller"⟩

def requireNodeMatch (p : Principal) (node : String) : Option Status :=
  match p with
  | .node n =>
    if n = node then none
    else some ⟨.permissionDenied, "certificate is for node " ++ quote n ++ ", not " ++ quote node⟩
  | _ => none

theorem principalOf_node (adminToken : String) (c : Conn) (n : String) (h : peerNode c = some n) :
    principalOf adminToken c = .node n := by
  unfold principalOf
  rw [h]

end Klite
