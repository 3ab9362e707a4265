import Klite.Policy.Evaluate

/-!
# What a node is to run (api/proto/klite/v1/agent.proto)

`NetDesired` is what a node's klite-net and Envoy consume.
-/

namespace Klite

structure ServiceVIP where
  service : String := ""
  vip : String := ""
  port : Int := 0
  targetPort : Int := 0
  deriving DecidableEq

inductive EndpointHealth where
  | unspecified
  | ready
  | draining
  deriving DecidableEq

structure Endpoint where
  ip : String := ""
  port : Int := 0
  node : String := ""
  health : EndpointHealth := .unspecified
  -- How other nodes reach it: the machine's address and the mTLS ingress port.
  ingressPort : Int := 0
  machineAddress : String := ""
  deriving DecidableEq

structure EndpointGroup where
  service : String := ""
  endpoints : List Endpoint := []
  deriving DecidableEq

structure ProbeTarget where
  inst : String := ""
  ip : String := ""
  port : Int := 0
  deriving DecidableEq

structure IngressListener where
  service : String := ""
  port : Int := 0
  podIp : String := ""
  targetPort : Int := 0
  deriving DecidableEq

structure NetDesired where
  services : List ServiceVIP := []
  endpoints : List EndpointGroup := []
  ipIdentity : Std.ExtTreeMap String String := ∅
  policies : List CompiledPolicy := []
  probeTargets : List ProbeTarget := []
  ingressListeners : List IngressListener := []
  deriving DecidableEq

structure NodeSnapshot where
  revision : ℕ := 0
  instances : List Instance := []
  net : NetDesired := {}
  deriving DecidableEq

end Klite
