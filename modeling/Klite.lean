import Klite.Safety.NodeRemoval
import Klite.Safety.Surge
import Klite.Safety.XdsIsolation
import Klite.Safety.HandlerFaults
import Klite.Safety.OrphanSweep
import Klite.Safety.IngressRepair
import Klite.Safety.VipRepair
import Klite.Safety.Routes
import Klite.Safety.SourceIdentity
import Klite.Safety.Pipeline
import Klite.Safety.AgentReports
import Klite.Safety.AgentOrder
import Klite.Safety.Evacuation
import Klite.Safety.ValidObjects
import Klite.Safety.Uncordon
import Klite.Safety.TestStore
import Klite.Safety.NetOrder
import Klite.Safety.LogIsolation
import Klite.Safety.LogDelivery
import Klite.Safety.UiWatch
import Klite.Ui.Policy
import Klite.Safety.Placement
import Klite.Safety.ApplyAgain
import Klite.Safety.Backoff
import Klite.Safety.RestartCount
import Klite.Safety.ProbeReady
import Klite.Safety.NodeConvergence
import Klite.Safety.DrainTimeout
import Klite.Safety.RolloutRounds
import Klite.Policy.Algebra
import Klite.Safety.DerivedAddresses
import Klite.Safety.NetSettles
import Klite.Safety.TrafficCallers
import Klite.Safety.Dialects
import Klite.Safety.SimWatch
import Klite.Ca.Token
import Klite.Controller.Leader
import Klite.Net.Dns
import Klite.Safety.RecordLife
