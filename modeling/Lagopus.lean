import Lagopus.Agent.Connection
import Lagopus.Agent.Framed
import Lagopus.Agent.Reassembly
import Lagopus.Agent.Segments
import Lagopus.Agent.Total
import Lagopus.Cbuffer.Adjust
import Lagopus.Cbuffer.Wakeups
import Lagopus.Callout.TimedQueue
import Lagopus.CheckCert.Checks
import Lagopus.Dataplane.ExtHeaders
import Lagopus.Dataplane.Landing
import Lagopus.Dataplane.Prerequisites
import Lagopus.Dataplane.Unsatisfiable
import Lagopus.Datastore.EnabledFlag
import Lagopus.Datastore.MacAddr
import Lagopus.Datastore.Names
import Lagopus.Datastore.Namespace
import Lagopus.Flowdb.Find
import Lagopus.Flowdb.Overlap
import Lagopus.Flowdb.Stats
import Lagopus.Flowinfo.Classifier
import Lagopus.Flowinfo.ThtableSearch
import Lagopus.Mactable.Sources
import Lagopus.Mactable.Update
import Lagopus.Mgr.GraphCalls
import Lagopus.Modules.LifeCycle
import Lagopus.Pipeline.ActionSet
import Lagopus.Pipeline.CacheBanks
import Lagopus.Pipeline.Select
import Lagopus.Pipeline.Termination
import Lagopus.PipelineStage.Rounds
import Lagopus.PipelineStage.Wait
import Lagopus.Route.Fib
import Lagopus.Session.Fgets
import Lagopus.Timer.OnTime
