import PromqlEngine.Labels
import PromqlEngine.Model
import PromqlEngine.Binary.ElemBinop
import PromqlEngine.Binary.JoinTables
import PromqlEngine.Binary.Vector
import PromqlEngine.Binary.Reference
import PromqlEngine.Binary.Loops
import PromqlEngine.Binary.Simulation
import PromqlEngine.Binary.Run
import PromqlEngine.Binary.Resolve
import PromqlEngine.Binary.Keys
import PromqlEngine.Binary.Semantics
import PromqlEngine.Binary.Shift
import PromqlEngine.Binary.Histograms
import PromqlEngine.Binary.Scalar
import PromqlEngine.Exchange.DuplicateLabelCheck
import PromqlEngine.Function.Absent
import PromqlEngine.Contract
import PromqlEngine.Binary.Contract
import PromqlEngine.Plan
import PromqlEngine.Telemetry
import PromqlEngine.Time
import PromqlEngine.Function.Functions
