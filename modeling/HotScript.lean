import HotScript.Live.GlobalName
import HotScript.Proofs.Analysis.Captures
import HotScript.Proofs.Analysis.Enums
import HotScript.Proofs.Code.Constants
import HotScript.Proofs.Code.RoundTrip
import HotScript.Proofs.Host.Enums
import HotScript.Proofs.Inheritance.Cyclic
import HotScript.Proofs.Live.Arguments
import HotScript.Proofs.Live.Dependents
import HotScript.Proofs.Live.FailedFiles
import HotScript.Proofs.Live.Moving
import HotScript.Proofs.Live.Registry
import HotScript.Proofs.Live.Updates
import HotScript.Proofs.Live.Variables
import HotScript.Proofs.Source.Paths
import HotScript.Proofs.Type.Ancestry
import HotScript.Proofs.Value.Equality
import HotScript.Proofs.Value.Operators
import HotScript.Wire.Host
import HotScript.Wire.Program
import HotScript.Wire.Unit
