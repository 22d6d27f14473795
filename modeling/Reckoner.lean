import Reckoner.Main
import Reckoner.Packages
import Reckoner.Release
import Reckoner.Proofs.ExactIntegers
import Reckoner.Proofs.Groups
import Reckoner.Proofs.LazyReading
import Reckoner.Proofs.Outcome
import Reckoner.Proofs.Parser.EarliestError
import Reckoner.Proofs.Parser.Locality
import Reckoner.Proofs.Parser.Sessions
import Reckoner.Proofs.Settings.Precedence
import Reckoner.Proofs.Writing
import Reckoner.Proofs.BoundedPower
import Reckoner.Proofs.NearestDouble
import Reckoner.Proofs.Separated
import Reckoner.Proofs.StackMachine
import Reckoner.Proofs.Literals
import Reckoner.Proofs.PowerSigns
import Reckoner.Proofs.Rereading
import Reckoner.Proofs.SignedZeros
import Reckoner.Proofs.ConsoleLog
import Reckoner.Proofs.RunPhases
import Reckoner.Proofs.SessionLines
import Reckoner.Proofs.NumberTexts
import Reckoner.Proofs.Dumps
