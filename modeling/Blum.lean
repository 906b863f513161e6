import Blum.Arith.Power.Lemmas
import Blum.Main
import Blum.Proofs.Generation
import Blum.Proofs.HandleTables
import Blum.Proofs.Endless
import Blum.Proofs.UnitSquares
import Blum.Random.ByteStream
import Blum.Unchecked
import Blum.Proofs.JacobiSymbol
import Blum.Proofs.Membership
import Blum.Proofs.Outcomes
import Blum.Proofs.TrialDivision
import Blum.Proofs.RawBytes
import Blum.Proofs.FourRoots
import Blum.Proofs.Sampling
import Blum.Proofs.SmallKeys
import Blum.Proofs.FourEngines
import Blum.Proofs.Boundary
import Blum.Proofs.EngineFaults
import Blum.Proofs.Clients
import Blum.Proofs.SelfChecks
import Blum.Proofs.Attempts
import Blum.Proofs.Products
import Blum.Proofs.Orbits
import Blum.Proofs.Ambiguity
import Blum.Proofs.FirstPrime
import Blum.Proofs.KeyMaterial
import Blum.Proofs.Courses
import Blum.Proofs.Reports
import Blum.Proofs.Trapdoors
import Blum.Proofs.CandidateDraws
import Blum.Proofs.SymbolProducts
import Blum.Proofs.ByteOrder
import Blum.Proofs.Recombination
import Blum.Proofs.BlumRoots
import Blum.Proofs.Doubles
import Blum.Proofs.BenchmarkTable
