import HtnPlanning.Search
import HtnPlanning.ConfigStore
import HtnPlanning.Samples.Juggling
import HtnPlanning.Samples.Logistics
import HtnPlanning.Samples.Spin
import HtnPlanning.Proofs.Search.Recursion
import HtnPlanning.Proofs.Search.Stack
import HtnPlanning.Proofs.Supply
import HtnPlanning.Proofs.Network.Precedence
import HtnPlanning.Proofs.Network.Validation
import HtnPlanning.Proofs.Network.FanOut
import HtnPlanning.Proofs.Network.Rewriting
import HtnPlanning.Proofs.Decomposition
import HtnPlanning.Proofs.Linearization.TaskOrder
import HtnPlanning.Proofs.Domain.Index
import HtnPlanning.Proofs.Linearization.Execution
import HtnPlanning.Proofs.Search.Soundness
import HtnPlanning.Proofs.Logic.Renaming
import HtnPlanning.Proofs.Unification
import HtnPlanning.Proofs.Network.Renaming
import HtnPlanning.Proofs.Linearization.Renaming
import HtnPlanning.Proofs.Search.Choice
import HtnPlanning.Proofs.Search.Derivation
import HtnPlanning.Proofs.Search.Completeness
import HtnPlanning.Proofs.Network.Reachability
import HtnPlanning.Proofs.Network.Building
import HtnPlanning.Proofs.Unification.MostGeneral
import HtnPlanning.Proofs.Decomposition.Order
import HtnPlanning.Proofs.Search.Lineage
import HtnPlanning.Proofs.Workspace
import HtnPlanning.Proofs.Domain.Copies
import HtnPlanning.Proofs.Unification.Orientation
import HtnPlanning.Proofs.Decomposition.Hygiene
import HtnPlanning.Proofs.Search.Examination
import HtnPlanning.Proofs.Search.Failures
import HtnPlanning.Proofs.Search.Budget
import HtnPlanning.Proofs.Search.DeadEnds
import HtnPlanning.Proofs.Search.Akin
import HtnPlanning.Proofs.Search.Pruning
import HtnPlanning.Proofs.Network.Replacement
import HtnPlanning.Proofs.Search.Lasting
import HtnPlanning.Proofs.Search.Visits
import HtnPlanning.Proofs.Search.Termination
import HtnPlanning.Proofs.Linearization.Refusal
import HtnPlanning.Proofs.Search.Causes
import HtnPlanning.Proofs.Search.Renaming
import HtnPlanning.Proofs.Network.Admission
import HtnPlanning.Proofs.Network.Refinement
import HtnPlanning.Proofs.Linearization.CanonicalOrder
import HtnPlanning.Proofs.Linearization.Decision
import HtnPlanning.Proofs.Linearization.Exchange
import HtnPlanning.Proofs.Linearization.FixedState
import HtnPlanning.Proofs.Decomposition.Commutation
import HtnPlanning.Proofs.Network.Substitution
import HtnPlanning.Proofs.Linearization.Reissue
import HtnPlanning.Proofs.Search.Balance
import HtnPlanning.Proofs.Unification.Chains
import HtnPlanning.Proofs.Logic.ClosedWorld
import HtnPlanning.Proofs.Linearization.Grounding
import HtnPlanning.Proofs.Linearization.Updates
import HtnPlanning.Proofs.Document.Values
import HtnPlanning.Proofs.Json.Token
import HtnPlanning.Proofs.Json.Text
import HtnPlanning.Proofs.Document.Config
import HtnPlanning.Proofs.ConfigStore
import HtnPlanning.Proofs.Network.Recording
import HtnPlanning.Proofs.Network.Visiting
import HtnPlanning.Proofs.Network.Variables
import HtnPlanning.Proofs.Search.Rules
import HtnPlanning.Proofs.Search.Conclusions
import HtnPlanning.Proofs.Search.Goal
import HtnPlanning.Proofs.Linearization.Rules
import HtnPlanning.Proofs.Linearization.Chain
import HtnPlanning.Proofs.Samples.Templates
import HtnPlanning.Proofs.Samples.Juggling
import HtnPlanning.Proofs.Samples.Logistics
import HtnPlanning.Proofs.Samples
