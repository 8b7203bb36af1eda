import AndInverter.Aiger.Document
import AndInverter.Aiger.Error
import AndInverter.Aiger.File
import AndInverter.Aiger.Load
import AndInverter.Aiger.Parse
import AndInverter.Aiger.Write
import AndInverter.CommandLine.Arguments
import AndInverter.CommandLine.Command
import AndInverter.CommandLine.Config
import AndInverter.CommandLine.JsonText
import AndInverter.CommandLine.Run
import AndInverter.Conjunction
import AndInverter.Decimal.Binary64
import AndInverter.Decimal.Read
import AndInverter.Decimal.Shortest
import AndInverter.Depth
import AndInverter.Directory
import AndInverter.Equivalence
import AndInverter.Event
import AndInverter.Fault
import AndInverter.Law
import AndInverter.Log
import AndInverter.Main
import AndInverter.Network.Basic
import AndInverter.Network.Construct
import AndInverter.Network.Edit
import AndInverter.Network.Fanout
import AndInverter.Network.Invariant
import AndInverter.Network.Retire
import AndInverter.Network.Substitute
import AndInverter.Network.Summary
import AndInverter.Network.Text
import AndInverter.Network.Topology
import AndInverter.Network.Traverse
import AndInverter.Proofs.Aiger.Acceptance
import AndInverter.Proofs.Aiger.Denotation
import AndInverter.Proofs.Aiger.Format
import AndInverter.Proofs.Aiger.Listing
import AndInverter.Proofs.Aiger.Load
import AndInverter.Proofs.Aiger.OnePass
import AndInverter.Proofs.Aiger.Parse
import AndInverter.Proofs.Aiger.Reordering
import AndInverter.Proofs.Aiger.Roundtrip
import AndInverter.Proofs.Aiger.Write
import AndInverter.Proofs.Canonicity
import AndInverter.Proofs.Conjunction
import AndInverter.Proofs.Connective
import AndInverter.Proofs.CriticalPath
import AndInverter.Proofs.Equivalence
import AndInverter.Proofs.Expression
import AndInverter.Proofs.Freshness
import AndInverter.Proofs.History
import AndInverter.Proofs.Interpretation
import AndInverter.Proofs.Level
import AndInverter.Proofs.Network.Assembly
import AndInverter.Proofs.Network.Breadth
import AndInverter.Proofs.Network.Changes
import AndInverter.Proofs.Network.Chronicle
import AndInverter.Proofs.Network.Cone
import AndInverter.Proofs.Network.Confinement
import AndInverter.Proofs.Network.Consistent
import AndInverter.Proofs.Network.Construction
import AndInverter.Proofs.Network.Cycle
import AndInverter.Proofs.Network.Economy
import AndInverter.Proofs.Network.Evaluation
import AndInverter.Proofs.Network.FreeCone
import AndInverter.Proofs.Network.Generation
import AndInverter.Proofs.Network.Graph
import AndInverter.Proofs.Network.Independence
import AndInverter.Proofs.Network.Invariant
import AndInverter.Proofs.Network.Isomorphism
import AndInverter.Proofs.Network.Ordering
import AndInverter.Proofs.Network.Progress
import AndInverter.Proofs.Network.Regular
import AndInverter.Proofs.Network.Renaming
import AndInverter.Proofs.Network.Replacement
import AndInverter.Proofs.Network.Resolution
import AndInverter.Proofs.Network.Retirement
import AndInverter.Proofs.Network.Rewiring
import AndInverter.Proofs.Network.Service
import AndInverter.Proofs.Network.Steady
import AndInverter.Proofs.Network.Substitution
import AndInverter.Proofs.Network.Termination
import AndInverter.Proofs.Network.TopologicalOrder
import AndInverter.Proofs.Network.Unread
import AndInverter.Proofs.Network.Wear
import AndInverter.Proofs.Record
import AndInverter.Proofs.Restructure.Attempt
import AndInverter.Proofs.Restructure.Depth
import AndInverter.Proofs.Restructure.Derivation
import AndInverter.Proofs.Restructure.Factoring
import AndInverter.Proofs.Restructure.Fixpoint
import AndInverter.Proofs.Restructure.Function
import AndInverter.Proofs.Restructure.Interruption
import AndInverter.Proofs.Restructure.Laws
import AndInverter.Proofs.Restructure.Outcome
import AndInverter.Proofs.Restructure.Progress
import AndInverter.Proofs.Restructure.Reassociation
import AndInverter.Proofs.Restructure.Redistribution
import AndInverter.Proofs.Restructure.Refusal
import AndInverter.Proofs.Restructure.Settled
import AndInverter.Proofs.Restructure.Steady
import AndInverter.Proofs.Restructure.Tidy
import AndInverter.Proofs.Restructure.Weight
import AndInverter.Proofs.Run
import AndInverter.Proofs.Simulation
import AndInverter.Proofs.Tables
import AndInverter.Proofs.Text
import AndInverter.Proofs.Unfolding
import AndInverter.Proofs.Weight
import AndInverter.Random.Chance
import AndInverter.Random.Generator
import AndInverter.Random.Network
import AndInverter.Restructure.Associativity
import AndInverter.Restructure.Distributivity
import AndInverter.Restructure.Engine
import AndInverter.Restructure.Options
import AndInverter.Restructure.ThreeLevel
import AndInverter.Restructure.Workspace
import AndInverter.Sample
import AndInverter.Signal
import AndInverter.Simulate
import AndInverter.Text.Blank
import AndInverter.Text.Lines
import AndInverter.Text.Numeral
import AndInverter.Text.Toml
