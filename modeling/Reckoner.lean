import Reckoner.Competition.Transfer
import Reckoner.Engine
import Reckoner.Graph.Resolve
import Reckoner.Settings.Toml
import Reckoner.Proofs.Table
import Reckoner.Proofs.Competition.Shares
import Reckoner.Proofs.Competition.Conservation
import Reckoner.Proofs.Rule.Accumulation
import Reckoner.Proofs.Graph.Memory
import Reckoner.Proofs.Expr.Paths
import Reckoner.Proofs.Rule.Paths
import Reckoner.Proofs.Decimal.Double
import Reckoner.Proofs.Decimal.Digits
import Reckoner.Proofs.Decimal.Interval
import Reckoner.Proofs.Decimal.Shortest
import Reckoner.Proofs.Decimal.Notation
import Reckoner.Proofs.Json.Document
import Reckoner.Proofs.Json.Quoted
import Reckoner.Proofs.Json.Text
import Reckoner.Proofs.Policy.Cache
import Reckoner.Proofs.Policy.History
import Reckoner.Proofs.Policy.Key
import Reckoner.Proofs.Engine.Transparency
import Reckoner.Proofs.Rule.Composition
import Reckoner.Proofs.Expr.Limits
import Reckoner.Proofs.Expr.Threshold
import Reckoner.Proofs.Rule.Limits
import Reckoner.Proofs.Graph.Cycles
import Reckoner.Proofs.Graph.Order
import Reckoner.Proofs.Graph.Moments
import Reckoner.Proofs.Graph.Termination
import Reckoner.Proofs.Graph.Requests
import Reckoner.Proofs.Graph.Seeding
import Reckoner.Proofs.Graph.Construction
import Reckoner.Proofs.Decimal.Whole
import Reckoner.Proofs.Json.Reading
import Reckoner.Proofs.Json.Record
import Reckoner.Proofs.Expr.Coding
import Reckoner.Proofs.Template.Coding
import Reckoner.Proofs.Json.Nodes
import Reckoner.Proofs.Expr.Grammar
import Reckoner.Proofs.Rule.RoundTrip
import Reckoner.Proofs.Rule.Building
import Reckoner.Proofs.Rule.Outcomes
import Reckoner.Proofs.Template.Grammar
import Reckoner.Proofs.Expr.RoundTrip
import Reckoner.Proofs.Template.Substitution
import Reckoner.Proofs.Rule.Trace
import Reckoner.Proofs.Rule.Noninterference
import Reckoner.Proofs.Rule.Exchange
import Reckoner.Proofs.Fact.Numbers
import Reckoner.Proofs.Fact.Equality
import Reckoner.Proofs.Fact.RoundTrip
import Reckoner.Proofs.Fact.Path
import Reckoner.Proofs.Fact.Lookup
import Reckoner.Proofs.Fact.Intersection
import Reckoner.Proofs.Expr.Inlining
import Reckoner.Proofs.Decimal.Rounding
import Reckoner.Proofs.Decimal.Sum
import Reckoner.Proofs.Rule.Overflow
import Reckoner.Proofs.Decimal.Order
import Reckoner.Proofs.Decimal.Nearest
import Reckoner.Proofs.Expr.Arguments
import Reckoner.Proofs.Expr.Collections
import Reckoner.Proofs.Expr.Negation
import Reckoner.Proofs.Expr.Extrema
import Reckoner.Proofs.Expr.Grouping
import Reckoner.Proofs.Json.Canonical
import Reckoner.Proofs.Competition.Contrast
import Reckoner.Proofs.Competition.Range
import Reckoner.Proofs.Competition.Claims
import Reckoner.Proofs.Competition.Redistribution
import Reckoner.Proofs.Competition.Ranking
import Reckoner.Proofs.Competition.Replay
