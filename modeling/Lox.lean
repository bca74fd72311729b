import Lox.Text.Blank
import Lox.Text.Case
import Lox.Text.Quoted
import Lox.Decimal.Layout
import Lox.Decimal.Reading
import Lox.Token.Listing
import Lox.Token.Scan.Lemmas
import Lox.Tree.Parenthesized
import Lox.Tree.References
import Lox.Grammar
import Lox.Resolution
import Lox.Value.Operator
import Lox.Value.Typed
import Lox.Store
import Lox.Eval
import Lox.Report
import Lox.Session
import Lox.Session.Lenient
import Lox.Command
import Lox.Main
import Lox.Channel.Shared
import Lox.Proofs.Grammar.Derivation
import Lox.Proofs.Grammar.Reads
import Lox.Proofs.Grammar.Soundness
import Lox.Proofs.Grammar.Lookahead
import Lox.Proofs.Grammar.Reaches
import Lox.Proofs.Tree.Unsited
import Lox.Proofs.Grammar.Completeness
import Lox.Proofs.Grammar.Roundtrip
import Lox.Proofs.Run.Layer
import Lox.Proofs.Run.Trace
import Lox.Proofs.Run.Contract
import Lox.Proofs.Run.Agreement
import Lox.Proofs.Run.Known
import Lox.Proofs.Run.Steps
import Lox.Proofs.Run.Makes
import Lox.Proofs.Run.Frames
import Lox.Proofs.Run.Classes
import Lox.Proofs.Run.Standing
import Lox.Proofs.Run.References
import Lox.Proofs.Run.Operators
import Lox.Proofs.Run.Rules
import Lox.Proofs.Run.Actions
import Lox.Proofs.Run.Expressions
import Lox.Proofs.Run.Statements
import Lox.Proofs.Scope.Walk
import Lox.Proofs.Token.Spelled
import Lox.Proofs.Scope.Tidy
import Lox.Proofs.Scope.Visits
import Lox.Proofs.Scope.Fits
import Lox.Proofs.Scope.Places
import Lox.Proofs.Scope.Distance
import Lox.Proofs.Store.Chain
import Lox.Proofs.Grammar.Sites
import Lox.Proofs.Run.Chronicle
import Lox.Proofs.Run.Sessions
import Lox.Proofs.Run.Log
import Lox.Proofs.Run.Returns
import Lox.Proofs.Run.Constants
import Lox.Proofs.Grammar.Seam
import Lox.Proofs.Grammar.Append
import Lox.Proofs.Twin.Alike
import Lox.Proofs.Twin.Values
import Lox.Proofs.Twin.Store
import Lox.Proofs.Twin.Machine
import Lox.Proofs.Twin.Evaluation
import Lox.Proofs.Twin.Scopes
import Lox.Proofs.Twin.Resited
import Lox.Proofs.Twin.Sessions
import Lox.Proofs.Token.Joined
import Lox.Proofs.Token.Segments
import Lox.Proofs.Token.Layout
import Lox.Proofs.Token.Respelled
import Lox.Proofs.Twin.Splitting
import Lox.Proofs.Tree.Renamed
import Lox.Proofs.Twin.Renaming
import Lox.Proofs.Grammar.Renamed
import Lox.Proofs.Session.Stages
import Lox.Proofs.Session.Lines
import Lox.Proofs.Session.Renaming
import Lox.Proofs.Tree.Names
import Lox.Proofs.Grammar.Sources
import Lox.Proofs.Store.Lineage
import Lox.Proofs.Proper.Values
import Lox.Proofs.Proper.Steps
import Lox.Proofs.Proper.Layers
import Lox.Proofs.Proper.Evaluation
import Lox.Proofs.Proper.Orderly
import Lox.Proofs.Session.Deeds
import Lox.Proofs.Proper.Sessions
import Lox.Proofs.Session.History
import Lox.Proofs.Session.Sites
import Lox.Proofs.Store.Reachable
import Lox.Proofs.Session.Scopes
import Lox.Proofs.Token.Lines
import Lox.Proofs.Session.Provenance
import Lox.Proofs.Channel.Lines
import Lox.Proofs.Session.Readings
import Lox.Proofs.Scope.Points
import Lox.Proofs.Scope.Records
import Lox.Proofs.Scope.Addressing
import Lox.Proofs.Scope.Members
import Lox.Proofs.Run.Makers
import Lox.Proofs.Session.Inheritance
import Lox.Proofs.Session.Clauses
import Lox.Proofs.Run.Watched
import Lox.Proofs.Session.Activations
import Lox.Proofs.Run.Restores
import Lox.Proofs.Session.Restores
import Lox.Proofs.Store.Access
import Lox.Proofs.Twin.Likeness
import Lox.Proofs.Lowered.Trees
import Lox.Proofs.Lowered.Settings
import Lox.Proofs.Lowered.Resolving
import Lox.Proofs.Lowered.Store
import Lox.Proofs.Lowered.Machine
import Lox.Proofs.Lowered.Steps
import Lox.Proofs.Lowered.Rounds
import Lox.Proofs.Lowered.Evaluation
import Lox.Proofs.Lowered.Rows
import Lox.Proofs.Lowered.Phrases
import Lox.Proofs.Lowered.Sessions
import Lox.Proofs.Decimal.Rounding
import Lox.Proofs.Decimal.Distinct
import Lox.Proofs.Tree.Parenthesized
import Lox.Proofs.Run.Fuel
import Lox.Proofs.Run.Silent
import Lox.Proofs.Run.Capped
import Lox.Proofs.Session.FullSink
import Lox.Proofs.Grammar.Ending
import Lox.Proofs.Scope.Shifted
import Lox.Proofs.Twin.Printing
import Lox.Proofs.Attested.Values
import Lox.Proofs.Attested.Steps
import Lox.Proofs.Attested.Evaluation
import Lox.Proofs.Attested.Sessions
import Lox.Proofs.Run.Calls
import Lox.Proofs.Session.Construction
import Lox.Proofs.Scope.Resolve
import Lox.Proofs.Scope.Restores
import Lox.Proofs.Tree.Formed
import Lox.Proofs.Grammar.Script
import Lox.Proofs.Grammar.Scripts
import Lox.Proofs.Grammar.Slice
import Lox.Proofs.Grammar.Termination
import Lox.Proofs.Formed.Steps
import Lox.Proofs.Formed.Layers
import Lox.Proofs.Formed.Runs
import Lox.Proofs.Grammar.Breaks
import Lox.Proofs.Grammar.Unended
