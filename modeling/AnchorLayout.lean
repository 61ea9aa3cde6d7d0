import AnchorLayout.Json.Codec
import AnchorLayout.Main
import AnchorLayout.Registry
import AnchorLayout.Proofs.Operation
import AnchorLayout.Proofs.Session.Act
import AnchorLayout.Proofs.Hierarchy.Line
import AnchorLayout.Proofs.Hierarchy.Place
import AnchorLayout.Proofs.Session.Unfolding
import AnchorLayout.Proofs.Hierarchy.Forest
import AnchorLayout.Proofs.Hierarchy.Move
import AnchorLayout.Proofs.Session.Ordinary
import AnchorLayout.Proofs.Session.Outcome
import AnchorLayout.Proofs.Hierarchy.Descent
import AnchorLayout.Proofs.Hierarchy.Sweep
import AnchorLayout.Proofs.Hierarchy.Reachable
import AnchorLayout.Proofs.Session.Roots
import AnchorLayout.Proofs.Session.Marks
import AnchorLayout.Proofs.Session.Client
import AnchorLayout.Proofs.Session.Updates
import AnchorLayout.Proofs.Number.Rounding
import AnchorLayout.Proofs.Number.Overflow
import AnchorLayout.Proofs.Number.Exact
import AnchorLayout.Proofs.Number.Numeral
import AnchorLayout.Proofs.Number.Reread
import AnchorLayout.Proofs.Clause.Lexing
import AnchorLayout.Proofs.Clause.Stretch
import AnchorLayout.Proofs.Clause.Grammar
import AnchorLayout.Proofs.Clause.Expression
import AnchorLayout.Proofs.Clause.Guard
import AnchorLayout.Proofs.Clause.Yield
import AnchorLayout.Proofs.Clause.Item
import AnchorLayout.Proofs.Clause.ItemList
import AnchorLayout.Proofs.Clause.Timing
import AnchorLayout.Proofs.Clause.Legible
import AnchorLayout.Proofs.Clause.RoundTrip
import AnchorLayout.Proofs.Clause.Canonical
import AnchorLayout.Proofs.Clause.Precedence
import AnchorLayout.Proofs.Clause.Lockstep
import AnchorLayout.Proofs.Clause.Locality
import AnchorLayout.Proofs.Clause.Independence
import AnchorLayout.Proofs.Clause.Literal
import AnchorLayout.Proofs.Constraint.Assignment
import AnchorLayout.Proofs.Constraint.Renaming
import AnchorLayout.Proofs.Constraint.Edits
import AnchorLayout.Proofs.Constraint.Orderly
import AnchorLayout.Proofs.Constraint.Plain
import AnchorLayout.Proofs.Hierarchy.Container
import AnchorLayout.Proofs.Hierarchy.Filling
import AnchorLayout.Proofs.Hierarchy.Placing
import AnchorLayout.Proofs.Hierarchy.Integrity
import AnchorLayout.Proofs.Hierarchy.Sparing
import AnchorLayout.Proofs.Hierarchy.Atomic
import AnchorLayout.Proofs.Session.Issuing
import AnchorLayout.Proofs.Session.Occasion
import AnchorLayout.Proofs.Session.Suspension
import AnchorLayout.Proofs.Session.Chain
import AnchorLayout.Proofs.Session.Ledger
import AnchorLayout.Proofs.Session.Pending
import AnchorLayout.Proofs.Session.Awaited
import AnchorLayout.Proofs.Session.Single
import AnchorLayout.Proofs.Layout.WellFormed
import AnchorLayout.Proofs.Layout.Docking
import AnchorLayout.Proofs.Layout.Accepted
import AnchorLayout.Proofs.Layout.Storing
import AnchorLayout.Proofs.Layout.Routed
import AnchorLayout.Proofs.Layout.Written
import AnchorLayout.Proofs.Layout.Commuting
import AnchorLayout.Proofs.Layout.Edited
import AnchorLayout.Proofs.Layout.Outlasting
import AnchorLayout.Proofs.Constraint.Linear
import AnchorLayout.Proofs.Layout.AllOrNothing
import AnchorLayout.Proofs.Layout.Undoing
import AnchorLayout.Proofs.Style.History
import AnchorLayout.Proofs.Session.Styling
import AnchorLayout.Proofs.Layout.Moving
import AnchorLayout.Proofs.Text.Slicing
import AnchorLayout.Proofs.Style.Coloring
import AnchorLayout.Proofs.Clause.Spans
import AnchorLayout.Proofs.Clause.Walk
import AnchorLayout.Proofs.Clause.Steady
import AnchorLayout.Proofs.Clause.Sliced
import AnchorLayout.Proofs.Session.Sweeping
import AnchorLayout.Proofs.Session.Traversal
