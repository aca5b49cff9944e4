import WhatIf.Brief.Plans
import WhatIf.Hook.Probe
import WhatIf.Shadow.Extension
import WhatIf.Catalog.Scripted
import WhatIf.Slots
import WhatIf.Document.Schema.Statements
import WhatIf.Proofs.Session.Invisible
import WhatIf.Proofs.Session.World
import WhatIf.Proofs.Session.Routed
import WhatIf.Proofs.Partition.Disjoint
import WhatIf.Proofs.Shadow.Atomic
import WhatIf.Proofs.Session.Identifiers
import WhatIf.Proofs.Partition.Order
import WhatIf.Proofs.Partition.Checked
import WhatIf.Proofs.Partition.Siblings
import WhatIf.Proofs.Partition.Reordering
import WhatIf.Proofs.Shadow.Metadata
import WhatIf.Proofs.Constraint.Implication
import WhatIf.Proofs.Plan.Enforced
import WhatIf.Proofs.Hook.Coupled
import WhatIf.Proofs.Plan.Additional
import WhatIf.Proofs.Catalog.Lookups
import WhatIf.Proofs.Registry.Additional
import WhatIf.Proofs.Shadow.Additional
import WhatIf.Proofs.Session.Additional
import WhatIf.Proofs.Hook.Discipline
import WhatIf.Proofs.Hook.Agree
import WhatIf.Proofs.Hook.Discreet
import WhatIf.Proofs.Plan.ByWindow
import WhatIf.Proofs.Session.Isolated
import WhatIf.Proofs.Shadow.Refutation
import WhatIf.Proofs.Partition.Pruning
import WhatIf.Proofs.Partition.Hashing
import WhatIf.Proofs.Decimal.Order
import WhatIf.Proofs.Datum.Numbers
import WhatIf.Proofs.Partition.Drawing
import WhatIf.Proofs.Partition.Overlaps
import WhatIf.Proofs.Partition.Reproduced
import WhatIf.Proofs.Registry.Remainders
import WhatIf.Proofs.Catalog.Inheritors
import WhatIf.Proofs.Catalog.Dependable
import WhatIf.Proofs.Shadow.Expansion
import WhatIf.Proofs.Plan.Bindings
import WhatIf.Proofs.Index.Levels
import WhatIf.Proofs.Index.Naming
import WhatIf.Proofs.Index.Definition
import WhatIf.Proofs.Shadow.Walks
import WhatIf.Proofs.Store.Generations
