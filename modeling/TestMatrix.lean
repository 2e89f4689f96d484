import TestMatrix.Machine
import TestMatrix.Main
import TestMatrix.Proofs.Exclusion
import TestMatrix.Proofs.TemplateCache
import TestMatrix.Proofs.Suppression
import TestMatrix.Proofs.Discovery
import TestMatrix.Proofs.EarlyFaults
import TestMatrix.Proofs.Lookups
import TestMatrix.Proofs.Wildcards
import TestMatrix.Proofs.Destinations
import TestMatrix.Proofs.Persistence
import TestMatrix.Proofs.Selections
import TestMatrix.Proofs.Substitution
import TestMatrix.Proofs.Commands
import TestMatrix.Proofs.Definitions
import TestMatrix.Proofs.Diagnostics
import TestMatrix.Proofs.Contexts
import TestMatrix.Proofs.Topmost
import TestMatrix.Proofs.Placeholders
import TestMatrix.Proofs.Conditions
import TestMatrix.Proofs.Unfolding
import TestMatrix.Proofs.Blocks
import TestMatrix.Proofs.Atomicity
import TestMatrix.Proofs.Leftovers
import TestMatrix.Proofs.CheckedFields
import TestMatrix.Proofs.Tokens
import TestMatrix.Proofs.Injection
import TestMatrix.Proofs.NodeKeys
import TestMatrix.Proofs.Excerpts
import TestMatrix.Proofs.Branches
