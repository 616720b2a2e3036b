import SchemaOrder.Main
import SchemaOrder.Proofs.Intersection.Complete
import SchemaOrder.Proofs.Intersection.Patterns
import SchemaOrder.Proofs.Soundness
import SchemaOrder.Proofs.Certainty
import SchemaOrder.Proofs.Widening
import SchemaOrder.Proofs.Resolving
import SchemaOrder.Proofs.Intersection.Commuting
import SchemaOrder.Proofs.Slots
import SchemaOrder.Proofs.Discriminants
import SchemaOrder.Proofs.Sampling
import SchemaOrder.Proofs.CaseTable
import SchemaOrder.Proofs.Intersection.Negations
import SchemaOrder.Proofs.Operands
import SchemaOrder.Proofs.NormalConditions
import SchemaOrder.Proofs.CanonicalFixpoint
import SchemaOrder.Proofs.Conditions
import SchemaOrder.Proofs.Magnitudes
import SchemaOrder.Proofs.Undecided
import SchemaOrder.Proofs.Formats
import SchemaOrder.Proofs.Truncation
