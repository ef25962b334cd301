import TypeRecovery.Proofs.AliasSizes
import TypeRecovery.Proofs.AssembledSlots
import TypeRecovery.Proofs.Batches
import TypeRecovery.Proofs.CanonicalNumbering
import TypeRecovery.Proofs.Containment
import TypeRecovery.Proofs.LeastExtents
import TypeRecovery.Proofs.LocationTables
import TypeRecovery.Proofs.Recovery
import TypeRecovery.Proofs.SessionFailures
import TypeRecovery.Proofs.StructLayout
import TypeRecovery.Proofs.Termination
import TypeRecovery.Proofs.TypeKinds
import TypeRecovery.Proofs.TypedefNames
import TypeRecovery.Proofs.Validation
import TypeRecovery.Typing.Text
