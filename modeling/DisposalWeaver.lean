import DisposalWeaver.Proofs.RefinedDisposal
import DisposalWeaver.Main
import DisposalWeaver.Machine.PlatformNatives
import DisposalWeaver.Machine.Script
import DisposalWeaver.TypeGraph.MemberPath
import DisposalWeaver.Proofs.OnwardCode
import DisposalWeaver.Proofs.RepeatedDisposal
import DisposalWeaver.Proofs.AcceptedBodies
import DisposalWeaver.Proofs.TypeFrame
import DisposalWeaver.Proofs.SessionReport
import DisposalWeaver.Proofs.RepeatedWeaving
import DisposalWeaver.Proofs.FailedSessions
import DisposalWeaver.Proofs.MemberNames
import DisposalWeaver.Proofs.CallableHooks
import DisposalWeaver.Proofs.DisposedFields
import DisposalWeaver.Proofs.OrderedExits
import DisposalWeaver.Proofs.DisposedAccess
import DisposalWeaver.Proofs.FieldTriage
import DisposalWeaver.Proofs.PlacedGuards
import DisposalWeaver.Proofs.Assignability
import DisposalWeaver.Proofs.NearestAnswers
import DisposalWeaver.Proofs.BoundedRuns
import DisposalWeaver.Proofs.LocalPointers
import DisposalWeaver.Proofs.QualifiedNames
import DisposalWeaver.Proofs.EditedBodies
import DisposalWeaver.Proofs.LastingReferences
import DisposalWeaver.Proofs.OptOutRemoval
