import ChangesetReplay.Host
import ChangesetReplay.Proofs.FilledTables
import ChangesetReplay.Proofs.FilledStores
import ChangesetReplay.Proofs.LinkIntegrity
import ChangesetReplay.Proofs.RunPrefix
import ChangesetReplay.Proofs.ImportedStores
import ChangesetReplay.Proofs.JsonText
import ChangesetReplay.Proofs.JsonShapes
import ChangesetReplay.Proofs.ValueForms
import ChangesetReplay.Proofs.SnapshotForms
import ChangesetReplay.Proofs.SnapshotRoundTrip
import ChangesetReplay.Proofs.CoherentStores
import ChangesetReplay.Proofs.PrimaryKeys
import ChangesetReplay.Proofs.SelectionValidity
import ChangesetReplay.Proofs.RaisedCauses
import ChangesetReplay.Proofs.FailureCauses
import ChangesetReplay.Proofs.BackReferences
import ChangesetReplay.Proofs.NameIndependence
import ChangesetReplay.Proofs.KeyHistories
import ChangesetReplay.Proofs.HostResponses
import ChangesetReplay.Proofs.SnapshotEquality
import ChangesetReplay.Proofs.ChangesetForms
import ChangesetReplay.Proofs.ErasedObjects
import ChangesetReplay.Proofs.UndoneCreations
import ChangesetReplay.Proofs.SelectionHistories
import ChangesetReplay.Proofs.StaleSelections
import ChangesetReplay.Proofs.ScalarWrites
import ChangesetReplay.Proofs.CreatedObjects
import ChangesetReplay.Proofs.ListEdits
import ChangesetReplay.Proofs.WriteOrder
import ChangesetReplay.Proofs.StepFrames
import ChangesetReplay.Proofs.TruthfulEffects
import ChangesetReplay.Proofs.ImportNormalization
import ChangesetReplay.Proofs.StringRanges
import ChangesetReplay.Proofs.ChangesetBuilding
