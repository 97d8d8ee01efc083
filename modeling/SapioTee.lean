import SapioTee.Proofs.Abort
import SapioTee.Proofs.Admission
import SapioTee.Proofs.Budget
import SapioTee.Proofs.Envelope
import SapioTee.Proofs.GuestMemory
import SapioTee.Proofs.GuestPrograms
import SapioTee.Proofs.Host
import SapioTee.Proofs.Initialize
import SapioTee.Proofs.KeyIdentity
import SapioTee.Proofs.KeyPolicy
import SapioTee.Proofs.Lint
import SapioTee.Proofs.NativePolicy
import SapioTee.Proofs.ProcessCalls
import SapioTee.Proofs.Profile
import SapioTee.Proofs.Publication
import SapioTee.Proofs.Record
import SapioTee.Proofs.SignerKeys
import SapioTee.Proofs.SignerNonces
import SapioTee.Proofs.SignerSessions
import SapioTee.Proofs.SnapshotCreate
import SapioTee.Proofs.SourcePlan
import SapioTee.Proofs.TemplateRoom
import SapioTee.Proofs.Vault
