import SharedBus.Session
import SharedBus.Proofs.ServiceOrder
import SharedBus.Proofs.Coupling
import SharedBus.Proofs.Outcome
import SharedBus.Proofs.Forgotten
import SharedBus.Proofs.Configuration
import SharedBus.Proofs.Sending
import SharedBus.Proofs.Polling
import SharedBus.Proofs.Expiry
import SharedBus.Proofs.Transcript
import SharedBus.Proofs.Discipline
import SharedBus.Proofs.Resets
import SharedBus.Proofs.Receiving
import SharedBus.Proofs.Refusals
import SharedBus.Proofs.Interleaving
import SharedBus.Proofs.PinTransfers
import SharedBus.Proofs.Waking
import SharedBus.Proofs.Registration
import SharedBus.Proofs.ServedWaits
import SharedBus.Proofs.FixedStorage
import SharedBus.Proofs.Substitution
import SharedBus.Proofs.TwoClocks
import SharedBus.Proofs.TwoRuns
import SharedBus.Proofs.Timeless
import SharedBus.Proofs.Translation
import SharedBus.Proofs.PowerState
import SharedBus.Proofs.Stamps
import SharedBus.Proofs.TimeoutCheck
import SharedBus.Proofs.Conservation
import SharedBus.Proofs.Draining
import SharedBus.Proofs.PinOutcomes
import SharedBus.Proofs.PortByte
import SharedBus.Proofs.PinLevels
import SharedBus.Proofs.PolledTicks
import SharedBus.Proofs.LinkedQueue
import SharedBus.Proofs.Bounds
