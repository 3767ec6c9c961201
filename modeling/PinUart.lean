import PinUart.Cli.Execute
import PinUart.Main
import PinUart.Proofs.Accounts
import PinUart.Proofs.Connection
import PinUart.Proofs.Custody
import PinUart.Proofs.Deafness
import PinUart.Proofs.Enabling
import PinUart.Proofs.Exactness
import PinUart.Proofs.Fifo
import PinUart.Proofs.Idling
import PinUart.Proofs.Isolation
import PinUart.Proofs.Joining
import PinUart.Proofs.Loopback
import PinUart.Proofs.Masking
import PinUart.Proofs.Nets
import PinUart.Proofs.Occupancy
import PinUart.Proofs.Overlong
import PinUart.Proofs.Owing
import PinUart.Proofs.Ownership
import PinUart.Proofs.Pacing
import PinUart.Proofs.Pauses
import PinUart.Proofs.Printing
import PinUart.Proofs.Provenance
import PinUart.Proofs.Punctuality
import PinUart.Proofs.Recovery
import PinUart.Proofs.Retuning
import PinUart.Proofs.Runs
import PinUart.Proofs.Session
import PinUart.Proofs.Strides
import PinUart.Proofs.Tenure
import PinUart.Proofs.Throttling
import PinUart.Proofs.Turning
import PinUart.World
