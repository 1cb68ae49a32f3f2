import Transceiver.Operation.Format
import Transceiver.Proofs.Airtime
import Transceiver.Proofs.Coherence
import Transceiver.Proofs.Conservation
import Transceiver.Proofs.Deadline
import Transceiver.Proofs.Interpretation
import Transceiver.Proofs.Log
import Transceiver.Proofs.Overrun
import Transceiver.Proofs.Shielding
import Transceiver.Proofs.Supersession
import Transceiver.Script
import Transceiver.Proofs.Abreast
import Transceiver.Proofs.Rest
import Transceiver.Proofs.Swallowed
import Transceiver.Proofs.FrameLength
import Transceiver.Proofs.Refusal
import Transceiver.Proofs.Recovery
import Transceiver.Proofs.Verdict
import Transceiver.Proofs.Drain
import Transceiver.Proofs.Longest
import Transceiver.Proofs.TimeOnAir
import Transceiver.Proofs.FrameContent
import Transceiver.Proofs.Spelling
import Transceiver.Proofs.Cell
import Transceiver.Proofs.Conversion
