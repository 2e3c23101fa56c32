import LayoutBus.GridConnect.Decoder
import LayoutBus.Interface.Run
import LayoutBus.Interface.Exchange
import LayoutBus.Peripheral
import LayoutBus.Proofs.Bus.Agreement
import LayoutBus.Proofs.GridConnect.Stream
import LayoutBus.Proofs.Interface.Permission
import LayoutBus.Proofs.Interface.Delivery
import LayoutBus.Proofs.Alias.Orbit
import LayoutBus.Proofs.Interface.Concord
import LayoutBus.Proofs.Interface.Record
import LayoutBus.Proofs.Interface.History
import LayoutBus.Proofs.Interface.Recovery
import LayoutBus.Proofs.Interface.Reservation
import LayoutBus.Proofs.Interface.Transit
import LayoutBus.Proofs.Interface.Dispatch
import LayoutBus.Proofs.Interface.Prediction
import LayoutBus.Proofs.Interface.Sending
import LayoutBus.Proofs.Interface.Answering
import LayoutBus.Proofs.Interface.Overflow
import LayoutBus.Proofs.Alias.Bijection
import LayoutBus.Proofs.Message.Stores
import LayoutBus.Proofs.Interface.Lifetime
import LayoutBus.Proofs.Interface.Unmarked
import LayoutBus.Proofs.Interface.Locking
import LayoutBus.Proofs.Interface.Rounds
import LayoutBus.Proofs.Wire.Builders
import LayoutBus.Proofs.Message.Editing
import LayoutBus.Proofs.Alias.Registers
